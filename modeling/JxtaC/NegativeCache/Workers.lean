import JxtaC.NegativeCache.Account
import JxtaC.NegativeCache.Fifo
import Mathlib.Logic.Function.Basic

/-
  The workers that send messages, and the negative cache they share. A step is a critical section of
  `outgoing_message_process` (the lookup and, where there is an entry, all that is done with it;
  the send; `nc_add_peer`), of a transport event (`check_nc_entry`) or of `nc_review_all`. Messages
  that are discarded before the lookup (no destination, no time to live) are not in the model.
  Between the lookup and `nc_add_peer` another worker can add the entry: the second one takes its
  place, with all that waits in it. In the runs where this does not happen, and no message comes
  into a full ring, no message is lost silently (`no_silent_loss`).
-/

namespace JxtaC.NegativeCache

open Lib List

/-- Where a worker is in `outgoing_message_process`. -/
inductive Phase (Msg : Type) where
  | idle
  /-- The lookup has found no entry. -/
  | missed (msg : Msg)
  /-- The peer was not reachable; the entry is still to be added. -/
  | unreachable (msg : Msg)
  deriving DecidableEq

/-- The negative cache of `jxta_endpoint_service`, and the workers. -/
structure Endpoint (Addr Msg : Type) where
  nc : Addr → Option (NcEntry Msg)
  worker : Nat → Phase Msg
  /-- What has happened to the messages for an address. -/
  log : Addr → List (Event Msg)

/-- A step of a worker or of a transport event. -/
inductive Step (Addr Msg : Type) where
  | lookup (worker : Nat) (msg : Msg) (pass : Pass) (own : Status)
  | send (worker : Nat) (res : Status)
  | addPeer (worker : Nat) (now : Int)
  | connected (addr : Addr) (pass : Pass)
  /-- The entries in the order of the hash table. -/
  | reviewAll (visits : List (Addr × Pass)) (nodup : (visits.map Prod.fst).Nodup)

namespace Endpoint

variable {Addr Msg : Type}

/-- At the start there is no entry, and nobody sends. -/
def init : Endpoint Addr Msg := ⟨fun _ => none, fun _ => .idle, fun _ => []⟩

/-- The messages in the retransmit queue of an address. -/
def queue (s : Endpoint Addr Msg) (addr : Addr) : List Msg :=
  ((s.nc addr).map NcEntry.contents).getD []

/-- A message whose last send found the peer unreachable waits in the queue of its destination, if
its worker has added the entry; or it gave way to as many newer ones as the queue takes; or the
entry was at its maximum timeout. -/
def NotLost [DecidableEq Msg] (config : NcConfig) (dest : Msg → Addr) (s : Endpoint Addr Msg) :
    Prop :=
  ∀ msg, lastAttempt (s.log (dest msg)) msg = some .unreachableDest →
    msg ∈ s.queue (dest msg) ∨ (∃ w, s.worker w = .unreachable msg) ∨
    (.evicted msg ∈ s.log (dest msg) ∧ ∃ older newer,
      entered (s.log (dest msg)) = older ++ msg :: newer ∧ config.ncrqSize ≤ newer.length) ∨
    ∃ timeout, config.ncTimeoutMax ≤ timeout ∧ Shed (s.log (dest msg)) msg timeout

/-- Where an entry is removed, all messages of its queue were sent in this step. -/
def RemovedSent (s s' : Endpoint Addr Msg) : Prop :=
  ∀ addr entry, s.nc addr = some entry → s'.nc addr = none →
    ∀ msg ∈ entry.contents, .sent msg ∈ (s'.log addr).drop (s.log addr).length

section Step
variable [DecidableEq Addr]

/-- An operation on the entry of an address. -/
def operate (config : NcConfig) (s : Endpoint Addr Msg) (addr : Addr) (op : Op Msg) :
    Exec (Endpoint Addr Msg) := do
  let (entry, _, events) ← perform config (s.nc addr) op
  return { s with
    nc := Function.update s.nc addr entry
    log := Function.update s.log addr (s.log addr ++ events) }

/-- The end of `nc_add_peer`: the new entry takes its place in the table. -/
def setEntry (s : Endpoint Addr Msg) (addr : Addr) (msg : Msg) :
    Option (NcEntry Msg) → Endpoint Addr Msg
  | none => s
  | some entry => { s with
      nc := Function.update s.nc addr (some entry)
      log := Function.update s.log addr (s.log addr ++
        (if entry.rq = none then [] else [.queued msg])) }

/-- `nc_review_all`. -/
def ncReviewAll (config : NcConfig) : List (Addr × Pass) → Endpoint Addr Msg →
    Exec (Endpoint Addr Msg)
  | [], s => .ok s
  | (addr, pass) :: visits, s => do
    let s ← s.operate config addr (.review pass)
    ncReviewAll config visits s

/-- One step; `dest` is the destination of a message. -/
def step (heap : Heap) (config : NcConfig) (dest : Msg → Addr) (s : Endpoint Addr Msg) :
    Step Addr Msg → Exec (Endpoint Addr Msg × Unit)
  | .lookup w msg pass own =>
    match s.worker w, s.nc (dest msg) with
    | .idle, some _ => do return (← s.operate config (dest msg) (.queueMsg pass own msg), ())
    | .idle, none => .ok ({ s with worker := Function.update s.worker w (.missed msg) }, ())
    | _, _ => .ok (s, ())
  | .send w res =>
    match s.worker w with
    | .missed msg =>
      let phase := if res = .unreachableDest then .unreachable msg else .idle
      .ok ({ s with
        worker := Function.update s.worker w phase
        log := Function.update s.log (dest msg) (s.log (dest msg) ++ [.offered msg res]) }, ())
    | _ => .ok (s, ())
  | .addPeer w now =>
    match s.worker w with
    | .unreachable msg =>
      .ok ({ s with worker := Function.update s.worker w .idle }.setEntry (dest msg) msg
        (ncAddPeer heap config now msg), ())
    | _ => .ok (s, ())
  | .connected addr pass => do return (← s.operate config addr (.checkNcEntry pass), ())
  | .reviewAll visits _ => do return (← ncReviewAll config visits s, ())

/-- The entry that a worker in this phase adds takes nobody's place, and its queue can be
allocated. -/
def MayAdd (heap : Heap) (config : NcConfig) (dest : Msg → Addr) (s : Endpoint Addr Msg) :
    Phase Msg → Prop
  | .unreachable msg => s.nc (dest msg) = none ∧ config.rqSlots * sizeofPointer ≤ heap.limit
  | _ => True

/-- No entry is put in the place of another one, and no message into a full ring. -/
def Undisturbed (heap : Heap) (config : NcConfig) (dest : Msg → Addr) (s : Endpoint Addr Msg) :
    Step Addr Msg → Prop
  | .lookup w msg pass own =>
    s.worker w = .idle → HasRoom config (s.nc (dest msg)) (.queueMsg pass own msg)
  | .addPeer w _ => MayAdd heap config dest s (s.worker w)
  | _ => True

instance [DecidableEq Msg] (heap : Heap) (config : NcConfig) (dest : Msg → Addr)
    (s : Endpoint Addr Msg) (phase : Phase Msg) : Decidable (MayAdd heap config dest s phase) :=
  match phase with
  | .unreachable msg => inferInstanceAs (Decidable (s.nc (dest msg) = none ∧
      config.rqSlots * sizeofPointer ≤ heap.limit))
  | .idle => isTrue trivial
  | .missed _ => isTrue trivial

instance [DecidableEq Msg] (heap : Heap) (config : NcConfig) (dest : Msg → Addr)
    (s : Endpoint Addr Msg) (o : Step Addr Msg) : Decidable (Undisturbed heap config dest s o) :=
  match o with
  | .lookup w msg pass own => inferInstanceAs (Decidable (s.worker w = .idle →
      HasRoom config (s.nc (dest msg)) (.queueMsg pass own msg)))
  | .addPeer w _ => inferInstanceAs (Decidable (MayAdd heap config dest s (s.worker w)))
  | .send _ _ => isTrue trivial
  | .connected _ _ => isTrue trivial
  | .reviewAll _ _ => isTrue trivial

end Step

/-! ## the invariant -/

variable {config : NcConfig} {dest : Msg → Addr} {s : Endpoint Addr Msg} {addr : Addr}

theorem stands_contents {entry : Option (NcEntry Msg)} {p : Option (Pending Msg)}
    (h : Stands config entry p) : (entry.map NcEntry.contents).getD [] = held p := by
  cases h with
  | removed => rfl
  | entry hrep => exact hrep.contents

theorem eq_none_of_stands {p : Option (Pending Msg)} (h : Stands config none p) : p = none := by
  cases h with
  | removed => rfl

/-- A worker holds the message, and is to add an entry for it at the address. -/
def InFlight (dest : Msg → Addr) (s : Endpoint Addr Msg) (addr : Addr) (msg : Msg) : Prop :=
  dest msg = addr ∧ ∃ w, s.worker w = .unreachable msg

/-- A worker that has no entry to add goes on. -/
theorem InFlight.update {w : Nat} {phase : Phase Msg} {msg : Msg} (h : InFlight dest s addr msg)
    (hw : s.worker w ≠ .unreachable msg) :
    InFlight dest { s with worker := Function.update s.worker w phase } addr msg := by
  obtain ⟨hdest, w', hw'⟩ := h
  have hne : w' ≠ w := fun heq => hw (heq ▸ hw')
  exact ⟨hdest, w', (Function.update_of_ne hne _ _).trans hw'⟩

theorem removedSent_of_nc {s' : Endpoint Addr Msg} (hnc : s'.nc = s.nc) : RemovedSent s s' := by
  intro a entry hentry hnone
  rw [hnc, hentry] at hnone
  cases hnone

variable [DecidableEq Msg]

/-- The entry of an address stands for pending messages that account for its log. -/
def Sound (config : NcConfig) (InFlight : Msg → Prop) (entry : Option (NcEntry Msg))
    (log : List (Event Msg)) : Prop :=
  ∃ p, Stands config entry p ∧ Accounts config InFlight [] log (held p) ∧
    ∀ q ∈ p, q.AtMaximum config

/-- The invariant of the runs. -/
def Inv (config : NcConfig) (dest : Msg → Addr) (s : Endpoint Addr Msg) : Prop :=
  ∀ addr, Sound config (InFlight dest s addr) (s.nc addr) (s.log addr)

theorem inv_init : Inv config dest (init : Endpoint Addr Msg) :=
  fun _ => ⟨none, .removed, accounts_nil config _ [], nofun⟩

theorem Inv.notLost (h : Inv config dest s) : NotLost config dest s := by
  intro msg hlast
  obtain ⟨p, hstands, haccounts, -⟩ := h (dest msg)
  have hnewer := haccounts.newer msg
  rcases haccounts.kept msg (.inl hlast) with hin | (hout | ⟨timeout, hshed⟩) | hflight
  · left
    unfold queue
    rwa [stands_contents hstands]
  · exact .inr (.inr (.inl ⟨hout, hnewer hout⟩))
  · exact .inr (.inr (.inr ⟨timeout, haccounts.atMaximum msg timeout hshed, hshed⟩))
  · exact .inr (.inl hflight.2)

theorem Inv.ofWorker {s' : Endpoint Addr Msg} (h : Inv config dest s) (hnc : s'.nc = s.nc)
    (hlog : s'.log = s.log) (hflight : ∀ a m, InFlight dest s a m → InFlight dest s' a m) :
    Inv config dest s' := by
  intro a
  obtain ⟨p, hstands, haccounts, hmax⟩ := h a
  rw [hnc, hlog]
  exact ⟨p, hstands, haccounts.mono (hflight a), hmax⟩

variable [DecidableEq Addr]

/-- What an operation on the entry of an address does to the rest. -/
structure Touches (addr : Addr) (s s' : Endpoint Addr Msg) : Prop where
  worker : s'.worker = s.worker
  nc : ∀ a, a ≠ addr → s'.nc a = s.nc a
  log : ∀ a, a ≠ addr → s'.log a = s.log a

theorem operate_spec (hsize : 2 ≤ config.rqCapacity) (hinv : Inv config dest s) (addr : Addr)
    (op : Op Msg) (hroom : HasRoom config (s.nc addr) op) (hop : op ≠ .dropRetransmitQueue) :
    ∃ s', s.operate config addr op = .ok s' ∧ Inv config dest s' ∧ Touches addr s s' ∧
      ∀ entry, s.nc addr = some entry → s'.nc addr = none →
        ∀ msg ∈ entry.contents, .sent msg ∈ (s'.log addr).drop (s.log addr).length := by
  obtain ⟨p, hstands, haccounts, hmax⟩ := hinv addr
  obtain ⟨entry', hperform, hstands'⟩ := (perform_iff hsize _ p op hstands).mp hroom
  obtain ⟨hstep, hmax'⟩ := @Pending.perform_accounts Msg _ config (fun _ => False) p hmax op hop
  unfold operate
  rw [hperform]
  refine ⟨_, rfl, ?_, ⟨rfl, ?_, ?_⟩, ?_⟩
  · intro a
    by_cases ha : a = addr
    · subst ha
      dsimp only
      rw [Function.update_self, Function.update_self]
      exact ⟨_, hstands', haccounts.trans hstep, hmax'⟩
    · dsimp only
      rw [Function.update_of_ne ha, Function.update_of_ne ha]
      exact hinv a
  · exact fun a ha => Function.update_of_ne ha _ _
  · exact fun a ha => Function.update_of_ne ha _ _
  · intro entry hentry hnone msg hmsg
    dsimp only at hnone ⊢
    rw [Function.update_self] at hnone ⊢
    rw [drop_left]
    subst hnone
    rw [hentry] at hstands
    have hcontents := stands_contents hstands
    have hgone := eq_none_of_stands hstands'
    cases hstands with
    | entry hrep => exact Pending.perform_removes hgone msg (hcontents ▸ hmsg)

theorem reviewAll_spec (hsize : 2 ≤ config.rqCapacity) (visits : List (Addr × Pass))
    (hnodup : (visits.map Prod.fst).Nodup) (hinv : Inv config dest s) :
    ∃ s', ncReviewAll config visits s = .ok s' ∧ Inv config dest s' ∧ RemovedSent s s' ∧
      ∀ a ∉ visits.map Prod.fst, s'.nc a = s.nc a ∧ s'.log a = s.log a := by
  induction visits generalizing s with
  | nil =>
    refine ⟨s, rfl, hinv, ?_, fun a _ => ⟨rfl, rfl⟩⟩
    intro a entry hentry hnone
    rw [hentry] at hnone
    cases hnone
  | cons v visits ih =>
    obtain ⟨addr, pass⟩ := v
    rw [map_cons, nodup_cons] at hnodup
    obtain ⟨t, hoperate, hinv', htouches, hremoved⟩ :=
      operate_spec hsize hinv addr (.review pass) (hasRoom_other config _ nofun) nofun
    obtain ⟨s', hrest, hinv'', hremoved', hothers⟩ := ih hnodup.2 hinv'
    refine ⟨s', ?_, hinv'', ?_, ?_⟩
    · unfold ncReviewAll
      rw [hoperate]
      exact hrest
    · intro a entry hentry hnone
      by_cases ha : a = addr
      · subst ha
        obtain ⟨hnc, hlog⟩ := hothers a hnodup.1
        rw [hnc] at hnone
        rw [hlog]
        exact hremoved entry hentry hnone
      · rw [← htouches.nc a ha] at hentry
        rw [← htouches.log a ha]
        exact hremoved' a entry hentry hnone
    · intro a ha
      rw [map_cons, mem_cons, not_or] at ha
      obtain ⟨hnc, hlog⟩ := hothers a ha.2
      exact ⟨hnc.trans (htouches.nc a ha.1), hlog.trans (htouches.log a ha.1)⟩

/-- A send past the queue: where the peer was not reachable, the worker holds the message. -/
theorem send_spec {w : Nat} {msg : Msg} (hinv : Inv config dest s) (hw : s.worker w = .missed msg)
    (res : Status) :
    Inv config dest { s with
      worker := Function.update s.worker w
        (if res = .unreachableDest then .unreachable msg else .idle)
      log := Function.update s.log (dest msg) (s.log (dest msg) ++ [.offered msg res]) } := by
  have hflight : ∀ a m phase, InFlight dest s a m →
      InFlight dest { s with worker := Function.update s.worker w phase } a m :=
    fun a m phase hm => hm.update (by rw [hw]; nofun)
  intro a
  obtain ⟨p, hstands, haccounts, hmax⟩ := hinv a
  dsimp only
  by_cases ha : a = dest msg
  · subst ha
    rw [Function.update_self]
    refine ⟨p, hstands, ?_, hmax⟩
    have hoffer : Accounts config (fun m => m = msg ∧ res = .unreachableDest) (held p)
        [.offered msg res] (held p) := accounts_offered fun hres => ⟨rfl, hres⟩
    refine haccounts.append hoffer (fun m hm => .inr (.inr (hflight _ m _ hm))) ?_
    intro m hm
    obtain ⟨rfl, hres⟩ := hm
    refine ⟨rfl, w, ?_⟩
    rw [if_pos hres]
    exact Function.update_self w _ _
  · rw [Function.update_of_ne ha]
    exact ⟨p, hstands, haccounts.mono fun m hm => hflight a m _ hm, hmax⟩

/-- The first entry for an address. -/
theorem addPeer_spec {heap : Heap} {w : Nat} {msg : Msg} {now : Int} {entry : NcEntry Msg}
    (hsize : 2 ≤ config.rqCapacity) (hinv : Inv config dest s) (hw : s.worker w = .unreachable msg)
    (hnone : s.nc (dest msg) = none) (hadd : ncAddPeer heap config now msg = some entry) :
    Inv config dest ({ s with worker := Function.update s.worker w .idle }.setEntry (dest msg) msg
      (some entry)) := by
  have hrep := (addPeer_represents hadd).mpr hsize
  have hbound := rqCapacity_le config
  have hflight : ∀ a m, m ≠ msg → InFlight dest s a m →
      InFlight dest { s with worker := Function.update s.worker w .idle } a m :=
    fun a m hne hm => hm.update (by
      rw [hw]
      exact fun heq => hne (Phase.unreachable.inj heq).symm)
  intro a
  obtain ⟨p, hstands, haccounts, hmax⟩ := hinv a
  unfold setEntry
  dsimp only
  by_cases ha : a = dest msg
  · subst ha
    rw [Function.update_self, Function.update_self]
    refine ⟨some (Pending.start config now msg), .entry hrep, ?_, ?_⟩
    · rw [hnone] at hstands
      rw [eq_none_of_stands hstands] at haccounts
      rw [if_neg (fun hgone => Option.some_ne_none _ (hrep.rq_none_iff.mp hgone))]
      have hfirst : Accounts config (fun _ => False) [] [.queued msg] [msg] :=
        accounts_first (by omega) msg
      refine haccounts.append hfirst ?_ (fun _ hfalse => hfalse.elim)
      intro m hm
      by_cases hmsg : m = msg
      · exact .inl (mem_singleton.mpr hmsg)
      · exact .inr (.inr (hflight _ m hmsg hm))
    · intro q hq
      cases hq
      exact fun hgone => absurd hgone (Option.some_ne_none _)
  · rw [Function.update_of_ne ha, Function.update_of_ne ha]
    refine ⟨p, hstands, haccounts.mono ?_, hmax⟩
    intro m hm
    exact hflight a m (fun heq => ha (heq ▸ hm.1.symm)) hm

theorem operate_removes (hsize : 2 ≤ config.rqCapacity) (hinv : Inv config dest s) (addr : Addr)
    (op : Op Msg) (hroom : HasRoom config (s.nc addr) op) (hop : op ≠ .dropRetransmitQueue) :
    ∃ s', s.operate config addr op = .ok s' ∧ RemovedSent s s' ∧ Inv config dest s' := by
  obtain ⟨s', hs', hinv', htouches, hremoved⟩ := operate_spec hsize hinv addr op hroom hop
  refine ⟨s', hs', ?_, hinv'⟩
  intro b entry hentry hnone
  by_cases hb : b = addr
  · subst hb
    exact hremoved entry hentry hnone
  · rw [htouches.nc b hb, hentry] at hnone
    cases hnone

/-- One step of the workers, where nobody disturbs the others. -/
theorem step_spec (heap : Heap) (hsize : 2 ≤ config.rqCapacity) (o : Step Addr Msg)
    (hinv : Inv config dest s) (hsafe : Undisturbed heap config dest s o) :
    ∃ s' r, step heap config dest s o = .ok (s', r) ∧ RemovedSent s s' ∧ Inv config dest s' := by
  have hstays : ∃ s' r, Except.ok (s, ()) = (Except.ok (s', r) : Exec (Endpoint Addr Msg × Unit)) ∧
      RemovedSent s s' ∧ Inv config dest s' := ⟨s, (), rfl, removedSent_of_nc rfl, hinv⟩
  cases o with
  | lookup w msg pass own =>
    unfold step
    dsimp only
    cases hw : s.worker w with
    | idle =>
      cases hnc : s.nc (dest msg) with
      | none =>
        refine ⟨_, (), rfl, removedSent_of_nc rfl, hinv.ofWorker rfl rfl ?_⟩
        exact fun a m hm => hm.update (by rw [hw]; nofun)
      | some entry =>
        obtain ⟨s', hs', hspec⟩ :=
          operate_removes hsize hinv (dest msg) (.queueMsg pass own msg) (hsafe hw) nofun
        rw [hs']
        exact ⟨s', (), rfl, hspec⟩
    | missed m => exact hstays
    | unreachable m => exact hstays
  | send w res =>
    unfold step
    dsimp only
    cases hw : s.worker w with
    | idle => exact hstays
    | unreachable m => exact hstays
    | missed msg => exact ⟨_, (), rfl, removedSent_of_nc rfl, send_spec hinv hw res⟩
  | addPeer w now =>
    unfold step
    dsimp only
    cases hw : s.worker w with
    | idle => exact hstays
    | missed m => exact hstays
    | unreachable msg =>
      unfold Undisturbed at hsafe
      dsimp only at hsafe
      rw [hw] at hsafe
      obtain ⟨hnone, hserved⟩ := hsafe
      obtain ⟨entry, hadd⟩ := addPeer_made hserved now msg
      dsimp only
      rw [hadd]
      refine ⟨_, (), rfl, ?_, addPeer_spec hsize hinv hw hnone hadd⟩
      intro a old hold hgone
      by_cases ha : a = dest msg
      · rw [ha, hnone] at hold
        cases hold
      · exact absurd (hold.symm.trans ((Function.update_of_ne ha _ _).symm.trans hgone))
          (Option.some_ne_none old)
  | connected addr pass =>
    obtain ⟨s', hs', hspec⟩ :=
      operate_removes hsize hinv addr (.checkNcEntry pass) (hasRoom_other config _ nofun) nofun
    unfold step
    dsimp only
    rw [hs']
    exact ⟨s', (), rfl, hspec⟩
  | reviewAll visits nodup =>
    obtain ⟨s', hs', hinv', hremoved, -⟩ := reviewAll_spec hsize visits nodup hinv
    unfold step
    dsimp only
    rw [hs']
    exact ⟨s', (), rfl, hremoved, hinv'⟩

/-- In every state of a run no message is lost, and no entry is removed before its time. -/
def NoSilentLoss (heap : Heap) (config : NcConfig) (dest : Msg → Addr)
    (steps : List (Step Addr Msg)) : Prop :=
  Throughout (step heap config dest) (NotLost config dest) RemovedSent init steps

theorem no_silent_loss (heap : Heap) (hsize : 2 ≤ config.rqCapacity) (dest : Msg → Addr)
    (steps : List (Step Addr Msg))
    (hsafe : SafeRun (step heap config dest) (Undisturbed heap config dest) init steps) :
    NoSilentLoss heap config dest steps := by
  have hstep : ∀ s o, Inv config dest s → Undisturbed heap config dest s o →
      ∃ s' r, step heap config dest s o = .ok (s', r) ∧ RemovedSent s s' ∧ Inv config dest s' :=
    fun s o hinv ho => step_spec heap hsize o hinv ho
  exact throughout_of_safeRun (fun s hinv => Inv.notLost hinv) hstep steps inv_init hsafe

/-! ## two workers, one destination -/

/-- Both workers miss the entry, both find the peer unreachable, and both add an entry. -/
def twoWorkers : List (Step Nat Nat) :=
  [.lookup 0 0 ⟨0, 0, fun _ => .success⟩ .success, .lookup 1 1 ⟨0, 0, fun _ => .success⟩ .success,
    .send 0 .unreachableDest, .send 1 .unreachableDest, .addPeer 0 0, .addPeer 1 0]

theorem runs_twoWorkers :
    ∃ s r, runOps (step ⟨1024, by decide⟩ defaultConfig fun _ => 0) init twoWorkers = .ok (s, r) ∧
      s.nc 0 = some { firstEntry with rq := some [some 1, none, none, none, none] } ∧
      (∀ w, s.worker w = .idle) ∧ s.log 0 = [.offered 0 .unreachableDest,
        .offered 1 .unreachableDest, .queued 0, .queued 1] := by
  refine ⟨_, _, rfl, ?_, ?_, ?_⟩
  · decide +kernel
  · intro w
    by_cases hone : w = 1
    · rw [hone]
      rfl
    · by_cases hzero : w = 0
      · rw [hzero]
        rfl
      · change Function.update (Function.update (Function.update (Function.update (Function.update
          (Function.update (fun _ => Phase.idle) 0 _) 1 _) 0 _) 1 _) 0 _) 1 _ w = _
        rw [Function.update_of_ne hone, Function.update_of_ne hzero, Function.update_of_ne hone,
          Function.update_of_ne hzero, Function.update_of_ne hone, Function.update_of_ne hzero]
  · decide +kernel

/-- Message 0 was in the first entry, which is gone. -/
theorem not_no_silent_loss : ¬∀ (heap : Heap) (config : NcConfig), 1 ≤ config.ncrqSize →
    ∀ (dest : Nat → Nat) (steps : List (Step Nat Nat)), NoSilentLoss heap config dest steps := by
  intro h
  obtain ⟨s, r, hrun, hnc, hworker, hlog⟩ := runs_twoWorkers
  have hlost := (h _ defaultConfig (by decide) _ twoWorkers).last twoWorkers hrun 0
  rw [hlog] at hlost
  rcases hlost (by decide) with hin | ⟨w, hw⟩ | ⟨hout, -⟩ | ⟨timeout, -, hshed⟩
  · unfold queue at hin
    rw [hnc] at hin
    exact absurd hin (by decide)
  · rw [hworker] at hw
    cases hw
  · exact absurd hout (by decide)
  · rcases hshed with hshed | hshed
    · simp at hshed
    · simp at hshed

/-- One worker finds the entry of the other, and adds to its queue. -/
theorem no_silent_loss_two : NoSilentLoss ⟨1024, by decide⟩ defaultConfig (fun _ : Nat => 0)
    [.lookup 0 0 ⟨0, 0, fun _ => .success⟩ .success, .send 0 .unreachableDest, .addPeer 0 0,
      .lookup 1 1 ⟨0, 0, fun _ => .success⟩ .success,
      .reviewAll [(0, ⟨20000, 20000, fun _ => .success⟩)] (by decide)] :=
  no_silent_loss ⟨1024, by decide⟩ (by decide) _ _ (by decide +kernel)

end Endpoint

end JxtaC.NegativeCache
