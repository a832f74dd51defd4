import JxtaC.NegativeCache.Refines

/-
  Runs of operations on an entry. A step follows the bounded FIFO unless it puts a message into a
  full ring (`perform_iff`), and so the runs that follow it are those in which the ring always has
  room (`retransmit_queue_iff`). An entry made with one slot is wrong from the start: its tail is
  not a slot.
-/

namespace JxtaC.NegativeCache

open Lib Lib.Ring List

variable {Msg : Type} {config : NcConfig} {entry : NcEntry Msg} {p : Pending Msg} {pass : Pass}

/-- The ring is full, and the pass before the message leaves it so: the timeout is not over, or the
first send fails and the ring is not given up. -/
def NcEntry.StaysFull (config : NcConfig) (entry : NcEntry Msg) (pass : Pass) : Prop :=
  entry.rq ≠ none ∧ (entry.rqHead : Int) = entry.rqTail ∧
    (pass.now < entry.expiration ∨ pass.send 0 ≠ .success ∧
      ¬(pass.send 0 = .unreachableDest ∧ entry.timeout ≥ config.ncTimeoutMax))

/-- No message is put into a full ring. -/
def HasRoom (config : NcConfig) : Option (NcEntry Msg) → Op Msg → Prop
  | some entry, .queueMsg pass _ _ => ¬entry.StaysFull config pass
  | _, _ => True

instance (config : NcConfig) (entry : NcEntry Msg) (pass : Pass) :
    Decidable (entry.StaysFull config pass) :=
  inferInstanceAs (Decidable (entry.rq ≠ none ∧ (entry.rqHead : Int) = entry.rqTail ∧
    (pass.now < entry.expiration ∨ pass.send 0 ≠ .success ∧
      ¬(pass.send 0 = .unreachableDest ∧ entry.timeout ≥ config.ncTimeoutMax))))

instance (config : NcConfig) (s : Option (NcEntry Msg)) (op : Op Msg) :
    Decidable (HasRoom config s op) :=
  match s, op with
  | some entry, .queueMsg pass _ _ => inferInstanceAs (Decidable (¬entry.StaysFull config pass))
  | none, _ => isTrue trivial
  | some _, .processQueue _ => isTrue trivial
  | some _, .review _ => isTrue trivial
  | some _, .checkNcEntry _ => isTrue trivial
  | some _, .dropRetransmitQueue => isTrue trivial

/-- Only `nc_peer_queue_msg` needs room. -/
theorem hasRoom_other (config : NcConfig) (s : Option (NcEntry Msg)) {op : Op Msg}
    (h : ∀ pass own msg, op ≠ .queueMsg pass own msg) : HasRoom config s op := by
  cases s with
  | none => trivial
  | some entry =>
    cases op with
    | queueMsg pass own msg => exact absurd rfl (h pass own msg)
    | _ => trivial

/-- The messages are as many as the slots. -/
def Pending.Full (config : NcConfig) (p : Pending Msg) : Prop :=
  ∃ queue, p.queue = some queue ∧ (queue.length : Int) = config.rqCapacity

theorem Pending.full_queue {queue : List Msg} (h : p.queue = some queue) :
    p.Full config ↔ (queue.length : Int) = config.rqCapacity := by
  unfold Pending.Full
  constructor
  · intro hex
    obtain ⟨queue', hqueue, hlen⟩ := hex
    obtain rfl := Option.some.inj (h.symm.trans hqueue)
    exact hlen
  · exact fun hlen => ⟨queue, h, hlen⟩

theorem Pending.not_full_given_up (h : p.queue = none) : ¬p.Full config := by
  intro hex
  obtain ⟨queue, hqueue, -⟩ := hex
  exact absurd (h.symm.trans hqueue) (Option.some_ne_none queue).symm

theorem Represents.full_iff (h : Represents config entry p) :
    entry.rq ≠ none ∧ (entry.rqHead : Int) = entry.rqTail ↔ p.Full config := by
  have hkeeps := h.keeps
  have hconfig := h.capacity
  generalize hrq : entry.rq = rq at hkeeps
  generalize hqueue : p.queue = queue at hkeeps
  cases hkeeps with
  | givenUp => exact iff_of_false (fun hne => hne.1 rfl) (Pending.not_full_given_up hqueue)
  | @ring rq queue hring =>
    have hcap := hring.capacity
    have hfull := NegativeCache.full_iff hring
    rw [Pending.full_queue hqueue]
    constructor
    · intro heq
      have hlen := hfull.mp heq.2
      omega
    · exact fun hlen => ⟨Option.some_ne_none rq, hfull.mpr (by omega)⟩

/-- A pass leaves the queue full where nothing is sent and it is not given up. -/
theorem process_full (hsize : 2 ≤ config.rqCapacity)
    (hle : ((held (some p)).length : Int) ≤ config.rqCapacity) :
    (p.process config pass).1.Full config ↔ p.Full config ∧
      (pass.now < p.expiration ∨ pass.send 0 ≠ .success ∧
        ¬(pass.send 0 = .unreachableDest ∧ p.timeout ≥ config.ncTimeoutMax)) := by
  unfold Pending.process
  by_cases hnow : pass.now < p.expiration
  · rw [if_pos hnow]
    exact ⟨fun hfull => ⟨hfull, .inl hnow⟩, And.left⟩
  · rw [if_neg hnow]
    cases hqueue : p.queue with
    | none =>
      have hnot := @Pending.not_full_given_up Msg config p hqueue
      exact iff_of_false hnot (fun h => hnot h.1)
    | some queue =>
      rw [held_queue hqueue] at hle
      rw [Pending.full_queue hqueue]
      cases queue with
      | nil =>
        have hne : ¬((([] : List Msg).length : Int) = config.rqCapacity) := by
          rw [length_nil]
          omega
        exact iff_of_false (fun h => hne ((Pending.full_queue rfl).mp h)) (fun h => hne h.1)
      | cons msg rest =>
        dsimp only
        by_cases hsend : pass.send 0 = .success
        · have hshort : (Pending.flush pass.send (0 + 1) rest).1.length < (msg :: rest).length :=
            Nat.lt_succ_of_le (Pending.flush_length_le pass.send rest _)
          rw [Pending.flush_sent hsend]
          dsimp only
          rw [if_neg (fun h => absurd h.2 (by omega)), Pending.full_queue rfl]
          exact iff_of_false (by omega) (fun h => h.2.elim hnow (fun hne => hne.1 hsend))
        · rw [Pending.flush_stops hsend]
          by_cases hdown : pass.send 0 = .unreachableDest
          · rw [if_pos ⟨hdown, rfl⟩]
            unfold Pending.backOff
            by_cases hmax : p.timeout ≥ config.ncTimeoutMax
            · rw [if_pos hmax]
              exact iff_of_false (Pending.not_full_given_up rfl)
                (fun h => h.2.elim hnow (fun hne => hne.2 ⟨hdown, hmax⟩))
            · rw [if_neg hmax]
              refine (Pending.full_queue rfl).trans ?_
              exact ⟨fun hlen => ⟨hlen, .inr ⟨hsend, fun h => hmax h.2⟩⟩, And.left⟩
          · rw [if_neg (fun h => hdown h.1)]
            refine (Pending.full_queue rfl).trans ?_
            exact ⟨fun hlen => ⟨hlen, .inr ⟨hsend, fun h => hdown h.1⟩⟩, And.left⟩

theorem Represents.rq_none_iff (h : Represents config entry p) :
    entry.rq = none ↔ p.queue = none := by
  have hkeeps := h.keeps
  generalize entry.rq = rq at hkeeps
  generalize p.queue = queue at hkeeps
  cases hkeeps with
  | givenUp => exact iff_of_true rfl rfl
  | ring hring => exact iff_of_false (Option.some_ne_none _) (Option.some_ne_none _)

theorem Stands.represents (h : Stands config (some entry) (some p)) :
    Represents config entry p := by
  cases h with
  | entry hrep => exact hrep

theorem Represents.length_le (h : Represents config entry p) (hsize : 0 ≤ config.rqCapacity) :
    ((held (some p)).length : Int) ≤ config.rqCapacity := by
  have hkeeps := h.keeps
  have hconfig := h.capacity
  generalize hrq : entry.rq = rq at hkeeps
  generalize hqueue : p.queue = queue at hkeeps
  cases hkeeps with
  | givenUp =>
    rw [held_given_up hqueue]
    exact hsize
  | @ring rq queue hring =>
    have hcap := hring.capacity
    have hle := hring.holds.length_le
    rw [held_queue hqueue]
    omega

theorem removePeer_ok (h : Represents config entry p) (hempty : held (some p) = []) :
    entry.ncRemovePeer = .ok () := by
  have hkeeps := h.keeps
  unfold NcEntry.ncRemovePeer
  generalize hrq : entry.rq = rq at hkeeps
  generalize hqueue : p.queue = queue at hkeeps
  cases hkeeps with
  | givenUp => exact if_pos (.inl rfl)
  | @ring rq queue hring =>
    rw [held_queue hqueue] at hempty
    have htail := hring.tail
    rw [hempty] at htail
    exact if_pos (.inr htail)

section
variable (hsize : 2 ≤ config.rqCapacity)
include hsize

/-- A message is put into the queue as it should be, or the ring is full. -/
theorem enqueue_iff (h : Represents config entry p) {rq : List (Option Msg)}
    (hrq : entry.rq = some rq) (msg : Msg) :
    (∃ entry', entry.enqueue rq msg = .ok (entry', (p.push config.ncrqSize msg).2) ∧
      Represents config entry' (p.push config.ncrqSize msg).1) ↔ ¬p.Full config := by
  have hne : entry.rq ≠ none := hrq ▸ Option.some_ne_none rq
  rw [← h.full_iff]
  by_cases hfull : (entry.rqHead : Int) = entry.rqTail
  · exact iff_of_false (enqueue_full h hrq hfull hsize msg) (fun hroom => hroom ⟨hne, hfull⟩)
  · exact iff_of_true (enqueue_push h hrq hfull msg) (fun hroom => hfull hroom.2)

theorem queueMsg_iff (h : Represents config entry p) (pass : Pass) (own : Status) (msg : Msg) :
    (∃ entry', entry.ncPeerQueueMsg config pass own msg =
        .ok (entry', (p.queueMsg config pass own msg).2) ∧
      Stands config entry' (p.queueMsg config pass own msg).1) ↔
      ¬entry.StaysFull config pass := by
  have hle : ((held (some p)).length : Int) ≤ config.rqCapacity := h.length_le (by omega)
  have hstays : entry.StaysFull config pass ↔ (p.process config pass).1.Full config := by
    rw [process_full hsize hle, ← h.full_iff, ← h.timeout, ← h.expiration]
    exact and_assoc.symm
  obtain ⟨mid, hpass, hmid⟩ := processQueue_spec h pass
  have hempty := @Pending.process_success Msg config pass p
  rw [hstays]
  unfold NcEntry.ncPeerQueueMsg Pending.queueMsg
  rw [hpass]
  generalize p.process config pass = out at *
  obtain ⟨q, res, events⟩ := out
  dsimp only at hmid hempty ⊢
  rw [ok_bind]
  by_cases hback : res = .success ∧ own ≠ .unreachableDest
  · have hnone := hempty hback.1
    have hnot : ¬q.Full config := by
      intro hfull
      obtain ⟨queue, hqueue, hlen⟩ := hfull
      rw [held_queue hqueue] at hnone
      rw [hnone, length_nil] at hlen
      omega
    rw [if_pos hback, if_pos hback, if_pos hback.1, removePeer_ok hmid hnone]
    exact iff_of_true ⟨none, rfl, .removed⟩ hnot
  · have hoffer : (if res = .success then events ++ [Event.offered msg own] else events) =
        events ++ (if res = .success then [Event.offered msg own] else []) := by
      split
      · rfl
      · exact (append_nil events).symm
    rw [if_neg hback, if_neg hback, hoffer]
    cases hrq : mid.rq with
    | none =>
      have hgone := hmid.rq_none_iff.mp hrq
      unfold Pending.push
      rw [hgone, hmid.timeout]
      exact iff_of_true ⟨some mid, rfl, .entry hmid⟩ (Pending.not_full_given_up hgone)
    | some rq =>
      rw [← enqueue_iff hsize hmid hrq msg]
      constructor
      · intro hex
        obtain ⟨entry', heq, hstands⟩ := hex
        obtain ⟨⟨next, more⟩, henqueue, hret⟩ := bind_eq_ok.mp heq
        obtain ⟨rfl, hrest⟩ := Prod.mk.inj (Except.ok.inj hret)
        obtain rfl := append_cancel_left (Prod.mk.inj hrest).2
        exact ⟨next, henqueue, hstands.represents⟩
      · intro hex
        obtain ⟨next, henqueue, hrep⟩ := hex
        dsimp only
        rw [henqueue]
        exact ⟨some next, rfl, .entry hrep⟩

/-- A step on an entry follows the bounded FIFO, unless a message comes into a full ring. -/
theorem perform_iff (s : Option (NcEntry Msg)) (t : Option (Pending Msg)) (op : Op Msg)
    (h : Stands config s t) :
    HasRoom config s op ↔ ∃ s', perform config s op = .ok (s', (Pending.perform config t op).2) ∧
      Stands config s' (Pending.perform config t op).1 := by
  cases h with
  | removed => exact iff_of_true trivial ⟨none, rfl, .removed⟩
  | @entry entry p h =>
    cases op with
    | queueMsg pass own msg =>
      refine (queueMsg_iff hsize h pass own msg).symm.trans ?_
      constructor
      · intro hex
        obtain ⟨entry', hqueue, hstands⟩ := hex
        unfold perform NcEntry.perform
        dsimp only
        rw [hqueue]
        exact ⟨entry', rfl, hstands⟩
      · intro hex
        obtain ⟨entry', heq, hstands⟩ := hex
        obtain ⟨⟨entry'', res, events⟩, hqueue, hret⟩ := bind_eq_ok.mp heq
        obtain ⟨rfl, hrest⟩ := Prod.mk.inj (Except.ok.inj hret)
        obtain ⟨hres, rfl⟩ := Prod.mk.inj hrest
        cases hres
        exact ⟨entry'', hqueue, hstands⟩
    | processQueue pass =>
      obtain ⟨entry', hpass, hrep⟩ := processQueue_spec h pass
      unfold perform NcEntry.perform
      dsimp only
      rw [hpass]
      exact iff_of_true trivial ⟨some entry', rfl, .entry hrep⟩
    | review pass =>
      obtain ⟨entry', hpass, hrep⟩ := processQueue_spec h pass
      have hempty := @Pending.process_success Msg config pass p
      unfold perform NcEntry.perform NcEntry.ncReview Pending.perform
      dsimp only
      rw [hpass]
      refine iff_of_true trivial ?_
      generalize p.process config pass = out at *
      obtain ⟨q, res, events⟩ := out
      dsimp only at hrep hempty ⊢
      rw [ok_bind]
      by_cases hback : res = .success ∧ entry'.rq ≠ none
      · rw [if_pos hback, if_pos ⟨hback.1, fun hnone => hback.2 (hrep.rq_none_iff.mpr hnone)⟩,
          removePeer_ok hrep (hempty hback.1)]
        exact ⟨none, rfl, .removed⟩
      · rw [if_neg hback,
          if_neg (fun hgone => hback ⟨hgone.1, fun hnone => hgone.2 (hrep.rq_none_iff.mp hnone)⟩)]
        exact ⟨some entry', rfl, .entry hrep⟩
    | checkNcEntry pass =>
      have hreset : Represents config { entry with expiration := 0 } { p with expiration := 0 } :=
        ⟨h.timeout, rfl, h.capacity, h.keeps⟩
      obtain ⟨entry', hpass, hrep⟩ := processQueue_spec hreset pass
      have hempty := @Pending.process_success Msg config pass { p with expiration := 0 }
      unfold perform NcEntry.perform NcEntry.checkNcEntry Pending.perform
      dsimp only
      rw [hpass]
      refine iff_of_true trivial ?_
      generalize Pending.process config pass { p with expiration := 0 } = out at *
      obtain ⟨q, res, events⟩ := out
      dsimp only at hrep hempty ⊢
      rw [ok_bind]
      by_cases hback : res = .success
      · rw [if_pos hback, if_pos hback, removePeer_ok hrep (hempty hback)]
        exact ⟨none, rfl, .removed⟩
      · rw [if_neg hback, if_neg hback]
        exact ⟨some entry', rfl, .entry hrep⟩
    | dropRetransmitQueue =>
      obtain ⟨entry', hdrop, hrep⟩ := dropRetransmitQueue_spec h
      unfold perform NcEntry.perform
      dsimp only
      rw [hdrop]
      exact iff_of_true trivial ⟨some entry', rfl, .entry hrep⟩

end

/-! ## runs -/

/-- `calloc` does not serve a negative number of slots. -/
theorem rqSlots_eq {heap : Heap} (h : config.rqSlots * sizeofPointer ≤ heap.limit) :
    (config.rqSlots : Int) = config.rqCapacity := by
  have hlimit := heap.limit_lt
  have hlow := Int.le_bmod (x := config.ncrqSize) (m := uintMod) (by decide)
  have hhigh := Int.bmod_lt (x := config.ncrqSize) (m := uintMod) (by decide)
  unfold NcConfig.rqSlots NcConfig.rqCapacity sizeofPointer sizeMod at *
  unfold uintMod at *
  omega

/-- One message in the first slot, and the tail behind it. -/
theorem first_message {slots : Nat} (hpos : 0 < slots) (msg : Msg) :
    RingHolds 0 1 slots ((List.replicate slots none).set 0 (some msg)) [msg] ↔ 2 ≤ slots := by
  have hempty : Holds (List.replicate slots (none : Option Msg)) 0 [] := holds_replicate hpos
  have hlen : (List.replicate slots (none : Option Msg)).length = slots := length_replicate
  have hholds := holds_push hempty (by rwa [hlen]) msg
  rw [hlen, length_nil, slot_zero hpos] at hholds
  constructor
  · intro hring
    have htail := hring.tail
    rw [length_set, hlen] at htail
    by_contra hone
    obtain rfl : slots = 1 := by omega
    rw [length_singleton] at htail
    cases htail
  · intro hsize
    refine ⟨hholds, ?_, ?_⟩
    · rw [length_set, hlen]
    · rw [length_set, hlen]
      unfold slot
      rw [Nat.mod_eq_of_lt (by rw [length_singleton]; omega)]
      rfl

/-- The new entry holds its message, if the ring has more than one slot. -/
theorem addPeer_represents {heap : Heap} {now : Int} {msg : Msg}
    (h : ncAddPeer heap config now msg = some entry) :
    Represents config entry (Pending.start config now msg) ↔ 2 ≤ config.rqCapacity := by
  unfold ncAddPeer at h
  dsimp only at h
  split at h
  · rename_i hcap
    split at h
    · rename_i hserved
      have hslots := rqSlots_eq hserved
      generalize config.rqSlots = slots at *
      generalize hcapacity : config.rqCapacity = capacity at *
      cases h
      have hfirst := @first_message Msg slots (by omega) msg
      rw [hslots] at hfirst
      constructor
      · intro hrep
        have hkeeps := hrep.keeps
        cases hkeeps with
        | ring hring =>
          have hsize := hfirst.mp hring
          omega
      · intro hsize
        exact ⟨rfl, rfl, hcapacity.symm, .ring (hfirst.mpr (by omega))⟩
    · cases h
  · rename_i hcap
    cases h
    refine iff_of_false ?_ (by omega)
    intro hrep
    have hnone := hrep.rq_none_iff.mp rfl
    exact Option.some_ne_none _ hnone

/-- An entry is made where its queue can be allocated. -/
theorem addPeer_made {heap : Heap} (hserved : config.rqSlots * sizeofPointer ≤ heap.limit)
    (now : Int) (msg : Msg) : ∃ entry, ncAddPeer heap config now msg = some entry := by
  unfold ncAddPeer
  generalize config.rqSlots = slots at *
  generalize config.rqCapacity = capacity
  dsimp only
  rw [if_pos hserved]
  split
  · exact ⟨_, rfl⟩
  · exact ⟨_, rfl⟩

/-- In every state of the run the ring is the bounded FIFO, which answers every operation. Each
message leaves it once, and in the order in which it came. -/
structure IsBoundedFifo (config : NcConfig) (now : Int) (msg : Msg) (entry : NcEntry Msg)
    (ops : List (Op Msg)) : Prop where
  follows : Follows (perform config) (Pending.perform config) (Stands config) (some entry)
    (some (Pending.start config now msg)) ops
  once : ∃ last answers p, runOps (perform config) (some entry) ops = .ok (last, answers) ∧
    Stands config last p ∧ Conserves [msg] (allEvents answers) (held p) ∧
    (held p).length ≤ config.ncrqSize

theorem retransmit_queue_iff (heap : Heap) (hcap : 1 ≤ config.ncrqSize) {now : Int} {msg : Msg}
    (hadd : ncAddPeer heap config now msg = some entry) (ops : List (Op Msg)) :
    IsBoundedFifo config now msg entry ops ↔
      2 ≤ config.rqCapacity ∧ SafeRun (perform config) (HasRoom config) (some entry) ops := by
  have hstart := addPeer_represents hadd
  constructor
  · intro h
    have hrep := h.follows.rel.represents
    have hsize := hstart.mp hrep
    exact ⟨hsize, (follows_iff_safeRun (perform_iff hsize) ops (.entry hrep)).mp h.follows⟩
  · intro h
    have hstands : Stands config (some entry) (some (Pending.start config now msg)) :=
      .entry (hstart.mpr h.1)
    have hfollows := (follows_iff_safeRun (perform_iff h.1) ops hstands).mpr h.2
    obtain ⟨last, hrun, hlast⟩ := hfollows.runOps
    have hconserves := Pending.run_conserves config ops (some (Pending.start config now msg))
    exact ⟨hfollows, last, _, _, hrun, hlast, hconserves, Pending.run_length_le ops hcap⟩

/-- The settings of an endpoint configuration in which nothing is said. -/
def defaultConfig : NcConfig := ⟨15000, 300000, 5⟩

/-- Six messages come for a peer that is not reachable; then it is, and the queue is sent. -/
def sixMessages : List (Op Nat) :=
  let waiting : Pass := ⟨1, 1, fun _ => .success⟩
  [1, 2, 3, 4, 5].map (.queueMsg waiting .success) ++ [.review ⟨20000, 20000, fun _ => .success⟩]

/-- The entry that `nc_add_peer` makes at time 0 for message 0. -/
def firstEntry : NcEntry Nat := ⟨15000, 15000, some [some 0, none, none, none, none], 0, 1, 5⟩

/-- The messages 0 to 4 leave the queue, and the entry is removed: message 5 is lost. -/
theorem sixMessages_lost : Returns (runOps (perform defaultConfig) (some firstEntry) sixMessages)
    fun r => r.1 = none ∧ entered (allEvents r.2) = [1, 2, 3, 4, 5] ∧
      departed (allEvents r.2) = [0, 1, 2, 3, 4] := by
  decide +kernel

theorem not_retransmit_queue : ¬∀ (heap : Heap) (config : NcConfig), 1 ≤ config.ncrqSize →
    ∀ (now : Int) (msg : Nat) (entry : NcEntry Nat), ncAddPeer heap config now msg = some entry →
      ∀ ops, IsBoundedFifo config now msg entry ops := by
  intro h
  have hmade : ncAddPeer ⟨1024, by decide⟩ defaultConfig 0 0 = some firstEntry := by
    decide +kernel
  obtain ⟨last, answers, p, hrun, hstands, hconserves, -⟩ :=
    (h _ defaultConfig (by decide) 0 0 firstEntry hmade sixMessages).once
  obtain ⟨hnone, hin, hout⟩ := returns_ok sixMessages_lost hrun
  dsimp only at hnone hin hout
  subst hnone
  cases hstands
  unfold Conserves at hconserves
  rw [hin, hout] at hconserves
  cases hconserves

/-- Four more messages find room in the ring. -/
theorem retransmit_queue_five : IsBoundedFifo defaultConfig 0 0 firstEntry (sixMessages.take 4) :=
  (retransmit_queue_iff ⟨1024, by decide⟩ (by decide) (by decide +kernel) _).mpr
    (by decide +kernel)

end JxtaC.NegativeCache
