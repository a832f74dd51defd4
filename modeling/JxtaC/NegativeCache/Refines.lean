import JxtaC.Lib.Ring
import JxtaC.NegativeCache.Pending

/-
  The ring of an entry and the messages it stands for. `flushLoop_spec` and `dropLoop_spec`: the
  loops empty the ring from its head and end. `enqueue_push`: in a ring with room a message comes
  behind the last. In a full ring the head moves but the tail stays (`enqueue_full`): from there on
  the message that was put in is outside the ring.
-/

namespace JxtaC.NegativeCache

open Lib Lib.Ring

variable {Msg : Type} {config : NcConfig} {entry : NcEntry Msg} {p : Pending Msg}
  {rq : List (Option Msg)} {queue : List Msg}

/-- The ring holds the messages: `rq_tail` is the slot behind the last one, or -1. -/
structure RingHolds (rqHead : Nat) (rqTail rqCapacity : Int) (rq : List (Option Msg))
    (queue : List Msg) : Prop where
  holds : Holds rq rqHead queue
  capacity : rqCapacity = rq.length
  tail : rqTail = if queue.length = 0 then -1 else (slot rq.length rqHead queue.length : Int)

/-- The queue of an entry is gone, or its ring holds the messages. -/
inductive Keeps (rqHead : Nat) (rqTail rqCapacity : Int) :
    Option (List (Option Msg)) → Option (List Msg) → Prop where
  | givenUp : Keeps rqHead rqTail rqCapacity none none
  | ring {rq : List (Option Msg)} {queue : List Msg}
      (h : RingHolds rqHead rqTail rqCapacity rq queue) :
      Keeps rqHead rqTail rqCapacity (some rq) (some queue)

structure Represents (config : NcConfig) (entry : NcEntry Msg) (p : Pending Msg) : Prop where
  timeout : entry.timeout = p.timeout
  expiration : entry.expiration = p.expiration
  capacity : entry.rqCapacity = config.rqCapacity
  keeps : Keeps entry.rqHead entry.rqTail entry.rqCapacity entry.rq p.queue

/-- An entry, or none. -/
inductive Stands (config : NcConfig) : Option (NcEntry Msg) → Option (Pending Msg) → Prop where
  | removed : Stands config none none
  | entry {entry : NcEntry Msg} {p : Pending Msg} (h : Represents config entry p) :
      Stands config (some entry) (some p)

/-- The messages from `rq_head` up to `rq_tail`, around the end. -/
def NcEntry.contents (entry : NcEntry Msg) : List Msg :=
  match entry.rq with
  | none => []
  | some rq =>
    if entry.rqTail = -1 then []
    else
      let tail := entry.rqTail.toNat
      walk rq entry.rqHead
        (if entry.rqHead < tail then tail - entry.rqHead else rq.length - entry.rqHead + tail)

theorem Represents.contents (h : Represents config entry p) : entry.contents = held (some p) := by
  have hkeeps := h.keeps
  unfold NcEntry.contents
  generalize entry.rq = rq at hkeeps
  generalize hqueue : p.queue = queue at hkeeps
  cases hkeeps with
  | givenUp => exact (held_given_up hqueue).symm
  | @ring rq queue hring =>
    have htail := hring.tail
    have hlt := hring.holds.head_lt
    have hle := hring.holds.length_le
    have hwalk := hring.holds.walk
    rw [held_queue hqueue]
    dsimp only
    by_cases hempty : queue.length = 0
    · rw [if_pos hempty] at htail
      rw [if_pos htail, List.eq_nil_of_length_eq_zero hempty]
    · rw [if_neg hempty] at htail
      rw [if_neg (by omega), htail, Int.toNat_natCast, slot_distance hlt (by omega) hle, hwalk]

theorem rqCapacity_le (config : NcConfig) : config.rqCapacity ≤ config.ncrqSize := by
  unfold NcConfig.rqCapacity Int.bmod uintMod
  dsimp only
  split
  · omega
  · omega

/-! ## the loops -/

section Loops
variable {head capacity : Nat}

theorem wrap_eq_next (head capacity : Nat) :
    (if (head + 1 : Int) ≥ (capacity : Int) then 0 else head + 1) = next capacity head := by
  unfold next
  congr 1
  exact propext (by omega)

theorem reset_eq_next (h : head < capacity) :
    (if (head + 1 : Int) = (capacity : Int) then 0 else head + 1) = next capacity head := by
  unfold next
  congr 1
  exact propext (by omega)

/-- Behind the first message the ring ends if there is no other. -/
theorem next_ne_tail {msg : Msg} {rest : List Msg} (h : Holds rq head (msg :: rest)) :
    (next rq.length head : Int) ≠ (slot rq.length head (msg :: rest).length : Nat) ↔
      rest ≠ [] := by
  have hlt := h.head_lt
  have hle := h.length_le
  rw [List.length_cons] at hle ⊢
  rw [← slot_next hlt]
  have hnext : next rq.length head < rq.length := by
    rw [next_eq hlt]
    exact Nat.mod_lt _ (by omega)
  cases rest with
  | nil =>
    rw [List.length_nil, slot_zero hnext]
    exact iff_of_false (fun hne => hne rfl) (fun hne => hne rfl)
  | cons a rest =>
    have hne := slot_ne_head hnext (List.length_pos_of_ne_nil (List.cons_ne_nil a rest)) (by omega)
    exact iff_of_true (fun heq => hne (Int.ofNat_inj.mp heq).symm) (List.cons_ne_nil a rest)

theorem dropLoop_spec (queue : List Msg) (hq : queue ≠ []) (h : Holds rq head queue)
    (turns : Nat) (hturns : queue.length ≤ turns) :
    ∃ last, NcEntry.dropLoop rq.length (slot rq.length head queue.length : Nat) turns rq head =
      .ok (last, queue) := by
  induction queue generalizing rq head turns with
  | nil => exact absurd rfl hq
  | cons msg rest ih =>
    have hlt := h.head_lt
    have hne := next_ne_tail h
    obtain ⟨turns, rfl⟩ : ∃ n, turns = n + 1 :=
      Nat.exists_eq_add_one.mpr (Nat.lt_of_lt_of_le (Nat.succ_pos _) hturns)
    unfold NcEntry.dropLoop
    rw [if_neg (by omega), h.first]
    dsimp only
    rw [reset_eq_next hlt]
    by_cases hrest : rest = []
    · rw [if_neg (fun htail => hne.mp htail hrest), hrest]
      exact ⟨_, rfl⟩
    · rw [if_pos (hne.mpr hrest)]
      have hlen : (rq.set head none).length = rq.length := List.length_set
      obtain ⟨last, hloop⟩ := ih hrest (holds_pop h) turns (Nat.le_of_succ_le_succ hturns)
      rw [hlen, slot_next hlt] at hloop
      refine ⟨last, ?_⟩
      rw [List.length_cons, hloop]
      rfl

/-- The sending loop leaves in the ring what a pass from the front leaves. -/
theorem flushLoop_spec (send : Nat → Status) (queue : List Msg) (hq : queue ≠ [])
    (h : Holds rq head queue) (sent turns : Nat) (hturns : queue.length ≤ turns) :
    ∃ f, NcEntry.flushLoop send rq.length (slot rq.length head queue.length : Nat) turns sent rq head
        = .ok f ∧
      Holds f.rq f.rqHead (Pending.flush send sent queue).1 ∧ f.rq.length = rq.length ∧
      f.sent + (Pending.flush send sent queue).1.length = sent + queue.length ∧
      (f.res, f.events) = (Pending.flush send sent queue).2 ∧
      (f.res ≠ .success → (Pending.flush send sent queue).1 ≠ [] ∧
        slot rq.length f.rqHead (Pending.flush send sent queue).1.length =
          slot rq.length head queue.length) := by
  induction queue generalizing rq head turns sent with
  | nil => exact absurd rfl hq
  | cons msg rest ih =>
    have hlt := h.head_lt
    have hne := next_ne_tail h
    obtain ⟨turns, rfl⟩ : ∃ n, turns = n + 1 :=
      Nat.exists_eq_add_one.mpr (Nat.lt_of_lt_of_le (Nat.succ_pos _) hturns)
    unfold NcEntry.flushLoop Pending.flush
    rw [h.first]
    dsimp only
    by_cases hsend : send sent = .success
    · rw [if_neg (fun hfail => hfail hsend), if_pos hsend, wrap_eq_next]
      by_cases hrest : rest = []
      · subst hrest
        rw [if_neg (fun htail => hne.mp htail rfl)]
        refine ⟨_, rfl, holds_pop h, List.length_set, rfl, ?_, ?_⟩
        · rw [hsend]
          rfl
        · exact fun hres => absurd hsend hres
      · rw [if_pos (hne.mpr hrest)]
        have hlen : (rq.set head none).length = rq.length := List.length_set
        obtain ⟨f, hloop, hholds, hlength, hsent, hres, htail⟩ :=
          ih hrest (holds_pop h) (sent + 1) turns (Nat.le_of_succ_le_succ hturns)
        rw [hlen, slot_next hlt] at hloop htail
        rw [List.length_cons, hloop]
        refine ⟨{ f with events := .sent msg :: f.events }, rfl, hholds, hlength.trans hlen, ?_, ?_,
          htail⟩
        · dsimp only at hsent ⊢
          omega
        · exact congrArg (fun r => (r.1, .sent msg :: r.2)) hres
    · rw [if_pos hsend, if_neg hsend]
      exact ⟨_, rfl, h, rfl, rfl, rfl, fun _ => ⟨List.cons_ne_nil msg rest, rfl⟩⟩

end Loops

/-! ## the operations -/

theorem dropRetransmitQueue_spec (h : Represents config entry p) :
    ∃ entry', entry.ncPeerDropRetransmitQueue =
        .ok (entry', (p.queue.getD []).map (.dropped · p.timeout)) ∧
      Represents config entry' { p with queue := none } := by
  have hkeeps := h.keeps
  unfold NcEntry.ncPeerDropRetransmitQueue
  generalize hrq : entry.rq = rq at hkeeps
  generalize hqueue : p.queue = queue at hkeeps
  cases hkeeps with
  | givenUp =>
    refine ⟨entry, rfl, h.timeout, h.expiration, h.capacity, ?_⟩
    rw [hrq]
    exact .givenUp
  | @ring rq queue hring =>
    dsimp only
    by_cases hempty : queue.length = 0
    · have htail := hring.tail
      rw [if_pos hempty] at htail
      rw [if_neg (fun hne => hne htail), List.eq_nil_of_length_eq_zero hempty]
      exact ⟨_, rfl, h.timeout, h.expiration, h.capacity, .givenUp⟩
    · have htail := hring.tail
      rw [if_neg hempty] at htail
      rw [if_pos (by omega)]
      have hle := hring.holds.length_le
      obtain ⟨last, hloop⟩ := dropLoop_spec queue (fun hnil => hempty (hnil ▸ rfl)) hring.holds
        (rq.length + 1) (by omega)
      rw [hring.capacity, htail, hloop, h.timeout]
      exact ⟨_, rfl, rfl, h.expiration, hring.capacity.symm.trans h.capacity, .givenUp⟩

theorem backOff_spec (h : Represents config entry p) (later : Int) :
    ∃ entry', entry.backOff config later = .ok (entry', (p.backOff config later).2) ∧
      Represents config entry' (p.backOff config later).1 := by
  unfold NcEntry.backOff Pending.backOff
  dsimp only
  rw [h.timeout]
  split
  · obtain ⟨entry', hdrop, hrep⟩ := dropRetransmitQueue_spec h
    rw [hdrop]
    exact ⟨_, rfl, rfl, rfl, hrep.capacity, hrep.keeps⟩
  · have hmin : (if p.timeout * 2 > config.ncTimeoutMax then config.ncTimeoutMax
        else p.timeout * 2) = min (p.timeout * 2) config.ncTimeoutMax := by
      split
      · omega
      · omega
    rw [hmin]
    exact ⟨_, rfl, rfl, rfl, h.capacity, h.keeps⟩

/-- What a failed sending loop leaves is a ring. -/
theorem flush_keeps {rqHead : Nat} {rqTail rqCapacity : Int} {f : NcEntry.Flushed Msg}
    (h : RingHolds rqHead rqTail rqCapacity rq queue) {left : List Msg}
    (hholds : Holds f.rq f.rqHead left) (hlen : f.rq.length = rq.length)
    (htail : left ≠ [] ∧ slot rq.length f.rqHead left.length = slot rq.length rqHead queue.length)
    (hqueue : queue.length ≠ 0) : RingHolds f.rqHead rqTail rqCapacity f.rq left := by
  refine ⟨hholds, hlen ▸ h.capacity, ?_⟩
  have hleft := List.length_pos_of_ne_nil htail.1
  rw [if_neg (by omega), hlen, htail.2, h.tail, if_neg hqueue]

/-- A pass over the ring is a pass over the messages. -/
theorem processQueue_spec (h : Represents config entry p) (pass : Pass) :
    ∃ entry', entry.ncPeerProcessQueue config pass = .ok (entry', (p.process config pass).2) ∧
      Represents config entry' (p.process config pass).1 := by
  have hkeeps := h.keeps
  unfold NcEntry.ncPeerProcessQueue Pending.process
  rw [h.expiration]
  split
  · exact ⟨entry, rfl, h⟩
  · generalize hrq : entry.rq = rq at hkeeps
    generalize hqueue : p.queue = queue at hkeeps
    cases hkeeps with
    | givenUp => exact ⟨entry, rfl, h⟩
    | @ring rq queue hring =>
      dsimp only
      by_cases hempty : queue.length = 0
      · have htail := hring.tail
        rw [if_pos hempty] at htail
        rw [if_pos htail]
        obtain rfl := List.eq_nil_of_length_eq_zero hempty
        refine ⟨entry, rfl, h.timeout, h.expiration, h.capacity, ?_⟩
        rw [hrq]
        exact .ring hring
      · have htail := hring.tail
        have hle := hring.holds.length_le
        rw [if_neg hempty] at htail
        obtain ⟨f, hloop, hholds, hlen, hsent, hres, hleft⟩ := flushLoop_spec pass.send queue
          (fun hnil => hempty (hnil ▸ rfl)) hring.holds 0 (rq.length + 1) (by omega)
        have hnil := @Pending.flush_success Msg pass.send 0 queue
        rw [if_neg (by omega), hring.capacity, htail, hloop, ok_bind]
        generalize Pending.flush pass.send 0 queue = out at *
        obtain ⟨left, res, events⟩ := out
        cases hres
        have hcapacity := hring.capacity.symm.trans h.capacity
        dsimp only at hholds hsent hnil hleft ⊢
        by_cases hok : f.res = .success
        · obtain rfl := hnil hok
          rw [if_pos hok, if_neg (fun hdown => absurd (hok.symm.trans hdown.1) (by decide))]
          exact ⟨_, rfl, h.timeout, rfl, hcapacity, .ring ⟨hholds, hlen.symm ▸ rfl, rfl⟩⟩
        · have hkeep := flush_keeps hring hholds hlen (hleft hok) hempty
          have hmid : Represents config
              { entry with
                expiration := p.expiration
                rq := some f.rq
                rqHead := f.rqHead
                rqTail := (slot rq.length entry.rqHead queue.length : Nat)
                rqCapacity := rq.length }
              { p with queue := some left } :=
            ⟨h.timeout, rfl, hcapacity, .ring (hring.capacity ▸ htail ▸ hkeep)⟩
          rw [if_neg hok]
          by_cases hdown : f.sent = 0 ∧ f.res = .unreachableDest
          · rw [if_pos hdown, if_pos ⟨hdown.2, by omega⟩]
            obtain ⟨entry', hback, hrep⟩ := backOff_spec hmid pass.later
            rw [hback]
            exact ⟨entry', rfl, hrep⟩
          · rw [if_neg hdown, if_neg (fun hdown' => hdown ⟨by omega, hdown'.1⟩)]
            exact ⟨_, rfl, hmid⟩

/-- A ring with room takes a message in behind the last. -/
theorem enqueue_push (h : Represents config entry p) (hrq : entry.rq = some rq)
    (hroom : (entry.rqHead : Int) ≠ entry.rqTail) (msg : Msg) :
    ∃ entry', entry.enqueue rq msg = .ok (entry', (p.push config.ncrqSize msg).2) ∧
      Represents config entry' (p.push config.ncrqSize msg).1 := by
  have hkeeps := h.keeps
  rw [hrq] at hkeeps
  unfold NcEntry.enqueue Pending.push
  rw [if_neg hroom]
  generalize hqueue : p.queue = queue at hkeeps
  cases hkeeps with
  | @ring rq queue hring =>
    have hlt := hring.holds.head_lt
    have hle := hring.holds.length_le
    have hcap := hring.capacity
    have hconfig := h.capacity
    have hsize := rqCapacity_le config
    have htail := hring.tail
    -- the slot behind the last message, also in an empty ring
    have hslot : (if entry.rqTail = -1 then (entry.rqHead : Int) else entry.rqTail) =
        (slot rq.length entry.rqHead queue.length : Nat) := by
      by_cases hempty : queue.length = 0
      · rw [if_pos hempty] at htail
        rw [if_pos htail, hempty, slot_zero hlt]
      · rw [if_neg hempty] at htail
        rw [if_neg (by omega), htail]
    have hfree : queue.length < rq.length := by
      by_contra hfull
      have hall : queue.length = rq.length := by omega
      rw [if_neg (by omega), hall, slot_self hlt] at htail
      exact hroom htail.symm
    have hin := slot_lt hlt queue.length
    dsimp only
    rw [hslot, if_pos ⟨by omega, by omega⟩]
    have hall : (queue ++ [msg]).length ≤ config.ncrqSize := by
      rw [List.length_append, List.length_singleton]
      omega
    have htake : (queue ++ [msg]).rtake config.ncrqSize = queue ++ [msg] := by
      unfold List.rtake
      rw [Nat.sub_eq_zero_of_le hall, List.drop_zero]
    have hdrop : (queue ++ [msg]).rdrop config.ncrqSize = [] := by
      unfold List.rdrop
      rw [Nat.sub_eq_zero_of_le hall, List.take_zero]
    rw [htake, hdrop]
    refine ⟨_, rfl, h.timeout, h.expiration, hconfig, .ring ⟨?_, ?_, ?_⟩⟩
    · exact holds_push hring.holds hfree msg
    · rw [List.length_set]
      exact hcap
    · rw [List.length_set, List.length_append, List.length_singleton,
        if_neg (Nat.succ_ne_zero queue.length), ← next_slot hlt, hcap]
      unfold next
      split
      · rw [if_pos (by omega)]
        rfl
      · rw [if_neg (by omega)]
        rfl

theorem full_iff {rqHead : Nat} {rqTail rqCapacity : Int}
    (h : RingHolds rqHead rqTail rqCapacity rq queue) :
    (rqHead : Int) = rqTail ↔ queue.length = rq.length := by
  have hlt := h.holds.head_lt
  have hle := h.holds.length_le
  rw [h.tail]
  constructor
  · intro heq
    by_contra hroom
    split at heq
    · omega
    · exact slot_ne_head hlt (by omega) (by omega) (Int.ofNat_inj.mp heq).symm
  · intro hfull
    rw [if_neg (by omega), hfull, slot_self hlt]

/-- In a full ring the oldest message gives way, but the tail is not moved: what is in the ring is
not what should be there. -/
theorem enqueue_full (h : Represents config entry p) (hrq : entry.rq = some rq)
    (hfull : (entry.rqHead : Int) = entry.rqTail) (hsize : 2 ≤ config.rqCapacity) (msg : Msg) :
    ¬ ∃ entry', entry.enqueue rq msg = .ok (entry', (p.push config.ncrqSize msg).2) ∧
      Represents config entry' (p.push config.ncrqSize msg).1 := by
  intro hex
  obtain ⟨entry', henqueue, hrep⟩ := hex
  have hkeeps := h.keeps
  rw [hrq] at hkeeps
  unfold NcEntry.enqueue at henqueue
  rw [if_pos hfull] at henqueue
  generalize hqueue : p.queue = queue at hkeeps
  cases hkeeps with
  | @ring rq queue hring =>
    have hlt := hring.holds.head_lt
    have hcap := hring.capacity
    have hconfig := h.capacity
    have hlen := (full_iff hring).mp hfull
    obtain ⟨oldest, rest, rfl⟩ := List.exists_cons_of_length_pos (l := queue) (by omega)
    rw [hring.holds.first] at henqueue
    obtain ⟨rfl, -⟩ := Prod.mk.inj (Except.ok.inj henqueue)
    have hafter := hrep.keeps
    unfold Pending.push at hafter
    rw [hqueue] at hafter
    dsimp only at hafter
    rw [hcap, show ((entry.rqHead + 1 : Nat) : Int) = entry.rqHead + 1 from rfl,
      wrap_eq_next] at hafter
    cases hafter with
    | ring hbad =>
      have hle := hbad.holds.length_le
      have htail := (full_iff hbad).mpr
      have hall : (oldest :: rest ++ [msg]).length = rq.length + 1 := by
        rw [List.length_append, hlen, List.length_singleton]
      have hbound := rqCapacity_le config
      rw [List.length_set] at hle htail
      unfold List.rtake at hle htail
      rw [List.length_drop, hall] at hle htail
      have hnext := htail (by omega)
      rw [← hfull] at hnext
      unfold next at hnext
      split at hnext
      · omega
      · omega

end JxtaC.NegativeCache
