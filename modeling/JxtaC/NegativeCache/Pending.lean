import JxtaC.NegativeCache
import Mathlib.Data.List.DropRight

/-
  What an entry of the negative cache is for: the messages that a peer has not got yet, in the order
  in which they came, at most `capacity` of them. The oldest gives way to a new one; a pass sends
  from the front; a queue that is given up does not come back.
-/

namespace JxtaC.NegativeCache

open List

variable {Msg : Type}
variable (l : List Msg) (timeout : Int)

structure Pending (Msg : Type) where
  timeout : Int
  expiration : Int
  /-- The messages, until the queue is given up. -/
  queue : Option (List Msg)

namespace Pending

/-- Made for a message, at this time. -/
def start (config : NcConfig) (now : Int) (msg : Msg) : Pending Msg :=
  ⟨config.ncTimeoutInit, now + config.ncTimeoutInit, some [msg]⟩

/-- Sends from the front until a send fails: what is left, how the last send ended, and the
events. -/
def flush (send : Nat → Status) : (sent : Nat) → List Msg → List Msg × Status × List (Event Msg)
  | _, [] => ([], .success, [])
  | sent, msg :: rest =>
    if send sent = .success then
      let (left, res, events) := flush send (sent + 1) rest
      (left, res, .sent msg :: events)
    else (msg :: rest, send sent, [.failed msg (send sent)])

/-- The peer was not reachable. -/
def backOff (config : NcConfig) (later : Int) (p : Pending Msg) :
    Pending Msg × List (Event Msg) :=
  if p.timeout ≥ config.ncTimeoutMax then
    (⟨config.ncTimeoutMax, later + config.ncTimeoutMax, none⟩, (p.queue.getD []).map (.dropped · p.timeout))
  else
    let timeout := min (p.timeout * 2) config.ncTimeoutMax
    (⟨timeout, later + timeout, p.queue⟩, [])

/-- A pass, once the timeout is over. -/
def process (config : NcConfig) (pass : Pass) (p : Pending Msg) :
    Pending Msg × Status × List (Event Msg) :=
  if pass.now < p.expiration then (p, .unreachableDest, [])
  else
    match p.queue with
    | none => (p, .success, [])
    | some queue =>
      let (left, res, events) := flush pass.send 0 queue
      let after := { p with queue := some left }
      if res = .unreachableDest ∧ left.length = queue.length then
        let (p, dropped) := after.backOff config pass.later
        (p, res, events ++ dropped)
      else (after, res, events)

/-- Takes a message in. -/
def push (capacity : Nat) (p : Pending Msg) (msg : Msg) : Pending Msg × List (Event Msg) :=
  match p.queue with
  | none => (p, [.refused msg p.timeout])
  | some queue =>
    let all := queue ++ [msg]
    ({ p with queue := some (all.rtake capacity) },
      (all.rdrop capacity).map .evicted ++ [.queued msg])

def queueMsg (config : NcConfig) (pass : Pass) (own : Status) (msg : Msg) (p : Pending Msg) :
    Option (Pending Msg) × Status × List (Event Msg) :=
  let (p, res, events) := p.process config pass
  if res = .success ∧ own ≠ .unreachableDest then (none, res, events ++ [.offered msg own])
  else
    let offered := if res = .success then [.offered msg own] else []
    let (p, pushed) := p.push config.ncrqSize msg
    (some p, .unreachableDest, events ++ offered ++ pushed)

def perform (config : NcConfig) (p : Option (Pending Msg)) (op : Op Msg) :
    Option (Pending Msg) × Answer Msg :=
  match p, op with
  | none, _ => (none, none, [])
  | some p, .queueMsg pass own msg =>
    let (p, res, events) := p.queueMsg config pass own msg
    (p, some res, events)
  | some p, .processQueue pass =>
    let (p, res, events) := p.process config pass
    (some p, some res, events)
  | some p, .review pass =>
    let (p, res, events) := p.process config pass
    (if res = .success ∧ p.queue ≠ none then none else some p, none, events)
  | some p, .checkNcEntry pass =>
    let (p, res, events) := { p with expiration := 0 }.process config pass
    (if res = .success then none else some p, none, events)
  | some p, .dropRetransmitQueue =>
    (some { p with queue := none }, none, (p.queue.getD []).map (.dropped · p.timeout))

end Pending

/-! ## no message is lost from a queue, and none leaves it twice -/

/-- The message that an event puts into the queue. -/
def Event.entered : Event Msg → Option Msg
  | .queued msg => some msg
  | _ => none

/-- The message that an event takes out of the queue. -/
def Event.departed : Event Msg → Option Msg
  | .sent msg | .evicted msg | .dropped msg _ => some msg
  | _ => none

/-- The messages that came into the queue, in turn. -/
def entered (events : List (Event Msg)) : List Msg := events.filterMap Event.entered

/-- The messages that left the queue, in turn. -/
def departed (events : List (Event Msg)) : List Msg := events.filterMap Event.departed

/-- The messages in the queue. -/
def held (p : Option (Pending Msg)) : List Msg := (p.bind Pending.queue).getD []

/-- Between two states, what was there and what came in is what left and what is there, in this
order. -/
def Conserves (before : List Msg) (events : List (Event Msg)) (after : List Msg) : Prop :=
  before ++ entered events = departed events ++ after

/-- All events of a run. -/
def allEvents (answers : List (Answer Msg)) : List (Event Msg) := answers.flatMap (·.2)

@[simp] theorem entered_append (l m : List (Event Msg)) :
    entered (l ++ m) = entered l ++ entered m := filterMap_append

@[simp] theorem departed_append (l m : List (Event Msg)) :
    departed (l ++ m) = departed l ++ departed m := filterMap_append

@[simp] theorem entered_evicted : entered (l.map .evicted) = [] := by
  induction l with
  | nil => rfl
  | cons a l ih => exact ih

@[simp] theorem departed_evicted : departed (l.map .evicted) = l := by
  induction l with
  | nil => rfl
  | cons a l ih => exact congrArg (a :: ·) ih

@[simp] theorem entered_dropped (l : List Msg) : entered (l.map (.dropped · timeout)) = [] := by
  induction l with
  | nil => rfl
  | cons a l ih => exact ih

@[simp] theorem departed_dropped (l : List Msg) : departed (l.map (.dropped · timeout)) = l := by
  induction l with
  | nil => rfl
  | cons a l ih => exact congrArg (a :: ·) ih

theorem held_queue {p : Pending Msg} {queue : List Msg} (h : p.queue = some queue) :
    held (some p) = queue := congrArg (·.getD []) h

theorem held_given_up {p : Pending Msg} (h : p.queue = none) : held (some p) = [] :=
  congrArg (·.getD []) h

theorem conserves_nil : Conserves l [] l := append_nil l

/-- An event that moves no message of the queue. -/
theorem conserves_single {event : Event Msg} (hin : event.entered = none)
    (hout : event.departed = none) (l : List Msg) : Conserves l [event] l := by
  unfold Conserves entered departed
  rw [filterMap_cons_none hin, filterMap_cons_none hout]
  exact append_nil l

theorem Conserves.append {a b c : List Msg} {l m : List (Event Msg)} (h : Conserves a l b)
    (h' : Conserves b m c) : Conserves a (l ++ m) c := by
  unfold Conserves at *
  rw [entered_append, departed_append, ← append_assoc, h, append_assoc, h',
    append_assoc]

theorem conserves_dropped (l : List Msg) : Conserves l (l.map (.dropped · timeout)) [] := by
  unfold Conserves
  rw [entered_dropped, departed_dropped]

namespace Pending

variable {config : NcConfig} {pass : Pass} {p : Pending Msg}
variable {send : Nat → Status} {sent : Nat}

theorem flush_sent (h : send sent = .success) (msg : Msg) (rest : List Msg) :
    flush send sent (msg :: rest) =
      ((flush send (sent + 1) rest).1, (flush send (sent + 1) rest).2.1,
        .sent msg :: (flush send (sent + 1) rest).2.2) := if_pos h

theorem flush_stops (h : send sent ≠ .success) (msg : Msg) (rest : List Msg) :
    flush send sent (msg :: rest) = (msg :: rest, send sent, [.failed msg (send sent)]) := if_neg h

theorem flush_conserves (send : Nat → Status) (queue : List Msg) (sent : Nat) :
    Conserves queue (flush send sent queue).2.2 (flush send sent queue).1 := by
  induction queue generalizing sent with
  | nil => exact conserves_nil []
  | cons msg rest ih =>
    unfold flush
    split
    · exact congrArg (msg :: ·) (ih (sent + 1))
    · exact conserves_single rfl rfl _

/-- A pass that ends with success leaves nothing. -/
theorem flush_success {queue : List Msg} (h : (flush send sent queue).2.1 = .success) :
    (flush send sent queue).1 = [] := by
  induction queue generalizing sent with
  | nil => rfl
  | cons msg rest ih =>
    unfold flush at h ⊢
    split at h
    · rename_i hsend
      rw [if_pos hsend]
      exact ih h
    · exact absurd h (by assumption)

theorem flush_length_le (send : Nat → Status) (queue : List Msg) (sent : Nat) :
    (flush send sent queue).1.length ≤ queue.length := by
  induction queue generalizing sent with
  | nil => exact Nat.le_refl 0
  | cons msg rest ih =>
    unfold flush
    split
    · exact Nat.le_succ_of_le (ih (sent + 1))
    · exact Nat.le_refl _

theorem backOff_conserves (config : NcConfig) (later : Int) (p : Pending Msg) :
    Conserves (held (some p)) (p.backOff config later).2 (held (some (p.backOff config later).1)) := by
  unfold backOff
  split
  · exact conserves_dropped _ _
  · exact conserves_nil _

theorem process_conserves (config : NcConfig) (pass : Pass) (p : Pending Msg) :
    Conserves (held (some p)) (p.process config pass).2.2
      (held (some (p.process config pass).1)) := by
  unfold process
  split
  · exact conserves_nil _
  · split
    · exact conserves_nil _
    · rename_i queue hqueue
      have hflush := flush_conserves pass.send queue 0
      rw [held_queue hqueue]
      dsimp only
      split
      · have hback := backOff_conserves config pass.later
          { p with queue := some (flush pass.send 0 queue).1 }
        exact hflush.append hback
      · exact hflush

theorem process_success (h : (p.process config pass).2.1 = .success) :
    held (some (p.process config pass).1) = [] := by
  unfold process at h ⊢
  split at h
  · cases h
  · rename_i hnow
    rw [if_neg hnow]
    cases hqueue : p.queue with
    | none => exact held_given_up hqueue
    | some queue =>
      rw [hqueue] at h
      dsimp only at h ⊢
      split at h
      · rename_i hdown
        exact absurd (hdown.1.symm.trans h) (by decide)
      · rename_i hdown
        rw [if_neg hdown]
        exact flush_success h

theorem flush_sends {queue : List Msg} (h : (flush send sent queue).2.1 = .success) :
    ∀ msg ∈ queue, .sent msg ∈ (flush send sent queue).2.2 := by
  induction queue generalizing sent with
  | nil => exact fun msg hmsg => absurd hmsg not_mem_nil
  | cons first rest ih =>
    intro msg hmsg
    by_cases hsend : send sent = .success
    · rw [flush_sent hsend] at h ⊢
      rcases mem_cons.mp hmsg with rfl | hrest
      · exact mem_cons_self
      · exact mem_cons_of_mem _ (ih h msg hrest)
    · rw [flush_stops hsend] at h
      exact absurd h hsend

/-- A pass that ends with success has sent the whole queue. -/
theorem process_sends (h : (p.process config pass).2.1 = .success) :
    ∀ msg ∈ held (some p), .sent msg ∈ (p.process config pass).2.2 := by
  intro msg hmsg
  unfold process at h ⊢
  split at h
  · cases h
  · rename_i hnow
    rw [if_neg hnow]
    cases hqueue : p.queue with
    | none =>
      rw [held_given_up hqueue] at hmsg
      exact absurd hmsg not_mem_nil
    | some queue =>
      rw [hqueue] at h
      rw [held_queue hqueue] at hmsg
      dsimp only at h ⊢
      split at h
      · rename_i hdown
        exact absurd (hdown.1.symm.trans h) (by decide)
      · rename_i hdown
        rw [if_neg hdown]
        exact flush_sends h msg hmsg

theorem push_conserves (capacity : Nat) (p : Pending Msg) (msg : Msg) :
    Conserves (held (some p)) (p.push capacity msg).2 (held (some (p.push capacity msg).1)) := by
  unfold push
  split
  · exact conserves_single rfl rfl _
  · rename_i queue hqueue
    have hall := take_append_drop ((queue ++ [msg]).length - capacity) (queue ++ [msg])
    unfold Conserves
    rw [held_queue hqueue, entered_append, departed_append, entered_evicted, departed_evicted]
    exact hall.symm.trans (congrArg (· ++ _) (append_nil _).symm)

theorem queueMsg_conserves (config : NcConfig) (pass : Pass) (own : Status) (msg : Msg)
    (p : Pending Msg) :
    Conserves (held (some p)) (p.queueMsg config pass own msg).2.2
      (held (p.queueMsg config pass own msg).1) := by
  have hpass := process_conserves config pass p
  have hoffer : ∀ l : List Msg, Conserves l [.offered msg own] l := conserves_single rfl rfl
  unfold queueMsg
  dsimp only
  split
  · rename_i hsent
    have hempty := process_success hsent.1
    rw [hempty] at hpass
    exact hpass.append (hoffer [])
  · apply Conserves.append _ (push_conserves config.ncrqSize _ msg)
    apply hpass.append
    split
    · exact hoffer _
    · exact conserves_nil _

/-- What an operation does not leave in the queue was sent, gave way or was dropped. -/
theorem perform_conserves (config : NcConfig) (p : Option (Pending Msg)) (op : Op Msg) :
    Conserves (held p) (perform config p op).2.2 (held (perform config p op).1) := by
  have hend : ∀ (pass : Pass) (p : Pending Msg) (gone : Prop) [Decidable gone],
      (gone → (p.process config pass).2.1 = .success) →
      Conserves (held (some p)) (p.process config pass).2.2
        (held (if gone then none else some (p.process config pass).1)) := by
    intro pass p gone _ hgone
    have hpass := process_conserves config pass p
    split
    · rename_i h
      rwa [process_success (hgone h)] at hpass
    · exact hpass
  cases p with
  | none => exact conserves_nil []
  | some p =>
    cases op with
    | queueMsg pass own msg => exact queueMsg_conserves config pass own msg p
    | processQueue pass => exact process_conserves config pass p
    | review pass => exact hend pass p _ And.left
    | checkNcEntry pass => exact hend pass { p with expiration := 0 } _ id
    | dropRetransmitQueue => exact conserves_dropped _ _

/-- An entry is removed only when its queue has been sent. -/
theorem perform_removes {op : Op Msg} (h : (perform config (some p) op).1 = none) :
    ∀ msg ∈ held (some p), .sent msg ∈ (perform config (some p) op).2.2 := by
  intro msg hmsg
  cases op with
  | queueMsg pass own new =>
    unfold perform queueMsg at h ⊢
    dsimp only at h ⊢
    split at h
    · rename_i hback
      rw [if_pos hback]
      exact mem_append_left _ (process_sends hback.1 msg hmsg)
    · cases h
  | processQueue pass => cases h
  | review pass =>
    unfold perform at h ⊢
    dsimp only at h ⊢
    split at h
    · rename_i hback
      exact process_sends hback.1 msg hmsg
    · cases h
  | checkNcEntry pass =>
    unfold perform at h ⊢
    dsimp only at h ⊢
    split at h
    · rename_i hback
      exact process_sends hback msg hmsg
    · cases h
  | dropRetransmitQueue => cases h

/-- A queue that was given up is that of an entry at the maximum timeout. -/
def AtMaximum (config : NcConfig) (p : Pending Msg) : Prop :=
  p.queue = none → config.ncTimeoutMax ≤ p.timeout

theorem process_atMaximum (h : p.AtMaximum config) :
    (p.process config pass).1.AtMaximum config := by
  unfold process
  split
  · exact h
  · split
    · exact h
    · dsimp only
      split
      · unfold backOff
        split
        · exact fun _ => Int.le_refl config.ncTimeoutMax
        · exact fun hnone => absurd hnone (Option.some_ne_none _)
      · exact fun hnone => absurd hnone (Option.some_ne_none _)

theorem queueMsg_atMaximum (h : p.AtMaximum config) (own : Status) (msg : Msg) :
    ∀ q ∈ (p.queueMsg config pass own msg).1, q.AtMaximum config := by
  have hmax := @process_atMaximum Msg config pass p h
  unfold queueMsg
  generalize p.process config pass = out at *
  obtain ⟨q, res, events⟩ := out
  dsimp only at hmax ⊢
  intro q' hq'
  split at hq'
  · cases hq'
  · cases hq'
    unfold push
    split
    · exact hmax
    · exact fun hnone => absurd hnone (Option.some_ne_none _)

theorem process_length_le (config : NcConfig) (pass : Pass) (p : Pending Msg) :
    (held (some (p.process config pass).1)).length ≤ (held (some p)).length := by
  unfold process
  split
  · exact Nat.le_refl _
  · split
    · exact Nat.le_refl _
    · rename_i queue hqueue
      have hle := flush_length_le pass.send queue 0
      rw [held_queue hqueue]
      dsimp only
      split
      · unfold backOff
        split
        · exact Nat.zero_le _
        · exact hle
      · exact hle

theorem push_length_le {capacity : Nat} (msg : Msg) (h : (held (some p)).length ≤ capacity) :
    (held (some (p.push capacity msg).1)).length ≤ capacity := by
  unfold push
  split
  · exact h
  · change ((_ ++ [msg]).drop _).length ≤ capacity
    rw [length_drop]
    omega

/-- Never more than `ncrqSize` messages are kept. -/
theorem perform_length_le (p : Option (Pending Msg)) (op : Op Msg)
    (h : (held p).length ≤ config.ncrqSize) :
    (held (perform config p op).1).length ≤ config.ncrqSize := by
  cases p with
  | none => exact Nat.zero_le _
  | some p =>
    have hpass := fun pass => (process_length_le config pass p).trans h
    cases op with
    | queueMsg pass own msg =>
      unfold perform queueMsg
      dsimp only
      split
      · exact Nat.zero_le _
      · exact push_length_le msg (hpass pass)
    | processQueue pass => exact hpass pass
    | review pass =>
      unfold perform
      dsimp only
      split
      · exact Nat.zero_le _
      · exact hpass pass
    | checkNcEntry pass =>
      unfold perform
      dsimp only
      split
      · exact Nat.zero_le _
      · exact (process_length_le config pass { p with expiration := 0 }).trans h
    | dropRetransmitQueue => exact Nat.zero_le _

/-- Over a run, the messages leave in the order in which they came, each once. -/
theorem run_conserves (config : NcConfig) (ops : List (Op Msg)) (p : Option (Pending Msg)) :
    Conserves (held p) (allEvents (Lib.runSpec (perform config) p ops).2)
      (held (Lib.runSpec (perform config) p ops).1) := by
  induction ops generalizing p with
  | nil => exact conserves_nil _
  | cons op ops ih => exact (perform_conserves config p op).append (ih _)

theorem run_length_le (ops : List (Op Msg)) {p : Option (Pending Msg)}
    (h : (held p).length ≤ config.ncrqSize) :
    (held (Lib.runSpec (perform config) p ops).1).length ≤ config.ncrqSize := by
  induction ops generalizing p with
  | nil => exact h
  | cons op ops ih => exact ih (perform_length_le p op h)

end Pending

end JxtaC.NegativeCache
