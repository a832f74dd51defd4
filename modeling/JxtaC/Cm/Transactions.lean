import JxtaC.Cm.Save
import JxtaC.Lib.Loop

/-
  How the groups of a save task are stored (`cm_srdi_transaction_save` in jxta_cm.c). The cache
  stays available. What the database answers to each call is given beforehand, call by call; a
  connection keeps what was committed of the group at work and how many calls reported a failure. A
  transaction that is ended is committed if no statement of it was refused; one whose end is
  refused is not, and is over as well. A transaction cannot be started within another one. Failing
  allocations are left out.
-/

namespace JxtaC.Cm

open Lib List

/-! ## the database -/

/-- What becomes of the statements for one element: its row is updated; or inserted, and then the
one of the index is inserted or not; or one of them is refused. -/
inductive ElementAnswer where
  | updated
  | inserted (indexed : Bool)
  | refused
  deriving DecidableEq

/-- The answers to the calls of each kind. -/
structure Pattern where
  start : Nat → Bool
  stop : Nat → Bool
  save : Nat → ElementAnswer

/-- `DBConnection`, and the calls so far: the elements of the open transaction, and whether a
statement of it was refused; what was committed of the group, and the failures reported for it. -/
structure Connection where
  starts : Nat
  stops : Nat
  saves : Nat
  transaction : Option (List SRDIEntryElement × Bool)
  committed : List (List SRDIEntryElement)
  failures : Nat
  locked : Bool

/-- `Jxta_cm_srdi_task`: of the database the threshold, and whether it is the best choice, in which
the index is. -/
structure TransactionTask where
  answers : Pattern
  xactionThreshold : Int
  bestChoice : Bool

/-- `apr_dbd_transaction_start`, and whether it succeeds. -/
def transactionStart (p : Pattern) (c : Connection) : Bool × Connection :=
  if p.start c.starts && c.transaction.isNone then
    (true, { c with starts := c.starts + 1, transaction := some ([], false) })
  else (false, { c with starts := c.starts + 1, failures := c.failures + 1 })

/-- `apr_dbd_transaction_end`, and whether it succeeds. -/
def transactionEnd (p : Pattern) (c : Connection) : Bool × Connection :=
  match c.transaction with
  | none => (false, { c with stops := c.stops + 1, failures := c.failures + 1 })
  | some (elements, failed) =>
    if p.stop c.stops then
      (true, { c with
        stops := c.stops + 1
        transaction := none
        committed := if failed then c.committed else c.committed ++ [elements] })
    else
      (false, { c with stops := c.stops + 1, transaction := none, failures := c.failures + 1 })

/-- An element in the transaction, and a statement that is refused or not. -/
def Connection.put (c : Connection) (entry : SRDIEntryElement) (failed : Bool) : Connection :=
  { c with
    saves := c.saves + 1
    transaction := c.transaction.map fun t => (t.1 ++ [entry], t.2 || failed) }

/-- The status of `cm_srdi_element_save`. -/
def ElementAnswer.status : ElementAnswer → Status
  | .updated => .success
  | .inserted _ => .itemNotfound
  | .refused => .failed

/-- A statement of the transaction was refused. -/
def TransactionTask.spoils (task : TransactionTask) : ElementAnswer → Bool
  | .updated => false
  | .inserted indexed => task.bestChoice && !indexed
  | .refused => true

/-- `cm_srdi_element_save` and, for a new element, `cm_srdi_index_save`, which succeeds whatever the
database answers. -/
def elementSave (task : TransactionTask) (c : Connection) (entry : SRDIEntryElement) :
    Status × Connection :=
  let answer := task.answers.save c.saves
  let conn := c.put entry (task.spoils answer)
  match answer.status with
  | .itemNotfound => (.success, conn)
  | .success => (.success, conn)
  | status => (status, { conn with failures := conn.failures + 1 })

/-! ## the loop over the elements -/

/-- The variables of the loop. -/
structure XactionState where
  conn : Connection
  vElements : List SRDIEntryElement
  xactionElements : List SRDIEntryElement
  retryCount : Int
  i : Nat
  status : Status

/-- How a group ends: at its last element, after the third failure, or by `goto FINAL_EXIT`. -/
structure GroupEnd where
  finalExit : Bool
  conn : Connection
  status : Status

/-- The lock of the database, given to others for a moment. -/
def Connection.relock (c : Connection) : Connection :=
  let unlocked := { c with locked := false }
  { unlocked with locked := true }

/-- What follows the end of a transaction: the next one, or the same one again. -/
def nextTransaction (p : Pattern) (s : XactionState) (retryTransaction retriesExhausted : Bool) :
    XactionState ⊕ GroupEnd :=
  if s.vElements ≠ [] && !retryTransaction && !retriesExhausted then
    let (rv, conn) := transactionStart p s.conn.relock
    if rv then .inl { s with conn, i := 0, xactionElements := [] }
    else .inr ⟨true, conn, s.status⟩
  else if retryTransaction then
    let (rv, conn) := transactionStart p s.conn
    if rv then .inl { s with conn } else .inr ⟨true, conn, s.status⟩
  else .inl s

/-- The end of a transaction; the elements of one that is tried again come back. -/
def endTransaction (p : Pattern) (s : XactionState) (retryTransaction retriesExhausted : Bool) :
    XactionState ⊕ GroupEnd :=
  let (rv, conn) := transactionEnd p s.conn
  let retryCount := if rv then s.retryCount else s.retryCount - 1
  let retriesExhausted := retriesExhausted || !rv && !decide (0 < retryCount)
  let retryTransaction := if rv then retryTransaction else decide (0 < retryCount)
  if retryTransaction then
    nextTransaction p { s with
      conn, retryCount, vElements := s.xactionElements ++ s.vElements, xactionElements := []
      status := .success } retryTransaction retriesExhausted
  else nextTransaction p { s with conn, retryCount } retryTransaction retriesExhausted

/-- The loop body. -/
def saveNext (task : TransactionTask) (s : XactionState) : Exec (XactionState ⊕ GroupEnd) :=
  match s.vElements with
  | [] => .ok (.inr ⟨false, s.conn, s.status⟩)
  | entry :: vElements =>
    if s.retryCount ≤ 0 then .ok (.inr ⟨false, s.conn, s.status⟩)
    else
      let (status, conn) := elementSave task s.conn entry
      -- The name space of a saved element is registered, and its length is taken.
      if status = .success && entry.nameSpace.isNone then .error .nullPointer
      else
        let failed := decide (status ≠ .success)
        let retryCount := if failed then s.retryCount - 1 else s.retryCount
        let retryTransaction := failed && decide (0 < retryCount)
        let retriesExhausted := failed && !decide (0 < retryCount)
        let saved : XactionState :=
          ⟨conn, vElements, s.xactionElements ++ [entry], retryCount, s.i + 1, status⟩
        if (s.i : Int) > task.xactionThreshold || vElements = [] || retryTransaction ||
            retriesExhausted then
          .ok (endTransaction task.answers saved retryTransaction retriesExhausted)
        else .ok (.inl saved)

/-! ### one step -/

section Step
variable {task : TransactionTask} {s : XactionState} {entry : SRDIEntryElement}
  {rest : List SRDIEntryElement}
variable {p : Pattern}

/-- The answer to the next save. -/
def XactionState.answer (task : TransactionTask) (s : XactionState) : ElementAnswer :=
  task.answers.save s.conn.saves

/-- The next save fails. -/
def XactionState.refuses (task : TransactionTask) (s : XactionState) : Bool :=
  decide (s.answer task = .refused)

/-- The transaction is ended behind the next save. -/
def XactionState.ends (task : TransactionTask) (s : XactionState)
    (rest : List SRDIEntryElement) : Bool :=
  decide ((s.i : Int) > task.xactionThreshold) || decide (rest = []) || s.refuses task

/-- The failures that the step meets before it starts a transaction. -/
def XactionState.hits (task : TransactionTask) (s : XactionState)
    (rest : List SRDIEntryElement) : Nat :=
  (s.refuses task).toNat + (s.ends task rest && !task.answers.stop s.conn.stops).toNat

/-- A statement of the transaction was refused, or is by the next save. -/
def XactionState.spoilt (task : TransactionTask) (s : XactionState) : Bool :=
  s.conn.transaction.elim false Prod.snd || task.spoils (s.answer task)

/-- The connection behind the next save. -/
def XactionState.put (task : TransactionTask) (s : XactionState) (entry : SRDIEntryElement) :
    Connection :=
  { s.conn with
    saves := s.conn.saves + 1
    transaction := some (s.xactionElements ++ [entry], s.spoilt task)
    failures := s.conn.failures + (s.refuses task).toNat }

/-- The connection behind the end of the transaction. -/
def XactionState.closed (task : TransactionTask) (s : XactionState) (entry : SRDIEntryElement)
    (rest : List SRDIEntryElement) : Connection :=
  { s.conn with
    saves := s.conn.saves + 1
    stops := s.conn.stops + 1
    transaction := none
    failures := s.conn.failures + s.hits task rest
    committed :=
      if task.answers.stop s.conn.stops && !s.spoilt task then
        s.conn.committed ++ [s.xactionElements ++ [entry]]
      else s.conn.committed }

/-- A connection behind the start of a transaction. -/
def Connection.opened (c : Connection) : Connection :=
  { c with starts := c.starts + 1, transaction := some ([], false) }

/-- A connection behind a start that is refused. -/
def Connection.failedStart (c : Connection) : Connection :=
  { c with starts := c.starts + 1, failures := c.failures + 1 }

theorem transactionStart_eq {c : Connection} (h : c.transaction = none) :
    transactionStart p c =
      if p.start c.starts then (true, c.opened) else (false, c.failedStart) := by
  unfold transactionStart Connection.opened Connection.failedStart
  rw [h]
  cases p.start c.starts with
  | true => rfl
  | false => rfl

theorem elementSave_eq {b : Bool} (ht : s.conn.transaction = some (s.xactionElements, b)) :
    elementSave task s.conn entry =
      (if s.refuses task then .failed else .success, s.put task entry) := by
  unfold elementSave XactionState.put Connection.put XactionState.refuses XactionState.spoilt
    XactionState.answer
  rw [ht]
  cases task.answers.save s.conn.saves with
  | updated => rfl
  | inserted indexed => rfl
  | refused => rfl

theorem transactionEnd_eq (h : s.ends task rest = true) :
    transactionEnd task.answers (s.put task entry) =
      (task.answers.stop s.conn.stops, s.closed task entry rest) := by
  unfold transactionEnd XactionState.put XactionState.closed XactionState.hits
  rw [h]
  cases hstop : task.answers.stop s.conn.stops with
  | true =>
    cases s.spoilt task with
    | true => rfl
    | false => rfl
  | false => rfl

/-- Behind the last element and the last try there is no other transaction. -/
theorem nextTransaction_done {exhausted : Bool} (h : s.vElements = [] ∨ exhausted = true) :
    nextTransaction p s false exhausted = .inl s := by
  unfold nextTransaction
  rcases h with h | h
  · simp [h]
  · simp [h]

theorem nextTransaction_split (hv : s.vElements ≠ []) (ht : s.conn.transaction = none) :
    nextTransaction p s false false =
      if p.start s.conn.starts then
        .inl { s with conn := s.conn.relock.opened, i := 0, xactionElements := [] }
      else .inr ⟨true, s.conn.relock.failedStart, s.status⟩ := by
  have hstart : transactionStart p s.conn.relock =
      if p.start s.conn.starts then (true, s.conn.relock.opened)
      else (false, s.conn.relock.failedStart) := transactionStart_eq ht
  unfold nextTransaction
  rw [hstart]
  cases p.start s.conn.starts with
  | true => simp [hv]
  | false => simp [hv]

theorem nextTransaction_retry {exhausted : Bool} (ht : s.conn.transaction = none) :
    nextTransaction p s true exhausted =
      if p.start s.conn.starts then .inl { s with conn := s.conn.opened }
      else .inr ⟨true, s.conn.failedStart, s.status⟩ := by
  unfold nextTransaction
  rw [transactionStart_eq ht]
  cases p.start s.conn.starts with
  | true => simp
  | false => simp

/-- Without a failure the next transaction follows, with few of them this one again, else none. -/
theorem endTransaction_eq (h : s.ends task rest = true) :
    endTransaction task.answers
        ⟨s.put task entry, rest, s.xactionElements ++ [entry],
          if s.refuses task then s.retryCount - 1 else s.retryCount, s.i + 1,
          if s.refuses task then .failed else .success⟩
        (s.refuses task &&
          decide (0 < if s.refuses task then s.retryCount - 1 else s.retryCount))
        (s.refuses task &&
          !decide (0 < if s.refuses task then s.retryCount - 1 else s.retryCount)) =
      if s.hits task rest = 0 then
        nextTransaction task.answers ⟨s.closed task entry rest, rest, s.xactionElements ++ [entry],
          s.retryCount, s.i + 1, .success⟩ false false
      else if (s.hits task rest : Int) < s.retryCount then
        nextTransaction task.answers ⟨s.closed task entry rest,
          s.xactionElements ++ [entry] ++ rest, [], s.retryCount - s.hits task rest, s.i + 1,
          .success⟩ true false
      else
        nextTransaction task.answers ⟨s.closed task entry rest, rest,
          s.xactionElements ++ [entry], s.retryCount - s.hits task rest, s.i + 1,
          if s.refuses task then .failed else .success⟩ false true := by
  unfold endTransaction
  rw [transactionEnd_eq h]
  have hhits : s.hits task rest =
      (s.refuses task).toNat + (!task.answers.stop s.conn.stops).toNat := by
    unfold XactionState.hits
    rw [h, Bool.true_and]
  rw [hhits]
  cases hrefuse : s.refuses task with
  | false =>
    cases hstop : task.answers.stop s.conn.stops with
    | true => simp
    | false =>
      by_cases hleft : 1 < s.retryCount
      · have hpos : 0 < s.retryCount - 1 := by omega
        simp [hleft, hpos]
      · have hpos : ¬0 < s.retryCount - 1 := by omega
        simp [hleft, hpos]
  | true =>
    cases hstop : task.answers.stop s.conn.stops with
    | true =>
      by_cases hleft : 1 < s.retryCount
      · have hpos : 0 < s.retryCount - 1 := by omega
        simp [hleft, hpos]
      · have hpos : ¬0 < s.retryCount - 1 := by omega
        simp [hleft, hpos]
    | false =>
      have htwo : s.retryCount - 1 - 1 = s.retryCount - 2 := by omega
      by_cases hleft : 2 < s.retryCount
      · have hpos : 0 < s.retryCount - 2 := by omega
        have hone : 1 < s.retryCount := by omega
        simp [hleft, hone, htwo]
      · have hpos : ¬0 < s.retryCount - 2 := by omega
        simp [hleft, hpos, htwo]

/-- A failure ends the transaction. -/
theorem ends_of_hits (h : 0 < s.hits task rest) : s.ends task rest = true := by
  unfold XactionState.hits at h
  cases hends : s.ends task rest with
  | true => rfl
  | false =>
    rw [hends] at h
    unfold XactionState.ends at hends
    rw [Bool.or_eq_false_iff] at hends
    rw [hends.2] at h
    exact absurd h (Nat.lt_irrefl 0)

/-- The loop body is at an element, in an open transaction. -/
structure XactionState.At (s : XactionState) (entry : SRDIEntryElement)
    (rest : List SRDIEntryElement) : Prop where
  elements : s.vElements = entry :: rest
  tries : 0 < s.retryCount
  opened : ∃ b, s.conn.transaction = some (s.xactionElements, b)

/-- An element is saved, and its name space is not there. -/
def XactionState.nameless (task : TransactionTask) (s : XactionState) (entry : SRDIEntryElement) :
    Bool :=
  !s.refuses task && entry.nameSpace.isNone

theorem saveNext_nameless (h : s.At entry rest) (hname : s.nameless task entry = true) :
    saveNext task s = .error .nullPointer := by
  obtain ⟨b, hb⟩ := h.opened
  unfold XactionState.nameless at hname
  rw [Bool.and_eq_true, Bool.not_eq_true'] at hname
  unfold saveNext
  rw [h.elements]
  simp only [elementSave_eq hb]
  rw [if_neg (Int.not_le.mpr h.tries), hname.1, hname.2]
  rfl

/-- Within a transaction the element is moved to it. -/
theorem saveNext_within (h : s.At entry rest) (hname : s.nameless task entry = false)
    (hends : s.ends task rest = false) :
    saveNext task s = .ok (.inl ⟨s.put task entry, rest, s.xactionElements ++ [entry],
      s.retryCount, s.i + 1, .success⟩) := by
  obtain ⟨b, hb⟩ := h.opened
  unfold XactionState.ends at hends
  rw [Bool.or_eq_false_iff, Bool.or_eq_false_iff, decide_eq_false_iff_not,
    decide_eq_false_iff_not] at hends
  unfold XactionState.nameless at hname
  rw [hends.2] at hname
  unfold saveNext
  rw [h.elements]
  simp only [elementSave_eq hb]
  rw [if_neg (Int.not_le.mpr h.tries), hends.2]
  have hname' : entry.nameSpace.isNone = false := by simpa using hname
  simp [hname', hends.1.1, hends.1.2]

/-- At the end of a transaction it is ended. -/
theorem saveNext_ends (h : s.At entry rest) (hname : s.nameless task entry = false)
    (hends : s.ends task rest = true) :
    saveNext task s = .ok (endTransaction task.answers
      ⟨s.put task entry, rest, s.xactionElements ++ [entry],
        if s.refuses task then s.retryCount - 1 else s.retryCount, s.i + 1,
        if s.refuses task then .failed else .success⟩
      (s.refuses task && decide (0 < if s.refuses task then s.retryCount - 1 else s.retryCount))
      (s.refuses task &&
        !decide (0 < if s.refuses task then s.retryCount - 1 else s.retryCount))) := by
  obtain ⟨b, hb⟩ := h.opened
  unfold XactionState.nameless at hname
  unfold XactionState.ends at hends
  unfold saveNext
  rw [h.elements]
  simp only [elementSave_eq hb]
  rw [if_neg (Int.not_le.mpr h.tries)]
  cases hrefuse : s.refuses task with
  | true =>
    by_cases hleft : 1 < s.retryCount
    · simp [hleft]
    · simp [hleft, Int.not_lt.mp hleft]
  | false =>
    rw [hrefuse] at hname hends
    have hname' : entry.nameSpace.isNone = false := by simpa using hname
    have hends' : (s.i : Int) > task.xactionThreshold ∨ rest = [] := by simpa using hends
    simp [hname', hends']

/-- The last element is saved, and the group is at its end. -/
theorem saveNext_last (h : s.At entry []) (hname : s.nameless task entry = false)
    (hhits : s.hits task [] = 0) :
    saveNext task s = .ok (.inl ⟨s.closed task entry [], [], s.xactionElements ++ [entry],
      s.retryCount, s.i + 1, .success⟩) := by
  have hends : s.ends task [] = true := by simp [XactionState.ends]
  rw [saveNext_ends h hname hends, endTransaction_eq hends, if_pos hhits,
    nextTransaction_done (.inl rfl)]

/-- A full transaction is ended, and the next one started. -/
theorem saveNext_split (h : s.At entry rest) (hname : s.nameless task entry = false)
    (hends : s.ends task rest = true) (hhits : s.hits task rest = 0) (hrest : rest ≠ []) :
    saveNext task s = .ok (
      if task.answers.start s.conn.starts then
        .inl ⟨(s.closed task entry rest).relock.opened, rest, [], s.retryCount, 0, .success⟩
      else .inr ⟨true, (s.closed task entry rest).relock.failedStart, .success⟩) := by
  rw [saveNext_ends h hname hends, endTransaction_eq hends, if_pos hhits,
    nextTransaction_split hrest rfl]
  rfl

/-- A transaction with a failure is tried again. -/
theorem saveNext_again (h : s.At entry rest) (hname : s.nameless task entry = false)
    (hhits : 0 < s.hits task rest) (hleft : (s.hits task rest : Int) < s.retryCount) :
    saveNext task s = .ok (
      if task.answers.start s.conn.starts then
        .inl ⟨(s.closed task entry rest).opened, s.xactionElements ++ [entry] ++ rest, [],
          s.retryCount - s.hits task rest, s.i + 1, .success⟩
      else .inr ⟨true, (s.closed task entry rest).failedStart, .success⟩) := by
  have hends := ends_of_hits hhits
  rw [saveNext_ends h hname hends, endTransaction_eq hends, if_neg (Nat.ne_of_gt hhits),
    if_pos hleft, nextTransaction_retry rfl]
  rfl

/-- After the third failure the rest of the group is dropped. -/
theorem saveNext_spent (h : s.At entry rest) (hname : s.nameless task entry = false)
    (hspent : s.retryCount ≤ (s.hits task rest : Int)) :
    saveNext task s = .ok (.inl ⟨s.closed task entry rest, rest, s.xactionElements ++ [entry],
      s.retryCount - s.hits task rest, s.i + 1,
      if s.refuses task then .failed else .success⟩) := by
  have hhits : 0 < s.hits task rest := by
    have htries := h.tries
    omega
  have hends := ends_of_hits hhits
  rw [saveNext_ends h hname hends, endTransaction_eq hends, if_neg (Nat.ne_of_gt hhits),
    if_neg (Int.not_lt.mpr hspent), nextTransaction_done (.inr rfl)]

end Step

/-! ### the loop ends -/

/-- The elements that are at hand, once for each try that is left. -/
def XactionState.size (s : XactionState) : Nat :=
  s.retryCount.toNat * (s.xactionElements.length + s.vElements.length + 1) + s.vElements.length

variable {s t : XactionState}

theorem nextTransaction_inl {p : Pattern} {retry exhausted : Bool}
    (h : nextTransaction p s retry exhausted = .inl t) :
    t.retryCount = s.retryCount ∧ t.vElements = s.vElements ∧
      t.xactionElements.length ≤ s.xactionElements.length := by
  unfold nextTransaction at h
  split at h
  · cases hstart : (transactionStart p s.conn.relock).1 with
    | true =>
      simp only [hstart, if_true] at h
      cases h
      exact ⟨rfl, rfl, Nat.zero_le _⟩
    | false => simp [hstart] at h
  · split at h
    · cases hstart : (transactionStart p s.conn).1 with
      | true =>
        simp only [hstart, if_true] at h
        cases h
        exact ⟨rfl, rfl, Nat.le_refl _⟩
      | false => simp [hstart] at h
    · cases h
      exact ⟨rfl, rfl, Nat.le_refl _⟩

/-- Behind the end of a transaction there are fewer tries, or fewer elements. -/
theorem endTransaction_inl {p : Pattern} {retry exhausted : Bool} {tries : Int}
    (hretry : retry = true → s.retryCount < tries) (htries : s.retryCount ≤ tries)
    (h : endTransaction p s retry exhausted = .inl t) :
    (t.retryCount < tries ∧ t.xactionElements.length + t.vElements.length ≤
      s.xactionElements.length + s.vElements.length) ∨
    (t.retryCount ≤ tries ∧ t.vElements = s.vElements ∧
      t.xactionElements.length ≤ s.xactionElements.length) := by
  unfold endTransaction at h
  cases hstop : (transactionEnd p s.conn).1 with
  | true =>
    simp only [hstop, if_true] at h
    cases retry with
    | true =>
      obtain ⟨hcount, hv, hx⟩ := nextTransaction_inl h
      refine .inl ⟨hcount ▸ hretry rfl, ?_⟩
      rw [hv, length_append]
      rw [length_nil] at hx
      omega
    | false =>
      obtain ⟨hcount, hv, hx⟩ := nextTransaction_inl h
      exact .inr ⟨hcount ▸ htries, hv, hx⟩
  | false =>
    simp only [hstop, Bool.false_eq_true, if_false] at h
    refine .inl ?_
    by_cases hleft : 0 < s.retryCount - 1
    · rw [if_pos (decide_eq_true hleft)] at h
      obtain ⟨hcount, hv, hx⟩ := nextTransaction_inl h
      refine ⟨by rw [hcount]; exact Int.lt_of_lt_of_le (Int.sub_lt_self _ Int.one_pos) htries, ?_⟩
      rw [hv, length_append]
      rw [length_nil] at hx
      omega
    · rw [if_neg (by simpa using hleft)] at h
      obtain ⟨hcount, hv, hx⟩ := nextTransaction_inl h
      refine ⟨by rw [hcount]; exact Int.lt_of_lt_of_le (Int.sub_lt_self _ Int.one_pos) htries, ?_⟩
      rw [hv]
      exact Nat.add_le_add_right hx _

/-- With fewer tries, or as many and fewer elements, the size is less. -/
theorem size_lt (hpos : 0 < s.retryCount)
    (h : (t.retryCount < s.retryCount ∧ t.xactionElements.length + t.vElements.length ≤
        s.xactionElements.length + s.vElements.length) ∨
      (t.retryCount ≤ s.retryCount ∧ t.xactionElements.length + t.vElements.length ≤
        s.xactionElements.length + s.vElements.length ∧
          t.vElements.length < s.vElements.length)) : t.size < s.size := by
  unfold XactionState.size
  rcases h with ⟨htries, hlen⟩ | ⟨htries, hlen, hv⟩
  · have hn : t.retryCount.toNat + 1 ≤ s.retryCount.toNat := by omega
    have hmul := Nat.mul_le_mul hn (Nat.add_le_add_right hlen 1)
    rw [Nat.add_mul, Nat.one_mul] at hmul
    have htotal : t.retryCount.toNat * (t.xactionElements.length + t.vElements.length + 1) +
        (t.xactionElements.length + t.vElements.length + 1) ≤
      s.retryCount.toNat * (s.xactionElements.length + s.vElements.length + 1) := hmul
    omega
  · have hn : t.retryCount.toNat ≤ s.retryCount.toNat := by omega
    have hmul := Nat.mul_le_mul hn (Nat.add_le_add_right hlen 1)
    omega

theorem saveNext_decreases (task : TransactionTask) (s t : XactionState)
    (h : saveNext task s = .ok (.inl t)) : t.size < s.size := by
  unfold saveNext at h
  cases hv : s.vElements with
  | nil =>
    rw [hv] at h
    exact absurd (Except.ok.inj h) (by simp)
  | cons entry rest =>
    rw [hv] at h
    by_cases hpos : s.retryCount ≤ 0
    · simp only [if_pos hpos] at h
      exact absurd (Except.ok.inj h) (by simp)
    · cases hsave : elementSave task s.conn entry with
      | mk status conn =>
        simp only [if_neg hpos, hsave] at h
        split at h
        · cases h
        have hcount : (if decide (status ≠ .success) then s.retryCount - 1 else s.retryCount) ≤
            s.retryCount := by
          split
          · omega
          · exact Int.le_refl _
        have hlen : (s.xactionElements ++ [entry]).length + rest.length =
            s.xactionElements.length + s.vElements.length := by
          rw [hv, length_append, length_singleton, length_cons]
          omega
        have hretry : decide (status ≠ .success) = true →
            (if decide (status ≠ .success) then s.retryCount - 1 else s.retryCount) <
              s.retryCount := by
          intro hfail
          rw [if_pos hfail]
          omega
        generalize (if decide (status ≠ .success) then s.retryCount - 1 else s.retryCount) =
          tries at h hcount hretry
        refine size_lt (Int.not_le.mp hpos) ?_
        split at h
        · rcases endTransaction_inl (fun hno => hretry (Bool.and_eq_true_iff.mp hno).1) hcount
            (Except.ok.inj h) with ⟨htries, hle⟩ | ⟨htries, hvt, hxt⟩
          · exact .inl ⟨htries, hle.trans_eq hlen⟩
          · refine .inr ⟨htries, ?_, ?_⟩
            · rw [hvt]
              exact (Nat.add_le_add_right hxt _).trans_eq hlen
            · rw [hvt, hv]
              exact Nat.lt_succ_self _
        · cases h
          refine .inr ⟨hcount, Nat.le_of_eq hlen, ?_⟩
          rw [hv]
          exact Nat.lt_succ_self _

/-- The loop over the elements of one group. -/
def saveLoop (task : TransactionTask) : Loop XactionState GroupEnd where
  body := saveNext task
  size := XactionState.size
  decreases := saveNext_decreases task

/-! ### the groups -/

/-- What is known of a group afterwards: its committed transactions and its failures. -/
structure GroupRun where
  committed : List (List SRDIEntryElement)
  failures : Nat

/-- A connection, with nothing known of the next group yet. -/
def Connection.begin (c : Connection) : Connection := { c with committed := [], failures := 0 }

def Connection.groupRun (c : Connection) : GroupRun := ⟨c.committed, c.failures⟩

/-- What `cm_srdi_transaction_save` returns, and what it leaves. -/
structure SaveResult where
  status : Status
  runs : List GroupRun
  conn : Connection

/-- The loop over the groups. -/
def saveGroups (task : TransactionTask) :
    List (List SRDIEntryElement) → Connection → Status → Exec SaveResult
  | [], conn, status => .ok ⟨status, [], conn⟩
  | vElements :: entriesV, conn, status =>
    let (rv, conn) := transactionStart task.answers conn.begin
    if !rv then .ok ⟨status, [conn.groupRun], conn⟩
    else do
      let done ← (saveLoop task).run ⟨conn, vElements, [], 3, 0, status⟩
      if done.finalExit then return ⟨done.status, [done.conn.groupRun], done.conn⟩
      let result ← saveGroups task entriesV done.conn done.status
      return { result with runs := done.conn.groupRun :: result.runs }

/-- A connection on which nothing was called yet. -/
def Connection.new : Connection := ⟨0, 0, 0, none, [], 0, false⟩

/-- `cm_srdi_transaction_save`. -/
def cmSrdiTransactionSave (task : TransactionTask) (entriesV : List (List SRDIEntryElement)) :
    Exec SaveResult := do
  let result ← saveGroups task entriesV { Connection.new with locked := true } .success
  return { result with conn := { result.conn with locked := false } }

/-! ## the claim of the transactions -/

/-- Every group that is hit by fewer than three failures is in committed transactions, each element
in one and in the order of the list; and the status is success only if all groups are. -/
structure Accounted (groups : List (List SRDIEntryElement)) (runs : List GroupRun)
    (status : Status) : Prop where
  saved : ∀ (k : Nat) (g : List SRDIEntryElement), groups[k]? = some g →
    (runs[k]?.elim 0 GroupRun.failures) < 3 → (runs[k]?.elim [] GroupRun.committed).flatten = g
  success : status = .success → ∀ (k : Nat) (g : List SRDIEntryElement), groups[k]? = some g →
    (runs[k]?.elim [] GroupRun.committed).flatten = g

/-- The groups are accounted for; and at the end no transaction is open and the lock is released. -/
structure Stored (groups : List (List SRDIEntryElement)) (result : SaveResult) : Prop where
  groups : Accounted groups result.runs result.status
  closed : result.conn.transaction = none
  unlocked : result.conn.locked = false

/-! ### one step of a group -/

section Moves
variable {task : TransactionTask} {s : XactionState} {entry : SRDIEntryElement}
  {rest : List SRDIEntryElement}

/-- The transaction of a step with failures, or the next one behind a full one, has to be started.
-/
def XactionState.starts (task : TransactionTask) (s : XactionState)
    (rest : List SRDIEntryElement) : Prop :=
  0 < s.hits task rest ∨ (s.ends task rest = true ∧ rest ≠ [])

/-- What the loop body can do at an element. -/
inductive Moves (task : TransactionTask) (s : XactionState) (entry : SRDIEntryElement)
    (rest : List SRDIEntryElement) : Exec (XactionState ⊕ GroupEnd) → Prop where
  | nameless (hname : s.nameless task entry = true) : Moves task s entry rest (.error .nullPointer)
  | within (hname : s.nameless task entry = false) (hends : s.ends task rest = false) :
      Moves task s entry rest (.ok (.inl ⟨s.put task entry, rest, s.xactionElements ++ [entry],
        s.retryCount, s.i + 1, .success⟩))
  | last (hname : s.nameless task entry = false) (hhits : s.hits task rest = 0)
      (hrest : rest = []) :
      Moves task s entry rest (.ok (.inl ⟨s.closed task entry rest, rest,
        s.xactionElements ++ [entry], s.retryCount, s.i + 1, .success⟩))
  | split (hname : s.nameless task entry = false) (hends : s.ends task rest = true)
      (hhits : s.hits task rest = 0) (hrest : rest ≠ [])
      (hstart : task.answers.start s.conn.starts = true) :
      Moves task s entry rest (.ok (.inl ⟨(s.closed task entry rest).relock.opened, rest, [],
        s.retryCount, 0, .success⟩))
  | noSplit (hname : s.nameless task entry = false) (hends : s.ends task rest = true)
      (hhits : s.hits task rest = 0) (hrest : rest ≠ [])
      (hstart : task.answers.start s.conn.starts = false) :
      Moves task s entry rest
        (.ok (.inr ⟨true, (s.closed task entry rest).relock.failedStart, .success⟩))
  | again (hname : s.nameless task entry = false) (hhits : 0 < s.hits task rest)
      (hleft : (s.hits task rest : Int) < s.retryCount)
      (hstart : task.answers.start s.conn.starts = true) :
      Moves task s entry rest (.ok (.inl ⟨(s.closed task entry rest).opened,
        s.xactionElements ++ [entry] ++ rest, [], s.retryCount - s.hits task rest, s.i + 1,
        .success⟩))
  | noRetry (hname : s.nameless task entry = false) (hhits : 0 < s.hits task rest)
      (hleft : (s.hits task rest : Int) < s.retryCount)
      (hstart : task.answers.start s.conn.starts = false) :
      Moves task s entry rest
        (.ok (.inr ⟨true, (s.closed task entry rest).failedStart, .success⟩))
  | spent (hname : s.nameless task entry = false)
      (hspent : s.retryCount ≤ (s.hits task rest : Int)) :
      Moves task s entry rest (.ok (.inl ⟨s.closed task entry rest, rest,
        s.xactionElements ++ [entry], s.retryCount - s.hits task rest, s.i + 1,
        if s.refuses task then .failed else .success⟩))

variable (task) in
theorem moves (h : s.At entry rest) : Moves task s entry rest (saveNext task s) := by
  cases hname : s.nameless task entry with
  | true =>
    rw [saveNext_nameless h hname]
    exact .nameless hname
  | false =>
    by_cases hspent : s.retryCount ≤ (s.hits task rest : Int)
    · rw [saveNext_spent h hname hspent]
      exact .spent hname hspent
    by_cases hhits : s.hits task rest = 0
    · cases hends : s.ends task rest with
      | false =>
        rw [saveNext_within h hname hends]
        exact .within hname hends
      | true =>
        by_cases hrest : rest = []
        · subst hrest
          rw [saveNext_last h hname hhits]
          exact .last hname hhits rfl
        · rw [saveNext_split h hname hends hhits hrest]
          cases hstart : task.answers.start s.conn.starts with
          | true => exact .split hname hends hhits hrest hstart
          | false => exact .noSplit hname hends hhits hrest hstart
    · rw [saveNext_again h hname (Nat.pos_of_ne_zero hhits) (Int.not_le.mp hspent)]
      cases hstart : task.answers.start s.conn.starts with
      | true => exact .again hname (Nat.pos_of_ne_zero hhits) (Int.not_le.mp hspent) hstart
      | false => exact .noRetry hname (Nat.pos_of_ne_zero hhits) (Int.not_le.mp hspent) hstart

end Moves

/-! ### what becomes of a group -/

section Fates
variable {task : TransactionTask} {s t : XactionState} {entry : SRDIEntryElement}
  {g rest : List SRDIEntryElement}

/-- The elements of the group that are committed, in the transaction, or to come. -/
def XactionState.total (s : XactionState) : List SRDIEntryElement :=
  s.conn.committed.flatten ++ s.xactionElements ++ s.vElements

/-- The loop is at work: three failures end it. -/
structure Working (s : XactionState) : Prop where
  element : ∃ entry rest, s.At entry rest
  count : (s.conn.failures : Int) + s.retryCount = 3

/-- The loop is over: the body leaves it. -/
structure Over (s : XactionState) : Prop where
  ended : s.vElements = [] ∨ s.retryCount ≤ 0
  closed : s.conn.transaction = none

theorem saveNext_over (h : Over s) : saveNext task s = .ok (.inr ⟨false, s.conn, s.status⟩) := by
  unfold saveNext
  cases hv : s.vElements with
  | nil => rfl
  | cons entry rest =>
    rcases h.ended with hno | hcount
    · rw [hv] at hno
      exact absurd hno (cons_ne_nil _ _)
    · simp only [if_pos hcount]

theorem run_over (h : Over s) : (saveLoop task).run s = .ok ⟨false, s.conn, s.status⟩ :=
  Loop.run_done (saveNext_over h)

theorem spoilt_of_refuses (h : s.refuses task = true) : s.spoilt task = true := by
  unfold XactionState.spoilt
  rw [of_decide_eq_true h]
  exact Bool.or_true _

/-- A transaction with a failure is not committed. -/
theorem committed_of_hits (h : 0 < s.hits task rest) :
    (s.closed task entry rest).committed = s.conn.committed := by
  have hends := ends_of_hits h
  unfold XactionState.hits at h
  rw [hends, Bool.true_and] at h
  show (if task.answers.stop s.conn.stops && !s.spoilt task then _ else _) = _
  cases hstop : task.answers.stop s.conn.stops with
  | false => rfl
  | true =>
    rw [hstop] at h
    have hrefuse : s.refuses task = true := by
      cases hno : s.refuses task with
      | true => rfl
      | false =>
        rw [hno] at h
        cases h
    rw [spoilt_of_refuses hrefuse]
    rfl

variable (entry) in
/-- One without a failure is, unless it is spoilt. -/
theorem committed_of_ends (hends : s.ends task rest = true) (hhits : s.hits task rest = 0) :
    (s.closed task entry rest).committed.flatten =
      if s.spoilt task then s.conn.committed.flatten
      else s.conn.committed.flatten ++ (s.xactionElements ++ [entry]) := by
  have hstop : task.answers.stop s.conn.stops = true := by
    unfold XactionState.hits at hhits
    rw [hends, Bool.true_and] at hhits
    cases hno : task.answers.stop s.conn.stops with
    | true => rfl
    | false =>
      rw [hno] at hhits
      exact absurd hhits (Nat.succ_ne_zero _)
  show List.flatten (if task.answers.stop s.conn.stops && !s.spoilt task then _ else _) = _
  rw [hstop]
  cases s.spoilt task with
  | true => rfl
  | false => simp

theorem total_at (h : s.At entry rest) :
    s.total = s.conn.committed.flatten ++ (s.xactionElements ++ [entry]) ++ rest := by
  unfold XactionState.total
  rw [h.elements]
  simp

/-- The group ends with all its elements committed. -/
structure EndsKept (g : List SRDIEntryElement) (e : GroupEnd) : Prop where
  stays : e.finalExit = false
  elements : e.conn.committed.flatten = g
  few : e.conn.failures < 3
  status : e.status = .success
  closed : e.conn.transaction = none

/-- It ends without some of them, because a statement of a transaction was refused that no save
reports. -/
structure EndsLost (g : List SRDIEntryElement) (e : GroupEnd) : Prop where
  stays : e.finalExit = false
  elements : e.conn.committed.flatten.length < g.length
  few : e.conn.failures < 3
  status : e.status = .success
  closed : e.conn.transaction = none

/-- It ends without some of them, because of the third failure: that of a save or not. -/
structure EndsSpent (g : List SRDIEntryElement) (ofSave : Bool) (e : GroupEnd) : Prop where
  stays : e.finalExit = false
  elements : e.conn.committed.flatten.length < g.length
  many : 3 ≤ e.conn.failures
  status : e.status = if ofSave then .failed else .success
  closed : e.conn.transaction = none

/-- It ends without some of them, because a transaction could not be started. -/
structure EndsExit (g : List SRDIEntryElement) (e : GroupEnd) : Prop where
  leaves : e.finalExit = true
  elements : e.conn.committed.flatten.length < g.length
  status : e.status = .success
  closed : e.conn.transaction = none

/-- The third failure is met. -/
def SpentBy (task : TransactionTask) (s : XactionState) (ofSave : Bool) : Prop :=
  ∃ v, (saveLoop task).Visits s v ∧ ∃ entry rest, v.At entry rest ∧
    v.nameless task entry = false ∧ v.retryCount ≤ (v.hits task rest : Int) ∧
      v.refuses task = ofSave

/-- The step keeps all elements: the one at hand has a name space if it is saved, it is not the
third failure, no transaction is ended that is spoilt without a failure, and one that has to be
started is. -/
structure Keeps (task : TransactionTask) (s : XactionState) (entry : SRDIEntryElement)
    (rest : List SRDIEntryElement) : Prop where
  named : s.nameless task entry = false
  few : (s.hits task rest : Int) < s.retryCount
  clean : s.ends task rest = true → s.hits task rest = 0 → s.spoilt task = false
  starts : s.starts task rest → task.answers.start s.conn.starts = true

/-- All steps of the group keep its elements. -/
def Kept (task : TransactionTask) (s : XactionState) : Prop :=
  ∀ v, (saveLoop task).Visits s v → ∀ entry rest, v.At entry rest → Keeps task v entry rest

/-! ### from one state to the next -/

theorem At.unique {entry' : SRDIEntryElement} {rest' : List SRDIEntryElement}
    (h : s.At entry rest) (h' : s.At entry' rest') : entry = entry' ∧ rest = rest' :=
  List.cons.inj (h.elements.symm.trans h'.elements)

theorem not_at_of_over (h : Over s) : ¬s.At entry rest := by
  intro hat
  rcases h.ended with hv | hcount
  · rw [hat.elements] at hv
    exact absurd hv (cons_ne_nil _ _)
  · exact absurd hat.tries (Int.not_lt.mpr hcount)

/-- Once it is over it does not come to an element again. -/
theorem not_at_of_visits_over {v : XactionState} (h : Over s) (hv : (saveLoop task).Visits s v) :
    ¬v.At entry rest := by
  cases hv with
  | refl => exact not_at_of_over h
  | step hbody hrest =>
    have hdone : (saveLoop task).body s = .ok (.inr ⟨false, s.conn, s.status⟩) := saveNext_over h
    rw [hdone] at hbody
    exact absurd (Except.ok.inj hbody) (by simp)

theorem kept_over (h : Over s) : Kept task s :=
  fun _ hv _ _ hat => absurd hat (not_at_of_visits_over h hv)

theorem kept_step (hat : s.At entry rest) (hkeep : Keeps task s entry rest)
    (hbody : saveNext task s = .ok (.inl t)) (ht : Kept task t) : Kept task s := by
  intro v hv entry' rest' hat'
  cases hv with
  | refl =>
    obtain ⟨rfl, rfl⟩ := At.unique hat hat'
    exact hkeep
  | step hbody' hrest =>
    have hbody'' : saveNext task s = .ok (.inl _) := hbody'
    obtain rfl := Sum.inl.inj (Except.ok.inj (hbody.symm.trans hbody''))
    exact ht v hrest entry' rest' hat'

theorem SpentBy.step {ofSave : Bool} (hbody : saveNext task s = .ok (.inl t))
    (h : SpentBy task t ofSave) : SpentBy task s ofSave := by
  obtain ⟨v, hv, hspent⟩ := h
  exact ⟨v, .step hbody hv, hspent⟩

theorem ends_eq_false (h : s.ends task rest = false) : rest ≠ [] ∧ s.refuses task = false := by
  unfold XactionState.ends at h
  rw [Bool.or_eq_false_iff, Bool.or_eq_false_iff, decide_eq_false_iff_not,
    decide_eq_false_iff_not] at h
  exact ⟨h.1.2, h.2⟩

theorem hits_of_not_ends (h : s.ends task rest = false) : s.hits task rest = 0 := by
  unfold XactionState.hits
  rw [h, (ends_eq_false h).2]
  rfl

/-- Within a transaction the loop stays at work. -/
theorem within_working (h : Working s) (hat : s.At entry rest) (hends : s.ends task rest = false) :
    Working (⟨s.put task entry, rest, s.xactionElements ++ [entry], s.retryCount, s.i + 1,
      .success⟩ : XactionState) := by
  obtain ⟨hrest, hrefuse⟩ := ends_eq_false hends
  obtain ⟨entry', rest', hcons⟩ := exists_cons_of_ne_nil hrest
  refine ⟨⟨entry', rest', hcons, hat.tries, ⟨s.spoilt task, rfl⟩⟩, ?_⟩
  have hcount := h.count
  show ((s.conn.failures + (s.refuses task).toNat : Nat) : Int) + s.retryCount = 3
  rw [hrefuse]
  exact hcount

/-- It does in the next transaction, and in the same one again. -/
theorem started_working (h : Working s) (hat : s.At entry rest)
    (hleft : (s.hits task rest : Int) < s.retryCount) {c : Connection} {v : List SRDIEntryElement}
    {i : Nat} (hv : v ≠ []) (hc : c.transaction = some ([], false))
    (hfail : c.failures = s.conn.failures + s.hits task rest) :
    Working (⟨c, v, [], s.retryCount - s.hits task rest, i, .success⟩ : XactionState) := by
  obtain ⟨entry', rest', hcons⟩ := exists_cons_of_ne_nil hv
  have hcount := h.count
  refine ⟨⟨entry', rest', hcons, Int.sub_pos_of_lt hleft, false, hc⟩, ?_⟩
  show (c.failures : Int) + (s.retryCount - s.hits task rest) = 3
  rw [hfail]
  push_cast
  omega

variable (task) in
theorem total_within (hat : s.At entry rest) (i : Nat) (status : Status) :
    (⟨s.put task entry, rest, s.xactionElements ++ [entry], s.retryCount, i, status⟩ :
      XactionState).total = s.total := (total_at hat).symm

variable (task) in
/-- A transaction that is tried again has its elements before the others. -/
theorem total_again (hat : s.At entry rest) (hhits : 0 < s.hits task rest) (tries : Int) (i : Nat)
    (status : Status) :
    (⟨(s.closed task entry rest).opened, s.xactionElements ++ [entry] ++ rest, [], tries, i,
      status⟩ : XactionState).total = s.total := by
  rw [total_at hat]
  show (s.closed task entry rest).committed.flatten ++ [] ++ _ = _
  rw [committed_of_hits hhits, append_nil, ← append_assoc]

/-- The next transaction has the elements that are left, and those before are committed unless the
transaction is spoilt. -/
theorem total_split (hat : s.At entry rest) (hends : s.ends task rest = true)
    (hhits : s.hits task rest = 0) (tries : Int) (i : Nat) (status : Status) :
    (⟨(s.closed task entry rest).relock.opened, rest, [], tries, i, status⟩ :
        XactionState).total =
      if s.spoilt task then s.conn.committed.flatten ++ rest else s.total := by
  rw [total_at hat]
  show (s.closed task entry rest).committed.flatten ++ [] ++ rest = _
  rw [committed_of_ends entry hends hhits, append_nil]
  cases s.spoilt task with
  | true => rfl
  | false => rfl

theorem spoilt_lt (hat : s.At entry rest) :
    (s.conn.committed.flatten ++ rest).length < s.total.length := by
  rw [total_at hat]
  simp only [length_append, length_singleton]
  omega

theorem committed_lt (hat : s.At entry rest) :
    s.conn.committed.flatten.length < s.total.length := by
  have hlt := spoilt_lt hat
  rw [length_append] at hlt
  omega

/-- After the last element, or the third failure, the loop is over. -/
theorem over_closed {v x : List SRDIEntryElement} {tries : Int} {i : Nat} {status : Status}
    (h : v = [] ∨ tries ≤ 0) :
    Over (⟨s.closed task entry rest, v, x, tries, i, status⟩ : XactionState) := ⟨h, rfl⟩

theorem split_working (h : Working s) (hat : s.At entry rest) (hhits : s.hits task rest = 0)
    (hrest : rest ≠ []) : Working (⟨(s.closed task entry rest).relock.opened, rest, [],
      s.retryCount, 0, .success⟩ : XactionState) := by
  have hleft : (s.hits task rest : Int) < s.retryCount := by
    rw [hhits]
    exact hat.tries
  have hwork := started_working (i := 0) h hat hleft
    (c := (s.closed task entry rest).relock.opened) hrest rfl rfl
  rw [hhits] at hwork
  simpa using hwork

/-- The loop stays at work or is over. -/
theorem next_cases (h : Working s) (hbody : saveNext task s = .ok (.inl t)) :
    (Working t ∧ t.total.length ≤ s.total.length) ∨ Over t := by
  obtain ⟨entry, rest, hat⟩ := h.element
  have hmoves := moves task hat
  rw [hbody] at hmoves
  cases hmoves with
  | within hname hends =>
    exact .inl ⟨within_working h hat hends,
      Nat.le_of_eq (congrArg List.length (total_within task hat _ _))⟩
  | last hname hhits hrest => exact .inr (over_closed (.inl hrest))
  | split hname hends hhits hrest hstart =>
    refine .inl ⟨split_working h hat hhits hrest, ?_⟩
    · rw [total_split hat hends hhits]
      split
      · exact Nat.le_of_lt (spoilt_lt hat)
      · exact Nat.le_refl _
  | again hname hhits hleft hstart =>
    exact .inl ⟨started_working h hat hleft (by simp) rfl rfl,
      Nat.le_of_eq (congrArg List.length (total_again task hat hhits _ _ _))⟩
  | spent hname hspent => exact .inr (over_closed (.inr (by omega)))

/-! ### the fate of a group -/

theorem Kept.next (h : Kept task s) (hbody : saveNext task s = .ok (.inl t)) : Kept task t :=
  fun v hv => h v (.step hbody hv)

/-- If every step keeps them, all elements of the group are committed. -/
theorem run_kept (hw : Working s) (hg : s.total = g) (hk : Kept task s) :
    ∃ e, (saveLoop task).run s = .ok e ∧ EndsKept g e := by
  induction s using (saveLoop task).induction with
  | h s ih =>
    obtain ⟨entry, rest, hat⟩ := hw.element
    have hkeep := hk s (.refl s) entry rest hat
    have hmoves := moves task hat
    generalize hbody : saveNext task s = r at hmoves
    cases hmoves with
    | nameless hname => exact absurd (hname.symm.trans hkeep.named) (by decide)
    | within hname hends =>
      rw [Loop.run_next (L := saveLoop task) hbody]
      exact ih _ hbody (within_working hw hat hends) ((total_within task hat _ _).trans hg)
        (hk.next hbody)
    | last hname hhits hrest =>
      have hends : s.ends task rest = true := by simp [XactionState.ends, hrest]
      have hcount := hw.count
      have htries := hat.tries
      refine ⟨_, (Loop.run_next (L := saveLoop task) hbody).trans (run_over
        (over_closed (.inl hrest))), rfl, ?_, ?_, rfl, rfl⟩
      · show (s.closed task entry rest).committed.flatten = g
        rw [committed_of_ends entry hends hhits, hkeep.clean hends hhits, ← hg, total_at hat, hrest,
          append_nil]
        rfl
      · show s.conn.failures + s.hits task rest < 3
        omega
    | split hname hends hhits hrest hstart =>
      rw [Loop.run_next (L := saveLoop task) hbody]
      refine ih _ hbody (split_working hw hat hhits hrest) ?_ (hk.next hbody)
      rw [total_split hat hends hhits, hkeep.clean hends hhits]
      exact hg
    | noSplit hname hends hhits hrest hstart =>
      exact absurd (hstart.symm.trans (hkeep.starts (.inr ⟨hends, hrest⟩))) (by decide)
    | again hname hhits hleft hstart =>
      rw [Loop.run_next (L := saveLoop task) hbody]
      exact ih _ hbody (started_working hw hat hleft (by simp) rfl rfl)
        ((total_again task hat hhits _ _ _).trans hg) (hk.next hbody)
    | noRetry hname hhits hleft hstart =>
      exact absurd (hstart.symm.trans (hkeep.starts (.inl hhits))) (by decide)
    | spent hname hspent => exact absurd hkeep.few (Int.not_lt.mpr hspent)

/-- How a group can end: with all its elements, every step having kept them; or short of some. -/
inductive Fate (task : TransactionTask) (g : List SRDIEntryElement) (s : XactionState)
    (e : GroupEnd) : Prop where
  | kept (h : EndsKept g e) (hg : s.total = g) (hk : Kept task s)
  | lost (h : EndsLost g e)
  | spent (ofSave : Bool) (h : EndsSpent g ofSave e) (hs : SpentBy task s ofSave)
  | exit (h : EndsExit g e)

/-- The fate of a group is that of the next state. -/
theorem Fate.step {e : GroupEnd} (hat : s.At entry rest) (hbody : saveNext task s = .ok (.inl t))
    (hkeep : t.total = g → s.total = g ∧ Keeps task s entry rest) (h : Fate task g t e) :
    Fate task g s e := by
  cases h with
  | kept h hg hk => exact .kept h (hkeep hg).1 (kept_step hat (hkeep hg).2 hbody hk)
  | lost h => exact .lost h
  | spent ofSave h hs => exact .spent ofSave h (hs.step hbody)
  | exit h => exact .exit h

theorem run_fate (hw : Working s) (hg : s.total = g ∨ s.total.length < g.length) {e : GroupEnd}
    (hrun : (saveLoop task).run s = .ok e) : Fate task g s e := by
  induction s using (saveLoop task).induction with
  | h s ih =>
    obtain ⟨entry, rest, hat⟩ := hw.element
    have hcount := hw.count
    have htries := hat.tries
    have hle : s.total.length ≤ g.length :=
      hg.elim (fun h => Nat.le_of_eq (congrArg _ h)) Nat.le_of_lt
    have hmoves := moves task hat
    generalize hbody : saveNext task s = r at hmoves
    cases hmoves with
    | nameless hname =>
      rw [Loop.run_error (L := saveLoop task) hbody] at hrun
      cases hrun
    | within hname hends =>
      rw [Loop.run_next (L := saveLoop task) hbody] at hrun
      have htotal := total_within task hat (s.i + 1) .success
      refine (ih _ hbody (within_working hw hat hends) (htotal ▸ hg) hrun).step hat hbody ?_
      intro ht
      have hhits := hits_of_not_ends hends
      refine ⟨htotal.symm.trans ht, hname, by rw [hhits]; exact htries, ?_, ?_⟩
      · intro hno
        exact absurd (hends.symm.trans hno) (by decide)
      · intro hno
        rcases hno with hno | hno
        · exact absurd hhits (Nat.ne_of_gt hno)
        · exact absurd (hends.symm.trans hno.1) (by decide)
    | last hname hhits hrest =>
      have hends : s.ends task rest = true := by simp [XactionState.ends, hrest]
      have hover : Over (⟨s.closed task entry rest, rest, s.xactionElements ++ [entry],
        s.retryCount, s.i + 1, .success⟩ : XactionState) := over_closed (.inl hrest)
      have hfew : s.conn.failures + s.hits task rest < 3 := by omega
      rw [Loop.run_next (L := saveLoop task) hbody, run_over hover] at hrun
      cases hrun
      have helements := committed_of_ends entry hends hhits
      cases hspoilt : s.spoilt task with
      | true =>
        rw [hspoilt, if_pos rfl] at helements
        refine .lost ⟨rfl, ?_, hfew, rfl, rfl⟩
        show (s.closed task entry rest).committed.flatten.length < _
        rw [helements]
        exact Nat.lt_of_lt_of_le (committed_lt hat) hle
      | false =>
        have htotal : (s.closed task entry rest).committed.flatten = s.total := by
          rw [helements, hspoilt, total_at hat, hrest, append_nil]
          rfl
        rcases hg with hg | hg
        · refine .kept ⟨rfl, htotal.trans hg, hfew, rfl, rfl⟩ hg
            (kept_step hat ⟨hname, by rw [hhits]; exact htries, fun _ _ => hspoilt, ?_⟩ hbody
              (kept_over hover))
          intro hno
          rcases hno with hno | hno
          · exact absurd hhits (Nat.ne_of_gt hno)
          · exact absurd hrest hno.2
        · refine .lost ⟨rfl, ?_, hfew, rfl, rfl⟩
          show (s.closed task entry rest).committed.flatten.length < _
          rw [htotal]
          exact hg
    | split hname hends hhits hrest hstart =>
      rw [Loop.run_next (L := saveLoop task) hbody] at hrun
      have htotal := total_split hat hends hhits s.retryCount 0 .success
      have hshort := spoilt_lt hat
      refine (ih _ hbody (split_working hw hat hhits hrest) ?_ hrun).step hat hbody ?_
      · rw [htotal]
        cases s.spoilt task with
        | true => exact .inr (Nat.lt_of_lt_of_le hshort hle)
        | false => exact hg
      · intro ht
        rw [htotal] at ht
        cases hspoilt : s.spoilt task with
        | true =>
          rw [hspoilt, if_pos rfl] at ht
          rw [ht] at hshort
          exact absurd hle (Nat.not_le.mpr hshort)
        | false =>
          rw [hspoilt] at ht
          exact ⟨ht, hname, by rw [hhits]; exact htries, fun _ _ => hspoilt, fun _ => hstart⟩
    | noSplit hname hends hhits hrest hstart =>
      rw [Loop.run_done (L := saveLoop task) hbody] at hrun
      cases hrun
      refine .exit ⟨rfl, ?_, rfl, rfl⟩
      show (s.closed task entry rest).committed.flatten.length < _
      have hpos := length_pos_of_ne_nil hrest
      have hlen := congrArg List.length (total_at hat)
      rw [length_append] at hlen
      rw [committed_of_ends entry hends hhits]
      cases s.spoilt task with
      | true => exact Nat.lt_of_lt_of_le (committed_lt hat) hle
      | false =>
        simp only [Bool.false_eq_true, if_false]
        omega
    | again hname hhits hleft hstart =>
      rw [Loop.run_next (L := saveLoop task) hbody] at hrun
      have htotal := total_again task hat hhits (s.retryCount - s.hits task rest) (s.i + 1)
        .success
      refine (ih _ hbody (started_working hw hat hleft (by simp) rfl rfl) (htotal ▸ hg) hrun).step
        hat hbody ?_
      intro ht
      exact ⟨htotal.symm.trans ht, hname, hleft, fun _ hno => absurd hno (Nat.ne_of_gt hhits),
        fun _ => hstart⟩
    | noRetry hname hhits hleft hstart =>
      rw [Loop.run_done (L := saveLoop task) hbody] at hrun
      cases hrun
      refine .exit ⟨rfl, ?_, rfl, rfl⟩
      show (s.closed task entry rest).committed.flatten.length < _
      rw [committed_of_hits hhits]
      exact Nat.lt_of_lt_of_le (committed_lt hat) hle
    | spent hname hspent =>
      have hhits : 0 < s.hits task rest := by omega
      rw [Loop.run_next (L := saveLoop task) hbody,
        run_over (over_closed (.inr (by omega)))] at hrun
      cases hrun
      refine .spent (s.refuses task) ⟨rfl, ?_, ?_, rfl, rfl⟩
        ⟨s, .refl s, entry, rest, hat, hname, hspent, rfl⟩
      · show (s.closed task entry rest).committed.flatten.length < _
        rw [committed_of_hits hhits]
        exact Nat.lt_of_lt_of_le (committed_lt hat) hle
      · show 3 ≤ s.conn.failures + s.hits task rest
        omega

/-- A third failure ends the group. -/
theorem run_spent {ofSave : Bool} (hw : Working s) (hlen : s.total.length ≤ g.length)
    (hs : SpentBy task s ofSave) : ∃ e, (saveLoop task).run s = .ok e ∧ EndsSpent g ofSave e := by
  obtain ⟨v, hv, entry, rest, hat, hname, hspent, hsave⟩ := hs
  induction hv with
  | refl s =>
    have hcount := hw.count
    have htries := hat.tries
    have hhits : 0 < s.hits task rest := by omega
    have hover : Over (⟨s.closed task entry rest, rest, s.xactionElements ++ [entry],
        s.retryCount - s.hits task rest, s.i + 1,
        if s.refuses task then .failed else .success⟩ : XactionState) :=
      over_closed (.inr (by omega))
    refine ⟨_, (Loop.run_next (L := saveLoop task) (saveNext_spent hat hname hspent)).trans
      (run_over hover), rfl, ?_, ?_, ?_, rfl⟩
    · show (s.closed task entry rest).committed.flatten.length < _
      rw [committed_of_hits hhits]
      exact Nat.lt_of_lt_of_le (committed_lt hat) hlen
    · show 3 ≤ s.conn.failures + s.hits task rest
      omega
    · show (if s.refuses task then Status.failed else .success) = _
      rw [hsave]
  | step hbody hrest ih =>
    rcases next_cases hw hbody with ⟨hw', hle⟩ | hover
    · obtain ⟨e, hrun, hends⟩ := ih hw' (hle.trans hlen) hat hname hspent hsave
      exact ⟨e, (Loop.run_next (L := saveLoop task) hbody).trans hrun, hends⟩
    · exact absurd hat (not_at_of_visits_over hover hrest)

end Fates

/-! ### all groups -/

/-- A vector of a save task: `cm_srdi_elements_save_priv` makes one to put an element in it. -/
abbrev ElementGroup := { g : List SRDIEntryElement // g ≠ [] }

/-- The loop at the first element of a group. -/
def XactionState.first (c : Connection) (g : ElementGroup) (status : Status) : XactionState :=
  ⟨c.begin.opened, g.1, [], 3, 0, status⟩

/-- Of these groups `g` begins on the connection `c`, before the groups `rest`. -/
inductive Begins (task : TransactionTask) : List ElementGroup → Connection → Status →
    ElementGroup → List ElementGroup → Connection → Status → Prop where
  | head (g : ElementGroup) (rest : List ElementGroup) (c : Connection) (status : Status) :
      Begins task (g :: rest) c status g rest c status
  | next {g g' : ElementGroup} {groups rest : List ElementGroup} {c c' : Connection}
      {status status' : Status} {e : GroupEnd} (hstart : task.answers.start c.starts = true)
      (hrun : (saveLoop task).run (.first c g status) = .ok e) (hstays : e.finalExit = false)
      (h : Begins task groups e.conn e.status g' rest c' status') :
      Begins task (g :: groups) c status g' rest c' status'

/-- The first transaction of the group is started; and each step keeps its elements, or the third
failure is met. -/
def Settled (task : TransactionTask) (c : Connection) (g : ElementGroup) (status : Status) : Prop :=
  task.answers.start c.starts = true ∧
    (Kept task (.first c g status) ∨ ∃ ofSave, SpentBy task (.first c g status) ofSave)

/-- The third failure of the last group is that of a save. -/
def LastSpent (task : TransactionTask) (groups : List ElementGroup) (c : Connection)
    (status : Status) : Prop :=
  ∃ g c' status', Begins task groups c status g [] c' status' ∧
    SpentBy task (.first c' g status') true

/-- Every group is settled; and all of them keep their elements, unless the last one ends with the
failure of a save. -/
structure Storable (task : TransactionTask) (groups : List ElementGroup) (c : Connection)
    (status : Status) : Prop where
  settled : ∀ g rest c' status', Begins task groups c status g rest c' status' →
    Settled task c' g status'
  last : (∀ g rest c' status', Begins task groups c status g rest c' status' →
      Kept task (.first c' g status')) ∨ LastSpent task groups c status

section Groups
variable {task : TransactionTask} {g : ElementGroup} {groups : List ElementGroup} {c : Connection}
  {status : Status} {e : GroupEnd} {result : SaveResult}
variable {ofSave : Bool}

theorem first_working : Working (.first c g status) := by
  obtain ⟨entry, rest, hg⟩ := exists_cons_of_ne_nil g.2
  have htries : (0 : Int) < 3 := by decide
  exact ⟨⟨entry, rest, hg, htries, false, rfl⟩, rfl⟩

theorem total_first : (XactionState.first c g status).total = g.1 := rfl

section
variable (h : (saveLoop task).run (.first c g status) = .ok e)
include h

theorem first_fate : Fate task g.1 (.first c g status) e :=
  run_fate first_working (.inl total_first) h

/-- A group that keeps its elements ends so, and one with a third failure ends so. -/
theorem endsKept_of_kept (hk : Kept task (.first c g status)) : EndsKept g.1 e := by
  obtain ⟨e', hrun, hends⟩ := run_kept first_working total_first hk
  rwa [Except.ok.inj (h.symm.trans hrun)]

theorem endsSpent_of_spent (hs : SpentBy task (.first c g status) ofSave) :
    EndsSpent g.1 ofSave e := by
  obtain ⟨e', hrun, hends⟩ := run_spent (g := g.1) first_working (Nat.le_of_eq rfl) hs
  rwa [Except.ok.inj (h.symm.trans hrun)]

end

/-! #### the groups one after the other -/

section
variable (hc : c.transaction = none)
include hc

theorem saveGroups_refused (hstart : task.answers.start c.starts = false) :
    saveGroups task ((g :: groups).map Subtype.val) c status =
      .ok ⟨status, [⟨[], 1⟩], c.begin.failedStart⟩ := by
  have hrefused : task.answers.start c.begin.starts = false := hstart
  have hbegin : transactionStart task.answers c.begin = (false, c.begin.failedStart) := by
    rw [transactionStart_eq (c := c.begin) hc, hrefused]
    rfl
  rw [map_cons, saveGroups, hbegin]
  rfl

section
variable (hstart : task.answers.start c.starts = true)
include hstart

theorem saveGroups_cons :
    saveGroups task ((g :: groups).map Subtype.val) c status =
      ((saveLoop task).run (.first c g status) >>= fun done =>
        if done.finalExit then .ok ⟨done.status, [done.conn.groupRun], done.conn⟩
        else saveGroups task (groups.map Subtype.val) done.conn done.status >>= fun result =>
          .ok { result with runs := done.conn.groupRun :: result.runs }) := by
  have hstarted : task.answers.start c.begin.starts = true := hstart
  have hbegin : transactionStart task.answers c.begin = (true, c.begin.opened) := by
    rw [transactionStart_eq (c := c.begin) hc, hstarted]
    rfl
  rw [map_cons, saveGroups, hbegin]
  rfl

theorem saveGroups_leaves (hrun : (saveLoop task).run (.first c g status) = .ok e)
    (hleaves : e.finalExit = true) :
    saveGroups task ((g :: groups).map Subtype.val) c status =
      .ok ⟨e.status, [e.conn.groupRun], e.conn⟩ := by
  rw [saveGroups_cons hc hstart, hrun, ok_bind, if_pos hleaves]

theorem saveGroups_stays (hrun : (saveLoop task).run (.first c g status) = .ok e)
    (hstays : e.finalExit = false) :
    saveGroups task ((g :: groups).map Subtype.val) c status =
      (saveGroups task (groups.map Subtype.val) e.conn e.status >>= fun result =>
        .ok { result with runs := e.conn.groupRun :: result.runs }) := by
  rw [saveGroups_cons hc hstart, hrun, ok_bind, if_neg (by simp [hstays])]

end

end

section
variable (hstart : task.answers.start c.starts = true)
include hstart

section
variable (hrun : (saveLoop task).run (.first c g status) = .ok e)
include hrun

section
variable (hstays : e.finalExit = false)
include hstays

/-- Behind a group the others begin where it left the connection. -/
theorem begins_cons {g' : ElementGroup} {rest : List ElementGroup} {c' : Connection}
    {status' : Status} :
    Begins task (g :: groups) c status g' rest c' status' ↔
      (g' = g ∧ rest = groups ∧ c' = c ∧ status' = status) ∨
        Begins task groups e.conn e.status g' rest c' status' := by
  constructor
  · intro h
    cases h with
    | head => exact .inl ⟨rfl, rfl, rfl, rfl⟩
    | next _ hrun' _ h =>
      obtain rfl := Except.ok.inj (hrun.symm.trans hrun')
      exact .inr h
  · intro h
    rcases h with ⟨rfl, rfl, rfl, rfl⟩ | h
    · exact .head _ _ _ _
    · exact .next hstart hrun hstays h

theorem forall_begins_cons {P : ElementGroup → Connection → Status → Prop} :
    (∀ g' rest c' status', Begins task (g :: groups) c status g' rest c' status' →
        P g' c' status') ↔
      P g c status ∧ ∀ g' rest c' status',
        Begins task groups e.conn e.status g' rest c' status' → P g' c' status' := by
  constructor
  · intro h
    exact ⟨h _ _ _ _ (.head g groups c status), fun g' rest c' status' hbegins =>
      h _ _ _ _ (.next hstart hrun hstays hbegins)⟩
  · intro h g' rest c' status' hbegins
    rcases (begins_cons hstart hrun hstays).mp hbegins with ⟨rfl, rfl, rfl, rfl⟩ | hbegins
    · exact h.1
    · exact h.2 _ _ _ _ hbegins

theorem lastSpent_cons :
    LastSpent task (g :: groups) c status ↔
      (groups = [] ∧ SpentBy task (.first c g status) true) ∨
        LastSpent task groups e.conn e.status := by
  constructor
  · intro h
    obtain ⟨g', c', status', hbegins, hspent⟩ := h
    rcases (begins_cons hstart hrun hstays).mp hbegins with ⟨rfl, hrest, rfl, rfl⟩ | hbegins
    · exact .inl ⟨hrest.symm, hspent⟩
    · exact .inr ⟨g', c', status', hbegins, hspent⟩
  · intro h
    rcases h with ⟨rfl, hspent⟩ | ⟨g', c', status', hbegins, hspent⟩
    · exact ⟨g, c, status, .head _ _ _ _, hspent⟩
    · exact ⟨g', c', status', .next hstart hrun hstays hbegins, hspent⟩

end

end

end

theorem not_lastSpent_nil : ¬LastSpent task [] c status := by
  intro h
  obtain ⟨g', c', status', hbegins, -⟩ := h
  exact nomatch hbegins

theorem accounted_nil : Accounted [] [] status where
  saved := fun _ _ hk => absurd hk (by simp)
  success := fun _ _ _ hk => absurd hk (by simp)

theorem accounted_cons {group : List SRDIEntryElement} {vectors : List (List SRDIEntryElement)}
    {run : GroupRun} {runs : List GroupRun} :
    Accounted (group :: vectors) (run :: runs) status ↔
      (run.failures < 3 ∨ status = .success → run.committed.flatten = group) ∧
        Accounted vectors runs status := by
  constructor
  · intro h
    refine ⟨fun hhead => ?_, fun k => h.saved (k + 1), fun hstatus k => h.success hstatus (k + 1)⟩
    rcases hhead with hfew | hstatus
    · exact h.saved 0 group rfl hfew
    · exact h.success hstatus 0 group rfl
  · intro h
    refine ⟨fun k g hk hfew => ?_, fun hstatus k g hk => ?_⟩
    · cases k with
      | zero =>
        cases hk
        exact h.1 (.inl hfew)
      | succ k => exact h.2.saved k g hk hfew
    · cases k with
      | zero =>
        cases hk
        exact h.1 (.inr hstatus)
      | succ k => exact h.2.success hstatus k g hk

/-- A settled group is run to its end. -/
theorem exists_run (h : Settled task c g status) :
    ∃ e, (saveLoop task).run (.first c g status) = .ok e ∧ e.finalExit = false ∧
      e.conn.transaction = none ∧
        (e.status = .success ↔ ¬SpentBy task (.first c g status) true) := by
  rcases h.2 with hk | ⟨ofSave, hs⟩
  · obtain ⟨e, hrun, hends⟩ := run_kept first_working total_first hk
    refine ⟨e, hrun, hends.stays, hends.closed, fun _ hs => ?_, fun _ => hends.status⟩
    exact absurd (endsSpent_of_spent hrun hs).many (Nat.not_le.mpr hends.few)
  · obtain ⟨e, hrun, hends⟩ := run_spent (g := g.1) first_working (Nat.le_of_eq rfl) hs
    refine ⟨e, hrun, hends.stays, hends.closed, fun hstatus hs' => ?_, fun hno => ?_⟩
    · rw [(endsSpent_of_spent hrun hs').status] at hstatus
      cases hstatus
    · rw [hends.status]
      cases ofSave with
      | true => exact absurd hs hno
      | false => rfl

/-- Settled groups are all run, and the status is that of the last one. -/
theorem exists_saveGroups (hc : c.transaction = none) (hne : groups ≠ [])
    (hsettled : ∀ g rest c' status', Begins task groups c status g rest c' status' →
      Settled task c' g status') :
    ∃ result, saveGroups task (groups.map Subtype.val) c status = .ok result ∧
      result.conn.transaction = none ∧
        (result.status = .success ↔ ¬LastSpent task groups c status) := by
  induction groups generalizing c status with
  | nil => exact absurd rfl hne
  | cons g groups ih =>
    have hhead := hsettled _ _ _ _ (.head g groups c status)
    obtain ⟨e, hrun, hstays, hclosed, hstatus⟩ := exists_run hhead
    rw [saveGroups_stays hc hhead.1 hrun hstays, lastSpent_cons hhead.1 hrun hstays]
    cases groups with
    | nil =>
      refine ⟨_, rfl, hclosed, hstatus.trans (not_congr ?_)⟩
      simp [not_lastSpent_nil]
    | cons g' groups =>
      obtain ⟨result, hresult, hnone, hlast⟩ := ih hclosed (cons_ne_nil _ _)
        fun _ _ _ _ hbegins => hsettled _ _ _ _ (.next hhead.1 hrun hstays hbegins)
      refine ⟨{ result with runs := e.conn.groupRun :: result.runs }, ?_, hnone,
        hlast.trans (not_congr ?_)⟩
      · rw [hresult, ok_bind]
      · simp

theorem tail_status (hc : c.transaction = none) (hstart : task.answers.start c.starts = true)
    (hrun : (saveLoop task).run (.first c g status) = .ok e) (hstays : e.finalExit = false)
    (hfate : Kept task (.first c g status) ∨ ∃ ofSave, SpentBy task (.first c g status) ofSave)
    (hsettled : ∀ g' rest c' status', Begins task groups e.conn e.status g' rest c' status' →
      Settled task c' g' status')
    (h : saveGroups task (groups.map Subtype.val) e.conn e.status = .ok result) :
    result.status = .success ↔ ¬LastSpent task (g :: groups) c status := by
  obtain ⟨whole, hwhole, -, hstatus⟩ := exists_saveGroups hc (cons_ne_nil g groups)
    ((forall_begins_cons hstart hrun hstays).mpr ⟨⟨hstart, hfate⟩, hsettled⟩)
  rw [saveGroups_stays hc hstart hrun hstays, h, ok_bind] at hwhole
  cases hwhole
  exact hstatus

theorem not_kept_of_spent (hrun : (saveLoop task).run (.first c g status) = .ok e)
    (hs : SpentBy task (.first c g status) ofSave) : ¬Kept task (.first c g status) := fun hk =>
  absurd (endsSpent_of_spent hrun hs).many (Nat.not_le.mpr (endsKept_of_kept hrun hk).few)

/-- A group that keeps its elements leaves the matter to the others. -/
theorem storable_cons_kept (hstart : task.answers.start c.starts = true)
    (hrun : (saveLoop task).run (.first c g status) = .ok e) (hstays : e.finalExit = false)
    (hk : Kept task (.first c g status)) :
    Storable task (g :: groups) c status ↔ Storable task groups e.conn e.status := by
  constructor
  · intro h
    refine ⟨((forall_begins_cons hstart hrun hstays).mp h.settled).2, ?_⟩
    rcases h.last with hall | hlast
    · exact .inl ((forall_begins_cons hstart hrun hstays).mp hall).2
    · rcases (lastSpent_cons hstart hrun hstays).mp hlast with ⟨-, hs⟩ | hlast
      · exact absurd hk (not_kept_of_spent hrun hs)
      · exact .inr hlast
  · intro h
    refine ⟨(forall_begins_cons hstart hrun hstays).mpr ⟨⟨hstart, .inl hk⟩, h.settled⟩, ?_⟩
    rcases h.last with hall | hlast
    · exact .inl ((forall_begins_cons hstart hrun hstays).mpr ⟨hk, hall⟩)
    · exact .inr ((lastSpent_cons hstart hrun hstays).mpr (.inr hlast))

/-- Behind a group with a third failure the last group decides. -/
theorem storable_cons_spent (hstart : task.answers.start c.starts = true)
    (hrun : (saveLoop task).run (.first c g status) = .ok e) (hstays : e.finalExit = false)
    (hs : SpentBy task (.first c g status) ofSave) :
    Storable task (g :: groups) c status ↔
      Storable task groups e.conn e.status ∧ LastSpent task (g :: groups) c status := by
  constructor
  · intro h
    have hlast : LastSpent task (g :: groups) c status := by
      rcases h.last with hall | hlast
      · exact absurd (hall _ _ _ _ (.head _ _ _ _)) (not_kept_of_spent hrun hs)
      · exact hlast
    refine ⟨⟨((forall_begins_cons hstart hrun hstays).mp h.settled).2, ?_⟩, hlast⟩
    rcases (lastSpent_cons hstart hrun hstays).mp hlast with ⟨rfl, -⟩ | hlast
    · exact .inl fun _ _ _ _ hbegins => nomatch hbegins
    · exact .inr hlast
  · intro h
    exact ⟨(forall_begins_cons hstart hrun hstays).mpr ⟨⟨hstart, .inr ⟨ofSave, hs⟩⟩, h.1.settled⟩,
      .inr h.2⟩

/-- The run over the groups accounts for all of them. -/
def Accounts (task : TransactionTask) (groups : List ElementGroup) (c : Connection)
    (status : Status) : Prop :=
  ∃ result, saveGroups task (groups.map Subtype.val) c status = .ok result ∧
    Accounted (groups.map Subtype.val) result.runs result.status ∧ result.conn.transaction = none

/-- If the head stays at work, it accounts for itself and the others do for theirs. -/
theorem accounts_cons (hc : c.transaction = none) (hstart : task.answers.start c.starts = true)
    (hrun : (saveLoop task).run (.first c g status) = .ok e) (hstays : e.finalExit = false) :
    Accounts task (g :: groups) c status ↔
      ∃ result, saveGroups task (groups.map Subtype.val) e.conn e.status = .ok result ∧
        (e.conn.failures < 3 ∨ result.status = .success → e.conn.committed.flatten = g.1) ∧
        Accounted (groups.map Subtype.val) result.runs result.status ∧
          result.conn.transaction = none := by
  unfold Accounts
  rw [saveGroups_stays hc hstart hrun hstays]
  constructor
  · intro h
    obtain ⟨result, hresult, haccounted, hclosed⟩ := h
    obtain ⟨tail, htail, hdone⟩ := bind_eq_ok.mp hresult
    cases hdone
    obtain ⟨hhead, hrest⟩ := accounted_cons.mp haccounted
    exact ⟨tail, htail, hhead, hrest, hclosed⟩
  · intro h
    obtain ⟨tail, htail, hhead, hrest, hclosed⟩ := h
    refine ⟨{ tail with runs := e.conn.groupRun :: tail.runs }, ?_, ?_, hclosed⟩
    · rw [htail, ok_bind]
    · exact accounted_cons.mpr ⟨hhead, hrest⟩

/-- The head of groups that are accounted for is settled. -/
theorem settled_of_accounts (hc : c.transaction = none) (h : Accounts task (g :: groups) c status) :
    Settled task c g status := by
  obtain ⟨result, hresult, haccounted, -⟩ := h
  cases hstart : task.answers.start c.starts with
  | false =>
    rw [saveGroups_refused hc hstart] at hresult
    cases hresult
    have hnil : [] = g.1 := (accounted_cons.mp haccounted).1 (.inl (by decide))
    exact absurd hnil.symm g.2
  | true =>
    refine ⟨hstart, ?_⟩
    cases hrun : (saveLoop task).run (.first c g status) with
    | error fault =>
      rw [saveGroups_cons hc hstart, hrun, error_bind] at hresult
      cases hresult
    | ok e =>
      cases first_fate hrun with
      | kept h hg hk => exact .inl hk
      | spent ofSave h hs => exact .inr ⟨ofSave, hs⟩
      | lost h =>
        rw [saveGroups_stays hc hstart hrun h.stays] at hresult
        obtain ⟨tail, htail, hdone⟩ := bind_eq_ok.mp hresult
        cases hdone
        have hall := (accounted_cons.mp haccounted).1 (.inl h.few)
        exact absurd (congrArg List.length hall) (Nat.ne_of_lt h.elements)
      | exit h =>
        rw [saveGroups_leaves hc hstart hrun h.leaves] at hresult
        cases hresult
        have hall := (accounted_cons.mp haccounted).1 (.inr h.status)
        exact absurd (congrArg List.length hall) (Nat.ne_of_lt h.elements)

/-- The groups are accounted for if and only if they are storable. -/
theorem accounts_iff (hc : c.transaction = none) :
    Accounts task groups c status ↔ Storable task groups c status := by
  induction groups generalizing c status with
  | nil =>
    refine iff_of_true ⟨⟨status, [], c⟩, rfl, accounted_nil, hc⟩ ⟨?_, .inl ?_⟩
    · exact fun _ _ _ _ hbegins => nomatch hbegins
    · exact fun _ _ _ _ hbegins => nomatch hbegins
  | cons g groups ih =>
    by_cases hsettled : Settled task c g status
    · obtain ⟨hstart, hfate⟩ := hsettled
      obtain ⟨e, hrun, hstays, hclosed, hstatus⟩ := exists_run ⟨hstart, hfate⟩
      rw [accounts_cons hc hstart hrun hstays]
      rcases hfate with hk | ⟨ofSave, hs⟩
      · rw [storable_cons_kept hstart hrun hstays hk, ← ih hclosed]
        have hall := (endsKept_of_kept hrun hk).elements
        exact exists_congr fun result => and_congr_right fun _ => and_iff_right fun _ => hall
      · rw [storable_cons_spent hstart hrun hstays hs, ← ih hclosed]
        have hends := endsSpent_of_spent hrun hs
        constructor
        · intro h
          obtain ⟨tail, htail, hhead, hrest, hnone⟩ := h
          have haccounts : Accounts task groups e.conn e.status := ⟨tail, htail, hrest, hnone⟩
          refine ⟨haccounts, ?_⟩
          by_contra hlast
          have htails := ((ih hclosed).mp haccounts).settled
          have hsuccess := (tail_status hc hstart hrun hstays (.inr ⟨ofSave, hs⟩) htails htail).mpr
            hlast
          exact absurd (congrArg List.length (hhead (.inr hsuccess))) (Nat.ne_of_lt hends.elements)
        · intro h
          obtain ⟨haccounts, hlast⟩ := h
          have htails := ((ih hclosed).mp haccounts).settled
          obtain ⟨tail, htail, hrest, hnone⟩ := haccounts
          refine ⟨tail, htail, fun hno => ?_, hrest, hnone⟩
          rcases hno with hfew | hsuccess
          · exact absurd hfew (Nat.not_lt.mpr hends.many)
          · exact absurd hlast
              ((tail_status hc hstart hrun hstays (.inr ⟨ofSave, hs⟩) htails htail).mp hsuccess)
    · refine iff_of_false (fun h => hsettled (settled_of_accounts hc h)) fun h => ?_
      exact hsettled (h.settled _ _ _ _ (.head _ _ _ _))

end Groups

end JxtaC.Cm
