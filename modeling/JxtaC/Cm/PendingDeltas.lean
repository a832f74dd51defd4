import JxtaC.Cm.Save
import JxtaC.Lib.Collected
import JxtaC.Message
import Mathlib.Data.List.DropRight

/-
  How an advertisement is saved together with its index, and what that does to the deltas that wait
  to be sent (`cm_save`, `secondary_indexing` and `cm_srdi_delta_add` in jxta_cm.c). What the
  database answers to each attempt is given beforehand. A transaction that is ended is committed if
  no statement of it was refused. Failing allocations, the registration of the name space and an
  advertisement without a text are left out.
-/

namespace JxtaC.Cm

open Lib List

/-! ## the advertisement and its deltas -/

/-- `Jxta_index`, with the text of its range and the value that the advertisement has for it. -/
structure Index where
  element : CString
  attrib : Option CString
  range : Option CString
  value : Option CString

/-- `Jxta_advertisement`. -/
structure Advertisement where
  documentName : CString
  indexes : Option (List Index)

/-- `Jxta_SRDIEntryElement`, of a delta. -/
structure Delta where
  key : CString
  value : CString
  nameSpace : CString
  advId : CString
  range : Option CString
  expiration : Int
  seqNumber : Nat
  deriving DecidableEq

/-- Of `Jxta_cm` the deltas of each folder that are pending, and the number of the last delta. -/
structure Pending where
  srdiDelta : AList fun _ : CString => List Delta
  deltaSeqNumber : Nat
  numbered : ∀ folder, ∀ d ∈ listed srdiDelta folder, d.seqNumber ≤ deltaSeqNumber

/-- `++me->delta_seq_number`. -/
def Pending.next (p : Pending) : Pending where
  srdiDelta := p.srdiDelta
  deltaSeqNumber := p.deltaSeqNumber + 1
  numbered := fun folder d hd => Nat.le_succ_of_le (p.numbered folder d hd)

theorem numbered_insert (p : Pending) {folder : CString} {ds : List Delta}
    (h : ∀ d ∈ ds, d.seqNumber ≤ p.deltaSeqNumber) :
    ∀ folder', ∀ d ∈ listed (p.srdiDelta.insert folder ds) folder',
      d.seqNumber ≤ p.deltaSeqNumber := by
  intro folder' d hd
  by_cases hfolder : folder' = folder
  · subst hfolder
    rw [listed_insert_self] at hd
    exact h d hd
  · rw [listed_insert_ne _ _ hfolder] at hd
    exact p.numbered folder' d hd

/-- `cm_srdi_delta_add`. -/
def cmSrdiDeltaAdd (p : Pending) (folder : CString) (entry : Delta)
    (h : entry.seqNumber ≤ p.deltaSeqNumber) : Pending where
  srdiDelta := collect p.srdiDelta folder entry
  deltaSeqNumber := p.deltaSeqNumber
  numbered := numbered_insert p (forall_mem_append.mpr
    ⟨p.numbered folder, forall_mem_singleton.mpr h⟩)

/-- `jxta_vector_clear` of the deltas of a folder, if there are any. -/
def Pending.clear (p : Pending) (folder : CString) : Pending :=
  match p.srdiDelta.lookup folder with
  | none => p
  | some _ => {
      srdiDelta := p.srdiDelta.insert folder []
      deltaSeqNumber := p.deltaSeqNumber
      numbered := numbered_insert p (forall_mem_nil _) }

/-! ## the database -/

/-- What becomes of the statements of a save: the SELECT is refused, or it finds a row or not; and
then the UPDATE or the INSERT is taken or refused. -/
structure RowAnswer where
  selected : Option Bool
  written : Bool

/-- A save that changes a row that is found or not. -/
def RowAnswer.status (a : RowAnswer) (update : Bool) : Status :=
  match a.selected with
  | none => .failed
  | some found =>
    if found && !update then .success else if a.written then .success else .failed

/-- `cm_advertisement_save`. -/
def advertisementSave (a : RowAnswer) (update : Bool) : Status := a.status update

/-- `cm_item_insert`. -/
def itemInsert (a : RowAnswer) : Status := a.status true

/-- The answers to one attempt: to the saves of the index by their place in it. -/
structure AttemptAnswers where
  start : Bool
  advertisement : RowAnswer
  item : Nat → RowAnswer
  stop : Bool

/-- What is in the index for the advertisement. -/
structure SavedEntry where
  name : CString
  value : CString
  range : Option CString

/-- What is saved: the advertisement, or an entry of its index. -/
inductive SavedPart where
  | advertisement
  | entry (e : SavedEntry)

/-- `DBConnection`: the parts in the open transaction, and whether a statement of it was refused;
and the transactions that are committed. -/
structure AdvConnection where
  transaction : Option (List SavedPart × Bool)
  committed : List (List SavedPart)

def AdvConnection.start (c : AdvConnection) : AdvConnection :=
  { c with transaction := some ([], false) }

/-- A part in the transaction, and its status. -/
def AdvConnection.put (c : AdvConnection) (part : SavedPart) (status : Status) : AdvConnection :=
  { c with transaction := c.transaction.map fun t =>
      (t.1 ++ [part], t.2 || decide (status ≠ .success)) }

/-- `apr_dbd_transaction_end`, which succeeds or not. -/
def AdvConnection.stop (c : AdvConnection) (succeeds : Bool) : AdvConnection :=
  match c.transaction with
  | some (parts, false) =>
    { transaction := none
      committed := if succeeds then c.committed ++ [parts] else c.committed }
  | _ => { c with transaction := none }

/-! ## the save -/

/-- `Jxta_cm`: its folders, and whether deltas are recorded. -/
structure DeltaManager where
  folders : List CString
  recordDelta : Bool
  pending : Pending

/-- The arguments of `cm_save`. -/
structure SaveParms where
  folderName : CString
  primaryKey : CString
  adv : Advertisement
  timeOutForMe : Int
  timeOutForOthers : Int
  update : Bool

/-- `full_index_name`. -/
def Index.fullName (ji : Index) : CString :=
  match ji.attrib with
  | some attrib => .ofBuffer (ji.element.bytes ++ 32 :: attrib.bytes)
  | none => ji.element

/-- The variables of `secondary_indexing`. -/
structure IndexState where
  pending : Pending
  conn : AdvConnection
  statusRet : Status

/-- `jxta_srdi_new_element_3`. -/
def newElement (parms : SaveParms) (e : SavedEntry) (seqNumber : Nat) : Delta where
  key := e.name
  value := e.value
  nameSpace := parms.adv.documentName
  advId := parms.primaryKey
  range := e.range
  expiration := parms.timeOutForMe
  seqNumber := seqNumber

/-- The loop body over the index. -/
def indexNext (parms : SaveParms) (srdiDelta : Bool) (a : AttemptAnswers) (s : IndexState)
    (x : Index × Nat) : IndexState :=
  match x.1.value with
  | none => s
  | some val =>
    let entry : SavedEntry := ⟨x.1.fullName, val, x.1.range⟩
    let statusRet := itemInsert (a.item x.2)
    let conn := s.conn.put (.entry entry) statusRet
    let sendThisSrdi := decide (statusRet = .success)
    if 0 < parms.timeOutForMe ∧ srdiDelta = true ∧ 0 < parms.timeOutForOthers ∧
        sendThisSrdi = true then
      let me := s.pending.next
      let entry := newElement parms entry me.deltaSeqNumber
      ⟨cmSrdiDeltaAdd me parms.folderName entry (Nat.le_refl _), conn, statusRet⟩
    else ⟨s.pending, conn, statusRet⟩

/-- `secondary_indexing`. -/
def secondaryIndexing (parms : SaveParms) (srdiDelta : Bool) (a : AttemptAnswers)
    (pending : Pending) (conn : AdvConnection) : IndexState :=
  (parms.adv.indexes.getD []).zipIdx.foldl (indexNext parms srdiDelta a)
    ⟨pending, conn, .success⟩

/-- The variables of `cm_save`. -/
structure SaveState where
  pending : Pending
  conn : AdvConnection
  status : Status

/-- The loop body over the attempts: it is tried again, or the loop is left. -/
def saveAttempt (me : DeltaManager) (parms : SaveParms) (a : AttemptAnswers) (s : SaveState) :
    SaveState ⊕ SaveState :=
  if !a.start then .inr s
  else
    let status := advertisementSave a.advertisement parms.update
    let conn := s.conn.start.put .advertisement status
    if status ≠ .success then
      .inl ⟨s.pending.clear parms.folderName, conn.stop a.stop, status⟩
    else
      let indexed := secondaryIndexing parms me.recordDelta a s.pending conn
      let saved : SaveState := ⟨indexed.pending, indexed.conn.stop a.stop, indexed.statusRet⟩
      if !a.stop then .inr saved
      else if indexed.statusRet = .success then .inr saved
      else .inl saved

/-- The loop over the attempts; the next one is number `k`. -/
def saveAttempts (me : DeltaManager) (parms : SaveParms) (answers : Nat → AttemptAnswers) :
    Nat → Nat → SaveState → SaveState
  | 0, _, s => s
  | retries + 1, k, s =>
    match saveAttempt me parms (answers k) s with
    | .inl s => saveAttempts me parms answers retries (k + 1) s
    | .inr s => s

/-- `cm_save`. -/
def cmSave (me : DeltaManager) (parms : SaveParms) (answers : Nat → AttemptAnswers) : SaveState :=
  if parms.folderName ∈ me.folders then
    saveAttempts me parms answers 3 0 ⟨me.pending, ⟨none, []⟩, .success⟩
  else ⟨me.pending, ⟨none, []⟩, .itemNotfound⟩

/-! ## the claim of the deltas -/

/-- The deltas of a folder that are pending. -/
def Pending.of (p : Pending) (folder : CString) : List Delta := listed p.srdiDelta folder

/-- The entries of the index, and their places in it. -/
def SaveParms.entries (parms : SaveParms) : List (SavedEntry × Nat) :=
  (parms.adv.indexes.getD []).zipIdx.filterMap fun x =>
    x.1.value.map fun val => (⟨x.1.fullName, val, x.1.range⟩, x.2)

/-- The advertisement and all entries of its index. -/
def SaveParms.parts (parms : SaveParms) : List SavedPart :=
  .advertisement :: parms.entries.map fun x => .entry x.1

/-- Deltas are recorded, and both lifetimes are positive. -/
def SaveParms.records (parms : SaveParms) (me : DeltaManager) : Bool :=
  decide (0 < parms.timeOutForMe) && me.recordDelta && decide (0 < parms.timeOutForOthers)

/-- The delta of an entry. -/
def Announces (parms : SaveParms) (e : SavedEntry) (d : Delta) : Prop :=
  ∃ seqNumber, d = newElement parms e seqNumber

/-- The delta of another advertisement. -/
def SaveParms.foreign (parms : SaveParms) (d : Delta) : Bool :=
  decide (d.advId ≠ parms.primaryKey ∨ d.nameSpace ≠ parms.adv.documentName)

/-- Behind a success all parts are committed in one transaction and each entry has its delta behind
the pending ones, if deltas are recorded; behind a failure the pending deltas are those before; and
those of other advertisements stay. -/
structure DeltasConsistent (me : DeltaManager) (parms : SaveParms) (s : SaveState) : Prop where
  stored : s.status = .success → parms.parts ∈ s.conn.committed
  announced : s.status = .success → parms.records me = true →
    ∃ ds, s.pending.of parms.folderName = me.pending.of parms.folderName ++ ds ∧
      List.Forall₂ (Announces parms) (parms.entries.map Prod.fst) ds
  unchanged : s.status ≠ .success → s.pending.of parms.folderName = me.pending.of parms.folderName
  others : ∀ folder, (s.pending.of folder).filter parms.foreign =
    (me.pending.of folder).filter parms.foreign

/-! ### the attempts -/

section Attempts
variable (me : DeltaManager) (parms : SaveParms) (a : AttemptAnswers)

/-- The advertisement is saved. -/
def AttemptAnswers.saves : Bool :=
  decide (advertisementSave a.advertisement parms.update = .success)

/-- An entry is saved. -/
def AttemptAnswers.takes (x : SavedEntry × Nat) : Bool :=
  decide (itemInsert (a.item x.2) = .success)

/-- The last entry is saved. -/
def AttemptAnswers.endsWell : Bool := parms.entries.getLast?.all a.takes

/-- The advertisement is not saved, and the pending deltas are cleared. -/
def AttemptAnswers.clears : Bool := a.start && !a.saves parms

/-- The entries whose deltas the attempt adds. -/
def AttemptAnswers.published : List SavedEntry :=
  if a.start && a.saves parms && parms.records me then
    (parms.entries.filter a.takes).map Prod.fst
  else []

/-- All parts are saved and committed. -/
def AttemptAnswers.stores : Bool :=
  a.start && a.saves parms && parms.entries.all a.takes && a.stop

/-- It is tried again. -/
def AttemptAnswers.again : Bool :=
  a.start && (!a.saves parms || !a.endsWell parms && a.stop)

/-- The attempts that are made, if there may be `n` of them from number `k` on. -/
def attemptsMade (answers : Nat → AttemptAnswers) : Nat → Nat → List AttemptAnswers
  | 0, _ => []
  | n + 1, k =>
    answers k :: if (answers k).again parms then attemptsMade answers n (k + 1) else []

/-- The first transaction is started; an attempt that saves the advertisement and the last entry
stores all parts; behind the last attempt that clears the pending deltas no failed one adds any; and
none clears them unless none were pending, or the call succeeds, deltas are not recorded, and those
pending are of this advertisement. -/
structure DeltasSafe (answers : Nat → AttemptAnswers) : Prop where
  started : (answers 0).start = true
  whole : ∀ a ∈ attemptsMade parms answers 3 0, a.start = true → a.saves parms = true →
    a.endsWell parms = true → a.stores parms = true
  quiet : ∀ a ∈ ((attemptsMade parms answers 3 0).filter fun a => !a.stores parms).rtakeWhile
    fun a => !a.clears parms, a.published me parms = []
  empty : (∃ a ∈ attemptsMade parms answers 3 0, a.clears parms = true) →
    me.pending.of parms.folderName = [] ∨
      (∃ a ∈ attemptsMade parms answers 3 0, a.stores parms = true) ∧ parms.records me = false ∧
        ∀ d ∈ me.pending.of parms.folderName, parms.foreign d = false

end Attempts

/-! ### the pending deltas -/

section Lists
variable {me : DeltaManager} {parms : SaveParms} {p p' p'' : Pending} {e : SavedEntry}
  {es es' : List SavedEntry} {folder : CString} {d : Delta}
variable {left : List Delta}

theorem of_clear : (p.clear folder).of folder = [] := by
  unfold Pending.clear Pending.of
  cases h : p.srdiDelta.lookup folder with
  | none =>
    show (p.srdiDelta.lookup folder).getD [] = []
    rw [h]
    rfl
  | some ds => exact listed_insert_self _ _

theorem of_clear_ne {folder' : CString} (h : folder' ≠ folder) :
    (p.clear folder).of folder' = p.of folder' := by
  unfold Pending.clear
  cases p.srdiDelta.lookup folder with
  | none => rfl
  | some ds => exact listed_insert_ne _ _ h

theorem seq_clear : (p.clear folder).deltaSeqNumber = p.deltaSeqNumber := by
  unfold Pending.clear
  cases p.srdiDelta.lookup folder with
  | none => rfl
  | some ds => rfl

/-- The deltas of the folder are those of these entries behind what was left of them, and their
numbers are new. -/
structure Appends (parms : SaveParms) (p p' : Pending) (left : List Delta)
    (es : List SavedEntry) : Prop where
  list : ∃ ds, p'.of parms.folderName = left ++ ds ∧ List.Forall₂ (Announces parms) es ds ∧
    ∀ d ∈ ds, p.deltaSeqNumber < d.seqNumber
  others : ∀ folder, folder ≠ parms.folderName → p'.of folder = p.of folder
  seq : p.deltaSeqNumber ≤ p'.deltaSeqNumber

theorem Appends.refl (p : Pending) : Appends parms p p (p.of parms.folderName) [] where
  list := ⟨[], (append_nil _).symm, .nil, forall_mem_nil _⟩
  others := fun _ _ => rfl
  seq := Nat.le_refl _

theorem appends_clear (p : Pending) :
    Appends parms p (p.clear parms.folderName) [] [] where
  list := ⟨[], of_clear, .nil, forall_mem_nil _⟩
  others := fun _ h => of_clear_ne h
  seq := Nat.le_of_eq seq_clear.symm

theorem Appends.trans (h : Appends parms p p' left es)
    (h' : Appends parms p' p'' (p'.of parms.folderName) es') :
    Appends parms p p'' left (es ++ es') := by
  obtain ⟨ds, hlist, hes, hnew⟩ := h.list
  obtain ⟨ds', hlist', hes', hnew'⟩ := h'.list
  refine ⟨⟨ds ++ ds', ?_, rel_append hes hes', ?_⟩, ?_, h.seq.trans h'.seq⟩
  · rw [hlist', hlist, append_assoc]
  · refine forall_mem_append.mpr ⟨hnew, fun d hd => ?_⟩
    exact Nat.lt_of_le_of_lt h.seq (hnew' d hd)
  · exact fun folder hne => (h'.others folder hne).trans (h.others folder hne)

/-- What was there before the deltas were cleared does not matter any more. -/
theorem Appends.restart (h : Appends parms p p' left es) (h' : Appends parms p' p'' [] es') :
    Appends parms p p'' [] es' := by
  obtain ⟨ds, hlist, hes, hnew⟩ := h'.list
  refine ⟨⟨ds, hlist, hes, fun d hd => Nat.lt_of_le_of_lt h.seq (hnew d hd)⟩, ?_,
    h.seq.trans h'.seq⟩
  exact fun folder hne => (h'.others folder hne).trans (h.others folder hne)

theorem appends_add (p : Pending) (e : SavedEntry) :
    Appends parms p (cmSrdiDeltaAdd p.next parms.folderName
      (newElement parms e p.next.deltaSeqNumber) (Nat.le_refl _)) (p.of parms.folderName) [e] where
  list := ⟨[newElement parms e p.next.deltaSeqNumber], listed_collect_self _ _,
    .cons ⟨_, rfl⟩ .nil, forall_mem_singleton.mpr (Nat.lt_succ_self _)⟩
  others := fun _ h => listed_collect_ne _ _ h
  seq := Nat.le_succ _

theorem not_foreign_of_announces (h : Announces parms e d) : parms.foreign d = false := by
  obtain ⟨seqNumber, rfl⟩ := h
  exact decide_eq_false fun hne => hne.elim (fun h => h rfl) fun h => h rfl

theorem filter_foreign_eq_nil {ds : List Delta} (h : List.Forall₂ (Announces parms) es ds) :
    ds.filter parms.foreign = [] := by
  induction h with
  | nil => rfl
  | cons hd _ ih => rw [filter_cons, not_foreign_of_announces hd, if_neg (by simp), ih]

/-- The deltas are those before if nothing was added, and if nothing was cleared or pending. -/
theorem Appends.of_eq_iff (h : Appends parms p p' left es)
    (hleft : left = [] ∨ left = p.of parms.folderName) :
    p'.of parms.folderName = p.of parms.folderName ↔ es = [] ∧ left = p.of parms.folderName := by
  obtain ⟨ds, hlist, hes, hnew⟩ := h.list
  rw [hlist]
  constructor
  · intro heq
    have hds : ds = [] := by
      rcases hleft with rfl | rfl
      · refine eq_nil_iff_forall_not_mem.mpr fun d hd => ?_
        have hmem : d ∈ p.of parms.folderName := heq ▸ hd
        exact absurd (hnew d hd) (Nat.not_lt.mpr (p.numbered parms.folderName d hmem))
      · exact append_right_eq_self.mp heq
    subst hds
    rw [append_nil] at heq
    cases hes
    exact ⟨rfl, heq⟩
  · intro h
    obtain ⟨rfl, rfl⟩ := h
    cases hes
    exact append_nil _

end Lists

/-! ### the index -/

section Indexing
variable {parms : SaveParms} {srdiDelta : Bool} {a : AttemptAnswers} {s : IndexState}
  {es : List (SavedEntry × Nat)}

/-- The loop body at an entry. -/
def entryNext (parms : SaveParms) (srdiDelta : Bool) (a : AttemptAnswers) (s : IndexState)
    (x : SavedEntry × Nat) : IndexState where
  pending :=
    if 0 < parms.timeOutForMe ∧ srdiDelta = true ∧ 0 < parms.timeOutForOthers ∧
        a.takes x = true then
      cmSrdiDeltaAdd s.pending.next parms.folderName
        (newElement parms x.1 s.pending.next.deltaSeqNumber) (Nat.le_refl _)
    else s.pending
  conn := s.conn.put (.entry x.1) (itemInsert (a.item x.2))
  statusRet := itemInsert (a.item x.2)

/-- The loop goes over the entries. -/
theorem secondaryIndexing_eq {p : Pending} {c : AdvConnection} :
    secondaryIndexing parms srdiDelta a p c =
      parms.entries.foldl (entryNext parms srdiDelta a) ⟨p, c, .success⟩ := by
  unfold secondaryIndexing SaveParms.entries
  rw [foldl_filterMap]
  congr 1
  funext s x
  unfold indexNext
  cases hval : x.1.value with
  | none => rfl
  | some val =>
    unfold entryNext AttemptAnswers.takes
    simp only [Option.map_some]
    split
    · rfl
    · rfl

theorem entries_status : (es.foldl (entryNext parms srdiDelta a) s).statusRet =
    es.getLast?.elim s.statusRet fun x => itemInsert (a.item x.2) := by
  induction es using List.reverseRecOn with
  | nil => rfl
  | append_singleton es x ih =>
    rw [foldl_append, getLast?_append]
    rfl

theorem entries_conn {parts : List SavedPart} {refused : Bool}
    (h : s.conn.transaction = some (parts, refused)) :
    (es.foldl (entryNext parms srdiDelta a) s).conn =
      { s.conn with
        transaction :=
          some (parts ++ es.map fun x => .entry x.1, refused || !es.all a.takes) } := by
  induction es using List.reverseRecOn with
  | nil => simp [← h]
  | append_singleton es x ih =>
    rw [foldl_append, foldl_cons, foldl_nil, entryNext, ih]
    unfold AdvConnection.put AttemptAnswers.takes
    simp [Bool.or_assoc]

variable (srdiDelta a) in
theorem entryNext_pending (x : SavedEntry × Nat) : Appends parms s.pending
    (entryNext parms srdiDelta a s x).pending (s.pending.of parms.folderName)
    (if 0 < parms.timeOutForMe ∧ srdiDelta = true ∧ 0 < parms.timeOutForOthers then
      ([x].filter a.takes).map Prod.fst else []) := by
  unfold entryNext
  by_cases hrec : 0 < parms.timeOutForMe ∧ srdiDelta = true ∧ 0 < parms.timeOutForOthers
  · rw [if_pos hrec, filter_singleton]
    cases htakes : a.takes x with
    | true =>
      simp only [hrec, and_self, if_true]
      exact appends_add _ _
    | false =>
      simp only [Bool.false_eq_true, and_false, if_false]
      exact .refl _
  · rw [if_neg hrec, if_neg fun h => hrec ⟨h.1, h.2.1, h.2.2.1⟩]
    exact .refl _

theorem entries_pending : Appends parms s.pending
    (es.foldl (entryNext parms srdiDelta a) s).pending (s.pending.of parms.folderName)
    (if 0 < parms.timeOutForMe ∧ srdiDelta = true ∧ 0 < parms.timeOutForOthers then
      (es.filter a.takes).map Prod.fst else []) := by
  induction es using List.reverseRecOn with
  | nil =>
    simp only [filter_nil, map_nil, ite_self]
    exact .refl _
  | append_singleton es x ih =>
    rw [foldl_append, foldl_cons, foldl_nil]
    have hnext := ih.trans (entryNext_pending srdiDelta a x)
    rw [filter_append, map_append]
    by_cases hrec : 0 < parms.timeOutForMe ∧ srdiDelta = true ∧ 0 < parms.timeOutForOthers
    · rw [if_pos hrec, if_pos hrec] at hnext
      rw [if_pos hrec]
      exact hnext
    · rw [if_neg hrec, if_neg hrec] at hnext
      rw [if_neg hrec]
      exact hnext

end Indexing

/-! ### one attempt -/

section Attempted
variable {me : DeltaManager} {parms : SaveParms} {a : AttemptAnswers} {s : SaveState}
variable {p : Pending} {c : AdvConnection}

/-- The state behind an attempt. -/
def afterAttempt (me : DeltaManager) (parms : SaveParms) (s : SaveState) (a : AttemptAnswers) :
    SaveState :=
  (saveAttempt me parms a s).elim id id

theorem indexing_status :
    (secondaryIndexing parms me.recordDelta a p c).statusRet = .success ↔
      a.endsWell parms = true := by
  rw [secondaryIndexing_eq, entries_status]
  unfold AttemptAnswers.endsWell AttemptAnswers.takes
  cases parms.entries.getLast? with
  | none => exact iff_of_true rfl rfl
  | some x => exact decide_eq_true_iff.symm

theorem saves_iff : a.saves parms = true ↔
    advertisementSave a.advertisement parms.update = .success := decide_eq_true_iff

theorem indexing_conn :
    (secondaryIndexing parms me.recordDelta a p (c.start.put .advertisement .success)).conn.stop
        a.stop =
      ⟨none, c.committed ++ if parms.entries.all a.takes && a.stop then [parms.parts] else []⟩ := by
  rw [secondaryIndexing_eq, entries_conn rfl]
  unfold SaveParms.parts
  cases hall : parms.entries.all a.takes with
  | true =>
    cases a.stop with
    | true => rfl
    | false => exact congrArg _ (append_nil _).symm
  | false => exact congrArg _ (append_nil _).symm

theorem indexing_pending (hstart : a.start = true) (hsaves : a.saves parms = true) :
    Appends parms p (secondaryIndexing parms me.recordDelta a p c).pending
      (p.of parms.folderName) (a.published me parms) := by
  have hpublished : a.published me parms =
      if 0 < parms.timeOutForMe ∧ me.recordDelta = true ∧ 0 < parms.timeOutForOthers then
        (parms.entries.filter a.takes).map Prod.fst
      else [] := by
    unfold AttemptAnswers.published SaveParms.records
    rw [hstart, hsaves]
    simp [and_assoc]
  rw [hpublished, secondaryIndexing_eq]
  exact entries_pending (s := ⟨p, c, .success⟩)

theorem saveAttempt_refused (h : a.start = false) : saveAttempt me parms a s = .inr s := by
  unfold saveAttempt
  rw [h]
  rfl

theorem saveAttempt_cleared (hstart : a.start = true) (hsaves : a.saves parms = false) :
    saveAttempt me parms a s = .inl ⟨s.pending.clear parms.folderName, ⟨none, s.conn.committed⟩,
      advertisementSave a.advertisement parms.update⟩ := by
  have hfails : advertisementSave a.advertisement parms.update ≠ .success :=
    of_decide_eq_false hsaves
  unfold saveAttempt
  rw [hstart]
  simp only [Bool.not_true, Bool.false_eq_true, if_false]
  rw [if_pos hfails]
  unfold AdvConnection.start AdvConnection.put AdvConnection.stop
  simp [hfails]

variable (me s) in
theorem saveAttempt_indexed (hstart : a.start = true) (hsaves : a.saves parms = true) :
    ∃ s' : SaveState, saveAttempt me parms a s =
        (if !a.stop || a.endsWell parms then .inr s' else .inl s') ∧
      Appends parms s.pending s'.pending (s.pending.of parms.folderName) (a.published me parms) ∧
      s'.conn = ⟨none, s.conn.committed ++ if a.stores parms then [parms.parts] else []⟩ ∧
      (s'.status = .success ↔ a.endsWell parms = true) := by
  have hstores : a.stores parms = (parms.entries.all a.takes && a.stop) := by
    unfold AttemptAnswers.stores
    rw [hstart, hsaves]
    rfl
  let indexed := secondaryIndexing parms me.recordDelta a s.pending
    (s.conn.start.put .advertisement .success)
  refine ⟨⟨indexed.pending, indexed.conn.stop a.stop, indexed.statusRet⟩, ?_,
    indexing_pending hstart hsaves, ?_, indexing_status⟩
  · have hstatus : indexed.statusRet = .success ↔ a.endsWell parms = true := indexing_status
    unfold saveAttempt
    rw [hstart]
    simp only [saves_iff.mp hsaves, Bool.not_true, Bool.false_eq_true, if_false, ne_eq,
      not_true_eq_false]
    cases hstop : a.stop with
    | false => simp [indexed, hstop]
    | true =>
      cases hends : a.endsWell parms with
      | true => simp [indexed, hstatus.mpr hends]
      | false =>
        have hno : ¬indexed.statusRet = .success := fun h => by
          rw [hstatus.mp h] at hends
          cases hends
        simp [indexed, hno]
  · rw [hstores]
    exact indexing_conn

theorem published_of_clears (h : a.clears parms = true) : a.published me parms = [] := by
  unfold AttemptAnswers.clears at h
  rw [Bool.and_eq_true, Bool.not_eq_true'] at h
  unfold AttemptAnswers.published
  rw [h.2]
  simp

theorem endsWell_of_stores (h : a.stores parms = true) : a.endsWell parms = true := by
  unfold AttemptAnswers.stores at h
  rw [Bool.and_eq_true, Bool.and_eq_true, all_eq_true] at h
  unfold AttemptAnswers.endsWell
  cases hlast : parms.entries.getLast? with
  | none => rfl
  | some x => exact h.1.2 x (mem_of_getLast? hlast)

/-- What an attempt leaves. -/
structure Attempted (me : DeltaManager) (parms : SaveParms) (a : AttemptAnswers)
    (s s' : SaveState) : Prop where
  pending : Appends parms s.pending s'.pending
    (if a.clears parms then [] else s.pending.of parms.folderName) (a.published me parms)
  committed : s'.conn.committed =
    s.conn.committed ++ if a.stores parms then [parms.parts] else []
  status : s'.status = .success ↔
    if a.start then a.saves parms = true ∧ a.endsWell parms = true else s.status = .success

theorem attempted (me : DeltaManager) (parms : SaveParms) (a : AttemptAnswers) (s : SaveState) :
    Attempted me parms a s (afterAttempt me parms s a) ∧
      (saveAttempt me parms a s =
        if a.again parms then .inl (afterAttempt me parms s a)
        else .inr (afterAttempt me parms s a)) := by
  unfold afterAttempt
  cases hstart : a.start with
  | false =>
    have hpublished : a.published me parms = [] := by simp [AttemptAnswers.published, hstart]
    have hclears : a.clears parms = false := by simp [AttemptAnswers.clears, hstart]
    have hstores : a.stores parms = false := by simp [AttemptAnswers.stores, hstart]
    have hagain : a.again parms = false := by simp [AttemptAnswers.again, hstart]
    rw [saveAttempt_refused hstart, hagain]
    refine ⟨⟨?_, ?_, ?_⟩, rfl⟩
    · rw [hclears, hpublished]
      exact .refl _
    · rw [hstores]
      exact (append_nil _).symm
    · rw [hstart]
      rfl
  | true =>
    cases hsaves : a.saves parms with
    | false =>
      have hpublished : a.published me parms = [] := by simp [AttemptAnswers.published, hsaves]
      have hclears : a.clears parms = true := by simp [AttemptAnswers.clears, hstart, hsaves]
      have hstores : a.stores parms = false := by simp [AttemptAnswers.stores, hsaves]
      have hagain : a.again parms = true := by simp [AttemptAnswers.again, hstart, hsaves]
      rw [saveAttempt_cleared hstart hsaves, hagain]
      refine ⟨⟨?_, ?_, ?_⟩, rfl⟩
      · rw [hclears, hpublished]
        exact appends_clear _
      · rw [hstores]
        exact (append_nil _).symm
      · rw [hstart, hsaves]
        exact iff_of_false (of_decide_eq_false hsaves) (by simp)
    | true =>
      have hclears : a.clears parms = false := by simp [AttemptAnswers.clears, hsaves]
      have hagain : a.again parms = !(!a.stop || a.endsWell parms) := by
        simp [AttemptAnswers.again, hstart, hsaves, Bool.and_comm]
      obtain ⟨s', heq, hpending, hconn, hstatus⟩ :=
        saveAttempt_indexed me s hstart hsaves
      have hafter : (saveAttempt me parms a s).elim id id = s' := by
        rw [heq]
        split
        · rfl
        · rfl
      rw [hafter]
      refine ⟨⟨?_, ?_, ?_⟩, ?_⟩
      · rw [hclears]
        exact hpending
      · rw [hconn]
      · rw [hstart, hsaves, hstatus]
        simp
      · rw [heq, hagain]
        cases !a.stop || a.endsWell parms with
        | true => rfl
        | false => rfl

end Attempted

/-! ### all attempts -/

section Made
variable {me : DeltaManager} {parms : SaveParms} {answers : Nat → AttemptAnswers}
  {a last : AttemptAnswers} {s : SaveState} {attempts : List AttemptAnswers}
variable {p : Pending} {left : List Delta} {es : List SavedEntry}

theorem saveAttempts_eq {retries k : Nat} : saveAttempts me parms answers retries k s =
    (attemptsMade parms answers retries k).foldl (afterAttempt me parms) s := by
  induction retries generalizing k s with
  | zero => rfl
  | succ retries ih =>
    rw [saveAttempts, attemptsMade, foldl_cons, (attempted me parms (answers k) s).2]
    cases (answers k).again parms with
    | true => exact ih
    | false => rfl

variable (parms answers) in
/-- All attempts but the last one are tried again. -/
theorem attemptsMade_eq (n k : Nat) : ∃ tried last, attemptsMade parms answers (n + 1) k =
    tried ++ [last] ∧ (∀ a ∈ tried, a.again parms = true) ∧
      (tried = [] → last = answers k) ∧ (tried ≠ [] → (answers k).again parms = true) := by
  induction n generalizing k with
  | zero =>
    refine ⟨[], answers k, ?_, forall_mem_nil _, fun _ => rfl, fun h => absurd rfl h⟩
    simp [attemptsMade]
  | succ n ih =>
    rw [attemptsMade]
    cases hagain : (answers k).again parms with
    | false =>
      exact ⟨[], answers k, by simp, forall_mem_nil _, fun _ => rfl, fun h => absurd rfl h⟩
    | true =>
      obtain ⟨tried, last, heq, htried, -, -⟩ := ih (k + 1)
      refine ⟨answers k :: tried, last, ?_, ?_, fun h => absurd h (by simp), fun _ => rfl⟩
      · rw [if_pos rfl, heq]
        rfl
      · exact forall_mem_cons.mpr ⟨hagain, htried⟩

/-- The attempts behind the last one that clears the pending deltas. -/
def sinceCleared (parms : SaveParms) (attempts : List AttemptAnswers) : List AttemptAnswers :=
  attempts.rtakeWhile fun a => !a.clears parms

variable (me parms) in
/-- What attempts leave of the pending deltas, and the deltas that they add. -/
theorem attempts_pending (s : SaveState) (attempts : List AttemptAnswers) :
    Appends parms s.pending (attempts.foldl (afterAttempt me parms) s).pending
      (if attempts.any fun a => a.clears parms then [] else s.pending.of parms.folderName)
      ((sinceCleared parms attempts).flatMap fun a => a.published me parms) := by
  induction attempts using List.reverseRecOn with
  | nil => exact .refl _
  | append_singleton attempts a ih =>
    rw [foldl_append, foldl_cons, foldl_nil]
    have hstep := (attempted me parms a
      (attempts.foldl (afterAttempt me parms) s)).1.pending
    unfold sinceCleared
    rw [any_append, any_cons, any_nil, Bool.or_false]
    cases hclears : a.clears parms with
    | true =>
      rw [hclears, if_pos rfl, published_of_clears hclears] at hstep
      rw [rtakeWhile_concat_neg _ _ _ (by simp [hclears]), Bool.or_true, if_pos rfl]
      exact ih.restart hstep
    | false =>
      rw [hclears, if_neg (by decide)] at hstep
      rw [rtakeWhile_concat_pos _ _ _ (by simp [hclears]), Bool.or_false,
        flatMap_append, flatMap_singleton]
      exact ih.trans hstep

theorem not_stores_of_again (h : a.again parms = true) : a.stores parms = false := by
  unfold AttemptAnswers.again at h
  cases hno : a.stores parms with
  | false => rfl
  | true =>
    have hwell := endsWell_of_stores hno
    unfold AttemptAnswers.stores at hno
    rw [Bool.and_eq_true, Bool.and_eq_true, Bool.and_eq_true] at hno
    rw [hno.1.1.2, hwell] at h
    exact absurd h (by simp)

variable (me s) in
/-- Attempts that are tried again commit nothing, and the last of them fails. -/
theorem tried_state (h : ∀ a ∈ attempts, a.again parms = true) :
    (attempts.foldl (afterAttempt me parms) s).conn.committed = s.conn.committed ∧
      (attempts ≠ [] → (attempts.foldl (afterAttempt me parms) s).status ≠ .success) := by
  induction attempts using List.reverseRecOn with
  | nil => exact ⟨rfl, fun h => absurd rfl h⟩
  | append_singleton attempts a ih =>
    rw [foldl_append, foldl_cons, foldl_nil]
    have hagain := h a (by simp)
    have hstep := (attempted me parms a (attempts.foldl (afterAttempt me parms) s)).1
    refine ⟨?_, fun _ hstatus => ?_⟩
    · rw [hstep.committed, not_stores_of_again hagain, (ih fun b hb => h b (by simp [hb])).1]
      exact append_nil _
    · have hsaved := hstep.status.mp hstatus
      unfold AttemptAnswers.again at hagain
      rw [Bool.and_eq_true] at hagain
      rw [if_pos hagain.1] at hsaved
      rw [hsaved.1, hsaved.2] at hagain
      exact absurd hagain.2 (by simp)

/-- Other folders are not touched, and of this one the deltas of other advertisements are those that
are left. -/
theorem Appends.filter_foreign {p' : Pending} (h : Appends parms p p' left es) (folder : CString) :
    (p'.of folder).filter parms.foreign =
      (if folder = parms.folderName then left else p.of folder).filter parms.foreign := by
  by_cases hfolder : folder = parms.folderName
  · obtain ⟨ds, hlist, hes, -⟩ := h.list
    rw [if_pos hfolder, hfolder, hlist, filter_append, filter_foreign_eq_nil hes,
      append_nil]
  · rw [if_neg hfolder, h.others folder hfolder]

/-- A failed save is consistent if it adds nothing, and clears nothing that was pending. -/
theorem consistent_of_failed (hfail : s.status ≠ .success)
    (h : Appends parms me.pending s.pending left es)
    (hleft : left = [] ∨ left = me.pending.of parms.folderName) :
    DeltasConsistent me parms s ↔ es = [] ∧ left = me.pending.of parms.folderName := by
  constructor
  · intro hc
    exact (h.of_eq_iff hleft).mp (hc.unchanged hfail)
  · intro hc
    refine ⟨fun hno => absurd hno hfail, fun hno => absurd hno hfail,
      fun _ => (h.of_eq_iff hleft).mpr hc, fun folder => ?_⟩
    rw [h.filter_foreign folder, hc.2]
    by_cases hfolder : folder = parms.folderName
    · rw [if_pos hfolder, hfolder]
    · rw [if_neg hfolder]

/-- A save that stores all parts is consistent if the attempts before it add nothing, and clear
nothing that was pending, or nothing of another advertisement if no deltas are recorded. -/
theorem consistent_of_stored (hsuccess : s.status = .success)
    (hparts : parms.parts ∈ s.conn.committed) (h : Appends parms me.pending p left es)
    (hlast : Appends parms p s.pending (p.of parms.folderName)
      (if parms.records me then parms.entries.map Prod.fst else []))
    (hrec : parms.records me = false → es = [])
    (hleft : left = [] ∨ left = me.pending.of parms.folderName) :
    DeltasConsistent me parms s ↔ es = [] ∧ (left = me.pending.of parms.folderName ∨
      parms.records me = false ∧
        ∀ d ∈ me.pending.of parms.folderName, parms.foreign d = false) := by
  cases hrecords : parms.records me with
  | true =>
    rw [hrecords, if_pos rfl] at hlast
    obtain ⟨ds, hlist, hds, -⟩ := hlast.list
    simp only [Bool.true_eq_false, false_and, or_false]
    rw [← h.of_eq_iff hleft]
    constructor
    · intro hc
      obtain ⟨ds', hlist', hds'⟩ := hc.announced hsuccess hrecords
      have hlen : ds.length = ds'.length := hds.length_eq.symm.trans hds'.length_eq
      exact (append_inj' (hlist.symm.trans hlist') hlen).1
    · intro hp
      refine ⟨fun _ => hparts, fun _ _ => ⟨ds, hp ▸ hlist, hds⟩,
        fun hno => absurd hsuccess hno, fun folder => ?_⟩
      rw [hlast.filter_foreign folder]
      by_cases hfolder : folder = parms.folderName
      · rw [if_pos hfolder, hp, hfolder]
      · rw [if_neg hfolder, h.others folder hfolder]
  | false =>
    rw [hrecords, if_neg (by decide)] at hlast
    have hboth := h.trans hlast
    have hown : (∀ d ∈ me.pending.of parms.folderName, parms.foreign d = false) ↔
        (me.pending.of parms.folderName).filter parms.foreign = [] := by
      simp [filter_eq_nil_iff]
    rw [hown]
    constructor
    · intro hc
      refine ⟨hrec hrecords, ?_⟩
      rcases hleft with rfl | hleft
      · have hothers := hc.others parms.folderName
        rw [hboth.filter_foreign, if_pos rfl] at hothers
        exact .inr ⟨rfl, hothers.symm⟩
      · exact .inl hleft
    · intro hc
      refine ⟨fun _ => hparts, fun _ hno => absurd (hrecords.symm.trans hno) (by decide),
        fun hno => absurd hsuccess hno, fun folder => ?_⟩
      rw [hboth.filter_foreign folder]
      by_cases hfolder : folder = parms.folderName
      · rw [if_pos hfolder, hfolder]
        rcases hc.2 with hleft' | ⟨-, hnone⟩
        · rw [hleft']
        · rcases hleft with rfl | hleft
          · exact hnone.symm
          · rw [hleft]
      · rw [if_neg hfolder]

/-! ### the call -/

theorem quiet_iff : ((sinceCleared parms attempts).flatMap fun a => a.published me parms) = [] ↔
    ∀ a ∈ sinceCleared parms attempts, a.published me parms = [] := flatMap_eq_nil_iff

theorem left_cases : (if attempts.any fun a => a.clears parms then []
      else p.of parms.folderName) = [] ∨
    (if attempts.any fun a => a.clears parms then [] else p.of parms.folderName) =
      p.of parms.folderName := by
  split
  · exact .inl rfl
  · exact .inr rfl

theorem left_eq_iff : (if attempts.any fun a => a.clears parms then []
      else p.of parms.folderName) = p.of parms.folderName ↔
    ((∃ a ∈ attempts, a.clears parms = true) → p.of parms.folderName = []) := by
  rw [← any_eq_true]
  cases attempts.any fun a => a.clears parms with
  | true => exact ⟨fun h _ => h.symm, fun h => (h rfl).symm⟩
  | false => exact iff_of_true rfl fun h => absurd h (by decide)

theorem not_clears_of_stores (h : a.stores parms = true) : a.clears parms = false := by
  unfold AttemptAnswers.stores at h
  rw [Bool.and_eq_true, Bool.and_eq_true, Bool.and_eq_true] at h
  unfold AttemptAnswers.clears
  rw [h.1.1.2]
  exact Bool.and_false _

theorem published_of_stores (h : a.stores parms = true) : a.published me parms =
    if parms.records me then parms.entries.map Prod.fst else [] := by
  unfold AttemptAnswers.stores at h
  rw [Bool.and_eq_true, Bool.and_eq_true, Bool.and_eq_true] at h
  have hall : parms.entries.filter a.takes = parms.entries :=
    filter_eq_self.mpr (all_eq_true.mp h.1.2)
  unfold AttemptAnswers.published
  rw [h.1.1.1, h.1.1.2, hall]
  rfl

theorem published_eq_nil (h : parms.records me = false) : a.published me parms = [] := by
  unfold AttemptAnswers.published
  rw [h, Bool.and_false, if_neg (by decide)]

theorem not_again (hsaves : a.saves parms = true) (hends : a.endsWell parms = true) :
    a.again parms = false := by
  unfold AttemptAnswers.again
  rw [hsaves, hends]
  exact Bool.and_false _

theorem filter_tried (h : ∀ a ∈ attempts, a.again parms = true) :
    attempts.filter (fun a => !a.stores parms) = attempts := by
  refine filter_eq_self.mpr fun a ha => ?_
  rw [not_stores_of_again (h a ha)]
  rfl

/-- The state in which the attempts begin. -/
def SaveState.first (me : DeltaManager) : SaveState := ⟨me.pending, ⟨none, []⟩, .success⟩

section
variable (hmade : attemptsMade parms answers 3 0 = attempts ++ [last])
include hmade

section
variable (htried : ∀ a ∈ attempts, a.again parms = true)
include htried

/-- If the last attempt stores all parts, those before it decide. -/
theorem consistent_stores (hstarted : (answers 0).start = true)
    (hstores : last.stores parms = true) :
    DeltasConsistent me parms ((attempts ++ [last]).foldl (afterAttempt me parms) (.first me)) ↔
      DeltasSafe me parms answers := by
  rw [foldl_append, foldl_cons, foldl_nil]
  have hbefore := attempts_pending me parms (.first me) attempts
  have hlast := (attempted me parms last
    (attempts.foldl (afterAttempt me parms) (.first me))).1
  have hends := endsWell_of_stores hstores
  have hparts := hstores
  unfold AttemptAnswers.stores at hparts
  rw [Bool.and_eq_true, Bool.and_eq_true, Bool.and_eq_true] at hparts
  have hsuccess := hlast.status.mpr (by rw [if_pos hparts.1.1.1]; exact ⟨hparts.1.1.2, hends⟩)
  have hcommitted : parms.parts ∈ (afterAttempt me parms
      (attempts.foldl (afterAttempt me parms) (.first me)) last).conn.committed := by
    rw [hlast.committed, if_pos hstores]
    exact mem_append_right _ mem_cons_self
  have hpending := hlast.pending
  rw [not_clears_of_stores hstores, if_neg (by decide), published_of_stores hstores] at hpending
  have hfilter : (attempts ++ [last]).filter (fun a => !a.stores parms) = attempts := by
    rw [filter_append, filter_tried htried, filter_singleton, hstores]
    exact append_nil _
  have hclears : (∃ a ∈ attempts ++ [last], a.clears parms = true) ↔
      ∃ a ∈ attempts, a.clears parms = true := by
    simp [or_and_right, exists_or, not_clears_of_stores hstores]
  rw [consistent_of_stored hsuccess hcommitted hbefore hpending
    (fun hno => flatMap_eq_nil_iff.mpr fun _ _ => published_eq_nil hno) left_cases, quiet_iff]
  constructor
  · intro h
    refine ⟨hstarted, ?_, ?_, ?_⟩
    · intro a ha hstart hsaves hends'
      rw [hmade] at ha
      rcases mem_append.mp ha with ha | ha
      · exact absurd (htried a ha) (by rw [not_again hsaves hends']; decide)
      · rwa [mem_singleton.mp ha]
    · rw [hmade, hfilter]
      exact h.1
    · rw [hmade, hclears]
      intro hno
      rcases h.2 with hleft | hown
      · exact .inl (left_eq_iff.mp hleft hno)
      · exact .inr ⟨⟨last, by simp, hstores⟩, hown⟩
  · intro h
    have hquiet := h.quiet
    have hempty := h.empty
    rw [hmade, hfilter] at hquiet
    rw [hmade, hclears] at hempty
    refine ⟨hquiet, ?_⟩
    by_cases hno : ∃ a ∈ attempts, a.clears parms = true
    · rcases hempty hno with hnil | ⟨-, hown⟩
      · exact .inl (left_eq_iff.mpr fun _ => hnil)
      · exact .inr hown
    · exact .inl (left_eq_iff.mpr fun hyes => absurd hyes hno)

/-- If the last attempt fails, all of them decide. -/
theorem consistent_fails (hstarted : (answers 0).start = true) (hstores : last.stores parms = false)
    (hfail : ((attempts ++ [last]).foldl (afterAttempt me parms) (.first me)).status ≠ .success)
    (hwhole : ¬(last.start = true ∧ last.saves parms = true ∧ last.endsWell parms = true)) :
    DeltasConsistent me parms ((attempts ++ [last]).foldl (afterAttempt me parms) (.first me)) ↔
      DeltasSafe me parms answers := by
  have hpending := attempts_pending me parms (.first me) (attempts ++ [last])
  have hnone : ∀ a ∈ attempts ++ [last], a.stores parms = false := by
    intro a ha
    rcases mem_append.mp ha with ha | ha
    · exact not_stores_of_again (htried a ha)
    · rwa [mem_singleton.mp ha]
  have hfilter : (attempts ++ [last]).filter (fun a => !a.stores parms) = attempts ++ [last] := by
    refine filter_eq_self.mpr fun a ha => ?_
    rw [hnone a ha]
    rfl
  rw [consistent_of_failed hfail hpending left_cases, quiet_iff]
  constructor
  · intro h
    refine ⟨hstarted, ?_, ?_, ?_⟩
    · intro a ha hstart hsaves hends
      rw [hmade] at ha
      rcases mem_append.mp ha with ha | ha
      · exact absurd (htried a ha) (by rw [not_again hsaves hends]; decide)
      · rw [mem_singleton.mp ha] at hstart hsaves hends
        exact absurd ⟨hstart, hsaves, hends⟩ hwhole
    · rw [hmade, hfilter]
      exact h.1
    · rw [hmade]
      exact fun hno => .inl (left_eq_iff.mp h.2 hno)
  · intro h
    have hquiet := h.quiet
    have hempty := h.empty
    rw [hmade, hfilter] at hquiet
    rw [hmade] at hempty
    refine ⟨hquiet, left_eq_iff.mpr fun hno => ?_⟩
    rcases hempty hno with hnil | ⟨⟨a, ha, hyes⟩, -⟩
    · exact hnil
    · exact absurd hyes (by rw [hnone a ha]; decide)

/-- A success that stores nothing is neither consistent nor safe. -/
theorem not_safe_of_success (hfirst : attempts = [] → last = answers 0)
    (hstores : last.stores parms = false)
    (hsuccess : ((attempts ++ [last]).foldl (afterAttempt me parms) (.first me)).status =
      .success) :
    ¬DeltasConsistent me parms ((attempts ++ [last]).foldl (afterAttempt me parms) (.first me)) ∧
      ¬DeltasSafe me parms answers := by
  obtain ⟨hcommitted, hstatus⟩ := tried_state me (.first me) htried
  have hlast := (attempted me parms last
    (attempts.foldl (afterAttempt me parms) (.first me))).1
  rw [foldl_append, foldl_cons, foldl_nil] at hsuccess ⊢
  refine ⟨fun h => ?_, fun h => ?_⟩
  · have hmem := h.stored hsuccess
    rw [hlast.committed, hcommitted, hstores] at hmem
    exact absurd hmem (by simp [SaveState.first])
  · have hends := hlast.status.mp hsuccess
    cases hstart : last.start with
    | true =>
      rw [hstart, if_pos rfl] at hends
      have hwhole := h.whole last (by simp [hmade]) hstart hends.1 hends.2
      exact absurd (hstores.symm.trans hwhole) (by decide)
    | false =>
      rw [hstart, if_neg (by decide)] at hends
      have hnil : attempts = [] := by
        by_contra hne
        exact hstatus hne hends
      rw [hfirst hnil, h.started] at hstart
      cases hstart

end

end

end Made

/-- A save keeps the pending deltas consistent if and only if its folder is missing, or its attempts
are safe. -/
theorem save_deltas_consistent (me : DeltaManager) (parms : SaveParms)
    (answers : Nat → AttemptAnswers) :
    DeltasConsistent me parms (cmSave me parms answers) ↔
      (parms.folderName ∈ me.folders → DeltasSafe me parms answers) := by
  unfold cmSave
  by_cases hfolder : parms.folderName ∈ me.folders
  · rw [if_pos hfolder, saveAttempts_eq]
    obtain ⟨tried, last, hmade, htried, hfirst, hagain⟩ := attemptsMade_eq parms answers 2 0
    rw [hmade]
    refine Iff.trans ?_ (forall_prop_of_true hfolder).symm
    have hlast := (attempted me parms last (tried.foldl (afterAttempt me parms) (.first me))).1
    have hstarted : (tried ≠ [] ∨ last.start = true) → (answers 0).start = true := by
      intro h
      by_cases hnil : tried = []
      · rw [← hfirst hnil]
        exact h.resolve_left fun hne => hne hnil
      · have hyes := hagain hnil
        unfold AttemptAnswers.again at hyes
        rw [Bool.and_eq_true] at hyes
        exact hyes.1
    cases hstores : last.stores parms with
    | true =>
      have hstart := hstores
      unfold AttemptAnswers.stores at hstart
      rw [Bool.and_eq_true, Bool.and_eq_true, Bool.and_eq_true] at hstart
      exact consistent_stores hmade htried (hstarted (.inr hstart.1.1.1)) hstores
    | false =>
      by_cases hsuccess : ((tried ++ [last]).foldl (afterAttempt me parms) (.first me)).status =
          .success
      · obtain ⟨hno, hno'⟩ := not_safe_of_success hmade htried hfirst hstores hsuccess
        exact iff_of_false hno hno'
      · have hends := hsuccess
        rw [foldl_append, foldl_cons, foldl_nil, hlast.status] at hends
        refine consistent_fails hmade htried (hstarted ?_) hstores hsuccess fun hwhole => ?_
        · by_contra hno
          rw [not_or, not_not, Bool.not_eq_true] at hno
          rw [hno.1, hno.2] at hends
          exact hends (by simp [SaveState.first])
        · rw [hwhole.1, if_pos rfl] at hends
          exact hends hwhole.2
  · rw [if_neg hfolder]
    refine iff_of_true ⟨fun h => absurd h (by simp), fun h => absurd h (by simp), fun _ => rfl,
      fun _ => rfl⟩ fun h => absurd h hfolder

/-- A delta of another advertisement is pending, and the database takes nothing: the save fails, and
the delta is gone. -/
theorem not_save_deltas_consistent : ¬∀ (me : DeltaManager) (parms : SaveParms)
    (answers : Nat → AttemptAnswers), DeltasConsistent me parms (cmSave me parms answers) := by
  intro h
  let folder : CString := .ofChars ['A', 'd', 'v']
  let other : Delta := ⟨folder, folder, folder, .ofChars ['b'], none, 1000, 1⟩
  let pending : Pending := cmSrdiDeltaAdd ⟨∅, 1, fun _ _ hd => absurd hd not_mem_nil⟩ folder
    other (Nat.le_refl 1)
  let parms : SaveParms := ⟨folder, .ofChars ['a'], ⟨folder, none⟩, 1000, 1000, true⟩
  let refusing : AttemptAnswers := ⟨true, ⟨some false, false⟩, fun _ => ⟨some false, false⟩, true⟩
  have hc := (h ⟨[folder], true, pending⟩ parms fun _ => refusing).unchanged (by decide)
  cases hc

end JxtaC.Cm
