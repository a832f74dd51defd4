import JxtaC.Cm.Spaces
import JxtaC.Lib.Collected

/-
  How a list of SRDI entries is handed to the databases (`cm_srdi_elements_save_priv`,
  `cm_srdi_seq_number_update` and `cm_srdi_index_get` in jxta_cm.c). The strings of the caller are
  numbered; an entry comes with what the databases answer for it. Of an UPDATE the columns are kept
  that it sets: one that its table lacks has it refused. A save task is what
  `cm_save_srdi_transaction_start` is given. Failing allocations are left out.
-/

namespace JxtaC.Cm

open Lib List

/-! ## entries that have a sequence number only -/

/-- A row of the SRDI index. -/
structure IndexRow where
  dbAlias : List Byte
  advId : List Byte
  name : List Byte
  replica : List Byte

/-- The answers to the SELECT of the index, unless it is refused, and to the two UPDATEs. -/
structure SeqAnswer where
  index : Option (List IndexRow)
  indexAccepts : Bool
  srdiAccepts : Bool

/-- `cm_dbSpace_by_alias_get`. -/
def SpaceManager.cmDbSpaceByAliasGet (me : SpaceManager) (dbAlias : List Byte) : Option SpaceDb :=
  me.dbSpaces.find? fun db => dbAlias = db.dbAlias

/-- `apr_dbd_query` with an UPDATE of these columns. -/
def updateColumns (accepts : Bool) (table : Table) (columns : List Column) : Status :=
  if accepts && columns.all (fun column => column ∈ table.fields) then .success else .failed

/-- `cm_srdi_index_get`: the database and `bReplica`. The number of tuples is asked for whether or
not there is a result. -/
def cmSrdiIndexGet (me : SpaceManager) (answer : SeqAnswer) :
    Exec (Status × Option SpaceDb × Bool) :=
  match answer.index with
  | none => .error .nullPointer
  | some [] => .ok (.itemNotfound, none, false)
  | some (row :: _) =>
    .ok (.success, me.cmDbSpaceByAliasGet row.dbAlias, decide (row.replica = text "1"))

/-- `cm_srdi_seq_number_update`: the status and the tables whose rows were updated. -/
def cmSrdiSeqNumberUpdate (me : SpaceManager) (entry : SRDIEntryElement) (answer : SeqAnswer) :
    Exec (Status × List Table) := do
  let (status, dbSRDI, bReplica) ← cmSrdiIndexGet me answer
  if status ≠ .success then return (status, [])
  let jColumns := .timeOut :: if entry.value.isSome then [.value] else []
  let status := updateColumns answer.indexAccepts .srdiIndex jColumns
  if status ≠ .success then return (status, [])
  match dbSRDI with
  | none => .error .nullPointer
  | some _ =>
    let table := if bReplica then .replica else .srdi
    let status := updateColumns answer.srdiAccepts table (jColumns ++ [.timeOutForOthers])
    if status ≠ .success then return (status, [.srdiIndex])
    return (.success, [.srdiIndex, table])

/-! ## the groups -/

/-- An entry, and the answers of the databases. -/
abbrev AnsweredEntry := SRDIEntryElement × SeqAnswer

/-- The entries of each name space, the rows that were updated, the sequence numbers of the resend
entries, where they are asked for, and the status. -/
structure Grouping where
  entriesHash : AList fun _ : CString => List SRDIEntryElement
  updates : List (SRDIEntryElement × List Table)
  resendEntries : Option (List Nat)
  status : Status

/-- The entry has a sequence number and no advertisement. -/
def seqOnly (entry : SRDIEntryElement) : Bool :=
  entry.advId.isNone && decide (entry.seqNumber > 0)

/-- The name space under which an entry goes. -/
def nameSpaceOf (strings : Nat → CString) (primaryKey : Nat) (entry : SRDIEntryElement) : CString :=
  match entry.nameSpace with
  | none => strings primaryKey
  | some nameSpace => strings nameSpace

/-- The loop body over the entries. -/
def groupEntry (me : SpaceManager) (strings : Nat → CString) (primaryKey : Nat) (g : Grouping)
    (x : AnsweredEntry) : Exec Grouping := do
  if seqOnly x.1 then
    let (status, tables) ← cmSrdiSeqNumberUpdate me x.1 x.2
    return { g with
      updates := if tables = [] then g.updates else g.updates ++ [(x.1, tables)]
      resendEntries :=
        if status = .itemNotfound then g.resendEntries.map (· ++ [x.1.seqNumber])
        else g.resendEntries
      status }
  else
    return { g with
      entriesHash := collect g.entriesHash (nameSpaceOf strings primaryKey x.1) x.1
      status := .success }

/-- The groups of each database, under its alias, and the status. -/
abbrev DbsHash := (AList fun _ : List Byte => List (List SRDIEntryElement)) × Status

/-- The loop body over the name spaces. -/
def putGroup (resolved : Listing (CString × SpaceDb)) (values : Listing SpaceDb)
    (me : SpaceManager) (entriesHash : AList fun _ : CString => List SRDIEntryElement)
    (dbs : DbsHash) (key : CString) : Exec DbsHash :=
  match entriesHash.lookup key with
  | none => .ok (dbs.1, .itemNotfound)
  | some nsEntries => do
    let dbSpaces ← cmDbSpacesGetPriv resolved values me key false
    match dbSpaces with
    | [] => .error .nullPointer
    | dbSpace :: _ =>
      return (collect dbs.1 dbSpace.dbAlias nsEntries,
        if dbSpace.dbAlias ∈ dbs.1 then .success else .itemNotfound)

/-- `Jxta_cm_srdi_task`: the database and the groups of entries for it. -/
structure SaveTask where
  dbSpace : SpaceDb
  entriesV : List (List SRDIEntryElement)

/-- What `cm_srdi_elements_save_priv` leaves. -/
structure SavedEntries where
  tasks : List SaveTask
  updates : List (SRDIEntryElement × List Table)
  resendEntries : Option (List Nat)
  status : Status

/-- The last loop: a task for each database that has entries. -/
def startTasks (me : SpaceManager)
    (dbsHash : AList fun _ : List Byte => List (List SRDIEntryElement)) : List SaveTask :=
  me.dbSpaces.filterMap fun dbSpace => (dbsHash.lookup dbSpace.dbAlias).map (SaveTask.mk dbSpace)

/-- `cm_srdi_elements_save_priv`. -/
def cmSrdiElementsSavePriv (resolved : Listing (CString × SpaceDb)) (values : Listing SpaceDb)
    (keys : Listing CString) (me : SpaceManager) (strings : Nat → CString) (primaryKey : Nat)
    (entries : List AnsweredEntry) (resendEntries : Option (List Nat)) : Exec SavedEntries := do
  if entries = [] then return ⟨[], [], resendEntries, .invalidArgument⟩
  let g ← entries.foldlM (groupEntry me strings primaryKey) ⟨∅, [], resendEntries, .success⟩
  let dbs ← (keys.list g.entriesHash.keys).foldlM
    (putGroup resolved values me g.entriesHash) (∅, g.status)
  return ⟨startTasks me dbs.1, g.updates, g.resendEntries,
    if me.dbSpaces = [] then dbs.2 else .success⟩

/-! ## the claim of the partition -/

section Spec
variable (resolved : Listing (CString × SpaceDb)) (values : Listing SpaceDb) (me : SpaceManager)
  (strings : Nat → CString) (primaryKey : Nat) (entries : List AnsweredEntry)

/-- The first database of a name space. -/
def firstSpace (ns : CString) : Option SpaceDb :=
  match cmDbSpacesGetPriv resolved values me ns false with
  | .ok (db :: _) => some db
  | _ => none

/-- The entries that go to a task, in their order. -/
def handed : List SRDIEntryElement := (entries.map Prod.fst).filter fun entry => !seqOnly entry

/-- Those of one name space. -/
def ofSpace (ns : CString) : List SRDIEntryElement :=
  (handed entries).filter fun entry => nameSpaceOf strings primaryKey entry = ns

/-- The table that a row of the index leads to. -/
def IndexRow.table (row : IndexRow) : Table := if row.replica = text "1" then .replica else .srdi

/-- The rows that an entry is to update: those of the index and of the table it leads to. -/
def rowUpdates (x : AnsweredEntry) : Option (SRDIEntryElement × List Table) :=
  if seqOnly x.1 then
    (x.2.index.bind List.head?).map fun row => (x.1, [.srdiIndex, row.table])
  else none

/-- The sequence number that is to be sent again: the index has no row of it. -/
def missingSeq (x : AnsweredEntry) : Option Nat :=
  if seqOnly x.1 && decide ((x.2.index.map List.length) = some 0) then some x.1.seqNumber else none

end Spec

/-- The entries that go to a task are in one each, by name spaces: every task has whole name spaces,
those of which its database is the first, each with its entries in their order. Each other entry
updates its rows or adds its sequence number to those that are sent again. -/
structure Partitions (first : CString → Option SpaceDb) (group : CString → List SRDIEntryElement)
    (entries : List AnsweredEntry) (resendEntries : Option (List Nat)) (saved : SavedEntries) :
    Prop where
  tasks_nodup : (saved.tasks.map SaveTask.dbSpace).Nodup
  groups : ∀ task ∈ saved.tasks, ∃ nss : List CString, nss.Nodup ∧
    task.entriesV = nss.map group ∧
      ∀ ns, ns ∈ nss ↔ group ns ≠ [] ∧ first ns = some task.dbSpace
  handed : ∀ ns, group ns ≠ [] → ∃ task ∈ saved.tasks, first ns = some task.dbSpace
  updates : saved.updates = entries.filterMap rowUpdates
  resends : saved.resendEntries =
    if entries.filterMap missingSeq = [] then resendEntries
    else some (resendEntries.getD [] ++ entries.filterMap missingSeq)

/-- The first database of every name space is registered, as the only one of its alias, and each
other entry has an answer: no row while there are entries to be sent again, or a row of a registered
database with both UPDATEs accepted and no value, which the index does not keep. -/
structure Partitionable (first : CString → Option SpaceDb)
    (group : CString → List SRDIEntryElement) (me : SpaceManager) (entries : List AnsweredEntry)
    (resendEntries : Option (List Nat)) : Prop where
  spaces : ∀ ns, group ns ≠ [] → ∃ db, first ns = some db ∧ db ∈ me.dbSpaces ∧
    ∀ db' ∈ me.dbSpaces, db'.dbAlias = db.dbAlias → db' = db
  answers : ∀ x ∈ entries, seqOnly x.1 = true →
    (x.2.index = some [] ∧ resendEntries ≠ none) ∨
      ∃ row rows, x.2.index = some (row :: rows) ∧ x.1.value = none ∧
        x.2.indexAccepts = true ∧ x.2.srdiAccepts = true ∧
          me.cmDbSpaceByAliasGet row.dbAlias ≠ none

/-! ### one entry with a sequence number only -/

section Update
variable {me : SpaceManager} {entry : SRDIEntryElement} {answer : SeqAnswer}

theorem updateColumns_eq_success {accepts : Bool} {table : Table} {columns : List Column} :
    updateColumns accepts table columns = .success ↔
      accepts = true ∧ ∀ column ∈ columns, column ∈ table.fields := by
  unfold updateColumns
  by_cases h : (accepts && columns.all fun column => column ∈ table.fields) = true
  · simpa using h
  · rw [if_neg h]
    refine iff_of_false (by decide) ?_
    intro hall
    apply h
    simpa using hall

theorem updateColumns_ne_itemNotfound {accepts : Bool} {table : Table} {columns : List Column} :
    updateColumns accepts table columns ≠ .itemNotfound := by
  unfold updateColumns
  by_cases h : (accepts && columns.all fun column => column ∈ table.fields) = true
  · rw [if_pos h]
    decide
  · rw [if_neg h]
    decide

theorem srdi_fields (row : IndexRow) :
    ∀ column ∈ [Column.timeOut, .timeOutForOthers], column ∈ row.table.fields := by
  unfold IndexRow.table
  by_cases h : row.replica = text "1"
  · rw [if_pos h]
    decide
  · rw [if_neg h]
    decide

/-- Without a row it changes nothing. -/
theorem seqUpdate_missing (h : answer.index = some []) :
    cmSrdiSeqNumberUpdate me entry answer = .ok (.itemNotfound, []) := by
  unfold cmSrdiSeqNumberUpdate cmSrdiIndexGet
  rw [h]
  rfl

theorem seqUpdate_refused (h : answer.index = none) :
    cmSrdiSeqNumberUpdate me entry answer = .error .nullPointer := by
  unfold cmSrdiSeqNumberUpdate cmSrdiIndexGet
  rw [h]
  rfl

/-- The columns that an entry sets in the index. -/
def indexColumns (entry : SRDIEntryElement) : List Column :=
  .timeOut :: if entry.value.isSome then [.value] else []

theorem indexColumns_mem_iff :
    (∀ column ∈ indexColumns entry, column ∈ Table.fields .srdiIndex) ↔ entry.value = none := by
  unfold indexColumns
  cases entry.value with
  | none => decide
  | some value =>
    refine iff_of_false ?_ (Option.some_ne_none value)
    intro h
    exact absurd (h .value (by simp)) (by decide)

/-- A row is updated where both UPDATEs are taken and its database is registered. -/
theorem seqUpdate_found {row : IndexRow} {rows : List IndexRow}
    (h : answer.index = some (row :: rows)) (hvalue : entry.value = none)
    (hindex : answer.indexAccepts = true) (hsrdi : answer.srdiAccepts = true)
    (hdb : me.cmDbSpaceByAliasGet row.dbAlias ≠ none) :
    cmSrdiSeqNumberUpdate me entry answer = .ok (.success, [.srdiIndex, row.table]) := by
  obtain ⟨db, hdb⟩ := Option.ne_none_iff_exists'.mp hdb
  have hfirst : updateColumns answer.indexAccepts .srdiIndex [.timeOut] = .success :=
    updateColumns_eq_success.mpr ⟨hindex, by decide⟩
  have hsecond : updateColumns answer.srdiAccepts row.table ([.timeOut] ++ [.timeOutForOthers]) =
      .success := updateColumns_eq_success.mpr ⟨hsrdi, srdi_fields row⟩
  unfold IndexRow.table at hsecond ⊢
  unfold cmSrdiSeqNumberUpdate cmSrdiIndexGet
  simp only [h, ok_bind, hdb, hvalue, hfirst, Option.isSome_none, ne_eq, not_true_eq_false,
    if_false, decide_eq_true_eq, hsecond, Bool.false_eq_true]
  rfl

/-- Where it leaves the language, or updates less, one of these fails. -/
theorem seqUpdate_row {row : IndexRow} {rows : List IndexRow}
    (h : answer.index = some (row :: rows)) {status : Status} {tables : List Table}
    (hok : cmSrdiSeqNumberUpdate me entry answer = .ok (status, tables)) :
    status ≠ .itemNotfound ∧ (tables = [.srdiIndex, row.table] → entry.value = none ∧
      answer.indexAccepts = true ∧ answer.srdiAccepts = true ∧
        me.cmDbSpaceByAliasGet row.dbAlias ≠ none) := by
  unfold cmSrdiSeqNumberUpdate cmSrdiIndexGet at hok
  simp only [h, ok_bind, ne_eq, not_true_eq_false, if_false, decide_eq_true_eq] at hok
  by_cases hfirst : updateColumns answer.indexAccepts .srdiIndex
      (.timeOut :: if entry.value.isSome then [.value] else []) = .success
  swap
  · rw [if_pos hfirst] at hok
    cases hok
    exact ⟨updateColumns_ne_itemNotfound, fun hno => absurd hno (by simp)⟩
  rw [if_neg (not_not_intro hfirst)] at hok
  obtain ⟨hindex, hfields⟩ := updateColumns_eq_success.mp hfirst
  cases hdb : me.cmDbSpaceByAliasGet row.dbAlias with
  | none =>
    rw [hdb] at hok
    cases hok
  | some db =>
    simp only [hdb] at hok
    by_cases hsecond : updateColumns answer.srdiAccepts
        (if row.replica = text "1" then .replica else .srdi)
        ((.timeOut :: if entry.value.isSome then [.value] else []) ++ [.timeOutForOthers]) =
          .success
    · rw [if_neg (not_not_intro hsecond)] at hok
      cases hok
      exact ⟨by decide, fun _ => ⟨indexColumns_mem_iff.mp hfields, hindex,
        (updateColumns_eq_success.mp hsecond).1, Option.some_ne_none db⟩⟩
    · rw [if_pos hsecond] at hok
      cases hok
      exact ⟨updateColumns_ne_itemNotfound, fun hno => absurd hno (by simp)⟩

end Update

/-! ### the loop over the entries -/

section Entries
variable {me : SpaceManager} {strings : Nat → CString} {primaryKey : Nat} {x : AnsweredEntry}
  {entries : List AnsweredEntry}

/-- What an update answers. -/
def seqResult (me : SpaceManager) (x : AnsweredEntry) : Status × List Table :=
  match cmSrdiSeqNumberUpdate me x.1 x.2 with
  | .ok r => r
  | .error _ => (.failed, [])

/-- The rows that an entry updates. -/
def updatedRows (me : SpaceManager) (x : AnsweredEntry) : Option (SRDIEntryElement × List Table) :=
  if seqOnly x.1 = true ∧ (seqResult me x).2 ≠ [] then some (x.1, (seqResult me x).2) else none

/-- The sequence number that an entry adds to those that are sent again. -/
def resent (me : SpaceManager) (x : AnsweredEntry) : Option Nat :=
  if seqOnly x.1 = true ∧ (seqResult me x).1 = .itemNotfound then some x.1.seqNumber else none

/-- The update, if there is one, stays within the language. -/
def Answered (me : SpaceManager) (x : AnsweredEntry) : Prop :=
  seqOnly x.1 = true → cmSrdiSeqNumberUpdate me x.1 x.2 = .ok (seqResult me x)

theorem answered_of_ok {r : Status × List Table}
    (h : seqOnly x.1 = true → cmSrdiSeqNumberUpdate me x.1 x.2 = .ok r) : Answered me x := by
  intro hseq
  unfold seqResult
  rw [h hseq]

theorem map_append_nil {α : Type} (l : Option (List α)) : l.map (· ++ []) = l := by
  cases l with
  | none => rfl
  | some l => rw [Option.map_some, append_nil]

variable (strings primaryKey) in
/-- One entry: it goes to its group, or updates its rows or is sent again. -/
theorem groupEntry_eq (h : Answered me x) (g : Grouping) :
    ∃ status, groupEntry me strings primaryKey g x = .ok
      ⟨if seqOnly x.1 then g.entriesHash
        else collect g.entriesHash (nameSpaceOf strings primaryKey x.1) x.1,
      g.updates ++ (updatedRows me x).toList,
      g.resendEntries.map (· ++ (resent me x).toList), status⟩ := by
  unfold groupEntry updatedRows resent
  by_cases hseq : seqOnly x.1 = true
  · have hcall := h hseq
    cases hresult : seqResult me x with
    | mk status tables =>
      rw [hresult] at hcall
      rw [if_pos hseq, hcall, ok_bind, if_pos hseq]
      by_cases htables : tables = []
      · by_cases hstatus : status = .itemNotfound
        · simp [hseq, htables, hstatus, pure_eq_ok]
        · simp [hseq, htables, hstatus, map_append_nil, pure_eq_ok]
      · by_cases hstatus : status = .itemNotfound
        · simp [hseq, htables, hstatus, pure_eq_ok]
        · simp [hseq, htables, hstatus, map_append_nil, pure_eq_ok]
  · simp [hseq, map_append_nil, pure_eq_ok]

theorem handed_concat (x : AnsweredEntry) : handed (entries ++ [x]) =
    handed entries ++ if seqOnly x.1 then [] else [x.1] := by
  unfold handed
  cases h : seqOnly x.1 with
  | true => simp [h]
  | false => simp [h]

variable (strings primaryKey) in
/-- The loop collects the entries under their name spaces. -/
theorem groupEntries_eq (resendEntries : Option (List Nat)) (h : ∀ x ∈ entries, Answered me x) :
    ∃ status, entries.foldlM (groupEntry me strings primaryKey) ⟨∅, [], resendEntries, .success⟩ =
      .ok ⟨collected (nameSpaceOf strings primaryKey) id (handed entries),
        entries.filterMap (updatedRows me),
        resendEntries.map (· ++ entries.filterMap (resent me)), status⟩ := by
  induction entries using List.reverseRecOn with
  | nil => exact ⟨.success, by rw [filterMap_nil, filterMap_nil, map_append_nil]; rfl⟩
  | append_singleton entries x ih =>
    obtain ⟨status, hrun⟩ := ih fun y hy => h y (mem_append_left _ hy)
    have hx := h x (mem_append_right _ (mem_singleton_self x))
    obtain ⟨status', hstep⟩ := groupEntry_eq strings primaryKey hx
      ⟨collected (nameSpaceOf strings primaryKey) id (handed entries),
        entries.filterMap (updatedRows me),
        resendEntries.map (· ++ entries.filterMap (resent me)), status⟩
    refine ⟨status', ?_⟩
    rw [foldlM_append, hrun, ok_bind, foldlM_cons, hstep, ok_bind, foldlM_nil,
      handed_concat, filterMap_append, filterMap_append]
    have hrows : (updatedRows me x).toList = [x].filterMap (updatedRows me) := by
      cases hrow : updatedRows me x with
      | none => simp [hrow]
      | some row => simp [hrow]
    have hnumbers : (resent me x).toList = [x].filterMap (resent me) := by
      cases hnumber : resent me x with
      | none => simp [hnumber]
      | some number => simp [hnumber]
    have hhash : (if seqOnly x.1 then
          collected (nameSpaceOf strings primaryKey) id (handed entries)
        else collect (collected (nameSpaceOf strings primaryKey) id (handed entries))
          (nameSpaceOf strings primaryKey x.1) x.1) =
        collected (nameSpaceOf strings primaryKey) id
          (handed entries ++ if seqOnly x.1 then [] else [x.1]) := by
      cases hseq : seqOnly x.1 with
      | true => simp
      | false => exact (collected_concat (handed entries) x.1).symm
    rw [hrows, hnumbers, hhash, Option.map_map]
    simp only [Function.comp_def, append_assoc]
    rfl

theorem answered_of_groupEntry {g g' : Grouping}
    (h : groupEntry me strings primaryKey g x = .ok g') : Answered me x := by
  unfold groupEntry at h
  by_cases hseq : seqOnly x.1 = true
  · rw [if_pos hseq] at h
    obtain ⟨r, hr, -⟩ := bind_eq_ok.mp h
    exact answered_of_ok fun _ => hr
  · exact fun hno => absurd hno hseq

/-! ### the entries of one call -/

theorem resent_eq (h : Answered me x) : resent me x = missingSeq x := by
  unfold resent missingSeq
  by_cases hseq : seqOnly x.1 = true
  swap
  · simp [hseq]
  have hcall := h hseq
  cases hindex : x.2.index with
  | none =>
    rw [seqUpdate_refused hindex] at hcall
    cases hcall
  | some rows =>
    cases rows with
    | nil =>
      rw [seqUpdate_missing hindex] at hcall
      simp [hseq, ← Except.ok.inj hcall]
    | cons row rows =>
      have hstatus : (seqResult me x).1 ≠ .itemNotfound := (seqUpdate_row hindex hcall).1
      simp [hseq, hstatus]

theorem rowUpdates_ne_none (h : Answered me x) (hrows : updatedRows me x ≠ none) :
    rowUpdates x ≠ none := by
  unfold updatedRows at hrows
  unfold rowUpdates
  by_cases hseq : seqOnly x.1 = true
  swap
  · simp [hseq] at hrows
  have hcall := h hseq
  cases hindex : x.2.index with
  | none =>
    rw [seqUpdate_refused hindex] at hcall
    cases hcall
  | some rows =>
    cases rows with
    | nil =>
      rw [seqUpdate_missing hindex] at hcall
      simp [← Except.ok.inj hcall] at hrows
    | cons row rows => simp [hseq]

/-- The database answers for an entry that has a sequence number only. -/
def RowAnswered (me : SpaceManager) (x : AnsweredEntry) : Prop :=
  ∃ row rows, x.2.index = some (row :: rows) ∧ x.1.value = none ∧
    x.2.indexAccepts = true ∧ x.2.srdiAccepts = true ∧
      me.cmDbSpaceByAliasGet row.dbAlias ≠ none

/-- An entry updates what it is to update, if its row is answered for or it has none. -/
theorem updatedRows_iff (hseq : seqOnly x.1 = true) :
    (Answered me x ∧ updatedRows me x = rowUpdates x) ↔
      x.2.index = some [] ∨ RowAnswered me x := by
  constructor
  · intro h
    obtain ⟨hans, hrows⟩ := h
    have hcall := hans hseq
    cases hindex : x.2.index with
    | none =>
      rw [seqUpdate_refused hindex] at hcall
      cases hcall
    | some rows =>
      cases rows with
      | nil => exact .inl rfl
      | cons row rows =>
        have htables : (seqResult me x).2 = [.srdiIndex, row.table] := by
          unfold updatedRows rowUpdates at hrows
          simp only [hseq, hindex, true_and, if_true, Option.bind_some, head?_cons,
            Option.map_some] at hrows
          by_cases hnil : (seqResult me x).2 = []
          · rw [if_neg (not_not_intro hnil)] at hrows
            cases hrows
          · rw [if_pos hnil] at hrows
            exact (Prod.mk.inj (Option.some.inj hrows)).2
        exact .inr ⟨row, rows, hindex, (seqUpdate_row hindex hcall).2 htables⟩
  · intro h
    rcases h with hindex | ⟨row, rows, hindex, hvalue, hfirst, hsecond, hdb⟩
    · have hcall : cmSrdiSeqNumberUpdate me x.1 x.2 = .ok (.itemNotfound, []) :=
        seqUpdate_missing hindex
      have hans : Answered me x := answered_of_ok fun _ => hcall
      have hresult := Except.ok.inj ((hans hseq).symm.trans hcall)
      refine ⟨hans, ?_⟩
      unfold updatedRows rowUpdates
      simp [hseq, hindex, hresult]
    · have hcall := seqUpdate_found hindex hvalue hfirst hsecond hdb
      have hans : Answered me x := answered_of_ok fun _ => hcall
      have hresult := Except.ok.inj ((hans hseq).symm.trans hcall)
      refine ⟨hans, ?_⟩
      unfold updatedRows rowUpdates
      simp [hseq, hindex, hresult]

theorem updatedRows_of_not (hseq : ¬seqOnly x.1 = true) :
    Answered me x ∧ updatedRows me x = rowUpdates x := by
  refine ⟨fun hno => absurd hno hseq, ?_⟩
  unfold updatedRows rowUpdates
  simp [hseq]

end Entries

/-! ### the loop over the name spaces -/

section Spaces
variable {resolved : Listing (CString × SpaceDb)} {values : Listing SpaceDb} {me : SpaceManager}
  {strings : Nat → CString} {primaryKey : Nat} {entries : List AnsweredEntry}
  {entriesHash : AList fun _ : CString => List SRDIEntryElement}
variable {ns : CString}

/-- The alias of the first database of a name space. -/
def firstAlias (first : CString → Option SpaceDb) (ns : CString) : List Byte :=
  (first ns).elim [] SpaceDb.dbAlias

theorem firstSpace_eq_some {db : SpaceDb} :
    firstSpace resolved values me ns = some db ↔
      ∃ dbs, cmDbSpacesGetPriv resolved values me ns false = .ok (db :: dbs) := by
  unfold firstSpace
  cases cmDbSpacesGetPriv resolved values me ns false with
  | error e => simp
  | ok dbs =>
    cases dbs with
    | nil => simp
    | cons db' dbs => simp

theorem putGroup_eq {nsEntries : List SRDIEntryElement}
    (hentries : entriesHash.lookup ns = some nsEntries) {db : SpaceDb}
    (hdb : firstSpace resolved values me ns = some db) (dbs : DbsHash) :
    ∃ status, putGroup resolved values me entriesHash dbs ns =
      .ok (collect dbs.1 db.dbAlias nsEntries, status) := by
  obtain ⟨rest, hget⟩ := firstSpace_eq_some.mp hdb
  refine ⟨if db.dbAlias ∈ dbs.1 then .success else .itemNotfound, ?_⟩
  unfold putGroup
  rw [hentries]
  simp only [hget, ok_bind]
  rfl

theorem firstSpace_of_putGroup {nsEntries : List SRDIEntryElement}
    (hentries : entriesHash.lookup ns = some nsEntries) {dbs dbs' : DbsHash}
    (h : putGroup resolved values me entriesHash dbs ns = .ok dbs') :
    ∃ db, firstSpace resolved values me ns = some db := by
  unfold putGroup at h
  rw [hentries] at h
  obtain ⟨found, hget, hrest⟩ := bind_eq_ok.mp h
  cases found with
  | nil => cases hrest
  | cons db rest => exact ⟨db, firstSpace_eq_some.mpr ⟨rest, hget⟩⟩

variable (resolved values me) in
/-- The loop collects the groups under the aliases of their first databases. -/
theorem putGroups_eq (nss : List CString) (group : CString → List SRDIEntryElement)
    (hgroup : ∀ ns ∈ nss, entriesHash.lookup ns = some (group ns))
    (hfirst : ∀ ns ∈ nss, ∃ db, firstSpace resolved values me ns = some db) (status : Status) :
    ∃ status', nss.foldlM (putGroup resolved values me entriesHash) (∅, status) =
      .ok (collected (firstAlias (firstSpace resolved values me)) group nss, status') := by
  induction nss using List.reverseRecOn with
  | nil => exact ⟨status, rfl⟩
  | append_singleton nss ns ih =>
    obtain ⟨status₁, hrun⟩ := ih (fun ns hns => hgroup ns (mem_append_left _ hns))
      (fun ns hns => hfirst ns (mem_append_left _ hns))
    have hns : ns ∈ nss ++ [ns] := mem_append_right _ (mem_singleton_self ns)
    obtain ⟨db, hdb⟩ := hfirst ns hns
    obtain ⟨status₂, hstep⟩ := putGroup_eq (hgroup ns hns) hdb
      (collected (firstAlias (firstSpace resolved values me)) group nss, status₁)
    refine ⟨status₂, ?_⟩
    rw [foldlM_append, hrun, ok_bind, foldlM_cons, hstep, ok_bind, foldlM_nil,
      collected_concat]
    have halias : firstAlias (firstSpace resolved values me) ns = db.dbAlias := by
      rw [firstAlias, hdb]
      rfl
    rw [halias]
    rfl

theorem mem_startTasks {dbsHash : AList fun _ : List Byte => List (List SRDIEntryElement)}
    {task : SaveTask} : task ∈ startTasks me dbsHash ↔
      task.dbSpace ∈ me.dbSpaces ∧
        dbsHash.lookup task.dbSpace.dbAlias = some task.entriesV := by
  unfold startTasks
  rw [mem_filterMap]
  constructor
  · intro h
    obtain ⟨db, hdb, hmap⟩ := h
    obtain ⟨entriesV, hlookup, rfl⟩ := Option.map_eq_some_iff.mp hmap
    exact ⟨hdb, hlookup⟩
  · intro h
    exact ⟨task.dbSpace, h.1, by rw [h.2]; rfl⟩

theorem startTasks_nodup (dbsHash : AList fun _ : List Byte => List (List SRDIEntryElement)) :
    ((startTasks me dbsHash).map SaveTask.dbSpace).Nodup := by
  have hsub : ((startTasks me dbsHash).map SaveTask.dbSpace).Sublist me.dbSpaces := by
    unfold startTasks
    generalize me.dbSpaces = dbs
    induction dbs with
    | nil => exact List.Sublist.slnil
    | cons db dbs ih =>
      rw [filterMap_cons]
      cases hlookup : dbsHash.lookup db.dbAlias with
      | none => exact ih.cons db
      | some entriesV => exact ih.cons_cons db
  exact hsub.nodup me.dbSpaces_nodup

end Spaces

/-! ### when the partition is the one of the claim -/

section Meets
variable {resolved : Listing (CString × SpaceDb)} {values : Listing SpaceDb}
  {keys : Listing CString} {me : SpaceManager} {strings : Nat → CString} {primaryKey : Nat}
  {entries : List AnsweredEntry} {resendEntries : Option (List Nat)}
variable {ns : CString} {saved : SavedEntries} {first : CString → Option SpaceDb}

theorem ofKey_handed (ns : CString) :
    ofKey (nameSpaceOf strings primaryKey) id (handed entries) ns =
      ofSpace strings primaryKey entries ns := by
  unfold ofKey ofSpace
  rw [map_id]

theorem mem_keys_handed :
    ns ∈ (collected (nameSpaceOf strings primaryKey) id (handed entries)).keys ↔
      ofSpace strings primaryKey entries ns ≠ [] := by
  rw [← ofKey_handed]
  exact mem_collected

theorem lookup_handed (h : ofSpace strings primaryKey entries ns ≠ []) :
    (collected (nameSpaceOf strings primaryKey) id (handed entries)).lookup ns =
      some (ofSpace strings primaryKey entries ns) := by
  rw [← ofKey_handed] at h ⊢
  exact lookup_collected_of_ne_nil h

/-- A group that is not empty is one of its own name space. -/
theorem ofSpace_inj {ns' : CString} (h : ofSpace strings primaryKey entries ns ≠ [])
    (heq : ofSpace strings primaryKey entries ns = ofSpace strings primaryKey entries ns') :
    ns = ns' := by
  obtain ⟨entry, hentry⟩ := exists_mem_of_ne_nil _ h
  have hns := mem_filter.mp hentry
  rw [heq] at hentry
  have hns' := mem_filter.mp hentry
  exact (of_decide_eq_true hns.2).symm.trans (of_decide_eq_true hns'.2)

variable (keys resendEntries) in
/-- What a call leaves, where every update and every search of a database ends. -/
theorem saved_eq (hentries : ∀ x ∈ entries, Answered me x)
    (hfirst : ∀ ns, ofSpace strings primaryKey entries ns ≠ [] →
      ∃ db, firstSpace resolved values me ns = some db) (hne : entries ≠ []) :
    ∃ status, cmSrdiElementsSavePriv resolved values keys me strings primaryKey entries
        resendEntries =
      .ok ⟨startTasks me (collected (firstAlias (firstSpace resolved values me))
        (ofSpace strings primaryKey entries)
        (keys.list (collected (nameSpaceOf strings primaryKey) id (handed entries)).keys)),
        entries.filterMap (updatedRows me),
        resendEntries.map (· ++ entries.filterMap (resent me)), status⟩ := by
  obtain ⟨status, hgroups⟩ := groupEntries_eq strings primaryKey resendEntries hentries
  have hkeys : ∀ ns ∈ keys.list
      (collected (nameSpaceOf strings primaryKey) id (handed entries)).keys,
      ofSpace strings primaryKey entries ns ≠ [] :=
    fun ns hns => mem_keys_handed.mp ((keys.perm _).mem_iff.mp hns)
  obtain ⟨status', hputs⟩ := putGroups_eq resolved values me _
    (ofSpace strings primaryKey entries) (fun ns hns => lookup_handed (hkeys ns hns))
    (fun ns hns => hfirst ns (hkeys ns hns)) status
  refine ⟨if me.dbSpaces = [] then status' else .success, ?_⟩
  unfold cmSrdiElementsSavePriv
  rw [if_neg hne, hgroups, ok_bind, hputs, ok_bind]
  rfl

/-- What a call that ends shows of its updates and its searches. -/
theorem answered_of_saved
    (h : cmSrdiElementsSavePriv resolved values keys me strings primaryKey entries resendEntries =
      .ok saved) : (∀ x ∈ entries, Answered me x) ∧
    ∀ ns, ofSpace strings primaryKey entries ns ≠ [] →
      ∃ db, firstSpace resolved values me ns = some db := by
  by_cases hne : entries = []
  · subst hne
    exact ⟨fun x hx => absurd hx not_mem_nil, fun ns hns => absurd rfl hns⟩
  · unfold cmSrdiElementsSavePriv at h
    rw [if_neg hne] at h
    obtain ⟨g, hg, hrest⟩ := bind_eq_ok.mp h
    obtain ⟨dbs, hdbs, -⟩ := bind_eq_ok.mp hrest
    have hentries : ∀ x ∈ entries, Answered me x := by
      intro x hx
      obtain ⟨c, c', hc⟩ := exists_ok_of_foldlM hg x hx
      exact answered_of_groupEntry hc
    refine ⟨hentries, ?_⟩
    intro ns hns
    obtain ⟨status, hgroups⟩ := groupEntries_eq strings primaryKey resendEntries hentries
    obtain rfl := Except.ok.inj (hgroups.symm.trans hg)
    obtain ⟨c, c', hc⟩ := exists_ok_of_foldlM hdbs ns
      ((keys.perm _).mem_iff.mpr (mem_keys_handed.mpr hns))
    exact firstSpace_of_putGroup (lookup_handed hns) hc

/-- Every entry is answered for, if what is updated is what is to be updated. -/
theorem updates_iff : ((∀ x ∈ entries, Answered me x) ∧
      entries.filterMap (updatedRows me) = entries.filterMap rowUpdates) ↔
    ∀ x ∈ entries, seqOnly x.1 = true → x.2.index = some [] ∨ RowAnswered me x := by
  constructor
  · intro h x hx hseq
    have heq := (filterMap_eq_iff fun y hy => rowUpdates_ne_none (h.1 y hy)).mp h.2 x hx
    exact (updatedRows_iff hseq).mp ⟨h.1 x hx, heq⟩
  · intro h
    have hx : ∀ x ∈ entries, Answered me x ∧ updatedRows me x = rowUpdates x := by
      intro x hx
      by_cases hseq : seqOnly x.1 = true
      · exact (updatedRows_iff hseq).mpr (h x hx hseq)
      · exact updatedRows_of_not hseq
    exact ⟨fun x hmem => (hx x hmem).1, filterMap_congr fun x hmem => (hx x hmem).2⟩

theorem resends_iff {l : List Nat} : resendEntries.map (· ++ l) =
      (if l = [] then resendEntries else some (resendEntries.getD [] ++ l)) ↔
    (l ≠ [] → resendEntries ≠ none) := by
  by_cases hnil : l = []
  · subst hnil
    rw [if_pos rfl, map_append_nil]
    exact iff_of_true rfl fun hno => absurd rfl hno
  · rw [if_neg hnil]
    cases resendEntries with
    | none => exact iff_of_false (by simp) fun h => h hnil rfl
    | some old => exact iff_of_true rfl fun _ => Option.some_ne_none old

theorem missingSeq_ne_nil : entries.filterMap missingSeq ≠ [] ↔
    ∃ x ∈ entries, seqOnly x.1 = true ∧ x.2.index = some [] := by
  unfold missingSeq
  simp

/-- The groups of one task are those of the name spaces whose first database it is. -/
theorem mem_task_iff {nss : List CString} {db : SpaceDb}
    (hspaces : ∀ ns ∈ nss, ∃ db, first ns = some db ∧ db ∈ me.dbSpaces ∧
      ∀ db' ∈ me.dbSpaces, db'.dbAlias = db.dbAlias → db' = db) (hdb : db ∈ me.dbSpaces)
    (ns : CString) :
    ns ∈ nss.filter (fun ns => firstAlias first ns = db.dbAlias) ↔
      ns ∈ nss ∧ first ns = some db := by
  rw [mem_filter, decide_eq_true_iff]
  refine and_congr_right fun hns => ?_
  obtain ⟨db', hdb', -, huniq⟩ := hspaces ns hns
  unfold firstAlias
  rw [hdb']
  constructor
  · intro halias
    rw [huniq db hdb halias.symm]
  · intro heq
    cases heq
    rfl

/-- The tasks have the entries, by name spaces, if the first databases are registered as the only
ones of their aliases. -/
theorem tasks_of_spaces {group : CString → List SRDIEntryElement} {nss : List CString}
    (hnodup : nss.Nodup) (hnss : ∀ ns, ns ∈ nss ↔ group ns ≠ [])
    (hspaces : ∀ ns, group ns ≠ [] → ∃ db, first ns = some db ∧ db ∈ me.dbSpaces ∧
      ∀ db' ∈ me.dbSpaces, db'.dbAlias = db.dbAlias → db' = db) :
    (∀ task ∈ startTasks me (collected (firstAlias first) group nss), ∃ nss : List CString,
      nss.Nodup ∧ task.entriesV = nss.map group ∧
        ∀ ns, ns ∈ nss ↔ group ns ≠ [] ∧ first ns = some task.dbSpace) ∧
    ∀ ns, group ns ≠ [] → ∃ task ∈ startTasks me (collected (firstAlias first) group nss),
      first ns = some task.dbSpace := by
  constructor
  · intro task htask
    obtain ⟨hdb, hlookup⟩ := mem_startTasks.mp htask
    refine ⟨nss.filter fun ns => firstAlias first ns = task.dbSpace.dbAlias,
      hnodup.filter _, ?_, ?_⟩
    · rw [lookup_collected] at hlookup
      split at hlookup
      · cases hlookup
      · exact (Option.some.inj hlookup).symm
    · intro ns
      rw [mem_task_iff (fun ns hns => hspaces ns ((hnss ns).mp hns)) hdb, hnss]
  · intro ns hns
    obtain ⟨db, hfirst, hdb, -⟩ := hspaces ns hns
    have hne : ofKey (firstAlias first) group nss db.dbAlias ≠ [] := by
      refine ofKey_ne_nil.mpr ⟨ns, (hnss ns).mpr hns, ?_⟩
      unfold firstAlias
      rw [hfirst]
      rfl
    exact ⟨⟨db, _⟩, mem_startTasks.mpr ⟨hdb, lookup_collected_of_ne_nil hne⟩, hfirst⟩

/-- Conversely, tasks with the entries of their databases show that these are registered so. -/
theorem spaces_of_tasks {group : CString → List SRDIEntryElement}
    (hinj : ∀ ns ns', group ns ≠ [] → group ns = group ns' → ns = ns')
    {dbsHash : AList fun _ : List Byte => List (List SRDIEntryElement)}
    (hgroups : ∀ task ∈ startTasks me dbsHash, ∃ nss : List CString,
      nss.Nodup ∧ task.entriesV = nss.map group ∧
        ∀ ns, ns ∈ nss ↔ group ns ≠ [] ∧ first ns = some task.dbSpace)
    (hhanded : ∀ ns, group ns ≠ [] → ∃ task ∈ startTasks me dbsHash, first ns = some task.dbSpace)
    (hns : group ns ≠ []) :
    ∃ db, first ns = some db ∧ db ∈ me.dbSpaces ∧
      ∀ db' ∈ me.dbSpaces, db'.dbAlias = db.dbAlias → db' = db := by
  obtain ⟨task, htask, hfirst⟩ := hhanded ns hns
  obtain ⟨hdb, hlookup⟩ := mem_startTasks.mp htask
  refine ⟨task.dbSpace, hfirst, hdb, ?_⟩
  intro db' hdb' halias
  -- A second database of the alias has a task with the same groups.
  obtain ⟨nss, -, hV, hmem⟩ := hgroups task htask
  obtain ⟨nss', -, hV', hmem'⟩ := hgroups ⟨db', task.entriesV⟩
    (mem_startTasks.mpr ⟨hdb', by rw [halias]; exact hlookup⟩)
  have hgroup : group ns ∈ task.entriesV := by
    rw [hV]
    exact mem_map_of_mem ((hmem ns).mpr ⟨hns, hfirst⟩)
  rw [hV'] at hgroup
  obtain ⟨ns', hns', heq⟩ := mem_map.mp hgroup
  obtain rfl := hinj ns ns' hns heq.symm
  exact (Option.some.inj (hfirst.symm.trans ((hmem' ns).mp hns').2)).symm

section
variable (hsaved : cmSrdiElementsSavePriv resolved values keys me strings primaryKey entries
    resendEntries = .ok saved)
include hsaved

section
variable (hpart : Partitions (firstSpace resolved values me) (ofSpace strings primaryKey entries)
    entries resendEntries saved)
include hpart

/-- A call that meets the claim has an answer for each entry with a sequence number only. -/
theorem answers_of_partitions :
    ∀ x ∈ entries, seqOnly x.1 = true →
      (x.2.index = some [] ∧ resendEntries ≠ none) ∨ RowAnswered me x := by
  intro x hx hseq
  obtain ⟨hentries, hfirst⟩ := answered_of_saved hsaved
  obtain ⟨status, heq⟩ := saved_eq keys resendEntries hentries hfirst (ne_nil_of_mem hx)
  obtain rfl := Except.ok.inj (heq.symm.trans hsaved)
  have hresend := hpart.resends
  rw [filterMap_congr fun x hx => resent_eq (hentries x hx)] at hresend
  rcases updates_iff.mp ⟨hentries, hpart.updates⟩ x hx hseq with hindex | hrow
  · exact .inl ⟨hindex, resends_iff.mp hresend (missingSeq_ne_nil.mpr ⟨x, hx, hseq, hindex⟩)⟩
  · exact .inr hrow

theorem spaces_of_partitions (hns : ofSpace strings primaryKey entries ns ≠ []) :
    ∃ db, firstSpace resolved values me ns = some db ∧ db ∈ me.dbSpaces ∧
      ∀ db' ∈ me.dbSpaces, db'.dbAlias = db.dbAlias → db' = db := by
  have hne : entries ≠ [] := by
    intro hnil
    rw [hnil] at hns
    exact hns rfl
  obtain ⟨hentries, hfirst⟩ := answered_of_saved hsaved
  obtain ⟨status, heq⟩ := saved_eq keys resendEntries hentries hfirst hne
  obtain rfl := Except.ok.inj (heq.symm.trans hsaved)
  exact spaces_of_tasks (fun ns ns' => ofSpace_inj) hpart.groups hpart.handed hns

end

end

end Meets

section Claim
variable (resolved : Listing (CString × SpaceDb)) (values : Listing SpaceDb)
  (keys : Listing CString) (me : SpaceManager) (strings : Nat → CString) (primaryKey : Nat)
  (entries : List AnsweredEntry) (resendEntries : Option (List Nat))

theorem srdi_partitioned :
    (∃ saved, cmSrdiElementsSavePriv resolved values keys me strings primaryKey entries
        resendEntries = .ok saved ∧
      Partitions (firstSpace resolved values me) (ofSpace strings primaryKey entries) entries
        resendEntries saved) ↔
    Partitionable (firstSpace resolved values me) (ofSpace strings primaryKey entries) me entries
      resendEntries := by
  constructor
  · intro h
    obtain ⟨saved, hsaved, hpart⟩ := h
    refine ⟨fun ns hns => ?_, fun x hx hseq => ?_⟩
    · exact spaces_of_partitions hsaved hpart hns
    · exact answers_of_partitions hsaved hpart x hx hseq
  · intro h
    by_cases hne : entries = []
    · subst hne
      exact ⟨⟨[], [], resendEntries, .invalidArgument⟩, rfl, nodup_nil,
        fun task htask => absurd htask not_mem_nil, fun ns hns => absurd rfl hns, rfl, rfl⟩
    have hupdates := updates_iff.mpr fun x hx hseq => (h.answers x hx hseq).imp And.left id
    have hfirst : ∀ ns, ofSpace strings primaryKey entries ns ≠ [] →
        ∃ db, firstSpace resolved values me ns = some db := by
      intro ns hns
      obtain ⟨db, hdb, -⟩ := h.spaces ns hns
      exact ⟨db, hdb⟩
    obtain ⟨status, heq⟩ := saved_eq keys resendEntries hupdates.1 hfirst hne
    have hnodup := (keys.perm _).nodup_iff.mpr
      (collected (nameSpaceOf strings primaryKey) id (handed entries)).keys_nodup
    have htasks := tasks_of_spaces hnodup
      (fun ns => ((keys.perm _).mem_iff).trans mem_keys_handed) h.spaces
    refine ⟨_, heq, startTasks_nodup _, htasks.1, htasks.2, hupdates.2, ?_⟩
    rw [filterMap_congr fun x hx => resent_eq (hupdates.1 x hx)]
    apply resends_iff.mpr
    intro hmissing
    obtain ⟨x, hx, hseq, hindex⟩ := missingSeq_ne_nil.mp hmissing
    rcases h.answers x hx hseq with hnone | ⟨row, rows, hrow, -⟩
    · exact hnone.2
    · exact absurd (hindex.symm.trans hrow) (by simp)

end Claim

/-- A database, and a manager with this one. -/
def oneSpace : SpaceDb := ⟨1, text "defaultAddressSpace", text "groupID.sqdb"⟩

def oneSpaceManager : SpaceManager :=
  ⟨[oneSpace], nodup_singleton _, [], ∅, some oneSpace, some oneSpace⟩

/-- An entry with a sequence number and a value. -/
def valueEntry : SRDIEntryElement := ⟨none, none, none, some 1, none, 1000, 7⟩

/-- The index has its row, and takes every UPDATE of its columns. -/
def rowAnswer : SeqAnswer :=
  ⟨some [⟨text "groupID.sqdb", text "urn:jxta:uuid-1", text "Name", text "0"⟩], true, true⟩

theorem not_srdi_partitioned : ¬∀ (resolved : Listing (CString × SpaceDb))
    (values : Listing SpaceDb) (keys : Listing CString) (me : SpaceManager) (strings : Nat → CString) (primaryKey : Nat)
    (entries : List AnsweredEntry) (resendEntries : Option (List Nat)),
    ∃ saved, cmSrdiElementsSavePriv resolved values keys me strings primaryKey entries
        resendEntries = .ok saved ∧
      Partitions (firstSpace resolved values me) (ofSpace strings primaryKey entries) entries
        resendEntries saved := by
  intro h
  obtain ⟨saved, hsaved, hpart⟩ := h ⟨id, fun l => List.Perm.refl l⟩ ⟨id, fun l => List.Perm.refl l⟩
    ⟨id, fun l => List.Perm.refl l⟩ oneSpaceManager (fun _ => longType) 0
    [(valueEntry, rowAnswer)] (some [])
  have hanswer := answers_of_partitions hsaved hpart (valueEntry, rowAnswer)
    (mem_singleton_self _) (by decide)
  rcases hanswer with ⟨hnone, -⟩ | ⟨row, rows, -, hvalue, -⟩
  · exact absurd (congrArg (Option.map List.length) hnone) (by decide)
  · cases hvalue

end JxtaC.Cm
