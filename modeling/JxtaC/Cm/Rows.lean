import JxtaC.Cm.Database
import Mathlib.Data.List.Dedup

/-
  Which rows the statements of the cache manager touch: `cm_remove_srdi_delta_entries`,
  `cm_update_srdi_times` and `cm_restore_bytes`, with the functions that put the group in front of
  a condition or behind it. The texts are joined without parentheses, so an OR in the middle lets
  the rows behind it out of the group. The order in which a hash table lists its entries is open.
-/

namespace JxtaC.Cm

open Lib Lib.Sql List
variable {m : Memory} {r : Ref} {jId : Nat} {group : List Byte} {condition : Where}
variable {strings : Nat → List Byte}

/-- The tables of the databases, by their aliases. -/
abbrev Databases := List Byte → Tables

def Databases.set (dbs : Databases) (dbAlias : List Byte) (tables : Tables) : Databases :=
  fun a => if a = dbAlias then tables else dbs a

/-- `Jxta_cm` with its databases, which share the group string. -/
structure Manager extends Jxtacm where
  dbSpaces : List DBSpace
  best_mem : bestChoiceDB ∈ dbSpaces
  shared : ∀ d ∈ dbSpaces, d.jId = jGroupIDstring

/-- The condition behind the group. -/
def behindGroup (group : List Comparison) (condition : Option Where) : Where :=
  match condition with
  | none => joined .and group
  | some condition => joined .and group ++ .and :: condition

/-- `cm_sql_delete_with_where`: the statement. -/
def cmSqlDeleteWithWhere (dbSpace : DBSpace) (table : Table) (condition : Option Where) :
    Build Statement := do
  let group ← compareAll [groupEquals dbSpace.jId]
  return .delete table (behindGroup group condition)

/-- `cm_sql_update_with_where`: the statement. -/
def cmSqlUpdateWithWhere (dbSpace : DBSpace) (table : Table) (columns : List Comparison)
    (condition : Option Where) : Build Statement := do
  let group ← compareAll [groupEquals dbSpace.jId]
  return .update table columns (behindGroup group condition)

/-! ## deltas -/

/-- The loop of `cm_remove_srdi_delta_entries` over the entries, from the `i`th on. -/
def appendSeqNumbers (peer : Bool) (i : Nat) : List SRDIEntryElement → Where
  | [] => []
  | entry :: entries =>
    (if 0 < i then [.or] else if peer then [.and] else []) ++
      .atom ⟨.seqNumber, .equal, Decimal.ofInt entry.seqNumber,
        .number (Decimal.ofInt entry.seqNumber)⟩ :: appendSeqNumbers peer (i + 1) entries

/-- A delete on one database; what it answers is only logged. -/
def deleteIn (dbSpace : DBSpace) (condition : Option Where) (dbs : Databases) :
    Build Databases := do
  let delete ← cmSqlDeleteWithWhere dbSpace .srdiDelta condition
  return dbs.set dbSpace.dbAlias ((dbs dbSpace.dbAlias).after [delete])

/-- `cm_remove_srdi_delta_entries`. -/
def cmRemoveSrdiDeltaEntries (me : Manager) (jPeerid : Option Nat)
    (entries : Option (List SRDIEntryElement)) (dbs : Databases) : Build Databases := do
  if jPeerid.isSome ∨ entries.isSome then
    let peer ← compareAll (jPeerid.map fun p =>
      (.peerid, .equal, .value (some (.caller p)))).toList
    let condition := joined .and peer ++ appendSeqNumbers jPeerid.isSome 0 (entries.getD [])
    deleteIn me.bestChoiceDB (some condition) dbs
  else
    me.dbSpaces.foldlM (fun dbs dbSpace => deleteIn dbSpace none dbs) dbs

/-! ## times -/

/-- `adv_entry`: of an advertisement of the index, whether its first row is one of a replica. -/
structure AdvEntry where
  advid : List Byte
  replica : Bool
  deriving Repr, DecidableEq

/-- The order in which a hash table lists what was put into it. -/
structure Listing (α : Type) where
  list : List α → List α
  perm : ∀ l, (list l).Perm l

/-- A row of the index goes into the hash table of its database, where its advertisement is not
there yet. -/
def putEntry (entry : AdvEntry) (advsHash : List AdvEntry) : List AdvEntry :=
  if entry.advid ∈ advsHash.map AdvEntry.advid then advsHash else advsHash ++ [entry]

/-- The hash table of one database. -/
def advsHash (dbAlias : List Byte) (rows : List ResultRow) : List AdvEntry :=
  rows.foldl (fun hash row =>
    if row.getD 0 [] = dbAlias then putEntry ⟨row.getD 1 [], row.getD 2 [] = text "1"⟩ hash
    else hash) []

/-- The keys of the hash table of the databases. -/
def dbsHash (rows : List ResultRow) : List (List Byte) := (rows.map (·.getD 0 [])).dedup

/-- The comparisons of advertisement ids that `cm_update_srdi_times` joins with OR. -/
def advIdEquals : List (List Byte) → Build (List Comparison)
  | [] => pure []
  | advid :: advids => do
    let jAdvid ← jstringNew2 advid
    let first ← compareAll [(.advId, .equal, .value (some jAdvid))]
    let others ← advIdEquals advids
    return first ++ others

/-- The ids of the SRDI table where there are some, else those of the replicas. -/
def updateIn (me : Manager) (columns : List Comparison) (entries : List AdvEntry)
    (dbSpace : DBSpace) (dbs : Databases) : Build (Databases × Status) := do
  let jSRDIAdvIds ← advIdEquals ((entries.filter fun e => !e.replica).map AdvEntry.advid)
  let jReplicaAdvIds ← advIdEquals ((entries.filter fun e => e.replica).map AdvEntry.advid)
  let table := if jSRDIAdvIds = [] then Table.replica else .srdi
  let jWhere := joined .or (if jSRDIAdvIds = [] then jReplicaAdvIds else jSRDIAdvIds)
  let update ← cmSqlUpdateWithWhere dbSpace table columns (some jWhere)
  match (dbs dbSpace.dbAlias).query update with
  | none => return (dbs, .failed)
  | some tables =>
    let dbs := dbs.set dbSpace.dbAlias tables
    let update ← cmSqlUpdateWithWhere me.bestChoiceDB .srdiIndex columns (some jWhere)
    match (dbs me.bestChoiceDB.dbAlias).query update with
    | none => return (dbs, .failed)
    | some tables => return (dbs.set me.bestChoiceDB.dbAlias tables, .success)

/-- `cm_dbSpace_by_alias_get`. -/
def cmDbSpaceByAliasGet (me : Manager) (dbAlias : List Byte) : Option DBSpace :=
  me.dbSpaces.find? fun d => dbAlias = d.dbAlias

/-- The loop of `cm_update_srdi_times` over the databases. -/
def updateDbs (me : Manager) (columns : List Comparison) :
    List (List Byte × List AdvEntry) → Databases → Build (Databases × Status)
  | [], dbs => pure (dbs, .success)
  | (dbAlias, entries) :: rest, dbs =>
    match cmDbSpaceByAliasGet me dbAlias with
    | none => updateDbs me columns rest dbs
    | some dbSpace => do
      let (dbs, status) ← updateIn me columns entries dbSpace dbs
      if status = .success then updateDbs me columns rest dbs else return (dbs, status)

/-- `cm_update_srdi_times`. -/
def cmUpdateSrdiTimes (keys : Listing (List Byte)) (values : Listing AdvEntry) (me : Manager)
    (jPeerid : Nat) (time : Int) (dbs : Databases) : Build (Databases × Status) := do
  let condition ← compareAll [(.peerid, .equal, .value (some (.caller jPeerid))),
    (.originalTimeout, .greaterThan, .printed time)]
  let select ← cmSqlSelect me.bestChoiceDB .srdiIndex [.dbAlias, .advId, .replica, .timeOut]
    (joined .and condition) true
  match (dbs me.bestChoiceDB.dbAlias).engine.select select with
  | none => return (dbs, .failed)
  | some rows =>
    let columns ← compareAll [(.timeOut, .equal, .printed time)]
    updateDbs me columns ((keys.list (dbsHash rows)).map fun dbAlias =>
      (dbAlias, values.list (advsHash dbAlias rows))) dbs

/-! ## advertisements -/

/-- The condition of `cm_restore_bytes` on the name space. -/
def folderSpace (folderName : List Byte) (jFolder : Ref) : Build Where := do
  if folderName = text "Peers" ∨ folderName = text "Groups" then
    let own := if folderName = text "Peers" then Ref.jPeerNs else .jGroupNs
    let spaces ← compareAll [(.nameSpace, .equal, .value (some own)),
      (.nameSpace, .equal, .value (some jFolder))]
    return joined .or spaces
  else
    let spaces ← compareAll [(.nameSpace, .notEqual, .value (some .jGroupNs)),
      (.nameSpace, .notEqual, .value (some .jPeerNs))]
    return joined .and spaces

/-- The loop of `cm_restore_bytes` over the databases. -/
def restoreFrom (dbs : Databases) (condition : Where) : List DBSpace → Build (Option (List Byte))
  | [] => pure none
  | dbSpace :: dbSpaces => do
    let select ← cmSqlSelect dbSpace .advertisements [.advert] condition true
    match (dbs dbSpace.dbAlias).engine.select select with
    | none => return none
    | some [] => restoreFrom dbs condition dbSpaces
    | some (row :: _) => return some (row.getD 0 [])

/-- `cm_restore_bytes`: the bytes, or none. -/
def cmRestoreBytes (self : Manager) (folderName primaryKey : List Byte) (now : Int)
    (dbs : Databases) : Build (Option (List Byte)) := do
  let jKey ← jstringNew2 primaryKey
  let jFolder ← jstringNew2 folderName
  let key ← compareAll [(.advId, .equal, .value (some jKey))]
  let space ← folderSpace folderName jFolder
  let timeout ← compareAll [timeoutCheckGreater now]
  restoreFrom dbs (joined .and key ++ .and :: space ++ .and :: joined .and timeout) self.dbSpaces

/-! ## values written once -/

/-- The literal of a text. -/
def quoted (s : List Byte) : Literal := ⟨39 :: doubled s ++ [39], .text s⟩

/-- The literal of a number. -/
def printed (i : Int) : Literal := ⟨Decimal.ofInt i, .number (Decimal.ofInt i)⟩

@[simp] theorem read_quoted (s : List Byte) : (quoted s).read = some s :=
  read_of_faithful (denotes_quoted s)

@[simp] theorem read_printed (i : Int) : (printed i).read = some (Decimal.ofInt i) :=
  read_of_faithful (denotes_ofInt i)

theorem write_intact (h : (m.jstring r).Intact) :
    write (.value (some r)) m = (quoted (m.jstring r).given, m.escape r) := by
  have htext (j : JString) : cmSqlNumericQuote (some j) false = 39 :: j.chars ++ [39] := by
    unfold cmSqlNumericQuote
    dsimp only
    split <;> simp
  rw [write_value_some, htext, JString.escaped_chars, h]
  rfl

/-- A new string without quote marks is written as often as one likes. -/
theorem escape_plain {s : List Byte} (h : m.jstring r = .new s) (hs : 39 ∉ s) :
    m.escape r = m := by
  have hself : (JString.new s).escaped = .new s := by
    have hchars : (JString.new s).escaped.chars = s := by
      rw [JString.escaped_chars]
      exact (doubled_eq_self_iff s).mpr hs
    cases hj : (JString.new s).escaped with
    | mk given chars grown =>
      rw [hj] at hchars
      have hgiven : given = s := congrArg JString.given hj.symm
      subst hchars hgiven
      rfl
  have hjstring : (m.escape r).jstring = m.jstring := by
    funext r'
    rw [Memory.escape_jstring]
    split
    next hr => rw [hr, h, hself]
    next => rfl
  cases m with
  | mk jstring made => exact congrArg (Memory.mk · made) hjstring

/-- The group string of the manager, as every function finds it. -/
def Memory.InGroup (m : Memory) (jId : Nat) (group : List Byte) : Prop :=
  m.jstring (.caller jId) = .new group ∧ 39 ∉ group

theorem Memory.InGroup.escape (h : m.InGroup jId group) (r : Ref) :
    (m.escape r).InGroup jId group := by
  by_cases hr : r = .caller jId
  · rw [hr, escape_plain h.1 h.2]
    exact h
  · refine ⟨?_, h.2⟩
    rw [escape_jstring, if_neg (Ne.symm hr)]
    exact h.1

theorem Memory.InGroup.add (h : m.InGroup jId group) (j : JString) :
    (m.add j).InGroup jId group := by
  refine ⟨?_, h.2⟩
  rw [add_jstring, if_neg (by simp)]
  exact h.1

theorem compareAll_cons_intact (h : (m.jstring r).Intact) (column : Column) (relation : Relation)
    (cs : List (Column × Relation × Source)) :
    compareAll ((column, relation, .value (some r)) :: cs) m =
      (⟨column, relation, quoted (m.jstring r).given⟩ :: (compareAll cs (m.escape r)).1,
        (compareAll cs (m.escape r)).2) := by
  rw [compareAll_cons, write_intact h]

theorem compareAll_intact (h : (m.jstring r).Intact) (column : Column) :
    compareAll [(column, .equal, .value (some r))] m =
      ([⟨column, .equal, quoted (m.jstring r).given⟩], m.escape r) :=
  compareAll_cons_intact h column .equal []

theorem groupEquals_run (h : m.InGroup jId group) :
    compareAll [groupEquals jId] m = ([⟨.groupID, .equal, quoted group⟩], m) := by
  obtain ⟨hstring, hquote⟩ := h
  have hintact : (m.jstring (.caller jId)).Intact := by rw [hstring]; rfl
  refine (compareAll_intact hintact .groupID).trans ?_
  rw [escape_plain hstring hquote, hstring]
  rfl

theorem advIdEquals_run (h : m.InGroup jId group) (advids : List (List Byte)) :
    (advIdEquals advids m).1 = advids.map (fun advid => ⟨.advId, .equal, quoted advid⟩) ∧
      (advIdEquals advids m).2.InGroup jId group := by
  induction advids generalizing m with
  | nil => exact ⟨rfl, h⟩
  | cons advid advids ih =>
    let m₁ := (m.add (.new advid)).escape (.own m.made)
    have hintact : ((m.add (.new advid)).jstring (.own m.made)).Intact := by
      rw [Memory.add_jstring, if_pos rfl]
      rfl
    have hfirst : compareAll [(.advId, .equal, .value (some (.own m.made)))]
        (m.add (.new advid)) = ([⟨.advId, .equal, quoted advid⟩], m₁) := by
      rw [compareAll_intact hintact, Memory.add_jstring, if_pos rfl]
      rfl
    have hgroup := (h.add (.new advid)).escape (.own m.made)
    obtain ⟨hothers, hlater⟩ := ih hgroup
    have hrun : advIdEquals (advid :: advids) m =
        ((compareAll [(.advId, .equal, .value (some (.own m.made)))] (m.add (.new advid))).1 ++
          (advIdEquals advids (compareAll [(.advId, .equal, .value (some (.own m.made)))]
            (m.add (.new advid))).2).1,
          (advIdEquals advids (compareAll [(.advId, .equal, .value (some (.own m.made)))]
            (m.add (.new advid))).2).2) := rfl
    rw [hrun, hfirst, hothers]
    exact ⟨rfl, hlater⟩

/-! ## conditions behind the group -/

/-- The comparison of a column with a text, and with a number. -/
def textIs (column : Column) (s : List Byte) : Comparison := ⟨column, .equal, quoted s⟩

def numberIs (column : Column) (i : Int) : Comparison := ⟨column, .equal, printed i⟩

@[simp] theorem textIs_holds (row : Row) (column : Column) (s : List Byte) :
    Comparison.holds row (textIs column s) = true ↔ row column = s := by
  simp [Comparison.holds, textIs]

@[simp] theorem numberIs_holds (row : Row) (column : Column) (i : Int) :
    Comparison.holds row (numberIs column i) = true ↔ row column = Decimal.ofInt i := by
  simp [Comparison.holds, numberIs]

/-- The group guards the condition up to its first OR. -/
theorem holds_behindGroup (row : Row) (group : List Byte) (condition : Where) :
    holds (Comparison.holds row) (behindGroup [textIs .groupID group] (some condition)) =
      holdsFrom (Comparison.holds row) (decide (row .groupID = group)) condition := by
  have hgroup : Comparison.holds row (textIs .groupID group) = decide (row .groupID = group) := by
    rw [Bool.eq_iff_iff, textIs_holds, decide_eq_true_iff]
  rw [← hgroup]
  rfl

theorem isCondition_behindGroup (c : Comparison) (h : isCondition condition = true) :
    isCondition (behindGroup [c] (some condition)) = true := h

theorem atoms_behindGroup (c : Comparison) (condition : Where) :
    atoms (behindGroup [c] (some condition)) = c :: atoms condition := rfl

/-! ## deltas -/

/-- The rows of the group and the peer. -/
def Mine (group peerid : List Byte) (row : Row) : Prop :=
  row .groupID = group ∧ row .peerid = peerid

instance (group peerid : List Byte) (row : Row) : Decidable (Mine group peerid row) :=
  inferInstanceAs (Decidable (_ ∧ _))

/-- The number of the row stands in the list. -/
def Listed (entries : List SRDIEntryElement) (row : Row) : Prop :=
  ∃ entry ∈ entries, row .seqNumber = Decimal.ofInt entry.seqNumber

instance (entries : List SRDIEntryElement) (row : Row) : Decidable (Listed entries row) :=
  inferInstanceAs (Decidable (∃ entry ∈ entries, _))

theorem appendSeqNumbers_cons (peer : Bool) (i : Nat) (entry : SRDIEntryElement)
    (entries : List SRDIEntryElement) : appendSeqNumbers peer i (entry :: entries) =
      (if 0 < i then [.or] else if peer then [.and] else []) ++
        .atom (numberIs .seqNumber entry.seqNumber) :: appendSeqNumbers peer (i + 1) entries := rfl

/-- The numbers of the list behind its first one, each behind an OR. -/
theorem holdsFrom_appendSeqNumbers (row : Row) (peer acc : Bool) (i : Nat)
    (entries : List SRDIEntryElement) :
    holdsFrom (Comparison.holds row) acc (appendSeqNumbers peer (i + 1) entries) =
      (acc || decide (Listed entries row)) := by
  induction entries generalizing acc i with
  | nil => simp [appendSeqNumbers, holdsFrom, Listed]
  | cons entry entries ih =>
    have hentry : Comparison.holds row (numberIs .seqNumber entry.seqNumber) =
        decide (row .seqNumber = Decimal.ofInt entry.seqNumber) := by
      rw [Bool.eq_iff_iff, numberIs_holds, decide_eq_true_iff]
    have hrest : holdsFrom (Comparison.holds row) acc (appendSeqNumbers peer (i + 1)
        (entry :: entries)) = (acc || holdsFrom (Comparison.holds row)
          (Comparison.holds row (numberIs .seqNumber entry.seqNumber))
            (appendSeqNumbers peer (i + 2) entries)) := by
      rw [appendSeqNumbers_cons, if_pos (Nat.succ_pos i)]
      rfl
    have hlisted : Listed (entry :: entries) row ↔
        row .seqNumber = Decimal.ofInt entry.seqNumber ∨ Listed entries row := by
      simp [Listed]
    rw [hrest, ih, hentry, ← Bool.decide_or]
    simp only [hlisted]

theorem isCondition_appendSeqNumbers (c : Comparison) (peer : Bool) (i : Nat)
    (entries : List SRDIEntryElement) :
    isCondition (.atom c :: appendSeqNumbers peer (i + 1) entries) = true := by
  induction entries generalizing c i with
  | nil => rfl
  | cons entry entries ih => exact ih (numberIs .seqNumber entry.seqNumber) (i + 1)

theorem read_atoms_appendSeqNumbers (peer : Bool) (i : Nat) (entries : List SRDIEntryElement) :
    ∀ c ∈ atoms (appendSeqNumbers peer i entries), c.literal.read.isSome = true := by
  induction entries generalizing i with
  | nil => exact fun c hc => absurd hc not_mem_nil
  | cons entry entries ih =>
    have hatoms : atoms (appendSeqNumbers peer i (entry :: entries)) =
        numberIs .seqNumber entry.seqNumber :: atoms (appendSeqNumbers peer (i + 1) entries) := by
      rw [appendSeqNumbers_cons, atoms_append]
      split
      next => rfl
      next => split <;> rfl
    rw [hatoms, forall_mem_cons]
    refine ⟨?_, ih (i + 1)⟩
    show (printed _).read.isSome = true
    rw [read_printed]
    rfl

/-- The rows that `cm_remove_srdi_delta_entries` deletes: the group and the peer guard the first
number only. -/
def Removed (group peerid : List Byte) (entries : List SRDIEntryElement) (row : Row) : Prop :=
  match entries with
  | [] => Mine group peerid row
  | entry :: entries => Mine group peerid row ∧ row .seqNumber = Decimal.ofInt entry.seqNumber ∨
      Listed entries row

instance (group peerid : List Byte) (entries : List SRDIEntryElement) (row : Row) :
    Decidable (Removed group peerid entries row) :=
  match entries with
  | [] => inferInstanceAs (Decidable (Mine group peerid row))
  | _ :: _ => inferInstanceAs (Decidable (_ ∨ _))

/-- A DELETE of the rows that pass the condition. -/
theorem after_delete (tables : Tables) {table : Table}
    (hread : ∀ c ∈ atoms condition, c.literal.read.isSome = true)
    (hformed : isCondition condition = true) :
    tables.after [.delete table condition] = tables.set table ((tables table).filter fun row =>
      !holds (Comparison.holds row) condition) := by
  have haccepted : (Statement.delete table condition).Accepted :=
    ⟨forall_mem_map.mpr hread, .inr hformed⟩
  show (tables.query _).getD tables = _
  rw [Tables.query, if_pos haccepted]
  rfl

/-- The words of a removal are a condition, and say which rows are removed. -/
theorem removal_condition (group peerid : List Byte) (entries : List SRDIEntryElement) :
    let condition := behindGroup [textIs .groupID group]
      (some (.atom (textIs .peerid peerid) :: appendSeqNumbers true 0 entries))
    isCondition condition = true ∧ (∀ c ∈ atoms condition, c.literal.read.isSome = true) ∧
      ∀ row, holds (Comparison.holds row) condition =
        decide (Removed group peerid entries row) := by
  intro condition
  refine ⟨?_, ?_, ?_⟩
  · apply isCondition_behindGroup
    cases entries with
    | nil => rfl
    | cons entry entries =>
      exact isCondition_appendSeqNumbers (numberIs .seqNumber entry.seqNumber) true 0 entries
  · have hread := read_atoms_appendSeqNumbers true 0 entries
    simp only [condition, atoms_behindGroup, atoms, forall_mem_cons]
    refine ⟨?_, ?_, hread⟩ <;> exact congrArg Option.isSome (read_quoted _)
  · intro row
    have hpeer : Comparison.holds row (textIs .peerid peerid) = decide (row .peerid = peerid) := by
      rw [Bool.eq_iff_iff, textIs_holds, decide_eq_true_iff]
    rw [holds_behindGroup, Bool.eq_iff_iff, decide_eq_true_iff]
    unfold Removed Mine
    cases entries with
    | nil => simp [appendSeqNumbers, holdsFrom, hpeer]
    | cons entry entries =>
      have hfirst : Comparison.holds row (numberIs .seqNumber entry.seqNumber) =
          decide (row .seqNumber = Decimal.ofInt entry.seqNumber) := by
        rw [Bool.eq_iff_iff, numberIs_holds, decide_eq_true_iff]
      have hwords : holdsFrom (Comparison.holds row) (decide (row .groupID = group))
          (.atom (textIs .peerid peerid) :: appendSeqNumbers true 0 (entry :: entries)) =
            holdsFrom (Comparison.holds row) (decide (row .groupID = group) &&
              Comparison.holds row (textIs .peerid peerid) &&
                Comparison.holds row (numberIs .seqNumber entry.seqNumber))
                  (appendSeqNumbers true 1 entries) := rfl
      rw [hwords, holdsFrom_appendSeqNumbers, hpeer, hfirst]
      simp

/-- What `cm_remove_srdi_delta_entries` leaves. -/
theorem cmRemoveSrdiDeltaEntries_run (me : Manager) (jPeerid : Nat)
    (entries : List SRDIEntryElement) (dbs : Databases) (hgroup : 39 ∉ strings me.jGroupIDstring) :
    (cmRemoveSrdiDeltaEntries me (some jPeerid) (some entries) dbs (.start strings)).1 =
      dbs.set me.bestChoiceDB.dbAlias ((dbs me.bestChoiceDB.dbAlias).set .srdiDelta
        ((dbs me.bestChoiceDB.dbAlias .srdiDelta).filter fun row =>
          !decide (Removed (strings me.jGroupIDstring) (strings jPeerid) entries row))) := by
  have hstart : (Memory.start strings).InGroup me.jGroupIDstring (strings me.jGroupIDstring) :=
    ⟨rfl, hgroup⟩
  have hpeer := compareAll_intact (m := .start strings) (r := .caller jPeerid) rfl .peerid
  have hid : me.bestChoiceDB.jId = me.jGroupIDstring := me.shared _ me.best_mem
  have hdelete : compareAll [groupEquals me.bestChoiceDB.jId]
      ((Memory.start strings).escape (.caller jPeerid)) =
        ([textIs .groupID (strings me.jGroupIDstring)],
          (Memory.start strings).escape (.caller jPeerid)) := by
    rw [hid]
    exact groupEquals_run (hstart.escape (.caller jPeerid))
  obtain ⟨hformed, hread, hholds⟩ := removal_condition (strings me.jGroupIDstring)
    (strings jPeerid) entries
  have hrun : cmRemoveSrdiDeltaEntries me (some jPeerid) (some entries) dbs (.start strings) =
      deleteIn me.bestChoiceDB (some (joined .and (compareAll [(.peerid, .equal,
        .value (some (.caller jPeerid)))] (.start strings)).1 ++ appendSeqNumbers true 0 entries)) dbs
          (compareAll [(.peerid, .equal, .value (some (.caller jPeerid)))] (.start strings)).2 := rfl
  rw [hrun, hpeer]
  show dbs.set _ ((dbs _).after [.delete .srdiDelta (behindGroup (compareAll
    [groupEquals me.bestChoiceDB.jId] ((Memory.start strings).escape (.caller jPeerid))).1 _)]) = _
  rw [hdelete]
  refine congrArg _ ((after_delete (dbs me.bestChoiceDB.dbAlias) hread hformed).trans ?_)
  simp only [hholds]

/-! ## times -/

/-- A row with another time-out. -/
def Row.timed (time : Int) (row : Row) : Row := row.assign [numberIs .timeOut time]

/-- The databases with a new time-out in some rows. -/
def Databases.timed (dbs : Databases) (time : Int) (touched : List Byte → Table → Row → Bool) :
    Databases :=
  fun dbAlias table => (dbs dbAlias table).map fun row =>
    if touched dbAlias table row then row.timed time else row

theorem timed_column (time : Int) (row : Row) (column : Column) :
    row.timed time column = if column = .timeOut then Decimal.ofInt time else row column := by
  unfold Row.timed Row.assign
  by_cases h : column = .timeOut
  · rw [if_pos h, find?_cons_of_pos (by simp [numberIs, h])]
    simp [numberIs]
  · rw [if_neg h, find?_cons_of_neg (by simp [numberIs, Ne.symm h])]
    rfl

theorem timed_eq_self_iff (time : Int) (row : Row) :
    row.timed time = row ↔ row .timeOut = Decimal.ofInt time := by
  constructor
  · intro h
    rw [← h, timed_column, if_pos rfl]
  · intro h
    funext column
    rw [timed_column]
    split
    next hcolumn => rw [hcolumn, h]
    next => rfl

theorem timed_timed (dbs : Databases) (time : Int) (touched touched' : List Byte → Table → Row → Bool)
    (h : ∀ dbAlias table row, touched' dbAlias table (row.timed time) = touched' dbAlias table row) :
    (dbs.timed time touched).timed time touched' =
      dbs.timed time fun dbAlias table row => touched dbAlias table row || touched' dbAlias table row := by
  funext dbAlias table
  unfold Databases.timed
  rw [map_map]
  apply map_congr_left
  intro row _
  have htwice : (row.timed time).timed time = row.timed time := by
    rw [timed_eq_self_iff, timed_column, if_pos rfl]
  cases h1 : touched dbAlias table row with
  | false => simp [h1]
  | true => simp [h1, h, htwice]

/-- Two ways to set the time-outs agree where they touch the same rows, or rows that have the time
already. -/
theorem timed_eq_timed_iff (dbs : Databases) (time : Int)
    (touched touched' : List Byte → Table → Row → Bool) :
    dbs.timed time touched = dbs.timed time touched' ↔
      ∀ dbAlias table, ∀ row ∈ dbs dbAlias table, row .timeOut ≠ Decimal.ofInt time →
        touched dbAlias table row = touched' dbAlias table row := by
  have hrow (t t' : Bool) (row : Row) :
      (if t then row.timed time else row) = (if t' then row.timed time else row) ↔
        (row .timeOut ≠ Decimal.ofInt time → t = t') := by
    have hself := timed_eq_self_iff time row
    cases t <;> cases t' <;> simp [← hself, eq_comm]
  unfold Databases.timed
  simp only [funext_iff, map_inj_left, hrow]

/-- An UPDATE of the time-outs in one table. -/
theorem query_timed (dbs : Databases) (dbAlias : List Byte) (table : Table) (time : Int)
    (hread : ∀ c ∈ atoms condition, c.literal.read.isSome = true)
    (hformed : isCondition condition = true) :
    ∃ tables, (dbs dbAlias).query (.update table [numberIs .timeOut time] condition) = some tables ∧
      dbs.set dbAlias tables = dbs.timed time fun a t row =>
        a = dbAlias && t = table && holds (Comparison.holds row) condition := by
  have haccepted : (Statement.update table [numberIs .timeOut time] condition).Accepted := by
    refine ⟨?_, .inr hformed⟩
    show ∀ l ∈ (numberIs .timeOut time :: atoms condition).map Comparison.literal, _
    rw [forall_mem_map, forall_mem_cons]
    exact ⟨congrArg Option.isSome (read_printed time), hread⟩
  refine ⟨_, if_pos haccepted, ?_⟩
  funext a t
  unfold Databases.set Databases.timed Tables.set
  by_cases ha : a = dbAlias
  · by_cases ht : t = table
    · simp only [ha, ht, if_true, decide_true, Bool.true_and]
      rfl
    · simp [ha, ht]
  · simp [ha]

/-- The ids of an OR chain, and its table. -/
def chainIds (entries : List AdvEntry) : List (List Byte) :=
  let srdi := (entries.filter fun e => !e.replica).map AdvEntry.advid
  if srdi = [] then (entries.filter fun e => e.replica).map AdvEntry.advid else srdi

def chainTable (entries : List AdvEntry) : Table :=
  if (entries.filter fun e => !e.replica).map AdvEntry.advid = [] then .replica else .srdi

/-- The rows that a chain of ids behind the group reaches. -/
def Reached (group : List Byte) (ids : List (List Byte)) (row : Row) : Bool :=
  match ids with
  | [] => false
  | id :: ids => (row .groupID = group && row .advId = id) || row .advId ∈ ids

theorem chainIds_ne_nil {entries : List AdvEntry} (h : entries ≠ []) : chainIds entries ≠ [] := by
  unfold chainIds
  dsimp only
  split
  next hnil =>
    have hreplica : ∀ e ∈ entries, e.replica = true := by
      rw [map_eq_nil_iff, filter_eq_nil_iff] at hnil
      exact fun e he => by simpa using hnil e he
    rw [filter_eq_self.mpr hreplica]
    exact fun hmap => h (map_eq_nil_iff.mp hmap)
  next hnil => exact hnil

theorem atoms_joined_or (cs : List Comparison) : atoms (joined .or cs) = cs := by
  induction cs with
  | nil => rfl
  | cons c cs ih =>
    cases cs with
    | nil => rfl
    | cons d cs => exact congrArg (c :: ·) ih

/-- A chain of ids behind the group is a condition, and says which rows it reaches. -/
theorem chain_condition (group : List Byte) {ids : List (List Byte)} (h : ids ≠ []) :
    let condition := behindGroup [textIs .groupID group]
      (some (joined .or (ids.map (textIs .advId))))
    isCondition condition = true ∧ (∀ c ∈ atoms condition, c.literal.read.isSome = true) ∧
      ∀ row, holds (Comparison.holds row) condition = Reached group ids row := by
  intro condition
  obtain ⟨id, ids, rfl⟩ := exists_cons_of_ne_nil h
  refine ⟨isCondition_behindGroup _ (isCondition_joined_or (cons_ne_nil _ _)), ?_, ?_⟩
  · have hread (column : Column) (s : List Byte) :
        (textIs column s).literal.read.isSome = true := congrArg Option.isSome (read_quoted s)
    rw [atoms_behindGroup, atoms_joined_or, forall_mem_cons, forall_mem_map]
    exact ⟨hread _ _, fun id _ => hread _ id⟩
  · intro row
    rw [holds_behindGroup, map_cons, holdsFrom_or_joined, Reached, Bool.eq_iff_iff]
    simp

/-- What a chain touches in the database of its ids, and in the index. -/
def chainTouches (me : Manager) (group dbAlias : List Byte) (entries : List AdvEntry)
    (a : List Byte) (table : Table) (row : Row) : Bool :=
  (a = dbAlias && table = chainTable entries ||
    a = me.bestChoiceDB.dbAlias && table = .srdiIndex) && Reached group (chainIds entries) row

theorem Reached_timed (group : List Byte) (ids : List (List Byte)) (time : Int) (row : Row) :
    Reached group ids (row.timed time) = Reached group ids row := by
  have hcolumn (column : Column) (h : column ≠ .timeOut) : row.timed time column = row column := by
    rw [timed_column, if_neg h]
  cases ids with
  | nil => rfl
  | cons id ids =>
    unfold Reached
    rw [hcolumn .groupID (by decide), hcolumn .advId (by decide)]

theorem cmSqlUpdateWithWhere_run (me : Manager) {dbSpace : DBSpace} (hdb : dbSpace ∈ me.dbSpaces)
    (table : Table) (columns : List Comparison) (condition : Option Where)
    (h : m.InGroup me.jGroupIDstring group) :
    cmSqlUpdateWithWhere dbSpace table columns condition m =
      (.update table columns (behindGroup [textIs .groupID group] condition), m) := by
  have hgroup := groupEquals_run h
  rw [← me.shared dbSpace hdb] at hgroup
  show ((Statement.update table columns (behindGroup (compareAll [groupEquals dbSpace.jId] m).1
    condition) : Statement), (compareAll [groupEquals dbSpace.jId] m).2) = _
  rw [hgroup]
  rfl

/-- The work on one database sets the time-outs that its chain reaches. -/
theorem updateIn_run (me : Manager) (time : Int) {entries : List AdvEntry}
    (hentries : entries ≠ []) {dbSpace : DBSpace} (hdb : dbSpace ∈ me.dbSpaces) (dbs : Databases)
    (h : m.InGroup me.jGroupIDstring group) :
    ∃ m', updateIn me [numberIs .timeOut time] entries dbSpace dbs m =
        ((dbs.timed time (chainTouches me group dbSpace.dbAlias entries), .success), m') ∧
      m'.InGroup me.jGroupIDstring group := by
  let srdi := (entries.filter fun e => !e.replica).map AdvEntry.advid
  let replicas := (entries.filter fun e => e.replica).map AdvEntry.advid
  obtain ⟨hsrdi, h₁⟩ := advIdEquals_run h srdi
  obtain ⟨hreplicas, h₂⟩ := advIdEquals_run h₁ replicas
  generalize hm₁ : advIdEquals srdi m = p at *
  generalize hm₂ : advIdEquals replicas p.2 = q at *
  have htable : (if p.1 = [] then Table.replica else .srdi) = chainTable entries := by
    rw [hsrdi]
    unfold chainTable
    simp [srdi]
  have hwords : joined .or (if p.1 = [] then q.1 else p.1) =
      joined .or ((chainIds entries).map (textIs .advId)) := by
    rw [hsrdi, hreplicas]
    unfold chainIds
    dsimp only [srdi, replicas]
    split
    next hnil => rw [if_pos (map_eq_nil_iff.mp hnil)]; rfl
    next hnil => rw [if_neg fun h => hnil (map_eq_nil_iff.mpr h)]; rfl
  obtain ⟨hformed, hread, hholds⟩ := chain_condition group (chainIds_ne_nil hentries)
  obtain ⟨tables, hquery, hset⟩ := query_timed dbs dbSpace.dbAlias (chainTable entries) time hread
    hformed
  obtain ⟨tables', hquery', hset'⟩ := query_timed (dbs.set dbSpace.dbAlias tables)
    me.bestChoiceDB.dbAlias .srdiIndex time hread hformed
  have hfirst := cmSqlUpdateWithWhere_run me hdb (chainTable entries) [numberIs .timeOut time]
    (some (joined .or ((chainIds entries).map (textIs .advId)))) h₂
  have hsecond := cmSqlUpdateWithWhere_run me me.best_mem .srdiIndex [numberIs .timeOut time]
    (some (joined .or ((chainIds entries).map (textIs .advId)))) h₂
  have hboth : (dbs.set dbSpace.dbAlias tables).set me.bestChoiceDB.dbAlias tables' =
      dbs.timed time (chainTouches me group dbSpace.dbAlias entries) := by
    rw [hset', hset, timed_timed]
    · unfold chainTouches
      simp only [hholds, Bool.and_or_distrib_right]
    · intro a t row
      rw [hholds, hholds, Reached_timed]
  refine ⟨q.2, ?_, h₂⟩
  unfold updateIn
  rw [run_bind, hm₁, run_bind, hm₂]
  rw [run_bind, htable, hwords, hfirst]
  rw [hquery]
  dsimp only
  rw [run_bind, hsecond]
  rw [hquery', ← hboth]
  rfl

/-- What the chains of a list of databases touch; those of unknown databases touch nothing. -/
def chainsTouch (me : Manager) (group : List Byte) (chains : List (List Byte × List AdvEntry))
    (a : List Byte) (table : Table) (row : Row) : Bool :=
  chains.any fun chain => (cmDbSpaceByAliasGet me chain.1).isSome &&
    chainTouches me group chain.1 chain.2 a table row

theorem chainsTouch_timed (me : Manager) (group : List Byte)
    (chains : List (List Byte × List AdvEntry)) (a : List Byte) (table : Table) (time : Int)
    (row : Row) : chainsTouch me group chains a table (row.timed time) =
      chainsTouch me group chains a table row := by
  unfold chainsTouch chainTouches
  simp only [Reached_timed]

theorem timed_nothing (dbs : Databases) (time : Int) : (dbs.timed time fun _ _ _ => false) = dbs := by
  funext a table
  exact (map_congr_left fun row _ => rfl).trans (map_id _)

theorem updateDbs_run (me : Manager) (time : Int) (chains : List (List Byte × List AdvEntry))
    (hchains : ∀ chain ∈ chains, chain.2 ≠ []) (dbs : Databases)
    (h : m.InGroup me.jGroupIDstring group) :
    (updateDbs me [numberIs .timeOut time] chains dbs m).1 =
      (dbs.timed time (chainsTouch me group chains), .success) := by
  induction chains generalizing dbs m with
  | nil => exact congrArg (·, Status.success) (timed_nothing dbs time).symm
  | cons chain chains ih =>
    obtain ⟨dbAlias, entries⟩ := chain
    obtain ⟨hentries, hchains⟩ := forall_mem_cons.mp hchains
    have hcons : chainsTouch me group ((dbAlias, entries) :: chains) = fun a table row =>
        ((cmDbSpaceByAliasGet me dbAlias).isSome && chainTouches me group dbAlias entries a table row)
          || chainsTouch me group chains a table row := rfl
    unfold updateDbs
    cases hget : cmDbSpaceByAliasGet me dbAlias with
    | none =>
      rw [ih hchains dbs h, hcons, hget]
      simp only [Option.isSome_none, Bool.false_and, Bool.false_or]
    | some dbSpace =>
      have hdb : dbSpace ∈ me.dbSpaces := mem_of_find?_eq_some hget
      have hfound : me.dbSpaces.find? (fun d => dbAlias = d.dbAlias) = some dbSpace := hget
      have halias : dbAlias = dbSpace.dbAlias := by simpa using find?_some hfound
      obtain ⟨m', hrun, h'⟩ := updateIn_run me time hentries hdb dbs h
      dsimp only
      rw [run_bind, hrun]
      rw [if_pos rfl, ih hchains _ h', timed_timed _ _ _ _ fun a table row =>
        chainsTouch_timed me group chains a table time row, hcons, hget, halias]
      simp only [Option.isSome_some, Bool.true_and]

/-- The rows of the index for a peer whose first time-out sorts behind the time. -/
def indexRows (me : Manager) (group peerid : List Byte) (time : Int) (dbs : Databases) :
    List ResultRow :=
  ((dbs me.bestChoiceDB.dbAlias .srdiIndex).filter fun row =>
    row .peerid = peerid ∧ Decimal.ofInt time < row .originalTimeout ∧ row .groupID = group).map
      fun row => [row .dbAlias, row .advId, row .replica, row .timeOut]

/-- The chains that `cm_update_srdi_times` makes of the index. -/
def updateChains (keys : Listing (List Byte)) (values : Listing AdvEntry) (rows : List ResultRow) :
    List (List Byte × List AdvEntry) :=
  (keys.list (dbsHash rows)).map fun dbAlias => (dbAlias, values.list (advsHash dbAlias rows))

theorem advsHash_ne_nil {dbAlias : List Byte} {rows : List ResultRow} (h : dbAlias ∈ dbsHash rows) :
    advsHash dbAlias rows ≠ [] := by
  have hput (entry : AdvEntry) (hash : List AdvEntry) : putEntry entry hash ≠ [] := by
    unfold putEntry
    split
    next hmem => exact fun h => absurd (h ▸ hmem) not_mem_nil
    next => simp
  have hloop (rows : List ResultRow) (hash : List AdvEntry)
      (h : hash ≠ [] ∨ dbAlias ∈ rows.map (·.getD 0 [])) :
      rows.foldl (fun hash row => if row.getD 0 [] = dbAlias then
        putEntry ⟨row.getD 1 [], row.getD 2 [] = text "1"⟩ hash else hash) hash ≠ [] := by
    induction rows generalizing hash with
    | nil => exact h.resolve_right not_mem_nil
    | cons row rows ih =>
      rw [foldl_cons]
      apply ih
      rw [map_cons, mem_cons] at h
      split
      next => exact .inl (hput _ _)
      next hne => exact h.imp_right fun h => h.resolve_left (Ne.symm hne)
  exact hloop rows [] (.inr (mem_dedup.mp h))

theorem Memory.InGroup.writeAll (h : m.InGroup jId group) (ss : List Source) :
    (writeAll ss m).2.InGroup jId group := by
  induction ss generalizing m with
  | nil => exact h
  | cons s ss ih =>
    rw [writeAll_cons]
    apply ih
    cases s with
    | value v =>
      cases v with
      | none => exact h
      | some r => rw [write_value_some]; exact h.escape r
    | numeric v => exact h
    | printed i => exact h

/-- What `cm_update_srdi_times` leaves. -/
theorem cmUpdateSrdiTimes_run (keys : Listing (List Byte)) (values : Listing AdvEntry)
    (me : Manager) (jPeerid : Nat) (time : Int) (dbs : Databases)
    (hgroup : 39 ∉ strings me.jGroupIDstring) :
    (cmUpdateSrdiTimes keys values me jPeerid time dbs (.start strings)).1 =
      (dbs.timed time (chainsTouch me (strings me.jGroupIDstring) (updateChains keys values
        (indexRows me (strings me.jGroupIDstring) (strings jPeerid) time dbs))), .success) := by
  let cs : List (Column × Relation × Source) := [(.peerid, .equal, .value (some (.caller jPeerid))),
    (.originalTimeout, .greaterThan, .printed time)]
  let tested := cs ++ [groupEquals me.bestChoiceDB.jId]
  have hid : me.bestChoiceDB.jId = me.jGroupIDstring := me.shared _ me.best_mem
  have hstart : (Memory.start strings).InGroup me.jGroupIDstring (strings me.jGroupIDstring) :=
    ⟨rfl, hgroup⟩
  have hfaithful : ∀ l ∈ (writeAll (sources tested) (.start strings)).1, l.Faithful := by
    rw [writeAll_faithful_iff]
    refine ⟨?_, ?_, fun r hr => absurd hr not_mem_nil⟩
    · intro r hr
      have hcaller : r = .caller jPeerid ∨ r = .caller me.bestChoiceDB.jId := by
        simpa [tested, cs, sources, written, groupEquals] using hr
      obtain rfl | rfl := hcaller <;> rfl
    · intro r hr
      have hr' : r = .caller me.bestChoiceDB.jId := by
        by_contra hne
        have hcount : (written (sources tested)).count r ≤ 1 := by
          have hwritten : written (sources tested) =
              [.caller jPeerid, .caller me.bestChoiceDB.jId] := rfl
          rw [hwritten, count_cons, count_cons_of_ne (Ne.symm hne)]
          split <;> simp
        omega
      rw [hr', hid]
      exact hgroup
  have hselect := cmSqlSelect_joined me.bestChoiceDB .srdiIndex [.dbAlias, .advId, .replica, .timeOut]
    cs (.start strings)
  have hrows := select_compareAll (dbs me.bestChoiceDB.dbAlias) .srdiIndex
    [.dbAlias, .advId, .replica, .timeOut] hfaithful
  have htested (row : Row) : tested.all (Tested (.start strings) row) =
      decide (row .peerid = strings jPeerid ∧ Decimal.ofInt time < row .originalTimeout ∧
        row .groupID = strings me.jGroupIDstring) := by
    rw [Bool.eq_iff_iff, decide_eq_true_iff]
    simp [tested, cs, Tested, Source.meant, Value.bytes, groupEquals, hid]
  have hindex : ((dbs me.bestChoiceDB.dbAlias .srdiIndex).filter fun row =>
      tested.all (Tested (.start strings) row)).map (fun row =>
        [Column.dbAlias, .advId, .replica, .timeOut].map fun column => row column) =
          indexRows me (strings me.jGroupIDstring) (strings jPeerid) time dbs := by
    simp only [htested]
    rfl
  rw [hindex] at hrows
  have hmemory : (compareAll tested (.start strings)).2.InGroup me.jGroupIDstring
      (strings me.jGroupIDstring) := by
    rw [compareAll_snd]
    exact hstart.writeAll _
  have hchains : ∀ chain ∈ updateChains keys values (indexRows me (strings me.jGroupIDstring)
      (strings jPeerid) time dbs), chain.2 ≠ [] := by
    intro chain hchain
    obtain ⟨dbAlias, halias, rfl⟩ := mem_map.mp hchain
    have halias := (keys.perm _).mem_iff.mp halias
    have hperm := values.perm (advsHash dbAlias (indexRows me (strings me.jGroupIDstring)
      (strings jPeerid) time dbs))
    intro (hnil : values.list _ = [])
    rw [hnil] at hperm
    exact advsHash_ne_nil halias hperm.nil_eq.symm
  have hloop := updateDbs_run me time _ hchains dbs hmemory
  unfold cmUpdateSrdiTimes
  rw [run_bind, run_bind, hselect]
  rw [hrows]
  exact hloop

/-! ## advertisements -/

/-- The folders whose entries have a name space of their own. -/
def OwnSpace (folderName : List Byte) : Prop :=
  folderName = text "Peers" ∨ folderName = text "Groups"

instance (folderName : List Byte) : Decidable (OwnSpace folderName) :=
  inferInstanceAs (Decidable (_ ∨ _))

/-- The name space of such a folder. -/
def ownSpace (folderName : List Byte) : List Byte :=
  if folderName = text "Peers" then text "jxta:PA" else text "jxta:PGA"

/-- An unexpired row of the group. -/
def Live (group : List Byte) (now : Int) (row : Row) : Prop :=
  Decimal.ofInt now < row .timeOut ∧ row .groupID = group

instance (group : List Byte) (now : Int) (row : Row) : Decidable (Live group now row) :=
  inferInstanceAs (Decidable (_ ∧ _))

/-- The rows that `cm_restore_bytes` asks for. -/
def Asked (group folderName primaryKey : List Byte) (now : Int) (row : Row) : Prop :=
  if OwnSpace folderName then
    row .advId = primaryKey ∧ row .nameSpace = ownSpace folderName ∨
      row .nameSpace = folderName ∧ Live group now row
  else
    row .advId = primaryKey ∧ row .nameSpace ≠ text "jxta:PGA" ∧ row .nameSpace ≠ text "jxta:PA" ∧
      Live group now row

instance (group folderName primaryKey : List Byte) (now : Int) (row : Row) :
    Decidable (Asked group folderName primaryKey now row) := by
  unfold Asked
  exact inferInstance

/-- The words of the condition on the name space. -/
def spaceWords (folderName : List Byte) : Where :=
  if OwnSpace folderName then
    [.atom (textIs .nameSpace (ownSpace folderName)), .or, .atom (textIs .nameSpace folderName)]
  else
    [.atom ⟨.nameSpace, .notEqual, quoted (text "jxta:PGA")⟩, .and,
      .atom ⟨.nameSpace, .notEqual, quoted (text "jxta:PA")⟩]

theorem folderSpace_run (folderName : List Byte) {jFolder : Nat}
    (hfolder : m.jstring (.own jFolder) = .new folderName)
    (hpeer : m.jstring .jPeerNs = .new (text "jxta:PA"))
    (hgroups : m.jstring .jGroupNs = .new (text "jxta:PGA")) (h : m.InGroup jId group) :
    (folderSpace folderName (.own jFolder) m).1 = spaceWords folderName ∧
      (folderSpace folderName (.own jFolder) m).2.InGroup jId group := by
  have hlater (cs : List (Column × Relation × Source)) : (compareAll cs m).2.InGroup jId group := by
    rw [compareAll_snd]
    exact h.writeAll _
  unfold folderSpace spaceWords ownSpace
  by_cases hown : OwnSpace folderName
  · have hfolders : folderName = text "Peers" ∨ folderName = text "Groups" := hown
    rw [if_pos hfolders, if_pos hown]
    let own := if folderName = text "Peers" then Ref.jPeerNs else .jGroupNs
    have hspace : m.jstring own = .new (if folderName = text "Peers" then text "jxta:PA"
        else text "jxta:PGA") := by
      dsimp only [own]
      split
      next => exact hpeer
      next => exact hgroups
    have hother : Ref.own jFolder ≠ own := by
      dsimp only [own]
      split <;> simp
    have hfolder' : (m.escape own).jstring (.own jFolder) = .new folderName := by
      rw [Memory.escape_jstring, if_neg hother, hfolder]
    have hrun : (compareAll [(.nameSpace, .equal, .value (some own)),
        (.nameSpace, .equal, .value (some (.own jFolder)))] m).1 =
          [textIs .nameSpace (if folderName = text "Peers" then text "jxta:PA" else text "jxta:PGA"),
            textIs .nameSpace folderName] := by
      rw [compareAll_cons_intact (by rw [hspace]; rfl), hspace,
        compareAll_intact (by rw [hfolder']; rfl), hfolder']
      rfl
    rw [run_bind, run_pure]
    refine ⟨?_, hlater _⟩
    exact congrArg (joined .or) hrun
  · have hfolders : ¬ (folderName = text "Peers" ∨ folderName = text "Groups") := hown
    rw [if_neg hfolders, if_neg hown]
    have hpeer' : (m.escape .jGroupNs).jstring .jPeerNs = .new (text "jxta:PA") := by
      rw [Memory.escape_jstring, if_neg (by simp), hpeer]
    have hrun : (compareAll [(.nameSpace, .notEqual, .value (some .jGroupNs)),
        (.nameSpace, .notEqual, .value (some .jPeerNs))] m).1 =
          [⟨.nameSpace, .notEqual, quoted (text "jxta:PGA")⟩,
            ⟨.nameSpace, .notEqual, quoted (text "jxta:PA")⟩] := by
      rw [compareAll_cons_intact (by rw [hgroups]; rfl), hgroups,
        compareAll_cons_intact (by rw [hpeer']; rfl), hpeer']
      rfl
    rw [run_bind, run_pure]
    refine ⟨?_, hlater _⟩
    exact congrArg (joined .and) hrun

/-- The condition of `cm_restore_bytes`, behind which the SELECT puts the group. -/
def restoreWords (folderName primaryKey : List Byte) (now : Int) : Where :=
  .atom (textIs .advId primaryKey) :: .and :: spaceWords folderName ++
    [.and, .atom ⟨.timeOut, .greaterThan, printed now⟩]

theorem restoreWords_condition (group folderName primaryKey : List Byte) (now : Int) :
    let condition := restoreWords folderName primaryKey now ++ [.and, .atom (textIs .groupID group)]
    isCondition condition = true ∧ (∀ c ∈ atoms condition, c.literal.read.isSome = true) ∧
      ∀ row, holds (Comparison.holds row) condition = true ↔
        Asked group folderName primaryKey now row := by
  intro condition
  have hquoted (column : Column) (relation : Relation) (s : List Byte) :
      (⟨column, relation, quoted s⟩ : Comparison).literal.read.isSome = true :=
    congrArg Option.isSome (read_quoted s)
  have htime : (⟨.timeOut, .greaterThan, printed now⟩ : Comparison).literal.read.isSome = true :=
    congrArg Option.isSome (read_printed now)
  have hnot (row : Row) (s : List Byte) :
      Comparison.holds row ⟨.nameSpace, .notEqual, quoted s⟩ = true ↔ row .nameSpace ≠ s := by
    simp [Comparison.holds]
  have hlater (row : Row) : Comparison.holds row ⟨.timeOut, .greaterThan, printed now⟩ = true ↔
      Decimal.ofInt now < row .timeOut := by
    simp [Comparison.holds]
  dsimp only [condition, restoreWords]
  unfold spaceWords Asked Live
  by_cases hown : OwnSpace folderName
  · rw [if_pos hown]
    refine ⟨rfl, ?_, ?_⟩
    · simp only [cons_append, nil_append, atoms, forall_mem_cons]
      exact ⟨hquoted .advId .equal _, hquoted .nameSpace .equal _, hquoted .nameSpace .equal _, htime,
        hquoted .groupID .equal _, fun c hc => absurd hc not_mem_nil⟩
    · intro row
      rw [if_pos hown]
      simp [holds, holdsFrom, hlater]
      tauto
  · rw [if_neg hown]
    refine ⟨rfl, ?_, ?_⟩
    · simp only [cons_append, nil_append, atoms, forall_mem_cons]
      exact ⟨hquoted .advId .equal _, hquoted .nameSpace .notEqual _,
        hquoted .nameSpace .notEqual _, htime, hquoted .groupID .equal _,
        fun c hc => absurd hc not_mem_nil⟩
    · intro row
      rw [if_neg hown]
      simp [holds, holdsFrom, hlater, hnot]
      tauto

/-- The loop over the databases ends at the first row that is asked for. -/
theorem restoreFrom_run (me : Manager) (dbs : Databases) (folderName primaryKey : List Byte)
    (now : Int) {dbSpaces : List DBSpace} (hdbs : ∀ d ∈ dbSpaces, d ∈ me.dbSpaces)
    (h : m.InGroup me.jGroupIDstring group) :
    (restoreFrom dbs (restoreWords folderName primaryKey now) dbSpaces m).1 =
      ((dbSpaces.flatMap fun d => dbs d.dbAlias .advertisements).find? fun row =>
        Asked group folderName primaryKey now row).map fun row => row .advert := by
  obtain ⟨hformed, hread, hholds⟩ := restoreWords_condition group folderName primaryKey now
  induction dbSpaces with
  | nil => rfl
  | cons dbSpace dbSpaces ih =>
    obtain ⟨hdb, hdbs⟩ := forall_mem_cons.mp hdbs
    have hgroup := groupEquals_run h
    rw [← me.shared dbSpace hdb] at hgroup
    have hselect : cmSqlSelect dbSpace .advertisements [.advert]
        (restoreWords folderName primaryKey now) true m = (.select .advertisements [.advert]
          (restoreWords folderName primaryKey now ++ [.and, .atom (textIs .groupID group)]) none,
            m) := by
      have hne : restoreWords folderName primaryKey now ≠ [] := cons_ne_nil _ _
      simp only [cmSqlSelect, if_true, run_bind, hgroup, hne, if_false]
      rfl
    have haccepted : (Statement.select .advertisements [.advert]
        (restoreWords folderName primaryKey now ++ [.and, .atom (textIs .groupID group)])
          none).Accepted := ⟨forall_mem_map.mpr hread, .inr hformed⟩
    have hrows : (dbs dbSpace.dbAlias).engine.select (.select .advertisements [.advert]
        (restoreWords folderName primaryKey now ++ [.and, .atom (textIs .groupID group)]) none) =
          some (((dbs dbSpace.dbAlias .advertisements).filter fun row =>
            Asked group folderName primaryKey now row).map fun row => [row .advert]) := by
      refine (if_pos haccepted).trans (congrArg some ?_)
      have hsame (row : Row) : holds (Comparison.holds row) (restoreWords folderName primaryKey now ++
          [.and, .atom (textIs .groupID group)]) =
            decide (Asked group folderName primaryKey now row) := by
        rw [Bool.eq_iff_iff, decide_eq_true_iff]
        exact hholds row
      simp only [grouped, Where.rows, hsame, map_cons, map_nil]
    unfold restoreFrom
    rw [run_bind, hselect]
    rw [hrows, flatMap_cons, find?_append, ← head?_filter]
    cases (dbs dbSpace.dbAlias .advertisements).filter fun row =>
        Asked group folderName primaryKey now row with
    | nil => exact ih hdbs
    | cons row rows => rfl

/-- What `cm_restore_bytes` returns. -/
theorem cmRestoreBytes_run (self : Manager) (folderName primaryKey : List Byte) (now : Int)
    (dbs : Databases) (hgroup : 39 ∉ strings self.jGroupIDstring) :
    (cmRestoreBytes self folderName primaryKey now dbs (.start strings)).1 =
      ((self.dbSpaces.flatMap fun d => dbs d.dbAlias .advertisements).find? fun row =>
        Asked (strings self.jGroupIDstring) folderName primaryKey now row).map fun row =>
          row .advert := by
  have hstart : (Memory.start strings).InGroup self.jGroupIDstring
      (strings self.jGroupIDstring) := ⟨rfl, hgroup⟩
  let m := ((Memory.start strings).add (.new primaryKey)).add (.new folderName)
  have hkey : m.jstring (.own 0) = .new primaryKey := by simp [m]
  have hm : (m.escape (.own 0)).InGroup self.jGroupIDstring (strings self.jGroupIDstring) :=
    ((hstart.add _).add _).escape _
  have hother {r : Ref} (hr : r ≠ .own 0) : (m.escape (.own 0)).jstring r = m.jstring r := by
    rw [Memory.escape_jstring, if_neg hr]
  have hadvId : compareAll [(.advId, .equal, .value (some (.own 0)))] m =
      ([textIs .advId primaryKey], m.escape (.own 0)) := by
    rw [compareAll_intact (by rw [hkey]; rfl), hkey]
    rfl
  have hspace : (folderSpace folderName (.own 1) (m.escape (.own 0))).1 = spaceWords folderName ∧
      (folderSpace folderName (.own 1) (m.escape (.own 0))).2.InGroup self.jGroupIDstring
        (strings self.jGroupIDstring) :=
    folderSpace_run folderName ((hother (by simp)).trans (by simp [m]))
      ((hother (by simp)).trans rfl) ((hother (by simp)).trans rfl) hm
  have hrun : cmRestoreBytes self folderName primaryKey now dbs (.start strings) =
      restoreFrom dbs (joined .and (compareAll [(.advId, .equal, .value (some (.own 0)))] m).1 ++
        .and :: (folderSpace folderName (.own 1) (compareAll
          [(.advId, .equal, .value (some (.own 0)))] m).2).1 ++
            [.and, .atom ⟨.timeOut, .greaterThan, printed now⟩]) self.dbSpaces
        (folderSpace folderName (.own 1) (compareAll
          [(.advId, .equal, .value (some (.own 0)))] m).2).2 := rfl
  rw [hrun, hadvId]
  rw [hspace.1]
  exact restoreFrom_run self dbs folderName primaryKey now (fun d hd => hd) hspace.2

/-! ## own rows -/

/-- A call of a function that is to touch only the rows of its group. -/
inductive Access where
  | removeDeltas (jPeerid : Nat) (entries : List SRDIEntryElement)
  | updateTimes (keys : Listing (List Byte)) (values : Listing AdvEntry) (jPeerid : Nat)
      (time : Int)
  | restoreBytes (folderName primaryKey : List Byte) (now : Int)

/-- The rows of the SRDI tables and the index for a group and a peer. -/
def ownTimes (me : Manager) (group peerid a : List Byte) (table : Table) (row : Row) : Bool :=
  a ∈ me.dbSpaces.map DBSpace.dbAlias && table ∈ [Table.srdi, .replica, .srdiIndex] &&
    decide (Mine group peerid row)

/-- An unexpired advertisement of the group that has the key and fits the folder. -/
def Fits (group folderName primaryKey : List Byte) (now : Int) (row : Row) : Prop :=
  row .advId = primaryKey ∧ Live group now row ∧
    if OwnSpace folderName then
      row .nameSpace = ownSpace folderName ∨ row .nameSpace = folderName
    else row .nameSpace ≠ text "jxta:PGA" ∧ row .nameSpace ≠ text "jxta:PA"

/-- The rows of the advertisements, one database behind the other. -/
def Manager.advertisements (me : Manager) (dbs : Databases) : List Row :=
  me.dbSpaces.flatMap fun d => dbs d.dbAlias .advertisements

/-- The call touches its own rows, all of them, and no others. -/
def Access.Own (me : Manager) (dbs : Databases) (strings : Nat → List Byte) : Access → Prop
  | removeDeltas jPeerid entries =>
    (cmRemoveSrdiDeltaEntries me (some jPeerid) (some entries) dbs (.start strings)).1 =
      dbs.set me.bestChoiceDB.dbAlias ((dbs me.bestChoiceDB.dbAlias).set .srdiDelta
        ((dbs me.bestChoiceDB.dbAlias .srdiDelta).filter fun row =>
          !decide (Mine (strings me.jGroupIDstring) (strings jPeerid) row ∧ Listed entries row)))
  | updateTimes keys values jPeerid time =>
    (cmUpdateSrdiTimes keys values me jPeerid time dbs (.start strings)).1 =
      (dbs.timed time (ownTimes me (strings me.jGroupIDstring) (strings jPeerid)), .success)
  | restoreBytes folderName primaryKey now =>
    ∀ bytes ∈ (cmRestoreBytes me folderName primaryKey now dbs (.start strings)).1,
      ∃ row ∈ me.advertisements dbs,
        Fits (strings me.jGroupIDstring) folderName primaryKey now row ∧ row .advert = bytes

/-- The rows that the words of the call let out of the group, the peer or the id, if there are any,
do not matter: rows with a later number of the list are the peer's own, and without a number there
is no row of the peer; the chains of ids reach the rows of the peer and no others that do not have
the time already; and the first row for a folder with a name space of its own holds the text of one
that fits. -/
def Access.Confined (me : Manager) (dbs : Databases) (strings : Nat → List Byte) : Access → Prop
  | removeDeltas jPeerid entries =>
    ∀ row ∈ dbs me.bestChoiceDB.dbAlias .srdiDelta,
      match entries with
      | [] => ¬ Mine (strings me.jGroupIDstring) (strings jPeerid) row
      | _ :: entries =>
        Listed entries row → Mine (strings me.jGroupIDstring) (strings jPeerid) row
  | updateTimes keys values jPeerid time =>
    ∀ a table, ∀ row ∈ dbs a table, row .timeOut ≠ Decimal.ofInt time →
      chainsTouch me (strings me.jGroupIDstring) (updateChains keys values
        (indexRows me (strings me.jGroupIDstring) (strings jPeerid) time dbs)) a table row =
          ownTimes me (strings me.jGroupIDstring) (strings jPeerid) a table row
  | restoreBytes folderName primaryKey now =>
    OwnSpace folderName → ∀ row ∈ (me.advertisements dbs).find? fun row =>
        row .advId = primaryKey ∧ row .nameSpace = ownSpace folderName ∨
          row .nameSpace = folderName ∧ Live (strings me.jGroupIDstring) now row,
      ∃ row' ∈ me.advertisements dbs,
        Fits (strings me.jGroupIDstring) folderName primaryKey now row' ∧
          row' .advert = row .advert

theorem filter_eq_filter_iff {α : Type} {p q : α → Bool} {l : List α} :
    l.filter p = l.filter q ↔ ∀ a ∈ l, p a = q a := by
  constructor
  · intro h a ha
    have hmem : a ∈ l.filter p ↔ a ∈ l.filter q := by rw [h]
    rw [mem_filter, mem_filter, and_iff_right ha, and_iff_right ha] at hmem
    exact Bool.eq_iff_iff.mpr hmem
  · exact filter_congr

theorem databases_set_inj {dbs : Databases} {dbAlias : List Byte} {table : Table}
    {rows rows' : List Row} :
    dbs.set dbAlias ((dbs dbAlias).set table rows) =
      dbs.set dbAlias ((dbs dbAlias).set table rows') ↔ rows = rows' := by
  constructor
  · intro h
    have := congrFun (congrFun h dbAlias) table
    simpa [Databases.set, Tables.set] using this
  · intro h
    rw [h]

theorem removed_iff (group peerid : List Byte) (entries : List SRDIEntryElement) (row : Row) :
    ((!decide (Removed group peerid entries row)) =
        !decide (Mine group peerid row ∧ Listed entries row)) ↔
      match entries with
      | [] => ¬ Mine group peerid row
      | _ :: entries => Listed entries row → Mine group peerid row := by
  rw [Bool.not_inj_iff, decide_eq_decide]
  unfold Removed
  cases entries with
  | nil => simp [Listed]
  | cons entry entries =>
    have hlisted : Listed (entry :: entries) row ↔
        row .seqNumber = Decimal.ofInt entry.seqNumber ∨ Listed entries row := by
      simp [Listed]
    rw [hlisted]
    tauto

/-- When the calls touch their own rows only. -/
theorem own_rows_iff (me : Manager) (dbs : Databases) (strings : Nat → List Byte)
    (hgroup : 39 ∉ strings me.jGroupIDstring) (access : Access) :
    access.Own me dbs strings ↔ access.Confined me dbs strings := by
  cases access with
  | removeDeltas jPeerid entries =>
    unfold Access.Own Access.Confined
    dsimp only
    rw [cmRemoveSrdiDeltaEntries_run me jPeerid entries dbs hgroup, databases_set_inj,
      filter_eq_filter_iff]
    exact forall₂_congr fun row _ => removed_iff _ _ entries row
  | updateTimes keys values jPeerid time =>
    unfold Access.Own Access.Confined
    dsimp only
    rw [cmUpdateSrdiTimes_run keys values me jPeerid time dbs hgroup, Prod.mk.injEq,
      and_iff_left rfl]
    exact timed_eq_timed_iff dbs time _ _
  | restoreBytes folderName primaryKey now =>
    unfold Access.Own Access.Confined
    dsimp only
    rw [cmRestoreBytes_run me folderName primaryKey now dbs hgroup]
    by_cases hown : OwnSpace folderName
    · rw [forall_prop_of_true hown]
      simp only [Asked, hown, if_true, Option.mem_def, Option.map_eq_some_iff]
      constructor
      · intro h row hrow
        exact h (row .advert) ⟨row, hrow, rfl⟩
      · rintro h bytes ⟨row, hrow, rfl⟩
        exact h row hrow
    · rw [forall_prop_of_false hown, iff_true]
      intro bytes hbytes
      obtain ⟨row, hrow, rfl⟩ := Option.map_eq_some_iff.mp hbytes
      have hasked : Asked (strings me.jGroupIDstring) folderName primaryKey now row :=
        of_decide_eq_true (find?_some (p := fun row => decide (Asked _ _ _ _ row)) hrow)
      refine ⟨row, mem_of_find?_eq_some hrow, ?_, rfl⟩
      unfold Asked at hasked
      rw [if_neg hown] at hasked
      unfold Fits
      rw [if_neg hown]
      tauto

/-- The strings of a peer in the net group. -/
def netGroupStrings (i : Nat) : List Byte :=
  if i = 0 then text "urn:jxta:jxta-NetGroup" else text "urn:jxta:uuid-5903"

/-- A manager with one database. -/
def localManager : Manager :=
  let dbSpace : DBSpace := ⟨text "urn:jxta:jxta-NetGroup", text "cm", 0⟩
  ⟨⟨0, dbSpace, 0⟩, [dbSpace], mem_singleton_self _, fun _ hd =>
    congrArg DBSpace.jId (mem_singleton.mp hd)⟩

theorem own_rows_iff_local :
    (Access.removeDeltas 1 [⟨none, none, none, none, none, 0, 7⟩]).Own localManager
        (fun _ _ => []) netGroupStrings ↔
      (Access.removeDeltas 1 [⟨none, none, none, none, none, 0, 7⟩]).Confined localManager
        (fun _ _ => []) netGroupStrings :=
  own_rows_iff localManager _ netGroupStrings (by decide +kernel) _

/-- The removal of the deltas 5 and 7 of one peer takes the delta 7 of another one. -/
theorem not_own_rows :
    ¬ ∀ (me : Manager) (dbs : Databases) (strings : Nat → List Byte) (access : Access),
      39 ∉ strings me.jGroupIDstring → access.Own me dbs strings := by
  intro h
  let row : Row := fun column =>
    if column = .groupID then text "urn:jxta:jxta-NetGroup"
    else if column = .peerid then text "urn:jxta:uuid-1138"
    else if column = .seqNumber then text "7" else []
  let element (n : Nat) : SRDIEntryElement := ⟨none, none, none, none, none, 0, n⟩
  let dbs : Databases := fun _ table => if table = .srdiDelta then [row] else []
  have hgroup : 39 ∉ netGroupStrings localManager.jGroupIDstring := by decide +kernel
  have hown := h localManager dbs netGroupStrings (.removeDeltas 1 [element 5, element 7]) hgroup
  unfold Access.Own at hown
  dsimp only at hown
  rw [cmRemoveSrdiDeltaEntries_run localManager 1 [element 5, element 7] dbs hgroup,
    databases_set_inj, filter_eq_filter_iff] at hown
  exact absurd (hown row (mem_singleton_self row)) (by decide +kernel)

end JxtaC.Cm
