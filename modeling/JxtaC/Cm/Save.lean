import JxtaC.Cm.Sql

/-
  The functions of jxta_cm.c that save and search entries: `cm_item_insert`,
  `cm_srdi_element_save`, `cm_srdi_index_save`, `cm_save_delta_entry` and `cm_search`, with the
  lookups and updates they call. Each sends its statements to an `Engine`, which is the database as
  one call sees it. Of the status only success, failure and an entry not found are kept.
-/

namespace JxtaC.Cm

open Lib Lib.Sql

/-- The values of the columns that a SELECT asks for. -/
abbrev ResultRow := List (List Byte)

/-- `apr_dbd_select`, which may fail, and `apr_dbd_query`, which succeeds or not. -/
structure Engine where
  select : Statement → Option (List ResultRow)
  query : Statement → Bool

/-- The status of a query. -/
def Engine.status (E : Engine) (s : Statement) : Status := if E.query s then .success else .failed

/-- `Jxta_SRDIEntryElement`: its strings are the caller's, and two fields may share one. -/
structure SRDIEntryElement where
  nameSpace : Option Nat
  advId : Option Nat
  key : Option Nat
  value : Option Nat
  range : Option Nat
  expiration : Int
  seqNumber : Nat
  deriving Repr, DecidableEq

/-- `Jxta_cm`: of the group string, the best database and the number of the last delta. -/
structure Jxtacm where
  jGroupIDstring : Nat
  bestChoiceDB : DBSpace
  deltaSeqNumber : Nat
  deriving Repr, DecidableEq

/-- The `JString *` of a caller. -/
def ofCaller (s : Option Nat) : Option Ref := s.map .caller

/-- `JPR_INTERVAL_TIME_MAX`. -/
def intervalTimeMax : Int := 2 ^ 63 - 1

/-- `JPR_INTERVAL_TIME_MIN`. -/
def intervalTimeMin : Int := -2 ^ 63

/-- `lifetime_get`. -/
def lifetimeGet (base span : Int) : Int :=
  if span = intervalTimeMax then intervalTimeMax
  else if span = intervalTimeMin then intervalTimeMin
  else
    let lifetime := (base + span).bmod (2 ^ 64)
    if 0 < span then
      if lifetime < base then intervalTimeMax else lifetime
    else if base < lifetime then 0
    else lifetime

/-- `cm_sql_append_timeout_check_greater`. -/
def timeoutCheckGreater (now : Int) : Column × Relation × Source :=
  (.timeOut, .greaterThan, .printed now)

/-! ## entries of advertisements -/

/-- The SELECT of `cm_item_found`, without the expiration for others. -/
def cmItemFoundSelect (dbSpace : DBSpace) (table : Table) (nameSpace advId : List Byte)
    (elemAttr : Option (List Byte)) : Build Statement := do
  let jNameSpace ← jstringNew2 nameSpace
  let jAdvId ← jstringNew2 advId
  let jElemAttr ← jstringNew2OrNull elemAttr
  let condition ← compareAll ((.nameSpace, .equal, .value (some jNameSpace)) ::
    (.advId, .equal, .value (some jAdvId)) ::
      (jElemAttr.map fun r => (.name, .equal, .value (some r))).toList)
  cmSqlSelect dbSpace table [.timeOut] (joined .and condition) true

/-- The loop of `cm_item_found` over the rows: the status, and the time that the last one has
left. -/
def timeLeft (now : Int) (rows : Option (List ResultRow)) : Status × Int :=
  match rows with
  | none => (.failed, 0)
  | some rows =>
    match rows.getLast? with
    | none => (.itemNotfound, 0)
    | some row =>
      let expTemp := Decimal.read (row.headD [])
      (.success, if expTemp < now then 0 else expTemp - now)

/-- `cm_item_found`. -/
def cmItemFound (E : Engine) (dbSpace : DBSpace) (table : Table) (nameSpace advId : List Byte)
    (elemAttr : Option (List Byte)) (now : Int) : Build (Statement × Status × Int) := do
  let select ← cmItemFoundSelect dbSpace table nameSpace advId elemAttr
  return (select, timeLeft now (E.select select))

/-- `cm_item_update`. -/
def cmItemUpdate (dbSpace : DBSpace) (table : Table) (jNameSpace jKey jElemAttr jVal : Ref)
    (jRange : Option Ref) (timeOutForMe now : Int) : Build Statement := do
  let columns ← compareAll [(.value, .equal, .value (some jVal)),
    (.numValue, .equal, .numeric (some jVal)), (.numRange, .equal, .value jRange),
    (.timeOut, .equal, .printed (lifetimeGet now timeOutForMe))]
  let condition ← compareAll [(.advId, .equal, .value (some jKey)),
    (.nameSpace, .equal, .value (some jNameSpace)), (.name, .equal, .value (some jElemAttr)),
    groupEquals dbSpace.jId]
  return .update table columns (joined .and condition)

/-- `cm_item_insert`. -/
def cmItemInsert (E : Engine) (dbSpace : DBSpace) (table : Table)
    (nameSpace key elemAttr val : List Byte) (range : Option (List Byte))
    (timeOutForMe timeOutForOthers now : Int) : Build (List Statement × Status) := do
  let jKey ← jstringNew2 key
  let jNameSpace ← jstringNew2 nameSpace
  let jElemAttr ← jstringNew2 elemAttr
  let jVal ← jstringNew2 val
  let jRange ← jstringNew2OrNull range
  let jGroupID ← jstringNew2 dbSpace.id
  let (select, status, left) ← cmItemFound E dbSpace table nameSpace key (some elemAttr) now
  match status with
  | .success =>
    let expTime := if left < timeOutForMe then timeOutForMe else left
    let update ← cmItemUpdate dbSpace table jNameSpace jKey jElemAttr jVal jRange expTime now
    return ([select, update], E.status update)
  | .itemNotfound =>
    let values ← writeAll [.value (some jNameSpace), .value (some jKey), .value (some jElemAttr),
      .value (some jVal), .numeric (some jVal), .value jRange,
      .printed (lifetimeGet now timeOutForMe), .printed timeOutForOthers, .value (some jGroupID)]
    return ([select, .insert table values], E.status (.insert table values))
  | status => return ([select], status)

/-! ## SRDI entries -/

/-- The SELECT of `cm_srdi_item_found`. -/
def cmSrdiItemFoundSelect (dbSpace : DBSpace) (table : Table)
    (nameSpace handler peerid key attr : Ref) (now : Int) : Build Statement := do
  let jNameSpace ← jstringClone nameSpace
  let jHandler ← jstringClone handler
  let jPeerid ← jstringClone peerid
  let jAdvId ← jstringClone key
  let jElemAttr ← jstringClone attr
  let condition ← compareAll [(.nameSpace, .equal, .value (some jNameSpace)),
    (.handler, .equal, .value (some jHandler)), (.peerid, .equal, .value (some jPeerid)),
    (.advId, .equal, .value (some jAdvId)), (.name, .equal, .value (some jElemAttr)),
    timeoutCheckGreater now]
  cmSqlSelect dbSpace table [.advId] (joined .and condition) true

/-- The loop of `cm_srdi_item_found` over the rows. -/
def lookupStatus (rows : Option (List ResultRow)) : Status :=
  match rows with
  | none => .failed
  | some [] => .itemNotfound
  | some (_ :: _) => .success

/-- `cm_srdi_item_found`: the SELECT, and the status. -/
def cmSrdiItemFound (E : Engine) (dbSpace : DBSpace) (table : Table)
    (nameSpace handler peerid key attr : Ref) (now : Int) : Build (Statement × Status) := do
  let select ← cmSrdiItemFoundSelect dbSpace table nameSpace handler peerid key attr now
  return (select, lookupStatus (E.select select))

/-- `cm_srdi_item_update`. -/
def cmSrdiItemUpdate (dbSpace : DBSpace) (table : Table) (jHandler jPeerid jKey jAttribute : Ref)
    (jValue : Ref) (jRange : Option Ref) (timeOutForMe now : Int) : Build Statement := do
  let columns ← compareAll [(.timeOut, .equal, .printed (lifetimeGet now timeOutForMe)),
    (.value, .equal, .value (some jValue)), (.numValue, .equal, .numeric (some jValue)),
    (.numRange, .equal, .value jRange)]
  let condition ← compareAll [(.advId, .equal, .value (some jKey)),
    (.handler, .equal, .value (some jHandler)), (.name, .equal, .value (some jAttribute)),
    (.peerid, .equal, .value (some jPeerid)), groupEquals dbSpace.jId]
  return .update table columns (joined .and condition)

/-- A clone of the string, or a new one where there is none. -/
def cloneOr (s : Option Nat) (otherwise : List Byte) : Build Ref :=
  match s with
  | some n => jstringClone (.caller n)
  | none => jstringNew2 otherwise

/-- A clone of the string, or NULL where there is none. -/
def cloneOrNull (s : Option Nat) : Build (Option Ref) :=
  match s with
  | some n => do return some (← jstringClone (.caller n))
  | none => pure none

/-- The name space under which an entry is saved. -/
def savedNameSpace (nameSpace : Option Nat) : Build Ref := fun m =>
  match nameSpace with
  | none => jstringNew2 (text "jxta:ADV") m
  | some n =>
    if (m.jstring (.caller n)).chars = text "Peers" then jstringNew2 (text "jxta:PA") m
    else if (m.jstring (.caller n)).chars = text "Groups" then jstringNew2 (text "jxta:PGA") m
    else jstringClone (.caller n) m

/-- The strings of `cm_srdi_element_save`. -/
structure SrdiStrings where
  jNameSpace : Ref
  jHandler : Ref
  jPeerid : Ref
  jAdvid : Ref
  jAttribute : Ref
  jValue : Ref
  jRange : Option Ref
  jGroupID : Ref
  deriving Repr, DecidableEq

/-- The advertisement id under which an entry is saved: without one, its value. -/
def savedAdvId (advId : Option Nat) (jValue : Ref) : Build Ref :=
  match advId with
  | some advId => jstringClone (.caller advId)
  | none => jstringClone jValue

/-- The strings of `cm_srdi_element_save` that name an entry, and its group. -/
def srdiNames (dbSpace : DBSpace) (handler peerid : Option Nat) (entry : SRDIEntryElement)
    (jAttribute jValue : Ref) (jRange : Option Ref) : Build SrdiStrings := do
  let jHandler ← cloneOr handler (text "NoHandler")
  let jPeerid ← cloneOr peerid (text "NoPeerid")
  let jNameSpace ← savedNameSpace entry.nameSpace
  let jAdvid ← savedAdvId entry.advId jValue
  let jGroupID ← jstringNew2 dbSpace.id
  return ⟨jNameSpace, jHandler, jPeerid, jAdvid, jAttribute, jValue, jRange, jGroupID⟩

/-- How `cm_srdi_element_save` makes its strings, from an entry with a key. -/
def srdiStrings (dbSpace : DBSpace) (handler peerid : Option Nat) (entry : SRDIEntryElement)
    (key : Nat) : Build SrdiStrings := do
  let jAttribute ← jstringClone (.caller key)
  let jValue ← cloneOr entry.value []
  let jRange ← cloneOrNull entry.range
  srdiNames dbSpace handler peerid entry jAttribute jValue jRange

/-- The VALUES of `cm_srdi_element_save`. -/
def srdiValues (v : SrdiStrings) (expiration now : Int) : List Source :=
  [.value (some v.jNameSpace), .value (some v.jHandler), .value (some v.jPeerid),
    .value (some v.jAdvid), .value (some v.jAttribute), .value (some v.jValue),
    .numeric (some v.jValue), .value v.jRange, .printed (lifetimeGet now expiration),
    .printed (lifetimeGet now expiration), .printed expiration, .value (some v.jGroupID)]

/-- `cm_srdi_element_save` behind its strings. -/
def cmSrdiElementSaveStrings (E : Engine) (dbSpace : DBSpace) (v : SrdiStrings) (expiration : Int)
    (replica : Bool) (now : Int) : Build (List Statement × Status) := do
  let values ← writeAll (srdiValues v expiration now)
  let table := if replica then Table.replica else .srdi
  let (select, status) ← cmSrdiItemFound E dbSpace table v.jNameSpace v.jHandler v.jPeerid v.jAdvid
    v.jAttribute now
  match status with
  | .success =>
    let update ← cmSrdiItemUpdate dbSpace table v.jHandler v.jPeerid v.jAdvid v.jAttribute v.jValue
      v.jRange expiration now
    return ([select, update], E.status update)
  | .itemNotfound =>
    let insert := Statement.insert table values
    return ([select, insert], if E.query insert then .itemNotfound else .failed)
  | status => return ([select], status)

/-- `cm_srdi_element_save`, which reads the key of the entry without a look whether it is there. -/
def cmSrdiElementSave (E : Engine) (dbSpace : DBSpace) (handler peerid : Option Nat)
    (entry : SRDIEntryElement) (replica : Bool) (now : Int) :
    Build (List Statement × Exec Status) := do
  match entry.key with
  | none => return ([], .error .nullPointer)
  | some key =>
    let v ← srdiStrings dbSpace handler peerid entry key
    let (statements, status) ← cmSrdiElementSaveStrings E dbSpace v entry.expiration replica now
    return (statements, .ok status)

/-- `cm_srdi_index_save`: it succeeds whatever the database answers. -/
def cmSrdiIndexSave (me : Jxtacm) (dbAlias : List Byte) (jPeerid : Option Nat)
    (entry : SRDIEntryElement) (bReplica : Bool) (now : Int) :
    Build (List Statement × Status) := do
  let jAlias ← jstringNew2 dbAlias
  let lifetime := lifetimeGet now entry.expiration
  let values ← writeAll [.value (some jAlias), .value (ofCaller entry.nameSpace),
    .value (ofCaller jPeerid), .value (some (.caller me.jGroupIDstring)),
    .value (ofCaller entry.advId), .value (ofCaller entry.key), .printed entry.seqNumber,
    .printed lifetime, .printed lifetime, .printed (if bReplica then 1 else 0)]
  return ([.insert .srdiIndex values], .success)

/-! ## deltas -/

/-- `cm_sql_create_delta_where_clause`. -/
def cmSqlCreateDeltaWhereClause (jGroupId : Nat) (jPeerid jHandler : Option Nat)
    (entry : SRDIEntryElement) : Build (List Comparison) :=
  compareAll [(.handler, .equal, .value (ofCaller jHandler)),
    (.peerid, .equal, .value (ofCaller jPeerid)), (.advId, .equal, .value (ofCaller entry.advId)),
    (.name, .equal, .value (ofCaller entry.key)), (.value, .equal, .value (ofCaller entry.value)),
    groupEquals jGroupId]

/-- `cm_delta_entry_create`: without a handler or a peer the row is short of a value. -/
def cmDeltaEntryCreate (jGroupID : Nat) (jPeerid jHandler : Option Nat)
    (entry : SRDIEntryElement) (seqNumber : Nat) (now : Int) : Build (List Literal) :=
  writeAll ([.value (ofCaller entry.nameSpace)] ++
    (jHandler.map fun h => Source.value (some (.caller h))).toList ++
    (jPeerid.map fun p => Source.value (some (.caller p))).toList ++
    [.value (ofCaller entry.advId), .value (ofCaller entry.key), .value (ofCaller entry.value),
      .value (ofCaller entry.range), .printed (lifetimeGet now entry.expiration),
      .printed entry.expiration, .value (some (.caller jGroupID)), .printed seqNumber])

/-- `cm_delta_entry_update`. -/
def cmDeltaEntryUpdate (entry : SRDIEntryElement) (condition : Where) (now : Int) :
    Build Statement := do
  let columns ← compareAll [(.timeOut, .equal, .printed (lifetimeGet now entry.expiration))]
  return .update .srdiDelta columns condition

/-- What `cm_save_delta_entry` returns, and what it leaves in the entry and in the manager. -/
structure DeltaSaved where
  status : Status
  jNewValue : Option (List Byte)
  newSeqNumber : Option Nat
  seqNumber : Nat
  deltaSeqNumber : Nat
  deriving Repr, DecidableEq

/-- `cm_save_delta_entry` of an entry with a name space. -/
def cmSaveDeltaEntryIn (E : Engine) (me : Jxtacm) (jPeerid jHandler : Option Nat)
    (entry : SRDIEntryElement) (now : Int) : Build (List Statement × Exec DeltaSaved) := do
  let condition ← cmSqlCreateDeltaWhereClause me.jGroupIDstring jPeerid jHandler entry
  let select ← cmSqlSelect me.bestChoiceDB .srdiDelta [.seqNumber, .value] (joined .and condition)
    false
  match E.select select with
  | none =>
    return ([select], .ok ⟨.failed, none, none, entry.seqNumber, me.deltaSeqNumber⟩)
  | some (row :: _) =>
    match entry.value with
    | none => return ([select], .error .nullPointer)
    | some value =>
      let seqNumber := row.getD 0 []
      let chars := ((← get).jstring (.caller value)).chars
      let found := condition ++ [⟨.seqNumber, .equal, ⟨seqNumber, .number seqNumber⟩⟩]
      let update ← cmDeltaEntryUpdate entry (joined .and found) now
      return ([select, update], .ok ⟨E.status update,
        if row.getD 1 [] = chars then none else some chars, some (Decimal.strtol seqNumber).toNat,
        entry.seqNumber, me.deltaSeqNumber⟩)
  | some [] =>
    let deltaSeqNumber := if entry.seqNumber = 0 then me.deltaSeqNumber + 1 else me.deltaSeqNumber
    let seqNumber := if entry.seqNumber = 0 then deltaSeqNumber else entry.seqNumber
    let values ← cmDeltaEntryCreate me.jGroupIDstring jPeerid jHandler entry seqNumber now
    return ([select, .insert .srdiDelta values],
      .ok ⟨.itemNotfound, none, none, seqNumber, deltaSeqNumber⟩)

/-- `cm_save_delta_entry`: the name space is read at once, the value where a row is found. -/
def cmSaveDeltaEntry (E : Engine) (me : Jxtacm) (jPeerid jHandler : Option Nat)
    (entry : SRDIEntryElement) (now : Int) : Build (List Statement × Exec DeltaSaved) :=
  match entry.nameSpace with
  | none => pure ([], .error .nullPointer)
  | some _ => cmSaveDeltaEntryIn E me jPeerid jHandler entry now

/-! ## searches -/

/-- `cm_sql_correct_space`. -/
def cmSqlCorrectSpace (folderName : List Byte) : List (Column × Relation × Source) :=
  if folderName = text "Peers" then [(.nameSpace, .equal, .value (some .jPeerNs))]
  else if folderName = text "Groups" then [(.nameSpace, .equal, .value (some .jGroupNs))]
  else [(.nameSpace, .notEqual, .value (some .jGroupNs)),
    (.nameSpace, .notEqual, .value (some .jPeerNs))]

/-- The rows that are asked for; -1 asks for all. -/
def rowMax (n : Int) (rows : List ResultRow) : List ResultRow :=
  if n < 0 then rows else rows.take n.toNat

/-- The loop of `cm_sql_get_primary_keys` over the databases: it ends at the first that fails. -/
def primaryKeysOf (select : Statement) (n : Int) : List Engine → List Statement × List (List Byte)
  | [] => ([], [])
  | E :: Es =>
    match E.select select with
    | none => ([select], [])
    | some rows =>
      let (statements, keys) := primaryKeysOf select n Es
      (select :: statements, (rowMax n rows).flatten ++ keys)

/-- `cm_sql_get_primary_keys`, grouped, on the databases of the folder, of which there is one at
least. -/
def cmSqlGetPrimaryKeys (first : Engine) (others : List Engine) (self : Jxtacm)
    (folderName : List Byte) (table : Table) (jWhere : Where) (jGroup : Column) (n now : Int) :
    Build (List Statement × List (List Byte)) := do
  let space ← compareAll (cmSqlCorrectSpace folderName)
  let rest ← compareAll [timeoutCheckGreater now, groupEquals self.jGroupIDstring]
  let condition := joined .and space ++ .and :: jWhere ++ .and :: joined .and rest
  return primaryKeysOf (.select table [.advId] condition (some jGroup)) n (first :: others)

/-- `cm_search`. -/
def cmSearch (first : Engine) (others : List Engine) (self : Jxtacm)
    (folderName attr value : List Byte) (noLocals : Bool) (nAdv now : Int) :
    Build (List Statement × List (List Byte)) := do
  let jAttr ← jstringNew2 attr
  let jVal ← jstringNew2 value
  let locals : List (Column × Relation × Source) :=
    if noLocals then [(.timeOutForOthers, .greaterThan, .printed 0)] else []
  let name ← compareAll ((.name, .equal, .value (some jAttr)) :: locals)
  let wc ← escapeAt (some jVal) true
  let pattern ← compareAll [(.value, if wc then .like else .equal, .value (some jVal))]
  cmSqlGetPrimaryKeys first others self folderName .elemAttributes (joined .and (name ++ pattern))
    .advId nAdv now

end JxtaC.Cm
