import JxtaC.Cm.Database
import JxtaC.Cm.SqlValues

/-
  The SRDI tables and the delta table under `cm_srdi_element_save` and `cm_save_delta_entry`.
  Every call has its own strings. `upserts_unique`: along every run the keys are unique and a saved
  entry that is there is refreshed, where the values of the calls are faithful and no expired row of
  an entry is in the way. `not_upserts_unique`: a quote mark in an attribute makes two rows.
-/

namespace JxtaC.Cm

open Lib Lib.Sql List
variable {entry : SRDIEntryElement} {m : Memory} {v : SrdiStrings} {value range : List Byte}
variable {strings : Nat → List Byte} {dbSpace : DBSpace} {handler peerid : Option Nat} {n : Nat}
variable {replica : Bool} {now : Int} {me : Jxtacm} {jPeerid jHandler : Option Nat}
variable (tables : Tables)

/-- What names an SRDI entry. -/
structure SrdiKey where
  group : List Byte
  nameSpace : List Byte
  handler : List Byte
  peerid : List Byte
  advId : List Byte
  name : List Byte
  deriving Repr, DecidableEq

def Row.srdiKey (row : Row) : SrdiKey :=
  ⟨row .groupID, row .nameSpace, row .handler, row .peerid, row .advId, row .name⟩

/-- What names a delta. -/
structure DeltaKey where
  group : List Byte
  handler : List Byte
  peerid : List Byte
  advId : List Byte
  name : List Byte
  value : List Byte
  deriving Repr, DecidableEq

def Row.deltaKey (row : Row) : DeltaKey :=
  ⟨row .groupID, row .handler, row .peerid, row .advId, row .name, row .value⟩

def Row.number (row : Row) : Nat := (Decimal.strtol (row .seqNumber)).toNat

/-- The keys of a table. -/
def Tables.srdiKeys (tables : Tables) (table : Table) : List SrdiKey :=
  (tables table).map Row.srdiKey

/-- The keys of the delta table, and their numbers. -/
def Tables.deltas (tables : Tables) : List (DeltaKey × Nat) :=
  (tables .srdiDelta).map fun row => (row.deltaKey, row.number)

/-- No key stands twice in a table. -/
def Tables.Unique (tables : Tables) : Prop :=
  (tables.srdiKeys .srdi).Nodup ∧ (tables.srdiKeys .replica).Nodup ∧
    (tables.deltas.map Prod.fst).Nodup

/-- Tables without rows. -/
def Tables.empty : Tables := fun _ => []

/-! ## calls -/

/-- A call that saves an entry, with the strings of the caller and the time. -/
inductive Save where
  | srdi (strings : Nat → List Byte) (now : Int) (dbSpace : DBSpace) (handler peerid : Option Nat)
      (entry : SRDIEntryElement) (replica : Bool)
  | delta (strings : Nat → List Byte) (now : Int) (me : Jxtacm) (jPeerid jHandler : Option Nat)
      (entry : SRDIEntryElement)

/-- The status of a call, the number that it reports, and the one that it leaves in the entry. -/
structure Saved where
  status : Status
  newSeqNumber : Option Nat
  seqNumber : Nat
  deriving Repr, DecidableEq

/-- A call on the tables. -/
def Save.step (tables : Tables) : Save → Exec (Tables × Saved)
  | srdi strings now dbSpace handler peerid entry replica =>
    let (statements, result) := (cmSrdiElementSave tables.engine dbSpace handler peerid entry
      replica now (.start strings)).1
    result.map fun status => (tables.after statements, ⟨status, none, entry.seqNumber⟩)
  | delta strings now me jPeerid jHandler entry =>
    let (statements, result) := (cmSaveDeltaEntry tables.engine me jPeerid jHandler entry now
      (.start strings)).1
    result.map fun saved =>
      (tables.after statements, ⟨saved.status, saved.newSeqNumber, saved.seqNumber⟩)

def srdiTable (replica : Bool) : Table := if replica then .replica else .srdi

/-- The key under which `cm_srdi_element_save` saves an entry. -/
def srdiKeyOf (strings : Nat → List Byte) (dbSpace : DBSpace) (handler peerid : Option Nat)
    (entry : SRDIEntryElement) : SrdiKey where
  group := dbSpace.id
  nameSpace := savedNameSpaceText strings entry.nameSpace
  handler := textOr strings handler (text "NoHandler")
  peerid := textOr strings peerid (text "NoPeerid")
  advId := textOr strings entry.advId (textOr strings entry.value [])
  name := textOr strings entry.key []

/-- The key under which `cm_save_delta_entry` saves an entry. -/
def deltaKeyOf (strings : Nat → List Byte) (me : Jxtacm) (jPeerid jHandler : Option Nat)
    (entry : SRDIEntryElement) : DeltaKey where
  group := strings me.jGroupIDstring
  handler := textOr strings jHandler []
  peerid := textOr strings jPeerid []
  advId := textOr strings entry.advId []
  name := textOr strings entry.key []
  value := textOr strings entry.value []

/-- The rows of the entry. -/
def Tables.srdiRows (tables : Tables) (table : Table) (key : SrdiKey) : List Row :=
  (tables table).filter fun row => row.srdiKey = key

def Tables.deltaRows (tables : Tables) (key : DeltaKey) : List Row :=
  (tables .srdiDelta).filter fun row => row.deltaKey = key

/-- The strings are there that the code reads without a look, and the group of a database is the
one that its JString holds. -/
def Save.Complete : Save → Prop
  | srdi strings _ dbSpace _ _ entry _ => entry.key ≠ none ∧ strings dbSpace.jId = dbSpace.id
  | delta _ _ _ _ _ entry => entry.nameSpace ≠ none ∧ entry.value ≠ none

/-- A row of an SRDI entry that is there has not expired: its time-out sorts behind the time. -/
def Save.Unexpired (tables : Tables) : Save → Prop
  | srdi strings now dbSpace handler peerid entry replica =>
    ∀ row ∈ tables.srdiRows (srdiTable replica) (srdiKeyOf strings dbSpace handler peerid entry),
      Decimal.ofInt now < row .timeOut
  | delta _ _ _ _ _ _ => True

/-- The values of the call are read back as what the strings were given, and the number of a delta
as what was printed. -/
def Save.Sound (tables : Tables) : Save → Prop
  | srdi strings _ dbSpace handler peerid entry replica =>
    let rows := tables.srdiRows (srdiTable replica)
      (srdiKeyOf strings dbSpace handler peerid entry)
    ∀ key ∈ entry.key, SrdiElementSound strings (some (rows.map fun row => [row .advId])) dbSpace
      handler peerid entry key
  | delta strings _ me jPeerid jHandler entry =>
    let rows := tables.deltaRows (deltaKeyOf strings me jPeerid jHandler entry)
    deltaNumber me entry < 2 ^ 63 ∧ DeltaSound strings
      (some (rows.map fun row => (row.number, row .value))) me jPeerid jHandler entry

instance : ∀ save : Save, Decidable save.Complete
  | .srdi strings _ dbSpace _ _ entry _ =>
    inferInstanceAs (Decidable (entry.key ≠ none ∧ strings dbSpace.jId = dbSpace.id))
  | .delta _ _ _ _ _ entry =>
    inferInstanceAs (Decidable (entry.nameSpace ≠ none ∧ entry.value ≠ none))

instance (tables : Tables) : ∀ save : Save, Decidable (save.Unexpired tables)
  | .srdi strings now dbSpace handler peerid entry replica =>
    inferInstanceAs (Decidable (∀ row ∈ tables.srdiRows (srdiTable replica)
      (srdiKeyOf strings dbSpace handler peerid entry), Decimal.ofInt now < row .timeOut))
  | .delta _ _ _ _ _ _ => isTrue trivial

instance (tables : Tables) : ∀ save : Save, Decidable (save.Sound tables)
  | .srdi strings _ dbSpace handler peerid entry replica =>
    inferInstanceAs (Decidable (∀ key ∈ entry.key, SrdiElementSound strings
      (some ((tables.srdiRows (srdiTable replica) (srdiKeyOf strings dbSpace handler peerid
        entry)).map fun row => [row .advId])) dbSpace handler peerid entry key))
  | .delta strings _ me jPeerid jHandler entry =>
    inferInstanceAs (Decidable (deltaNumber me entry < 2 ^ 63 ∧ DeltaSound strings
      (some ((tables.deltaRows (deltaKeyOf strings me jPeerid jHandler entry)).map fun row =>
        (row.number, row .value))) me jPeerid jHandler entry))

/-- An entry that is there is found and refreshed, and a delta reports its first number; another
one is stored. -/
def Save.Refreshes (tables : Tables) (saved : Saved) (tables' : Tables) : Save → Prop
  | srdi strings now dbSpace handler peerid entry replica =>
    let table := srdiTable replica
    let key := srdiKeyOf strings dbSpace handler peerid entry
    (∀ t ≠ table, tables' t = tables t) ∧
      if key ∈ tables.srdiKeys table then
        saved.status = .success ∧ tables'.srdiKeys table = tables.srdiKeys table ∧
          ∀ row ∈ tables'.srdiRows table key,
            row .timeOut = Decimal.ofInt (lifetimeGet now entry.expiration) ∧
              row .value = textOr strings entry.value [] ∧
              row .numRange = textOr strings entry.range []
      else
        saved.status = .itemNotfound ∧ tables'.srdiKeys table = tables.srdiKeys table ++ [key]
  | delta strings now me jPeerid jHandler entry =>
    let key := deltaKeyOf strings me jPeerid jHandler entry
    (∀ t ≠ .srdiDelta, tables' t = tables t) ∧
      if key ∈ tables.deltas.map Prod.fst then
        saved.status = .success ∧ (∀ n, (key, n) ∈ tables.deltas → saved.newSeqNumber = some n) ∧
          tables'.deltas = tables.deltas ∧
          ∀ row ∈ tables'.deltaRows key,
            row .timeOut = Decimal.ofInt (lifetimeGet now entry.expiration)
      else
        -- without a handler or a peer the INSERT is refused
        saved.status = .itemNotfound ∧ tables'.deltas = tables.deltas ++
          (if jHandler.isSome ∧ jPeerid.isSome then [(key, saved.seqNumber)] else [])

/-! ## SRDI entries -/

/-- The strings hold the key, the value and the range of an entry. -/
structure SrdiStrings.Names (v : SrdiStrings) (m : Memory) (key : SrdiKey)
    (value range : List Byte) : Prop where
  nameSpace : (m.jstring v.jNameSpace).given = key.nameSpace
  handler : (m.jstring v.jHandler).given = key.handler
  peerid : (m.jstring v.jPeerid).given = key.peerid
  advId : (m.jstring v.jAdvid).given = key.advId
  name : (m.jstring v.jAttribute).given = key.name
  value : (m.jstring v.jValue).given = value
  range : (v.jRange.map fun r => (m.jstring r).given).getD [] = range
  group : (m.jstring v.jGroupID).given = key.group

theorem srdiStrings_names (strings : Nat → List Byte) (dbSpace : DBSpace)
    (handler peerid : Option Nat) {key : Nat} (hkey : entry.key = some key) :
    let p := srdiStrings dbSpace handler peerid entry key (.start strings)
    p.1.Fresh p.2 ∧ p.2.Callers strings ∧
      p.1.Names p.2 (srdiKeyOf strings dbSpace handler peerid entry)
        (textOr strings entry.value []) (textOr strings entry.range []) := by
  intro p
  have hp : p = _ := srdiStrings_run strings dbSpace handler peerid entry key
  rw [hp]
  unfold srdiKeyOf
  rw [hkey]
  cases hrange : entry.range with
  | none =>
    refine ⟨?_, ?_, ?_⟩
    · constructor <;> simp [Memory.named]
    · intro n
      simp [Memory.named]
    · constructor <;> simp [Memory.named, textOr]
  | some range =>
    refine ⟨?_, ?_, ?_⟩
    · constructor <;> simp [Memory.named]
    · intro n
      simp [Memory.named]
    · constructor <;> simp [Memory.named, textOr]

variable {key : SrdiKey}

/-- The lookup answers with the rows of the entry that have not expired. -/
theorem srdiLookup_select (dbSpace : DBSpace) (table : Table) (now : Int)
    {nameSpace handler peerid advId name : Nat} (hh : handler < m.made) (hp : peerid < m.made)
    (ha : advId < m.made) (hn : name < m.made)
    (hkey : key = ⟨(m.jstring (.caller dbSpace.jId)).given, (m.jstring (.own nameSpace)).given,
      (m.jstring (.own handler)).given, (m.jstring (.own peerid)).given,
      (m.jstring (.own advId)).given, (m.jstring (.own name)).given⟩)
    (h : ∀ l ∈ (cmSrdiItemFoundSelect dbSpace table (.own nameSpace) (.own handler) (.own peerid)
      (.own advId) (.own name) now m).1.literals, l.Faithful) :
    tables.engine.select (cmSrdiItemFoundSelect dbSpace table (.own nameSpace) (.own handler)
        (.own peerid) (.own advId) (.own name) now m).1 =
      some ((((tables table).filter fun row =>
        row.srdiKey = key ∧ Decimal.ofInt now < row .timeOut)).map fun row => [row .advId]) := by
  let m' := m.clones (.own nameSpace) (.own handler) (.own peerid) (.own advId) (.own name)
  let cs : List (Column × Relation × Source) :=
    [(.nameSpace, .equal, .value (some (.own m.made))),
      (.handler, .equal, .value (some (.own (m.made + 1)))),
      (.peerid, .equal, .value (some (.own (m.made + 2)))),
      (.advId, .equal, .value (some (.own (m.made + 3)))),
      (.name, .equal, .value (some (.own (m.made + 4)))), timeoutCheckGreater now]
  have hselect : (cmSrdiItemFoundSelect dbSpace table (.own nameSpace) (.own handler) (.own peerid)
      (.own advId) (.own name) now m).1 = .select table [.advId]
        (joined .and (compareAll (cs ++ [groupEquals dbSpace.jId]) m').1) none :=
    congrArg Prod.fst (cmSqlSelect_joined dbSpace table [.advId] cs m')
  rw [hselect] at h ⊢
  rw [select_literals, compareAll_literals] at h
  rw [select_compareAll tables table [.advId] h]
  have hlt {k : Nat} (hk : k < m.made) (i : Nat) : k ≠ m.made + i := by omega
  have hlt0 {k : Nat} (hk : k < m.made) : k ≠ m.made := by omega
  have htested (row : Row) : (cs ++ [groupEquals dbSpace.jId]).all (Tested m' row) =
      decide (row.srdiKey = key ∧ Decimal.ofInt now < row .timeOut) := by
    rw [hkey, Bool.eq_iff_iff]
    simp [cs, m', Tested, Source.meant, Value.bytes, timeoutCheckGreater,
      groupEquals, Memory.clones, Row.srdiKey, hlt hp, hlt ha, hlt hn, hlt0 hh, hlt0 hp, hlt0 ha,
      hlt0 hn, Nat.add_assoc]
    tauto
  simp only [htested, map_cons, map_nil]

theorem srdiInsert_key (replica : Bool) (hv : v.Names m key value range) (expiration now : Int) :
    ((srdiTable replica).row ((srdiValues v expiration now).map fun s =>
      (s.meant m).bytes)).srdiKey = key := by
  obtain ⟨hnameSpace, hhandler, hpeerid, hadvId, hname, -, -, hgroup⟩ := hv
  have hrow : ((srdiTable replica).row ((srdiValues v expiration now).map fun s =>
      (s.meant m).bytes)).srdiKey = ⟨(m.jstring v.jGroupID).given, (m.jstring v.jNameSpace).given,
        (m.jstring v.jHandler).given, (m.jstring v.jPeerid).given, (m.jstring v.jAdvid).given,
        (m.jstring v.jAttribute).given⟩ := by
    cases replica <;> rfl
  rw [hrow, hnameSpace, hhandler, hpeerid, hadvId, hname, hgroup]

/-- The update keeps the keys of all rows and refreshes those of the entry. -/
theorem srdiUpdate_query (dbSpace : DBSpace) (table : Table) (expiration now : Int)
    (hv : v.Names m key value range)
    (hgroup : (m.jstring (.caller dbSpace.jId)).given = key.group)
    (h : ∀ l ∈ (cmSrdiItemUpdate dbSpace table v.jHandler v.jPeerid v.jAdvid v.jAttribute v.jValue
      v.jRange expiration now m).1.literals, l.Faithful) :
    ∃ f : Row → Row, tables.query (cmSrdiItemUpdate dbSpace table v.jHandler v.jPeerid v.jAdvid
        v.jAttribute v.jValue v.jRange expiration now m).1 =
          some (tables.set table ((tables table).map f)) ∧
      (∀ row, (f row).srdiKey = row.srdiKey) ∧
      ∀ row, row.srdiKey = key → f row .timeOut = Decimal.ofInt (lifetimeGet now expiration) ∧
        f row .value = value ∧ f row .numRange = range := by
  let columns : List (Column × Relation × Source) :=
    [(.timeOut, .equal, .printed (lifetimeGet now expiration)),
      (.value, .equal, .value (some v.jValue)), (.numValue, .equal, .numeric (some v.jValue)),
      (.numRange, .equal, .value v.jRange)]
  let cs : List (Column × Relation × Source) :=
    [(.advId, .equal, .value (some v.jAdvid)), (.handler, .equal, .value (some v.jHandler)),
      (.name, .equal, .value (some v.jAttribute)), (.peerid, .equal, .value (some v.jPeerid)),
      groupEquals dbSpace.jId]
  have hupdate : (cmSrdiItemUpdate dbSpace table v.jHandler v.jPeerid v.jAdvid v.jAttribute
      v.jValue v.jRange expiration now m).1 = .update table (compareAll columns m).1
        (joined .and (compareAll cs (compareAll columns m).2).1) := rfl
  rw [hupdate] at h ⊢
  refine ⟨fun row => if cs.all (Tested m row) then row.assigned m columns else row,
    query_compareAll tables table h, ?_, ?_⟩
  · intro row
    dsimp only
    split
    next => simp [Row.srdiKey, Row.assigned, columns]
    next => rfl
  · intro row hrow
    obtain ⟨-, hhandler, hpeerid, hadvId, hname, hvalue, hrange, -⟩ := hv
    have hpass : cs.all (Tested m row) = true := by
      rw [← hrow] at hhandler hpeerid hadvId hname hgroup
      simp [cs, Tested, Source.meant, Value.bytes, groupEquals, hhandler, hpeerid, hadvId, hname,
        hgroup, Row.srdiKey]
    dsimp only
    rw [if_pos hpass]
    simp [Row.assigned, columns, Source.meant, Value.bytes, hvalue, hrange]

theorem SrdiStrings.Names.congr {m' : Memory} (hv : v.Names m key value range)
    (h : ∀ r ∈ v.jNameSpace :: v.jHandler :: v.jPeerid :: v.jAdvid :: v.jAttribute :: v.jValue ::
      (v.jRange.toList ++ [v.jGroupID]), (m'.jstring r).given = (m.jstring r).given) :
    v.Names m' key value range := by
  obtain ⟨hnameSpace, hhandler, hpeerid, hadvId, hname, hvalue, hrange, hgroup⟩ := hv
  simp only [forall_mem_cons, forall_mem_append, not_mem_nil, false_implies,
    implies_true, and_true] at h
  obtain ⟨h1, h2, h3, h4, h5, h6, h7, h8⟩ := h
  refine ⟨h1.trans hnameSpace, h2.trans hhandler, h3.trans hpeerid, h4.trans hadvId,
    h5.trans hname, h6.trans hvalue, ?_, h8.trans hgroup⟩
  cases hr : v.jRange with
  | none => rwa [hr] at hrange
  | some r =>
    rw [hr] at hrange h7
    exact (h7 r (by simp)).trans hrange

/-- The lookup of `cm_srdi_element_save` answers with the rows of the entry. -/
theorem srdiLookup_rows (dbSpace : DBSpace) (table : Table) (expiration now : Int)
    (hv : v.Fresh m) (hnames : v.Names m key value range)
    (hgroup : m.jstring (.caller dbSpace.jId) = .new key.group)
    (hquote : ∀ r ∈ [v.jNameSpace, v.jHandler, v.jPeerid, v.jAdvid, v.jAttribute],
      39 ∉ (m.jstring r).given)
    (hunexpired : ∀ row ∈ tables.srdiRows table key, Decimal.ofInt now < row .timeOut) :
    tables.engine.select (cmSrdiItemFoundSelect dbSpace table v.jNameSpace v.jHandler v.jPeerid
        v.jAdvid v.jAttribute now (writeAll (srdiValues v expiration now) m).2).1 =
      some ((tables.srdiRows table key).map fun row => [row .advId]) := by
  have hgroupIntact : (m.jstring (.caller dbSpace.jId)).Intact := by rw [hgroup]; rfl
  have hfaithful := (srdiLookup_faithful_iff hv dbSpace hgroupIntact table expiration now).mpr hquote
  have hmade := writeAll_made (srdiValues v expiration now) m
  have hgiven := writeAll_given (srdiValues v expiration now) m
  generalize writeAll (srdiValues v expiration now) m = w at *
  obtain ⟨ns, -, hns⟩ := hv.own v.jNameSpace (by simp)
  obtain ⟨h, hh, hhandler⟩ := hv.own v.jHandler (by simp)
  obtain ⟨p, hp, hpeerid⟩ := hv.own v.jPeerid (by simp)
  obtain ⟨a, ha, hadvId⟩ := hv.own v.jAdvid (by simp)
  obtain ⟨n, hn, hname⟩ := hv.own v.jAttribute (by simp)
  have hkey : key = ⟨(w.2.jstring (.caller dbSpace.jId)).given, (w.2.jstring (.own ns)).given,
      (w.2.jstring (.own h)).given, (w.2.jstring (.own p)).given, (w.2.jstring (.own a)).given,
      (w.2.jstring (.own n)).given⟩ := by
    simp only [hgiven, hgroup, JString.new_given]
    rw [← hns, ← hhandler, ← hpeerid, ← hadvId, ← hname, hnames.nameSpace, hnames.handler,
      hnames.peerid, hnames.advId, hnames.name]
  rw [hns, hhandler, hpeerid, hadvId, hname] at hfaithful ⊢
  rw [srdiLookup_select tables dbSpace table now (hmade ▸ hh) (hmade ▸ hp) (hmade ▸ ha)
    (hmade ▸ hn) hkey hfaithful]
  have hrows : ((tables table).filter fun row =>
      row.srdiKey = key ∧ Decimal.ofInt now < row .timeOut) = tables.srdiRows table key := by
    apply filter_congr
    intro row hrow
    rw [decide_eq_decide, and_iff_left_iff_imp]
    intro hkey
    exact hunexpired row (mem_filter.mpr ⟨hrow, decide_eq_true hkey⟩)
  rw [hrows]

theorem mem_srdiKeys {tables : Tables} {table : Table} :
    key ∈ tables.srdiKeys table ↔ tables.srdiRows table key ≠ [] := by
  simp [Tables.srdiKeys, Tables.srdiRows, mem_map, filter_eq_nil_iff]

theorem Tables.set_self (table : Table) (rows : List Row) : tables.set table rows table = rows :=
  if_pos rfl

theorem Tables.set_other {table t : Table} (rows : List Row) (h : t ≠ table) :
    tables.set table rows t = tables t := if_neg h

/-- The strings of a sound entry that its lookup writes. -/
theorem srdiSound_names {rows : Option (List ResultRow)} (hn : entry.key = some n)
    (h : SrdiElementSound strings rows dbSpace handler peerid entry n)
    (hv : v.Names m (srdiKeyOf strings dbSpace handler peerid entry) value range) :
    ∀ r ∈ [v.jNameSpace, v.jHandler, v.jPeerid, v.jAdvid, v.jAttribute],
      39 ∉ (m.jstring r).given := by
  obtain ⟨hnames, -⟩ := h
  simp only [forall_mem_cons] at hnames ⊢
  obtain ⟨hnameSpace, hhandler, hpeerid, hadvId, hname, -⟩ := hnames
  rw [hv.nameSpace, hv.handler, hv.peerid, hv.advId, hv.name]
  refine ⟨quoteFree_savedNameSpaceText.mpr hnameSpace, (quoteFree_textOr (by decide)).mpr hhandler,
    (quoteFree_textOr (by decide)).mpr hpeerid, quoteFree_advId.mpr hadvId, ?_,
    fun r hr => absurd hr not_mem_nil⟩
  exact (quoteFree_textOr not_mem_nil).mpr (hn ▸ hname)

/-- The strings of a sound entry that its update writes. -/
theorem srdiSound_update (hn : entry.key = some n) {rows : Option (List ResultRow)}
    (h : SrdiElementSound strings rows dbSpace handler peerid entry n)
    (hquote : ∀ s ∈ [entry.value, entry.range, some dbSpace.jId], QuoteFree strings s)
    (hv : v.Names m (srdiKeyOf strings dbSpace handler peerid entry)
      (textOr strings entry.value []) (textOr strings entry.range []))
    (hgroup : m.jstring (.caller dbSpace.jId) = .new (strings dbSpace.jId)) :
    ∀ r ∈ v.jValue :: (v.jRange.toList ++ [v.jAdvid, v.jHandler, v.jAttribute, v.jPeerid,
      .caller dbSpace.jId]), 39 ∉ (m.jstring r).given := by
  have hnames := srdiSound_names hn h hv
  simp only [forall_mem_cons] at hnames hquote
  obtain ⟨-, hhandler, hpeerid, hadvId, hname, -⟩ := hnames
  obtain ⟨hvalue, hrange, hid, -⟩ := hquote
  have hrange' := (quoteFree_textOr not_mem_nil).mpr hrange
  rw [← hv.range] at hrange'
  simp only [forall_mem_cons, forall_mem_append]
  refine ⟨?_, ?_, hadvId, hhandler, hname, hpeerid, ?_, fun r hr => absurd hr not_mem_nil⟩
  · rw [hv.value]
    exact (quoteFree_textOr not_mem_nil).mpr hvalue
  · intro r hr
    rw [Option.mem_toList.mp hr] at hrange'
    exact hrange'
  · rw [hgroup]
    exact quoteFree_some.mp hid

/-- The INSERT adds a row with the key of the entry. -/
theorem srdiInsert_query (replica : Bool) (hv : v.Fresh m) (hnames : v.Names m key value range)
    (hnumeric : IsNumeric value) (expiration now : Int) :
    ∃ row : Row, tables.query (.insert (srdiTable replica)
        (writeAll (srdiValues v expiration now) m).1) =
          some (tables.set (srdiTable replica) (tables (srdiTable replica) ++ [row])) ∧
      row.srdiKey = key := by
  obtain ⟨hnodup, -, hintact⟩ := hv
  have hfaithful : ∀ l ∈ (writeAll (srdiValues v expiration now) m).1, l.Faithful := by
    rw [← written_srdiValues v expiration now] at hnodup hintact
    rw [writeAll_faithful_iff, writesWell_of_nodup hnodup, numerics_srdiValues,
      forall_mem_singleton, hnames.value]
    exact ⟨hintact, hnumeric⟩
  have hlen : (srdiValues v expiration now).length = (srdiTable replica).fields.length := by
    cases replica <;> rfl
  exact ⟨_, query_insert tables _ hfaithful hlen, srdiInsert_key replica hnames expiration now⟩

/-- The lookup of an entry, behind its VALUES. -/
def srdiLookup (dbSpace : DBSpace) (table : Table) (v : SrdiStrings) (expiration now : Int)
    (m : Memory) : Statement × Memory :=
  cmSrdiItemFoundSelect dbSpace table v.jNameSpace v.jHandler v.jPeerid v.jAdvid v.jAttribute now
    (writeAll (srdiValues v expiration now) m).2

theorem cmSrdiElementSaveStrings_absent {E : Engine} {expiration : Int}
    (h : E.select (srdiLookup dbSpace (srdiTable replica) v expiration now m).1 = some []) :
    (cmSrdiElementSaveStrings E dbSpace v expiration replica now m).1 =
      ([(srdiLookup dbSpace (srdiTable replica) v expiration now m).1,
        .insert (srdiTable replica) (writeAll (srdiValues v expiration now) m).1],
          if E.query (.insert (srdiTable replica) (writeAll (srdiValues v expiration now) m).1) then
            .itemNotfound else .failed) := by
  refine (cmSrdiElementSaveStrings_run E dbSpace v expiration replica now m).trans ?_
  unfold srdiLookup srdiTable at h
  rw [h]
  rfl

theorem cmSrdiElementSaveStrings_present {E : Engine} {expiration : Int} {row : ResultRow}
    {rows : List ResultRow}
    (h : E.select (srdiLookup dbSpace (srdiTable replica) v expiration now m).1 =
      some (row :: rows)) :
    (cmSrdiElementSaveStrings E dbSpace v expiration replica now m).1 =
      ([(srdiLookup dbSpace (srdiTable replica) v expiration now m).1,
        (cmSrdiItemUpdate dbSpace (srdiTable replica) v.jHandler v.jPeerid v.jAdvid v.jAttribute
          v.jValue v.jRange expiration now
          (srdiLookup dbSpace (srdiTable replica) v expiration now m).2).1],
        E.status (cmSrdiItemUpdate dbSpace (srdiTable replica) v.jHandler v.jPeerid v.jAdvid
          v.jAttribute v.jValue v.jRange expiration now
          (srdiLookup dbSpace (srdiTable replica) v expiration now m).2).1) := by
  refine (cmSrdiElementSaveStrings_run E dbSpace v expiration replica now m).trans ?_
  unfold srdiLookup srdiTable at h
  rw [h]
  rfl

/-- An entry that is not there is stored. -/
theorem srdiSave_absent (dbSpace : DBSpace) (hv : v.Fresh m) (hnames : v.Names m key value range)
    (hnumeric : IsNumeric value) (expiration : Int) (replica : Bool) (now : Int)
    (habsent : tables.engine.select
      (srdiLookup dbSpace (srdiTable replica) v expiration now m).1 = some []) :
    let saved := (cmSrdiElementSaveStrings tables.engine dbSpace v expiration replica now m).1
    ∃ row : Row, row.srdiKey = key ∧ saved.2 = .itemNotfound ∧ tables.after saved.1 =
      tables.set (srdiTable replica) (tables (srdiTable replica) ++ [row]) := by
  intro saved
  obtain ⟨row, hquery, hkey⟩ := srdiInsert_query tables replica hv hnames hnumeric expiration now
  have hengine : tables.engine.query (.insert (srdiTable replica)
      (writeAll (srdiValues v expiration now) m).1) = true := congrArg Option.isSome hquery
  have hsaved : saved = _ := cmSrdiElementSaveStrings_absent habsent
  rw [hengine, if_pos rfl] at hsaved
  refine ⟨row, hkey, congrArg Prod.snd hsaved, ?_⟩
  rw [hsaved]
  rw [after_lookup tables habsent, hquery]
  rfl

/-- An entry that is there is refreshed. -/
theorem srdiSave_present (dbSpace : DBSpace) (hv : v.Fresh m) (hnames : v.Names m key value range)
    (hgroup : m.jstring (.caller dbSpace.jId) = .new key.group) (hnumeric : IsNumeric value)
    (hquote : ∀ r ∈ v.jValue :: (v.jRange.toList ++ [v.jAdvid, v.jHandler, v.jAttribute, v.jPeerid,
      .caller dbSpace.jId]), 39 ∉ (m.jstring r).given) (expiration : Int) (replica : Bool)
    (now : Int) {row : ResultRow} {rows : List ResultRow}
    (hpresent : tables.engine.select (srdiLookup dbSpace (srdiTable replica) v expiration now m).1 =
      some (row :: rows)) :
    let saved := (cmSrdiElementSaveStrings tables.engine dbSpace v expiration replica now m).1
    ∃ f : Row → Row, (∀ row, (f row).srdiKey = row.srdiKey) ∧
      (∀ row, row.srdiKey = key → f row .timeOut = Decimal.ofInt (lifetimeGet now expiration) ∧
        f row .value = value ∧ f row .numRange = range) ∧
      saved.2 = .success ∧ tables.after saved.1 =
        tables.set (srdiTable replica) ((tables (srdiTable replica)).map f) := by
  intro saved
  have hintact : (m.jstring (.caller dbSpace.jId)).Intact := by rw [hgroup]; rfl
  have hnames' : v.Names (srdiLookup dbSpace (srdiTable replica) v expiration now m).2 key value
      range := by
    apply hnames.congr
    intro r hr
    obtain ⟨k, hk, rfl⟩ := hv.own r hr
    have hmade := writeAll_made (srdiValues v expiration now) m
    rw [srdiLookup, cmSrdiItemFoundSelect_own dbSpace _ _ _ _ _ _ now (hmade ▸ hk)]
    exact writeAll_given _ m _
  have hgroup' : ((srdiLookup dbSpace (srdiTable replica) v expiration now m).2.jstring
      (.caller dbSpace.jId)).given = key.group := by
    rw [srdiLookup, cmSrdiItemFoundSelect_group, JString.escaped_given, writeAll_given, hgroup,
      JString.new_given]
  have hfaithful := (srdiUpdate_faithful_iff hv dbSpace hintact (srdiTable replica) expiration
    now).mpr ⟨hquote, hnames.value ▸ hnumeric⟩
  obtain ⟨f, hquery, hkeys, hrefreshed⟩ := srdiUpdate_query tables dbSpace (srdiTable replica)
    expiration now hnames' hgroup' hfaithful
  have hstatus : tables.engine.status (cmSrdiItemUpdate dbSpace (srdiTable replica) v.jHandler
      v.jPeerid v.jAdvid v.jAttribute v.jValue v.jRange expiration now
      (srdiLookup dbSpace (srdiTable replica) v expiration now m).2).1 = .success :=
    if_pos (congrArg Option.isSome hquery)
  have hsaved : saved = _ := cmSrdiElementSaveStrings_present hpresent
  rw [hstatus] at hsaved
  refine ⟨f, hkeys, hrefreshed, congrArg Prod.snd hsaved, ?_⟩
  rw [hsaved]
  rw [after_lookup tables hpresent, hquery]
  rfl

/-- One call of `cm_srdi_element_save`. -/
theorem srdi_step
    (hcomplete : (Save.srdi strings now dbSpace handler peerid entry replica).Complete)
    (hunexpired : (Save.srdi strings now dbSpace handler peerid entry replica).Unexpired tables)
    (hsound : (Save.srdi strings now dbSpace handler peerid entry replica).Sound tables) :
    ∃ tables' saved, Save.step tables (.srdi strings now dbSpace handler peerid entry replica) =
        .ok (tables', saved) ∧
      (Save.srdi strings now dbSpace handler peerid entry replica).Refreshes tables saved
        tables' := by
  obtain ⟨hkey, hid⟩ := hcomplete
  obtain ⟨n, hn⟩ := Option.ne_none_iff_exists'.mp hkey
  have hsound := hsound n hn
  obtain ⟨hfresh, hcallers, hnames⟩ := srdiStrings_names strings dbSpace handler peerid hn
  have hrun := cmSrdiElementSave_run tables.engine dbSpace handler peerid hn replica now
    (.start strings)
  dsimp only at hrun hfresh hcallers hnames
  generalize srdiStrings dbSpace handler peerid entry n (.start strings) = p at *
  obtain ⟨v, m⟩ := p
  dsimp only at hrun hfresh hcallers hnames
  have hgroup : m.jstring (.caller dbSpace.jId) =
      .new (srdiKeyOf strings dbSpace handler peerid entry).group := by
    rw [hcallers, hid]
    rfl
  have hrows := srdiLookup_rows tables dbSpace (srdiTable replica) entry.expiration now hfresh hnames
    hgroup (srdiSound_names hn hsound hnames) hunexpired
  have hstep : Save.step tables (.srdi strings now dbSpace handler peerid entry replica) =
      .ok (tables.after (cmSrdiElementSaveStrings tables.engine dbSpace v entry.expiration replica
        now m).1.1, ⟨(cmSrdiElementSaveStrings tables.engine dbSpace v entry.expiration replica
          now m).1.2, none, entry.seqNumber⟩) := by
    show (cmSrdiElementSave tables.engine dbSpace handler peerid entry replica now
      (.start strings)).1.2.map (fun status => (tables.after (cmSrdiElementSave tables.engine dbSpace
        handler peerid entry replica now (.start strings)).1.1,
          (⟨status, none, entry.seqNumber⟩ : Saved))) = _
    rw [hrun]
    rfl
  have hlater := hsound.2
  cases hpresent : tables.srdiRows (srdiTable replica)
    (srdiKeyOf strings dbSpace handler peerid entry) with
  | nil =>
    rw [hpresent] at hrows hlater
    obtain ⟨row, hrow, hstatus, hafter⟩ := srdiSave_absent tables dbSpace hfresh hnames hlater
      entry.expiration replica now hrows
    rw [hafter, hstatus] at hstep
    refine ⟨_, _, hstep, fun t ht => tables.set_other _ ht, ?_⟩
    rw [if_neg fun h => mem_srdiKeys.mp h hpresent, Tables.srdiKeys, tables.set_self,
      map_append, map_singleton, hrow]
    exact ⟨rfl, rfl⟩
  | cons row rows =>
    rw [hpresent] at hrows hlater
    obtain ⟨hnumeric, hquote⟩ := hlater
    obtain ⟨f, hkeys, hrefreshed, hstatus, hafter⟩ := srdiSave_present tables dbSpace hfresh hnames
      hgroup hnumeric (srdiSound_update hn hsound hquote hnames (hcallers _)) entry.expiration
      replica now hrows
    have hmem : srdiKeyOf strings dbSpace handler peerid entry ∈
        tables.srdiKeys (srdiTable replica) :=
      mem_srdiKeys.mpr (hpresent ▸ cons_ne_nil row rows)
    rw [hafter, hstatus] at hstep
    refine ⟨_, _, hstep, fun t ht => tables.set_other _ ht, ?_⟩
    rw [if_pos hmem]
    refine ⟨rfl, ?_, ?_⟩
    · rw [Tables.srdiKeys, tables.set_self, map_map]
      exact map_congr_left fun r _ => hkeys r
    · intro r hr
      obtain ⟨hr, hrKey⟩ := mem_filter.mp hr
      rw [tables.set_self] at hr
      obtain ⟨r₀, -, rfl⟩ := mem_map.mp hr
      rw [decide_eq_true_iff, hkeys] at hrKey
      exact hrefreshed r₀ hrKey

/-! ## deltas -/

/-- The rows of the delta table have numbers as they were printed. -/
def Tables.Numbered (tables : Tables) : Prop :=
  ∀ row ∈ tables .srdiDelta, ∃ n : Nat, n < 2 ^ 63 ∧ row .seqNumber = Decimal.ofInt n

theorem number_of_printed {row : Row} (hn : n < 2 ^ 63) (h : row .seqNumber = Decimal.ofInt n) :
    row.number = n := by
  rw [Row.number, h, Decimal.strtol_ofInt (by omega) (by omega), Int.toNat_natCast]

theorem meant_ofCaller (strings : Nat → List Byte) (s : Option Nat) :
    ((Source.value (ofCaller s)).meant (.start strings)).bytes = textOr strings s [] := by
  cases s <;> rfl

theorem deltaLookup_tested (strings : Nat → List Byte) (me : Jxtacm)
    (jPeerid jHandler : Option Nat) (entry : SRDIEntryElement) (row : Row) :
    (deltaComparisons me jPeerid jHandler entry).all (Tested (.start strings) row) =
      decide (row.deltaKey = deltaKeyOf strings me jPeerid jHandler entry) := by
  have hgroup : ((Source.value (some (.caller me.jGroupIDstring))).meant (.start strings)).bytes =
      strings me.jGroupIDstring := rfl
  rw [Bool.eq_iff_iff]
  simp only [deltaComparisons, groupEquals, all_cons, all_nil, Tested, meant_ofCaller,
    hgroup, Bool.and_true, Bool.and_eq_true, holds_equal, decide_eq_true_eq, Row.deltaKey,
    deltaKeyOf, DeltaKey.mk.injEq]
  tauto

/-- The lookup of a delta answers with its rows. -/
theorem deltaLookup_rows (h : WrittenOnce strings (deltaLookup me jPeerid jHandler entry)) :
    tables.engine.select (.select .srdiDelta [.seqNumber, .value] (joined .and
        (compareAll (deltaComparisons me jPeerid jHandler entry) (.start strings)).1) none) =
      some ((tables.deltaRows (deltaKeyOf strings me jPeerid jHandler entry)).map fun row =>
        [row .seqNumber, row .value]) := by
  have hfaithful := (deltaSelect_faithful_iff strings me jPeerid jHandler entry).mpr h
  rw [compareAll_literals] at hfaithful
  rw [select_compareAll tables _ _ hfaithful]
  simp only [deltaLookup_tested, Tables.deltaRows, map_cons, map_nil]

theorem Tables.set_same (table : Table) : tables.set table (tables table) = tables := by
  funext t
  unfold Tables.set
  split
  next h => rw [h]
  next => rfl

/-- The INSERT of a delta adds its row where it has a handler and a peer. -/
theorem deltaInsert_query (seqNumber : Nat) (now : Int)
    (hm : Source.meant m = Source.meant (.start strings))
    (h : ∀ l ∈ (writeAll (deltaSources me jPeerid jHandler entry seqNumber now) m).1, l.Faithful) :
    ∃ rows : List Row, (tables.query (.insert .srdiDelta
        (writeAll (deltaSources me jPeerid jHandler entry seqNumber now) m).1)).getD tables =
          tables.set .srdiDelta (tables .srdiDelta ++ rows) ∧
      (∀ row ∈ rows, row .seqNumber = Decimal.ofInt seqNumber) ∧
      rows.map Row.deltaKey = if jHandler.isSome ∧ jPeerid.isSome then
        [deltaKeyOf strings me jPeerid jHandler entry] else [] := by
  by_cases hboth : jHandler.isSome ∧ jPeerid.isSome
  · obtain ⟨handler, rfl⟩ := Option.isSome_iff_exists.mp hboth.1
    obtain ⟨peerid, rfl⟩ := Option.isSome_iff_exists.mp hboth.2
    refine ⟨[Table.srdiDelta.row ((deltaSources me (some peerid) (some handler) entry seqNumber
      now).map fun s => (s.meant m).bytes)], ?_, ?_, ?_⟩
    · rw [query_insert tables .srdiDelta h rfl]
      rfl
    · rw [forall_mem_singleton]
      rfl
    · let bytes (s : Option Nat) := ((Source.value (ofCaller s)).meant (.start strings)).bytes
      have hrow : (Table.srdiDelta.row ((deltaSources me (some peerid) (some handler) entry seqNumber
          now).map fun s => (s.meant (.start strings)).bytes)).deltaKey =
            ⟨strings me.jGroupIDstring, strings handler, strings peerid, bytes entry.advId,
              bytes entry.key, bytes entry.value⟩ := rfl
      simp only [bytes, meant_ofCaller] at hrow
      rw [if_pos hboth, map_singleton, hm, hrow]
      rfl
  · refine ⟨[], ?_, fun row hrow => absurd hrow not_mem_nil, (if_neg hboth).symm⟩
    rw [query_insert_short tables .srdiDelta m, Option.getD_none, append_nil,
      tables.set_same]
    cases jHandler with
    | none => cases jPeerid <;> simp [deltaSources, Table.fields]
    | some handler =>
      cases jPeerid with
      | none => simp [deltaSources, Table.fields]
      | some peerid => exact absurd ⟨rfl, rfl⟩ hboth

theorem deltas_fst : tables.deltas.map Prod.fst = (tables .srdiDelta).map Row.deltaKey := by
  rw [Tables.deltas, map_map]
  rfl

theorem mem_deltas_fst {tables : Tables} {key : DeltaKey} :
    key ∈ tables.deltas.map Prod.fst ↔ tables.deltaRows key ≠ [] := by
  simp [deltas_fst, Tables.deltaRows, filter_eq_nil_iff]

/-- The UPDATE of a delta keeps the keys and the numbers, and refreshes its row. -/
theorem deltaUpdate_query (now : Int) {seqNumber : List Byte} (hseq : seqNumber = Decimal.ofInt n)
    (h : WrittenOnce strings (deltaLookup me jPeerid jHandler entry)) :
    ∃ f : Row → Row, tables.query (deltaUpdate (compareAll
        (deltaComparisons me jPeerid jHandler entry) (.start strings)).1 entry.expiration now
          seqNumber) = some (tables.set .srdiDelta ((tables .srdiDelta).map f)) ∧
      (∀ row, (f row).deltaKey = row.deltaKey ∧ f row .seqNumber = row .seqNumber) ∧
      ∀ row, row.deltaKey = deltaKeyOf strings me jPeerid jHandler entry →
        row .seqNumber = seqNumber →
          f row .timeOut = Decimal.ofInt (lifetimeGet now entry.expiration) := by
  have hselect := (deltaSelect_faithful_iff strings me jPeerid jHandler entry).mpr h
  have hfaithful := deltaUpdate_faithful entry.expiration now hseq hselect
  rw [compareAll_literals] at hselect
  let columns : List Comparison := [⟨.timeOut, .equal,
    Decimal.ofInt (lifetimeGet now entry.expiration),
    .number (Decimal.ofInt (lifetimeGet now entry.expiration))⟩]
  let cs := (compareAll (deltaComparisons me jPeerid jHandler entry) (.start strings)).1 ++
    [⟨.seqNumber, .equal, ⟨seqNumber, .number seqNumber⟩⟩]
  rw [deltaUpdate, update_literals] at hfaithful
  refine ⟨fun row => if cs.all (Comparison.holds row) then row.assign columns else row,
    query_update tables .srdiDelta hfaithful, ?_, ?_⟩
  · intro row
    dsimp only
    split
    next => exact ⟨rfl, rfl⟩
    next => exact ⟨rfl, rfl⟩
  · intro row hkey hnumber
    have hread : Literal.read ⟨seqNumber, .number seqNumber⟩ = some seqNumber := by
      apply read_of_faithful
      rw [hseq]
      exact denotes_ofInt n
    have htime : Literal.read ⟨Decimal.ofInt (lifetimeGet now entry.expiration),
        .number (Decimal.ofInt (lifetimeGet now entry.expiration))⟩ =
          some (Decimal.ofInt (lifetimeGet now entry.expiration)) :=
      read_of_faithful (denotes_ofInt _)
    have hpass : cs.all (Comparison.holds row) = true := by
      rw [all_append, all_compareAll hselect, deltaLookup_tested, hkey]
      simp [Comparison.holds, hread, hnumber]
    dsimp only
    rw [if_pos hpass]
    show (Literal.read _).getD [] = _
    rw [htime]
    rfl

theorem writtenOnce_left {l l' : List (Option Nat)} (h : WrittenOnce strings (l ++ l')) :
    WrittenOnce strings l := by
  intro n hn
  exact (List.Sublist.count_le _ (sublist_append_left l l')).trans (h n hn)

/-- A row of the delta table with a given key is the only one. -/
theorem deltaRow_unique {tables : Tables} (hunique : tables.Unique) {row row' : Row}
    (hrow : row ∈ tables .srdiDelta) (hrow' : row' ∈ tables .srdiDelta)
    (h : row.deltaKey = row'.deltaKey) : row = row' := by
  obtain ⟨-, -, hnodup⟩ := hunique
  rw [deltas_fst] at hnodup
  exact inj_on_of_nodup_map hnodup hrow hrow' h

/-- One call of `cm_save_delta_entry`. -/
theorem delta_step {tables : Tables} (hunique : tables.Unique) (hnumbered : tables.Numbered)
    (hcomplete : (Save.delta strings now me jPeerid jHandler entry).Complete)
    (hsound : (Save.delta strings now me jPeerid jHandler entry).Sound tables) :
    ∃ tables' saved, Save.step tables (.delta strings now me jPeerid jHandler entry) =
        .ok (tables', saved) ∧
      (Save.delta strings now me jPeerid jHandler entry).Refreshes tables saved tables' ∧
      tables'.Numbered := by
  obtain ⟨hnameSpace, hvalue⟩ := hcomplete
  obtain ⟨nameSpace, hnameSpace⟩ := Option.ne_none_iff_exists'.mp hnameSpace
  obtain ⟨value, hvalue⟩ := Option.ne_none_iff_exists'.mp hvalue
  obtain ⟨hnumber, hsound⟩ := hsound
  unfold DeltaSound at hsound
  rw [or_iff_right (by simp [hnameSpace])] at hsound
  have hrun := cmSaveDeltaEntryIn_run tables.engine me jPeerid jHandler entry now (.start strings)
  have hsave : cmSaveDeltaEntry tables.engine me jPeerid jHandler entry now =
      cmSaveDeltaEntryIn tables.engine me jPeerid jHandler entry now := by
    unfold cmSaveDeltaEntry
    rw [hnameSpace]
  have hstep : Save.step tables (.delta strings now me jPeerid jHandler entry) =
      (cmSaveDeltaEntry tables.engine me jPeerid jHandler entry now (.start strings)).1.2.map
        (fun saved => (tables.after (cmSaveDeltaEntry tables.engine me jPeerid jHandler entry now
          (.start strings)).1.1, ⟨saved.status, saved.newSeqNumber, saved.seqNumber⟩)) := rfl
  rw [hsave] at hstep
  rw [hstep]
  generalize cmSaveDeltaEntryIn tables.engine me jPeerid jHandler entry now (.start strings) = save
    at *
  cases hpresent : tables.deltaRows (deltaKeyOf strings me jPeerid jHandler entry) with
  | nil =>
    rw [hpresent] at hsound
    have hrows := deltaLookup_rows tables (writtenOnce_left hsound)
    rw [hpresent] at hrows
    dsimp only at hrun
    rw [hrows] at hrun
    have hrun : save.1 = _ := hrun
    rw [hrun]
    obtain ⟨hselect, hinsert⟩ := (deltaInsert_faithful_iff strings me jPeerid jHandler entry
      (deltaNumber me entry) now).mpr hsound
    have hmeant : Source.meant (compareAll (deltaComparisons me jPeerid jHandler entry)
        (.start strings)).2 = Source.meant (.start strings) := by
      funext s
      apply Source.meant_congr
      intro r
      rw [compareAll_snd, writeAll_given]
    obtain ⟨added, hafter, hnumbers, hkeys⟩ := deltaInsert_query tables (deltaNumber me entry) now
      hmeant hinsert
    have hnot : deltaKeyOf strings me jPeerid jHandler entry ∉ tables.deltas.map Prod.fst :=
      fun h => mem_deltas_fst.mp h hpresent
    refine ⟨tables.set .srdiDelta (tables .srdiDelta ++ added),
      ⟨.itemNotfound, none, deltaNumber me entry⟩, ?_, ⟨fun t ht => tables.set_other _ ht, ?_⟩, ?_⟩
    · rw [← hafter, ← after_lookup tables hrows]
      rfl
    · rw [if_neg hnot]
      refine ⟨rfl, ?_⟩
      have hadded : added.map (fun row => (row.deltaKey, row.number)) =
          (added.map Row.deltaKey).map fun key => (key, deltaNumber me entry) := by
        rw [map_map]
        apply map_congr_left
        intro row hrow
        rw [number_of_printed hnumber (hnumbers row hrow)]
        rfl
      rw [Tables.deltas, tables.set_self, map_append, hadded, hkeys]
      split <;> rfl
    · intro row hrow
      rw [tables.set_self, mem_append] at hrow
      obtain hrow | hrow := hrow
      · exact hnumbered row hrow
      · exact ⟨_, hnumber, hnumbers row hrow⟩
  | cons row rows =>
    rw [hpresent] at hsound
    have hrows := deltaLookup_rows tables hsound
    rw [hpresent] at hrows
    dsimp only at hrun
    rw [hrows, map_cons, hvalue] at hrun
    have hfirst : [row .seqNumber, row .value].getD 0 [] = row .seqNumber := rfl
    dsimp only at hrun
    rw [hfirst] at hrun
    have hrun : save.1 = _ := hrun
    rw [hrun]
    have hrow : row ∈ tables .srdiDelta ∧
        row.deltaKey = deltaKeyOf strings me jPeerid jHandler entry := by
      have : row ∈ tables.deltaRows (deltaKeyOf strings me jPeerid jHandler entry) :=
        hpresent ▸ mem_cons_self
      exact (mem_filter.mp this).imp_right of_decide_eq_true
    obtain ⟨n, hn, hseq⟩ := hnumbered row hrow.1
    obtain ⟨f, hquery, hkeys, htime⟩ := deltaUpdate_query tables now hseq hsound
    have hmem : deltaKeyOf strings me jPeerid jHandler entry ∈ tables.deltas.map Prod.fst :=
      mem_deltas_fst.mpr (hpresent ▸ cons_ne_nil row rows)
    have honly {r : Row} (hr : r ∈ tables .srdiDelta)
        (hkey : r.deltaKey = deltaKeyOf strings me jPeerid jHandler entry) : r = row :=
      deltaRow_unique hunique hr hrow.1 (hkey.trans hrow.2.symm)
    refine ⟨tables.set .srdiDelta ((tables .srdiDelta).map f),
      ⟨.success, some row.number, entry.seqNumber⟩, ?_, ⟨fun t ht => tables.set_other _ ht, ?_⟩, ?_⟩
    · have hafter := after_lookup tables hrows (deltaUpdate (compareAll
        (deltaComparisons me jPeerid jHandler entry) (.start strings)).1 entry.expiration now
          (row .seqNumber))
      have hstatus : tables.engine.status (deltaUpdate (compareAll
          (deltaComparisons me jPeerid jHandler entry) (.start strings)).1 entry.expiration now
            (row .seqNumber)) = .success := if_pos (congrArg Option.isSome hquery)
      rw [hquery, Option.getD_some] at hafter
      rw [← hafter, hstatus]
      rfl
    · rw [if_pos hmem]
      refine ⟨rfl, ?_, ?_, ?_⟩
      · intro k hk
        obtain ⟨r, hr, heq⟩ := mem_map.mp hk
        obtain ⟨hrKey, rfl⟩ := Prod.mk.inj heq
        rw [honly hr hrKey]
      · rw [Tables.deltas, tables.set_self, map_map]
        apply map_congr_left
        intro r _
        show ((f r).deltaKey, (f r).number) = (r.deltaKey, r.number)
        rw [(hkeys r).1, Row.number, (hkeys r).2]
        rfl
      · intro r hr
        obtain ⟨hr, hrKey⟩ := mem_filter.mp hr
        rw [tables.set_self] at hr
        obtain ⟨r₀, hr₀, rfl⟩ := mem_map.mp hr
        rw [decide_eq_true_iff, (hkeys r₀).1] at hrKey
        exact htime r₀ hrKey (by rw [honly hr₀ hrKey])
    · intro r hr
      rw [tables.set_self] at hr
      obtain ⟨r₀, hr₀, rfl⟩ := mem_map.mp hr
      rw [(hkeys r₀).2]
      exact hnumbered r₀ hr₀

/-! ## runs -/

theorem nodup_insert {α : Type} [DecidableEq α] {l l' : List α} {a : α} (hl : l.Nodup)
    (h : if a ∈ l then l' = l else l' = l ++ [a]) : l'.Nodup := by
  by_cases ha : a ∈ l
  · rw [if_pos ha] at h
    rwa [h]
  · rw [if_neg ha] at h
    rw [h, nodup_append]
    refine ⟨hl, nodup_singleton a, ?_⟩
    intro b hb c hc hbc
    rw [mem_singleton.mp hc] at hbc
    exact ha (hbc ▸ hb)

/-- A save adds a key at most where it is not there. -/
theorem Save.Refreshes.unique {tables tables' : Tables} {saved : Saved} {save : Save}
    (h : save.Refreshes tables saved tables') (hunique : tables.Unique) : tables'.Unique := by
  obtain ⟨hsrdi, hreplica, hdelta⟩ := hunique
  cases save with
  | srdi strings now dbSpace handler peerid entry replica =>
    obtain ⟨hother, hsaved⟩ := h
    have hdeltas : tables'.deltas = tables.deltas := by
      unfold Tables.deltas
      rw [hother .srdiDelta (by cases replica <;> decide)]
    have hkeys : (tables'.srdiKeys (srdiTable replica)).Nodup := by
      refine nodup_insert (l := tables.srdiKeys (srdiTable replica))
        (a := srdiKeyOf strings dbSpace handler peerid entry) ?_ ?_
      · cases replica
        · exact hsrdi
        · exact hreplica
      · split at hsaved
        next hmem => rw [if_pos hmem]; exact hsaved.2.1
        next hmem => rw [if_neg hmem]; exact hsaved.2
    have hsame (t : Table) (ht : t ≠ srdiTable replica) : tables'.srdiKeys t = tables.srdiKeys t :=
      congrArg (List.map Row.srdiKey) (hother t ht)
    unfold Tables.Unique
    rw [hdeltas]
    cases replica with
    | false =>
      rw [← hsame .replica (by decide)] at hreplica
      exact ⟨hkeys, hreplica, hdelta⟩
    | true =>
      rw [← hsame .srdi (by decide)] at hsrdi
      exact ⟨hsrdi, hkeys, hdelta⟩
  | delta strings now me jPeerid jHandler entry =>
    obtain ⟨hother, hsaved⟩ := h
    have hsame (t : Table) (ht : t ≠ .srdiDelta) : tables'.srdiKeys t = tables.srdiKeys t :=
      congrArg (List.map Row.srdiKey) (hother t ht)
    rw [← hsame .srdi (by decide)] at hsrdi
    rw [← hsame .replica (by decide)] at hreplica
    refine ⟨hsrdi, hreplica, ?_⟩
    split at hsaved
    next hmem => rw [hsaved.2.2.1]; exact hdelta
    next hmem =>
      rw [hsaved.2, map_append]
      split
      next => exact nodup_insert hdelta (by rw [if_neg hmem]; rfl)
      next => rwa [map_nil, append_nil]

/-- When a call does what it should: its strings are there, the entry is unexpired and its values
are read back. -/
def Save.Safe (tables : Tables) (save : Save) : Prop :=
  save.Complete ∧ save.Unexpired tables ∧ save.Sound tables

instance (tables : Tables) (save : Save) : Decidable (save.Safe tables) :=
  inferInstanceAs (Decidable (_ ∧ _ ∧ _))

/-- Upserts keep the keys unique, and refresh what is there. -/
theorem upserts_unique (saves : List Save) (h : SafeRun Save.step Save.Safe .empty saves) :
    Along Save.step Tables.Unique (fun tables save saved tables' =>
      save.Refreshes tables saved tables') .empty saves := by
  have hempty : Tables.empty.Unique ∧ Tables.empty.Numbered :=
    ⟨⟨nodup_nil, nodup_nil, nodup_nil⟩, fun row hrow => absurd hrow not_mem_nil⟩
  refine along_of_safeRun (fun _ h => And.left h) ?_ saves hempty h
  intro tables save hinv hsafe
  obtain ⟨hunique, hnumbered⟩ := hinv
  obtain ⟨hcomplete, hunexpired, hsound⟩ := hsafe
  cases save with
  | srdi strings now dbSpace handler peerid entry replica =>
    obtain ⟨tables', saved, hstep, hrefreshes⟩ := srdi_step tables hcomplete hunexpired hsound
    refine ⟨tables', saved, hstep, hrefreshes, hrefreshes.unique hunique, ?_⟩
    have hsame : tables' .srdiDelta = tables .srdiDelta :=
      hrefreshes.1 .srdiDelta (by cases replica <;> decide)
    unfold Tables.Numbered
    rwa [hsame]
  | delta strings now me jPeerid jHandler entry =>
    obtain ⟨tables', saved, hstep, hrefreshes, hnumbered'⟩ :=
      delta_step hunique hnumbered hcomplete hsound
    exact ⟨tables', saved, hstep, hrefreshes, hrefreshes.unique hunique, hnumbered'⟩

/-- The strings of the saves below. -/
def saveStrings (name : List Byte) : Nat → List Byte
  | 0 => text "urn:jxta:jxta-NetGroup"
  | 1 => name
  | 2 => text "printer"
  | 3 => text "urn:jxta:uuid-5903"
  | _ => text "Peers"

/-- An entry with this attribute, at this time. -/
def saveOf (name : List Byte) (now : Int) : Save :=
  .srdi (saveStrings name) now ⟨text "urn:jxta:jxta-NetGroup", text "cm", 0⟩ (some 2) (some 3)
    ⟨some 4, some 3, some 1, some 2, none, 7200000, 0⟩ false

/-- A delta of it. -/
def saveDeltaOf (name : List Byte) (now : Int) : Save :=
  .delta (saveStrings name) now ⟨0, ⟨text "urn:jxta:jxta-NetGroup", text "cm", 0⟩, 7⟩ (some 3)
    (some 2) ⟨some 4, some 3, some 1, some 2, none, 7200000, 0⟩

theorem upserts_unique_twice :
    Along Save.step Tables.Unique (fun tables save saved tables' =>
      save.Refreshes tables saved tables') .empty
      [saveOf (text "Name") 1700000000000, saveDeltaOf (text "Name") 1700000000000,
        saveOf (text "Name") 1700000060000, saveDeltaOf (text "Name") 1700000060000] :=
  upserts_unique _ (by decide +kernel)

/-- Saved twice, an entry with a quote mark in its attribute has two rows. -/
theorem not_upserts_unique :
    ¬ ∀ saves : List Save,
      SafeRun Save.step (fun tables save => save.Complete ∧ save.Unexpired tables) .empty saves →
        Along Save.step Tables.Unique (fun tables save saved tables' =>
          save.Refreshes tables saved tables') .empty saves := by
  intro h
  let saves := [saveOf (text "Owner's") 1700000000000, saveOf (text "Owner's") 1700000060000]
  let key : SrdiKey := ⟨text "urn:jxta:jxta-NetGroup", text "jxta:PA", text "printer",
    text "urn:jxta:uuid-5903", text "urn:jxta:uuid-5903", text "Owner's"⟩
  have hkeys : (runOps Save.step .empty saves).map (fun p => p.1.srdiKeys .srdi) =
      .ok [key, key] := by decide +kernel
  have hsafe : SafeRun Save.step (fun tables save => save.Complete ∧ save.Unexpired tables) .empty
      saves := by decide +kernel
  cases hrun : runOps Save.step .empty saves with
  | error e =>
    rw [hrun] at hkeys
    exact absurd hkeys (by simp [Except.map])
  | ok p =>
    have hunique := (h saves hsafe).last saves hrun
    rw [hrun] at hkeys
    have hkeys : p.1.srdiKeys .srdi = [key, key] := Except.ok.inj hkeys
    have hnodup := hunique.1
    rw [hkeys] at hnodup
    exact absurd hnodup (by simp)

end JxtaC.Cm
