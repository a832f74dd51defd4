import JxtaC.Lib.Runs
import JxtaC.Proffer

/-
  The cache entries that are made of the rows of a query (`cm_proffer_advertisements_build` in
  jxta_cm.c). A column is NULL or a text; `scan` is what `sscanf` stores of one, if anything, and
  `parseAdv` what an advertisement is parsed into. The pointer to the current proffer advertisement
  is that of the current entry. Failing allocations are left out.
-/

namespace JxtaC.Cm

open Lib Proffer List

/-- The columns of a row, in their order; the last one is there with `adv_present`. -/
structure DbdRow where
  profid : Option CString
  advid : Option CString
  name : Option CString
  value : Option CString
  nameSpace : Option CString
  lifetime : Option CString
  expiration : Option CString
  adv : Option CString

/-- A proffer advertisement with the ids that it is told apart by. -/
structure ProfferEntry where
  advId : CString
  peerId : CString
  prof : ProfferAdvertisement

/-- `Jxta_cache_entry`. -/
structure CacheEntry (Adv : Type) where
  profid : Option CString
  profadv : Option ProfferEntry
  lifetime : Int
  expiration : Int
  adv : Option Adv

/-- An entry that `calloc` has given. -/
def CacheEntry.new {Adv : Type} : CacheEntry Adv := ⟨none, none, 0, 0, none⟩

/-- `jxta_ProfferAdvertisement_new_1`. -/
def profferNew1 (ns advid peerid : CString) : ProfferEntry := ⟨advid, peerid, .new ns⟩

/-- `jxta_proffer_adv_add_item`. -/
def profferAdvAddItem (prof : ProfferEntry) (name value : CString) : ProfferEntry :=
  { prof with prof := addItem prof.prof name value }

section Build
variable {Adv : Type} (scan : CString → Option Int) (parseAdv : CString → Option Adv)
variable (advPresent : Bool)

/-- The advertisement of an entry, where the column is there and the entry has none; the result is
    `none` where it cannot be parsed. -/
def takeAdv (entry : CacheEntry Adv) (adv : Option CString) : Option (CacheEntry Adv) :=
  if advPresent ∧ entry.adv.isNone then
    (adv.bind parseAdv).map fun jAdv => { entry with adv := some jAdv }
  else some entry

def setProfid (entry : CacheEntry Adv) (profid : CString) : CacheEntry Adv :=
  if entry.profid.isNone then { entry with profid := some profid } else entry

/-- The item goes into the entry, if this has the ids of the row, and otherwise into a new one. -/
def addRow (results : List (CacheEntry Adv)) (entry : CacheEntry Adv) (profferAdv : ProfferEntry)
    (profid advid name value nameSpace : CString) (adv : Option CString) :
    Option (List (CacheEntry Adv) × CacheEntry Adv) :=
  let entry := { entry with profadv := some profferAdv }
  if profferAdv.peerId = profid ∧ profferAdv.advId = advid then
    some (results, { entry with profadv := some (profferAdvAddItem profferAdv name value) })
  else do
    let profferAdv := profferAdvAddItem (profferNew1 nameSpace advid profid) name value
    let next ← takeAdv parseAdv advPresent { CacheEntry.new with profadv := some profferAdv } adv
    return (results ++ [entry], { next with profid := some profid })

/-- What is done with a row that has all of its columns: the entries that are finished, and the
    current one. -/
def completeRow (results : List (CacheEntry Adv)) (entry : CacheEntry Adv)
    (profid advid name value nameSpace : CString) (adv : Option CString) :
    Option (List (CacheEntry Adv) × CacheEntry Adv) := do
  let entry := setProfid (← takeAdv parseAdv advPresent entry adv) profid
  addRow parseAdv advPresent results entry
    (entry.profadv.getD (profferNew1 nameSpace advid profid)) profid advid name value nameSpace adv

/-- The loop body of `cm_proffer_advertisements_build`. -/
def buildRow (state : List (CacheEntry Adv) × Option (CacheEntry Adv)) (row : DbdRow) :
    Option (List (CacheEntry Adv) × Option (CacheEntry Adv)) :=
  let results := state.1
  let entry := state.2.getD .new
  match row.profid, row.advid, row.name, row.value, row.nameSpace, row.lifetime with
  | some profid, some advid, some name, some value, some nameSpace, some lifetime =>
    let entry := { entry with lifetime := (scan lifetime).getD entry.lifetime }
    match row.expiration with
    | none => some (results, some entry)
    | some expiration =>
      let entry := { entry with expiration := (scan expiration).getD entry.expiration }
      if advPresent ∧ row.adv.isNone then some (results, some entry)
      else
        (completeRow parseAdv advPresent results entry profid advid name value nameSpace
          row.adv).map fun state => (state.1, some state.2)
  | _, _, _, _, _, _ => some (results, some entry)

/-- `cm_proffer_advertisements_build`; what it logs of the last entry reads its proffer
    advertisement. -/
def profferAdvertisementsBuild (rows : List DbdRow) : Exec (Option (List (CacheEntry Adv))) :=
  if rows = [] then .ok none
  else
    match rows.foldlM (buildRow scan parseAdv advPresent) ([], none) with
    | none => .ok none
    | some (results, none) => .ok (some results)
    | some (results, some entry) =>
      match entry.profadv with
      | none => .error .nullPointer
      | some _ => .ok (some (results ++ [entry]))

end Build

/-! ## the claim of the rows -/

/-- A row without NULL. -/
structure FullRow where
  profid : CString
  advid : CString
  name : CString
  value : CString
  nameSpace : CString
  lifetime : CString
  expiration : CString
  adv : Option CString

/-- The pair of ids that an entry is for. -/
def FullRow.key (row : FullRow) : CString × CString := (row.profid, row.advid)

/-- A row of which no column is NULL. -/
def DbdRow.full (advPresent : Bool) (row : DbdRow) : Option FullRow := do
  let profid ← row.profid
  let advid ← row.advid
  let name ← row.name
  let value ← row.value
  let nameSpace ← row.nameSpace
  let lifetime ← row.lifetime
  let expiration ← row.expiration
  if advPresent ∧ row.adv.isNone then none
  else some { profid, advid, name, value, nameSpace, lifetime, expiration, adv := row.adv }

section Claim
variable {Adv : Type} (scan : CString → Option Int) (parseAdv : CString → Option Adv)
variable (advPresent : Bool)

/-- The entry is made of these rows. -/
structure EntryOf (own : List FullRow) (key : CString × CString) (entry : CacheEntry Adv) :
    Prop where
  profid : entry.profid = some key.1
  profadv : ∃ row ∈ own, entry.profadv = some (own.foldl
    (fun prof row => profferAdvAddItem prof row.name row.value)
    (profferNew1 row.nameSpace key.2 key.1))
  lifetime : ∃ row ∈ own, scan row.lifetime = some entry.lifetime
  expiration : ∃ row ∈ own, scan row.expiration = some entry.expiration
  adv : if advPresent then ∃ row ∈ own, ∃ jAdv, row.adv.bind parseAdv = some jAdv ∧
    entry.adv = some jAdv else entry.adv = none

/-- There is one entry for each pair of ids of the full rows, in their order, made of the rows with
    these ids; without any rows there is no array. -/
def BuildMeets (le : CString × CString → CString × CString → Prop) (rows : List DbdRow) : Prop :=
  ∃ ret, profferAdvertisementsBuild scan parseAdv advPresent rows = .ok ret ∧
    (rows = [] → ret = none) ∧
    (rows ≠ [] → ∃ entries keys, ret = some entries ∧ keys.Nodup ∧ keys.Pairwise le ∧
      (∀ key, key ∈ keys ↔ ∃ row ∈ rows.filterMap (DbdRow.full advPresent), row.key = key) ∧
      List.Forall₂ (fun key entry => EntryOf scan parseAdv advPresent
        ((rows.filterMap (DbdRow.full advPresent)).filter (·.key = key)) key entry) keys entries)

/-- What is scanned of the lifetime of a row. -/
def DbdRow.readLifetime (row : DbdRow) : Option Int := do
  let _ ← row.profid
  let _ ← row.advid
  let _ ← row.name
  let _ ← row.value
  let _ ← row.nameSpace
  scan (← row.lifetime)

/-- What is scanned of the expiration of a row. -/
def DbdRow.readExpiration (row : DbdRow) : Option Int := do
  let _ ← row.profid
  let _ ← row.advid
  let _ ← row.name
  let _ ← row.value
  let _ ← row.nameSpace
  let _ ← row.lifetime
  scan (← row.expiration)

/-- The last number, or 0. -/
def lastNumber (numbers : List (Option Int)) : Int := (numbers.filterMap id).getLast?.getD 0

/-- The last lifetime and expiration that are read while the entry of a run is the current one, with
    those of the row that begins the next run, are of its own rows; and the advertisement of the
    first of these can be parsed. -/
structure RunFits (run : Run DbdRow FullRow (CString × CString)) : Prop where
  lifetime : ∃ row ∈ run.own,
    scan row.lifetime = some (lastNumber (run.read.map (DbdRow.readLifetime scan)))
  expiration : ∃ row ∈ run.own,
    scan row.expiration = some (lastNumber (run.read.map (DbdRow.readExpiration scan)))
  adv : advPresent → ∀ row ∈ run.own.head?, row.adv.bind parseAdv ≠ none

/-- Some row is full, if there are any, and each run fits. -/
def RowsFit (rows : List DbdRow) : Prop :=
  (rows ≠ [] → rows.filterMap (DbdRow.full advPresent) ≠ []) ∧
    ∀ run ∈ Run.runs (DbdRow.full advPresent) FullRow.key [] rows,
      RunFits scan parseAdv advPresent run

end Claim

/-! ## one row -/

section OneRow
variable {Adv : Type} {scan : CString → Option Int} {parseAdv : CString → Option Adv}
variable {advPresent : Bool} {row : DbdRow} {full : FullRow}
variable {first : FullRow} {runs : List (Run DbdRow FullRow (CString × CString))}
variable {entries : List (CacheEntry Adv)} {read rows : List DbdRow} (rest : List DbdRow)

/-- What every row does to the current entry. -/
def readRow (scan : CString → Option Int) (entry : CacheEntry Adv) (row : DbdRow) :
    CacheEntry Adv :=
  { entry with
    lifetime := (row.readLifetime scan).getD entry.lifetime
    expiration := (row.readExpiration scan).getD entry.expiration }

/-- What is done with a row that may be full. -/
def fullRow (parseAdv : CString → Option Adv) (advPresent : Bool)
    (results : List (CacheEntry Adv)) (entry : CacheEntry Adv) :
    Option FullRow → Option (List (CacheEntry Adv) × Option (CacheEntry Adv))
  | none => some (results, some entry)
  | some full =>
    (completeRow parseAdv advPresent results entry full.profid full.advid full.name full.value
      full.nameSpace full.adv).map fun state => (state.1, some state.2)

theorem buildRow_eq (results : List (CacheEntry Adv)) (entry : Option (CacheEntry Adv))
    (row : DbdRow) : buildRow scan parseAdv advPresent (results, entry) row =
      fullRow parseAdv advPresent results (readRow scan (entry.getD .new) row)
        (row.full advPresent) := by
  obtain ⟨profid, advid, name, value, nameSpace, lifetime, expiration, adv⟩ := row
  cases profid with
  | none => rfl
  | some profid =>
    cases advid with
    | none => rfl
    | some advid =>
      cases name with
      | none => rfl
      | some name =>
        cases value with
        | none => rfl
        | some value =>
          cases nameSpace with
          | none => rfl
          | some nameSpace =>
            cases lifetime with
            | none => rfl
            | some lifetime =>
              cases expiration with
              | none => rfl
              | some expiration =>
                unfold buildRow DbdRow.full
                simp only [Option.bind_eq_bind, Option.bind_some]
                by_cases hadv : advPresent ∧ adv.isNone
                · rw [if_pos hadv, if_pos hadv]
                  rfl
                · rw [if_neg hadv, if_neg hadv]
                  rfl

theorem lastNumber_append (numbers : List (Option Int)) (number : Option Int) :
    lastNumber (numbers ++ [number]) = number.getD (lastNumber numbers) := by
  unfold lastNumber
  rw [filterMap_append]
  cases number with
  | none => simp
  | some i => simp

/-- What is parsed of the first row of a run. -/
def firstAdv (parseAdv : CString → Option Adv) (advPresent : Bool) (first : FullRow) :
    Option (Option Adv) :=
  if advPresent then (first.adv.bind parseAdv).map some else some none

/-- The entry of a run with this advertisement. -/
def madeOf (scan : CString → Option Int) (run : Run DbdRow FullRow (CString × CString))
    (first : FullRow) (adv : Option Adv) : CacheEntry Adv where
  profid := some run.key.1
  profadv := some (run.own.foldl (fun prof row => profferAdvAddItem prof row.name row.value)
    (profferNew1 first.nameSpace run.key.2 run.key.1))
  lifetime := lastNumber (run.read.map (DbdRow.readLifetime scan))
  expiration := lastNumber (run.read.map (DbdRow.readExpiration scan))
  adv := adv

/-- The entry of a run, where its advertisement can be parsed. -/
def entryOf (scan : CString → Option Int) (parseAdv : CString → Option Adv) (advPresent : Bool)
    (run : Run DbdRow FullRow (CString × CString)) : Option (CacheEntry Adv) :=
  run.own.head?.bind fun first => (firstAdv parseAdv advPresent first).map (madeOf scan run first)

/-- The current entry before there was a full row. -/
def blankEntry (scan : CString → Option Int) (read : List DbdRow) : CacheEntry Adv :=
  { CacheEntry.new with
    lifetime := lastNumber (read.map (DbdRow.readLifetime scan))
    expiration := lastNumber (read.map (DbdRow.readExpiration scan)) }

theorem readRow_blank (read : List DbdRow) (row : DbdRow) :
    readRow scan (blankEntry scan read : CacheEntry Adv) row = blankEntry scan (read ++ [row]) := by
  unfold readRow blankEntry
  rw [map_append, map_append, map_singleton, map_singleton,
    lastNumber_append, lastNumber_append]

variable {run : Run DbdRow FullRow (CString × CString)} {entry : CacheEntry Adv}

theorem entryOf_eq_some : entryOf scan parseAdv advPresent run = some entry ↔
    ∃ first adv, run.own.head? = some first ∧ firstAdv parseAdv advPresent first = some adv ∧
      madeOf scan run first adv = entry := by
  unfold entryOf
  rw [Option.bind_eq_some_iff]
  constructor
  · rintro ⟨first, hfirst, hmap⟩
    obtain ⟨adv, hadv, hmade⟩ := Option.map_eq_some_iff.mp hmap
    exact ⟨first, adv, hfirst, hadv, hmade⟩
  · rintro ⟨first, adv, hfirst, hadv, hmade⟩
    exact ⟨first, hfirst, Option.map_eq_some_iff.mpr ⟨adv, hadv, hmade⟩⟩

theorem entryOf_read (h : entryOf scan parseAdv advPresent run = some entry) (row : DbdRow) :
    entryOf scan parseAdv advPresent { run with read := run.read ++ [row] } =
      some (readRow scan entry row) := by
  obtain ⟨first, adv, hfirst, hadv, rfl⟩ := entryOf_eq_some.mp h
  refine entryOf_eq_some.mpr ⟨first, adv, hfirst, hadv, ?_⟩
  unfold madeOf readRow
  rw [map_append, map_append, map_singleton, map_singleton,
    lastNumber_append, lastNumber_append]

/-- With the advertisement that it has, an entry takes no other. -/
theorem takeAdv_made {adv : Option Adv} (hadv : firstAdv parseAdv advPresent first = some adv)
    (other : Option CString) :
    takeAdv parseAdv advPresent (madeOf scan run first adv) other =
      some (madeOf scan run first adv) := by
  apply if_neg
  rintro ⟨hpresent, hnone⟩
  unfold firstAdv at hadv
  rw [if_pos hpresent] at hadv
  obtain ⟨jAdv, -, rfl⟩ := Option.map_eq_some_iff.mp hadv
  exact absurd hnone (by simp [madeOf])

theorem foldl_ids (own : List FullRow) (prof : ProfferEntry) :
    (own.foldl (fun prof row => profferAdvAddItem prof row.name row.value) prof).advId =
        prof.advId ∧
      (own.foldl (fun prof row => profferAdvAddItem prof row.name row.value) prof).peerId =
        prof.peerId := by
  induction own generalizing prof with
  | nil => exact ⟨rfl, rfl⟩
  | cons row own ih => exact ih _

/-- The proffer advertisement of a run. -/
def proffer (run : Run DbdRow FullRow (CString × CString)) (first : FullRow) : ProfferEntry :=
  run.own.foldl (fun prof row => profferAdvAddItem prof row.name row.value)
    (profferNew1 first.nameSpace run.key.2 run.key.1)

theorem proffer_is :
    ((proffer run first).peerId = full.profid ∧ (proffer run first).advId = full.advid) ↔
      full.key = run.key := by
  obtain ⟨hadvid, hpeerid⟩ :=
    foldl_ids run.own (profferNew1 first.nameSpace run.key.2 run.key.1)
  have hleft : (proffer run first).peerId = run.key.1 := hpeerid
  have hright : (proffer run first).advId = run.key.2 := hadvid
  rw [hleft, hright]
  constructor
  · rintro ⟨hprofid, hadvid⟩
    exact Prod.ext hprofid.symm hadvid.symm
  · intro hkey
    rw [← hkey]
    exact ⟨rfl, rfl⟩

theorem takeAdv_none (h : entry.adv = none) :
    takeAdv parseAdv advPresent entry full.adv =
      (firstAdv parseAdv advPresent full).map fun adv => { entry with adv } := by
  unfold takeAdv firstAdv
  by_cases hpresent : advPresent = true
  · have hboth : advPresent = true ∧ entry.adv.isNone = true := ⟨hpresent, by rw [h]; rfl⟩
    rw [if_pos hboth, if_pos hpresent]
    cases full.adv.bind parseAdv with
    | none => rfl
    | some jAdv => rfl
  · rw [if_neg fun hand => hpresent hand.1, if_neg hpresent, Option.map_some, ← h]

/-- What follows for a row whose entry is made. -/
theorem completeRow_made {adv : Option Adv} (hadv : firstAdv parseAdv advPresent first = some adv)
    (results : List (CacheEntry Adv)) :
    completeRow parseAdv advPresent results (madeOf scan run first adv) full.profid full.advid
        full.name full.value full.nameSpace full.adv =
      if full.key = run.key then
        some (results, madeOf scan { run with own := run.own ++ [full] } first adv)
      else (entryOf scan parseAdv advPresent ⟨full.key, [full], []⟩).map
        fun next => (results ++ [madeOf scan run first adv], next) := by
  have hadd : completeRow parseAdv advPresent results (madeOf scan run first adv) full.profid
      full.advid full.name full.value full.nameSpace full.adv =
        addRow parseAdv advPresent results (madeOf scan run first adv) (proffer run first)
          full.profid full.advid full.name full.value full.nameSpace full.adv := by
    unfold completeRow
    rw [takeAdv_made hadv]
    rfl
  rw [hadd]
  unfold addRow
  dsimp only
  by_cases hkey : full.key = run.key
  · rw [if_pos (proffer_is.mpr hkey), if_pos hkey]
    unfold madeOf proffer
    rw [foldl_concat]
  · rw [if_neg (mt proffer_is.mp hkey), if_neg hkey, takeAdv_none rfl]
    unfold entryOf
    cases hnext : firstAdv parseAdv advPresent full with
    | none => simp [hnext]
    | some next =>
      simp only [head?_cons, Option.bind_some, hnext]
      rfl

/-- The first full row of all goes into the entry that is there. -/
theorem completeRow_first (read : List DbdRow) :
    completeRow parseAdv advPresent [] (blankEntry scan read) full.profid full.advid full.name
        full.value full.nameSpace full.adv =
      (entryOf scan parseAdv advPresent ⟨full.key, [full], read⟩).map fun entry => ([], entry) := by
  unfold completeRow entryOf
  rw [takeAdv_none rfl]
  cases hfirst : firstAdv parseAdv advPresent full with
  | none => simp [hfirst]
  | some adv =>
    have hids : (profferNew1 full.nameSpace full.advid full.profid).peerId = full.profid ∧
        (profferNew1 full.nameSpace full.advid full.profid).advId = full.advid := ⟨rfl, rfl⟩
    simp only [head?_cons, Option.bind_some, hfirst]
    exact if_pos hids

/-! ## all rows -/

theorem runsFrom_ne_nil (k : CString × CString) (own : List FullRow) (read : List DbdRow) :
    Run.runsFrom (DbdRow.full advPresent) FullRow.key k own read rest ≠ [] := by
  induction rest generalizing own read with
  | nil => exact cons_ne_nil _ _
  | cons row rest ih =>
    cases hfull : row.full advPresent with
    | none =>
      rw [Run.runsFrom_none hfull]
      exact ih _ _
    | some full =>
      by_cases hkey : full.key = k
      · rw [Run.runsFrom_same hfull hkey]
        exact ih _ _
      · rw [Run.runsFrom_next hfull hkey]
        exact cons_ne_nil _ _

/-- The entries of all runs, where their advertisements can be parsed. -/
def entriesOf (scan : CString → Option Int) (parseAdv : CString → Option Adv) (advPresent : Bool) :
    List (Run DbdRow FullRow (CString × CString)) → Option (List (CacheEntry Adv))
  | [] => some []
  | run :: runs => do
    let entry ← entryOf scan parseAdv advPresent run
    let entries ← entriesOf scan parseAdv advPresent runs
    return entry :: entries

theorem entriesOf_eq_some :
    entriesOf scan parseAdv advPresent runs = some entries ↔
      List.Forall₂ (fun run entry => entryOf scan parseAdv advPresent run = some entry)
        runs entries := by
  induction runs generalizing entries with
  | nil => simp [entriesOf, eq_comm]
  | cons run runs ih =>
    rw [List.forall₂_cons_left_iff]
    simp only [entriesOf, Option.bind_eq_bind, Option.bind_eq_some_iff, ih]
    constructor
    · rintro ⟨entry, hentry, rest, hrest, heq⟩
      exact ⟨entry, rest, hentry, hrest, (Option.some.inj heq).symm⟩
    · rintro ⟨entry, rest, hentry, hrest, rfl⟩
      exact ⟨entry, hentry, rest, hrest, rfl⟩

theorem entryOf_eq_none (hfirst : run.own.head? = some first)
    (hadv : firstAdv parseAdv advPresent first = none) :
    entryOf scan parseAdv advPresent run = none := by
  unfold entryOf
  rw [hfirst, Option.bind_some, hadv]
  rfl

/-- Where the first row of a run has no advertisement that can be parsed, nothing is returned. -/
theorem entriesOf_none {k : CString × CString} {own : List FullRow} (read : List DbdRow)
    (hfirst : own.head? = some first) (hadv : firstAdv parseAdv advPresent first = none) :
    entriesOf scan parseAdv advPresent
      (Run.runsFrom (DbdRow.full advPresent) FullRow.key k own read rest) = none := by
  induction rest generalizing own read with
  | nil =>
    rw [Run.runsFrom, entriesOf, entryOf_eq_none hfirst hadv]
    rfl
  | cons row rest ih =>
    cases hfull : row.full advPresent with
    | none =>
      rw [Run.runsFrom_none hfull]
      exact ih _ hfirst
    | some full =>
      by_cases hkey : full.key = k
      · rw [Run.runsFrom_same hfull hkey]
        apply ih
        rw [head?_append, hfirst]
        rfl
      · rw [Run.runsFrom_next hfull hkey, entriesOf, entryOf_eq_none hfirst hadv]
        rfl

/-- What the loop makes of the runs from the current one on. -/
theorem foldlM_runsFrom (results : List (CacheEntry Adv)) {k : CString × CString}
    {own : List FullRow} {entry : CacheEntry Adv}
    (h : entryOf scan parseAdv advPresent ⟨k, own, read⟩ = some entry) :
    rest.foldlM (buildRow scan parseAdv advPresent) (results, some entry) =
      (entriesOf scan parseAdv advPresent
        (Run.runsFrom (DbdRow.full advPresent) FullRow.key k own read rest)).map
          fun entries => (results ++ entries.dropLast, entries.getLast?) := by
  induction rest generalizing results k own read entry with
  | nil =>
    rw [Run.runsFrom, foldlM_nil, entriesOf, h]
    simp [entriesOf]
  | cons row rest ih =>
    have hread : entryOf scan parseAdv advPresent ⟨k, own, read ++ [row]⟩ =
      some (readRow scan entry row) := entryOf_read h row
    rw [foldlM_cons, buildRow_eq]
    cases hfull : row.full advPresent with
    | none =>
      rw [Run.runsFrom_none hfull]
      exact ih results hread
    | some full =>
      obtain ⟨first, adv, hfirst, hadv, hmade⟩ := entryOf_eq_some.mp hread
      have hrow : completeRow parseAdv advPresent results
          (madeOf scan ⟨k, own, read ++ [row]⟩ first adv) full.profid full.advid full.name
          full.value full.nameSpace full.adv = _ := completeRow_made hadv results
      rw [hmade] at hrow
      rw [Option.getD_some, fullRow, hrow]
      by_cases hkey : full.key = k
      · rw [if_pos hkey, Run.runsFrom_same hfull hkey]
        apply ih results
        refine entryOf_eq_some.mpr ⟨first, adv, ?_, hadv, rfl⟩
        rw [head?_append, hfirst]
        rfl
      · rw [if_neg hkey, Run.runsFrom_next hfull hkey, entriesOf, hread]
        cases hnext : entryOf scan parseAdv advPresent ⟨full.key, [full], []⟩ with
        | none =>
          have hnone : firstAdv parseAdv advPresent full = none := by
            unfold entryOf at hnext
            simpa using hnext
          rw [entriesOf_none rest [] rfl hnone]
          rfl
        | some next =>
          simp only [Option.map_some, Option.bind_eq_bind, Option.bind_some]
          rw [ih (results ++ [readRow scan entry row]) hnext]
          cases hrest : entriesOf scan parseAdv advPresent
            (Run.runsFrom (DbdRow.full advPresent) FullRow.key full.key [full] [] rest) with
          | none => rfl
          | some entries =>
            have hlength := (entriesOf_eq_some.mp hrest).length_eq
            cases entries with
            | nil => exact absurd (length_eq_zero_iff.mp hlength) (runsFrom_ne_nil _ _ _ _)
            | cons last entries => simp

/-- Without a full row nothing but numbers is read. -/
theorem foldlM_blank (hne : rest ≠ []) (hfull : rest.filterMap (DbdRow.full advPresent) = [])
    {pre : Option (CacheEntry Adv)} (hpre : pre.getD .new = blankEntry scan read) :
    ∃ read', rest.foldlM (buildRow scan parseAdv advPresent) ([], pre) =
      some ([], some (blankEntry scan read')) := by
  induction rest generalizing pre read with
  | nil => exact absurd rfl hne
  | cons row rest ih =>
    have hnone : row.full advPresent = none :=
      filterMap_eq_nil_iff.mp hfull row mem_cons_self
    rw [filterMap_cons_none hnone] at hfull
    rw [foldlM_cons, buildRow_eq, hnone, fullRow, hpre, readRow_blank]
    by_cases hrest : rest = []
    · subst hrest
      exact ⟨_, rfl⟩
    · exact ih hrest hfull rfl

/-- What the loop makes of all runs. -/
theorem foldlM_runs (hfull : rest.filterMap (DbdRow.full advPresent) ≠ [])
    {pre : Option (CacheEntry Adv)} (hpre : pre.getD .new = blankEntry scan read) :
    rest.foldlM (buildRow scan parseAdv advPresent) ([], pre) =
      (entriesOf scan parseAdv advPresent
        (Run.runs (DbdRow.full advPresent) FullRow.key read rest)).map
          fun entries => (entries.dropLast, entries.getLast?) := by
  induction rest generalizing pre read with
  | nil => exact absurd rfl hfull
  | cons row rest ih =>
    rw [foldlM_cons, buildRow_eq, hpre, readRow_blank, Run.runs]
    cases hrow : row.full advPresent with
    | none =>
      rw [filterMap_cons_none hrow] at hfull
      exact ih hfull rfl
    | some full =>
      rw [fullRow, completeRow_first]
      cases hnext : entryOf scan parseAdv advPresent ⟨full.key, [full], read ++ [row]⟩ with
      | none =>
        have hnone : firstAdv parseAdv advPresent full = none := by
          unfold entryOf at hnext
          simpa using hnext
        have hentries : entriesOf scan parseAdv advPresent
            (Run.runsFrom (DbdRow.full advPresent) FullRow.key full.key [full] (read ++ [row])
              rest) = none :=
          entriesOf_none rest (read ++ [row]) rfl hnone
        rw [hentries]
        rfl
      | some next =>
        have hrest := foldlM_runsFrom rest [] hnext
        simp only [nil_append] at hrest
        exact hrest

theorem profadv_of_entriesOf (h : entriesOf scan parseAdv advPresent runs = some entries) :
    ∀ entry ∈ entries, ∃ prof, entry.profadv = some prof := by
  have hall := entriesOf_eq_some.mp h
  clear h
  induction hall with
  | nil => exact fun entry hmem => absurd hmem not_mem_nil
  | cons hentry _ ih =>
    intro entry hmem
    rcases mem_cons.mp hmem with rfl | hmem
    · obtain ⟨first, adv, -, -, rfl⟩ := entryOf_eq_some.mp hentry
      exact ⟨_, rfl⟩
    · exact ih entry hmem

theorem runs_ne_nil (hfull : rows.filterMap (DbdRow.full advPresent) ≠ []) :
    Run.runs (DbdRow.full advPresent) FullRow.key read rows ≠ [] := by
  induction rows generalizing read with
  | nil => exact absurd rfl hfull
  | cons row rows ih =>
    rw [Run.runs]
    cases hrow : row.full advPresent with
    | none =>
      rw [filterMap_cons_none hrow] at hfull
      exact ih hfull
    | some full => exact runsFrom_ne_nil _ _ _ _

theorem build_blank (hne : rows ≠ []) (hfull : rows.filterMap (DbdRow.full advPresent) = []) :
    profferAdvertisementsBuild scan parseAdv advPresent rows = .error .nullPointer := by
  have hpre : (none : Option (CacheEntry Adv)).getD .new = blankEntry scan [] := rfl
  obtain ⟨read, hfold⟩ :
      ∃ read, rows.foldlM (buildRow scan parseAdv advPresent) ([], none) =
        some ([], some (blankEntry scan read)) := foldlM_blank rows hne hfull hpre
  unfold profferAdvertisementsBuild
  rw [if_neg hne, hfold]
  rfl

/-- The entries that are returned are those of the runs. -/
theorem build_full (hfull : rows.filterMap (DbdRow.full advPresent) ≠ []) :
    profferAdvertisementsBuild scan parseAdv advPresent rows = .ok
      (entriesOf scan parseAdv advPresent
        (Run.runs (DbdRow.full advPresent) FullRow.key [] rows)) := by
  have hne : rows ≠ [] := by
    rintro rfl
    exact hfull rfl
  have hpre : (none : Option (CacheEntry Adv)).getD .new = blankEntry scan [] := rfl
  have hfold : rows.foldlM (buildRow scan parseAdv advPresent) ([], none) = _ :=
    foldlM_runs rows hfull hpre
  unfold profferAdvertisementsBuild
  rw [if_neg hne, hfold]
  cases hentries : entriesOf scan parseAdv advPresent
    (Run.runs (DbdRow.full advPresent) FullRow.key [] rows) with
  | none => rfl
  | some entries =>
    have hlength := (entriesOf_eq_some.mp hentries).length_eq
    rcases eq_nil_or_concat entries with rfl | ⟨init, last, rfl⟩
    · exact absurd (length_eq_zero_iff.mp hlength) (runs_ne_nil hfull)
    · obtain ⟨prof, hprof⟩ := profadv_of_entriesOf hentries last (by simp)
      rw [Option.map_some, concat_eq_append, dropLast_concat, getLast?_concat]
      dsimp only
      rw [hprof]

/-! ## the entries and their rows -/

/-- The entry of a run is made of its rows, if the run fits. -/
theorem entryOf_own (h : entryOf scan parseAdv advPresent run = some entry) :
    EntryOf scan parseAdv advPresent run.own run.key entry ↔
      RunFits scan parseAdv advPresent run := by
  obtain ⟨first, adv, hfirst, hadv, rfl⟩ := entryOf_eq_some.mp h
  have hmem : first ∈ run.own := mem_of_mem_head? hfirst
  constructor
  · intro hentry
    refine ⟨hentry.lifetime, hentry.expiration, ?_⟩
    intro hpresent row hrow hnone
    obtain rfl := Option.some.inj (hfirst.symm.trans hrow)
    unfold firstAdv at hadv
    rw [if_pos hpresent, hnone] at hadv
    cases hadv
  · intro hfits
    refine ⟨rfl, ⟨first, hmem, rfl⟩, hfits.lifetime, hfits.expiration, ?_⟩
    unfold firstAdv at hadv
    by_cases hpresent : advPresent = true
    · rw [if_pos hpresent] at hadv ⊢
      obtain ⟨jAdv, hparse, rfl⟩ := Option.map_eq_some_iff.mp hadv
      exact ⟨first, hmem, jAdv, hparse, rfl⟩
    · rw [if_neg hpresent] at hadv ⊢
      exact (Option.some.inj hadv).symm

theorem entryOf_ne_none (hne : run.own ≠ [])
    (hadv : advPresent → ∀ row ∈ run.own.head?, row.adv.bind parseAdv ≠ none) :
    ∃ entry, entryOf scan parseAdv advPresent run = some entry := by
  obtain ⟨first, tail, hown⟩ := exists_cons_of_ne_nil hne
  have hfirst : run.own.head? = some first := by rw [hown]; rfl
  by_cases hpresent : advPresent = true
  · obtain ⟨jAdv, hparse⟩ :=
      Option.ne_none_iff_exists'.mp (hadv hpresent first hfirst)
    refine ⟨_, entryOf_eq_some.mpr ⟨first, some jAdv, hfirst, ?_, rfl⟩⟩
    unfold firstAdv
    rw [if_pos hpresent, hparse]
    rfl
  · exact ⟨_, entryOf_eq_some.mpr ⟨first, none, hfirst, if_neg hpresent, rfl⟩⟩

theorem forall₂_entries {bs : List FullRow}
    (h : List.Forall₂ (fun run entry => entryOf scan parseAdv advPresent run = some entry)
      runs entries) (hown : ∀ run ∈ runs, run.own = bs.filter (·.key = run.key)) :
    List.Forall₂ (fun key entry => EntryOf scan parseAdv advPresent
        (bs.filter (·.key = key)) key entry) (runs.map Run.key) entries ↔
      ∀ run ∈ runs, RunFits scan parseAdv advPresent run := by
  rw [List.forall₂_map_left_iff]
  induction h with
  | nil => exact iff_of_true .nil fun run hmem => absurd hmem not_mem_nil
  | cons hentry _ ih =>
    rw [List.forall₂_cons, forall_mem_cons, ← hown _ mem_cons_self, entryOf_own hentry,
      ih fun run hmem => hown run (mem_cons_of_mem _ hmem)]

theorem entriesOf_ne_none (h : ∀ run ∈ runs, run.own ≠ [] ∧
      (advPresent → ∀ row ∈ run.own.head?, row.adv.bind parseAdv ≠ none)) :
    ∃ entries, entriesOf scan parseAdv advPresent runs = some entries := by
  induction runs with
  | nil => exact ⟨[], rfl⟩
  | cons run runs ih =>
    obtain ⟨⟨hne, hadv⟩, hrest⟩ := forall_mem_cons.mp h
    obtain ⟨entry, hentry⟩ : ∃ entry, entryOf scan parseAdv advPresent run = some entry :=
      entryOf_ne_none hne hadv
    obtain ⟨entries, hentries⟩ := ih hrest
    refine ⟨entry :: entries, ?_⟩
    rw [entriesOf, hentry, hentries]
    rfl

/-- The entries are those of the rows just if the runs fit. -/
theorem buildMeets_iff {le : CString × CString → CString × CString → Prop}
    (hanti : ∀ a b, le a b → le b a → a = b) (rows : List DbdRow)
    (hsorted : (rows.filterMap (DbdRow.full advPresent)).Pairwise fun a b => le a.key b.key) :
    BuildMeets scan parseAdv advPresent le rows ↔ RowsFit scan parseAdv advPresent rows := by
  have hgrouped : Run.Grouped FullRow.key le (rows.filterMap (DbdRow.full advPresent))
      (Run.runs (DbdRow.full advPresent) FullRow.key [] rows) :=
    Run.grouped_runs hanti rows [] hsorted
  by_cases hne : rows = []
  · subst hne
    refine iff_of_true ⟨none, rfl, fun _ => rfl, fun h => absurd rfl h⟩ ⟨fun h => absurd rfl h, ?_⟩
    exact fun run hmem => absurd hmem not_mem_nil
  by_cases hfull : rows.filterMap (DbdRow.full advPresent) = []
  · refine iff_of_false ?_ fun hfits => hfits.1 hne hfull
    rintro ⟨ret, hret, -⟩
    rw [build_blank hne hfull] at hret
    cases hret
  have hown : ∀ run ∈ Run.runs (DbdRow.full advPresent) FullRow.key [] rows,
      run.own = (rows.filterMap (DbdRow.full advPresent)).filter (·.key = run.key) :=
    fun run hmem => (hgrouped.own run hmem).1
  constructor
  · rintro ⟨ret, hret, -, hentries⟩
    obtain ⟨entries, keys, rfl, hnodup, hpairwise, hmem, hforall⟩ := hentries hne
    rw [build_full hfull] at hret
    have hall := entriesOf_eq_some.mp (Except.ok.inj hret)
    have hkeys : keys = (Run.runs (DbdRow.full advPresent) FullRow.key [] rows).map Run.key := by
      have hperm := (perm_ext_iff_of_nodup hnodup hgrouped.nodup).mpr fun key =>
        (hmem key).trans (hgrouped.keys key).symm
      exact hperm.eq_of_pairwise (fun a b _ _ => hanti a b) hpairwise hgrouped.sorted
    rw [hkeys] at hforall
    exact ⟨fun _ => hfull, (forall₂_entries hall hown).mp hforall⟩
  · rintro ⟨-, hfits⟩
    obtain ⟨entries, hentries⟩ := entriesOf_ne_none fun run hmem =>
      ⟨(hgrouped.own run hmem).2, (hfits run hmem).adv⟩
    have hall := entriesOf_eq_some.mp hentries
    refine ⟨some entries, by rw [build_full hfull, hentries], fun h => absurd h hne, fun _ => ?_⟩
    exact ⟨entries, _, rfl, hgrouped.nodup, hgrouped.sorted, hgrouped.keys,
      (forall₂_entries hall hown).mpr hfits⟩

end OneRow

/-- For every ordered result set the entries that are returned are those of its full rows, just if
    the runs fit. -/
theorem rows_grouped {Adv : Type} (scan : CString → Option Int) (parseAdv : CString → Option Adv)
    (advPresent : Bool) (le : CString × CString → CString × CString → Prop)
    (hanti : ∀ a b, le a b → le b a → a = b) (rows : List DbdRow)
    (hsorted : (rows.filterMap (DbdRow.full advPresent)).Pairwise fun a b => le a.key b.key) :
    BuildMeets scan parseAdv advPresent le rows ↔ RowsFit scan parseAdv advPresent rows :=
  buildMeets_iff hanti rows hsorted

/-- A row of a peer, with this lifetime. -/
def peerRow (advid lifetime : String) : DbdRow where
  profid := some (.ofBuffer (text "p"))
  advid := some (.ofBuffer (text advid))
  name := some (.ofBuffer (text "Name"))
  value := some (.ofBuffer (text "n"))
  nameSpace := some (.ofBuffer (text "jxta:PA"))
  lifetime := some (.ofBuffer (text lifetime))
  expiration := some (.ofBuffer (text "7"))
  adv := none

/-- `%lld`, of the text of a number. -/
def scanNumber (s : CString) : Option Int := some (Decimal.strtol s.bytes)

/-- Of one advertisement both rows are in its entry. -/
theorem rows_grouped_one :
    BuildMeets scanNumber (fun _ => (none : Option Unit)) false Eq
        [peerRow "a" "5", peerRow "a" "5"] ↔
      RowsFit scanNumber (fun _ => (none : Option Unit)) false
        [peerRow "a" "5", peerRow "a" "5"] :=
  rows_grouped scanNumber _ false Eq (fun _ _ h _ => h) _
    (by simp [peerRow, DbdRow.full, FullRow.key])

/-- Ordered by advertisement ids, and then by peer ids. -/
def byAdvId (a b : CString × CString) : Prop :=
  a = b ∨ a.2.bytes < b.2.bytes ∨ (a.2 = b.2 ∧ a.1.bytes < b.1.bytes)

theorem byAdvId_antisymm (a b : CString × CString) (hab : byAdvId a b) (hba : byAdvId b a) :
    a = b := by
  rcases hab with heq | hlt | ⟨heq, hlt⟩
  · exact heq
  · rcases hba with heq | hlt' | ⟨heq, -⟩
    · exact heq.symm
    · exact absurd hlt' (List.lt_asymm hlt)
    · rw [heq] at hlt
      exact absurd hlt (List.lt_irrefl _)
  · rcases hba with heq' | hlt' | ⟨-, hlt'⟩
    · exact heq'.symm
    · rw [heq] at hlt'
      exact absurd hlt' (List.lt_irrefl _)
    · exact absurd hlt' (List.lt_asymm hlt)

/-- The first of two entries has the lifetime of the second advertisement. -/
theorem not_rows_grouped : ¬ ∀ rows : List DbdRow,
    (rows.filterMap (DbdRow.full false)).Pairwise (fun a b => byAdvId a.key b.key) →
      BuildMeets scanNumber (fun _ => (none : Option Unit)) false byAdvId rows := by
  intro hall
  have hsorted : ([peerRow "a" "5", peerRow "b" "9"].filterMap (DbdRow.full false)).Pairwise
      (fun a b => byAdvId a.key b.key) :=
    pairwise_pair.mpr (.inr (.inl (by decide +kernel)))
  have hfits := (buildMeets_iff byAdvId_antisymm _ hsorted).mp (hall _ hsorted)
  obtain ⟨row, hrow, heq⟩ := (hfits.2 ⟨_, [_], [_, _]⟩ mem_cons_self).lifetime
  obtain rfl := mem_singleton.mp hrow
  exact absurd heq (by decide +kernel)

end JxtaC.Cm
