import JxtaC.Cm.Rows
import JxtaC.Lib.Block
import JxtaC.Lib.FirstKeyed
import JxtaC.Message
import Mathlib.Data.List.AList

/-
  Which databases an advertisement type is kept in (`cm_prefix_split_type_and_check_wc`,
  `cm_dbSpaces_find` and `cm_dbSpaces_get_priv` in jxta_cm.c). The type is split at its colon into a
  buffer of 32 cells, of which only the first one holds a value beforehand; reading a cell without
  one, or behind the last one, is a fault. A hash table lists its values in some order. Failing
  allocations are left out.
-/

namespace JxtaC.Cm

open Lib Lib.Block List
variable {s : List Byte} {t : CString}

/-! ## types of advertisements -/

/-- The cells of a `char prefix[32]`, with the values that were written. -/
abbrev PrefixBuffer := List (Option Byte)

/-- `prefix[0] = '\0'`. -/
def newPrefix : PrefixBuffer := some 0 :: List.replicate 31 none

/-- What the split finds. -/
structure SplitType where
  nsPrefix : PrefixBuffer
  type : Option (List Byte)
  wildcard : Bool
  wildCardPrefix : Bool

/-- The loop of `cm_prefix_split_type_and_check_wc`. -/
def splitFrom (i : Nat) (wildcard : Bool) (nsPrefix : PrefixBuffer) :
    List Byte → Exec (PrefixBuffer × Option (List Byte) × Bool)
  | [] => .ok (nsPrefix, none, wildcard)
  | c :: ns =>
    if c = 58 then do
      let nsPrefix ← writeAt nsPrefix i [some 0]
      if ns.head? = some 42 then return (nsPrefix, none, true)
      else return (nsPrefix, some ns, wildcard)
    else do
      let nsPrefix ← writeAt nsPrefix i [some c]
      splitFrom (i + 1) (wildcard || c = 42) nsPrefix ns

/-- The text that is split: `Adv` stands for a wildcard. -/
def typeText (pAdvType : CString) : List Byte :=
  if pAdvType.bytes = text "Adv" then text "jxta:*" else pAdvType.bytes

/-- `cm_prefix_split_type_and_check_wc`. -/
def cmPrefixSplitTypeAndCheckWc (pAdvType : CString) (nsPrefix : PrefixBuffer) :
    Exec SplitType := do
  let ns := typeText pAdvType
  let wildCardPrefix := decide (ns.head? = some 42)
  let ns := if wildCardPrefix then ns.tail else ns
  let (nsPrefix, type, wildcard) ← splitFrom 0 false nsPrefix ns
  return ⟨nsPrefix, type, wildcard, wildCardPrefix⟩

/-- The string in a prefix buffer, as `strcmp` reads it. -/
def prefixString : PrefixBuffer → Exec (List Byte)
  | some c :: nsPrefix =>
    if c = 0 then .ok []
    else do
      let s ← prefixString nsPrefix
      return c :: s
  | _ => .error .outOfBounds

/-! ## databases -/

/-- `DBSpace`: where it is, the name of its address space, and its alias. -/
structure SpaceDb where
  address : Nat
  asName : List Byte
  dbAlias : List Byte
  deriving DecidableEq

/-- `Jxta_nameSpace`, as it is configured. -/
structure NameSpace where
  nsPrefix : List Byte
  advType : List Byte
  jAddressSpace : Option (List Byte)
  typeIsWildcard : Bool
  wildcard_iff : typeIsWildcard = true ↔ advType.head? = some 42

/-- `Jxta_cm`: of the databases, the name spaces and the types that are resolved already. -/
structure SpaceManager where
  dbSpaces : List SpaceDb
  dbSpaces_nodup : dbSpaces.Nodup
  nameSpaces : List NameSpace
  resolvedAdvs : AList fun _ : CString => SpaceDb
  bestChoiceDB : Option SpaceDb
  defaultDB : Option SpaceDb

/-- `cm_dbSpace_get`. -/
def cmDbSpaceGet (self : SpaceManager) (pAddressSpace : List Byte) : Option SpaceDb :=
  self.dbSpaces.find? fun db => db.asName = pAddressSpace

/-- A database goes into the hash table, unless there is one of its address space's name. -/
def putSpace : List SpaceDb → SpaceDb → List SpaceDb := putNew SpaceDb.asName

/-- The loop body over the resolved types. -/
def addResolved (split : SplitType) (dbsReturned : List SpaceDb) (resolved : CString × SpaceDb) :
    Exec (List SpaceDb) := do
  let own ← cmPrefixSplitTypeAndCheckWc resolved.1 newPrefix
  let splitPrefix ← prefixString own.nsPrefix
  let nsPrefix ← prefixString split.nsPrefix
  return if splitPrefix = nsPrefix then putSpace dbsReturned resolved.2 else dbsReturned

/-- `isContinue` and `nsWildCardMatch` of a name space. -/
def matchNameSpace (split : SplitType) (jns : NameSpace) : Exec (Bool × Bool) := do
  if !split.wildCardPrefix then
    let nsPrefix ← prefixString split.nsPrefix
    if jns.nsPrefix ≠ nsPrefix then return (true, false)
    else if jns.typeIsWildcard then return (false, true)
  if !split.wildcard then
    match split.type with
    | none => .error .nullPointer
    | some type => return (decide (jns.advType ≠ type), false)
  else if !split.wildCardPrefix then
    let nsPrefix ← prefixString split.nsPrefix
    return (decide (jns.nsPrefix ≠ nsPrefix), false)
  else return (false, false)

/-- `cm_dbSpaces_find`: the databases so far, and that of a wildcard. -/
def cmDbSpacesFind (self : SpaceManager) (jName : Option (List Byte)) (nsWildCardMatch : Bool)
    (dbs : List SpaceDb × Option SpaceDb) : List SpaceDb × Option SpaceDb :=
  match jName with
  | none => dbs
  | some jName =>
    if nsWildCardMatch then (dbs.1, cmDbSpaceGet self jName)
    else
      match cmDbSpaceGet self jName with
      | none => dbs
      | some dbRet => (putSpace dbs.1 dbRet, dbs.2)

/-- The loop body over the name spaces. -/
def addNameSpace (self : SpaceManager) (split : SplitType) (dbs : List SpaceDb × Option SpaceDb)
    (jns : NameSpace) : Exec (List SpaceDb × Option SpaceDb) := do
  let (isContinue, nsWildCardMatch) ← matchNameSpace split jns
  return if isContinue then dbs else cmDbSpacesFind self jns.jAddressSpace nsWildCardMatch dbs

/-- The loop over the resolved types, for a wildcard of one prefix. -/
def resolvedSpaces (resolved : Listing (CString × SpaceDb)) (self : SpaceManager)
    (split : SplitType) : Exec (List SpaceDb) :=
  if !split.wildCardPrefix && split.wildcard then
    (resolved.list (self.resolvedAdvs.entries.map fun e => (e.1, e.2))).foldlM
      (addResolved split) []
  else .ok []

/-- The array that is returned. -/
def returnSpaces (values : Listing SpaceDb) (self : SpaceManager) (bestChoice : Bool)
    (dbs : List SpaceDb × Option SpaceDb) : Exec (List SpaceDb) :=
  match values.list dbs.1 with
  | [] =>
    match dbs.2.or (if bestChoice then self.bestChoiceDB else self.defaultDB) with
    | none => .error .nullPointer
    | some db => .ok [db]
  | returnVector => .ok returnVector

/-- The search through the resolved types and the name spaces. -/
def searchSpaces (resolved : Listing (CString × SpaceDb)) (values : Listing SpaceDb)
    (self : SpaceManager) (split : SplitType) (bestChoice : Bool) : Exec (List SpaceDb) := do
  let dbsReturned ← resolvedSpaces resolved self split
  let dbs ← self.nameSpaces.foldlM (addNameSpace self split) (dbsReturned, none)
  returnSpaces values self bestChoice dbs

/-- `cm_dbSpaces_get_priv`. -/
def cmDbSpacesGetPriv (resolved : Listing (CString × SpaceDb)) (values : Listing SpaceDb)
    (self : SpaceManager) (pAdvType : CString) (bestChoice : Bool) : Exec (List SpaceDb) := do
  let split ← cmPrefixSplitTypeAndCheckWc pAdvType newPrefix
  if split.wildcard && split.wildCardPrefix then return self.dbSpaces
  else if !split.wildcard && !split.wildCardPrefix then
    match self.resolvedAdvs.lookup pAdvType with
    | some db => return [db]
    | none => searchSpaces resolved values self split bestChoice
  else searchSpaces resolved values self split bestChoice

/-! ## the two halves of a type -/

section Halves
variable (t : CString)

/-- The type is one of every prefix. -/
def anyPrefix : Bool := decide ((typeText t).head? = some 42)

/-- The type without the `*` that stands for every prefix. -/
def typeBody : List Byte := if anyPrefix t then (typeText t).tail else typeText t

/-- What stands before the colon. -/
def prefixOf : List Byte := (typeBody t).takeWhile (· ≠ 58)

/-- What stands behind the colon. -/
def typeOf : List Byte := ((typeBody t).dropWhile (· ≠ 58)).tail

/-- The type is one of every kind. -/
def anyType : Bool := decide (42 ∈ prefixOf t ∨ (typeOf t).head? = some 42)

/-- There is a colon, and the prefix before it has a cell left for its end. -/
def FitsBuffer : Prop := 58 ∈ typeBody t ∧ (prefixOf t).length < 32

instance : Decidable (FitsBuffer t) := inferInstanceAs (Decidable (_ ∧ _))

/-- The prefix buffer holds a string afterwards. -/
def Terminated : Prop := FitsBuffer t ∨ typeBody t = []

/-- The split answers with the halves of the type. -/
structure SplitsAs (split : SplitType) : Prop where
  terminated : prefixString split.nsPrefix = .ok (prefixOf t)
  wildcard : split.wildcard = anyType t
  wildCardPrefix : split.wildCardPrefix = anyPrefix t
  type : anyType t = false → split.type = some (typeOf t)

end Halves

/-! ### the loop -/

theorem splitFrom_cons {c : Byte} (hc : c ≠ 58) (ns : List Byte) (i : Nat) (wildcard : Bool)
    (b : PrefixBuffer) : splitFrom i wildcard b (c :: ns) =
      (writeAt b i [some c] >>= fun b => splitFrom (i + 1) (wildcard || decide (c = 42)) b ns) := by
  rw [splitFrom, if_neg hc]

theorem or_mem_cons (wildcard : Bool) (c : Byte) (pre : List Byte) :
    (wildcard || decide (c = 42) || decide (42 ∈ pre)) =
      (wildcard || decide (42 ∈ c :: pre)) := by
  simp [Bool.or_assoc, eq_comm]

/-- Up to the colon the loop copies. -/
theorem splitFrom_colon (pre ns : List Byte) (hpre : 58 ∉ pre) (i : Nat) (wildcard : Bool)
    (b : PrefixBuffer) : splitFrom i wildcard b (pre ++ 58 :: ns) =
      (writeAt b i (pre.map some ++ [some 0]) >>= fun b =>
        if ns.head? = some 42 then .ok (b, none, true)
        else .ok (b, some ns, wildcard || decide (42 ∈ pre))) := by
  induction pre generalizing i wildcard b with
  | nil =>
    rw [nil_append, splitFrom, if_pos rfl]
    simp
    rfl
  | cons c pre ih =>
    rw [mem_cons, not_or] at hpre
    rw [cons_append, splitFrom_cons (Ne.symm hpre.1), map_cons, cons_append,
      writeAt_cons_eq b i (some c) (pre.map some ++ [some 0])]
    cases hw : writeAt b i [some c] with
    | error e => rfl
    | ok b' => rw [ok_bind, ok_bind, ih hpre.2, or_mem_cons]

/-- Without a colon it copies everything. -/
theorem splitFrom_plain (pre : List Byte) (hpre : 58 ∉ pre) (i : Nat) (wildcard : Bool)
    (b : PrefixBuffer) (hi : i ≤ b.length) : splitFrom i wildcard b pre =
      (writeAt b i (pre.map some) >>= fun b =>
        .ok (b, none, wildcard || decide (42 ∈ pre))) := by
  induction pre generalizing i wildcard b with
  | nil =>
    rw [map_nil, writeAt_of_le (by simpa using hi)]
    simp [splitFrom]
  | cons c pre ih =>
    rw [mem_cons, not_or] at hpre
    rw [splitFrom_cons (Ne.symm hpre.1), map_cons,
      writeAt_cons_eq b i (some c) (pre.map some)]
    cases hw : writeAt b i [some c] with
    | error e => rfl
    | ok b' =>
      have hle := (writeAt_eq_ok.mp hw).1
      have hlen := length_writeAt hw
      rw [length_singleton] at hle
      rw [ok_bind, ok_bind, ih hpre.2 _ _ b' (by omega), or_mem_cons]

/-! ### the strings of the buffer -/

theorem prefixString_terminated (hs : 0 ∉ s) (rest : PrefixBuffer) :
    prefixString (s.map some ++ some 0 :: rest) = .ok s := by
  induction s with
  | nil => rfl
  | cons c s ih =>
    rw [mem_cons, not_or] at hs
    rw [map_cons, cons_append, prefixString, if_neg (Ne.symm hs.1), ih hs.2]
    rfl

theorem prefixString_plain (hs : 0 ∉ s) (k : Nat) :
    prefixString (s.map some ++ List.replicate k none) = .error .outOfBounds := by
  induction s with
  | nil =>
    cases k with
    | zero => rfl
    | succ k => rfl
  | cons c s ih =>
    rw [mem_cons, not_or] at hs
    rw [map_cons, cons_append, prefixString, if_neg (Ne.symm hs.1), ih hs.2]
    rfl

theorem zero_not_mem_prefixOf (t : CString) : 0 ∉ prefixOf t := by
  intro h
  have hbody : 0 ∈ typeBody t := (List.takeWhile_prefix _).subset h
  have htext : 0 ∈ typeText t := by
    unfold typeBody at hbody
    by_cases hany : anyPrefix t = true
    · rw [if_pos hany] at hbody
      exact mem_of_mem_tail hbody
    · rwa [if_neg hany] at hbody
  unfold typeText at htext
  by_cases hadv : t.bytes = text "Adv"
  · rw [if_pos hadv] at htext
    exact absurd htext (by decide)
  · rw [if_neg hadv] at htext
    exact t.property htext

theorem colon_not_mem_prefixOf (t : CString) : 58 ∉ prefixOf t := by
  intro h
  have hne := mem_takeWhile_imp h
  simp at hne

theorem typeBody_of_colon (h : 58 ∈ typeBody t) : typeBody t = prefixOf t ++ 58 :: typeOf t := by
  have hsplit := takeWhile_append_dropWhile (p := fun c => decide (c ≠ 58)) (l := typeBody t)
  cases hdrop : (typeBody t).dropWhile (· ≠ 58) with
  | nil =>
    have hall := dropWhile_eq_nil_iff.mp hdrop 58 h
    simp at hall
  | cons c rest =>
    have hc : c = 58 := by
      have hhead := head?_dropWhile_not (fun c => decide (c ≠ 58)) (typeBody t)
      rw [hdrop] at hhead
      simpa using hhead
    unfold typeOf
    rw [hdrop, tail_cons, ← hc]
    rw [hdrop] at hsplit
    exact hsplit.symm

theorem typeBody_of_no_colon (h : 58 ∉ typeBody t) : typeBody t = prefixOf t := by
  symm
  apply takeWhile_eq_self_iff.mpr
  intro c hc
  apply decide_eq_true
  intro heq
  rw [heq] at hc
  exact h hc

theorem writeAt_newPrefix (xs : PrefixBuffer) (h : xs.length ≤ 32) :
    writeAt newPrefix 0 xs = .ok (xs ++ newPrefix.drop xs.length) := by
  rw [writeAt_of_le (by rwa [Nat.zero_add]), Nat.zero_add, take_zero, nil_append]

theorem writeAt_newPrefix_error (xs : PrefixBuffer) (h : ¬xs.length ≤ 32) :
    writeAt newPrefix 0 xs = .error .outOfBounds := by
  rw [writeAt, Nat.zero_add]
  exact if_neg h

/-! ### what the split answers -/

/-- The split of the text without the `*`. -/
theorem split_eq (t : CString) (b : PrefixBuffer) : cmPrefixSplitTypeAndCheckWc t b =
    (splitFrom 0 false b (typeBody t) >>= fun r => .ok ⟨r.1, r.2.1, r.2.2, anyPrefix t⟩) := rfl

/-- Where there is a colon and room for the prefix, the halves are found. -/
theorem split_fits (h : FitsBuffer t) :
    ∃ split, cmPrefixSplitTypeAndCheckWc t newPrefix = .ok split ∧ SplitsAs t split := by
  have hwrite := writeAt_newPrefix ((prefixOf t).map some ++ [some 0])
    (by rw [length_append, length_map]; exact h.2)
  rw [split_eq, typeBody_of_colon h.1, splitFrom_colon _ _ (colon_not_mem_prefixOf t), hwrite,
    ok_bind, append_assoc, singleton_append]
  by_cases hstar : (typeOf t).head? = some 42
  · have hany : anyType t = true := decide_eq_true (.inr hstar)
    rw [if_pos hstar, ok_bind]
    refine ⟨_, rfl, prefixString_terminated (zero_not_mem_prefixOf t) _, hany.symm, rfl, ?_⟩
    intro hno
    exact absurd (hany.symm.trans hno) (by decide)
  · have hany : anyType t = (false || decide (42 ∈ prefixOf t)) := by
      simp [anyType, hstar]
    rw [if_neg hstar, ok_bind]
    exact ⟨_, rfl, prefixString_terminated (zero_not_mem_prefixOf t) _, hany.symm, rfl,
      fun _ => rfl⟩

/-- An empty text leaves the empty prefix as it is. -/
theorem split_empty (h : typeBody t = []) :
    cmPrefixSplitTypeAndCheckWc t newPrefix = .ok ⟨newPrefix, none, false, anyPrefix t⟩ := by
  rw [split_eq, h]
  rfl

/-- Nothing else ends in a buffer that holds a string. -/
theorem terminated_of_split {split : SplitType}
    (hsplit : cmPrefixSplitTypeAndCheckWc t newPrefix = .ok split)
    (hs : prefixString split.nsPrefix = .ok s) : Terminated t := by
  rw [split_eq] at hsplit
  by_cases hcolon : 58 ∈ typeBody t
  · refine .inl ⟨hcolon, ?_⟩
    by_contra hlong
    rw [typeBody_of_colon hcolon, splitFrom_colon _ _ (colon_not_mem_prefixOf t),
      writeAt_newPrefix_error _ (by
        rw [length_append, length_map, length_singleton]; omega)] at hsplit
    cases hsplit
  · refine .inr ?_
    by_contra hne
    rw [typeBody_of_no_colon hcolon] at hsplit hne
    rw [splitFrom_plain _ (colon_not_mem_prefixOf t) _ _ _ (Nat.zero_le _)] at hsplit
    by_cases hlen : ((prefixOf t).map some).length ≤ 32
    · rw [writeAt_newPrefix _ hlen, ok_bind, ok_bind] at hsplit
      have hrest : newPrefix.drop ((prefixOf t).map some).length =
          List.replicate (32 - (prefixOf t).length) none := by
        obtain ⟨c, pre, hpre⟩ := exists_cons_of_ne_nil hne
        have hcells : 32 - (pre.length + 1) = 31 - pre.length := by omega
        rw [hpre, map_cons, length_cons, length_map, newPrefix,
          drop_succ_cons, drop_replicate, length_cons, hcells]
      rw [← Except.ok.inj hsplit, hrest, prefixString_plain (zero_not_mem_prefixOf t)] at hs
      cases hs
    · rw [writeAt_newPrefix_error _ hlen] at hsplit
      cases hsplit

theorem exists_terminated_iff : Terminated t ↔
    ∃ split, cmPrefixSplitTypeAndCheckWc t newPrefix = .ok split ∧
      prefixString split.nsPrefix = .ok (prefixOf t) := by
  constructor
  · intro h
    rcases h with h | h
    · obtain ⟨split, hsplit, has⟩ := split_fits h
      exact ⟨split, hsplit, has.terminated⟩
    · refine ⟨_, split_empty h, ?_⟩
      rw [prefixOf, h]
      rfl
  · intro h
    obtain ⟨split, hsplit, hs⟩ := h
    exact terminated_of_split hsplit hs

/-- The split stays in a buffer of its callers, leaves a string there, and finds a type where it
reports no wildcard. -/
def SplitMeets (t : CString) : Prop :=
  ∃ split s, cmPrefixSplitTypeAndCheckWc t newPrefix = .ok split ∧
    prefixString split.nsPrefix = .ok s ∧ (split.wildcard = false → split.type ≠ none)

theorem splitMeets_iff (t : CString) : SplitMeets t ↔ FitsBuffer t := by
  constructor
  · intro h
    obtain ⟨split, s, hsplit, hs, htype⟩ := h
    rcases terminated_of_split hsplit hs with hfits | hempty
    · exact hfits
    · rw [split_empty hempty] at hsplit
      cases hsplit
      exact absurd rfl (htype rfl)
  · intro h
    obtain ⟨split, hsplit, has⟩ := split_fits h
    refine ⟨split, prefixOf t, hsplit, has.terminated, ?_⟩
    intro hno hnone
    rw [has.wildcard] at hno
    have htype := has.type hno
    rw [hnone] at htype
    cases htype

/-! ## what a type selects -/

section Selection
variable (resolved : Listing (CString × SpaceDb)) (values : Listing SpaceDb) (self : SpaceManager)
  (t : CString) (bestChoice : Bool)

/-- The name space is one of the type, and not one of every kind. -/
def Registers (jns : NameSpace) : Bool :=
  (anyPrefix t || jns.nsPrefix = prefixOf t) && (anyType t || jns.advType = typeOf t) &&
    !jns.typeIsWildcard

/-- The name space is the one for whatever has this prefix. -/
def IsFallback (jns : NameSpace) : Bool :=
  !anyPrefix t && jns.nsPrefix = prefixOf t && jns.typeIsWildcard

/-- The database of a name space. -/
def spaceOf (jns : NameSpace) : Option SpaceDb := jns.jAddressSpace.bind (cmDbSpaceGet self)

/-- The databases that are registered for the type. -/
def registered : List SpaceDb := (self.nameSpaces.filter (Registers t)).filterMap (spaceOf self)

/-- The types that are resolved already. -/
def resolvedTypes : List (CString × SpaceDb) := self.resolvedAdvs.entries.map fun e => (e.1, e.2)

/-- The databases of the resolved types that have the prefix, in the order of the hash table. -/
def resolvedTo : List SpaceDb :=
  if !anyPrefix t && anyType t then
    ((resolved.list (resolvedTypes self)).filter fun e => prefixOf e.1 = prefixOf t).map Prod.snd
  else []

/-- The database of the last name space for whatever has this prefix. -/
def wildcardDb : Option SpaceDb :=
  ((self.nameSpaces.filter (IsFallback t)).filterMap NameSpace.jAddressSpace).getLast?.bind
    (cmDbSpaceGet self)

/-- The database that stands in where none matches. -/
def fallbackDb : Option SpaceDb :=
  (wildcardDb self t).or (if bestChoice then self.bestChoiceDB else self.defaultDB)

/-- The database is one of the type: registered for it, the one that the type or another one of its
prefix was resolved to, or one of all. -/
def OfType (db : SpaceDb) : Prop :=
  db ∈ registered self t ∨ db ∈ resolvedTo resolved self t ∨
    self.resolvedAdvs.lookup t = some db ∨
      (anyPrefix t = true ∧ anyType t = true ∧ db ∈ self.dbSpaces)

end Selection

/-- The list has every database that is registered for the type, and no other than those of the type
but for the fallback, which stands alone where none is registered. -/
structure Selects (resolved : Listing (CString × SpaceDb)) (me : SpaceManager) (t : CString)
    (bestChoice : Bool) (dbs : List SpaceDb) : Prop where
  nonempty : dbs ≠ []
  distinct : dbs.Nodup
  complete : ∀ db ∈ registered me t, db ∈ dbs
  fallback : ∀ db ∈ dbs, OfType resolved me t db ∨
    (registered me t = [] ∧ fallbackDb me t bestChoice = some db)

/-! ### the loop over the name spaces -/

section Loops
variable {resolved : Listing (CString × SpaceDb)} {values : Listing SpaceDb} {self : SpaceManager}
  {t : CString} {split : SplitType} {bestChoice : Bool}
variable {jns : NameSpace} {dbs : List SpaceDb} {db : SpaceDb}

theorem isFallback_eq_false (h : Registers t jns = true) : IsFallback t jns = false := by
  unfold Registers at h
  unfold IsFallback
  simp only [Bool.and_eq_true, Bool.not_eq_true'] at h
  rw [h.2, Bool.and_false]

theorem matchNameSpace_eq (hsplit : SplitsAs t split)
    (hall : ¬(anyPrefix t = true ∧ anyType t = true)) (jns : NameSpace) :
    matchNameSpace split jns =
      .ok (!(Registers t jns || IsFallback t jns), IsFallback t jns) := by
  unfold matchNameSpace
  rw [hsplit.wildcard, hsplit.wildCardPrefix, hsplit.terminated]
  unfold Registers IsFallback
  cases hp : anyPrefix t with
  | true =>
    have ht : anyType t = false := by
      rw [hp] at hall
      simpa using hall
    have hwild : jns.advType = typeOf t → jns.typeIsWildcard = false := by
      intro heq
      rw [← Bool.not_eq_true, jns.wildcard_iff, heq]
      unfold anyType at ht
      exact fun hstar => of_decide_eq_false ht (.inr hstar)
    rw [hsplit.type ht, ht]
    by_cases heq : jns.advType = typeOf t
    · simp [heq, hwild heq, pure_eq_ok]
    · simp [heq, pure_eq_ok]
  | false =>
    by_cases heq : jns.nsPrefix = prefixOf t
    · cases hw : jns.typeIsWildcard with
      | true => simp [heq, pure_eq_ok]
      | false =>
        cases ht : anyType t with
        | true => simp [heq, pure_eq_ok]
        | false =>
          rw [hsplit.type ht]
          simp [heq, pure_eq_ok]
    · simp [heq, pure_eq_ok]

/-- What a name space does to the databases found so far. -/
def foundWith (self : SpaceManager) (t : CString) (dbs : List SpaceDb × Option SpaceDb)
    (jns : NameSpace) : List SpaceDb × Option SpaceDb :=
  if Registers t jns || IsFallback t jns then
    cmDbSpacesFind self jns.jAddressSpace (IsFallback t jns) dbs
  else dbs

theorem addNameSpace_eq (hsplit : SplitsAs t split)
    (hall : ¬(anyPrefix t = true ∧ anyType t = true)) (dbs : List SpaceDb × Option SpaceDb)
    (jns : NameSpace) : addNameSpace self split dbs jns = .ok (foundWith self t dbs jns) := by
  unfold addNameSpace foundWith
  rw [matchNameSpace_eq hsplit hall, ok_bind]
  cases h : Registers t jns || IsFallback t jns with
  | true => rfl
  | false => rfl

theorem foundWith_registers (h : Registers t jns = true) (dbs : List SpaceDb × Option SpaceDb) :
    foundWith self t dbs jns = ((spaceOf self jns).toList.foldl putSpace dbs.1, dbs.2) := by
  unfold foundWith
  rw [h, Bool.true_or, if_pos rfl, isFallback_eq_false h]
  unfold cmDbSpacesFind spaceOf
  cases hname : jns.jAddressSpace with
  | none => rfl
  | some jName =>
    cases hget : cmDbSpaceGet self jName with
    | none => simp [hget]
    | some db => simp [hget]

theorem foundWith_fallback (h : IsFallback t jns = true) (dbs : List SpaceDb × Option SpaceDb) :
    foundWith self t dbs jns = (dbs.1, jns.jAddressSpace.elim dbs.2 (cmDbSpaceGet self)) := by
  unfold foundWith
  rw [h, Bool.or_true, if_pos rfl]
  unfold cmDbSpacesFind
  cases hname : jns.jAddressSpace with
  | none => rfl
  | some jName => rfl

/-- The loop over the name spaces adds the registered databases, and keeps the last fallback. -/
theorem foldl_foundWith (nss : List NameSpace) (l : List SpaceDb) :
    nss.foldl (foundWith self t) (l, none) =
      (((nss.filter (Registers t)).filterMap (spaceOf self)).foldl putSpace l,
        ((nss.filter (IsFallback t)).filterMap NameSpace.jAddressSpace).getLast?.bind
          (cmDbSpaceGet self)) := by
  induction nss using List.reverseRecOn with
  | nil => rfl
  | append_singleton nss jns ih =>
    rw [foldl_append, ih, foldl_cons, foldl_nil, filter_append,
      filter_append, filterMap_append, filterMap_append, foldl_append]
    by_cases hreg : Registers t jns = true
    · have hno : (IsFallback t jns) = false := isFallback_eq_false hreg
      rw [foundWith_registers hreg, filter_singleton, filter_singleton, hreg, hno]
      cases hspace : spaceOf self jns with
      | none => simp [hspace]
      | some db => simp [hspace]
    · by_cases hfall : IsFallback t jns = true
      · rw [foundWith_fallback hfall, filter_singleton, filter_singleton,
          Bool.eq_false_iff.mpr hreg, hfall]
        cases hname : jns.jAddressSpace with
        | none => simp [hname]
        | some jName => simp [hname]
      · rw [filter_singleton, filter_singleton, Bool.eq_false_iff.mpr hreg,
          Bool.eq_false_iff.mpr hfall]
        unfold foundWith
        simp [hreg, hfall]

/-! ### the loop over the resolved types -/

theorem addResolved_eq (hsplit : SplitsAs t split) {r : CString × SpaceDb} (hr : Terminated r.1)
    (dbs : List SpaceDb) : addResolved split dbs r =
      .ok (if prefixOf r.1 = prefixOf t then putSpace dbs r.2 else dbs) := by
  obtain ⟨own, hown, hs⟩ := exists_terminated_iff.mp hr
  unfold addResolved
  rw [hown, ok_bind, hs, ok_bind, hsplit.terminated, ok_bind]
  rfl

theorem terminated_of_addResolved {r : CString × SpaceDb} {dbs' : List SpaceDb}
    (h : addResolved split dbs r = .ok dbs') : Terminated r.1 := by
  obtain ⟨own, hown, hrest⟩ := bind_eq_ok.mp h
  obtain ⟨s, hs, -⟩ := bind_eq_ok.mp hrest
  exact terminated_of_split hown hs

theorem foldl_prefix (rs : List (CString × SpaceDb)) (dbs : List SpaceDb) :
    rs.foldl (fun dbs r => if prefixOf r.1 = prefixOf t then putSpace dbs r.2 else dbs) dbs =
      ((rs.filter fun r => prefixOf r.1 = prefixOf t).map Prod.snd).foldl putSpace dbs := by
  induction rs generalizing dbs with
  | nil => rfl
  | cons r rs ih =>
    rw [foldl_cons, ih, filter_cons]
    by_cases hr : prefixOf r.1 = prefixOf t
    · rw [if_pos hr, if_pos (decide_eq_true hr)]
      rfl
    · rw [if_neg hr, if_neg (by simpa using hr)]

/-- All resolved types leave a string in the buffer, where they are looked at. -/
def ResolvedTerminated (self : SpaceManager) (t : CString) : Prop :=
  anyPrefix t = false → anyType t = true → ∀ r ∈ resolvedTypes self, Terminated r.1

/-- The databases in the hash table, when the loops are done. -/
def foundSpaces (resolved : Listing (CString × SpaceDb)) (self : SpaceManager) (t : CString) :
    List SpaceDb :=
  (resolvedTo resolved self t ++ registered self t).foldl putSpace []

theorem resolvedSpaces_eq (hsplit : SplitsAs t split) (h : ResolvedTerminated self t) :
    resolvedSpaces resolved self split = .ok ((resolvedTo resolved self t).foldl putSpace []) := by
  unfold resolvedSpaces
  rw [hsplit.wildCardPrefix, hsplit.wildcard]
  unfold resolvedTo
  by_cases hcase : (!anyPrefix t && anyType t) = true
  · rw [if_pos hcase, if_pos hcase, ← foldl_prefix]
    apply foldlM_eq_ok
    intro dbs r hr
    rw [Bool.and_eq_true, Bool.not_eq_true'] at hcase
    exact addResolved_eq hsplit (h hcase.1 hcase.2 r ((resolved.perm _).mem_iff.mp hr)) dbs
  · rw [if_neg hcase, if_neg hcase]
    rfl

theorem resolvedTerminated_of_ok (hsplit : SplitsAs t split)
    (h : resolvedSpaces resolved self split = .ok dbs) : ResolvedTerminated self t := by
  intro hp ht r hr
  unfold resolvedSpaces at h
  rw [hsplit.wildCardPrefix, hsplit.wildcard, hp, ht] at h
  obtain ⟨c, c', hc⟩ := exists_ok_of_foldlM h r ((resolved.perm _).mem_iff.mpr hr)
  exact terminated_of_addResolved hc

theorem Listing.eq_nil_iff {α : Type} (order : Listing α) (l : List α) :
    order.list l = [] ↔ l = [] := by
  constructor
  · intro h
    have hperm := order.perm l
    rw [h] at hperm
    exact nil_perm.mp hperm
  · intro h
    have hperm := order.perm l
    rw [h] at hperm ⊢
    exact perm_nil.mp hperm

theorem returnSpaces_nil (wildCardDB : Option SpaceDb) :
    returnSpaces values self bestChoice ([], wildCardDB) =
      (wildCardDB.or (if bestChoice then self.bestChoiceDB else self.defaultDB)).elim
        (.error .nullPointer) fun db => .ok [db] := by
  unfold returnSpaces
  rw [(Listing.eq_nil_iff values []).mpr rfl]
  cases wildCardDB.or (if bestChoice then self.bestChoiceDB else self.defaultDB) with
  | none => rfl
  | some db => rfl

theorem returnSpaces_of_ne_nil (h : dbs ≠ []) (wildCardDB : Option SpaceDb) :
    returnSpaces values self bestChoice (dbs, wildCardDB) = .ok (values.list dbs) := by
  unfold returnSpaces
  cases hlist : values.list dbs with
  | nil => exact absurd ((Listing.eq_nil_iff values dbs).mp hlist) h
  | cons db rest => rfl

/-- The databases of the hash table are the answer, and where there is none the fallback is. -/
theorem searchSpaces_eq (hsplit : SplitsAs t split)
    (hall : ¬(anyPrefix t = true ∧ anyType t = true)) (h : ResolvedTerminated self t) :
    searchSpaces resolved values self split bestChoice =
      returnSpaces values self bestChoice (foundSpaces resolved self t, wildcardDb self t) := by
  unfold searchSpaces
  rw [resolvedSpaces_eq hsplit h, ok_bind,
    foldlM_eq_ok self.nameSpaces (fun dbs jns _ => addNameSpace_eq hsplit hall dbs jns), ok_bind,
    foldl_foundWith, ← registered, ← wildcardDb, ← foldl_append, ← foundSpaces]

/-! ### registered databases -/

theorem asName_cmDbSpaceGet {name : List Byte} (h : cmDbSpaceGet self name = some db) :
    db.asName = name := by
  simpa using find?_some h

/-- Two registered databases with one name are one. -/
theorem registered_inj {db' : SpaceDb} (h : db ∈ registered self t) (h' : db' ∈ registered self t)
    (hname : db.asName = db'.asName) : db = db' := by
  obtain ⟨jns, -, hspace⟩ := mem_filterMap.mp h
  obtain ⟨jns', -, hspace'⟩ := mem_filterMap.mp h'
  obtain ⟨name, -, hget⟩ := Option.bind_eq_some_iff.mp hspace
  obtain ⟨name', -, hget'⟩ := Option.bind_eq_some_iff.mp hspace'
  rw [← asName_cmDbSpaceGet hget, hname] at hget
  rw [← asName_cmDbSpaceGet hget', hget] at hget'
  exact Option.some.inj hget'

/-- No other database of its name comes from a resolved type before it. -/
def Unshadowed (resolved : Listing (CString × SpaceDb)) (self : SpaceManager) (t : CString) :
    Prop :=
  ∀ db ∈ registered self t, ∀ r,
    (resolvedTo resolved self t).find? (fun r => r.asName = db.asName) = some r → r = db

theorem mem_foundSpaces (db : SpaceDb) : db ∈ foundSpaces resolved self t ↔
    (resolvedTo resolved self t ++ registered self t).find? (fun r => r.asName = db.asName) =
      some db :=
  mem_foldl_putNew _ db

theorem registered_found_iff : (∀ db ∈ registered self t, db ∈ foundSpaces resolved self t) ↔
    Unshadowed resolved self t := by
  refine forall₂_congr fun db hdb => ?_
  rw [mem_foundSpaces, find?_append]
  cases hfind : (resolvedTo resolved self t).find? fun r => r.asName = db.asName with
  | some r =>
    rw [Option.some_or]
    exact ⟨fun h r' hr' => (Option.some.inj (hr'.symm.trans h)),
      fun h => congrArg some (h r rfl)⟩
  | none =>
    rw [Option.none_or]
    refine iff_of_true ?_ (fun r hr => absurd hr (by simp))
    cases hreg : (registered self t).find? fun r => r.asName = db.asName with
    | none =>
      have hno := find?_eq_none.mp hreg db hdb
      exact absurd (decide_eq_true rfl) hno
    | some r =>
      have hname : r.asName = db.asName := by simpa using find?_some hreg
      rw [registered_inj (mem_of_find?_eq_some hreg) hdb hname]

theorem foundSpaces_nodup : (foundSpaces resolved self t).Nodup := by
  have hnil : (([] : List SpaceDb).map SpaceDb.asName).Nodup := nodup_nil
  exact (nodup_foldl_putNew hnil _).of_map

theorem foundSpaces_eq_nil :
    foundSpaces resolved self t = [] ↔ resolvedTo resolved self t = [] ∧ registered self t = [] :=
  (foldl_putNew_eq_nil _).trans append_eq_nil_iff

/-! ### when the selection is one of the type -/

theorem selects_found (hne : foundSpaces resolved self t ≠ []) (h : Unshadowed resolved self t) :
    Selects resolved self t bestChoice (values.list (foundSpaces resolved self t)) where
  nonempty := fun hnil => hne ((Listing.eq_nil_iff values _).mp hnil)
  distinct := (values.perm _).nodup_iff.mpr foundSpaces_nodup
  complete := fun db hdb => (values.perm _).mem_iff.mpr (registered_found_iff.mpr h db hdb)
  fallback := by
    intro db hdb
    have hfound := (mem_foundSpaces db).mp ((values.perm _).mem_iff.mp hdb)
    rcases mem_append.mp (mem_of_find?_eq_some hfound) with hres | hreg
    · exact .inl (.inr (.inl hres))
    · exact .inl (.inl hreg)

theorem selects_fallback (hreg : registered self t = [])
    (hdb : fallbackDb self t bestChoice = some db) : Selects resolved self t bestChoice [db] where
  nonempty := cons_ne_nil db []
  distinct := nodup_singleton db
  complete := by
    rw [hreg]
    exact fun db' hdb' => absurd hdb' not_mem_nil
  fallback := by
    intro db' hdb'
    rw [mem_singleton.mp hdb']
    exact .inr ⟨hreg, hdb⟩

/-- A search selects by the type if the resolved types end in their buffers, none of them stands in
for a registered database, and there is a fallback where it is needed. -/
theorem searchSpaces_selects_iff (hsplit : SplitsAs t split)
    (hall : ¬(anyPrefix t = true ∧ anyType t = true)) :
    (∃ dbs, searchSpaces resolved values self split bestChoice = .ok dbs ∧
        Selects resolved self t bestChoice dbs) ↔
      ResolvedTerminated self t ∧ Unshadowed resolved self t ∧
        (resolvedTo resolved self t = [] → registered self t = [] →
          fallbackDb self t bestChoice ≠ none) := by
  constructor
  · intro h
    obtain ⟨dbs, hdbs, hsel⟩ := h
    have hterm : ResolvedTerminated self t := by
      unfold searchSpaces at hdbs
      obtain ⟨found, hfound, -⟩ := bind_eq_ok.mp hdbs
      exact resolvedTerminated_of_ok hsplit hfound
    rw [searchSpaces_eq hsplit hall hterm] at hdbs
    by_cases hnil : foundSpaces resolved self t = []
    · have hempty := foundSpaces_eq_nil.mp hnil
      refine ⟨hterm, ?_, ?_⟩
      · intro db hdb
        rw [hempty.2] at hdb
        exact absurd hdb not_mem_nil
      · intro _ _ hnone
        rw [hnil, returnSpaces_nil] at hdbs
        rw [fallbackDb] at hnone
        rw [hnone] at hdbs
        cases hdbs
    · refine ⟨hterm, ?_, fun hres hreg => absurd (foundSpaces_eq_nil.mpr ⟨hres, hreg⟩) hnil⟩
      rw [returnSpaces_of_ne_nil hnil] at hdbs
      cases hdbs
      exact registered_found_iff.mp fun db hdb =>
        (values.perm _).mem_iff.mp (hsel.complete db hdb)
  · intro h
    obtain ⟨hterm, hun, hfall⟩ := h
    rw [searchSpaces_eq hsplit hall hterm]
    by_cases hnil : foundSpaces resolved self t = []
    · have hempty := foundSpaces_eq_nil.mp hnil
      obtain ⟨db, hdb⟩ := Option.ne_none_iff_exists'.mp (hfall hempty.1 hempty.2)
      refine ⟨[db], ?_, selects_fallback hempty.2 hdb⟩
      rw [hnil, returnSpaces_nil]
      rw [fallbackDb] at hdb
      rw [hdb]
      rfl
    · exact ⟨_, returnSpaces_of_ne_nil hnil _, selects_found hnil hun⟩

/-- What is asked of a split and of a selection. -/
def SelectionMeets (resolved : Listing (CString × SpaceDb)) (values : Listing SpaceDb)
    (self : SpaceManager) (t : CString) (bestChoice : Bool) : Prop :=
  SplitMeets t ∧ ∃ dbs, cmDbSpacesGetPriv resolved values self t bestChoice = .ok dbs ∧
    Selects resolved self t bestChoice dbs

/-- The type fits, and: for every prefix and kind there is a database at all; a type that was
resolved has no other database; a prefix with every kind comes upon no resolved type that does not
fit or has another database of the name of a registered one; what has no database has a
fallback. -/
structure Selectable (resolved : Listing (CString × SpaceDb)) (me : SpaceManager) (t : CString)
    (bestChoice : Bool) : Prop where
  fits : FitsBuffer t
  every : anyPrefix t = true → anyType t = true → me.dbSpaces ≠ []
  known : anyPrefix t = false → anyType t = false → ∀ r, me.resolvedAdvs.lookup t = some r →
    ∀ db ∈ registered me t, db = r
  terminated : ResolvedTerminated me t
  unshadowed : Unshadowed resolved me t
  fallback : ¬(anyPrefix t = true ∧ anyType t = true) →
    (anyPrefix t = false → anyType t = false → me.resolvedAdvs.lookup t = none) →
      resolvedTo resolved me t = [] → registered me t = [] →
        fallbackDb me t bestChoice ≠ none

theorem resolvedTo_of_not {resolved : Listing (CString × SpaceDb)}
    (h : ¬(anyPrefix t = false ∧ anyType t = true)) : resolvedTo resolved self t = [] := by
  unfold resolvedTo
  rw [if_neg (by simpa using h)]

theorem unshadowed_of_not (h : ¬(anyPrefix t = false ∧ anyType t = true)) :
    Unshadowed resolved self t := by
  intro db hdb r hr
  rw [resolvedTo_of_not h] at hr
  cases hr

theorem registered_mem_dbSpaces (h : db ∈ registered self t) : db ∈ self.dbSpaces := by
  obtain ⟨jns, -, hspace⟩ := mem_filterMap.mp h
  obtain ⟨name, -, hget⟩ := Option.bind_eq_some_iff.mp hspace
  exact mem_of_find?_eq_some hget

/-- All databases are selected, if there are any. -/
theorem every_selects_iff (hp : anyPrefix t = true) (ht : anyType t = true) :
    Selects resolved self t bestChoice self.dbSpaces ↔ self.dbSpaces ≠ [] := by
  constructor
  · intro h
    exact h.nonempty
  · intro h
    exact ⟨h, self.dbSpaces_nodup, fun db hdb => registered_mem_dbSpaces hdb,
      fun db hdb => .inl (.inr (.inr (.inr ⟨hp, ht, hdb⟩)))⟩

/-- A resolved database is selected, if no other one is registered. -/
theorem known_selects_iff {r : SpaceDb} (hr : self.resolvedAdvs.lookup t = some r) :
    Selects resolved self t bestChoice [r] ↔ ∀ db ∈ registered self t, db = r := by
  constructor
  · intro h db hdb
    exact mem_singleton.mp (h.complete db hdb)
  · intro h
    refine ⟨cons_ne_nil r [], nodup_singleton r, ?_, ?_⟩
    · intro db hdb
      exact mem_singleton.mpr (h db hdb)
    · intro db hdb
      rw [mem_singleton.mp hdb]
      exact .inl (.inr (.inr (.inl hr)))

theorem not_prefix_wildcard (h : anyPrefix t = anyType t) :
    ¬(anyPrefix t = false ∧ anyType t = true) := by
  intro hno
  rw [h, hno.2] at hno
  exact absurd hno.1 (by decide)

/-! ### the three ways -/

section
variable (hsplit : cmPrefixSplitTypeAndCheckWc t newPrefix = .ok split)
include hsplit

theorem priv_every (has : SplitsAs t split) (hall : anyPrefix t = true ∧ anyType t = true) :
    cmDbSpacesGetPriv resolved values self t bestChoice = .ok self.dbSpaces := by
  unfold cmDbSpacesGetPriv
  rw [hsplit, ok_bind, has.wildcard, has.wildCardPrefix, hall.1, hall.2]
  rfl

theorem priv_known (has : SplitsAs t split) (hexact : anyPrefix t = false ∧ anyType t = false)
    {r : SpaceDb} (hr : self.resolvedAdvs.lookup t = some r) :
    cmDbSpacesGetPriv resolved values self t bestChoice = .ok [r] := by
  unfold cmDbSpacesGetPriv
  rw [hsplit, ok_bind, has.wildcard, has.wildCardPrefix, hexact.1, hexact.2, hr]
  rfl

theorem priv_search (has : SplitsAs t split) (hall : ¬(anyPrefix t = true ∧ anyType t = true))
    (hnone : anyPrefix t = false → anyType t = false → self.resolvedAdvs.lookup t = none) :
    cmDbSpacesGetPriv resolved values self t bestChoice =
      searchSpaces resolved values self split bestChoice := by
  unfold cmDbSpacesGetPriv
  rw [hsplit, ok_bind, has.wildcard, has.wildCardPrefix]
  cases hp : anyPrefix t with
  | true =>
    cases ht : anyType t with
    | true => exact absurd ⟨hp, ht⟩ hall
    | false => rfl
  | false =>
    cases ht : anyType t with
    | true => rfl
    | false =>
      rw [hnone hp ht]
      rfl

end

end Loops

section Selected
variable (resolved : Listing (CString × SpaceDb)) (values : Listing SpaceDb) (self : SpaceManager)
  (t : CString) (bestChoice : Bool)

theorem selection_meets_iff :
    SelectionMeets resolved values self t bestChoice ↔ Selectable resolved self t bestChoice := by
  unfold SelectionMeets
  rw [splitMeets_iff]
  by_cases hfits : FitsBuffer t
  swap
  · exact iff_of_false (fun h => hfits h.1) (fun h => hfits h.fits)
  obtain ⟨split, hsplit, has⟩ := split_fits hfits
  by_cases hall : anyPrefix t = true ∧ anyType t = true
  · have hno := not_prefix_wildcard (hall.1.trans hall.2.symm)
    rw [priv_every hsplit has hall]
    constructor
    · intro h
      obtain ⟨-, dbs, hdbs, hsel⟩ := h
      cases hdbs
      exact ⟨hfits, fun _ _ => hsel.nonempty, fun hp => absurd (hall.1.symm.trans hp) (by decide),
        fun hp => absurd (hall.1.symm.trans hp) (by decide), unshadowed_of_not hno,
        fun h => absurd hall h⟩
    · intro h
      exact ⟨hfits, _, rfl, (every_selects_iff hall.1 hall.2).mpr (h.every hall.1 hall.2)⟩
  by_cases hknown : (anyPrefix t = false ∧ anyType t = false) ∧
      ∃ r, self.resolvedAdvs.lookup t = some r
  · obtain ⟨hexact, r, hr⟩ := hknown
    have hno := not_prefix_wildcard (hexact.1.trans hexact.2.symm)
    rw [priv_known hsplit has hexact hr]
    constructor
    · intro h
      obtain ⟨-, dbs, hdbs, hsel⟩ := h
      cases hdbs
      refine ⟨hfits, fun hp ht => absurd ⟨hp, ht⟩ hall, ?_,
        fun _ ht => absurd (hexact.2.symm.trans ht) (by decide), unshadowed_of_not hno, ?_⟩
      · intro _ _ r' hr'
        obtain rfl := Option.some.inj (hr.symm.trans hr')
        exact (known_selects_iff hr).mp hsel
      · intro _ hnone
        exact absurd (hr.symm.trans (hnone hexact.1 hexact.2)) (by simp)
    · intro h
      exact ⟨hfits, _, rfl, (known_selects_iff hr).mpr (h.known hexact.1 hexact.2 r hr)⟩
  · have hnone : anyPrefix t = false → anyType t = false →
        self.resolvedAdvs.lookup t = none := by
      intro hp ht
      apply Option.eq_none_iff_forall_ne_some.mpr
      exact fun r hr => hknown ⟨⟨hp, ht⟩, r, hr⟩
    rw [priv_search hsplit has hall hnone, searchSpaces_selects_iff has hall]
    constructor
    · intro h
      obtain ⟨-, hterm, hun, hfall⟩ := h
      refine ⟨hfits, fun hp ht => absurd ⟨hp, ht⟩ hall, ?_, hterm, hun, fun _ _ => hfall⟩
      intro hp ht r hr
      exact absurd ((hnone hp ht).symm.trans hr) (by simp)
    · intro h
      exact ⟨hfits, h.terminated, h.unshadowed, h.fallback hall hnone⟩

end Selected

/-- A type with forty bytes before its colon. -/
def longType : CString := ⟨List.replicate 40 97 ++ text ":PA", by decide⟩

/-- No database. -/
def noSpaces : SpaceManager := ⟨[], nodup_nil, [], ∅, none, none⟩

theorem not_selection_meets : ¬∀ (resolved : Listing (CString × SpaceDb)) (values : Listing SpaceDb)
    (self : SpaceManager) (t : CString) (bestChoice : Bool),
    SelectionMeets resolved values self t bestChoice := by
  intro h
  have hmeets := h ⟨id, fun l => List.Perm.refl l⟩ ⟨id, fun l => List.Perm.refl l⟩ noSpaces longType
    false
  have hfits := (splitMeets_iff longType).mp hmeets.1
  exact absurd hfits (by decide)

end JxtaC.Cm
