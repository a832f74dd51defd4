import JxtaC.Base.Status
import JxtaC.Lib.Exec
import JxtaC.Lib.Sql

/-
  The SQL of the cache manager (jxta_sql.h, jxta_cm.c): its tables, the statements it sends, and
  how a JString gets into one. `SQL_VALUE` doubles the quote marks in the JString itself, so a
  second use of the same one doubles them again. A JString keeps here what it was given beside what
  it holds, and a literal what it was written for beside what was written. Allocations succeed.
-/

namespace JxtaC.Cm

open Lib Lib.Sql List

/-- `CM_TBL_*`. -/
inductive Table where
  | elemAttributes
  | srdi
  | replica
  | advertisements
  | srdiDelta
  | srdiIndex
  deriving Repr, DecidableEq

/-- `CM_COL_*`. -/
inductive Column where
  | groupID
  | nameSpace
  | advType
  | handler
  | peerid
  | advId
  | name
  | value
  | numValue
  | numRange
  | timeOut
  | originalTimeout
  | timeOutForOthers
  | advert
  | seqNumber
  | dbAlias
  | replica
  deriving Repr, DecidableEq

/-- The fields of the tables, `jxta_*Table_fields`, in the order of an INSERT. -/
def Table.fields : Table → List Column
  | .elemAttributes => [.nameSpace, .advId, .name, .value, .numValue, .numRange, .timeOut,
      .timeOutForOthers, .groupID]
  | .srdi | .replica => [.nameSpace, .handler, .peerid, .advId, .name, .value, .numValue,
      .numRange, .timeOut, .originalTimeout, .timeOutForOthers, .groupID]
  | .srdiIndex => [.dbAlias, .nameSpace, .peerid, .groupID, .advId, .name, .seqNumber, .timeOut,
      .originalTimeout, .replica]
  | .srdiDelta => [.nameSpace, .handler, .peerid, .advId, .name, .value, .numRange, .timeOut,
      .timeOutForOthers, .groupID, .seqNumber]
  | .advertisements => [.nameSpace, .advType, .advert, .advId, .timeOut, .timeOutForOthers,
      .groupID]

/-! ## JStrings -/

/-- A JString: its characters are what it was given, with the quote marks doubled `k` times. -/
structure JString where
  given : List Byte
  chars : List Byte
  grown : ∃ k, chars = doubled^[k] given

/-- `jstring_new_2`. -/
def JString.new (s : List Byte) : JString := ⟨s, s, 0, rfl⟩

/-- The byte that a LIKE pattern has for a wildcard of a query. -/
def wildcard (c : Byte) : Byte := if c = 42 then 37 else if c = 63 then 95 else c

/-- The loop of `cm_sql_escape_and_wc_value` that copies the string. -/
def escapedChars (replace : Bool) : List Byte → List Byte
  | [] => []
  | c :: s =>
    let b := if replace then wildcard c else c
    if c = 39 then b :: c :: escapedChars replace s else b :: escapedChars replace s

/-- The characters that `cm_sql_escape_and_wc_value` leaves, and its answer. -/
def escapeAndWc (arg : List Byte) (replace : Bool) : List Byte × Bool :=
  let wc := decide (42 ∈ arg ∨ 63 ∈ arg)
  let change := decide (39 ∈ arg) || (replace && wc)
  if change then (escapedChars replace arg, wc) else (arg, false)

theorem wildcard_eq_quote_iff (c : Byte) : wildcard c = 39 ↔ c = 39 := by
  unfold wildcard
  split
  next h => rw [h]; decide
  next =>
    split
    next h => rw [h]; decide
    next => exact Iff.rfl

theorem escapedChars_eq (replace : Bool) (s : List Byte) :
    escapedChars replace s = doubled (if replace then s.map wildcard else s) := by
  induction s with
  | nil => cases replace <;> rfl
  | cons c s ih =>
    cases replace with
    | false =>
      simp only [escapedChars, doubled, ih, Bool.false_eq_true, if_false]
      split
      next hc => rw [hc]
      next => rfl
    | true =>
      simp only [escapedChars, doubled, ih, map_cons, if_true, wildcard_eq_quote_iff]
      split
      next hc => rw [hc]; rfl
      next => rfl

theorem map_wildcard_eq {s : List Byte} (h42 : 42 ∉ s) (h63 : 63 ∉ s) : s.map wildcard = s := by
  have hsame : ∀ c ∈ s, wildcard c = id c := by
    intro c hc
    have h1 : c ≠ 42 := fun h => h42 (h ▸ hc)
    have h2 : c ≠ 63 := fun h => h63 (h ▸ hc)
    rw [wildcard, if_neg h1, if_neg h2]
    rfl
  rw [map_congr_left hsame, map_id]

theorem escapeAndWc_fst (arg : List Byte) (replace : Bool) :
    (escapeAndWc arg replace).1 = doubled (if replace then arg.map wildcard else arg) := by
  unfold escapeAndWc
  dsimp only
  split
  next => exact escapedChars_eq replace arg
  next h =>
    simp only [Bool.or_eq_true, decide_eq_true_eq, Bool.and_eq_true, not_or, not_and] at h
    obtain ⟨hquote, hwc⟩ := h
    cases replace with
    | false => exact ((doubled_eq_self_iff arg).mpr hquote).symm
    | true =>
      have hwc := hwc rfl
      rw [if_pos rfl, map_wildcard_eq hwc.1 hwc.2]
      exact ((doubled_eq_self_iff arg).mpr hquote).symm

theorem iterate_doubled_map_wildcard (k : Nat) (s : List Byte) :
    (doubled^[k] s).map wildcard = doubled^[k] (s.map wildcard) := by
  have hone (t : List Byte) : (doubled t).map wildcard = doubled (t.map wildcard) := by
    induction t with
    | nil => rfl
    | cons c t ih =>
      simp only [doubled, map_cons, wildcard_eq_quote_iff]
      split
      next => simp only [map_cons, ih]; rfl
      next => simp only [map_cons, ih]
  induction k generalizing s with
  | zero => rfl
  | succ k ih => rw [Function.iterate_succ_apply, ih, hone, Function.iterate_succ_apply]

/-- `cm_sql_escape_and_wc_value`: with its wildcards replaced the string stands for the pattern. -/
def cmSqlEscapeAndWcValue (jStr : JString) (replace : Bool) : JString × Bool :=
  ({ given := if replace then jStr.given.map wildcard else jStr.given
     chars := (escapeAndWc jStr.chars replace).1
     grown := by
      obtain ⟨k, hk⟩ := jStr.grown
      refine ⟨k + 1, ?_⟩
      rw [escapeAndWc_fst, hk, Function.iterate_succ_apply']
      cases replace with
      | false => rfl
      | true => simp only [if_true, iterate_doubled_map_wildcard] },
    (escapeAndWc jStr.chars replace).2)

/-- `cm_sql_numeric_quote`: what it appends. -/
def cmSqlNumericQuote (jStr : Option JString) (isNumeric : Bool) : List Byte :=
  match jStr with
  | none => [39, 39]
  | some j =>
    match j.chars with
    | 35 :: number => if isNumeric then number else 39 :: j.chars ++ [39]
    | _ => if isNumeric then [39, 39] else 39 :: j.chars ++ [39]

/-! ## memory -/

/-- A JString of the callers, one that the running function made, or a global one. -/
inductive Ref where
  | caller (n : Nat)
  | own (n : Nat)
  | jPeerNs
  | jGroupNs
  deriving Repr, DecidableEq

/-- The JStrings, and how many the running function made. -/
structure Memory where
  jstring : Ref → JString
  made : Nat

def Memory.set (m : Memory) (r : Ref) (j : JString) : Memory :=
  { m with jstring := fun r' => if r' = r then j else m.jstring r' }

/-- A new string in memory. -/
def Memory.add (m : Memory) (j : JString) : Memory :=
  { m.set (.own m.made) j with made := m.made + 1 }

/-- What the callers of a function pass to it, and the global strings. -/
def Memory.start (strings : Nat → List Byte) : Memory where
  jstring
    | .caller n => .new (strings n)
    | .own _ => .new []
    | .jPeerNs => .new (text "jxta:PA")
    | .jGroupNs => .new (text "jxta:PGA")
  made := 0

/-- Code that builds statements out of JStrings. -/
abbrev Build := StateM Memory

theorem run_bind {α β : Type} (x : Build α) (f : α → Build β) (m : Memory) :
    (x >>= f) m = f (x m).1 (x m).2 := rfl

theorem run_pure {α : Type} (a : α) (m : Memory) : (pure a : Build α) m = (a, m) := rfl

def make (j : JString) : Build Ref := fun m => (.own m.made, m.add j)

/-- `jstring_new_2`. -/
def jstringNew2 (s : List Byte) : Build Ref := make (.new s)

/-- `jstring_new_2` where the string may be NULL. -/
def jstringNew2OrNull : Option (List Byte) → Build (Option Ref)
  | none => pure none
  | some s => do return some (← jstringNew2 s)

/-- `jstring_clone`. -/
def jstringClone (r : Ref) : Build Ref := fun m => make (m.jstring r) m

/-- `cm_sql_escape_and_wc_value` on a string in memory. -/
def escapeAt (v : Option Ref) (replace : Bool) : Build Bool :=
  match v with
  | none => pure false
  | some r => fun m =>
    ((cmSqlEscapeAndWcValue (m.jstring r) replace).2,
      m.set r (cmSqlEscapeAndWcValue (m.jstring r) replace).1)

/-! ## statements -/

/-- A piece of a statement where a value stands: the text, and the value it was written for. -/
structure Literal where
  emitted : List Byte
  meant : Value
  deriving Repr, DecidableEq

/-- What is written for a string in a numeric column: the number behind its `#`, if it has one. -/
def numericValue : List Byte → Value
  | 35 :: number => .number number
  | _ => .text []

/-- How a value gets into a statement. -/
inductive Source where
  /-- `SQL_VALUE`. -/
  | value (v : Option Ref)
  /-- `SQL_NUMERIC_VALUE`. -/
  | numeric (v : Option Ref)
  /-- `apr_snprintf`, or a constant of the code. -/
  | printed (i : Int)
  deriving Repr, DecidableEq

/-- `cm_sql_numeric_quote` on a string in memory. -/
def quoteAt (v : Option Ref) (isNumeric : Bool) : Build Literal := fun m =>
  let given := match v with
    | none => []
    | some r => (m.jstring r).given
  (⟨cmSqlNumericQuote (v.map m.jstring) isNumeric,
    if isNumeric then numericValue given else .text given⟩, m)

def write : Source → Build Literal
  | .value v => do
    let _ ← escapeAt v false
    quoteAt v false
  | .numeric v => quoteAt v true
  | .printed i => pure ⟨Decimal.ofInt i, .number (Decimal.ofInt i)⟩

/-- Values of a statement, one behind the other. -/
def writeAll : List Source → Build (List Literal)
  | [] => pure []
  | s :: ss => do
    let l ← write s
    let ls ← writeAll ss
    return l :: ls

/-- `=`, `!=`, `>` and ` LIKE `. -/
inductive Relation where
  | equal
  | notEqual
  | greaterThan
  | like
  deriving Repr, DecidableEq

/-- A column and a value: a comparison of a WHERE or, with `=`, an assignment of a SET. -/
structure Comparison where
  column : Column
  relation : Relation
  literal : Literal
  deriving Repr, DecidableEq

/-- Comparisons, one behind the other. -/
def compareAll : List (Column × Relation × Source) → Build (List Comparison)
  | [] => pure []
  | (column, relation, source) :: cs => do
    let l ← write source
    let ls ← compareAll cs
    return ⟨column, relation, l⟩ :: ls

/-- The text behind a WHERE. -/
abbrev Where := List (Junct Comparison)

inductive Statement where
  | select (table : Table) (columns : List Column) (condition : Where) (group : Option Column)
  | insert (table : Table) (values : List Literal)
  | update (table : Table) (columns : List Comparison) (condition : Where)
  | delete (table : Table) (condition : Where)
  deriving Repr, DecidableEq

/-- The comparisons in a condition. -/
def atoms : Where → List Comparison
  | [] => []
  | .atom c :: js => c :: atoms js
  | _ :: js => atoms js

/-- The values that stand in a statement. -/
def Statement.literals : Statement → List Literal
  | .select _ _ condition _ => (atoms condition).map Comparison.literal
  | .insert _ values => values
  | .update _ columns condition => (columns ++ atoms condition).map Comparison.literal
  | .delete _ condition => (atoms condition).map Comparison.literal

/-- A database of the cache manager: `id` is a copy of the characters of `jId` when it was new. -/
structure DBSpace where
  id : List Byte
  dbAlias : List Byte
  jId : Nat
  deriving Repr, DecidableEq

/-- The group of a database, in a condition. -/
def groupEquals (jId : Nat) : Column × Relation × Source :=
  (.groupID, .equal, .value (some (.caller jId)))

/-- `cm_sql_select` without an order. -/
def cmSqlSelect (dbSpace : DBSpace) (table : Table) (columns : List Column) (condition : Where)
    (bCheckGroup : Bool) : Build Statement := do
  if bCheckGroup then
    let group ← compareAll [groupEquals dbSpace.jId]
    if condition = [] then return .select table columns (joined .and group) none
    return .select table columns (condition ++ .and :: joined .and group) none
  return .select table columns condition none

end JxtaC.Cm
