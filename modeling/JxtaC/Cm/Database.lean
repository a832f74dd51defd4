import JxtaC.Cm.Literals

/-
  The database behind the statements of the cache manager. A column keeps a text, and a comparison
  compares texts, also where a number stands in the statement: the columns of these conditions are
  declared as varchar. A statement of which a value is not one literal, or an INSERT with too few
  values, is refused. A faithful statement does what its values mean (`all_compareAll`,
  `map_read_writeAll`, `assign_compareAll`).
-/

namespace JxtaC.Cm

open Lib Lib.Sql List
variable {m : Memory} {ss : List Source} {cs : List (Column × Relation × Source)}

abbrev Row := Column → List Byte

abbrev Tables := Table → List Row

def Tables.set (tables : Tables) (table : Table) (rows : List Row) : Tables :=
  fun t => if t = table then rows else tables t

/-- The value that SQL reads where the literal stands. -/
def Literal.read (l : Literal) : Option (List Byte) :=
  match readValue l.emitted with
  | some (v, []) => some v.bytes
  | _ => none

def Relation.holds : Relation → List Byte → List Byte → Bool
  | .equal, a, b => a = b
  | .notEqual, a, b => a ≠ b
  | .greaterThan, a, b => b < a
  | .like, a, b => Sql.like b a

@[simp] theorem holds_equal (a b : List Byte) : Relation.equal.holds a b = true ↔ a = b :=
  decide_eq_true_iff

@[simp] theorem holds_notEqual (a b : List Byte) : Relation.notEqual.holds a b = true ↔ a ≠ b :=
  decide_eq_true_iff

@[simp] theorem holds_greaterThan (a b : List Byte) :
    Relation.greaterThan.holds a b = true ↔ b < a :=
  decide_eq_true_iff

def Comparison.holds (row : Row) (c : Comparison) : Bool :=
  c.relation.holds (row c.column) (c.literal.read.getD [])

/-- The rows of which the condition is true. -/
def Where.rows (condition : Where) (rows : List Row) : List Row :=
  rows.filter fun row => holds (Comparison.holds row) condition

/-- A row with new values in some columns. -/
def Row.assign (row : Row) (columns : List Comparison) : Row := fun column =>
  match columns.find? fun c => c.column = column with
  | none => row column
  | some c => c.literal.read.getD []

/-- The row of an INSERT. -/
def Table.row (table : Table) (values : List (List Byte)) : Row := fun column =>
  ((table.fields.zip values).lookup column).getD []

/-- The condition is one, or there is no WHERE; an INSERT has a value for every column. -/
def Statement.Formed : Statement → Prop
  | .select _ _ condition _ => condition = [] ∨ isCondition condition = true
  | .insert table values => values.length = table.fields.length
  | .update _ _ condition => condition = [] ∨ isCondition condition = true
  | .delete _ condition => condition = [] ∨ isCondition condition = true

instance : ∀ s : Statement, Decidable s.Formed
  | .select _ _ condition _ => inferInstanceAs (Decidable (condition = [] ∨ _))
  | .insert table values => inferInstanceAs (Decidable (values.length = table.fields.length))
  | .update _ _ condition => inferInstanceAs (Decidable (condition = [] ∨ _))
  | .delete _ condition => inferInstanceAs (Decidable (condition = [] ∨ _))

/-- The statement is well formed, and every value in it is one literal. -/
def Statement.Accepted (s : Statement) : Prop :=
  (∀ l ∈ s.literals, l.read.isSome = true) ∧ s.Formed

instance (s : Statement) : Decidable s.Accepted :=
  inferInstanceAs (Decidable (_ ∧ s.Formed))

/-- One row of each value of the column. -/
def grouped (group : Option Column) (rows : List Row) : List Row :=
  match group with
  | none => rows
  | some column => rows.pwFilter fun a b => a column ≠ b column

/-- `apr_dbd_select`. -/
def Tables.select (tables : Tables) (s : Statement) : Option (List ResultRow) :=
  if s.Accepted then
    match s with
    | .select table columns condition group =>
      some ((grouped group (condition.rows (tables table))).map fun row => columns.map row)
    | _ => none
  else none

/-- `apr_dbd_query`. -/
def Tables.query (tables : Tables) (s : Statement) : Option Tables :=
  if s.Accepted then
    match s with
    | .select _ _ _ _ => none
    | .insert table values =>
      some (tables.set table (tables table ++ [table.row (values.map fun l => l.read.getD [])]))
    | .update table columns condition =>
      some (tables.set table ((tables table).map fun row =>
        if holds (Comparison.holds row) condition then row.assign columns else row))
    | .delete table condition =>
      some (tables.set table ((tables table).filter fun row =>
        !holds (Comparison.holds row) condition))
  else none

/-- The database as the code sees it. -/
def Tables.engine (tables : Tables) : Engine :=
  ⟨tables.select, fun s => (tables.query s).isSome⟩

/-- The tables behind the statements; a refused one changes nothing. -/
def Tables.after (tables : Tables) (statements : List Statement) : Tables :=
  statements.foldl (fun tables s => (tables.query s).getD tables) tables

/-! ## faithful statements -/

theorem read_of_faithful {l : Literal} (h : l.Faithful) : l.read = some l.meant.bytes := by
  have hread : readValue l.emitted = some (l.meant, []) := h.readValue
  rw [Literal.read, hread]

/-- What a value in a statement stands for. -/
def Source.meant (m : Memory) : Source → Value
  | .value v => .text ((v.map fun r => (m.jstring r).given).getD [])
  | .numeric v => numericValue ((v.map fun r => (m.jstring r).given).getD [])
  | .printed i => .number (Decimal.ofInt i)

theorem Source.meant_congr {m' : Memory} (h : ∀ r, (m'.jstring r).given = (m.jstring r).given)
    (s : Source) : s.meant m' = s.meant m := by
  cases s with
  | value v => simp only [meant, h]
  | numeric v => simp only [meant, h]
  | printed i => rfl

theorem write_meant (s : Source) (m : Memory) : (write s m).1.meant = s.meant m := by
  cases s with
  | value v =>
    cases v with
    | none => rfl
    | some r => rw [write_value_some]; rfl
  | numeric v => cases v <;> rfl
  | printed i => rfl

theorem writeAll_given (ss : List Source) (m : Memory) (r : Ref) :
    ((writeAll ss m).2.jstring r).given = (m.jstring r).given := by
  have hone : ∀ (k : Nat) (j : JString), (JString.escaped^[k] j).given = j.given := by
    intro k
    induction k with
    | zero => exact fun j => rfl
    | succ k ih => exact fun j => ih j.escaped
  rw [writeAll_jstring]
  exact hone _ _

theorem write_given (s : Source) (m : Memory) (r : Ref) :
    ((write s m).2.jstring r).given = (m.jstring r).given :=
  writeAll_given [s] m r

theorem map_meant_writeAll (ss : List Source) (m : Memory) :
    (writeAll ss m).1.map Literal.meant = ss.map (Source.meant m) := by
  induction ss generalizing m with
  | nil => rfl
  | cons s ss ih =>
    have hmeant : Source.meant (write s m).2 = Source.meant m :=
      funext (Source.meant_congr (write_given s m))
    rw [writeAll_cons, map_cons, ih, write_meant, hmeant, map_cons]

theorem length_writeAll (ss : List Source) (m : Memory) :
    (writeAll ss m).1.length = ss.length := by
  have := congrArg List.length (map_meant_writeAll ss m)
  rwa [length_map, length_map] at this

/-- SQL reads the values of a faithful row. -/
theorem map_read_writeAll (h : ∀ l ∈ (writeAll ss m).1, l.Faithful) :
    (writeAll ss m).1.map Literal.read = ss.map fun s => some (s.meant m).bytes := by
  have hread : (writeAll ss m).1.map Literal.read =
      (writeAll ss m).1.map fun l => some l.meant.bytes :=
    map_congr_left fun l hl => read_of_faithful (h l hl)
  have hmeant := congrArg (List.map fun v : Value => some v.bytes) (map_meant_writeAll ss m)
  rw [map_map, map_map] at hmeant
  exact hread.trans hmeant

/-- A row passes a comparison with what the value stands for. -/
def Tested (m : Memory) (row : Row) (c : Column × Relation × Source) : Bool :=
  c.2.1.holds (row c.1) (c.2.2.meant m).bytes

theorem Tested.congr {m' : Memory} (h : ∀ r, (m'.jstring r).given = (m.jstring r).given)
    (row : Row) : Tested m' row = Tested m row := by
  funext c
  rw [Tested, Tested, Source.meant_congr h]

theorem faithful_cons {c : Column × Relation × Source} :
    (∀ l ∈ (writeAll (sources (c :: cs)) m).1, l.Faithful) ↔
      (write c.2.2 m).1.Faithful ∧
        ∀ l ∈ (writeAll (sources cs) (write c.2.2 m).2).1, l.Faithful :=
  forall_mem_cons

theorem all_compareAll (h : ∀ l ∈ (writeAll (sources cs) m).1, l.Faithful) (row : Row) :
    (compareAll cs m).1.all (Comparison.holds row) = cs.all (Tested m row) := by
  induction cs generalizing m with
  | nil => rfl
  | cons c cs ih =>
    obtain ⟨hc, hcs⟩ := faithful_cons.mp h
    have hfirst : Comparison.holds row ⟨c.1, c.2.1, (write c.2.2 m).1⟩ = Tested m row c := by
      rw [Comparison.holds, read_of_faithful hc, write_meant]
      rfl
    rw [compareAll_cons, all_cons, all_cons, hfirst, ih hcs,
      Tested.congr (write_given c.2.2 m)]

/-- A row with what the values stand for in some columns. -/
def Row.assigned (m : Memory) (row : Row) (cs : List (Column × Relation × Source)) : Row :=
  fun column => ((cs.find? fun c => c.1 = column).map fun c => (c.2.2.meant m).bytes).getD
    (row column)

theorem assign_compareAll (h : ∀ l ∈ (writeAll (sources cs) m).1, l.Faithful) (row : Row) :
    row.assign (compareAll cs m).1 = row.assigned m cs := by
  funext column
  induction cs generalizing m with
  | nil => rfl
  | cons c cs ih =>
    obtain ⟨hc, hcs⟩ := faithful_cons.mp h
    have ih := ih hcs
    unfold Row.assign Row.assigned at ih ⊢
    rw [compareAll_cons, find?_cons, find?_cons]
    by_cases hcol : c.1 = column
    · simp only [hcol, decide_true]
      rw [read_of_faithful hc, write_meant]
      rfl
    · simp only [hcol, decide_false]
      rw [ih]
      simp only [Source.meant_congr (write_given c.2.2 m)]

theorem isSome_read_of_faithful {ls : List Literal} (h : ∀ l ∈ ls, l.Faithful) :
    ∀ l ∈ ls, l.read.isSome = true := by
  intro l hl
  rw [read_of_faithful (h l hl)]
  rfl

theorem formed_joined (cs : List Comparison) :
    joined .and cs = [] ∨ isCondition (joined .and cs) = true := by
  by_cases h : cs = []
  · rw [h]
    exact .inl rfl
  · exact .inr (isCondition_joined_and h)

section
variable (tables : Tables)

section
variable (table : Table)

/-- A SELECT answers with the rows that pass its comparisons. -/
theorem select_compareAll (columns : List Column)
    (h : ∀ l ∈ (writeAll (sources cs) m).1, l.Faithful) :
    tables.engine.select (.select table columns (joined .and (compareAll cs m).1) none) =
      some (((tables table).filter fun row => cs.all (Tested m row)).map fun row =>
        columns.map row) := by
  have haccepted : (Statement.select table columns (joined .and (compareAll cs m).1)
      none).Accepted := by
    refine ⟨isSome_read_of_faithful ?_, formed_joined _⟩
    rwa [select_literals, compareAll_literals]
  show Tables.select _ _ = _
  rw [Tables.select, if_pos haccepted]
  simp only [grouped, Where.rows, holds_and_joined, all_compareAll h]

/-- An INSERT adds the row of its values. -/
theorem query_insert (h : ∀ l ∈ (writeAll ss m).1, l.Faithful)
    (hlen : ss.length = table.fields.length) :
    tables.query (.insert table (writeAll ss m).1) =
      some (tables.set table (tables table ++ [table.row (ss.map fun s => (s.meant m).bytes)])) := by
  have hread := map_read_writeAll h
  have haccepted : (Statement.insert table (writeAll ss m).1).Accepted :=
    ⟨isSome_read_of_faithful h, (length_writeAll ss m).trans hlen⟩
  have hvalues : (writeAll ss m).1.map (fun l => l.read.getD []) =
      ss.map fun s => (s.meant m).bytes := by
    have := congrArg (List.map fun r : Option (List Byte) => r.getD []) hread
    rwa [map_map, map_map] at this
  rw [Tables.query, if_pos haccepted, hvalues]

/-- An INSERT with another number of values is refused. -/
theorem query_insert_short (m : Memory) (hlen : ss.length ≠ table.fields.length) :
    tables.query (.insert table (writeAll ss m).1) = none := by
  have hrefused : ¬ (Statement.insert table (writeAll ss m).1).Accepted := by
    intro h
    exact hlen ((length_writeAll ss m).symm.trans h.2)
  rw [Tables.query, if_neg hrefused]

/-- An UPDATE changes the rows that pass its comparisons. -/
theorem query_update {columns cs : List Comparison}
    (h : ∀ l ∈ (columns ++ cs).map Comparison.literal, l.Faithful) :
    tables.query (.update table columns (joined .and cs)) =
      some (tables.set table ((tables table).map fun row =>
        if cs.all (Comparison.holds row) then row.assign columns else row)) := by
  have haccepted : (Statement.update table columns (joined .and cs)).Accepted := by
    refine ⟨isSome_read_of_faithful ?_, formed_joined _⟩
    rwa [update_literals]
  rw [Tables.query, if_pos haccepted]
  simp only [holds_and_joined]

/-- An UPDATE changes the rows that pass the comparisons behind its SET. -/
theorem query_compareAll {columns : List (Column × Relation × Source)}
    (h : ∀ l ∈ (Statement.update table (compareAll columns m).1
      (joined .and (compareAll cs (compareAll columns m).2).1)).literals, l.Faithful) :
    tables.query (.update table (compareAll columns m).1
        (joined .and (compareAll cs (compareAll columns m).2).1)) =
      some (tables.set table ((tables table).map fun row =>
        if cs.all (Tested m row) then row.assigned m columns else row)) := by
  have hgiven (r : Ref) : ((compareAll columns m).2.jstring r).given = (m.jstring r).given := by
    rw [compareAll_snd, writeAll_given]
  rw [update_literals] at h
  rw [query_update tables table h]
  rw [map_append, forall_mem_append, compareAll_literals, compareAll_literals] at h
  obtain ⟨hcolumns, hcs⟩ := h
  simp only [all_compareAll hcs, assign_compareAll hcolumns, Tested.congr hgiven]

end

/-- Behind a lookup that answers and one change there are the tables of the change. -/
theorem after_lookup {lookup : Statement} {rows : List ResultRow}
    (h : tables.engine.select lookup = some rows) (change : Statement) :
    tables.after [lookup, change] = (tables.query change).getD tables := by
  have hnone : tables.query lookup = none := by
    cases lookup with
    | select table columns condition group =>
      unfold Tables.query
      split <;> rfl
    | insert table values => exact absurd h (by simp [Tables.engine, Tables.select])
    | update table columns condition => exact absurd h (by simp [Tables.engine, Tables.select])
    | delete table condition => exact absurd h (by simp [Tables.engine, Tables.select])
  have hlookup : tables.after [lookup] = tables := by
    show (tables.query lookup).getD tables = tables
    rw [hnone]
    rfl
  show ((tables.after [lookup]).query change).getD (tables.after [lookup]) = _
  rw [hlookup]

end

end JxtaC.Cm
