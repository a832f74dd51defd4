import JxtaC.Cm.Save
import Mathlib.Data.List.Nodup

/-
  The values in the statements of the cache manager, as SQL reads them back. A value that
  `SQL_VALUE` writes is one whole literal of what the JString holds; it is one of what the JString
  was given where no quote mark was doubled before. `writeAll_faithful_iff` says so of any sequence
  of values, in which one string may stand several times.
-/

namespace JxtaC.Cm

open Lib Lib.Sql List
variable {ss : List Source} (m : Memory) (j : JString) (cs : List (Column × Relation × Source))
variable (s : List Byte) (table : Table) (r : Ref)

/-- SQL reads the value back for which the literal was written. -/
def Literal.Faithful (l : Literal) : Prop := Denotes l.emitted l.meant

/-! ## strings -/

/-- The string holds what it was given. -/
def JString.Intact (j : JString) : Prop := j.chars = j.given

/-- The string behind `SQL_VALUE`. -/
def JString.escaped (j : JString) : JString := (cmSqlEscapeAndWcValue j false).1

/-- The text is a number where it has a `#` in front. -/
def IsNumeric (s : List Byte) : Prop := ∀ number, s = 35 :: number → isNumber number = true

instance : ∀ s : List Byte, Decidable (IsNumeric s)
  | [] => isTrue fun _ h => absurd h (by simp)
  | b :: t => decidable_of_iff (b = 35 → isNumber t = true) (by simp [IsNumeric])

@[simp] theorem JString.escaped_given : j.escaped.given = j.given := rfl

@[simp] theorem JString.escaped_chars : j.escaped.chars = doubled j.chars :=
  escapeAndWc_fst j.chars false

theorem JString.escaped_intact_iff {j : JString} (h : j.Intact) :
    j.escaped.Intact ↔ 39 ∉ j.given := by
  unfold Intact at *
  rw [escaped_chars, escaped_given, h, doubled_eq_self_iff]

theorem quoted_faithful_iff :
    Denotes (cmSqlNumericQuote (some j.escaped) false) (.text j.given) ↔ j.Intact := by
  have hquote : cmSqlNumericQuote (some j.escaped) false = 39 :: doubled j.chars ++ [39] := by
    unfold cmSqlNumericQuote
    dsimp only
    split <;> simp
  rw [hquote]
  constructor
  · intro h
    exact Value.text.inj ((denotes_quoted j.chars).unique h)
  · intro h
    rw [← h]
    exact denotes_quoted j.chars

theorem iterate_doubled_cons {b : Byte} (hb : b ≠ 39) (k : Nat) (s : List Byte) :
    doubled^[k] (b :: s) = b :: doubled^[k] s := by
  induction k generalizing s with
  | zero => rfl
  | succ k ih =>
    rw [Function.iterate_succ_apply, Function.iterate_succ_apply, doubled, if_neg hb, ih]

theorem iterate_doubled_eq_self {s : List Byte} (h : 39 ∉ s) (k : Nat) : doubled^[k] s = s :=
  Function.iterate_fixed ((doubled_eq_self_iff s).mpr h) k

theorem head?_iterate_doubled (k : Nat) (s : List Byte) : (doubled^[k] s).head? = s.head? := by
  have hone (t : List Byte) : (doubled t).head? = t.head? := by
    cases t with
    | nil => rfl
    | cons b t =>
      rw [doubled]
      split
      next hb => rw [hb]; rfl
      next => rfl
  induction k generalizing s with
  | zero => rfl
  | succ k ih => rw [Function.iterate_succ_apply, ih, hone]

theorem numericQuote_of_ne {j : JString} (h : j.chars.head? ≠ some 35) :
    cmSqlNumericQuote (some j) true = [39, 39] := by
  unfold cmSqlNumericQuote
  dsimp only
  split
  next number heq => exact absurd (congrArg List.head? heq) h
  next => rfl

theorem numericValue_of_ne {s : List Byte} (h : s.head? ≠ some 35) : numericValue s = .text [] := by
  unfold numericValue
  split
  next number => exact absurd rfl h
  next => rfl

theorem numeric_faithful_iff :
    Denotes (cmSqlNumericQuote (some j) true) (numericValue j.given) ↔ IsNumeric j.given := by
  obtain ⟨k, hk⟩ := j.grown
  have hhead := head?_iterate_doubled k j.given
  rw [← hk] at hhead
  by_cases h : j.given.head? = some 35
  · obtain ⟨number, hgiven⟩ := head?_eq_some_iff.mp h
    have hchars : j.chars = 35 :: doubled^[k] number := by
      rw [hk, hgiven, iterate_doubled_cons (by decide)]
    have htext : cmSqlNumericQuote (some j) true = doubled^[k] number := by
      unfold cmSqlNumericQuote
      dsimp only
      rw [hchars]
      rfl
    rw [htext, hgiven]
    show Denotes _ (.number number) ↔ _
    rw [denotes_number_iff]
    constructor
    · intro hden s hs
      cases hs
      exact hden.2
    · intro hnum
      have hnumber := hnum number rfl
      have hquote : 39 ∉ number := by
        intro hmem
        exact absurd (inside_of_isNumber hnumber 39 hmem) (by decide)
      exact ⟨iterate_doubled_eq_self hquote k, hnumber⟩
  · rw [numericQuote_of_ne (hhead ▸ h), numericValue_of_ne h]
    apply iff_of_true (denotes_quoted [])
    intro number hs
    rw [hs] at h
    exact absurd rfl h

/-! ## sequences of values -/

/-- The strings that `SQL_VALUE` writes, and rewrites. -/
def written : List Source → List Ref
  | [] => []
  | .value (some r) :: ss => r :: written ss
  | _ :: ss => written ss

/-- The strings that `SQL_NUMERIC_VALUE` writes. -/
def numerics : List Source → List Ref
  | [] => []
  | .numeric (some r) :: ss => r :: numerics ss
  | _ :: ss => numerics ss

/-- The strings hold what they were given, none with a quote mark is written twice, and behind a
`#` there is a number where a column is numeric. -/
def WritesWell (m : Memory) (ss : List Source) : Prop :=
  (∀ r ∈ written ss, (m.jstring r).Intact) ∧
    (∀ r, 2 ≤ (written ss).count r → 39 ∉ (m.jstring r).given) ∧
    ∀ r ∈ numerics ss, IsNumeric (m.jstring r).given

/-- The memory behind `SQL_VALUE`. -/
def Memory.escape (m : Memory) (r : Ref) : Memory := m.set r (m.jstring r).escaped

theorem Memory.escape_jstring (r' : Ref) :
    (m.escape r).jstring r' = if r' = r then (m.jstring r).escaped else m.jstring r' := rfl

theorem Memory.escape_given (r' : Ref) :
    ((m.escape r).jstring r').given = (m.jstring r').given := by
  rw [escape_jstring]
  split
  next h => rw [h]; rfl
  next => rfl

theorem write_value_some (m : Memory) :
    write (.value (some r)) m =
      (⟨cmSqlNumericQuote (some (m.jstring r).escaped) false, .text (m.jstring r).given⟩,
        m.escape r) := by
  have hsame : (m.escape r).jstring r = (m.jstring r).escaped := by
    rw [Memory.escape_jstring, if_pos rfl]
  show ((⟨cmSqlNumericQuote (some ((m.escape r).jstring r)) false,
    .text ((m.escape r).jstring r).given⟩ : Literal), m.escape r) = _
  rw [hsame]
  rfl

theorem writeAll_cons (s : Source) (ss : List Source) (m : Memory) :
    writeAll (s :: ss) m =
      ((write s m).1 :: (writeAll ss (write s m).2).1, (writeAll ss (write s m).2).2) := rfl

theorem writesWell_value {m : Memory} {r : Ref} :
    WritesWell m (.value (some r) :: ss) ↔
      (m.jstring r).Intact ∧ WritesWell (m.escape r) ss := by
  have hwritten : written (.value (some r) :: ss) = r :: written ss := rfl
  have hnumerics : numerics (.value (some r) :: ss) = numerics ss := rfl
  have hother {r' : Ref} (h : r' ≠ r) : (m.escape r).jstring r' = m.jstring r' := by
    rw [Memory.escape_jstring, if_neg h]
  have hself : (m.escape r).jstring r = (m.jstring r).escaped := by
    rw [Memory.escape_jstring, if_pos rfl]
  unfold WritesWell
  rw [hwritten, hnumerics]
  simp only [Memory.escape_given, forall_mem_cons]
  constructor
  · intro h
    obtain ⟨⟨hr, hintact⟩, htwice, hnum⟩ := h
    refine ⟨hr, ?_, ?_, hnum⟩
    · intro r' hr'
      by_cases hrr : r' = r
      · rw [hrr] at hr' ⊢
        rw [hself, JString.escaped_intact_iff hr]
        apply htwice
        rw [count_cons_self]
        exact Nat.succ_le_succ (count_pos_iff.mpr hr')
      · rw [hother hrr]
        exact hintact r' hr'
    · intro r' hr'
      exact htwice r' (hr'.trans count_le_count_cons)
  · intro h
    obtain ⟨hr, hintact, htwice, hnum⟩ := h
    refine ⟨⟨hr, ?_⟩, ?_, hnum⟩
    · intro r' hr'
      by_cases hrr : r' = r
      · rw [hrr]
        exact hr
      · rw [← hother hrr]
        exact hintact r' hr'
    · intro r' hr'
      by_cases hrr : r' = r
      · rw [hrr] at hr' ⊢
        rw [count_cons_self] at hr'
        have hmem : r ∈ written ss := count_pos_iff.mp (Nat.le_of_succ_le_succ hr')
        rw [← JString.escaped_intact_iff hr, ← hself]
        exact hintact r hmem
      · rw [count_cons_of_ne (Ne.symm hrr)] at hr'
        exact htwice r' hr'

/-- When all values of a sequence are read back as what the strings were given. -/
theorem writeAll_faithful_iff (ss : List Source) (m : Memory) :
    (∀ l ∈ (writeAll ss m).1, l.Faithful) ↔ WritesWell m ss := by
  induction ss generalizing m with
  | nil =>
    refine iff_of_true (fun l hl => absurd hl not_mem_nil) ⟨?_, ?_, ?_⟩ <;>
      simp [written, numerics]
  | cons s ss ih =>
    rw [writeAll_cons]
    simp only [forall_mem_cons]
    cases s with
    | value v =>
      cases v with
      | none => exact (and_iff_right (denotes_quoted [])).trans (ih m)
      | some r =>
        rw [write_value_some, writesWell_value]
        exact and_congr (quoted_faithful_iff (m.jstring r)) (ih (m.escape r))
    | numeric v =>
      cases v with
      | none => exact (and_iff_right (denotes_quoted [])).trans (ih m)
      | some r =>
        have hnumerics : numerics (.numeric (some r) :: ss) = r :: numerics ss := rfl
        unfold WritesWell
        rw [hnumerics, forall_mem_cons]
        have := and_congr (numeric_faithful_iff (m.jstring r)) (ih m)
        unfold WritesWell at this
        exact this.trans and_left_comm |>.trans (and_congr_right' and_left_comm)
    | printed i => exact (and_iff_right (denotes_ofInt i)).trans (ih m)

theorem writeAll_append (ss ts : List Source) (m : Memory) :
    writeAll (ss ++ ts) m =
      ((writeAll ss m).1 ++ (writeAll ts (writeAll ss m).2).1, (writeAll ts (writeAll ss m).2).2) := by
  induction ss generalizing m with
  | nil => rfl
  | cons s ss ih => rw [cons_append, writeAll_cons, ih, writeAll_cons]; rfl

theorem compareAll_cons (c : Column × Relation × Source) (cs : List (Column × Relation × Source))
    (m : Memory) : compareAll (c :: cs) m =
      (⟨c.1, c.2.1, (write c.2.2 m).1⟩ :: (compareAll cs (write c.2.2 m).2).1,
        (compareAll cs (write c.2.2 m).2).2) := rfl

/-- The values of comparisons. -/
def sources (cs : List (Column × Relation × Source)) : List Source := cs.map fun c => c.2.2

theorem compareAll_snd (m : Memory) : (compareAll cs m).2 = (writeAll (sources cs) m).2 := by
  induction cs generalizing m with
  | nil => rfl
  | cons c cs ih => exact ih (write c.2.2 m).2

theorem compareAll_literals (m : Memory) :
    (compareAll cs m).1.map Comparison.literal = (writeAll (sources cs) m).1 := by
  induction cs generalizing m with
  | nil => rfl
  | cons c cs ih =>
    rw [compareAll_cons, map_cons, ih]
    rfl

theorem writeAll_made (ss : List Source) (m : Memory) : (writeAll ss m).2.made = m.made := by
  induction ss generalizing m with
  | nil => rfl
  | cons s ss ih =>
    rw [writeAll_cons]
    refine (ih _).trans ?_
    cases s with
    | value v => cases v <;> rfl
    | numeric v => rfl
    | printed i => rfl

theorem writeAll_jstring (ss : List Source) (m : Memory) (r : Ref) :
    (writeAll ss m).2.jstring r = JString.escaped^[(written ss).count r] (m.jstring r) := by
  induction ss generalizing m with
  | nil => rfl
  | cons s ss ih =>
    rw [writeAll_cons]
    refine (ih _).trans ?_
    cases s with
    | value v =>
      cases v with
      | none => rfl
      | some r' =>
        have hwritten : written (.value (some r') :: ss) = r' :: written ss := rfl
        rw [write_value_some, hwritten, Memory.escape_jstring]
        split
        next h => rw [← h, count_cons_self, Function.iterate_succ_apply]
        next h => rw [count_cons_of_ne (Ne.symm h)]
    | numeric v => cases v <;> rfl
    | printed i => rfl

/-! ## strings of the running function -/

@[simp] theorem Memory.add_jstring :
    (m.add j).jstring r = if r = .own m.made then j else m.jstring r := rfl

@[simp] theorem Memory.add_made : (m.add j).made = m.made + 1 := rfl

@[simp] theorem JString.new_intact : (JString.new s).Intact := rfl

@[simp] theorem JString.new_given : (JString.new s).given = s := rfl

@[simp] theorem Memory.start_caller (strings : Nat → List Byte) (n : Nat) :
    (Memory.start strings).jstring (.caller n) = .new (strings n) := rfl

@[simp] theorem Memory.start_made (strings : Nat → List Byte) : (Memory.start strings).made = 0 :=
  rfl

@[simp] theorem jstringNew2OrNull_none : jstringNew2OrNull none m = (none, m) := rfl

@[simp] theorem jstringNew2OrNull_some (m : Memory) :
    jstringNew2OrNull (some s) m = (some (.own m.made), m.add (.new s)) := rfl

theorem writesWell_of_nodup {m : Memory} (h : (written ss).Nodup) :
    WritesWell m ss ↔ (∀ r ∈ written ss, (m.jstring r).Intact) ∧
      ∀ r ∈ numerics ss, IsNumeric (m.jstring r).given := by
  have htwice : ∀ r, 2 ≤ (written ss).count r → 39 ∉ (m.jstring r).given := by
    intro r hr
    exact absurd (hr.trans (nodup_iff_count_le_one.mp h r)) (by decide)
  unfold WritesWell
  rw [and_iff_right htwice]

@[simp] theorem atoms_joined (cs : List Comparison) : atoms (joined .and cs) = cs := by
  induction cs with
  | nil => rfl
  | cons c cs ih =>
    cases cs with
    | nil => rfl
    | cons d cs => exact congrArg (c :: ·) ih

theorem select_literals (columns : List Column) (cs : List Comparison) (group : Option Column) :
    (Statement.select table columns (joined .and cs) group).literals =
      cs.map Comparison.literal := by
  show (atoms _).map _ = _
  rw [atoms_joined]

theorem update_literals (columns cs : List Comparison) :
    (Statement.update table columns (joined .and cs)).literals =
      (columns ++ cs).map Comparison.literal := by
  show (columns ++ atoms _).map _ = _
  rw [atoms_joined]

theorem atoms_append (js ks : Where) : atoms (js ++ ks) = atoms js ++ atoms ks := by
  induction js with
  | nil => rfl
  | cons j js ih =>
    cases j with
    | atom c => exact congrArg (c :: ·) ih
    | and => exact ih
    | or => exact ih

theorem compareAll_append (ds : List (Column × Relation × Source)) (m : Memory) :
    compareAll (cs ++ ds) m = ((compareAll cs m).1 ++ (compareAll ds (compareAll cs m).2).1,
      (compareAll ds (compareAll cs m).2).2) := by
  induction cs generalizing m with
  | nil => rfl
  | cons c cs ih => rw [cons_append, compareAll_cons, ih, compareAll_cons]; rfl

theorem joined_append {α : Type} (word : Junct α) {as bs : List α} (ha : as ≠ []) (hb : bs ≠ []) :
    joined word as ++ word :: joined word bs = joined word (as ++ bs) := by
  induction as with
  | nil => exact absurd rfl ha
  | cons a as ih =>
    cases as with
    | nil =>
      obtain ⟨b, bs, rfl⟩ := exists_cons_of_ne_nil hb
      rfl
    | cons a' as =>
      have := ih (cons_ne_nil a' as)
      exact congrArg (fun js => .atom a :: word :: js) this

/-- A SELECT under comparisons, in the group of the database, has the group as its last one. -/
theorem cmSqlSelect_joined (dbSpace : DBSpace) (table : Table) (columns : List Column)
    (cs : List (Column × Relation × Source)) (m : Memory) :
    let ds := compareAll (cs ++ [groupEquals dbSpace.jId]) m
    cmSqlSelect dbSpace table columns (joined .and (compareAll cs m).1) true (compareAll cs m).2 =
      (.select table columns (joined .and ds.1) none, ds.2) := by
  intro ds
  have hds : ds = ((compareAll cs m).1 ++ (compareAll [groupEquals dbSpace.jId]
      (compareAll cs m).2).1, (compareAll [groupEquals dbSpace.jId] (compareAll cs m).2).2) :=
    compareAll_append cs _ m
  rw [hds]
  cases cs with
  | nil => rfl
  | cons c cs =>
    have hne : (compareAll (c :: cs) m).1 ≠ [] := cons_ne_nil _ _
    have hcondition : joined Junct.and (compareAll (c :: cs) m).1 ≠ [] := by
      intro h
      have hnil := congrArg atoms h
      rw [atoms_joined] at hnil
      exact hne hnil
    have hgroup : (compareAll [groupEquals dbSpace.jId] (compareAll (c :: cs) m).2).1 ≠ [] :=
      cons_ne_nil _ _
    have hjoined := joined_append Junct.and hne hgroup
    simp only [cmSqlSelect, hcondition, if_true, if_false]
    rw [← hjoined]
    rfl

/-- A SELECT under comparisons, in the group of the database, writes their values and the group. -/
theorem cmSqlSelect_group (dbSpace : DBSpace) (table : Table) (columns : List Column)
    (cs : List (Column × Relation × Source)) (m : Memory) :
    (cmSqlSelect dbSpace table columns (joined .and (compareAll cs m).1) true
        (compareAll cs m).2).1.literals =
        (writeAll (sources cs ++ [.value (some (.caller dbSpace.jId))]) m).1 ∧
      (cmSqlSelect dbSpace table columns (joined .and (compareAll cs m).1) true
        (compareAll cs m).2).2 =
        (writeAll (sources cs ++ [.value (some (.caller dbSpace.jId))]) m).2 := by
  have hsources : sources (cs ++ [groupEquals dbSpace.jId]) =
      sources cs ++ [.value (some (.caller dbSpace.jId))] := map_append
  rw [cmSqlSelect_joined, select_literals, compareAll_literals, compareAll_snd, hsources]
  exact ⟨rfl, rfl⟩

/-- An UPDATE under comparisons. -/
theorem update_writes (cs ds : List (Column × Relation × Source)) (m : Memory) :
    (Statement.update table (compareAll cs m).1
        (joined .and (compareAll ds (compareAll cs m).2).1)).literals =
        (writeAll (sources cs ++ sources ds) m).1 ∧
      (compareAll ds (compareAll cs m).2).2 = (writeAll (sources cs ++ sources ds) m).2 := by
  rw [writeAll_append, ← compareAll_literals, ← compareAll_snd, ← compareAll_literals,
    ← compareAll_snd, ← map_append]
  refine ⟨?_, rfl⟩
  show ((compareAll cs m).1 ++ atoms _).map _ = _
  rw [atoms_joined]

theorem writeAll_of_not_mem {r : Ref} (h : r ∉ written ss) (m : Memory) :
    (writeAll ss m).2.jstring r = m.jstring r := by
  rw [writeAll_jstring, count_eq_zero.mpr h]
  rfl

theorem writeAll_of_mem (h : (written ss).Nodup) {r : Ref} (hr : r ∈ written ss) (m : Memory) :
    (writeAll ss m).2.jstring r = (m.jstring r).escaped := by
  rw [writeAll_jstring, count_eq_one_of_mem h hr]
  rfl

/-- The database gives one answer to the lookups and one to the changes. -/
def Engine.answering (rows : Option (List ResultRow)) (rv : Bool) : Engine :=
  ⟨fun _ => rows, fun _ => rv⟩

/-- All values in the statements are faithful. -/
def AllFaithful (statements : List Statement) : Prop :=
  ∀ s ∈ statements, ∀ l ∈ s.literals, l.Faithful

theorem allFaithful_cons {s : Statement} {ss : List Statement} :
    AllFaithful (s :: ss) ↔ (∀ l ∈ s.literals, l.Faithful) ∧ AllFaithful ss :=
  forall_mem_cons

theorem allFaithful_one {s : Statement} : AllFaithful [s] ↔ ∀ l ∈ s.literals, l.Faithful :=
  forall_mem_singleton

end JxtaC.Cm
