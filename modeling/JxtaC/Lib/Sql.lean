import JxtaC.Lib.Decimal
import Mathlib.Data.List.Infix
import Mathlib.Logic.Function.Iterate

/-
  SQL texts as an engine reads them: the literals, and the conditions of a WHERE.
  A literal is a string between quote marks, in which a quote mark stands twice, or a number.
  `Denotes`: a text is one whole literal of a value, whatever the statement goes on with.
  AND binds stronger than OR (`holds_or`, `holds_and`). Nothing here depends on the modelled code.
-/

namespace JxtaC.Lib.Sql

open List
variable {b : UInt8} {t : List UInt8} (s : List UInt8)

/-! ## string literals -/

/-- Every quote mark of the text stands twice. -/
def doubled : List UInt8 → List UInt8
  | [] => []
  | b :: s => if b = 39 then 39 :: 39 :: doubled s else b :: doubled s

/-- The rest of a string literal, behind its first quote mark: the string, and what follows. -/
def readString : List UInt8 → Option (List UInt8 × List UInt8)
  | [] => none
  | b :: t =>
    if b = 39 then
      match t with
      | [] => some ([], [])
      | c :: t' =>
        if c = 39 then (readString t').map fun p => (39 :: p.1, p.2) else some ([], c :: t')
    else (readString t).map fun p => (b :: p.1, p.2)

theorem length_le_doubled : s.length ≤ (doubled s).length := by
  induction s with
  | nil => exact le_rfl
  | cons b s ih =>
    unfold doubled
    split <;> simp only [length_cons] <;> omega

theorem doubled_eq_self_iff : doubled s = s ↔ 39 ∉ s := by
  induction s with
  | nil => simp [doubled]
  | cons b s ih =>
    unfold doubled
    split
    next hb =>
      have hlen := length_le_doubled s
      apply iff_of_false
      · intro h
        have := congrArg List.length h
        simp only [length_cons] at this
        omega
      · simp [hb]
    next hb => simp [ih, Ne.symm hb]

theorem readString_cons_ne (hb : b ≠ 39) (t : List UInt8) :
    readString (b :: t) = (readString t).map fun p => (b :: p.1, p.2) := by
  rw [readString.eq_def]
  exact if_neg hb

theorem readString_pair (t : List UInt8) :
    readString (39 :: 39 :: t) = (readString t).map fun p => (39 :: p.1, p.2) := rfl

theorem readString_end {rest : List UInt8} (h : rest.head? ≠ some 39) :
    readString (39 :: rest) = some ([], rest) := by
  cases rest with
  | nil => rfl
  | cons c t =>
    have hc : c ≠ 39 := fun hc => h (by rw [hc]; rfl)
    simp [readString, hc]

theorem readString_doubled {rest : List UInt8} (h : rest.head? ≠ some 39) :
    readString (doubled s ++ 39 :: rest) = some (s, rest) := by
  induction s with
  | nil => exact readString_end h
  | cons b s ih =>
    unfold doubled
    split
    next hb =>
      rw [cons_append, cons_append, readString_pair, ih, hb]
      rfl
    next hb =>
      rw [cons_append, readString_cons_ne hb, ih]
      rfl

/-! ## numbers -/

def isHexDigit (b : UInt8) : Bool :=
  Decimal.isDigit b ∨ (65 ≤ b.toNat ∧ b.toNat ≤ 70) ∨ (97 ≤ b.toNat ∧ b.toNat ≤ 102)

/-- The text without a sign in front. -/
def unsigned : List UInt8 → List UInt8
  | [] => []
  | b :: t => if b = 43 ∨ b = 45 then t else b :: t

/-- Digits. -/
def isWhole (t : List UInt8) : Bool := t ≠ [] ∧ t.all Decimal.isDigit

/-- Digits, with a point before, between or behind them. -/
def isDecimal (t : List UInt8) : Bool :=
  isWhole (t.takeWhile Decimal.isDigit ++ (t.dropWhile Decimal.isDigit).tail) ∧
    (t.dropWhile Decimal.isDigit).head?.all (· = 46)

/-- A numeric literal behind its sign: hexadecimal, or decimal with an exponent. -/
def isNumeral (t : List UInt8) : Bool :=
  match t with
  | 48 :: x :: t' => if x = 120 ∨ x = 88 then t' ≠ [] ∧ t'.all isHexDigit else isReal t
  | _ => isReal t
where
  /-- The decimal before an `e` or an `E`, and the exponent behind it. -/
  isReal (t : List UInt8) : Bool :=
    match t.dropWhile fun b => b ≠ 101 ∧ b ≠ 69 with
    | [] => isDecimal t
    | _ :: e => isDecimal (t.takeWhile fun b => b ≠ 101 ∧ b ≠ 69) ∧ isWhole (unsigned e)

/-- A number with or without a sign. -/
def isNumber (t : List UInt8) : Bool := isNumeral (unsigned t)

/-- The bytes that end a word of a statement. -/
def isDelimiter (b : UInt8) : Bool := b = 32 ∨ b = 41 ∨ b = 44 ∨ b = 59

/-- A byte that neither ends a word nor opens a string. -/
def isInside (b : UInt8) : Bool := b ≠ 39 ∧ !isDelimiter b

theorem isInside_of_isDigit (h : Decimal.isDigit b = true) : isInside b = true := by
  unfold Decimal.isDigit at h
  rw [decide_eq_true_iff] at h
  unfold isInside isDelimiter
  simp only [Bool.not_eq_true', decide_eq_false_iff_not, not_or, decide_eq_true_eq,
    ← UInt8.toNat_inj, ne_eq, UInt8.reduceToNat]
  omega

theorem isInside_of_isHexDigit (h : isHexDigit b = true) : isInside b = true := by
  unfold isHexDigit Decimal.isDigit at h
  simp only [decide_eq_true_eq] at h
  unfold isInside isDelimiter
  simp only [Bool.not_eq_true', decide_eq_false_iff_not, not_or, decide_eq_true_eq,
    ← UInt8.toNat_inj, ne_eq, UInt8.reduceToNat]
  omega

theorem inside_of_isWhole (h : isWhole t = true) : ∀ b ∈ t, isInside b = true := by
  unfold isWhole at h
  rw [decide_eq_true_iff] at h
  exact fun b hb => isInside_of_isDigit (all_eq_true.mp h.2 b hb)

theorem inside_of_isDecimal (h : isDecimal t = true) : ∀ b ∈ t, isInside b = true := by
  unfold isDecimal at h
  rw [decide_eq_true_iff] at h
  have hwhole := inside_of_isWhole h.1
  intro b hb
  rw [← takeWhile_append_dropWhile (p := Decimal.isDigit) (l := t)] at hb
  cases hdrop : t.dropWhile Decimal.isDigit with
  | nil =>
    rw [hdrop, append_nil] at hb
    exact hwhole b (mem_append_left _ hb)
  | cons c rest =>
    rw [hdrop] at hb hwhole h
    rw [mem_append, mem_cons] at hb
    obtain hb | hb | hb := hb
    · exact hwhole b (mem_append_left _ hb)
    · have hc : c = 46 := by simpa using h.2
      rw [hb, hc]
      decide
    · exact hwhole b (mem_append_right _ hb)

theorem inside_of_unsigned (h : ∀ b ∈ unsigned t, isInside b = true) :
    ∀ b ∈ t, isInside b = true := by
  cases t with
  | nil => exact h
  | cons c t =>
    rw [unsigned] at h
    split at h
    next hc =>
      have hsign : isInside c = true := by obtain rfl | rfl := hc <;> decide
      exact forall_mem_cons.mpr ⟨hsign, h⟩
    next => exact h

theorem inside_of_isReal (h : isNumeral.isReal t = true) : ∀ b ∈ t, isInside b = true := by
  unfold isNumeral.isReal at h
  split at h
  next => exact inside_of_isDecimal h
  next e rest hdrop =>
    rw [decide_eq_true_iff] at h
    have he : e = 101 ∨ e = 69 := by
      have := head?_dropWhile_not (fun b : UInt8 => decide (b ≠ 101 ∧ b ≠ 69)) t
      rw [hdrop] at this
      simp only [head?_cons, decide_eq_false_iff_not] at this
      exact not_and_or.mp this |>.imp not_not.mp not_not.mp
    intro b hb
    rw [← takeWhile_append_dropWhile (p := fun b : UInt8 => decide (b ≠ 101 ∧ b ≠ 69)) (l := t),
      hdrop, mem_append, mem_cons] at hb
    obtain hb | hb | hb := hb
    · exact inside_of_isDecimal h.1 b hb
    · obtain rfl | rfl := he <;> rw [hb] <;> decide
    · exact inside_of_unsigned (inside_of_isWhole h.2) b hb

theorem inside_of_isNumber (h : isNumber t = true) : ∀ b ∈ t, isInside b = true := by
  unfold isNumber at h
  apply inside_of_unsigned
  unfold isNumeral at h
  split at h
  next _ x t' heq =>
    split at h
    next hx =>
      rw [heq]
      rw [decide_eq_true_iff] at h
      have hmark : isInside x = true := by obtain rfl | rfl := hx <;> decide
      exact forall_mem_cons.mpr ⟨by decide, forall_mem_cons.mpr ⟨hmark,
        fun b hb => isInside_of_isHexDigit (all_eq_true.mp h.2 b hb)⟩⟩
    next => exact inside_of_isReal h
  next => exact inside_of_isReal h

theorem unsigned_of_isWhole (h : isWhole t = true) : unsigned t = t := by
  cases t with
  | nil => rfl
  | cons b t =>
    have hdigit := (decide_eq_true_iff.mp h).2
    have hb : Decimal.isDigit b = true := all_eq_true.mp hdigit b mem_cons_self
    rw [unsigned, if_neg]
    intro hsign
    obtain rfl | rfl := hsign <;> cases hb

theorem isReal_of_isWhole (h : isWhole t = true) : isNumeral.isReal t = true := by
  have hdigit : ∀ b ∈ t, Decimal.isDigit b = true :=
    all_eq_true.mp (decide_eq_true_iff.mp h).2
  have hmark : t.dropWhile (fun b => decide (b ≠ 101 ∧ b ≠ 69)) = [] := by
    apply dropWhile_eq_nil_iff.mpr
    intro b hb
    rw [decide_eq_true_iff]
    constructor <;> intro he <;> exact absurd (he ▸ hdigit b hb) (by decide)
  have hdrop : t.dropWhile Decimal.isDigit = [] := dropWhile_eq_nil_iff.mpr hdigit
  have htake : t.takeWhile Decimal.isDigit = t := takeWhile_eq_self_iff.mpr hdigit
  unfold isNumeral.isReal
  rw [hmark]
  simp only [isDecimal, hdrop, htake, tail_nil, append_nil]
  simpa using h

theorem isNumeral_of_isWhole (h : isWhole t = true) : isNumeral t = true := by
  unfold isNumeral
  split
  next x t' =>
    have hx : Decimal.isDigit x = true :=
      all_eq_true.mp (decide_eq_true_iff.mp h).2 x (by simp)
    rw [if_neg]
    · exact isReal_of_isWhole h
    · intro hhex
      obtain rfl | rfl := hhex <;> cases hx
  next => exact isReal_of_isWhole h

/-! ## literals -/

inductive Value where
  | text (s : List UInt8)
  | number (t : List UInt8)
  deriving DecidableEq, Repr

/-- A value as a column of texts keeps it. -/
def Value.bytes : Value → List UInt8
  | text s => s
  | number t => t

/-- The literal in front of a text, and what follows it. -/
def readValue : List UInt8 → Option (Value × List UInt8)
  | [] => none
  | b :: t =>
    if b = 39 then (readString t).map fun p => (.text p.1, p.2)
    else
      if isNumber ((b :: t).takeWhile fun c => !isDelimiter c) then
        some (.number ((b :: t).takeWhile fun c => !isDelimiter c),
          (b :: t).dropWhile fun c => !isDelimiter c)
      else none

/-- The text is one whole literal of the value, whatever the statement goes on with. -/
def Denotes (t : List UInt8) (v : Value) : Prop :=
  ∀ rest : List UInt8, (∀ b ∈ rest.head?, isDelimiter b = true) →
    readValue (t ++ rest) = some (v, rest)

theorem Denotes.readValue {v : Value} (h : Denotes t v) : readValue t = some (v, []) := by
  have := h [] (fun b hb => absurd hb (by simp))
  rwa [append_nil] at this

theorem Denotes.unique {v w : Value} (hv : Denotes t v) (hw : Denotes t w) : v = w := by
  have := hv.readValue.symm.trans hw.readValue
  exact (Prod.mk.inj (Option.some.inj this)).1

/-- Between quote marks, with its own quote marks doubled, a string is one literal. -/
theorem denotes_quoted : Denotes (39 :: doubled s ++ [39]) (.text s) := by
  intro rest hrest
  have hhead : rest.head? ≠ some 39 := fun h => absurd (hrest 39 h) (by decide)
  rw [append_assoc]
  show (readString (doubled s ++ 39 :: rest)).map _ = _
  rw [readString_doubled s hhead]
  rfl

theorem denotes_number_iff {n : List UInt8} :
    Denotes t (.number n) ↔ t = n ∧ isNumber n = true := by
  constructor
  · intro h
    have hread := h.readValue
    cases t with
    | nil => exact absurd hread (by simp [Sql.readValue])
    | cons b t =>
      rw [Sql.readValue] at hread
      split at hread
      next => simp at hread
      next =>
        split at hread
        next hnum =>
          obtain ⟨hn, hdrop⟩ := Prod.mk.inj (Option.some.inj hread)
          have hall := takeWhile_append_dropWhile (p := fun c => !isDelimiter c) (l := b :: t)
          rw [hdrop, append_nil] at hall
          rw [hall] at hn hnum
          cases hn
          exact ⟨rfl, hnum⟩
        next => simp at hread
  · intro h rest hrest
    obtain ⟨rfl, hnum⟩ := h
    have hin := inside_of_isNumber hnum
    have hword : ∀ b ∈ t, (!isDelimiter b) = true := by
      intro b hb
      have := hin b hb
      unfold isInside at this
      exact (decide_eq_true_iff.mp this).2
    have htake : (t ++ rest).takeWhile (fun c => !isDelimiter c) = t := by
      rw [takeWhile_append_of_pos hword]
      cases rest with
      | nil => simp
      | cons c rest => simp [hrest c (by simp)]
    have hdrop : (t ++ rest).dropWhile (fun c => !isDelimiter c) = rest := by
      rw [dropWhile_append_of_pos hword]
      cases rest with
      | nil => simp
      | cons c rest => simp [hrest c (by simp)]
    cases t with
    | nil => cases hnum
    | cons b t =>
      have hb : b ≠ 39 := by
        have := hin b mem_cons_self
        unfold isInside at this
        exact (decide_eq_true_iff.mp this).1
      rw [cons_append] at htake hdrop
      rw [cons_append, Sql.readValue, if_neg hb, htake, hdrop, if_pos hnum]

/-- What `printf` writes for `%d` is a number. -/
theorem denotes_ofInt (i : Int) : Denotes (Decimal.ofInt i) (.number (Decimal.ofInt i)) := by
  have hwhole (n : Nat) : isWhole (Decimal.ofNat n) = true := by
    unfold isWhole
    rw [decide_eq_true_iff]
    exact ⟨Decimal.ofNat_ne_nil n, all_eq_true.mpr fun b hb => Decimal.isDigit_of_mem hb⟩
  have hnumeral (n : Nat) : isNumeral (Decimal.ofNat n) = true := isNumeral_of_isWhole (hwhole n)
  apply denotes_number_iff.mpr
  refine ⟨rfl, ?_⟩
  cases i with
  | ofNat n =>
    have hsign : unsigned (Decimal.ofNat n) = Decimal.ofNat n := unsigned_of_isWhole (hwhole n)
    show isNumeral (unsigned (Decimal.ofNat n)) = true
    rw [hsign]
    exact hnumeral n
  | negSucc n => exact hnumeral (n + 1)

/-! ## patterns -/

/-- A letter of the alphabet as a small one. -/
def lower (b : UInt8) : UInt8 := if 65 ≤ b.toNat ∧ b.toNat ≤ 90 then b + 32 else b

/-- LIKE: `%` stands for any text, `_` for any byte, and letters match whatever their case. -/
def like : List UInt8 → List UInt8 → Bool
  | [], s => s.isEmpty
  | b :: p, s =>
    if b = 37 then s.tails.any (like p)
    else
      match s with
      | [] => false
      | c :: s => (b = 95 ∨ lower b = lower c) && like p s

/-! ## conditions -/

/-- The words of a WHERE: comparisons, joined by AND and OR. -/
inductive Junct (α : Type) where
  | atom (a : α)
  | and
  | or
  deriving DecidableEq, Repr

/-- Comparisons with a word between any two. -/
def isCondition {α : Type} : List (Junct α) → Bool
  | [.atom _] => true
  | .atom _ :: .and :: js => isCondition js
  | .atom _ :: .or :: js => isCondition js
  | _ => false

section Conditions
variable {α : Type} (P : α → Bool)

/-- One of the alternatives between the ORs holds; `acc` is what the present one is so far. -/
def holdsFrom (acc : Bool) : List (Junct α) → Bool
  | [] => acc
  | .atom a :: js => holdsFrom (acc && P a) js
  | .and :: js => holdsFrom acc js
  | .or :: js => acc || holdsFrom true js

/-- The condition is true: AND binds stronger than OR. -/
def holds (js : List (Junct α)) : Bool := holdsFrom P true js

/-- Comparisons joined by one word. -/
def joined (word : Junct α) : List α → List (Junct α)
  | [] => []
  | [a] => [.atom a]
  | a :: b :: as => .atom a :: word :: joined word (b :: as)

theorem isCondition_joined_and {as : List α} (h : as ≠ []) : isCondition (joined .and as) = true := by
  induction as with
  | nil => exact absurd rfl h
  | cons a as ih =>
    cases as with
    | nil => rfl
    | cons b as => exact ih (cons_ne_nil b as)

theorem isCondition_joined_or {as : List α} (h : as ≠ []) : isCondition (joined .or as) = true := by
  induction as with
  | nil => exact absurd rfl h
  | cons a as ih =>
    cases as with
    | nil => rfl
    | cons b as => exact ih (cons_ne_nil b as)

theorem holdsFrom_and_joined (acc : Bool) (as : List α) (js : List (Junct α)) :
    holdsFrom P acc (joined .and as ++ js) = holdsFrom P (acc && as.all P) js := by
  induction as generalizing acc with
  | nil => simp [joined]
  | cons a as ih =>
    cases as with
    | nil => simp [joined, holdsFrom]
    | cons b as =>
      have := ih (acc && P a)
      simp only [joined, cons_append, holdsFrom]
      rw [this, Bool.and_assoc]
      rfl

theorem holds_and_joined (as : List α) : holds P (joined .and as) = as.all P := by
  have := holdsFrom_and_joined P true as []
  rwa [append_nil, Bool.true_and] at this

/-- A chain of ORs behind a conjunction: the conjunction guards only its first member. -/
theorem holdsFrom_or_joined (acc : Bool) (a : α) (as : List α) :
    holdsFrom P acc (joined .or (a :: as)) = ((acc && P a) || as.any P) := by
  induction as generalizing acc a with
  | nil => simp [joined, holdsFrom]
  | cons b as ih => simp [joined, holdsFrom, ih true b]

end Conditions

end JxtaC.Lib.Sql
