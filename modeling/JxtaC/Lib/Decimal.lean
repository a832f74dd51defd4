import Mathlib.Algebra.Group.Int.Defs
import Mathlib.Algebra.Group.Nat.Defs
import Mathlib.Data.List.TakeWhile

/-
  Numbers as ASCII text in base ten: what `printf` writes for `%d`, and what `strtol` and `atoi`
  read. `read_ofInt`: the text of a number is read back to it, whatever follows that is no digit;
  `strtolEnd_ofInt`: and nothing is left of it.
-/

namespace JxtaC.Lib.Decimal

open List
variable {rest : List UInt8} (n : Nat) (i : Int)

/-- A property of the bytes of a text is decided on the text, not on all 256 bytes. -/
instance (priority := 1100) decidableBytes (p : UInt8 → Prop) [DecidablePred p]
    (text : List UInt8) : Decidable (∀ b ∈ text, p b) := List.decidableBAll p text

/-- The ASCII byte of a character. -/
def ascii (c : Char) : UInt8 := UInt8.ofNat c.toNat

def isDigit (b : UInt8) : Bool := 48 ≤ b.toNat ∧ b.toNat ≤ 57

def isSpace (b : UInt8) : Bool := b.toNat = 32 ∨ (9 ≤ b.toNat ∧ b.toNat ≤ 13)

/-- The digits of a number. -/
def ofNat (n : Nat) : List UInt8 := (Nat.toDigits 10 n).map ascii

/-- The text of a number: its digits behind the sign. -/
def ofInt : Int → List UInt8
  | .ofNat n => ofNat n
  | .negSucc n => 45 :: ofNat (n + 1)

/-- The number that digits stand for. -/
def value (digits : List UInt8) : Nat := digits.foldl (fun v b => 10 * v + (b.toNat - 48)) 0

/-- The number in front of a text, behind white space and a sign. -/
def read (text : List UInt8) : Int :=
  match text.dropWhile isSpace with
  | [] => 0
  | b :: rest =>
    if b = 45 then -(value (rest.takeWhile isDigit) : Int)
    else if b = 43 then value (rest.takeWhile isDigit)
    else value ((b :: rest).takeWhile isDigit)

/-- `strtol` on a 64-bit `long`. -/
def strtol (text : List UInt8) : Int := max (-2 ^ 63) (min (2 ^ 63 - 1) (read text))

/-- The text behind white space and a sign. -/
def unsigned (text : List UInt8) : List UInt8 :=
  match text.dropWhile isSpace with
  | [] => []
  | b :: rest => if b = 45 ∨ b = 43 then rest else b :: rest

/-- What `strtol` leaves behind the number: all of the text, where there are no digits. -/
def strtolEnd (text : List UInt8) : List UInt8 :=
  if (unsigned text).head?.any isDigit then (unsigned text).dropWhile isDigit else text

/-- `atoi`. -/
def atoi (text : List UInt8) : Int := (strtol text).bmod (2 ^ 32)

/-! ## digits -/

theorem toNat_ascii {c : Char} (h : c.isDigit) : (ascii c).toNat = c.toNat := by
  have hc : c.toNat ≤ 57 := by
    simp only [Char.isDigit, Bool.and_eq_true, decide_eq_true_eq] at h
    exact h.2
  exact UInt8.toNat_ofNat_of_lt' (show c.toNat < 256 by omega)

theorem isDigit_ascii {c : Char} (h : c.isDigit) : isDigit (ascii c) = true := by
  unfold isDigit
  rw [toNat_ascii h, decide_eq_true_iff]
  simp only [Char.isDigit, Bool.and_eq_true, decide_eq_true_eq] at h
  exact h

theorem isDigit_of_mem {n : Nat} {b : UInt8} (h : b ∈ ofNat n) : isDigit b = true := by
  obtain ⟨c, hc, rfl⟩ := mem_map.mp h
  exact isDigit_ascii (Nat.isDigit_of_mem_toDigits (by decide) (by decide) hc)

theorem ofNat_ne_nil : ofNat n ≠ [] := by
  simp [ofNat, Nat.toDigits_ne_nil]

/-- A number below `10 ^ k` has at most `k` digits. -/
theorem length_ofNat_le {n k : Nat} (hk : 0 < k) (h : n < 10 ^ k) : (ofNat n).length ≤ k := by
  rw [ofNat, length_map]
  exact (Nat.length_toDigits_le_iff (by decide) hk).mpr h

theorem value_ofNat : value (ofNat n) = n := by
  have hfold : ∀ (cs : List Char) (v : Nat), (∀ c ∈ cs, c.isDigit) →
      (cs.map ascii).foldl (fun v b => 10 * v + (b.toNat - 48)) v = Nat.ofDigitChars 10 cs v := by
    intro cs
    induction cs with
    | nil =>
      intro v _
      rw [Nat.ofDigitChars_nil]
      rfl
    | cons c cs ih =>
      intro v hcs
      rw [Nat.ofDigitChars_cons, map_cons, foldl_cons,
        toNat_ascii (hcs c mem_cons_self), ih _ fun d hd => hcs d (mem_cons_of_mem c hd)]
      rfl
  unfold value ofNat
  rw [hfold _ _ fun c hc => Nat.isDigit_of_mem_toDigits (by decide) (by decide) hc]
  exact Nat.ofDigitChars_ten_toDigits

theorem value_lt {ds : List UInt8} (h : ∀ b ∈ ds, isDigit b = true) :
    value ds < 10 ^ ds.length := by
  have hfold : ∀ (ds : List UInt8) (v : Nat), (∀ b ∈ ds, isDigit b = true) →
      ds.foldl (fun v b => 10 * v + (b.toNat - 48)) v < (v + 1) * 10 ^ ds.length := by
    intro ds
    induction ds with
    | nil => simp
    | cons b ds ih =>
      intro v hds
      have hb := hds b mem_cons_self
      simp only [isDigit, decide_eq_true_eq] at hb
      refine Nat.lt_of_lt_of_le (ih _ fun c hc => hds c (mem_cons_of_mem b hc)) ?_
      rw [length_cons, Nat.pow_succ, Nat.mul_comm (10 ^ ds.length), ← Nat.mul_assoc]
      refine Nat.mul_le_mul_right _ ?_
      show 10 * v + (b.toNat - 48) + 1 ≤ _
      omega
  have hds := hfold ds 0 h
  rwa [Nat.zero_add, Nat.one_mul] at hds

/-- The digits of a number begin with none of zero. -/
theorem head_ofNat {n : Nat} (hn : 0 < n) : (ofNat n).head? ≠ some 48 := by
  intro hhead
  cases hds : ofNat n with
  | nil => exact ofNat_ne_nil n hds
  | cons b ds =>
    rw [hds] at hhead
    cases hhead
    have hdigits : ∀ b ∈ ds, isDigit b = true := fun b hb =>
      isDigit_of_mem (n := n) (hds ▸ mem_cons_of_mem 48 hb)
    have hvalue : value ds = n := by
      rw [← value_ofNat n, hds]
      rfl
    have hlt := hvalue ▸ value_lt hdigits
    cases hlen : ds.length with
    | zero =>
      rw [hlen] at hlt
      omega
    | succ k =>
      have hle := length_ofNat_le (by omega) hlt
      rw [hds, length_cons] at hle
      omega

/-! ## reading -/

/-- What can stand behind a number without becoming part of it. -/
def Ends (rest : List UInt8) : Prop := ∀ b ∈ rest.head?, isDigit b = false

theorem ends_nil : Ends [] := fun _ h => by cases h

theorem takeWhile_ofNat (h : Ends rest) : (ofNat n ++ rest).takeWhile isDigit = ofNat n := by
  rw [takeWhile_append_of_pos fun b hb => isDigit_of_mem hb]
  cases rest with
  | nil => rw [takeWhile_nil, append_nil]
  | cons b rest =>
    have hb : isDigit b = false := h b rfl
    rw [takeWhile_cons_of_neg (by simp [hb]), append_nil]

theorem not_space_of_digit {b : UInt8} (h : isDigit b = true) :
    isSpace b = false ∧ b ≠ 45 ∧ b ≠ 43 := by
  unfold isDigit at h
  rw [decide_eq_true_iff] at h
  refine ⟨?_, ?_, ?_⟩
  · unfold isSpace
    rw [decide_eq_false_iff_not]
    omega
  · rintro rfl
    exact absurd h.1 (by decide)
  · rintro rfl
    exact absurd h.1 (by decide)

theorem read_ofNat (h : Ends rest) : read (ofNat n ++ rest) = n := by
  have htake := takeWhile_ofNat n h
  cases hcs : ofNat n with
  | nil => exact absurd hcs (ofNat_ne_nil n)
  | cons b ds =>
    have hb : isDigit b = true := isDigit_of_mem (hcs ▸ mem_cons_self)
    obtain ⟨hspace, hminus, hplus⟩ := not_space_of_digit hb
    rw [hcs, cons_append] at htake
    rw [cons_append]
    unfold read
    rw [dropWhile_cons_of_neg (by simp [hspace])]
    dsimp only
    rw [if_neg hminus, if_neg hplus, htake, ← hcs, value_ofNat]

theorem read_ofInt (h : Ends rest) : read (ofInt i ++ rest) = i := by
  cases i with
  | ofNat n => exact read_ofNat n h
  | negSucc n =>
    show read (45 :: (ofNat (n + 1) ++ rest)) = Int.negSucc n
    unfold read
    rw [dropWhile_cons_of_neg (by decide)]
    dsimp only
    rw [if_pos rfl, takeWhile_ofNat _ h, value_ofNat]
    rfl

/-- `strtol` reads back what `%ld` wrote. -/
theorem strtol_ofInt {i : Int} (hlow : -2 ^ 63 ≤ i) (hhigh : i < 2 ^ 63) : strtol (ofInt i) = i := by
  have hread := read_ofInt i ends_nil
  rw [append_nil] at hread
  unfold strtol
  rw [hread]
  omega

/-- `atoi` reads back what `%d` wrote. -/
theorem atoi_ofInt {i : Int} (hlow : -2 ^ 31 ≤ i) (hhigh : i < 2 ^ 31) : atoi (ofInt i) = i := by
  unfold atoi
  rw [strtol_ofInt (by omega) (by omega)]
  exact Int.bmod_eq_of_le (by omega) (by omega)

theorem dropWhile_ofNat : (ofNat n).dropWhile isDigit = [] :=
  dropWhile_eq_nil_iff.mpr fun _ hb => isDigit_of_mem hb

theorem unsigned_ofInt : unsigned (ofInt i) = ofNat i.natAbs := by
  cases i with
  | ofNat n =>
    show unsigned (ofNat n) = ofNat n
    cases hcs : ofNat n with
    | nil => exact absurd hcs (ofNat_ne_nil n)
    | cons b ds =>
      have hb : isDigit b = true := isDigit_of_mem (hcs ▸ mem_cons_self)
      obtain ⟨hspace, hminus, hplus⟩ := not_space_of_digit hb
      unfold unsigned
      rw [dropWhile_cons_of_neg (by simp [hspace])]
      exact if_neg fun h => h.elim hminus hplus
  | negSucc n =>
    show unsigned (45 :: ofNat (n + 1)) = ofNat (n + 1)
    unfold unsigned
    rw [dropWhile_cons_of_neg (by decide)]
    exact if_pos (.inl rfl)

/-- Nothing is left behind the text of a number. -/
theorem strtolEnd_ofInt : strtolEnd (ofInt i) = [] := by
  have hdigit : (ofNat i.natAbs).head?.any isDigit = true := by
    cases hcs : ofNat i.natAbs with
    | nil => exact absurd hcs (ofNat_ne_nil _)
    | cons b ds => exact isDigit_of_mem (hcs ▸ mem_cons_self)
  unfold strtolEnd
  rw [unsigned_ofInt, if_pos hdigit]
  exact dropWhile_ofNat _

end JxtaC.Lib.Decimal
