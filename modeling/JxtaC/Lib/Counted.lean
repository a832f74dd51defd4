import JxtaC.Lib.BigEndian
import JxtaC.Lib.Stream

/-
  Count fields of a fixed width, and data behind a field with its length.
  A field holds what its bytes can hold, so that a length that does not fit is cut off; `Faithful`
  says that it was not. Nothing here depends on the modelled code.
-/

namespace JxtaC.Lib

open JxtaC.Lib.Stream

/-! ## fields -/

/-- A number of `w` bytes. -/
abbrev CountField (w : Nat) : Type := Fin (256 ^ w)

namespace CountField
variable {w : Nat}

/-- A number, without the digits that do not fit. -/
def narrow (w n : Nat) : CountField w := ⟨n % 256 ^ w, Nat.mod_lt _ (Nat.pow_pos (by decide))⟩

def bytes (n : CountField w) : List UInt8 := bigEndian w n.val

@[simp] theorem length_bytes (n : CountField w) : n.bytes.length = w := length_bigEndian w n.val

@[simp] theorem val_narrow (w n : Nat) : (narrow w n).val = n % 256 ^ w := rfl

theorem val_narrow_iff {n : Nat} : (narrow w n).val = n ↔ n < 256 ^ w := by
  rw [val_narrow]
  exact ⟨fun h => h ▸ Nat.mod_lt _ (Nat.pow_pos (by decide)), Nat.mod_eq_of_lt⟩

@[simp] theorem ofBigEndian_bytes (n : CountField w) : ofBigEndian n.bytes = n.val := by
  unfold bytes
  rw [ofBigEndian_bigEndian, Nat.mod_eq_of_lt n.isLt]

@[simp] theorem bytes_narrow (w n : Nat) : (narrow w n).bytes = bigEndian w n := by
  have h := bigEndian_ofBigEndian (bigEndian w n)
  rw [length_bigEndian, ofBigEndian_bigEndian] at h
  exact h

/-- Any `w` bytes are a field. -/
theorem exists_bytes {bs : List UInt8} (h : bs.length = w) : ∃ n : CountField w, bs = n.bytes := by
  subst h
  exact ⟨⟨ofBigEndian bs, ofBigEndian_lt bs⟩, (bigEndian_ofBigEndian bs).symm⟩

variable {ε : Type} {P : Source UInt8 ε} {s r bs : List UInt8}

theorem reads (P : Source UInt8 ε) (n : CountField w) : Reads (readAll P w) n.bytes n.bytes :=
  reads_readAll P n.length_bytes

theorem of_readAll (h : readAll P w s = .ok bs r) : ∃ n : CountField w, s = n.bytes ++ r ∧ bs = n.bytes := by
  obtain ⟨hs, hlen⟩ := readAll_ok h
  obtain ⟨n, rfl⟩ := exists_bytes hlen
  exact ⟨n, hs, rfl⟩

theorem of_read {o : Option (List UInt8)} (h : read P w s = .ok o r) :
    (∃ n : CountField w, o = some n.bytes ∧ s = n.bytes ++ r) ∨ o = none := by
  rcases read_ok h with ⟨bs, rfl, hs, hlen⟩ | ⟨rfl, -⟩
  · obtain ⟨n, rfl⟩ := exists_bytes hlen
    exact .inl ⟨n, rfl, hs⟩
  · exact .inr rfl

end CountField

/-! ## data with its length -/

/-- Data behind a field for its length. -/
structure Counted (w : Nat) where
  length : CountField w
  data : List UInt8
  deriving DecidableEq

namespace Counted
variable {w : Nat}

def bytes (c : Counted w) : List UInt8 := c.length.bytes ++ c.data

/-- The field holds the length. -/
def Faithful (c : Counted w) : Prop := c.length.val = c.data.length

/-- Data with its length, as far as that fits the field. -/
def of (w : Nat) (data : List UInt8) : Counted w := ⟨.narrow w data.length, data⟩

@[simp] theorem data_of (w : Nat) (data : List UInt8) : (of w data).data = data := rfl

@[simp] theorem bytes_of (w : Nat) (data : List UInt8) :
    (of w data).bytes = bigEndian w data.length ++ data := by
  rw [bytes, of, CountField.bytes_narrow]

theorem faithful_of_iff {data : List UInt8} : (of w data).Faithful ↔ data.length < 256 ^ w :=
  CountField.val_narrow_iff

theorem Faithful.length_lt {c : Counted w} (h : c.Faithful) : c.data.length < 256 ^ w :=
  h ▸ c.length.isLt

/-- Data that does not fit: what the field announces, and the bytes behind that. -/
theorem exists_cut (w : Nat) (data : List UInt8) :
    ∃ (c : Counted w) (extra : List UInt8), c.Faithful ∧ data = c.data ++ extra ∧
      (of w data).bytes = c.bytes ++ extra ∧ (extra = [] → data.length < 256 ^ w) := by
  have hlt : data.length % 256 ^ w < 256 ^ w := Nat.mod_lt _ (Nat.pow_pos (by decide))
  refine ⟨⟨.narrow w data.length, data.take (data.length % 256 ^ w)⟩,
    data.drop (data.length % 256 ^ w), ?_, (List.take_append_drop _ data).symm, ?_, ?_⟩
  · exact (List.length_take_of_le (Nat.mod_le _ _)).symm
  · rw [bytes, bytes, List.append_assoc, List.take_append_drop]
    rfl
  · intro h
    have hle := List.drop_eq_nil_iff.mp h
    exact Nat.lt_of_le_of_lt hle hlt

end Counted

end JxtaC.Lib
