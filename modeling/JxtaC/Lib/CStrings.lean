import Mathlib.Data.List.TakeWhile
import JxtaC.Lib.Exec

/-
  The string functions of C on what is left of a buffer: a read or write behind its end is a fault. In
  front of a NUL none of them leaves the buffer, and each finds what the functions on lists find
  (`strchr_eq`, `strrchr_eq`, `strlen_eq`, `sameStr_eq`).
  Nothing here depends on the modelled code.
-/

namespace JxtaC.Lib

open List

/-- The byte at a place that was computed. -/
def byteAt (buffer : List UInt8) (i : Int) : Exec UInt8 :=
  if i < 0 then .error .outOfBounds
  else
    match buffer[i.toNat]? with
    | some b => .ok b
    | none => .error .outOfBounds

/-- A byte is written. -/
def setByte (buffer : List UInt8) (i : Nat) (b : UInt8) : Exec (List UInt8) :=
  if i < buffer.length then .ok (buffer.set i b) else .error .outOfBounds

/-- `strlen`. -/
def strlen : List UInt8 → Exec Nat
  | [] => .error .outOfBounds
  | b :: bs => if b = 0 then .ok 0 else return (← strlen bs) + 1

/-- `strchr`: the place of the first `c`. -/
def strchr (c : UInt8) : List UInt8 → Exec (Option Nat)
  | [] => .error .outOfBounds
  | b :: bs =>
    if b = c then .ok (some 0)
    else if b = 0 then .ok none
    else return (← strchr c bs).map (· + 1)

/-- `strrchr`: the place of the last `c`. -/
def strrchr (c : UInt8) : List UInt8 → Exec (Option Nat)
  | [] => .error .outOfBounds
  | b :: bs =>
    if b = 0 then .ok (if b = c then some 0 else none)
    else do
      match ← strrchr c bs with
      | some i => return some (i + 1)
      | none => return if b = c then some 0 else none

/-- `strncmp` finds no difference. -/
def sameStr : (n : Nat) → (a b : List UInt8) → Exec Bool
  | 0, _, _ => .ok true
  | n + 1, x :: a, y :: b =>
    if x ≠ y then .ok false else if x = 0 then .ok true else sameStr n a b
  | _ + 1, _, _ => .error .outOfBounds

section Terminated
variable {s : List UInt8} {c : UInt8}

theorem not_mem_cons {b c : UInt8} {s : List UInt8} (h : c ∉ b :: s) : b ≠ c ∧ c ∉ s :=
  ⟨fun heq => h (heq ▸ mem_cons_self), fun hmem => h (mem_cons_of_mem _ hmem)⟩

theorem byteAt_append {u v : List UInt8} {b : UInt8} {i : Nat} (h : i = u.length) :
    byteAt (u ++ b :: v) i = .ok b := by
  unfold byteAt
  rw [if_neg (by omega), Int.toNat_natCast, h, getElem?_append_right (Nat.le_refl _),
    Nat.sub_self]
  rfl

theorem setByte_append {u v : List UInt8} {b : UInt8} {i : Nat} (h : i = u.length) (c : UInt8) :
    setByte (u ++ b :: v) i c = .ok (u ++ c :: v) := by
  have hlt : i < (u ++ b :: v).length := by
    rw [length_append, length_cons]
    omega
  unfold setByte
  rw [if_pos hlt, h, set_append_right _ _ (Nat.le_refl _), Nat.sub_self]
  rfl

theorem byteAt_ok {buffer : List UInt8} {i : Nat} {b : UInt8} (h : buffer[i]? = some b) :
    byteAt buffer i = .ok b := by
  unfold byteAt
  rw [if_neg (by omega), Int.toNat_natCast, h]

theorem strlen_eq (h : (0 : UInt8) ∉ s) (rest : List UInt8) :
    strlen (s ++ 0 :: rest) = .ok s.length := by
  induction s with
  | nil => rfl
  | cons b s ih =>
    obtain ⟨hb, hs⟩ := not_mem_cons h
    rw [cons_append, strlen, if_neg hb, ih hs]
    rfl

theorem strchr_eq (h : (0 : UInt8) ∉ s) (hc : c ≠ 0) (rest : List UInt8) :
    strchr c (s ++ 0 :: rest) =
      .ok (if c ∈ s then some (s.takeWhile (· ≠ c)).length else none) := by
  induction s with
  | nil =>
    rw [nil_append, strchr, if_neg (Ne.symm hc), if_pos rfl, if_neg not_mem_nil]
  | cons b s ih =>
    obtain ⟨hb, hs⟩ := not_mem_cons h
    rw [cons_append, strchr]
    by_cases heq : b = c
    · subst heq
      simp
    · have htake : (b :: s).takeWhile (· ≠ c) = b :: s.takeWhile (· ≠ c) :=
        takeWhile_cons_of_pos (decide_eq_true heq)
      rw [if_neg heq, if_neg hb, ih hs, htake]
      by_cases hmem : c ∈ s
      · rw [if_pos hmem, if_pos (mem_cons_of_mem _ hmem)]
        rfl
      · have hnot : c ∉ b :: s := by
          intro hor
          rcases mem_cons.mp hor with hbc | hmem'
          · exact heq hbc.symm
          · exact hmem hmem'
        rw [if_neg hmem, if_neg hnot]
        rfl

/-- Behind the last `c` there is what stands in front of it when the string is read backwards. -/
theorem strrchr_eq (h : (0 : UInt8) ∉ s) (hc : c ≠ 0) (rest : List UInt8) :
    strrchr c (s ++ 0 :: rest) = .ok (if c ∈ s then
      some (s.length - ((s.reverse.takeWhile (· ≠ c)).length + 1)) else none) := by
  induction s with
  | nil =>
    rw [nil_append, strrchr, if_pos rfl, if_neg (Ne.symm hc), if_neg not_mem_nil]
  | cons b s ih =>
    obtain ⟨hb, hs⟩ := not_mem_cons h
    rw [cons_append, strrchr, if_neg hb, ih hs]
    by_cases hmem : c ∈ s
    · have hall : ¬ ∀ x ∈ s.reverse, decide (x ≠ c) = true := by
        intro hall
        exact absurd rfl (of_decide_eq_true (hall c (mem_reverse.mpr hmem)))
      have hlt : (s.reverse.takeWhile (· ≠ c)).length < s.length := by
        have hle := (List.takeWhile_prefix (l := s.reverse) (fun x => decide (x ≠ c))).length_le
        rw [length_reverse] at hle
        refine Nat.lt_of_le_of_ne hle fun heq => hall ?_
        exact takeWhile_eq_self_iff.mp
          ((List.takeWhile_prefix _).eq_of_length (heq.trans length_reverse.symm))
      have hlast : (s.reverse ++ [b]).takeWhile (· ≠ c) = s.reverse.takeWhile (· ≠ c) := by
        rw [takeWhile_append, if_neg]
        rw [length_reverse]
        omega
      rw [if_pos hmem, if_pos (mem_cons_of_mem _ hmem), reverse_cons, hlast,
        length_cons]
      show Except.ok (some _) = Except.ok (some _)
      congr 2
      omega
    · rw [if_neg hmem]
      have hself : s.reverse.takeWhile (· ≠ c) = s.reverse := by
        rw [takeWhile_eq_self_iff]
        intro x hx
        exact decide_eq_true fun heq => hmem (heq ▸ mem_reverse.mp hx)
      by_cases heq : b = c
      · subst heq
        have hlast : (s.reverse ++ [b]).takeWhile (· ≠ b) = s.reverse := by
          rw [takeWhile_append_of_pos (fun x hx => takeWhile_eq_self_iff.mp hself x hx)]
          simp
        rw [if_pos mem_cons_self, reverse_cons, hlast, length_reverse,
          length_cons, Nat.sub_self]
        show Except.ok (if b = b then some 0 else none) = _
        rw [if_pos rfl]
      · have hnot : c ∉ b :: s := by
          intro hor
          rcases mem_cons.mp hor with hbc | hmem'
          · exact heq hbc.symm
          · exact hmem hmem'
        rw [if_neg hnot]
        show Except.ok (if b = c then some 0 else none) = _
        rw [if_neg heq]

/-- The first bytes are the same, or all of them. -/
theorem sameStr_eq {a b : List UInt8} (ha : (0 : UInt8) ∉ a) (hb : (0 : UInt8) ∉ b) (n : Nat)
    (ra rb : List UInt8) :
    sameStr n (a ++ 0 :: ra) (b ++ 0 :: rb) = .ok (decide (a.take n = b.take n)) := by
  induction n generalizing a b with
  | zero => simp [sameStr]
  | succ n ih =>
    match a, b with
    | [], [] => simp [sameStr]
    | [], y :: b =>
      have hy := (not_mem_cons hb).1
      simp [sameStr, Ne.symm hy]
    | x :: a, [] =>
      have hx := (not_mem_cons ha).1
      simp [sameStr, hx]
    | x :: a, y :: b =>
      obtain ⟨hx, ha'⟩ := not_mem_cons ha
      rw [cons_append, cons_append, sameStr]
      by_cases heq : x = y
      · subst heq
        rw [if_neg (not_not_intro rfl), if_neg hx, ih ha' (not_mem_cons hb).2]
        simp
      · rw [if_pos heq]
        simp [heq]

end Terminated

/-! ## up to a byte -/

section Stops
variable {stop : UInt8}

theorem dropWhile_eq_cons {b : UInt8} {s rest : List UInt8}
    (h : s.dropWhile (· ≠ stop) = b :: rest) : b = stop := by
  have hnot := head?_dropWhile_not (· ≠ stop) s
  rw [h] at hnot
  simpa using hnot

theorem takeWhile_append_stop {s rest : List UInt8} (h : stop ∉ s) :
    (s ++ stop :: rest).takeWhile (· ≠ stop) = s ∧
      (s ++ stop :: rest).dropWhile (· ≠ stop) = stop :: rest := by
  have hall : ∀ b ∈ s, decide (b ≠ stop) = true := fun b hb =>
    decide_eq_true fun heq => h (heq ▸ hb)
  rw [takeWhile_append_of_pos hall, dropWhile_append_of_pos hall]
  simp

theorem stop_not_mem_takeWhile (s : List UInt8) : stop ∉ s.takeWhile (· ≠ stop) := by
  intro hmem
  have hb := mem_takeWhile_imp hmem
  exact of_decide_eq_true hb rfl

end Stops

/-! ## buffers that are filled -/

/-- A cleared buffer of this size that these bytes were written into. -/
def padded (size : Nat) (s : List UInt8) : List UInt8 := s ++ List.replicate (size - s.length) 0

/-- The string in a buffer. -/
def stringIn (buffer : List UInt8) : Exec (List UInt8) :=
  if 0 ∈ buffer then .ok (buffer.takeWhile (· ≠ 0)) else .error .outOfBounds

section Padded
variable {size : Nat} {s : List UInt8}

/-- The string in front of a NUL. -/
theorem stringIn_append (h : 0 ∉ s) (rest : List UInt8) : stringIn (s ++ 0 :: rest) = .ok s := by
  have hall : ∀ b ∈ s, decide (b ≠ 0) = true := fun b hb => decide_eq_true fun heq => h (heq ▸ hb)
  unfold stringIn
  rw [if_pos (mem_append_right _ mem_cons_self), takeWhile_append_of_pos hall,
    takeWhile_cons_of_neg (by simp), append_nil]

theorem padded_of_lt (h : s.length < size) :
    padded size s = s ++ 0 :: List.replicate (size - (s.length + 1)) 0 := by
  unfold padded
  rw [← replicate_succ]
  congr 2
  omega

theorem setByte_padded (h : s.length < size) (b : UInt8) :
    setByte (padded size s) s.length b = .ok (padded size (s ++ [b])) := by
  rw [padded_of_lt h, setByte_append rfl]
  unfold padded
  rw [append_assoc, length_append, length_singleton]
  rfl

theorem setByte_full (h : size ≤ s.length) (b : UInt8) :
    setByte (padded size s) s.length b = .error .outOfBounds := by
  unfold setByte padded
  rw [if_neg]
  rw [length_append, length_replicate]
  omega

theorem zero_mem_padded (h : 0 ∉ s) : 0 ∈ padded size s ↔ s.length < size := by
  unfold padded
  rw [mem_append, mem_replicate]
  constructor
  · rintro (hmem | ⟨hne, -⟩)
    · exact absurd hmem h
    · omega
  · intro hlt
    exact .inr ⟨by omega, rfl⟩

theorem takeWhile_padded (h : 0 ∉ s) : (padded size s).takeWhile (· ≠ 0) = s := by
  have hall : ∀ b ∈ s, decide (b ≠ 0) = true := fun b hb => decide_eq_true fun heq => h (heq ▸ hb)
  unfold padded
  rw [takeWhile_append_of_pos hall, takeWhile_replicate]
  simp

end Padded

end JxtaC.Lib
