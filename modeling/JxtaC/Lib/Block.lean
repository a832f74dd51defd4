import JxtaC.Lib.Exec

/-
  Blocks of memory as lists of cells, and the block operations of the C library.
  `readAt`, `writeAt`, `memset` and `memmove` fail outside the block; where they succeed,
  `getElem?_writeAt` and `getElem?_memmove` say cell by cell what the block holds afterwards.
  Nothing here depends on the modelled code.
-/

namespace JxtaC.Lib.Block

open List

variable {α : Type}
variable {b xs : List α} {i n : Nat} {b' : List α} {dst src : Nat}

/-- The `n` cells from index `i`. -/
def readAt (b : List α) (i n : Nat) : Exec (List α) :=
  if i + n ≤ b.length then .ok ((b.drop i).take n) else .error .outOfBounds

/-- The block with `xs` written over the cells from index `i`. -/
def writeAt (b : List α) (i : Nat) (xs : List α) : Exec (List α) :=
  if i + xs.length ≤ b.length then .ok (b.take i ++ xs ++ b.drop (i + xs.length))
  else .error .outOfBounds

/-- `memset(b + i, v, n)`. -/
def memset (b : List α) (i : Nat) (v : α) (n : Nat) : Exec (List α) :=
  writeAt b i (List.replicate n v)

/-- `memmove(b + dst, b + src, n)`: the source is read before anything is written. -/
def memmove (b : List α) (dst src n : Nat) : Exec (List α) := do
  writeAt b dst (← readAt b src n)

theorem readAt_eq_ok : readAt b i n = .ok xs ↔ i + n ≤ b.length ∧ xs = (b.drop i).take n := by
  unfold readAt
  by_cases h : i + n ≤ b.length
  · simp [h, eq_comm]
  · simp [h]

theorem readAt_of_le (h : i + n ≤ b.length) : readAt b i n = .ok ((b.drop i).take n) := by
  rw [readAt_eq_ok]; exact ⟨h, rfl⟩

theorem writeAt_of_le (h : i + xs.length ≤ b.length) :
    writeAt b i xs = .ok (b.take i ++ xs ++ b.drop (i + xs.length)) := by
  rw [writeAt, if_pos h]

theorem writeAt_eq_ok :
    writeAt b i xs = .ok b' ↔
      i + xs.length ≤ b.length ∧ b' = b.take i ++ xs ++ b.drop (i + xs.length) := by
  unfold writeAt
  by_cases h : i + xs.length ≤ b.length
  · simp [h, eq_comm]
  · simp [h]

theorem length_writeAt (h : writeAt b i xs = .ok b') : b'.length = b.length := by
  obtain ⟨hle, rfl⟩ := writeAt_eq_ok.mp h
  simp only [length_append, length_take, length_drop]
  omega

theorem getElem?_writeAt (h : writeAt b i xs = .ok b') (j : Nat) :
    b'[j]? = if i ≤ j ∧ j < i + xs.length then xs[j - i]? else b[j]? := by
  obtain ⟨hle, rfl⟩ := writeAt_eq_ok.mp h
  have hlen : (b.take i).length = i := by rw [length_take]; omega
  simp only [getElem?_append, length_append, getElem?_take, getElem?_drop, hlen]
  by_cases h₁ : j < i
  · have h₂ : ¬(i ≤ j ∧ j < i + xs.length) := by omega
    rw [if_pos (by omega), if_pos h₁, if_pos h₁, if_neg h₂]
  · by_cases h₂ : j < i + xs.length
    · rw [if_pos h₂, if_neg h₁, if_pos ⟨by omega, h₂⟩]
    · rw [if_neg h₂, if_neg (by omega : ¬(i ≤ j ∧ j < i + xs.length)),
        show i + xs.length + (j - (i + xs.length)) = j by omega]

theorem exists_writeAt (b : List α) (i : Nat) (xs : List α) (h : i + xs.length ≤ b.length) :
    ∃ b', writeAt b i xs = .ok b' :=
  ⟨_, writeAt_of_le h⟩

/-- Two adjacent writes are one. -/
theorem writeAt_cons {b₁ b₂ : List α} {x : α} (h₁ : writeAt b i [x] = .ok b₁)
    (h₂ : writeAt b₁ (i + 1) xs = .ok b₂) : writeAt b i (x :: xs) = .ok b₂ := by
  have hlen₁ := length_writeAt h₁
  have hle := (writeAt_eq_ok.mp h₂).1
  obtain ⟨b', h⟩ := exists_writeAt b i (x :: xs)
    (by rw [length_cons]; omega)
  rw [h]
  refine congrArg Except.ok ?_
  apply ext_getElem?
  intro j
  rw [getElem?_writeAt h, getElem?_writeAt h₂, getElem?_writeAt h₁, length_cons,
    length_singleton]
  by_cases hj : j = i
  · subst hj
    rw [if_pos (by omega), if_neg (by omega), if_pos (by omega), Nat.sub_self]
    rfl
  · by_cases hin : i + 1 ≤ j ∧ j < i + 1 + xs.length
    · rw [if_pos (by omega), if_pos hin, show j - i = (j - (i + 1)) + 1 by omega,
        getElem?_cons_succ]
    · rw [if_neg (by omega), if_neg hin, if_neg (by omega)]

/-- A write whose first cell is written first. -/
theorem writeAt_cons_eq (b : List α) (i : Nat) (x : α) (xs : List α) :
    writeAt b i (x :: xs) = (writeAt b i [x] >>= fun b => writeAt b (i + 1) xs) := by
  by_cases h : i + (xs.length + 1) ≤ b.length
  · obtain ⟨b₁, h₁⟩ := exists_writeAt b i [x] (by rw [length_singleton]; omega)
    have hlen := length_writeAt h₁
    obtain ⟨b₂, h₂⟩ := exists_writeAt b₁ (i + 1) xs (by omega)
    rw [h₁, ok_bind, h₂, writeAt_cons h₁ h₂]
  · rw [writeAt, if_neg (by rwa [length_cons])]
    cases h₁ : writeAt b i [x] with
    | error e =>
      have hle : ¬i + [x].length ≤ b.length := by
        intro hle
        rw [writeAt_of_le hle] at h₁
        cases h₁
      rw [writeAt, if_neg hle] at h₁
      rw [error_bind, ← Except.error.inj h₁]
    | ok b₁ =>
      have hlen := length_writeAt h₁
      rw [ok_bind, writeAt, if_neg (by omega)]

theorem exists_memset (b : List α) (i n : Nat) (v : α) (h : i + n ≤ b.length) :
    ∃ b', memset b i v n = .ok b' :=
  exists_writeAt _ _ _ (by rwa [length_replicate])

theorem getElem?_memset {v : α} (h : memset b i v n = .ok b') (j : Nat) :
    b'[j]? = if i ≤ j ∧ j < i + n then some v else b[j]? := by
  have hj := getElem?_writeAt h j
  rw [length_replicate] at hj
  rw [hj]
  split
  · rw [getElem?_replicate, if_pos (by omega)]
  · rfl

theorem exists_memmove (b : List α) (dst src n : Nat) (hsrc : src + n ≤ b.length)
    (hdst : dst + n ≤ b.length) : ∃ b', memmove b dst src n = .ok b' := by
  rw [memmove, readAt_of_le hsrc, ok_bind]
  refine exists_writeAt _ _ _ ?_
  rw [length_take, length_drop]
  omega

theorem memmove_eq_ok :
    memmove b dst src n = .ok b' ↔
      src + n ≤ b.length ∧ writeAt b dst ((b.drop src).take n) = .ok b' := by
  rw [memmove, bind_eq_ok]
  constructor
  · rintro ⟨xs, hr, hw⟩
    obtain ⟨hle, rfl⟩ := readAt_eq_ok.mp hr
    exact ⟨hle, hw⟩
  · rintro ⟨hle, hw⟩
    exact ⟨_, readAt_of_le hle, hw⟩

theorem length_memmove (h : memmove b dst src n = .ok b') : b'.length = b.length :=
  length_writeAt (memmove_eq_ok.mp h).2

theorem getElem?_memmove (h : memmove b dst src n = .ok b') (j : Nat) :
    b'[j]? = if dst ≤ j ∧ j < dst + n then b[src + (j - dst)]? else b[j]? := by
  obtain ⟨hle, hw⟩ := memmove_eq_ok.mp h
  have hlen : ((b.drop src).take n).length = n := by
    rw [length_take, length_drop]; omega
  rw [getElem?_writeAt hw, hlen]
  split
  · rw [getElem?_take, if_pos (by omega), getElem?_drop]
  · rfl

/-! ## writes, insertion and removal, seen through the first cells -/

theorem take_writeAt (h : writeAt b i xs = .ok b') (hi : i + xs.length ≤ n) :
    b'.take n = (b.take n).take i ++ xs ++ (b.take n).drop (i + xs.length) := by
  obtain ⟨hle, rfl⟩ := writeAt_eq_ok.mp h
  have hlen : (b.take i ++ xs).length = i + xs.length := by
    rw [length_append, length_take]; omega
  rw [take_append, hlen, take_of_length_le (by omega), take_take,
    Nat.min_eq_left (by omega), drop_take]

theorem take_writeAt_singleton {c : List α} {x : α} (h : writeAt b i [x] = .ok c) (hi : i < n) :
    c.take n = (b.take n).set i x := by
  have hle := (writeAt_eq_ok.mp h).1
  rw [length_singleton] at hle
  rw [take_writeAt h hi, set_eq_take_append_cons_drop, if_pos (by rw [length_take]; omega),
    length_singleton, append_assoc, singleton_append]

/-- A block whose cells from `i` on moved up by `xs.length`, with `xs` in the gap. -/
theorem take_of_insert {d : List α} (xs : List α) (hi : i ≤ n) (hn : n ≤ b.length)
    (hlow : ∀ j, j < i → d[j]? = b[j]?) (hgap : ∀ j, j < xs.length → d[i + j]? = xs[j]?)
    (hhigh : ∀ j, i ≤ j → j < n → d[j + xs.length]? = b[j]?) :
    d.take (n + xs.length) = (b.take n).take i ++ xs ++ (b.take n).drop i := by
  apply ext_getElem?
  intro j
  have hlen : ((b.take n).take i).length = i := by
    simp only [length_take]; omega
  simp only [getElem?_append, length_append, hlen, getElem?_take,
    getElem?_drop]
  by_cases h₁ : j < i
  · rw [if_pos (by omega), if_pos (by omega), if_pos h₁, if_pos h₁, if_pos (by omega), hlow j h₁]
  by_cases h₂ : j < i + xs.length
  · have hj := hgap (j - i) (by omega)
    rw [if_pos (by omega), if_pos h₂, if_neg h₁, ← hj, show i + (j - i) = j by omega]
  rw [if_neg h₂]
  by_cases h₃ : j < n + xs.length
  · have hj := hhigh (j - xs.length) (by omega) (by omega)
    rw [if_pos h₃, if_pos (by omega), show i + (j - (i + xs.length)) = j - xs.length by omega, ← hj,
      show j - xs.length + xs.length = j by omega]
  · rw [if_neg h₃, if_neg (by omega)]

/-- A block whose cells from `i + k` on moved down by `k`. -/
theorem take_of_remove {d : List α} {k : Nat} (hi : i + k ≤ n) (hn : n ≤ b.length)
    (hlow : ∀ j, j < i → d[j]? = b[j]?) (hhigh : ∀ j, i ≤ j → j + k < n → d[j]? = b[j + k]?) :
    d.take (n - k) = (b.take n).take i ++ (b.take n).drop (i + k) := by
  apply ext_getElem?
  intro j
  have hlen : ((b.take n).take i).length = i := by
    simp only [length_take]; omega
  simp only [getElem?_append, hlen, getElem?_take, getElem?_drop]
  by_cases h₁ : j < i
  · rw [if_pos (by omega), if_pos h₁, if_pos h₁, if_pos (by omega), hlow j h₁]
  rw [if_neg h₁]
  by_cases h₂ : j + k < n
  · rw [if_pos (by omega), if_pos (by omega), hhigh j (by omega) h₂,
      show i + k + (j - i) = j + k by omega]
  · rw [if_neg (by omega), if_neg (by omega)]

end JxtaC.Lib.Block
