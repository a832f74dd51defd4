import JxtaC.Bytevector

/-
  What one call does to a well-formed byte vector, seen as a byte list.
  `addBytesAt_spec` and `removeBytesAt_spec` are the two that move bytes; every other function
  is one of them with its own arguments, or a stream call between the two.
-/

namespace JxtaC.Bytevector

open Lib Lib.Block List

/-- The bytes lie inside the block, and the allocator has served the block. -/
structure WellFormed (heap : Heap) (v : Bytevector) : Prop where
  size_le : v.size ≤ v.capacity
  capacity_le : v.capacity ≤ heap.limit

variable {heap : Heap} {v : Bytevector}

theorem WellFormed.size_lt (h : WellFormed heap v) : v.size < 2 ^ 63 := by
  have := h.size_le
  have := h.capacity_le
  have := heap.limit_lt
  omega

theorem length_bytes (h : v.size ≤ v.capacity) : v.bytes.length = v.size := by
  unfold bytes capacity at *
  rw [length_take]
  omega

theorem wellFormed_new1 {n : Nat} (h : new1 heap n = some v) : WellFormed heap v := by
  unfold new1 at h
  split at h
  · cases h
    refine ⟨Nat.zero_le _, ?_⟩
    simp only [capacity, length_replicate]
    omega
  · cases h

/-! ## growth -/

/-- What `ensure_capacity` leaves where it succeeds: zeroed room behind the same cells. -/
structure Grown (heap : Heap) (v : Bytevector) (required : Nat) (g : Bytevector) : Prop where
  size_eq : g.size = v.size
  content_eq : ∃ room, g.content = v.content ++ List.replicate room 0
  required_le : required ≤ g.capacity
  capacity_le : g.capacity ≤ heap.limit
  kept : required < v.capacity → g.capacity = v.capacity

theorem ensureCapacity_cases (hv : v.capacity ≤ heap.limit) (required : Nat) :
    (∃ g, ensureCapacity heap v required = (g, .success) ∧ Grown heap v required g) ∨
    (ensureCapacity heap v required = (v, .nomem) ∧ v.capacity ≤ required ∧
      heap.limit < max required (v.capacity + indexDefaultIncrease)) := by
  unfold ensureCapacity
  by_cases h : required < v.capacity
  · rw [if_pos h]
    exact .inl ⟨v, rfl, rfl, ⟨0, by simp⟩, by omega, hv, fun _ => rfl⟩
  rw [if_neg h]
  have hmax : (if required > v.capacity + indexDefaultIncrease then required
      else v.capacity + indexDefaultIncrease) = max required (v.capacity + indexDefaultIncrease) := by
    split <;> omega
  simp only [hmax]
  by_cases hl : max required (v.capacity + indexDefaultIncrease) ≤ heap.limit
  · rw [if_pos hl]
    refine .inl ⟨_, rfl, rfl, ⟨_, rfl⟩, ?_, ?_, fun hk => absurd hk h⟩ <;>
      simp only [capacity, length_append, length_replicate] at * <;> omega
  · rw [if_neg hl]
    exact .inr ⟨rfl, by omega, by omega⟩

theorem Grown.getElem? {required : Nat} {g : Bytevector} (h : Grown heap v required g) {j : Nat}
    (hj : j < v.capacity) : g.content[j]? = v.content[j]? := by
  obtain ⟨room, hroom⟩ := h.content_eq
  rw [hroom, getElem?_append_left hj]

theorem Grown.le_capacity {required : Nat} {g : Bytevector} (h : Grown heap v required g) :
    v.capacity ≤ g.capacity := by
  obtain ⟨room, hroom⟩ := h.content_eq
  simp only [capacity, hroom, length_append]
  omega

/-! ## insertion -/

/-- The source holds `xs` and keeps it while the tail moves: memory of its own always does; the
    vector's own bytes only where `realloc` is not called and they start at or before the gap. -/
def Supplies (v : Bytevector) (atIndex : Nat) (xs : List Byte) : Source → Prop
  | .null => xs = List.replicate xs.length 0
  | .outside bytes => xs = bytes.take xs.length
  | .own offset =>
    v.size + xs.length < v.capacity ∧ offset ≤ atIndex ∧ offset + xs.length ≤ v.size ∧
      xs = (v.bytes.drop offset).take xs.length

/-- The tail is where it has to be before the new bytes are written. -/
theorem moveTail_spec {d : List Byte} {size i k : Nat} (hi : i ≤ size) (hc : size + k ≤ d.length)
    (h : k ≤ size ∨ i = size) :
    ∃ moved, moveTail d size i k = .ok moved ∧ moved.length = d.length ∧
      (∀ j, j < i + k → moved[j]? = d[j]?) ∧
      ∀ j, i ≤ j → j < size → moved[j + k]? = d[j]? := by
  unfold moveTail
  by_cases hk : size ≥ k
  · rw [if_pos hk]
    obtain ⟨moved, hm⟩ := exists_memmove d (i + k) i (size - i)
      (by omega) (by omega)
    refine ⟨moved, hm, length_memmove hm, ?_, ?_⟩
    · intro j hj
      rw [getElem?_memmove hm, if_neg (by omega)]
    · intro j hj₁ hj₂
      rw [getElem?_memmove hm, if_pos (by omega), show i + (j + k - (i + k)) = j by omega]
  · rw [if_neg hk]
    refine ⟨d, rfl, rfl, fun _ _ => rfl, ?_⟩
    intro j hj₁ hj₂
    omega

theorem load_spec {moved : List Byte} (reallocated : Bool) {src : Source} {i : Nat} {xs : List Byte}
    (hsup : Supplies v i xs src) (hwf : v.size ≤ v.capacity) (hcap : v.capacity ≤ moved.length)
    (hkept : v.size + xs.length < v.capacity → reallocated = false)
    (hlow : ∀ j, j < i + xs.length → j < v.capacity → moved[j]? = v.content[j]?) :
    src.load moved reallocated xs.length = .ok xs := by
  cases src with
  | null => exact congrArg Except.ok hsup.symm
  | outside bytes =>
    have hxs : xs = bytes.take xs.length := hsup
    have hlen : xs.length ≤ bytes.length := by
      have := congrArg List.length hxs
      rw [length_take] at this
      omega
    rw [Source.load, readAt_of_le (by omega), drop_zero, ← hxs]
  | own offset =>
    obtain ⟨hfit, hoff, hin, hxs⟩ := hsup
    rw [Source.load, hkept hfit, if_neg (by decide), readAt_of_le (by omega)]
    refine congrArg Except.ok ?_
    refine Eq.trans ?_ hxs.symm
    apply ext_getElem?
    intro j
    simp only [bytes, getElem?_take, getElem?_drop]
    by_cases hj : j < xs.length
    · rw [if_pos hj, if_pos hj, if_pos (by omega)]
      exact hlow _ (by omega) (by omega)
    · rw [if_neg hj, if_neg hj]

/-- What an insertion of `xs` at index `i` may answer and leave behind. -/
inductive Inserts (heap : Heap) (v : Bytevector) (i : Nat) (xs : List Byte) :
    Bytevector × Status → Prop where
  | done {v' : Bytevector} (hi : i ≤ v.size)
      (hbytes : v'.bytes = v.bytes.take i ++ xs ++ v.bytes.drop i)
      (hsize : v'.size = v.size + xs.length) (hwf : WellFormed heap v') :
      Inserts heap v i xs (v', .success)
  | outOfRange (hi : v.size < i) : Inserts heap v i xs (v, .invalidArgument)
  | exhausted (hi : i ≤ v.size)
      (hlimit : heap.limit < v.size + xs.length + indexDefaultIncrease) :
      Inserts heap v i xs (v, .nomem)

/-- The condition under which an insertion of `k` bytes at `i` moves the tail it has to move. -/
def MovesTail (v : Bytevector) (i k : Nat) : Prop :=
  v.size < i ∨ (v.size + k < sizeMod ∧ (k ≤ v.size ∨ i = v.size))

theorem addBytesAt_spec (hwf : WellFormed heap v) (src : Source) (i : Nat) (xs : List Byte)
    (hmoves : MovesTail v i xs.length) (hsup : i ≤ v.size → Supplies v i xs src) :
    ∃ p, addBytesAt heap v src i xs.length = .ok p ∧ Inserts heap v i xs p := by
  unfold addBytesAt
  by_cases hi : i > v.size
  · rw [if_pos hi]
    exact ⟨_, rfl, .outOfRange hi⟩
  rw [if_neg hi]
  obtain ⟨hfit, htail⟩ : v.size + xs.length < sizeMod ∧ (xs.length ≤ v.size ∨ i = v.size) := by
    rcases hmoves with h | h
    · omega
    · exact h
  rw [Nat.mod_eq_of_lt hfit]
  have hle := hwf.size_le
  rcases ensureCapacity_cases hwf.capacity_le (v.size + xs.length) with
    ⟨g, hg, hgrown⟩ | ⟨hg, hcap, hlimit⟩
  · have hreq : v.size + xs.length ≤ g.content.length := hgrown.required_le
    have hcap := hgrown.le_capacity
    obtain ⟨moved, hm, hlen, hlow, hhigh⟩ := moveTail_spec (i := i) (by omega) hreq htail
    have hload := load_spec (decide (g.capacity ≠ v.capacity)) (hsup (by omega)) hle
      (by rw [hlen]; exact hcap) (fun hk => by simp [hgrown.kept hk])
      (fun j hj hjc => (hlow j hj).trans (hgrown.getElem? hjc))
    obtain ⟨written, hw⟩ := exists_writeAt moved i xs (by omega)
    simp only [hg, hm, ok_bind, hload, hw]
    refine ⟨(⟨written, v.size + xs.length⟩, .success), rfl, .done (by omega) ?_ rfl ?_⟩
    · refine take_of_insert xs (by omega) hle ?_ ?_ ?_
      · intro j hj
        rw [getElem?_writeAt hw, if_neg (by omega), hlow j (by omega),
          hgrown.getElem? (by omega)]
      · intro j hj
        rw [getElem?_writeAt hw, if_pos (by omega), Nat.add_sub_cancel_left]
      · intro j hj₁ hj₂
        rw [getElem?_writeAt hw, if_neg (by omega), hhigh j hj₁ hj₂, hgrown.getElem? (by omega)]
    · have hwl := length_writeAt hw
      refine ⟨?_, ?_⟩
      · simp only [capacity]; omega
      · have := hgrown.capacity_le
        simp only [capacity] at *; omega
  · simp only [hg]
    exact ⟨_, rfl, .exhausted (by omega) (by omega)⟩

/-! ## removal -/

/-- What a removal of `k` bytes at index `i` may answer and leave behind. -/
inductive Removes (heap : Heap) (v : Bytevector) (i k : Nat) : Bytevector × Status → Prop where
  | done {v' : Bytevector} (hi : i < v.size)
      (hbytes : v'.bytes = v.bytes.take i ++ v.bytes.drop (i + k))
      (hcap : v'.capacity = v.capacity) (hwf : WellFormed heap v') :
      Removes heap v i k (v', .success)
  | outOfRange (hi : v.size ≤ i) : Removes heap v i k (v, .invalidArgument)

theorem removeBytesAt_spec (hwf : WellFormed heap v) (i k : Nat) :
    ∃ p, removeBytesAt v i k = .ok p ∧ Removes heap v i k p := by
  unfold removeBytesAt
  by_cases hi : i ≥ v.size
  · rw [if_pos hi]
    exact ⟨_, rfl, .outOfRange hi⟩
  rw [if_neg hi]
  have hle : v.size ≤ v.content.length := hwf.size_le
  have hmin : (if v.size - i > k then k else v.size - i) = min k (v.size - i) := by
    split <;> omega
  simp only [hmin]
  generalize hn : min k (v.size - i) = n
  obtain ⟨moved, hm⟩ := exists_memmove v.content i (i + n) (v.size - i - n) (by omega) (by omega)
  have hlen := length_memmove hm
  rw [hm, ok_bind]
  refine ⟨_, rfl, .done (by omega) ?_ hlen ⟨?_, ?_⟩⟩
  · -- the clamp on `length` is what `drop` does beyond the end
    have hdrop : v.bytes.drop (i + k) = v.bytes.drop (i + n) := by
      by_cases hk : k ≤ v.size - i
      · rw [show n = k by omega]
      · rw [drop_eq_nil_of_le, drop_eq_nil_of_le] <;>
          rw [length_bytes hwf.size_le] <;> omega
    rw [hdrop]
    refine take_of_remove (by omega) hle ?_ ?_
    · intro j hj
      rw [getElem?_memmove hm, if_neg (by omega)]
    · intro j hj₁ hj₂
      rw [getElem?_memmove hm, if_pos (by omega), show i + n + (j - i) = j + n by omega]
  · simp only [capacity]; omega
  · have := hwf.capacity_le
    simp only [capacity] at *; omega

/-! ## reading -/

section
variable (hwf : v.size ≤ v.capacity)
include hwf

/-- The bytes of the vector from `i` on, as they lie in the block. -/
theorem readAt_content {i k : Nat} (hi : i < v.size) :
    readAt v.content i (if v.size - i > k then k else v.size - i) =
      .ok ((v.bytes.drop i).take k) := by
  have hle : v.size ≤ v.content.length := hwf
  have hmin : (if v.size - i > k then k else v.size - i) = min k (v.size - i) := by
    split <;> omega
  rw [hmin, readAt_of_le (by omega)]
  refine congrArg Except.ok ?_
  apply ext_getElem?
  intro j
  simp only [bytes, getElem?_take, getElem?_drop]
  by_cases hj : j < min k (v.size - i)
  · rw [if_pos hj, if_pos (by omega), if_pos (by omega)]
  · rw [if_neg hj]
    by_cases hk : j < k
    · rw [if_pos hk, if_neg (by omega)]
    · rw [if_neg hk]

theorem getBytesAt1_of_lt {i k : Nat} (hi : i < v.size) :
    getBytesAt1 v i k = .ok (.success, (v.bytes.drop i).take k) := by
  unfold getBytesAt1
  rw [if_neg (by omega)]
  simp only [readAt_content hwf hi, ok_bind]
  rfl

theorem write_of_lt (func : List Byte → Status) {i k : Nat} (hi : i < v.size) :
    write v func i k = .ok (func ((v.bytes.drop i).take k), (v.bytes.drop i).take k) := by
  unfold write
  rw [if_neg (by omega)]
  simp only [readAt_content hwf hi, ok_bind]
  rfl

end

end JxtaC.Bytevector
