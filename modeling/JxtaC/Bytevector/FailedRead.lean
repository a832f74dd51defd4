import JxtaC.Bytevector.Spec
import Mathlib.Data.List.Basic

/-
  A stream that fails in `jxta_bytevector_add_from_stream_at`.
  The gap is made, the reader fails, and `remove_bytes_at` closes the gap again:
  `addFromStreamAt_failed` says what is left then, for every index and length. The tail is what it
  was if it had been moved out of the way; under the guard `size >= length` it may not have been,
  and then the cells behind the gap (`behind`) come in its place.
-/

namespace JxtaC.Bytevector

open Lib Lib.Block List

/-- The reader is called: the index is in range, and the memory is there. -/
def ReaderCalled (heap : Heap) (v : Bytevector) (length atIndex : Nat) : Prop :=
  atIndex ≤ v.size ∧ (ensureCapacity heap v ((v.size + length) % sizeMod)).2 = .success

/-- After a failed read the vector holds the bytes it held, and the error is the reader's. -/
def FailureUndone (heap : Heap) (v : Bytevector) (func : ReadFunc) (length atIndex : Nat) : Prop :=
  ∃ v' res, addFromStreamAt heap v func length atIndex = .ok (v', res) ∧
    v'.bytes = v.bytes ∧ v'.size = v.size ∧
    (ReaderCalled heap v length atIndex → res = (func.call length).1)

/-- What lies as far behind the gap as the tail is long; the block goes on with zeros. -/
def behind (v : Bytevector) (length atIndex : Nat) : List Byte :=
  ((v.content ++ List.replicate (v.size + length) 0).drop (atIndex + length)).take
    (v.size - atIndex)

/-- The vector is a valid one, its size does not wrap, and the tail is moved, or the cells behind
    the gap are like it. -/
def TailKept (v : Bytevector) (length atIndex : Nat) : Prop :=
  v.size ≤ v.capacity ∧ v.size + length < sizeMod ∧
    (length ≤ v.size ∨ behind v length atIndex = v.bytes.drop atIndex)

variable {heap : Heap} {v v' : Bytevector} {func : ReadFunc} {k i : Nat} {res : Status}

/-! ## the block -/

theorem ReaderCalled.grown (hcalled : ReaderCalled heap v k i) (hserved : v.capacity ≤ heap.limit) :
    ∃ g, ensureCapacity heap v ((v.size + k) % sizeMod) = (g, .success) ∧
      Grown heap v ((v.size + k) % sizeMod) g := by
  obtain ⟨-, hsuccess⟩ := hcalled
  rcases ensureCapacity_cases hserved ((v.size + k) % sizeMod) with hgrown | ⟨hg, -, -⟩
  · exact hgrown
  · rw [hg] at hsuccess
    cases hsuccess

theorem moveTail_length {content moved : List Byte} {size : Nat}
    (h : moveTail content size i k = .ok moved) : moved.length = content.length := by
  unfold moveTail at h
  split at h
  · exact length_memmove h
  · cases h
    rfl

/-- The insertion of zeros, cell by cell of its steps. -/
theorem addBytesAt_null {g : Bytevector} (hi : i ≤ v.size)
    (hg : ensureCapacity heap v ((v.size + k) % sizeMod) = (g, .success)) :
    addBytesAt heap v .null i k = (do
      let moved ← moveTail g.content v.size i k
      let written ← writeAt moved i (List.replicate k 0)
      return (⟨written, (v.size + k) % sizeMod⟩, .success)) := by
  unfold addBytesAt
  rw [if_neg (Nat.not_lt_of_le hi)]
  simp only [hg, Source.load, ok_bind]

/-- A size that wraps around cannot be served: the gap is larger than any block. -/
theorem addBytesAt_null_wraps {p : Bytevector × Status} (hserved : v.capacity ≤ heap.limit)
    (hcalled : ReaderCalled heap v k i) (hwrap : sizeMod ≤ v.size + k) :
    addBytesAt heap v .null i k ≠ .ok p := by
  obtain ⟨g, hg, hgrown⟩ := hcalled.grown hserved
  obtain ⟨hi, -⟩ := hcalled
  have hcap : g.content.length < 2 ^ 63 := Nat.lt_of_le_of_lt hgrown.capacity_le heap.limit_lt
  rw [addBytesAt_null hi hg]
  intro hok
  obtain ⟨moved, hmoved, hok⟩ := bind_eq_ok.mp hok
  obtain ⟨written, hwritten, -⟩ := bind_eq_ok.mp hok
  have hlength := moveTail_length hmoved
  have hfit := (writeAt_eq_ok.mp hwritten).1
  rw [length_replicate] at hfit
  unfold sizeMod at hwrap
  unfold moveTail at hmoved
  split at hmoved
  · -- the tail alone does not fit
    have htail := (writeAt_eq_ok.mp (memmove_eq_ok.mp hmoved).2).1
    have hsource := (memmove_eq_ok.mp hmoved).1
    rw [length_take, length_drop] at htail
    omega
  · omega

/-- What comes back from the stream function is as long as it was before the call, in a block with
    room for the gap. -/
theorem addFromStreamAt_capacity (hserved : v.capacity ≤ heap.limit)
    (hcalled : ReaderCalled heap v k i) (hfit : v.size + k < sizeMod)
    (hok : addFromStreamAt heap v func k i = .ok (v', res)) : v.size + k ≤ v'.capacity := by
  obtain ⟨g, hg, hgrown⟩ := hcalled.grown hserved
  obtain ⟨hi, -⟩ := hcalled
  have hroom : v.size + k ≤ g.content.length := by
    have hrequired := hgrown.required_le
    rw [Nat.mod_eq_of_lt hfit] at hrequired
    exact hrequired
  unfold addFromStreamAt at hok
  rw [addBytesAt_null hi hg] at hok
  obtain ⟨⟨added, err⟩, hadded, hok⟩ := bind_eq_ok.mp hok
  obtain ⟨moved, hmoved, hadded⟩ := bind_eq_ok.mp hadded
  obtain ⟨written, hwritten, hadded⟩ := bind_eq_ok.mp hadded
  cases hadded
  obtain ⟨filled, hfilled, hok⟩ := bind_eq_ok.mp hok
  have hlength : filled.length = g.content.length := by
    rw [length_writeAt hfilled, length_writeAt hwritten, moveTail_length hmoved]
  unfold afterStream at hok
  split at hok
  · cases hok
    rw [capacity, hlength]
    exact hroom
  · obtain ⟨⟨removed, err⟩, hremoved, hok⟩ := bind_eq_ok.mp hok
    cases hok
    unfold removeBytesAt at hremoved
    split at hremoved
    · cases hremoved
      rw [capacity, hlength]
      exact hroom
    · obtain ⟨closed, hclosed, hremoved⟩ := bind_eq_ok.mp hremoved
      cases hremoved
      rw [capacity, length_memmove hclosed, hlength]
      exact hroom

/-! ## the gap, made and closed -/

/-- What `moveTail` leaves behind the gap. -/
theorem moveTail_behind {g : Bytevector} (hgrown : Grown heap v (v.size + k) g)
    (hi : i ≤ v.size) (hle : v.size ≤ v.capacity) :
    ∃ moved, moveTail g.content v.size i k = .ok moved ∧ moved.length = g.content.length ∧
      (∀ j, j < i → moved[j]? = v.content[j]?) ∧
      ∀ j, j < v.size - i → moved[i + k + j]? =
        (if k ≤ v.size then v.bytes.drop i else behind v k i)[j]? := by
  have hroom : v.size + k ≤ g.content.length := hgrown.required_le
  have hcap : v.size ≤ v.content.length := hle
  by_cases hk : k ≤ v.size
  · obtain ⟨moved, hmoved, hlength, hlow, hhigh⟩ := moveTail_spec hi hroom (.inl hk)
    refine ⟨moved, hmoved, hlength, fun j hj => ?_, fun j hj => ?_⟩
    · rw [hlow j (by omega), hgrown.getElem? (by rw [capacity]; omega)]
    · rw [if_pos hk, show i + k + j = i + j + k by omega, hhigh (i + j) (by omega) (by omega),
        hgrown.getElem? (by rw [capacity]; omega), bytes, getElem?_drop, getElem?_take,
        if_pos (by omega)]
  · obtain ⟨room, hcontent⟩ := hgrown.content_eq
    refine ⟨g.content, ?_, rfl, fun j hj => hgrown.getElem? (by rw [capacity]; omega),
      fun j hj => ?_⟩
    · unfold moveTail
      rw [if_neg hk]
    · have hlt : i + k + j < g.content.length := by omega
      rw [if_neg hk, behind, getElem?_take, if_pos hj, getElem?_drop]
      rw [hcontent, length_append, length_replicate] at hlt
      rw [hcontent]
      by_cases hin : i + k + j < v.content.length
      · rw [getElem?_append_left hin, getElem?_append_left hin]
      · rw [getElem?_append_right (by omega), getElem?_append_right (by omega),
          getElem?_replicate, getElem?_replicate, if_pos (by omega), if_pos (by omega)]

/-- The block after a failed read: the cells in front of the gap, and those behind it. -/
theorem bytes_closed {filled closed tail : List Byte} (hi : i ≤ v.size) (hle : v.size ≤ v.capacity)
    (htail : tail.length = v.size - i) (hlow : ∀ j, j < i → filled[j]? = v.content[j]?)
    (hhigh : ∀ j, j < v.size - i → filled[i + k + j]? = tail[j]?)
    (hclosed : memmove filled i (i + k) (v.size - i) = .ok closed) :
    (⟨closed, v.size⟩ : Bytevector).bytes = v.bytes.take i ++ tail := by
  have hcap : v.size ≤ v.content.length := hle
  have hfront : (v.bytes.take i).length = i := by
    rw [length_take, length_bytes hle, Nat.min_eq_left hi]
  apply ext_getElem?
  intro j
  rw [bytes, getElem?_take]
  by_cases hj : j < v.size
  · rw [if_pos hj, getElem?_memmove hclosed]
    by_cases hlt : j < i
    · rw [if_neg (by omega), hlow j hlt, getElem?_append_left (by omega),
        getElem?_take, if_pos hlt, bytes, getElem?_take, if_pos hj]
    · rw [if_pos (by omega), hhigh (j - i) (by omega), getElem?_append_right (by omega),
        hfront]
  · rw [if_neg hj, getElem?_eq_none]
    rw [length_append, hfront, htail]
    omega

/-- What a failed read leaves: the bytes in front of the gap, and behind them the tail where it had
    been moved, else what lies behind the gap. -/
theorem addFromStreamAt_failed (hserved : v.capacity ≤ heap.limit) (hle : v.size ≤ v.capacity)
    (hfail : (func.call k).1 ≠ .success) (hcalled : ReaderCalled heap v k i)
    (hfit : v.size + k < sizeMod) :
    ∃ closed, addFromStreamAt heap v func k i = .ok (⟨closed, v.size⟩, (func.call k).1) ∧
      (⟨closed, v.size⟩ : Bytevector).bytes =
        v.bytes.take i ++ if k ≤ v.size then v.bytes.drop i else behind v k i := by
  obtain ⟨g, hg, hgrown⟩ := hcalled.grown hserved
  obtain ⟨hi, -⟩ := hcalled
  have hmod : (v.size + k) % sizeMod = v.size + k := Nat.mod_eq_of_lt hfit
  rw [hmod] at hgrown
  have hroom : v.size + k ≤ g.content.length := hgrown.required_le
  have hcap : v.size ≤ v.content.length := hle
  obtain ⟨moved, hmoved, hmlength, hmlow, hmhigh⟩ := moveTail_behind hgrown hi hle
  obtain ⟨written, hwritten⟩ := exists_writeAt moved i (List.replicate k 0)
    (by rw [length_replicate]; omega)
  have hwlength := length_writeAt hwritten
  have hdelivered := func.length_le k
  obtain ⟨filled, hfilled⟩ := exists_writeAt written i (func.call k).2 (by omega)
  have hflength := length_writeAt hfilled
  have hadd : addFromStreamAt heap v func k i =
      afterStream ⟨filled, v.size + k⟩ (func.call k).1 i k := by
    unfold addFromStreamAt
    rw [addBytesAt_null hi hg, hmoved, ok_bind, hwritten, ok_bind, hmod]
    simp only [pure_eq_ok, ok_bind, hfilled]
  -- both writes stay inside the gap
  have hlow : ∀ j, j < i → filled[j]? = v.content[j]? := by
    intro j hj
    rw [getElem?_writeAt hfilled, if_neg (by omega), getElem?_writeAt hwritten,
      if_neg (by omega), hmlow j hj]
  have hhigh : ∀ j, j < v.size - i → filled[i + k + j]? =
      (if k ≤ v.size then v.bytes.drop i else behind v k i)[j]? := by
    intro j hj
    rw [getElem?_writeAt hfilled, if_neg (by omega), getElem?_writeAt hwritten,
      if_neg (by rw [length_replicate]; omega), hmhigh j hj]
  have htail : (if k ≤ v.size then v.bytes.drop i else behind v k i).length = v.size - i := by
    split
    · rw [length_drop, length_bytes hle]
    · rw [behind, length_take, length_drop, length_append, length_replicate]
      omega
  obtain ⟨closed, hclosed⟩ := exists_memmove filled i (i + k) (v.size - i) (by omega) (by omega)
  have hbytes := bytes_closed hi hle htail hlow hhigh hclosed
  rw [hadd]
  unfold afterStream
  rw [if_neg hfail]
  unfold removeBytesAt
  by_cases hend : i ≥ v.size + k
  · -- nothing was inserted at the end
    obtain ⟨rfl, rfl⟩ : k = 0 ∧ i = v.size := by omega
    refine ⟨filled, by rw [if_pos hend]; rfl, ?_⟩
    rw [Nat.sub_self, Nat.add_zero] at hclosed
    obtain rfl : closed = filled := by
      have hself := (memmove_eq_ok.mp hclosed).2
      rw [take_zero] at hself
      obtain ⟨-, rfl⟩ := writeAt_eq_ok.mp hself
      simp
    exact hbytes
  · rw [if_neg hend]
    have hlength : (if v.size + k - i > k then k else v.size + k - i) = k := by
      split <;> omega
    simp only [hlength]
    rw [show v.size + k - i - k = v.size - i by omega, hclosed]
    refine ⟨closed, ?_, hbytes⟩
    simp only [ok_bind, Nat.add_sub_cancel]
    rfl

/-! ## the claim and its exact condition -/

/-- Where the reader is not called the vector stays as it is. -/
theorem failureUndone_of_not_called (hserved : v.capacity ≤ heap.limit)
    (h : ¬ ReaderCalled heap v k i) : FailureUndone heap v func k i := by
  have hadd : ∃ res, addBytesAt heap v .null i k = .ok (v, res) ∧ res ≠ .success := by
    unfold addBytesAt
    by_cases hi : i > v.size
    · rw [if_pos hi]
      exact ⟨_, rfl, nofun⟩
    · rw [if_neg hi]
      rcases ensureCapacity_cases hserved ((v.size + k) % sizeMod) with ⟨g, hg, -⟩ | ⟨hg, -, -⟩
      · exact absurd ⟨Nat.le_of_not_lt hi, by rw [hg]⟩ h
      · rw [hg]
        exact ⟨.nomem, rfl, nofun⟩
  obtain ⟨res, hadd, hres⟩ := hadd
  refine ⟨v, res, ?_, rfl, rfl, fun hcalled => absurd hcalled h⟩
  unfold addFromStreamAt
  rw [hadd, ok_bind]
  split
  · rename_i heq
    cases heq
    exact absurd rfl hres
  · rename_i heq
    cases heq
    rfl

theorem append_drop_iff {tail : List Byte} :
    v.bytes.take i ++ tail = v.bytes ↔ tail = v.bytes.drop i := by
  constructor
  · intro h
    exact (append_right_inj (v.bytes.take i)).mp (h.trans (take_append_drop i _).symm)
  · rintro rfl
    rw [take_append_drop]

/-- A failed read is undone exactly if the reader is not called or the tail is kept. -/
theorem failureUndone_iff (heap : Heap) (v : Bytevector) (func : ReadFunc) (length atIndex : Nat)
    (hserved : v.capacity ≤ heap.limit) (hfail : (func.call length).1 ≠ .success) :
    FailureUndone heap v func length atIndex ↔
      (ReaderCalled heap v length atIndex → TailKept v length atIndex) := by
  by_cases hcalled : ReaderCalled heap v length atIndex
  swap
  · exact iff_of_true (failureUndone_of_not_called hserved hcalled) fun h => absurd h hcalled
  by_cases hfit : v.size + length < sizeMod
  swap
  · refine iff_of_false ?_ fun h => hfit (h hcalled).2.1
    rintro ⟨v', res, hok, -⟩
    unfold addFromStreamAt at hok
    obtain ⟨p, hp, -⟩ := bind_eq_ok.mp hok
    exact addBytesAt_null_wraps hserved hcalled (Nat.le_of_not_lt hfit) hp
  by_cases hle : v.size ≤ v.capacity
  swap
  · refine iff_of_false ?_ fun h => hle (h hcalled).1
    rintro ⟨v', res, hok, hbytes, hsize, -⟩
    have hcap := addFromStreamAt_capacity hserved hcalled hfit hok
    have hlength := length_bytes (v := v') (by omega)
    rw [hbytes, bytes, length_take, hsize] at hlength
    unfold capacity at hle
    omega
  obtain ⟨closed, hok, hbytes⟩ := addFromStreamAt_failed hserved hle hfail hcalled hfit
  have hundone : FailureUndone heap v func length atIndex ↔
      (if length ≤ v.size then v.bytes.drop atIndex else behind v length atIndex) =
        v.bytes.drop atIndex := by
    rw [← append_drop_iff, ← hbytes]
    constructor
    · rintro ⟨v', res, hok', hsame, -⟩
      rw [hok] at hok'
      cases hok'
      exact hsame
    · exact fun hsame => ⟨_, _, hok, hsame, rfl, fun _ => rfl⟩
  rw [hundone]
  by_cases hk : length ≤ v.size
  · rw [if_pos hk]
    exact iff_of_true rfl fun _ => ⟨hle, hfit, .inl hk⟩
  · rw [if_neg hk]
    exact ⟨fun h _ => ⟨hle, hfit, .inr h⟩, fun h => (h hcalled).2.2.resolve_left hk⟩

/-- A reader that delivers the first of the bytes and fails. -/
def brokenStream : ReadFunc where
  call n := (.ioerr, List.replicate (min n 1) 7)
  length_le n := by
    rw [length_replicate]
    exact Nat.min_le_left n 1
  length_of_success n h := by cases h

theorem failureUndone_moved : FailureUndone ⟨1000, by decide⟩ ⟨[1, 2, 3, 4], 4⟩ brokenStream 2 1 :=
  (failureUndone_iff ⟨1000, by decide⟩ ⟨[1, 2, 3, 4], 4⟩ brokenStream 2 1 (by decide)
    (by decide)).mpr fun _ => ⟨by decide, by decide, .inl (by decide)⟩

/-- Two bytes in front of which three should have come are gone. -/
theorem not_failureUndone : ¬ ∀ heap v func length atIndex, v.capacity ≤ heap.limit →
    (func.call length).1 ≠ .success → FailureUndone heap v func length atIndex := by
  intro h
  obtain ⟨v', res, hok, hbytes, -, -⟩ := h ⟨1000, by decide⟩ ⟨[1, 2], 2⟩ brokenStream 3 0
    (by decide) (by decide)
  have hv : (⟨0 :: 0 :: List.replicate 64 0, 2⟩, Status.ioerr) = (v', res) := Except.ok.inj hok
  cases hv
  cases hbytes

end JxtaC.Bytevector
