import JxtaC.Bytevector.Refines
import JxtaC.JxtaId

/-
  Whether byte vectors stay inside their blocks.
  A store holds the vectors a program has made; `call` performs one operation on it, whose vector
  argument is another vector of the store or the vector itself. `step_inBounds_iff` says of every
  operation on a valid vector when all its accesses lie inside the blocks and the vector is valid
  behind it; `bounded_iff` carries this through every sequence of calls.
-/

namespace JxtaC.Bytevector

open Lib Lib.Block List

/-- All accesses are inside, and the vector that is left is valid. -/
def InBounds {α : Type} (heap : Heap) (x : Exec (Bytevector × α)) : Prop :=
  ∃ p, x = .ok p ∧ WellFormed heap p.1

variable {heap : Heap} {v : Bytevector} {src : Source} {func : ReadFunc} {i k : Nat}

theorem inBounds_error {α : Type} (f : Fault) :
    ¬ InBounds heap (.error f : Exec (Bytevector × α)) := by
  rintro ⟨p, hp, -⟩
  cases hp

theorem inBounds_ok {α : Type} {p : Bytevector × α} :
    InBounds heap (.ok p) ↔ WellFormed heap p.1 := by
  constructor
  · rintro ⟨q, hq, hwf⟩
    cases hq
    exact hwf
  · exact fun hwf => ⟨p, rfl, hwf⟩

theorem inBounds_answer {x : Exec (Bytevector × Status)} :
    InBounds heap (answer x) ↔ InBounds heap x := by
  cases x with
  | error f => exact iff_of_false (inBounds_error f) (inBounds_error f)
  | ok p =>
    show InBounds heap (.ok (p.1, (⟨p.2, []⟩ : Reply))) ↔ InBounds heap (.ok p)
    rw [inBounds_ok, inBounds_ok]

/-! ## insertions -/

/-- There is no memory for `length` more bytes. -/
def Refused (heap : Heap) (v : Bytevector) (length : Nat) : Prop :=
  (ensureCapacity heap v ((v.size + length) % sizeMod)).2 ≠ .success

/-- The bytes are there to be read once the block has grown: memory of another object holds as many,
    and the vector's own block has not been moved. -/
def Loadable (v : Bytevector) (length : Nat) : Source → Prop
  | .null => True
  | .outside bytes => length ≤ bytes.length
  | .own offset => v.size + length < v.capacity ∧ offset + length ≤ v.capacity

/-- The insertion is refused, or its size does not wrap around and its bytes can be loaded. -/
def CanInsert (heap : Heap) (v : Bytevector) (src : Source) (atIndex length : Nat) : Prop :=
  v.size < atIndex ∨ Refused heap v length ∨ (v.size + length < sizeMod ∧ Loadable v length src)

theorem addBytesAt_outOfRange (hi : v.size < i) :
    addBytesAt heap v src i k = .ok (v, .invalidArgument) := by
  unfold addBytesAt
  rw [if_pos hi]

theorem addBytesAt_refused (hwf : WellFormed heap v) (hi : i ≤ v.size) (h : Refused heap v k) :
    addBytesAt heap v src i k = .ok (v, .nomem) := by
  unfold addBytesAt
  rw [if_neg (Nat.not_lt_of_le hi)]
  rcases ensureCapacity_cases hwf.capacity_le ((v.size + k) % sizeMod) with
    ⟨g, hg, -⟩ | ⟨hg, -, -⟩
  · exact absurd (by rw [hg]) h
  · rw [hg]

/-- The growth that is not refused. -/
theorem grown_of_not_refused (hwf : WellFormed heap v) (h : ¬ Refused heap v k) :
    ∃ g, ensureCapacity heap v ((v.size + k) % sizeMod) = (g, .success) ∧
      Grown heap v ((v.size + k) % sizeMod) g ∧
      (g.capacity = v.capacity ↔ (v.size + k) % sizeMod < v.capacity) := by
  rcases ensureCapacity_cases hwf.capacity_le ((v.size + k) % sizeMod) with
    ⟨g, hg, hgrown⟩ | ⟨hg, -, -⟩
  · refine ⟨g, hg, hgrown, fun hsame => ?_, hgrown.kept⟩
    by_contra hle
    unfold ensureCapacity at hg
    rw [if_neg hle] at hg
    dsimp only at hg
    -- a block that is not large enough grows by at least the increase
    have hmore : v.capacity < (if (v.size + k) % sizeMod > v.capacity + indexDefaultIncrease then
        (v.size + k) % sizeMod else v.capacity + indexDefaultIncrease) := by
      unfold indexDefaultIncrease
      split <;> omega
    generalize (if (v.size + k) % sizeMod > v.capacity + indexDefaultIncrease then
      (v.size + k) % sizeMod else v.capacity + indexDefaultIncrease) = larger at hg hmore
    split at hg
    · cases hg
      simp only [capacity, length_append, length_replicate] at hsame hmore
      omega
    · cases hg
  · refine absurd ?_ h
    unfold Refused
    rw [hg]
    intro hsuccess
    cases hsuccess

/-- The steps of an insertion behind the growth. -/
theorem addBytesAt_grown {g : Bytevector} (hi : i ≤ v.size)
    (hg : ensureCapacity heap v ((v.size + k) % sizeMod) = (g, .success)) :
    addBytesAt heap v src i k = (do
      let moved ← moveTail g.content v.size i k
      let bytes ← src.load moved (g.capacity ≠ v.capacity) k
      let written ← writeAt moved i bytes
      return (⟨written, (v.size + k) % sizeMod⟩, .success)) := by
  unfold addBytesAt
  rw [if_neg (Nat.not_lt_of_le hi)]
  simp only [hg]

/-- The tail is moved inside a block that has room for it. -/
theorem exists_moveTail {content : List Byte} {size : Nat} (hi : i ≤ size)
    (hroom : size + k ≤ content.length) :
    ∃ moved, moveTail content size i k = .ok moved ∧ moved.length = content.length := by
  unfold moveTail
  split
  · obtain ⟨moved, hmoved⟩ := exists_memmove content (i + k) i (size - i) (by omega) (by omega)
    exact ⟨moved, hmoved, length_memmove hmoved⟩
  · exact ⟨content, rfl, rfl⟩

section
variable (hwf : WellFormed heap v)
include hwf

theorem addBytesAt_done (hi : i ≤ v.size) (h : ¬ Refused heap v k) (hfit : v.size + k < sizeMod)
    (hload : Loadable v k src) :
    ∃ v', addBytesAt heap v src i k = .ok (v', .success) ∧ v'.size = v.size + k ∧
      WellFormed heap v' := by
  obtain ⟨g, hg, hgrown, hsame⟩ := grown_of_not_refused hwf h
  have hmod : (v.size + k) % sizeMod = v.size + k := Nat.mod_eq_of_lt hfit
  rw [hmod] at hgrown hsame
  have hroom : v.size + k ≤ g.content.length := hgrown.required_le
  obtain ⟨moved, hmoved, hlength⟩ := exists_moveTail hi hroom
  obtain ⟨bytes, hbytes, hk⟩ : ∃ bytes,
      src.load moved (decide (g.capacity ≠ v.capacity)) k = .ok bytes ∧ bytes.length = k := by
    cases src with
    | null => exact ⟨_, rfl, length_replicate⟩
    | outside bytes =>
      have hle : k ≤ bytes.length := hload
      refine ⟨_, readAt_of_le (by omega), ?_⟩
      rw [length_take, drop_zero, Nat.min_eq_left hle]
    | own offset =>
      obtain ⟨hkept, hle⟩ := hload
      have hcapacity : g.capacity = v.capacity := hsame.mpr hkept
      have hin : offset + k ≤ moved.length := by
        rw [hlength]
        show offset + k ≤ g.capacity
        rw [hcapacity]
        exact hle
      refine ⟨(moved.drop offset).take k, ?_, ?_⟩
      · rw [Source.load, decide_eq_false (not_not_intro hcapacity), if_neg (by decide),
          readAt_of_le hin]
      · rw [length_take, length_drop]
        omega
  obtain ⟨written, hwritten⟩ := exists_writeAt moved i bytes (by omega)
  refine ⟨⟨written, v.size + k⟩, ?_, rfl, ?_, ?_⟩
  · rw [addBytesAt_grown hi hg, hmoved, ok_bind, hbytes, ok_bind, hwritten, ok_bind, hmod]
    rfl
  · rw [capacity, length_writeAt hwritten, hlength]
    exact hroom
  · rw [capacity, length_writeAt hwritten, hlength]
    exact hgrown.capacity_le

/-- An insertion that is not refused and cannot be made leaves the blocks. -/
theorem addBytesAt_fault (hi : i ≤ v.size) (h : ¬ Refused heap v k)
    (hbad : ¬ (v.size + k < sizeMod ∧ Loadable v k src)) {p : Bytevector × Status} :
    addBytesAt heap v src i k ≠ .ok p := by
  obtain ⟨g, hg, hgrown, hsame⟩ := grown_of_not_refused hwf h
  have hcap : g.content.length < 2 ^ 63 := Nat.lt_of_le_of_lt hgrown.capacity_le heap.limit_lt
  have hsize := hwf.size_lt
  rw [addBytesAt_grown hi hg]
  intro hok
  obtain ⟨moved, hmoved, hok⟩ := bind_eq_ok.mp hok
  obtain ⟨bytes, hbytes, hok⟩ := bind_eq_ok.mp hok
  obtain ⟨written, hwritten, -⟩ := bind_eq_ok.mp hok
  have hlength : moved.length = g.content.length := by
    unfold moveTail at hmoved
    split at hmoved
    · exact length_memmove hmoved
    · cases hmoved
      rfl
  have hwrite := (writeAt_eq_ok.mp hwritten).1
  apply hbad
  -- what was loaded is as long as the gap, and fits the block
  have hloaded : bytes.length = k ∧
      ((g.capacity = v.capacity ∧ v.size + k < sizeMod → (v.size + k) % sizeMod < v.capacity) →
        v.size + k < sizeMod → Loadable v k src) := by
    cases src with
    | null =>
      cases hbytes
      exact ⟨length_replicate, fun _ _ => trivial⟩
    | outside outer =>
      obtain ⟨hle, rfl⟩ := readAt_eq_ok.mp hbytes
      refine ⟨?_, fun _ _ => ?_⟩
      · rw [length_take, drop_zero]
        omega
      · show k ≤ outer.length
        omega
    | own offset =>
      rw [Source.load] at hbytes
      split at hbytes
      · cases hbytes
      · rename_i hstays
        have hcapacity : g.capacity = v.capacity := by
          simpa only [decide_eq_true_eq, ne_eq, not_not] using hstays
        obtain ⟨hle, rfl⟩ := readAt_eq_ok.mp hbytes
        refine ⟨?_, fun hkept hfit => ?_⟩
        · rw [length_take, length_drop]
          omega
        · have hlt := hkept ⟨hcapacity, hfit⟩
          rw [Nat.mod_eq_of_lt hfit] at hlt
          refine ⟨hlt, ?_⟩
          rw [hlength] at hle
          show offset + k ≤ v.capacity
          rw [← hcapacity]
          exact hle
  have hfit : v.size + k < sizeMod := by
    unfold sizeMod
    omega
  exact ⟨hfit, hloaded.2 (fun hstays => hsame.mp hstays.1) hfit⟩

theorem addBytesAt_inBounds_iff :
    InBounds heap (addBytesAt heap v src i k) ↔ CanInsert heap v src i k := by
  unfold CanInsert
  by_cases hi : v.size < i
  · rw [addBytesAt_outOfRange hi]
    exact iff_of_true (inBounds_ok.mpr hwf) (.inl hi)
  have hle : i ≤ v.size := Nat.le_of_not_lt hi
  by_cases hrefused : Refused heap v k
  · rw [addBytesAt_refused hwf hle hrefused]
    exact iff_of_true (inBounds_ok.mpr hwf) (.inr (.inl hrefused))
  by_cases hgood : v.size + k < sizeMod ∧ Loadable v k src
  · obtain ⟨v', hdone, -, hwf'⟩ := addBytesAt_done hwf hle hrefused hgood.1 hgood.2
    rw [hdone]
    exact iff_of_true (inBounds_ok.mpr hwf') (.inr (.inr hgood))
  · refine iff_of_false ?_ ?_
    · rintro ⟨p, hp, -⟩
      exact addBytesAt_fault hwf hle hrefused hgood hp
    · rintro (h | h | h)
      · exact hi h
      · exact hrefused h
      · exact hgood h

/-! ## removals and streams -/

theorem removeBytesAt_inBounds (i k : Nat) : InBounds heap (removeBytesAt v i k) := by
  obtain ⟨p, hp, hremoves⟩ := removeBytesAt_spec hwf i k
  refine ⟨p, hp, ?_⟩
  cases hremoves with
  | done _ _ _ hwf' => exact hwf'
  | outOfRange _ => exact hwf

theorem afterStream_inBounds (err : Status) (i k : Nat) :
    InBounds heap (afterStream v err i k) := by
  unfold afterStream
  split
  · exact inBounds_ok.mpr hwf
  · obtain ⟨⟨removed, status⟩, hremoved, hwf'⟩ := removeBytesAt_inBounds hwf i k
    rw [hremoved]
    exact inBounds_ok.mpr hwf'

/-- The block with what a stream has delivered. -/
theorem exists_filled {i : Nat} {xs : List Byte} (h : i + xs.length ≤ v.capacity) {size : Nat}
    (hsize : size ≤ v.capacity) :
    ∃ filled, writeAt v.content i xs = .ok filled ∧ WellFormed heap ⟨filled, size⟩ := by
  obtain ⟨filled, hfilled⟩ := exists_writeAt v.content i xs h
  refine ⟨filled, hfilled, ?_, ?_⟩
  · rw [capacity, length_writeAt hfilled]
    exact hsize
  · rw [capacity, length_writeAt hfilled]
    exact hwf.capacity_le

theorem addFromStreamAt_inBounds_iff :
    InBounds heap (addFromStreamAt heap v func k i) ↔ CanInsert heap v .null i k := by
  rw [← addBytesAt_inBounds_iff hwf]
  unfold addFromStreamAt
  constructor
  · rintro ⟨p, hp, -⟩
    obtain ⟨q, hq, -⟩ := bind_eq_ok.mp hp
    rw [addBytesAt_inBounds_iff hwf]
    by_contra hbad
    unfold CanInsert at hbad
    push Not at hbad
    exact addBytesAt_fault hwf hbad.1 hbad.2.1 (fun h => hbad.2.2 h.1 h.2) hq
  · rintro ⟨⟨added, res⟩, hadd, hwf'⟩
    replace hwf' : WellFormed heap added := hwf'
    rw [hadd, ok_bind]
    by_cases hres : res = .success
    · subst hres
      have hdelivered := func.length_le k
      have hroom : i + k ≤ added.capacity := by
        by_cases hi : v.size < i
        · rw [addBytesAt_outOfRange hi] at hadd
          cases hadd
        by_cases hrefused : Refused heap v k
        · rw [addBytesAt_refused hwf (Nat.le_of_not_lt hi) hrefused] at hadd
          cases hadd
        by_cases hgood : v.size + k < sizeMod ∧ Loadable v k .null
        · obtain ⟨v', hdone, hsize, hwf''⟩ :=
            addBytesAt_done (i := i) hwf (Nat.le_of_not_lt hi) hrefused hgood.1 hgood.2
          rw [hdone] at hadd
          cases hadd
          have hle := hwf''.size_le
          omega
        · exact absurd hadd (addBytesAt_fault hwf (Nat.le_of_not_lt hi) hrefused hgood)
      have hfits : i + (func.call k).2.length ≤ added.capacity := by omega
      obtain ⟨filled, hfilled, hwf''⟩ := exists_filled hwf' hfits hwf'.size_le
      simp only [hfilled, ok_bind]
      exact afterStream_inBounds hwf'' _ _ _
    · split
      · rename_i heq
        cases heq
        exact absurd rfl hres
      · rename_i heq
        cases heq
        exact inBounds_ok.mpr hwf'

end

/-- What `set_from_stream_at` has to meet: it is refused, or both the bytes and the vector that has
    grown by them are inside the block. -/
def CanSet (v : Bytevector) (atIndex length : Nat) : Prop :=
  (v.capacity + sizeMod - atIndex) % sizeMod < length ∨
    (atIndex ≤ v.capacity ∧ v.size + length ≤ v.capacity)

section
variable (hwf : WellFormed heap v)
include hwf

theorem setFromStreamAt_inBounds_iff :
    InBounds heap (setFromStreamAt v func k i) ↔ CanSet v i k := by
  have hcap : v.content.length < 2 ^ 63 := Nat.lt_of_le_of_lt hwf.capacity_le heap.limit_lt
  have hle : v.size ≤ v.content.length := hwf.size_le
  have hdelivered := func.length_le k
  unfold setFromStreamAt CanSet
  by_cases hrefused : k > (v.capacity + sizeMod - i) % sizeMod
  · rw [if_pos hrefused]
    exact iff_of_true (inBounds_ok.mpr hwf) (.inl hrefused)
  rw [if_neg hrefused]
  have hwrite : ∀ p, (do
      let filled ← writeAt v.content i (func.call k).2
      afterStream ⟨filled, (v.size + k) % sizeMod⟩ (func.call k).1 i k) = .ok p →
      i ≤ v.capacity := by
    intro p hp
    obtain ⟨filled, hfilled, -⟩ := bind_eq_ok.mp hp
    have hfit := (writeAt_eq_ok.mp hfilled).1
    unfold capacity
    omega
  by_cases hi : i ≤ v.capacity
  swap
  · refine iff_of_false ?_ ?_
    · rintro ⟨p, hp, -⟩
      exact hi (hwrite p hp)
    · rintro (h | h)
      · exact hrefused h
      · exact hi h.1
  have hroom : (v.capacity + sizeMod - i) % sizeMod = v.capacity - i := by
    unfold capacity sizeMod at *
    rw [show v.content.length + 2 ^ 64 - i = (v.content.length - i) + 2 ^ 64 by omega,
      Nat.add_mod_right, Nat.mod_eq_of_lt (by omega)]
  rw [hroom] at hrefused
  have hik : i + k ≤ v.content.length := by
    unfold capacity at hrefused hi
    omega
  have hmod : (v.size + k) % sizeMod = v.size + k := by
    refine Nat.mod_eq_of_lt ?_
    unfold sizeMod
    omega
  obtain ⟨filled, hfilled⟩ := exists_writeAt v.content i (func.call k).2 (by omega)
  have hflength := length_writeAt hfilled
  rw [hfilled, ok_bind, hmod]
  by_cases hgrow : v.size + k ≤ v.capacity
  · refine iff_of_true (afterStream_inBounds ⟨?_, ?_⟩ _ _ _) (.inr ⟨hi, hgrow⟩)
    · rw [capacity, hflength]
      exact hgrow
    · rw [capacity, hflength]
      exact hwf.capacity_le
  · refine iff_of_false ?_ ?_
    · rintro ⟨p, hp, hwf'⟩
      unfold afterStream at hp
      split at hp
      · cases hp
        have hbad := hwf'.size_le
        rw [capacity, hflength] at hbad
        exact hgrow hbad
      · -- the tail that closes the gap is read from behind the block
        obtain ⟨⟨removed, status⟩, hremoved, -⟩ := bind_eq_ok.mp hp
        unfold removeBytesAt at hremoved
        unfold capacity at hgrow
        dsimp only at hremoved
        rw [if_neg (by omega), if_pos (by omega)] at hremoved
        obtain ⟨moved, hmoved, -⟩ := bind_eq_ok.mp hremoved
        have hread := (memmove_eq_ok.mp hmoved).1
        omega
    · rintro (h | h)
      · rw [hroom] at h
        exact hrefused h
      · exact hgrow h.2

/-! ## every operation -/

theorem look_inBounds {x : Exec (Status × List Byte)} (hx : ∃ p, x = .ok p) :
    InBounds heap (look v x) := by
  obtain ⟨p, rfl⟩ := hx
  exact inBounds_ok.mpr hwf

theorem getBytesAt_returns (i k : Nat) : ∃ p, getBytesAt v i k = .ok p := by
  by_cases hi : i < v.size
  · exact ⟨_, getBytesAt1_of_lt hwf.size_le hi⟩
  · unfold getBytesAt getBytesAt1
    rw [if_pos (Nat.le_of_not_lt hi)]
    exact ⟨_, rfl⟩

theorem write_returns (f : List Byte → Status) (i k : Nat) : ∃ p, write v f i k = .ok p := by
  by_cases hi : i < v.size
  · exact ⟨_, write_of_lt hwf.size_le f hi⟩
  · unfold write
    rw [if_pos (Nat.le_of_not_lt hi)]
    exact ⟨_, rfl⟩

end

theorem clear_wellFormed (heap : Heap) (v : Bytevector) (n : Nat) :
    WellFormed heap (clear heap v n).1 := by
  have hempty : WellFormed heap ⟨[], 0⟩ := ⟨Nat.le_refl _, Nat.zero_le _⟩
  unfold clear
  rcases ensureCapacity_cases (v := ⟨[], 0⟩) hempty.capacity_le
    (if n = 0 then indexDefaultSize else n) with ⟨g, hg, hgrown⟩ | ⟨hg, -, -⟩
  · rw [hg]
    refine ⟨?_, hgrown.capacity_le⟩
    show g.size ≤ g.capacity
    rw [hgrown.size_eq]
    exact Nat.zero_le _
  · rw [hg]
    exact hempty

/-- The condition on the state before an operation under which it stays inside the blocks. -/
def Careful (heap : Heap) (v : Bytevector) : Op → Prop
  | .addByteAt byte atIndex => CanInsert heap v (.outside [byte]) atIndex 1
  | .addByteFirst byte => CanInsert heap v (.outside [byte]) 0 1
  | .addByteLast byte => CanInsert heap v (.outside [byte]) (v.size % uintMod) 1
  | .addBytesAt bytes atIndex => CanInsert heap v (.outside bytes) atIndex bytes.length
  | .addNullAt length atIndex => CanInsert heap v .null atIndex length
  | .addBytevectorAt bytes dstindex =>
    CanInsert heap v ((bytes.resolve v).1 0) dstindex (bytes.resolve v).2
  | .addPartialBytevectorAt bytes srcIndex length dstindex =>
    let size := (bytes.resolve v).2
    srcIndex < size → CanInsert heap v ((bytes.resolve v).1 srcIndex) dstindex
      (if length ≤ size - srcIndex then length else size - srcIndex)
  | .addFromStreamAt _ length atIndex => CanInsert heap v .null atIndex length
  | .setFromStreamAt _ length atIndex => CanSet v atIndex length
  | _ => True

theorem step_inBounds_iff (hwf : WellFormed heap v) (o : Op) :
    InBounds heap (step heap v o) ↔ Careful heap v o := by
  cases o with
  | addByteAt byte i => exact inBounds_answer.trans (addBytesAt_inBounds_iff hwf)
  | addByteFirst byte =>
    unfold step addByteFirst addByteAt
    exact inBounds_answer.trans (addBytesAt_inBounds_iff hwf)
  | addByteLast byte =>
    unfold step addByteLast addByteAt
    exact inBounds_answer.trans (addBytesAt_inBounds_iff hwf)
  | addBytesAt bytes i => exact inBounds_answer.trans (addBytesAt_inBounds_iff hwf)
  | addNullAt k i => exact inBounds_answer.trans (addBytesAt_inBounds_iff hwf)
  | addBytevectorAt o dst => exact inBounds_answer.trans (addBytesAt_inBounds_iff hwf)
  | addPartialBytevectorAt o srcIndex length dst =>
    refine inBounds_answer.trans ?_
    unfold addPartialBytevectorAt Careful
    by_cases hsrc : srcIndex ≥ (o.resolve v).2
    · simp only [if_pos hsrc]
      exact iff_of_true (inBounds_ok.mpr hwf) fun h => absurd h (Nat.not_lt_of_le hsrc)
    · simp only [if_neg hsrc]
      rw [addBytesAt_inBounds_iff hwf]
      exact ⟨fun h _ => h, fun h => h (Nat.lt_of_not_le hsrc)⟩
  | addFromStreamAt func k i => exact inBounds_answer.trans (addFromStreamAt_inBounds_iff hwf)
  | setFromStreamAt func k i => exact inBounds_answer.trans (setFromStreamAt_inBounds_iff hwf)
  | getByteAt i => exact iff_of_true (look_inBounds hwf (getBytesAt_returns hwf i 1)) trivial
  | getBytesAt i k => exact iff_of_true (look_inBounds hwf (getBytesAt_returns hwf i k)) trivial
  | write f i k => exact iff_of_true (look_inBounds hwf (write_returns hwf f i k)) trivial
  | removeByteAt i =>
    exact iff_of_true (inBounds_answer.mpr (removeBytesAt_inBounds hwf i 1)) trivial
  | removeBytesAt i k =>
    exact iff_of_true (inBounds_answer.mpr (removeBytesAt_inBounds hwf i k)) trivial
  | clear n => exact iff_of_true (inBounds_ok.mpr (clear_wellFormed heap v n)) trivial

/-! ## a program's vectors -/

/-- The vectors a program has made; `none` is one whose block was refused. -/
abbrev Store := List (Option Bytevector)

/-- The calls a program makes: `op i o j` performs `o` on vector `i`, where an operand is vector `j`;
    the blocks given to `new2` and `new3` come from the allocator. -/
inductive Call where
  | new0
  | new1 (initialSize : Nat)
  | new2 (initial : List Byte) (initialCapacity : Nat)
  | new3 (content : List Byte)
  | op (i : Nat) (o : Op) (j : Nat)
  | getBytevectorAt (i atIndex length : Nat)
  | equals (i j : Nat)
  | hashcode (i : Nat)

/-- The operation with this operand, where it takes one. -/
def Op.against (operand : Operand) : Op → Op
  | .addBytevectorAt _ dstindex => .addBytevectorAt operand dstindex
  | .addPartialBytevectorAt _ srcIndex length dstindex =>
    .addPartialBytevectorAt operand srcIndex length dstindex
  | o => o

/-- Vector `j` as the operand of a call on vector `i`. -/
def operandOf (i j : Nat) (w : Bytevector) : Operand := if i = j then .self else .other w

/-- A call on a vector: without one it is not made. -/
def withVector (s : Store) (i : Nat) (f : Bytevector → Exec (Store × Unit)) :
    Exec (Store × Unit) :=
  match s[i]? with
  | none => .ok (s, ())
  | some none => .error .nullPointer
  | some (some v) => f v

def call (heap : Heap) (s : Store) : Call → Exec (Store × Unit)
  | .new0 => .ok (s ++ [new0 heap], ())
  | .new1 initialSize => .ok (s ++ [new1 heap initialSize], ())
  | .new2 initial initialCapacity =>
    if initial.length ≤ heap.limit then
      match new2 heap initial initialCapacity with
      | none => .ok (s, ())
      | some v => .ok (s ++ [some v], ())
    else .ok (s, ())
  | .new3 content =>
    if content.length ≤ heap.limit then .ok (s ++ [some (new3 content)], ()) else .ok (s, ())
  | .op i o j =>
    withVector s i fun v => withVector s j fun w => do
      let (v', _) ← step heap v (o.against (operandOf i j w))
      return (s.set i (some v'), ())
  | .getBytevectorAt i atIndex length =>
    withVector s i fun v => do
      let (dest, _) ← getBytevectorAt heap v atIndex length
      return (s ++ dest.toList, ())
  | .equals i j =>
    withVector s i fun v => withVector s j fun w => do
      let _ ← equals v (operandOf i j w)
      return (s, ())
  | .hashcode i =>
    withVector s i fun v => do
      let _ ← hashcode JxtaId.simplehash v
      return (s, ())

/-- Every vector has a block, and its bytes lie inside it. -/
def Bounded (heap : Heap) (s : Store) : Prop := ∀ e ∈ s, ∃ v, e = some v ∧ WellFormed heap v

/-- The condition on the store before a call under which it stays inside the blocks. -/
def CarefulCall (heap : Heap) (s : Store) : Call → Prop
  | .new0 => indexDefaultSize + 1 ≤ heap.limit
  | .new1 initialSize => initialSize + 1 ≤ heap.limit
  | .op i o j => ∀ v w, s[i]? = some (some v) → s[j]? = some (some w) →
    Careful heap v (o.against (operandOf i j w))
  | .getBytevectorAt i atIndex length => ∀ v, s[i]? = some (some v) →
    v.size ≤ atIndex ∨ min length (v.size - atIndex) + 1 ≤ heap.limit
  | _ => True

variable {s : Store}

theorem bounded_concat {e : Option Bytevector} (hs : Bounded heap s) :
    Bounded heap (s ++ [e]) ↔ ∃ v, e = some v ∧ WellFormed heap v := by
  constructor
  · exact fun h => h e (by simp)
  · intro he e' hmem
    rcases mem_append.mp hmem with hmem | hmem
    · exact hs e' hmem
    · obtain rfl := mem_singleton.mp hmem
      exact he

theorem bounded_set {e : Option Bytevector} {v' : Bytevector} (hs : Bounded heap s)
    (hi : s[i]? = some e) : Bounded heap (s.set i (some v')) ↔ WellFormed heap v' := by
  have hlt := (List.getElem?_eq_some_iff.mp hi).1
  constructor
  · intro h
    obtain ⟨w, hw, hwf⟩ := h (some v') (mem_set hlt _)
    cases hw
    exact hwf
  · intro hwf e' hmem
    rcases mem_or_eq_of_mem_set hmem with hmem | rfl
    · exact hs e' hmem
    · exact ⟨v', rfl, hwf⟩

/-- What a call leaves the store. -/
def Keeps (heap : Heap) (x : Exec (Store × Unit)) : Prop :=
  ∃ s' r, x = .ok (s', r) ∧ Bounded heap s'

theorem keeps_ok {r : Unit} : Keeps heap (.ok (s, r)) ↔ Bounded heap s := by
  constructor
  · rintro ⟨s', r', h, hs⟩
    cases h
    exact hs
  · exact fun hs => ⟨s, r, rfl, hs⟩

section
variable (hs : Bounded heap s)
include hs

/-- In a bounded store a call on a vector is one on a valid vector, or is not made. -/
theorem keeps_withVector {f : Bytevector → Exec (Store × Unit)} {P : Bytevector → Prop}
    (hf : ∀ v, s[i]? = some (some v) → WellFormed heap v → (P v ↔ Keeps heap (f v))) :
    (∀ v, s[i]? = some (some v) → P v) ↔ Keeps heap (withVector s i f) := by
  unfold withVector
  cases hi : s[i]? with
  | none => exact iff_of_true (fun v h => by cases h) (keeps_ok.mpr hs)
  | some e =>
    obtain ⟨v, rfl, hwf⟩ := hs e (mem_of_getElem? hi)
    refine Iff.trans ?_ (hf v hi hwf)
    exact ⟨fun h => h v rfl, fun h w hw => by cases hw; exact h⟩

theorem keeps_new1 (n : Nat) : n + 1 ≤ heap.limit ↔ Keeps heap (.ok (s ++ [new1 heap n], ())) := by
  rw [keeps_ok, bounded_concat hs]
  constructor
  · intro hn
    refine ⟨⟨List.replicate n 0, 0⟩, by rw [new1, if_pos hn], Nat.zero_le _, ?_⟩
    rw [capacity, length_replicate]
    omega
  · rintro ⟨v, hv, -⟩
    by_contra hn
    rw [new1, if_neg hn] at hv
    cases hv

theorem keeps_getBytevectorAt (hwf : WellFormed heap v) (i k : Nat) :
    (v.size ≤ i ∨ min k (v.size - i) + 1 ≤ heap.limit) ↔ Keeps heap (do
      let (dest, _) ← getBytevectorAt heap v i k
      return (s ++ dest.toList, ())) := by
  unfold getBytevectorAt
  by_cases hi : i ≥ v.size
  · rw [if_pos hi]
    refine iff_of_true (.inl hi) (keeps_ok.mpr ?_)
    rw [Option.toList_none, append_nil]
    exact hs
  rw [if_neg hi]
  have hmin : (if v.size - i > k then k else v.size - i) = min k (v.size - i) := by
    split <;> omega
  simp only [hmin]
  generalize hn : min k (v.size - i) = n
  have hle : v.size ≤ v.content.length := hwf.size_le
  by_cases hserved : n + 1 ≤ heap.limit
  · have hnew : new1 heap n = some ⟨List.replicate n 0, 0⟩ := by rw [new1, if_pos hserved]
    have hdest := wellFormed_new1 hnew
    have hinsert : CanInsert heap ⟨List.replicate n 0, 0⟩ (.outside (v.content.drop i)) 0 n := by
      have hlimit := heap.limit_lt
      refine .inr (.inr ⟨?_, ?_⟩)
      · unfold sizeMod
        dsimp only
        omega
      · show n ≤ (v.content.drop i).length
        rw [length_drop]
        omega
    obtain ⟨⟨dest, res⟩, hadd, hwf'⟩ := (addBytesAt_inBounds_iff hdest).mpr hinsert
    rw [hnew]
    dsimp only
    rw [hadd]
    refine iff_of_true (.inr hserved) (keeps_ok.mpr ?_)
    exact (bounded_concat hs).mpr ⟨dest, rfl, hwf'⟩
  · rw [new1, if_neg hserved]
    refine iff_of_false ?_ ?_
    · rintro (h | h)
      · exact hi h
      · exact hserved h
    · intro hkeeps
      obtain ⟨w, hw, -⟩ := (bounded_concat hs).mp (keeps_ok.mp hkeeps)
      cases hw

/-- One call keeps the store bounded exactly if it is careful. -/
theorem call_keeps_iff (c : Call) : CarefulCall heap s c ↔ Keeps heap (call heap s c) := by
  cases c with
  | new0 => exact keeps_new1 hs indexDefaultSize
  | new1 n => exact keeps_new1 hs n
  | new2 initial n =>
    refine iff_of_true trivial ?_
    unfold call
    dsimp only
    split
    · rename_i hlimit
      cases hnew : new2 heap initial n with
      | none => exact keeps_ok.mpr hs
      | some v =>
        refine keeps_ok.mpr ((bounded_concat hs).mpr ⟨v, rfl, ?_⟩)
        unfold new2 at hnew
        split at hnew
        · cases hnew
        split at hnew
        · cases hnew
        split at hnew
        · cases hnew
        cases hnew
        constructor <;>
          simp only [capacity, length_append, length_replicate] <;> omega
    · exact keeps_ok.mpr hs
  | new3 content =>
    refine iff_of_true trivial ?_
    unfold call
    dsimp only
    split
    · rename_i hlimit
      exact keeps_ok.mpr ((bounded_concat hs).mpr ⟨_, rfl, Nat.le_refl _, hlimit⟩)
    · exact keeps_ok.mpr hs
  | op i o j =>
    have hcareful : CarefulCall heap s (.op i o j) ↔ ∀ v, s[i]? = some (some v) →
        ∀ w, s[j]? = some (some w) → Careful heap v (o.against (operandOf i j w)) :=
      ⟨fun h v hv w hw => h v w hv hw, fun h v w hv hw => h v hv w hw⟩
    refine hcareful.trans (keeps_withVector hs fun v hv hwf => ?_)
    refine keeps_withVector hs fun w hw _ => ?_
    rw [← step_inBounds_iff hwf]
    cases hstep : step heap v (o.against (operandOf i j w)) with
    | error f =>
      refine iff_of_false (inBounds_error f) ?_
      rintro ⟨s', r, h, -⟩
      cases h
    | ok p =>
      rw [inBounds_ok]
      exact (bounded_set hs hv).symm.trans keeps_ok.symm
  | getBytevectorAt i n k =>
    exact keeps_withVector hs fun v _ hwf => keeps_getBytevectorAt hs hwf n k
  | equals i j =>
    have htrue : (∀ v, s[i]? = some (some v) → ∀ w, s[j]? = some (some w) → True) ↔
        Keeps heap (call heap s (.equals i j)) := by
      refine keeps_withVector hs fun v _ hwf => keeps_withVector hs fun w _ hwf' => ?_
      refine iff_of_true trivial ?_
      unfold equals operandOf
      by_cases hij : i = j
      · rw [if_pos hij]
        exact keeps_ok.mpr hs
      rw [if_neg hij]
      dsimp only
      split
      · exact keeps_ok.mpr hs
      · rename_i hsize
        have hw : v.size ≤ w.content.length := (not_not.mp hsize) ▸ hwf'.size_le
        have hv : v.size ≤ v.content.length := hwf.size_le
        rw [readAt_of_le (by omega), readAt_of_le (by omega)]
        exact keeps_ok.mpr hs
    exact iff_of_true trivial (htrue.mp fun _ _ _ _ => trivial)
  | hashcode i =>
    have htrue : (∀ v, s[i]? = some (some v) → True) ↔ Keeps heap (call heap s (.hashcode i)) := by
      refine keeps_withVector hs fun v _ hwf => iff_of_true trivial ?_
      have hv : v.size ≤ v.content.length := hwf.size_le
      unfold hashcode
      rw [readAt_of_le (by omega)]
      exact keeps_ok.mpr hs
    exact iff_of_true trivial (htrue.mp fun _ _ => trivial)

end

/-- Every sequence of calls stays inside the blocks, and keeps every vector inside its own, exactly
    as far as the calls are careful. -/
theorem bounded_iff (heap : Heap) (calls : List Call) :
    Throughout (call heap) (Bounded heap) (fun _ _ => True) [] calls ↔
      SafeRun (call heap) (CarefulCall heap) [] calls :=
  throughout_iff_safeRun (fun _ c hs => call_keeps_iff hs c) calls nofun

/-- A vector is made, and set over its whole length from a stream: it counts twice as many bytes as
    its block has. -/
theorem not_bounded : ¬ ∀ heap calls,
    Throughout (call heap) (Bounded heap) (fun _ _ => True) [] calls := by
  intro h
  have hall := h ⟨1000, by decide⟩ [.new3 [1, 2], .op 0 (.setFromStreamAt (streamOf [7, 8]) 2 0) 0]
  obtain ⟨-, s₁, r₁, h₁, -, -, s₂, r₂, h₂, -, hbounded⟩ := hall
  cases h₁
  have hset : call ⟨1000, by decide⟩ [some ⟨[1, 2], 2⟩]
      (.op 0 (.setFromStreamAt (streamOf [7, 8]) 2 0) 0) = .ok ([some ⟨[7, 8], 4⟩], ()) := by
    decide +kernel
  obtain ⟨rfl, -⟩ := Prod.mk.inj (Except.ok.inj (hset.symm.trans h₂))
  obtain ⟨v, hv, hwf⟩ := hbounded (some ⟨[7, 8], 4⟩) mem_cons_self
  cases hv
  exact absurd hwf.size_le (by decide)

end JxtaC.Bytevector
