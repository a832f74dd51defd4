import JxtaC.Lib.CStrings
import JxtaC.Message

/-
  Ranges of index values (jxta_range.c), with the buffers that their texts are read into. The
  strings are read up to their NUL; a buffer is written byte by byte, on the stack or the heap.
  `castToNumber` is `xmlXPathCastStringToNumber`; the global table of ranges is not kept.
-/

namespace JxtaC.Range

open Lib List

/-- `struct _jxta_range`. -/
structure JxtaRange (Number : Type) where
  nameSpace : Option CString
  element : Option CString
  attr : Option CString
  range : Option CString
  high : Number
  low : Number

/-- `while (stop != *range && *range)`: the bytes go into the buffer. -/
def fill (stop : Byte) : (range buffer : List Byte) → (i : Nat) → Exec (List Byte × List Byte)
  | [], buffer, _ => .ok ([], buffer)
  | b :: range, buffer, i =>
    if b = stop then .ok (b :: range, buffer)
    else do fill stop range (← setByte buffer i b) (i + 1)

/-- The size of `low` and `high`. -/
def numberSize : Nat := 32

/-- The loop of `jxta_range_add`: `low`, `high` and the status. -/
def readRange (range : List Byte) : Exec (List Byte × List Byte × Status) := do
  let low := List.replicate numberSize 0
  let high := List.replicate numberSize 0
  if range.head? ≠ some 40 then return (low, high, .invalidArgument)
  else
    let (range, low) ← fill 58 range.tail low 0
    if range.head? ≠ some 58 then return (low, high, .invalidArgument)
    else if range.tail.head? ≠ some 58 then return (low, high, .invalidArgument)
    else
      let (range, high) ← fill 41 range.tail.tail high 0
      return (low, high, if range.head? = some 41 then .success else .invalidArgument)

/-- `jxta_range_add`. -/
def jxtaRangeAdd {Number : Type} (castToNumber : List Byte → Number) (rge : JxtaRange Number)
    (nspace element : CString) (attr : Option CString) (range : CString) :
    Exec (JxtaRange Number × Status) := do
  match ← readRange range.bytes with
  | (low, high, .success) =>
    let low := castToNumber (← stringIn low)
    let high := castToNumber (← stringIn high)
    return ({ nameSpace := some nspace, element := some element, attr, range := some range
              low, high }, .success)
  | _ => return (rge, .invalidArgument)

/-- The size of the blocks for the element and the attribute. -/
def elemAttrSize : Nat := 128

/-- The loop of `range_get_elem_attr`: the block of the element, that of the attribute, and the
    place in the block that is written. -/
def splitLoop : (tmp elem : List Byte) → (attr : Option (List Byte)) → (dest : Nat) →
    Exec (List Byte × Option (List Byte))
  | [], elem, attr, _ => .ok (elem, attr)
  | b :: tmp, elem, attr, dest => do
    let c := if b = 32 then 0 else b
    let (elem, attr) ← match attr with
      | none => do pure (← setByte elem dest c, none)
      | some attr => do pure (elem, some (← setByte attr dest c))
    if b = 32 then splitLoop tmp elem (some (List.replicate elemAttrSize 0)) 0
    else splitLoop tmp elem attr (dest + 1)

/-- `range_get_elem_attr`: the blocks of the element and of the attribute. -/
def rangeGetElemAttr (elemAttr : List Byte) : Exec (List Byte × Option (List Byte)) :=
  splitLoop elemAttr (List.replicate elemAttrSize 0) none 0

/-! ## the claim of the ranges -/

/-- `(low::high)`, with anything behind it. -/
def WellFormed (range : List Byte) : Prop :=
  ∃ low high rest, range = 40 :: (low ++ 58 :: 58 :: (high ++ 41 :: rest)) ∧ 58 ∉ low ∧ 41 ∉ high

/-- A range is read inside of the buffers, which hold strings, and taken just if it has the form of
    one. -/
def AddMeets {Number : Type} (castToNumber : List Byte → Number) (rge : JxtaRange Number)
    (nspace element : CString) (attr : Option CString) (range : CString) : Prop :=
  ∃ low high status rge', readRange range.bytes = .ok (low, high, status) ∧ 0 ∈ low ∧ 0 ∈ high ∧
    jxtaRangeAdd castToNumber rge nspace element attr range = .ok (rge', status) ∧
    (status = .success ↔ WellFormed range.bytes)

/-- The text is split at its space, inside of the blocks, which hold strings. -/
def SplitMeets (elemAttr : List Byte) : Prop :=
  ∃ elem attr, rangeGetElemAttr elemAttr = .ok (elem, attr) ∧
    stringIn elem = .ok (elemAttr.takeWhile (· ≠ 32)) ∧
    match elemAttr.dropWhile (· ≠ 32) with
    | [] => attr = none
    | _ :: rest => ∃ block, attr = some block ∧ stringIn block = .ok rest

/-- What is read of a range is shorter than the buffers. -/
def RangeFits (range : List Byte) : Prop :=
  ∀ rest, range = 40 :: rest → (rest.takeWhile (· ≠ 58)).length < numberSize ∧
    ∀ rest', rest.dropWhile (· ≠ 58) = 58 :: 58 :: rest' →
      (rest'.takeWhile (· ≠ 41)).length < numberSize

/-- Element and attribute are shorter than the blocks, with no second space. -/
def ElemAttrFits (elemAttr : List Byte) : Prop :=
  (elemAttr.takeWhile (· ≠ 32)).length < elemAttrSize ∧
    ∀ rest, elemAttr.dropWhile (· ≠ 32) = 32 :: rest → 32 ∉ rest ∧ rest.length < elemAttrSize

/-! ## buffers -/

section Buffers
variable {stop : Byte} {size : Nat}

theorem replicate_eq_padded (size : Nat) : List.replicate size (0 : Byte) = padded size [] := by
  unfold padded
  rw [nil_append, length_nil, Nat.sub_zero]

/-- The buffer gets the bytes in front of the stop, if there is room for them. -/
theorem fill_padded (range s : List Byte) (hs : s.length ≤ size) :
    fill stop range (padded size s) s.length =
      if s.length + (range.takeWhile (· ≠ stop)).length ≤ size then
        .ok (range.dropWhile (· ≠ stop), padded size (s ++ range.takeWhile (· ≠ stop)))
      else .error .outOfBounds := by
  induction range generalizing s with
  | nil =>
    rw [fill, takeWhile_nil, length_nil, if_pos (by omega), append_nil]
    rfl
  | cons b range ih =>
    rw [fill]
    by_cases hb : b = stop
    · have htake : (b :: range).takeWhile (· ≠ stop) = [] :=
        takeWhile_cons_of_neg (by simp [hb])
      have hdrop : (b :: range).dropWhile (· ≠ stop) = b :: range :=
        dropWhile_cons_of_neg (by simp [hb])
      rw [if_pos hb, htake, hdrop, length_nil, if_pos (by omega), append_nil]
    · have htake : (b :: range).takeWhile (· ≠ stop) = b :: range.takeWhile (· ≠ stop) :=
        takeWhile_cons_of_pos (by simp [hb])
      have hdrop : (b :: range).dropWhile (· ≠ stop) = range.dropWhile (· ≠ stop) :=
        dropWhile_cons_of_pos (by simp [hb])
      rw [if_neg hb, htake, hdrop, length_cons]
      rcases Nat.lt_or_ge s.length size with hlt | hge
      · have hlen : s.length + 1 = (s ++ [b]).length := by simp
        rw [setByte_padded hlt, ok_bind, hlen, ih (s ++ [b]) (by rw [← hlen]; omega),
          append_assoc, singleton_append, ← hlen]
        congr 1
        exact propext (by omega)
      · rw [setByte_full hge, error_bind, if_neg (by omega)]

theorem fill_cleared (range : List Byte) :
    fill stop range (List.replicate size 0) 0 =
      if (range.takeWhile (· ≠ stop)).length ≤ size then
        .ok (range.dropWhile (· ≠ stop), padded size (range.takeWhile (· ≠ stop)))
      else .error .outOfBounds := by
  calc fill stop range (List.replicate size 0) 0
      = fill stop range (padded size []) ([] : List Byte).length := by
        rw [replicate_eq_padded, length_nil]
    _ = _ := by
        rw [fill_padded range [] (Nat.zero_le size), length_nil, Nat.zero_add,
          nil_append]

theorem zero_mem_cleared (h : 0 < size) : (0 : Byte) ∈ List.replicate size 0 :=
  mem_replicate.mpr ⟨by omega, rfl⟩

theorem not_mem_takeWhile_of {p : Byte → Bool} {s : List Byte} (h : 0 ∉ s) : 0 ∉ s.takeWhile p :=
  fun hmem => h ((List.takeWhile_prefix p).subset hmem)

theorem not_mem_of_dropWhile {p : Byte → Bool} {s t : List Byte} (h : 0 ∉ s)
    (heq : s.dropWhile p = t) : 0 ∉ t := by
  subst heq
  exact fun hmem => h ((dropWhile_suffix p).subset hmem)

end Buffers

/-! ## ranges -/

section Ranges
variable {range rest rest' : List Byte}

/-- The parts of a range, as the loop comes by them. -/
theorem wellFormed_iff : WellFormed (40 :: rest) ↔
    ∃ rest' rest'', rest.dropWhile (· ≠ 58) = 58 :: 58 :: rest' ∧
      rest'.dropWhile (· ≠ 41) = 41 :: rest'' := by
  constructor
  · rintro ⟨low, high, rest'', heq, hlow, hhigh⟩
    obtain rfl := tail_eq_of_cons_eq heq
    exact ⟨_, rest'', (takeWhile_append_stop hlow).2, (takeWhile_append_stop hhigh).2⟩
  · rintro ⟨rest', rest'', hlow, hhigh⟩
    refine ⟨rest.takeWhile (· ≠ 58), rest'.takeWhile (· ≠ 41), rest'', ?_,
      stop_not_mem_takeWhile _, stop_not_mem_takeWhile _⟩
    rw [← hhigh, takeWhile_append_dropWhile, ← hlow, takeWhile_append_dropWhile]

theorem readRange_other (h : ∀ rest, range ≠ 40 :: rest) :
    readRange range = .ok (List.replicate numberSize 0, List.replicate numberSize 0,
      .invalidArgument) := by
  have hhead : range.head? ≠ some 40 := by
    intro hsome
    obtain ⟨rest, heq⟩ := head?_eq_some_iff.mp hsome
    exact h rest heq
  exact if_pos hhead

theorem readRange_paren : readRange (40 :: rest) = (do
    let (range, low) ← fill 58 rest (List.replicate numberSize 0) 0
    if range.head? ≠ some 58 then
      return (low, List.replicate numberSize 0, .invalidArgument)
    else if range.tail.head? ≠ some 58 then
      return (low, List.replicate numberSize 0, .invalidArgument)
    else
      let (range, high) ← fill 41 range.tail.tail (List.replicate numberSize 0) 0
      return (low, high, if range.head? = some 41 then .success else .invalidArgument)) := by
  have hhead : ¬ (40 :: rest).head? ≠ some (40 : Byte) := not_not_intro rfl
  unfold readRange
  rw [if_neg hhead, tail_cons]

theorem readRange_low_full (h : numberSize < (rest.takeWhile (· ≠ 58)).length) :
    readRange (40 :: rest) = .error .outOfBounds := by
  rw [readRange_paren, fill_cleared, if_neg (Nat.not_le.mpr h)]
  rfl

section
variable (h : (rest.takeWhile (· ≠ 58)).length ≤ numberSize)
include h

/-- Without two colons the range ends behind its low number. -/
theorem readRange_low (hno : ∀ rest', rest.dropWhile (· ≠ 58) ≠ 58 :: 58 :: rest') :
    readRange (40 :: rest) = .ok (padded numberSize (rest.takeWhile (· ≠ 58)),
      List.replicate numberSize 0, .invalidArgument) := by
  rw [readRange_paren, fill_cleared, if_pos h, ok_bind]
  dsimp only
  by_cases hone : (rest.dropWhile (· ≠ 58)).head? ≠ some 58
  · rw [if_pos hone]
    rfl
  · have htwo : (rest.dropWhile (· ≠ 58)).tail.head? ≠ some 58 := by
      intro hsome
      obtain ⟨t, ht⟩ := head?_eq_some_iff.mp (not_not.mp hone)
      rw [ht, tail_cons] at hsome
      obtain ⟨rest', rfl⟩ := head?_eq_some_iff.mp hsome
      exact hno rest' ht
    rw [if_neg hone, if_pos htwo]
    rfl

section
variable (htwo : rest.dropWhile (· ≠ 58) = 58 :: 58 :: rest')
include htwo

theorem readRange_two :
    readRange (40 :: rest) = (do
      let (range, high) ← fill 41 rest' (List.replicate numberSize 0) 0
      return (padded numberSize (rest.takeWhile (· ≠ 58)), high,
        if range.head? = some 41 then .success else .invalidArgument)) := by
  have hone : ¬ (58 :: 58 :: rest').head? ≠ some (58 : Byte) := not_not_intro rfl
  have hnext : ¬ (58 :: 58 :: rest').tail.head? ≠ some (58 : Byte) := not_not_intro rfl
  rw [readRange_paren, fill_cleared, if_pos h, ok_bind, htwo]
  dsimp only
  rw [if_neg hone, if_neg hnext, tail_cons, tail_cons]

theorem readRange_high_full (hhigh : numberSize < (rest'.takeWhile (· ≠ 41)).length) :
    readRange (40 :: rest) = .error .outOfBounds := by
  rw [readRange_two h htwo, fill_cleared, if_neg (Nat.not_le.mpr hhigh)]
  rfl

theorem readRange_high (hhigh : (rest'.takeWhile (· ≠ 41)).length ≤ numberSize) :
    readRange (40 :: rest) = .ok (padded numberSize (rest.takeWhile (· ≠ 58)),
      padded numberSize (rest'.takeWhile (· ≠ 41)),
      if (rest'.dropWhile (· ≠ 41)).head? = some 41 then .success else .invalidArgument) := by
  rw [readRange_two h htwo, fill_cleared, if_pos hhigh, ok_bind]
  rfl

end

end

variable {Number : Type} {castToNumber : List Byte → Number} {rge : JxtaRange Number}
variable {nspace element : CString} {attr : Option CString}

/-- What is read decides what is returned. -/
theorem jxtaRangeAdd_of_read {range : CString} {low high : List Byte} {status : Status}
    (h : readRange range.bytes = .ok (low, high, status))
    (hstatus : status = .success ∨ status = .invalidArgument) (hlow : 0 ∈ low) (hhigh : 0 ∈ high) :
    ∃ rge', jxtaRangeAdd castToNumber rge nspace element attr range = .ok (rge', status) := by
  unfold jxtaRangeAdd stringIn
  rw [h, ok_bind]
  rcases hstatus with rfl | rfl
  · dsimp only
    rw [if_pos hlow, if_pos hhigh]
    exact ⟨_, rfl⟩
  · exact ⟨rge, rfl⟩

theorem addMeets_of_read {range : CString} {low high : List Byte} {status : Status}
    (h : readRange range.bytes = .ok (low, high, status))
    (hstatus : status = .success ∨ status = .invalidArgument) (hlow : 0 ∈ low) (hhigh : 0 ∈ high)
    (hform : status = .success ↔ WellFormed range.bytes) :
    AddMeets castToNumber rge nspace element attr range := by
  have hex : ∃ rge', jxtaRangeAdd castToNumber rge nspace element attr range = .ok (rge', status) :=
    jxtaRangeAdd_of_read h hstatus hlow hhigh
  obtain ⟨rge', hadd⟩ := hex
  exact ⟨low, high, status, rge', h, hlow, hhigh, hadd, hform⟩

/-- A range is read as it should be just if it fits into the buffers. -/
theorem addMeets_iff (range : CString) :
    AddMeets castToNumber rge nspace element attr range ↔ RangeFits range.bytes := by
  have hnul : 0 ∉ range.bytes := range.property
  by_cases hparen : ∃ rest, range.bytes = 40 :: rest
  · obtain ⟨rest, hrange⟩ := hparen
    have hrest : 0 ∉ rest := by
      rw [hrange] at hnul
      exact (not_mem_cons hnul).2
    have hfits : RangeFits range.bytes ↔ (rest.takeWhile (· ≠ 58)).length < numberSize ∧
        ∀ rest', rest.dropWhile (· ≠ 58) = 58 :: 58 :: rest' →
          (rest'.takeWhile (· ≠ 41)).length < numberSize := by
      unfold RangeFits
      rw [hrange]
      constructor
      · intro h
        exact h rest rfl
      · intro h other heq
        obtain rfl := tail_eq_of_cons_eq heq
        exact h
    rw [hfits]
    rcases Nat.lt_or_ge numberSize (rest.takeWhile (· ≠ 58)).length with hlong | hshort
    · -- the low number overflows its buffer
      have hread := readRange_low_full hlong
      rw [← hrange] at hread
      refine iff_of_false ?_ fun h => absurd h.1 (by omega)
      rintro ⟨low, high, status, rge', h, -⟩
      exact absurd (hread.symm.trans h) (by simp)
    have hlowmem : 0 ∈ padded numberSize (rest.takeWhile (· ≠ 58)) ↔ _ :=
      zero_mem_padded (not_mem_takeWhile_of hrest)
    by_cases htwo : ∃ rest', rest.dropWhile (· ≠ 58) = 58 :: 58 :: rest'
    · obtain ⟨rest', htwo⟩ := htwo
      have hrest' : 0 ∉ rest' := fun hmem => not_mem_of_dropWhile hrest htwo
        (mem_cons_of_mem _ (mem_cons_of_mem _ hmem))
      rcases Nat.lt_or_ge numberSize (rest'.takeWhile (· ≠ 41)).length with hlong' | hshort'
      · have hread := readRange_high_full hshort htwo hlong'
        rw [← hrange] at hread
        refine iff_of_false ?_ fun h => absurd (h.2 rest' htwo) (by omega)
        rintro ⟨low, high, status, rge', h, -⟩
        exact absurd (hread.symm.trans h) (by simp)
      have hhighmem : 0 ∈ padded numberSize (rest'.takeWhile (· ≠ 41)) ↔ _ :=
        zero_mem_padded (not_mem_takeWhile_of hrest')
      have hread := readRange_high hshort htwo hshort'
      rw [← hrange] at hread
      constructor
      · rintro ⟨low, high, status, rge', h, hlow, hhigh, -⟩
        obtain ⟨rfl, heq⟩ := Prod.mk.inj (Except.ok.inj (hread.symm.trans h))
        cases heq
        refine ⟨hlowmem.mp hlow, fun other hother => ?_⟩
        obtain rfl : rest' = other := by
          have hcons := htwo.symm.trans hother
          exact tail_eq_of_cons_eq (tail_eq_of_cons_eq hcons)
        exact hhighmem.mp hhigh
      · intro ⟨hlow, hhigh⟩
        refine addMeets_of_read hread ?_ (hlowmem.mpr hlow) (hhighmem.mpr (hhigh rest' htwo)) ?_
        · split
          · exact .inl rfl
          · exact .inr rfl
        · rw [hrange, wellFormed_iff]
          constructor
          · intro hstatus
            split at hstatus
            next hhead =>
              obtain ⟨rest'', hrest''⟩ := head?_eq_some_iff.mp hhead
              exact ⟨rest', rest'', htwo, hrest''⟩
            next => cases hstatus
          · rintro ⟨other, rest'', hother, hclose⟩
            have hcons := htwo.symm.trans hother
            obtain rfl := tail_eq_of_cons_eq (tail_eq_of_cons_eq hcons)
            exact if_pos (by rw [hclose]; rfl)
    · rw [not_exists] at htwo
      have hread := readRange_low hshort htwo
      rw [← hrange] at hread
      constructor
      · rintro ⟨low, high, status, rge', h, hlow, -⟩
        obtain ⟨rfl, -⟩ := Prod.mk.inj (Except.ok.inj (hread.symm.trans h))
        exact ⟨hlowmem.mp hlow, fun rest' heq => absurd heq (htwo rest')⟩
      · rintro ⟨hlow, -⟩
        refine addMeets_of_read hread (.inr rfl) (hlowmem.mpr hlow)
          (zero_mem_cleared (by decide)) (iff_of_false (by decide) ?_)
        rw [hrange, wellFormed_iff]
        rintro ⟨rest', rest'', heq, -⟩
        exact htwo rest' heq
  · rw [not_exists] at hparen
    have hread := readRange_other hparen
    refine iff_of_true ?_ fun rest heq => absurd heq (hparen rest)
    refine addMeets_of_read hread (.inr rfl) (zero_mem_cleared (by decide))
      (zero_mem_cleared (by decide)) (iff_of_false (by decide) ?_)
    rintro ⟨low, high, rest, heq, -⟩
    exact hparen _ heq

end Ranges

/-! ## element and attribute -/

/-- The blocks while one of them is written: that of the element, or that of the attribute behind a
    finished element. -/
def blocks (block : List Byte) : (finished : Option (List Byte)) → List Byte × Option (List Byte)
  | none => (block, none)
  | some elem => (elem, some block)

section ElemAttr
variable {tmp word rest s block : List Byte} {finished : Option (List Byte)}

/-- The loop from the blocks while one of them is written. -/
def splitFrom (tmp : List Byte) (blocks : List Byte × Option (List Byte)) (dest : Nat) :
    Exec (List Byte × Option (List Byte)) :=
  splitLoop tmp blocks.1 blocks.2 dest

theorem splitFrom_nil (dest : Nat) :
    splitFrom [] (blocks block finished) dest = .ok (blocks block finished) := by
  unfold splitFrom
  rw [splitLoop]

theorem splitFrom_cons {b : Byte} (hb : b ≠ 32) (dest : Nat) :
    splitFrom (b :: tmp) (blocks block finished) dest = (do
      let block ← setByte block dest b
      splitFrom tmp (blocks block finished) (dest + 1)) := by
  cases finished with
  | none =>
    unfold splitFrom blocks
    simp only [splitLoop, if_neg hb]
    rfl
  | some elem =>
    unfold splitFrom blocks
    simp only [splitLoop, if_neg hb]
    rfl

/-- A space ends the block that is written, and begins that of the attribute. -/
theorem splitFrom_space (dest : Nat) :
    splitFrom (32 :: tmp) (blocks block finished) dest = (do
      let block ← setByte block dest 0
      splitFrom tmp (blocks (List.replicate elemAttrSize 0) (some (finished.getD block))) 0) := by
  cases finished with
  | none => rfl
  | some elem => rfl

theorem splitFrom_word (h : 32 ∉ word) (hs : s.length ≤ elemAttrSize) :
    splitFrom (word ++ rest) (blocks (padded elemAttrSize s) finished) s.length =
      if s.length + word.length ≤ elemAttrSize then
        splitFrom rest (blocks (padded elemAttrSize (s ++ word)) finished) (s ++ word).length
      else .error .outOfBounds := by
  induction word generalizing s with
  | nil => rw [nil_append, length_nil, if_pos (by omega), append_nil]
  | cons b word ih =>
    obtain ⟨hb, hword⟩ := not_mem_cons h
    rw [cons_append, splitFrom_cons hb, length_cons]
    rcases Nat.lt_or_ge s.length elemAttrSize with hlt | hge
    · have hlen : (s ++ [b]).length = s.length + 1 := by
        rw [length_append, length_singleton]
      have hnext := ih hword (s := s ++ [b]) (by omega)
      rw [append_assoc, singleton_append, hlen] at hnext
      rw [setByte_padded hlt, ok_bind, hnext, Nat.add_right_comm, Nat.add_assoc]
    · rw [setByte_full hge, error_bind, if_neg (by omega)]

/-- The NUL that ends a block is there already. -/
theorem setByte_nul (h : s.length < elemAttrSize) :
    setByte (padded elemAttrSize s) s.length 0 = .ok (padded elemAttrSize s) := by
  rw [padded_of_lt h, setByte_append rfl]

theorem splitFrom_word_space (h : 32 ∉ word) :
    splitFrom (word ++ 32 :: rest) (blocks (List.replicate elemAttrSize 0) finished) 0 =
      if word.length < elemAttrSize then
        splitFrom rest (blocks (List.replicate elemAttrSize 0)
          (some (finished.getD (padded elemAttrSize word)))) 0
      else .error .outOfBounds := by
  have hword : splitFrom (word ++ 32 :: rest) (blocks (padded elemAttrSize []) finished)
      ([] : List Byte).length = _ := splitFrom_word h (Nat.zero_le _)
  rw [← replicate_eq_padded, length_nil, Nat.zero_add, nil_append] at hword
  rw [hword]
  rcases Nat.lt_trichotomy word.length elemAttrSize with hlt | heq | hgt
  · rw [if_pos (Nat.le_of_lt hlt), if_pos hlt, splitFrom_space, setByte_nul hlt, ok_bind]
  · rw [if_pos (Nat.le_of_eq heq), if_neg (by omega), splitFrom_space,
      setByte_full (Nat.le_of_eq heq.symm), error_bind]
  · rw [if_neg (by omega), if_neg (by omega)]

theorem splitFrom_word_end (h : 32 ∉ word) :
    splitFrom word (blocks (List.replicate elemAttrSize 0) finished) 0 =
      if word.length ≤ elemAttrSize then .ok (blocks (padded elemAttrSize word) finished)
      else .error .outOfBounds := by
  have hword : splitFrom (word ++ []) (blocks (padded elemAttrSize []) finished)
      ([] : List Byte).length = _ := splitFrom_word h (Nat.zero_le _)
  rw [← replicate_eq_padded, length_nil, Nat.zero_add, nil_append, append_nil,
    splitFrom_nil] at hword
  exact hword

/-- The text up to its first space, and what is behind it. -/
theorem split_at_space (tmp : List Byte) :
    (32 ∉ tmp ∧ tmp.takeWhile (· ≠ 32) = tmp ∧ tmp.dropWhile (· ≠ 32) = []) ∨
      ∃ word rest, tmp = word ++ 32 :: rest ∧ 32 ∉ word ∧ tmp.takeWhile (· ≠ 32) = word ∧
        tmp.dropWhile (· ≠ 32) = 32 :: rest := by
  have hsplit := takeWhile_append_dropWhile (p := (· ≠ 32)) (l := tmp)
  cases hdrop : tmp.dropWhile (· ≠ 32) with
  | nil =>
    rw [hdrop, append_nil] at hsplit
    refine .inl ⟨?_, hsplit, rfl⟩
    rw [← hsplit]
    exact stop_not_mem_takeWhile tmp
  | cons b rest =>
    obtain rfl := dropWhile_eq_cons hdrop
    rw [hdrop] at hsplit
    exact .inr ⟨_, rest, hsplit.symm, stop_not_mem_takeWhile tmp, rfl, rfl⟩

/-- With a finished element, the block of the attribute ends up with no space. -/
theorem splitFrom_attr {elem elem' : List Byte} {attr : Option (List Byte)}
    (h : splitFrom tmp (blocks (List.replicate elemAttrSize 0) (some elem)) 0 = .ok (elem', attr)) :
    elem' = elem ∧ ∃ word, 32 ∉ word ∧ attr = some (padded elemAttrSize word) := by
  induction hlength : tmp.length using Nat.strong_induction_on generalizing tmp with
  | _ n ih =>
  rcases split_at_space tmp with ⟨hno, -⟩ | ⟨word, rest, rfl, hword, -⟩
  · rw [splitFrom_word_end hno] at h
    split at h
    next =>
      cases h
      exact ⟨rfl, tmp, hno, rfl⟩
    next => cases h
  · rw [splitFrom_word_space hword] at h
    split at h
    next =>
      rw [length_append, length_cons] at hlength
      exact ih rest.length (by omega) h rfl
    next => cases h

theorem stringIn_padded {size : Nat} (h : 0 ∉ s) :
    stringIn (padded size s) = if s.length < size then .ok s else .error .outOfBounds := by
  unfold stringIn
  by_cases hlt : s.length < size
  · rw [if_pos ((zero_mem_padded h).mpr hlt), if_pos hlt, takeWhile_padded h]
  · rw [if_neg (mt (zero_mem_padded h).mp hlt), if_neg hlt]

theorem not_mem_of_stringIn {size : Nat} (h : 32 ∉ s)
    (hstring : stringIn (padded size s) = .ok rest) : 32 ∉ rest := by
  unfold stringIn at hstring
  split at hstring
  next =>
    cases hstring
    intro hmem
    have hin := (List.takeWhile_prefix _).subset hmem
    unfold padded at hin
    rcases mem_append.mp hin with hin | hin
    · exact h hin
    · exact absurd (eq_of_mem_replicate hin) (by decide)
  next => cases hstring

/-- An element attribute text is split as it should be just if it fits into the blocks. -/
theorem splitMeets_iff {elemAttr : List Byte} (h : 0 ∉ elemAttr) :
    SplitMeets elemAttr ↔ ElemAttrFits elemAttr := by
  have hstart : rangeGetElemAttr elemAttr =
      splitFrom elemAttr (blocks (List.replicate elemAttrSize 0) none) 0 := rfl
  unfold SplitMeets ElemAttrFits
  rw [hstart]
  rcases split_at_space elemAttr with ⟨hno, htake, hdrop⟩ | ⟨word, rest, rfl, hword, htake, hdrop⟩
  · rw [htake, hdrop, splitFrom_word_end hno]
    constructor
    · rintro ⟨elem, attr, hrun, helem, -⟩
      split at hrun
      next =>
        cases hrun
        rw [stringIn_padded h] at helem
        split at helem
        next hlt => exact ⟨hlt, fun rest heq => absurd heq (by simp)⟩
        next => cases helem
      next => cases hrun
    · rintro ⟨hlt, -⟩
      refine ⟨_, none, if_pos (Nat.le_of_lt hlt), ?_, rfl⟩
      rw [stringIn_padded h, if_pos hlt]
  · have hnul : 0 ∉ word ∧ 0 ∉ rest := by
      constructor
      · exact fun hmem => h (mem_append_left _ hmem)
      · exact fun hmem => h (mem_append_right _ (mem_cons_of_mem _ hmem))
    rw [htake, hdrop, splitFrom_word_space hword]
    constructor
    · rintro ⟨elem, attr, hrun, -, block, rfl, hblock⟩
      split at hrun
      next hlt =>
        refine ⟨hlt, fun other hother => ?_⟩
        obtain rfl := tail_eq_of_cons_eq hother
        have hspace : 32 ∉ rest := by
          obtain ⟨-, last, hlast, heq⟩ := splitFrom_attr hrun
          cases heq
          exact not_mem_of_stringIn hlast hblock
        refine ⟨hspace, ?_⟩
        rw [splitFrom_word_end hspace] at hrun
        split at hrun
        next =>
          obtain ⟨-, hattr⟩ := Prod.mk.inj (Except.ok.inj hrun)
          cases hattr
          rw [stringIn_padded hnul.2] at hblock
          split at hblock
          next hfits => exact hfits
          next => cases hblock
        next => cases hrun
      next => cases hrun
    · rintro ⟨hlt, hrest⟩
      obtain ⟨hspace, hfits⟩ := hrest rest rfl
      refine ⟨padded elemAttrSize word, some (padded elemAttrSize rest), ?_, ?_, _, rfl, ?_⟩
      · rw [if_pos hlt, splitFrom_word_end hspace, if_pos (Nat.le_of_lt hfits)]
        rfl
      · rw [stringIn_padded hnul.1, if_pos hlt]
      · rw [stringIn_padded hnul.2, if_pos hfits]

end ElemAttr

/-- Each range and each element attribute text is handled inside of its buffers, and as its form
    says, just if its parts are shorter than these. -/
theorem buffers_fit {Number : Type} (castToNumber : List Byte → Number) (rge : JxtaRange Number)
    (nspace element : CString) (attr : Option CString) (range elemAttr : CString) :
    (AddMeets castToNumber rge nspace element attr range ↔ RangeFits range.bytes) ∧
      (SplitMeets elemAttr.bytes ↔ ElemAttrFits elemAttr.bytes) :=
  ⟨addMeets_iff range, splitMeets_iff elemAttr.property⟩

theorem long_number_nul :
    0 ∉ (40 :: (List.replicate 32 49 ++ 58 :: 58 :: [53, 41]) : List Byte) := by
  decide

/-- A low number of 32 digits leaves no NUL in its buffer. -/
theorem not_buffers_fit : ¬ ∀ nspace element range : CString, AddMeets List.length
    { nameSpace := none, element := none, attr := none, range := none, high := 0, low := 0 }
    nspace element none range := by
  intro hall
  have hnul : (0 : Byte) ∉ [80, 65] := by decide
  have hfits := (addMeets_iff _).mp (hall ⟨_, hnul⟩ ⟨_, hnul⟩ ⟨_, long_number_nul⟩)
  have hlow := (hfits _ rfl).1
  exact absurd hlow (by decide)

end JxtaC.Range
