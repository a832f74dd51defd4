import JxtaC.Base.Status
import JxtaC.Lib.ProbedTable

/-
  The sizes of the two hash tables. `jxta_hashtable.c` and `jxta_objecthashtable.c` compute the
  size of a new table, its occupancy limit and the usage above which it is doubled in the same
  words. `Grown` is what a successful `grow` leaves; a table that is not full always has a slot
  for a key (`exists_spot`).
-/

namespace JxtaC

open Lib Lib.OpenAddressing

/-- The loop of the constructors: doubles `real_size`, a `size_t`, until it is large enough. -/
def doubleUntil (initialUsage : Nat) : (fuel realSize : Nat) → Exec Nat
  | 0, _ => .error .neverReturns
  | fuel + 1, realSize =>
    if realSize < initialUsage then doubleUntil initialUsage fuel (realSize * 2 % sizeMod)
    else .ok realSize

/-- `initial_usage` after the constructors' adjustments. -/
def adjustedUsage (initialUsage : Nat) : Nat :=
  (if initialUsage = 0 then 32 else initialUsage) * 2 % sizeMod

/-- The number of slots of a new table. After 64 doublings `real_size` is 0 and stays so. -/
def realSizeOf (initialUsage : Nat) : Exec Nat := doubleUntil (adjustedUsage initialUsage) 65 1

/-- `max_occupancy` for this many slots. -/
def maxOccupancyOf (size : Nat) : Nat :=
  if size > (uintMod - 1) / 7 then size / 10 * 7 else size * 7 / 10

/-- The usage above which `grow` doubles a table with this `max_occupancy`. -/
def doublingUsage (maxOccupancy : Nat) : Nat :=
  if maxOccupancy > (uintMod - 1) / 3 then maxOccupancy / 4 * 3 else maxOccupancy * 3 / 4

theorem maxOccupancyOf_lt {size : Nat} (h : 0 < size) : maxOccupancyOf size < size := by
  unfold maxOccupancyOf
  split <;> omega

theorem doublingUsage_le (maxOccupancy : Nat) : doublingUsage maxOccupancy ≤ maxOccupancy := by
  unfold doublingUsage
  split <;> omega

/-- A table that `grow` doubles is at least half full, up to rounding. -/
theorem size_le_of_doubling {size usage : Nat} (h : doublingUsage (maxOccupancyOf size) < usage) :
    size ≤ 2 * (usage + 9) := by
  unfold doublingUsage maxOccupancyOf uintMod at h
  split at h <;> split at h <;> omega

theorem doubleUntil_spec {n : Nat} (hn : n ≤ 2 ^ 63) (fuel j : Nat) (hfuel : j + fuel = 65)
    (hj : j ≤ 63) (hprev : j = 0 ∨ 2 ^ (j - 1) < n) :
    ∃ k, doubleUntil n fuel (2 ^ j) = .ok (2 ^ k) ∧ n ≤ 2 ^ k ∧ (k = 0 ∨ 2 ^ (k - 1) < n) := by
  induction fuel generalizing j with
  | zero => omega
  | succ fuel ih =>
    unfold doubleUntil
    by_cases hlt : 2 ^ j < n
    · have hj' : j < 63 := (Nat.pow_lt_pow_iff_right (by decide)).mp (hlt.trans_le hn)
      have hpow : 2 ^ j * 2 % sizeMod = 2 ^ (j + 1) := by
        rw [← Nat.pow_succ]
        exact Nat.mod_eq_of_lt (Nat.pow_lt_pow_right (by decide) (by omega))
      rw [if_pos hlt, hpow]
      exact ih (j + 1) (by omega) (by omega) (.inr hlt)
    · rw [if_neg hlt]
      exact ⟨j, rfl, Nat.le_of_not_lt hlt, hprev⟩

/-- A new table has a power of two many slots, at most `2 ^ 32` when the usage asked for is. -/
theorem realSizeOf_spec {initialUsage : Nat} (h : adjustedUsage initialUsage ≤ 2 ^ 32) :
    ∃ k, realSizeOf initialUsage = .ok (2 ^ k) ∧ k ≤ 32 := by
  obtain ⟨k, hk, -, hprev⟩ := doubleUntil_spec (h.trans (by decide)) 65 0 (by omega) (by omega)
    (.inl rfl)
  refine ⟨k, hk, ?_⟩
  rcases hprev with rfl | hprev
  · exact Nat.zero_le 32
  · have := (Nat.pow_lt_pow_iff_right (by decide : 1 < 2)).mp (hprev.trans_le h)
    omega

section Tables
variable {κ ν : Type} {H : Hashing κ} {t : Table κ ν}

/-- The invariant of both tables: the map they stand for, and a limit below the size. -/
structure Sized (H : Hashing κ) (entrySize : Nat) (heap : Heap) (t : Table κ ν)
    (M : κ → Option ν) : Prop where
  valid : Valid H t
  represents : Represents H t M
  max_eq : t.maxOccupancy = maxOccupancyOf (t.modmask + 1)
  modmask_lt : t.modmask < uintMod
  served : entrySize * (t.modmask + 1) ≤ heap.limit

/-- What a successful `grow` leaves: the same map in a table with room. -/
structure Grown (H : Hashing κ) (entrySize : Nat) (heap : Heap) (t : Table κ ν)
    (M : κ → Option ν) : Prop extends Sized H entrySize heap t M where
  room : t.occupancy < t.modmask + 1

variable {entrySize : Nat} {heap : Heap} {M : κ → Option ν}

section
variable (h : Sized H entrySize heap t M)
include h

theorem Sized.max_lt : t.maxOccupancy < t.modmask + 1 := by
  rw [h.max_eq]
  exact maxOccupancyOf_lt (Nat.succ_pos _)

theorem Sized.grown (hle : t.occupancy ≤ t.maxOccupancy) : Grown H entrySize heap t M :=
  ⟨h, hle.trans_lt h.max_lt⟩

theorem Sized.rearranged {t' : Table κ ν} (hr : Rearranged H t t') :
    Sized H entrySize heap t' M := by
  refine ⟨hr.valid, h.represents.congr hr.has_iff, ?_, ?_, ?_⟩
  · rw [hr.maxOccupancy_eq, hr.modmask_eq, h.max_eq]
  · rw [hr.modmask_eq]
    exact h.modmask_lt
  · rw [hr.modmask_eq]
    exact h.served

end

/-- In a table with room every key has a slot to go to. -/
theorem Grown.exists_spot (h : Grown H entrySize heap t M) (key : κ) :
    ∃ t' i, t.findspot (fun a => H.same a key) (H.hash key) true = .ok (t', some i) ∧
      Sized H entrySize heap t' M ∧ Storable H t'.slots t'.modmask key i ∧
      t'.modmask = t.modmask := by
  obtain ⟨t', r, hspot, hr, hcases⟩ := findspot_adding h.valid key
  rcases hcases with ⟨i, rfl, hst⟩ | ⟨-, -, hfull⟩
  · exact ⟨t', i, hspot, h.toSized.rearranged hr, hst, hr.modmask_eq⟩
  · have := h.room
    omega

section
variable (h : Sized H entrySize heap t M)
include h

theorem Sized.store {key : κ} {i : Nat} (hst : Storable H t.slots t.modmask key i) (v : ν) :
    Sized H entrySize heap (t.store i (H.hash key) key v) (put H M key v) := by
  refine ⟨h.valid.store hst v, h.represents.store hst v, ?_, ?_, ?_⟩
  · rw [store_maxOccupancy, store_modmask, h.max_eq]
  · rw [store_modmask]
    exact h.modmask_lt
  · rw [store_modmask]
    exact h.served

theorem Sized.erase {key a : κ} {i g : Nat} {v : ν} (hi : t.slots[i]? = some (.live g a v))
    (ha : H.same a key = true) : Sized H entrySize heap (t.erase i) (remove H M key) :=
  ⟨h.valid.erase hi, h.represents.erase h.valid hi ha, h.max_eq, h.modmask_lt, h.served⟩

theorem Sized.clear : Sized H entrySize heap t.clear fun _ => none :=
  ⟨h.valid.clear, fun key v => iff_of_false (by simp) (not_has_freed _ key v), h.max_eq,
    h.modmask_lt, h.served⟩

/-- The rebuilding of a table into `size` slots, as `grow` chooses them. -/
theorem Sized.rehash {size k : Nat} (hk : size = 2 ^ k)
    (hsize : (t.usage ≤ doublingUsage t.maxOccupancy ∧ size = t.modmask + 1) ∨
      size = 2 * (t.modmask + 1))
    (hle : size ≤ uintMod) (hheap : entrySize * size ≤ heap.limit) :
    ∃ t', (Table.empty size (size - 1) (maxOccupancyOf size)).rehash H.same t.slots =
      .ok (t', true) ∧ Grown H entrySize heap t' M ∧ t'.modmask = size - 1 ∧
      t'.occupancy = t.usage := by
  have hpos : 0 < size := hk ▸ Nat.two_pow_pos k
  have husage := h.valid.usage_le.trans h.valid.occupancy_le
  have hmax := h.max_lt
  have hdouble := doublingUsage_le t.maxOccupancy
  have hroom : t.usage < size := by
    rcases hsize with ⟨hu, rfl⟩ | rfl <;> omega
  obtain ⟨t', hrun, hvalid, hmod, hmaxo, hocc, -, hiff⟩ :=
    rehash_empty h.valid (maxOccupancyOf size) hk hroom.le
  refine ⟨t', hrun, ⟨⟨hvalid, h.represents.congr hiff, ?_, ?_, ?_⟩, ?_⟩, hmod, hocc⟩
  · rw [hmaxo, hmod, Nat.sub_add_cancel hpos]
  · omega
  · rw [hmod, Nat.sub_add_cancel hpos]
    exact hheap
  · omega

end

theorem sized_new {k : Nat} (hk : k ≤ 32) (hheap : entrySize * 2 ^ k ≤ heap.limit) :
    Sized H entrySize heap
      (Table.empty (2 ^ k) (2 ^ k - 1) (maxOccupancyOf (2 ^ k)) : Table κ ν) fun _ => none := by
  have hpos : 0 < 2 ^ k := Nat.two_pow_pos k
  have hle : 2 ^ k ≤ 2 ^ 32 := Nat.pow_le_pow_right (by decide) hk
  refine ⟨valid_empty rfl, represents_empty _ _ _, ?_, ?_, ?_⟩
  · show maxOccupancyOf (2 ^ k) = maxOccupancyOf (2 ^ k - 1 + 1)
    rw [Nat.sub_add_cancel hpos]
  · show 2 ^ k - 1 < 2 ^ 32
    omega
  · show entrySize * (2 ^ k - 1 + 1) ≤ heap.limit
    rw [Nat.sub_add_cancel hpos]
    exact hheap

end Tables

end JxtaC
