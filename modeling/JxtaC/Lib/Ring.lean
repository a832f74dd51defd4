import Mathlib.Data.List.Rotate

/-
  Ring buffers. `Holds slots head items`: the items stand in the slots from `head` on, around the
  end, and the other slots are empty. Taking the first item out of its slot (`holds_pop`), putting
  one into the slot behind the last (`holds_push`) and, in a full ring, putting one into the slot of
  the first (`holds_replace`) do to the items what their names say. `Stores` leaves open what the other
  slots have. Nothing here depends on the modelled code.
-/

namespace JxtaC.Lib.Ring

open List

variable {α : Type}

/-- The slot behind this one. -/
def next (capacity i : Nat) : Nat := if i + 1 ≥ capacity then 0 else i + 1

/-- The slot this far behind the head. -/
def slot (capacity head k : Nat) : Nat := (head + k) % capacity

/-- The first items from the head on. -/
def walk (slots : List (Option α)) (head count : Nat) : List α :=
  (List.range count).filterMap fun k => (slots[slot slots.length head k]?).join

/-- What the slots hold from the head on. -/
structure Holds (slots : List (Option α)) (head : Nat) (items : List α) : Prop where
  head_lt : head < slots.length
  length_le : items.length ≤ slots.length
  get : ∀ k < slots.length, slots[slot slots.length head k]? = some items[k]?

variable {slots : List (Option α)} {head : Nat} {items : List α} {x y : α} {capacity k j : Nat}

section
variable (h : head < capacity)
include h

theorem next_eq : next capacity head = (head + 1) % capacity := by
  unfold next
  split
  · rw [show head + 1 = capacity by omega, Nat.mod_self]
  · exact (Nat.mod_eq_of_lt (by omega)).symm

theorem slot_next (k : Nat) :
    slot capacity (next capacity head) k = slot capacity head (k + 1) := by
  unfold slot
  rw [next_eq h, Nat.mod_add_mod, Nat.add_assoc, Nat.add_comm 1 k]

theorem next_slot (k : Nat) :
    next capacity (slot capacity head k) = slot capacity head (k + 1) := by
  unfold slot
  rw [next_eq (Nat.mod_lt _ (by omega)), Nat.mod_add_mod, Nat.add_assoc]

theorem slot_zero : slot capacity head 0 = head := Nat.mod_eq_of_lt h

theorem slot_lt (k : Nat) : slot capacity head k < capacity :=
  Nat.mod_lt _ (by omega)

theorem slot_self : slot capacity head capacity = head := by
  unfold slot
  rw [Nat.add_mod_right, Nat.mod_eq_of_lt h]

/-- At most once around, the end is passed once. -/
theorem slot_eq (hk : k ≤ capacity) : slot capacity head k =
    if head + k < capacity then head + k else head + k - capacity := by
  unfold slot
  split
  · exact Nat.mod_eq_of_lt ‹_›
  · rw [Nat.mod_eq_sub_mod (by omega), Nat.mod_eq_of_lt (by omega)]

/-- Less than once around, every slot is another one. -/
theorem slot_inj (hk : k < capacity) (hj : j < capacity)
    (heq : slot capacity head k = slot capacity head j) : k = j := by
  rw [slot_eq h (Nat.le_of_lt hk), slot_eq h (Nat.le_of_lt hj)] at heq
  split at heq <;> split at heq <;> omega

/-- How far a slot is from the head. -/
theorem slot_distance (hpos : 0 < k) (hk : k ≤ capacity) :
    (if head < slot capacity head k then slot capacity head k - head
      else capacity - head + slot capacity head k) = k := by
  rw [slot_eq h hk]
  split <;> split <;> omega

theorem slot_ne_head (hpos : 0 < k) (hk : k < capacity) : slot capacity head k ≠ head := by
  intro heq
  have hzero := slot_inj h hk (by omega) (heq.trans (slot_zero h).symm)
  omega

end

theorem Holds.first (h : Holds slots head (x :: items)) : slots[head]? = some (some x) := by
  have hget := h.get 0 (by have hlt := h.head_lt; omega)
  rw [slot_zero h.head_lt] at hget
  exact hget

theorem filterMap_get (items : List α) :
    (List.range items.length).filterMap (fun k => items[k]?) = items := by
  induction items with
  | nil => rfl
  | cons x items ih =>
    have hfirst : (fun k : Nat => (x :: items)[k]?) 0 = some x := rfl
    rw [length_cons, range_succ_eq_map, filterMap_cons_some hfirst,
      filterMap_map]
    exact congrArg (x :: ·) ih

/-- A walk over as many slots as there are items meets them in order. -/
theorem Holds.walk (h : Holds slots head items) : walk slots head items.length = items := by
  unfold Ring.walk
  refine Eq.trans ?_ (filterMap_get items)
  apply filterMap_congr
  intro k hk
  have hle := h.length_le
  rw [h.get k (by have hlt := mem_range.mp hk; omega)]
  rfl

theorem holds_pop (h : Holds slots head (x :: items)) :
    Holds (slots.set head none) (next slots.length head) items := by
  have hlt := h.head_lt
  have hle := h.length_le
  rw [length_cons] at hle
  refine ⟨?_, ?_, ?_⟩
  · rw [length_set, next_eq hlt]
    exact Nat.mod_lt _ (by omega)
  · rw [length_set]
    omega
  · intro k hk
    rw [length_set] at hk ⊢
    rw [slot_next hlt]
    by_cases hlast : k + 1 = slots.length
    · rw [hlast, slot_self hlt, getElem?_set_self hlt, getElem?_eq_none (by omega)]
    · have hne := slot_ne_head hlt (by omega : 0 < k + 1) (by omega)
      rw [getElem?_set_ne hne.symm, h.get (k + 1) (by omega), getElem?_cons_succ]

theorem holds_push (h : Holds slots head items) (hlen : items.length < slots.length) (y : α) :
    Holds (slots.set (slot slots.length head items.length) (some y)) head (items ++ [y]) := by
  have hlt := h.head_lt
  refine ⟨by rwa [length_set], ?_, ?_⟩
  · rw [length_append, length_singleton, length_set]
    omega
  · intro k hk
    rw [length_set] at hk ⊢
    by_cases hlast : k = items.length
    · subst hlast
      rw [getElem?_set_self (slot_lt hlt _), getElem?_concat_length]
    · have hne : slot slots.length head items.length ≠ slot slots.length head k := fun heq =>
        hlast (slot_inj hlt hlen hk heq).symm
      rw [getElem?_set_ne hne, h.get k hk]
      by_cases hitem : k < items.length
      · rw [getElem?_append_left hitem]
      · rw [getElem?_eq_none (by omega), getElem?_eq_none]
        rw [length_append, length_singleton]
        omega

theorem holds_replicate (h : 0 < capacity) : Holds (List.replicate capacity (none : Option α)) 0 [] := by
  refine ⟨?_, ?_, ?_⟩
  · rwa [length_replicate]
  · exact Nat.zero_le _
  · intro k hk
    rw [length_replicate] at hk ⊢
    rw [getElem?_replicate_of_lt (slot_lt h k)]
    rfl

/-! ## rings that are not cleared -/

/-- The items stand in the slots from the head on. -/
structure Stores (slots : List (Option α)) (head : Nat) (items : List α) : Prop where
  head_lt : head < slots.length
  length_le : items.length ≤ slots.length
  get : ∀ k < items.length, slots[slot slots.length head k]? = some items[k]?

theorem stores_replicate (items : List α) (h : 0 < items.length + k) :
    Stores (items.map some ++ List.replicate k none) 0 items := by
  refine ⟨?_, ?_, ?_⟩
  · rw [length_append, length_map, length_replicate]
    omega
  · rw [length_append, length_map]
    omega
  · intro j hj
    rw [slot_eq (by rw [length_append, length_map, length_replicate]; omega)
      (by rw [length_append, length_map]; omega), Nat.zero_add,
      if_pos (by rw [length_append, length_map]; omega),
      getElem?_append_left (by rwa [length_map]), getElem?_map,
      getElem?_eq_getElem hj]
    rfl

theorem stores_push (h : Stores slots head items) (hlen : items.length < slots.length) (y : α) :
    Stores (slots.set (slot slots.length head items.length) (some y)) head (items ++ [y]) := by
  have hlt := h.head_lt
  refine ⟨by rwa [length_set], ?_, ?_⟩
  · rw [length_append, length_singleton, length_set]
    omega
  · intro k hk
    rw [length_append, length_singleton] at hk
    rw [length_set]
    by_cases hlast : k = items.length
    · subst hlast
      rw [getElem?_set_self (slot_lt hlt _), getElem?_concat_length]
    · have hne : slot slots.length head items.length ≠ slot slots.length head k := fun heq =>
        hlast (slot_inj hlt hlen (by omega) heq).symm
      rw [getElem?_set_ne hne, h.get k (by omega), getElem?_append_left (by omega)]

section
variable (h : Stores slots head (x :: items))
include h

theorem Stores.first : slots[head]? = some (some x) := by
  have hget := h.get 0 (by rw [length_cons]; omega)
  rw [slot_zero h.head_lt] at hget
  exact hget

/-- The first item is left where it stands. -/
theorem stores_tail : Stores slots (next slots.length head) items := by
  have hlt := h.head_lt
  have hle := h.length_le
  rw [length_cons] at hle
  refine ⟨?_, by omega, ?_⟩
  · rw [next_eq hlt]
    exact Nat.mod_lt _ (by omega)
  · intro k hk
    rw [slot_next hlt, h.get (k + 1) (by rw [length_cons]; omega), getElem?_cons_succ]

/-- In a full ring the first item gives way, and the new one is the last. -/
theorem stores_replace (hfull : items.length + 1 = slots.length) (y : α) :
    Stores (slots.set head (some y)) (next slots.length head) (items ++ [y]) := by
  have hpush := stores_push (stores_tail h) (by omega) y
  have hlast : slot slots.length (next slots.length head) items.length = head := by
    rw [slot_next h.head_lt, hfull, slot_self h.head_lt]
  rw [hlast] at hpush
  exact hpush

end

/-- A full ring is its items, from another slot on. -/
theorem Stores.rotate (h : Stores slots head items) (hfull : items.length = slots.length) :
    slots.rotate head = items.map some := by
  apply ext_getElem?
  intro k
  by_cases hk : k < items.length
  · rw [getElem?_rotate (by omega), getElem?_map, Nat.add_comm]
    have hget := h.get k hk
    unfold slot at hget
    rw [hget, getElem?_eq_getElem hk]
    rfl
  · rw [getElem?_eq_none (by rw [length_rotate]; omega),
      getElem?_eq_none (by rw [length_map]; omega)]

/-- From the first slot on the items stand as they are. -/
theorem Stores.take (h : Stores slots 0 items) : slots.take items.length = items.map some := by
  have hle := h.length_le
  apply ext_getElem?
  intro k
  by_cases hk : k < items.length
  · have hget := h.get k hk
    rw [slot_eq h.head_lt (by omega), Nat.zero_add, if_pos (by omega)] at hget
    rw [getElem?_take_of_lt hk, hget, getElem?_map, getElem?_eq_getElem hk]
    rfl
  · rw [getElem?_eq_none (by rw [length_take]; omega),
      getElem?_eq_none (by rw [length_map]; omega)]

end JxtaC.Lib.Ring
