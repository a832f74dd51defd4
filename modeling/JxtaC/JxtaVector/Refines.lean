import JxtaC.JxtaVector.Spec

/-
  A family of vectors refines a family of lists.
  `Lists` is what the vectors are for: lists of objects, and how many references to each object
  are held outside them. `vector_run_refines`: along every run of safe operations the vectors answer what
  the lists answer, hold what they hold, and the count of every object is the number of its places
  in the lists plus the references held outside.
-/

namespace JxtaC.JxtaVector

open Lib Lib.Block List

/-- The operations; a vector is named by its place in the family. `share` and `release` are the
    client's own. -/
inductive Op (Obj : Type) where
  | new (initialSize : Nat)
  | addObjectAt (vector : Nat) (object : Obj) (atIndex : Nat)
  | addObjectFirst (vector : Nat) (object : Obj)
  | addObjectLast (vector : Nat) (object : Obj)
  | addallObjectsAt (vector objects atIndex : Nat)
  | addallObjectsFirst (vector objects : Nat)
  | addallObjectsLast (vector objects : Nat)
  | getObjectAt (vector atIndex : Nat)
  | removeObject (vector : Nat) (object : Obj)
  | removeObjectAt (vector : Nat) (wanted : Bool) (atIndex : Nat)
  | size (vector : Nat)
  | clone (source atIndex length : Nat)
  | clear (vector : Nat)
  | swapElements (vector first second : Nat)
  | moveElementFirst (vector toFirst : Nat)
  | moveElementLast (vector toLast : Nat)
  | share (object : Obj)
  | release (object : Obj)
  deriving Repr, DecidableEq

/-- The vectors of a program and the reference counts of its objects. -/
structure World (Obj : Type) where
  vectors : List (JxtaVector Obj)
  refs : Refs Obj

variable {Obj : Type} [DecidableEq Obj]

section Step
variable (heap : Heap) (w : World Obj)

/-- A call on one vector of the family. -/
def World.call (k : Nat)
    (f : JxtaVector Obj → Refs Obj → Exec (JxtaVector Obj × Refs Obj × Reply Obj)) :
    Exec (World Obj × Reply Obj) :=
  match w.vectors[k]? with
  | none => .error .danglingPointer
  | some v => do
    let (v, refs, r) ← f v w.refs
    return (⟨w.vectors.set k v, refs⟩, r)

/-- A call with a second vector as argument, which may be the first one again. -/
def World.callWith (k l : Nat)
    (f : JxtaVector Obj → Refs Obj → Option (JxtaVector Obj) →
      Exec (JxtaVector Obj × Refs Obj × Reply Obj)) : Exec (World Obj × Reply Obj) :=
  match w.vectors[l]? with
  | none => .error .danglingPointer
  | some objects => w.call k fun v refs => f v refs (if k = l then none else some objects)

def step : Op Obj → Exec (World Obj × Reply Obj)
  | .new initialSize => .ok (⟨w.vectors ++ [JxtaVector.new heap initialSize], w.refs⟩, .of .success)
  | .addObjectAt k o i => w.call k fun v refs => addObjectAt heap v refs o i
  | .addObjectFirst k o => w.call k fun v refs => addObjectFirst heap v refs o
  | .addObjectLast k o => w.call k fun v refs => addObjectLast heap v refs o
  | .addallObjectsAt k l i => w.callWith k l fun v refs u => addallObjectsAt heap v refs u i
  | .addallObjectsFirst k l => w.callWith k l fun v refs u => addallObjectsFirst heap v refs u
  | .addallObjectsLast k l => w.callWith k l fun v refs u => addallObjectsLast heap v refs u
  | .getObjectAt k i => w.call k fun v refs => getObjectAt v refs i
  | .removeObject k o => w.call k fun v refs => removeObject v refs o
  | .removeObjectAt k wanted i => w.call k fun v refs => removeObjectAt v refs wanted i
  | .size k => w.call k fun v refs => sizeOf v refs
  | .clone k i length =>
    match w.vectors[k]? with
    | none => .error .danglingPointer
    | some v => do
      let (dest, refs, r) ← JxtaVector.clone heap v w.refs i length
      return (⟨w.vectors ++ dest.toList, refs⟩, r)
  | .clear k => w.call k fun v refs => JxtaVector.clear v refs
  | .swapElements k i j => w.call k fun v refs => swapElements v refs i j
  | .moveElementFirst k i => w.call k fun v refs => moveElementFirst v refs i
  | .moveElementLast k i => w.call k fun v refs => moveElementLast v refs i
  | .share o => do return (⟨w.vectors, ← JxtaC.share w.refs o⟩, .of .success)
  | .release o => do return (⟨w.vectors, ← JxtaC.release w.refs o⟩, .of .success)

end Step

/-! ## the lists -/

/-- Lists of objects, and the references to each object held outside them. -/
structure Lists (Obj : Type) where
  lists : List (List Obj)
  held : Obj → Nat

/-- The places of an object in all the lists. -/
def Lists.places (s : Lists Obj) (o : Obj) : Nat := (s.lists.map (List.count o)).sum

section ListOps
variable (xs : List Obj)

def listInsert (ys : List Obj) (i : Nat) : List Obj × Reply Obj :=
  if i ≤ xs.length then (xs.take i ++ ys ++ xs.drop i, .of .success)
  else (xs, .of .invalidArgument)

/-- Inserting a second list; a list is not inserted into itself. -/
def listInsertAll (ys : Option (List Obj)) (i : Nat) : List Obj × Reply Obj :=
  match ys with
  | none => (xs, .of .invalidArgument)
  | some ys => listInsert xs ys i

def listGet (i : Nat) : List Obj × Reply Obj :=
  match xs[i]? with
  | some o => (xs, ⟨.success, some o, 0⟩)
  | none => (xs, .of .invalidArgument)

def listRemove (o : Obj) : List Obj × Reply Obj :=
  (xs.filter (· ≠ o), ⟨.success, none, xs.count o⟩)

def listRemoveAt (wanted : Bool) (i : Nat) : List Obj × Reply Obj :=
  match xs[i]? with
  | some o => (xs.eraseIdx i, ⟨.success, if wanted then some o else none, 0⟩)
  | none => (xs, .of .invalidArgument)

def listSize : List Obj × Reply Obj := (xs, ⟨.success, none, xs.length⟩)

def listSwap (i j : Nat) : List Obj × Reply Obj :=
  match xs[i]?, xs[j]? with
  | some a, some b => ((xs.set i b).set j a, .of .success)
  | _, _ => (xs, .of .invalidArgument)

def listMoveFirst (i : Nat) : List Obj × Reply Obj :=
  match xs[i]? with
  | some o => (o :: xs.eraseIdx i, .of .success)
  | none => (xs, .of .invalidArgument)

def listMoveLast (i : Nat) : List Obj × Reply Obj :=
  match xs[i]? with
  | some o => (xs.eraseIdx i ++ [o], .of .success)
  | none => (xs, .of .invalidArgument)

end ListOps

section ListStep
variable (s : Lists Obj)

/-- An object handed out is one more reference held. -/
def handOut (held : Obj → Nat) (object : Option Obj) : Obj → Nat :=
  fun o => held o + if object = some o then 1 else 0

/-- An operation on one list of the family. -/
def Lists.call (k : Nat) (f : List Obj → List Obj × Reply Obj) : Lists Obj × Reply Obj :=
  match s.lists[k]? with
  | none => (s, .of .invalidArgument)
  | some xs => (⟨s.lists.set k (f xs).1, handOut s.held (f xs).2.object⟩, (f xs).2)

def listStep : Op Obj → Lists Obj × Reply Obj
  | .new _ => (⟨s.lists ++ [[]], s.held⟩, .of .success)
  | .addObjectAt k o i => s.call k fun xs => listInsert xs [o] i
  | .addObjectFirst k o => s.call k fun xs => listInsert xs [o] 0
  | .addObjectLast k o => s.call k fun xs => listInsert xs [o] xs.length
  | .addallObjectsAt k l i => s.call k fun xs =>
    if i ≤ xs.length then listInsertAll xs (if k = l then none else s.lists[l]?) i
    else (xs, .of .invalidArgument)
  | .addallObjectsFirst k l => s.call k fun xs =>
    listInsertAll xs (if k = l then none else s.lists[l]?) 0
  | .addallObjectsLast k l => s.call k fun xs =>
    listInsertAll xs (if k = l then none else s.lists[l]?) xs.length
  | .getObjectAt k i => s.call k fun xs => listGet xs i
  | .removeObject k o => s.call k fun xs => listRemove xs o
  | .removeObjectAt k wanted i => s.call k fun xs => listRemoveAt xs wanted i
  | .size k => s.call k listSize
  | .clone k i length =>
    match s.lists[k]? with
    | none => (s, .of .invalidArgument)
    | some xs =>
      if i ≤ xs.length then (⟨s.lists ++ [(xs.drop i).take length], s.held⟩, .of .success)
      else (s, .of .invalidArgument)
  | .clear k => s.call k fun _ => ([], .of .success)
  | .swapElements k i j => s.call k fun xs => listSwap xs i j
  | .moveElementFirst k i => s.call k fun xs => listMoveFirst xs i
  | .moveElementLast k i => s.call k fun xs => listMoveLast xs i
  | .share o => (⟨s.lists, handOut s.held (some o)⟩, .of .success)
  | .release o => (⟨s.lists, fun p => if p = o then s.held p - 1 else s.held p⟩, .of .success)

end ListStep

/-! ## when an operation meets its meaning -/

/-- The objects in the slots below `size`. -/
def objects (v : JxtaVector Obj) : List Obj := (v.elements.take v.size).filterMap id

/-- The vector with number `k` exists and satisfies `P`. -/
def World.At (w : World Obj) (k : Nat) (P : JxtaVector Obj → Prop) : Prop :=
  match w.vectors[k]? with
  | none => False
  | some v => P v

section Safe
variable (heap : Heap) (w : World Obj)

/-- The block can be made large enough for these objects, and they can be shared. -/
def RoomFor (v : JxtaVector Obj) (ys : List Obj) : Prop :=
  CanGrow heap v ys.length ∧ Sharable w.refs ys

/-- The condition on the state before an operation under which the code does what `listStep` says:
    the block can grow, the counts can take the new references, the end of the range of a clone
    does not wrap back into the vector, the indices of the three moves are in range, and the client
    releases only what it holds. -/
def Safe : Op Obj → Prop
  | .new n => n < uintMod ∧ pointerSize * (if n = 0 then indexDefaultSize else n) ≤ heap.limit
  | .addObjectAt k o i => w.At k fun v => i ≤ v.size → RoomFor heap w v [o]
  | .addObjectFirst k o => w.At k fun v => RoomFor heap w v [o]
  | .addObjectLast k o => w.At k fun v => RoomFor heap w v [o]
  | .addallObjectsAt k l i =>
    w.At k fun v => w.At l fun u => k ≠ l → i ≤ v.size → RoomFor heap w v u.objects
  | .addallObjectsFirst k l => w.At k fun v => w.At l fun u => k ≠ l → RoomFor heap w v u.objects
  | .addallObjectsLast k l => w.At k fun v => w.At l fun u => k ≠ l → RoomFor heap w v u.objects
  | .getObjectAt k i => w.At k fun v => Sharable w.refs v.objects[i]?.toList
  | .clone k i length => w.At k fun v => i ≤ v.size →
    (i + length ≤ v.size ∨ v.size < (i + length) % uintMod) ∧
      pointerSize * (if min length (v.size - i) = 0 then indexDefaultSize
        else min length (v.size - i)) ≤ heap.limit ∧
      Sharable w.refs ((v.objects.drop i).take length)
  | .swapElements k i j => w.At k fun v => i < v.size ∧ j < v.size
  | .moveElementFirst k i => w.At k fun v => i < v.size
  | .moveElementLast k i => w.At k fun v => i < v.size
  | .removeObject k _ | .removeObjectAt k _ _ | .size k | .clear k => w.At k fun _ => True
  | .share o => Sharable w.refs [o]
  | .release o => (w.vectors.map fun v => v.objects.count o).sum < w.refs o

end Safe

/-! ## one call on one vector -/

section Calls
variable {heap : Heap} {w : World Obj} {v : JxtaVector Obj} {xs : List Obj} {refs : Refs Obj}
variable {i : Nat}

/-- The call answers `p.2`, leaves the vector with the objects `p.1`, and its counts balance. -/
def Does (x : Exec (JxtaVector Obj × Refs Obj × Reply Obj)) (refs : Refs Obj) (xs : List Obj)
    (p : List Obj × Reply Obj) : Prop :=
  ∃ v' refs', x = .ok (v', refs', p.2) ∧ Holds v' p.1 ∧ Accounts refs refs' xs p.1 p.2.object

theorem does_nothing (h : Holds v xs) (status : Status) :
    Does (.ok (v, refs, .of status)) refs xs (xs, .of status) :=
  ⟨v, refs, rfl, h, fun o => by simp [Reply.of]⟩

omit [DecidableEq Obj] in
theorem objects_eq (h : Holds v xs) : v.objects = xs := by
  rw [objects, h.slots, filterMap_map]
  exact filterMap_some

section
variable (h : Holds v xs)
include h

theorem does_insertObjectAt {o : Obj} (hi : i ≤ v.size) (hroom : RoomFor heap w v [o]) :
    Does (do
      let (v, refs, err) ← insertObjectAt heap v w.refs o i
      return (v, refs, .of err)) w.refs xs (listInsert xs [o] i) := by
  obtain ⟨v', refs', hx, hh, hacc⟩ := insertObjectAt_spec h hi hroom.1 hroom.2
  rw [hx, ok_bind, listInsert, if_pos (by rw [← h.size_eq]; exact hi)]
  exact ⟨v', refs', rfl, hh, hacc⟩

theorem does_addObjectAt {o : Obj} (hroom : i ≤ v.size → RoomFor heap w v [o]) :
    Does (addObjectAt heap v w.refs o i) w.refs xs (listInsert xs [o] i) := by
  unfold addObjectAt
  by_cases hi : i > v.size
  · rw [if_pos hi, listInsert, if_neg (by rw [← h.size_eq]; omega)]
    exact does_nothing h _
  · rw [if_neg hi]
    exact does_insertObjectAt h (by omega) (hroom (by omega))

theorem does_insertAll {u : Option (JxtaVector Obj)} {ys : Option (List Obj)}
    (hnone : u = none ↔ ys = none) (hu : ∀ a b, u = some a → ys = some b → Holds a b)
    (hi : i ≤ v.size) (hroom : ∀ a, u = some a → RoomFor heap w v a.objects) :
    Does (insertAll heap v w.refs u i) w.refs xs (listInsertAll xs ys i) := by
  cases u with
  | none =>
    rw [hnone.mp rfl]
    exact does_nothing h _
  | some a =>
    cases ys with
    | none => exact absurd (hnone.mpr rfl) (by simp)
    | some b =>
      have hab := hu a b rfl rfl
      have hr := hroom a rfl
      rw [RoomFor, objects_eq hab] at hr
      have hzs : b = (b.drop 0).take a.size := by
        rw [drop_zero, take_of_length_le (Nat.le_of_eq hab.size_eq.symm)]
      obtain ⟨v', refs', hx, hh, hacc⟩ := insertAllObjectsAt_spec h hab hzs hab.size_eq.symm hi
        (hab.size_eq ▸ hr.1) hr.2
      simp only [insertAll, listInsertAll, listInsert, hx, ok_bind]
      rw [if_pos (by rw [← h.size_eq]; exact hi)]
      exact ⟨v', refs', rfl, hh, hacc⟩

theorem does_getObjectAt (hshare : Sharable refs xs[i]?.toList) :
    Does (getObjectAt v refs i) refs xs (listGet xs i) := by
  unfold getObjectAt listGet
  by_cases hi : i ≥ v.size ∨ v.size = 0
  · rw [if_pos hi, getElem?_eq_none (by rw [← h.size_eq]; omega)]
    exact does_nothing h _
  · rw [if_neg hi]
    obtain ⟨o, ho, hslot⟩ := h.slot (i := i) (by omega)
    rw [ho] at hshare ⊢
    obtain ⟨refs', hsh, hrefs⟩ := share_spec hshare
    simp only [hslot, shareSlot, hsh, ok_bind]
    refine ⟨v, refs', rfl, h, fun p => ?_⟩
    rw [hrefs, count_singleton]
    simp only [Option.some.injEq, beq_iff_eq]
    omega

theorem does_removeObject (o : Obj) (hrefs : ∀ p, xs.count p ≤ refs p) :
    Does (removeObject v refs o) refs xs (listRemove xs o) := by
  obtain ⟨v', refs', hx, hh, hacc⟩ := removeObjectFrom_spec o v.size 0 0 h
    (Nat.le_of_eq (Nat.zero_add _).symm) (Nat.zero_le _) hrefs
  rw [take_zero, nil_append, drop_zero] at hh hacc
  rw [drop_zero, Nat.zero_add] at hx
  rw [removeObject, hx, ok_bind]
  exact ⟨v', refs', rfl, hh, hacc⟩

theorem does_removeObjectAt (wanted : Bool) (i : Nat) (hrefs : ∀ p, xs.count p ≤ refs p) :
    Does (removeObjectAt v refs wanted i) refs xs (listRemoveAt xs wanted i) := by
  unfold removeObjectAt listRemoveAt
  by_cases hi : i ≥ v.size
  · rw [if_pos hi, getElem?_eq_none (by rw [← h.size_eq]; omega)]
    exact does_nothing h _
  rw [if_neg hi]
  obtain ⟨o, ho, hslot⟩ := h.slot (i := i) (by omega)
  obtain ⟨v', hv', hh⟩ := moveIndexBackward_spec h (i := i) (by omega)
  have hcount := count_eraseIdx ho
  simp only [hslot, ho, hv', ok_bind]
  cases wanted with
  | true =>
    refine ⟨v', refs, rfl, hh, fun p => ?_⟩
    rw [hcount, count_singleton]
    simp only [if_true, Option.some.injEq, beq_iff_eq]
    omega
  | false =>
    have hpos : 0 < refs o := by
      have := hrefs o
      rw [hcount, count_singleton_self] at this
      omega
    obtain ⟨refs', hr', hrefs'⟩ := release_spec hpos
    refine ⟨v', refs', by simp only [releaseSlot, hr']; rfl, hh, fun p => ?_⟩
    have := hrefs' p
    rw [hcount]
    simp
    omega

theorem does_clear (hrefs : ∀ p, xs.count p ≤ refs p) :
    Does (JxtaVector.clear v refs) refs xs ([], .of .success) := by
  obtain ⟨refs', hr', hrefs'⟩ := releaseAll_spec hrefs
  have hlen := h.length_eq
  have hle := h.size_le
  rw [JxtaVector.clear, readAt_of_le (by omega), drop_zero, ok_bind, h.slots, hr', ok_bind]
  refine ⟨_, refs', rfl, ⟨hlen, h.capacity_lt, Nat.zero_le _, rfl⟩, fun p => ?_⟩
  rw [← hrefs' p]
  simp [Reply.of]

/-! ### the three moves -/

/-- A rearrangement of the slots: the counts stay. -/
theorem does_rearrange {elements : List (Option Obj)} {ys : List Obj} (hperm : ys.Perm xs)
    (hlen : elements.length = v.elements.length) (hslots : elements.take v.size = ys.map some) :
    Does (.ok ({ v with elements }, refs, .of .success)) refs xs (ys, .of .success) := by
  refine ⟨_, refs, rfl, ⟨?_, h.capacity_lt, h.size_le, hslots⟩, fun p => ?_⟩
  · rw [← h.length_eq]; exact hlen
  · rw [hperm.count_eq]
    rfl

theorem does_swapElements {j : Nat} (hi : i < v.size) (hj : j < v.size) :
    Does (swapElements v refs i j) refs xs (listSwap xs i j) := by
  obtain ⟨a, ha, hsa⟩ := h.slot hi
  obtain ⟨b, hb, hsb⟩ := h.slot hj
  have hlen := h.length_eq
  have hle := h.size_le
  obtain ⟨c, hc⟩ := exists_writeAt v.elements i [some b] (by rw [length_singleton]; omega)
  have hcl := length_writeAt hc
  obtain ⟨d, hd⟩ := exists_writeAt c j [some a] (by rw [length_singleton]; omega)
  unfold swapElements listSwap
  rw [if_neg (by omega)]
  simp only [hsa, hsb, ha, hb, hc, ok_bind, hd]
  obtain ⟨hix, rfl⟩ := List.getElem?_eq_some_iff.mp ha
  obtain ⟨hjx, rfl⟩ := List.getElem?_eq_some_iff.mp hb
  refine does_rearrange h (set_set_perm hix hjx) ((length_writeAt hd).trans hcl) ?_
  rw [take_writeAt_singleton hd hj, take_writeAt_singleton hc hi, h.slots, map_set,
    map_set]

theorem does_moveElementFirst (hi : i < v.size) :
    Does (moveElementFirst v refs i) refs xs (listMoveFirst xs i) := by
  obtain ⟨o, ho, hslot⟩ := h.slot hi
  have hlen := h.length_eq
  have hle := h.size_le
  have hix : i < xs.length := by rw [← h.size_eq]; exact hi
  have hperm : (o :: xs.eraseIdx i).Perm xs := by
    rw [perm_iff_count]
    intro p
    rw [count_eraseIdx ho, ← singleton_append, count_append, Nat.add_comm]
  unfold moveElementFirst listMoveFirst
  rw [if_neg (by omega)]
  simp only [ho]
  by_cases h0 : i > 0
  · obtain ⟨c, hc⟩ := exists_memmove v.elements 1 0 i (by omega) (by omega)
    have hcl := length_memmove hc
    obtain ⟨d, hd⟩ := exists_writeAt c 0 [some o] (by rw [length_singleton]; omega)
    rw [if_pos h0]
    simp only [hslot, hc, ok_bind, hd]
    refine does_rearrange h hperm ((length_writeAt hd).trans hcl) ?_
    apply ext_getElem?
    intro j
    rw [getElem?_take, getElem?_map]
    by_cases hj : j < v.size
    · rw [if_pos hj, getElem?_writeAt hd, length_singleton]
      cases j with
      | zero => rfl
      | succ j =>
        rw [if_neg (by omega), getElem?_memmove hc, getElem?_cons_succ,
          getElem?_eraseIdx]
        by_cases hji : j < i
        · rw [if_pos (by omega), if_pos hji, show 0 + (j + 1 - 1) = j by omega,
            h.getElem? (by omega)]
        · rw [if_neg (by omega), if_neg hji, h.getElem? hj]
    · rw [if_neg hj, getElem?_eq_none (by
        rw [length_cons, length_eraseIdx, if_pos hix, ← h.size_eq]; omega)]
      rfl
  · obtain rfl : i = 0 := by omega
    have hself : o :: xs.eraseIdx 0 = xs := by
      have := drop_of_getElem? ho
      rw [drop_zero] at this
      rw [eraseIdx_zero, this]
      rfl
    rw [if_neg h0, hself]
    exact does_nothing h _

theorem does_moveElementLast (hi : i < v.size) :
    Does (moveElementLast v refs i) refs xs (listMoveLast xs i) := by
  obtain ⟨o, ho, hslot⟩ := h.slot hi
  have hlen := h.length_eq
  have hle := h.size_le
  have hix : i < xs.length := by rw [← h.size_eq]; exact hi
  have hel : (xs.eraseIdx i).length = v.size - 1 := by
    rw [length_eraseIdx, if_pos hix, h.size_eq]
  have hperm : (xs.eraseIdx i ++ [o]).Perm xs := by
    rw [perm_iff_count]
    intro p
    rw [count_eraseIdx ho, count_append]
  unfold moveElementLast listMoveLast
  rw [if_neg (by omega)]
  simp only [ho]
  by_cases hlast : i ≠ v.size - 1
  · obtain ⟨c, hc⟩ := exists_memmove v.elements i (i + 1) (v.size - i - 1) (by omega) (by omega)
    have hcl := length_memmove hc
    obtain ⟨d, hd⟩ := exists_writeAt c (v.size - 1) [some o]
      (by rw [length_singleton]; omega)
    rw [if_pos hlast]
    simp only [hslot, hc, ok_bind, hd]
    refine does_rearrange h hperm ((length_writeAt hd).trans hcl) ?_
    apply ext_getElem?
    intro j
    rw [getElem?_take, getElem?_map, getElem?_append, hel, getElem?_eraseIdx]
    by_cases hj : j < v.size
    · rw [if_pos hj, getElem?_writeAt hd, length_singleton]
      by_cases hjl : j < v.size - 1
      · rw [if_neg (by omega), if_pos hjl, getElem?_memmove hc]
        by_cases hji : j < i
        · rw [if_neg (by omega), if_pos hji, h.getElem? hj]
        · rw [if_pos (by omega), if_neg hji, show i + 1 + (j - i) = j + 1 by omega,
            h.getElem? (by omega)]
      · obtain rfl : j = v.size - 1 := by omega
        rw [if_pos (by omega), if_neg (by omega), Nat.sub_self]
        rfl
    · rw [if_neg hj, if_neg (by omega), getElem?_eq_none (by
        rw [length_singleton]; omega)]
      rfl
  · have hself : xs.eraseIdx i ++ [o] = xs := by
      have hdrop := drop_of_getElem? ho
      have hnil : xs.drop (i + 1) = [] := drop_eq_nil_of_le (by rw [← h.size_eq]; omega)
      rw [eraseIdx_eq_take_drop_succ, hnil, append_nil, ← hnil, ← singleton_append,
        hnil, append_nil]
      rw [hnil] at hdrop
      rw [← hdrop, take_append_drop]
    rw [if_neg hlast, hself]
    exact does_nothing h _

end

end Calls

/-! ## one operation on the family -/

section Worlds
variable {heap : Heap} {w : World Obj} {s : Lists Obj}
variable {k : Nat} {v : JxtaVector Obj} {xs : List Obj} {l : Nat} {u : JxtaVector Obj} {i : Nat}

/-- Every vector holds its list, and the count of an object is the number of its places in the
    lists plus the references held outside. -/
structure Refines (w : World Obj) (s : Lists Obj) : Prop where
  length_eq : w.vectors.length = s.lists.length
  holds : ∀ (k : Nat) v xs, w.vectors[k]? = some v → s.lists[k]? = some xs → Holds v xs
  refs_eq : ∀ o, w.refs o = s.held o + s.places o

/-- The operation returns, answers what the lists answer, and leaves what they leave. -/
def Agrees (x : Exec (World Obj × Reply Obj)) (p : Lists Obj × Reply Obj) : Prop :=
  ∃ w', x = .ok (w', p.2) ∧ Refines w' p.1

theorem Refines.list (h : Refines w s) (hv : w.vectors[k]? = some v) :
    ∃ xs, s.lists[k]? = some xs ∧ Holds v xs := by
  have hk : k < s.lists.length := by
    rw [← h.length_eq]
    exact (List.getElem?_eq_some_iff.mp hv).1
  exact ⟨s.lists[k], getElem?_eq_getElem hk, h.holds k v _ hv (getElem?_eq_getElem hk)⟩

omit [DecidableEq Obj] in
theorem At.elim {P : JxtaVector Obj → Prop} (h : w.At k P) :
    ∃ v, w.vectors[k]? = some v ∧ P v := by
  unfold World.At at h
  split at h
  · exact h.elim
  · exact ⟨_, ‹_›, h⟩

/-- Replacing one list moves the places of an object by the difference of the two. -/
theorem places_set {ls : List (List Obj)} (hk : ls[k]? = some xs) (ys : List Obj) (o : Obj) :
    ((ls.set k ys).map (List.count o)).sum + xs.count o =
      (ls.map (List.count o)).sum + ys.count o := by
  induction ls generalizing k with
  | nil => simp at hk
  | cons l ls ih =>
    cases k with
    | zero =>
      obtain rfl : l = xs := by simpa using hk
      simp only [set_cons_zero, map_cons, sum_cons]
      omega
    | succ k =>
      have := ih (k := k) (by simpa using hk)
      simp only [set_cons_succ, map_cons, sum_cons]
      omega

theorem count_le_places {ls : List (List Obj)} (hk : ls[k]? = some xs) (o : Obj) :
    xs.count o ≤ (ls.map (List.count o)).sum := by
  have := places_set hk [] o
  rw [count_nil] at this
  omega

section
variable (h : Refines w s)
include h

theorem Refines.count_le (hk : s.lists[k]? = some xs) (o : Obj) : xs.count o ≤ w.refs o := by
  have := count_le_places hk o
  rw [h.refs_eq, Lists.places]
  omega

theorem agrees_call (hv : w.vectors[k]? = some v) (hxs : s.lists[k]? = some xs)
    {f : JxtaVector Obj → Refs Obj → Exec (JxtaVector Obj × Refs Obj × Reply Obj)}
    {g : List Obj → List Obj × Reply Obj} (hdoes : Does (f v w.refs) w.refs xs (g xs)) :
    Agrees (w.call k f) (s.call k g) := by
  obtain ⟨v', refs', hf, hh, hacc⟩ := hdoes
  unfold World.call Lists.call
  simp only [hv, hxs, hf, ok_bind]
  refine ⟨_, rfl, ⟨?_, ?_, ?_⟩⟩
  · simp only [length_set]
    exact h.length_eq
  · intro l u ys hu hys
    simp only [getElem?_set] at hu hys
    by_cases hkl : k = l
    · rw [if_pos hkl] at hu hys
      split at hu <;> split at hys <;> simp_all
    · rw [if_neg hkl] at hu hys
      exact h.holds l u ys hu hys
  · intro o
    have h₁ := hacc o
    have h₂ := places_set hxs (g xs).1 o
    have h₃ := h.refs_eq o
    simp only [Lists.places, handOut] at h₃ ⊢
    omega

theorem agrees_callWith (hv : w.vectors[k]? = some v) (hxs : s.lists[k]? = some xs)
    (hu : w.vectors[l]? = some u)
    {f : JxtaVector Obj → Refs Obj → Option (JxtaVector Obj) →
      Exec (JxtaVector Obj × Refs Obj × Reply Obj)}
    {g : List Obj → List Obj × Reply Obj}
    (hdoes : Does (f v w.refs (if k = l then none else some u)) w.refs xs (g xs)) :
    Agrees (w.callWith k l f) (s.call k g) := by
  unfold World.callWith
  simp only [hu]
  exact agrees_call h hv hxs hdoes

/-- The second vector of a call and its list, as `addall_objects_at` sees them. -/
theorem second_list (k : Nat) (hu : w.vectors[l]? = some u) :
    ((if k = l then none else some u) = none ↔ (if k = l then none else s.lists[l]?) = none) ∧
    ∀ a b, (if k = l then none else some u) = some a →
      (if k = l then none else s.lists[l]?) = some b → Holds a b := by
  obtain ⟨ys, hys, hh⟩ := h.list hu
  by_cases hkl : k = l
  · simp [hkl]
  · simp only [if_neg hkl, hys]
    refine ⟨by simp, fun a b ha hb => ?_⟩
    cases ha
    cases hb
    exact hh

/-- A new vector at the end of the family. -/
theorem refines_append {d : JxtaVector Obj} {zs : List Obj} {refs' : Refs Obj} (hd : Holds d zs)
    (hrefs : ∀ o, refs' o = w.refs o + zs.count o) :
    Refines ⟨w.vectors ++ [d], refs'⟩ ⟨s.lists ++ [zs], s.held⟩ := by
  refine ⟨?_, ?_, fun o => ?_⟩
  · simp only [length_append, length_singleton, h.length_eq]
  · intro k v xs hv hxs
    simp only [getElem?_append, h.length_eq] at hv hxs
    by_cases hk : k < s.lists.length
    · rw [if_pos hk] at hv hxs
      exact h.holds k v xs hv hxs
    · rw [if_neg hk] at hv hxs
      have h0 : k - s.lists.length = 0 := by
        have := (List.getElem?_eq_some_iff.mp hv).1
        rw [length_singleton] at this
        omega
      rw [h0] at hv hxs
      cases hv
      cases hxs
      exact hd
  · have := h.refs_eq o
    have := hrefs o
    simp only [Lists.places, map_append, map_singleton, sum_append,
      sum_singleton] at *
    omega

theorem agrees_clone {length : Nat} (hs : Safe heap w (.clone k i length)) :
    Agrees (step heap w (.clone k i length)) (listStep s (.clone k i length)) := by
  obtain ⟨v, hv, hs⟩ := At.elim hs
  obtain ⟨xs, hxs, hh⟩ := h.list hv
  have hsize := hh.size_eq
  have hcap := hh.capacity_lt
  have hle := hh.size_le
  unfold step listStep JxtaVector.clone
  simp only [hv, hxs]
  by_cases hi : i ≤ v.size
  · obtain ⟨hwrap, hheap, hshare⟩ := hs hi
    have hlen : (if (i + length) % uintMod > v.size then (v.size + uintMod - i) % uintMod
        else length) = min length (v.size - i) := by
      rcases hwrap with hin | hwrap
      · rw [if_neg (by rw [Nat.mod_eq_of_lt (by omega)]; omega)]
        omega
      · have := Nat.mod_le (i + length) uintMod
        rw [if_pos hwrap, show v.size + uintMod - i = (v.size - i) + uintMod by omega,
          Nat.add_mod_right, Nat.mod_eq_of_lt (by omega)]
        omega
    have htake : (xs.drop i).take length = (xs.drop i).take (min length (v.size - i)) := by
      rw [take_eq_take_iff, length_drop]
      omega
    rw [objects_eq hh, htake] at hshare
    rw [hlen, htake, if_neg (by omega), if_pos (by omega)]
    generalize hn : min length (v.size - i) = n at *
    have hnew : Holds (new heap n : JxtaVector Obj) [] := holds_new (by omega) hheap
    have hgrow : CanGrow heap (new heap n : JxtaVector Obj) n := by
      refine .inl ?_
      show 0 + n ≤ (if n = 0 then indexDefaultSize else n)
      split <;> omega
    obtain ⟨d, refs', hx, hd, hacc⟩ := insertAllObjectsAt_spec hnew hh (i := 0) (k := i) (n := n) rfl
      (by rw [length_take, length_drop]; omega) (Nat.zero_le _) hgrow hshare
    rw [take_nil, drop_nil, nil_append, append_nil] at hd hacc
    rw [hx, ok_bind]
    refine ⟨_, rfl, refines_append h hd fun o => ?_⟩
    have := hacc o
    rw [count_nil] at this
    simpa using this
  · rw [if_pos (by omega), if_neg (by omega), ok_bind]
    refine ⟨w, ?_, h⟩
    simp only [Option.toList_none, append_nil]
    rfl

theorem agrees_addallObjectsAt (hs : Safe heap w (.addallObjectsAt k l i)) :
    Agrees (step heap w (.addallObjectsAt k l i)) (listStep s (.addallObjectsAt k l i)) := by
  obtain ⟨v, hv, hs⟩ := At.elim hs
  obtain ⟨u, hu, hs⟩ := At.elim hs
  obtain ⟨xs, hxs, hh⟩ := h.list hv
  obtain ⟨hnone, hholds⟩ := second_list h k hu
  refine agrees_callWith (f := fun v refs u => addallObjectsAt heap v refs u i)
    (g := fun xs => if i ≤ xs.length then listInsertAll xs (if k = l then none else s.lists[l]?) i
      else (xs, .of .invalidArgument)) h hv hxs hu ?_
  unfold addallObjectsAt
  by_cases hi : i > v.size
  · rw [if_pos hi, if_neg (show ¬i ≤ xs.length by rw [← hh.size_eq]; omega)]
    exact does_nothing hh _
  · rw [if_neg hi, if_pos (show i ≤ xs.length by rw [← hh.size_eq]; omega)]
    refine does_insertAll hh hnone hholds (by omega) fun a ha => ?_
    split at ha
    · cases ha
    · cases ha
      exact hs ‹_› (by omega)

theorem does_addallEnd (hh : Holds v xs) (hu : w.vectors[l]? = some u)
    (hroom : k ≠ l → RoomFor heap w v u.objects) (hi : i ≤ v.size) :
    Does (insertAll heap v w.refs (if k = l then none else some u) i) w.refs xs
      (listInsertAll xs (if k = l then none else s.lists[l]?) i) := by
  obtain ⟨hnone, hholds⟩ := second_list h k hu
  refine does_insertAll hh hnone hholds hi fun a ha => ?_
  split at ha
  · cases ha
  · cases ha
    exact hroom ‹_›

theorem agrees_share {o : Obj} (hs : Sharable w.refs [o]) :
    Agrees (step heap w (.share o)) (listStep s (.share o)) := by
  obtain ⟨refs', hx, hrefs⟩ := share_spec hs
  simp only [step, listStep, hx, ok_bind]
  refine ⟨_, rfl, ⟨h.length_eq, h.holds, fun p => ?_⟩⟩
  have h₁ := h.refs_eq p
  have h₂ := hrefs p
  rw [count_singleton] at h₂
  simp only [handOut, Lists.places, Option.some.injEq, beq_iff_eq] at *
  omega

theorem agrees_release {o : Obj} (hs : Safe heap w (.release o)) :
    Agrees (step heap w (.release o)) (listStep s (.release o)) := by
  have hobjects : (w.vectors.map fun v => v.objects.count o).sum = s.places o := by
    unfold Lists.places
    refine congrArg List.sum ?_
    apply ext_getElem?
    intro k
    rw [getElem?_map, getElem?_map]
    by_cases hk : k < w.vectors.length
    · obtain ⟨xs, hxs, hh⟩ := h.list (getElem?_eq_getElem hk)
      rw [getElem?_eq_getElem hk, hxs, Option.map_some, Option.map_some, objects_eq hh]
    · rw [getElem?_eq_none (by omega), getElem?_eq_none (by rw [← h.length_eq]; omega)]
      rfl
  have hheld : s.places o < w.refs o := hobjects ▸ hs
  obtain ⟨refs', hx, hrefs⟩ := release_spec (show 0 < w.refs o by omega)
  simp only [step, listStep, hx, ok_bind]
  refine ⟨_, rfl, ⟨h.length_eq, h.holds, fun p => ?_⟩⟩
  have h₁ := h.refs_eq p
  have h₂ := hrefs p
  rw [count_singleton] at h₂
  by_cases hp : p = o
  · subst hp
    simp only [Lists.places, if_true, beq_self_eq_true] at *
    omega
  · have hne : (o == p) = false := by simpa using Ne.symm hp
    simp only [Lists.places, if_neg hp, hne, Bool.false_eq_true, if_false] at *
    omega

/-- One safe operation does what it means on the lists. -/
theorem step_refines (o : Op Obj) (hs : Safe heap w o) : Agrees (step heap w o) (listStep s o) := by
  cases o with
  | new n =>
    refine ⟨_, rfl, refines_append h (holds_new hs.1 hs.2) fun o => ?_⟩
    rw [count_nil]
    rfl
  | addObjectAt k o i =>
    obtain ⟨v, hv, hs⟩ := At.elim hs
    obtain ⟨xs, hxs, hh⟩ := h.list hv
    exact agrees_call (f := fun v refs => addObjectAt heap v refs o i)
      (g := fun xs => listInsert xs [o] i) h hv hxs (does_addObjectAt hh hs)
  | addObjectFirst k o =>
    obtain ⟨v, hv, hs⟩ := At.elim hs
    obtain ⟨xs, hxs, hh⟩ := h.list hv
    exact agrees_call (f := fun v refs => addObjectFirst heap v refs o)
      (g := fun xs => listInsert xs [o] 0) h hv hxs (does_insertObjectAt hh (Nat.zero_le _) hs)
  | addObjectLast k o =>
    obtain ⟨v, hv, hs⟩ := At.elim hs
    obtain ⟨xs, hxs, hh⟩ := h.list hv
    refine agrees_call (f := fun v refs => addObjectLast heap v refs o)
      (g := fun xs => listInsert xs [o] xs.length) h hv hxs ?_
    rw [← hh.size_eq]
    exact does_insertObjectAt hh (Nat.le_refl _) hs
  | addallObjectsAt k l i => exact agrees_addallObjectsAt h hs
  | addallObjectsFirst k l =>
    obtain ⟨v, hv, hs⟩ := At.elim hs
    obtain ⟨u, hu, hs⟩ := At.elim hs
    obtain ⟨xs, hxs, hh⟩ := h.list hv
    exact agrees_callWith h hv hxs hu (does_addallEnd h hh hu hs (Nat.zero_le _))
  | addallObjectsLast k l =>
    obtain ⟨v, hv, hs⟩ := At.elim hs
    obtain ⟨u, hu, hs⟩ := At.elim hs
    obtain ⟨xs, hxs, hh⟩ := h.list hv
    refine agrees_callWith h hv hxs hu ?_
    rw [← hh.size_eq]
    exact does_addallEnd h hh hu hs (Nat.le_refl _)
  | getObjectAt k i =>
    obtain ⟨v, hv, hs⟩ := At.elim hs
    obtain ⟨xs, hxs, hh⟩ := h.list hv
    rw [objects_eq hh] at hs
    exact agrees_call (f := fun v refs => getObjectAt v refs i) (g := fun xs => listGet xs i) h hv
      hxs (does_getObjectAt hh hs)
  | removeObject k o =>
    obtain ⟨v, hv, -⟩ := At.elim hs
    obtain ⟨xs, hxs, hh⟩ := h.list hv
    exact agrees_call (f := fun v refs => removeObject v refs o) (g := fun xs => listRemove xs o) h
      hv hxs (does_removeObject hh o (h.count_le hxs))
  | removeObjectAt k wanted i =>
    obtain ⟨v, hv, -⟩ := At.elim hs
    obtain ⟨xs, hxs, hh⟩ := h.list hv
    exact agrees_call (f := fun v refs => removeObjectAt v refs wanted i)
      (g := fun xs => listRemoveAt xs wanted i) h hv hxs
      (does_removeObjectAt hh wanted i (h.count_le hxs))
  | size k =>
    obtain ⟨v, hv, -⟩ := At.elim hs
    obtain ⟨xs, hxs, hh⟩ := h.list hv
    refine agrees_call h hv hxs ⟨v, w.refs, by rw [listSize, ← hh.size_eq]; rfl, hh, ?_⟩
    exact fun p => by simp [listSize]
  | clone k i length => exact agrees_clone h hs
  | clear k =>
    obtain ⟨v, hv, -⟩ := At.elim hs
    obtain ⟨xs, hxs, hh⟩ := h.list hv
    exact agrees_call h hv hxs (does_clear hh (h.count_le hxs))
  | swapElements k i j =>
    obtain ⟨v, hv, hi, hj⟩ := At.elim hs
    obtain ⟨xs, hxs, hh⟩ := h.list hv
    exact agrees_call (f := fun v refs => swapElements v refs i j)
      (g := fun xs => listSwap xs i j) h hv hxs (does_swapElements hh hi hj)
  | moveElementFirst k i =>
    obtain ⟨v, hv, hi⟩ := At.elim hs
    obtain ⟨xs, hxs, hh⟩ := h.list hv
    exact agrees_call (f := fun v refs => moveElementFirst v refs i)
      (g := fun xs => listMoveFirst xs i) h hv hxs (does_moveElementFirst hh hi)
  | moveElementLast k i =>
    obtain ⟨v, hv, hi⟩ := At.elim hs
    obtain ⟨xs, hxs, hh⟩ := h.list hv
    exact agrees_call (f := fun v refs => moveElementLast v refs i)
      (g := fun xs => listMoveLast xs i) h hv hxs (does_moveElementLast hh hi)
  | share o => exact agrees_share h hs
  | release o => exact agrees_release h hs

end

end Worlds

/-! ## every run -/

section Runs

instance (refs : Refs Obj) (ys : List Obj) : Decidable (Sharable refs ys) :=
  inferInstanceAs (Decidable (∀ o ∈ ys, _))

instance (heap : Heap) (w : World Obj) (v : JxtaVector Obj) (ys : List Obj) :
    Decidable (RoomFor heap w v ys) :=
  inferInstanceAs (Decidable ((_ ∨ _) ∧ Sharable _ _))

instance (w : World Obj) (k : Nat) (P : JxtaVector Obj → Prop) [DecidablePred P] :
    Decidable (w.At k P) :=
  match h : w.vectors[k]? with
  | none => isFalse (by simp [World.At, h])
  | some v => decidable_of_iff (P v) (by simp [World.At, h])

instance (heap : Heap) (w : World Obj) : ∀ o, Decidable (Safe heap w o)
  | .new _ => inferInstanceAs (Decidable (_ ∧ _))
  | .addObjectAt .. | .addObjectFirst .. | .addObjectLast .. | .addallObjectsAt ..
  | .addallObjectsFirst .. | .addallObjectsLast .. | .getObjectAt .. | .clone ..
  | .swapElements .. | .moveElementFirst .. | .moveElementLast .. | .removeObject ..
  | .removeObjectAt .. | .size _ | .clear _ => inferInstanceAs (Decidable (World.At _ _ _))
  | .share _ => inferInstanceAs (Decidable (Sharable _ _))
  | .release _ => inferInstanceAs (Decidable (_ < _))

/-- No vectors yet; every count is what the clients hold. -/
def World.start (held : Obj → Nat) : World Obj := ⟨[], held⟩

def Lists.start (held : Obj → Nat) : Lists Obj := ⟨[], held⟩

theorem refines_start (held : Obj → Nat) : Refines (World.start held) (Lists.start held) :=
  ⟨rfl, fun _ _ _ hv _ => absurd hv (by simp [World.start]), fun _ => rfl⟩

/-- The operations return, answer what the lists answer, and leave vectors that hold the lists and
    counts that are the places in the lists plus the references held outside. -/
def RunRefines (heap : Heap) (held : Obj → Nat) (ops : List (Op Obj)) : Prop :=
  ∃ w rs s, runOps (step heap) (World.start held) ops = .ok (w, rs) ∧
    Answers (fun t o r t' => listStep t o = (t', r)) (Lists.start held) ops rs s ∧ Refines w s

theorem vector_run_refines (heap : Heap) (held : Obj → Nat) (ops : List (Op Obj))
    (hsafe : SafeRun (step heap) (Safe heap) (World.start held) ops) :
    RunRefines heap held ops := by
  refine safeRun_simulates (fun w s o h hs => ?_) ops _ _ (refines_start held) hsafe
  obtain ⟨w', hx, h'⟩ := step_refines h o hs
  exact ⟨w', _, (listStep s o).1, hx, rfl, h'⟩

/-- A run that grows a vector, inserts in the middle, moves elements, clones, joins two vectors,
    hands an object out, gives it back and clears. -/
theorem vector_run_refines_mixed : RunRefines ⟨1000, by decide⟩ (fun o : Fin 4 => o.val)
    [.new 2, .addObjectLast 0 1, .addObjectFirst 0 2, .addObjectAt 0 3 1, .swapElements 0 0 2,
      .moveElementLast 0 0, .moveElementFirst 0 1, .clone 0 1 40, .addallObjectsAt 0 1 2,
      .addallObjectsLast 0 0, .getObjectAt 0 2, .getObjectAt 0 9, .removeObject 0 3,
      .removeObjectAt 0 true 0, .addObjectAt 0 1 9, .release 2, .clear 1, .size 0] :=
  vector_run_refines _ _ _ (by decide +kernel)

/-- Swapping with an index beyond the end answers success. -/
theorem not_vector_run_refines : ¬∀ heap (held : Unit → Nat) ops, RunRefines heap held ops := by
  intro h
  obtain ⟨w, rs, s, hrun, hans, -⟩ := h ⟨1000, by decide⟩ (fun _ => 1) [.new 2, .swapElements 0 0 5]
  have hrs : [.of .success, .of .success] = rs := congrArg Prod.snd (Except.ok.inj hrun)
  subst hrs
  cases hans with
  | cons h₁ hans =>
    cases hans with
    | cons h₂ hans =>
      cases h₁
      have hstatus : Status.invalidArgument = Status.success := congrArg (fun p => p.2.status) h₂
      cases hstatus

end Runs

end JxtaC.JxtaVector
