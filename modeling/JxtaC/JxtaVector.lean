import JxtaC.Base.Status
import JxtaC.Lib.Block

/-
  `Jxta_vector` (jxta_vector.c) and the reference counts of the objects in it (jxta_object.c).
  `elements` is the allocated block; a slot is `none` where it holds NULL. Every vector function
  takes the counts along: `share` and `release` are `JXTA_OBJECT_SHARE` and `JXTA_OBJECT_RELEASE`
  on a mutable object, as the default build compiles them. The mutex is recursive and is released
  on every exit; it is not part of the state.
-/

namespace JxtaC

open Lib Lib.Block

/-- `INT_MAX`, the largest reference count. -/
def intMax : Nat := 2 ^ 31 - 1

/-- `sizeof(Jxta_object *)`. -/
def pointerSize : Nat := 8

/-- The reference count of every object; 0 for an object that has been freed. -/
abbrev Refs (Obj : Type) := Obj → Nat

structure JxtaVector (Obj : Type) where
  size : Nat
  capacity : Nat
  elements : List (Option Obj)
  deriving Repr, DecidableEq

variable {Obj : Type} [DecidableEq Obj]

/-- `JXTA_OBJECT_SHARE`; the count is an `int`. -/
def share (refs : Refs Obj) (obj : Obj) : Exec (Refs Obj) :=
  if refs obj = 0 then .error .danglingPointer
  else if refs obj ≥ intMax then .error .signedOverflow
  else .ok (fun o => if o = obj then refs o + 1 else refs o)

/-- `JXTA_OBJECT_RELEASE`: the object is freed when the count reaches 0. -/
def release (refs : Refs Obj) (obj : Obj) : Exec (Refs Obj) :=
  if refs obj = 0 then .error .danglingPointer
  else .ok (fun o => if o = obj then refs o - 1 else refs o)

/-- `JXTA_OBJECT_SHARE` and `JXTA_OBJECT_RELEASE` do nothing to NULL. -/
def shareSlot (refs : Refs Obj) : Option Obj → Exec (Refs Obj)
  | none => .ok refs
  | some obj => share refs obj

def releaseSlot (refs : Refs Obj) : Option Obj → Exec (Refs Obj)
  | none => .ok refs
  | some obj => release refs obj

namespace JxtaVector

/-- `INDEX_DEFAULT_SIZE`. -/
def indexDefaultSize : Nat := 32

/-- `INDEX_DEFAULT_INCREASE`. -/
def indexDefaultIncrease : Nat := 16

section Internal
variable (heap : Heap)

/-- `calloc(n, sizeof(Jxta_object *))`. -/
def calloc (n : Nat) : Option (List (Option Obj)) :=
  if pointerSize * n ≤ heap.limit then some (List.replicate n none) else none

/-- `jxta_vector_new`: the block is not checked. -/
def new (initialSize : Nat) : JxtaVector Obj :=
  let capacity := if initialSize = 0 then indexDefaultSize else initialSize
  ⟨0, capacity, (calloc heap capacity).getD []⟩

def increaseCapacity (v : JxtaVector Obj) (additional : Nat) :
    Exec (JxtaVector Obj × Status) :=
  let capacity := (v.capacity + additional) % uintMod
  if capacity < v.capacity then .ok (v, .invalidArgument)
  else
    match calloc heap capacity with
    | none => .ok (v, .nomem)
    | some newElements => do
      let elements ← writeAt newElements 0 (← readAt v.elements 0 v.size)
      return (⟨v.size, capacity, elements⟩, .success)

def ensureCapacity (v : JxtaVector Obj) (desiredCapacity : Nat) :
    Exec (JxtaVector Obj × Status) :=
  if v.capacity < desiredCapacity then
    let additional := desiredCapacity - v.capacity
    increaseCapacity heap v
      (if additional < indexDefaultIncrease then indexDefaultIncrease else additional)
  else .ok (v, .success)

def moveIndexForward (v : JxtaVector Obj) (atIndex numSlots : Nat) :
    Exec (JxtaVector Obj × Status) := do
  match ← ensureCapacity heap v ((v.size + numSlots) % uintMod) with
  | (v, .success) =>
    let moved ← (if atIndex < v.size then
        memmove v.elements ((atIndex + numSlots) % uintMod) atIndex (v.size - atIndex)
      else .ok v.elements)
    let elements ← memset moved atIndex none numSlots
    return (⟨(v.size + numSlots) % uintMod, v.capacity, elements⟩, .success)
  | (v, res) => return (v, res)

def moveIndexBackward (v : JxtaVector Obj) (atIndex : Nat) : Exec (JxtaVector Obj) := do
  let size := (v.size + uintMod - 1) % uintMod
  let moved ← (if atIndex < size then memmove v.elements atIndex (atIndex + 1) (size - atIndex)
    else .ok v.elements)
  let elements ← writeAt moved size [none]
  return ⟨size, v.capacity, elements⟩

/-- `add_object_at`: the status of `move_index_forward` is not looked at. -/
def insertObjectAt (v : JxtaVector Obj) (refs : Refs Obj) (object : Obj) (atIndex : Nat) :
    Exec (JxtaVector Obj × Refs Obj × Status) := do
  let (v, _) ← moveIndexForward heap v atIndex 1
  let refs ← share refs object
  let elements ← writeAt v.elements atIndex [some object]
  return ({ v with elements }, refs, .success)

/-- The loop of `addall_objects_at`. -/
def copyShared (src : List (Option Obj)) : (count atIndex fromIndex : Nat) →
    List (Option Obj) → Refs Obj → Exec (List (Option Obj) × Refs Obj)
  | 0, _, _, dst, refs => .ok (dst, refs)
  | count + 1, atIndex, fromIndex, dst, refs => do
    match src[fromIndex]? with
    | none => .error .outOfBounds
    | some slot =>
      let refs ← shareSlot refs slot
      let dst ← writeAt dst atIndex [slot]
      copyShared src count (atIndex + 1) (fromIndex + 1) dst refs

/-- `addall_objects_at` where source and target are different vectors: again the status of
    `move_index_forward` is not looked at. -/
def insertAllObjectsAt (v : JxtaVector Obj) (refs : Refs Obj) (objects : JxtaVector Obj)
    (atIndex fromIndex count : Nat) : Exec (JxtaVector Obj × Refs Obj × Status) := do
  let (v, _) ← moveIndexForward heap v atIndex count
  let (elements, refs) ← copyShared objects.elements count atIndex fromIndex v.elements refs
  return ({ v with elements }, refs, .success)

end Internal

/-! ## the public functions -/

/-- What a call answers: its status, the object it hands out, and a count. -/
structure Reply (Obj : Type) where
  status : Status
  object : Option Obj
  count : Nat
  deriving Repr, DecidableEq

/-- A reply that is a status only. -/
def Reply.of (status : Status) : Reply Obj := ⟨status, none, 0⟩

section Public
variable (heap : Heap) (v : JxtaVector Obj) (refs : Refs Obj)

/-- `jxta_vector_add_object_at`. -/
def addObjectAt (object : Obj) (atIndex : Nat) : Exec (JxtaVector Obj × Refs Obj × Reply Obj) :=
  if atIndex > v.size then .ok (v, refs, .of .invalidArgument)
  else do
    let (v, refs, err) ← insertObjectAt heap v refs object atIndex
    return (v, refs, .of err)

/-- `jxta_vector_add_object_first`. -/
def addObjectFirst (object : Obj) : Exec (JxtaVector Obj × Refs Obj × Reply Obj) := do
  let (v, refs, err) ← insertObjectAt heap v refs object 0
  return (v, refs, .of err)

/-- `jxta_vector_add_object_last`. -/
def addObjectLast (object : Obj) : Exec (JxtaVector Obj × Refs Obj × Reply Obj) := do
  let (v, refs, err) ← insertObjectAt heap v refs object v.size
  return (v, refs, .of err)

/-- The source of `jxta_vector_addall_objects_*`: another vector, or the target itself, which
    `addall_objects_at` refuses. -/
def insertAll (objects : Option (JxtaVector Obj)) (atIndex : Nat) :
    Exec (JxtaVector Obj × Refs Obj × Reply Obj) :=
  match objects with
  | none => .ok (v, refs, .of .invalidArgument)
  | some objects => do
    let (v, refs, err) ← insertAllObjectsAt heap v refs objects atIndex 0 objects.size
    return (v, refs, .of err)

/-- `jxta_vector_addall_objects_at`. -/
def addallObjectsAt (objects : Option (JxtaVector Obj)) (atIndex : Nat) :
    Exec (JxtaVector Obj × Refs Obj × Reply Obj) :=
  if atIndex > v.size then .ok (v, refs, .of .invalidArgument)
  else insertAll heap v refs objects atIndex

/-- `jxta_vector_addall_objects_first`. -/
def addallObjectsFirst (objects : Option (JxtaVector Obj)) :
    Exec (JxtaVector Obj × Refs Obj × Reply Obj) :=
  insertAll heap v refs objects 0

/-- `jxta_vector_addall_objects_last`. -/
def addallObjectsLast (objects : Option (JxtaVector Obj)) :
    Exec (JxtaVector Obj × Refs Obj × Reply Obj) :=
  insertAll heap v refs objects v.size

/-- `jxta_vector_get_object_at`. -/
def getObjectAt (atIndex : Nat) : Exec (JxtaVector Obj × Refs Obj × Reply Obj) :=
  if atIndex ≥ v.size ∨ v.size = 0 then .ok (v, refs, .of .invalidArgument)
  else
    match v.elements[atIndex]? with
    | none => .error .outOfBounds
    | some slot => do
      let refs ← shareSlot refs slot
      return (v, refs, ⟨.success, slot, 0⟩)

/-- The loop of `jxta_vector_remove_object`; every turn brings `i` and `size` one closer. -/
def removeObjectFrom (object : Obj) : (fuel i numRemoved : Nat) → JxtaVector Obj → Refs Obj →
    Exec (JxtaVector Obj × Refs Obj × Nat)
  | 0, i, numRemoved, v, refs =>
    if i < v.size then .error .neverReturns else .ok (v, refs, numRemoved)
  | fuel + 1, i, numRemoved, v, refs =>
    if i < v.size then
      match v.elements[i]? with
      | none => .error .outOfBounds
      | some slot =>
        if slot = some object then do
          let v ← moveIndexBackward v i
          let refs ← release refs object
          removeObjectFrom object fuel i (numRemoved + 1) v refs
        else removeObjectFrom object fuel (i + 1) numRemoved v refs
    else .ok (v, refs, numRemoved)

/-- `jxta_vector_remove_object`. -/
def removeObject (object : Obj) : Exec (JxtaVector Obj × Refs Obj × Reply Obj) := do
  let (v, refs, numRemoved) ← removeObjectFrom object v.size 0 0 v refs
  return (v, refs, ⟨.success, none, numRemoved⟩)

/-- `jxta_vector_remove_object_at`; `wanted` where the caller passes a pointer for the object. -/
def removeObjectAt (wanted : Bool) (atIndex : Nat) :
    Exec (JxtaVector Obj × Refs Obj × Reply Obj) :=
  if atIndex ≥ v.size then .ok (v, refs, .of .invalidArgument)
  else
    match v.elements[atIndex]? with
    | none => .error .outOfBounds
    | some slot => do
      let v ← moveIndexBackward v atIndex
      if wanted then return (v, refs, ⟨.success, slot, 0⟩)
      let refs ← releaseSlot refs slot
      return (v, refs, .of .success)

/-- `jxta_vector_size`. -/
def sizeOf : Exec (JxtaVector Obj × Refs Obj × Reply Obj) :=
  .ok (v, refs, ⟨.success, none, v.size⟩)

/-- `jxta_vector_clone`: the new vector where there is one. -/
def clone (atIndex length : Nat) : Exec (Option (JxtaVector Obj) × Refs Obj × Reply Obj) :=
  let length :=
    if (atIndex + length) % uintMod > v.size then (v.size + uintMod - atIndex) % uintMod
    else length
  if atIndex > v.size ∨ (atIndex = v.size ∧ length ≠ 0) then
    .ok (none, refs, .of .invalidArgument)
  else do
    let (dest, refs, err) ←
      insertAllObjectsAt heap (new heap length) refs v 0 atIndex length
    return (some dest, refs, .of err)

/-- The loop of `jxta_vector_clear`. -/
def releaseAll : List (Option Obj) → Refs Obj → Exec (Refs Obj)
  | [], refs => .ok refs
  | slot :: slots, refs => do releaseAll slots (← releaseSlot refs slot)

/-- `jxta_vector_clear`: the slots keep their pointers. -/
def clear : Exec (JxtaVector Obj × Refs Obj × Reply Obj) := do
  let refs ← releaseAll (← readAt v.elements 0 v.size) refs
  return ({ v with size := 0 }, refs, .of .success)

/-- `jxta_vector_swap_elements`: `res` is computed, and `JXTA_SUCCESS` returned. -/
def swapElements (first second : Nat) : Exec (JxtaVector Obj × Refs Obj × Reply Obj) :=
  if first ≥ v.size ∨ second ≥ v.size then .ok (v, refs, .of .success)
  else
    match v.elements[first]?, v.elements[second]? with
    | some temp, some other => do
      let elements ← writeAt v.elements first [other]
      let elements ← writeAt elements second [temp]
      return ({ v with elements }, refs, .of .success)
    | _, _ => .error .outOfBounds

/-- `jxta_vector_move_element_first`: `res` is computed, and `JXTA_SUCCESS` returned. -/
def moveElementFirst (toFirst : Nat) : Exec (JxtaVector Obj × Refs Obj × Reply Obj) :=
  if toFirst ≥ v.size then .ok (v, refs, .of .success)
  else if toFirst > 0 then
    match v.elements[toFirst]? with
    | none => .error .outOfBounds
    | some temp => do
      let elements ← memmove v.elements 1 0 toFirst
      let elements ← writeAt elements 0 [temp]
      return ({ v with elements }, refs, .of .success)
  else .ok (v, refs, .of .success)

/-- `jxta_vector_move_element_last`: `res` is computed, and `JXTA_SUCCESS` returned. -/
def moveElementLast (toLast : Nat) : Exec (JxtaVector Obj × Refs Obj × Reply Obj) :=
  if toLast ≥ v.size then .ok (v, refs, .of .success)
  else if toLast ≠ v.size - 1 then
    match v.elements[toLast]? with
    | none => .error .outOfBounds
    | some temp => do
      let elements ← memmove v.elements toLast (toLast + 1) (v.size - toLast - 1)
      let elements ← writeAt elements (v.size - 1) [temp]
      return ({ v with elements }, refs, .of .success)
  else .ok (v, refs, .of .success)

end Public

end JxtaVector

end JxtaC
