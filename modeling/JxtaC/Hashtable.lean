import JxtaC.JxtaVector
import JxtaC.TableGrowth

/-
  `Jxta_hashtable` (jxta_hashtable.c): a map from byte strings to objects.
  Slots, mask and counters are a `Table`: a slot with `hashk == 0` is blank where its key is NULL
  and reusable where its key is the table itself. `mix` is what the loop of `hash` computes;
  the functions take it as a parameter. Not part of the state: the mutex, which every exit
  releases, the hop statistics, and the reference counts of the values.
-/

namespace JxtaC

open Lib Lib.OpenAddressing Lib.Block

/-- A key: the `key_size` bytes at `key`. -/
abbrev Key := List Byte

abbrev Hashtable (Val : Type) := Table Key Val

namespace Hashtable

/-- `sizeof(Entry)`. -/
def entrySize : Nat := 32

/-- The loop and the final steps of `hash`, in an `unsigned long`. -/
def mixBytes (key : Key) : Nat :=
  let turn (hash : UInt64) (s : Byte) : UInt64 :=
    let hash := hash + s.toUInt64
    let hash := hash + (hash <<< 10)
    hash ^^^ (hash >>> 6)
  let hash := key.foldl turn 0
  let hash := hash + (hash <<< 3)
  let hash := hash ^^^ (hash >>> 11)
  (hash + (hash <<< 15)).toNat

/-- `hash`: zero is no valid hash and is mapped to 1. -/
def hash (mix : Key → Nat) (key : Key) : Nat := if mix key ≠ 0 then mix key else 1

variable {Val : Type}

section Internal
variable (heap : Heap) (mix : Key → Nat)

/-- `jxta_hashtable_new_0`: no table where the entries are refused. -/
def new0 (initialUsage : Nat) : Exec (Option (Hashtable Val)) := do
  let realSize ← realSizeOf initialUsage
  if entrySize * realSize > heap.limit then return none
  else return some (.empty realSize ((realSize - 1) % uintMod) (maxOccupancyOf realSize))

/-- `self->modmask + 1`, an `unsigned int`. -/
def capacity (t : Hashtable Val) : Nat := (t.modmask + 1) % uintMod

/-- The slots that `for (i = self->modmask + 1; i > 0; --i)` visits: `i` is an `int`. -/
def visited (t : Hashtable Val) : Exec (List (Slot Key Val)) :=
  readAt t.slots 0 (if capacity t < 2 ^ 31 then capacity t else 0)

def findspot (t : Hashtable Val) (key : Key) (adding : Bool) :
    Exec (Hashtable Val × Option Nat) :=
  Table.findspot t (fun a => a == key) (hash mix key) adding

def grow (t : Hashtable Val) : Exec (Hashtable Val) := do
  let doubled := t.usage > doublingUsage t.maxOccupancy
  let tmp := capacity t * 2
  let modmask := if doubled then (tmp + sizeMod - 1) % uintMod else t.modmask
  let maxOccupancy := if doubled then maxOccupancyOf tmp else t.maxOccupancy
  let size := (modmask + 1) % uintMod
  if entrySize * size > heap.limit then .error .aborted
  else
    match ← Table.rehash (fun a b => a == b) (← visited t) (.empty size modmask maxOccupancy) with
    | (t, true) => return t
    | (_, false) => .error .aborted

/-- `jxta_hashtable_comboput` up to the slot `e` to write. -/
def spotFor (t : Hashtable Val) (key : Key) : Exec (Hashtable Val × Nat) := do
  let t ← (if t.occupancy > t.maxOccupancy then grow heap t else .ok t)
  match ← findspot mix t key true with
  | (t, some e) => return (t, e)
  | (t, none) =>
    match ← findspot mix (← grow heap t) key true with
    | (t, some e) => return (t, e)
    | (_, none) => .error .aborted

/-- The copy of the key, the value and the hash go into slot `e`. -/
def fill (t : Hashtable Val) (e : Nat) (key : Key) (value : Val) : Exec (Hashtable Val) :=
  if key.length > heap.limit then .error .aborted else .ok (t.store e (hash mix key) key value)

/-- `jxta_hashtable_comboput`: the result and the previous value. -/
def comboput (t : Hashtable Val) (key : Key) (value : Val) (replaceAllowed : Bool) :
    Exec (Hashtable Val × Bool × Option Val) := do
  let (t, e) ← spotFor heap mix t key
  match t.slots[e]? with
  | none => .error .outOfBounds
  | some (.live _ _ oldValue) =>
    if replaceAllowed then return (← fill heap mix t e key value, true, some oldValue)
    else return (t, false, none)
  | some _ => return (← fill heap mix t e key value, true, none)

end Internal

/-! ## the public functions -/

/-- What a call answers: nothing but the previous value, a boolean, a status with the value found,
    or the vector or array it makes. -/
inductive Reply (Val : Type) where
  | void (oldValue : Option Val)
  | boolean (b : Bool)
  | status (status : Status) (foundValue : Option Val)
  | values (vals : List Val)
  | keys (keys : Option (List (List Byte)))
  deriving Repr, DecidableEq

section Public
variable (heap : Heap) (mix : Key → Nat) (t : Hashtable Val) (key : Key) (value : Val)

/-- `jxta_hashtable_replace`; `wanted` where the caller passes a pointer for the old value. -/
def replace (wanted : Bool) : Exec (Hashtable Val × Reply Val) := do
  let (t, _, oldValue) ← comboput heap mix t key value true
  return (t, .void (if wanted then oldValue else none))

/-- `jxta_hashtable_put`. -/
def put : Exec (Hashtable Val × Reply Val) := do
  let (t, _, _) ← comboput heap mix t key value true
  return (t, .void none)

/-- `jxta_hashtable_putnoreplace`. -/
def putnoreplace : Exec (Hashtable Val × Reply Val) := do
  let (t, result, _) ← comboput heap mix t key value false
  return (t, .boolean result)

/-- The entry `findspot` returns when it is not adding. -/
def lookup : Exec (Option (Nat × Val)) := do
  match ← findspot mix t key false with
  | (_, none) => return none
  | (t, some e) =>
    match t.slots[e]? with
    | some (.live _ _ v) => return some (e, v)
    | _ => .error .outOfBounds

/-- `jxta_hashtable_contains`. -/
def contains : Exec (Hashtable Val × Reply Val) := do
  match ← lookup mix t key with
  | none => return (t, .status .itemNotfound none)
  | some _ => return (t, .status .success none)

/-- `jxta_hashtable_get`: a caller that passes no pointer is told there is no item. -/
def get (wanted : Bool) : Exec (Hashtable Val × Reply Val) :=
  if !wanted then .ok (t, .status .itemNotfound none)
  else do
    match ← lookup mix t key with
    | none => return (t, .status .itemNotfound none)
    | some (_, v) => return (t, .status .success (some v))

/-- `jxta_hashtable_del`. -/
def del (wanted : Bool) : Exec (Hashtable Val × Reply Val) := do
  match ← lookup mix t key with
  | none => return (t, .status .itemNotfound none)
  | some (e, v) => return (t.erase e, .status .success (if wanted then some v else none))

/-- `jxta_hashtable_delcheck`. -/
def delcheck [DecidableEq Val] : Exec (Hashtable Val × Reply Val) := do
  match ← lookup mix t key with
  | none => return (t, .status .itemNotfound none)
  | some (e, v) =>
    if value ≠ v then return (t, .status .violation none)
    else return (t.erase e, .status .success none)

/-- `jxta_hashtable_values_get`: the vector is made for `usage` objects; its block is not
    checked. -/
def valuesGet : Exec (Hashtable Val × Reply Val) :=
  if pointerSize * t.usage > heap.limit then .error .nullPointer
  else do
    let slots ← visited t
    return (t, .values ((Table.entriesOf slots).map Prod.snd))

/-- `jxta_hashtable_keys_get`: keys whose copy is refused are left out. -/
def keysGet : Exec (Hashtable Val × Reply Val) :=
  if pointerSize * (t.usage + 1) > heap.limit then .ok (t, .keys none)
  else do
    let slots ← visited t
    let keys := ((Table.entriesOf slots).map Prod.fst).filter fun key => key.length + 1 ≤ heap.limit
    if keys.length > t.usage then .error .outOfBounds
    else return (t, .keys (some (keys.map fun key => key ++ [0])))

/-- `jxta_hashtable_clear`. -/
def clear : Exec (Hashtable Val × Reply Val) := do
  let slots ← visited t
  let freed := slots.map Slot.freed ++ t.slots.drop slots.length
  return ({ t with slots := freed, usage := t.usage - slots.countP Slot.isLive }, .void none)

end Public

end Hashtable

end JxtaC
