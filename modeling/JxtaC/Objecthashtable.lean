import JxtaC.JxtaVector
import JxtaC.TableGrowth

/-
  `Jxta_objecthashtable` (jxta_objecthashtable.c): a map from objects to objects, under a hash and
  an equality that the caller supplies (`Hashing`). Slots, mask and counters are a `Table`, as in
  the other hash table; here `grow` reports a refused block, loops count in a `size_t`, and
  `held` counts how often the mutex is locked. The reference counts of keys and values and the hop
  statistics are not part of the state; the pool and the mutex of a new table are served.
-/

namespace JxtaC

open Lib Lib.OpenAddressing Lib.Block

structure Objecthashtable (Key Val : Type) where
  tbl : Table Key Val
  held : Nat
  deriving Repr, DecidableEq

namespace Objecthashtable

/-- `sizeof(Entry)`. -/
def entrySize : Nat := 24

variable {Key Val : Type}

/-- `apr_thread_mutex_lock`; the mutex is nested. -/
def lock (s : Objecthashtable Key Val) : Objecthashtable Key Val := { s with held := s.held + 1 }

/-- `apr_thread_mutex_unlock`. -/
def unlock (s : Objecthashtable Key Val) : Objecthashtable Key Val := { s with held := s.held - 1 }

section Internal
variable (heap : Heap) (H : Hashing Key)

/-- `jxta_objecthashtable_new`: no table where the entries are refused. -/
def new (initialUsage : Nat) : Exec (Option (Objecthashtable Key Val)) := do
  let realSize ← realSizeOf initialUsage
  if entrySize * realSize > heap.limit then return none
  else return some ⟨.empty realSize ((realSize - 1) % uintMod) (maxOccupancyOf realSize), 0⟩

/-- `self->modmask + 1`, an `unsigned int`. -/
def capacity (t : Table Key Val) : Nat := (t.modmask + 1) % uintMod

/-- The slots that `for (i = self->modmask + 1; i > 0; --i)` visits. -/
def visited (t : Table Key Val) : Exec (List (Slot Key Val)) := readAt t.slots 0 (capacity t)

def findspot (t : Table Key Val) (key : Key) (adding : Bool) :
    Exec (Table Key Val × Option Nat) :=
  t.findspot (fun a => H.same a key) (H.hash key) adding

def grow (t : Table Key Val) : Exec (Table Key Val × Status) :=
  let newModmask :=
    if t.usage > doublingUsage t.maxOccupancy then (capacity t * 2 + uintMod - 1) % uintMod
    else t.modmask
  let size := newModmask + 1
  if entrySize * size > heap.limit then .ok (t, .nomem)
  else do
    match ← Table.rehash H.same (← visited t) (.empty size newModmask (maxOccupancyOf size)) with
    | (t, true) => return (t, .success)
    | (t, false) => return (t, .nomem)

/-- `jxta_objecthashtable_comboput` up to the slot `e` to write, or its status without one. -/
def spotFor (t : Table Key Val) (key : Key) : Exec (Table Key Val × Except Status Nat) := do
  match ← (if t.occupancy > t.maxOccupancy then grow heap H t else .ok (t, .success)) with
  | (t, .success) =>
    match ← findspot H t key true with
    | (t, some e) => return (t, .ok e)
    | (t, none) =>
      match ← grow heap H t with
      | (t, .success) =>
        match ← findspot H t key true with
        | (t, some e) => return (t, .ok e)
        | (t, none) => return (t, .error .nomem)
      | (t, res) => return (t, .error res)
  | (t, res) => return (t, .error res)

/-- `jxta_objecthashtable_comboput` between lock and unlock. -/
def putLocked (t : Table Key Val) (key : Key) (value : Val) (replaceOk : Bool) :
    Exec (Table Key Val × Status × Option Val) := do
  match ← spotFor heap H t key with
  | (t, .error res) => return (t, res, none)
  | (t, .ok e) =>
    match t.slots[e]? with
    | none => .error .outOfBounds
    | some (.live _ _ oldValue) =>
      if replaceOk then return (t.store e (H.hash key) key value, .success, some oldValue)
      else return (t, .itemExists, none)
    | some _ => return (t.store e (H.hash key) key value, .success, none)

/-- `jxta_objecthashtable_comboput`: a hash of zero returns with the mutex held. -/
def comboput (s : Objecthashtable Key Val) (key : Key) (value : Val) (replaceOk : Bool) :
    Exec (Objecthashtable Key Val × Status × Option Val) :=
  let s := s.lock
  if H.hash key = 0 then .ok (s, .invalidArgument, none)
  else do
    let (tbl, res, oldValue) ← putLocked heap H s.tbl key value replaceOk
    return (unlock { s with tbl }, res, oldValue)

/-- The entry `findspot` returns when it is not adding. -/
def lookup (t : Table Key Val) (key : Key) : Exec (Option (Nat × Val)) := do
  match ← findspot H t key false with
  | (_, none) => return none
  | (t, some e) =>
    match t.slots[e]? with
    | some (.live _ _ v) => return some (e, v)
    | _ => .error .outOfBounds

end Internal

/-! ## the public functions -/

/-- What a call answers: a status with the value handed out, or the objects of a new vector. -/
inductive Reply (Key Val : Type) where
  | status (status : Status) (foundValue : Option Val)
  | keys (keys : List Key)
  | values (vals : List Val)
  deriving Repr, DecidableEq

section Public
variable (heap : Heap) (H : Hashing Key) (s : Objecthashtable Key Val) (key : Key) (value : Val)

/-- `jxta_objecthashtable_replace`; `wanted` where the caller passes a pointer for the old value. -/
def replace (wanted : Bool) : Exec (Objecthashtable Key Val × Reply Key Val) := do
  let (s, res, oldValue) ← comboput heap H s key value true
  return (s, .status res (if wanted then oldValue else none))

/-- `jxta_objecthashtable_put`. -/
def put : Exec (Objecthashtable Key Val × Reply Key Val) := do
  let (s, res, _) ← comboput heap H s key value true
  return (s, .status res none)

/-- `jxta_objecthashtable_putnoreplace`. -/
def putnoreplace : Exec (Objecthashtable Key Val × Reply Key Val) := do
  let (s, res, _) ← comboput heap H s key value false
  return (s, .status res none)

/-- `jxta_objecthashtable_get`. -/
def get (wanted : Bool) : Exec (Objecthashtable Key Val × Reply Key Val) :=
  let s := s.lock
  if H.hash key = 0 then .ok (s, .status .invalidArgument none)
  else do
    match ← lookup H s.tbl key with
    | none => return (s.unlock, .status .itemNotfound none)
    | some (_, v) => return (s.unlock, .status .success (if wanted then some v else none))

/-- `jxta_objecthashtable_del`. -/
def del (wanted : Bool) : Exec (Objecthashtable Key Val × Reply Key Val) :=
  let s := s.lock
  if H.hash key = 0 then .ok (s, .status .invalidArgument none)
  else do
    match ← lookup H s.tbl key with
    | none => return (s.unlock, .status .itemNotfound none)
    | some (e, v) =>
      return (unlock { s with tbl := s.tbl.erase e },
        .status .success (if wanted then some v else none))

/-- `jxta_objecthashtable_delcheck`. -/
def delcheck [DecidableEq Val] : Exec (Objecthashtable Key Val × Reply Key Val) :=
  let s := s.lock
  if H.hash key = 0 then .ok (s, .status .invalidArgument none)
  else do
    match ← lookup H s.tbl key with
    | none => return (s.unlock, .status .itemNotfound none)
    | some (e, v) =>
      if value ≠ v then return (s.unlock, .status .violation none)
      else return (unlock { s with tbl := s.tbl.erase e }, .status .success none)

/-- The vector of `keys_get` and `values_get` is made for `usage` objects; its block is not
    checked. -/
def collect (f : List (Key × Val) → Reply Key Val) :
    Exec (Objecthashtable Key Val × Reply Key Val) :=
  if pointerSize * s.tbl.usage > heap.limit then .error .nullPointer
  else do
    let s := s.lock
    let slots ← visited s.tbl
    return (s.unlock, f (Table.entriesOf slots))

/-- `jxta_objecthashtable_keys_get`. -/
def keysGet : Exec (Objecthashtable Key Val × Reply Key Val) :=
  collect heap s fun es => .keys (es.map Prod.fst)

/-- `jxta_objecthashtable_values_get`. -/
def valuesGet : Exec (Objecthashtable Key Val × Reply Key Val) :=
  collect heap s fun es => .values (es.map Prod.snd)

end Public

end Objecthashtable

end JxtaC
