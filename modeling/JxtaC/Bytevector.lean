import JxtaC.Base.Status
import JxtaC.Lib.Block

/-
  `Jxta_bytevector` (jxta_bytevector.c), function by function.
  The object is a valid, unsynchronised one (`mutex == NULL`); `content` is the whole allocated
  block, so `capacity` is its length. Indices are `unsigned int` and lengths `size_t`; the places
  where the code narrows or wraps them carry their modulus.
-/

namespace JxtaC

open Lib Lib.Block

/-- `INDEX_DEFAULT_SIZE`. -/
def indexDefaultSize : Nat := 128

/-- `INDEX_DEFAULT_INCREASE`. -/
def indexDefaultIncrease : Nat := 64

/-- One call of a `ReadFunc` for `n` bytes: the status it returns and the bytes it has put into
    the buffer by then. A successful call delivers all of them. -/
structure ReadFunc where
  call : Nat → Status × List Byte
  length_le : ∀ n, (call n).2.length ≤ n
  length_of_success : ∀ n, (call n).1 = .success → (call n).2.length = n

structure Bytevector where
  content : List Byte
  size : Nat
  deriving Repr, DecidableEq

namespace Bytevector

def capacity (v : Bytevector) : Nat := v.content.length

/-- The bytes the vector holds. -/
def bytes (v : Bytevector) : List Byte := v.content.take v.size

/-- Where an insertion takes its bytes from: a NULL pointer (zeros are written), memory of
    another object, or the vector's own content from an offset on. -/
inductive Source where
  | null
  | outside (bytes : List Byte)
  | own (offset : Nat)
  deriving Repr, DecidableEq

/-- The vector argument that supplies the bytes: another vector, or the target itself. -/
inductive Operand where
  | other (bytes : Bytevector)
  | self
  deriving Repr, DecidableEq

section Operations
variable (heap : Heap)

/-- `jxta_bytevector_new_1`; `none` where `calloc` returns NULL: the vector that is returned then has
    no block behind its capacity. -/
def new1 (initialSize : Nat) : Option Bytevector :=
  if initialSize + 1 ≤ heap.limit then some ⟨List.replicate initialSize 0, 0⟩ else none

/-- `jxta_bytevector_new_0`. -/
def new0 : Option Bytevector := new1 heap indexDefaultSize

/-- `jxta_bytevector_new_2` on a block that `malloc` has returned and that holds `initial`. -/
def new2 (initial : List Byte) (initialCapacity : Nat) : Option Bytevector :=
  if initialCapacity = 0 then none
  else if initialCapacity < initial.length then none
  else if initialCapacity > initial.length ∧ initialCapacity > heap.limit then none
  else
    some ⟨initial ++ List.replicate (initialCapacity - initial.length) 0, initial.length⟩

/-- `jxta_bytevector_new_3`. -/
def new3 (content : List Byte) : Bytevector := ⟨content, content.length⟩

def ensureCapacity (v : Bytevector) (requiredSize : Nat) : Bytevector × Status :=
  if requiredSize < v.capacity then (v, .success)
  else
    let requiredSize :=
      if requiredSize > v.capacity + indexDefaultIncrease then requiredSize
      else v.capacity + indexDefaultIncrease
    if requiredSize ≤ heap.limit then
      ({ v with content := v.content ++ List.replicate (requiredSize - v.capacity) 0 }, .success)
    else (v, .nomem)

/-- `jxta_bytevector_clear`. -/
def clear (_v : Bytevector) (initialSize : Nat) : Bytevector × Status :=
  let initialSize := if initialSize = 0 then indexDefaultSize else initialSize
  ensureCapacity heap ⟨[], 0⟩ initialSize

/-- The tail moves up to make the gap, but only under `size >= length`. -/
def moveTail (content : List Byte) (size atIndex length : Nat) : Exec (List Byte) :=
  if size ≥ length then memmove content (atIndex + length) atIndex (size - atIndex)
  else .ok content

/-- The bytes that `memmove` or `memset` puts into the gap. A pointer into the vector's own
    content dangles once `realloc` has been called. -/
def Source.load (moved : List Byte) (reallocated : Bool) (length : Nat) :
    Source → Exec (List Byte)
  | .null => .ok (List.replicate length 0)
  | .outside bytes => readAt bytes 0 length
  | .own offset => if reallocated then .error .danglingPointer else readAt moved offset length

/-- `jxta_bytevector_add_bytes_at`. -/
def addBytesAt (v : Bytevector) (src : Source) (atIndex length : Nat) :
    Exec (Bytevector × Status) :=
  if atIndex > v.size then .ok (v, .invalidArgument)
  else
    match ensureCapacity heap v ((v.size + length) % sizeMod) with
    | (grown, .success) => do
      let moved ← moveTail grown.content v.size atIndex length
      let bytes ← src.load moved (grown.capacity ≠ v.capacity) length
      let written ← writeAt moved atIndex bytes
      return (⟨written, (v.size + length) % sizeMod⟩, .success)
    | (grown, res) => .ok (grown, res)

/-- `jxta_bytevector_add_byte_at`. -/
def addByteAt (v : Bytevector) (byte : Byte) (atIndex : Nat) : Exec (Bytevector × Status) :=
  addBytesAt heap v (.outside [byte]) atIndex 1

/-- `jxta_bytevector_add_byte_first`. -/
def addByteFirst (v : Bytevector) (byte : Byte) : Exec (Bytevector × Status) :=
  addByteAt heap v byte 0

/-- `jxta_bytevector_add_byte_last`: `size` is passed as an `unsigned int`. -/
def addByteLast (v : Bytevector) (byte : Byte) : Exec (Bytevector × Status) :=
  addByteAt heap v byte (v.size % uintMod)

/-- The content pointer and the size of the source vector. -/
def Operand.resolve (v : Bytevector) : Operand → (Nat → Source) × Nat
  | .other bytes => (fun offset => .outside (bytes.content.drop offset), bytes.size)
  | .self => (fun offset => .own offset, v.size)

/-- `jxta_bytevector_add_bytevector_at`. -/
def addBytevectorAt (v : Bytevector) (bytes : Operand) (dstindex : Nat) :
    Exec (Bytevector × Status) :=
  addBytesAt heap v ((bytes.resolve v).1 0) dstindex (bytes.resolve v).2

/-- `jxta_bytevector_add_partial_bytevector_at`. -/
def addPartialBytevectorAt (v : Bytevector) (bytes : Operand) (srcIndex length dstindex : Nat) :
    Exec (Bytevector × Status) :=
  let size := (bytes.resolve v).2
  if srcIndex ≥ size then .ok (v, .invalidArgument)
  else
    let length := if length ≤ size - srcIndex then length else size - srcIndex
    addBytesAt heap v ((bytes.resolve v).1 srcIndex) dstindex length

/-- `jxta_bytevector_remove_bytes_at`. -/
def removeBytesAt (v : Bytevector) (atIndex length : Nat) : Exec (Bytevector × Status) :=
  if atIndex ≥ v.size then .ok (v, .invalidArgument)
  else do
    let length := if v.size - atIndex > length then length else v.size - atIndex
    let moved ← memmove v.content atIndex (atIndex + length) (v.size - atIndex - length)
    return (⟨moved, v.size - length⟩, .success)

/-- `jxta_bytevector_remove_byte_at`. -/
def removeByteAt (v : Bytevector) (atIndex : Nat) : Exec (Bytevector × Status) :=
  removeBytesAt v atIndex 1

/-- The exit of the two stream functions: after a failed read the bytes are taken out again, and
    the status of the removal is only logged. -/
def afterStream (v : Bytevector) (err : Status) (atIndex length : Nat) :
    Exec (Bytevector × Status) :=
  if err = .success then .ok (v, .success)
  else do
    let (removed, _) ← removeBytesAt v atIndex length
    return (removed, err)

/-- `jxta_bytevector_add_from_stream_at`. -/
def addFromStreamAt (v : Bytevector) (func : ReadFunc) (length atIndex : Nat) :
    Exec (Bytevector × Status) := do
  match ← addBytesAt heap v .null atIndex length with
  | (added, .success) =>
    let filled ← writeAt added.content atIndex (func.call length).2
    afterStream ⟨filled, added.size⟩ (func.call length).1 atIndex length
  | (added, err) => return (added, err)

/-- `jxta_bytevector_set_from_stream_at`: `size` grows by `length` wherever the bytes went, and
    the room test subtracts without a sign. -/
def setFromStreamAt (v : Bytevector) (func : ReadFunc) (length atIndex : Nat) :
    Exec (Bytevector × Status) :=
  if length > (v.capacity + sizeMod - atIndex) % sizeMod then .ok (v, .invalidArgument)
  else do
    let filled ← writeAt v.content atIndex (func.call length).2
    afterStream ⟨filled, (v.size + length) % sizeMod⟩ (func.call length).1 atIndex length

/-- `jxta_bytevector_get_bytes_at_1`: the status and the bytes copied out. -/
def getBytesAt1 (v : Bytevector) (atIndex length : Nat) : Exec (Status × List Byte) :=
  if atIndex ≥ v.size then .ok (.invalidArgument, [])
  else do
    let length := if v.size - atIndex > length then length else v.size - atIndex
    let bytes ← readAt v.content atIndex length
    return (.success, bytes)

/-- `jxta_bytevector_get_bytes_at`. -/
def getBytesAt (v : Bytevector) (atIndex length : Nat) : Exec (Status × List Byte) :=
  getBytesAt1 v atIndex length

/-- `jxta_bytevector_get_byte_at`. -/
def getByteAt (v : Bytevector) (atIndex : Nat) : Exec (Status × List Byte) :=
  getBytesAt v atIndex 1

/-- `jxta_bytevector_get_bytevector_at`: the new vector, one with no block in place of `none`, and
    the status; the outer `none` is no vector. -/
def getBytevectorAt (v : Bytevector) (atIndex length : Nat) :
    Exec (Option (Option Bytevector) × Status) :=
  if atIndex ≥ v.size then .ok (none, .invalidArgument)
  else
    let length := if v.size - atIndex > length then length else v.size - atIndex
    match new1 heap length with
    | none => .ok (some none, .nomem)
    | some dest => do
      let (dest, err) ← addBytesAt heap dest (.outside (v.content.drop atIndex)) 0 length
      return (some (some dest), err)

/-- `jxta_bytevector_equals`. -/
def equals (vector1 : Bytevector) : Operand → Exec Bool
  | .self => .ok true
  | .other vector2 =>
    if vector1.size ≠ vector2.size then .ok false
    else do
      let bytes1 ← readAt vector1.content 0 vector1.size
      let bytes2 ← readAt vector2.content 0 vector1.size
      return bytes1 = bytes2

/-- `jxta_bytevector_hashcode`; the hash is `jxta_objecthashtable_simplehash`. -/
def hashcode (simplehash : List Byte → UInt32) (v : Bytevector) : Exec UInt32 := do
  let bytes ← readAt v.content 0 v.size
  return simplehash bytes

/-- `jxta_bytevector_write`: `func` is what the `WriteFunc` answers to the bytes handed to it. -/
def write (v : Bytevector) (func : List Byte → Status) (atIndex length : Nat) :
    Exec (Status × List Byte) :=
  if atIndex ≥ v.size then .ok (.invalidArgument, [])
  else do
    let length := if v.size - atIndex > length then length else v.size - atIndex
    let bytes ← readAt v.content atIndex length
    return (func bytes, bytes)

end Operations

end Bytevector

end JxtaC
