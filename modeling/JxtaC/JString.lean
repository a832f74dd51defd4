import JxtaC.Bytevector
import JxtaC.Lib.CStrings
import JxtaC.Lib.Decimal

/-
  `JString` (jstring.c), function by function.
  A string is its length, the size that its buffer is taken to have, and the buffer itself: `none`
  is NULL. `stale` is a byte of memory that `realloc` has added. The small blocks of the objects are
  always given, and no pointer to a string is NULL. A `char` pointer of a caller leads to memory of
  its own; only `jstring_append_1` passes on the buffer of a string.
-/

namespace JxtaC

open Lib Lib.Block

structure JString where
  length : Nat
  bufsize : Nat
  string : Option (List Byte)
  deriving Repr, DecidableEq

namespace JString

/-- `DEFAULTBUFSIZE`. -/
def defaultBufsize : Nat := 128

/-- The bytes of the string. -/
def bytes (js : JString) : List Byte := (js.string.getD []).take js.length

/-- What `jstring_append_0` is given: NULL, memory of another object, or the string's own buffer. -/
inductive Chars where
  | null
  | outside (bytes : List Byte)
  | own
  deriving Repr, DecidableEq

/-- What `memmove` reads behind a `realloc`, which has freed the string's own buffer. -/
def Chars.load (length : Nat) : Chars → Exec (List Byte)
  | .null => .error .nullPointer
  | .outside bytes => readAt bytes 0 length
  | .own => if length = 0 then .ok [] else .error .danglingPointer

/-- The buffer is written from this index on. -/
def store (string : Option (List Byte)) (i : Nat) (bytes : List Byte) :
    Exec (Option (List Byte)) :=
  match string with
  | none => if bytes = [] then .ok none else .error .nullPointer
  | some block => do return some (← writeAt block i bytes)

section Functions
variable (heap : Heap) (stale : Byte)

def resizeBuf (p : Option (List Byte)) (size : Nat) : Option (List Byte) :=
  if size ≤ heap.limit then
    some ((p.getD []).take size ++ List.replicate (size - (p.getD []).length) stale)
  else none

def newCharBuf (size : Nat) : Option (List Byte) :=
  if size ≤ heap.limit then some (List.replicate size 0) else none

/-- `memset` and `free`. -/
def deleteCharBuf (buf : Option (List Byte)) (size : Nat) : Exec Unit :=
  match buf with
  | none => if size = 0 then .ok () else .error .nullPointer
  | some block => do
    let _ ← memset block 0 0xdd size
    return ()

/-- The buffer size of a new string. -/
def newSize (bufsize : Nat) : Nat :=
  if bufsize ≤ 0 then defaultBufsize else (bufsize + 1) % sizeMod

/-- `jstring_new_1`. -/
def new1 (bufsize : Nat) : JString where
  length := 0
  bufsize := newSize bufsize
  string := newCharBuf heap (newSize bufsize)

/-- `jstring_new_0`. -/
def new0 : JString := new1 heap defaultBufsize

/-- `while (js->bufsize <= (js->length + length + 1))`: what is not large enough after 64 times is
    0, and stays 0. -/
def growBuf : (fuel : Nat) → (bufsize length : Nat) → Exec Nat
  | 0, _, _ => .error .neverReturns
  | fuel + 1, bufsize, length =>
    if bufsize ≤ length then growBuf fuel (bufsize * 2 % sizeMod) length else .ok bufsize

/-- `jstring_append_0`. -/
def append0 (js : JString) (newstring : Chars) (length : Nat) : Exec JString :=
  if newstring = .null then .ok js
  else do
    let bufsize ← growBuf 65 js.bufsize ((js.length + length + 1) % sizeMod)
    let string := resizeBuf heap stale js.string bufsize
    let string ← store string js.length (← newstring.load length)
    return { length := (js.length + length) % sizeMod, bufsize, string }

/-- `jstring_append_1` with another string; `none` is the string itself. -/
def append1 (jsorig : JString) (jsnew : Option JString) : Exec JString :=
  match jsnew with
  | none => append0 heap stale jsorig (if jsorig.string = none then .null else .own) jsorig.length
  | some js =>
    append0 heap stale jsorig
      (match js.string with
        | none => .null
        | some block => .outside block) js.length

/-- `jstring_append_2`, with the bytes in front of the NUL. -/
def append2 (js : JString) (string : Option (List Byte)) : Exec JString :=
  match string with
  | none => .ok js
  | some s => append0 heap stale js (.outside s) s.length

/-- `jstring_concat`. -/
def concat (js : JString) : (argv : List (Option (List Byte))) → Exec JString
  | [] => .ok js
  | s :: argv => do concat (← append2 heap stale js s) argv

/-- `jstring_new_2`. -/
def new2 (string : Option (List Byte)) : Exec (Option JString) :=
  match string with
  | none => .ok none
  | some s => do return some (← append0 heap stale (new1 heap s.length) (.outside s) s.length)

/-- `jstring_new_3`. -/
def new3 (bytes : Option Bytevector) : Exec (Option JString) :=
  match bytes with
  | none => .ok none
  | some bytes => do
    let js := new1 heap bytes.size
    let (status, got) ← bytes.getBytesAt 0 bytes.size
    if status ≠ .success then return none
    else return some { js with length := bytes.size, string := ← store js.string 0 got }

/-- `jstring_get_string`: the buffer that the pointer leads to comes second. -/
def getString (js : JString) : Exec (JString × List Byte) := do
  let js :=
    if js.length = js.bufsize then
      { js with
        string := resizeBuf heap stale js.string ((js.bufsize + 1) % sizeMod)
        bufsize := (js.bufsize + 1) % sizeMod }
    else js
  let string ← store js.string js.length [0]
  return ({ js with string }, string.getD [])

/-- `jstring_clone`: the clone comes second. -/
def clone (origstring : JString) : Exec (JString × JString) := do
  let js := new1 heap origstring.bufsize
  let (origstring, string) ← getString heap stale origstring
  return (origstring, ← append2 heap stale js (some (← stringIn string)))

/-- The first loop of `jstring_trim`. An index that wraps round finds the white space it has passed,
    again and again. -/
def trimFront : (rest : List Byte) → (st : Nat) → Exec Nat
  | [], st => .ok st
  | c :: rest, st =>
    if Decimal.isSpace c then
      if st + 1 = uintMod then .error .neverReturns else trimFront rest (st + 1)
    else .ok st

/-- The second loop of `jstring_trim`: `val[len - st - 1]` is the last byte of the string. -/
def trimBack (string : List Byte) (st : Nat) : (len : Nat) → Exec Nat
  | 0 => .ok 0
  | len + 1 =>
    if st < len + 1 then do
      if Decimal.isSpace (← byteAt string len) then trimBack string st len else return len + 1
    else .ok (len + 1)

/-- `jstring_trim`. -/
def trim (js : JString) : Exec JString :=
  match js.string with
  | none => if js.length = 0 then .ok js else .error .nullPointer
  | some string => do
    let st ← trimFront (← readAt string 0 js.length) 0
    let len ← trimBack string st js.length
    if st > 0 ∨ len < js.length then
      let string ← memmove string 0 st (len - st)
      let string ← writeAt string (len - st) [0]
      return { js with length := len - st, string := some string }
    else return js

/-- `jstring_reset`: what `buf` is given comes second. -/
def reset (js : JString) (buf : Bool) : Exec (JString × Option (List Byte)) := do
  let handed ←
    if buf then do
      let (_, string) ← getString heap stale js
      pure (some string)
    else do
      deleteCharBuf js.string js.bufsize
      pure none
  return ({ length := 0, bufsize := defaultBufsize, string := newCharBuf heap defaultBufsize },
    handed)

end Functions

end JString

end JxtaC
