import Mathlib.Data.Fintype.Basic
import JxtaC.PacketHeader
import JxtaC.WelcomeMessage

/-
  JXTA IDs (jxta_id.c, jxta_id_uuid.c, jxta_id_jxta.c), in the two formats: 64 bytes, or a text.
  The well-known IDs are of the second format; two objects of it that `uuid` compares are the same one
  if their texts are, since `jxta_id_from_str` gives the object of a well-known text. UUIDs are a
  parameter. Allocations are served.
-/

namespace JxtaC

open Lib

/-- The bytes of `_jxta_id_uuid`. -/
abbrev IdBytes : Type := Fin 64 → Byte

/-- `Jxta_id`, by its format. -/
inductive JxtaId where
  | uuid (data : IdBytes)
  | jxta (uniquevalue : CString)
  deriving DecidableEq

namespace JxtaId

/-! ## the bytes of an ID -/

def flagCodatid : Byte := 1
def flagPeergroupid : Byte := 2
def flagPeerid : Byte := 3
def flagPipeid : Byte := 4
def flagModuleclassid : Byte := 5
def flagModulespecid : Byte := 6

/-- `UUIDSIZE`. -/
def uuidsize : Nat := 16

/-- `FLAGSOFFSET`. -/
def flagsoffset : Fin 64 := 63

def setByte (data : IdBytes) (i : Fin 64) (b : Byte) : IdBytes :=
  fun j => if j = i then b else data j

/-- `memcpy` to this place of the bytes. -/
def memcpy (data : IdBytes) (offset : Nat) (src : List Byte) : IdBytes :=
  fun j => if offset ≤ j.val then src.getD (j.val - offset) (data j) else data j

/-- The bytes that a text gives, and zeros behind them. -/
def ofBytes (bytes : List Byte) (flag : Byte) : IdBytes :=
  setByte (memcpy (fun _ => 0) 0 bytes) flagsoffset flag

/-- `worldPeerGroupID`. -/
def worldPeerGroupID : IdBytes :=
  ofBytes [0x59, 0x61, 0x62, 0x61, 0x64, 0x61, 0x62, 0x61, 0x4A, 0x78, 0x74, 0x61, 0x50, 0x32, 0x50,
    0x33] 0x02

/-- `defaultNetPeerGroupID`. -/
def defaultNetPeerGroupID : IdBytes :=
  ofBytes [0x59, 0x61, 0x62, 0x61, 0x64, 0x61, 0x62, 0x61, 0x4E, 0x50, 0x47, 0x20, 0x50, 0x32, 0x50,
    0x33] 0x02

/-- `jxta_id_nullID`. -/
def nullID : JxtaId := .jxta (.ofBuffer (text "Null"))

/-- `jxta_id_worldNetPeerGroupID`. -/
def worldNetPeerGroupID : JxtaId := .jxta (.ofBuffer (text "WorldGroup"))

/-- `jxta_id_defaultNetPeerGroupID`. -/
def defaultNetGroupID : JxtaId := .jxta (.ofBuffer (text "NetGroup"))

/-- `translateToWellKnown`. -/
def translateToWellKnown (jid : JxtaId) : JxtaId :=
  if jid = .uuid defaultNetPeerGroupID then defaultNetGroupID
  else if jid = .uuid worldPeerGroupID then worldNetPeerGroupID
  else jid

/-- `translateFromWellKnown`. -/
def translateFromWellKnown (jid : JxtaId) : JxtaId :=
  if jid = defaultNetGroupID then .uuid defaultNetPeerGroupID
  else if jid = worldNetPeerGroupID then .uuid worldPeerGroupID
  else jid

/-! ## new IDs -/

/-- A new ID of this type. -/
def fresh (flag : Byte) : IdBytes := setByte (fun _ => 0) flagsoffset flag

/-- The bits of a UUID that say what it is. -/
def markUuid (data : IdBytes) (offset : Nat) : IdBytes :=
  let version := Fin.ofNat 64 (offset + 6)
  let variant := Fin.ofNat 64 (offset + 8)
  let multicast := Fin.ofNat 64 (offset + 10)
  let data := setByte data version ((data version &&& 0x0f) ||| 0x40)
  let data := setByte data variant ((data variant &&& 0x3f) ||| 0x80)
  setByte data multicast ((data multicast &&& 0x3f) ||| 0x80)

/-- `newPeergroupid2`. -/
def newPeergroupid2 (seed : List Byte) : Except Status JxtaId :=
  .ok (.uuid (markUuid (memcpy (fresh flagPeergroupid) 0 (seed.take uuidsize)) 0))

/-- The first UUID of an ID. -/
def groupUuid (data : IdBytes) : List Byte := (List.ofFn data).take uuidsize

/-- An ID of this type that belongs to a group. -/
def newInGroup (flag : Byte) (pg : JxtaId) (fill : IdBytes → IdBytes) : Except Status JxtaId :=
  match translateFromWellKnown pg with
  | .jxta _ => .error .invalidArgument
  | .uuid group => .ok (.uuid (fill (memcpy (fresh flag) 0 (groupUuid group))))

/-- `newPeerid2`. -/
def newPeerid2 (pg : JxtaId) (seed : List Byte) : Except Status JxtaId :=
  newInGroup flagPeerid pg fun data => markUuid (memcpy data 16 (seed.take uuidsize)) 16

/-- `newPipeid2`. -/
def newPipeid2 (pg : JxtaId) (seed : List Byte) : Except Status JxtaId :=
  newInGroup flagPipeid pg fun data => markUuid (memcpy data 16 (seed.take uuidsize)) 16

/-- `newCodatid1`. -/
def newCodatid1 (pg : JxtaId) (uuid : Fin 16 → Byte) : Except Status JxtaId :=
  newInGroup flagCodatid pg fun data => memcpy data 16 (List.ofFn uuid)

/-- `newModuleclassid1`. -/
def newModuleclassid1 (uuid : Fin 16 → Byte) : Except Status JxtaId :=
  .ok (.uuid (memcpy (fresh flagModuleclassid) 0 (List.ofFn uuid)))

/-- An ID of this type that belongs to a module class. -/
def newInClass (flag : Byte) (base : JxtaId) (uuid : Fin 16 → Byte) : Except Status JxtaId :=
  match base with
  | .jxta _ => .error .invalidArgument
  | .uuid cls => .ok (.uuid (memcpy (memcpy (fresh flag) 0 (groupUuid cls)) 16 (List.ofFn uuid)))

/-- `newModuleclassid2`. -/
def newModuleclassid2 (base : JxtaId) (uuid : Fin 16 → Byte) : Except Status JxtaId :=
  newInClass flagModuleclassid base uuid

/-- `newModulespecid`. -/
def newModulespecid (mcid : JxtaId) (uuid : Fin 16 → Byte) : Except Status JxtaId :=
  newInClass flagModulespecid mcid uuid

/-! ## from a string -/

def isSpace (b : Byte) : Bool := b = 32 || (9 ≤ b.toNat && b.toNat ≤ 13)

/-- The value of a hexadecimal digit. -/
def hexValue (b : Byte) : Option Nat :=
  let n := b.toNat
  if 48 ≤ n ∧ n ≤ 57 then some (n - 48)
  else if 65 ≤ n ∧ n ≤ 70 then some (n - 55)
  else if 97 ≤ n ∧ n ≤ 102 then some (n - 87)
  else none

/-- The digits of `strtoul`, with a `0x` in front of them or not. -/
def hexDigits (s : List Byte) : Nat :=
  let s := match s with
    | 48 :: x :: d :: rest => if (x = 120 ∨ x = 88) ∧ (hexValue d).isSome then d :: rest else s
    | _ => s
  (s.takeWhile fun b => (hexValue b).isSome).foldl (fun n b => n * 16 + (hexValue b).getD 0) 0

/-- `(unsigned char) strtoul`, to the base 16. -/
def strtoul (s : List Byte) : Byte :=
  match s.dropWhile isSpace with
  | 45 :: rest => 0 - UInt8.ofNat (hexDigits rest)
  | 43 :: rest => UInt8.ofNat (hexDigits rest)
  | rest => UInt8.ofNat (hexDigits rest)

/-- The byte of two characters; behind them, or in their place, there is a NUL. -/
def byteAt (str : List Byte) (i : Nat) : Byte :=
  strtoul ([str.getD i 0, str.getD (i + 1) 0].takeWhile (· ≠ 0))

/-- The bytes that `new_from_str` of `uuid` reads. -/
def bytesOfStr (str : List Byte) : IdBytes := fun j =>
  if j = flagsoffset then byteAt str (str.length - 2)
  else if j.val < str.length / 2 - 1 then byteAt str (j.val * 2)
  else 0

/-- `new_from_str` of `uuid`. It writes a byte for any two characters. -/
def uuidFromStr (str : List Byte) : Exec (Except Status JxtaId) :=
  if str.length < 2 ∨ str.length % 2 ≠ 0 then .ok (.error .invalidArgument)
  else if str.length / 2 - 1 > 64 then .error .outOfBounds
  else .ok (.ok (translateToWellKnown (.uuid (bytesOfStr str))))

/-- `new_from_str` of `jxta`. -/
def jxtaFromStr (str : List Byte) : Exec (Except Status JxtaId) := .ok (.ok (.jxta (.ofBuffer str)))

/-- `jxta_id_PREFIX`. -/
def idPrefix : List Byte := text "urn:jxta:"

/-- The comparison of a format's name with this many characters. -/
def isFormat (name fmt : List Byte) (offset : Nat) : Bool :=
  WelcomeMessage.sameText offset name (fmt.takeWhile (· ≠ 0))

/-- `jxta_id_from_str`; `jxta_id_from_jstring` on the text of a string. -/
def fromStr (idStr : List Byte) : Exec (Except Status JxtaId) :=
  if idPrefix.length > idStr.length then .ok (.error .invalidArgument)
  else if !PacketHeader.sameName idPrefix.length idStr idPrefix then .ok (.error .invalidArgument)
  else
    let fmt := idStr.drop idPrefix.length
    let offset := fmt.idxOf 45
    if offset ≥ fmt.length then .ok (.error .invalidArgument)
    else
      let str := fmt.drop (offset + 1)
      if isFormat (text "uuid") fmt offset then uuidFromStr str
      else if isFormat (text "jxta") fmt offset then jxtaFromStr str
      else .ok (.error .notimp)

/-! ## to a string -/

/-- The last byte that is not zero, from this one down to the first. -/
def lastByte (data : IdBytes) : Nat → Nat
  | 0 => 0
  | n + 1 => if data (Fin.ofNat 64 (n + 1)) ≠ 0 then n + 1 else lastByte data n

def hexDigit (n : Nat) : Byte := UInt8.ofNat (if n < 10 then 48 + n else 55 + n)

/-- `%02X`. -/
def hexByte (b : Byte) : List Byte := [hexDigit (b.toNat / 16), hexDigit (b.toNat % 16)]

/-- `getUniqueportion` of `jxta`. -/
def jxtaUniqueportion (uniquevalue : CString) : List Byte :=
  text "jxta" ++ 45 :: uniquevalue.bytes

/-- The bytes of an ID up to the last one, and its type. -/
def hexOf (data : IdBytes) : List Byte :=
  (List.range (lastByte data 62 + 1)).flatMap (fun i => hexByte (data (Fin.ofNat 64 i))) ++
    hexByte (data flagsoffset)

/-- `jxta_id_get_uniqueportion`. -/
def getUniqueportion (jid : JxtaId) : List Byte :=
  match translateToWellKnown jid with
  | .jxta uniquevalue => jxtaUniqueportion uniquevalue
  | .uuid data => text "uuid" ++ 45 :: hexOf data

/-- `jxta_id_to_jstring`. -/
def toJString (jid : JxtaId) : List Byte := idPrefix ++ getUniqueportion jid

/-! ## comparison -/

/-- `jxta_id_equals`. -/
def equals : JxtaId → JxtaId → Bool
  | .uuid a, .uuid b => a = b
  | .jxta a, .jxta b => a = b
  | _, _ => false

/-- `jxta_objecthashtable_simplehash`. -/
def simplehash (key : List Byte) : UInt32 :=
  let hash := key.foldl (fun hash b =>
    let hash := hash + UInt32.ofNat b.toNat
    let hash := hash + (hash <<< 10)
    hash ^^^ (hash >>> 6)) 0xffffffff
  let hash := hash + (hash <<< 3)
  let hash := hash ^^^ (hash >>> 11)
  let hash := hash + (hash <<< 15)
  if hash = 0 then 1 else hash

/-- `jxta_id_hashcode`. -/
def hashcode : JxtaId → UInt32
  | .uuid data => simplehash (List.ofFn data)
  | .jxta uniquevalue => simplehash uniquevalue.bytes

end JxtaId

end JxtaC
