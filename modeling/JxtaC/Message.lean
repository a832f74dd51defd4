import JxtaC.Base.Status
import JxtaC.Lib.BigEndian
import JxtaC.Lib.Stream
import Mathlib.Data.List.TakeWhile

/-
  Reading and writing messages (jxta_message.c), in the wire formats 1 and 2.
  A read or write function is an action on the stream of its `read_func` or `write_func`: it leaves
  with the status that the C function returns at a `goto`. An element is the chain of itself, its
  signature, the signature of that, and so on. Strings are C strings. Allocations are served; a
  refused one ends in an error status. The QoS is a parameter: how it is turned into XML, and what
  `extract_qos_element` makes of it.
-/

namespace JxtaC

open Lib Lib.Stream

/-! ## C strings -/

/-- A C string: its bytes up to the NUL. -/
def CString : Type := { s : List Byte // 0 ∉ s }

instance : DecidableEq CString := inferInstanceAs (DecidableEq { s : List Byte // 0 ∉ s })

namespace CString

/-- The bytes of a string, as many as `strlen` counts. -/
def bytes (s : CString) : List Byte := s.val

theorem not_mem_takeWhile (buffer : List Byte) : 0 ∉ buffer.takeWhile (· ≠ 0) := fun h => by
  have hne := List.mem_takeWhile_imp h
  simp at hne

/-- What a buffer with a NUL behind it is, as a string. -/
def ofBuffer (buffer : List Byte) : CString := ⟨buffer.takeWhile (· ≠ 0), not_mem_takeWhile buffer⟩

@[simp] theorem ofBuffer_bytes (s : CString) : ofBuffer s.bytes = s := by
  apply Subtype.ext
  show s.val.takeWhile (· ≠ 0) = s.val
  rw [List.takeWhile_eq_self_iff]
  intro b hb
  exact decide_eq_true fun h => s.property (h ▸ hb)

theorem length_ofBuffer_le (buffer : List Byte) : (ofBuffer buffer).bytes.length ≤ buffer.length :=
  (List.takeWhile_prefix _).length_le

/-- A string literal. -/
def ofChars (cs : List Char) : CString := ofBuffer (cs.map fun c => UInt8.ofNat c.toNat)

end CString

/-! ## messages -/

/-- `MESSAGE_EMPTYNS`. -/
def messageEmptyNs : CString := .ofChars []

/-- `MESSAGE_JXTANS`. -/
def messageJxtaNs : CString := .ofChars ['j', 'x', 't', 'a']

/-- `MESSAGE_QOS_SETTING_NAME`. -/
def messageQosSettingName : CString :=
  .ofChars ['Q', 'o', 'S', '_', 'S', 'e', 't', 't', 'i', 'n', 'g']

/-- `MESSAGE_JXTABINARYWIRE_MIME`. -/
def messageJxtaBinaryWireMime : CString :=
  .ofChars ['a', 'p', 'p', 'l', 'i', 'c', 'a', 't', 'i', 'o', 'n', '/', 'x', '-', 'j', 'x', 't',
    'a', '-', 'm', 's', 'g']

/-- The type of an element that has none. -/
def octetStream : CString :=
  .ofChars ['a', 'p', 'p', 'l', 'i', 'c', 'a', 't', 'i', 'o', 'n', '/', 'o', 'c', 't', 'e', 't',
    '-', 's', 't', 'r', 'e', 'a', 'm']

/-- The type of the QoS element. -/
def textXml : CString := .ofChars ['t', 'e', 'x', 't', '/', 'x', 'm', 'l']

/-- `JXTAMSG_MSGMAGICSIG`. -/
def msgMagicSig : List Byte := [106, 120, 109, 103]

/-- `JXTAMSG_ELMMAGICSIG`. -/
def elmMagicSig : List Byte := [106, 120, 101, 108]

/-- `JXTAMSG1_ELMFLAG_TYPE`. -/
def elmFlag1Type : Byte := 1

/-- `JXTAMSG2_ELMFLAG_UINT64_LENS`. -/
def elmFlagUint64Lens : Byte := 1

/-- `JXTAMSG2_ELMFLAG_NAME_LITERAL`. -/
def elmFlagNameLiteral : Byte := 2

/-- `JXTAMSG2_ELMFLAG_TYPE`. -/
def elmFlagType : Byte := 4

/-- `JXTAMSG2_ELMFLAG_SIGNATURE`. -/
def elmFlagSignature : Byte := 8

/-- `JXTAMSG2_ELMFLAG_ENCODINGS | JXTAMSG2_ELMFLAG_ENCODED_SIGNED`. -/
def elmFlagUnsupported : Byte := 48

/-- `JXTAMSG_NAMES_LITERAL_IDX`. -/
def namesLiteralIdx : Nat := 65535

/-- What an element holds but for its signature. -/
structure Part where
  ns : CString
  name : CString
  mimeType : Option CString
  value : List Byte
  deriving DecidableEq

/-- `jxta_message_element_get_mime_type`. -/
def Part.getMimeType (p : Part) : CString := p.mimeType.getD octetStream

/-- `Jxta_message_element`: the element, and the chain of its signatures. -/
structure MessageElement where
  body : Part
  sigs : List Part
  deriving DecidableEq

/-- `Jxta_message`. -/
structure Message (Qos : Type) where
  elements : List MessageElement
  qos : Option Qos
  deriving DecidableEq

/-- The test of `jxta_message_read` for the QoS element. -/
def MessageElement.isQos (el : MessageElement) : Bool :=
  el.body.ns = messageJxtaNs ∧ el.body.name = messageQosSettingName

/-- A `write_func` with its stream: the status, given what was written before. -/
def OutputStream : Type := List Byte → List Byte → Status

/-- The chunks that the `write_func` refuses. -/
def OutputStream.sink (stream : OutputStream) : Sink Byte Status := fun out chunk =>
  if stream out chunk = .success then none else some (stream out chunk)

/-- A `read_func` with its stream: it reads all that is asked for, or fails, with some of the
    stream gone. -/
structure InputStream extends Source Byte Status where
  fails : err ≠ .success

namespace Message

/-! ## writing -/

section Writing
variable (W : Sink Byte Status)

/-- `string_write`. -/
def stringWrite (str : CString) : Action Byte Status Unit := do
  write W (bigEndian 2 str.bytes.length)
  write W str.bytes

def writeMimeType : Option CString → Action Byte Status Unit
  | none => pure ()
  | some mimeType => stringWrite W mimeType

/-- The length of a value, and the value if it has bytes. -/
def writeValue (value : List Byte) : Action Byte Status Unit := do
  write W (bigEndian 4 value.length)
  if value.length = 0 then pure () else write W value

/-- The search for a name that both names tables make: a new name goes to the end. -/
def addName : List CString → CString → List CString
  | [], name => [name]
  | entry :: entries, name => if name = entry then entry :: entries else entry :: addName entries name

/-- The names table of `message_write_v1`: the elements' namespaces, from the last element on. -/
def v1NamesTable (elements : List MessageElement) : List CString :=
  elements.reverse.foldl (fun table el => addName table el.body.ns) [messageEmptyNs, messageJxtaNs]

/-- `jxta_message_get_elements_of_namespace`: from the last element on. -/
def elementsOfNamespace (elements : List MessageElement) (ns : CString) : List MessageElement :=
  elements.reverse.filter fun el => el.body.ns = ns

/-- One turn of the element loop of `message_write_v1`. -/
def writeV1Element (eachName : Nat) (el : MessageElement) : Action Byte Status Unit := do
  write W elmMagicSig
  write W [UInt8.ofNat eachName]
  write W [if el.body.mimeType.isSome then elmFlag1Type else 0]
  stringWrite W el.body.name
  writeMimeType W el.body.mimeType
  writeValue W el.body.value

def wireMimeOk (mimeType : Option CString) : Bool :=
  mimeType = none ∨ mimeType = some messageJxtaBinaryWireMime

/-- `message_write_v1`; signatures are not written. -/
def messageWriteV1 (mimeType : Option CString) (elements : List MessageElement) :
    Action Byte Status Unit :=
  if !wireMimeOk mimeType then leave .notimp
  else do
    let table := v1NamesTable elements
    write W msgMagicSig
    write W [0]
    write W (bigEndian 2 (table.length - 2))
    writeEach (stringWrite W) (table.drop 2)
    write W (bigEndian 2 elements.length)
    writeEach (fun p => writeEach (writeV1Element W p.2) (elementsOfNamespace elements p.1).reverse)
      table.zipIdx

/-- The names `build_v2_names_table` takes from an element: its own, and those of its signature. -/
def namesOf (el : MessageElement) : List CString :=
  [el.body.ns, el.body.getMimeType] ++
    match el.sigs with
    | [] => []
    | sig :: _ => [sig.ns, sig.getMimeType]

/-- `build_v2_names_table`. -/
def buildV2NamesTable (elements : List MessageElement) : List CString :=
  elements.reverse.foldl (fun table el => (namesOf el).foldl addName table)
    [messageEmptyNs, messageJxtaNs]

/-- `lookup_name_token`: the index is 16 bits wide, and the loop over a larger table does not end
    where the name is not among the first 65536. -/
def lookupNameToken (name : CString) (table : List CString) : Exec Nat :=
  let eachName := table.idxOf name
  if eachName < table.length ∧ eachName < 65536 then .ok eachName
  else if table.length ≤ 65535 then .ok namesLiteralIdx
  else .error .neverReturns

def writeName (table : List CString) (name : CString) : Action Byte Status Unit :=
  match lookupNameToken name table with
  | .error f => crash f
  | .ok token => if token = namesLiteralIdx then leave .ioerr else write W (bigEndian 2 token)

def writeV2MimeType (table : List CString) : Option CString → Action Byte Status Unit
  | none => pure ()
  | some mimeType => writeName W table mimeType

/-- The flags of `write_v2_element`; a name is always present. -/
def v2Flags (p : Part) (sigs : List Part) : Byte :=
  elmFlagNameLiteral ||| (if p.mimeType.isSome then elmFlagType else 0) |||
    (if sigs = [] then 0 else elmFlagSignature)

/-- `write_v2_element`, along the chain of signatures. -/
def writeV2Element (table : List CString) : (p : Part) → (sigs : List Part) →
    Action Byte Status Unit
  | p, sigs => do
    write W elmMagicSig
    write W [v2Flags p sigs]
    writeName W table p.ns
    stringWrite W p.name
    writeV2MimeType W table p.mimeType
    writeValue W p.value
    match sigs with
    | [] => pure ()
    | sig :: sigs => writeV2Element table sig sigs

/-- `message_write_v2`. -/
def messageWriteV2 (mimeType : Option CString) (elements : List MessageElement) :
    Action Byte Status Unit :=
  if !wireMimeOk mimeType then leave .notimp
  else do
    let table := buildV2NamesTable elements
    write W msgMagicSig
    write W [1]
    write W [0]
    write W (bigEndian 2 (table.length - 2))
    writeEach (stringWrite W) (table.drop 2)
    write W (bigEndian 2 elements.length)
    writeEach (fun el => writeV2Element W table el.body el.sigs) elements

end Writing

section Exported
variable {Qos : Type}

/-- `jxta_message_remove_element_2`: the last element of this name goes. -/
def removeElement2 (ns name : CString) (elements : List MessageElement) : List MessageElement :=
  (elements.reverse.eraseP fun el => el.body.ns = ns ∧ el.body.name = name).reverse

/-- `add_qos_element`. -/
def addQosElement (qosToXml : Qos → CString) (msg : Message Qos) : Message Qos :=
  match msg.qos with
  | none => msg
  | some qos =>
    let el := ⟨⟨messageJxtaNs, messageQosSettingName, some textXml, (qosToXml qos).bytes⟩, []⟩
    { msg with
      elements := removeElement2 messageJxtaNs messageQosSettingName msg.elements ++ [el] }

/-- `jxta_message_write_1`, on a stream that nothing was written to. -/
def messageWrite1 (qosToXml : Qos → CString) (msg : Message Qos) (mimeType : Option CString)
    (version : Int) (stream : OutputStream) : Exec (Message Qos × Status × List Byte) :=
  let msg := addQosElement qosToXml msg
  let written :=
    if version = 0 then messageWriteV1 stream.sink mimeType msg.elements
    else if version = 1 then messageWriteV2 stream.sink mimeType msg.elements
    else leave .invalidArgument
  match written [] with
  | .ok () out => .ok (msg, .success, out)
  | .exit res out => .ok (msg, res, out)
  | .fault f => .error f

end Exported

/-! ## reading -/

section Reading
variable (P : Source Byte Status)

/-- `string_read`: NULL where the stream is too short. -/
def stringRead : Action Byte Status (Option CString) := do
  match ← read P 2 with
  | none => return none
  | some len =>
    match ← read P (ofBigEndian len) with
    | none => return none
    | some data => return some (.ofBuffer data)

/-- `name_read`: NULL also where `lookup_name_string` has no such name. -/
def nameRead (table : List CString) : Action Byte Status (Option CString) := do
  match ← read P 2 with
  | none => return none
  | some nameIdx =>
    if ofBigEndian nameIdx = namesLiteralIdx then stringRead P
    else return table[ofBigEndian nameIdx]?

/-- A string that has to be there. -/
def orElse (e : Status) (x : Action Byte Status (Option CString)) : Action Byte Status CString := do
  match ← x with
  | none => leave e
  | some str => return str

/-- Four magic bytes, and the rest if they are the right ones. -/
def afterMagic {α : Type} (magic : List Byte) (x : Action Byte Status α) : Action Byte Status α := do
  let bytes ← readAll P magic.length
  if bytes ≠ magic then leave .ioerr else x

/-- One byte. -/
def byteRead : Action Byte Status Byte := do
  let bytes ← readAll P 1
  return bytes.headD 0

def v1MimeTypeRead (flags : Byte) : Action Byte Status (Option CString) :=
  if flags &&& elmFlag1Type ≠ 0 then do
    let mimeType ← orElse .ioerr (stringRead P)
    return some mimeType
  else return none

/-- A length of `width` bytes, and as many bytes. -/
def valueRead (width : Nat) : Action Byte Status (List Byte) := do
  let length ← readAll P width
  readAll P (ofBigEndian length)

/-- An element of version 1 before its namespace is looked up. -/
structure V1Fields where
  ns : Byte
  name : CString
  mimeType : Option CString
  value : List Byte

/-- `read_v1_element` up to the value. -/
def readV1Fields : Action Byte Status V1Fields :=
  afterMagic P elmMagicSig do
    let ns ← byteRead P
    let flags ← byteRead P
    let name ← orElse .ioerr (stringRead P)
    let mimeType ← v1MimeTypeRead P flags
    let value ← valueRead P 4
    return ⟨ns, name, mimeType, value⟩

/-- `read_v1_element`: the namespace is looked up without a look at the size of the table. -/
def readV1Element (table : List CString) : Action Byte Status MessageElement := do
  let fields ← readV1Fields P
  match table[fields.ns.toNat]? with
  | none => crash .outOfBounds
  | some ns => return ⟨⟨ns, fields.name, fields.mimeType, fields.value⟩, []⟩

/-- The name of a version 2 element; a literal one may be NULL for now. -/
def v2NameRead (table : List CString) (flags : Byte) : Action Byte Status (Option CString) :=
  if flags &&& elmFlagNameLiteral ≠ 0 then stringRead P
  else do
    let name ← orElse .ioerr (nameRead P table)
    return some name

def v2MimeTypeRead (table : List CString) (flags : Byte) : Action Byte Status (Option CString) :=
  if flags &&& elmFlagType ≠ 0 then do
    let mimeType ← orElse .ioerr (nameRead P table)
    return some mimeType
  else return none

/-- An element of version 2 before it is made; the name may be NULL. -/
structure V2Fields where
  ns : CString
  name : Option CString
  mimeType : Option CString
  value : List Byte

/-- The width of the length of a value. -/
def lengthWidth (flags : Byte) : Nat := if flags &&& elmFlagUint64Lens ≠ 0 then 8 else 4

/-- `read_v2_element` from the namespace to the value. -/
def readV2Fields (table : List CString) (flags : Byte) : Action Byte Status V2Fields := do
  let ns ← orElse .ioerr (nameRead P table)
  let name ← v2NameRead P table flags
  let mimeType ← v2MimeTypeRead P table flags
  let value ← valueRead P (lengthWidth flags)
  return ⟨ns, name, mimeType, value⟩

/-- `jxta_message_element_new_3` on what was read. -/
def newElement (fields : V2Fields) (sig : Option MessageElement) :
    Action Byte Status (Option MessageElement) :=
  match fields.name with
  | none => leave .nomem
  | some name =>
    let body := ⟨fields.ns, name, fields.mimeType, fields.value⟩
    match sig with
    | none => return some ⟨body, []⟩
    | some sig => return some ⟨body, sig.body :: sig.sigs⟩

/-- `read_v2_element`: unsupported flags leave with the status of the last read, which is success,
    and without an element. Every level of signatures consumes a part of the stream. -/
def readV2Element (table : List CString) : Nat → Action Byte Status (Option MessageElement)
  | 0 => crash .neverReturns
  | fuel + 1 => afterMagic P elmMagicSig do
    let flags ← byteRead P
    if flags &&& elmFlagUnsupported ≠ 0 then return none
    else do
      let fields ← readV2Fields P table flags
      if flags &&& elmFlagSignature ≠ 0 then do
        let sig ← readV2Element table fuel
        newElement fields sig
      else newElement fields none

/-- What `jxta_message_read` has when it comes to the elements. -/
structure Header where
  version : Byte
  table : List CString
  elementCount : Nat

/-- The names table, and the number of elements: the two default names do not fit a table without
    room for them, and a name that cannot be read leaves with the status of the last `read_func`
    but one, which is success. -/
def readTable (version : Byte) (namesCount : Nat) : Action Byte Status Header :=
  if namesCount < 2 then crash .outOfBounds
  else do
    let names ← collect (orElse .success (stringRead P)) (namesCount - 2)
    let elementCount ← readAll P 2
    return ⟨version, messageEmptyNs :: messageJxtaNs :: names, ofBigEndian elementCount⟩

/-- `names_count += 2` has 16 bits. -/
def readNamesCount (version : Byte) : Action Byte Status (Byte × Nat) := do
  let count ← readAll P 2
  return (version, (ofBigEndian count + 2) % 65536)

/-- `jxta_message_read` up to the names table: the version, and the size of the table. -/
def readOpening : Action Byte Status (Byte × Nat) :=
  afterMagic P msgMagicSig do
    let version ← byteRead P
    if version = 0 then readNamesCount P version
    else if version = 1 then do
      let flags ← byteRead P
      if flags ≠ 0 then leave .invalidArgument else readNamesCount P version
    else leave .ioerr

/-- `jxta_message_read` up to the elements. -/
def readHeader : Action Byte Status Header := do
  let (version, namesCount) ← readOpening P
  readTable P version namesCount

/-- One element; the fuel of the version 2 reader is more than the stream can use up. -/
def readElement (h : Header) : Action Byte Status (Option MessageElement) := fun s =>
  if h.version = 0 then
    (do
      let el ← readV1Element P h.table
      return some el : Action Byte Status (Option MessageElement)) s
  else readV2Element P h.table (s.length + 1) s

variable {Qos : Type} (extract : Option Qos → List Byte → Exec (Option Qos × Status))

/-- What becomes of an element that was read. -/
def takeElement (msg : Message Qos) (el : MessageElement) : Exec (Message Qos × Status) :=
  if el.isQos then
    match extract msg.qos el.body.value with
    | .error f => .error f
    | .ok (qos, res) => .ok ({ msg with qos }, res)
  else .ok ({ msg with elements := msg.elements ++ [el] }, .success)

/-- The element loop of `jxta_message_read`: the message so far, and the status it ends with. -/
def readElements (h : Header) : Nat → Message Qos → Action Byte Status (Message Qos × Status)
  | 0, msg => return (msg, .success)
  | count + 1, msg => do
    match ← attempt (readElement P h) with
    | .error res => return (msg, res)
    | .ok none => crash .nullPointer
    | .ok (some el) =>
      match takeElement extract msg el with
      | .error f => crash f
      | .ok (msg, res) => if res = .success then readElements h count msg else return (msg, res)

end Reading

/-- `jxta_message_read`: the message, the status, and what is left of the stream. -/
def messageRead {Qos : Type} (stream : InputStream)
    (extract : Option Qos → List Byte → Exec (Option Qos × Status)) (msg : Message Qos)
    (mimeType : Option CString) (s : List Byte) : Exec (Message Qos × Status × List Byte) :=
  if !wireMimeOk mimeType then .ok (msg, .invalidArgument, s)
  else
    let msg := { msg with elements := [] }
    match readHeader stream.toSource s with
    | .exit res rest => .ok (msg, res, rest)
    | .fault f => .error f
    | .ok h s =>
      match readElements stream.toSource extract h h.elementCount msg s with
      | .ok (msg, res) rest => .ok (msg, res, rest)
      | .exit res rest => .ok (msg, res, rest)
      | .fault f => .error f

end Message

end JxtaC
