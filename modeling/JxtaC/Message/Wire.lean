import JxtaC.Message
import JxtaC.Lib.Counted
import Mathlib.Data.List.GetD

/-
  The wire formats as data: what the bytes of a message are, field by field.
  `Faithful` says that each count and length field holds the number of items behind it. `Framed`
  adds that the flags say what follows and that names and namespaces are in the table; it lets a
  signature be cut off after unsupported flags, as the reader does. `WellFormed` excludes that.
-/

namespace JxtaC.Message

open Lib

/-! ## strings and names -/

abbrev WireString : Type := Counted 2

/-- The string that arrives. -/
def WireString.string (s : WireString) : CString := .ofBuffer s.data

/-- A name of version 2: a place in the names table, or the name itself. -/
inductive WireName where
  | token (idx : Fin 65535)
  | literal (name : WireString)
  deriving DecidableEq

namespace WireName

def bytes : WireName → List Byte
  | token idx => bigEndian 2 idx.val
  | literal name => bigEndian 2 namesLiteralIdx ++ name.bytes

def Faithful : WireName → Prop
  | token _ => True
  | literal name => name.Faithful

def Known (table : List CString) : WireName → Prop
  | token idx => idx.val < table.length
  | literal _ => True

def string (table : List CString) : WireName → CString
  | token idx => table.getD idx.val messageEmptyNs
  | literal name => WireString.string name

end WireName

/-! ## elements -/

/-- An element of version 1. -/
structure WireElement1 where
  ns : Byte
  flags : Byte
  name : WireString
  mimeType : Option WireString
  value : Counted 4
  deriving DecidableEq

namespace WireElement1

def bytes (e : WireElement1) : List Byte :=
  elmMagicSig ++ ([e.ns] ++ ([e.flags] ++ (e.name.bytes ++
    ((e.mimeType.elim [] Counted.bytes) ++ e.value.bytes))))

structure Faithful (e : WireElement1) : Prop where
  name : e.name.Faithful
  mimeType : ∀ m ∈ e.mimeType, m.Faithful
  value : e.value.Faithful

structure Framed (e : WireElement1) : Prop extends Faithful e where
  typed : e.flags &&& elmFlag1Type ≠ 0 ↔ e.mimeType.isSome

def part (table : List CString) (e : WireElement1) : Part :=
  ⟨table.getD e.ns.toNat messageEmptyNs, WireString.string e.name,
    e.mimeType.map WireString.string, e.value.data⟩

end WireElement1

/-- An element of version 2 up to its signature. -/
structure WirePart where
  flags : Byte
  ns : WireName
  name : WireString ⊕ WireName
  mimeType : Option WireName
  value : Counted (lengthWidth flags)

namespace WirePart

/-- The bytes behind the flags. -/
def fields (p : WirePart) : List Byte :=
  p.ns.bytes ++ (p.name.elim Counted.bytes WireName.bytes ++
    (p.mimeType.elim [] WireName.bytes ++ p.value.bytes))

def bytes (p : WirePart) : List Byte := elmMagicSig ++ ([p.flags] ++ p.fields)

structure Faithful (p : WirePart) : Prop where
  ns : p.ns.Faithful
  name : p.name.elim Counted.Faithful WireName.Faithful
  mimeType : ∀ m ∈ p.mimeType, m.Faithful
  value : p.value.Faithful

structure Framed (table : List CString) (p : WirePart) : Prop extends Faithful p where
  supported : p.flags &&& elmFlagUnsupported = 0
  ns_known : p.ns.Known table
  named : p.flags &&& elmFlagNameLiteral ≠ 0 ↔ p.name.isLeft
  name_known : p.name.elim (fun _ => True) (WireName.Known table)
  typed : p.flags &&& elmFlagType ≠ 0 ↔ p.mimeType.isSome
  mimeType_known : ∀ m ∈ p.mimeType, m.Known table

def part (table : List CString) (p : WirePart) : Part :=
  ⟨p.ns.string table, p.name.elim WireString.string (WireName.string table),
    p.mimeType.map (WireName.string table), p.value.data⟩

end WirePart

/-- An element of version 2: the chain of its signatures, and the flags of a signature that is cut
    off after them. -/
structure WireElement2 where
  head : WirePart
  sigs : List WirePart
  cut : Option Byte

namespace WireElement2

/-- A chain that the signature flags tie together, up to a cut. -/
def Signed (table : List CString) (cut : Option Byte) : WirePart → List WirePart → Prop
  | p, [] => p.Framed table ∧ (p.flags &&& elmFlagSignature ≠ 0 ↔ cut.isSome) ∧
      ∀ flags ∈ cut, flags &&& elmFlagUnsupported ≠ 0
  | p, sig :: sigs => p.Framed table ∧ p.flags &&& elmFlagSignature ≠ 0 ∧ Signed table cut sig sigs

def cutBytes (cut : Option Byte) : List Byte := cut.elim [] fun flags => elmMagicSig ++ [flags]

def bytes (e : WireElement2) : List Byte :=
  (e.head :: e.sigs).flatMap WirePart.bytes ++ cutBytes e.cut

end WireElement2

inductive WireElement where
  | v1 (e : WireElement1)
  | v2 (e : WireElement2)

namespace WireElement

def bytes : WireElement → List Byte
  | v1 e => e.bytes
  | v2 e => e.bytes

def Faithful : WireElement → Prop
  | v1 e => e.Faithful
  | v2 e => ∀ p ∈ e.head :: e.sigs, p.Faithful

/-- An element as the reader takes it. -/
def Framed (version : Byte) (table : List CString) : WireElement → Prop
  | v1 e => version = 0 ∧ e.Framed ∧ e.ns.toNat < table.length
  | v2 e => version ≠ 0 ∧ WireElement2.Signed table e.cut e.head e.sigs

/-- No signature is cut off. -/
def Complete : WireElement → Prop
  | v1 _ => True
  | v2 e => e.cut = none

/-- What is read from the element. -/
def element (table : List CString) : WireElement → MessageElement
  | v1 e => ⟨e.part table, []⟩
  | v2 e => ⟨e.head.part table, e.sigs.map (WirePart.part table)⟩

end WireElement

/-! ## messages -/

inductive WireVersion where
  | v1
  | v2
  deriving DecidableEq

namespace WireVersion

def byte : WireVersion → Byte
  | v1 => 0
  | v2 => 1

/-- The version, and the flags of a version 2 message. -/
def bytes : WireVersion → List Byte
  | v1 => [0]
  | v2 => [1, 0]

end WireVersion

structure WireHeader where
  version : WireVersion
  namesCount : CountField 2
  names : List WireString
  elementCount : CountField 2

namespace WireHeader

/-- The bytes up to the names count. -/
def opening (version : WireVersion) (namesCount : CountField 2) : List Byte :=
  msgMagicSig ++ (version.bytes ++ namesCount.bytes)

def bytes (h : WireHeader) : List Byte :=
  opening h.version h.namesCount ++ (h.names.flatMap Counted.bytes ++ h.elementCount.bytes)

structure Faithful (h : WireHeader) : Prop where
  count : h.namesCount.val = h.names.length
  names : ∀ s ∈ h.names, s.Faithful

def table (h : WireHeader) : List CString :=
  messageEmptyNs :: messageJxtaNs :: h.names.map WireString.string

def header (h : WireHeader) : Header := ⟨h.version.byte, h.table, h.elementCount.val⟩

end WireHeader

structure WireMessage where
  header : WireHeader
  elements : List WireElement

namespace WireMessage

def bytes (w : WireMessage) : List Byte := w.header.bytes ++ w.elements.flatMap WireElement.bytes

/-- Each count and length field holds the number of items behind it. -/
structure Faithful (w : WireMessage) : Prop where
  header : w.header.Faithful
  count : w.header.elementCount.val = w.elements.length
  elements : ∀ e ∈ w.elements, e.Faithful

/-- What the elements are read as. -/
def contents (w : WireMessage) : List MessageElement :=
  w.elements.map (WireElement.element w.header.table)

/-- A message as the reader takes it. -/
structure Framed (w : WireMessage) : Prop where
  header : w.header.Faithful
  count : w.header.elementCount.val = w.elements.length
  elements : ∀ e ∈ w.elements, e.Framed w.header.version.byte w.header.table

/-- A complete message. -/
structure WellFormed (w : WireMessage) : Prop extends Framed w where
  complete : ∀ e ∈ w.elements, e.Complete

end WireMessage

end JxtaC.Message
