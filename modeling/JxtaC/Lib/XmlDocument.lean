import JxtaC.Lib.Decimal
import Mathlib.Data.List.Chain

/-
  XML documents with attributes and references, and the calls that a parser makes for them.
  A parser may hand on the characters of a document in any chunks; `flat` takes the chunks apart, so
  that two lists of calls with the same `flat` differ in their chunks only. `Conforms` says what every
  parser does with a well-formed document.
  Nothing here depends on the modelled code.
-/

namespace JxtaC.Lib.XmlDocument

/-! ## characters -/

/-- A byte of a text as it stands in a document: itself, or a reference. -/
inductive Piece where
  | byte (b : UInt8)
  | lt
  | gt
  | amp
  deriving Repr, DecidableEq

namespace Piece

/-- What stands in the document. -/
def source : Piece → List UInt8
  | byte b => [b]
  | lt => [38, 108, 116, 59]
  | gt => [38, 103, 116, 59]
  | amp => [38, 97, 109, 112, 59]

/-- The byte that it means. -/
def value : Piece → UInt8
  | byte b => b
  | lt => 60
  | gt => 62
  | amp => 38

end Piece

/-- The source of a text. -/
def sourceOf (ps : List Piece) : List UInt8 := ps.flatMap Piece.source

/-- The text that is meant. -/
def valueOf (ps : List Piece) : List UInt8 := ps.map Piece.value

@[simp] theorem sourceOf_nil : sourceOf [] = [] := rfl

@[simp] theorem valueOf_nil : valueOf [] = [] := rfl

@[simp] theorem sourceOf_append (ps qs : List Piece) :
    sourceOf (ps ++ qs) = sourceOf ps ++ sourceOf qs := List.flatMap_append

@[simp] theorem valueOf_append (ps qs : List Piece) :
    valueOf (ps ++ qs) = valueOf ps ++ valueOf qs := List.map_append

/-- A text whose bytes stand for themselves. -/
def raw (s : List UInt8) : List Piece := s.map .byte

@[simp] theorem sourceOf_raw (s : List UInt8) : sourceOf (raw s) = s := by
  induction s with
  | nil => rfl
  | cons b s ih => exact congrArg (b :: ·) ih

@[simp] theorem valueOf_raw (s : List UInt8) : valueOf (raw s) = s := by
  induction s with
  | nil => rfl
  | cons b s ih => exact congrArg (b :: ·) ih

/-- A text in which the markup characters are references. -/
def encoded (s : List UInt8) : List Piece :=
  s.map fun b => if b = 60 then .lt else if b = 62 then .gt else if b = 38 then .amp else .byte b

@[simp] theorem valueOf_encoded (s : List UInt8) : valueOf (encoded s) = s := by
  induction s with
  | nil => rfl
  | cons b s ih =>
    have hb : Piece.value (if b = 60 then .lt else if b = 62 then .gt else if b = 38 then .amp
        else .byte b) = b := by
      split_ifs with hlt hgt hamp
      · exact hlt.symm
      · exact hgt.symm
      · exact hamp.symm
      · rfl
    exact congrArg₂ List.cons hb ih

/-- A character that a document can hold. -/
def IsChar (c : Char) : Prop :=
  (c = '\t' ∨ c = '\n' ∨ c = '\r' ∨ 32 ≤ c.toNat) ∧ c.toNat ≠ 0xfffe ∧ c.toNat ≠ 0xffff

instance (c : Char) : Decidable (IsChar c) := inferInstanceAs (Decidable (_ ∧ _))

/-- A text that a document can hold: characters in UTF-8. -/
def Representable (s : List UInt8) : Prop :=
  ∃ cs : List Char, s = cs.flatMap String.utf8EncodeChar ∧ ∀ c ∈ cs, IsChar c

/-- A byte that ends the text or begins a reference, or that a parser replaces. -/
def isTextMarkup (b : UInt8) : Bool := b = 60 ∨ b = 38 ∨ b = 13

/-- In the value of an attribute white space is replaced too. -/
def isValueMarkup (b : UInt8) : Bool := b = 60 ∨ b = 38 ∨ b = 34 ∨ b = 9 ∨ b = 10 ∨ b = 13

/-- Pieces without bytes of a kind. -/
def Free (markup : UInt8 → Bool) (ps : List Piece) : Prop :=
  ∀ b, Piece.byte b ∈ ps → markup b = false

/-- The characters between tags. -/
def IsText (ps : List Piece) : Prop :=
  Representable (valueOf ps) ∧ Free isTextMarkup ps ∧ ¬ [93, 93, 62] <:+: sourceOf ps

/-- The characters of the value of an attribute. -/
def IsValue (ps : List Piece) : Prop := Representable (valueOf ps) ∧ Free isValueMarkup ps

/-- White space as it stands between tags and in them. -/
def IsBlank (s : List UInt8) : Prop := ∀ b ∈ s, b = 32 ∨ b = 10

instance (s : List UInt8) : Decidable (IsBlank s) := inferInstanceAs (Decidable (∀ b ∈ s, _))

/-- A byte at the front of a name. -/
def isNameStart (b : UInt8) : Bool := 65 ≤ b ∧ b ≤ 90 ∨ 97 ≤ b ∧ b ≤ 122 ∨ b = 95

/-- A byte of a name. -/
def isNameByte (b : UInt8) : Bool := isNameStart b ∨ 48 ≤ b ∧ b ≤ 58 ∨ b = 45 ∨ b = 46

def IsName (name : List UInt8) : Prop :=
  (∃ b ∈ name.head?, isNameStart b = true) ∧ ∀ b ∈ name, isNameByte b = true

instance (name : List UInt8) : Decidable (IsName name) := by
  unfold IsName
  infer_instance

/-! ## documents -/

/-- An attribute, with the white space in front of it. -/
structure Attribute where
  space : List UInt8
  name : List UInt8
  value : List Piece
  deriving Repr, DecidableEq

def Attribute.source (a : Attribute) : List UInt8 :=
  a.space ++ (a.name ++ 61 :: 34 :: (sourceOf a.value ++ [34]))

/-- The attributes as a parser hands them on. -/
def attsOf (atts : List Attribute) : List (List UInt8 × List UInt8) :=
  atts.map fun a => (a.name, valueOf a.value)

def Attribute.WellFormed (a : Attribute) : Prop :=
  a.space ≠ [] ∧ IsBlank a.space ∧ IsName a.name ∧ IsValue a.value

def AttsWellFormed (atts : List Attribute) : Prop :=
  (∀ a ∈ atts, a.WellFormed) ∧ (atts.map Attribute.name).Nodup

/-- The content of a document: characters, elements, and elements written as one tag. The white
space stands in front of the end of the tag. -/
inductive Node where
  | chars (ps : List Piece)
  | element (name : List UInt8) (atts : List Attribute) (space : List UInt8) (children : List Node)
  | empty (name : List UInt8) (atts : List Attribute) (space : List UInt8)

/-- What stands between the brackets of a start tag. -/
def tagSource (name : List UInt8) (atts : List Attribute) (space : List UInt8) : List UInt8 :=
  name ++ (atts.flatMap Attribute.source ++ space)

def startSource (name : List UInt8) (atts : List Attribute) (space : List UInt8) : List UInt8 :=
  60 :: (tagSource name atts space ++ [62])

def emptySource (name : List UInt8) (atts : List Attribute) (space : List UInt8) : List UInt8 :=
  60 :: (tagSource name atts space ++ [47, 62])

def endSource (name : List UInt8) : List UInt8 := 60 :: 47 :: (name ++ [62])

mutual
def Node.source : Node → List UInt8
  | .chars ps => sourceOf ps
  | .element name atts space children =>
    startSource name atts space ++ (Node.sources children ++ endSource name)
  | .empty name atts space => emptySource name atts space

def Node.sources : List Node → List UInt8
  | [] => []
  | node :: nodes => node.source ++ Node.sources nodes
end

def Node.isChars : Node → Bool
  | .chars _ => true
  | _ => false

/-- Characters stand in one piece between two tags. -/
def Separate (nodes : List Node) : Prop :=
  nodes.IsChain fun a b => ¬ (a.isChars = true ∧ b.isChars = true)

mutual
def Node.WellFormed : Node → Prop
  | .chars ps => IsText ps
  | .element name atts space children =>
    IsName name ∧ AttsWellFormed atts ∧ IsBlank space ∧ Separate children ∧
      Node.AllWellFormed children
  | .empty name atts space => IsName name ∧ AttsWellFormed atts ∧ IsBlank space

def Node.AllWellFormed : List Node → Prop
  | [] => True
  | node :: nodes => node.WellFormed ∧ Node.AllWellFormed nodes
end

/-- A document: an XML declaration, a document type, a root element, and white space. -/
structure Document where
  spaces : List UInt8 × List UInt8 × List UInt8
  name : List UInt8
  atts : List Attribute
  children : List Node

def Document.root (doc : Document) : Node := .element doc.name doc.atts [] doc.children

/-- `<?xml version="1.0"?>`. -/
def xmlDeclaration : List UInt8 :=
  [60, 63, 120, 109, 108, 32, 118, 101, 114, 115, 105, 111, 110, 61, 34, 49, 46, 48, 34, 63, 62]

/-- `<!DOCTYPE `. -/
def doctypeStart : List UInt8 := [60, 33, 68, 79, 67, 84, 89, 80, 69, 32]

def Document.source (doc : Document) : List UInt8 :=
  xmlDeclaration ++ doc.spaces.1 ++ doctypeStart ++ doc.name ++ [62] ++ doc.spaces.2.1 ++
    doc.root.source ++ doc.spaces.2.2

def Document.WellFormed (doc : Document) : Prop :=
  IsBlank doc.spaces.1 ∧ IsBlank doc.spaces.2.1 ∧ IsBlank doc.spaces.2.2 ∧ doc.root.WellFormed

/-! ## calls -/

/-- A call of a parser. `markup` is the tag as it stands in the document. -/
inductive Call where
  | start (name : List UInt8) (atts : List (List UInt8 × List UInt8)) (markup : List UInt8)
  | chars (s : List UInt8)
  | finish (name markup : List UInt8)
  deriving Repr, DecidableEq

mutual
/-- The calls for a part of a document, with its characters in one chunk. -/
def Node.calls : Node → List Call
  | .chars ps => [.chars (valueOf ps)]
  | .element name atts space children =>
    .start name (attsOf atts) (startSource name atts space) ::
      (Node.allCalls children ++ [.finish name (endSource name)])
  | .empty name atts space =>
    [.start name (attsOf atts) (emptySource name atts space), .finish name []]

def Node.allCalls : List Node → List Call
  | [] => []
  | node :: nodes => node.calls ++ Node.allCalls nodes
end

/-- The calls with every byte of the characters in a call of its own. -/
def flat (cs : List Call) : List Call :=
  cs.flatMap fun
    | .chars s => s.map fun b => .chars [b]
    | c => [c]

@[simp] theorem flat_nil : flat [] = [] := rfl

@[simp] theorem flat_append (cs ds : List Call) : flat (cs ++ ds) = flat cs ++ flat ds :=
  List.flatMap_append

@[simp] theorem flat_start (name : List UInt8) (atts : List (List UInt8 × List UInt8))
    (markup : List UInt8) (cs : List Call) :
    flat (.start name atts markup :: cs) = .start name atts markup :: flat cs := rfl

@[simp] theorem flat_finish (name markup : List UInt8) (cs : List Call) :
    flat (.finish name markup :: cs) = .finish name markup :: flat cs := rfl

@[simp] theorem flat_chars (s : List UInt8) (cs : List Call) :
    flat (.chars s :: cs) = s.map (fun b => .chars [b]) ++ flat cs := rfl

/-- A parser: its calls for a text, and whether it accepts it. -/
abbrev Parser := List UInt8 → List Call × Bool

/-- What every parser does with a well-formed document: the calls for its root, with the characters
in any chunks, and around them calls for the text in front of it and behind it. -/
def Conforms (parser : Parser) : Prop :=
  ∀ doc : Document, doc.WellFormed → ∃ front back : List UInt8, ∃ cs : List Call,
    parser doc.source = (cs, true) ∧
      flat cs = flat [.chars front] ++ flat doc.root.calls ++ flat [.chars back]

end JxtaC.Lib.XmlDocument
