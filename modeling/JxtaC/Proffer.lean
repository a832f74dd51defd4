import Mathlib.Data.List.AList
import JxtaC.Lib.XmlRuns
import JxtaC.Message

/-
  Proffer advertisements (jxta_proffer.c): the index entries of an advertisement, and the document
  that queries are matched against. Texts are the bytes up to their NUL. `jxta_hashtable_values_get`
  lists the groups in an order of its own, which printing takes as an argument. The advertisement and
  peer ids, which no document has, and failing allocations are left out.
-/

namespace JxtaC

open Lib.XmlDocument

namespace Proffer

/-- `_elem_attr`. -/
structure ElemAttr where
  element : List Byte
  attr : Option (List Byte)
  value : List Byte
  deriving DecidableEq

/-- `_element_entry`, of which printing reads the element and its attributes. -/
structure ElementEntry where
  element : ElemAttr
  attributes : Option (List ElemAttr)
  deriving DecidableEq

/-- `_jxta_ProfferAdvertisement`. -/
structure ProfferAdvertisement where
  nameSpace : CString
  elemHash : Option (AList fun _ : List Byte => List ElemAttr)
  elemVector : Option (List ElementEntry)

/-- `jxta_ProfferAdvertisement_new_1`. -/
def ProfferAdvertisement.new (ns : CString) : ProfferAdvertisement := ⟨ns, none, none⟩

/-- The loop of `prof_get_element_attribute`: a blank ends what is being read, and what follows it, if
anything does, is read as the attribute. -/
def scanName : List Byte → List Byte → Option (List Byte) → List Byte × Option (List Byte)
  | [], element, attr => (element, attr)
  | [32], element, attr => (element, attr)
  | 32 :: b :: s, element, _ => scanName (b :: s) element (some [])
  | b :: s, element, none => scanName s (element ++ [b]) none
  | b :: s, element, some attr => scanName s element (some (attr ++ [b]))

/-- `prof_get_element_attribute`, with a value. -/
def getElementAttribute (elementAttribute value : List Byte) : ElemAttr :=
  ⟨(scanName elementAttribute [] none).1, (scanName elementAttribute [] none).2, value⟩

/-- `prof_add_to_elemHash`. -/
def addToElemHash (prof : ProfferAdvertisement) (el : ElemAttr) : ProfferAdvertisement :=
  let elemHash := prof.elemHash.getD ∅
  { prof with elemHash := some (elemHash.insert el.element (el :: (elemHash.lookup el.element).getD [])) }

/-- `jxta_proffer_adv_add_item`. -/
def addItem (prof : ProfferAdvertisement) (name value : CString) : ProfferAdvertisement :=
  addToElemHash prof (getElementAttribute name.bytes value.bytes)

/-- A value as it is printed, without its mark. -/
def unmarked (value : List Byte) : List Byte :=
  match value with
  | 35 :: s => s
  | s => s

/-- What printing collects of a group. -/
structure Printed where
  element : Option (List Byte)
  elemValue : Option (List Byte)
  attrString : Option (List Byte)

/-- The loop over a group. -/
def Printed.step (p : Printed) (elemAttr : ElemAttr) : Printed :=
  match elemAttr.attr with
  | none =>
    { p with element := some elemAttr.element, elemValue := some (unmarked elemAttr.value) }
  | some attr =>
    { p with
      element := some elemAttr.element
      attrString := some (p.attrString.getD [] ++
        (attr ++ 61 :: 34 :: (unmarked elemAttr.value ++ [34, 32]))) }

/-- What is printed of a group. -/
def Printed.out (p : Printed) : List Byte :=
  (match p.element with
    | some element => 60 :: element
    | none => []) ++
  (match p.attrString with
    | some attrString => 32 :: attrString
    | none => []) ++
  match p.element with
  | some element => 62 :: (p.elemValue.getD [] ++ 60 :: 47 :: (element ++ [62, 10]))
  | none => []

/-- A group of the hash table. -/
def printGroup (elemv : List ElemAttr) : List Byte :=
  (elemv.foldl Printed.step ⟨none, none, none⟩).out

/-- An element of a parsed advertisement. -/
def printEntry (entry : ElementEntry) : List Byte :=
  ((entry.attributes.getD []).foldl Printed.step
    ⟨some entry.element.element, some (unmarked entry.element.value), none⟩).out

/-- ` xmlns:`. -/
def xmlnsText : List Byte := [32, 120, 109, 108, 110, 115, 58]

/-- `="http://jxta.org"`. -/
def jxtaText : List Byte :=
  [61, 34, 104, 116, 116, 112, 58, 47, 47, 106, 120, 116, 97, 46, 111, 114, 103, 34]

/-- `range`. -/
def rangeText : List Byte := [114, 97, 110, 103, 101]

/-- The namespace up to its colon. -/
def prefixOf (ns : List Byte) : List Byte := ns.takeWhile (· ≠ 58)

/-- `jxta_proffer_adv_print`, with the groups as the hash table lists them. -/
def print (prof : ProfferAdvertisement) (elements : List (List ElemAttr)) : List Byte :=
  let ns := prof.nameSpace.bytes
  let start := 60 :: (ns ++ xmlnsText ++ prefixOf ns ++ jxtaText ++ xmlnsText ++ rangeText ++ jxtaText ++
    [62, 10])
  match prof.elemHash, prof.elemVector with
  | some _, _ => start ++ elements.flatMap printGroup ++ 60 :: 47 :: (ns ++ [62, 10])
  | none, some entries => start ++ entries.flatMap printEntry ++ 60 :: 47 :: (ns ++ [62, 10])
  | none, none => start ++ 60 :: 47 :: (ns ++ [62])

/-- The groups of the hash table. -/
def ProfferAdvertisement.groups (prof : ProfferAdvertisement) : List (List ElemAttr) :=
  (prof.elemHash.getD ∅).entries.map Sigma.snd

/-! ## what is wanted -/

/-- An index entry: of an element, or of an attribute of one. -/
structure Item where
  element : CString
  attr : Option CString
  value : CString
  element_blankless : 32 ∉ element.bytes
  attr_blankless : ∀ a ∈ attr, a.bytes ≠ [] ∧ 32 ∉ a.bytes

/-- The name under which an item is added. -/
def Item.name (item : Item) : CString :=
  match item.attr with
  | none => item.element
  | some a => ⟨item.element.bytes ++ 32 :: a.bytes, by
      simp [CString.bytes, item.element.property, a.property]⟩

/-- Items are added one after the other. -/
def addItems (ns : CString) (items : List Item) : ProfferAdvertisement :=
  items.foldl (fun prof item => addItem prof item.name item.value) (.new ns)

/-- The value of an item, without its mark. -/
def Item.text (item : Item) : List Byte := unmarked item.value.bytes

/-- The item occurs as an element, or as an attribute of one. -/
def Item.ShownBy (item : Item) (node : Node) : Prop :=
  ∃ atts ps, node.leaf = some (item.element.bytes, atts, ps) ∧
    match item.attr with
    | none => valueOf ps = item.text
    | some a => ∃ att ∈ atts, att.name = a.bytes ∧ valueOf att.value = item.text

/-- White space, or an element whose text and attributes are items; it has no text if it is only there
for its attributes. -/
def Known (items : List Item) (node : Node) : Prop :=
  (∃ ps, node = .chars ps ∧ IsBlank (valueOf ps)) ∨
  ∃ name atts ps, node.leaf = some (name, atts, ps) ∧
    (∀ att ∈ atts, ∃ item ∈ items, item.element.bytes = name ∧
      item.attr.map CString.bytes = some att.name ∧ item.text = valueOf att.value) ∧
    ((∃ item ∈ items, item.element.bytes = name ∧ item.attr = none ∧ item.text = valueOf ps) ∨
      valueOf ps = [] ∧ atts ≠ [])

/-- A document with the items, and nothing else, in an element with the name of the namespace. -/
def Faithful (ns : CString) (items : List Item) (doc : List Byte) : Prop :=
  ∃ atts space children tail,
    doc = (Node.element ns.bytes atts space children).source ++ tail ∧ IsBlank tail ∧
    (Node.element ns.bytes atts space children).WellFormed ∧
    (∀ item ∈ items, ∃ node ∈ children, item.ShownBy node) ∧ ∀ node ∈ children, Known items node

/-- The namespace and the names are names, with a prefix that is not `range`; the values are texts
that stand for themselves; no element has two values, and none has an attribute twice. -/
structure Plain (ns : CString) (items : List Item) : Prop where
  nameSpace : IsName ns.bytes
  unranged : prefixOf ns.bytes ≠ rangeText
  element : ∀ item ∈ items, IsName item.element.bytes
  attr : ∀ item ∈ items, ∀ a ∈ item.attr, IsName a.bytes ∧ IsValue (raw item.text)
  text : ∀ item ∈ items, item.attr = none → IsText (raw item.text)
  single : ∀ item ∈ items, ∀ item' ∈ items, item.element = item'.element → item.attr = none →
    item'.attr = none → item.text = item'.text
  distinct : ∀ element, ((items.filter fun item => item.element = element).filterMap
    Item.attr).Nodup

end Proffer

end JxtaC
