import JxtaC.Base.Status

/-
  How an advertisement is read from XML (jxta_advertisement.c).
  The XML parser is a parameter: the calls it makes for a document, and whether it accepts it. The
  dispatch table of the advertisement says which handler gets the text of an element. Attributes
  and the handlers that are registered globally are left out. `parse_flat`: of a document whose
  elements lie in one level below the root, every handler gets the text of its element.
-/

namespace JxtaC

open List

/-- A call of the XML parser. `markup` is what `XML_DefaultCurrent` repeats. -/
inductive XmlEvent where
  | startElement (ename markup : List Byte)
  | charData (cd : List Byte)
  | endElement (ename markup : List Byte)
  deriving Repr, DecidableEq

/-- `XML_Parse`: its calls, and whether it ends with `XML_STATUS_OK`. -/
abbrev XmlParser := List Byte → List XmlEvent × Bool

/-- `MAX_ADV_DEPTH`. -/
def maxAdvDepth : Nat := 32

/-- `Kwdtab`: the handler of an element. -/
structure Kwdtab (Ad : Type) where
  kwd : List Byte
  nodeparse : Ad → List Byte → Ad

/-- `Jxta_advertisement`, while it is read. -/
structure Advertisement (Ad : Type) where
  ad : Ad
  handlerStk : List (Option (Kwdtab Ad))
  currHandler : Option (Kwdtab Ad)
  accum : List Byte

namespace Advertisement

variable {Ad : Type} (dispatchTable : List (Kwdtab Ad))

/-- `advertisement_start_element`: the handler is called once with an empty string. -/
def startElement (s : Advertisement Ad) (ename markup : List Byte) : Advertisement Ad :=
  let handlerStk := s.currHandler :: s.handlerStk
  if maxAdvDepth ≤ s.handlerStk.length then { s with handlerStk }
  else
    match dispatchTable.find? fun k => k.kwd = ename with
    | some k => { ad := k.nodeparse s.ad [], handlerStk, currHandler := some k, accum := [] }
    | none => { s with handlerStk, currHandler := none, accum := s.accum ++ markup }

/-- `advertisement_end_element`: an element without text has a blank. -/
def endElement (s : Advertisement Ad) (markup : List Byte) : Advertisement Ad :=
  match s.handlerStk with
  | [] => s
  | handler :: handlerStk =>
    if maxAdvDepth ≤ handlerStk.length then { s with handlerStk }
    else
      match s.currHandler with
      | some k =>
        let accum := if s.accum = [] then [32] else s.accum
        { ad := k.nodeparse s.ad accum, handlerStk, currHandler := handler, accum := [] }
      | none => { s with handlerStk, currHandler := handler, accum := s.accum ++ markup }

def onEvent (s : Advertisement Ad) : XmlEvent → Advertisement Ad
  | .startElement ename markup => startElement dispatchTable s ename markup
  | .charData cd => { s with accum := s.accum ++ cd }
  | .endElement _ markup => endElement s markup

/-- `jxta_advertisement_set_handlers`. -/
def setHandlers (ad : Ad) : Advertisement Ad :=
  { ad, handlerStk := [], currHandler := none, accum := [] }

/-- `jxta_advertisement_parse_charbuffer`. -/
def parseCharbuffer (xmlParse : XmlParser) (ad : Ad) (buf : List Byte) : Ad × Status :=
  if buf = [] then (ad, .invalidArgument)
  else
    let s := (xmlParse buf).1.foldl (onEvent dispatchTable) (setHandlers ad)
    (s.ad, if (xmlParse buf).2 then .success else .invalidArgument)

end Advertisement

/-! ## flat documents -/

/-- The markup of a start and of an end tag. -/
def startTag (name : List Byte) : List Byte := text "<" ++ name ++ text ">"

def endTag (name : List Byte) : List Byte := text "</" ++ name ++ text ">"

/-- A line with one element. -/
def elementLine (field : List Byte × List Byte) : List Byte :=
  startTag field.1 ++ field.2 ++ endTag field.1 ++ text "\n"

/-- The calls for the lines of a document. -/
def elementEvents (field : List Byte × List Byte) : List XmlEvent :=
  [.startElement field.1 (startTag field.1), .charData field.2,
    .endElement field.1 (endTag field.1), .charData (text "\n")]

/-- A byte that stands for itself in the text of a document. -/
def plainByte (b : Byte) : Bool := 33 ≤ b.toNat ∧ b.toNat ≤ 126 ∧ b ∉ text "<>&"

/-- A text that needs no escapes. -/
def Plain (s : List Byte) : Prop := ∀ b ∈ s, plainByte b = true

instance (s : List Byte) : Decidable (Plain s) :=
  decidable_of_iff (s.all plainByte = true) all_eq_true

/-- A byte of the name of an element, as the documents here have them: a letter or a colon. -/
def nameByte (b : Byte) : Bool :=
  65 ≤ b.toNat ∧ b.toNat ≤ 90 ∨ 97 ≤ b.toNat ∧ b.toNat ≤ 122 ∨ b = 58

def XmlName (s : List Byte) : Prop := s ≠ [] ∧ ∀ b ∈ s, nameByte b = true

instance (s : List Byte) : Decidable (XmlName s) :=
  decidable_of_iff (s ≠ [] ∧ s.all nameByte = true) (and_congr_right fun _ => all_eq_true)

/-- The calls for a document with these fields: before the root element there is only text. -/
def FlatEvents (root : List Byte) (fields : List (List Byte × List Byte))
    (events : List XmlEvent) : Prop :=
  ∃ prolog : List (List Byte), events = prolog.map .charData ++
    .startElement root (startTag root) :: .charData (text "\n") :: fields.flatMap elementEvents ++
      [.endElement root (endTag root)]

/-- A document with these elements below its root. -/
def flatDocument (root : List Byte) (fields : List (List Byte × List Byte)) : List Byte :=
  text "<?xml version=\"1.0\"?>\n" ++ text "<!DOCTYPE " ++ root ++ text ">" ++ startTag root ++
    text "\n" ++ fields.flatMap elementLine ++ endTag root ++ text "\n"

/-- What every XML parser does with a document of plain elements in one level. -/
def ReadsFlat (xmlParse : XmlParser) : Prop :=
  ∀ (root : List Byte) (fields : List (List Byte × List Byte)), XmlName root →
    (∀ f ∈ fields, XmlName f.1 ∧ Plain f.2) →
      ∃ events, FlatEvents root fields events ∧ xmlParse (flatDocument root fields) = (events, true)

namespace Advertisement

variable {Ad : Type} {dispatchTable : List (Kwdtab Ad)}

theorem foldl_prolog (prolog : List (List Byte)) (s : Advertisement Ad) :
    (prolog.map XmlEvent.charData).foldl (onEvent dispatchTable) s =
      { s with accum := s.accum ++ prolog.flatten } := by
  induction prolog generalizing s with
  | nil => simp
  | cons cd prolog ih =>
    rw [map_cons, foldl_cons, ih]
    simp [onEvent]

/-- What one field does to the advertisement. -/
def onField (dispatchTable : List (Kwdtab Ad)) (ad : Ad) (field : List Byte × List Byte) : Ad :=
  match dispatchTable.find? fun k => k.kwd = field.1 with
  | some k => k.nodeparse (k.nodeparse ad []) (if field.2 = [] then [32] else field.2)
  | none => ad

/-- Below the root an element only runs its handler. -/
theorem foldl_element (s : Advertisement Ad) (field : List Byte × List Byte)
    (hdepth : s.handlerStk.length < maxAdvDepth)
    (hin : (dispatchTable.find? fun k => k.kwd = field.1).isSome) :
    (elementEvents field).foldl (onEvent dispatchTable) s =
      { s with ad := onField dispatchTable s.ad field, accum := text "\n" } := by
  obtain ⟨k, hk⟩ := Option.isSome_iff_exists.mp hin
  simp only [elementEvents, foldl_cons, foldl_nil, onEvent, startElement, onField, hk,
    if_neg (Nat.not_le.mpr hdepth), endElement, nil_append]

theorem foldl_elements (fields : List (List Byte × List Byte)) (s : Advertisement Ad)
    (hdepth : s.handlerStk.length < maxAdvDepth)
    (hin : ∀ f ∈ fields, (dispatchTable.find? fun k => k.kwd = f.1).isSome)
    (haccum : s.accum = text "\n") :
    (fields.flatMap elementEvents).foldl (onEvent dispatchTable) s =
      { s with ad := fields.foldl (onField dispatchTable) s.ad } := by
  induction fields generalizing s with
  | nil => rfl
  | cons field fields ih =>
    have hrest : ∀ f ∈ fields, (dispatchTable.find? fun k => k.kwd = f.1).isSome :=
      fun f hf => hin f (mem_cons_of_mem _ hf)
    rw [flatMap_cons, foldl_append,
      foldl_element s field hdepth (hin field mem_cons_self)]
    rw [ih { s with ad := onField dispatchTable s.ad field, accum := text "\n" } hdepth hrest rfl,
      foldl_cons, haccum]

/-- Of a flat document every field reaches its handler, and the root its own. -/
theorem parse_flat {root : List Byte} {fields : List (List Byte × List Byte)}
    {events : List XmlEvent} (hevents : FlatEvents root fields events) {k : Kwdtab Ad}
    (hroot : (dispatchTable.find? fun k => k.kwd = root) = some k)
    (hin : ∀ f ∈ fields, (dispatchTable.find? fun k => k.kwd = f.1).isSome) (ad : Ad) :
    (events.foldl (onEvent dispatchTable) (setHandlers ad)).ad =
      k.nodeparse (fields.foldl (onField dispatchTable) (k.nodeparse ad [])) (text "\n") := by
  obtain ⟨prolog, rfl⟩ := hevents
  have hstart : ∀ s : Advertisement Ad, s.handlerStk = [] → s.currHandler = none →
      onEvent dispatchTable (onEvent dispatchTable s (.startElement root (startTag root)))
        (.charData (text "\n")) = ⟨k.nodeparse s.ad [], [none], some k, text "\n"⟩ := by
    intro s hstk hcurr
    simp [onEvent, startElement, hroot, hstk, hcurr, maxAdvDepth]
  have hdepth : (⟨k.nodeparse ad [], [none], some k, text "\n"⟩ : Advertisement Ad).handlerStk.length
      < maxAdvDepth := show 1 < 32 by decide
  rw [append_assoc, foldl_append, foldl_prolog, cons_append, cons_append,
    foldl_cons, foldl_cons, hstart _ rfl rfl, foldl_append]
  dsimp only [setHandlers]
  rw [foldl_elements _ _ hdepth hin rfl]
  simp [onEvent, endElement, maxAdvDepth, text]

end Advertisement

end JxtaC
