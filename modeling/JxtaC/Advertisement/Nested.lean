import JxtaC.Advertisement
import JxtaC.Lib.Exec

/-
  Advertisements inside advertisements (jxta_advertisement.c). At the start of an element a handler
  may hand the parser to another advertisement. That one reads its own root element at once
  (`set_handlers`), and gives the parser back when the last of its elements ends. The advertisement
  around it holds it by a pointer; here it adopts it when it is finished, or at the end of the
  document.
-/

namespace JxtaC.Nested

open Lib

variable {Ad : Type}

/-- `Kwdtab`: the handler of an element, and the advertisement that it hands the parser to. -/
structure Kwdtab (Ad : Type) where
  kwd : List Byte
  nodeparse : Ad → List Byte → Exec Ad
  opens : Ad → Option Ad

/-- The advertisements of a document. -/
structure Dialect (Ad : Type) where
  tags : Ad → List (Kwdtab Ad)
  documentName : Ad → List Byte
  adopt : Ad → Ad → Ad

/-- `Jxta_advertisement`, while it is read. -/
structure Frame (Ad : Type) where
  ad : Ad
  handlerStk : List (Option (Kwdtab Ad))
  currHandler : Option (Kwdtab Ad)
  accum : List Byte

/-- The advertisement that has the parser, and those around it. -/
structure Parser (Ad : Type) where
  top : Frame Ad
  parents : List (Frame Ad)

variable (d : Dialect Ad)

/-- `advertisement_start_element`, and the advertisement that gets the parser. -/
def startIn (f : Frame Ad) (ename markup : List Byte) : Exec (Frame Ad × Option Ad) :=
  let handlerStk := f.currHandler :: f.handlerStk
  if maxAdvDepth ≤ f.handlerStk.length then .ok ({ f with handlerStk }, none)
  else
    match (d.tags f.ad).find? fun k => k.kwd = ename with
    | some k => do
      let ad ← k.nodeparse f.ad []
      return ({ ad, handlerStk, currHandler := some k, accum := [] }, k.opens f.ad)
    | none => .ok ({ f with handlerStk, currHandler := none, accum := f.accum ++ markup }, none)

/-- `jxta_advertisement_set_handlers`: an advertisement inside another starts with its root. -/
def setHandlers (ad : Ad) : Frame Ad := { ad, handlerStk := [], currHandler := none, accum := [] }

def startElement (p : Parser Ad) (ename markup : List Byte) : Exec (Parser Ad) := do
  let (f, inner) ← startIn d p.top ename markup
  match inner with
  | none => return { p with top := f }
  | some ad => do
    let (g, _) ← startIn d (setHandlers ad) (d.documentName ad) []
    return { top := g, parents := f :: p.parents }

/-- `advertisement_end_element` up to the end of the advertisement, and whether it is there. -/
def endIn (f : Frame Ad) (markup : List Byte) : Exec (Frame Ad × Bool) :=
  match f.handlerStk with
  | [] => .ok (f, false)
  | handler :: handlerStk =>
    if maxAdvDepth ≤ handlerStk.length then .ok ({ f with handlerStk }, false)
    else
      match f.currHandler with
      | some k => do
        let ad ← k.nodeparse f.ad (if f.accum = [] then [32] else f.accum)
        return ({ ad, handlerStk, currHandler := handler, accum := [] }, handlerStk.isEmpty)
      | none =>
        .ok ({ f with handlerStk, currHandler := handler, accum := f.accum ++ markup },
          handlerStk.isEmpty)

/-- `advertisement_end_element`: the advertisement around this one ends the element too. -/
def endElement (markup : List Byte) (f : Frame Ad) : List (Frame Ad) → Exec (Parser Ad)
  | [] => do
    let (f, _) ← endIn f markup
    return ⟨f, []⟩
  | parent :: parents => do
    let (f, done) ← endIn f markup
    if done then endElement markup { parent with ad := d.adopt parent.ad f.ad } parents
    else return ⟨f, parent :: parents⟩

def onEvent (p : Parser Ad) : XmlEvent → Exec (Parser Ad)
  | .startElement ename markup => startElement d p ename markup
  | .charData cd => .ok { p with top := { p.top with accum := p.top.accum ++ cd } }
  | .endElement _ markup => endElement d markup p.top p.parents

/-- The outermost advertisement, as far as it was read. -/
def Parser.outermost (p : Parser Ad) : Ad :=
  p.parents.foldl (fun ad parent => d.adopt parent.ad ad) p.top.ad

/-- `jxta_advertisement_parse_charbuffer`. -/
def parseCharbuffer (xmlParse : XmlParser) (ad : Ad) (buf : List Byte) : Exec (Ad × Status) :=
  if buf = [] then .ok (ad, .invalidArgument)
  else do
    let p ← (xmlParse buf).1.foldlM (onEvent d) ⟨setHandlers ad, []⟩
    return (p.outermost d, if (xmlParse buf).2 then .success else .invalidArgument)

end JxtaC.Nested
