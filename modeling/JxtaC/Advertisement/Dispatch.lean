import JxtaC.Advertisement
import JxtaC.Lib.Exec
import JxtaC.Lib.XmlDocument

/-
  How the parser of a document is shared by the advertisements in it (jxta_advertisement.c): the
  handlers for the start and the end of an element and for characters, with attributes, the
  handlers that are registered globally, and advertisements inside advertisements.
  What a parse function does to its advertisement is left to the reader of the calls; here it either
  keeps the parser, or hands it at the start of its element to a new advertisement. An
  advertisement is known by its number: they are numbered as they are made.
-/

namespace JxtaC.Dispatch

open Lib Lib.XmlDocument List

/-- Names and values of attributes. -/
abbrev Atts := List (List Byte × List Byte)

/-- `nodeparse`: there is none, or it keeps the parser, or it hands it on. -/
inductive NodeParse (Kind : Type) where
  | null
  | keep
  | switch (inner : Kind)
  deriving DecidableEq

structure Kwdtab (Kind : Type) where
  kwd : List Byte
  nodeparse : NodeParse Kind
  deriving DecidableEq

/-- The kinds of advertisements. A dispatch table begins with the entry `Null` and that of the
document itself; the base class has no table. Parse functions hand the parser on to a kind of a lower
rank, and those that get it have tables. -/
structure Dialect (Kind : Type) where
  documentName : Kind → List Byte
  elements : Kind → Option (List (Kwdtab Kind))
  globalHandler : List Byte → Option Kind
  rank : Kind → Nat
  rank_lt : ∀ {kind tags k inner}, elements kind = some tags → k ∈ tags →
    k.nodeparse = .switch inner → rank inner < rank kind
  switch_table : ∀ {kind tags k inner}, elements kind = some tags → k ∈ tags →
    k.nodeparse = .switch inner → (elements inner).isSome
  global_table : ∀ {name kind}, globalHandler name = some kind → (elements kind).isSome

/-- A call of a parse function: of which advertisement and for which entry, with which text, the
attributes that it sees, and the advertisement that it hands the parser to. -/
structure ParseCall where
  owner : Nat
  kwd : List Byte
  cd : List Byte
  atts : Atts
  inner : Option Nat
  deriving Repr, DecidableEq

/-- `Jxta_advertisement`, while it is read. -/
structure Frame (Kind : Type) where
  kind : Kind
  number : Nat
  handlerStk : Fin maxAdvDepth → Option (Kwdtab Kind)
  depth : Nat
  currHandler : Option (Kwdtab Kind)
  atts : Atts
  accum : List Byte

/-- The user data of the parser with its parents, the kinds of the advertisements made so far, and
the calls of parse functions. -/
structure State (Kind : Type) where
  frames : List (Frame Kind)
  made : List Kind
  calls : List ParseCall

/-- The `type` attribute. -/
def typeAttr (atts : Atts) : Option (List Byte) :=
  (atts.find? fun a => a.1 = text "type").map Prod.snd

/-- The entry of a dispatch table with this name. -/
def entry {Kind : Type} (tags : List (Kwdtab Kind)) (name : List Byte) : Option (Kwdtab Kind) :=
  tags.find? fun k => k.kwd = name

/-- The entry for an element: by its type, or else by its name. -/
def lookup {Kind : Type} (tags : List (Kwdtab Kind)) (atts : Atts) (ename : List Byte) :
    Option (Kwdtab Kind) := ((typeAttr atts).bind (entry tags)).or (entry tags ename)

/-- The calls of the handlers of attributes. -/
def attributeCalls {Kind : Type} (number : Nat) (tags : List (Kwdtab Kind)) (ename : List Byte)
    (atts : Atts) : List ParseCall :=
  atts.filterMap fun a => (entry tags (ename ++ text " " ++ a.1)).bind fun k =>
    match k.nodeparse with
    | .null => none
    | _ => some ⟨number, k.kwd, a.2, atts, none⟩

/-- The text for the end of an element: there is at least one character. -/
def endText (accum : List Byte) : List Byte := if accum = [] then text " " else accum

/-- `jxta_advertisement_set_handlers` up to the start of the document. -/
def setHandlers {Kind : Type} (kind : Kind) (number : Nat) : Frame Kind :=
  { kind, number, handlerStk := fun _ => none, depth := 0, currHandler := none, atts := [],
    accum := [] }

variable {Kind : Type}

namespace Dialect
variable (d : Dialect Kind)
variable {atts : Atts} {ename : List Byte} {k : Kwdtab Kind} {kind inner : Kind}

def dispatchTable (kind : Kind) : Option (List (Kwdtab Kind)) :=
  (d.elements kind).map fun tags =>
    ⟨text "Null", .null⟩ :: ⟨d.documentName kind, .keep⟩ :: tags

/-- The kind that is registered for the type of an element, or else for its name. -/
def globalKind (atts : Atts) (ename : List Byte) : Option Kind :=
  ((typeAttr atts).bind d.globalHandler).or (d.globalHandler ename)

/-- Where the parser goes at the start of an element. -/
inductive Opening (Kind : Type) where
  | null
  | keep (k : Kwdtab Kind)
  | switch (k : Kwdtab Kind) (inner : Kind)
  | global (inner : Kind)
  | unknown
  | base

/-- Which entry of a dispatch table, or which registered kind, an element goes to. -/
def opening (kind : Kind) (atts : Atts) (ename : List Byte) : Opening Kind :=
  match d.dispatchTable kind with
  | none =>
    match d.globalKind atts ename with
    | some inner => .global inner
    | none => .base
  | some tags =>
    match lookup tags atts ename with
    | some k =>
      match k.nodeparse with
      | .null => .null
      | .keep => .keep k
      | .switch inner => .switch k inner
    | none =>
      match d.globalKind atts ename with
      | some inner => .global inner
      | none => .unknown

/-- The calls for the attributes of an element. -/
def attributes (kind : Kind) (number : Nat) (ename : List Byte) (atts : Atts) : List ParseCall :=
  match d.dispatchTable kind with
  | none => []
  | some tags => attributeCalls number tags ename atts

theorem mem_of_lookup {tags : List (Kwdtab Kind)} (h : lookup tags atts ename = some k) :
    k ∈ tags := by
  unfold lookup at h
  rcases Option.or_eq_some_iff.mp h with h | ⟨-, h⟩
  · obtain ⟨name, -, hname⟩ := Option.bind_eq_some_iff.mp h
    exact mem_of_find?_eq_some hname
  · exact mem_of_find?_eq_some h

/-- What hands the parser on is no entry of the first two. -/
theorem opening_switch (h : d.opening kind atts ename = .switch k inner) :
    ∃ tags, d.elements kind = some tags ∧ k ∈ tags ∧ k.nodeparse = .switch inner := by
  unfold opening at h
  cases htags : d.elements kind with
  | none =>
    rw [dispatchTable, htags] at h
    cases hglobal : d.globalKind atts ename <;> simp [hglobal] at h
  | some tags =>
    rw [dispatchTable, htags] at h
    dsimp only [Option.map_some] at h
    split at h
    next k' hlookup =>
      split at h
      next => cases h
      next => cases h
      next inner' hparse =>
        cases h
        refine ⟨tags, rfl, ?_, hparse⟩
        have hmem := mem_of_lookup hlookup
        rw [mem_cons, mem_cons] at hmem
        rcases hmem with rfl | rfl | hmem
        · cases hparse
        · cases hparse
        · exact hmem
    next => split at h <;> cases h

/-- A document inside another is found in its own table. -/
theorem opening_document (h : (d.elements kind).isSome) (atts : Atts) (inner : Kind) :
    d.opening kind atts (d.documentName kind) ≠ .global inner := by
  obtain ⟨tags, htags⟩ := Option.isSome_iff_exists.mp h
  intro hopen
  unfold opening at hopen
  rw [dispatchTable, htags] at hopen
  dsimp only [Option.map_some] at hopen
  have hentry : (lookup (⟨text "Null", .null⟩ :: ⟨d.documentName kind, .keep⟩ :: tags) atts
      (d.documentName kind)).isSome := by
    unfold lookup
    rw [Option.isSome_or, Bool.or_eq_true]
    refine .inr (find?_isSome.mpr ⟨⟨d.documentName kind, .keep⟩, ?_, by simp⟩)
    exact mem_cons_of_mem _ mem_cons_self
  obtain ⟨k, hk⟩ := Option.isSome_iff_exists.mp hentry
  rw [hk] at hopen
  dsimp only at hopen
  split at hopen <;> exact absurd hopen (by simp)

theorem opening_global (h : d.opening kind atts ename = .global inner) :
    (d.elements inner).isSome := by
  have hkind : d.globalKind atts ename = some inner := by
    unfold opening at h
    split at h
    next =>
      split at h
      next hglobal => rw [hglobal, Opening.global.inj h]
      next => cases h
    next =>
      split at h
      next => split at h <;> cases h
      next =>
        split at h
        next hglobal => rw [hglobal, Opening.global.inj h]
        next => cases h
  rcases Option.or_eq_some_iff.mp hkind with h | ⟨-, h⟩
  · obtain ⟨name, -, hname⟩ := Option.bind_eq_some_iff.mp h
    exact d.global_table hname
  · exact d.global_table h

/-- How far the start of an element can go on: a registered kind is looked for at most once, at the
element itself; behind that the ranks decrease. -/
def startMeasure (kind : Kind) (ename : List Byte) : Nat × Nat :=
  (if ename = d.documentName kind ∧ (d.elements kind).isSome then 0 else 1, d.rank kind)

theorem startMeasure_switch (h : d.opening kind atts ename = .switch k inner) :
    Prod.Lex (· < ·) (· < ·) (d.startMeasure inner (d.documentName inner))
      (d.startMeasure kind ename) := by
  obtain ⟨tags, htags, hmem, hparse⟩ := d.opening_switch h
  have hinner := d.switch_table htags hmem hparse
  unfold startMeasure
  rw [if_pos ⟨rfl, hinner⟩]
  split
  · exact .right _ (d.rank_lt htags hmem hparse)
  · exact .left _ _ Nat.one_pos

theorem startMeasure_global (h : d.opening kind atts ename = .global inner) :
    Prod.Lex (· < ·) (· < ·) (d.startMeasure inner (d.documentName inner))
      (d.startMeasure kind ename) := by
  have hinner := d.opening_global h
  unfold startMeasure
  rw [if_pos ⟨rfl, hinner⟩, if_neg]
  · exact .left _ _ Nat.one_pos
  · intro hname
    obtain ⟨rfl, htable⟩ := hname
    exact d.opening_document htable atts inner h

/-- `advertisement_start_element`. An advertisement that gets the parser starts with its document,
and the attributes of the element. -/
def startElement (f : Frame Kind) (parents : List (Frame Kind)) (made : List Kind)
    (calls : List ParseCall) (ename : List Byte) (atts : Atts) (markup : List Byte) :
    Exec (State Kind) :=
  if h : f.depth < maxAdvDepth then
    let handlerStk := fun i => if i = ⟨f.depth, h⟩ then f.currHandler else f.handlerStk i
    let f := { f with handlerStk, depth := f.depth + 1, atts }
    let calls := calls ++ d.attributes f.kind f.number ename atts
    match hopen : d.opening f.kind atts ename with
    | .null => .error .nullPointer
    | .keep k =>
      .ok { frames := { f with currHandler := some k, accum := [] } :: parents, made
            calls := calls ++ [⟨f.number, k.kwd, [], atts, none⟩] }
    | .switch k inner =>
      startElement (setHandlers inner made.length)
        ({ f with currHandler := some k, accum := [] } :: parents) (made ++ [inner])
        (calls ++ [⟨f.number, k.kwd, [], atts, some made.length⟩]) (d.documentName inner) atts []
    | .global inner =>
      startElement (setHandlers inner made.length) (f :: parents) (made ++ [inner]) calls
        (d.documentName inner) atts []
    | .unknown =>
      .ok { frames := { f with currHandler := none, accum := f.accum ++ markup } :: parents, made
            calls }
    | .base => .ok { frames := f :: parents, made, calls }
  else .ok { frames := { f with depth := f.depth + 1 } :: parents, made, calls }
termination_by d.startMeasure f.kind ename
decreasing_by
  · exact d.startMeasure_switch hopen
  · exact d.startMeasure_global hopen

end Dialect

/-- `advertisement_end_element`: where its document ends, the advertisement around it has to handle
the element too. The depth is unsigned. -/
def endElement (markup : List Byte) : List (Frame Kind) → List ParseCall →
    Exec (List (Frame Kind) × List ParseCall)
  | [], _ => .error .nullPointer
  | f :: parents, calls =>
    let depth := if f.depth = 0 then uintMod - 1 else f.depth - 1
    if h : depth < maxAdvDepth then
      let currHandler := f.handlerStk ⟨depth, h⟩
      match f.currHandler with
      | some k =>
        let calls := calls ++ [⟨f.number, k.kwd, endText f.accum, f.atts, none⟩]
        if depth = 0 then
          if parents = [] then .ok ([], calls) else endElement markup parents calls
        else .ok ({ f with depth, currHandler, accum := [] } :: parents, calls)
      | none =>
        if depth = 0 then
          if parents = [] then .ok ([], calls) else endElement markup parents calls
        else .ok ({ f with depth, currHandler, accum := f.accum ++ markup } :: parents, calls)
    else .ok ({ f with depth } :: parents, calls)

/-- An advertisement of this kind at the start of its document. -/
def initial (kind : Kind) : State Kind := ⟨[setHandlers kind 0], [kind], []⟩

/-- `advertisement_handle_chardata`. -/
def charData (cd : List Byte) : List (Frame Kind) → List (Frame Kind)
  | [] => []
  | f :: parents => { f with accum := f.accum ++ cd } :: parents

namespace Dialect
variable (d : Dialect Kind)

/-- What a call of the parser does. -/
def onCall (s : State Kind) : Call → Exec (State Kind)
  | .start ename atts markup =>
    match s.frames with
    | [] => .error .nullPointer
    | f :: parents => d.startElement f parents s.made s.calls ename atts markup
  | .chars cd => .ok { s with frames := charData cd s.frames }
  | .finish _ markup => do
    let (frames, calls) ← endElement markup s.frames s.calls
    return { s with frames, calls }

/-- The calls of the parser in turn. -/
def run (s : State Kind) (cs : List Call) : Exec (State Kind) := cs.foldlM d.onCall s

/-- `jxta_advertisement_parse_charbuffer`: the advertisements that were made, the calls of parse
functions, and the status. -/
def parseCharbuffer (parser : Parser) (kind : Kind) (buf : List Byte) :
    Exec (List Kind × List ParseCall × Status) :=
  if buf = [] then .ok ([kind], [], .invalidArgument)
  else do
    let s ← d.run (initial kind) (parser buf).1
    return (s.made, s.calls, if (parser buf).2 then .success else .invalidArgument)

end Dialect

end JxtaC.Dispatch
