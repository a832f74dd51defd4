import JxtaC.Advertisement

/-
  A parser for flat documents: markup is what stands between `<` and `>`, text is everything else.
  `flatParse_reads`: it makes the calls that an XML parser makes for such a document.
-/

namespace JxtaC.Advertisement

open List

/-- Between two bytes: the calls so far, and what was read of a tag or a text. -/
structure Scan where
  events : List XmlEvent
  inTag : Bool
  buf : List Byte
  deriving DecidableEq

/-- The call for a tag: declarations are passed on as text. -/
def tagEvent (tag : List Byte) : XmlEvent :=
  match tag with
  | [] => .startElement [] (startTag [])
  | b :: name =>
    if b = 47 then .endElement name (endTag name)
    else if b = 63 ∨ b = 33 then .charData (startTag tag)
    else .startElement tag (startTag tag)

def Scan.step (s : Scan) (b : Byte) : Scan :=
  if s.inTag then
    if b = 62 then ⟨s.events ++ [tagEvent s.buf], false, []⟩ else { s with buf := s.buf ++ [b] }
  else
    if b = 60 then ⟨s.events ++ [.charData s.buf], true, []⟩ else { s with buf := s.buf ++ [b] }

/-- The calls for a document, without the text behind its root. -/
def flatParse : XmlParser := fun doc => ((doc.foldl Scan.step ⟨[], false, []⟩).events, true)

theorem foldl_outside (s : List Byte) (h : 60 ∉ s) (events : List XmlEvent) (buf : List Byte) :
    s.foldl Scan.step ⟨events, false, buf⟩ = ⟨events, false, buf ++ s⟩ := by
  induction s generalizing buf with
  | nil => simp
  | cons b s ih =>
    rw [mem_cons, not_or] at h
    obtain ⟨hb, hs⟩ := h
    rw [foldl_cons, Scan.step, if_neg Bool.false_ne_true, if_neg (Ne.symm hb), ih hs]
    simp

theorem foldl_inside (s : List Byte) (h : 62 ∉ s) (events : List XmlEvent) (buf : List Byte) :
    s.foldl Scan.step ⟨events, true, buf⟩ = ⟨events, true, buf ++ s⟩ := by
  induction s generalizing buf with
  | nil => simp
  | cons b s ih =>
    rw [mem_cons, not_or] at h
    obtain ⟨hb, hs⟩ := h
    rw [foldl_cons, Scan.step, if_pos rfl, if_neg (Ne.symm hb), ih hs]
    simp

/-- A tag ends the text in front of it. -/
theorem foldl_tag (tag : List Byte) (h : 62 ∉ tag) (events : List XmlEvent) (buf : List Byte) :
    (text "<" ++ tag ++ text ">").foldl Scan.step ⟨events, false, buf⟩ =
      ⟨events ++ [.charData buf, tagEvent tag], false, []⟩ := by
  have hopen : (text "<").foldl Scan.step ⟨events, false, buf⟩ =
      ⟨events ++ [.charData buf], true, []⟩ := rfl
  rw [foldl_append, foldl_append, hopen, foldl_inside tag h]
  show (⟨events ++ [.charData buf] ++ [tagEvent ([] ++ tag)], false, []⟩ : Scan) = _
  rw [nil_append, append_assoc]
  rfl

section Names
variable {name : List Byte}

theorem XmlName.not_mem (h : XmlName name) {b : Byte} (hb : nameByte b = false) : b ∉ name :=
  fun hmem => absurd (h.2 b hmem) (by simp [hb])

theorem tagEvent_start (h : XmlName name) :
    tagEvent name = .startElement name (startTag name) := by
  cases name with
  | nil => exact absurd rfl h.1
  | cons b name =>
    have hb := h.2 b mem_cons_self
    have hslash : b ≠ 47 := by
      rintro rfl
      cases hb
    have hdecl : ¬(b = 63 ∨ b = 33) := by
      rintro (rfl | rfl)
      · cases hb
      · cases hb
    unfold tagEvent
    dsimp only
    rw [if_neg hslash, if_neg hdecl]

theorem foldl_startTag (h : XmlName name) (events : List XmlEvent) (buf : List Byte) :
    (startTag name).foldl Scan.step ⟨events, false, buf⟩ =
      ⟨events ++ [.charData buf, .startElement name (startTag name)], false, []⟩ := by
  have htag := foldl_tag name (XmlName.not_mem h (by decide)) events buf
  rw [tagEvent_start h] at htag
  exact htag

theorem foldl_endTag (h : XmlName name) (events : List XmlEvent) (buf : List Byte) :
    (endTag name).foldl Scan.step ⟨events, false, buf⟩ =
      ⟨events ++ [.charData buf, .endElement name (endTag name)], false, []⟩ := by
  have hin : (62 : Byte) ∉ 47 :: name := by
    rw [mem_cons, not_or]
    exact ⟨by decide, XmlName.not_mem h (by decide)⟩
  exact foldl_tag (47 :: name) hin events buf

end Names

theorem not_mem_of_plain {s : List Byte} (h : Plain s) : 60 ∉ s := fun hmem => by
  have hb := h 60 hmem
  cases hb

theorem foldl_elementLine (field : List Byte × List Byte) (hname : XmlName field.1)
    (htext : Plain field.2) (events : List XmlEvent) (buf : List Byte) :
    (elementLine field).foldl Scan.step ⟨events, false, buf⟩ =
      ⟨events ++ [.charData buf, .startElement field.1 (startTag field.1), .charData field.2,
        .endElement field.1 (endTag field.1)], false, text "\n"⟩ := by
  unfold elementLine
  rw [foldl_append, foldl_append, foldl_append, foldl_startTag hname,
    foldl_outside _ (not_mem_of_plain htext), foldl_endTag hname, foldl_outside _ (by decide)]
  simp

theorem foldl_elementLines (fields : List (List Byte × List Byte))
    (h : ∀ f ∈ fields, XmlName f.1 ∧ Plain f.2) (events : List XmlEvent) :
    ∃ events', (fields.flatMap elementLine).foldl Scan.step ⟨events, false, text "\n"⟩ =
        ⟨events', false, text "\n"⟩ ∧
      events' ++ [.charData (text "\n")] =
        events ++ .charData (text "\n") :: fields.flatMap elementEvents := by
  induction fields generalizing events with
  | nil => exact ⟨events, rfl, rfl⟩
  | cons field fields ih =>
    obtain ⟨hname, htext⟩ := h field mem_cons_self
    obtain ⟨events', hfold, hevents⟩ := ih (fun f hf => h f (mem_cons_of_mem _ hf))
      (events ++ [.charData (text "\n"), .startElement field.1 (startTag field.1),
        .charData field.2, .endElement field.1 (endTag field.1)])
    refine ⟨events', ?_, ?_⟩
    · rw [flatMap_cons, foldl_append, foldl_elementLine field hname htext, hfold]
    · rw [hevents, flatMap_cons]
      simp [elementEvents]

theorem flatParse_reads : ReadsFlat flatParse := by
  intro root fields hroot hfields
  have hdoctype : (62 : Byte) ∉ text "!DOCTYPE " ++ root := by
    rw [mem_append, not_or]
    exact ⟨by decide, XmlName.not_mem hroot (by decide)⟩
  have hprolog : (text "<?xml version=\"1.0\"?>\n").foldl Scan.step ⟨[], false, []⟩ =
      ⟨[.charData [], .charData (text "<?xml version=\"1.0\"?>")], false, text "\n"⟩ := by
    decide
  obtain ⟨events', hfold, hevents⟩ := foldl_elementLines fields hfields
    [.charData [], .charData (text "<?xml version=\"1.0\"?>"), .charData (text "\n"),
      .charData (startTag (text "!DOCTYPE " ++ root)), .charData [],
      .startElement root (startTag root)]
  have hscan : (flatDocument root fields).foldl Scan.step ⟨[], false, []⟩ =
      ⟨events' ++ [.charData (text "\n"), .endElement root (endTag root)], false, text "\n"⟩ := by
    have hsplit : flatDocument root fields = text "<?xml version=\"1.0\"?>\n" ++
        (text "<" ++ (text "!DOCTYPE " ++ root) ++ text ">") ++ startTag root ++ text "\n" ++
          fields.flatMap elementLine ++ endTag root ++ text "\n" := by
      unfold flatDocument
      rw [show text "<!DOCTYPE " = text "<" ++ text "!DOCTYPE " from rfl]
      simp only [append_assoc]
    rw [hsplit, foldl_append, foldl_append, foldl_append, foldl_append,
      foldl_append, foldl_append, hprolog, foldl_tag _ hdoctype, foldl_startTag hroot,
      foldl_outside (text "\n") (by decide)]
    have hdecl : tagEvent (text "!DOCTYPE " ++ root) =
        .charData (startTag (text "!DOCTYPE " ++ root)) := rfl
    rw [hdecl]
    simp only [cons_append, nil_append]
    rw [hfold, foldl_endTag hroot, foldl_outside (text "\n") (by decide), nil_append]
  have hcalls : events' ++ [.charData (text "\n"), .endElement root (endTag root)] =
      [.charData [], .charData (text "<?xml version=\"1.0\"?>"), .charData (text "\n"),
        .charData (startTag (text "!DOCTYPE " ++ root)), .charData []] ++
      .startElement root (startTag root) :: .charData (text "\n") ::
        fields.flatMap elementEvents ++ [.endElement root (endTag root)] := by
    have happend := congrArg (· ++ [XmlEvent.endElement root (endTag root)]) hevents
    simp only [append_assoc, cons_append, nil_append] at happend ⊢
    exact happend
  refine ⟨_, ⟨[[], text "<?xml version=\"1.0\"?>", text "\n",
    startTag (text "!DOCTYPE " ++ root), []], ?_⟩, congrArg (fun s => (s.events, true)) hscan⟩
  exact hcalls

end JxtaC.Advertisement
