import JxtaC.Advertisement.Objects
import JxtaC.JxtaId.RoundTrip
import JxtaC.ResolverQuery
import JxtaC.Walk.Header

/-
  The texts between the tags of a document, and the document of an access point (jxta_apa.c) inside
  that of another advertisement.
  `yields_accessPoint` is about any family of advertisements that has access points: the one that
  is open takes the peer id of the document and gets its endpoint addresses behind its own.
-/

namespace JxtaC

open Lib Lib.XmlDocument Dispatch List

/-! ## texts -/

theorem isBlank_nil : IsBlank [] := by decide

theorem isBlank_newline : IsBlank (text "\n") := by decide

theorem element_eq (name : List Byte) (ps : List Piece) :
    (leafNode name ps).source = element name (sourceOf ps) := by
  have hstart : startTag name = 60 :: (name ++ [62]) := rfl
  have hend : endTag name = endSource name := rfl
  rw [leafNode_source, element, hstart, hend, append_assoc]

theorem jstringTrim_endText (s : List Byte) : jstringTrim (endText s) = jstringTrim s := by
  unfold endText
  split
  next h => subst h; rfl
  next => rfl

@[simp] theorem endText_of_ne {s : List Byte} (h : s ≠ []) : endText s = s := if_neg h

theorem jstringTrim_length_le (s : List Byte) : (jstringTrim s).length ≤ s.length := by
  unfold jstringTrim
  rw [length_reverse]
  refine (length_dropWhile_le _ _).trans ?_
  rw [length_reverse]
  exact length_dropWhile_le _ _

/-- The string of an ID, as a document can hold it and its readers trim it. -/
structure JxtaId.Legible (jid : JxtaId) : Prop where
  canonical : jid.Canonical
  text : IsText (raw jid.toJString)
  trimmed : jstringTrim jid.toJString = jid.toJString

theorem JxtaId.toJString_ne_nil (jid : JxtaId) : jid.toJString ≠ [] := by
  unfold JxtaId.toJString JxtaId.idPrefix
  exact append_ne_nil_of_left_ne_nil (by decide) _

theorem JxtaId.Legible.fromStr {jid : JxtaId} (h : jid.Legible) :
    JxtaId.fromStr (jstringTrim jid.toJString) = .ok (.ok jid) := by
  rw [h.trimmed]
  exact JxtaId.fromStr_toJString h.canonical

/-! ## access points -/

namespace AccessPointAdvertisement

/-- The attribute of the root element. -/
def xmlns : Attribute := ⟨text " ", text "xmlns:jxta", raw (text "http://jxta.org")⟩

/-- The elements of the document. -/
def elements (ad : AccessPointAdvertisement) : List (Node × List Byte) :=
  (match ad.pid with
  | some pid => [(leafNode (text "PID") (raw pid.toJString), text "\n")]
  | none => []) ++
    ad.endpoints.map fun endpoint => (leafNode (text "EA") (raw endpoint), text "\n")

/-- The document of an access point, inside another one. -/
def node (ad : AccessPointAdvertisement) : Node :=
  .element (text "jxta:APA") [xmlns] [] (.chars (raw (text "\n")) :: fields ad.elements)

theorem source_node (ad : AccessPointAdvertisement) : ad.node.source ++ text "\n" = ad.getXml := by
  obtain ⟨pid, endpoints⟩ := ad
  have hstart : startSource (text "jxta:APA") [xmlns] [] ++ text "\n" =
      text "<jxta:APA xmlns:jxta=\"http://jxta.org\">\n" := by decide
  have hend : endSource (text "jxta:APA") ++ text "\n" = text "</jxta:APA>\n" := by decide
  have hendpoints : (endpoints.map fun e => (leafNode (text "EA") (raw e), text "\n")).flatMap
      (fun f => f.1.source ++ f.2) =
        endpoints.flatMap fun e => element (text "EA") e ++ text "\n" := by
    rw [flatMap_map]
    exact flatMap_congr fun e _ => by rw [element_eq, sourceOf_raw]
  unfold node getXml
  rw [Node.source, Node.sources, Node.source, sourceOf_raw, sources_fields, elements,
    flatMap_append, hendpoints, ← hstart, ← hend]
  cases pid with
  | none => simp
  | some pid => simp [element_eq]

/-- An access point that a document can hold. -/
structure Legible (ad : AccessPointAdvertisement) : Prop where
  pid : ∀ pid, ad.pid = some pid → pid.Legible
  endpoints : ∀ endpoint ∈ ad.endpoints, IsText (raw endpoint)

theorem xmlns_wellFormed : AttsWellFormed [xmlns] := by
  refine ⟨fun a ha => ?_, by decide⟩
  obtain rfl := mem_singleton.mp ha
  refine ⟨by decide, by decide, by decide, ?_, fun b hb => ?_⟩
  · exact (isText_raw_plain (s := text "http://jxta.org") (by decide)).1
  · have hall : ∀ b ∈ text "http://jxta.org", isValueMarkup b = false := by decide
    exact hall b (by simpa [xmlns, raw] using hb)

theorem Legible.wellFormed {ad : AccessPointAdvertisement} (h : ad.Legible) :
    ad.node.WellFormed := by
  have helements : ∀ f ∈ ad.elements, f.1.isChars = false ∧ f.1.WellFormed ∧ IsBlank f.2 := by
    intro f hf
    unfold elements at hf
    rw [mem_append, mem_map] at hf
    rcases hf with hf | ⟨e, he, rfl⟩
    · cases hpid : ad.pid with
      | none => simp [hpid] at hf
      | some pid =>
        rw [hpid] at hf
        obtain rfl := mem_singleton.mp hf
        exact ⟨rfl, leafNode_wellFormed (by decide) (h.pid pid hpid).text, isBlank_newline⟩
    · exact ⟨rfl, leafNode_wellFormed (by decide) (h.endpoints e he), isBlank_newline⟩
  exact ⟨by decide, xmlns_wellFormed, by decide, separate_fields _ fun f hf => (helements f hf).1,
    isText_blank (by decide), allWellFormed_fields fun f hf => (helements f hf).2⟩

/-- The parse functions of access points. -/
def call (ad : AccessPointAdvertisement) (c : ParseCall) : Exec AccessPointAdvertisement :=
  if c.kwd = text "PID" then ad.handlePID c.cd
  else if c.kwd = text "EA" then ad.handleEndpoint c.cd
  else .ok ad

/-- What an access point becomes, when the document of another one is read into it. -/
def merge (ad other : AccessPointAdvertisement) : AccessPointAdvertisement :=
  ⟨other.pid.or ad.pid, ad.endpoints ++ (other.endpoints.map jstringTrim).filter (· ≠ [])⟩

end AccessPointAdvertisement

/-- A family of advertisements has access points. -/
def HasAccessPoints {Ad : Type} (h : Handlers Ad) (accessPoint : AccessPointAdvertisement → Ad) :
    Prop :=
  ∀ ad c, h.call (accessPoint ad) c = (ad.call c).map accessPoint

/-- The tables of the parser have that of access points. -/
structure AccessPointTable {Kind : Type} (d : Dialect Kind) (kind : Kind) : Prop where
  name : d.documentName kind = text "jxta:APA"
  elements : d.elements kind = some [⟨text "PID", .keep⟩, ⟨text "EA", .keep⟩]

section
variable {Kind Ad : Type} {h : Handlers Ad} {accessPoint : AccessPointAdvertisement → Ad}
  {d : Dialect Kind} {kind : Kind}

theorem yields_endpoints (hcall : HasAccessPoints h accessPoint) (htable : AccessPointTable d kind)
    {depth : Nat} (hdepth : depth < maxAdvDepth) (curr : Option (Dispatch.Kwdtab Kind)) (n : Nat)
    (endpoints : List (List Byte)) (ad : AccessPointAdvertisement) :
    h.Yields (d.actAll (fields (endpoints.map fun e => (leafNode (text "EA") (raw e), text "\n"))))
      ⟨kind, depth, curr⟩ n (accessPoint ad)
        (accessPoint { ad with
          endpoints := ad.endpoints ++ (endpoints.map jstringTrim).filter (· ≠ []) }) := by
  have hopen : d.opening kind [] (text "EA") = .keep ⟨text "EA", .keep⟩ :=
    Dialect.opening_keep htable.elements rfl (by rw [htable.name]; rfl) rfl
  induction endpoints generalizing ad with
  | nil =>
    rw [map_nil, map_nil, filter_nil, append_nil]
    exact Handlers.yields_fields_nil _ n _
  | cons e endpoints ih =>
    have hend : h.call (accessPoint ad) ⟨n, text "EA", endText (valueOf (raw e)), [], none⟩ =
        .ok (accessPoint { ad with
          endpoints := ad.endpoints ++ [jstringTrim e].filter (· ≠ []) }) := by
      have hparse : ad.call ⟨n, text "EA", endText e, [], none⟩ = ad.handleEndpoint (endText e) := rfl
      rw [hcall, valueOf_raw, hparse]
      unfold AccessPointAdvertisement.handleEndpoint
      rw [jstringTrim_endText]
      by_cases he : jstringTrim e = []
      · simp [he, Except.map]
      · simp [he, endText_ne_nil, length_pos_iff, Except.map]
    have hsplit : ((e :: endpoints).map jstringTrim).filter (· ≠ []) =
        [jstringTrim e].filter (· ≠ []) ++ (endpoints.map jstringTrim).filter (· ≠ []) :=
      @filter_append _ _ [jstringTrim e] _
    rw [hsplit, ← append_assoc]
    exact (Handlers.yields_leafNode hdepth hopen (hcall _ _) hend).field (ih _)

/-- The content of the document of an access point. -/
theorem yields_accessPoint (hcall : HasAccessPoints h accessPoint) (htable : AccessPointTable d kind)
    {depth : Nat} (hdepth : depth < maxAdvDepth) (curr : Option (Dispatch.Kwdtab Kind)) (n : Nat)
    {other : AccessPointAdvertisement} (hother : other.Legible) (ad : AccessPointAdvertisement) :
    h.Yields (d.actAll (.chars (raw (text "\n")) :: fields other.elements)) ⟨kind, depth, curr⟩ n
      (accessPoint ad) (accessPoint (ad.merge other)) := by
  refine (Handlers.yields_chars _ _ _ _).cons ?_
  unfold AccessPointAdvertisement.elements
  refine Handlers.Yields.fields_append (b := accessPoint { ad with pid := other.pid.or ad.pid }) ?_ ?_
  · cases hpid : other.pid with
    | none => exact Handlers.yields_fields_nil _ n _
    | some pid =>
      have hopen : d.opening kind [] (text "PID") = .keep ⟨text "PID", .keep⟩ :=
        Dialect.opening_keep htable.elements rfl (by rw [htable.name]; rfl) rfl
      refine (Handlers.yields_leafNode hdepth hopen (hcall _ _) ?_).field
        (Handlers.yields_fields_nil _ n _)
      have hparse : ad.call ⟨n, text "PID", endText pid.toJString, [], none⟩ =
          ad.handlePID (endText pid.toJString) := rfl
      rw [hcall, valueOf_raw, hparse]
      unfold AccessPointAdvertisement.handlePID
      rw [if_neg (endText_ne_nil _), jstringTrim_endText, (hother.pid pid hpid).fromStr]
      rfl
  · exact yields_endpoints hcall htable hdepth curr n other.endpoints _

end

end JxtaC
