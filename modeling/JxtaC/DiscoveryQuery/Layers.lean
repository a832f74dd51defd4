import JxtaC.Lib.XmlScanner
import JxtaC.ResolverQuery.Document

/-
  A discovery query inside a resolver query (jxta_dq.c, jxta_rq.c). Both come back the same just if no
  text that is printed as it is holds a reference and no text of the discovery query is there but
  empty; and the text of a discovery query is never refused (`carried_and_reported_iff`).
-/

namespace JxtaC

open Lib Lib.XmlDocument Dispatch

namespace DiscoveryQuery

/-- The resolver query that carries a discovery query. -/
def wrap (dq : DiscoveryQuery) (rq : ResolverQuery) : ResolverQuery :=
  { rq with query := some dq.getXml }

variable {Kind : Type}

/-- Printed and read in both layers, the queries are the same. -/
def Carried (d : Dialect Kind) (parser : Parser) (kind query : Kind) (dq : DiscoveryQuery)
    (rq : ResolverQuery) : Prop :=
  ∃ xml received body read, (dq.wrap rq).getXml = .ok xml ∧
    ResolverQuery.parseCharbuffer d parser query xml = .ok (received, .success) ∧
    received.query = some body ∧
    parseCharbuffer d parser kind body = .ok (read, .success) ∧ read.Agrees dq ∧
    jstringTrim received.credential = rq.credential ∧ received.handlerName = rq.handlerName ∧
    received.queryId = rq.queryId ∧ received.hopCount = rq.hopCount

/-- A text that the parser refuses is reported. -/
def Reported (d : Dialect Kind) (parser : Parser) (kind : Kind) (buf : List Byte) : Prop :=
  (parser buf).2 = false → ∃ read status,
    parseCharbuffer d parser kind buf = .ok (read, status) ∧ status ≠ .success

/-- A text as a query is given it. -/
def IsBare (s : List Byte) : Prop := 0 ∉ s ∧ jstringTrim s = s

/-- What the queries are given: numbers of their types, such texts, the ID and the route of a peer. -/
structure Given (dq : DiscoveryQuery) (rq : ResolverQuery) : Prop where
  dq_inRange : dq.InRange
  rq_inRange : rq.InRange
  peerAdv : ∀ s, dq.peerAdv = some s → IsBare s
  attr : ∀ s, dq.attr = some s → IsBare s
  value : ∀ s, dq.value = some s → IsBare s
  extendedQuery : ∀ s, dq.extendedQuery = some s → IsBare s
  credential : IsBare rq.credential
  handlerName : IsBare rq.handlerName
  srcPeerId : rq.srcPeerId.Legible ∧ rq.srcPeerId ≠ .nullID
  route : ∀ route, rq.route = some route → route.Legible

/-- What is escaped can stand in a document, and what is not is markup. -/
structure Markup (dq : DiscoveryQuery) (rq : ResolverQuery) : Prop where
  representable : dq.Representable
  attr : ∀ s, dq.attr = some s → IsMarkup s
  value : ∀ s, dq.value = some s → IsMarkup s
  credential : IsMarkup rq.credential
  handlerName : IsMarkup rq.handlerName

/-- What is not escaped needs no escaping, and no text is there but empty. -/
structure Plain (dq : DiscoveryQuery) (rq : ResolverQuery) : Prop where
  representable : dq.Representable
  attr : ∀ s, dq.attr = some s → IsText (raw s) ∧ s ≠ []
  value : ∀ s, dq.value = some s → IsText (raw s) ∧ s ≠ []
  extendedQuery : dq.extendedQuery ≠ some []
  credential : IsText (raw rq.credential)
  handlerName : IsText (raw rq.handlerName)

theorem isMarkup_raw {s : List Byte} (h : IsText (raw s)) : IsMarkup s := ⟨raw s, h, sourceOf_raw s⟩

theorem Plain.markup {dq : DiscoveryQuery} {rq : ResolverQuery} (h : Plain dq rq) : Markup dq rq where
  representable := h.representable
  attr s hs := isMarkup_raw (h.attr s hs).1
  value s hs := isMarkup_raw (h.value s hs).1
  credential := isMarkup_raw h.credential
  handlerName := isMarkup_raw h.handlerName

/-! ## one text -/

theorem exists_pieces {t : Option (List Byte)} (h : ∀ s, t = some s → IsMarkup s) :
    ∃ ps : Option (List Piece), t = ps.map sourceOf ∧ ∀ qs, ps = some qs → IsText qs := by
  cases t with
  | none => exact ⟨none, rfl, fun _ h => absurd h (by simp)⟩
  | some s =>
    obtain ⟨ps, hps, rfl⟩ := h s rfl
    refine ⟨some ps, rfl, fun qs hqs => ?_⟩
    cases hqs
    exact hps

/-- A reference begins with an ampersand. -/
theorem eq_raw_of_isText {ps : List Piece} (h : IsText (raw (sourceOf ps))) :
    ps = raw (sourceOf ps) := by
  have hamp : ∀ ps : List Piece, 38 ∉ sourceOf ps → ps = raw (sourceOf ps) := by
    intro ps hps
    induction ps with
    | nil => rfl
    | cons piece ps ih =>
      have hsource : sourceOf (piece :: ps) = piece.source ++ sourceOf ps := rfl
      rw [hsource, List.mem_append, not_or] at hps
      have ih := ih hps.2
      cases piece with
      | byte b => exact congrArg (Piece.byte b :: ·) ih
      | lt | gt | amp => exact absurd List.mem_cons_self hps.1
  exact hamp ps fun hmem => absurd ((isText_raw_iff.mp h).2.1 38 hmem) (by decide)

/-- A text that is printed as it is comes back just if it holds no references. -/
theorem trim_eq_iff {ps : List Piece} (hps : IsText ps) (hbare : IsBare (sourceOf ps)) :
    jstringTrim (valueOf ps) = sourceOf ps ↔ IsText (raw (sourceOf ps)) := by
  constructor
  · intro h
    rwa [← raw_of_trim h]
  · intro h
    have hraw := eq_raw_of_isText h
    calc jstringTrim (valueOf ps) = jstringTrim (valueOf (raw (sourceOf ps))) := by rw [← hraw]
      _ = sourceOf ps := by rw [valueOf_raw, hbare.2]

theorem readOptional_eq_iff {t : Option (List Byte)} (ht : ∀ s, t = some s → IsBare s)
    {ps : Option (List Piece)} (hps : t = ps.map sourceOf) (htext : ∀ qs, ps = some qs → IsText qs) :
    readOptional ps = t ↔ ∀ s, t = some s → IsText (raw s) ∧ s ≠ [] := by
  subst hps
  cases ps with
  | none => simp [readOptional]
  | some qs =>
    have hiff := trim_eq_iff (htext qs rfl) (ht _ rfl)
    unfold readOptional
    by_cases hnil : qs = []
    · simp [hnil]
    · simp [hnil, hiff, sourceOf_eq_nil]

/-- An escaped text comes back unless it is empty. -/
theorem readOptional_encoded_eq_iff {t : Option (List Byte)} (ht : ∀ s, t = some s → IsBare s) :
    readOptional (t.map encoded) = t ↔ t ≠ some [] := by
  cases t with
  | none => simp [readOptional]
  | some s =>
    have hnil : encoded s = [] ↔ s = [] := List.map_eq_nil_iff
    unfold readOptional
    by_cases hs : s = []
    · simp [hs, encoded]
    · simp [hs, hnil, (ht s rfl).2]

theorem trim_receivedCredential (ps : List Piece) :
    jstringTrim (ResolverQuery.receivedCredential ps) = jstringTrim (valueOf ps) := by
  unfold ResolverQuery.receivedCredential
  split
  · next h => rw [h]; rfl
  · exact jstringTrim_endText _

/-! ## both layers -/

section Layers

variable {d : Dialect Kind} {parser : Parser} {kind query route accessPoint : Kind}

/-- The document of a query, without the white space behind it, is what a resolver query carries. -/
theorem jstringTrim_document (dq : DiscoveryQuery) (attr value : Option (List Piece)) :
    jstringTrim (dq.document attr value (text "\n")).source = (dq.document attr value []).source :=
  jstringTrim_fieldsDocument _ _ _ _ _

/-- What comes back of markup. -/
theorem carried_iff (hquery : QueryAd.Tables d query route accessPoint) (htables : Tables d kind)
    (hparser : Conforms parser) {dq : DiscoveryQuery} {rq : ResolverQuery} (hgiven : Given dq rq)
    (hmarkup : Markup dq rq) : Carried d parser kind query dq rq ↔ Plain dq rq := by
  obtain ⟨attr, hattr, hattrText⟩ := exists_pieces hmarkup.attr
  obtain ⟨value, hvalue, hvalueText⟩ := exists_pieces hmarkup.value
  obtain ⟨credential, hcredText, hcred⟩ := hmarkup.credential
  obtain ⟨handlerName, hnameText, hname⟩ := hmarkup.handlerName
  have hdq := document_wellFormed hmarkup.representable hattrText hvalueText isBlank_newline
  have hxml := getXml_eq hmarkup.representable hattr hvalue
  have hbody := jstringTrim_document dq attr value
  have hbodyClean := (document_wellFormed hmarkup.representable hattrText hvalueText
    isBlank_nil).clean
  have hlegible : (dq.wrap rq).Legible dq.getXml :=
    ⟨hgiven.srcPeerId.1, hgiven.route, by rw [hxml, hbody]; exact hbodyClean.1,
      by rw [hxml]; exact hdq.clean.1.zero_not_mem, by rw [hxml]; exact hdq.clean.2⟩
  have hprint : (dq.wrap rq).getXml =
      .ok ((dq.wrap rq).document credential handlerName dq.getXml).source :=
    ResolverQuery.getXml_eq rfl hlegible (hgiven.credential.2.trans hcred.symm)
      (hgiven.handlerName.2.trans hname.symm)
  have hrange : (dq.wrap rq).InRange := ⟨hgiven.rq_inRange.1, hgiven.rq_inRange.2⟩
  obtain ⟨r, hread⟩ := ResolverQuery.parse_document hquery hparser hlegible hrange
    hgiven.srcPeerId.2 hcredText hnameText
  have hreadBody : parseCharbuffer d parser kind (jstringTrim dq.getXml) =
      .ok (dq.received attr value, .success) := by
    rw [hxml, hbody]
    exact parse_document htables hparser hgiven.dq_inRange hmarkup.representable hattrText
      hvalueText isBlank_nil
  have hagrees : (dq.received attr value).Agrees dq ↔ readOptional attr = dq.attr ∧
      readOptional value = dq.value ∧
      readOptional (dq.extendedQuery.map encoded) = dq.extendedQuery := by
    have hpeer : (dq.peerAdv.map endText).map jstringTrim = dq.peerAdv.map jstringTrim := by
      rw [Option.map_map]
      exact congrArg (Option.map · dq.peerAdv) (funext jstringTrim_endText)
    unfold Agrees received
    simp [hpeer]
  have hcarried : Carried d parser kind query dq rq ↔
      (dq.received attr value).Agrees dq ∧
        jstringTrim (ResolverQuery.receivedCredential credential) = rq.credential ∧
        jstringTrim (valueOf handlerName) = rq.handlerName := by
    constructor
    · rintro ⟨xml, received, body, read, hp, hr, hb, hrb, hag, hc, hn, -, -⟩
      obtain rfl := Except.ok.inj (hp.symm.trans hprint)
      obtain rfl := congrArg Prod.fst (Except.ok.inj (hr.symm.trans hread))
      obtain rfl := Option.some.inj hb
      obtain rfl := congrArg Prod.fst (Except.ok.inj (hrb.symm.trans hreadBody))
      exact ⟨hag, hc, hn⟩
    · rintro ⟨hag, hc, hn⟩
      exact ⟨_, _, _, _, hprint, hread, rfl, hreadBody, hag, hc, hn, rfl, rfl⟩
  rw [hcarried, hagrees, readOptional_eq_iff hgiven.attr hattr hattrText,
    readOptional_eq_iff hgiven.value hvalue hvalueText,
    readOptional_encoded_eq_iff hgiven.extendedQuery, trim_receivedCredential, ← hcred, ← hname,
    trim_eq_iff hcredText (hcred ▸ hgiven.credential),
    trim_eq_iff hnameText (hname ▸ hgiven.handlerName), hcred, hname]
  constructor
  · rintro ⟨⟨ha, hv, he⟩, hc, hn⟩
    exact ⟨hmarkup.representable, ha, hv, he, hc, hn⟩
  · intro h
    exact ⟨⟨h.attr, h.value, h.extendedQuery⟩, h.credential, h.handlerName⟩

/-- No handler of a discovery query fails, and its status is always the same. -/
theorem reported_iff (buf : List Byte) : Reported d parser kind buf ↔ (parser buf).2 = true := by
  constructor
  · intro h
    by_contra hrefused
    obtain ⟨read, status, hparse, hstatus⟩ := h (Bool.eq_false_iff.mpr hrefused)
    unfold parseCharbuffer at hparse
    obtain ⟨result, -, hresult⟩ := bind_eq_ok.mp hparse
    exact hstatus (congrArg Prod.snd (Except.ok.inj hresult)).symm
  · intro haccepted hrefused
    exact absurd haccepted (by simp [hrefused])

/-- Queries whose texts are plain are carried, of markup only such; and what is refused is not
reported. -/
theorem carried_and_reported_iff (hquery : QueryAd.Tables d query route accessPoint)
    (htables : Tables d kind) (hparser : Conforms parser) {dq : DiscoveryQuery} {rq : ResolverQuery}
    (hgiven : Given dq rq) (buf : List Byte) :
    (Plain dq rq ∧ (parser buf).2 = true →
      Carried d parser kind query dq rq ∧ Reported d parser kind buf) ∧
    (Markup dq rq → Carried d parser kind query dq rq ∧ Reported d parser kind buf →
      Plain dq rq ∧ (parser buf).2 = true) := by
  refine ⟨fun h => ?_, fun hmarkup h => ?_⟩
  · exact ⟨(carried_iff hquery htables hparser hgiven h.1.markup).mpr h.1, (reported_iff buf).mpr h.2⟩
  · exact ⟨(carried_iff hquery htables hparser hgiven hmarkup).mp h.1, (reported_iff buf).mp h.2⟩

end Layers

/-! ## a query -/

/-- The advertisements in question here. -/
inductive QueryKind where
  | query
  | discoveryQuery
  | route
  | accessPoint
  deriving DecidableEq

/-- `ResolverQuery_tags`, `Jxta_DiscoveryQuery_tags`, `Jxta_RouteAdvertisement_tags`,
`Jxta_AccessPointAdvertisement_tags`. -/
def queryElements : QueryKind → List (Dispatch.Kwdtab QueryKind)
  | .query => [⟨text "jxta:Cred", .keep⟩, ⟨text "SrcPeerID", .keep⟩,
      ⟨text "SrcPeerRoute", .switch .route⟩, ⟨text "HandlerName", .keep⟩, ⟨text "QueryID", .keep⟩,
      ⟨text "Query", .keep⟩, ⟨text "HC", .keep⟩]
  | .discoveryQuery => keepers QueryKind [text "Type", text "Threshold", text "PeerAdv", text "Attr",
      text "Value", text "ExtendedQuery"]
  | .route => [⟨text "DstPID", .keep⟩, ⟨text "Dst", .keep⟩, ⟨text "Hops", .keep⟩,
      ⟨text "jxta:APA", .switch .accessPoint⟩]
  | .accessPoint => [⟨text "PID", .keep⟩, ⟨text "EA", .keep⟩]

def QueryKind.rank : QueryKind → Nat
  | .query => 2
  | .discoveryQuery => 0
  | .route => 1
  | .accessPoint => 0

def queryDialect : Dialect QueryKind where
  documentName
    | .query => text "jxta:ResolverQuery"
    | .discoveryQuery => documentName
    | .route => text "jxta:RA"
    | .accessPoint => text "jxta:APA"
  elements kind := some (queryElements kind)
  globalHandler _ := none
  rank := QueryKind.rank
  rank_lt {kind tags k inner} htags hmem hparse := by
    cases htags
    cases kind <;> cases inner <;> first | decide | exact absurd hparse (by revert k; decide)
  switch_table _ _ _ := rfl
  global_table h := absurd h (by simp)

theorem query_tables : QueryAd.Tables queryDialect .query .route .accessPoint :=
  ⟨rfl, rfl, rfl, rfl, rfl, rfl⟩

theorem discoveryQuery_tables : Tables queryDialect .discoveryQuery := ⟨rfl, rfl⟩

/-- A search for advertisements with this value of their name. -/
def named (value : List Byte) : DiscoveryQuery := ⟨2, 10, none, some (text "Name"), some value, none⟩

/-- The resolver query of a peer for it. -/
def asked : ResolverQuery :=
  ⟨[], .jxta (.ofBuffer (text "Peer")), none, text "urn:jxta:discovery", 1, none, 0⟩

theorem given_named {value : List Byte} (h : IsBare value) : Given (named value) asked where
  dq_inRange := ⟨by simp [named], by simp [named]⟩
  rq_inRange := ⟨by decide, by decide⟩
  peerAdv _ hs := absurd hs (by simp [named])
  attr _ hs := Option.some.inj hs ▸ ⟨by decide, by decide⟩
  value _ hs := Option.some.inj hs ▸ h
  extendedQuery _ hs := absurd hs (by simp [named])
  credential := ⟨by decide, by decide⟩
  handlerName := ⟨by decide, by decide⟩
  srcPeerId := ⟨⟨JxtaId.canonical_jxta _, isText_raw_plain (by decide), by decide⟩, by decide⟩
  route _ hroute := absurd hroute (by simp [asked])

theorem representable_named (value : List Byte) : (named value).Representable :=
  ⟨fun _ hs => absurd hs (by simp [named]), fun _ hs => absurd hs (by simp [named])⟩

theorem carried_and_reported_iff_named :
    Carried queryDialect scan .discoveryQuery .query (named (text "chat*")) asked ∧
      Reported queryDialect scan .discoveryQuery [] := by
  refine (carried_and_reported_iff query_tables discoveryQuery_tables scan_conforms
    (given_named ⟨by decide, by decide⟩) []).1 ⟨⟨representable_named _, ?_, ?_, ?_, ?_, ?_⟩, rfl⟩
  · exact fun _ hs => Option.some.inj hs ▸ ⟨isText_raw_plain (by decide), by decide⟩
  · exact fun _ hs => Option.some.inj hs ▸ ⟨isText_raw_plain (by decide), by decide⟩
  · simp [named]
  · exact isText_raw_plain (by decide)
  · exact isText_raw_plain (by decide)

/-- `R&amp;D` comes back as `R&D`. -/
theorem not_carried :
    ¬ Carried queryDialect scan .discoveryQuery .query (named (text "R&amp;D")) asked := by
  have hmarkup : Markup (named (text "R&amp;D")) asked := by
    refine ⟨representable_named _, ?_, ?_, ?_, ?_⟩
    · exact fun _ hs => Option.some.inj hs ▸ isMarkup_raw (isText_raw_plain (by decide))
    · intro s hs
      obtain rfl := Option.some.inj hs
      refine ⟨[.byte 82, .amp, .byte 68], ?_, by decide⟩
      exact isText_encoded (s := text "R&D") (representable_printed (by decide)) (by decide)
    · exact isMarkup_raw (isText_raw_plain (by decide))
    · exact isMarkup_raw (isText_raw_plain (by decide))
  intro hcarried
  have hplain := (carried_iff query_tables discoveryQuery_tables scan_conforms
    (given_named ⟨by decide, by decide⟩) hmarkup).mp hcarried
  have htext := (hplain.value _ rfl).1
  exact absurd ((isText_raw_iff.mp htext).2.1 38 (by decide)) (by decide)

end DiscoveryQuery

end JxtaC
