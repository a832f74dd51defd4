import JxtaC.DiscoveryQuery.Layers
import JxtaC.DiscoveryResponse.Document

/-
  A discovery response inside a resolver response (jxta_dr.c, jxta_rr.c): when both come back the same,
  and when the document of a response is read without an attribute that is not there
  (`carried_and_read_iff`).
-/

namespace JxtaC

open Lib Lib.XmlDocument Dispatch List

namespace DiscoveryResponse

variable {Kind : Type}

/-- The resolver response that carries a discovery response. -/
def wrap (dr : DiscoveryResponse) (rr : ResolverResponse) : ResolverResponse :=
  { rr with response := dr.getXml }

theorem wrap_response (dr : DiscoveryResponse) (rr : ResolverResponse) :
    (dr.wrap rr).response = dr.getXml := rfl

/-- Printed and read in both layers, the responses are the same. -/
def Carried (d : Dialect Kind) (parser : Parser) (kind response : Kind) (dr : DiscoveryResponse)
    (rr : ResolverResponse) : Prop :=
  ∃ xml received read, (dr.wrap rr).getXml = .ok xml ∧
    ResolverResponse.parseCharbuffer d parser response xml = .ok received ∧
    parseCharbuffer d parser kind (jstringTrim received.response) = .ok read ∧ read.Agrees dr ∧
    jstringTrim received.credential = jstringTrim rr.credential ∧
    received.resPeerId = rr.resPeerId ∧
    jstringTrim received.handlerName = jstringTrim rr.handlerName ∧ received.queryId = rr.queryId

/-- What the responses are given: numbers of their types, texts without zero byte, and the ID of a
peer or none. -/
structure Given (dr : DiscoveryResponse) (rr : ResolverResponse) (pid : JxtaId) : Prop where
  inRange : dr.InRange
  queryId : -2 ^ 63 ≤ rr.queryId ∧ rr.queryId < 2 ^ 63
  peerAdv : ∀ s, dr.peerAdv = some s → 0 ∉ s
  attr : 0 ∉ dr.attr
  value : 0 ∉ dr.value
  responselist : ∀ e ∈ dr.responselist, 0 ∉ e.response
  credential : 0 ∉ rr.credential
  handlerName : 0 ∉ rr.handlerName
  resPeerId : rr.resPeerId = some pid
  pid : pid ≠ .nullID → pid.Legible ∧ extractCharData pid.toJString = pid.toJString

/-- What is escaped can stand in a document, and what is not is markup. -/
structure Markup (dr : DiscoveryResponse) (rr : ResolverResponse) : Prop where
  representable : dr.Representable
  credential : IsMarkup (jstringTrim rr.credential)
  handlerName : IsMarkup (jstringTrim rr.handlerName)

/-- There is no attribute and no value, the elements are the same backwards, and their texts and the
peer advertisement are trimmed; the query id fits an `int`; what is not escaped needs no escaping. -/
structure Plain (dr : DiscoveryResponse) (rr : ResolverResponse) : Prop where
  representable : dr.Representable
  peerAdv : ∀ s, dr.peerAdv = some s → jstringTrim s = s
  attr : jstringTrim dr.attr = []
  value : jstringTrim dr.value = []
  backwards : dr.responselist.reverse = dr.responselist
  trimmed : ∀ e ∈ dr.responselist, jstringTrim e.response = e.response ∧ e.response ≠ []
  queryId : -2 ^ 31 ≤ rr.queryId ∧ rr.queryId < 2 ^ 31
  credential : IsText (raw (jstringTrim rr.credential))
  handlerName : IsText (raw (jstringTrim rr.handlerName))

theorem Plain.markup {dr : DiscoveryResponse} {rr : ResolverResponse} (h : Plain dr rr) :
    Markup dr rr where
  representable := h.representable
  credential := ⟨_, h.credential, sourceOf_raw _⟩
  handlerName := ⟨_, h.handlerName, sourceOf_raw _⟩

/-! ## the elements -/

/-- The elements come back just if they are the same backwards and nothing is trimmed. -/
theorem receivedList_eq_iff (es : List DiscoveryResponseElement) :
    receivedList es.reverse = es ↔ es.reverse = es ∧
      ∀ e ∈ es, jstringTrim e.response = e.response ∧ e.response ≠ [] := by
  have hkeep : ∀ es : List DiscoveryResponseElement,
      (∀ e ∈ es, jstringTrim e.response = e.response ∧ e.response ≠ []) → receivedList es = es := by
    intro es hes
    have hmap : (es.map fun e => { e with response := jstringTrim e.response }) = es := by
      refine (map_congr_left fun e he => ?_).trans (map_id es)
      rw [(hes e he).1]
      rfl
    unfold receivedList
    rw [hmap]
    exact filter_eq_self.mpr fun e he => decide_eq_true (hes e he).2
  constructor
  · intro h
    have htrimmed : ∀ e ∈ es, jstringTrim e.response = e.response ∧ e.response ≠ [] := by
      intro e he
      rw [← h] at he
      obtain ⟨hmem, hne⟩ := mem_filter.mp he
      obtain ⟨e', -, rfl⟩ := mem_map.mp hmem
      exact ⟨jstringTrim_idem e'.response, of_decide_eq_true hne⟩
    refine ⟨?_, htrimmed⟩
    rw [hkeep _ fun e he => htrimmed e (mem_reverse.mp he)] at h
    exact h
  · rintro ⟨hback, htrimmed⟩
    rw [hback, hkeep es htrimmed]

theorem bmod_eq_self_iff {i : Int} : i.bmod (2 ^ 32) = i ↔ -2 ^ 31 ≤ i ∧ i < 2 ^ 31 := by
  constructor
  · intro h
    have hlow := @Int.le_bmod i (2 ^ 32) (by decide)
    have hhigh := @Int.bmod_lt i (2 ^ 32) (by decide)
    rw [h] at hlow hhigh
    omega
  · rintro ⟨hlow, hhigh⟩
    exact Int.bmod_eq_of_le (by omega) (by omega)

/-- A text that is printed trimmed comes back just if it holds no references. -/
theorem trim_eq_trim_iff {s : List Byte} {ps : List Piece} (hps : IsText ps)
    (hsource : sourceOf ps = jstringTrim s) :
    jstringTrim (valueOf ps) = jstringTrim s ↔ IsText (raw (jstringTrim s)) := by
  constructor
  · intro h
    rw [← hsource] at h ⊢
    rwa [← raw_of_trim h]
  · intro h
    rw [← hsource] at h
    have hraw := DiscoveryQuery.eq_raw_of_isText h
    have hvalue : valueOf ps = sourceOf ps := by
      calc valueOf ps = valueOf (raw (sourceOf ps)) := by rw [← hraw]
        _ = sourceOf ps := valueOf_raw _
    rw [hvalue, hsource, jstringTrim_idem]

/-! ## both layers -/

section Layers

variable {d : Dialect Kind} {parser : Parser} {kind response : Kind}

theorem jstringTrim_document (dr : DiscoveryResponse) :
    jstringTrim (dr.document (text "\n")).source = (dr.document []).source :=
  jstringTrim_fieldsDocument _ _ _ _ _

/-- What comes back of markup. -/
theorem carried_iff (hresponse : ResolverResponse.Tables d response) (htables : Tables d kind)
    (hparser : Conforms parser) {dr : DiscoveryResponse} {rr : ResolverResponse} {pid : JxtaId}
    (hgiven : Given dr rr pid) (hmarkup : Markup dr rr) :
    Carried d parser kind response dr rr ↔ Plain dr rr := by
  obtain ⟨credential, hcredText, hcred⟩ := hmarkup.credential
  obtain ⟨handlerName, hnameText, hname⟩ := hmarkup.handlerName
  have hxml := getXml_eq hmarkup.representable
  have hbody : jstringTrim dr.getXml = (dr.document []).source := by
    rw [hxml, jstringTrim_document]
  have hclean := (document_wellFormed hmarkup.representable isBlank_nil).clean
  have hlegible : (dr.wrap rr).Legible pid :=
    ⟨hgiven.resPeerId, hgiven.pid, by rwa [wrap_response, hbody]⟩
  have hprint := ResolverResponse.getXml_eq hlegible hcred.symm hname.symm
  have hread := ResolverResponse.parse_document hresponse hparser hlegible hgiven.queryId hcredText
    hnameText
  have hreadBody : parseCharbuffer d parser kind
      (jstringTrim ((dr.wrap rr).received pid credential handlerName).response) =
        .ok dr.received := by
    have htext : jstringTrim ((dr.wrap rr).received pid credential handlerName).response =
        (dr.document []).source := by
      rw [ResolverResponse.received_response, wrap_response, jstringTrim_endText, jstringTrim_idem, hbody]
    rw [htext]
    exact parse_document htables hparser hgiven.inRange hmarkup.representable isBlank_nil
  have hcarried : Carried d parser kind response dr rr ↔ dr.received.Agrees dr ∧
      jstringTrim (ResolverQuery.receivedCredential credential) = jstringTrim rr.credential ∧
      jstringTrim (endText (valueOf handlerName)) = jstringTrim rr.handlerName ∧
      rr.queryId.bmod (2 ^ 32) = rr.queryId := by
    constructor
    · rintro ⟨xml, received, read, hp, hr, hb, hag, hc, -, hn, hq⟩
      obtain rfl := Except.ok.inj (hp.symm.trans hprint)
      obtain rfl := Except.ok.inj (hr.symm.trans hread)
      obtain rfl := Except.ok.inj (hb.symm.trans hreadBody)
      exact ⟨hag, hc, hn, hq⟩
    · rintro ⟨hag, hc, hn, hq⟩
      exact ⟨_, _, _, hprint, hread, hreadBody, hag, hc, hgiven.resPeerId.symm, hn, hq⟩
  have hpeer : dr.peerAdv.map jstringTrim = dr.peerAdv ↔
      ∀ s, dr.peerAdv = some s → jstringTrim s = s := by
    cases dr.peerAdv with
    | none => simp
    | some s => simp
  have hblank : jstringTrim (endText []) = [] := by decide
  have hagrees : dr.received.Agrees dr ↔ (∀ s, dr.peerAdv = some s → jstringTrim s = s) ∧
      jstringTrim dr.attr = [] ∧ jstringTrim dr.value = [] ∧ dr.responselist.reverse =
        dr.responselist ∧ ∀ e ∈ dr.responselist, jstringTrim e.response = e.response ∧
          e.response ≠ [] := by
    unfold Agrees received
    rw [hpeer, hblank, receivedList_eq_iff]
    simp [eq_comm]
  rw [hcarried, hagrees, DiscoveryQuery.trim_receivedCredential, jstringTrim_endText,
    trim_eq_trim_iff hcredText hcred, trim_eq_trim_iff hnameText hname, bmod_eq_self_iff]
  constructor
  · rintro ⟨⟨hp, ha, hv, hb, ht⟩, hc, hn, hq⟩
    exact ⟨hmarkup.representable, hp, ha, hv, hb, ht, hq, hc, hn⟩
  · intro h
    exact ⟨⟨h.peerAdv, h.attr, h.value, h.backwards, h.trimmed⟩, h.credential, h.handlerName,
      h.queryId⟩

end Layers

/-! ## attributes that are not there -/

/-- The text of an element that has nothing else in it. -/
def leafText : List Node → Option (List Piece)
  | [] => some []
  | [.chars ps] => some ps
  | _ => none

/-- A part of the document of a response: white space, or an element of it with a text, and with any
attributes but a type. -/
inductive IsField : Node → Prop
  | chars (ps : List Piece) : IsField (.chars ps)
  | element {name atts space children ps} (hname : name ∈ tags.map Prod.fst)
      (htype : typeAttr (attsOf atts) = none) (htext : leafText children = some ps) :
      IsField (.element name atts space children)
  | empty {name atts space} (hname : name ∈ tags.map Prod.fst)
      (htype : typeAttr (attsOf atts) = none) : IsField (.empty name atts space)

/-- The document of a response, with white space, and attributes, wherever it may have them. -/
structure IsResponse (doc : Document) : Prop where
  wellFormed : doc.WellFormed
  name : doc.name = documentName
  type : typeAttr (attsOf doc.atts) = none
  fields : ∀ node ∈ doc.children, IsField node

/-- An element with a text that was found has an attribute. -/
def Attributed : Node → Prop
  | .element name atts _ children => name = text "Response" →
      (∃ ps, leafText children = some ps ∧ jstringTrim (valueOf ps) ≠ []) → atts ≠ []
  | _ => True

/-- The document is read without a null pointer being followed. -/
def Read (d : Dialect Kind) (parser : Parser) (kind : Kind) (buf : List Byte) : Prop :=
  ∃ read, parseCharbuffer d parser kind buf = .ok read

/-- The call can be handled. -/
def Readable (c : ParseCall) : Prop :=
  c.kwd = text "Response" → jstringTrim c.cd ≠ [] → c.atts ≠ []

/-- Only the handler of a text that was found can fail. -/
theorem call_ok_of_ne (ad : DiscoveryResponse) {c : ParseCall} (hc : c.kwd ≠ text "Response") :
    ∃ b, handlers.call ad c = .ok b := by
  unfold handlers Handlers.flat
  dsimp only
  split
  next k hk =>
    have hmem := mem_of_find?_eq_some hk
    have hkwd := find?_some hk
    simp only [tags, mem_cons, not_mem_nil, or_false] at hmem
    rcases hmem with rfl | rfl | rfl | rfl | rfl | rfl | rfl
    · exact ⟨_, rfl⟩
    · exact ⟨_, rfl⟩
    · exact ⟨_, rfl⟩
    · exact ⟨_, rfl⟩
    · exact ⟨_, rfl⟩
    · exact ⟨_, rfl⟩
    · exact absurd (of_decide_eq_true hkwd).symm hc
  next => exact ⟨_, rfl⟩

theorem call_ok_iff (ad : DiscoveryResponse) (c : ParseCall) :
    (∃ b, handlers.call ad c = .ok b) ↔ Readable c := by
  by_cases hresponse : c.kwd = text "Response"
  · have hcall : handlers.call ad c = ad.handleResponse c := by
      obtain ⟨owner, kwd, cd, atts, inner⟩ := c
      subst hresponse
      rfl
    have hnil : c.cd = [] → jstringTrim c.cd = [] := fun h => by rw [h]; rfl
    have hreadable : Readable c ↔ (jstringTrim c.cd ≠ [] → c.atts ≠ []) := by
      simp [Readable, hresponse]
    rw [hcall, hreadable]
    unfold handleResponse
    by_cases htext : jstringTrim c.cd = []
    · simp [htext]
    · rw [if_neg (not_or.mpr ⟨fun h => htext (hnil h), htext⟩)]
      cases hatts : c.atts with
      | nil => simp [expirationOf, htext]
      | cons a atts => exact ⟨fun _ _ => cons_ne_nil a atts, fun _ => ⟨_, rfl⟩⟩
  · exact ⟨fun _ h => absurd h hresponse, fun _ => call_ok_of_ne ad hresponse⟩

theorem foldlM_ok_iff (cs : List ParseCall) (ad : DiscoveryResponse) :
    (∃ b, cs.foldlM handlers.call ad = .ok b) ↔ ∀ c ∈ cs, Readable c := by
  induction cs generalizing ad with
  | nil => simp [pure_eq_ok]
  | cons c cs ih =>
    rw [foldlM_cons, forall_mem_cons]
    constructor
    · rintro ⟨b, hb⟩
      obtain ⟨next, hnext, hrest⟩ := bind_eq_ok.mp hb
      exact ⟨(call_ok_iff ad c).mp ⟨next, hnext⟩, (ih next).mp ⟨b, hrest⟩⟩
    · rintro ⟨hc, hcs⟩
      obtain ⟨next, hnext⟩ := (call_ok_iff ad c).mpr hc
      obtain ⟨b, hb⟩ := (ih next).mpr hcs
      exact ⟨b, bind_eq_ok.mpr ⟨next, hnext, hb⟩⟩

/-- The calls for a part of the document. -/
def fieldCalls : Node → List ParseCall
  | .chars _ => []
  | .element name atts _ children => [⟨0, name, [], attsOf atts, none⟩,
      ⟨0, name, endText (valueOf ((leafText children).getD [])), attsOf atts, none⟩]
  | .empty name atts _ => [⟨0, name, [], attsOf atts, none⟩,
      ⟨0, name, endText [], attsOf atts, none⟩]

theorem readable_fieldCalls_iff {node : Node} (hnode : IsField node) :
    (∀ c ∈ fieldCalls node, Readable c) ↔ Attributed node := by
  have hblank : jstringTrim (endText []) = [] := by decide
  have hstart : jstringTrim [] = [] := rfl
  cases hnode with
  | chars ps => simp [fieldCalls, Attributed]
  | @element name atts space children ps hname htype htext =>
    have hnil : attsOf atts = [] ↔ atts = [] := map_eq_nil_iff
    simp [fieldCalls, Attributed, Readable, htext, jstringTrim_endText, hnil, hstart]
  | @empty name atts space hname htype =>
    simp [fieldCalls, Attributed, Readable, hblank, hstart]

section Read

variable {d : Dialect Kind} {parser : Parser} {kind : Kind}

/-- No entry of the table is for an attribute. -/
theorem attributes_eq_nil (htables : Tables d kind) (name : List Byte) (atts : Atts) (n : Nat) :
    d.attributes kind n name atts = [] := by
  have hkwds : ∀ kwd ∈ [text "Null", documentName, text "Type", text "Count", text "PeerAdv",
      text "Attr", text "Value", text "Response"], (32 : Byte) ∉ kwd := by decide
  have hentry : ∀ a : List Byte, entry (⟨text "Null", .null⟩ :: ⟨documentName, .keep⟩ ::
      keepers Kind [text "Type", text "Count", text "PeerAdv", text "Attr", text "Value",
        text "Response"]) (name ++ text " " ++ a) = none := by
    intro a
    refine find?_eq_none.mpr fun k hk heq => hkwds k.kwd (mem_map_of_mem hk) ?_
    rw [of_decide_eq_true heq]
    simp [text]
  unfold Dialect.attributes Dialect.dispatchTable
  rw [htables.elements, htables.name]
  dsimp only [Option.map_some]
  unfold attributeCalls
  refine filterMap_eq_nil_iff.mpr fun a _ => ?_
  rw [hentry]
  rfl

/-- What an element of a response calls, whatever stood before it. -/
theorem act_field (htables : Tables d kind) {node : Node} (hnode : IsField node)
    (curr : Option (Dispatch.Kwdtab Kind)) (accum : List Byte) (shown : Atts) (made : List Kind)
    (calls : List ParseCall) : ∃ accum' shown',
      d.act node ⟨kind, 1, curr⟩ 0 ⟨accum, shown, made, calls⟩ =
        .ok ⟨accum', shown', made, calls ++ fieldCalls node⟩ := by
  have hone : 1 < maxAdvDepth := Nat.succ_lt_succ (Nat.succ_pos 30)
  cases hnode with
  | chars ps =>
    refine ⟨accum ++ valueOf ps, shown, ?_⟩
    rw [Dialect.act, fieldCalls, append_nil]
  | @element name atts space children ps hname htype htext =>
    have hopen := opening_name htables hname htype
    have hcontent : ∀ (p : Place Kind) (l : Local Kind), l.accum = [] →
        d.actAll children p 0 l = .ok { l with accum := valueOf ps } := by
      intro p l hl
      obtain ⟨accum, shown, made, calls⟩ := l
      obtain rfl : accum = [] := hl
      unfold leafText at htext
      split at htext
      next => obtain rfl := Option.some.inj htext; rfl
      next =>
        cases htext
        simp only [Dialect.actAll, Dialect.act, ok_bind, nil_append]
      next => cases htext
    refine ⟨[], attsOf atts, ?_⟩
    rw [Dialect.act, d.element_shallow hone]
    simp only [hopen, attributes_eq_nil htables, append_nil]
    rw [hcontent _ _ rfl, ok_bind]
    exact congrArg Except.ok (by simp [closeElement, fieldCalls, htext])
  | @empty name atts space hname htype =>
    have hopen := opening_name htables hname htype
    refine ⟨[], attsOf atts, ?_⟩
    rw [Dialect.act, d.element_shallow hone]
    simp only [hopen, attributes_eq_nil htables, append_nil, ok_bind]
    exact congrArg Except.ok (by simp [closeElement, fieldCalls])

theorem actAll_fields (htables : Tables d kind) {nodes : List Node}
    (hnodes : ∀ node ∈ nodes, IsField node) (curr : Option (Dispatch.Kwdtab Kind))
    (accum : List Byte) (shown : Atts) (made : List Kind) (calls : List ParseCall) :
    ∃ accum' shown', d.actAll nodes ⟨kind, 1, curr⟩ 0 ⟨accum, shown, made, calls⟩ =
      .ok ⟨accum', shown', made, calls ++ nodes.flatMap fieldCalls⟩ := by
  induction nodes generalizing accum shown calls with
  | nil => exact ⟨accum, shown, by rw [Dialect.actAll, flatMap_nil, append_nil]⟩
  | cons node nodes ih =>
    obtain ⟨accum₁, shown₁, hnode⟩ :=
      act_field htables (hnodes node mem_cons_self) curr accum shown made calls
    obtain ⟨accum₂, shown₂, hrest⟩ := ih (fun n hn => hnodes n (mem_cons_of_mem node hn))
      accum₁ shown₁ (calls ++ fieldCalls node)
    refine ⟨accum₂, shown₂, ?_⟩
    rw [Dialect.actAll, hnode, ok_bind, hrest, flatMap_cons, append_assoc]

/-- The calls of one advertisement, without others inside. -/
theorem readAd_flat {cs : List ParseCall} (hcs : ∀ c ∈ cs, c.owner = 0 ∧ c.inner = none)
    (ad : DiscoveryResponse) : handlers.readAd ad cs = cs.foldlM handlers.call ad := by
  have hfold : cs.foldlM handlers.onCall (⟨0, [], ad⟩, []) =
      (cs.foldlM handlers.call ad).map fun b => ((⟨0, [], b⟩, []) : Open DiscoveryResponse × _) := by
    induction cs generalizing ad with
    | nil => rfl
    | cons c cs ih =>
      obtain ⟨howner, hinner⟩ := hcs c mem_cons_self
      have hstep : handlers.onCall (⟨0, [], ad⟩, []) c =
          (handlers.call ad c).map fun b => ((⟨0, [], b⟩, []) : Open DiscoveryResponse × _) := by
        unfold Handlers.onCall
        rw [if_pos (by simp [howner]), howner, handlers.settle_self]
        dsimp only
        rw [hinner]
        cases handlers.call ad c <;> rfl
      rw [foldlM_cons, foldlM_cons, hstep]
      cases handlers.call ad c with
      | error e => rfl
      | ok b => exact ih (fun c' hc' => hcs c' (mem_cons_of_mem c hc')) b
  unfold Handlers.readAd
  rw [hfold]
  cases cs.foldlM handlers.call ad <;> rfl

/-- The document of a response is read just if the elements with texts have attributes. -/
theorem read_iff (htables : Tables d kind) (hparser : Conforms parser) {doc : Document}
    (hdoc : IsResponse doc) :
    Read d parser kind doc.source ↔ ∀ node ∈ doc.children, Attributed node := by
  obtain ⟨front, back, cs, hcs, hflat⟩ := hparser doc hdoc.wellFormed
  have hzero : 0 < maxAdvDepth := Nat.succ_pos 31
  have hopen : d.opening kind (attsOf doc.atts) doc.name = .keep ⟨documentName, .keep⟩ := by
    rw [hdoc.name]
    exact opening_name htables (by decide) hdoc.type
  obtain ⟨accum', shown', hcontent⟩ := actAll_fields htables hdoc.fields (some ⟨documentName, .keep⟩)
    [] (attsOf doc.atts) [kind] [⟨0, documentName, [], attsOf doc.atts, none⟩]
  let calls : List ParseCall := [⟨0, documentName, [], attsOf doc.atts, none⟩] ++
    doc.children.flatMap fieldCalls ++ [⟨0, documentName, endText accum', shown', none⟩]
  have hrun : d.run (initial kind) cs = .ok ⟨[], [kind], calls⟩ := by
    have hroot : d.act doc.root ⟨kind, 0, none⟩ 0 ⟨front, [], [kind], []⟩ =
        .ok ⟨[], shown', [kind], calls⟩ := by
      unfold Document.root
      rw [Dialect.act, d.element_shallow hzero]
      simp only [hopen, attributes_eq_nil htables, append_nil, nil_append]
      rw [hcontent, ok_bind]
      exact congrArg Except.ok (by simp [closeElement, calls])
    rw [d.run_root kind rfl hflat, hroot, ok_bind]
  have hone : ∀ c ∈ calls, c.owner = 0 ∧ c.inner = none := by
    intro c hc
    simp only [calls, mem_append, mem_singleton, mem_flatMap] at hc
    rcases hc with (rfl | ⟨node, -, hc⟩) | rfl
    · exact ⟨rfl, rfl⟩
    · cases node with
      | chars ps => simp [fieldCalls] at hc
      | element name atts space children =>
        simp only [fieldCalls, mem_cons, not_mem_nil, or_false] at hc
        rcases hc with rfl | rfl <;> exact ⟨rfl, rfl⟩
      | empty name atts space =>
        simp only [fieldCalls, mem_cons, not_mem_nil, or_false] at hc
        rcases hc with rfl | rfl <;> exact ⟨rfl, rfl⟩
    · exact ⟨rfl, rfl⟩
  have hread : Read d parser kind doc.source ↔ ∃ b, calls.foldlM handlers.call new = .ok b := by
    have hsource : doc.source ≠ [] := by
      unfold Document.source xmlDeclaration
      simp
    unfold Read parseCharbuffer Handlers.parse Dialect.parseCharbuffer
    rw [if_neg hsource, hcs]
    rw [hrun]
    simp only [ok_bind, if_true, pure_bind, readAd_flat hone]
    cases calls.foldlM handlers.call new <;> simp [pure_eq_ok]
  have hroot : ∀ c : ParseCall, c.kwd = documentName → Readable c := fun c hc h =>
    absurd (hc.symm.trans h) (by decide)
  rw [hread, foldlM_ok_iff]
  constructor
  · intro h node hnode
    refine (readable_fieldCalls_iff (hdoc.fields node hnode)).mp fun c hc => h c ?_
    exact mem_append_left _ (mem_append_right _ (mem_flatMap.mpr ⟨node, hnode, hc⟩))
  · intro h c hc
    simp only [calls, mem_append, mem_singleton, mem_flatMap] at hc
    rcases hc with (rfl | ⟨node, hnode, hc⟩) | rfl
    · exact hroot _ rfl
    · exact (readable_fieldCalls_iff (hdoc.fields node hnode)).mpr (h node hnode) c hc
    · exact hroot _ rfl

/-- Plain responses are carried, of markup only such; and the document of a response is read just if
its elements with texts have attributes. -/
theorem carried_and_read_iff {response : Kind} (hresponse : ResolverResponse.Tables d response)
    (htables : Tables d kind) (hparser : Conforms parser) {dr : DiscoveryResponse}
    {rr : ResolverResponse} {pid : JxtaId} (hgiven : Given dr rr pid) {doc : Document}
    (hdoc : IsResponse doc) :
    (Plain dr rr ∧ (∀ node ∈ doc.children, Attributed node) →
      Carried d parser kind response dr rr ∧ Read d parser kind doc.source) ∧
    (Markup dr rr → Carried d parser kind response dr rr ∧ Read d parser kind doc.source →
      Plain dr rr ∧ ∀ node ∈ doc.children, Attributed node) := by
  refine ⟨fun h => ?_, fun hmarkup h => ?_⟩
  · exact ⟨(carried_iff hresponse htables hparser hgiven h.1.markup).mpr h.1,
      (read_iff htables hparser hdoc).mpr h.2⟩
  · exact ⟨(carried_iff hresponse htables hparser hgiven hmarkup).mp h.1,
      (read_iff htables hparser hdoc).mp h.2⟩

end Read

/-! ## a response -/

/-- The advertisements in question here. -/
inductive ResponseKind where
  | resolver
  | discovery
  deriving DecidableEq

/-- `ResolverResponse_tags`, `Jxta_DiscoveryResponse_tags`. -/
def responseElements : ResponseKind → List (Dispatch.Kwdtab ResponseKind)
  | .resolver => keepers ResponseKind [text "jxta:Cred", text "ResPeerID", text "HandlerName",
      text "QueryID", text "Response"]
  | .discovery => keepers ResponseKind [text "Type", text "Count", text "PeerAdv", text "Attr",
      text "Value", text "Response"]

def responseDialect : Dialect ResponseKind where
  documentName
    | .resolver => ResolverResponse.documentName
    | .discovery => documentName
  elements kind := some (responseElements kind)
  globalHandler _ := none
  rank _ := 0
  rank_lt {kind tags k inner} htags hmem hparse := by
    cases htags
    cases kind <;> cases inner <;> exact absurd hparse (by revert k; decide)
  switch_table _ _ _ := rfl
  global_table h := absurd h (by simp)

/-- The answer with these elements. -/
def found (es : List DiscoveryResponseElement) : DiscoveryResponse :=
  ⟨2, es.length, none, [], [], es⟩

/-- The resolver response of no peer in particular for it. -/
def answered : ResolverResponse := ⟨[], some .nullID, text "urn:jxta:discovery", 1, []⟩

/-- `<Response Expiration="1">chat</Response>` -/
def someResponse : Document :=
  ⟨(text "\n", text "\n", text "\n"), documentName, [], [.element (text "Response")
    [⟨text " ", text "Expiration", raw (text "1")⟩] [] [.chars (raw (text "chat"))]]⟩

theorem someResponse_isResponse : IsResponse someResponse where
  wellFormed := by
    have hvalue : IsValue (raw (text "1")) := by
      refine ⟨representable_printed (by decide), fun b hb => ?_⟩
      obtain rfl : b = 49 := by simpa [raw, text, Decimal.ascii] using hb
      rfl
    have hatts : AttsWellFormed [⟨text " ", text "Expiration", raw (text "1")⟩] := by
      refine ⟨fun a ha => ?_, nodup_singleton _⟩
      obtain rfl := mem_singleton.mp ha
      exact ⟨cons_ne_nil _ _, fun _ h => .inl (mem_singleton.mp h),
        (by decide : IsName (text "Expiration")), hvalue⟩
    exact ⟨isBlank_newline, isBlank_newline, isBlank_newline, by decide, attsWellFormed_nil,
      isBlank_nil, isChain_singleton _, ⟨by decide, hatts, by decide,
        isChain_singleton _, isText_raw_plain (by decide), trivial⟩, trivial⟩
  name := rfl
  type := rfl
  fields node hnode := by
    obtain rfl := mem_singleton.mp hnode
    exact .element (by decide) (by decide) rfl

theorem given_found {es : List DiscoveryResponseElement}
    (hes : ∀ e ∈ es, 0 ∉ e.response ∧ -2 ^ 63 ≤ e.expiration ∧ e.expiration < 2 ^ 63)
    (hlen : es.length < 2 ^ 31) : Given (found es) answered .nullID where
  inRange := ⟨by simp [found], ⟨by simp [found], by simp [found]; omega⟩,
    fun e he => (hes e he).2⟩
  queryId := ⟨by decide, by decide⟩
  peerAdv _ hs := absurd hs (by simp [found])
  attr := by simp [found]
  value := by simp [found]
  responselist e he := (hes e he).1
  credential := by decide
  handlerName := by decide
  resPeerId := rfl
  pid h := absurd rfl h

theorem carried_and_read_iff_found :
    Carried responseDialect scan .discovery .resolver (found [⟨text "chat", 1⟩]) answered ∧
      Read responseDialect scan .discovery someResponse.source := by
  refine (carried_and_read_iff ⟨rfl, rfl⟩ ⟨rfl, rfl⟩ scan_conforms
    (given_found ?_ (by decide)) someResponse_isResponse).1 ⟨⟨⟨?_, ?_⟩, ?_, rfl, rfl, rfl, ?_, ?_,
      ?_, ?_⟩, ?_⟩
  · intro e he
    obtain rfl := mem_singleton.mp he
    decide
  · exact fun _ hs => absurd hs (by simp [found])
  · intro e he
    obtain rfl := mem_singleton.mp he
    exact ⟨representable_printed (by decide), by decide⟩
  · exact fun _ hs => absurd hs (by simp [found])
  · intro e he
    obtain rfl := mem_singleton.mp he
    decide
  · exact ⟨by decide, by decide⟩
  · exact isText_raw_plain (by decide)
  · exact isText_raw_plain (by decide)
  · intro node hnode
    obtain rfl := mem_singleton.mp hnode
    exact fun _ _ => cons_ne_nil _ _

/-- Two elements come back in the other order. -/
theorem not_carried_and_read : ¬ Carried responseDialect scan .discovery .resolver
    (found [⟨text "chat", 1⟩, ⟨text "mail", 2⟩]) answered := by
  have hmarkup : Markup (found [⟨text "chat", 1⟩, ⟨text "mail", 2⟩]) answered := by
    refine ⟨⟨fun _ hs => absurd hs (by simp [found]), fun e he => ?_⟩,
      ⟨_, isText_raw_plain (s := []) (by decide), by decide⟩,
      ⟨_, isText_raw_plain (s := text "urn:jxta:discovery") (by decide), by decide⟩⟩
    simp only [found, mem_cons, not_mem_nil, or_false] at he
    rcases he with rfl | rfl <;> exact ⟨representable_printed (by decide), by decide⟩
  have hgiven : Given (found [⟨text "chat", 1⟩, ⟨text "mail", 2⟩]) answered .nullID := by
    refine given_found (fun e he => ?_) (by decide)
    simp only [mem_cons, not_mem_nil, or_false] at he
    rcases he with rfl | rfl <;> decide
  intro hcarried
  have hplain := (carried_iff (d := responseDialect) ⟨rfl, rfl⟩ ⟨rfl, rfl⟩ scan_conforms hgiven
    hmarkup).mp hcarried
  exact absurd hplain.backwards (by decide)

end DiscoveryResponse

end JxtaC
