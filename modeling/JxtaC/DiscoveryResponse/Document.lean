import JxtaC.DiscoveryResponse
import JxtaC.ResolverQuery.Document

/-
  The documents of a discovery response and of a resolver response, and what is read of them
  (`DiscoveryResponse.parse_document`, `ResolverResponse.parse_document`).
-/

namespace JxtaC

open Lib Lib.XmlDocument Dispatch List

theorem isPlain_ofInt {i : Int} {b : Byte} (hb : b ∈ Decimal.ofInt i) : isPlain b = true :=
  isPlain_of_plainByte (plain_ofInt i b hb)

theorem mem_ofInt {i : Int} {b : Byte} (hb : b ∈ Decimal.ofInt i) :
    Decimal.isDigit b = true ∨ b = 45 := by
  cases i with
  | ofNat n => exact .inl (Decimal.isDigit_of_mem hb)
  | negSucc n =>
    rcases mem_cons.mp hb with rfl | hb
    · exact .inr rfl
    · exact .inl (Decimal.isDigit_of_mem hb)

theorem extractCharData_ofInt (i : Int) (rest : List Byte) :
    extractCharData (Decimal.ofInt i ++ rest) ≠ [] := by
  have hplain := plain_ofInt i
  cases hs : Decimal.ofInt i with
  | nil => exact absurd hs (ofInt_ne_nil i)
  | cons b s =>
    rw [hs] at hplain
    obtain ⟨hspace, hzero⟩ := not_space_of_plain (hplain b mem_cons_self)
    unfold extractCharData
    rw [cons_append, dropWhile_cons_of_neg (by simp [hspace]),
      takeWhile_cons_of_pos (by simp [hspace, hzero])]
    exact cons_ne_nil _ _

namespace DiscoveryResponse

/-- The element for a text that was found, behind its expiration. -/
def responseNode (e : DiscoveryResponseElement) : Node :=
  .element (text "Response") [⟨text " ", text "Expiration", raw (Decimal.ofInt e.expiration)⟩] []
    [.chars (raw (text "\n") ++ encoded e.response)]

/-- The elements of the document. -/
def elements (dr : DiscoveryResponse) : List (Node × List Byte) :=
  [(leafNode (text "Type") (raw (Decimal.ofInt dr.type)), text "\n"),
    (leafNode (text "Count") (raw (Decimal.ofInt dr.count)), text "\n")] ++
    ((match dr.peerAdv with
    | some peerAdv => [(leafNode (text "PeerAdv") (encoded peerAdv), text "\n")]
    | none => []) ++
    ([(leafNode (text "Attr") (raw []), text "\n"), (leafNode (text "Value") (raw []), text "\n")] ++
    dr.responselist.reverse.map fun e => (responseNode e, text "\n")))

/-- The document, with white space behind it. -/
def document (dr : DiscoveryResponse) (behind : List Byte) : Document :=
  fieldsDocument documentName (text "\n", text "\n", behind) (text "\n") dr.elements

/-- The texts have nothing in them that a document cannot hold. -/
structure Representable (dr : DiscoveryResponse) : Prop where
  peerAdv : ∀ s, dr.peerAdv = some s → XmlDocument.Representable s ∧ 13 ∉ s
  responselist : ∀ e ∈ dr.responselist, XmlDocument.Representable e.response ∧ 13 ∉ e.response

theorem responseNode_source {e : DiscoveryResponseElement} (he : 0 ∉ e.response) :
    (responseNode e).source ++ text "\n" = text "<Response Expiration=\"" ++
      Decimal.ofInt e.expiration ++ text "\">\n" ++ encodeJstring e.response ++
        text "</Response>\n" := by
  have hfront : 60 :: (text "Response" ++ (text " " ++ (text "Expiration" ++ [61, 34]))) =
      text "<Response Expiration=\"" := by decide
  have hmiddle : [34] ++ ([62] ++ text "\n") = text "\">\n" := by decide
  have hend : endSource (text "Response") ++ text "\n" = text "</Response>\n" := by decide
  rw [← hfront, ← hmiddle, ← hend, encodeJstring_eq he]
  simp [responseNode, Node.source, Node.sources, startSource, tagSource, Attribute.source]

theorem getXml_eq {dr : DiscoveryResponse} (hdr : dr.Representable) :
    dr.getXml = (dr.document (text "\n")).source := by
  have hfront : text "<?xml version=\"1.0\"?>\n" ++ text "<!DOCTYPE jxta:DiscoveryResponse>\n" ++
      text "<jxta:DiscoveryResponse>\n" = xmlDeclaration ++ text "\n" ++ doctypeStart ++
        documentName ++ [62] ++ text "\n" ++ (60 :: (documentName ++ [62]) ++ text "\n") := by decide
  have hback : text "</jxta:DiscoveryResponse>\n" = endSource documentName ++ text "\n" := by decide
  have hprint : dr.responsePrint = (dr.responselist.reverse.map fun e =>
      (responseNode e, text "\n")).flatMap fun f => f.1.source ++ f.2 := by
    unfold responsePrint
    rw [flatMap_map]
    refine flatMap_congr fun e he => (responseNode_source ?_).symm
    exact (hdr.responselist e (mem_reverse.mp he)).1.zero_not_mem
  unfold getXml document
  rw [hfront, hback, hprint, fieldsDocument_source, elements]
  cases hpeer : dr.peerAdv with
  | none => simp [element_eq]
  | some s => simp [element_eq, encodeJstring_eq (hdr.peerAdv s hpeer).1.zero_not_mem]

theorem responseNode_wellFormed {e : DiscoveryResponseElement}
    (he : XmlDocument.Representable e.response ∧ 13 ∉ e.response) : (responseNode e).WellFormed := by
  have hvalue : IsValue (raw (Decimal.ofInt e.expiration)) := by
    have htext := isText_raw_plain fun b hb => isPlain_ofInt (i := e.expiration) hb
    refine ⟨htext.1, fun b hb => ?_⟩
    obtain ⟨c, hc, heq⟩ := mem_map.mp hb
    obtain rfl := Piece.byte.inj heq
    rcases mem_ofInt hc with hdigit | rfl
    · have hall : ∀ n < 256, Decimal.isDigit (UInt8.ofNat n) = true →
          isValueMarkup (UInt8.ofNat n) = false := by decide +kernel
      exact @JxtaId.byte_cases
        (fun b => Decimal.isDigit b = true → isValueMarkup b = false) hall c hdigit
    · rfl
  have htext : IsText (raw (text "\n") ++ encoded e.response) := by
    have hencoded : raw (text "\n") ++ encoded e.response = encoded (text "\n" ++ e.response) := rfl
    rw [hencoded]
    exact isText_encoded ((representable_printed (by decide)).append he.1) (not_mem_append (by decide) he.2)
  refine ⟨by decide, ⟨fun a ha => ?_, nodup_singleton _⟩, by decide, isChain_singleton _,
    htext, trivial⟩
  obtain rfl := mem_singleton.mp ha
  exact ⟨cons_ne_nil _ _, fun _ h => .inl (mem_singleton.mp h),
    (by decide : IsName (text "Expiration")), hvalue⟩

theorem document_wellFormed {dr : DiscoveryResponse} (hdr : dr.Representable) {behind : List Byte}
    (hbehind : IsBlank behind) : (dr.document behind).WellFormed := by
  have hnumber : ∀ i : Int, IsText (raw (Decimal.ofInt i)) := fun i =>
    isText_raw_plain fun b hb => isPlain_ofInt hb
  have hempty : IsText (raw []) := isText_blank isBlank_nil
  refine fieldsDocument_wellFormed (by decide) ⟨isBlank_newline, isBlank_newline, hbehind⟩
    isBlank_newline fun f hf => ?_
  unfold elements at hf
  simp only [mem_append, mem_cons, not_mem_nil, or_false] at hf
  rcases hf with (rfl | rfl) | hf | (rfl | rfl) | hf
  · exact ⟨rfl, leafNode_wellFormed (by decide) (hnumber _), isBlank_newline⟩
  · exact ⟨rfl, leafNode_wellFormed (by decide) (hnumber _), isBlank_newline⟩
  · cases hpeer : dr.peerAdv with
    | none => simp [hpeer] at hf
    | some s =>
      rw [hpeer] at hf
      obtain rfl := mem_singleton.mp hf
      obtain ⟨hs, hcr⟩ := hdr.peerAdv s hpeer
      exact ⟨rfl, leafNode_wellFormed (by decide) (isText_encoded hs hcr), isBlank_newline⟩
  · exact ⟨rfl, leafNode_wellFormed (by decide) hempty, isBlank_newline⟩
  · exact ⟨rfl, leafNode_wellFormed (by decide) hempty, isBlank_newline⟩
  · obtain ⟨e, he, rfl⟩ := mem_map.mp hf
    exact ⟨rfl, responseNode_wellFormed (hdr.responselist e (mem_reverse.mp he)),
      isBlank_newline⟩

/-! ## reading it -/

/-- The numbers of a response fit their types. -/
structure InRange (dr : DiscoveryResponse) : Prop where
  type : -2 ^ 15 ≤ dr.type ∧ dr.type < 2 ^ 15
  count : -2 ^ 31 ≤ dr.count ∧ dr.count < 2 ^ 31
  expiration : ∀ e ∈ dr.responselist, -2 ^ 63 ≤ e.expiration ∧ e.expiration < 2 ^ 63

/-- What is read of the elements, in the order in which they are printed. -/
def receivedList (es : List DiscoveryResponseElement) : List DiscoveryResponseElement :=
  (es.map fun e => { e with response := jstringTrim e.response }).filter fun e => e.response ≠ []

/-- What is read of a response: the attribute and the value are printed without their texts. -/
def received (dr : DiscoveryResponse) : DiscoveryResponse :=
  ⟨dr.type, dr.count, dr.peerAdv.map jstringTrim, endText [], endText [],
    receivedList dr.responselist.reverse⟩

theorem jstringTrim_newline (s : List Byte) : jstringTrim (text "\n" ++ s) = jstringTrim s := rfl

section Reading

variable {Kind : Type} {d : Dialect Kind} {kind : Kind}

theorem opening_name (htables : Tables d kind) {name : List Byte}
    (hname : name ∈ tags.map Prod.fst) {atts : Atts} (htype : typeAttr atts = none) :
    d.opening kind atts name = .keep ⟨name, .keep⟩ := by
  refine Dialect.opening_keep htables.elements htype ?_ rfl
  rw [htables.name]
  simp only [tags, map_cons, map_nil, mem_cons, not_mem_nil, or_false] at hname
  rcases hname with rfl | rfl | rfl | rfl | rfl | rfl | rfl <;> rfl

/-- The elements with the texts that were found. -/
theorem yields_responses (htables : Tables d kind) (curr : Option (Dispatch.Kwdtab Kind))
    (es : List DiscoveryResponseElement)
    (hes : ∀ e ∈ es, -2 ^ 63 ≤ e.expiration ∧ e.expiration < 2 ^ 63) (ad : DiscoveryResponse) :
    handlers.Yields (d.actAll (fields (es.map fun e => (responseNode e, text "\n"))))
      ⟨kind, 1, curr⟩ 0 ad { ad with responselist := ad.responselist ++ receivedList es } := by
  induction es generalizing ad with
  | nil =>
    have hnil : { ad with responselist := ad.responselist ++ receivedList [] } = ad := by
      simp [receivedList]
    rw [hnil]
    exact Handlers.yields_fields_nil _ 0 _
  | cons e es ih =>
    have hone : 1 < maxAdvDepth := Nat.succ_lt_succ (Nat.succ_pos 30)
    let atts : List Attribute := [⟨text " ", text "Expiration", raw (Decimal.ofInt e.expiration)⟩]
    have hatts : attsOf atts = [(text "Expiration", Decimal.ofInt e.expiration)] := by
      simp [atts, attsOf]
    have htype : typeAttr (attsOf atts) = none := by
      rw [hatts]
      rfl
    have hhandled : d.attributes kind 0 (text "Response") (attsOf atts) = [] := by
      rw [hatts]
      unfold Dialect.attributes Dialect.dispatchTable
      rw [htables.elements, htables.name]
      rfl
    have hread := Decimal.strtol_ofInt (hes e mem_cons_self).1 (hes e mem_cons_self).2
    let a := jstringTrim e.response
    let next : DiscoveryResponse :=
      { ad with responselist := ad.responselist ++ if a = [] then [] else [⟨a, e.expiration⟩] }
    have hend : handleResponse ad ⟨0, text "Response", endText (valueOf (raw (text "\n") ++
        encoded e.response)), attsOf atts, none⟩ = .ok next := by
      unfold handleResponse
      rw [valueOf_append, valueOf_raw, valueOf_encoded, jstringTrim_endText, jstringTrim_newline,
        hatts]
      by_cases ha : jstringTrim e.response = []
      · simp [ha, next, a]
      · have hexpiration : expirationOf [(text "Expiration", Decimal.ofInt e.expiration)] =
            .ok e.expiration :=
          congrArg Except.ok ((if_pos (by decide)).trans hread)
        rw [if_neg (not_or.mpr ⟨endText_ne_nil _, ha⟩), hexpiration]
        simp [ha, next, a, pure_eq_ok]
    have hnode : handlers.Yields (d.act (responseNode e)) ⟨kind, 1, curr⟩ 0 ad next := by
      unfold responseNode
      rw [Handlers.act_element]
      exact .leaf hone (opening_name htables (by decide) htype) hhandled rfl hend _ _
    have hlist : next.responselist ++ receivedList es = ad.responselist ++ receivedList (e :: es) := by
      by_cases ha : jstringTrim e.response = [] <;> simp [next, a, receivedList, ha]
    have hrest := ih (fun e' he' => hes e' (mem_cons_of_mem e he')) next
    rw [hlist] at hrest
    exact .field hnode hrest

/-- What is read of the document of a response. -/
theorem parse_document (htables : Tables d kind) {parser : Parser} (hparser : Conforms parser)
    {dr : DiscoveryResponse} (hrange : dr.InRange) (hdr : dr.Representable) {behind : List Byte}
    (hbehind : IsBlank behind) :
    parseCharbuffer d parser kind (dr.document behind).source = .ok dr.received := by
  have hone : 1 < maxAdvDepth := Nat.succ_lt_succ (Nat.succ_pos 30)
  have hopen : ∀ name ∈ tags.map Prod.fst, d.opening kind [] name = .keep ⟨name, .keep⟩ :=
    fun name hname => opening_name htables hname rfl
  have hnumber : ∀ i : Int, endText (valueOf (raw (Decimal.ofInt i))) = Decimal.ofInt i := by
    intro i
    rw [valueOf_raw, endText_of_ne (ofInt_ne_nil i)]
  have hstrtol : ∀ i : Int, -2 ^ 63 ≤ i → i < 2 ^ 63 → strtol0 (Decimal.ofInt i) = i := by
    intro i hlow hhigh
    have hnil : ([] : List Byte) = [] ∨ ([] : List Byte) = text "\n" := .inl rfl
    have h := strtol0_ofInt hlow hhigh hnil
    rwa [append_nil] at h
  have htext : ∀ i : Int, ¬ (Decimal.ofInt i = [] ∨ extractCharData (Decimal.ofInt i) = []) := by
    intro i
    have h := extractCharData_ofInt i []
    rw [append_nil] at h
    exact not_or.mpr ⟨ofInt_ne_nil i, h⟩
  have hfields : handlers.Yields (d.actAll (fields dr.elements))
      ⟨kind, 1, some ⟨documentName, .keep⟩⟩ 0 new dr.received := by
    unfold elements
    refine .fields_append (b := ⟨dr.type, dr.count, none, [], [], []⟩) ?_ ?_
    · refine .field (b := ⟨dr.type, 0, none, [], [], []⟩)
        (Handlers.yields_leafNode hone (hopen _ (by decide)) rfl ?_) ?_
      · show handleType _ _ = _
        obtain ⟨hlow, hhigh⟩ := hrange.type
        unfold handleType
        rw [hnumber, if_neg (htext _), hstrtol _ (by omega) (by omega),
          Int.bmod_eq_of_le (by omega) (by omega)]
        rfl
      refine .field (Handlers.yields_leafNode hone (hopen _ (by decide)) rfl ?_)
        (Handlers.yields_fields_nil _ 0 _)
      show handleCount _ _ = _
      obtain ⟨hlow, hhigh⟩ := hrange.count
      unfold handleCount
      rw [hnumber, if_neg (htext _), hstrtol _ (by omega) (by omega),
        Int.bmod_eq_of_le (by omega) (by omega)]
    refine .fields_append (b := ⟨dr.type, dr.count, dr.peerAdv.map jstringTrim, [], [], []⟩) ?_ ?_
    · cases dr.peerAdv with
      | none => exact Handlers.yields_fields_nil _ 0 _
      | some s =>
        refine .field (Handlers.yields_leafNode hone (hopen _ (by decide)) rfl ?_)
          (Handlers.yields_fields_nil _ 0 _)
        show handlePeerAdv _ _ = _
        unfold handlePeerAdv
        rw [if_neg (endText_ne_nil _), valueOf_encoded, jstringTrim_endText]
        rfl
    refine .fields_append
      (b := ⟨dr.type, dr.count, dr.peerAdv.map jstringTrim, endText [], endText [], []⟩) ?_ ?_
    · exact .field (b := ⟨dr.type, dr.count, dr.peerAdv.map jstringTrim, endText [], [], []⟩)
        (Handlers.yields_leafNode hone (hopen _ (by decide)) rfl rfl)
        (.field (Handlers.yields_leafNode hone (hopen _ (by decide)) rfl rfl)
          (Handlers.yields_fields_nil _ 0 _))
    · exact yields_responses htables _ _
        (fun e he => hrange.expiration e (mem_reverse.mp he)) _
  have hparse := Handlers.parse_document hparser (document_wellFormed hdr hbehind)
    (Handlers.yields_fieldsDocument (hopen _ (by decide)) rfl hfields fun _ _ _ => rfl)
  unfold parseCharbuffer
  rw [document] at hparse ⊢
  rw [hparse]
  rfl

end Reading

end DiscoveryResponse

namespace ResolverResponse
variable {rr : ResolverResponse} {pid : JxtaId} {credential handlerName : List Piece}

/-- The elements of the document; the credential and the name are printed as they are. -/
def elements (rr : ResolverResponse) (pid : JxtaId) (credential handlerName : List Piece) :
    List (Node × List Byte) :=
  optionalNode (text "jxta:Cred") (some credential) (text "\n") ++
    ((if pid = .nullID then [] else [(leafNode (text "ResPeerID") (raw pid.toJString), text "\n")]) ++
    [(leafNode (text "HandlerName") handlerName, text "\n"),
      (leafNode (text "QueryID") (raw (Decimal.ofInt rr.queryId ++ text "\n")), text "\n"),
      (leafNode (text "Response") (encoded (jstringTrim rr.response)), text "\n")])

def document (rr : ResolverResponse) (pid : JxtaId) (credential handlerName : List Piece) :
    Document :=
  fieldsDocument documentName (text "\n", [], text "\n") (text "\n")
    (rr.elements pid credential handlerName)

/-- What a document can hold of a response: the ID of a peer, which is one word, and the text that is
escaped. -/
structure Legible (rr : ResolverResponse) (pid : JxtaId) : Prop where
  resPeerId : rr.resPeerId = some pid
  pid : pid ≠ .nullID → pid.Legible ∧ extractCharData pid.toJString = pid.toJString
  response : XmlDocument.Representable (jstringTrim rr.response) ∧ 13 ∉ jstringTrim rr.response

theorem getXml_eq (hrr : rr.Legible pid)
    (hcredential : jstringTrim rr.credential = sourceOf credential)
    (hhandlerName : jstringTrim rr.handlerName = sourceOf handlerName) :
    rr.getXml = .ok (rr.document pid credential handlerName).source := by
  have hfront : text "<?xml version=\"1.0\"?>\n" ++ text "<!DOCTYPE jxta:ResolverResponse>" ++
      text "<jxta:ResolverResponse>\n" = xmlDeclaration ++ text "\n" ++ doctypeStart ++
        documentName ++ [62] ++ (60 :: (documentName ++ [62]) ++ text "\n") := by decide
  have hback : text "</jxta:ResolverResponse>\n" = endSource documentName ++ text "\n" := by decide
  have hencode : encodeJstring (jstringTrim rr.response) =
      sourceOf (encoded (jstringTrim rr.response)) :=
    encodeJstring_eq hrr.response.1.zero_not_mem
  have hcred : (if jstringTrim rr.credential ≠ [] then
      element (text "jxta:Cred") (jstringTrim rr.credential) ++ text "\n" else []) =
        (optionalNode (text "jxta:Cred") (some credential) (text "\n")).flatMap
          fun f => f.1.source ++ f.2 := by
    rw [optionalNode_source, hcredential]
    unfold DiscoveryQuery.optionalElement
    simp only [Option.map_some, Option.getD_some, ne_eq, ite_not, id_eq]
  unfold getXml document
  rw [hrr.resPeerId, hhandlerName, fieldsDocument_source]
  simp only [ok_bind]
  refine congrArg Except.ok ?_
  rw [hfront, hback, hencode, hcred]
  unfold elements
  by_cases hpid : pid = .nullID
  · simp [element_eq, hpid]
  · simp [element_eq, hpid]

theorem document_wellFormed (hrr : rr.Legible pid) (hcredential : IsText credential)
    (hhandlerName : IsText handlerName) : (rr.document pid credential handlerName).WellFormed := by
  refine fieldsDocument_wellFormed (by decide) (by decide) isBlank_newline fun f hf => ?_
  unfold elements at hf
  simp only [mem_append, mem_cons, not_mem_nil, or_false] at hf
  rcases hf with hf | hf | rfl | rfl | rfl
  · refine optionalNode_wellFormed (by decide) (fun ps hps => ?_) isBlank_newline f hf
    cases hps
    exact hcredential
  · split at hf
    next => simp at hf
    next hpid =>
      obtain rfl := mem_singleton.mp hf
      exact ⟨rfl, leafNode_wellFormed (by decide) (hrr.pid hpid).1.text, isBlank_newline⟩
  · exact ⟨rfl, leafNode_wellFormed (by decide) hhandlerName, isBlank_newline⟩
  · exact ⟨rfl, leafNode_wellFormed (by decide) (isText_number _), isBlank_newline⟩
  · exact ⟨rfl, leafNode_wellFormed (by decide) (isText_encoded hrr.response.1 hrr.response.2),
      isBlank_newline⟩

/-- What is read of a response. -/
def received (rr : ResolverResponse) (pid : JxtaId) (credential handlerName : List Piece) :
    ResolverResponse :=
  ⟨ResolverQuery.receivedCredential credential, some pid, endText (valueOf handlerName),
    rr.queryId.bmod (2 ^ 32), endText (jstringTrim rr.response)⟩

theorem received_response (rr : ResolverResponse) (pid : JxtaId)
    (credential handlerName : List Piece) :
    (rr.received pid credential handlerName).response = endText (jstringTrim rr.response) := rfl

/-- What is read of the document of a response. -/
theorem parse_document {Kind : Type} {d : Dialect Kind} {kind : Kind} (htables : Tables d kind)
    {parser : Parser} (hparser : Conforms parser) (hrr : rr.Legible pid)
    (hrange : -2 ^ 63 ≤ rr.queryId ∧ rr.queryId < 2 ^ 63) (hcredential : IsText credential)
    (hhandlerName : IsText handlerName) :
    parseCharbuffer d parser kind (rr.document pid credential handlerName).source =
      .ok (rr.received pid credential handlerName) := by
  have hone : 1 < maxAdvDepth := Nat.succ_lt_succ (Nat.succ_pos 30)
  have hopen : ∀ name ∈ tags.map Prod.fst, d.opening kind [] name = .keep ⟨name, .keep⟩ := by
    intro name hname
    refine Dialect.opening_keep htables.elements rfl ?_ rfl
    rw [htables.name]
    simp only [tags, map_cons, map_nil, mem_cons, not_mem_nil, or_false] at hname
    rcases hname with rfl | rfl | rfl | rfl | rfl | rfl <;> rfl
  let cred := ResolverQuery.receivedCredential credential
  have hcred : handlers.Yields
      (d.actAll (fields (optionalNode (text "jxta:Cred") (some credential) (text "\n"))))
      ⟨kind, 1, some ⟨documentName, .keep⟩⟩ 0 new ⟨cred, some .nullID, [], -1, []⟩ := by
    unfold optionalNode
    rw [Option.getD_some]
    by_cases hnil : credential = []
    · have hsame : ⟨cred, some .nullID, [], -1, []⟩ = new := by
        simp [cred, ResolverQuery.receivedCredential, hnil, new]
      rw [if_pos hnil, hsame]
      exact Handlers.yields_fields_nil _ 0 _
    · have hcred : cred = endText (valueOf credential) := if_neg hnil
      rw [if_neg hnil, hcred]
      exact .field (Handlers.yields_leafNode hone (hopen _ (by decide)) rfl rfl)
        (Handlers.yields_fields_nil _ 0 _)
  have hpid : handlers.Yields (d.actAll (fields (if pid = .nullID then []
      else [(leafNode (text "ResPeerID") (raw pid.toJString), text "\n")])))
      ⟨kind, 1, some ⟨documentName, .keep⟩⟩ 0 ⟨cred, some .nullID, [], -1, []⟩
        ⟨cred, some pid, [], -1, []⟩ := by
    by_cases hnull : pid = .nullID
    · rw [if_pos hnull, hnull]
      exact Handlers.yields_fields_nil _ 0 _
    · obtain ⟨hlegible, hword⟩ := hrr.pid hnull
      have hfrom := hlegible.fromStr
      rw [hlegible.trimmed] at hfrom
      rw [if_neg hnull]
      refine .field (Handlers.yields_leafNode hone (hopen _ (by decide)) rfl ?_)
        (Handlers.yields_fields_nil _ 0 _)
      have hcall : ∀ ad cd, handlers.call ad ⟨0, text "ResPeerID", cd, [], none⟩ =
          handleResPeerID ad ⟨0, text "ResPeerID", cd, [], none⟩ := fun _ _ => rfl
      rw [hcall]
      unfold handleResPeerID
      rw [valueOf_raw, endText_of_ne pid.toJString_ne_nil, hword,
        if_neg (not_or.mpr ⟨pid.toJString_ne_nil, pid.toJString_ne_nil⟩), hfrom]
      rfl
  have hfields : handlers.Yields (d.actAll (fields (rr.elements pid credential handlerName)))
      ⟨kind, 1, some ⟨documentName, .keep⟩⟩ 0 new (rr.received pid credential handlerName) := by
    unfold elements
    refine hcred.fields_append (hpid.fields_append ?_)
    refine .field (Handlers.yields_leafNode hone (hopen _ (by decide)) rfl rfl) ?_
    refine .field (b := ⟨cred, some pid, endText (valueOf handlerName), rr.queryId.bmod (2 ^ 32), []⟩)
      (Handlers.yields_leafNode hone (hopen _ (by decide)) rfl ?_) ?_
    · show handleQueryID _ _ = _
      unfold handleQueryID
      rw [valueOf_raw, endText_of_ne (DiscoveryQuery.number_ne_nil _), if_neg (not_or.mpr
        ⟨DiscoveryQuery.number_ne_nil _, extractCharData_ofInt _ _⟩),
        strtol0_ofInt hrange.1 hrange.2 (.inr rfl)]
      rfl
    refine .field (Handlers.yields_leafNode hone (hopen _ (by decide)) rfl ?_)
      (Handlers.yields_fields_nil _ 0 _)
    rw [valueOf_encoded]
    rfl
  have hparse := Handlers.parse_document hparser (document_wellFormed hrr hcredential hhandlerName)
    (Handlers.yields_fieldsDocument (hopen _ (by decide)) rfl hfields fun _ _ _ => rfl)
  unfold parseCharbuffer
  rw [document] at hparse ⊢
  rw [hparse]
  rfl

end ResolverResponse

end JxtaC
