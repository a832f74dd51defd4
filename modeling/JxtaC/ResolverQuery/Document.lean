import Mathlib.Data.List.DropRight
import JxtaC.DiscoveryQuery.Document
import JxtaC.ResolverQuery.Route

/-
  The document of a resolver query: what is read of it (`parse_document`). The credential and the name
  of the handler are printed as they are, and may hold references.
-/

namespace JxtaC

open Lib Lib.XmlDocument Dispatch List

theorem jstringTrim_idem (s : List Byte) : jstringTrim (jstringTrim s) = jstringTrim s := by
  have hdrop : ∀ t : List Byte, (t.dropWhile Decimal.isSpace).dropWhile Decimal.isSpace =
      t.dropWhile Decimal.isSpace := fun t => dropWhile_idempotent _ t
  have hprefix : jstringTrim s <+: s.dropWhile Decimal.isSpace := by
    unfold jstringTrim
    rw [← reverse_suffix, reverse_reverse]
    exact dropWhile_suffix _
  have hfront : (jstringTrim s).dropWhile Decimal.isSpace = jstringTrim s := by
    cases htrim : jstringTrim s with
    | nil => rfl
    | cons b t =>
      rw [htrim] at hprefix
      obtain ⟨rest, hrest⟩ := hprefix
      have hb : Decimal.isSpace b = false := by
        have hhead := head?_dropWhile_not Decimal.isSpace s
        rw [← hrest] at hhead
        simpa using hhead
      exact dropWhile_cons_of_neg (by simp [hb])
  have htwice : jstringTrim (jstringTrim s) =
      (((jstringTrim s).dropWhile Decimal.isSpace).reverse.dropWhile Decimal.isSpace).reverse := rfl
  rw [htwice, hfront]
  unfold jstringTrim
  rw [reverse_reverse, hdrop]

namespace ResolverQuery

/-- The element around a route. -/
def routeNode (route : RouteAdvertisement) (dest : AccessPointAdvertisement) : Node :=
  .element (text "SrcPeerRoute") [] [] (.chars (raw []) :: fields [(RouteAdvertisement.node
    route.getDestPID (route.printedDest dest) route.hops, text "\n")])

/-- The element for a route, where there is one with a destination. -/
def routeFields (route : Option RouteAdvertisement) : List (Node × List Byte) :=
  match route with
  | some route =>
    match route.dest with
    | some dest => [(routeNode route dest, text "\n")]
    | none => []
  | none => []

/-- The elements of the document; the credential and the name are printed as they are. -/
def elements (rq : ResolverQuery) (credential handlerName : List Piece) (query : List Byte) :
    List (Node × List Byte) :=
  optionalNode (text "jxta:Cred") (some credential) (text "\n") ++ (routeFields rq.route ++
    [(leafNode (text "SrcPeerID") (raw rq.srcPeerId.toJString), text "\n"),
      (leafNode (text "HandlerName") handlerName, text "\n"),
      (leafNode (text "QueryID") (raw (Decimal.ofInt rq.queryId ++ text "\n")), text "\n"),
      (leafNode (text "HC") (raw (Decimal.ofInt rq.hopCount ++ text "\n")), text "\n"),
      (leafNode (text "Query") (encoded (jstringTrim query)), text "\n")])

def document (rq : ResolverQuery) (credential handlerName : List Piece) (query : List Byte) :
    Document :=
  fieldsDocument (text "jxta:ResolverQuery") (text "\n", [], text "\n") (text "\n")
    (rq.elements credential handlerName query)

/-- What a document can hold of a query: the IDs, the route, and the text that is escaped. -/
structure Legible (rq : ResolverQuery) (query : List Byte) : Prop where
  srcPeerId : rq.srcPeerId.Legible
  route : ∀ route, rq.route = some route → route.Legible
  query : XmlDocument.Representable (jstringTrim query) ∧ 0 ∉ query ∧ 13 ∉ query

theorem mem_jstringTrim {b : Byte} {s : List Byte} (h : b ∈ jstringTrim s) : b ∈ s := by
  unfold jstringTrim at h
  rw [mem_reverse] at h
  have h := (dropWhile_suffix _).subset h
  rw [mem_reverse] at h
  exact (dropWhile_suffix _).subset h

theorem getXml_eq {rq : ResolverQuery} {query : List Byte} (hquery : rq.query = some query)
    (hrq : rq.Legible query) {credential handlerName : List Piece}
    (hcredential : jstringTrim rq.credential = sourceOf credential)
    (hhandlerName : jstringTrim rq.handlerName = sourceOf handlerName) :
    rq.getXml = .ok (rq.document credential handlerName query).source := by
  have hfront : text "<?xml version=\"1.0\"?>\n" ++ text "<!DOCTYPE jxta:ResolverQuery>" ++
      text "<jxta:ResolverQuery>\n" = xmlDeclaration ++ text "\n" ++ doctypeStart ++
        text "jxta:ResolverQuery" ++ [62] ++ (60 :: (text "jxta:ResolverQuery" ++ [62]) ++
          text "\n") := by decide
  have hback : text "</jxta:ResolverQuery>\n" =
      endSource (text "jxta:ResolverQuery") ++ text "\n" := by decide
  have hencode : encodeJstring (jstringTrim query) = sourceOf (encoded (jstringTrim query)) :=
    encodeJstring_eq fun h => hrq.query.2.1 (mem_jstringTrim h)
  have hcred : (if jstringTrim rq.credential ≠ [] then
      element (text "jxta:Cred") (jstringTrim rq.credential) ++ text "\n" else []) =
        (optionalNode (text "jxta:Cred") (some credential) (text "\n")).flatMap
          fun f => f.1.source ++ f.2 := by
    rw [optionalNode_source, hcredential]
    unfold DiscoveryQuery.optionalElement
    simp only [Option.map_some, Option.getD_some, ne_eq, ite_not, id_eq]
  unfold getXml document
  rw [hquery, hhandlerName, fieldsDocument_source]
  unfold elements routeFields
  cases hroute : rq.route with
  | none =>
    simp only [ok_bind]
    refine congrArg Except.ok ?_
    rw [hfront, hback, hencode, hcred]
    simp [element_eq]
  | some route =>
    obtain ⟨dest, hdest, -⟩ := (hrq.route route hroute).dest
    have hnode : (routeNode route dest).source = element (text "SrcPeerRoute")
        ((RouteAdvertisement.node route.getDestPID (route.printedDest dest) route.hops).source ++
          text "\n") := by
      have hstart : startSource (text "SrcPeerRoute") [] [] = startTag (text "SrcPeerRoute") := by
        decide
      have hend : endSource (text "SrcPeerRoute") = endTag (text "SrcPeerRoute") := by decide
      unfold routeNode
      rw [Node.source, Node.sources, Node.source, sourceOf_raw, sources_fields, hstart, hend,
        nil_append, flatMap_singleton, element, append_assoc (startTag _)]
    simp only [RouteAdvertisement.source_node hdest, hdest, ok_bind]
    refine congrArg Except.ok ?_
    rw [hfront, hback, hencode, hcred]
    simp [element_eq, hnode]

theorem routeNode_wellFormed {route : RouteAdvertisement} (hroute : route.Legible)
    {dest : AccessPointAdvertisement} (hprinted : (route.printedDest dest).Legible) : (routeNode route dest).WellFormed := by
  have hnode := hroute.wellFormed hprinted
  refine ⟨by decide, attsWellFormed_nil, by decide, separate_fields [] fun f hf => ?_,
    isText_blank (by decide), allWellFormed_fields fun f hf => ?_⟩
  · obtain rfl := mem_singleton.mp hf
    rfl
  · obtain rfl := mem_singleton.mp hf
    exact ⟨hnode, isBlank_newline⟩

theorem document_wellFormed {rq : ResolverQuery} {query : List Byte} (hrq : rq.Legible query)
    {credential handlerName : List Piece} (hcredential : IsText credential)
    (hhandlerName : IsText handlerName) :
    (rq.document credential handlerName query).WellFormed := by
  refine fieldsDocument_wellFormed (by decide) (by decide) isBlank_newline fun f hf => ?_
  unfold elements at hf
  simp only [mem_append, mem_cons, not_mem_nil, or_false] at hf
  rcases hf with hf | hf | rfl | rfl | rfl | rfl | rfl
  · refine optionalNode_wellFormed (by decide) (fun ps hps => ?_) isBlank_newline f hf
    cases hps
    exact hcredential
  · unfold routeFields at hf
    cases hroute : rq.route with
    | none => simp [hroute] at hf
    | some route =>
      obtain ⟨dest, hdest, hprinted⟩ := (hrq.route route hroute).dest
      rw [hroute] at hf
      simp only [hdest, mem_singleton] at hf
      obtain rfl := hf
      exact ⟨rfl, routeNode_wellFormed (hrq.route route hroute) hprinted, isBlank_newline⟩
  · exact ⟨rfl, leafNode_wellFormed (by decide) hrq.srcPeerId.text, isBlank_newline⟩
  · exact ⟨rfl, leafNode_wellFormed (by decide) hhandlerName, isBlank_newline⟩
  · exact ⟨rfl, leafNode_wellFormed (by decide) (isText_number _), isBlank_newline⟩
  · exact ⟨rfl, leafNode_wellFormed (by decide) (isText_number _), isBlank_newline⟩
  · exact ⟨rfl, leafNode_wellFormed (by decide) (isText_encoded hrq.query.1
      fun h => hrq.query.2.2 (mem_jstringTrim h)), isBlank_newline⟩

/-! ## reading it -/

section Reading

variable {Kind : Type} {d : Dialect Kind} {query route accessPoint : Kind}

/-- What is read of the element around a route. -/
def receivedRoute (route : Option RouteAdvertisement) : Option RouteAdvertisement :=
  route.bind fun route => route.dest.map route.received

theorem yields_receivedRoute (htables : QueryAd.Tables d query route accessPoint)
    {ad : Option RouteAdvertisement} (had : ∀ route, ad = some route → route.Legible) (n : Nat)
    (q : ResolverQuery) (hq : q.route = none) : QueryAd.handlers.Yields
      (d.actAll (fields (routeFields ad))) ⟨query, 1, some ⟨text "jxta:ResolverQuery", .keep⟩⟩ n
        (.query q) (.query { q with route := receivedRoute ad }) := by
  have hone : 1 < maxAdvDepth := Nat.succ_lt_succ (Nat.succ_pos 30)
  unfold routeFields receivedRoute
  cases hsome : ad with
  | none =>
    have hsame : { q with route := none } = q := by rw [← hq]
    rw [Option.bind_none, hsame]
    exact Handlers.yields_fields_nil _ n _
  | some route' =>
    obtain ⟨dest, hdest, hprinted⟩ := (had route' hsome).dest
    have hopen : d.opening query [] (text "SrcPeerRoute") =
        .switch ⟨text "SrcPeerRoute", .switch route⟩ route :=
      Dialect.opening_switch_of htables.query_elements rfl (by rw [htables.query_name]; rfl) rfl
    have hroot : d.opening route [] (d.documentName route) = .keep ⟨text "jxta:RA", .keep⟩ :=
      Dialect.opening_keep htables.route_elements rfl (by rw [htables.route_name]; rfl) rfl
    have hdeep : 1 + 2 < maxAdvDepth := by decide
    simp only [Option.bind_some, hdest, Option.map_some]
    refine .field ?_ (Handlers.yields_fields_nil _ n _)
    unfold routeNode
    rw [Handlers.act_element]
    refine .switch (b := .query q) (e := .route .new) (f := .route (route'.received dest)) hone
      hopen (d.attributes_nil _ _ _) (fun m => rfl) (fun m => rfl) _ (fun m => ?_) rfl _
    refine .keep (b := .route .new) (c := .route (route'.received dest)) (Nat.succ_pos 31) hroot
      (d.attributes_nil _ _ _) rfl ?_ ?_ _ _
    · exact (Handlers.yields_chars _ _ _ _).cons (.field (RouteAdvertisement.yields_received htables
        hdeep _ m (had route' hsome) hprinted) (Handlers.yields_fields_nil _ m _))
    · intro t shown ht
      exact congrArg (fun e => e.map QueryAd.route)
        (RouteAdvertisement.handleRouteAdvertisement_received route' dest ht)

theorem jstringTrim_number (i : Int) : jstringTrim (Decimal.ofInt i ++ text "\n") = Decimal.ofInt i := by
  have hspace : ∀ b ∈ Decimal.ofInt i, Decimal.isSpace b = false := fun b hb =>
    (not_space_of_plain (plain_ofInt i b hb)).1
  have hkeep : ∀ s : List Byte, (∀ b ∈ s, Decimal.isSpace b = false) →
      s.dropWhile Decimal.isSpace = s := by
    intro s hs
    cases s with
    | nil => rfl
    | cons b s => exact dropWhile_cons_of_neg (by simp [hs b mem_cons_self])
  rw [jstringTrim_append_newline]
  unfold jstringTrim
  rw [hkeep _ hspace, hkeep _ fun b hb => hspace b (mem_reverse.mp hb), reverse_reverse]

/-- The numbers of a query fit their types. -/
structure InRange (rq : ResolverQuery) : Prop where
  queryId : -2 ^ 63 ≤ rq.queryId ∧ rq.queryId < 2 ^ 63
  hopCount : -2 ^ 31 ≤ rq.hopCount ∧ rq.hopCount < 2 ^ 31

/-- What is read of the credential. -/
def receivedCredential (credential : List Piece) : List Byte :=
  if credential = [] then [] else endText (valueOf credential)

section
variable (htables : QueryAd.Tables d query route accessPoint)
include htables

theorem yields_credential (credential : List Piece) (n : Nat) : QueryAd.handlers.Yields
      (d.actAll (fields (optionalNode (text "jxta:Cred") (some credential) (text "\n"))))
      ⟨query, 1, some ⟨text "jxta:ResolverQuery", .keep⟩⟩ n (.query .new)
      (.query { ResolverQuery.new with credential := receivedCredential credential }) := by
  have hone : 1 < maxAdvDepth := Nat.succ_lt_succ (Nat.succ_pos 30)
  unfold optionalNode receivedCredential
  rw [Option.getD_some]
  split
  · exact Handlers.yields_fields_nil _ n _
  · have hopen : d.opening query [] (text "jxta:Cred") = .keep ⟨text "jxta:Cred", .keep⟩ :=
      Dialect.opening_keep htables.query_elements rfl (by rw [htables.query_name]; rfl) rfl
    exact .field (Handlers.yields_leafNode hone hopen rfl rfl) (Handlers.yields_fields_nil _ n _)

/-- What is read of the document of a query, and of the route in it. -/
theorem parse_received {parser : Parser} (hparser : Conforms parser) {rq : ResolverQuery}
    {body : List Byte} (hrq : rq.Legible body) (hrange : rq.InRange)
    (hpeer : rq.srcPeerId ≠ .nullID) {credential handlerName : List Piece}
    (hcredential : IsText credential) (hhandlerName : IsText handlerName) :
    parseCharbuffer d parser query (rq.document credential handlerName body).source =
      .ok (⟨receivedCredential credential, rq.srcPeerId, receivedRoute rq.route,
        jstringTrim (valueOf handlerName), rq.queryId, some (jstringTrim body), rq.hopCount⟩,
          .success) := by
  have hone : 1 < maxAdvDepth := Nat.succ_lt_succ (Nat.succ_pos 30)
  have hopen : ∀ name ∈ [text "jxta:ResolverQuery", text "SrcPeerID", text "HandlerName",
      text "QueryID", text "HC", text "Query"], d.opening query [] name = .keep ⟨name, .keep⟩ := by
    intro name hname
    refine Dialect.opening_keep htables.query_elements rfl ?_ rfl
    rw [htables.query_name]
    simp only [mem_cons, not_mem_nil, or_false] at hname
    rcases hname with rfl | rfl | rfl | rfl | rfl | rfl <;> rfl
  let r := receivedRoute rq.route
  have hr := yields_receivedRoute htables hrq.route 0
    { new with credential := receivedCredential credential } rfl
  let q : ResolverQuery := ⟨receivedCredential credential, .nullID, r, [], -1, none, 0⟩
  have hpid : q.handleSrcPeerID (endText (valueOf (raw rq.srcPeerId.toJString))) =
      .ok { q with srcPeerId := rq.srcPeerId } := by
    unfold handleSrcPeerID
    rw [if_neg (endText_ne_nil _), jstringTrim_endText, valueOf_raw, hrq.srcPeerId.fromStr]
    rfl
  have hnumber : ∀ i : Int, endText (valueOf (raw (Decimal.ofInt i ++ text "\n"))) =
      Decimal.ofInt i ++ text "\n" := fun i => by
    rw [valueOf_raw, endText_of_ne (DiscoveryQuery.number_ne_nil i)]
  have hfields : QueryAd.handlers.Yields
      (d.actAll (fields (rq.elements credential handlerName body)))
      ⟨query, 1, some ⟨text "jxta:ResolverQuery", .keep⟩⟩ 0 (.query .new)
      (.query ⟨receivedCredential credential, rq.srcPeerId, r, jstringTrim (valueOf handlerName),
        rq.queryId, some (jstringTrim body), rq.hopCount⟩) := by
    unfold elements
    refine (yields_credential htables credential 0).fields_append (hr.fields_append ?_)
    refine .field (b := .query { q with srcPeerId := rq.srcPeerId })
      (Handlers.yields_leafNode hone (hopen _ (by simp)) rfl ?_) ?_
    · exact congrArg (fun e => e.map QueryAd.query) hpid
    let named : ResolverQuery :=
      { q with srcPeerId := rq.srcPeerId, handlerName := jstringTrim (valueOf handlerName) }
    refine .field (b := .query named)
      (Handlers.yields_leafNode hone (hopen _ (by simp)) rfl ?_) ?_
    · have hname : handleHandlerName { q with srcPeerId := rq.srcPeerId }
          (endText (valueOf handlerName)) = .ok named := by
        unfold handleHandlerName
        rw [if_neg (endText_ne_nil _), jstringTrim_endText]
      exact congrArg (fun e => e.map QueryAd.query) hname
    let numbered : ResolverQuery := { named with queryId := rq.queryId }
    refine .field (b := .query numbered)
      (Handlers.yields_leafNode hone (hopen _ (by simp)) rfl ?_) ?_
    · have hid : handleQueryID named (endText (valueOf (raw (Decimal.ofInt rq.queryId ++
          text "\n")))) = .ok numbered := by
        have hnil : ([] : List Byte) = [] ∨ ([] : List Byte) = text "\n" := .inl rfl
        have hstrtol := strtol0_ofInt hrange.queryId.1 hrange.queryId.2 hnil
        rw [append_nil] at hstrtol
        unfold handleQueryID
        rw [if_neg (endText_ne_nil _), hnumber, jstringTrim_number, hstrtol]
      exact congrArg (fun e => e.map QueryAd.query) hid
    let counted : ResolverQuery := { numbered with hopCount := rq.hopCount }
    refine .field (b := .query counted)
      (Handlers.yields_leafNode hone (hopen _ (by simp)) rfl ?_) ?_
    · have hcount : handleHopCount numbered (endText (valueOf (raw (Decimal.ofInt rq.hopCount ++
          text "\n")))) = .ok counted := by
        have hset : Discovery.setHopcount rq.hopCount = rq.hopCount :=
          Int.bmod_eq_of_le (by simpa [uintMod] using hrange.hopCount.1)
            (by simpa [uintMod] using hrange.hopCount.2)
        unfold handleHopCount setHopcount
        rw [if_neg (endText_ne_nil _), hnumber, jstringTrim_number,
          Decimal.atoi_ofInt hrange.hopCount.1 hrange.hopCount.2, hset]
      exact congrArg (fun e => e.map QueryAd.query) hcount
    refine .field (Handlers.yields_leafNode hone (hopen _ (by simp)) rfl ?_)
      (Handlers.yields_fields_nil _ 0 _)
    have hbody : handleQuery counted (endText (valueOf (encoded (jstringTrim body)))) =
        .ok { counted with query := some (jstringTrim body) } := by
      unfold handleQuery
      rw [if_neg (endText_ne_nil _), jstringTrim_endText, valueOf_encoded, jstringTrim_idem]
    exact congrArg (fun e => e.map QueryAd.query) hbody
  have hparse := Handlers.parse_document hparser
    (document_wellFormed hrq hcredential hhandlerName)
    (Handlers.yields_fieldsDocument (hopen _ (by simp)) rfl hfields fun _ _ _ => rfl)
  unfold parseCharbuffer
  rw [document] at hparse ⊢
  rw [hparse]
  have hnull : JxtaId.equals rq.srcPeerId .nullID = false := by
    cases hid : rq.srcPeerId with
    | uuid a => rfl
    | jxta a =>
      refine decide_eq_false fun heq => hpeer ?_
      rw [hid, heq]
      rfl
  have hvalid : validateMsg ⟨receivedCredential credential, rq.srcPeerId, r,
      jstringTrim (valueOf handlerName), rq.queryId, some (jstringTrim body), rq.hopCount⟩ =
        .success := by
    unfold validateMsg
    rw [if_neg (by simp [hnull]), if_neg (by simp)]
  exact congrArg (fun status => Except.ok (_, status)) hvalid

/-- What is read of the document of a query. -/
theorem parse_document {parser : Parser} (hparser : Conforms parser) {rq : ResolverQuery}
    {body : List Byte} (hrq : rq.Legible body) (hrange : rq.InRange)
    (hpeer : rq.srcPeerId ≠ .nullID) {credential handlerName : List Piece}
    (hcredential : IsText credential) (hhandlerName : IsText handlerName) :
    ∃ r, parseCharbuffer d parser query (rq.document credential handlerName body).source =
      .ok (⟨receivedCredential credential, rq.srcPeerId, r, jstringTrim (valueOf handlerName),
        rq.queryId, some (jstringTrim body), rq.hopCount⟩, .success) :=
  ⟨receivedRoute rq.route,
    parse_received htables hparser hrq hrange hpeer hcredential hhandlerName⟩

end

end Reading

end ResolverQuery

end JxtaC
