import JxtaC.Advertisement.AccessPoints
import JxtaC.DiscoveryQuery

/-
  The document of a route (jxta_routea.c) inside a resolver query: it is read without a null pointer
  being followed, whatever its hops are (`yields_route`).
-/

namespace JxtaC

open Lib Lib.XmlDocument Dispatch List

namespace RouteAdvertisement

/-- The elements of the document. -/
def elements (pid : Option JxtaId) (dest : AccessPointAdvertisement)
    (hops : List AccessPointAdvertisement) : List (Node × List Byte) :=
  (match pid with
  | some pid => [(leafNode (text "DstPID") (raw pid.toJString), [])]
  | none => []) ++
    ([(.element (text "Dst") [] [] (.chars (raw []) :: fields [(dest.node, text "\n")]), text "\n")] ++
    if hops = [] then []
    else [(.element (text "Hops") [] [] (.chars (raw (text "\n")) ::
      fields (hops.map fun hop => (hop.node, text "\n"))), text "\n")])

/-- The document of a route, inside another one. -/
def node (pid : Option JxtaId) (dest : AccessPointAdvertisement)
    (hops : List AccessPointAdvertisement) : Node :=
  .element (text "jxta:RA") [AccessPointAdvertisement.xmlns] []
    (.chars (raw (text "\n")) :: fields (elements pid dest hops))

/-- The destination as it is printed: without its peer id, if the route has one. -/
def printedDest (ad : RouteAdvertisement) (dest : AccessPointAdvertisement) :
    AccessPointAdvertisement :=
  if ad.getDestPID = none then dest else { dest with pid := none }

theorem source_node {ad : RouteAdvertisement} {dest : AccessPointAdvertisement}
    (hdest : ad.dest = some dest) :
    ad.getXml = some ((node ad.getDestPID (ad.printedDest dest) ad.hops).source ++ text "\n") := by
  have hstart : startSource (text "jxta:RA") [AccessPointAdvertisement.xmlns] [] ++ text "\n" =
      text "<jxta:RA xmlns:jxta=\"http://jxta.org\">\n" := by decide
  have hend : endSource (text "jxta:RA") ++ text "\n" = text "</jxta:RA>\n" := by decide
  have hdst : ∀ apa : AccessPointAdvertisement,
      (Node.element (text "Dst") [] [] (.chars (raw []) :: fields [(apa.node, text "\n")])).source =
        element (text "Dst") apa.getXml := by
    intro apa
    have hdststart : startSource (text "Dst") [] [] = startTag (text "Dst") := by decide
    have hdstend : endSource (text "Dst") = endTag (text "Dst") := by decide
    rw [Node.source, Node.sources, Node.source, sourceOf_raw, sources_fields, hdststart, hdstend,
      nil_append, flatMap_singleton, apa.source_node, element, append_assoc]
  have hhops : (ad.hops.map fun hop => (hop.node, text "\n")).flatMap
      (fun f => f.1.source ++ f.2) = ad.hops.flatMap AccessPointAdvertisement.getXml := by
    rw [flatMap_map]
    exact flatMap_congr fun hop _ => hop.source_node
  have hhopsstart : startSource (text "Hops") [] [] ++ text "\n" = text "<Hops>\n" := by decide
  have hhopsend : endSource (text "Hops") ++ text "\n" = text "</Hops>\n" := by decide
  unfold getXml node
  rw [hdest]
  rw [Node.source, Node.sources, Node.source, sourceOf_raw, sources_fields]
  unfold elements
  rw [flatMap_append, flatMap_append, flatMap_singleton, hdst, ← hstart, ← hend]
  unfold printedDest
  by_cases hempty : ad.hops = []
  · cases ad.getDestPID with
    | none => simp [hempty]
    | some pid => simp [hempty, element_eq]
  · have hnode : (Node.element (text "Hops") [] [] (.chars (raw (text "\n")) ::
        fields (ad.hops.map fun hop => (hop.node, text "\n")))).source ++ text "\n" =
          text "<Hops>\n" ++ ad.hops.flatMap AccessPointAdvertisement.getXml ++ text "</Hops>\n" := by
      rw [Node.source, Node.sources, Node.source, sourceOf_raw, sources_fields, hhops, ← hhopsstart,
        ← hhopsend]
      simp only [append_assoc]
    rw [if_neg hempty, if_neg hempty, flatMap_singleton, hnode]
    cases ad.getDestPID with
    | none => simp
    | some pid => simp [element_eq]

/-- A route that a document can hold. -/
structure Legible (ad : RouteAdvertisement) : Prop where
  dest : ∃ dest, ad.dest = some dest ∧ (ad.printedDest dest).Legible
  pid : ∀ pid, ad.getDestPID = some pid → pid.Legible
  hops : ∀ hop ∈ ad.hops, hop.Legible

theorem Legible.wellFormed {ad : RouteAdvertisement} (h : ad.Legible) {dest : AccessPointAdvertisement}
    (hdest : (ad.printedDest dest).Legible) :
    (node ad.getDestPID (ad.printedDest dest) ad.hops).WellFormed := by
  have happ : ∀ apa : AccessPointAdvertisement, apa.Legible →
      apa.node.isChars = false ∧ apa.node.WellFormed ∧ IsBlank (text "\n") :=
    fun apa hapa => ⟨rfl, hapa.wellFormed, isBlank_newline⟩
  have helements : ∀ f ∈ elements ad.getDestPID (ad.printedDest dest) ad.hops,
      f.1.isChars = false ∧ f.1.WellFormed ∧ IsBlank f.2 := by
    intro f hf
    unfold elements at hf
    rw [mem_append, mem_append, mem_singleton] at hf
    rcases hf with hf | rfl | hf
    · cases hpid : ad.getDestPID with
      | none => simp [hpid] at hf
      | some pid =>
        rw [hpid] at hf
        obtain rfl := mem_singleton.mp hf
        exact ⟨rfl, leafNode_wellFormed (by decide) (h.pid pid hpid).text, isBlank_nil⟩
    · have hfields : ∀ f ∈ [((ad.printedDest dest).node, text "\n")],
          f.1.isChars = false ∧ f.1.WellFormed ∧ IsBlank f.2 := by
        intro f hf
        obtain rfl := mem_singleton.mp hf
        exact happ _ hdest
      exact ⟨rfl, ⟨by decide, attsWellFormed_nil, by decide,
        separate_fields _ fun f hf => (hfields f hf).1, isText_blank (by decide),
        allWellFormed_fields fun f hf => (hfields f hf).2⟩, isBlank_newline⟩
    · split at hf
      · simp at hf
      · obtain rfl := mem_singleton.mp hf
        have hfields : ∀ f ∈ ad.hops.map fun hop => (hop.node, text "\n"),
            f.1.isChars = false ∧ f.1.WellFormed ∧ IsBlank f.2 := by
          intro f hf
          obtain ⟨hop, hhop, rfl⟩ := mem_map.mp hf
          exact happ hop (h.hops hop hhop)
        exact ⟨rfl, ⟨by decide, attsWellFormed_nil, by decide,
          separate_fields _ fun f hf => (hfields f hf).1, isText_blank (by decide),
          allWellFormed_fields fun f hf => (hfields f hf).2⟩, isBlank_newline⟩
  exact ⟨by decide, AccessPointAdvertisement.xmlns_wellFormed, by decide,
    separate_fields _ fun f hf => (helements f hf).1, isText_blank isBlank_newline,
    allWellFormed_fields fun f hf => (helements f hf).2⟩

/-! ## reading it -/

theorem hasAccessPoints : HasAccessPoints QueryAd.handlers .accessPoint := by
  intro ad c
  obtain ⟨owner, kwd, cd, atts, inner⟩ := c
  by_cases hpid : kwd = text "PID"
  · subst hpid
    rfl
  by_cases hea : kwd = text "EA"
  · subst hea
    rfl
  have hcall : ad.call ⟨owner, kwd, cd, atts, inner⟩ = .ok ad := by
    unfold AccessPointAdvertisement.call
    rw [if_neg hpid, if_neg hea]
  rw [hcall]
  by_cases happ : kwd = text "jxta:APA"
  · subst happ
    rfl
  have hentry : QueryAd.entryOf (.accessPoint ad) ⟨owner, kwd, cd, atts, inner⟩ = none := by
    refine find?_eq_none.mpr fun k hk => ?_
    simp only [QueryAd.dialect, QueryAd.accessPointTags, mem_cons, not_mem_nil,
      or_false] at hk
    rcases hk with rfl | rfl | rfl
    · simpa using fun h => happ h.symm
    · simpa using fun h => hpid h.symm
    · simpa using fun h => hea h.symm
  unfold QueryAd.handlers
  dsimp only
  rw [hentry]
  rfl

variable {Kind : Type} {d : Dialect Kind} {query route accessPoint : Kind}

/-- An access point inside a route. -/
theorem yields_accessPointNode (htables : QueryAd.Tables d query route accessPoint) {depth : Nat}
    (hdepth : depth < maxAdvDepth) (curr : Option (Dispatch.Kwdtab Kind)) (n : Nat)
    {apa : AccessPointAdvertisement} (hapa : apa.Legible) (r : RouteAdvertisement) :
    QueryAd.handlers.Yields (d.act apa.node) ⟨route, depth, curr⟩ n (.route r)
      (.route (r.adoptAccessPoint (AccessPointAdvertisement.new.merge apa))) := by
  have htable : AccessPointTable d accessPoint :=
    ⟨htables.accessPoint_name, htables.accessPoint_elements⟩
  have hopen : d.opening route (attsOf [AccessPointAdvertisement.xmlns]) (text "jxta:APA") =
      .switch ⟨text "jxta:APA", .switch accessPoint⟩ accessPoint :=
    Dialect.opening_switch_of htables.route_elements (by decide) (by rw [htables.route_name]; rfl) rfl
  have hopen' : d.opening accessPoint (attsOf [AccessPointAdvertisement.xmlns])
      (d.documentName accessPoint) = .keep ⟨text "jxta:APA", .keep⟩ :=
    Dialect.opening_keep htable.elements (by decide) (by rw [htable.name]; rfl) rfl
  have hatts : d.attributes route n (text "jxta:APA") (attsOf [AccessPointAdvertisement.xmlns]) =
      [] := by
    unfold Dialect.attributes Dialect.dispatchTable
    rw [htables.route_elements, htables.route_name]
    rfl
  have hatts' : ∀ m, d.attributes accessPoint m (d.documentName accessPoint)
      (attsOf [AccessPointAdvertisement.xmlns]) = [] := by
    intro m
    unfold Dialect.attributes Dialect.dispatchTable
    rw [htable.elements, htable.name]
    rfl
  unfold AccessPointAdvertisement.node
  rw [Handlers.act_element]
  refine .switch (b := .route r) hdepth hopen hatts (fun m => rfl) (fun m => rfl) _
    (fun m => .keep (Nat.succ_pos 31) hopen' (hatts' m) (hasAccessPoints _ _)
      (yields_accessPoint hasAccessPoints htable (Nat.succ_lt_succ (Nat.succ_pos 30)) _ m hapa _)
      (fun t shown _ => hasAccessPoints _ _) _ _) ?_ _
  rfl

theorem yields_hops (htables : QueryAd.Tables d query route accessPoint) {depth : Nat}
    (hdepth : depth < maxAdvDepth) (curr : Option (Dispatch.Kwdtab Kind)) (n : Nat)
    {hops : List AccessPointAdvertisement} (hhops : ∀ hop ∈ hops, hop.Legible)
    (r : RouteAdvertisement) :
    QueryAd.handlers.Yields (d.actAll (fields (hops.map fun hop => (hop.node, text "\n"))))
      ⟨route, depth, curr⟩ n (.route r) (.route (hops.foldl
        (fun r hop => r.adoptAccessPoint (AccessPointAdvertisement.new.merge hop)) r)) := by
  induction hops generalizing r with
  | nil => exact Handlers.yields_fields_nil _ n _
  | cons hop hops ih =>
    exact .field (yields_accessPointNode htables hdepth curr n (hhops hop mem_cons_self) r)
      (ih (fun hop' hmem => hhops hop' (mem_cons_of_mem hop hmem)) _)

theorem foldl_adopt (hops : List AccessPointAdvertisement) (r : RouteAdvertisement)
    (hr : r.apaLocation = .inHops) :
    hops.foldl (fun r hop => r.adoptAccessPoint (AccessPointAdvertisement.new.merge hop)) r =
      { r with hops := r.hops ++ hops.map AccessPointAdvertisement.new.merge } := by
  induction hops generalizing r with
  | nil => rw [map_nil, append_nil, foldl_nil]
  | cons hop hops ih =>
    have hadopt : r.adoptAccessPoint (AccessPointAdvertisement.new.merge hop) =
        { r with hops := r.hops ++ [AccessPointAdvertisement.new.merge hop] } := by
      unfold adoptAccessPoint
      rw [hr]
    rw [foldl_cons, hadopt]
    refine (ih { r with hops := r.hops ++ [AccessPointAdvertisement.new.merge hop] } hr).trans ?_
    rw [append_assoc]
    rfl

/-- What is read of the document of a route: the texts of its access points are trimmed. -/
def received (ad : RouteAdvertisement) (dest : AccessPointAdvertisement) : RouteAdvertisement :=
  ⟨ad.getDestPID, some { AccessPointAdvertisement.new.merge (ad.printedDest dest) with
    pid := ad.getDestPID.or (ad.printedDest dest).pid },
    ad.hops.map AccessPointAdvertisement.new.merge, .nowhere⟩

theorem handleRouteAdvertisement_received (ad : RouteAdvertisement)
    (dest : AccessPointAdvertisement) {t : List Byte} (ht : t ≠ []) :
    (ad.received dest).handleRouteAdvertisement t = .ok (ad.received dest) := by
  unfold handleRouteAdvertisement received
  rw [if_neg ht]
  cases ad.getDestPID <;> rfl

section
variable (htables : QueryAd.Tables d query route accessPoint)
include htables

theorem opening_field {name : List Byte} (hname : name ∈ [text "DstPID", text "Dst", text "Hops"]) :
    d.opening route [] name = .keep ⟨name, .keep⟩ := by
  refine Dialect.opening_keep htables.route_elements rfl ?_ rfl
  rw [htables.route_name]
  simp only [mem_cons, not_mem_nil, or_false] at hname
  rcases hname with rfl | rfl | rfl <;> rfl

theorem yields_destPID {depth : Nat} (hdepth : depth < maxAdvDepth)
    (curr : Option (Dispatch.Kwdtab Kind)) (n : Nat) (pid : Option JxtaId) :
    (∀ jid, pid = some jid → jid.Legible) →
      QueryAd.handlers.Yields (d.actAll (fields (match pid with
      | some pid => [(leafNode (text "DstPID") (raw pid.toJString), [])]
      | none => []))) ⟨route, depth, curr⟩ n (.route .new) (.route ⟨pid, none, [], .nowhere⟩) := by
  intro hpid
  cases hsome : pid with
  | none => exact Handlers.yields_fields_nil _ n _
  | some jid =>
    have hopen : d.opening route [] (text "DstPID") = .keep ⟨text "DstPID", .keep⟩ :=
      opening_field htables (by simp)
    refine .field (Handlers.yields_leafNode hdepth hopen rfl ?_) (Handlers.yields_fields_nil _ n _)
    have hfrom := (hpid jid hsome).fromStr
    have hparse : QueryAd.handlers.call (.route .new)
        ⟨n, text "DstPID", endText (valueOf (raw jid.toJString)), [], none⟩ =
          (RouteAdvertisement.new.handleDestPID (endText (valueOf (raw jid.toJString)))).map
            QueryAd.route := rfl
    rw [hparse]
    unfold handleDestPID
    rw [if_neg (endText_ne_nil _), jstringTrim_endText, valueOf_raw, hfrom]
    rfl

theorem yields_dest {depth : Nat} (hdepth : depth + 1 < maxAdvDepth)
    (curr : Option (Dispatch.Kwdtab Kind)) (n : Nat) (pid : Option JxtaId)
    {dest : AccessPointAdvertisement} (hdest : dest.Legible) :
    QueryAd.handlers.Yields (d.act (.element (text "Dst") [] []
      (.chars (raw []) :: fields [(dest.node, text "\n")]))) ⟨route, depth, curr⟩ n
        (.route ⟨pid, none, [], .nowhere⟩)
        (.route ⟨pid, some (AccessPointAdvertisement.new.merge dest), [], .nowhere⟩) := by
  rw [Handlers.act_element]
  refine .keep (b := .route ⟨pid, none, [], .inDst⟩)
    (c := .route ⟨pid, some (AccessPointAdvertisement.new.merge dest), [], .inDst⟩)
    (Nat.lt_of_succ_lt hdepth) (opening_field htables (by simp)) (d.attributes_nil _ _ _) rfl ?_ ?_
    _ _
  · exact (Handlers.yields_chars _ _ _ _).cons (.field (yields_accessPointNode htables hdepth _ n
      hdest _) (Handlers.yields_fields_nil _ n _))
  · intro t shown ht
    exact congrArg (fun l => Except.ok (QueryAd.route
      ⟨pid, some (AccessPointAdvertisement.new.merge dest), [], l⟩)) (if_neg ht)

theorem yields_hopsField {depth : Nat} (hdepth : depth + 1 < maxAdvDepth)
    (curr : Option (Dispatch.Kwdtab Kind)) (n : Nat) (pid : Option JxtaId)
    (dest : Option AccessPointAdvertisement) {hops : List AccessPointAdvertisement}
    (hhops : ∀ hop ∈ hops, hop.Legible) :
    QueryAd.handlers.Yields (d.actAll (fields (if hops = [] then []
      else [(.element (text "Hops") [] [] (.chars (raw (text "\n")) ::
        fields (hops.map fun hop => (hop.node, text "\n"))), text "\n")]))) ⟨route, depth, curr⟩ n
          (.route ⟨pid, dest, [], .nowhere⟩)
          (.route ⟨pid, dest, hops.map AccessPointAdvertisement.new.merge, .nowhere⟩) := by
  split
  next hempty =>
    subst hempty
    exact Handlers.yields_fields_nil _ n _
  next =>
    refine .field ?_ (Handlers.yields_fields_nil _ n _)
    rw [Handlers.act_element]
    refine .keep (b := .route ⟨pid, dest, [], .inHops⟩)
      (c := .route ⟨pid, dest, hops.map AccessPointAdvertisement.new.merge, .inHops⟩)
      (Nat.lt_of_succ_lt hdepth) (opening_field htables (by simp)) (d.attributes_nil _ _ _) rfl ?_ ?_
      _ _
    · have hread := yields_hops htables hdepth (some ⟨text "Hops", .keep⟩) n hhops
        ⟨pid, dest, [], .inHops⟩
      rw [foldl_adopt hops _ rfl, nil_append] at hread
      exact (Handlers.yields_chars _ _ _ _).cons hread
    · intro t shown ht
      exact congrArg (fun l => Except.ok (QueryAd.route
        ⟨pid, dest, hops.map AccessPointAdvertisement.new.merge, l⟩)) (if_neg ht)

/-- What comes of the document of a route, wherever it stands. -/
theorem yields_received {depth : Nat} (hdepth : depth + 2 < maxAdvDepth)
    (curr : Option (Dispatch.Kwdtab Kind)) (n : Nat) {ad : RouteAdvertisement} (had : ad.Legible)
    {dest : AccessPointAdvertisement} (hdest : (ad.printedDest dest).Legible) :
    QueryAd.handlers.Yields (d.act (node ad.getDestPID (ad.printedDest dest) ad.hops))
      ⟨route, depth, curr⟩ n (.route .new) (.route (ad.received dest)) := by
  have hroot : d.opening route (attsOf [AccessPointAdvertisement.xmlns]) (text "jxta:RA") =
      .keep ⟨text "jxta:RA", .keep⟩ :=
    Dialect.opening_keep htables.route_elements (by decide) (by rw [htables.route_name]; rfl) rfl
  have hatts : d.attributes route n (text "jxta:RA") (attsOf [AccessPointAdvertisement.xmlns]) =
      [] := by
    unfold Dialect.attributes Dialect.dispatchTable
    rw [htables.route_elements, htables.route_name]
    rfl
  have hone : depth + 1 < maxAdvDepth := Nat.lt_of_succ_lt hdepth
  let apa := AccessPointAdvertisement.new.merge (ad.printedDest dest)
  let hops := ad.hops.map AccessPointAdvertisement.new.merge
  unfold node
  rw [Handlers.act_element]
  refine .keep (b := .route .new) (c := .route ⟨ad.getDestPID, some apa, hops, .nowhere⟩)
    (Nat.lt_of_succ_lt hone) hroot hatts rfl ?_ ?_ _ _
  · unfold elements
    exact (Handlers.yields_chars _ _ _ _).cons
      ((yields_destPID htables hone _ n _ had.pid).fields_append
        (.field (yields_dest htables hdepth _ n _ hdest)
          (yields_hopsField htables hdepth _ n _ _ had.hops)))
  · intro t shown ht
    have hclosed : handleRouteAdvertisement ⟨ad.getDestPID, some apa, hops, .nowhere⟩ t =
        .ok (ad.received dest) := by
      unfold handleRouteAdvertisement received
      rw [if_neg ht]
      cases hpid : ad.getDestPID with
      | none =>
        have hnone : apa.pid = (ad.printedDest dest).pid := Option.or_none
        simp only [Option.none_or, ← hnone]
        rfl
      | some pid => rfl
    exact congrArg (fun e => e.map QueryAd.route) hclosed

end

end RouteAdvertisement

end JxtaC
