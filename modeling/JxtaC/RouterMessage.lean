import JxtaC.Advertisement.AccessPoints
import JxtaC.Lib.XmlScanner

/-
  The message of the endpoint router (jxta_rm.c): three addresses, and the gateways of two routes. A
  list of gateways is an element around their documents, and the handler of this element opens one
  access point for all that is in it. So it is one gateway that is read, whatever was written
  (`parse_getXml`), and a message is read back if each list has one (`roundTrips_iff`).
  The URI parser is a parameter; `ReadsUri` says what it finds of an address.
-/

namespace JxtaC

open Lib Lib.XmlDocument Dispatch List

/-- `EndpointRouterMessage`. -/
structure EndpointRouterMessage where
  src : Option EndpointAddress
  dest : Option EndpointAddress
  last : Option EndpointAddress
  forwardGateways : List AccessPointAdvertisement
  reverseGateways : List AccessPointAdvertisement
  deriving DecidableEq

namespace EndpointRouterMessage

/-- What the handlers of addresses do with their text. -/
def handleAddress (uriParse : CString → Uri) (old : Option EndpointAddress) (cd : List Byte) :
    Option EndpointAddress :=
  if cd = [] then old else EndpointAddress.new uriParse (.ofBuffer (jstringTrim cd))

def handleSrc (uriParse : CString → Uri) (ad : EndpointRouterMessage) (cd : List Byte) :
    EndpointRouterMessage := { ad with src := handleAddress uriParse ad.src cd }

def handleDest (uriParse : CString → Uri) (ad : EndpointRouterMessage) (cd : List Byte) :
    EndpointRouterMessage := { ad with dest := handleAddress uriParse ad.dest cd }

def handleLast (uriParse : CString → Uri) (ad : EndpointRouterMessage) (cd : List Byte) :
    EndpointRouterMessage := { ad with last := handleAddress uriParse ad.last cd }

/-- The element for the gateways of a route. -/
def gatewaysXml (name : List Byte) (gateways : List AccessPointAdvertisement) : List Byte :=
  if gateways = [] then text "<" ++ name ++ text "/>\n"
  else startTag name ++ text "\n" ++ gateways.flatMap AccessPointAdvertisement.getXml ++ endTag name ++
    text "\n"

/-- `EndpointRouterMessage_get_xml`; without one of the addresses a null pointer is followed. -/
def getXml (ad : EndpointRouterMessage) : Exec (List Byte) :=
  match ad.src, ad.dest, ad.last with
  | some src, some dest, some last => .ok (
    text "<?xml version=\"1.0\"?>\n" ++ text "<!DOCTYPE jxta:ERM>" ++ text "<jxta:ERM>\n" ++
      element (text "Src") src.toCString ++ text "\n" ++
      element (text "Dest") dest.toCString ++ text "\n" ++
      element (text "Last") last.toCString ++ text "\n" ++
      gatewaysXml (text "Fwd") ad.forwardGateways ++
      gatewaysXml (text "Rvs") ad.reverseGateways ++ text "</jxta:ERM>\n")
  | _, _, _ => .error .nullPointer

/-- `EndpointRouterMessage_new`. -/
def new : EndpointRouterMessage := ⟨none, none, none, [], []⟩

end EndpointRouterMessage

/-! ## parsing -/

/-- The advertisements in the document of a router message. -/
inductive RouterAd where
  | message (ad : EndpointRouterMessage)
  | accessPoint (ad : AccessPointAdvertisement)
  deriving DecidableEq

namespace RouterAd

/-- The parse functions. Those of the gateways open an access point at the start of their element, and
do nothing at its end. -/
def call (uriParse : CString → Uri) : RouterAd → ParseCall → Exec RouterAd
  | .message ad, c =>
    if c.kwd = text "Src" then .ok (.message (ad.handleSrc uriParse c.cd))
    else if c.kwd = text "Dest" then .ok (.message (ad.handleDest uriParse c.cd))
    else if c.kwd = text "Last" then .ok (.message (ad.handleLast uriParse c.cd))
    else .ok (.message ad)
  | .accessPoint ad, c => (ad.call c).map .accessPoint

/-- The access point that a parse function opened is in the list of its element. -/
def adopt (kwd : List Byte) : RouterAd → RouterAd → RouterAd
  | .message ad, .accessPoint apa =>
    if kwd = text "Fwd" then .message { ad with forwardGateways := ad.forwardGateways ++ [apa] }
    else if kwd = text "Rvs" then .message { ad with reverseGateways := ad.reverseGateways ++ [apa] }
    else .message ad
  | ad, _ => ad

def handlers (uriParse : CString → Uri) : Handlers RouterAd where
  call := call uriParse
  child _ _ := .accessPoint .new
  adopt := adopt

end RouterAd

namespace EndpointRouterMessage

/-- The tables of the parser have those of router messages and of access points. -/
structure Tables {Kind : Type} (d : Dialect Kind) (erm apa : Kind) : Prop where
  name : d.documentName erm = text "jxta:ERM"
  elements : d.elements erm = some [⟨text "Src", .keep⟩, ⟨text "Dest", .keep⟩, ⟨text "Last", .keep⟩,
    ⟨text "Fwd", .switch apa⟩, ⟨text "Rvs", .switch apa⟩]
  accessPoint : AccessPointTable d apa

/-- `EndpointRouterMessage_parse_charbuffer`, into a new message. -/
def parseCharbuffer {Kind : Type} (d : Dialect Kind) (uriParse : CString → Uri) (parser : Parser)
    (kind : Kind) (buf : List Byte) : Exec (EndpointRouterMessage × Status) := do
  match ← (RouterAd.handlers uriParse).parse d parser kind (.message .new) buf with
  | (.message ad, status) => return (ad, status)
  | (_, status) => return (.new, status)

/-- A message is read back as it was written. -/
def RoundTrips {Kind : Type} (d : Dialect Kind) (uriParse : CString → Uri) (parser : Parser)
    (kind : Kind) (ad : EndpointRouterMessage) : Prop :=
  ∃ xml, ad.getXml = .ok xml ∧ parseCharbuffer d uriParse parser kind xml = .ok (ad, .success)

end EndpointRouterMessage

/-! ## addresses -/

namespace EndpointAddress

/-- The service of an address as it stands in its string. -/
def serviceText (a : EndpointAddress) : List Byte :=
  match a.serviceName with
  | none => []
  | some name => 47 :: name.bytes ++ (a.serviceParams.map fun p => 47 :: p.bytes).getD []

/-- What the URI parser finds of the string of an address: the scheme, the host with its port, and
behind them, from a slash on, the path with the query and the fragment. -/
structure ReadsUri (uriParse : CString → Uri) (a : EndpointAddress) : Prop where
  scheme : (uriParse (.ofBuffer a.toCString)).scheme = some a.protocolName
  host : ∃ host, (uriParse (.ofBuffer a.toCString)).hostname = some host ∧
    a.protocolAddress.bytes = host.bytes ++
      ((uriParse (.ofBuffer a.toCString)).portStr.map fun port => 58 :: port.bytes).getD []
  port : ∀ port, (uriParse (.ofBuffer a.toCString)).portStr = some port → port.bytes ≠ []
  path : ∀ path, (uriParse (.ofBuffer a.toCString)).path = some path → path.bytes.head? = some 47
  rest : ((uriParse (.ofBuffer a.toCString)).path.map CString.bytes).getD [] ++
    ((uriParse (.ofBuffer a.toCString)).query.map fun q => 63 :: q.bytes).getD [] ++
    ((uriParse (.ofBuffer a.toCString)).fragment.map fun f => 35 :: f.bytes).getD [] = a.serviceText

/-- An address whose service can be told from the rest of its string. -/
structure Regular (a : EndpointAddress) : Prop where
  name : ∀ name, a.serviceName = some name → 47 ∉ name.bytes ∧ name.bytes ≠ [] ∧
    name.bytes.head? ≠ some 58
  params : a.serviceName = none → a.serviceParams = none

variable {uriParse : CString → Uri} {a : EndpointAddress}

theorem trimUri_slash {p : List Byte} (h : ∀ b ∈ p.head?, b ≠ 58 ∧ b ≠ 47) :
    trimUri (47 :: p) = p := by
  have hcons : trimUri (47 :: p) = trimUri p := rfl
  rw [hcons]
  cases p with
  | nil => rfl
  | cons b p =>
    have hb := h b rfl
    exact dropWhile_cons_of_neg (by simp [hb])

/-- The name and the parameters behind the first slash. -/
theorem service_text {name : CString} (params : Option CString) (hslash : 47 ∉ name.bytes)
    (hname : name.bytes ≠ []) :
    service (name.bytes ++ (params.map fun p => 47 :: p.bytes).getD []) = (some name, params) := by
  have hne : ∀ b ∈ name.bytes, (decide (b ≠ 47)) = true := fun b hb =>
    decide_eq_true fun h => hslash (h ▸ hb)
  unfold service
  rw [takeWhile_append_of_pos hne, dropWhile_append_of_pos hne]
  cases params with
  | none => simp [hname, hslash]
  | some p => simp [hname]

theorem pathText_eq (huri : ReadsUri uriParse a) (ha : a.Regular) :
    service (pathText (uriParse (.ofBuffer a.toCString))) = (a.serviceName, a.serviceParams) := by
  have hpath := huri.path
  have hrest := huri.rest
  unfold pathText
  generalize uriParse (.ofBuffer a.toCString) = uri at hpath hrest ⊢
  obtain ⟨scheme, hostname, portStr, path, query, fragment⟩ := uri
  dsimp only at hpath hrest ⊢
  unfold serviceText at hrest
  cases hname : a.serviceName with
  | none =>
    simp only [hname, append_eq_nil_iff] at hrest
    obtain ⟨⟨hp, hq⟩, hf⟩ := hrest
    have hnone : path = none := by
      cases hsome : path with
      | none => rfl
      | some p =>
        have hhead := hpath p hsome
        rw [hsome] at hp
        rw [show p.bytes = [] from hp] at hhead
        cases hhead
    rw [hnone, hq, hf, ha.params hname]
    rfl
  | some name =>
    obtain ⟨hslash, hne, hcolon⟩ := ha.name name hname
    simp only [hname] at hrest
    cases path with
    | none =>
      cases query with
      | none => cases fragment <;> simp at hrest
      | some q => simp at hrest
    | some p =>
      obtain ⟨p', hp⟩ : ∃ p', p.bytes = 47 :: p' := by
        cases hbytes : p.bytes with
        | nil => simp [hbytes] at hpath
        | cons b p' => exact ⟨p', by simpa [hbytes] using hpath p rfl⟩
      simp only [Option.map_some, Option.getD_some, hp, cons_append, List.cons.injEq,
        true_and] at hrest ⊢
      have htrim : trimUri (47 :: p') = p' := by
        refine trimUri_slash fun b hb => ?_
        cases p' with
        | nil => cases hb
        | cons c p' =>
          obtain rfl := Option.some.inj hb
          cases hbytes : name.bytes with
          | nil => exact absurd hbytes hne
          | cons d ds =>
            rw [hbytes] at hrest hcolon hslash
            obtain rfl : c = d := (List.cons.inj hrest).1
            exact ⟨fun h => hcolon (congrArg some h), fun h => hslash (h ▸ mem_cons_self)⟩
      rw [htrim, hrest]
      exact service_text a.serviceParams hslash hne

/-- The string of a regular address is read as this address. -/
theorem new_toCString (huri : ReadsUri uriParse a) (ha : a.Regular) :
    new uriParse (.ofBuffer a.toCString) = some a := by
  obtain ⟨host, hhost, haddress⟩ := huri.host
  have hport := huri.port
  have hservice := pathText_eq huri ha
  have hscheme := huri.scheme
  unfold new
  dsimp only
  rw [hscheme, hhost]
  rw [hservice]
  cases hstr : (uriParse (.ofBuffer a.toCString)).portStr with
  | none =>
    have hbytes : a.protocolAddress.bytes = host.bytes := by simpa [hstr] using haddress
    rw [← CString.ofBuffer_bytes host, ← hbytes, CString.ofBuffer_bytes]
  | some port =>
    have hbytes : a.protocolAddress.bytes = host.bytes ++ 58 :: port.bytes := by
      simpa [hstr] using haddress
    dsimp only
    rw [if_neg (hport port hstr), ← hbytes, CString.ofBuffer_bytes]

/-- An address that a document can hold, and that is read back from its string. -/
structure Legible (uriParse : CString → Uri) (a : EndpointAddress) : Prop where
  readsUri : a.ReadsUri uriParse
  regular : a.Regular
  text : IsText (raw a.toCString)
  trimmed : jstringTrim a.toCString = a.toCString

end EndpointAddress

/-! ## the document -/

namespace EndpointRouterMessage
variable {src dest last : EndpointAddress}
variable {forwardGateways reverseGateways : List AccessPointAdvertisement}

/-- The element for the gateways of a route. -/
def gatewaysNode (name : List Byte) (gateways : List AccessPointAdvertisement) : Node :=
  if gateways = [] then .empty name [] []
  else .element name [] [] (.chars (raw (text "\n")) ::
    fields (gateways.map fun gateway => (gateway.node, text "\n")))

theorem gatewaysNode_source (name : List Byte) (gateways : List AccessPointAdvertisement) :
    (gatewaysNode name gateways).source ++ text "\n" = gatewaysXml name gateways := by
  have hgateways : (gateways.map fun gateway => (gateway.node, text "\n")).flatMap
      (fun f => f.1.source ++ f.2) = gateways.flatMap AccessPointAdvertisement.getXml := by
    rw [flatMap_map]
    exact flatMap_congr fun gateway _ => gateway.source_node
  unfold gatewaysNode gatewaysXml
  split
  · have hempty : emptySource name [] [] = text "<" ++ name ++ text "/>" := by
      simp [emptySource, tagSource]
      rfl
    rw [Node.source, hempty]
    simp only [append_assoc]
    rfl
  · have hstart : startSource name [] [] = startTag name := by
      simp [startSource, tagSource]
      rfl
    have hend : endSource name = endTag name := rfl
    rw [Node.source, Node.sources, Node.source, sourceOf_raw, sources_fields, hgateways, hstart,
      hend]
    simp only [append_assoc]

/-- The elements of the document. -/
def elements (src dest last : EndpointAddress)
    (forwardGateways reverseGateways : List AccessPointAdvertisement) : List (Node × List Byte) :=
  [(leafNode (text "Src") (raw src.toCString), text "\n"),
    (leafNode (text "Dest") (raw dest.toCString), text "\n"),
    (leafNode (text "Last") (raw last.toCString), text "\n"),
    (gatewaysNode (text "Fwd") forwardGateways, text "\n"),
    (gatewaysNode (text "Rvs") reverseGateways, text "\n")]

def document (src dest last : EndpointAddress)
    (forwardGateways reverseGateways : List AccessPointAdvertisement) : Document :=
  fieldsDocument (text "jxta:ERM") (text "\n", [], text "\n") (text "\n")
    (elements src dest last forwardGateways reverseGateways)

theorem getXml_eq {ad : EndpointRouterMessage} (hsrc : ad.src = some src)
    (hdest : ad.dest = some dest) (hlast : ad.last = some last) :
    ad.getXml =
      .ok (document src dest last ad.forwardGateways ad.reverseGateways).source := by
  have hfront : text "<?xml version=\"1.0\"?>\n" ++ text "<!DOCTYPE jxta:ERM>" ++
      text "<jxta:ERM>\n" = xmlDeclaration ++ text "\n" ++ doctypeStart ++ text "jxta:ERM" ++
        [62] ++ (60 :: (text "jxta:ERM" ++ [62]) ++ text "\n") := by decide
  have hback : text "</jxta:ERM>\n" = endSource (text "jxta:ERM") ++ text "\n" := by decide
  unfold getXml document
  rw [hsrc, hdest, hlast, fieldsDocument_source]
  rw [hfront, hback, ← gatewaysNode_source, ← gatewaysNode_source]
  simp only [elements, flatMap_cons, flatMap_nil, element_eq, sourceOf_raw, append_nil,
    append_assoc, cons_append, nil_append]

/-- A message that a document can hold. -/
structure Legible (uriParse : CString → Uri) (ad : EndpointRouterMessage) : Prop where
  src : ∃ src, ad.src = some src ∧ src.Legible uriParse
  dest : ∃ dest, ad.dest = some dest ∧ dest.Legible uriParse
  last : ∃ last, ad.last = some last ∧ last.Legible uriParse
  gateways : ∀ gateway ∈ ad.forwardGateways ++ ad.reverseGateways, gateway.Legible ∧
    ∀ endpoint ∈ gateway.endpoints, jstringTrim endpoint = endpoint ∧ endpoint ≠ []

theorem gatewaysNode_wellFormed {name : List Byte} (hname : IsName name)
    {gateways : List AccessPointAdvertisement} (h : ∀ gateway ∈ gateways, gateway.Legible) :
    (gatewaysNode name gateways).isChars = false ∧ (gatewaysNode name gateways).WellFormed := by
  have hfields : ∀ f ∈ gateways.map fun gateway => (gateway.node, text "\n"),
      f.1.isChars = false ∧ f.1.WellFormed ∧ IsBlank f.2 := by
    intro f hf
    obtain ⟨gateway, hmem, rfl⟩ := mem_map.mp hf
    exact ⟨rfl, (h gateway hmem).wellFormed, isBlank_newline⟩
  unfold gatewaysNode
  split
  · exact ⟨rfl, hname, attsWellFormed_nil, by decide⟩
  · exact ⟨rfl, hname, attsWellFormed_nil, by decide,
      separate_fields _ fun f hf => (hfields f hf).1, isText_blank isBlank_newline,
      allWellFormed_fields fun f hf => (hfields f hf).2⟩

theorem document_wellFormed {uriParse : CString → Uri} (hsrc : src.Legible uriParse)
    (hdest : dest.Legible uriParse) (hlast : last.Legible uriParse)
    (hgateways : ∀ gateway ∈ forwardGateways ++ reverseGateways, gateway.Legible) :
    (document src dest last forwardGateways reverseGateways).WellFormed := by
  have hnames : IsName (text "Fwd") ∧ IsName (text "Rvs") := by decide
  have hforward := gatewaysNode_wellFormed hnames.1 fun g hg =>
    hgateways g (mem_append_left reverseGateways hg)
  have hreverse := gatewaysNode_wellFormed hnames.2 fun g hg =>
    hgateways g (mem_append_right forwardGateways hg)
  refine fieldsDocument_wellFormed (by decide) (by decide) (by decide) fun f hf => ?_
  simp only [elements, mem_cons, not_mem_nil, or_false] at hf
  rcases hf with rfl | rfl | rfl | rfl | rfl
  · exact ⟨rfl, leafNode_wellFormed (by decide) hsrc.text, isBlank_newline⟩
  · exact ⟨rfl, leafNode_wellFormed (by decide) hdest.text, isBlank_newline⟩
  · exact ⟨rfl, leafNode_wellFormed (by decide) hlast.text, isBlank_newline⟩
  · exact ⟨hforward.1, hforward.2, isBlank_newline⟩
  · exact ⟨hreverse.1, hreverse.2, isBlank_newline⟩

/-! ## reading it -/

variable {Kind : Type} {d : Dialect Kind} {erm apa : Kind} {uriParse : CString → Uri}

theorem hasAccessPoints : HasAccessPoints (RouterAd.handlers uriParse) .accessPoint :=
  fun _ _ => rfl

/-- The access point that is open takes the documents of all gateways. -/
def merged (gateways : List AccessPointAdvertisement) : AccessPointAdvertisement :=
  gateways.foldl AccessPointAdvertisement.merge .new

theorem yields_gateways_inner (htables : Tables d erm apa) (curr : Option (Dispatch.Kwdtab Kind))
    (n : Nat) (gateways : List AccessPointAdvertisement)
    (h : ∀ gateway ∈ gateways, gateway.Legible) (ad : AccessPointAdvertisement) :
    (RouterAd.handlers uriParse).Yields
      (d.actAll (fields (gateways.map fun gateway => (gateway.node, text "\n")))) ⟨apa, 1, curr⟩ n
        (.accessPoint ad) (.accessPoint (gateways.foldl AccessPointAdvertisement.merge ad)) := by
  have hopen : d.opening apa (attsOf [AccessPointAdvertisement.xmlns]) (text "jxta:APA") =
      .keep ⟨text "jxta:APA", .keep⟩ :=
    Dialect.opening_keep htables.accessPoint.elements (by decide)
      (by rw [htables.accessPoint.name]; rfl) rfl
  have hatts : d.attributes apa n (text "jxta:APA") (attsOf [AccessPointAdvertisement.xmlns]) = [] := by
    unfold Dialect.attributes Dialect.dispatchTable
    rw [htables.accessPoint.elements, htables.accessPoint.name]
    rfl
  induction gateways generalizing ad with
  | nil => exact Handlers.yields_fields_nil _ n _
  | cons gateway gateways ih =>
    refine Handlers.Yields.field (b := .accessPoint (ad.merge gateway)) ?_
      (ih (fun g hg => h g (mem_cons_of_mem _ hg)) _)
    unfold AccessPointAdvertisement.node
    rw [Handlers.act_element]
    exact .keep (Nat.succ_lt_succ (Nat.succ_pos 30)) hopen hatts (hasAccessPoints _ _)
      (yields_accessPoint hasAccessPoints htables.accessPoint
        (Nat.succ_lt_succ (Nat.succ_lt_succ (Nat.succ_pos 29))) _ n (h gateway mem_cons_self) ad)
      (fun t shown _ => hasAccessPoints _ _) _ _

/-- The element of a list of gateways: its handler opens one access point. -/
theorem yields_gateways (htables : Tables d erm apa) (curr : Option (Dispatch.Kwdtab Kind)) (n : Nat)
    {name : List Byte} (hname : name = text "Fwd" ∨ name = text "Rvs")
    (gateways : List AccessPointAdvertisement) (h : ∀ gateway ∈ gateways, gateway.Legible)
    (ad : EndpointRouterMessage) :
    (RouterAd.handlers uriParse).Yields (d.act (gatewaysNode name gateways)) ⟨erm, 1, curr⟩ n
      (.message ad) (RouterAd.adopt name (.message ad) (.accessPoint (merged gateways))) := by
  have hopen : d.opening erm [] name = .switch ⟨name, .switch apa⟩ apa := by
    rcases hname with rfl | rfl
    · exact Dialect.opening_switch_of htables.elements rfl (by rw [htables.name]; rfl) rfl
    · exact Dialect.opening_switch_of htables.elements rfl (by rw [htables.name]; rfl) rfl
  have hinneropen : d.opening apa [] (d.documentName apa) = .keep ⟨text "jxta:APA", .keep⟩ :=
    Dialect.opening_keep htables.accessPoint.elements rfl (by rw [htables.accessPoint.name]; rfl) rfl
  have hcall : ∀ ad c, c.kwd = name →
      (RouterAd.handlers uriParse).call (.message ad) c = .ok (.message ad) := by
    rintro ad ⟨owner, kwd, cd, atts, inner⟩ rfl
    rcases hname with rfl | rfl
    · rfl
    · rfl
  have hadopt : ∃ ad', RouterAd.adopt name (.message ad) (.accessPoint (merged gateways)) =
      .message ad' := by
    rcases hname with rfl | rfl
    · exact ⟨_, rfl⟩
    · exact ⟨_, rfl⟩
  obtain ⟨ad', hadopt⟩ := hadopt
  have hend : (RouterAd.handlers uriParse).call ((RouterAd.handlers uriParse).adopt name
      (.message ad) (.accessPoint (merged gateways))) ⟨n, name, endText [], [], none⟩ =
        .ok (.message ad') := by
    have hadopt' : (RouterAd.handlers uriParse).adopt name (.message ad)
      (.accessPoint (merged gateways)) = .message ad' := hadopt
    rw [hadopt']
    exact hcall ad' _ rfl
  rw [hadopt]
  have hone : 1 < maxAdvDepth := Nat.succ_lt_succ (Nat.succ_pos 30)
  unfold gatewaysNode
  split
  next hempty =>
    subst hempty
    rw [Handlers.act_empty]
    exact .switch hone hopen (d.attributes_nil erm n name) (fun m => hcall ad _ rfl) (fun m => rfl) _
      (fun m => .keep (Nat.succ_pos 31) hinneropen (d.attributes_nil _ _ _) (hasAccessPoints _ _)
        (Handlers.yields_nothing _ _ _) (fun t shown _ => hasAccessPoints _ _) _ _) hend _
  next =>
    rw [Handlers.act_element]
    exact .switch hone hopen (d.attributes_nil erm n name) (fun m => hcall ad _ rfl) (fun m => rfl) _
      (fun m => .keep (Nat.succ_pos 31) hinneropen (d.attributes_nil _ _ _) (hasAccessPoints _ _)
        ((Handlers.yields_chars _ _ _ _).cons (yields_gateways_inner htables _ m gateways h _))
        (fun t shown _ => hasAccessPoints _ _) _ _) hend _

theorem handleAddress_legible {a : EndpointAddress} (ha : a.Legible uriParse)
    (old : Option EndpointAddress) :
    handleAddress uriParse old (endText (valueOf (raw a.toCString))) = some a := by
  unfold handleAddress
  rw [if_neg (endText_ne_nil _), jstringTrim_endText, valueOf_raw, ha.trimmed,
    EndpointAddress.new_toCString ha.readsUri ha.regular]

/-- One gateway is read of each list. -/
theorem parse_document (htables : Tables d erm apa) {parser : Parser} (hparser : Conforms parser)
    (hsrc : src.Legible uriParse) (hdest : dest.Legible uriParse) (hlast : last.Legible uriParse)
    (hgateways : ∀ gateway ∈ forwardGateways ++ reverseGateways, gateway.Legible) :
    parseCharbuffer d uriParse parser erm
      (document src dest last forwardGateways reverseGateways).source =
        .ok (⟨some src, some dest, some last, [merged forwardGateways], [merged reverseGateways]⟩,
          .success) := by
  have hone : 1 < maxAdvDepth := Nat.succ_lt_succ (Nat.succ_pos 30)
  have hopen : ∀ name ∈ [text "Src", text "Dest", text "Last", text "jxta:ERM"],
      d.opening erm [] name = .keep ⟨name, .keep⟩ := by
    intro name hname
    refine Dialect.opening_keep htables.elements rfl ?_ rfl
    rw [htables.name]
    simp only [mem_cons, not_mem_nil, or_false] at hname
    rcases hname with rfl | rfl | rfl | rfl <;> rfl
  have hfields : (RouterAd.handlers uriParse).Yields
      (d.actAll (fields (elements src dest last forwardGateways reverseGateways)))
      ⟨erm, 1, some ⟨text "jxta:ERM", .keep⟩⟩ 0 (.message .new) (.message ⟨some src, some dest,
        some last, [merged forwardGateways], [merged reverseGateways]⟩) := by
    refine .field (b := .message ⟨some src, none, none, [], []⟩)
      (Handlers.yields_leafNode hone (hopen _ (by simp)) rfl ?_) ?_
    · exact congrArg (fun a => Except.ok (RouterAd.message ⟨a, none, none, [], []⟩))
        (handleAddress_legible hsrc _)
    refine .field (b := .message ⟨some src, some dest, none, [], []⟩)
      (Handlers.yields_leafNode hone (hopen _ (by simp)) rfl ?_) ?_
    · exact congrArg (fun a => Except.ok (RouterAd.message ⟨some src, a, none, [], []⟩))
        (handleAddress_legible hdest _)
    refine .field (b := .message ⟨some src, some dest, some last, [], []⟩)
      (Handlers.yields_leafNode hone (hopen _ (by simp)) rfl ?_) ?_
    · exact congrArg (fun a => Except.ok (RouterAd.message ⟨some src, some dest, a, [], []⟩))
        (handleAddress_legible hlast _)
    refine .field (yields_gateways htables _ 0 (.inl rfl) forwardGateways
      (fun g hg => hgateways g (mem_append_left _ hg)) _) ?_
    refine .field (yields_gateways htables _ 0 (.inr rfl) reverseGateways
      (fun g hg => hgateways g (mem_append_right _ hg)) _) ?_
    exact Handlers.yields_fields_nil _ 0 _
  have hparse := Handlers.parse_document hparser
    (document_wellFormed hsrc hdest hlast hgateways)
    (Handlers.yields_fieldsDocument (hopen _ (by simp)) rfl hfields fun _ _ _ => rfl)
  unfold parseCharbuffer
  rw [document] at hparse ⊢
  rw [hparse]
  rfl

theorem merged_singleton {gateway : AccessPointAdvertisement}
    (h : ∀ endpoint ∈ gateway.endpoints, jstringTrim endpoint = endpoint ∧ endpoint ≠ []) :
    merged [gateway] = gateway := by
  have hmap : gateway.endpoints.map jstringTrim = gateway.endpoints :=
    (map_congr_left fun e he => (h e he).1).trans (map_id _)
  have hfilter : gateway.endpoints.filter (· ≠ []) = gateway.endpoints :=
    filter_eq_self.mpr fun e he => decide_eq_true (h e he).2
  obtain ⟨pid, endpoints⟩ := gateway
  show AccessPointAdvertisement.merge .new ⟨pid, endpoints⟩ = _
  unfold AccessPointAdvertisement.merge
  rw [hmap, hfilter]
  cases pid <;> rfl

/-- A message is read back just if each of its lists has one gateway. -/
theorem roundTrips_iff (htables : Tables d erm apa) {parser : Parser} (hparser : Conforms parser)
    {ad : EndpointRouterMessage} (had : ad.Legible uriParse) :
    RoundTrips d uriParse parser erm ad ↔
      ad.forwardGateways.length = 1 ∧ ad.reverseGateways.length = 1 := by
  obtain ⟨⟨src, hsrc, hsrc'⟩, ⟨dest, hdest, hdest'⟩, ⟨last, hlast, hlast'⟩, hgateways⟩ := had
  have hparse := parse_document htables hparser hsrc' hdest' hlast' fun g hg => (hgateways g hg).1
  constructor
  · rintro ⟨xml, hxml, hread⟩
    obtain rfl := Except.ok.inj (hxml.symm.trans (getXml_eq hsrc hdest hlast))
    have had := Except.ok.inj (hread.symm.trans hparse)
    have heq := congrArg Prod.fst had
    exact ⟨congrArg (fun ad => ad.forwardGateways.length) heq,
      congrArg (fun ad => ad.reverseGateways.length) heq⟩
  · rintro ⟨hforward, hreverse⟩
    obtain ⟨forward, hforward⟩ := length_eq_one_iff.mp hforward
    obtain ⟨reverse, hreverse⟩ := length_eq_one_iff.mp hreverse
    refine ⟨_, getXml_eq hsrc hdest hlast, hparse.trans ?_⟩
    rw [hforward, hreverse, merged_singleton (hgateways forward (by simp [hforward])).2,
      merged_singleton (hgateways reverse (by simp [hreverse])).2, ← hforward, ← hreverse, ← hsrc,
      ← hdest, ← hlast]

/-! ## a message -/

/-- What the URI parser finds of `tcp://10.0.0.1:9701`. -/
def tcpUri (_ : CString) : Uri :=
  ⟨some (.ofBuffer (text "tcp")), some (.ofBuffer (text "10.0.0.1")), some (.ofBuffer (text "9701")),
    none, none, none⟩

/-- `tcp://10.0.0.1:9701`. -/
def tcpAddress : EndpointAddress :=
  ⟨.ofBuffer (text "tcp"), .ofBuffer (text "10.0.0.1:9701"), none, none⟩

theorem tcpAddress_legible : tcpAddress.Legible tcpUri where
  readsUri := ⟨rfl, ⟨_, rfl, by decide⟩, fun port hport => by
    cases hport
    decide, fun _ h => absurd h (by simp [tcpUri]), rfl⟩
  regular := ⟨fun _ h => absurd h (by simp [tcpAddress]), fun _ => rfl⟩
  text := isText_raw_plain (by decide)
  trimmed := by decide

/-- A message between neighbours, with these gateways. -/
def routed (forwardGateways reverseGateways : List AccessPointAdvertisement) :
    EndpointRouterMessage :=
  ⟨some tcpAddress, some tcpAddress, some tcpAddress, forwardGateways, reverseGateways⟩

theorem routed_legible (h : ∀ gateway ∈ forwardGateways ++ reverseGateways,
      gateway = ⟨none, [text "tcp://10.0.0.2:9701"]⟩) :
    (routed forwardGateways reverseGateways).Legible tcpUri := by
  refine ⟨⟨_, rfl, tcpAddress_legible⟩, ⟨_, rfl, tcpAddress_legible⟩, ⟨_, rfl, tcpAddress_legible⟩,
    fun gateway hgateway => ?_⟩
  obtain rfl := h gateway hgateway
  refine ⟨⟨fun _ h => absurd h (by simp), fun e he => ?_⟩, fun e he => ?_⟩
  · obtain rfl := mem_singleton.mp he
    exact isText_raw_plain (by decide)
  · obtain rfl := mem_singleton.mp he
    exact ⟨by decide, by decide⟩

theorem router_tables : Tables routerDialect .erm .apa := ⟨rfl, rfl, ⟨rfl, rfl⟩⟩

theorem roundTrips_iff_single :
    RoundTrips routerDialect tcpUri scan .erm (routed [⟨none, [text "tcp://10.0.0.2:9701"]⟩]
      [⟨none, [text "tcp://10.0.0.2:9701"]⟩]) :=
  (roundTrips_iff router_tables scan_conforms (routed_legible (by simp))).mpr ⟨rfl, rfl⟩

/-- Without gateways a message comes back with one in each list. -/
theorem not_message_roundTrips : ¬ RoundTrips routerDialect tcpUri scan .erm (routed [] []) := by
  rintro ⟨xml, hxml, hread⟩
  obtain rfl := Except.ok.inj (hxml.symm.trans (getXml_eq rfl rfl rfl))
  have hnone : ∀ gateway ∈ ([] : List AccessPointAdvertisement) ++ [], gateway.Legible := by simp
  have hparse := parse_document router_tables scan_conforms tcpAddress_legible tcpAddress_legible
    tcpAddress_legible hnone
  have heq := congrArg Prod.fst (Except.ok.inj (hread.symm.trans hparse))
  exact absurd (congrArg (fun ad => ad.forwardGateways.length) heq) (by decide)

end EndpointRouterMessage

end JxtaC
