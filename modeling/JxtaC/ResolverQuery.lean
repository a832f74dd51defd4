import JxtaC.Advertisement.Nested
import JxtaC.Discovery
import JxtaC.JxtaId
import JxtaC.Walk

/-
  The resolver query (jxta_rq.c), and the route advertisement in it (jxta_routea.c, jxta_apa.c). The
  attached QoS is no part of the document and left out. What the getters return is trimmed, and the
  peer id of a destination is that of its route: `ResolverQuery.Agrees`.
-/

namespace JxtaC

open Lib

/-! ## routes -/

/-- `Jxta_AccessPointAdvertisement`. -/
structure AccessPointAdvertisement where
  pid : Option JxtaId
  endpoints : List (List Byte)
  deriving DecidableEq

/-- `enum apa_locations`. -/
inductive ApaLocation where
  | nowhere
  | inDst
  | inHops
  deriving DecidableEq

/-- `Jxta_RouteAdvertisement`. -/
structure RouteAdvertisement where
  pid : Option JxtaId
  dest : Option AccessPointAdvertisement
  hops : List AccessPointAdvertisement
  apaLocation : ApaLocation
  deriving DecidableEq

/-- An element of a document. -/
def element (name value : List Byte) : List Byte := startTag name ++ value ++ endTag name

namespace AccessPointAdvertisement

/-- `jxta_AccessPointAdvertisement_new`. -/
def new : AccessPointAdvertisement := ⟨none, []⟩

def handlePID (ad : AccessPointAdvertisement) (cd : List Byte) : Exec AccessPointAdvertisement :=
  if cd = [] then .ok ad
  else do
    match ← JxtaId.fromStr (jstringTrim cd) with
    | .ok pid => return { ad with pid := some pid }
    | .error _ => return ad

def handleEndpoint (ad : AccessPointAdvertisement) (cd : List Byte) :
    Exec AccessPointAdvertisement :=
  let endpointAddress := jstringTrim cd
  .ok (if cd ≠ [] ∧ 0 < endpointAddress.length then
    { ad with endpoints := ad.endpoints ++ [endpointAddress] } else ad)

/-- `jxta_AccessPointAdvertisement_get_xml`. -/
def getXml (ad : AccessPointAdvertisement) : List Byte :=
  text "<jxta:APA xmlns:jxta=\"http://jxta.org\">\n" ++
    (match ad.pid with
    | some pid => element (text "PID") pid.toJString ++ text "\n"
    | none => []) ++
    ad.endpoints.flatMap (fun endpoint => element (text "EA") endpoint ++ text "\n") ++
    text "</jxta:APA>\n"

end AccessPointAdvertisement

namespace RouteAdvertisement

/-- `jxta_RouteAdvertisement_new`. -/
def new : RouteAdvertisement := ⟨none, none, [], .nowhere⟩

/-- The end of a route: its peer is that of the destination. -/
def handleRouteAdvertisement (ad : RouteAdvertisement) (cd : List Byte) :
    Exec RouteAdvertisement :=
  if cd = [] then .ok ad
  else
    match ad.pid, ad.dest with
    | none, _ => .ok ad
    | some _, none => .error .nullPointer
    | some pid, some dest => .ok { ad with dest := some { dest with pid := some pid } }

def handleDestPID (ad : RouteAdvertisement) (cd : List Byte) : Exec RouteAdvertisement :=
  if cd = [] then .ok ad
  else do
    match ← JxtaId.fromStr (jstringTrim cd) with
    | .ok pid => return { ad with pid := some pid }
    | .error .notimp => return { ad with pid := none }
    | .error _ => return ad

def handleDest (ad : RouteAdvertisement) (cd : List Byte) : Exec RouteAdvertisement :=
  .ok { ad with apaLocation := if cd = [] then .inDst else .nowhere }

def handleHops (ad : RouteAdvertisement) (cd : List Byte) : Exec RouteAdvertisement :=
  .ok { ad with apaLocation := if cd = [] then .inHops else .nowhere }

/-- What `handleAPA` does with the access point that it opens. -/
def adoptAccessPoint (ad : RouteAdvertisement) (apa : AccessPointAdvertisement) :
    RouteAdvertisement :=
  match ad.apaLocation with
  | .nowhere => ad
  | .inDst => { ad with dest := some apa }
  | .inHops => { ad with hops := ad.hops ++ [apa] }

/-- `jxta_RouteAdvertisement_get_Dest`. -/
def getDest (ad : RouteAdvertisement) : Option AccessPointAdvertisement :=
  ad.dest.map fun dest => { dest with pid := ad.pid.or dest.pid }

/-- `jxta_RouteAdvertisement_get_DestPID`. -/
def getDestPID (ad : RouteAdvertisement) : Option JxtaId := ad.pid.or (ad.dest.bind (·.pid))

/-- `jxta_RouteAdvertisement_get_xml`; there is none of a route without a destination. -/
def getXml (ad : RouteAdvertisement) : Option (List Byte) :=
  match ad.dest with
  | none => none
  | some dest => some (
    text "<jxta:RA xmlns:jxta=\"http://jxta.org\">\n" ++
      (match ad.getDestPID with
      | some pid =>
        element (text "DstPID") pid.toJString ++ element (text "Dst") { dest with pid := none }.getXml
      | none => element (text "Dst") dest.getXml) ++ text "\n" ++
      (if ad.hops = [] then []
      else text "<Hops>\n" ++ ad.hops.flatMap AccessPointAdvertisement.getXml ++
        text "</Hops>\n") ++ text "</jxta:RA>\n")

/-- The route as its getters show it. -/
def seen (ad : RouteAdvertisement) :
    Option JxtaId × Option AccessPointAdvertisement × List AccessPointAdvertisement :=
  (ad.getDestPID, ad.getDest, ad.hops)

end RouteAdvertisement

/-! ## queries -/

/-- `ResolverQuery`. -/
structure ResolverQuery where
  credential : List Byte
  srcPeerId : JxtaId
  route : Option RouteAdvertisement
  handlerName : List Byte
  queryId : Int
  query : Option (List Byte)
  hopCount : Int
  deriving DecidableEq

/-- The value of a digit to a base up to 16. -/
def digitValue (b : Byte) : Nat :=
  if 48 ≤ b.toNat ∧ b.toNat ≤ 57 then b.toNat - 48
  else if 97 ≤ b.toNat ∧ b.toNat ≤ 102 then b.toNat - 87
  else if 65 ≤ b.toNat ∧ b.toNat ≤ 70 then b.toNat - 55
  else 16

/-- The number that the digits to this base in front of a text stand for. -/
def digitsValue (base : Nat) (s : List Byte) : Nat :=
  (s.takeWhile fun b => digitValue b < base).foldl (fun v b => base * v + digitValue b) 0

/-- A number that says its base itself. -/
def prefixedValue (s : List Byte) : Nat :=
  match s with
  | 48 :: x :: rest =>
    if (x = 120 ∨ x = 88) ∧ (rest.head?.any fun b => digitValue b < 16) then digitsValue 16 rest
    else digitsValue 8 s
  | 48 :: _ => digitsValue 8 s
  | _ => digitsValue 10 s

/-- `strtol` with the base 0. -/
def strtol0 (s : List Byte) : Int :=
  let number : Int :=
    match s.dropWhile Decimal.isSpace with
    | 45 :: rest => -(prefixedValue rest : Int)
    | 43 :: rest => prefixedValue rest
    | rest => prefixedValue rest
  max (-2 ^ 63) (min (2 ^ 63 - 1) number)

/-- `jxta_xml_util_encode_jstring`. -/
def encodeJstring (src : List Byte) : List Byte :=
  (src.takeWhile (· ≠ 0)).flatMap fun b =>
    if b = 60 then text "&lt;" else if b = 62 then text "&gt;" else if b = 38 then text "&amp;"
    else [b]

namespace ResolverQuery

def handleResolverQuery (ad : ResolverQuery) (_ : List Byte) : Exec ResolverQuery := .ok ad

def handleCredential (ad : ResolverQuery) (cd : List Byte) : Exec ResolverQuery :=
  .ok { ad with credential := ad.credential ++ cd }

def handleSrcPeerID (ad : ResolverQuery) (cd : List Byte) : Exec ResolverQuery :=
  if cd = [] then .ok ad
  else do
    match ← JxtaId.fromStr (jstringTrim cd) with
    | .ok pid => return { ad with srcPeerId := pid }
    | .error _ => return ad

/-- `handleSrcRoute`, which opens the route. -/
def handleSrcRoute (ad : ResolverQuery) (_ : List Byte) : Exec ResolverQuery := .ok ad

def handleHandlerName (ad : ResolverQuery) (cd : List Byte) : Exec ResolverQuery :=
  .ok (if cd = [] then ad else { ad with handlerName := jstringTrim cd })

def handleQueryID (ad : ResolverQuery) (cd : List Byte) : Exec ResolverQuery :=
  .ok (if cd = [] then ad else { ad with queryId := strtol0 (jstringTrim cd) })

def handleQuery (ad : ResolverQuery) (cd : List Byte) : Exec ResolverQuery :=
  .ok (if cd = [] then ad else { ad with query := some (jstringTrim cd) })

/-- `jxta_resolver_query_set_hopcount`. -/
def setHopcount (ad : ResolverQuery) (hopcount : Int) : ResolverQuery :=
  { ad with hopCount := Discovery.setHopcount hopcount }

def handleHopCount (ad : ResolverQuery) (cd : List Byte) : Exec ResolverQuery :=
  .ok (if cd = [] then ad else ad.setHopcount (Decimal.atoi (jstringTrim cd)))

/-- `jxta_resolver_query_new`. -/
def new : ResolverQuery := ⟨[], .nullID, none, [], -1, none, 0⟩

/-- `jxta_resolver_query_get_xml`. Without a query, or with a route that has no destination, a null
pointer is followed. -/
def getXml (ad : ResolverQuery) : Exec (List Byte) := do
  let query ← match ad.query with
    | some query => .ok (jstringTrim query)
    | none => .error .nullPointer
  let route ← match ad.route with
    | none => .ok []
    | some route =>
      match route.getXml with
      | some xml => .ok (element (text "SrcPeerRoute") xml ++ text "\n")
      | none => .error .nullPointer
  let credential := jstringTrim ad.credential
  return text "<?xml version=\"1.0\"?>\n" ++ text "<!DOCTYPE jxta:ResolverQuery>" ++
    text "<jxta:ResolverQuery>\n" ++
    (if credential ≠ [] then element (text "jxta:Cred") credential ++ text "\n" else []) ++
    route ++
    element (text "SrcPeerID") ad.srcPeerId.toJString ++ text "\n" ++
    element (text "HandlerName") (jstringTrim ad.handlerName) ++ text "\n" ++
    element (text "QueryID") (Decimal.ofInt ad.queryId ++ text "\n") ++ text "\n" ++
    element (text "HC") (Decimal.ofInt ad.hopCount ++ text "\n") ++ text "\n" ++
    element (text "Query") (encodeJstring query) ++ text "\n" ++
    text "</jxta:ResolverQuery>\n"

/-- Two queries are the same to those who use the getters. -/
def Agrees (a b : ResolverQuery) : Prop :=
  jstringTrim a.credential = jstringTrim b.credential ∧ a.srcPeerId = b.srcPeerId ∧
    a.route.map RouteAdvertisement.seen = b.route.map RouteAdvertisement.seen ∧
    jstringTrim a.handlerName = jstringTrim b.handlerName ∧ a.queryId = b.queryId ∧
    a.query.map jstringTrim = b.query.map jstringTrim ∧ a.hopCount = b.hopCount

instance (a b : ResolverQuery) : Decidable (Agrees a b) := inferInstanceAs (Decidable (_ ∧ _))

end ResolverQuery

/-! ## the document -/

/-- The advertisements in the document of a resolver query. -/
inductive QueryAd where
  | query (ad : ResolverQuery)
  | route (ad : RouteAdvertisement)
  | accessPoint (ad : AccessPointAdvertisement)
  deriving DecidableEq

namespace QueryAd

def onQuery (f : ResolverQuery → List Byte → Exec ResolverQuery) (ad : QueryAd) (cd : List Byte) :
    Exec QueryAd :=
  match ad with
  | .query q => (f q cd).map .query
  | _ => .ok ad

def onRoute (f : RouteAdvertisement → List Byte → Exec RouteAdvertisement) (ad : QueryAd)
    (cd : List Byte) : Exec QueryAd :=
  match ad with
  | .route r => (f r cd).map .route
  | _ => .ok ad

def onAccessPoint (f : AccessPointAdvertisement → List Byte → Exec AccessPointAdvertisement)
    (ad : QueryAd) (cd : List Byte) : Exec QueryAd :=
  match ad with
  | .accessPoint a => (f a cd).map .accessPoint
  | _ => .ok ad

/-- The root element of the document of each. -/
def documentName : QueryAd → List Byte
  | .query _ => text "jxta:ResolverQuery"
  | .route _ => text "jxta:RA"
  | .accessPoint _ => text "jxta:APA"

/-- An element whose handler keeps the parser. -/
def leaf (kwd : List Byte) (nodeparse : QueryAd → List Byte → Exec QueryAd) :
    Nested.Kwdtab QueryAd :=
  ⟨kwd, nodeparse, fun _ => none⟩

/-- `Jxta_AccessPointAdvertisement_tags`. -/
def accessPointTags : List (Nested.Kwdtab QueryAd) :=
  [leaf (text "jxta:APA") fun ad _ => .ok ad,
    leaf (text "PID") (onAccessPoint AccessPointAdvertisement.handlePID),
    leaf (text "EA") (onAccessPoint AccessPointAdvertisement.handleEndpoint)]

/-- `Jxta_RouteAdvertisement_tags`. -/
def routeTags : List (Nested.Kwdtab QueryAd) :=
  [leaf (text "jxta:RA") (onRoute RouteAdvertisement.handleRouteAdvertisement),
    leaf (text "DstPID") (onRoute RouteAdvertisement.handleDestPID),
    leaf (text "Dst") (onRoute RouteAdvertisement.handleDest),
    leaf (text "Hops") (onRoute RouteAdvertisement.handleHops),
    ⟨text "jxta:APA", fun ad _ => .ok ad, fun _ => some (.accessPoint .new)⟩]

/-- `ResolverQuery_tags`. -/
def queryTags : List (Nested.Kwdtab QueryAd) :=
  [leaf (text "jxta:ResolverQuery") (onQuery ResolverQuery.handleResolverQuery),
    leaf (text "jxta:Cred") (onQuery ResolverQuery.handleCredential),
    leaf (text "SrcPeerID") (onQuery ResolverQuery.handleSrcPeerID),
    ⟨text "SrcPeerRoute", onQuery ResolverQuery.handleSrcRoute, fun _ => some (.route .new)⟩,
    leaf (text "HandlerName") (onQuery ResolverQuery.handleHandlerName),
    leaf (text "QueryID") (onQuery ResolverQuery.handleQueryID),
    leaf (text "Query") (onQuery ResolverQuery.handleQuery),
    leaf (text "HC") (onQuery ResolverQuery.handleHopCount)]

/-- The advertisement around another one holds it. -/
def adopt : QueryAd → QueryAd → QueryAd
  | .query q, .route r => .query { q with route := some r }
  | .route r, .accessPoint a => .route (r.adoptAccessPoint a)
  | parent, _ => parent

def dialect : Nested.Dialect QueryAd where
  tags
    | .query _ => queryTags
    | .route _ => routeTags
    | .accessPoint _ => accessPointTags
  documentName := documentName
  adopt := adopt

end QueryAd

/-- `jxta_resolver_query_parse_charbuffer`, into a new query. The resolver does not look at the
status. -/
def ResolverQuery.parse (xmlParse : XmlParser) (buf : List Byte) : Exec ResolverQuery := do
  match (← Nested.parseCharbuffer QueryAd.dialect xmlParse (.query .new) buf).1 with
  | .query q => return q
  | _ => return .new

end JxtaC
