import JxtaC.Advertisement.Objects
import JxtaC.ResolverQuery

/-
  The discovery query (jxta_dq.c), which travels as the text of a resolver query (jxta_rq.c). Both are
  parsed by the shared parser of advertisements; `QueryTables` says which of its tables are those of
  resolver queries, routes and access points. The attached QoS is no part of either document.
-/

namespace JxtaC

open Lib Lib.XmlDocument Dispatch

/-- Advertisements without others inside: the parse functions by the entries of the table. -/
def Dispatch.Handlers.flat {Ad : Type} (tags : List (List Byte × (Ad → ParseCall → Exec Ad))) :
    Handlers Ad where
  call ad c :=
    match tags.find? fun k => k.1 = c.kwd with
    | some k => k.2 ad c
    | none => .ok ad
  child ad _ := ad
  adopt _ ad _ := ad

/-- The entries of a table whose parse functions keep the parser. -/
def Dispatch.keepers (Kind : Type) (kwds : List (List Byte)) : List (Kwdtab Kind) :=
  kwds.map fun kwd => ⟨kwd, .keep⟩

/-! ## discovery queries -/

/-- `Jxta_DiscoveryQuery`. -/
structure DiscoveryQuery where
  type : Int
  threshold : Int
  peerAdv : Option (List Byte)
  attr : Option (List Byte)
  value : Option (List Byte)
  extendedQuery : Option (List Byte)
  deriving DecidableEq

namespace DiscoveryQuery

def handleJxta_DiscoveryQuery (ad : DiscoveryQuery) (_ : List Byte) : DiscoveryQuery := ad

def handleType (ad : DiscoveryQuery) (cd : List Byte) : DiscoveryQuery :=
  if cd = [] ∨ extractCharData cd = [] then ad else { ad with type := (strtol0 cd).bmod (2 ^ 16) }

def handleThreshold (ad : DiscoveryQuery) (cd : List Byte) : DiscoveryQuery :=
  if cd = [] ∨ extractCharData cd = [] then ad
  else { ad with threshold := (strtol0 cd).bmod (2 ^ 32) }

def handlePeerAdv (ad : DiscoveryQuery) (cd : List Byte) : DiscoveryQuery :=
  if cd = [] then ad else { ad with peerAdv := some cd }

/-- What the handlers of the other texts do. -/
def appendTrimmed (old : Option (List Byte)) (cd : List Byte) : Option (List Byte) :=
  if cd = [] then old else some (jstringTrim (old.getD [] ++ cd))

def handleAttr (ad : DiscoveryQuery) (cd : List Byte) : DiscoveryQuery :=
  { ad with attr := appendTrimmed ad.attr cd }

def handleValue (ad : DiscoveryQuery) (cd : List Byte) : DiscoveryQuery :=
  { ad with value := appendTrimmed ad.value cd }

def handleExtendedQuery (ad : DiscoveryQuery) (cd : List Byte) : DiscoveryQuery :=
  { ad with extendedQuery := appendTrimmed ad.extendedQuery cd }

def documentName : List Byte := text "jxta:DiscoveryQuery"

/-- `Jxta_DiscoveryQuery_tags`. -/
def tags : List (List Byte × (DiscoveryQuery → List Byte → DiscoveryQuery)) :=
  [(documentName, handleJxta_DiscoveryQuery), (text "Type", handleType),
    (text "Threshold", handleThreshold), (text "PeerAdv", handlePeerAdv), (text "Attr", handleAttr),
    (text "Value", handleValue), (text "ExtendedQuery", handleExtendedQuery)]

def handlers : Handlers DiscoveryQuery :=
  .flat (tags.map fun k => (k.1, fun ad c => .ok (k.2 ad c.cd)))

/-- An element for a text, where there is one that is not empty. -/
def optionalElement (name : List Byte) (encode : List Byte → List Byte) (s : Option (List Byte))
    (behind : List Byte) : List Byte :=
  if s.getD [] = [] then [] else element name (encode (s.getD [])) ++ behind

/-- `jxta_discovery_query_get_xml`. -/
def getXml (adv : DiscoveryQuery) : List Byte :=
  text "<?xml version=\"1.0\"?>\n" ++ text "<!DOCTYPE jxta:DiscoveryQuery>" ++
    text "<jxta:DiscoveryQuery>\n" ++
    element (text "Type") (Decimal.ofInt adv.type ++ text "\n") ++ text "\n" ++
    element (text "Threshold") (Decimal.ofInt adv.threshold ++ text "\n") ++ text "\n" ++
    (match adv.peerAdv with
    | some peerAdv => element (text "PeerAdv") (encodeJstring peerAdv) ++ text "\n"
    | none => []) ++
    optionalElement (text "Attr") id adv.attr (text "\n") ++
    optionalElement (text "Value") id adv.value (text "\n") ++
    optionalElement (text "ExtendedQuery") encodeJstring adv.extendedQuery [] ++
    text "</jxta:DiscoveryQuery>\n"

/-- `jxta_discovery_query_new`. -/
def new : DiscoveryQuery := ⟨0, 0, none, none, none, none⟩

/-- `jxta_discovery_query_parse_charbuffer`, into a new query; the status of the parser is not
looked at. -/
def parseCharbuffer {Kind : Type} (d : Dialect Kind) (parser : Parser) (kind : Kind)
    (buf : List Byte) : Exec (DiscoveryQuery × Status) := do
  let (ad, _) ← handlers.parse d parser kind new buf
  return (ad, .success)

/-- The tables of the parser have that of discovery queries. -/
structure Tables {Kind : Type} (d : Dialect Kind) (query : Kind) : Prop where
  name : d.documentName query = documentName
  elements : d.elements query = some (keepers Kind [text "Type", text "Threshold", text "PeerAdv",
    text "Attr", text "Value", text "ExtendedQuery"])

/-- Two queries are the same to those who use the getters. -/
def Agrees (a b : DiscoveryQuery) : Prop :=
  a.type = b.type ∧ a.threshold = b.threshold ∧
    a.peerAdv.map jstringTrim = b.peerAdv.map jstringTrim ∧ a.attr = b.attr ∧ a.value = b.value ∧
    a.extendedQuery = b.extendedQuery

end DiscoveryQuery

/-! ## resolver queries -/

namespace QueryAd

/-- The entry of a call. -/
def entryOf (ad : QueryAd) (c : ParseCall) : Option (Nested.Kwdtab QueryAd) :=
  (dialect.tags ad).find? fun k => k.kwd = c.kwd

def handlers : Handlers QueryAd where
  call ad c :=
    match entryOf ad c with
    | some k => k.nodeparse ad c.cd
    | none => .ok ad
  child ad c := ((entryOf ad c).bind fun k => k.opens ad).getD ad
  adopt _ ad inner := dialect.adopt ad inner

/-- The tables of the parser have those of resolver queries, and of what is inside them. -/
structure Tables {Kind : Type} (d : Dialect Kind) (query route accessPoint : Kind) : Prop where
  query_name : d.documentName query = text "jxta:ResolverQuery"
  query_elements : d.elements query = some [⟨text "jxta:Cred", .keep⟩, ⟨text "SrcPeerID", .keep⟩,
    ⟨text "SrcPeerRoute", .switch route⟩, ⟨text "HandlerName", .keep⟩, ⟨text "QueryID", .keep⟩,
    ⟨text "Query", .keep⟩, ⟨text "HC", .keep⟩]
  route_name : d.documentName route = text "jxta:RA"
  route_elements : d.elements route = some [⟨text "DstPID", .keep⟩, ⟨text "Dst", .keep⟩,
    ⟨text "Hops", .keep⟩, ⟨text "jxta:APA", .switch accessPoint⟩]
  accessPoint_name : d.documentName accessPoint = text "jxta:APA"
  accessPoint_elements : d.elements accessPoint = some [⟨text "PID", .keep⟩, ⟨text "EA", .keep⟩]

end QueryAd

namespace ResolverQuery

/-- `validate_msg`. -/
def validateMsg (myself : ResolverQuery) : Status :=
  if JxtaId.equals myself.srcPeerId .nullID then .invalidArgument
  else if myself.query = none then .invalidArgument
  else .success

/-- `jxta_resolver_query_parse_charbuffer`, into a new query. -/
def parseCharbuffer {Kind : Type} (d : Dialect Kind) (parser : Parser) (kind : Kind)
    (buf : List Byte) : Exec (ResolverQuery × Status) := do
  match ← QueryAd.handlers.parse d parser kind (.query .new) buf with
  | (.query q, .success) => return (q, q.validateMsg)
  | (.query q, status) => return (q, status)
  | (_, status) => return (.new, status)

end ResolverQuery

end JxtaC
