import JxtaC.DiscoveryQuery

/-
  The discovery response (jxta_dr.c), which travels as the text of a resolver response (jxta_rr.c).
  The parsed advertisements that a response keeps beside its texts, its query id and the service are
  no part of the document and left out, and so is the QoS of a resolver response.
-/

namespace JxtaC

open Lib Lib.XmlDocument Dispatch

/-! ## discovery responses -/

/-- `Jxta_DiscoveryResponseElement`. -/
structure DiscoveryResponseElement where
  response : List Byte
  expiration : Int
  deriving DecidableEq

/-- `Jxta_DiscoveryResponse`. -/
structure DiscoveryResponse where
  type : Int
  count : Int
  peerAdv : Option (List Byte)
  attr : List Byte
  value : List Byte
  responselist : List DiscoveryResponseElement
  deriving DecidableEq

namespace DiscoveryResponse

def handleJxta_DiscoveryResponse (ad : DiscoveryResponse) (_ : ParseCall) :
    Exec DiscoveryResponse := .ok ad

def handleType (ad : DiscoveryResponse) (c : ParseCall) : Exec DiscoveryResponse :=
  .ok (if c.cd = [] ∨ extractCharData c.cd = [] then ad
    else { ad with type := (strtol0 c.cd).bmod (2 ^ 16) })

def handleCount (ad : DiscoveryResponse) (c : ParseCall) : Exec DiscoveryResponse :=
  .ok (if c.cd = [] ∨ extractCharData c.cd = [] then ad
    else { ad with count := (strtol0 c.cd).bmod (2 ^ 32) })

def handlePeerAdv (ad : DiscoveryResponse) (c : ParseCall) : Exec DiscoveryResponse :=
  .ok (if c.cd = [] then ad else { ad with peerAdv := some (jstringTrim c.cd) })

def handleAttr (ad : DiscoveryResponse) (c : ParseCall) : Exec DiscoveryResponse :=
  .ok { ad with attr := ad.attr ++ c.cd }

def handleValue (ad : DiscoveryResponse) (c : ParseCall) : Exec DiscoveryResponse :=
  .ok { ad with value := ad.value ++ c.cd }

/-- The expiration that the attributes of an element say: the first of them is compared, whether
there is one or not. -/
def expirationOf : Atts → Exec Int
  | [] => .error .nullPointer
  | (name, value) :: _ =>
    .ok (if name.take 10 = text "Expiration" then Decimal.strtol value else 0)

def handleResponse (ad : DiscoveryResponse) (c : ParseCall) : Exec DiscoveryResponse :=
  let a := jstringTrim c.cd
  if c.cd = [] ∨ a = [] then .ok ad
  else do
    let expiration ← expirationOf c.atts
    return { ad with responselist := ad.responselist ++ [⟨a, expiration⟩] }

def documentName : List Byte := text "jxta:DiscoveryResponse"

/-- `Jxta_DiscoveryResponse_tags`. -/
def tags : List (List Byte × (DiscoveryResponse → ParseCall → Exec DiscoveryResponse)) :=
  [(documentName, handleJxta_DiscoveryResponse), (text "Type", handleType),
    (text "Count", handleCount), (text "PeerAdv", handlePeerAdv), (text "Attr", handleAttr),
    (text "Value", handleValue), (text "Response", handleResponse)]

def handlers : Handlers DiscoveryResponse := .flat tags

/-- `response_print`: the last element first. -/
def responsePrint (ad : DiscoveryResponse) : List Byte :=
  ad.responselist.reverse.flatMap fun e =>
    text "<Response Expiration=\"" ++ Decimal.ofInt e.expiration ++ text "\">\n" ++
      encodeJstring e.response ++ text "</Response>\n"

/-- `jxta_discovery_response_get_xml`. -/
def getXml (ad : DiscoveryResponse) : List Byte :=
  text "<?xml version=\"1.0\"?>\n" ++ text "<!DOCTYPE jxta:DiscoveryResponse>\n" ++
    text "<jxta:DiscoveryResponse>\n" ++
    element (text "Type") (Decimal.ofInt ad.type) ++ text "\n" ++
    element (text "Count") (Decimal.ofInt ad.count) ++ text "\n" ++
    (match ad.peerAdv with
    | some peerAdv => element (text "PeerAdv") (encodeJstring peerAdv) ++ text "\n"
    | none => []) ++
    element (text "Attr") [] ++ text "\n" ++
    element (text "Value") [] ++ text "\n" ++ ad.responsePrint ++
    text "</jxta:DiscoveryResponse>\n"

/-- `jxta_discovery_response_new`. -/
def new : DiscoveryResponse := ⟨0, 0, none, [], [], []⟩

/-- `jxta_discovery_response_parse_charbuffer`, into a new response; it has no status. -/
def parseCharbuffer {Kind : Type} (d : Dialect Kind) (parser : Parser) (kind : Kind)
    (buf : List Byte) : Exec DiscoveryResponse := do
  let (ad, _) ← handlers.parse d parser kind new buf
  return ad

/-- The tables of the parser have that of discovery responses. -/
structure Tables {Kind : Type} (d : Dialect Kind) (response : Kind) : Prop where
  name : d.documentName response = documentName
  elements : d.elements response = some (keepers Kind [text "Type", text "Count", text "PeerAdv",
    text "Attr", text "Value", text "Response"])

/-- Two responses are the same to those who use the getters. -/
def Agrees (a b : DiscoveryResponse) : Prop :=
  a.type = b.type ∧ a.count = b.count ∧ a.peerAdv = b.peerAdv ∧
    jstringTrim a.attr = jstringTrim b.attr ∧ jstringTrim a.value = jstringTrim b.value ∧
    a.responselist = b.responselist

end DiscoveryResponse

/-! ## resolver responses -/

/-- `ResolverResponse`. The peer id may be a null pointer. -/
structure ResolverResponse where
  credential : List Byte
  resPeerId : Option JxtaId
  handlerName : List Byte
  queryId : Int
  response : List Byte
  deriving DecidableEq

namespace ResolverResponse

def handleResolverResponse (ad : ResolverResponse) (_ : ParseCall) : Exec ResolverResponse := .ok ad

def handleCredential (ad : ResolverResponse) (c : ParseCall) : Exec ResolverResponse :=
  .ok { ad with credential := ad.credential ++ c.cd }

def handleHandlerName (ad : ResolverResponse) (c : ParseCall) : Exec ResolverResponse :=
  .ok { ad with handlerName := ad.handlerName ++ c.cd }

def handleResPeerID (ad : ResolverResponse) (c : ParseCall) : Exec ResolverResponse :=
  let tok := extractCharData c.cd
  if c.cd = [] ∨ tok = [] then .ok ad
  else do
    match ← JxtaId.fromStr tok with
    | .ok pid => return { ad with resPeerId := some pid }
    | .error _ => return { ad with resPeerId := none }

/-- The number is narrowed to an `int`. -/
def handleQueryID (ad : ResolverResponse) (c : ParseCall) : Exec ResolverResponse :=
  .ok (if c.cd = [] ∨ extractCharData c.cd = [] then ad
    else { ad with queryId := (strtol0 c.cd).bmod (2 ^ 32) })

def handleResponse (ad : ResolverResponse) (c : ParseCall) : Exec ResolverResponse :=
  .ok { ad with response := ad.response ++ c.cd }

def documentName : List Byte := text "jxta:ResolverResponse"

/-- `ResolverResponse_tags`. -/
def tags : List (List Byte × (ResolverResponse → ParseCall → Exec ResolverResponse)) :=
  [(documentName, handleResolverResponse), (text "jxta:Cred", handleCredential),
    (text "ResPeerID", handleResPeerID), (text "HandlerName", handleHandlerName),
    (text "QueryID", handleQueryID), (text "Response", handleResponse)]

def handlers : Handlers ResolverResponse := .flat tags

/-- `jxta_resolver_response_get_xml`. -/
def getXml (adv : ResolverResponse) : Exec (List Byte) := do
  let resPeerId ← match adv.resPeerId with
    | none => .error .nullPointer
    | some pid =>
      .ok (if pid = .nullID then [] else element (text "ResPeerID") pid.toJString ++ text "\n")
  let credential := jstringTrim adv.credential
  return text "<?xml version=\"1.0\"?>\n" ++ text "<!DOCTYPE jxta:ResolverResponse>" ++
    text "<jxta:ResolverResponse>\n" ++
    (if credential ≠ [] then element (text "jxta:Cred") credential ++ text "\n" else []) ++
    resPeerId ++
    element (text "HandlerName") (jstringTrim adv.handlerName) ++ text "\n" ++
    element (text "QueryID") (Decimal.ofInt adv.queryId ++ text "\n") ++ text "\n" ++
    element (text "Response") (encodeJstring (jstringTrim adv.response)) ++ text "\n" ++
    text "</jxta:ResolverResponse>\n"

/-- `jxta_resolver_response_new`. -/
def new : ResolverResponse := ⟨[], some .nullID, [], -1, []⟩

/-- `jxta_resolver_response_parse_charbuffer`, into a new response; it has no status. -/
def parseCharbuffer {Kind : Type} (d : Dialect Kind) (parser : Parser) (kind : Kind)
    (buf : List Byte) : Exec ResolverResponse := do
  let (ad, _) ← handlers.parse d parser kind new buf
  return ad

/-- The tables of the parser have that of resolver responses. -/
structure Tables {Kind : Type} (d : Dialect Kind) (response : Kind) : Prop where
  name : d.documentName response = documentName
  elements : d.elements response = some (keepers Kind [text "jxta:Cred", text "ResPeerID",
    text "HandlerName", text "QueryID", text "Response"])

end ResolverResponse

end JxtaC
