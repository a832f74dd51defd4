import JxtaC.DiscoveryQuery
import JxtaC.EndpointFilters

/-
  The header of propagated messages (jxta_pm.c), and the function that every peer calls on a message
  before it sends it on (jxta_rdv_service_provider.c). A run is a chain of such calls on one message.
  The local peer id is the string of an ID; `message_id_new` takes its text from `apr_uuid_format`.
-/

namespace JxtaC

open Lib Lib.XmlDocument Dispatch

/-! ## the header -/

structure RendezVousPropagateMessage where
  destSName : Option (List Byte)
  destSParam : Option (List Byte)
  messageId : Option (List Byte)
  path : List (List Byte)
  ttl : Int
  deriving DecidableEq

namespace RendezVousPropagateMessage

def handleRendezVousPropagateMessage (ad : RendezVousPropagateMessage) (_ : List Byte) :
    RendezVousPropagateMessage := ad

def handleDestSName (ad : RendezVousPropagateMessage) (cd : List Byte) :
    RendezVousPropagateMessage :=
  { ad with destSName := DiscoveryQuery.appendTrimmed ad.destSName cd }

def handleDestSParam (ad : RendezVousPropagateMessage) (cd : List Byte) :
    RendezVousPropagateMessage :=
  { ad with destSParam := DiscoveryQuery.appendTrimmed ad.destSParam cd }

def handleMessageId (ad : RendezVousPropagateMessage) (cd : List Byte) :
    RendezVousPropagateMessage :=
  { ad with messageId := DiscoveryQuery.appendTrimmed ad.messageId cd }

def handleTTL (ad : RendezVousPropagateMessage) (cd : List Byte) : RendezVousPropagateMessage :=
  if extractCharData cd = [] then ad else { ad with ttl := Decimal.atoi (extractCharData cd) }

def handlePath (ad : RendezVousPropagateMessage) (cd : List Byte) : RendezVousPropagateMessage :=
  if extractCharData cd = [] then ad else { ad with path := ad.path ++ [extractCharData cd] }

def documentName : List Byte := text "jxta:RendezVousPropagateMessage"

/-- `RendezVousPropagateMessage_tags`. -/
def tags : List (List Byte × (RendezVousPropagateMessage → List Byte → RendezVousPropagateMessage)) :=
  [(documentName, handleRendezVousPropagateMessage), (text "DestSName", handleDestSName),
    (text "DestSParam", handleDestSParam), (text "MessageId", handleMessageId),
    (text "Path", handlePath), (text "TTL", handleTTL)]

def handlers : Handlers RendezVousPropagateMessage :=
  .flat (tags.map fun k => (k.1, fun ad c => .ok (k.2 ad c.cd)))

/-- What `jstring_append_2` appends of a string, if there is one. -/
def printed (s : Option (List Byte)) : List Byte := (s.getD []).takeWhile (· ≠ 0)

/-- `RendezVousPropagateMessage_get_xml`. -/
def getXml (ad : RendezVousPropagateMessage) : List Byte :=
  text "<?xml version=\"1.0\"?>\n" ++ text "<!DOCTYPE jxta:RendezVousPropagateMessage>" ++
    text "<jxta:RendezVousPropagateMessage>\n" ++
    element (text "DestSName") (printed ad.destSName) ++ text "\n" ++
    element (text "DestSParam") (printed ad.destSParam) ++ text "\n" ++
    element (text "MessageId") (printed ad.messageId) ++ text "\n" ++
    element (text "TTL") (Decimal.ofInt ad.ttl) ++ text "\n" ++
    (ad.path.flatMap fun path => element (text "Path") (printed (some path)) ++ text "\n") ++
    text "</jxta:RendezVousPropagateMessage>\n"

/-- `RendezVousPropagateMessage_new`. -/
def new : RendezVousPropagateMessage := ⟨none, none, none, [], 0⟩

/-- `RendezVousPropagateMessage_parse_charbuffer`, into a new header. -/
def parseCharbuffer {Kind : Type} (d : Dialect Kind) (parser : Parser) (kind : Kind)
    (buf : List Byte) : Exec (RendezVousPropagateMessage × Status) :=
  handlers.parse d parser kind new buf

/-- The tables of the parser have that of propagate headers. -/
structure Tables {Kind : Type} (d : Dialect Kind) (header : Kind) : Prop where
  name : d.documentName header = documentName
  elements : d.elements header = some (keepers Kind [text "DestSName", text "DestSParam",
    text "MessageId", text "Path", text "TTL"])

end RendezVousPropagateMessage

/-! ## propagating -/

/-- What `apr_uuid_format` writes: digits, `a` to `f` and dashes. -/
structure FormattedUuid where
  chars : CString
  plain : ∀ b ∈ chars.bytes, plainByte b = true

/-- A call of `jxta_rdv_service_provider_update_prophdr`: the peer that makes it, its arguments, and
    the id that `message_id_new` has for it. -/
structure UpdateProphdr where
  localPeerId : CString
  serviceName : Option CString
  serviceParam : Option CString
  ttl : Int
  isInt : -2 ^ 31 ≤ ttl ∧ ttl < 2 ^ 31
  newId : FormattedUuid

namespace Propagate

/-- `jxta_message_remove_element`, of an element that is in the message. -/
def removeElement (msg : List MessageElement) (el : MessageElement) : List MessageElement :=
  (msg.reverse.erase el).reverse

section Provider
variable {Kind : Type} (d : Dialect Kind) (parser : Parser) (header : Kind)

/-- The header that an element holds; the status of the parser is not looked at. -/
def recover (el : MessageElement) : Exec RendezVousPropagateMessage := do
  let (pmsg, _) ← RendezVousPropagateMessage.parseCharbuffer d parser header el.body.value
  return pmsg

/-- `hdrTTL`: one less than it was, and not more than the requested one. -/
def hdrTTL (received ttl : Int) : Exec Int :=
  if received - 1 < -2 ^ 31 then .error .signedOverflow else .ok (min (received - 1) ttl)

variable (messageElementName : CString)

/-- The element that holds a header. -/
def headerElement (pmsg : RendezVousPropagateMessage) : MessageElement :=
  ⟨⟨(parseqname messageElementName).1, (parseqname messageElementName).2, some textXml,
    pmsg.getXml⟩, []⟩

/-- The function from where the header is known. -/
def putHeader (localPeerId : CString) (msg : List MessageElement)
    (pmsg : RendezVousPropagateMessage) : List MessageElement × Status :=
  if pmsg.ttl ≤ 0 then (msg, .ttlExpired)
  else
    let pmsg := { pmsg with path := localPeerId.bytes :: pmsg.path }
    (msg ++ [headerElement messageElementName pmsg], .success)

/-- `jxta_rdv_service_provider_update_prophdr`. -/
def updateProphdr (msg : List MessageElement) (c : UpdateProphdr) :
    Exec (List MessageElement × Status) :=
  match c.serviceName with
  | none => .ok (msg, .invalidArgument)
  | some serviceName =>
    if c.ttl ≤ 0 then .ok (msg, .invalidArgument)
    else
      match getElement1 msg messageElementName with
      | some el => do
        let pmsg ← recover d parser header el
        let ttl ← hdrTTL pmsg.ttl c.ttl
        return putHeader messageElementName c.localPeerId (removeElement msg el) { pmsg with ttl }
      | none =>
        .ok (putHeader messageElementName c.localPeerId msg
          ⟨some serviceName.bytes, c.serviceParam.map CString.bytes, some c.newId.chars.bytes, [],
            c.ttl⟩)

end Provider

end Propagate

end JxtaC
