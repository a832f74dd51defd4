import JxtaC.Advertisement
import JxtaC.Lib.Decimal
import JxtaC.Message
import JxtaC.Peerview

/-
  The limited range walk of a rendezvous peer: its header (jxta_walk_msg.c), and the functions that
  send a message on and receive one (jxta_rdv_service_server.c). The TTL is an `int`, the size of
  the local view an `unsigned int`. The messages on their way between the peers are a list, and the
  network delivers any of them next.
-/

namespace JxtaC

open Lib

/-! ## the header -/

def walkUp : Int := 1

def walkDown : Int := 2

def walkBoth : Int := 3

structure LimitedRangeRdvMessage where
  ttl : Int
  dir : Int
  srcPeerId : Option (List Byte)
  svcName : Option (List Byte)
  svcParams : Option (List Byte)
  deriving Repr, DecidableEq

/-- `extract_char_data`: the first word. -/
def extractCharData (string : List Byte) : List Byte :=
  (string.dropWhile Decimal.isSpace).takeWhile fun b => !Decimal.isSpace b && b ≠ 0

/-- `jstring_trim`. -/
def jstringTrim (js : List Byte) : List Byte :=
  ((js.dropWhile Decimal.isSpace).reverse.dropWhile Decimal.isSpace).reverse

/-- What the handlers of numbers do with their text. -/
def handleInt (set : Int → LimitedRangeRdvMessage) (ad : LimitedRangeRdvMessage) (cd : List Byte) :
    LimitedRangeRdvMessage :=
  let tok := extractCharData cd
  if cd = [] ∨ tok = [] then ad else set (Decimal.atoi tok)

/-- What the handlers of strings do with their text. -/
def handleString (old : Option (List Byte)) (set : Option (List Byte) → LimitedRangeRdvMessage)
    (ad : LimitedRangeRdvMessage) (cd : List Byte) : LimitedRangeRdvMessage :=
  if cd = [] then ad else set (some (jstringTrim (old.getD [] ++ cd)))

namespace LimitedRangeRdvMessage

def handleLimitedRangeRdvMessage (ad : LimitedRangeRdvMessage) (_ : List Byte) :
    LimitedRangeRdvMessage := ad

def handleTTL (ad : LimitedRangeRdvMessage) (cd : List Byte) : LimitedRangeRdvMessage :=
  handleInt (fun ttl => { ad with ttl }) ad cd

def handleDir (ad : LimitedRangeRdvMessage) (cd : List Byte) : LimitedRangeRdvMessage :=
  handleInt (fun dir => { ad with dir }) ad cd

def handleSrcPeerID (ad : LimitedRangeRdvMessage) (cd : List Byte) : LimitedRangeRdvMessage :=
  handleString ad.srcPeerId (fun srcPeerId => { ad with srcPeerId }) ad cd

def handleSrcSvcName (ad : LimitedRangeRdvMessage) (cd : List Byte) : LimitedRangeRdvMessage :=
  handleString ad.svcName (fun svcName => { ad with svcName }) ad cd

def handleSrcSvcParams (ad : LimitedRangeRdvMessage) (cd : List Byte) : LimitedRangeRdvMessage :=
  handleString ad.svcParams (fun svcParams => { ad with svcParams }) ad cd

/-- The name of the document. -/
def documentName : List Byte := text "jxta:LimitedRangeRdvMessage"

/-- `LimitedRangeRdvMessage_tags`. -/
def tags : List (Kwdtab LimitedRangeRdvMessage) :=
  [⟨documentName, handleLimitedRangeRdvMessage⟩,
    ⟨text "TTL", handleTTL⟩,
    ⟨text "Dir", handleDir⟩,
    ⟨text "SrcPeerID", handleSrcPeerID⟩,
    ⟨text "SrcSvcName", handleSrcSvcName⟩,
    ⟨text "SrcSvcParams", handleSrcSvcParams⟩]

/-- The elements of the document, with their text. -/
def fields (ad : LimitedRangeRdvMessage) : List (List Byte × List Byte) :=
  [(text "TTL", Decimal.ofInt ad.ttl),
    (text "Dir", Decimal.ofInt ad.dir),
    (text "SrcPeerID", ad.srcPeerId.getD []),
    (text "SrcSvcName", ad.svcName.getD []),
    (text "SrcSvcParams", ad.svcParams.getD [])]

/-- `LimitedRangeRdvMessage_get_xml`. -/
def getXml (ad : LimitedRangeRdvMessage) : List Byte := flatDocument documentName ad.fields

/-- `LimitedRangeRdvMessage_new`. -/
def new : LimitedRangeRdvMessage := ⟨0, walkBoth, none, none, none⟩

/-- `LimitedRangeRdvMessage_parse_charbuffer`, into a new header. -/
def parse (xmlParse : XmlParser) (buf : List Byte) : LimitedRangeRdvMessage × Status :=
  Advertisement.parseCharbuffer tags xmlParse new buf

end LimitedRangeRdvMessage

/-! ## walking -/

namespace Walk

/-- `JXTA_RDV_NS_NAME`. -/
def rdvNsName : CString := .ofChars ['j', 'x', 't', 'a']

/-- `LIMITEDRANGEWALKELEMENT`. -/
def limitedRangeWalkElement : CString := .ofBuffer (text "LimitedRangeRdvMessage")

def rdvWalkSvcName : CString := .ofBuffer (text "RdvWalkSvcName")

def rdvWalkSvcParam : CString := .ofBuffer (text "RdvWalkSvcParam")

def textPlain : CString := .ofBuffer (text "text/plain")

/-- `jxta_message_get_element_2`: the last element of this name. -/
def getElement2 (msg : List MessageElement) (ns name : CString) : Option MessageElement :=
  msg.reverse.find? fun el => el.body.ns = ns ∧ el.body.name = name

/-- An element of the rendezvous service, without a signature. -/
def rdvElement (name mimeType : CString) (value : List Byte) : MessageElement :=
  ⟨⟨rdvNsName, name, some mimeType, value⟩, []⟩

/-- `int` from `unsigned int`, and back. -/
def toInt (u : Nat) : Int := (u : Int).bmod uintMod

/-- A message on its way to a peer. -/
structure Transmission where
  dest : Pid
  msg : List MessageElement
  deriving DecidableEq

/-- What `walk` reads of the service: the id of this peer, and its local view. -/
structure Provider where
  localPeerId : List Byte
  localViewSize : Nat
  upPeer : Option Pid
  downPeer : Option Pid
  deriving DecidableEq

/-- `useTTL`: one less than it was, and less than the size of our own view. -/
def useTTL (localViewSize : Nat) (ttl : Int) : Exec Nat :=
  if ttl - 1 < -2 ^ 31 then .error .signedOverflow
  else
    let useTTL := ((ttl - 1) % uintMod).toNat
    let limit := (localViewSize + (uintMod - 1)) % uintMod
    .ok (if limit < useTTL then limit else useTTL)

/-- The part of `walk` for one direction: what it sends, and its status. -/
def walkTo (send : Transmission → Status) (header : LimitedRangeRdvMessage) (direction : Int)
    (peer : Option Pid) (msg : List MessageElement) : List Transmission × Status :=
  let headerDoc := { header with dir := direction }.getXml
  let newmsg := msg ++ [rdvElement limitedRangeWalkElement textXml headerDoc]
  match peer with
  | none => ([], .success)
  | some pid => ([⟨pid, newmsg⟩], send ⟨pid, newmsg⟩)

/-- `walk` from where the header is known. -/
def walkOn (send : Transmission → Status) (self : Provider) (header : LimitedRangeRdvMessage)
    (msg : List MessageElement) : Exec (List Transmission × Status) := do
  let ttl ← useTTL (self.localViewSize % uintMod) header.ttl
  let direction := header.dir
  let header := { header with ttl := toInt ttl }
  if ttl < 1 then return ([], .success)
  else
    let up := if direction = walkBoth ∨ direction = walkUp then
      walkTo send header walkUp self.upPeer msg else ([], .success)
    let down := if direction = walkBoth ∨ direction = walkDown then
      walkTo send header walkDown self.downPeer msg else ([], up.2)
    return (up.1 ++ down.1, down.2)

/-- `walk`: what it sends, where `send` is the status of `jxta_endpoint_service_send`. -/
def walk (xmlParse : XmlParser) (send : Transmission → Status) (self : Provider)
    (msg : List MessageElement) (serviceName serviceParam : CString) :
    Exec (List Transmission × Status) :=
  match getElement2 msg rdvNsName limitedRangeWalkElement with
  | none =>
    let header := ⟨toInt (self.localViewSize % uintMod), walkBoth, some self.localPeerId,
      some serviceName.bytes, some serviceParam.bytes⟩
    walkOn send self header (msg ++ [rdvElement rdvWalkSvcName textPlain serviceName.bytes] ++
      [rdvElement rdvWalkSvcParam textPlain serviceParam.bytes])
  | some el =>
    match LimitedRangeRdvMessage.parse xmlParse el.body.value with
    | (header, .success) =>
      walkOn send self header (Message.removeElement2 rdvNsName limitedRangeWalkElement msg)
    | (_, res) => .ok ([], res)

/-- `walker_cb`: the service name and parameter the message is demultiplexed to. -/
def walkerCb (xmlParse : XmlParser) (msg : List MessageElement) :
    Option (Option CString × Option CString) :=
  match getElement2 msg rdvNsName limitedRangeWalkElement with
  | none => none
  | some el =>
    match LimitedRangeRdvMessage.parse xmlParse el.body.value with
    | (header, .success) =>
      if header.ttl ≤ 0 then none
      else
        match getElement2 msg rdvNsName rdvWalkSvcName with
        | none => some (header.svcName.map .ofBuffer, header.svcParams.map .ofBuffer)
        | some name =>
          match getElement2 msg rdvNsName rdvWalkSvcParam with
          | none => none
          | some param => some (some (.ofBuffer name.body.value), some (.ofBuffer param.body.value))
    | _ => none

/-! ## the network -/

/-- The messages in flight, the peers that messages were sent to, and those where one reached the
    service it is for. -/
structure Net where
  inFlight : List Transmission
  sent : List Pid
  received : List Pid
  deriving DecidableEq

section Network
variable (xmlParse : XmlParser) (send : Transmission → Status)

/-- A walk is started. -/
def start (self : Provider) (msg : List MessageElement) (serviceName serviceParam : CString) :
    Exec Net := do
  let (sends, _) ← walk xmlParse send self msg serviceName serviceParam
  return { inFlight := sends, sent := sends.map Transmission.dest, received := [] }

/-- A message arrives: the service it is for gets it, and hands it to `walk` again. -/
def arrive (self : Provider) (serviceName serviceParam : CString) (t : Transmission) :
    Exec (List Transmission × List Pid) :=
  match walkerCb xmlParse t.msg with
  | none => .ok ([], [])
  | some _ => do
    let (sends, _) ← walk xmlParse send self t.msg serviceName serviceParam
    return (sends, [t.dest])

/-- The message at a place of the list is delivered, to a peer with this state. -/
def deliver (self : Provider) (serviceName serviceParam : CString) (net : Net) (i : Nat) :
    Exec Net :=
  match net.inFlight[i]? with
  | none => .ok net
  | some t => do
    let (sends, reached) ← arrive xmlParse send self serviceName serviceParam t
    return { inFlight := net.inFlight.eraseIdx i ++ sends
             sent := net.sent ++ sends.map Transmission.dest
             received := net.received ++ reached }

/-- `k` deliveries lead from one state of the network to another. At each of them the peers are in
    some states that `Now` admits, and the services give `walk` any name and parameter. -/
inductive Run (Now : (Pid → Provider) → Prop) (net : Net) : Nat → Net → Prop where
  | start : Run Now net 0 net
  | deliver {k : Nat} {net' net'' : Net} {peers : Pid → Provider} {i : Nat} {t : Transmission}
      {serviceName serviceParam : CString} (run : Run Now net k net') (now : Now peers)
      (ht : net'.inFlight[i]? = some t)
      (hnext : deliver xmlParse send (peers t.dest) serviceName serviceParam net' i = .ok net'') :
      Run Now net (k + 1) net''

end Network

end Walk

end JxtaC
