import JxtaC.TcpSender.Framing

/-
  TCP multicast (jxta_tcp_multicast.c): datagrams in and out, each through a buffer of the packet
  size with an index into it. `sendto` says which datagrams `apr_socket_sendto` takes: it takes a
  datagram whole or not at all, so that the loop of `tcp_multicast_write` makes one turn. Packet
  sizes are not negative. Sockets, the thread and the mutex are left out. Allocations are served.
-/

namespace JxtaC

open Lib Lib.Stream

/-- `_tcp_multicast`, with the address of its transport. -/
structure TcpMulticast where
  allowMulticast : Bool
  run : Bool
  multicastIpaddr : CString
  multicastPort : Nat
  multicastPacketSize : Nat
  multicastPacketSize_lt : multicastPacketSize < 2 ^ 31
  ipaddr : CString
  port : Nat

/-- `MESSAGE_DESTINATION_NAME`. -/
def messageDestinationName : CString := .ofBuffer (text "EndpointDestinationAddress")

/-- `jxta_message_set_destination`. -/
def Message.setDestination {Qos : Type} (msg : Message Qos) (dstAddr : EndpointAddress) :
    Message Qos :=
  let el := ⟨⟨messageJxtaNs, messageDestinationName, some (.ofBuffer (text "text/plain")),
    dstAddr.toCString⟩, []⟩
  { msg with
    elements := Message.removeElement2 messageJxtaNs messageDestinationName msg.elements ++ [el] }

namespace TcpMulticast

/-- What stands in front of every packet. -/
def welcome : List Byte := text "JXTA"

/-! ## streams -/

/-- `STREAM`; `d_size` is the length of the buffer. -/
structure STREAM where
  dataBuf : List Byte
  dIndex : Nat
  dLen : Nat
  deriving DecidableEq

namespace STREAM

/-- `stream_init`, on a buffer of this size. -/
def init (dSize : Nat) : STREAM := ⟨List.replicate dSize 0, 0, 0⟩

/-- A stream behind `tcp_multicast_read`: the datagram, as much of it as there is room for. -/
def received (dSize : Nat) (datagram : List Byte) : STREAM :=
  let stream := init dSize
  let read := datagram.take dSize
  { stream with dataBuf := read ++ stream.dataBuf.drop read.length, dLen := read.length }

/-- `tcp_multicast_read_stream_n`: none for `JXTA_FAILED`. -/
def readStreamN (stream : STREAM) (size : Nat) : Exec (Option (List Byte) × STREAM) :=
  if stream.dLen < size then .ok (none, stream)
  else if stream.dataBuf.length < stream.dIndex + size then .error .outOfBounds
  else .ok (some ((stream.dataBuf.drop stream.dIndex).take size),
    { stream with dIndex := stream.dIndex + size, dLen := stream.dLen - size })

/-- `tcp_multicast_write_stream`. -/
def writeStream (stream : STREAM) (buf : List Byte) : STREAM × Status :=
  if stream.dIndex + buf.length ≥ stream.dataBuf.length then (stream, .failed)
  else
    (⟨stream.dataBuf.take stream.dIndex ++ buf ++
        stream.dataBuf.drop (stream.dIndex + buf.length),
      stream.dIndex + buf.length, stream.dLen + buf.length⟩, .success)

/-- `write_to_tcp_multicast_stream` as the `write_func` of the message writers. -/
def writeFunc (stream : STREAM) (buf : List Byte) : Exec (STREAM × Option Status) :=
  let (stream, status) := stream.writeStream buf
  .ok (stream, if status = .success then none else some status)

/-- The bytes that are still to be read. -/
def rest (stream : STREAM) : List Byte := (stream.dataBuf.drop stream.dIndex).take stream.dLen

end STREAM

/-- `read_from_tcp_multicast_stream`: where there are not enough bytes it reads none. -/
def inputStream : InputStream := ⟨⟨.failed, fun s _ => s, fun _ _ => Nat.le_refl _⟩, nofun⟩

/-! ## receiving -/

/-- The test of the first bytes of a buffer: how many it looks at, and whether all are the right
    ones. -/
def checkWelcome : (expected dataBuf : List Byte) → Exec (Nat × Bool)
  | [], _ => .ok (0, true)
  | _ :: _, [] => .error .outOfBounds
  | e :: expected, b :: dataBuf =>
    if b ≠ e then .ok (1, false)
    else do
      let (looked, whole) ← checkWelcome expected dataBuf
      return (looked + 1, whole)

section Receive
variable {Qos : Type} (extract : Option Qos → List Byte → Exec (Option Qos × Status))

/-- The stream behind the prefix. -/
def STREAM.behindWelcome (stream : STREAM) : STREAM :=
  { stream with dIndex := stream.dIndex + 4, dLen := (stream.dLen + 2 ^ 64 - 4) % 2 ^ 64 }

/-- `tcp_multicast_process`: the message that `jxta_endpoint_service_demux` gets. The status of
    `jxta_message_read` is logged. -/
def process (me : TcpMulticast) (stream : STREAM) : Exec (Option (Message Qos)) :=
  if !me.allowMulticast || !me.run then .ok none
  else do
    let (_, whole) ← checkWelcome welcome stream.dataBuf
    if !whole then return none
    else
      match PacketHeader.messagePacketHeaderRead inputStream.toSource true
          stream.behindWelcome.rest with
      | .fault f => .error f
      | .exit _ _ => return none
      | .ok (msgSize, _) behind =>
        -- the size is signed
        if 0 < msgSize ∧ msgSize < 2 ^ 63 then do
          let (msg, _, _) ← Message.messageRead inputStream extract ⟨[], none⟩ TcpSender.appMsg behind
          return some msg
        else return none

end Receive

/-! ## sending -/

/-- The address that a packet is sent from, in a buffer of 128 bytes. -/
def srcAddr (me : TcpMulticast) : CString :=
  .ofBuffer ((text "tcp://" ++ me.ipaddr.bytes ++ 58 :: Decimal.ofNat me.port).take 127)

/-- The address that a packet is sent to. -/
def destination (me : TcpMulticast) (serviceName serviceParams : Option CString) :
    EndpointAddress :=
  ⟨.ofBuffer (text "tcp"), .ofBuffer (me.multicastIpaddr.bytes ++ 58 :: Decimal.ofNat me.multicastPort),
    serviceName, serviceParams⟩

/-- `msg_wireformat_size` as the `write_func` of a packet header. -/
def sizeFunc : WriteFunc Nat := fun size buf => (size + buf.length, .success)

/-- `tcp_multicast_write`: the datagrams that were sent, and the status. -/
def write (sendto : List Byte → Bool) (stream : STREAM) (size : Nat) :
    Exec (List (List Byte) × Status) :=
  if size = 0 then .ok ([], .success)
  else if stream.dataBuf.length < size then .error .outOfBounds
  else if sendto (stream.dataBuf.take size) then .ok ([stream.dataBuf.take size], .success)
  else .ok ([], .failed)

section Send
variable {Qos : Type} (sendto : List Byte → Bool) (qosToXml : Qos → CString)

open Message.WriteScript (messageWrite1To)

/-- `tcp_multicast_propagate`: the datagrams that were sent, the message, and the status.
    `jxta_message_write` writes version 1, which is `jxta_message_write_1` at 0. -/
def propagate (me : TcpMulticast) (msg : Message Qos) (serviceName serviceParams : Option CString) :
    Exec (List (List Byte) × Message Qos × Status) :=
  if !me.allowMulticast || !me.run then .ok ([], msg, .failed)
  else do
    let stream := STREAM.init me.multicastPacketSize
    let msg := msg.setDestination (me.destination serviceName serviceParams)
    let stream := (stream.writeStream welcome).1
    let (msg, _, msgSize) ←
      messageWrite1To TcpSender.msgWireformatSize qosToXml msg TcpSender.appMsg 0 0
    let packetHeaderSize := (PacketHeader.messagePacketHeaderWrite sizeFunc 0 msgSize true me.srcAddr).1
    let stream :=
      (PacketHeader.messagePacketHeaderWrite STREAM.writeStream stream msgSize true me.srcAddr).1
    let (msg, res, stream) ← messageWrite1To STREAM.writeFunc qosToXml msg TcpSender.appMsg 0 stream
    match res with
    | some _ => return ([], msg, .failed)
    | none =>
      let (sent, res) ← write sendto stream (4 + packetHeaderSize + msgSize)
      return (sent, msg, if res = .success then res else .failed)

end Send

end TcpMulticast

end JxtaC
