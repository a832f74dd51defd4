import JxtaC.Message.Script
import JxtaC.PacketHeader.RoundTrip

/-
  The sending side of a TCP connection (jxta_transport_tcp_connection.c): a buffer in front of the
  socket, and what the socket was handed. `socket` is what `apr_socket_send` will answer, call after
  call, for any answers that fit the call; where there are no more of them, it does not return.
  Locks and times are left out. Allocations are served.
-/

namespace JxtaC

open Lib

/-- The codes of `apr_socket_send` that `flush` tells apart. -/
inductive SendStatus where
  | success
  /-- `EAGAIN` or `TIMEUP`. -/
  | again
  | error
  deriving DecidableEq

/-- An answer of `apr_socket_send`: its code, and the number of bytes that it takes, or all of them if
    there are fewer. -/
structure SendResult where
  status : SendStatus
  written : Nat
  deriving DecidableEq

/-- `_jxta_transport_tcp_connection`, as far as it is about sending, with the address of its
    transport. -/
structure TcpSender where
  connected : Bool
  useMsgVersion : Int
  publicAddr : EndpointAddress
  dataOutBuf : List Byte
  socket : List SendResult
  sent : List Byte
  deriving DecidableEq

/-- `MESSAGE_SOURCE_NAME`. -/
def messageSourceName : CString := .ofBuffer (text "EndpointSourceAddress")

/-- `jxta_message_set_source`. -/
def Message.setSource {Qos : Type} (msg : Message Qos) (srcAddr : EndpointAddress) : Message Qos :=
  let el := ⟨⟨messageJxtaNs, messageSourceName, some (.ofBuffer (text "text/plain")),
    srcAddr.toCString⟩, []⟩
  { msg with
    elements := Message.removeElement2 messageJxtaNs messageSourceName msg.elements ++ [el] }

namespace TcpSender

/-- `BUFSIZE`. -/
def bufsize : Nat := 8192

/-- The loop of `flush`: what is left of the answers, what was sent, and the status. -/
def flushLoop : (socket : List SendResult) → (sent buf : List Byte) →
    Exec (List SendResult × List Byte × Status)
  | socket, sent, [] => .ok (socket, sent, .success)
  | [], _, _ :: _ => .error .neverReturns
  | r :: socket, sent, b :: buf =>
    let sent := sent ++ (b :: buf).take r.written
    match r.status with
    | .error => .ok (socket, sent, .failed)
    | .success | .again => flushLoop socket sent ((b :: buf).drop r.written)

/-- `flush`. -/
def flush (me : TcpSender) (buf : List Byte) : Exec (TcpSender × Status) := do
  let (socket, sent, status) ← flushLoop me.socket me.sent buf
  return ({ me with socket, sent }, status)

/-- `tcp_connection_flush`. -/
def tcpConnectionFlush (me : TcpSender) : Exec (TcpSender × Status) := do
  let (me, status) ← me.flush me.dataOutBuf
  return ({ me with dataOutBuf := [] }, status)

/-- `write_to_tcp_connection`. -/
def writeToTcpConnection (me : TcpSender) (buf : List Byte) : Exec (TcpSender × Status) :=
  if bufsize - me.dataOutBuf.length > buf.length then
    .ok ({ me with dataOutBuf := me.dataOutBuf ++ buf }, .success)
  else do
    let (me, status) ← me.tcpConnectionFlush
    if status ≠ .success then return (me, status) else me.flush buf

/-- `write_to_tcp_connection` as the `write_func` of the message writers. -/
def writeFunc (me : TcpSender) (buf : List Byte) : Exec (TcpSender × Option Status) := do
  let (me, status) ← me.writeToTcpConnection buf
  return (me, if status = .success then none else some status)

/-- `write_to_tcp_connection` as the `write_func` of a packet header. -/
def headerFunc : WriteFunc (Exec TcpSender) := fun stream buf =>
  match stream with
  | .error f => (.error f, .failed)
  | .ok me =>
    match me.writeToTcpConnection buf with
    | .ok (me, status) => (.ok me, status)
    | .error f => (.error f, .failed)

/-- `msg_wireformat_size`. -/
def msgWireformatSize (size : Nat) (buf : List Byte) : Exec (Nat × Option Status) :=
  .ok (size + buf.length, none)

/-- `APP_MSG`, the type of the message on the wire. -/
def appMsg : Option CString := some (.ofBuffer PacketHeader.appMsg)

section Send
variable {Qos : Type} (qosToXml : Qos → CString)

open Message.WriteScript (messageWrite1To)

/-- `jxta_transport_tcp_connection_send_message`. -/
def sendMessage (me : TcpSender) (msg : Message Qos) : Exec (TcpSender × Message Qos × Status) :=
  if !me.connected then .ok (me, msg, .failed)
  else do
    let msg := msg.setSource me.publicAddr
    let (msg, res, msgSize) ← messageWrite1To msgWireformatSize qosToXml msg appMsg me.useMsgVersion 0
    match res with
    | some res => return (me, msg, res)
    | none =>
      -- the address is not used
      let me ← (PacketHeader.messagePacketHeaderWrite headerFunc (.ok me) msgSize false
        (.ofBuffer [])).1
      let (msg, res, me) ← messageWrite1To writeFunc qosToXml msg appMsg me.useMsgVersion me
      if me.dataOutBuf ≠ [] then
        let (me, res) ← me.tcpConnectionFlush
        return (me, msg, res)
      else return (me, msg, res.getD .success)

end Send

end TcpSender

end JxtaC
