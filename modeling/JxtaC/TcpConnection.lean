import JxtaC.PacketHeader
import JxtaC.WelcomeMessage

/-
  The receiving side of a TCP connection (jxta_transport_tcp_connection.c). The brigade is the
  buckets that have arrived and are not processed yet; reading from the socket behind them finds
  nothing. `deficit` and `msg_size` are 64 bits, compared without sign. What the connection does for
  the endpoint service, the locks and the remote port are left out; `jxta_message_read` is a
  parameter. Allocations are served.
-/

namespace JxtaC

open Lib

/-- `E_msg_state`. -/
inductive MsgState where
  | hdrNameSize
  | hdrName
  | hdrBodySizeMsb
  | hdrBodySizeLsb
  | hdrBody
  | hdrDone
  deriving DecidableEq

/-- `Tcp_msg_ctx`, with the header block that is in its pool. `msg` is set while a body is read. -/
structure TcpMsgCtx where
  msgType : Option CString
  msgSize : Nat
  srcEa : Option CString
  msg : Bool
  state : MsgState
  deficit : Nat
  header : List Byte
  deriving DecidableEq

/-- What a `split_fn` returns: `FALSE`, `TRUE`, `APR_EAGAIN` or `APR_EOF`. -/
inductive SplitStatus where
  | no
  | yes
  | again
  | eof
  deriving DecidableEq

/-- The test of `split_brigade`: all but `FALSE` are not zero. -/
def SplitStatus.done (s : SplitStatus) : Bool := s ≠ .no

/-- The codes of APR that the functions below return. -/
inductive AprStatus where
  | success
  | eagain
  | eof
  deriving DecidableEq

/-- A `split_fn`: what it does to its argument, and how much of the data is used. -/
abbrev SplitFn (σ : Type) : Type := σ → List Byte → Exec (σ × Nat × SplitStatus)

/-- `split_brigade`: the data that goes to `out` is appended to it. -/
def splitBrigade {σ : Type} (fn : SplitFn σ) : (arg : σ) → (brigade : List (List Byte)) →
    (out : List Byte) → Exec (σ × List (List Byte) × List Byte × AprStatus)
  | arg, [], out => .ok (arg, [], out, .eagain)
  | arg, data :: brigade, out => do
    let (arg, used, status) ← fn arg data
    if status.done then
      if used < data.length then
        return (arg, data.drop used :: brigade, out ++ data.take used, .success)
      else return (arg, brigade, out ++ data, .success)
    else splitBrigade fn arg brigade (out ++ data)

/-! ## the welcome message -/

/-- `MAX_WELCOME_MSG_SIZE`. -/
def maxWelcomeMsgSize : Nat := 4096

/-- The search of `split_welcome` for a line end, from this place on. -/
def findCrlf (data : List Byte) (used : Nat) : Option Nat :=
  (List.range data.length).find? fun i =>
    decide (used ≤ i) && (data[i]? = some 10) && (data[i - 1]? = some 13)

/-- `split_welcome`. -/
def splitWelcome : SplitFn Unit := fun _ data =>
  if data.length < WelcomeMessage.greeting.length then .ok ((), data.length, .again)
  else if data.take WelcomeMessage.greeting.length ≠ WelcomeMessage.greeting then
    .ok ((), data.length, .eof)
  else
    let front := data.take maxWelcomeMsgSize
    match findCrlf front (WelcomeMessage.greeting.length + 2) with
    | some i => .ok ((), i + 1, .yes)
    | none => .ok ((), front.length, .no)

/-! ## the headers of a message -/

namespace TcpMsgCtx

/-- `msg_ctx_reset`. -/
def reset : TcpMsgCtx := ⟨none, 0, none, false, .hdrNameSize, 0, []⟩

/-- One turn of the loop of `split_headers`, on the data that is left. -/
def splitTurn (ctx : TcpMsgCtx) (data : List Byte) : TcpMsgCtx × List Byte :=
  match ctx.state with
  | .hdrNameSize =>
    let size := (data.headD 0).toNat
    ({ ctx with deficit := size, state := if size ≠ 0 then .hdrName else .hdrDone }, data.tail)
  | .hdrName =>
    if ctx.deficit > data.length then ({ ctx with deficit := ctx.deficit - data.length }, [])
    else ({ ctx with deficit := 0, state := .hdrBodySizeMsb }, data.drop ctx.deficit)
  | .hdrBodySizeMsb =>
    ({ ctx with deficit := (data.headD 0).toNat, state := .hdrBodySizeLsb }, data.tail)
  | .hdrBodySizeLsb =>
    ({ ctx with deficit := ctx.deficit * 256 + (data.headD 0).toNat, state := .hdrBody }, data.tail)
  | .hdrBody =>
    if ctx.deficit > data.length then ({ ctx with deficit := ctx.deficit - data.length }, [])
    else ({ ctx with deficit := 0, state := .hdrNameSize }, data.drop ctx.deficit)
  | .hdrDone => (ctx, data)

/-- The loop of `split_headers`: the context, and the data that is left. -/
def splitLoop : (turns : Nat) → TcpMsgCtx → List Byte → Exec (TcpMsgCtx × List Byte)
  | 0, _, _ => .error .neverReturns
  | turns + 1, ctx, data =>
    if ctx.state ≠ .hdrDone ∧ data ≠ [] then
      let (ctx, data) := ctx.splitTurn data
      splitLoop turns ctx data
    else .ok (ctx, data)

/-- `split_headers`. Of two turns at least one uses a byte. -/
def splitHeaders : SplitFn TcpMsgCtx := fun ctx data => do
  let (ctx, rest) ← splitLoop (2 * data.length + 1) ctx data
  return (ctx, data.length - rest.length, if ctx.state = .hdrDone then .yes else .no)

/-- `split_message`. -/
def splitMessage : SplitFn TcpMsgCtx := fun ctx data =>
  if ctx.deficit < data.length then .ok ({ ctx with deficit := 0 }, ctx.deficit, .yes)
  else
    let ctx := { ctx with deficit := ctx.deficit - data.length }
    .ok (ctx, data.length, if ctx.deficit = 0 then .yes else .no)

/-- `handle_header`. Where it fails, the NUL that it has put behind the value stays there. -/
def handleHeader (ctx : TcpMsgCtx) (name val : List Byte) : TcpMsgCtx × Status :=
  if name.length = 5 then
    if PacketHeader.sameName 5 PacketHeader.srcEA name then
      ({ ctx with srcEa := some (.ofBuffer val) }, .success)
    else (ctx, .success)
  else if name.length = 12 then
    if PacketHeader.sameName 12 PacketHeader.contentType name then
      ({ ctx with msgType := some (.ofBuffer val) }, .success)
    else (ctx, .success)
  else if name.length = 14 then
    if PacketHeader.sameName 14 PacketHeader.contentLength name then
      if val.length ≠ 8 then (ctx, .invalidArgument)
      else ({ ctx with msgSize := ofBigEndian val }, .success)
    else (ctx, .success)
  else (ctx, .success)

/-- The loop of `read_headers`: the data that is left, and the number of bytes used. A header that
    ends with the data has no byte behind its value. -/
def readLoop : (turns : Nat) → TcpMsgCtx → (data : List Byte) → (used : Nat) →
    Exec (TcpMsgCtx × Nat × AprStatus)
  | 0, _, _, _ => .error .neverReturns
  | _ + 1, ctx, [], used => .ok (ctx, used, .eagain)
  | turns + 1, ctx, b :: data, used =>
    if b = 0 then .ok (ctx, used + 1, .success)
    else if b.toNat + 2 > data.length then .ok (ctx, used, .eagain)
    else
      let valLen := ofBigEndian ((data.drop b.toNat).take 2)
      if b.toNat + 2 + valLen > data.length then .ok (ctx, used, .eagain)
      else if b.toNat + 2 + valLen = data.length then .error .outOfBounds
      else
        let val := (data.drop (b.toNat + 2)).take valLen
        let (ctx, status) := ctx.handleHeader (data.take b.toNat) val
        let rest := data.drop (b.toNat + 2 + valLen)
        -- the status is not looked at, but the next byte is not put back
        readLoop turns ctx (if status = .success then rest else rest.set 0 0)
          (used + 1 + b.toNat + 2 + valLen)

/-- `read_headers`. -/
def readHeaders (ctx : TcpMsgCtx) (data : List Byte) : Exec (TcpMsgCtx × Nat × AprStatus) :=
  readLoop (data.length + 1) ctx data 0

end TcpMsgCtx

/-! ## the connection -/

/-- `_jxta_transport_tcp_connection`, as far as it is about receiving; the messages that were
    delivered are the header block and the body. -/
structure TcpConnection where
  myMsgVersion : Int
  itsWelcome : Option WelcomeMessage
  useMsgVersion : Int
  destAddr : EndpointAddress
  brigade : List (List Byte)
  buf : List Byte
  msgCtx : TcpMsgCtx
  delivered : List (List Byte × List Byte)
  closed : Bool

namespace TcpConnection

/-- `jxta_transport_tcp_connection_close`. -/
def close (me : TcpConnection) : TcpConnection := { me with brigade := [], closed := true }

/-- `handle_reading_error`. -/
def handleReadingError (me : TcpConnection) (rv : AprStatus) : TcpConnection :=
  match rv with
  | .success | .eagain => me
  | .eof => me.close

/-- The message version that both ends know. -/
def useVersion (its mine : Int) : Int := if its < mine then its else mine

/-- `process_welcome`. -/
def processWelcome (uriParse : CString → Uri) (me : TcpConnection) :
    Exec (TcpConnection × AprStatus) := do
  let ((), brigade, buf, rv) ← splitBrigade splitWelcome () me.brigade me.buf
  let me := { me with brigade, buf }
  if rv ≠ .success then return (me, rv)
  else
    let me := { me with buf := [] }
    match WelcomeMessage.new2 uriParse (.ofBuffer buf) with
    | none => return (me, .eof)
    | some welcome =>
      match welcome.publicAddr with
      | none => .error .nullPointer
      | some destAddr =>
        return ({ me with
          itsWelcome := some welcome
          useMsgVersion := useVersion welcome.useMessageVersion me.myMsgVersion
          destAddr }, .success)

/-- The header block of a message is read: the part of `process_data` under `ctx->msg == NULL`. -/
def processHeaders (me : TcpConnection) : Exec (TcpConnection × AprStatus) := do
  let (msgCtx, brigade, buf, rv) ← splitBrigade TcpMsgCtx.splitHeaders me.msgCtx me.brigade me.buf
  let me := { me with msgCtx, brigade, buf }
  if rv ≠ .success then return (me, rv)
  else
    let (msgCtx, used, status) ← msgCtx.readHeaders buf
    if status ≠ .success ∨ used ≠ buf.length then .error .aborted
    else
      return ({ me with
        buf := []
        msgCtx := { msgCtx with msg := true, deficit := msgCtx.msgSize, header := buf } }, .success)

/-- A whole message is there: it is read and handed to the endpoint service. -/
def deliver (messageRead : List Byte → Status) (me : TcpConnection) : TcpConnection :=
  if messageRead me.buf = .success then
    { me with
      delivered := me.delivered ++ [(me.msgCtx.header, me.buf)]
      msgCtx := .reset
      buf := [] }
  else me.close

/-- One turn of the loop of `process_data`, and whether there is another one. -/
def processTurn (uriParse : CString → Uri) (messageRead : List Byte → Status) (me : TcpConnection) :
    Exec (TcpConnection × Bool) := do
  let (me, rv) ← if me.itsWelcome = none then me.processWelcome uriParse else pure (me, .success)
  if rv ≠ .success then return (me.handleReadingError rv, false)
  else
    let (me, rv) ← if me.msgCtx.msg then pure (me, .success) else me.processHeaders
    if rv ≠ .success then return (me.handleReadingError rv, false)
    else
      let (msgCtx, brigade, buf, rv) ←
        splitBrigade TcpMsgCtx.splitMessage me.msgCtx me.brigade me.buf
      let me := { me with msgCtx, brigade, buf }
      if rv ≠ .success then return (me.handleReadingError rv, false)
      else
        let me := me.deliver messageRead
        return (me, !me.closed)

/-- The loop of `process_data`. -/
def processLoop (uriParse : CString → Uri) (messageRead : List Byte → Status) : (turns : Nat) →
    TcpConnection → Exec TcpConnection
  | 0, _ => .error .neverReturns
  | turns + 1, me => do
    let (me, again) ← me.processTurn uriParse messageRead
    if again then processLoop uriParse messageRead turns me else return me

/-- `process_data`. Every message that is delivered takes at least a byte, but for one whose header
    block was there before. -/
def processData (uriParse : CString → Uri) (messageRead : List Byte → Status) (me : TcpConnection) :
    Exec TcpConnection :=
  if me.closed then .ok me
  else processLoop uriParse messageRead (me.brigade.flatten.length + 2) me

/-- What happens to a connection: a bucket arrives, or `process_data` is called. -/
inductive Event where
  | arrive (bucket : List Byte)
  | processData
  deriving DecidableEq

/-- One step. A closed connection gets no more data. -/
def step (uriParse : CString → Uri) (messageRead : List Byte → Status) (me : TcpConnection) :
    Event → Exec TcpConnection
  | .arrive bucket => .ok (if me.closed then me else { me with brigade := me.brigade ++ [bucket] })
  | .processData => me.processData uriParse messageRead

/-- A connection that waits for the welcome message. -/
def start (destAddr : EndpointAddress) (myMsgVersion : Int) : TcpConnection :=
  ⟨myMsgVersion, none, 0, destAddr, [], [], .reset, [], false⟩

end TcpConnection

end JxtaC
