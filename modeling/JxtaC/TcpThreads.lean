import JxtaC.Lib.Transition
import JxtaC.TcpConnection

/-
  The threads of a TCP connection (jxta_transport_tcp_connection.c): the poll thread calls `read_cb`,
  the thread pool runs `process_data`, and any thread may close the connection. A step is what a thread
  does from one point at which it takes or gives back a lock, or comes to a wait or an assertion, up to
  the next. `reading_lock` is kept, as calls of the close are made while it is held; a section under
  `mutex` is one step. What the socket gives is chosen by the step that reads it. The bytes go the way
  of `TcpConnection`; the messenger behind the connect event and failing allocations are left out.
-/

namespace JxtaC

open Lib

/-- The body of a message, with the header block where it is not read yet: the part of `process_data`
before it unlocks `reading_lock` to read the message. -/
def TcpConnection.takeMessage (me : TcpConnection) : Exec (TcpConnection × AprStatus) := do
  let (me, rv) ← if me.msgCtx.msg then pure (me, .success) else me.processHeaders
  if rv ≠ .success then return (me, rv)
  else
    let (msgCtx, brigade, buf, rv) ← splitBrigade TcpMsgCtx.splitMessage me.msgCtx me.brigade me.buf
    return ({ me with msgCtx, brigade, buf }, rv)

/-- The header block, once it is there, is one that `read_headers` reads to its end. -/
def TcpConnection.HeadersRead (me : TcpConnection) : Prop :=
  match splitBrigade TcpMsgCtx.splitHeaders me.msgCtx me.brigade me.buf with
  | .error _ => False
  | .ok (ctx, _, block, rv) => rv = .success →
    match ctx.readHeaders block with
    | .error _ => False
    | .ok (_, used, status) => status = .success ∧ used = block.length

instance (me : TcpConnection) : Decidable me.HeadersRead := by
  unfold TcpConnection.HeadersRead
  split
  · infer_instance
  · split <;> infer_instance

/-- Buckets arrive. -/
def TcpConnection.arrive (me : TcpConnection) (more : List (List Byte)) : TcpConnection :=
  { me with brigade := me.brigade ++ more }

section Deliveries
variable (uriParse : CString → Uri) (messageRead : List Byte → Status)

/-- What the loop of `process_data` has delivered when it ends, or is aborted. -/
def TcpConnection.deliveries : (turns : Nat) → TcpConnection → List (List Byte × List Byte)
  | 0, me => me.delivered
  | turns + 1, me =>
    match me.processTurn uriParse messageRead with
    | .error _ => me.delivered
    | .ok (me, again) => if again then deliveries turns me else me.delivered

/-- What `process_data` delivers from a connection that it has to itself. -/
def TcpConnection.complete (me : TcpConnection) : List (List Byte × List Byte) :=
  if me.closed then me.delivered
  else me.deliveries uriParse messageRead (me.brigade.flatten.length + 2)

end Deliveries

namespace TcpThreads

/-- A bucket that the socket gives. -/
abbrev Bucket : Type := { data : List Byte // data ≠ [] }

/-- `Tcp_connection_state`. -/
inductive ConnectionState where
  | init
  | connecting
  | connected
  | disconnecting
  | disconnected
  deriving DecidableEq

/-- `Jxta_transport_event_type`. -/
inductive TransportEvent where
  | inboundConnected
  | outboundConnected
  | connectionClosed
  deriving DecidableEq

/-- Who calls `jxta_transport_tcp_connection_close`: `process_data` does when `split_brigade` fails, and
when a message cannot be read. -/
inductive Caller where
  | closer
  | readCb
  | processData
  | unreadable
  deriving DecidableEq

/-- The sections of `jxta_transport_tcp_connection_close`, with `was_connected`. -/
inductive Closing where
  | begin
  | removePoll (wasConnected : Bool)
  | shutdown (wasConnected : Bool)
  deriving DecidableEq

/-- Where a thread is. -/
inductive Point where
  /-- in front of `read_cb` -/
  | readCb
  /-- in `read_cb`, behind the close at the end of the stream -/
  | endOfStream
  /-- in `read_cb`, about to push `process_data` -/
  | push
  /-- in `process_data`, about to lock `reading_lock` -/
  | top
  /-- the greeting is accepted, the state not yet `CONN_CONNECTED` -/
  | accepted
  /-- in `tcp_connection_get_messenger` -/
  | getMessenger
  /-- in `tcp_messenger_new` -/
  | messengerNew
  /-- about to call `jxta_endpoint_service_transport_event` -/
  | transportEvent
  /-- a message is in `buf` -/
  | messageRead
  /-- in `process_data`, behind its loop -/
  | leave
  /-- in `process_data`, behind the close for a message that cannot be read -/
  | giveUp
  | close (section_ : Closing) (caller : Caller)
  | done
  deriving DecidableEq

/-- What is outside of the connection. `left` is what `jxta_message_read` leaves of the bytes of a
message that it cannot read. -/
structure Surroundings where
  uriParse : CString → Uri
  messageRead : List Byte → Status
  left : List Byte → List Byte
  destAddr : EndpointAddress
  myMsgVersion : Int
  inbound : Bool

/-- `_jxta_transport_tcp_connection` with its threads. `socket` says that the brigade ends with the
bucket of the socket, `readingLock` which thread has it. The rest is for the record: the buckets that
were received, those received when the close began, and whether `process_data` has met something that it
cannot read. -/
structure State where
  conn : TcpConnection
  connectionState : ConnectionState
  dispatched : Bool
  polled : Bool
  socket : Bool
  readingLock : Option Nat
  threads : List Point
  events : List TransportEvent
  received : List (List Byte)
  before : Option (List (List Byte))
  broken : Bool

section Model
variable (env : Surroundings)

/-- What `tcp_connection_start_socket` leaves. -/
def initial : State where
  conn := .start env.destAddr env.myMsgVersion
  connectionState := .connecting
  dispatched := false
  polled := true
  socket := true
  readingLock := none
  threads := []
  events := []
  received := []
  before := none
  broken := false

/-- The event of a connect. -/
def Surroundings.connected : TransportEvent :=
  if env.inbound then .inboundConnected else .outboundConnected

/-- Where a thread goes on behind the close. -/
def Caller.behind : Caller → Point
  | .closer => .done
  | .readCb => .endOfStream
  | .processData => .leave
  | .unreadable => .giveUp

namespace State

def goTo (s : State) (n : Nat) (p : Point) : State := { s with threads := s.threads.set n p }

/-- `reading_lock` can be taken; it is nested. -/
def CanLock (s : State) (n : Nat) : Prop := ∀ owner ∈ s.readingLock, owner = n

instance (s : State) (n : Nat) : Decidable (s.CanLock n) := by
  unfold CanLock
  infer_instance

/-- The socket gives buckets. -/
def arrive (s : State) (more : List Bucket) : State :=
  { s with
    conn := s.conn.arrive (more.map (·.val))
    received := s.received ++ more.map (·.val) }

/-- `read_cb`, with what `drain_socket` finds. -/
def readCb (s : State) (n : Nat) (more : List Bucket) (eof : Bool) : Exec State :=
  if s.socket = false then .error .outOfBounds
  else
    let s := s.arrive more
    if eof then .ok ({ s with readingLock := some n }.goTo n (.close .begin .readCb))
    else if s.dispatched then .ok (s.goTo n .done)
    else .ok ({ s with dispatched := true }.goTo n .push)

/-- The loop of `process_data` ends: `handle_reading_error`, and what is behind the loop. -/
def endLoop (s : State) (n : Nat) (rv : AprStatus) (eof : Bool) : State :=
  if rv = .eof then
    { s with readingLock := some n, broken := true }.goTo n (.close .begin .processData)
  else if s.socket ∧ eof then { s with readingLock := some n }.goTo n (.close .begin .processData)
  else { s with dispatched := false }.goTo n .done

/-- `process_data` has `reading_lock`. -/
def process (s : State) (n : Nat) (more : List Bucket) (eof : Bool) : Exec State := do
  let s := if s.socket then s.arrive more else s
  if s.conn.itsWelcome = none then
    let (conn, rv) ← s.conn.processWelcome env.uriParse
    let s := { s with conn := conn }
    if rv = .success then return { s with readingLock := some n }.goTo n .accepted
    else return s.endLoop n rv eof
  else
    let (conn, rv) ← s.conn.takeMessage
    let s := { s with conn := conn }
    if rv = .success then return s.goTo n .messageRead else return s.endLoop n rv eof

/-- A message is read, and handed to the endpoint service. -/
def readMessage (s : State) (n : Nat) : State :=
  if env.messageRead s.conn.buf = .success then
    { s with conn := s.conn.deliver env.messageRead }.goTo n .top
  else
    { s with
      conn := { s.conn with buf := env.left s.conn.buf }
      broken := true }.goTo n (.close .begin .unreadable)

/-- A section of `jxta_transport_tcp_connection_close`. -/
def close (s : State) (n : Nat) (caller : Caller) : Closing → Option State
  | .begin =>
    if s.connectionState = .connecting ∨ s.connectionState = .connected then
      some ({ s with
        connectionState := .disconnecting
        before := some s.received }.goTo n
          (.close (.removePoll (decide (s.connectionState = ConnectionState.connected))) caller))
    else some (s.goTo n caller.behind)
  | .removePoll wasConnected =>
    if s.CanLock n then
      some ({ s with polled := false }.goTo n (.close (.shutdown wasConnected) caller))
    else none
  | .shutdown wasConnected =>
    some ({ s with
      conn := { s.conn with brigade := [] }
      socket := false
      connectionState := .disconnected
      events := if wasConnected then s.events ++ [TransportEvent.connectionClosed] else s.events }.goTo n
        caller.behind)

end State

/-- What happens: the socket is readable, a thread closes the connection, or a thread goes on. -/
inductive Action where
  | readable
  | close
  | run (n : Nat) (more : List Bucket) (eof : Bool)
  deriving DecidableEq

/-- A thread goes on. The assertion of `emit_event` fails when the wait for the state is over, and that
of the endpoint service when there is no messenger; a wait that goes on is a step that is not taken. -/
def runThread (s : State) (n : Nat) (more : List Bucket) (eof : Bool) : Point →
    Option (Exec State)
  | .readCb => if s.CanLock n then some (s.readCb n more eof) else none
  | .endOfStream => some (.ok ({ s with dispatched := true, readingLock := none }.goTo n .done))
  | .push => some (.ok { s with threads := s.threads.set n .done ++ [.top] })
  | .top => if s.CanLock n then some (s.process env n more eof) else none
  | .accepted =>
    some (.ok ({ s with connectionState := .connected, readingLock := none }.goTo n .getMessenger))
  | .getMessenger =>
    some (if s.connectionState = .connected then .ok (s.goTo n .messengerNew) else .error .aborted)
  | .messengerNew =>
    some (if s.connectionState = .connected then .ok (s.goTo n .transportEvent)
      else .error .aborted)
  | .transportEvent => some (.ok ({ s with events := s.events ++ [env.connected] }.goTo n .top))
  | .messageRead => some (.ok (s.readMessage env n))
  | .leave => some (.ok ({ s with dispatched := false, readingLock := none }.goTo n .done))
  | .giveUp => some (.ok ({ s with dispatched := false }.goTo n .done))
  | .close section_ caller => (s.close n caller section_).map .ok
  | .done => none

/-- One step; `none` where it cannot be taken. -/
def step (s : State) : Action → Option (Exec State)
  | .readable => if s.polled then some (.ok { s with threads := s.threads ++ [.readCb] }) else none
  | .close => some (.ok { s with threads := s.threads ++ [.close .begin .closer] })
  | .run n more eof => (s.threads[n]?).bind (runThread env s n more eof)

def Next (s : State) (a : Action) (s' : State) : Prop := step env s a = some (.ok s')

/-! ## what a connection promises -/

/-- The messages that `process_data` delivers when it comes to these buckets and has the connection to
itself. -/
def messages (buckets : List (List Byte)) : List (List Byte × List Byte) :=
  ((TcpConnection.start env.destAddr env.myMsgVersion).arrive buckets).complete env.uriParse
    env.messageRead

/-- A thread that is in `process_data`. -/
def Point.Works : Point → Bool
  | .top | .accepted | .getMessenger | .messengerNew | .transportEvent | .messageRead | .leave
  | .giveUp | .close _ .processData | .close _ .unreadable => true
  | _ => false

/-- No thread is on its way. -/
def State.AtRest (s : State) : Prop := ∀ p ∈ s.threads, p = .done

/-- What holds of a connection, whatever its threads do. The messages that are whole are those that
`process_data` would have come to. -/
structure State.Lawful (s : State) : Prop where
  oneWorker : s.threads.countP Point.Works ≤ 1
  inOrder : s.conn.delivered <+: messages env s.received
  whole : s.AtRest → s.before = none → s.conn.delivered = messages env s.received
  wholeBefore : s.AtRest → ∀ before ∈ s.before, messages env before <+: s.conn.delivered
  told : s.events <+: [env.connected, .connectionClosed]
  connectTold : s.AtRest → (env.connected ∈ s.events ↔ s.conn.itsWelcome ≠ none)
  closeTold : s.AtRest → s.conn.itsWelcome ≠ none →
    (.connectionClosed ∈ s.events ↔ s.before ≠ none)

/-- The messages that have been delivered, with the one that is being read. -/
def State.taken (s : State) : List (List Byte × List Byte) :=
  if Point.messageRead ∈ s.threads ∧ s.broken = false then
    (s.conn.deliver env.messageRead).delivered
  else s.conn.delivered

/-- The conditions under which the threads keep the promise. The close does not begin while the worker
waits for the messenger of the connect event, and the worker does not accept a greeting once it has
begun; it does not empty the brigade before the connect event is told and the messages that were whole
when it began are taken; nor is the worker dispatched again behind something that it cannot read. And
the worker comes to no header block that `read_headers` does not read to its end. -/
def State.Allows (s : State) (more : List Bucket) (eof : Bool) : Point → Prop
  | .readCb => s.broken = true → s.dispatched = true ∨ eof = true
  | .top => s.conn.itsWelcome ≠ none → s.conn.msgCtx.msg = false →
    (if s.socket then s.arrive more else s).conn.HeadersRead
  | .accepted => s.connectionState = .connecting
  | .close .begin _ => Point.getMessenger ∉ s.threads ∧ Point.messengerNew ∉ s.threads
  | .close (.shutdown wasConnected) _ =>
    (wasConnected = true → Point.transportEvent ∉ s.threads) ∧
      ∀ before ∈ s.before, messages env before <+: s.taken env
  | _ => True

instance (s : State) (more : List Bucket) (eof : Bool) (p : Point) :
    Decidable (s.Allows env more eof p) := by
  unfold State.Allows
  split <;> infer_instance

def Careful (s : State) : Action → Prop
  | .run n more eof => ∀ p ∈ s.threads[n]?, s.Allows env more eof p
  | _ => True

instance (s : State) (a : Action) : Decidable (Careful env s a) := by
  unfold Careful
  split <;> infer_instance

end Model

end TcpThreads

end JxtaC
