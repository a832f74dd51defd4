import JxtaC.Lib.Transition
import JxtaC.EndpointAddress

/-
  The state machine of a bidirectional pipe (jxta_bidipipe.c), at the granularity of its sections
  under the mutex, of the calls it makes outside of them and of the writes it makes without it. Any
  number of threads call the pipe; the worker of its own listener, which is one, hands the messages
  to it. Listeners, advertisements and input pipes are numbered, a message is what the handlers read
  of it, and what other services answer comes with the step.
-/

namespace JxtaC

open Lib

namespace Bidipipe

/-- `Jxta_bidipipe_states`. -/
inductive Phase where
  | closed
  | accepting
  | connecting
  | connected
  | closing
  deriving DecidableEq

/-- The fields of `Jxta_bidipipe` that come and go. An input pipe is known by its advertisement. -/
structure Pipe where
  state : Phase
  listener : Option Nat
  iPipe : Option Nat
  iPipeAdv : Option Nat
  epAddr : Option EndpointAddress
  deriving DecidableEq

/-- What `jxta_bidipipe_new` leaves. -/
def Pipe.closed : Pipe := ⟨.closed, none, none, none, none⟩

/-- The elements of a message that are looked at: the pipe of a request or of a response, by the id in
its advertisement, where that has one, and the unique portion of the peer's id. -/
structure Message where
  reqPipe : Option (Option CString)
  remPipe : Option (Option CString)
  remPeer : Option CString
  close : Bool
  deriving DecidableEq

/-- The address of a pipe of a peer. -/
def remoteAddress (peer : CString) (pipe : Option CString) : EndpointAddress :=
  ⟨.ofBuffer (text "jxta"), peer, some (.ofBuffer (text "PipeService")), pipe⟩

/-- The address that `handle_open_message` finds. -/
def Message.openAddress (msg : Message) : Option EndpointAddress :=
  match msg.reqPipe, msg.remPeer with
  | some pipe, some peer => some (remoteAddress peer pipe)
  | _, _ => none

/-- The address that `handle_response_message` finds. -/
def Message.responseAddress (msg : Message) : Option EndpointAddress :=
  match msg.remPipe, msg.remPeer with
  | some pipe, some peer => some (remoteAddress peer pipe)
  | _, _ => none

inductive Call where
  | connect
  | accept
  | close
  | send
  deriving DecidableEq

/-- Where a thread is in `jxta_bidipipe_connect` or in `jxta_bidipipe_accept`. -/
inductive Point where
  /-- in `jxta_pipe_service_timed_connect`, up to `construct_local_pipe_adv` -/
  | resolving (listener : Nat)
  /-- in `construct_open_message` -/
  | composing (localAdv : Nat)
  /-- behind the section of `jxta_bidipipe_accept` -/
  | starting (listener localAdv : Nat)
  /-- in `jxta_pipe_service_timed_accept` -/
  | binding (localAdv : Nat)
  /-- behind `construct_input_pipe`, in front of the wait -/
  | bound
  /-- in `apr_thread_cond_timedwait` or `apr_thread_cond_wait`; a signal has reached it -/
  | waiting (signalled : Bool)
  deriving DecidableEq

/-- A call of connect or accept that has not returned. `confirmed` says that the pipe has been
connected since the call began. -/
structure Opener where
  call : Call
  point : Point
  confirmed : Bool
  deriving DecidableEq

/-- Where a thread is in `jxta_bidipipe_close`. -/
inductive Closer where
  /-- sending the close message -/
  | requesting
  /-- in front of `close_pipes` -/
  | closing
  /-- in front of the section of `close_pipes` -/
  | checked
  deriving DecidableEq

/-- Where the worker is in `bidipipe_input_listener`. -/
inductive Handler where
  /-- in front of the section -/
  | handling (msg : Message)
  /-- behind it, with data for the owner of the pipe -/
  | passing
  deriving DecidableEq

/-- What a call returned. `refused` says that it found the pipe in a state it is not for and did
nothing, `left` is the pipe when it returned. -/
structure Return where
  call : Call
  rv : Status
  refused : Bool
  confirmed : Bool
  left : Pipe
  deriving DecidableEq

/-- A pipe, its listener for the input pipe and the calls in progress. `senders` are the threads of
`jxta_bidipipe_send` behind its check. -/
structure State where
  pipe : Pipe
  started : Bool
  openers : List Opener
  closers : List Closer
  senders : Nat
  handler : Option Handler
  returned : List Return
  deriving DecidableEq

inductive Action where
  | connect (listener : Nat)
  | accept (localAdv listener : Nat)
  /-- `rv` is how the output pipe was found and the local advertisement made -/
  | resolve (i : Nat) (rv : Status) (localAdv : Nat)
  | compose (i : Nat) (rv : Status)
  | start (i : Nat)
  | bind (i : Nat) (rv : Status)
  | await (i : Nat)
  | wake (i : Nat)
  | timeout (i : Nat)
  | receive (msg : Message)
  /-- `rv` is how the response was sent, `woken` the thread that the signal reaches -/
  | handle (rv : Status) (woken : Option Nat)
  | pass
  | close (woken : Option Nat)
  | request (i : Nat) (rv : Status)
  | check (i : Nat)
  | finish (i : Nat)
  | send
  | dispatch (rv : Status)

/-- `jxta_bidipipe_new`. -/
def initial : State := ⟨.closed, false, [], [], 0, none, []⟩

namespace State

def setOpener (s : State) (i : Nat) (o : Opener) : State := { s with openers := s.openers.set i o }

/-- A call returns without having begun. -/
def refuse (s : State) (call : Call) (rv : Status) : State :=
  { s with returned := s.returned ++ [⟨call, rv, true, false, s.pipe⟩] }

/-- A call of connect or accept returns, and leaves a pipe. -/
def openerReturns (s : State) (i : Nat) (o : Opener) (rv : Status) (pipe : Pipe) : State :=
  { s with
    pipe
    openers := s.openers.eraseIdx i
    returned := s.returned ++ [⟨o.call, rv, false, o.confirmed, pipe⟩] }

/-- A call of close returns. -/
def closerReturns (s : State) (i : Nat) (rv : Status) : State :=
  { s with
    closers := s.closers.eraseIdx i
    returned := s.returned ++ [⟨.close, rv, false, false, s.pipe⟩] }

/-- `apr_thread_cond_signal`: one of the threads that wait is reached, if there is any. -/
def signal (s : State) (woken : Option Nat) : Option State :=
  match woken with
  | none => if s.openers.any (·.point = .waiting false) then none else some s
  | some i =>
    s.openers[i]?.bind fun o =>
      if o.point = .waiting false then some (s.setOpener i { o with point := .waiting true }) else none

/-- The pipe is connected. -/
def established (s : State) (addr : EndpointAddress) : State :=
  { s with
    pipe := { s.pipe with state := .connected, epAddr := some addr }
    openers := s.openers.map fun o => { o with confirmed := true } }

/-- The section of `close_pipes`. -/
def closePipes (s : State) : State :=
  { s with
    pipe := ⟨.closed, none, none, none, if s.pipe.state = .closing then none else s.pipe.epAddr⟩
    started := false }

/-- The first section of `jxta_bidipipe_connect`. -/
def connect (s : State) (listener : Nat) : State :=
  if s.pipe.state = .closed then
    { s with
      pipe := { s.pipe with state := .connecting }
      openers := s.openers ++ [⟨.connect, .resolving listener, false⟩] }
  else s.refuse .connect .violation

/-- The first section of `jxta_bidipipe_accept`. -/
def accept (s : State) (localAdv listener : Nat) : State :=
  if s.pipe.state = .closed then
    { s with
      pipe := { s.pipe with state := .accepting }
      openers := s.openers ++ [⟨.accept, .starting listener localAdv, false⟩] }
  else s.refuse .accept .violation

/-- The output pipe and the local advertisement, or none of them. -/
def resolve (s : State) (i : Nat) (o : Opener) (listener : Nat) (rv : Status) (localAdv : Nat) :
    Exec State :=
  if rv = .success then
    if s.pipe.listener.isSome then .error .aborted
    else .ok { s.setOpener i { o with point := .composing localAdv } with
      pipe := { s.pipe with listener := some listener } }
  else .ok (s.openerReturns i o rv { s.pipe with state := .closed })

/-- The call has failed with the listener set. -/
def giveUp (s : State) (i : Nat) (o : Opener) (rv : Status) : State :=
  s.openerReturns i o rv { s.pipe with listener := none, state := .closed }

/-- `construct_input_pipe` up to the pipe service. -/
def constructInputPipe (s : State) (i : Nat) (o : Opener) (localAdv : Nat) : State :=
  if s.pipe.iPipe.isSome then s.giveUp i o .violation
  else { s.setOpener i { o with point := .binding localAdv } with
    pipe := { s.pipe with iPipeAdv := some localAdv } }

/-- `construct_open_message`, and on to the input pipe. -/
def compose (s : State) (i : Nat) (o : Opener) (localAdv : Nat) (rv : Status) : State :=
  if rv = .success then s.constructInputPipe i o localAdv else s.giveUp i o rv

/-- The listener of an accepting pipe, and on to the input pipe. -/
def start (s : State) (i : Nat) (o : Opener) (listener localAdv : Nat) : Exec State :=
  if s.pipe.listener.isSome then .error .aborted
  else .ok (constructInputPipe { s with pipe := { s.pipe with listener := some listener } } i o
    localAdv)

/-- What `construct_input_pipe` does with the answer of the pipe service. -/
def bind (s : State) (i : Nat) (o : Opener) (localAdv : Nat) (rv : Status) : State :=
  if rv = .success then
    { s.setOpener i { o with point := .bound } with
      pipe := { s.pipe with iPipe := some localAdv }
      started := true }
  else s.giveUp i o rv

/-- The section of `bidipipe_input_listener`. A response needs the local advertisement, unless the peer
has none itself. -/
def handle (s : State) (msg : Message) (rv : Status) (woken : Option Nat) : Option (Exec State) :=
  let s := { s with handler := none }
  match s.pipe.state with
  | .connected =>
    if msg.close then
      if s.pipe.listener.isSome then
        some (.ok (closePipes { s with pipe := { s.pipe with state := .closing } }))
      else some (.error .nullPointer)
    else some (.ok { s with handler := some .passing })
  | .connecting =>
    match msg.responseAddress with
    | none => some (.ok s.closePipes)
    | some addr => ((s.established addr).signal woken).map .ok
  | .accepting =>
    match msg.openAddress with
    | none => some (.ok { s with pipe := { s.pipe with epAddr := none } })
    | some addr =>
      if rv ≠ .notConfigured ∧ s.pipe.iPipeAdv = none then some (.error .nullPointer)
      else if rv = .success then ((s.established addr).signal woken).map .ok
      else some (.ok { s with pipe := { s.pipe with epAddr := none } })
  | .closing => some (.ok s)
  | .closed => some (.ok s)

/-- The first section of `jxta_bidipipe_close`. -/
def close (s : State) (woken : Option Nat) : Option State :=
  match s.pipe.state with
  | .closed => some { s with returned := s.returned ++ [⟨.close, .success, false, false, s.pipe⟩] }
  | .accepting =>
    signal { s with
      pipe := { s.pipe with state := .closing }
      closers := s.closers ++ [Closer.closing] } woken
  | .connected =>
    some { s with
      pipe := { s.pipe with state := .closing }
      closers := s.closers ++ [Closer.requesting] }
  | .connecting => some (s.refuse .close .violation)
  | .closing => some (s.refuse .close .violation)

/-- The close message is sent. -/
def request (s : State) (i : Nat) (rv : Status) : Exec State :=
  if s.pipe.epAddr.isSome then
    if rv = .success then .ok { s with closers := s.closers.set i .closing }
    else .ok (s.closerReturns i rv)
  else .error .nullPointer

/-- The check of `close_pipes`, which is made without the mutex. -/
def check (s : State) (i : Nat) : State :=
  if s.pipe.state = .closing ∨ s.pipe.state = .connecting then
    { s with closers := s.closers.set i .checked }
  else s.closerReturns i .violation

/-- The check of `jxta_bidipipe_send`. -/
def send (s : State) : State :=
  if s.pipe.state = .connected then { s with senders := s.senders + 1 } else s.refuse .send .violation

/-- The message of `jxta_bidipipe_send` is sent. -/
def dispatch (s : State) (rv : Status) : Exec State :=
  if s.pipe.epAddr.isSome then
    .ok { s with
      senders := s.senders - 1
      returned := s.returned ++ [⟨.send, rv, false, false, s.pipe⟩] }
  else .error .nullPointer

end State

/-- A step: none if it cannot be taken. -/
def step (s : State) (a : Action) : Option (Exec State) :=
  match a with
  | .connect listener => some (.ok (s.connect listener))
  | .accept localAdv listener => some (.ok (s.accept localAdv listener))
  | .resolve i rv localAdv =>
    s.openers[i]?.bind fun o => match o.point with
      | .resolving listener => some (s.resolve i o listener rv localAdv)
      | _ => none
  | .compose i rv =>
    s.openers[i]?.bind fun o => match o.point with
      | .composing localAdv => some (.ok (s.compose i o localAdv rv))
      | _ => none
  | .start i =>
    s.openers[i]?.bind fun o => match o.point with
      | .starting listener localAdv => some (s.start i o listener localAdv)
      | _ => none
  | .bind i rv =>
    s.openers[i]?.bind fun o => match o.point with
      | .binding localAdv => some (.ok (s.bind i o localAdv rv))
      | _ => none
  | .await i =>
    s.openers[i]?.bind fun o => match o.point with
      | .bound => some (.ok (s.setOpener i { o with point := .waiting false }))
      | _ => none
  | .wake i =>
    s.openers[i]?.bind fun o => match o.point with
      | .waiting _ => some (.ok (s.openerReturns i o .success s.pipe))
      | _ => none
  | .timeout i =>
    s.openers[i]?.bind fun o => match o.call, o.point with
      | .connect, .waiting false => some (.ok (s.openerReturns i o .timeout s.pipe))
      | _, _ => none
  | .receive msg =>
    if s.started ∧ s.handler = none then some (.ok { s with handler := some (.handling msg) })
    else none
  | .handle rv woken =>
    match s.handler with
    | some (.handling msg) => s.handle msg rv woken
    | _ => none
  | .pass =>
    match s.handler with
    | some .passing =>
      if s.pipe.listener.isSome then some (.ok { s with handler := none })
      else some (.error .aborted)
    | _ => none
  | .close woken => (s.close woken).map .ok
  | .request i rv =>
    if s.closers[i]? = some .requesting then some (s.request i rv) else none
  | .check i =>
    if s.closers[i]? = some .closing then some (.ok (s.check i)) else none
  | .finish i =>
    if s.closers[i]? = some .checked then some (.ok (s.closePipes.closerReturns i .success)) else none
  | .send => some (.ok s.send)
  | .dispatch rv => if 0 < s.senders then some (s.dispatch rv) else none

/-- A step that goes on. -/
def Next (s : State) (a : Action) (s' : State) : Prop := step s a = some (.ok s')

/-! ## what is wanted -/

/-- The law of what a call returns. -/
structure Return.Lawful (r : Return) : Prop where
  error : r.call = .connect ∨ r.call = .accept → r.refused = false → r.rv ≠ .success →
    r.left = .closed
  success : r.call = .connect → r.rv = .success → r.confirmed = true
  timeout : r.call = .connect → r.rv = .timeout → r.confirmed = false

/-- The law of the pipe. -/
structure State.Lawful (s : State) : Prop where
  closed : s.pipe.state = .closed → s.pipe = .closed
  connected : s.pipe.state = .connected → s.pipe.listener.isSome ∧ s.pipe.iPipe.isSome ∧
    s.pipe.iPipeAdv.isSome ∧ s.pipe.epAddr.isSome
  returned : ∀ r ∈ s.returned, r.Lawful

/-- What the steps must not do: open the pipe while an earlier call still waits, fail to make the input
pipe, give up waiting for a response while the pipe is open, end a wait without a signal, hand a
message to a pipe that has no input pipe yet, or a response to one whose opener does not wait, close
an accepting pipe that has no input pipe yet, fail to send the close message, and use the listener or
the address of a pipe that was closed meanwhile. -/
def Careful (s : State) (a : Action) : Prop :=
  match a with
  | .connect _ => s.pipe.state = .closed → s.openers = []
  | .accept _ _ => s.pipe.state = .closed → s.openers = []
  | .bind _ rv => rv = .success
  | .timeout _ => s.pipe.state = .closed
  | .wake i => ∀ o ∈ s.openers[i]?, o.point = .waiting true
  | .handle _ _ =>
    (s.pipe.state = .connecting ∨ s.pipe.state = .accepting → s.pipe.iPipe.isSome) ∧
      (s.pipe.state = .connecting → ∀ msg, s.handler = some (.handling msg) →
        msg.responseAddress.isSome → ∃ o ∈ s.openers, o.point = .waiting false)
  | .pass => s.pipe.listener.isSome
  | .close _ => s.pipe.state = .accepting → s.pipe.iPipe.isSome
  | .request _ rv => rv = .success
  | .dispatch _ => s.pipe.epAddr.isSome
  | _ => True

/-- Careful steps and a call of close bring the pipe back. -/
def Closable (s : State) : Prop :=
  ∃ t a u, Reaches Next Careful s t ∧ Careful t a ∧ Next t a u ∧
    u.returned = t.returned ++ [⟨.close, .success, false, false, .closed⟩] ∧ u.pipe = .closed

end Bidipipe

end JxtaC
