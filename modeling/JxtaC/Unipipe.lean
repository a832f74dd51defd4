import Mathlib.Data.List.AList
import JxtaC.Message

/-
  The input pipes of a unicast pipe service (jxta_unipipe_service.c), with the table of its sessions
  and the recipients that the endpoint service has (jxta_endpoint_service.c). Listeners are numbered,
  allocations other than those of listeners are served. That the resolver is told (SRDI) is left out.
-/

namespace JxtaC

open Lib

namespace Unipipe

/-- A recipient of the endpoint service: a listener, and the input pipe that registered it. -/
structure Recipient where
  listener : Nat
  owner : Nat
  deriving DecidableEq

/-- `Jxta_unipipe_inputpipe`, with the id of its pipe. `registered` is the listener that it has
registered, and neither removed nor been released with. -/
structure InputPipe where
  id : CString
  listener : Option Nat
  userListener : Option Nat
  freed : Bool
  registered : Option Nat
  deriving DecidableEq

/-- `Jxta_unipipe_service`: the ids of the pipes it has handed out, the input pipes of these, and the
two tables. -/
structure State where
  pipes : List CString
  inputPipes : List InputPipe
  acceptSessions : AList fun _ : CString => Nat
  recipients : AList fun _ : List Byte => Recipient
  deriving DecidableEq

inductive Action where
  | accept (id : CString)
  | connect (id : CString)
  | getInputpipe (pipe : Nat)
  /-- the listener is made or not, the endpoint service answers, and what the wait returns -/
  | timedReceive (p : Nat) (listener : Option Nat) (rv answer : Status)
  | addListener (p listener : Nat) (rv : Status)
  | removeListener (p : Nat) (listener : Option Nat)
  /-- the last reference goes -/
  | release (p : Nat)

def initial : State := ⟨[], [], ∅, ∅⟩

/-- The key of a recipient where it is registered. -/
def addKey (id : CString) : List Byte := text "PipeService" ++ id.bytes

/-- The key of a recipient where it is removed, in a buffer of 256 bytes. -/
def removeKey (id : CString) : List Byte := (addKey id).take 255

namespace State

def setInputPipe (s : State) (p : Nat) (ip : InputPipe) : State :=
  { s with inputPipes := s.inputPipes.set p ip }

/-- `jxta_endpoint_service_add_listener`; it may fail for reasons of its own. -/
def endpointAdd (s : State) (id : CString) (r : Recipient) (rv : Status) : State × Status :=
  if rv ≠ .success then (s, rv)
  else if (s.recipients.lookup (addKey id)).isSome then (s, .busy)
  else ({ s with recipients := s.recipients.insert (addKey id) r }, .success)

/-- `jxta_endpoint_service_remove_listener`. -/
def endpointRemove (s : State) (id : CString) : State :=
  { s with recipients := s.recipients.erase (removeKey id) }

/-- `unipipe_timed_accept`, and `unipipe_add_accept_listener`: a pipe, unless the id is in use. -/
def accept (s : State) (id : CString) : State × Status :=
  if (s.acceptSessions.lookup id).isSome then (s, .busy)
  else ({ s with pipes := s.pipes ++ [id] }, .success)

/-- `inputpipe_timed_receive`. -/
def timedReceive (s : State) (p : Nat) (ip : InputPipe) (listener : Option Nat) (rv answer : Status) :
    State × Status :=
  if ip.userListener.isSome then (s, .busy)
  else if ip.listener.isSome then (s, answer)
  else
    match listener with
    | none => (s, .nomem)
    | some listener =>
      match s.endpointAdd ip.id ⟨listener, p⟩ rv with
      | (s, .success) =>
        (s.setInputPipe p { ip with listener := some listener, registered := some listener }, answer)
      | (s, res) => (s, res)

/-- `inputpipe_add_listener`. -/
def addListener (s : State) (p : Nat) (ip : InputPipe) (listener : Nat) (rv : Status) :
    State × Status :=
  if ip.userListener.isSome ∨ ip.listener.isSome then (s, .busy)
  else if (s.acceptSessions.lookup ip.id).isSome then (s, .busy)
  else
    match s.endpointAdd ip.id ⟨listener, p⟩ rv with
    | (s, .success) =>
      ({ s.setInputPipe p { ip with userListener := some listener, registered := some listener } with
        acceptSessions := s.acceptSessions.insert ip.id listener }, .success)
    | (s, res) => (s, res)

/-- `inputpipe_remove_listener`. -/
def removeListener (s : State) (p : Nat) (ip : InputPipe) (listener : Option Nat) : State × Status :=
  if ip.userListener ≠ listener then (s, .invalidArgument)
  else
    let s := s.endpointRemove ip.id
    ({ s.setInputPipe p { ip with userListener := none, registered := none } with
      acceptSessions := s.acceptSessions.erase ip.id }, .success)

/-- `unipipe_inputpipe_free`. -/
def free (s : State) (p : Nat) (ip : InputPipe) : State :=
  let s := s.endpointRemove ip.id
  let s := if ip.userListener.isSome then (s.removeListener p ip ip.userListener).1 else s
  s.setInputPipe p ⟨ip.id, none, none, true, none⟩

/-- An input pipe that has not been freed. -/
def inputPipe? (s : State) (p : Nat) : Option InputPipe := s.inputPipes[p]?.filter (!·.freed)

end State

/-- A step, and what the call returns: none if it cannot be made. -/
def step (s : State) (a : Action) : Option (State × Status) :=
  match a with
  | .accept id => some (s.accept id)
  | .connect id => some ({ s with pipes := s.pipes ++ [id] }, .success)
  | .getInputpipe pipe => s.pipes[pipe]?.map fun id =>
    ({ s with inputPipes := s.inputPipes ++ [⟨id, none, none, false, none⟩] }, .success)
  | .timedReceive p listener rv answer =>
    (s.inputPipe? p).map fun ip => s.timedReceive p ip listener rv answer
  | .addListener p listener rv => (s.inputPipe? p).map fun ip => s.addListener p ip listener rv
  | .removeListener p listener => (s.inputPipe? p).map fun ip => s.removeListener p ip listener
  | .release p => (s.inputPipe? p).map fun ip => (s.free p ip, .success)

def Next (s : State) (a : Action) (s' : State) : Prop := ∃ rv, step s a = some (s', rv)

/-! ## what is wanted -/

/-- An input pipe has registered a listener for an id, and neither removed it nor been released. -/
def State.Registered (s : State) (p listener : Nat) (id : CString) : Prop :=
  ∃ ip, s.inputPipes[p]? = some ip ∧ ip.registered = some listener ∧ ip.id = id

/-- The law of the registrations. -/
structure State.Lawful (s : State) : Prop where
  recipient : ∀ id r, s.recipients.lookup (addKey id) = some r ↔ s.Registered r.owner r.listener id
  listed : ∀ id, (s.acceptSessions.lookup id).isSome = true ↔
    ∃ p listener, s.Registered p listener id

/-- The input pipe that a step is about. -/
def Action.inputPipe : Action → Option Nat
  | .timedReceive p _ _ _ => some p
  | .addListener p _ _ => some p
  | .removeListener p _ => some p
  | .release p => some p
  | _ => none

/-- The recipients of the other input pipes stay, and there are no new ones. -/
def Keeps (a : Action) (s s' : State) : Prop :=
  ∀ key r, a.inputPipe ≠ some r.owner →
    (s'.recipients.lookup key = some r ↔ s.recipients.lookup key = some r)

/-- What the calls must not do: register a listener by `timed_receive`, remove the recipient of an id
that does not fit the buffer, and, on an input pipe that has registered nothing, remove what another
one has registered. -/
def Careful (s : State) (a : Action) : Prop :=
  match a with
  | .timedReceive p listener rv _ => ∀ ip ∈ s.inputPipe? p, ip.userListener = none →
    ip.listener = none → listener.isSome → rv = .success →
    (s.recipients.lookup (addKey ip.id)).isSome
  | .removeListener p listener => ∀ ip ∈ s.inputPipe? p, ip.userListener = listener →
    if listener.isSome then (addKey ip.id).length ≤ 255
    else s.recipients.lookup (removeKey ip.id) = none ∧ s.acceptSessions.lookup ip.id = none
  | .release p => ∀ ip ∈ s.inputPipe? p,
    if ip.userListener.isSome then (addKey ip.id).length ≤ 255
    else s.recipients.lookup (removeKey ip.id) = none
  | _ => True

end Unipipe

end JxtaC
