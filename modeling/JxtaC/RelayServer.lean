import JxtaC.EndpointAddress
import JxtaC.Lib.Decimal
import Mathlib.Data.List.Infix

/-
  The leases of a relay server (jxta_relay.c), in milliseconds. `check_for_lease_request` sleeps
  between the check of the number of leases and the response, so that it is two steps here, and
  other steps may come between them: a request that passed the check is pending until it is
  answered. The messages a relay keeps are in `RelayLease`; the threads and the advertisement in the
  response are left out. Allocations are served.
-/

namespace JxtaC

open Lib

/-- `DEFAULT_LEASE_DURATION`. -/
def defaultLeaseDuration : Nat := 20 * 60 * 1000

/-- `RELAY_CONNECT_REQUEST`. -/
def relayConnectRequest : List Byte := text "connect"

/-- `RELAY_DISCONNECT_REQUEST`. -/
def relayDisconnectRequest : List Byte := text "disconnect"

/-- `_relay_lease`, but for the stored messages. -/
structure Lease where
  requestorId : CString
  requestorAddress : EndpointAddress
  issueTime : Nat
  leaseDuration : Nat
  deriving DecidableEq

/-- `lease_is_valid`, at this time. -/
def Lease.isValid (l : Lease) (now : Nat) : Bool := l.issueTime + l.leaseDuration > now

/-- What `check_for_lease_request` looks at in a message: two elements of the namespace `relay`, and
    the addresses. -/
structure LeaseMessage where
  requestorPid : Option (List Byte)
  request : Option (List Byte)
  destination : EndpointAddress
  source : EndpointAddress

/-- The text behind the last slash, as `strrchr` finds it; the parameters of an address may be
    missing. -/
def behindLastSlash (params : Option CString) : Exec (Option CString) :=
  match params with
  | none => .error .nullPointer
  | some s =>
    if 47 ∈ s.bytes then .ok (some (.ofBuffer (s.bytes.reverse.takeWhile (· ≠ 47)).reverse))
    else .ok none

/-- The requestor and the parameters of the request, where the message has them. -/
def LeaseMessage.leaseRequest (msg : LeaseMessage) : Exec (Option (CString × CString)) :=
  let id := msg.requestorPid.map CString.ofBuffer
  match msg.request, id with
  | some request, some id => .ok (some (id, .ofBuffer request))
  | some request, none => do
    let id ← behindLastSlash msg.destination.serviceParams
    return id.map fun id => (id, .ofBuffer request)
  | none, some id => do
    let params ← behindLastSlash msg.destination.serviceParams
    return params.map fun params => (id, params)
  | none, none => do
    match ← behindLastSlash msg.destination.serviceParams, msg.source.serviceParams with
    | none, _ => return none
    | some _, none => return none
    | some params, some sourceParams =>
      let id ← behindLastSlash (some sourceParams)
      return id.map fun id => (id, params)

/-- The response of a relay: the elements `response` and `lease`. -/
structure LeaseResponse where
  destination : EndpointAddress
  response : List Byte
  lease : List Byte
  deriving DecidableEq

/-- `extract_lease_value`: the duration of the lease, as the client reads it. -/
def extractLeaseValue (msg : LeaseResponse) : Nat := (Decimal.strtol msg.lease).toNat

/-- A connect request that is not answered yet. -/
structure PendingRequest where
  requestorId : CString
  clientAddress : EndpointAddress
  deriving DecidableEq

/-- A response that was sent, at this time, and the time at which the lease was issued. -/
structure Issued where
  requestorId : CString
  response : LeaseResponse
  sent : Nat
  stored : Nat
  deriving DecidableEq

/-- What is seen of a step from outside. -/
inductive Logged where
  | response (issued : Issued)
  | disconnect (requestorId : CString)
  deriving DecidableEq

/-- `_jxta_transport_relay` of a server, with the requests it is answering, and the clock. -/
structure RelayServer where
  groupid : List Byte
  assignedId : List Byte
  peerid : List Byte
  leases : List Lease
  maxLeasesAllowed : Nat
  pending : List PendingRequest
  clock : Nat

namespace RelayServer

/-- A server without leases. -/
def start (groupid assignedId peerid : List Byte) (maxLeasesAllowed clock : Nat) : RelayServer :=
  ⟨groupid, assignedId, peerid, [], maxLeasesAllowed, [], clock⟩

/-- `find_relay_lease`. -/
def findRelayLease (self : RelayServer) (id : CString) : Option Lease :=
  self.leases.find? fun l => l.requestorId = id

/-- `lease_delete`. -/
def leaseDelete (self : RelayServer) (id : CString) : RelayServer :=
  { self with leases := self.leases.eraseP fun l => l.requestorId = id }

/-- `leases_remove_expired`. -/
def leasesRemoveExpired (self : RelayServer) : RelayServer :=
  { self with leases := self.leases.filter fun l => l.isValid self.clock }

/-- `get_messenger`, as far as it is about leases. -/
def getMessenger (self : RelayServer) (id : CString) : RelayServer :=
  match self.findRelayLease id with
  | none => self
  | some l => if l.isValid self.clock then self else self.leaseDelete id

/-- The message that `send_relay_lease` sends. -/
def leaseResponse (self : RelayServer) (client : EndpointAddress) : LeaseResponse where
  destination := ⟨client.protocolName, client.protocolAddress,
    some (.ofBuffer (text "EndpointService:" ++ self.groupid)),
    some (.ofBuffer (self.assignedId ++ text "/" ++ self.peerid))⟩
  response := text "connected"
  lease := text "3600000"

/-- The issue time of the lease that `find_relay_lease` found is set. -/
def renew (id : CString) (now : Nat) : List Lease → List Lease
  | [] => []
  | l :: leases =>
    if l.requestorId = id then { l with issueTime := now } :: leases else l :: renew id now leases

/-- `check_for_lease_request`, to the check of the number of leases. -/
def receive (self : RelayServer) (msg : LeaseMessage) : Exec (RelayServer × Option Logged) := do
  match ← msg.leaseRequest with
  | none => return (self, none)
  | some (id, params) =>
    if relayDisconnectRequest <:+: params.bytes then
      return (self.leaseDelete id, some (.disconnect id))
    else if ¬relayConnectRequest <:+: params.bytes then return (self, none)
    else if self.leases.length ≥ self.maxLeasesAllowed then return (self, none)
    else return ({ self with pending := self.pending ++ [⟨id, msg.source⟩] }, none)

/-- The rest of `check_for_lease_request` for a pending request: what `send_relay_lease` returns, and
    how long it is from the sending to the end. -/
def respond (self : RelayServer) (i : Nat) (delay : Nat) (send : Status) :
    RelayServer × Option Logged :=
  match self.pending[i]? with
  | none => (self, none)
  | some request =>
    let now := self.clock + delay
    let answered := { self with pending := self.pending.eraseIdx i, clock := now }
    if send = .success then
      let leases := match self.findRelayLease request.requestorId with
        | none => self.leases ++
            [⟨request.requestorId, request.clientAddress, now, defaultLeaseDuration⟩]
        | some _ => renew request.requestorId now self.leases
      ({ answered with leases }, some (.response ⟨request.requestorId,
        self.leaseResponse request.clientAddress, self.clock, now⟩))
    else (answered, none)

/-- What happens at a relay. -/
inductive Event where
  | receive (msg : LeaseMessage)
  | respond (i : Nat) (delay : Nat) (send : Status)
  | leasesRemoveExpired
  | getMessenger (id : CString)
  | wait (milliseconds : Nat)

/-- One step of the relay, and what is seen of it. -/
def step (self : RelayServer) : Event → Exec (RelayServer × Option Logged)
  | .receive msg => self.receive msg
  | .respond i delay send => .ok (self.respond i delay send)
  | .leasesRemoveExpired => .ok (self.leasesRemoveExpired, none)
  | .getMessenger id => .ok (self.getMessenger id, none)
  | .wait milliseconds => .ok ({ self with clock := self.clock + milliseconds }, none)

end RelayServer

end JxtaC
