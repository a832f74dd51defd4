import JxtaC.Base.Status
import JxtaC.Lib.CircularList
import JxtaC.Lib.Exec

/-
  The messages that a relay keeps for a client (jxta_relay.c), in the circular list of its lease.
  A stored message is the node at its address, and the addresses are given out in turn. What the
  outside does with a message at its turn is a `Visit`: the time at which its age is checked,
  whether there is a messenger, and what the messenger's send returns. Allocations are served.
-/

namespace JxtaC

open Lib

/-- `DEFAULT_MESSAGE_STORAGE_INTERVAL`, in milliseconds. -/
def defaultMessageStorageInterval : Nat := 1000 * 60 * 10

/-- `MAX_NUMBER_MESSAGES_PER_CLIENT`. -/
def maxNumberMessagesPerClient : Int := 100

/-- `_stored_message`, but for its links. -/
structure StoredMessage (Msg : Type) where
  msg : Msg
  timeStored : Nat
  storageIntervalLength : Nat
  deriving DecidableEq

/-- `message_has_expired`, at this time. -/
def StoredMessage.hasExpired {Msg : Type} (m : StoredMessage Msg) (now : Nat) : Bool :=
  m.timeStored + m.storageIntervalLength < now

/-- `_relay_lease`, as far as it is about stored messages. -/
structure RelayLease (Msg : Type) where
  links : Links
  /-- The stored message at an address, until it is released. -/
  message : Nat → Option (StoredMessage Msg)
  storedMessages : Option Nat
  totalStored : Int
  messagesNewAdditions : Bool
  numberFailedSends : Int
  /-- The address of the next stored message. -/
  fresh : Nat

/-- What happens to a message at its turn. -/
structure Visit where
  now : Nat
  messenger : Bool
  send : Status
  deriving DecidableEq

namespace RelayLease

variable {Msg : Type}

/-- The store of `relay_lease_new`. -/
def new : RelayLease Msg where
  links := ⟨id, id⟩
  message := fun _ => none
  storedMessages := none
  totalStored := 0
  messagesNewAdditions := false
  numberFailedSends := 0
  fresh := 0

/-- `archive_put_message_1`, at time `now`. -/
def archivePutMessage1 (lease : RelayLease Msg) (msg : Msg) (now : Nat) : RelayLease Msg × Status :=
  if lease.totalStored > maxNumberMessagesPerClient then (lease, .failed)
  else
    let stored := ⟨msg, now, defaultMessageStorageInterval⟩
    let (links, head) := lease.links.addLast lease.fresh lease.storedMessages
    ({ lease with
        links
        message := Function.update lease.message lease.fresh (some stored)
        storedMessages := some head
        totalStored := lease.totalStored + 1
        messagesNewAdditions := true
        fresh := lease.fresh + 1 }, .success)

/-- `linked_list_remove` of a stored message, which is then released. -/
def removeMessage (lease : RelayLease Msg) (current : Nat) : RelayLease Msg :=
  let (links, storedMessages) := lease.links.remove current lease.storedMessages
  { lease with
    links
    message := Function.update lease.message current none
    storedMessages
    totalStored := lease.totalStored - 1 }

/-- The variables of the loop in `relay_send_all_messages_1`, and the sends it made. -/
structure Sending (Msg : Type) where
  lease : RelayLease Msg
  next : Nat
  keepSending : Bool
  deleteMessage : Bool
  sends : List (Nat × Status)

/-- What the loop does with a message that is not expired. -/
def Sending.offer (s : Sending Msg) (current : Nat) (v : Visit) : Sending Msg :=
  let failed := { s.lease with numberFailedSends := s.lease.numberFailedSends + 1 }
  if v.messenger then
    let s := { s with sends := s.sends ++ [(current, v.send)] }
    if v.send = .success then
      { s with deleteMessage := true, lease := { s.lease with numberFailedSends := 0 } }
    else { s with lease := failed }
  else { s with keepSending := false, lease := failed }

/-- One turn of the loop. -/
def Sending.turn (visit : Nat → Visit) (s : Sending Msg) : Exec (Sending Msg) :=
  let current := s.next
  let next := s.lease.links.right current
  match s.lease.message current with
  | none => .error .danglingPointer
  | some m =>
    let s := if m.hasExpired (visit current).now then { s with deleteMessage := true }
      else s.offer current (visit current)
    let lease := if s.deleteMessage then s.lease.removeMessage current else s.lease
    .ok { s with lease, next }

/-- The loop of `relay_send_all_messages_1`; `head` is the head of the list before it. -/
def sendLoop (visit : Nat → Visit) (head : Nat) : (turns : Nat) → Sending Msg → Exec (Sending Msg)
  | 0, _ => .error .neverReturns
  | turns + 1, s => do
    let s ← s.turn visit
    if s.keepSending ∧ head ≠ s.next then sendLoop visit head turns s else return s

/-- `relay_send_all_messages_1`: the sends it makes, and its status. -/
def relaySendAllMessages1 (lease : RelayLease Msg) (visit : Nat → Visit) :
    Exec (RelayLease Msg × List (Nat × Status) × Status) :=
  match lease.storedMessages with
  | none => .ok (lease, [], .success)
  | some head => do
    let s ← sendLoop visit head lease.fresh ⟨lease, lease.links.right head, true, false, []⟩
    return ({ s.lease with messagesNewAdditions := false }, s.sends, .success)

/-- The loop of `archive_check_timeout` over the messages of a lease. -/
def timeoutLoop (now : Nat → Nat) (head : Nat) : (turns : Nat) → RelayLease Msg → (next : Nat) →
    Exec (RelayLease Msg)
  | 0, _, _ => .error .neverReturns
  | turns + 1, lease, current =>
    let next := lease.links.right current
    match lease.message current with
    | none => .error .danglingPointer
    | some m =>
      let lease := if m.hasExpired (now current) then lease.removeMessage current else lease
      if next ≠ head then timeoutLoop now head turns lease next else .ok lease

/-- `archive_check_timeout` for one lease. -/
def archiveCheckTimeout (lease : RelayLease Msg) (now : Nat → Nat) : Exec (RelayLease Msg) :=
  match lease.storedMessages with
  | none => .ok lease
  | some head => timeoutLoop now head lease.fresh lease (lease.links.right head)

/-- `archive_check_timeout`: the leases of the relay in turn, at time `now`. -/
def archiveCheckTimeoutAll (now : Nat) (leases : List (RelayLease Msg)) :
    Exec (List (RelayLease Msg)) :=
  leases.mapM fun lease => lease.archiveCheckTimeout fun _ => now

/-- The nodes from one to the one in front of the head. -/
def nodesFrom (links : Links) (head : Nat) : (nodes : Nat) → (node : Nat) → List Nat
  | 0, _ => []
  | nodes + 1, node =>
    node :: if links.right node = head then [] else nodesFrom links head nodes (links.right node)

/-- The addresses of the stored messages, from the head on. -/
def contents (lease : RelayLease Msg) : List Nat :=
  match lease.storedMessages with
  | none => []
  | some head => nodesFrom lease.links head lease.fresh head

/-- The loop of `linked_list_clear_and_free`: the nodes that it releases, in this order. -/
def clearLoop (head : Nat) : (turns : Nat) → RelayLease Msg → (current : Nat) → Exec (List Nat)
  | 0, _, _ => .error .neverReturns
  | turns + 1, lease, previous =>
    match lease.message previous with
    | none => .error .danglingPointer
    | some _ => do
      let current := lease.links.right previous
      let lease := { lease with message := Function.update lease.message previous none }
      let released ← if current ≠ head then clearLoop head turns lease current else .ok []
      return previous :: released

/-- `linked_list_clear_and_free`, as `relay_lease_delete` calls it. -/
def clearAndFree (lease : RelayLease Msg) : Exec (List Nat) :=
  match lease.storedMessages with
  | none => .ok []
  | some head => clearLoop head lease.fresh lease (lease.links.right head)

/-! ## runs -/

/-- A message is stored, the stored messages are sent, those that have expired are removed. -/
inductive Op (Msg : Type) where
  | put (msg : Msg) (now : Nat)
  | sendAll (visit : Nat → Visit)
  | checkTimeout (now : Nat → Nat)

/-- One operation, and the sends it makes. -/
def step (lease : RelayLease Msg) : Op Msg → Exec (RelayLease Msg × List (Nat × Status))
  | .put msg now => .ok ((lease.archivePutMessage1 msg now).1, [])
  | .sendAll visit => do
    let (lease, sends, _) ← lease.relaySendAllMessages1 visit
    return (lease, sends)
  | .checkTimeout now => do
    let lease ← lease.archiveCheckTimeout now
    return (lease, [])

/-- A use of the lease, or its end. -/
inductive LeaseOp (Msg : Type) where
  | use (op : Op Msg)
  | delete

/-- One operation on a lease, and the nodes that are released as it is deleted. Nothing is done with
    a lease that is gone. -/
def leaseStep (lease : Option (RelayLease Msg)) (op : LeaseOp Msg) :
    Exec (Option (RelayLease Msg) × List Nat) :=
  match lease, op with
  | none, _ => .ok (none, [])
  | some lease, .use op => do
    let (lease, _) ← lease.step op
    return (some lease, [])
  | some lease, .delete => do
    let released ← lease.clearAndFree
    return (none, released)

end RelayLease

end JxtaC
