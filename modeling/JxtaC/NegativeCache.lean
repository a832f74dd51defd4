import JxtaC.Base.Status
import JxtaC.Lib.Exec

/-
  The negative cache of the endpoint service (jxta_endpoint_service.c): an entry keeps the messages
  for a peer that was not reachable in a ring, until they can be sent.
  An empty slot of the ring is NULL, or still has the pointer to a message that was released: to
  use it is a fault. What the outside does is a parameter: the time at which the timeout is checked
  and the one from which the next counts, and what each `send_message` of a pass returns. Times do
  not overflow. An entry is made for its address; the small allocations are served.
-/

namespace JxtaC.NegativeCache

open Lib

/-- The settings of the endpoint configuration. -/
structure NcConfig where
  ncTimeoutInit : Int
  ncTimeoutMax : Int
  ncrqSize : Nat

/-- `_nc_entry`, but for its address. -/
structure NcEntry (Msg : Type) where
  timeout : Int
  expiration : Int
  /-- The retransmit queue. -/
  rq : Option (List (Option Msg))
  rqHead : Nat
  rqTail : Int
  rqCapacity : Int
  deriving DecidableEq

/-- What happens to a message. -/
inductive Event (Msg : Type) where
  /-- It is put into the queue. -/
  | queued (msg : Msg)
  /-- It is sent from the queue. -/
  | sent (msg : Msg)
  /-- It could not be sent from the queue, and stays there. -/
  | failed (msg : Msg) (res : Status)
  /-- It gives way to a newer one. -/
  | evicted (msg : Msg)
  /-- It is dropped with the queue of an entry with this timeout. -/
  | dropped (msg : Msg) (timeout : Int)
  /-- It is sent past the queue. -/
  | offered (msg : Msg) (res : Status)
  /-- The entry with this timeout has no queue for it. -/
  | refused (msg : Msg) (timeout : Int)
  deriving DecidableEq

/-- What the outside does in a pass over a queue. -/
structure Pass where
  now : Int
  /-- The time when a new timeout starts. -/
  later : Int
  /-- What the sends of the pass return in turn. -/
  send : Nat → Status

variable {Msg : Type}

/-- `rq_capacity` of a new entry: a `size_t` in an `int`. -/
def NcConfig.rqCapacity (config : NcConfig) : Int := Int.bmod config.ncrqSize uintMod

/-- The slots that `calloc` is asked for: an `int` in a `size_t`. -/
def NcConfig.rqSlots (config : NcConfig) : Nat := (config.rqCapacity % sizeMod).toNat

/-- `sizeof(*ptr->rq)`. -/
def sizeofPointer : Nat := 8

/-- `nc_add_peer`: the new entry. -/
def ncAddPeer (heap : Heap) (config : NcConfig) (now : Int) (msg : Msg) : Option (NcEntry Msg) :=
  let entry : NcEntry Msg :=
    { timeout := config.ncTimeoutInit
      expiration := now + config.ncTimeoutInit
      rq := none
      rqHead := 0
      rqTail := 0
      rqCapacity := config.rqCapacity }
  if entry.rqCapacity ≠ 0 then
    if config.rqSlots * sizeofPointer ≤ heap.limit then
      some { entry with
        rq := some ((List.replicate config.rqSlots none).set 0 (some msg))
        rqTail := 1 }
    else none
  else some entry

namespace NcEntry

/-- `nc_remove_peer`: its assertion. -/
def ncRemovePeer (entry : NcEntry Msg) : Exec Unit :=
  if entry.rq = none ∨ entry.rqTail = -1 then .ok () else .error .aborted

/-- The loop of `nc_peer_drop_retransmit_queue`: the head, and the messages dropped. -/
def dropLoop (rqCapacity rqTail : Int) : (turns : Nat) → List (Option Msg) → (rqHead : Nat) →
    Exec (Nat × List Msg)
  | 0, _, _ => .error .neverReturns
  | turns + 1, rq, rqHead =>
    if rqCapacity ≤ rqHead then .error .aborted
    else
      match rq[rqHead]? with
      | none => .error .outOfBounds
      | some none => .error .danglingPointer
      | some (some msg) => do
        let head := if (rqHead + 1 : Int) = rqCapacity then 0 else rqHead + 1
        if (head : Int) ≠ rqTail then
          let (last, msgs) ← dropLoop rqCapacity rqTail turns (rq.set rqHead none) head
          return (last, msg :: msgs)
        else return (head, [msg])

/-- `nc_peer_drop_retransmit_queue`. -/
def ncPeerDropRetransmitQueue (entry : NcEntry Msg) : Exec (NcEntry Msg × List (Event Msg)) :=
  match entry.rq with
  | none => .ok (entry, [])
  | some rq =>
    if entry.rqTail ≠ -1 then do
      let (rqHead, msgs) ← dropLoop entry.rqCapacity entry.rqTail (rq.length + 1) rq entry.rqHead
      return ({ entry with rq := none, rqHead }, msgs.map (.dropped · entry.timeout))
    else .ok ({ entry with rq := none }, [])

/-- What the sending loop leaves. -/
structure Flushed (Msg : Type) where
  rq : List (Option Msg)
  rqHead : Nat
  sent : Nat
  res : Status
  events : List (Event Msg)

/-- The sending loop of `nc_peer_process_queue`, which ends at the first send that fails. -/
def flushLoop (send : Nat → Status) (rqCapacity rqTail : Int) : (turns : Nat) → (sent : Nat) →
    List (Option Msg) → (rqHead : Nat) → Exec (Flushed Msg)
  | 0, _, _, _ => .error .neverReturns
  | turns + 1, sent, rq, rqHead =>
    match rq[rqHead]? with
    | none => .error .outOfBounds
    | some none => .error .danglingPointer
    | some (some msg) =>
      let res := send sent
      if res ≠ .success then .ok ⟨rq, rqHead, sent, res, [.failed msg res]⟩
      else do
        let head := if (rqHead + 1 : Int) ≥ rqCapacity then 0 else rqHead + 1
        if (head : Int) ≠ rqTail then
          let f ← flushLoop send rqCapacity rqTail turns (sent + 1) (rq.set rqHead none) head
          return { f with events := .sent msg :: f.events }
        else return ⟨rq.set rqHead none, head, sent + 1, res, [.sent msg]⟩

/-- No message of a pass could be sent: the timeout is doubled up to its maximum, with which the
queue is given up. -/
def backOff (config : NcConfig) (later : Int) (entry : NcEntry Msg) :
    Exec (NcEntry Msg × List (Event Msg)) :=
  let timeoutMax := config.ncTimeoutMax
  if entry.timeout ≥ timeoutMax then do
    let (entry, events) ← entry.ncPeerDropRetransmitQueue
    return ({ entry with timeout := timeoutMax, expiration := later + timeoutMax }, events)
  else
    let timeout := entry.timeout * 2
    let timeout := if timeout > timeoutMax then timeoutMax else timeout
    .ok ({ entry with timeout, expiration := later + timeout }, [])

/-- `nc_peer_process_queue`. -/
def ncPeerProcessQueue (config : NcConfig) (pass : Pass) (entry : NcEntry Msg) :
    Exec (NcEntry Msg × Status × List (Event Msg)) :=
  if pass.now < entry.expiration then .ok (entry, .unreachableDest, [])
  else
    match entry.rq with
    | none => .ok (entry, .success, [])
    | some rq =>
      if entry.rqTail = -1 then .ok (entry, .success, [])
      else do
        let f ← flushLoop pass.send entry.rqCapacity entry.rqTail (rq.length + 1) 0 rq entry.rqHead
        let entry := { entry with rq := some f.rq, rqHead := f.rqHead }
        if f.res = .success then return ({ entry with rqTail := -1 }, f.res, f.events)
        else if f.sent = 0 ∧ f.res = .unreachableDest then
          let (entry, events) ← entry.backOff config pass.later
          return (entry, f.res, f.events ++ events)
        else return (entry, f.res, f.events)

/-- The end of `nc_peer_queue_msg`, which puts the message into the ring. -/
def enqueue (entry : NcEntry Msg) (rq : List (Option Msg)) (msg : Msg) :
    Exec (NcEntry Msg × List (Event Msg)) :=
  if (entry.rqHead : Int) = entry.rqTail then
    match rq[entry.rqHead]? with
    | none => .error .outOfBounds
    | some none => .error .danglingPointer
    | some (some oldest) =>
      let head := entry.rqHead + 1
      .ok ({ entry with
        rq := some (rq.set entry.rqHead (some msg))
        rqHead := if (head : Int) ≥ entry.rqCapacity then 0 else head },
        [.evicted oldest, .queued msg])
  else
    let tail := if entry.rqTail = -1 then (entry.rqHead : Int) else entry.rqTail
    if 0 ≤ tail ∧ tail < rq.length then
      .ok ({ entry with
        rq := some (rq.set tail.toNat (some msg))
        rqTail := if tail + 1 ≥ entry.rqCapacity then 0 else tail + 1 }, [.queued msg])
    else .error .outOfBounds

/-- `nc_peer_queue_msg`: the entry, unless it is removed. `own` is what the send of the message
itself returns, where it is reached. -/
def ncPeerQueueMsg (config : NcConfig) (pass : Pass) (own : Status) (msg : Msg)
    (entry : NcEntry Msg) : Exec (Option (NcEntry Msg) × Status × List (Event Msg)) := do
  let (entry, res, events) ← entry.ncPeerProcessQueue config pass
  let events := if res = .success then events ++ [.offered msg own] else events
  if res = .success ∧ own ≠ .unreachableDest then
    entry.ncRemovePeer
    return (none, res, events)
  else
    match entry.rq with
    | none => return (some entry, .unreachableDest, events ++ [.refused msg entry.timeout])
    | some rq =>
      let (entry, more) ← entry.enqueue rq msg
      return (some entry, .unreachableDest, events ++ more)

/-- `nc_review_all`, at one entry. -/
def ncReview (config : NcConfig) (pass : Pass) (entry : NcEntry Msg) :
    Exec (Option (NcEntry Msg) × List (Event Msg)) := do
  let (entry, res, events) ← entry.ncPeerProcessQueue config pass
  if res = .success ∧ entry.rq ≠ none then
    entry.ncRemovePeer
    return (none, events)
  else return (some entry, events)

/-- `check_nc_entry`, at an entry. -/
def checkNcEntry (config : NcConfig) (pass : Pass) (entry : NcEntry Msg) :
    Exec (Option (NcEntry Msg) × List (Event Msg)) := do
  let entry := { entry with expiration := 0 }
  let (entry, status, events) ← entry.ncPeerProcessQueue config pass
  if status = .success then
    entry.ncRemovePeer
    return (none, events)
  else return (some entry, events)

end NcEntry

/-! ## operations on an entry -/

/-- An operation on an entry. -/
inductive Op (Msg : Type) where
  | queueMsg (pass : Pass) (own : Status) (msg : Msg)
  | processQueue (pass : Pass)
  | review (pass : Pass)
  | checkNcEntry (pass : Pass)
  | dropRetransmitQueue

/-- What an operation returns, if anything, and what it does to the messages. -/
abbrev Answer (Msg : Type) := Option Status × List (Event Msg)

/-- Performs an operation on an entry. -/
def NcEntry.perform (config : NcConfig) (entry : NcEntry Msg) :
    Op Msg → Exec (Option (NcEntry Msg) × Answer Msg)
  | .queueMsg pass own msg => do
    let (entry, res, events) ← entry.ncPeerQueueMsg config pass own msg
    return (entry, some res, events)
  | .processQueue pass => do
    let (entry, res, events) ← entry.ncPeerProcessQueue config pass
    return (some entry, some res, events)
  | .review pass => do
    let (entry, events) ← entry.ncReview config pass
    return (entry, none, events)
  | .checkNcEntry pass => do
    let (entry, events) ← entry.checkNcEntry config pass
    return (entry, none, events)
  | .dropRetransmitQueue => do
    let (entry, events) ← entry.ncPeerDropRetransmitQueue
    return (some entry, none, events)

/-- An operation, where there still is an entry. -/
def perform (config : NcConfig) (entry : Option (NcEntry Msg)) (op : Op Msg) :
    Exec (Option (NcEntry Msg) × Answer Msg) :=
  match entry with
  | none => .ok (none, none, [])
  | some entry => entry.perform config op

end JxtaC.NegativeCache
