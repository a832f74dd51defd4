import Mathlib.Data.List.AList
import JxtaC.Message

/-
  The pending requests of the pipe resolver (jxta_piperesolver_impl.c), at the granularity of the
  sections under its mutex: a request is added, its query sent, the requests that an answer is for are
  selected, and one of them is removed and its listener invoked. Requests are numbered in the order in
  which they are made; peers are known by the text of their ids, and the peer of an answer is the one
  that it names. How a query is sent, the publishing of the answering peer's advertisement and the log
  are left out; only the vector of a new entry may fail to be allocated.
-/

namespace JxtaC

open Lib

namespace PipeResolver

/-- What is read of an answer: the id of the pipe, the peer, where its id can be built, and the status. -/
structure Answer where
  pipeId : Option CString
  peer : Option CString
  found : Bool
  deriving DecidableEq

/-- An invocation of the listener of a request: by which answer, when, and whether `remote_resolve` had
returned an error for the request. -/
structure Notice where
  answer : Answer
  time : Int
  failed : Bool
  deriving DecidableEq

/-- `Pending_request`. `sent` is what adding it and `send_query` came to, `timed` the timeout of a
`timed_remote_resolve` and `returned` what the call has returned. -/
structure Request where
  pipeId : CString
  timeout : Int
  dest : Option CString
  timed : Option Int
  sent : Option Status
  returned : Option Status
  notices : List Notice
  deriving DecidableEq

/-- A worker in `response_listener`, with the requests that it still has to notify. -/
structure Worker where
  answer : Answer
  reqs : List Nat
  deriving DecidableEq

/-- A thread in `jxta_listener_wait_for_event`. -/
structure Waiter where
  request : Nat
  timeout : Int
  deriving DecidableEq

/-- `Pipe_resolver`, the requests, and the threads. -/
structure State where
  now : Int
  requests : List Request
  pendingRequests : AList fun _ : CString => List Nat
  workers : List Worker
  waiters : List Waiter
  deriving DecidableEq

inductive Action where
  /-- `timed` says that the call is `timed_remote_resolve`, `allocated` that a vector could be made -/
  | resolve (pipeId : CString) (timeout : Int) (dest : Option CString) (timed allocated : Bool)
  | sendQuery (n : Nat) (rv : Status)
  | select (answer : Answer)
  | notify (i : Nat)
  | take (i : Nat)
  | giveUp (i : Nat)
  | tick (d : Nat)

def initial : State := ⟨0, [], ∅, [], []⟩

/-- `remote_resolve` has returned an error. -/
def Request.failed (r : Request) : Bool :=
  match r.sent with
  | none => false
  | some rv => rv ≠ .success

namespace State

def setRequest (s : State) (n : Nat) (r : Request) : State :=
  { s with requests := s.requests.set n r }

/-- `pending_request_new` and `pending_request_add`. -/
def resolve (s : State) (pipeId : CString) (timeout : Int) (dest : Option CString)
    (timed allocated : Bool) : State :=
  let req : Request :=
    ⟨pipeId, s.now + timeout, dest, if timed then some timeout else none, none, none, []⟩
  match s.pendingRequests.lookup pipeId with
  | some vector =>
    { s with
      requests := s.requests ++ [req]
      pendingRequests := s.pendingRequests.insert pipeId (vector ++ [s.requests.length]) }
  | none =>
    if allocated then
      { s with
        requests := s.requests ++ [req]
        pendingRequests := s.pendingRequests.insert pipeId [s.requests.length] }
    else { s with requests := s.requests ++ [{ req with sent := some .nomem, returned := some .nomem }] }

/-- What `remote_resolve` does with the result of `send_query`, and `timed_remote_resolve` with that. -/
def sendQuery (s : State) (n : Nat) (r : Request) (rv : Status) : State :=
  match r.timed with
  | some timeout =>
    if rv = .success then
      { s.setRequest n { r with sent := some rv } with
        waiters := s.waiters ++ [⟨n, s.now + timeout⟩] }
    else s.setRequest n { r with sent := some rv, returned := some rv }
  | none => s.setRequest n { r with sent := some rv, returned := some rv }

/-- The request takes an answer of this peer. -/
def takes (s : State) (peer : CString) (n : Nat) : Bool :=
  match s.requests[n]? with
  | some r => r.dest = none ∨ r.dest = some peer
  | none => false

/-- The requests that an answer is for, the last first. -/
def selected (s : State) (answer : Answer) : List Nat :=
  match answer.pipeId, answer.peer with
  | some pipeId, some peer =>
    (((s.pendingRequests.lookup pipeId).getD []).filter (s.takes peer)).reverse
  | _, _ => []

/-- The section of `response_listener`, and what comes before it. -/
def select (s : State) (answer : Answer) : State :=
  if s.selected answer = [] then s
  else { s with workers := s.workers ++ [⟨answer, s.selected answer⟩] }

/-- `pending_request_remove`. -/
def remove (s : State) (n : Nat) (r : Request) : State :=
  match s.pendingRequests.lookup r.pipeId with
  | none => s
  | some vector =>
    if vector.filter (· ≠ n) = [] then
      { s with pendingRequests := s.pendingRequests.erase r.pipeId }
    else { s with pendingRequests := s.pendingRequests.insert r.pipeId (vector.filter (· ≠ n)) }

/-- The worker goes on to its next request. -/
def proceed (s : State) (i : Nat) (answer : Answer) (reqs : List Nat) : State :=
  { s with
    workers := if reqs = [] then s.workers.eraseIdx i else s.workers.set i ⟨answer, reqs⟩ }

/-- The listener of a request is invoked. -/
def invoke (s : State) (n : Nat) (r : Request) (answer : Answer) : State :=
  s.setRequest n { r with notices := r.notices ++ [⟨answer, s.now, r.failed⟩] }

end State

/-- A step: none if it cannot be taken. There are two workers at most. -/
def step (s : State) (a : Action) : Option (Exec State) :=
  match a with
  | .resolve pipeId timeout dest timed allocated =>
    some (.ok (s.resolve pipeId timeout dest timed allocated))
  | .sendQuery n rv =>
    match s.requests[n]? with
    | some r => if r.sent = none then some (.ok (s.sendQuery n r rv)) else none
    | none => none
  | .select answer => if s.workers.length < 2 then some (.ok (s.select answer)) else none
  | .notify i =>
    match s.workers[i]? with
    | some ⟨answer, n :: reqs⟩ =>
      (s.requests[n]?).map fun r =>
        .ok (((s.remove n r).invoke n r answer).proceed i answer reqs)
    | _ => none
  | .take i =>
    match s.waiters[i]? with
    | some w =>
      match s.requests[w.request]? with
      | some r =>
        if r.notices ≠ [] then
          some (.ok { s.setRequest w.request { r with returned := some .success } with
            waiters := s.waiters.eraseIdx i })
        else none
      | none => none
    | none => none
  | .giveUp i =>
    match s.waiters[i]? with
    | some w =>
      match s.requests[w.request]? with
      | some r =>
        -- there is no event, and its field is read
        if w.timeout ≤ s.now ∧ r.notices = [] then some (.error .nullPointer) else none
      | none => none
    | none => none
  | .tick d => some (.ok { s with now := s.now + d })

def Next (s : State) (a : Action) (s' : State) : Prop := step s a = some (.ok s')

/-! ## what is wanted -/

/-- The answer is for the request. -/
structure Answer.Fits (answer : Answer) (r : Request) : Prop where
  pipeId : answer.pipeId = some r.pipeId
  found : answer.found = true
  peer : ∀ dest, r.dest = some dest → answer.peer = some dest

/-- The request is in the table. -/
def State.Pending (s : State) (n : Nat) : Prop :=
  ∃ pipeId vector, s.pendingRequests.lookup pipeId = some vector ∧ n ∈ vector

/-- The law of the requests. -/
structure State.Lawful (s : State) : Prop where
  once : ∀ r ∈ s.requests, r.notices.length ≤ 1
  fits : ∀ r ∈ s.requests, ∀ notice ∈ r.notices, notice.answer.Fits r
  inTime : ∀ r ∈ s.requests, ∀ notice ∈ r.notices, notice.time < r.timeout
  notFailed : ∀ r ∈ s.requests, ∀ notice ∈ r.notices, notice.failed = false
  pending : ∀ n r, s.requests[n]? = some r →
    (s.Pending n ↔ r.failed = false ∧ r.notices = [] ∧ s.now < r.timeout)
  answered : ∀ r ∈ s.requests, r.timed.isSome = true → r.returned = some .success → r.notices ≠ []

/-- What must not happen: a request without time, a query that is not sent while its request has not
been notified, an answer that does not report the pipe as found, or that comes while the other worker
has requests that it is for, and the timeout of a request that has not been notified. -/
def Careful (s : State) (a : Action) : Prop :=
  match a with
  | .resolve _ timeout _ _ _ => 0 < timeout
  | .sendQuery n rv => ∀ r ∈ s.requests[n]?, rv = .success ∨ r.notices ≠ []
  | .select answer => ∀ n ∈ s.selected answer, answer.found = true ∧ ∀ w ∈ s.workers, n ∉ w.reqs
  | .tick d => ∀ r ∈ s.requests, r.failed = false → r.notices = [] → s.now + d < r.timeout
  | _ => True

end PipeResolver

end JxtaC
