import Mathlib.Data.List.AList
import JxtaC.Message

/-
  The leases that a rendezvous offers (jxta_rdv_service_server.c), at the granularity of the accesses
  to what the threads share: the table of clients, the entries in it and the clock. A handler of lease
  requests has the lock of the provider from the lookup in `get_peer_entry` to the insertion and none
  behind it; the periodic thread does not take that lock.
  Times are milliseconds of a 64-bit clock. Entry objects are numbered in the order in which they are
  made, and peers are known by the unique portion of their ids. The contents of requests and replies,
  events, failed allocations, `start` and `stop` are left out.
-/

namespace JxtaC

open Lib

namespace RdvServer

structure Config where
  maxClients : Nat
  offeredLeaseDuration : Int
  deriving DecidableEq

/-- `_jxta_peer_client_entry`. -/
structure Entry where
  peerid : CString
  expires : Int
  deriving DecidableEq

/-- A reply that was sent, or a request that was declined, with whether its peer was in the table. -/
inductive Event where
  | reply (peerid : CString) (time : Int)
  | declined (peerid : CString) (known : Bool)
  deriving DecidableEq

/-- The handler that has the lock of the provider: what it found, and the number of clients once it
has it. -/
structure Lookup where
  peerid : CString
  found : Option Nat
  currentPeers : Option Nat
  deriving DecidableEq

/-- A handler behind `get_peer_entry`, with its entry: it is to read the clock, to set the end of the
lease, or to send the reply. -/
inductive Handler where
  | found (client : Nat)
  | timed (client : Nat) (time : Int)
  | renewed (client : Nat) (time : Int)
  deriving DecidableEq

def Handler.client : Handler → Nat
  | .found client => client
  | .timed client _ => client
  | .renewed client _ => client

/-- Where the periodic thread is, with the clients of its snapshot that are still to be looked at. -/
inductive Sweep where
  | waiting
  | clients (rest : List Nat)
  | timed (currentTime : Int) (peer : Nat) (rest : List Nat)
  | expired (peer : Nat) (rest : List Nat)
  deriving DecidableEq

/-- `_jxta_rdv_service_server`, the entry objects and the threads, and what happened, the last first. -/
structure State where
  config : Config
  now : Int
  entries : List Entry
  clients : AList fun _ : CString => Nat
  lookup : Option Lookup
  handlers : List Handler
  sweep : Sweep
  log : List Event
  deriving DecidableEq

inductive Action where
  | request (peerid : CString)
  | stats
  | create
  | readClock (i : Nat)
  | setExpires (i : Nat)
  | reply (i : Nat) (sent : Bool)
  | run
  /-- the next client, in whatever order the table lists them -/
  | readTime (i : Nat)
  | checkLease
  | delete
  | wait
  | tick (d : Nat)

def initial (config : Config) (now : Nat) : State := ⟨config, now, [], ∅, none, [], .waiting, []⟩

/-- `JPR_ABSOLUTE_TIME_MAX`. -/
def absoluteTimeMax : Int := 2 ^ 63 - 1

namespace State

/-- The entry of a peer in the table. -/
def client (s : State) (peerid : CString) : Option Nat := s.clients.lookup peerid

/-- The values of the table. -/
def values (s : State) : List Nat := s.clients.entries.map Sigma.snd

/-- The end of `get_peer_entry`, and what `server_cb` does without an entry. -/
def create (s : State) (peerid : CString) (found : Option Nat) (currentPeers : Nat) : State :=
  match found with
  | some n => { s with lookup := none, handlers := s.handlers ++ [.found n] }
  | none =>
    if currentPeers < s.config.maxClients then
      { s with
        entries := s.entries ++ [⟨peerid, absoluteTimeMax⟩]
        clients := s.clients.insert peerid s.entries.length
        lookup := none
        handlers := s.handlers ++ [.found s.entries.length] }
    else
      { s with
        lookup := none
        log := .declined peerid (found.isSome || (s.client peerid).isSome) :: s.log }

/-- `jxta_peer_set_expires`, behind the clock that was read. -/
def setExpires (s : State) (n : Nat) (client : Entry) (time : Int) : State :=
  { s with entries :=
      s.entries.set n { client with expires := (time + s.config.offeredLeaseDuration).bmod (2 ^ 64) } }

end State

/-- `check_peer_lease`, with the time that it read. -/
def checkPeerLease (currentTime : Int) (peer : Entry) : Bool := 0 < peer.expires - currentTime

/-- A step: none if it cannot be taken. -/
def step (s : State) (a : Action) : Option (Exec State) :=
  match a with
  | .request peerid =>
    match s.lookup with
    | none => some (.ok { s with lookup := some ⟨peerid, s.client peerid, none⟩ })
    | some _ => none
  | .stats =>
    match s.lookup with
    | some ⟨peerid, found, none⟩ =>
      some (.ok { s with lookup := some ⟨peerid, found, some s.clients.keys.length⟩ })
    | _ => none
  | .create =>
    match s.lookup with
    | some ⟨peerid, found, some currentPeers⟩ => some (.ok (s.create peerid found currentPeers))
    | _ => none
  | .readClock i =>
    match s.handlers[i]? with
    | some (.found n) => some (.ok { s with handlers := s.handlers.set i (.timed n s.now) })
    | _ => none
  | .setExpires i =>
    match s.handlers[i]? with
    | some (.timed n time) =>
      (s.entries[n]?).map fun client =>
        .ok { s.setExpires n client time with handlers := s.handlers.set i (.renewed n time) }
    | _ => none
  | .reply i sent =>
    match s.handlers[i]? with
    | some (.renewed n _) =>
      (s.entries[n]?).map fun client =>
        .ok { s with
          handlers := s.handlers.eraseIdx i
          log := if sent then .reply client.peerid s.now :: s.log else s.log }
    | _ => none
  | .run =>
    match s.sweep with
    | .waiting => some (.ok { s with sweep := .clients s.values })
    | _ => none
  | .readTime i =>
    match s.sweep with
    | .clients rest =>
      (rest[i]?).map fun n => .ok { s with sweep := .timed s.now n (rest.eraseIdx i) }
    | _ => none
  | .checkLease =>
    match s.sweep with
    | .timed currentTime n rest =>
      (s.entries[n]?).map fun peer =>
        .ok { s with sweep :=
          if checkPeerLease currentTime peer then .clients rest else .expired n rest }
    | _ => none
  | .delete =>
    match s.sweep with
    | .expired n rest =>
      (s.entries[n]?).map fun peer =>
        .ok { s with clients := s.clients.erase peer.peerid, sweep := .clients rest }
    | _ => none
  | .wait =>
    match s.sweep with
    | .clients [] => some (.ok { s with sweep := .waiting })
    | _ => none
  | .tick d => if s.now + d ≤ absoluteTimeMax then some (.ok { s with now := s.now + d }) else none

def Next (s : State) (a : Action) (s' : State) : Prop := step s a = some (.ok s')

/-! ## what is wanted -/

/-- The law of the leases. -/
structure State.Lawful (s : State) : Prop where
  bounded : s.clients.keys.length ≤ s.config.maxClients
  granted : ∀ peerid known, .declined peerid known ∈ s.log → known = false
  leases : ∀ peerid time, .reply peerid time ∈ s.log →
    s.now < time + s.config.offeredLeaseDuration → (s.client peerid).isSome = true

/-- The entries that handlers work with, or will. -/
def State.held (s : State) : List Nat :=
  s.handlers.map Handler.client ++ (s.lookup.bind Lookup.found).toList

/-- What must not happen: an entry is deleted although its lease has been renewed behind the check, or
while a handler is about to renew it, and time passes between the clock that a handler reads, the end
of the lease that it sets and the reply. -/
def Careful (s : State) (a : Action) : Prop :=
  match a with
  | .delete =>
    match s.sweep with
    | .expired n _ => ∀ peer ∈ s.entries[n]?, peer.expires ≤ s.now ∧ n ∉ s.held
    | _ => True
  | .setExpires i =>
    match s.handlers[i]? with
    | some (.timed _ time) => time = s.now ∧ -2 ^ 63 ≤ time + s.config.offeredLeaseDuration ∧
        time + s.config.offeredLeaseDuration ≤ absoluteTimeMax
    | _ => True
  | .reply i sent =>
    match s.handlers[i]? with
    | some (.renewed _ time) => sent = true → time = s.now
    | _ => True
  | _ => True

end RdvServer

end JxtaC
