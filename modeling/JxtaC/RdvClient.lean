import Mathlib.Data.List.AList
import JxtaC.Message

/-
  The leases of an edge peer (jxta_rdv_service_client.c), at the granularity of the locked sections:
  replies go through `get_peer_entry` and a section under the lock of the entry, and the thread of
  the periodic runs through the check of the leases, their renewal and the search for a candidate.
  Times are milliseconds of a 64-bit clock. Entry objects are numbered in the order in which they are
  made, and peers are known by the unique portion of their ids. What a reply has beside the peer and
  the lease, the probes of seeds and cached advertisements, events, `stop` and the log are left out;
  a request is dated by the section that decides on it.
-/

namespace JxtaC

open Lib

namespace RdvClient

/-- `Jxta_RdvConfigAdvertisement`, with the number of rendezvous as the comparisons read it. -/
structure Config where
  minConnected : Nat
  minRetryDelay : Int
  maxRetryDelay : Int
  leaseRenewalDelay : Int
  deriving DecidableEq

/-- `_jxta_peer_rdv_entry`. -/
structure Entry where
  peerid : CString
  expires : Int
  lastConnectTry : Int
  connectInterval : Int
  deriving DecidableEq

/-- What happened to a peer: a request from an entry, a reply that reached an entry, or a send that
failed. -/
inductive Event where
  | request (peerid : CString) (n : Nat) (time : Int)
  | grant (peerid : CString) (time lease : Int)
  | denial (peerid : CString) (n : Nat)
  | failure (peerid : CString)
  deriving DecidableEq

/-- A thread in `process_connected_reply` behind `get_peer_entry`. -/
structure Reply where
  entry : Nat
  lease : Int
  deriving DecidableEq

/-- Where the periodic run is: the entries that are still to be looked at, and the number of connected
rendezvous so far. -/
inductive Point where
  | waiting
  | leases (rdvs : List Nat) (nbOfConnectedRdvs : Nat)
  | expired (n : Nat) (rdvs : List Nat) (nbOfConnectedRdvs : Nat)
  | renewals (rdvs : List Nat) (nbOfConnectedRdvs : Nat)
  | renewing (n : Nat) (rdvs : List Nat) (nbOfConnectedRdvs : Nat)
  | renewalSent (n : Nat) (rdvs : List Nat) (nbOfConnectedRdvs : Nat)
  | candidateSent (n : Nat)
  deriving DecidableEq

/-- `_jxta_rdv_service_client`, the entry objects and the threads, and what happened, the last first. -/
structure State where
  config : Config
  now : Int
  entries : List Entry
  rdvs : AList fun _ : CString => Nat
  replies : List Reply
  point : Point
  candidate : Option Nat
  candidates : Option (List CString)
  log : List Event
  deriving DecidableEq

inductive Action where
  | receive (peerid : CString) (lease : Int)
  | settle (i : Nat)
  | run
  /-- the next entry of either pass, in whatever order the table lists them -/
  | check (i : Nat)
  | delete
  | secondPass
  | connect
  | send (sent : Bool)
  /-- the rest of a run, with the peers of the local view -/
  | search (view : List CString)
  | tick (d : Nat)

def initial (config : Config) (now : Nat) : State := ⟨config, now, [], ∅, [], .waiting, none, none, []⟩

/-- `JPR_ABSOLUTE_TIME_MAX`. -/
def absoluteTimeMax : Int := 2 ^ 63 - 1

namespace State

def setEntry (s : State) (n : Nat) (peer : Entry) : State :=
  { s with entries := s.entries.set n peer }

/-- `get_peer_entry`. -/
def getPeerEntry (s : State) (peerid : CString) (create : Bool) : State × Option Nat :=
  match s.rdvs.lookup peerid with
  | some n => (s, some n)
  | none =>
    if create ∧ s.rdvs.keys.length < s.config.minConnected then
      ({ s with
          entries := s.entries ++ [⟨peerid, absoluteTimeMax, 0, 0⟩]
          rdvs := s.rdvs.insert peerid s.entries.length }, some s.entries.length)
    else (s, none)

/-- A reply is received: it goes on if there is an entry for it. -/
def receive (s : State) (peerid : CString) (lease : Int) : State :=
  match s.getPeerEntry peerid (0 < lease) with
  | (s', some n) => { s' with replies := s'.replies ++ [⟨n, lease⟩] }
  | (s', none) => s'

/-- What `process_connected_reply` does under the lock of the entry. -/
def settle (s : State) (n : Nat) (peer : Entry) (lease : Int) : State :=
  if 0 < lease then
    { s.setEntry n { peer with
        expires := (s.now + lease).bmod (2 ^ 64)
        connectInterval := 0
        lastConnectTry := s.now } with
      log := .grant peer.peerid s.now lease :: s.log }
  else
    { s.setEntry n { peer with connectInterval := s.config.minRetryDelay, expires := 0 } with
      log := .denial peer.peerid n :: s.log }

/-- The values of the table. -/
def values (s : State) : List Nat := s.rdvs.entries.map Sigma.snd

/-- `check_peer_lease`. -/
def checkPeerLease (s : State) (peer : Entry) : Bool := 0 < peer.expires - s.now

/-- The section of `check_peer_connect`. -/
def checkPeerConnect (s : State) (peer : Entry) : Bool :=
  peer.expires - s.now < s.config.leaseRenewalDelay

/-- `connect_to_peer` goes on to send a request. -/
def Due (s : State) (peer : Entry) : Prop := ¬ s.now < peer.lastConnectTry + peer.connectInterval

instance (s : State) (peer : Entry) : Decidable (s.Due peer) := inferInstanceAs (Decidable (¬ _))

/-- The section of `connect_to_peer` where a request is due. -/
def connect (s : State) (n : Nat) (peer : Entry) : State :=
  let connectInterval := peer.connectInterval + s.config.minRetryDelay
  { s.setEntry n { peer with
      lastConnectTry := s.now
      connectInterval :=
        if s.config.maxRetryDelay < connectInterval then s.config.maxRetryDelay else connectInterval } with
    log := .request peer.peerid n s.now :: s.log }

/-- A request could not be sent. -/
def fail (s : State) (n : Nat) (peer : Entry) : State :=
  { s.setEntry n { peer with expires := s.now } with log := .failure peer.peerid :: s.log }

/-- The candidates behind the third leg of a run: if there are enough rendezvous, the vector is cleared,
also where there is none. -/
def cleared (s : State) (nbOfConnectedRdvs : Nat) : Exec (Option (List CString)) :=
  if nbOfConnectedRdvs < s.config.minConnected then pure s.candidates
  else
    match s.candidates with
    | some _ => pure (some [])
    | none => throw .nullPointer

/-- The candidates that the final lap chooses from. -/
def loaded (candidates : Option (List CString)) (view : List CString) : List CString :=
  match candidates with
  | none => view
  | some [] => view
  | some (peer :: peers) => peer :: peers

/-- The candidate of earlier runs, unless its time is over. -/
def keptCandidate (s : State) : Option Nat :=
  s.candidate.filter fun n =>
    match s.entries[n]? with
    | some peer => ¬ peer.lastConnectTry + peer.connectInterval < s.now
    | none => false

/-- The final lap, if it takes a candidate. -/
def takeCandidate (s : State) (peerid : CString) (candidates : List CString) : State :=
  let peer : Entry := ⟨peerid, 0, 0, 0⟩
  let n := s.entries.length
  let s' := { s with
    entries := s.entries ++ [peer], candidate := some n, candidates := some candidates }
  if s.Due peer then { s'.connect n peer with point := .candidateSent n }
  else { s' with point := .waiting }

/-- The third leg of a run and the final lap. -/
def search (s : State) (nbOfConnectedRdvs : Nat) (view : List CString) : Exec State := do
  let candidates ← s.cleared nbOfConnectedRdvs
  match s.keptCandidate, loaded candidates view with
  | none, peerid :: rest => pure (s.takeCandidate peerid rest)
  | candidate, candidates =>
    pure { s with candidate := candidate, candidates := some candidates, point := .waiting }

end State

/-- A step: none if it cannot be taken. -/
def step (s : State) (a : Action) : Option (Exec State) :=
  match a with
  | .receive peerid lease => some (.ok (s.receive peerid lease))
  | .settle i =>
    match s.replies[i]? with
    | some reply =>
      (s.entries[reply.entry]?).map fun peer =>
        .ok { s.settle reply.entry peer reply.lease with replies := s.replies.eraseIdx i }
    | none => none
  | .run =>
    match s.point with
    | .waiting => some (.ok { s with point := .leases s.values 0 })
    | _ => none
  | .check i =>
    match s.point with
    | .leases rdvs nb =>
      match rdvs[i]? with
      | some n =>
        (s.entries[n]?).map fun peer =>
          .ok { s with point :=
            if s.checkPeerLease peer then .leases (rdvs.eraseIdx i) (nb + 1)
            else .expired n (rdvs.eraseIdx i) nb }
      | none => none
    | .renewals rdvs nb =>
      match rdvs[i]? with
      | some n =>
        (s.entries[n]?).map fun peer =>
          .ok { s with point :=
            if s.checkPeerConnect peer then .renewing n (rdvs.eraseIdx i) nb
            else .renewals (rdvs.eraseIdx i) nb }
      | none => none
    | _ => none
  | .delete =>
    match s.point with
    | .expired n rdvs nb =>
      (s.entries[n]?).map fun peer =>
        .ok { s with rdvs := s.rdvs.erase peer.peerid, point := .leases rdvs nb }
    | _ => none
  | .secondPass =>
    match s.point with
    | .leases [] nb => some (.ok { s with point := .renewals s.values nb })
    | _ => none
  | .connect =>
    match s.point with
    | .renewing n rdvs nb =>
      (s.entries[n]?).map fun peer =>
        .ok (if s.Due peer then { s.connect n peer with point := .renewalSent n rdvs nb }
          else { s with point := .renewals rdvs nb })
    | _ => none
  | .send sent =>
    match s.point with
    | .renewalSent n rdvs nb =>
      (s.entries[n]?).map fun peer =>
        .ok { if sent then s else s.fail n peer with point := .renewals rdvs nb }
    | .candidateSent n =>
      (s.entries[n]?).map fun peer =>
        .ok { if sent then s else s.fail n peer with point := .waiting }
    | _ => none
  | .search view =>
    match s.point with
    | .renewals [] nb => some (s.search nb view)
    | _ => none
  | .tick d => if s.now + d ≤ absoluteTimeMax then some (.ok { s with now := s.now + d }) else none

def Next (s : State) (a : Action) (s' : State) : Prop := step s a = some (.ok s')

/-! ## what is wanted -/

/-- The lease of the latest reply of a peer, if no send to it failed since. -/
def latest (peerid : CString) : List Event → Option (Int × Int)
  | [] => none
  | .request _ _ _ :: log => latest peerid log
  | .grant peer time lease :: log => if peer = peerid then some (time, lease) else latest peerid log
  | .denial peer _ :: log => if peer = peerid then none else latest peerid log
  | .failure peer :: log => if peer = peerid then none else latest peerid log

/-- The times of the requests to a peer since it last granted a lease, the last first. -/
def tries (peerid : CString) : List Event → List Int
  | [] => []
  | .request peer _ time :: log =>
    if peer = peerid then time :: tries peerid log else tries peerid log
  | .grant peer _ _ :: log => if peer = peerid then [] else tries peerid log
  | .denial _ _ :: log => tries peerid log
  | .failure _ :: log => tries peerid log

/-- The delay behind the given number of requests. -/
def Config.delay (config : Config) (k : Nat) : Int := min (k * config.minRetryDelay) config.maxRetryDelay

/-- The requests stand the minimal delay apart, and their distance grows with each. -/
def Spaced (config : Config) : List Int → Prop
  | [] => True
  | [_] => True
  | time' :: time :: times =>
    config.minRetryDelay ≤ time' - time ∧ config.delay (times.length + 1) ≤ time' - time ∧
      Spaced config (time :: times)

/-- The table is full of leases that have not expired. -/
def State.Full (s : State) : Prop :=
  s.config.minConnected ≤ s.rdvs.keys.length ∧
    ∀ n ∈ s.values, ∀ peer ∈ s.entries[n]?, s.now < peer.expires

/-- The law of the leases. -/
structure State.Lawful (s : State) : Prop where
  bounded : s.rdvs.keys.length ≤ s.config.minConnected
  leases : ∀ peerid time lease, latest peerid s.log = some (time, lease) → s.now < time + lease →
    (s.rdvs.lookup peerid).isSome = true
  spaced : ∀ peerid, Spaced s.config (tries peerid s.log)

/-- While the table is full, requests go to peers that are in it. -/
def Keeps (s s' : State) : Prop :=
  s.Full → ∀ peerid n time, s'.log = .request peerid n time :: s.log →
    (s.rdvs.lookup peerid).isSome = true

/-- Since the last grant all requests to the peer went out from this entry, and the entry was not
denied a lease behind the second of them. -/
def undisturbed (peerid : CString) (n : Nat) : List Event → Bool
  | [] => true
  | .request peer m _ :: log => (peer ≠ peerid ∨ m = n) && undisturbed peerid n log
  | .grant peer _ _ :: log => peer = peerid || undisturbed peerid n log
  | .denial peer m :: log =>
    (peer ≠ peerid ∨ m ≠ n ∨ (tries peerid log).length ≤ 1) && undisturbed peerid n log
  | .failure _ :: log => undisturbed peerid n log

/-- The entry that is about to be taken from the table. -/
def Point.doomed : Point → Option Nat
  | .expired n _ _ => some n
  | _ => none

/-- The delays are those of a back-off. -/
def Config.Sane (config : Config) : Prop :=
  0 ≤ config.minRetryDelay ∧ config.minRetryDelay ≤ config.maxRetryDelay

instance (config : Config) : Decidable config.Sane := inferInstanceAs (Decidable (_ ∧ _))

/-- What must not happen: a lease that is granted to an entry which has been taken from the table, or
is about to be, or that ends behind the clock, a renewal from an entry that does not know of all
requests to its peer, a candidate to which a request was sent already, and one that is taken while the
table is full. -/
def Careful (s : State) (a : Action) : Prop :=
  match a with
  | .settle i => ∀ reply ∈ s.replies[i]?, 0 < reply.lease → ∀ peer ∈ s.entries[reply.entry]?,
      s.rdvs.lookup peer.peerid = some reply.entry ∧ s.now + reply.lease ≤ absoluteTimeMax ∧
        s.point.doomed ≠ some reply.entry
  | .connect =>
    match s.point with
    | .renewing n _ _ => ∀ peer ∈ s.entries[n]?, s.Due peer →
        s.config.Sane ∧ undisturbed peer.peerid n s.log = true
    | _ => True
  | .search view =>
    match s.point with
    | .renewals _ nb => s.keptCandidate = none →
        ∀ candidates ∈ (s.cleared nb).toOption, ∀ peerid ∈ (State.loaded candidates view).head?,
          s.config.Sane ∧ tries peerid s.log = [] ∧ (s.Full → (s.rdvs.lookup peerid).isSome = true)
    | _ => True
  | _ => True

end RdvClient

end JxtaC
