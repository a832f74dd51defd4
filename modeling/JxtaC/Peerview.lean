import JxtaC.Base.Status
import Mathlib.Logic.Function.Basic

/-
  The local view of a rendezvous peer (jxta_peerview.c).
  `localView` is the hash table, used as the map it is, `localViewOrder` the vector, used as the
  list it is. Entries are objects: a `Pve` is the address of one with the peer id it is made with;
  what changes in it, its expiration time, is kept by address. A peer id is its string form, which
  keys the table, orders the vector and decides `jxta_id_equals`. Of a message only its flags and
  the id of its advertisement matter here; what the functions send is left out.
-/

namespace JxtaC

/-- A peer id, as the bytes of its string. -/
abbrev Pid := List Byte

/-- `JPR_ABSOLUTE_TIME_MAX`. -/
def absoluteTimeMax : Nat := 2 ^ 63 - 1

/-- `_jxta_peer_peerview_entry`: the object at this address. -/
structure Pve where
  address : Nat
  pid : Pid
  deriving Repr, DecidableEq

structure Peerview where
  localView : Pid → Option Pve
  localViewOrder : List Pve
  selfPVE : Pve
  upPVE : Option Pve
  downPVE : Option Pve
  pveExpires : Nat
  /-- `expires` of the entry at an address. -/
  expires : Nat → Nat
  /-- The address of the next entry. -/
  fresh : Nat

namespace Peerview

/-- The position the loop of `addjust_up_down_peers` finds. -/
def myPos (self : Pve) : List Pve → Option Nat
  | [] => none
  | comparePVE :: pves => if comparePVE = self then some 0 else (myPos self pves).map (· + 1)

/-- `addjust_up_down_peers`. -/
def addjustUpDownPeers (s : Peerview) : Peerview :=
  let order := s.localViewOrder
  match myPos s.selfPVE order with
  | none => { s with downPVE := none, upPVE := none }
  | some pos =>
    let down := if pos = 0 then order.length - 1 else pos - 1
    let up := if pos < order.length - 1 then pos + 1 else 0
    { s with
      downPVE := if down ≠ pos then order[down]? else none
      upPVE := if up ≠ pos then order[up]? else none }

/-- The loop of `remove_expired_PVEs`: what stays, and whether something was removed. -/
def removeExpiredFrom (expires : Nat → Nat) (currentTime : Nat) : List Pve → List Pve × Bool
  | [] => ([], false)
  | checkPVE :: pves =>
    let (rest, removed) := removeExpiredFrom expires currentTime pves
    if expires checkPVE.address < currentTime then (rest, true) else (checkPVE :: rest, removed)

/-- `remove_expired_PVEs`: the table is not touched. -/
def removeExpiredPVEs (s : Peerview) (currentTime : Nat) : Peerview :=
  match removeExpiredFrom s.expires currentTime s.localViewOrder with
  | (order, true) => addjustUpDownPeers { s with localViewOrder := order }
  | (order, false) => { s with localViewOrder := order }

/-- The loop of `jxta_peerview_add_pve`, from the end: behind the first smaller id, or in front. -/
def insertFrom (order : List Pve) (pve : Pve) : (eachPVE : Nat) → List Pve
  | 0 => pve :: order
  | eachPVE + 1 =>
    match order[eachPVE]? with
    | some comparePVE =>
      if comparePVE.pid < pve.pid then order.insertIdx (eachPVE + 1) pve
      else insertFrom order pve eachPVE
    | none => insertFrom order pve eachPVE

/-- `jxta_peerview_add_pve`. -/
def addPve (s : Peerview) (pve : Pve) : Peerview × Status :=
  match s.localView pve.pid with
  | some _ => (s, .failed)
  | none =>
    let order := insertFrom s.localViewOrder pve s.localViewOrder.length
    let table := Function.update s.localView pve.pid (some pve)
    (addjustUpDownPeers { s with localViewOrder := order, localView := table }, .success)

/-- The loop of `jxta_peerview_remove_pve`: the order without the first entry of this id. -/
def removeFirst (pid : Pid) : List Pve → Option (List Pve)
  | [] => none
  | comparePVE :: pves =>
    if comparePVE.pid = pid then some pves else (removeFirst pid pves).map (comparePVE :: ·)

/-- `jxta_peerview_remove_pve`. -/
def removePve (s : Peerview) (pid : Pid) : Peerview × Status :=
  match removeFirst pid s.localViewOrder with
  | none => (s, .success)
  | some order =>
    let res := if (s.localView pid).isSome then .success else .itemNotfound
    let table := Function.update s.localView pid none
    (addjustUpDownPeers { s with localViewOrder := order, localView := table }, res)

/-- `peerview_entry_new`, with the peer id and the expiration time it is given. -/
def newPve (s : Peerview) (pid : Pid) : Peerview × Pve :=
  let expires := Function.update s.expires s.fresh absoluteTimeMax
  ({ s with expires, fresh := s.fresh + 1 }, ⟨s.fresh, pid⟩)

/-- `jxta_peerview_get_pve`. -/
def getPve (s : Peerview) (pid : Pid) (addToLocalView : Bool) : Peerview × Pve × Status :=
  match s.localView pid with
  | some pve => (s, pve, .success)
  | none =>
    let (s, pve) := newPve s pid
    if addToLocalView then
      let (s, res) := addPve s pve
      (s, pve, res)
    else (s, pve, .success)

/-- `process_peerview_message`, at time `now`. -/
def processPeerviewMessage (s : Peerview) (dest : Pid) (edge failure cached : Bool) (now : Nat) :
    Peerview × Status :=
  if failure then ((removePve s dest).1, .success)
  else
    match getPve s dest (!edge && !cached) with
    | (s, pve, .success) =>
      let expires := Function.update s.expires pve.address ((now + s.pveExpires) % sizeMod)
      ({ s with expires }, .success)
    | (s, _, res) => (s, res)

/-- `jxta_peerview_get_localview`, at time `now`. -/
def getLocalview (s : Peerview) (now : Nat) : Peerview × List Pve :=
  let s := removeExpiredPVEs s now
  (s, s.localViewOrder)

/-- `jxta_peerview_new` and `jxta_peerview_init`, for the peer with this id. -/
def init (pid : Pid) (pveExpires : Nat) : Peerview :=
  { localView := fun _ => none
    localViewOrder := []
    selfPVE := ⟨0, pid⟩
    upPVE := none
    downPVE := none
    pveExpires
    expires := Function.update (fun _ => 0) 0 absoluteTimeMax
    fresh := 1 }

/-! ## runs -/

/-- What happens to a peerview: a message arrives, the view is read, the worker thread wakes up,
    a send of the worker to a neighbour fails, the service starts or stops. -/
inductive Op where
  | message (dest : Pid) (edge failure cached : Bool) (now : Nat)
  | getLocalview (now : Nat)
  | periodic (now : Nat)
  | sendFailed (pid : Pid)
  | start
  | stop
  deriving Repr, DecidableEq

def step (s : Peerview) : Op → Peerview
  | .message dest edge failure cached now => (processPeerviewMessage s dest edge failure cached now).1
  | .getLocalview now => (getLocalview s now).1
  | .periodic now => removeExpiredPVEs s now
  | .sendFailed pid => (removePve s pid).1
  | .start => (addPve s s.selfPVE).1
  | .stop => (removePve s s.selfPVE.pid).1

def run (s : Peerview) (ops : List Op) : Peerview := ops.foldl step s

end Peerview

end JxtaC
