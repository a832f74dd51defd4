import JxtaC.Replica
import JxtaC.SrdiService
import JxtaC.Walk
import Mathlib.Data.List.AList

/-
  The replication of an SRDI message (`replicateEntries` in jxta_srdi_service_ref.c, jxta_range.c).
  An entry goes to the peer that its key and value, or the position of its number in its range,
  select in the local view, which is looked at again for every entry; the entries of a peer are sent
  in one message. `position` is the computation of `jxta_range_get_position` in floating point. A
  vector of the peer table is the peer in its first slot and the entries behind it. The keys of the
  table come in any order. What `record_delta_entry` makes of the entries of a message comes behind
  `forwardSrdiEntries` here.
-/

namespace JxtaC.SrdiService

open Lib

/-- `Jxta_SRDIMessage`. -/
structure SRDIMessage where
  ttl : Int
  peerID : Option Pid
  primaryKey : Option CString
  entries : List SRDIEntryElement

/-! ## ranges -/

/-- `struct _jxta_range`: the numbers of the range are what `low` and `high` are made of. -/
structure Range where
  element : Option (List Byte)
  attr : Option (List Byte)
  range : Option (List Byte × List Byte)
  deriving DecidableEq

/-- The size of the blocks of `range_get_elem_attr`. -/
def elemAttrSize : Nat := 128

/-- The size of `low` and `high` in `jxta_range_add`. -/
def rangeNumberSize : Nat := 32

/-- A string that is written into a block of this size, and read again. -/
def intoBlock (size : Nat) (s : List Byte) : Exec (List Byte) :=
  if s.length < size then .ok s else .error .outOfBounds

/-- The loop of `range_get_elem_attr`: a space begins a new attribute. -/
def elemAttrLoop : (tmp dest : List Byte) → (element : Option (List Byte)) →
    Exec (List Byte × Option (List Byte))
  | [], dest, none => do return (← intoBlock elemAttrSize dest, none)
  | [], dest, some element => do return (element, some (← intoBlock elemAttrSize dest))
  | c :: tmp, dest, element =>
    if c = 32 then do
      let block ← intoBlock elemAttrSize dest
      elemAttrLoop tmp [] (some (element.getD block))
    else elemAttrLoop tmp (dest ++ [c]) element

/-- `range_get_elem_attr`. -/
def rangeGetElemAttr (elemAttr : List Byte) : Exec (List Byte × Option (List Byte)) :=
  elemAttrLoop elemAttr [] none

/-- The loop of `jxta_range_add` over a range: the texts of `low` and `high`. -/
def parseRange (range : List Byte) : Exec (Option (List Byte × List Byte)) :=
  match range with
  | 40 :: range => do
    let low ← intoBlock rangeNumberSize (range.takeWhile (· ≠ 58))
    match range.dropWhile (· ≠ 58) with
    | 58 :: 58 :: range =>
      let high ← intoBlock rangeNumberSize (range.takeWhile (· ≠ 41))
      return if range.dropWhile (· ≠ 41) = [] then none else some (low, high)
    | _ => return none
  | _ => return none

/-- `jxta_range_set_range` on a new range. The name of the range in the global table is not kept. -/
def setRange (nSpace elemAttr : Option (List Byte)) (range : List Byte) : Exec Range :=
  match elemAttr, nSpace with
  | some elemAttr, some _ => do
    let (element, attr) ← rangeGetElemAttr elemAttr
    match ← parseRange range with
    | some numbers => return ⟨some element, attr, some numbers⟩
    | none => return ⟨none, none, none⟩
  | _, _ => .error .nullPointer

/-! ## replicas -/

/-- The service on its peer. -/
structure Replicator where
  isRendezvous : Bool
  replicationThreshold : Int
  noRange : Bool
  peerID : Pid
  sha1 : List Byte → Fin Replica.shaDigestLength → Byte
  position : (low high value : List Byte) → (segments : Nat) → Nat
  /-- `cm_get_srdi_with_seq_number`: what it answers, and what it makes of the entry. -/
  cm : Pid → Nat → SRDIEntryElement → Status × SRDIEntryElement
  /-- The order in which `jxta_hashtable_keys_get` gives the keys. -/
  hashOrder : List Pid → List Pid
  hashOrder_perm : ∀ pids, (hashOrder pids).Perm pids

namespace Replicator
variable (n : Replicator)

/-- `getNumericReplica`, at time `now`. -/
def getNumericReplica (rpv : Peerview) (now : Nat) (rge : Range) (val : List Byte) :
    Exec (Peerview × Option Pve) :=
  let (rpv, localView) := rpv.getLocalview now
  if localView.length < 2 then .ok (rpv, none)
  else
    match rge.range, rge.element with
    | some (low, high), _ => .ok (rpv, localView[n.position low high val localView.length]?)
    | none, none => .error .nullPointer
    | none, some element =>
      let expression := element ++ rge.attr.getD [] ++ if n.noRange then val else []
      .ok (Replica.getReplicaPeer n.sha1 rpv now (.ofBuffer expression))

/-- The entry that the loop of `replicateEntries` goes on with, if there is one. -/
def newEntry (jPeerId : Pid) (entry : SRDIEntryElement) : Option SRDIEntryElement :=
  let newEntry := { entry with advId := entry.advId <|> entry.value, resend := false }
  if entry.value = none then
    if entry.seqNumber > 0 then
      match n.cm jPeerId entry.seqNumber newEntry with
      | (.itemNotfound, _) => none
      | (_, newEntry) => some newEntry
    else none
  else some newEntry

/-- The value of a numeric entry begins with `#`. -/
def isNumeric (value : List Byte) : Bool := value.head? = some 35

/-- The replica peer of an entry, at time `now`. -/
def repPeer (rpv : Peerview) (now : Nat) (newEntry : SRDIEntryElement) :
    Exec (Peerview × Option Pve) :=
  match newEntry.key, newEntry.value with
  | some key, some value =>
    let replicaExpression := key.bytes ++
      if isNumeric value.bytes = false ∨ n.noRange then value.bytes else []
    match newEntry.range with
    | none => .ok (Replica.getReplicaPeer n.sha1 rpv now (.ofBuffer replicaExpression))
    | some range =>
      if range.bytes = [] then
        .ok (Replica.getReplicaPeer n.sha1 rpv now (.ofBuffer replicaExpression))
      else do
        let rge ← setRange (newEntry.nameSpace.map CString.bytes) (some key.bytes) range.bytes
        if isNumeric value.bytes then n.getNumericReplica rpv now rge value.bytes.tail
        else return (rpv, none)
  | _, _ => .error .nullPointer

/-! ## batches -/

/-- A vector of the peer table. -/
structure Batch where
  peer : Pve
  entries : List SRDIEntryElement

/-- An entry is put into the vector of its peer. -/
def addEntry (peersHash : AList fun _ : Pid => Batch) (peer : Pve) (entry : SRDIEntryElement) :
    AList fun _ : Pid => Batch :=
  match peersHash.lookup peer.pid with
  | some batch => peersHash.insert peer.pid { batch with entries := batch.entries ++ [entry] }
  | none => peersHash.insert peer.pid ⟨peer, [entry]⟩

/-- The loop of `replicateEntries`. `clock` is the time of each look at the view. -/
def entryLoop (clock : Nat → Nat) (jPeerId : Pid) : (i : Nat) → (rpv : Peerview) →
    (peersHash : AList fun _ : Pid => Batch) → List SRDIEntryElement →
    Exec (Peerview × AList fun _ : Pid => Batch)
  | _, rpv, peersHash, [] => .ok (rpv, peersHash)
  | i, rpv, peersHash, entry :: entries =>
    match n.newEntry jPeerId entry with
    | none => entryLoop clock jPeerId (i + 1) rpv peersHash entries
    | some newEntry => do
      match ← n.repPeer rpv (clock i) newEntry with
      | (rpv, none) => entryLoop clock jPeerId (i + 1) rpv peersHash entries
      | (rpv, some peer) =>
        let peersHash := addEntry peersHash peer { newEntry with seqNumber := 0 }
        entryLoop clock jPeerId (i + 1) rpv peersHash entries

/-- A message that is sent to a peer. -/
structure Sent where
  dest : Pid
  msg : SRDIMessage

/-- `forwardSrdiEntries`: nothing is sent to the local peer. -/
def forwardSrdiEntries (jKey : Option CString) (batch : Batch) : Exec (List Sent) :=
  if batch.peer.pid = n.peerID then .ok []
  else
    match jKey with
    | none => .error .nullPointer
    | some key =>
      let primaryKey := some (.ofBuffer (jstringTrim key.bytes))
      .ok [⟨batch.peer.pid, ⟨1, some n.peerID, primaryKey, batch.entries⟩⟩]

/-- A turn of the loop of `replicateEntries` over the keys of the table. -/
def forwardKey (jPkey : Option CString) (peersHash : AList fun _ : Pid => Batch) (pid : Pid) :
    Exec (List Sent) :=
  match peersHash.lookup pid with
  | none => .ok []
  | some batch => n.forwardSrdiEntries jPkey batch

/-- The loop of `replicateEntries` over the keys of the table. -/
def forwardLoop (jPkey : Option CString) (peersHash : AList fun _ : Pid => Batch) :
    List Pid → Exec (List Sent)
  | [] => .ok []
  | pid :: pids => do
    let sent ← n.forwardKey jPkey peersHash pid
    let rest ← forwardLoop jPkey peersHash pids
    return sent ++ rest

/-- `int` to `unsigned int`. -/
def toUnsigned (i : Int) : Nat := (i % (uintMod : Int)).toNat

/-- `replicateEntries`: the messages it sends. -/
def replicateEntries (clock : Nat → Nat) (rpv : Peerview) (srdiMsg : SRDIMessage) :
    Exec (List Sent) :=
  match srdiMsg.peerID with
  | none => .error .nullPointer
  | some jPeerId =>
    let (rpv, localView) := rpv.getLocalview (clock 0)
    if srdiMsg.ttl < 1 ∨ n.isRendezvous = false ∨
        localView.length < toUnsigned n.replicationThreshold then .ok []
    else do
      let (_, peersHash) ← n.entryLoop clock jPeerId 1 rpv ∅ srdiMsg.entries
      n.forwardLoop srdiMsg.primaryKey peersHash (n.hashOrder peersHash.keys)

end Replicator

end JxtaC.SrdiService
