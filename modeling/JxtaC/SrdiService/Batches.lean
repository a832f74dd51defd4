import JxtaC.SrdiService.Replicate

/-
  The batches of a replication. `destined` is what `getReplicaPeer` and `getNumericReplica` return
  for the entries of a message one after the other, without the table of the peers; the table is its
  list by peers (`Batched`), and so are the messages, but for the local peer
  (`replicateEntries_replicates`).
-/

namespace JxtaC.SrdiService.Replicator

open Lib List

/-! ## the claim of the replication -/

/-- An entry for the peer that it is replicated to. -/
abbrev Destined : Type := Pve × SRDIEntryElement

/-- The entries for a peer, in their order. -/
def entriesFor (destined : List Destined) (pid : Pid) : List SRDIEntryElement :=
  (destined.filter fun x => x.1.pid = pid).map Prod.snd

/-- Every peer to be served is sent one message, with its entries in their order. -/
structure Replicates (served : Pid → Prop) (destined : List Destined) (sent : List Sent) :
    Prop where
  once : (sent.map Sent.dest).Nodup
  entries : ∀ s ∈ sent, s.msg.entries = entriesFor destined s.dest ∧ s.msg.entries ≠ []
  only : ∀ s ∈ sent, served s.dest
  complete : ∀ x ∈ destined, served x.1.pid → ∃ s ∈ sent, s.dest = x.1.pid

section Claim
variable (n : Replicator) (clock : Nat → Nat)

/-- The entries that have a replica peer, with it: those with a value, and those that the cache has
    by their number. -/
def destined (jPeerId : Pid) : (i : Nat) → (rpv : Peerview) → List SRDIEntryElement →
    Exec (Peerview × List Destined)
  | _, rpv, [] => .ok (rpv, [])
  | i, rpv, entry :: entries =>
    match n.newEntry jPeerId entry with
    | none => destined jPeerId (i + 1) rpv entries
    | some newEntry => do
      match ← n.repPeer rpv (clock i) newEntry with
      | (rpv, none) => destined jPeerId (i + 1) rpv entries
      | (rpv, some peer) =>
        let (rpv, rest) ← destined jPeerId (i + 1) rpv entries
        return (rpv, (peer, { newEntry with seqNumber := 0 }) :: rest)

/-- Replication applies. -/
def Applies (rpv : Peerview) (srdiMsg : SRDIMessage) : Prop :=
  1 ≤ srdiMsg.ttl ∧ n.isRendezvous = true ∧
    toUnsigned n.replicationThreshold ≤ (rpv.getLocalview (clock 0)).2.length

instance (rpv : Peerview) (srdiMsg : SRDIMessage) : Decidable (n.Applies clock rpv srdiMsg) :=
  inferInstanceAs (Decidable (_ ∧ _ ∧ _))

/-- Where replication applies, the peers to be served are sent the entries that are for them;
    otherwise nothing is sent. -/
def Replicated (served : Pid → Prop) (rpv : Peerview) (srdiMsg : SRDIMessage) (sent : List Sent) :
    Prop :=
  if n.Applies clock rpv srdiMsg then
    ∃ jPeerId rpv' d, srdiMsg.peerID = some jPeerId ∧
      n.destined clock jPeerId 1 (rpv.getLocalview (clock 0)).1 srdiMsg.entries = .ok (rpv', d) ∧
      Replicates served d sent
  else sent = []

/-- An entry has a key and a value, and its range can be set; the range of a number is one. -/
def Selectable (entry : SRDIEntryElement) : Prop :=
  ∃ key value, entry.key = some key ∧ entry.value = some value ∧
    ∀ range, entry.range = some range → range.bytes ≠ [] →
      ∃ rge, setRange (entry.nameSpace.map CString.bytes) (some key.bytes) range.bytes = .ok rge ∧
        (isNumeric value.bytes = true → rge.range.isSome = true)

/-- The message has the id of a peer and a primary key, and every entry that the loop goes on with
    can be given a replica. -/
def Sound (srdiMsg : SRDIMessage) : Prop :=
  ∃ jPeerId, srdiMsg.peerID = some jPeerId ∧ srdiMsg.primaryKey.isSome = true ∧
    ∀ entry ∈ srdiMsg.entries, ∀ e, n.newEntry jPeerId entry = some e → Selectable e

end Claim

/-! ## the table -/

/-- The table has the entries of every peer, under its id. -/
structure Batched (peersHash : AList fun _ : Pid => Batch) (destined : List Destined) : Prop where
  batch : ∀ pid b, peersHash.lookup pid = some b →
    b.peer.pid = pid ∧ b.entries = entriesFor destined pid ∧ b.entries ≠ []
  complete : ∀ x ∈ destined, ∃ b, peersHash.lookup x.1.pid = some b

section Table
variable {peersHash : AList fun _ : Pid => Batch} {d : List Destined}

theorem batched_empty : Batched (∅ : AList fun _ : Pid => Batch) [] := by
  refine ⟨fun pid b h => ?_, fun x hx => absurd hx not_mem_nil⟩
  rw [AList.lookup_empty] at h
  cases h

theorem entriesFor_append (d : List Destined) (x : Destined) (pid : Pid) :
    entriesFor (d ++ [x]) pid =
      entriesFor d pid ++ if x.1.pid = pid then [x.2] else [] := by
  unfold entriesFor
  rw [filter_append, map_append]
  by_cases h : x.1.pid = pid
  · rw [if_pos h]
    simp [h]
  · rw [if_neg h]
    simp [h]

theorem entriesFor_eq_nil {pid : Pid} (h : ∀ x ∈ d, x.1.pid ≠ pid) : entriesFor d pid = [] := by
  unfold entriesFor
  rw [filter_eq_nil_iff.mpr]
  · rfl
  · intro x hx
    simpa using h x hx

/-- An entry more is one more in the batch of its peer. -/
theorem Batched.add (h : Batched peersHash d) (peer : Pve) (entry : SRDIEntryElement) :
    Batched (addEntry peersHash peer entry) (d ++ [(peer, entry)]) := by
  obtain ⟨new, hadd, hpid, hentries⟩ : ∃ new : Batch,
      addEntry peersHash peer entry = peersHash.insert peer.pid new ∧ new.peer.pid = peer.pid ∧
        new.entries = entriesFor d peer.pid ++ [entry] := by
    unfold addEntry
    cases hlookup : peersHash.lookup peer.pid with
    | some batch =>
      obtain ⟨hpid, hentries, -⟩ := h.batch peer.pid batch hlookup
      exact ⟨_, rfl, hpid, congrArg (· ++ [entry]) hentries⟩
    | none =>
      refine ⟨_, rfl, rfl, ?_⟩
      rw [entriesFor_eq_nil]
      · rfl
      · intro x hx heq
        obtain ⟨b, hb⟩ := h.complete x hx
        rw [heq, hlookup] at hb
        cases hb
  rw [hadd]
  refine ⟨fun pid b hb => ?_, fun x hx => ?_⟩
  · rw [entriesFor_append]
    by_cases hkey : pid = peer.pid
    · subst hkey
      rw [AList.lookup_insert] at hb
      cases hb
      rw [if_pos rfl, hentries]
      exact ⟨hpid, rfl, by simp⟩
    · rw [AList.lookup_insert_ne hkey] at hb
      rw [if_neg fun heq => hkey heq.symm, append_nil]
      exact h.batch pid b hb
  · by_cases hkey : x.1.pid = peer.pid
    · exact ⟨new, by rw [hkey, AList.lookup_insert]⟩
    · rw [AList.lookup_insert_ne hkey]
      rcases mem_append.mp hx with hx | hx
      · exact h.complete x hx
      · exact absurd (congrArg (fun x => x.1.pid) (mem_singleton.mp hx)) hkey

theorem Batched.foldl (h : Batched peersHash d) (rest : List Destined) :
    Batched (rest.foldl (fun t x => addEntry t x.1 x.2) peersHash) (d ++ rest) := by
  induction rest generalizing peersHash d with
  | nil =>
    rw [append_nil]
    exact h
  | cons x rest ih =>
    rw [append_cons]
    exact ih (h.add x.1 x.2)

/-- The loop of the entries puts what is destined for a peer into the table. -/
theorem entryLoop_eq (n : Replicator) (clock : Nat → Nat) (jPeerId : Pid)
    (entries : List SRDIEntryElement) (i : Nat) (rpv : Peerview)
    (peersHash : AList fun _ : Pid => Batch) :
    n.entryLoop clock jPeerId i rpv peersHash entries =
      n.destined clock jPeerId i rpv entries >>= fun p =>
        .ok (p.1, p.2.foldl (fun t x => addEntry t x.1 x.2) peersHash) := by
  induction entries generalizing i rpv peersHash with
  | nil => rfl
  | cons entry entries ih =>
    unfold entryLoop destined
    cases n.newEntry jPeerId entry with
    | none => exact ih (i + 1) rpv peersHash
    | some newEntry =>
      dsimp only
      cases n.repPeer rpv (clock i) newEntry with
      | error e => rfl
      | ok p =>
        rw [ok_bind, ok_bind]
        rcases p with ⟨rpv, peer⟩
        cases peer with
        | none => exact ih (i + 1) rpv peersHash
        | some peer =>
          dsimp only
          rw [ih]
          cases n.destined clock jPeerId (i + 1) rpv entries with
          | error e => rfl
          | ok p => rfl

end Table

/-! ## the messages -/

section Messages
variable (n : Replicator) {peersHash : AList fun _ : Pid => Batch} {d : List Destined}

/-- The message of a batch. -/
def messageOf (key : CString) (b : Batch) : Sent :=
  ⟨b.peer.pid, ⟨1, some n.peerID, some (.ofBuffer (jstringTrim key.bytes)), b.entries⟩⟩

theorem forwardSrdiEntries_cases {jKey : Option CString} {b : Batch} {sent : List Sent}
    (h : n.forwardSrdiEntries jKey b = .ok sent) :
    (b.peer.pid = n.peerID ∧ sent = []) ∨
      (b.peer.pid ≠ n.peerID ∧ ∃ key, jKey = some key ∧ sent = [n.messageOf key b]) := by
  unfold forwardSrdiEntries at h
  by_cases hself : b.peer.pid = n.peerID
  · rw [if_pos hself] at h
    exact .inl ⟨hself, (Except.ok.inj h).symm⟩
  · rw [if_neg hself] at h
    cases jKey with
    | none => cases h
    | some key => exact .inr ⟨hself, key, rfl, (Except.ok.inj h).symm⟩

/-- The messages of a list of keys: one for each of its batches, but for the local peer's. -/
theorem forwardLoop_replicates (hbatched : Batched peersHash d) {jPkey : Option CString}
    {pids : List Pid} (hnodup : pids.Nodup) (hkeys : ∀ pid ∈ pids, pid ∈ peersHash.keys)
    {sent : List Sent} (h : n.forwardLoop jPkey peersHash pids = .ok sent) :
    (sent.map Sent.dest) = pids.filter (· ≠ n.peerID) ∧
      ∀ s ∈ sent, s.msg.entries = entriesFor d s.dest ∧ s.msg.entries ≠ [] := by
  induction pids generalizing sent with
  | nil =>
    cases h
    exact ⟨rfl, fun s hs => absurd hs not_mem_nil⟩
  | cons pid pids ih =>
    obtain ⟨b, hb⟩ := Option.isSome_iff_exists.mp
      (AList.lookup_isSome.mpr (AList.mem_keys.mpr (hkeys pid mem_cons_self)))
    obtain ⟨hpid, hentries, hne⟩ := hbatched.batch pid b hb
    unfold forwardLoop forwardKey at h
    rw [hb] at h
    obtain ⟨first, hfirst, h⟩ := bind_eq_ok.mp h
    obtain ⟨rest, hrest, h⟩ := bind_eq_ok.mp h
    cases h
    obtain ⟨hdests, hmessages⟩ := ih (nodup_cons.mp hnodup).2
      (fun pid hmem => hkeys pid (mem_cons_of_mem _ hmem)) hrest
    rcases n.forwardSrdiEntries_cases hfirst with ⟨hself, rfl⟩ | ⟨hother, key, -, rfl⟩
    · rw [hpid] at hself
      rw [filter_cons_of_neg (by simpa using hself), nil_append]
      exact ⟨hdests, hmessages⟩
    · rw [hpid] at hother
      rw [filter_cons_of_pos (by simpa using hother), map_append, hdests]
      refine ⟨congrArg (· :: _) hpid, fun s hs => ?_⟩
      rcases mem_append.mp hs with hs | hs
      · obtain rfl := mem_singleton.mp hs
        refine ⟨?_, hne⟩
        show b.entries = entriesFor d b.peer.pid
        rw [hpid]
        exact hentries
      · exact hmessages s hs

theorem forwardLoop_ok {jPkey : Option CString} (hkey : jPkey.isSome = true) (pids : List Pid) :
    ∃ sent, n.forwardLoop jPkey peersHash pids = .ok sent := by
  obtain ⟨key, rfl⟩ := Option.isSome_iff_exists.mp hkey
  have hforward : ∀ b, ∃ sent, n.forwardSrdiEntries (some key) b = .ok sent := by
    intro b
    unfold forwardSrdiEntries
    split
    · exact ⟨_, rfl⟩
    · exact ⟨_, rfl⟩
  induction pids with
  | nil => exact ⟨[], rfl⟩
  | cons pid pids ih =>
    obtain ⟨rest, hrest⟩ := ih
    unfold forwardLoop forwardKey
    rw [hrest]
    cases peersHash.lookup pid with
    | none => exact ⟨_, rfl⟩
    | some b =>
      obtain ⟨first, hfirst⟩ := hforward b
      dsimp only
      rw [hfirst]
      exact ⟨_, rfl⟩

/-- A replica is selected for a selectable entry. -/
theorem repPeer_ok {e : SRDIEntryElement} (h : Selectable e) (rpv : Peerview) (now : Nat) :
    ∃ p, n.repPeer rpv now e = .ok p := by
  obtain ⟨key, value, hkey, hvalue, hrange⟩ := h
  unfold repPeer
  rw [hkey, hvalue]
  cases hr : e.range with
  | none => exact ⟨_, rfl⟩
  | some range =>
    dsimp only
    by_cases hempty : range.bytes = []
    · rw [if_pos hempty]
      exact ⟨_, rfl⟩
    · rw [if_neg hempty]
      obtain ⟨rge, hrge, hset⟩ := hrange range hr hempty
      rw [hrge, ok_bind]
      by_cases hnumeric : isNumeric value.bytes = true
      · rw [if_pos hnumeric]
        obtain ⟨numbers, hnumbers⟩ := Option.isSome_iff_exists.mp (hset hnumeric)
        unfold getNumericReplica
        dsimp only
        split
        · exact ⟨_, rfl⟩
        · rw [hnumbers]
          exact ⟨_, rfl⟩
      · rw [if_neg hnumeric]
        exact ⟨_, rfl⟩

theorem destined_ok (clock : Nat → Nat) (jPeerId : Pid) (entries : List SRDIEntryElement)
    (hsound : ∀ entry ∈ entries, ∀ e, n.newEntry jPeerId entry = some e → Selectable e) (i : Nat)
    (rpv : Peerview) : ∃ p, n.destined clock jPeerId i rpv entries = .ok p := by
  induction entries generalizing i rpv with
  | nil => exact ⟨_, rfl⟩
  | cons entry entries ih =>
    have hrest := ih fun entry hmem => hsound entry (mem_cons_of_mem _ hmem)
    unfold destined
    cases hnew : n.newEntry jPeerId entry with
    | none => exact hrest (i + 1) rpv
    | some e =>
      obtain ⟨⟨rpv', peer⟩, hpeer⟩ :=
        n.repPeer_ok (hsound entry mem_cons_self e hnew) rpv (clock i)
      dsimp only
      rw [hpeer, ok_bind]
      cases peer with
      | none => exact hrest (i + 1) rpv'
      | some peer =>
        obtain ⟨p, hp⟩ := hrest (i + 1) rpv'
        dsimp only
        rw [hp]
        exact ⟨_, rfl⟩

theorem applies_iff (clock : Nat → Nat) (rpv : Peerview) (srdiMsg : SRDIMessage) :
    n.Applies clock rpv srdiMsg ↔ ¬(srdiMsg.ttl < 1 ∨ n.isRendezvous = false ∨
      (rpv.getLocalview (clock 0)).2.length < toUnsigned n.replicationThreshold) := by
  unfold Applies
  rw [not_or, not_or, Int.not_lt, Bool.not_eq_false, Nat.not_lt]

end Messages

/-! ## an entry of the local peer -/

/-- One of the two rendezvous peers `a` and `b`; the digests are 0. -/
def rendezvousA : Replicator where
  isRendezvous := true
  replicationThreshold := 1
  noRange := false
  peerID := text "a"
  sha1 _ _ := 0
  position _ _ _ segments := segments - 1
  cm _ _ entry := (.itemNotfound, entry)
  hashOrder pids := pids
  hashOrder_perm _ := .refl _

/-- The entry of an attribute, and one of a number in a range. -/
def attributeEntry : SRDIEntryElement :=
  ⟨7200000, some (.ofBuffer (text "Name")), some (.ofBuffer (text "printer")),
    some (.ofBuffer (text "jxta:PA")), none, none, 0, false⟩

def numberEntry : SRDIEntryElement :=
  ⟨7200000, some (.ofBuffer (text "Pages")), some (.ofBuffer (text "#7")),
    some (.ofBuffer (text "jxta:PA")), none, some (.ofBuffer (text "(0::9)")), 0, false⟩

/-- A message of these entries. -/
def messageFrom (entries : List SRDIEntryElement) : SRDIMessage :=
  ⟨1, some (text "c"), some (.ofBuffer (text "Adv")), entries⟩

end JxtaC.SrdiService.Replicator
