import JxtaC.RelayStore
import Mathlib.Data.List.Perm.Subperm

/-
  The store of a lease as a list. `Holds` relates a lease to the entries its circular list holds,
  from the head on. A put appends an entry; a pass of `relay_send_all_messages_1` leaves `Pass.kept`
  of the entries it visits, and makes the sends `Pass.sends`; it visits all but the head, or the head
  if it is alone (`visited`).
-/

namespace JxtaC.RelayLease

open Lib List

variable {Msg : Type} {lease : RelayLease Msg}
variable (visit : Nat → Visit) (now : Nat → Nat)

/-- A stored message and its address. -/
structure Entry (Msg : Type) where
  address : Nat
  stored : StoredMessage Msg

/-- The lease holds these entries, in the order in which they were stored. -/
structure Holds (lease : RelayLease Msg) (entries : List (Entry Msg)) : Prop where
  circle : lease.links.Circle (entries.map Entry.address)
  head : lease.storedMessages = (entries.map Entry.address).head?
  message : ∀ e ∈ entries, lease.message e.address = some e.stored
  fresh : ∀ e ∈ entries, e.address < lease.fresh
  ascending : (entries.map Entry.address).Pairwise (· < ·)
  total : lease.totalStored = entries.length

theorem holds_new : Holds (new : RelayLease Msg) [] :=
  ⟨trivial, rfl, fun _ h => absurd h not_mem_nil, fun _ h => absurd h not_mem_nil,
    List.Pairwise.nil, rfl⟩

variable {entries : List (Entry Msg)}

theorem Holds.nodup (h : Holds lease entries) : (entries.map Entry.address).Nodup :=
  h.ascending.imp fun hlt => Nat.ne_of_lt hlt

/-- Only the number of failed sends and the flag are not read back from the entries. -/
theorem Holds.congr {lease' : RelayLease Msg} (h : Holds lease entries)
    (hlinks : lease'.links = lease.links) (hmessage : lease'.message = lease.message)
    (hhead : lease'.storedMessages = lease.storedMessages)
    (htotal : lease'.totalStored = lease.totalStored) (hfresh : lease'.fresh = lease.fresh) :
    Holds lease' entries :=
  ⟨hlinks ▸ h.circle, hhead ▸ h.head, hmessage ▸ h.message, hfresh ▸ h.fresh, h.ascending,
    htotal ▸ h.total⟩

/-! ## contents -/

theorem nodesFrom_way {links : Links} {h x : Nat} {l : List Nat} (hway : links.Way x l h)
    (hne : ∀ n ∈ l, n ≠ h) (nodes : Nat) (hn : l.length < nodes) :
    nodesFrom links h nodes x = x :: l := by
  induction l generalizing x nodes with
  | nil =>
    cases nodes with
    | zero => exact absurd hn (Nat.not_lt_zero _)
    | succ nodes =>
      unfold nodesFrom
      rw [if_pos hway.1]
  | cons z l ih =>
    cases nodes with
    | zero => exact absurd hn (Nat.not_lt_zero _)
    | succ nodes =>
      obtain ⟨hr, -, hrest⟩ := hway
      have hz : ¬links.right x = h := hr ▸ hne z mem_cons_self
      unfold nodesFrom
      rw [if_neg hz, hr, ih hrest (fun n hmem => hne n (mem_cons_of_mem _ hmem)) nodes
        (Nat.lt_of_succ_lt_succ hn)]

theorem length_le_of_ascending {l : List Nat} {n : Nat} (h : l.Pairwise (· < ·))
    (hlt : ∀ a ∈ l, a < n) : l.length ≤ n := by
  have hsub : l ⊆ List.range n := fun a ha => mem_range.mpr (hlt a ha)
  have hle := (subperm_of_subset (h.imp fun hlt => Nat.ne_of_lt hlt) hsub).length_le
  rw [length_range] at hle
  exact hle

theorem Holds.length_le (h : Holds lease entries) : entries.length ≤ lease.fresh := by
  have hle := length_le_of_ascending (n := lease.fresh) h.ascending fun a ha => by
    obtain ⟨e, he, rfl⟩ := mem_map.mp ha
    exact h.fresh e he
  rw [length_map] at hle
  exact hle

/-- Following the pointers from the head finds the entries. -/
theorem Holds.contents (h : Holds lease entries) : lease.contents = entries.map Entry.address := by
  have hlen := h.length_le
  have hcircle := h.circle
  have hhead := h.head
  unfold RelayLease.contents
  cases entries with
  | nil =>
    rw [hhead]
    rfl
  | cons e entries =>
    rw [map_cons, Links.circle_cons] at hcircle
    rw [hhead]
    obtain ⟨hnodup, hway⟩ := hcircle
    have hne : ∀ n ∈ entries.map Entry.address, n ≠ e.address := by
      rintro n hn rfl
      exact (nodup_cons.mp hnodup).1 hn
    refine nodesFrom_way hway hne lease.fresh ?_
    rw [length_map]
    exact hlen

/-! ## storing -/

/-- The lease with one more stored message, at the end of its list. -/
def push (lease : RelayLease Msg) (stored : StoredMessage Msg) : RelayLease Msg :=
  let (links, head) := lease.links.addLast lease.fresh lease.storedMessages
  { lease with
    links
    message := Function.update lease.message lease.fresh (some stored)
    storedMessages := some head
    totalStored := lease.totalStored + 1
    messagesNewAdditions := true
    fresh := lease.fresh + 1 }

theorem Holds.push (h : Holds lease entries) (stored : StoredMessage Msg) :
    Holds (lease.push stored) (entries ++ [⟨lease.fresh, stored⟩]) := by
  have hnew : lease.fresh ∉ entries.map Entry.address := by
    intro hmem
    obtain ⟨e, he, heq⟩ := mem_map.mp hmem
    exact absurd heq (Nat.ne_of_lt (h.fresh e he))
  obtain ⟨hcircle, hhead⟩ := Links.circle_addLast h.circle hnew
  rw [← h.head] at hcircle hhead
  unfold RelayLease.push
  refine ⟨?_, ?_, fun e he => ?_, fun e he => ?_, ?_, ?_⟩
  · rw [map_append]
    exact hcircle
  · rw [map_append]
    exact hhead.symm
  · rcases mem_append.mp he with he | he
    · have hne : e.address ≠ lease.fresh := Nat.ne_of_lt (h.fresh e he)
      dsimp only
      rw [Function.update_of_ne hne]
      exact h.message e he
    · rw [mem_singleton.mp he]
      exact Function.update_self ..
  · rcases mem_append.mp he with he | he
    · exact Nat.lt_succ_of_lt (h.fresh e he)
    · rw [mem_singleton.mp he]
      exact Nat.lt_succ_self _
  · rw [map_append, pairwise_append]
    refine ⟨h.ascending, pairwise_singleton _ _, fun a ha b hb => ?_⟩
    obtain ⟨e, he, rfl⟩ := mem_map.mp ha
    rw [mem_singleton.mp hb]
    exact h.fresh e he
  · dsimp only
    rw [h.total, length_append, length_singleton]
    omega

theorem Holds.put (h : Holds lease entries) (msg : Msg) (now : Nat) :
    Holds (lease.archivePutMessage1 msg now).1
      (if lease.totalStored > maxNumberMessagesPerClient then entries
        else entries ++ [⟨lease.fresh, msg, now, defaultMessageStorageInterval⟩]) := by
  unfold archivePutMessage1
  by_cases hfull : lease.totalStored > maxNumberMessagesPerClient
  · rw [if_pos hfull, if_pos hfull]
    exact h
  · rw [if_neg hfull, if_neg hfull]
    exact h.push ⟨msg, now, defaultMessageStorageInterval⟩

/-! ## taking out -/

variable {u v : List (Entry Msg)} {e : Entry Msg}

theorem Holds.removeMessage (h : Holds lease (u ++ e :: v)) :
    Holds (lease.removeMessage e.address) (u ++ v) := by
  have hcircle := h.circle
  have hnodup := h.nodup
  rw [map_append, map_cons] at hcircle hnodup
  obtain ⟨hcircle', hhead⟩ := Links.circle_remove hcircle
  rw [← map_cons, ← map_append, ← h.head] at hcircle' hhead
  have hsub : (u ++ v).Sublist (u ++ e :: v) := (sublist_cons_self e v).append_left u
  unfold RelayLease.removeMessage
  refine ⟨?_, ?_, fun f hf => ?_, fun f hf => h.fresh f (hsub.subset hf), ?_, ?_⟩
  · rw [map_append]
    exact hcircle'
  · rw [map_append]
    exact hhead
  · have hne : f.address ≠ e.address := by
      intro heq
      have hmem : e.address ∈ u.map Entry.address ++ v.map Entry.address := by
        rw [← heq, ← map_append]
        exact mem_map_of_mem hf
      exact (nodup_middle.mp hnodup).notMem hmem
    dsimp only
    rw [Function.update_of_ne hne]
    exact h.message f (hsub.subset hf)
  · exact h.ascending.sublist (hsub.map _)
  · dsimp only
    rw [h.total, length_append, length_append, length_cons]
    omega

/-! ## a pass -/

/-- What a visit comes to. -/
inductive Outcome where
  | expired
  | unavailable
  | sent
  | refused
  deriving DecidableEq

def outcome (visit : Nat → Visit) (e : Entry Msg) : Outcome :=
  let v := visit e.address
  if e.stored.hasExpired v.now then .expired
  else if !v.messenger then .unavailable
  else if v.send = .success then .sent
  else .refused

/-- The entries that a pass visits, in this order. -/
def visited : List (Entry Msg) → List (Entry Msg)
  | _ :: e :: entries => e :: entries
  | entries => entries

/-- What a pass leaves of the entries it visits, `delete` being the flag of the loop. -/
def kept (out : Entry Msg → Outcome) : (delete : Bool) → List (Entry Msg) → List (Entry Msg)
  | _, [] => []
  | delete, e :: entries =>
    match out e with
    | .expired | .sent => kept out true entries
    | .refused => if delete then kept out true entries else e :: kept out false entries
    | .unavailable => if delete then entries else e :: entries

/-- The entries that a pass sends, or tries to. -/
def offered (out : Entry Msg → Outcome) : List (Entry Msg) → List (Entry Msg)
  | [] => []
  | e :: entries =>
    match out e with
    | .expired => offered out entries
    | .sent | .refused => e :: offered out entries
    | .unavailable => []

/-- What a pass leaves of the store. -/
def afterPass (out : Entry Msg → Outcome) : List (Entry Msg) → List (Entry Msg)
  | h :: e :: entries => h :: kept out false (e :: entries)
  | entries => kept out false entries

/-- The sends of a pass. -/
def passSends (visit : Nat → Visit) (entries : List (Entry Msg)) : List (Nat × Status) :=
  (offered (outcome visit) entries).map fun e => (e.address, (visit e.address).send)

def Outcome.removes : Outcome → Bool
  | .expired | .sent => true
  | .unavailable | .refused => false

def Outcome.offers : Outcome → Bool
  | .sent | .refused => true
  | .expired | .unavailable => false

attribute [simp] Outcome.removes Outcome.offers

theorem Holds.right (h : Holds lease (u ++ e :: v)) :
    lease.links.right e.address = ((v ++ u).map Entry.address).headD e.address := by
  have hcircle := h.circle
  rw [map_append, map_cons] at hcircle
  rw [hcircle.right_eq, map_append]

/-- The flags, the sends and the lease after a message had its turn. -/
structure Turned (visit : Nat → Visit) (s s' : Sending Msg) (u v : List (Entry Msg))
    (e : Entry Msg) : Prop where
  next : s'.next = ((v ++ u).map Entry.address).headD e.address
  keepSending : s'.keepSending = (s.keepSending && outcome visit e ≠ .unavailable)
  deleteMessage : s'.deleteMessage = (s.deleteMessage || (outcome visit e).removes)
  sends : s'.sends = s.sends ++
    if (outcome visit e).offers then [(e.address, (visit e.address).send)] else []
  holds : Holds s'.lease (if s'.deleteMessage then u ++ v else u ++ e :: v)

/-- The part of a turn before the message may be taken out. -/
theorem offer_spec (s : Sending Msg) (e : Entry Msg)
    (hexp : e.stored.hasExpired (visit e.address).now = false) :
    let s' := s.offer e.address (visit e.address)
    s'.keepSending = (s.keepSending && outcome visit e ≠ .unavailable) ∧
      s'.deleteMessage = (s.deleteMessage || (outcome visit e).removes) ∧
      s'.sends = s.sends ++ (if (outcome visit e).offers then
        [(e.address, (visit e.address).send)] else []) ∧
      s'.lease.links = s.lease.links ∧ s'.lease.message = s.lease.message ∧
      s'.lease.storedMessages = s.lease.storedMessages ∧
      s'.lease.totalStored = s.lease.totalStored ∧ s'.lease.fresh = s.lease.fresh := by
  unfold Sending.offer outcome
  simp only [hexp, Bool.false_eq_true, if_false]
  cases (visit e.address).messenger with
  | false => simp
  | true =>
    by_cases hs : (visit e.address).send = .success
    · simp [hs]
    · simp [hs]

theorem turn_spec {s : Sending Msg} (h : Holds s.lease (u ++ e :: v)) (hnext : s.next = e.address) :
    ∃ s', s.turn visit = .ok s' ∧ Turned visit s s' u v e := by
  have hmem : e ∈ u ++ e :: v := mem_append_right _ mem_cons_self
  have hmessage := h.message e hmem
  have hright := h.right
  unfold Sending.turn
  rw [hnext]
  dsimp only
  rw [hmessage, hright]
  dsimp only
  cases hexp : e.stored.hasExpired (visit e.address).now with
  | true =>
    have hout : outcome visit e = .expired := by
      unfold outcome
      dsimp only
      rw [hexp]
      rfl
    refine ⟨_, rfl, ?_⟩
    simp only [if_true]
    refine ⟨rfl, ?_, ?_, ?_, ?_⟩
    · simp [hout]
    · simp [hout]
    · simp [hout]
    · simp only [if_true]
      exact h.removeMessage
  | false =>
    obtain ⟨hkeep, hdelete, hsends, hl, hm, hh, ht, hf⟩ := offer_spec visit s e hexp
    refine ⟨_, rfl, ?_⟩
    simp only [Bool.false_eq_true, if_false]
    have hoffer : Holds (s.offer e.address (visit e.address)).lease (u ++ e :: v) :=
      h.congr hl hm hh ht hf
    refine ⟨rfl, hkeep, hdelete, hsends, ?_⟩
    cases (s.offer e.address (visit e.address)).deleteMessage with
    | true => exact hoffer.removeMessage
    | false => exact hoffer

/-- The loop, from a message on: what it keeps of the messages it still visits, and its sends. -/
theorem sendLoop_spec (h : Entry Msg) (v : List (Entry Msg)) :
    ∀ (pre : List (Entry Msg)) (e : Entry Msg) (s : Sending Msg) (turns : Nat),
      Holds s.lease (h :: pre ++ e :: v) → s.next = e.address → s.keepSending = true →
        v.length < turns →
          ∃ s', sendLoop visit h.address turns s = .ok s' ∧
            Holds s'.lease (h :: pre ++ kept (outcome visit) s.deleteMessage (e :: v)) ∧
            s'.sends = s.sends ++ passSends visit (e :: v) := by
  induction v with
  | nil =>
    intro pre e s turns hholds hnext hkeep hturns
    obtain ⟨turns, rfl⟩ : ∃ n, turns = n + 1 := ⟨turns - 1, by omega⟩
    obtain ⟨s', hturn, hspec⟩ := turn_spec visit hholds hnext
    have hend : s'.next = h.address := hspec.next
    refine ⟨s', ?_, ?_, ?_⟩
    · unfold sendLoop
      rw [hturn, ok_bind, if_neg (fun hgo => hgo.2 hend.symm)]
      rfl
    · have hh := hspec.holds
      rw [hspec.deleteMessage] at hh
      unfold kept
      cases hout : outcome visit e <;> cases hd : s.deleteMessage <;>
        simpa [hout, hd, kept] using hh
    · rw [hspec.sends]
      unfold passSends offered
      cases hout : outcome visit e <;> simp [offered]
  | cons f v ih =>
    intro pre e s turns hholds hnext hkeep hturns
    obtain ⟨turns, rfl⟩ : ∃ n, turns = n + 1 := ⟨turns - 1, by omega⟩
    obtain ⟨s', hturn, hspec⟩ := turn_spec visit hholds hnext
    have hnext' : s'.next = f.address := hspec.next
    have hne : h.address ≠ f.address := by
      have hnodup := hholds.nodup
      rw [cons_append, map_cons, nodup_cons] at hnodup
      intro heq
      apply hnodup.1
      rw [heq]
      exact mem_map_of_mem (mem_append_right _
        (mem_cons_of_mem _ mem_cons_self))
    have hholds' := hspec.holds
    have hsends' := hspec.sends
    have hkeep' := hspec.keepSending
    have hdelete' := hspec.deleteMessage
    rw [hkeep, Bool.true_and] at hkeep'
    have hlen : v.length < turns := by
      rw [length_cons] at hturns
      omega
    unfold sendLoop
    rw [hturn, ok_bind]
    by_cases hun : outcome visit e = .unavailable
    · have hstop : s'.keepSending = false := by simp [hkeep', hun]
      rw [hun] at hdelete' hsends'
      refine ⟨s', ?_, ?_, ?_⟩
      · rw [if_neg (by simp [hstop])]
        rfl
      · rw [hdelete'] at hholds'
        unfold kept
        rw [hun]
        cases hd : s.deleteMessage <;> simpa [hd] using hholds'
      · rw [hsends']
        unfold passSends offered
        rw [hun]
        rfl
    · have hgo : s'.keepSending = true := by simp [hkeep', hun]
      rw [if_pos ⟨hgo, hnext'.symm ▸ hne⟩]
      cases hd' : s'.deleteMessage with
      | true =>
        rw [hd', if_pos rfl] at hholds'
        obtain ⟨s'', hloop, hh, hsends⟩ := ih pre f s' turns hholds' hnext' hgo hlen
        refine ⟨s'', hloop, ?_, ?_⟩
        · rw [hd'] at hh hdelete'
          unfold kept
          cases hout : outcome visit e with
          | unavailable => exact absurd hout hun
          | expired => exact hh
          | sent => exact hh
          | refused =>
            have hd : s.deleteMessage = true := by simpa [hout] using hdelete'.symm
            simpa [hd] using hh
        · rw [hsends, hsends']
          conv => rhs; unfold passSends offered
          cases hout : outcome visit e with
          | unavailable => exact absurd hout hun
          | expired => simp [passSends]
          | sent => simp [passSends]
          | refused => simp [passSends]
      | false =>
        rw [hd', if_neg Bool.false_ne_true] at hholds'
        have hsplit : h :: pre ++ e :: f :: v = h :: (pre ++ [e]) ++ f :: v := by simp
        rw [hsplit] at hholds'
        obtain ⟨s'', hloop, hh, hsends⟩ := ih (pre ++ [e]) f s' turns hholds' hnext' hgo hlen
        rw [hd'] at hh hdelete'
        have hout : outcome visit e = .refused := by
          cases hout : outcome visit e with
          | unavailable => exact absurd hout hun
          | expired => simp [hout] at hdelete'
          | sent => simp [hout] at hdelete'
          | refused => rfl
        have hd : s.deleteMessage = false := by simpa [hout] using hdelete'.symm
        refine ⟨s'', hloop, ?_, ?_⟩
        · unfold kept
          rw [hout, hd]
          simpa using hh
        · rw [hsends, hsends']
          conv => rhs; unfold passSends offered
          rw [hout]
          simp [passSends]

/-- `relay_send_all_messages_1` returns, and comes to a pass over the entries. -/
theorem relaySendAllMessages1_spec (h : Holds lease entries) :
    ∃ lease', lease.relaySendAllMessages1 visit =
        .ok (lease', passSends visit (visited entries), .success) ∧
      Holds lease' (afterPass (outcome visit) entries) := by
  have hlen := h.length_le
  unfold relaySendAllMessages1
  rcases entries with _ | ⟨a, _ | ⟨b, rest⟩⟩
  · have hhead : lease.storedMessages = none := h.head
    rw [hhead]
    exact ⟨lease, rfl, h⟩
  · -- the head is alone, and the first message the loop comes to
    have hhead : lease.storedMessages = some a.address := h.head
    rw [hhead]
    have hnext : lease.links.right a.address = a.address := h.right (u := []) (v := [])
    obtain ⟨turns, hturns⟩ : ∃ n, lease.fresh = n + 1 :=
      ⟨lease.fresh - 1, by rw [length_singleton] at hlen; omega⟩
    obtain ⟨s', hturn, hspec⟩ := turn_spec (u := []) (v := []) visit
      (s := ⟨lease, lease.links.right a.address, true, false, []⟩) h hnext
    have hend : s'.next = a.address := hspec.next
    have hholds := hspec.holds
    have hdelete := hspec.deleteMessage
    have hsends := hspec.sends
    refine ⟨{ s'.lease with messagesNewAdditions := false }, ?_, ?_⟩
    · dsimp only
      rw [hturns]
      unfold sendLoop
      rw [hturn, ok_bind, if_neg (fun hgo => hgo.2 hend.symm), pure_eq_ok, ok_bind, pure_eq_ok,
        hsends]
      unfold passSends visited offered
      cases outcome visit a <;> rfl
    · have hkept : Holds s'.lease (afterPass (outcome visit) [a]) := by
        unfold afterPass kept
        cases hout : outcome visit a <;> simpa [hdelete, hout, kept] using hholds
      exact hkept.congr rfl rfl rfl rfl rfl
  · have hhead : lease.storedMessages = some a.address := h.head
    rw [hhead]
    have hnext : lease.links.right a.address = b.address := h.right (u := []) (v := b :: rest)
    have hturns : rest.length < lease.fresh := by
      rw [length_cons, length_cons] at hlen
      omega
    obtain ⟨s', hloop, hholds, hsends⟩ := sendLoop_spec visit a rest [] b
      ⟨lease, lease.links.right a.address, true, false, []⟩ lease.fresh h hnext rfl hturns
    refine ⟨{ s'.lease with messagesNewAdditions := false }, ?_, ?_⟩
    · dsimp only
      rw [hloop, ok_bind, pure_eq_ok, hsends]
      rfl
    · exact Holds.congr hholds rfl rfl rfl rfl rfl

/-! ## a check for timeouts -/

def expiredAt (now : Nat → Nat) (e : Entry Msg) : Bool :=
  e.stored.hasExpired (now e.address)

/-- What a check for timeouts leaves of the entries it visits. -/
def unexpired (now : Nat → Nat) (entries : List (Entry Msg)) : List (Entry Msg) :=
  entries.filter fun e => !expiredAt now e

/-- What a check for timeouts leaves of the store. -/
def afterTimeout (now : Nat → Nat) : List (Entry Msg) → List (Entry Msg)
  | h :: e :: entries => h :: unexpired now (e :: entries)
  | entries => unexpired now entries

/-- The lease after the turn of a message. -/
theorem timeout_turn (h : Holds lease (u ++ e :: v)) :
    Holds (if e.stored.hasExpired (now e.address) then lease.removeMessage e.address else lease)
      (u ++ unexpired now [e] ++ v) := by
  cases hexp : e.stored.hasExpired (now e.address) with
  | true => simpa [unexpired, expiredAt, hexp] using h.removeMessage
  | false => simpa [unexpired, expiredAt, hexp] using h

theorem timeoutLoop_spec (h : Entry Msg) (v : List (Entry Msg)) :
    ∀ (pre : List (Entry Msg)) (e : Entry Msg) (lease : RelayLease Msg) (turns : Nat),
      Holds lease (h :: pre ++ e :: v) → v.length < turns →
        ∃ lease', timeoutLoop now h.address turns lease e.address = .ok lease' ∧
          Holds lease' (h :: pre ++ unexpired now (e :: v)) := by
  induction v with
  | nil =>
    intro pre e lease turns hholds hturns
    obtain ⟨turns, rfl⟩ : ∃ n, turns = n + 1 := ⟨turns - 1, by omega⟩
    have hright : lease.links.right e.address = h.address := hholds.right
    have hmessage := hholds.message e (mem_append_right _ mem_cons_self)
    refine ⟨_, ?_, by simpa using timeout_turn now hholds⟩
    unfold timeoutLoop
    rw [hmessage, hright]
    exact if_neg fun hne => hne rfl
  | cons f v ih =>
    intro pre e lease turns hholds hturns
    obtain ⟨turns, rfl⟩ : ∃ n, turns = n + 1 := ⟨turns - 1, by omega⟩
    have hright : lease.links.right e.address = f.address := hholds.right
    have hmessage := hholds.message e (mem_append_right _ mem_cons_self)
    have hne : f.address ≠ h.address := by
      have hnodup := hholds.nodup
      rw [cons_append, map_cons, nodup_cons] at hnodup
      intro heq
      apply hnodup.1
      rw [← heq]
      exact mem_map_of_mem (mem_append_right _
        (mem_cons_of_mem _ mem_cons_self))
    have hturned := timeout_turn now hholds
    have hsplit : h :: pre ++ unexpired now [e] ++ f :: v
        = h :: (pre ++ unexpired now [e]) ++ f :: v := by simp
    rw [hsplit] at hturned
    have hlen : v.length < turns := by
      rw [length_cons] at hturns
      omega
    obtain ⟨lease', hloop, hholds'⟩ := ih (pre ++ unexpired now [e]) f _ turns hturned hlen
    refine ⟨lease', ?_, ?_⟩
    · unfold timeoutLoop
      rw [hmessage, hright]
      dsimp only
      rw [if_pos hne]
      exact hloop
    · have hcons : unexpired now (e :: f :: v) = unexpired now [e] ++ unexpired now (f :: v) :=
        @filter_append _ _ [e] (f :: v)
      rw [hcons, ← append_assoc]
      exact hholds'

section
variable (h : Holds lease entries)
include h

theorem archiveCheckTimeout_spec :
    ∃ lease', lease.archiveCheckTimeout now = .ok lease' ∧
      Holds lease' (afterTimeout now entries) := by
  have hlen := h.length_le
  unfold archiveCheckTimeout
  rcases entries with _ | ⟨a, _ | ⟨b, rest⟩⟩
  · have hhead : lease.storedMessages = none := h.head
    rw [hhead]
    exact ⟨lease, rfl, h⟩
  · have hhead : lease.storedMessages = some a.address := h.head
    rw [hhead]
    have hright : lease.links.right a.address = a.address := h.right (u := []) (v := [])
    have hmessage := h.message a mem_cons_self
    obtain ⟨turns, hturns⟩ : ∃ n, lease.fresh = n + 1 :=
      ⟨lease.fresh - 1, by rw [length_singleton] at hlen; omega⟩
    refine ⟨_, ?_, by simpa [afterTimeout] using timeout_turn (u := []) (v := []) now h⟩
    dsimp only
    rw [hturns, hright]
    unfold timeoutLoop
    rw [hmessage, hright]
    exact if_neg fun hne => hne rfl
  · have hhead : lease.storedMessages = some a.address := h.head
    rw [hhead]
    have hnext : lease.links.right a.address = b.address := h.right (u := []) (v := b :: rest)
    have hturns : rest.length < lease.fresh := by
      rw [length_cons, length_cons] at hlen
      omega
    dsimp only
    rw [hnext]
    exact timeoutLoop_spec now a rest [] b lease lease.fresh h hturns

/-! ## a step -/

theorem step_sendAll :
    ∃ lease', lease.step (.sendAll visit) = .ok (lease', passSends visit (visited entries)) ∧
      Holds lease' (afterPass (outcome visit) entries) := by
  obtain ⟨lease', hpass, hholds⟩ := relaySendAllMessages1_spec visit h
  refine ⟨lease', ?_, hholds⟩
  change (lease.relaySendAllMessages1 visit >>= fun p => pure (p.1, p.2.1)) = _
  rw [hpass]
  rfl

theorem step_checkTimeout :
    ∃ lease', lease.step (.checkTimeout now) = .ok (lease', []) ∧
      Holds lease' (afterTimeout now entries) := by
  obtain ⟨lease', hcheck, hholds⟩ := archiveCheckTimeout_spec now h
  refine ⟨lease', ?_, hholds⟩
  change (lease.archiveCheckTimeout now >>= fun l => pure (l, [])) = _
  rw [hcheck]
  rfl

/-- Every step returns, and there is still a list that the lease holds. -/
theorem Holds.step (op : Op Msg) :
    ∃ lease' sends entries', lease.step op = .ok (lease', sends) ∧ Holds lease' entries' := by
  cases op with
  | put msg now => exact ⟨_, _, _, rfl, h.put msg now⟩
  | sendAll visit =>
    obtain ⟨lease', hstep, hholds⟩ := step_sendAll visit h
    exact ⟨lease', _, _, hstep, hholds⟩
  | checkTimeout now =>
    obtain ⟨lease', hstep, hholds⟩ := step_checkTimeout now h
    exact ⟨lease', _, _, hstep, hholds⟩

end

theorem holds_kept (lease : RelayLease Msg) (op : Op Msg) (lease' : RelayLease Msg)
    (sends : List (Nat × Status)) (h : ∃ l, Holds lease l)
    (hstep : lease.step op = .ok (lease', sends)) : ∃ l, Holds lease' l := by
  obtain ⟨l, h⟩ := h
  obtain ⟨lease'', sends', l', hstep', h'⟩ := h.step op
  rw [hstep] at hstep'
  cases hstep'
  exact ⟨l', h'⟩

end JxtaC.RelayLease
