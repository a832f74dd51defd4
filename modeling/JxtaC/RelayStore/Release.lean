import JxtaC.RelayStore.Order
import Mathlib.Data.Finset.Card

/-
  The list of a lease over its whole life, to the release of its nodes. In every state the stored
  messages are one circle that the head and the counter agree with (`WellFormed`): `Holds` says so
  of the entries, and `Live` that there are no messages besides them. Two steps of the source fall
  short. `archive_put_message_1` compares with `>` before it adds, so a store that has reached the
  maximum takes one more; and `linked_list_clear_and_free` starts to the right of the head and stops
  at the head, which it releases only if it is alone.
-/

namespace JxtaC.RelayLease

open Lib List

variable {Msg : Type} {lease : RelayLease Msg}
variable {lease' : RelayLease Msg} {live : Finset Nat} {head : Nat} {l : List (Entry Msg)}

/-- The list of a lease is in order, and within the bound. -/
structure WellFormed (lease : RelayLease Msg) : Prop where
  head : lease.storedMessages = lease.contents.head?
  circle : lease.links.Circle lease.contents
  inverse : ∀ n ∈ lease.contents,
    lease.links.left (lease.links.right n) = n ∧ lease.links.right (lease.links.left n) = n
  message : ∀ a, a ∈ lease.contents ↔ (lease.message a).isSome
  total : lease.totalStored = lease.contents.length
  within : lease.totalStored ≤ maxNumberMessagesPerClient

/-- A lease that is not gone is in order. -/
def Sound : Option (RelayLease Msg) → Prop
  | none => True
  | some lease => WellFormed lease

/-- The end of a lease releases each of its nodes once. -/
def ReleasesAll (lease : Option (RelayLease Msg)) (op : LeaseOp Msg) (released : List Nat)
    (_ : Option (RelayLease Msg)) : Prop :=
  match lease, op with
  | some lease, .delete => released.Perm lease.contents
  | _, _ => True

/-- A message is stored while there is room for it, and the lease ends with one message at most. -/
def WithinBounds (lease : Option (RelayLease Msg)) (op : LeaseOp Msg) : Prop :=
  match lease, op with
  | some lease, .use (.put _ _) => lease.totalStored < maxNumberMessagesPerClient
  | some lease, .delete => lease.contents.length ≤ 1
  | _, _ => True

/-! ## the messages that live -/

/-- These are the addresses of the messages that are not released, and the counter counts them. -/
structure Live (lease : RelayLease Msg) (live : Finset Nat) : Prop where
  mem : ∀ a, a ∈ live ↔ (lease.message a).isSome
  fresh : ∀ a ∈ live, a < lease.fresh
  total : lease.totalStored = live.card

theorem live_new : Live (new : RelayLease Msg) ∅ :=
  ⟨fun _ => iff_of_false (Finset.notMem_empty _) Bool.false_ne_true,
    fun _ h => absurd h (Finset.notMem_empty _), rfl⟩

theorem Live.congr (h : Live lease live) (hmessage : lease'.message = lease.message)
    (htotal : lease'.totalStored = lease.totalStored) (hfresh : lease'.fresh = lease.fresh) :
    Live lease' live :=
  ⟨hmessage ▸ h.mem, hfresh ▸ h.fresh, htotal ▸ h.total⟩

theorem Live.push (h : Live lease live) (stored : StoredMessage Msg) :
    Live (lease.push stored) (insert lease.fresh live) := by
  have hnew : lease.fresh ∉ live := fun hmem => Nat.lt_irrefl _ (h.fresh _ hmem)
  unfold RelayLease.push
  refine ⟨fun a => ?_, fun a ha => ?_, ?_⟩
  · dsimp only
    rw [Finset.mem_insert, h.mem]
    by_cases ha : a = lease.fresh
    · rw [ha, Function.update_self]
      exact iff_of_true (Or.inl rfl) rfl
    · rw [Function.update_of_ne ha]
      exact ⟨fun hor => hor.resolve_left ha, Or.inr⟩
  · rcases Finset.mem_insert.mp ha with rfl | ha
    · exact Nat.lt_succ_self _
    · exact Nat.lt_succ_of_lt (h.fresh a ha)
  · rw [Finset.card_insert_of_notMem hnew, h.total]
    rfl

theorem Live.removeMessage {current : Nat} {m : StoredMessage Msg} (h : Live lease live)
    (hm : lease.message current = some m) :
    Live (lease.removeMessage current) (live.erase current) := by
  have hmem : current ∈ live := (h.mem current).mpr (by rw [hm]; rfl)
  unfold RelayLease.removeMessage
  refine ⟨fun a => ?_, fun a ha => h.fresh a (Finset.mem_of_mem_erase ha), ?_⟩
  · dsimp only
    rw [Finset.mem_erase, h.mem]
    by_cases ha : a = current
    · rw [ha, Function.update_self]
      exact iff_of_false (fun hand => hand.1 rfl) Bool.false_ne_true
    · rw [Function.update_of_ne ha]
      exact ⟨fun hand => hand.2, fun hsome => ⟨ha, hsome⟩⟩
  · have hpos := Finset.card_pos.mpr ⟨current, hmem⟩
    dsimp only
    rw [Finset.card_erase_of_mem hmem, h.total]
    omega

theorem live_turn {visit : Nat → Visit} {s s' : Sending Msg} (h : ∃ live, Live s.lease live)
    (hturn : s.turn visit = .ok s') : ∃ live, Live s'.lease live := by
  obtain ⟨live, h⟩ := h
  unfold Sending.turn at hturn
  dsimp only at hturn
  split at hturn
  · exact nomatch hturn
  · rename_i m hm
    have hoffer : ∀ v, Live (s.offer s.next v).lease live ∧
        (s.offer s.next v).lease.message = s.lease.message := by
      intro v
      unfold Sending.offer
      split_ifs <;> exact ⟨h.congr rfl rfl rfl, rfl⟩
    rw [← Except.ok.inj hturn]
    split_ifs
    · exact ⟨_, h.removeMessage hm⟩
    · exact ⟨_, h⟩
    · obtain ⟨hlive, hmessage⟩ := hoffer (visit s.next)
      exact ⟨_, hlive.removeMessage (hmessage ▸ hm)⟩
    · exact ⟨_, (hoffer (visit s.next)).1⟩

theorem live_sendLoop {visit : Nat → Visit} (turns : Nat) {s s' : Sending Msg}
    (h : ∃ live, Live s.lease live) (hloop : sendLoop visit head turns s = .ok s') :
    ∃ live, Live s'.lease live := by
  induction turns generalizing s with
  | zero => exact nomatch hloop
  | succ turns ih =>
    unfold sendLoop at hloop
    obtain ⟨t, hturn, hrest⟩ := bind_eq_ok.mp hloop
    have ht := live_turn h hturn
    split_ifs at hrest
    · exact ih ht hrest
    · rw [← Except.ok.inj hrest]
      exact ht

theorem live_timeoutLoop {now : Nat → Nat} (turns : Nat) {lease : RelayLease Msg} {current : Nat}
    (h : ∃ live, Live lease live) (hloop : timeoutLoop now head turns lease current = .ok lease') :
    ∃ live, Live lease' live := by
  induction turns generalizing lease current with
  | zero => exact nomatch hloop
  | succ turns ih =>
    unfold timeoutLoop at hloop
    split at hloop
    · exact nomatch hloop
    · rename_i m hm
      have hturned : ∃ live, Live
          (if m.hasExpired (now current) then lease.removeMessage current else lease) live := by
        obtain ⟨live, h⟩ := h
        split_ifs
        · exact ⟨_, h.removeMessage hm⟩
        · exact ⟨_, h⟩
      by_cases hnext : lease.links.right current ≠ head
      · rw [if_pos hnext] at hloop
        exact ih hturned hloop
      · rw [if_neg hnext] at hloop
        rw [← Except.ok.inj hloop]
        exact hturned

/-- What lives is counted, whatever the lease is used for. -/
theorem live_step {op : Op Msg} {sends : List (Nat × Status)} (h : ∃ live, Live lease live)
    (hstep : lease.step op = .ok (lease', sends)) : ∃ live, Live lease' live := by
  match op with
  | .put msg now =>
    cases hstep
    obtain ⟨live, h⟩ := h
    unfold archivePutMessage1
    split_ifs
    · exact ⟨live, h⟩
    · exact ⟨_, h.push ⟨msg, now, defaultMessageStorageInterval⟩⟩
  | .sendAll visit =>
    obtain ⟨⟨l, s, st⟩, hpass, heq⟩ := bind_eq_ok.mp hstep
    cases heq
    unfold relaySendAllMessages1 at hpass
    split at hpass
    · cases hpass
      exact h
    · obtain ⟨t, hloop, heq⟩ := bind_eq_ok.mp hpass
      cases heq
      obtain ⟨live, h⟩ := live_sendLoop _ h hloop
      exact ⟨live, h.congr rfl rfl rfl⟩
  | .checkTimeout now =>
    obtain ⟨l, hcheck, heq⟩ := bind_eq_ok.mp hstep
    cases heq
    unfold archiveCheckTimeout at hcheck
    split at hcheck
    · cases hcheck
      exact h
    · exact live_timeoutLoop _ h hcheck

/-- There are no messages besides those the list holds. -/
theorem Holds.mem_contents_iff (h : Holds lease l) (hlive : Live lease live) (a : Nat) :
    a ∈ lease.contents ↔ (lease.message a).isSome := by
  have hsub : (l.map Entry.address).toFinset ⊆ live := by
    intro b hb
    obtain ⟨e, he, rfl⟩ := mem_map.mp (mem_toFinset.mp hb)
    rw [hlive.mem, h.message e he]
    rfl
  have hcard : live.card ≤ (l.map Entry.address).toFinset.card := by
    have htotal := hlive.total.symm.trans h.total
    rw [toFinset_card_of_nodup h.nodup, length_map]
    omega
  rw [← hlive.mem, ← Finset.eq_of_subset_of_card_le hsub hcard, h.contents, mem_toFinset]

/-- All but the bound holds of any list that the lease holds. -/
theorem Holds.wellFormed_iff (h : Holds lease l) (hlive : Live lease live) :
    WellFormed lease ↔ l.length ≤ 100 := by
  have hcontents := h.contents
  have hcircle := h.circle
  rw [← hcontents] at hcircle
  constructor
  · intro hformed
    have hwithin := hformed.within
    rw [h.total] at hwithin
    unfold maxNumberMessagesPerClient at hwithin
    omega
  · intro hlen
    refine ⟨?_, hcircle, fun n hn => hcircle.inverse hn, h.mem_contents_iff hlive, ?_, ?_⟩
    · rw [hcontents]
      exact h.head
    · rw [hcontents, length_map]
      exact h.total
    · rw [h.total]
      unfold maxNumberMessagesPerClient
      omega

/-! ## the release -/

theorem clearLoop_spec (v : List Nat) (hhead : head ∉ v) {lease : RelayLease Msg} {e turns : Nat}
    (hway : lease.links.Way e v head) (hnodup : (e :: v).Nodup)
    (hmessage : ∀ n ∈ e :: v, (lease.message n).isSome) (hturns : v.length < turns) :
    clearLoop head turns lease e = .ok (e :: v) := by
  induction v generalizing lease e turns with
  | nil =>
    obtain ⟨turns, rfl⟩ := Nat.exists_eq_add_one_of_ne_zero (Nat.ne_of_gt hturns)
    obtain ⟨m, hm⟩ := Option.isSome_iff_exists.mp (hmessage e mem_cons_self)
    unfold clearLoop
    rw [hm, hway.1]
    rw [if_neg fun hne => hne rfl]
    rfl
  | cons z v ih =>
    obtain ⟨turns, rfl⟩ := Nat.exists_eq_add_one_of_ne_zero (Nat.ne_zero_of_lt hturns)
    obtain ⟨m, hm⟩ := Option.isSome_iff_exists.mp (hmessage e mem_cons_self)
    obtain ⟨hright, -, hrest⟩ := hway
    obtain ⟨hez, hnodup⟩ := nodup_cons.mp hnodup
    have hne : z ≠ head := fun heq => hhead (heq ▸ mem_cons_self)
    have hothers : ∀ n ∈ z :: v, (Function.update lease.message e none n).isSome := by
      intro n hn
      have hn' : n ≠ e := by
        intro heq
        rw [heq] at hn
        exact hez hn
      rw [Function.update_of_ne hn']
      exact hmessage n (mem_cons_of_mem _ hn)
    have hloop := @ih (fun hmem => hhead (mem_cons_of_mem _ hmem))
      { lease with message := Function.update lease.message e none } z turns hrest hnodup hothers
      (Nat.lt_of_succ_lt_succ hturns)
    unfold clearLoop
    rw [hm, hright]
    rw [if_pos hne, hloop]
    rfl

/-- The nodes that are released are those the other loops visit: all but the head, or the head if it
    is alone. -/
theorem Holds.clearAndFree (h : Holds lease l) :
    lease.clearAndFree = .ok ((visited l).map Entry.address) := by
  have hlen := h.length_le
  have hcircle := h.circle
  have hsome : ∀ e ∈ l, (lease.message e.address).isSome := by
    intro e he
    rw [h.message e he]
    rfl
  unfold RelayLease.clearAndFree
  rw [h.head]
  rcases l with _ | ⟨a, _ | ⟨b, rest⟩⟩
  · rfl
  · obtain ⟨-, hway⟩ := hcircle
    rw [map_singleton, head?_cons]
    dsimp only
    rw [hway.1]
    exact clearLoop_spec [] not_mem_nil hway (nodup_singleton _)
      (fun n hn => mem_singleton.mp hn ▸ hsome a mem_cons_self) hlen
  · obtain ⟨hnodup, hright, -, hway⟩ := hcircle
    obtain ⟨ha, hnodup⟩ := nodup_cons.mp hnodup
    rw [map_cons, head?_cons]
    dsimp only
    rw [hright]
    refine clearLoop_spec _ (fun hmem => ha (mem_cons_of_mem _ hmem)) hway hnodup ?_ ?_
    · intro n hn
      obtain ⟨e, he, rfl⟩ := mem_map.mp (map_cons (f := Entry.address) ▸ hn)
      exact hsome e (mem_cons_of_mem _ he)
    · rw [length_map]
      rw [length_cons, length_cons] at hlen
      omega

/-- All nodes are released if there is one at most. -/
theorem perm_visited_iff (l : List (Entry Msg)) :
    ((visited l).map Entry.address).Perm (l.map Entry.address) ↔ l.length ≤ 1 := by
  rcases l with _ | ⟨a, _ | ⟨b, rest⟩⟩
  · exact iff_of_true (List.Perm.refl _) (Nat.zero_le _)
  · exact iff_of_true (List.Perm.refl _) (Nat.le_refl _)
  · apply iff_of_false
    · intro hperm
      have hlen := hperm.length_eq
      unfold visited at hlen
      rw [length_map, length_map] at hlen
      exact absurd hlen.symm (Nat.succ_ne_self _)
    · intro hlen
      rw [length_cons, length_cons] at hlen
      omega

/-! ## a step -/

theorem afterPass_subset (out : Entry Msg → Outcome) (l : List (Entry Msg)) :
    afterPass out l ⊆ l := by
  rcases l with _ | ⟨a, _ | ⟨b, rest⟩⟩
  · exact kept_subset out false []
  · exact kept_subset out false [a]
  · exact cons_subset_cons a (kept_subset out false (b :: rest))

theorem Holds.length_mono {l' : List (Entry Msg)} (h : Holds lease l) (hsub : l ⊆ l') :
    l.length ≤ l'.length :=
  (subperm_of_subset h.nodup.of_map hsub).length_le

/-- What is known of a lease in every state: its list, and that there is nothing besides it. -/
def Known : Option (RelayLease Msg) → Prop
  | none => True
  | some lease => (∃ l, Holds lease l) ∧ ∃ live, Live lease live

theorem known_step {lease lease' : Option (RelayLease Msg)} {op : LeaseOp Msg} {released : List Nat}
    (h : Known lease) (hstep : leaseStep lease op = .ok (lease', released)) : Known lease' := by
  match lease, op with
  | none, _ =>
    cases hstep
    trivial
  | some lease, .use op =>
    obtain ⟨⟨lease'', sends⟩, huse, heq⟩ := bind_eq_ok.mp hstep
    cases heq
    exact ⟨holds_kept lease op lease'' sends h.1 huse, live_step h.2 huse⟩
  | some lease, .delete =>
    obtain ⟨r, -, heq⟩ := bind_eq_ok.mp hstep
    cases heq
    trivial

/-- A use of a lease that keeps a list with these entries keeps the lease in order if and only if
    they are within the bound. -/
theorem use_iff {op : Op Msg} {l' : List (Entry Msg)} (hlive : Live lease live)
    (hspec : ∃ lease' sends, lease.step op = .ok (lease', sends) ∧ Holds lease' l') :
    (∃ s' released, leaseStep (some lease) (.use op) = .ok (s', released) ∧
      ReleasesAll (some lease) (.use op) released s' ∧ Sound s') ↔ l'.length ≤ 100 := by
  obtain ⟨lease', sends, hstep, hholds⟩ := hspec
  obtain ⟨live', hlive'⟩ := live_step ⟨live, hlive⟩ hstep
  rw [← hholds.wellFormed_iff hlive']
  have huse : leaseStep (some lease) (.use op) = .ok (some lease', []) := by
    change (lease.step op >>= fun p => pure (some p.1, [])) = _
    rw [hstep]
    rfl
  rw [huse]
  constructor
  · intro h
    obtain ⟨s', released, heq, -, hsound⟩ := h
    cases heq
    exact hsound
  · intro hformed
    exact ⟨some lease', [], rfl, trivial, hformed⟩

theorem delete_iff (h : Holds lease l) :
    (∃ s' released, leaseStep (some lease) .delete = .ok (s', released) ∧
      ReleasesAll (some lease) .delete released s' ∧ Sound s') ↔ l.length ≤ 1 := by
  rw [← perm_visited_iff]
  have hdelete : leaseStep (some lease) .delete = .ok (none, (visited l).map Entry.address) := by
    change (lease.clearAndFree >>= fun r => pure (none, r)) = _
    rw [h.clearAndFree]
    rfl
  rw [hdelete]
  unfold ReleasesAll
  dsimp only
  rw [h.contents]
  constructor
  · intro hreleases
    obtain ⟨s', released, heq, hperm, -⟩ := hreleases
    cases heq
    exact hperm
  · intro hperm
    exact ⟨none, _, rfl, hperm, trivial⟩

/-- A step from a lease in order keeps it so, and releases what it should, within the bounds
    only. -/
theorem leaseStep_iff (lease : Option (RelayLease Msg)) (op : LeaseOp Msg) (hknown : Known lease)
    (hsound : Sound lease) :
    WithinBounds lease op ↔ ∃ s' released, leaseStep lease op = .ok (s', released) ∧
      ReleasesAll lease op released s' ∧ Sound s' := by
  match lease, op with
  | none, _ => exact iff_of_true trivial ⟨none, [], rfl, trivial, trivial⟩
  | some lease, .delete =>
    obtain ⟨⟨l, h⟩, -⟩ := hknown
    rw [delete_iff h]
    unfold WithinBounds
    dsimp only
    rw [h.contents, length_map]
  | some lease, .use op =>
    obtain ⟨⟨l, h⟩, live, hlive⟩ := hknown
    have hlen := (h.wellFormed_iff hlive).mp hsound
    match op with
    | .put msg now =>
      have hput := h.put msg now
      have hroom : ¬lease.totalStored > maxNumberMessagesPerClient :=
        Int.not_lt.mpr hsound.within
      rw [if_neg hroom] at hput
      rw [use_iff hlive ⟨_, [], rfl, hput⟩]
      unfold WithinBounds maxNumberMessagesPerClient
      dsimp only
      rw [h.total, length_append, length_singleton]
      omega
    | .sendAll visit =>
      obtain ⟨lease', hstep, hholds⟩ := step_sendAll visit h
      have hle := hholds.length_mono (afterPass_subset (outcome visit) l)
      rw [use_iff hlive ⟨lease', _, hstep, hholds⟩]
      exact iff_of_true trivial (Nat.le_trans hle hlen)
    | .checkTimeout now =>
      obtain ⟨lease', hstep, hholds⟩ := step_checkTimeout now h
      have hle := hholds.length_mono (afterTimeout_subset now l)
      rw [use_iff hlive ⟨lease', _, hstep, hholds⟩]
      exact iff_of_true trivial (Nat.le_trans hle hlen)

/-! ## runs -/

theorem sound_new : Sound (some (new : RelayLease Msg)) :=
  (holds_new.wellFormed_iff live_new).mpr (Nat.zero_le _)

/-- Along every run from a new lease the list is in order and within the bound, and the end of the
    lease releases each node once, if and only if a message is only stored while there is room for
    it, and the lease ends with one message at most. -/
theorem lease_run_iff (ops : List (LeaseOp Msg)) :
    Along leaseStep Sound ReleasesAll (some new) ops ↔
      SafeRun leaseStep WithinBounds (some new) ops :=
  along_iff_safeRun (fun _ _ _ _ => known_step) leaseStep_iff ops
    ⟨⟨[], holds_new⟩, ∅, live_new⟩ sound_new

theorem not_lease_run : ¬∀ ops : List (LeaseOp Nat),
    Along leaseStep Sound ReleasesAll (some new) ops := by
  intro h
  obtain ⟨-, s, r, hfirst, -, hrest⟩ := h [.use (.put 0 0), .use (.put 1 0), .delete]
  cases hfirst
  obtain ⟨-, s, r, hsecond, -, hrest⟩ := hrest
  cases hsecond
  obtain ⟨-, s, r, hdelete, hreleases, -⟩ := hrest
  cases hdelete
  have hlen := hreleases.length_eq
  cases hlen

end JxtaC.RelayLease
