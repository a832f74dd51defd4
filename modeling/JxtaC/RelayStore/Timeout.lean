import JxtaC.RelayStore.Loss
import Mathlib.Data.List.Induction
import Mathlib.Data.List.Forall2

/-
  What `archive_check_timeout` leaves in the stores of a relay. For each lease it should be the
  messages that have not expired, in their order (`Purged`). The loop starts to the right of the
  head and ends when it comes back to the head, so it does not look at the head itself, unless the
  head is the only message. An expired head in front of other messages stays, and nothing else goes
  wrong: `archiveCheckTimeout_purged_iff` for one lease, and from it for all of them.
-/

namespace JxtaC.RelayLease

open Lib List

variable {Msg : Type}

/-- The store of a lease: its circular list, and the entries the list holds. -/
structure Store (Msg : Type) where
  lease : RelayLease Msg
  entries : List (Entry Msg)
  holds : Holds lease entries

/-- The lease holds what was in the store and has not expired at `t`. -/
def Purged (t : Nat) (store : Store Msg) (lease' : RelayLease Msg) : Prop :=
  Holds lease' (store.entries.filter fun e => !e.stored.hasExpired t)

/-- The first message has not expired, or there is no other. -/
def HeadStays (t : Nat) (store : Store Msg) : Prop :=
  match store.entries with
  | h :: _ :: _ => h.stored.hasExpired t = false
  | _ => True

theorem Holds.unique {lease : RelayLease Msg} {l l' : List (Entry Msg)} (h : Holds lease l)
    (h' : Holds lease l') : l = l' :=
  h.entries_eq.symm.trans h'.entries_eq

/-- The check keeps the head of several messages, so it is right if the head may stay. -/
theorem afterTimeout_eq_iff (t : Nat) (store : Store Msg) :
    afterTimeout (fun _ => t) store.entries = unexpired (fun _ => t) store.entries ↔
      HeadStays t store := by
  unfold HeadStays
  rcases store.entries with _ | ⟨a, _ | ⟨b, rest⟩⟩
  · exact iff_of_true rfl trivial
  · exact iff_of_true rfl trivial
  · unfold afterTimeout unexpired expiredAt
    dsimp only
    rw [filter_cons (x := a)]
    cases a.stored.hasExpired t with
    | false => exact iff_of_true rfl rfl
    | true =>
      apply iff_of_false
      · intro heq
        -- the left side is longer
        have hlen := congrArg List.length heq
        rw [length_cons] at hlen
        exact absurd hlen (Nat.succ_ne_self _)
      · exact Bool.noConfusion

theorem archiveCheckTimeout_purged_iff (t : Nat) (store : Store Msg) :
    ∃ lease', store.lease.archiveCheckTimeout (fun _ => t) = .ok lease' ∧
      (Purged t store lease' ↔ HeadStays t store) := by
  obtain ⟨lease', hcheck, hholds⟩ := archiveCheckTimeout_spec (fun _ => t) store.holds
  refine ⟨lease', hcheck, ?_⟩
  rw [← afterTimeout_eq_iff]
  constructor
  · intro hpurged
    exact hholds.unique hpurged
  · intro heq
    rw [heq] at hholds
    exact hholds

/-- A check of the whole relay leaves in each store exactly the messages that have not expired, if
    and only if no store has an expired head in front of other messages. -/
theorem relay_purged_iff (t : Nat) (relay : List (Store Msg)) :
    (∃ leases', archiveCheckTimeoutAll t (relay.map Store.lease) = .ok leases' ∧
      List.Forall₂ (Purged t) relay leases') ↔ ∀ store ∈ relay, HeadStays t store := by
  induction relay with
  | nil => exact iff_of_true ⟨[], rfl, .nil⟩ fun _ h => absurd h not_mem_nil
  | cons store relay ih =>
    obtain ⟨lease', hcheck, hiff⟩ := archiveCheckTimeout_purged_iff t store
    rw [forall_mem_cons, ← ih, ← hiff]
    unfold archiveCheckTimeoutAll
    rw [map_cons, mapM_cons, hcheck, ok_bind]
    constructor
    · intro h
      obtain ⟨leases', hall, hpurged⟩ := h
      obtain ⟨rest, hrest, heq⟩ := bind_eq_ok.mp hall
      cases heq
      obtain ⟨hfirst, hothers⟩ := List.forall₂_cons.mp hpurged
      exact ⟨hfirst, rest, hrest, hothers⟩
    · intro h
      obtain ⟨hfirst, rest, hrest, hothers⟩ := h
      refine ⟨lease' :: rest, ?_, .cons hfirst hothers⟩
      rw [hrest]
      rfl

/-- Two messages of the same time. -/
def twoStored : Store Nat where
  lease := (new.push ⟨0, 0, 0⟩).push ⟨1, 0, 0⟩
  entries := [⟨0, 0, 0, 0⟩, ⟨1, 1, 0, 0⟩]
  holds := (holds_new.push ⟨0, 0, 0⟩).push ⟨1, 0, 0⟩

theorem not_relay_purged : ¬∀ (t : Nat) (relay : List (Store Nat)),
    ∃ leases', archiveCheckTimeoutAll t (relay.map Store.lease) = .ok leases' ∧
      List.Forall₂ (Purged t) relay leases' := by
  intro h
  obtain ⟨leases', hall, hpurged⟩ := h 1 [twoStored]
  obtain ⟨lease', hcheck, hiff⟩ := archiveCheckTimeout_purged_iff 1 twoStored
  unfold archiveCheckTimeoutAll at hall
  rw [map_singleton, mapM_cons, hcheck, ok_bind] at hall
  cases hall
  have hstays := hiff.mp (List.forall₂_cons.mp hpurged).1
  exact absurd hstays Bool.noConfusion

end JxtaC.RelayLease
