import JxtaC.Peerview
import Mathlib.Data.List.Induction

/-
  Table and vector of the local view hold the same entries, as long as none expires.
  `Consistent` is the invariant; every operation keeps it but `remove_expired_PVEs`, which takes
  entries out of the vector only. `view_consistent_iff` says exactly in which runs it holds.
-/

namespace JxtaC.Peerview

open List

variable {s : Peerview}

/-- Table and vector hold the same entry for each peer id. -/
structure Consistent (s : Peerview) : Prop where
  same : ∀ pid pve, s.localView pid = some pve ↔ pve ∈ s.localViewOrder ∧ pve.pid = pid
  once : (s.localViewOrder.map Pve.pid).Nodup

/-- A message of this peer, neither of an edge nor cached, brings it into the view. -/
def Rejoins (s : Peerview) (pid : Pid) : Prop :=
  ∀ now, pid ∈ ((processPeerviewMessage s pid false false false now).1.localViewOrder.map Pve.pid)

@[simp] theorem addjust_localView (s : Peerview) :
    (addjustUpDownPeers s).localView = s.localView := by
  unfold addjustUpDownPeers
  dsimp only
  split <;> rfl

@[simp] theorem addjust_localViewOrder (s : Peerview) :
    (addjustUpDownPeers s).localViewOrder = s.localViewOrder := by
  unfold addjustUpDownPeers
  dsimp only
  split <;> rfl

theorem Consistent.congr {s' : Peerview} (h : Consistent s) (htable : s'.localView = s.localView)
    (horder : s'.localViewOrder = s.localViewOrder) : Consistent s' :=
  ⟨by rw [htable, horder]; exact h.same, by rw [horder]; exact h.once⟩

theorem Consistent.addjust (h : Consistent s) : Consistent (addjustUpDownPeers s) :=
  h.congr (addjust_localView s) (addjust_localViewOrder s)

/-! ## adding -/

/-- Wherever the loop puts it, the entry is added to the others. -/
theorem insertFrom_perm (order : List Pve) (pve : Pve) (n : Nat) (hn : n ≤ order.length) :
    (insertFrom order pve n).Perm (pve :: order) := by
  induction n with
  | zero => exact List.Perm.refl _
  | succ n ih =>
    have hlt : n < order.length := hn
    unfold insertFrom
    rw [getElem?_eq_getElem hlt]
    dsimp only
    split
    · exact perm_insertIdx pve order hn
    · exact ih (Nat.le_of_lt hlt)

theorem addPve_order (hnone : s.localView pve.pid = none) :
    ((addPve s pve).1.localViewOrder).Perm (pve :: s.localViewOrder) := by
  unfold addPve
  rw [hnone]
  simp only [addjust_localViewOrder]
  exact insertFrom_perm _ _ _ (Nat.le_refl _)

theorem Consistent.addPve (h : Consistent s) (pve : Pve) : Consistent (addPve s pve).1 := by
  cases hget : s.localView pve.pid with
  | some other =>
    unfold Peerview.addPve
    rw [hget]
    exact h
  | none =>
    have hperm := addPve_order hget
    have htable : (Peerview.addPve s pve).1.localView =
        Function.update s.localView pve.pid (some pve) := by
      unfold Peerview.addPve
      rw [hget]
      simp only [addjust_localView]
    have hnew : ∀ e ∈ s.localViewOrder, e.pid ≠ pve.pid := by
      intro e he heq
      have := (h.same pve.pid e).mpr ⟨he, heq⟩
      rw [hget] at this
      cases this
    refine ⟨fun pid e => ?_, ?_⟩
    · rw [htable, hperm.mem_iff, mem_cons]
      by_cases hpid : pid = pve.pid
      · subst hpid
        rw [Function.update_self]
        constructor
        · intro heq
          cases heq
          exact ⟨.inl rfl, rfl⟩
        · rintro ⟨rfl | he, heq⟩
          · rfl
          · exact absurd heq (hnew e he)
      · rw [Function.update_of_ne hpid, h.same]
        constructor
        · rintro ⟨he, heq⟩
          exact ⟨.inr he, heq⟩
        · rintro ⟨rfl | he, heq⟩
          · exact absurd heq.symm hpid
          · exact ⟨he, heq⟩
    · rw [(hperm.map Pve.pid).nodup_iff, map_cons, nodup_cons]
      refine ⟨fun hmem => ?_, h.once⟩
      obtain ⟨e, he, heq⟩ := mem_map.mp hmem
      exact hnew e he heq

/-! ## removing -/

/-- What stays when the first entry of an id is removed. -/
theorem removeFirst_spec (pid : Pid) (order : List Pve) (hnodup : (order.map Pve.pid).Nodup) :
    match removeFirst pid order with
    | none => ∀ e ∈ order, e.pid ≠ pid
    | some order' => order'.Sublist order ∧ (∃ e ∈ order, e.pid = pid) ∧
        ∀ e, e ∈ order' ↔ e ∈ order ∧ e.pid ≠ pid := by
  induction order with
  | nil => simp [removeFirst]
  | cons pve order ih =>
    rw [map_cons, nodup_cons] at hnodup
    obtain ⟨hnot, hnodup⟩ := hnodup
    have ih := ih hnodup
    unfold removeFirst
    by_cases hpid : pve.pid = pid
    · rw [if_pos hpid]
      refine ⟨sublist_cons_self _ _, ⟨pve, mem_cons_self, hpid⟩, fun e => ?_⟩
      constructor
      · intro he
        refine ⟨mem_cons_of_mem _ he, fun heq => hnot ?_⟩
        exact mem_map.mpr ⟨e, he, heq.trans hpid.symm⟩
      · rintro ⟨he, hne⟩
        rcases mem_cons.mp he with rfl | he
        · exact absurd hpid hne
        · exact he
    · rw [if_neg hpid]
      cases hrest : removeFirst pid order with
      | none =>
        rw [hrest] at ih
        intro e he
        rcases mem_cons.mp he with rfl | he
        · exact hpid
        · exact ih e he
      | some order' =>
        rw [hrest] at ih
        obtain ⟨hsub, ⟨f, hf, hfpid⟩, hmem⟩ := ih
        refine ⟨hsub.cons_cons pve, ⟨f, mem_cons_of_mem _ hf, hfpid⟩, fun e => ?_⟩
        rw [mem_cons, mem_cons, hmem]
        constructor
        · rintro (rfl | ⟨he, hne⟩)
          · exact ⟨.inl rfl, hpid⟩
          · exact ⟨.inr he, hne⟩
        · rintro ⟨rfl | he, hne⟩
          · exact .inl rfl
          · exact .inr ⟨he, hne⟩

theorem Consistent.removePve (h : Consistent s) (pid : Pid) : Consistent (removePve s pid).1 := by
  have hspec := removeFirst_spec pid s.localViewOrder h.once
  unfold Peerview.removePve
  cases hrem : removeFirst pid s.localViewOrder with
  | none => exact h
  | some order =>
    rw [hrem] at hspec
    obtain ⟨hsub, -, hmem⟩ := hspec
    refine Consistent.addjust ⟨fun p e => ?_, (hsub.map Pve.pid).nodup h.once⟩
    simp only [hmem]
    by_cases hp : p = pid
    · subst hp
      rw [Function.update_self]
      constructor
      · intro heq
        cases heq
      · rintro ⟨⟨-, hne⟩, heq⟩
        exact absurd heq hne
    · rw [Function.update_of_ne hp, h.same]
      constructor
      · rintro ⟨he, heq⟩
        exact ⟨⟨he, fun hpid => hp (heq.symm.trans hpid)⟩, heq⟩
      · rintro ⟨⟨he, -⟩, heq⟩
        exact ⟨he, heq⟩

/-! ## expiring -/

/-- No entry of the vector has expired at this time. -/
def NothingExpired (s : Peerview) (now : Nat) : Prop :=
  ∀ e ∈ s.localViewOrder, ¬s.expires e.address < now

theorem removeExpiredFrom_eq (expires : Nat → Nat) (now : Nat) (order : List Pve) :
    removeExpiredFrom expires now order =
      (order.filter fun e => ¬expires e.address < now,
        order.any fun e => expires e.address < now) := by
  induction order with
  | nil => rfl
  | cons e order ih =>
    unfold removeExpiredFrom
    rw [ih]
    by_cases he : expires e.address < now
    · simp [he]
    · simp [he, Nat.le_of_not_lt he]

theorem removeExpired_localView (s : Peerview) (now : Nat) :
    (removeExpiredPVEs s now).localView = s.localView := by
  unfold removeExpiredPVEs
  split
  · exact addjust_localView _
  · rfl

theorem removeExpired_order (s : Peerview) (now : Nat) :
    (removeExpiredPVEs s now).localViewOrder =
      s.localViewOrder.filter fun e => ¬s.expires e.address < now := by
  unfold removeExpiredPVEs
  rw [removeExpiredFrom_eq]
  split
  · rename_i order h
    rw [addjust_localViewOrder]
    exact (congrArg Prod.fst h).symm
  · rename_i order h
    exact (congrArg Prod.fst h).symm

/-- Expiring keeps table and vector consistent exactly when there is nothing to expire. -/
theorem consistent_removeExpired_iff (h : Consistent s) (now : Nat) :
    Consistent (removeExpiredPVEs s now) ↔ NothingExpired s now := by
  constructor
  · intro h' e he hexp
    have hget := (h.same e.pid e).mpr ⟨he, rfl⟩
    rw [← removeExpired_localView s now] at hget
    have hmem := ((h'.same e.pid e).mp hget).1
    rw [removeExpired_order, mem_filter] at hmem
    exact absurd hexp (of_decide_eq_true hmem.2)
  · intro hno
    refine h.congr (removeExpired_localView s now) ?_
    rw [removeExpired_order, filter_eq_self]
    exact fun e he => decide_eq_true (hno e he)

/-! ## runs -/

theorem getPve_cases (s : Peerview) (pid : Pid) (add : Bool) :
    (∃ pve, s.localView pid = some pve ∧ getPve s pid add = (s, pve, .success)) ∨
      (s.localView pid = none ∧ ∃ u pve, pve.pid = pid ∧ u.localView = s.localView ∧
        u.localViewOrder = s.localViewOrder ∧
        getPve s pid add = if add then ((addPve u pve).1, pve, .success) else (u, pve, .success)) := by
  unfold getPve
  cases hget : s.localView pid with
  | some pve => exact .inl ⟨pve, rfl, rfl⟩
  | none =>
    refine .inr ⟨rfl, (newPve s pid).1, (newPve s pid).2, rfl, rfl, rfl, ?_⟩
    cases add with
    | false => rfl
    | true =>
      have hnone : (newPve s pid).1.localView (newPve s pid).2.pid = none := hget
      have hres : (addPve (newPve s pid).1 (newPve s pid).2).2 = .success := by
        unfold addPve
        rw [hnone]
      simp only [if_true]
      rw [← hres]

theorem Consistent.message (h : Consistent s) (dest : Pid) (edge failure cached : Bool)
    (now : Nat) : Consistent (processPeerviewMessage s dest edge failure cached now).1 := by
  unfold processPeerviewMessage
  cases failure with
  | true => exact h.removePve dest
  | false =>
    rcases getPve_cases s dest (!edge && !cached) with
      ⟨pve, -, hget⟩ | ⟨-, u, pve, -, htable, horder, hget⟩
    · simp only [Bool.false_eq_true, if_false, hget]
      exact h.congr rfl rfl
    · have hu : Consistent u := h.congr htable horder
      simp only [Bool.false_eq_true, if_false, hget]
      cases !edge && !cached with
      | true => exact (hu.addPve pve).congr rfl rfl
      | false => exact hu.congr rfl rfl

/-- In a consistent view a peer that is not a member comes in with its next message. -/
theorem Consistent.rejoins (h : Consistent s) (pid : Pid) : Rejoins s pid := by
  intro now
  unfold processPeerviewMessage
  rcases getPve_cases s pid true with ⟨pve, hin, hget⟩ | ⟨hnone, u, pve, rfl, htable, -, hget⟩
  · simp only [Bool.false_eq_true, if_false, Bool.not_false, Bool.and_self, hget]
    obtain ⟨hmem, hpid⟩ := (h.same pid pve).mp hin
    exact mem_map.mpr ⟨pve, hmem, hpid⟩
  · simp only [Bool.false_eq_true, if_false, Bool.not_false, Bool.and_self, hget, if_true]
    rw [← htable] at hnone
    have hperm := addPve_order hnone
    exact mem_map.mpr ⟨pve, hperm.mem_iff.mpr mem_cons_self, rfl⟩

/-- The operation meets no expired entry. -/
def Unexpired (s : Peerview) : Op → Prop
  | .getLocalview now | .periodic now => NothingExpired s now
  | .message .. | .sendFailed _ | .start | .stop => True

theorem consistent_step_iff (h : Consistent s) (op : Op) :
    Consistent (step s op) ↔ Unexpired s op := by
  cases op with
  | message dest edge failure cached now =>
    exact iff_of_true (h.message dest edge failure cached now) trivial
  | getLocalview now => exact consistent_removeExpired_iff h now
  | periodic now => exact consistent_removeExpired_iff h now
  | sendFailed pid => exact iff_of_true (h.removePve pid) trivial
  | start => exact iff_of_true (h.addPve s.selfPVE) trivial
  | stop => exact iff_of_true (h.removePve s.selfPVE.pid) trivial

theorem consistent_init (pid : Pid) (pveExpires : Nat) : Consistent (init pid pveExpires) :=
  ⟨fun p e => by simp [init], nodup_nil⟩

theorem run_concat (s : Peerview) (ops : List Op) (op : Op) :
    run s (ops ++ [op]) = step (run s ops) op := by
  unfold run
  rw [foldl_append]
  rfl

/-- In every state of the run, the view is consistent and every peer can come back into it. -/
def ViewHolds (pid : Pid) (pveExpires : Nat) (ops : List Op) : Prop :=
  ∀ pre, pre <+: ops → Consistent (run (init pid pveExpires) pre) ∧
    ∀ p, Rejoins (run (init pid pveExpires) pre) p

/-- No operation of the run meets an expired entry. -/
def NothingExpires (pid : Pid) (pveExpires : Nat) (ops : List Op) : Prop :=
  ∀ pre op, pre ++ [op] <+: ops → Unexpired (run (init pid pveExpires) pre) op

theorem view_consistent_iff (pid : Pid) (pveExpires : Nat) (ops : List Op) :
    ViewHolds pid pveExpires ops ↔ NothingExpires pid pveExpires ops := by
  constructor
  · intro h pre op hpre
    have hbefore := (h pre ((prefix_append pre [op]).trans hpre)).1
    have hafter := (h _ hpre).1
    rw [run_concat] at hafter
    exact (consistent_step_iff hbefore op).mp hafter
  · intro h pre hpre
    have hcons : Consistent (run (init pid pveExpires) pre) := by
      induction pre using List.reverseRecOn with
      | nil => exact consistent_init pid pveExpires
      | append_singleton pre op ih =>
        rw [run_concat]
        exact (consistent_step_iff (ih ((prefix_append pre [op]).trans hpre)) op).mpr
          (h pre op hpre)
    exact ⟨hcons, hcons.rejoins⟩

/-- A peer that expires leaves the vector, stays in the table, and does not come back. -/
theorem not_view_consistent : ¬∀ pid pveExpires ops, ViewHolds pid pveExpires ops := by
  intro h
  have hend := h [0] 5 [.message [1] false false false 0, .getLocalview 10] _ prefix_rfl
  exact absurd (hend.2 [1] 20) (by decide)

end JxtaC.Peerview
