import JxtaC.Peerview.Consistency
import Mathlib.Data.List.Cycle

/-
  The ring of the local view. `Ring` says what `addjust_up_down_peers` is for: the vector is
  strictly ordered by peer id, and the up and the down peer are the next and the previous entry of
  this peer in it, read as a cycle. The table may hold more than the vector (entries that expired
  stay in it), but it never holds less (`Kept.known`), and so no id is inserted twice.
-/

namespace JxtaC.Peerview

open List

variable {s : Peerview} {order : List Pve}
variable {self : Pve} {pos n : Nat}

/-- Strictly increasing in the peer ids. -/
def Increasing (order : List Pve) : Prop := order.Pairwise fun e f => e.pid < f.pid

/-- `up` and `down` are the neighbours of `me` on the cycle of `order`. -/
structure Neighbours (me : Pve) (order : List Pve) (up down : Option Pve) : Prop where
  next : ∀ h : me ∈ order, order ≠ [me] → up = some (order.next me h)
  prev : ∀ h : me ∈ order, order ≠ [me] → down = some (order.prev me h)
  up_none : up = none ↔ me ∉ order ∨ order = [me]
  down_none : down = none ↔ me ∉ order ∨ order = [me]

/-- The local view is a ring with this peer's neighbours up and down. -/
structure Ring (s : Peerview) : Prop where
  increasing : Increasing s.localViewOrder
  neighbours : Neighbours s.selfPVE s.localViewOrder s.upPVE s.downPVE

theorem Increasing.nodup (h : Increasing order) : order.Nodup :=
  h.imp fun {e f} hlt heq => by
    subst heq
    exact absurd hlt (List.lt_irrefl _)

theorem Increasing.pid_nodup (h : Increasing order) : (order.map Pve.pid).Nodup :=
  (pairwise_map.mpr h).imp fun {p q} hlt heq => by
    subst heq
    exact absurd hlt (List.lt_irrefl _)

/-! ## the neighbours -/

theorem myPos_eq_none : myPos self order = none ↔ self ∉ order := by
  induction order with
  | nil => simp [myPos]
  | cons e order ih =>
    unfold myPos
    by_cases he : e = self
    · simp [he]
    · simp [he, ih, Ne.symm he]

theorem myPos_eq_some (h : myPos self order = some pos) : order[pos]? = some self := by
  induction order generalizing pos with
  | nil => cases h
  | cons e order ih =>
    unfold myPos at h
    by_cases he : e = self
    · rw [if_pos he] at h
      cases h
      rw [getElem?_cons_zero, he]
    · rw [if_neg he, Option.map_eq_some_iff] at h
      obtain ⟨pos', hpos', rfl⟩ := h
      rw [getElem?_cons_succ]
      exact ih hpos'

/-- Away from the end the step up is the position behind, at the end it is the first. -/
theorem up_pos (h : pos < n) : (if pos < n - 1 then pos + 1 else 0) = (pos + 1) % n := by
  split
  · exact (Nat.mod_eq_of_lt (by omega)).symm
  · have hend : pos + 1 = n := by omega
    rw [hend, Nat.mod_self]

theorem down_pos (h : pos < n) : (if pos = 0 then n - 1 else pos - 1) = (pos + (n - 1)) % n := by
  split
  · rename_i hzero
    rw [hzero, Nat.zero_add, Nat.mod_eq_of_lt (by omega)]
  · have hsum : pos + (n - 1) = pos - 1 + n := by omega
    rw [hsum, Nat.add_mod_right, Nat.mod_eq_of_lt (by omega)]

/-- In a ring of more than one both neighbours are at other positions. -/
theorem up_pos_ne (h : pos < n) : (pos + 1) % n ≠ pos ↔ n ≠ 1 := by
  rw [← up_pos h]
  split <;> omega

theorem down_pos_ne (h : pos < n) : (pos + (n - 1)) % n ≠ pos ↔ n ≠ 1 := by
  rw [← down_pos h]
  split <;> omega

theorem length_eq_one_iff_of_mem (h : self ∈ order) : order.length = 1 ↔ order = [self] := by
  constructor
  · intro hlen
    obtain ⟨e, rfl⟩ := length_eq_one_iff.mp hlen
    rw [mem_singleton.mp h]
  · rintro rfl
    rfl

/-- `addjust_up_down_peers` finds the neighbours in any order without duplicates. -/
theorem addjust_neighbours (hnodup : s.localViewOrder.Nodup) :
    Neighbours s.selfPVE s.localViewOrder (addjustUpDownPeers s).upPVE
      (addjustUpDownPeers s).downPVE := by
  unfold addjustUpDownPeers
  dsimp only
  split
  · rename_i hpos
    have habsent := myPos_eq_none.mp hpos
    exact ⟨fun h => absurd h habsent, fun h => absurd h habsent, by simp [habsent],
      by simp [habsent]⟩
  · rename_i pos hpos
    have hget := myPos_eq_some hpos
    obtain ⟨hlt, hself⟩ := List.getElem?_eq_some_iff.mp hget
    have hmem : s.selfPVE ∈ s.localViewOrder := hself ▸ getElem_mem hlt
    have hone := length_eq_one_iff_of_mem hmem
    have hn : 0 < s.localViewOrder.length := Nat.zero_lt_of_lt hlt
    have hup : (pos + 1) % s.localViewOrder.length < s.localViewOrder.length := Nat.mod_lt _ hn
    have hdown : (pos + (s.localViewOrder.length - 1)) % s.localViewOrder.length <
        s.localViewOrder.length := Nat.mod_lt _ hn
    have hnext : s.localViewOrder.next s.selfPVE hmem =
        s.localViewOrder[(pos + 1) % s.localViewOrder.length] := by
      have := next_getElem s.localViewOrder hnodup pos hlt
      simpa only [hself] using this
    have hprev : s.localViewOrder.prev s.selfPVE hmem =
        s.localViewOrder[(pos + (s.localViewOrder.length - 1)) % s.localViewOrder.length] := by
      have := prev_getElem s.localViewOrder hnodup pos hlt
      simpa only [hself] using this
    rw [up_pos hlt, down_pos hlt, getElem?_eq_getElem hup,
      getElem?_eq_getElem hdown, ← hnext, ← hprev]
    simp only [up_pos_ne hlt, down_pos_ne hlt, ne_eq, hone]
    refine ⟨fun _ hmore => if_pos hmore, fun _ hmore => if_pos hmore, ?_, ?_⟩
    · by_cases h : s.localViewOrder = [s.selfPVE]
      · simp [h]
      · simp [h, hmem]
    · by_cases h : s.localViewOrder = [s.selfPVE]
      · simp [h]
      · simp [h, hmem]

@[simp] theorem addjust_selfPVE (s : Peerview) : (addjustUpDownPeers s).selfPVE = s.selfPVE := by
  unfold addjustUpDownPeers
  dsimp only
  split <;> rfl

theorem Ring.addjust (h : Increasing s.localViewOrder) : Ring (addjustUpDownPeers s) where
  increasing := by
    rw [addjust_localViewOrder]
    exact h
  neighbours := by
    rw [addjust_localViewOrder, addjust_selfPVE]
    exact addjust_neighbours h.nodup

/-! ## the order -/

theorem insertIdx_split (order : List Pve) (pve : Pve) (n : Nat) (hn : n ≤ order.length) :
    order.insertIdx n pve = order.take n ++ pve :: order.drop n := by
  induction n generalizing order with
  | zero => rfl
  | succ n ih =>
    cases order with
    | nil => cases hn
    | cons e order =>
      rw [insertIdx_succ_cons, ih order (Nat.le_of_succ_le_succ hn)]
      rfl

/-- The scan from the end puts the entry where the order stays strict: behind what is smaller,
    in front of what was passed. -/
theorem insertFrom_increasing (h : Increasing order) (pve : Pve)
    (hnew : ∀ e ∈ order, e.pid ≠ pve.pid) (n : Nat) (hn : n ≤ order.length)
    (hpassed : ∀ e ∈ order.drop n, pve.pid < e.pid) : Increasing (insertFrom order pve n) := by
  induction n with
  | zero => exact pairwise_cons.mpr ⟨hpassed, h⟩
  | succ n ih =>
    have hlt : n < order.length := hn
    unfold insertFrom
    rw [getElem?_eq_getElem hlt]
    dsimp only
    split
    · rename_i hsmaller
      have hsplit : order.insertIdx (n + 1) pve = order.take (n + 1) ++ pve :: order.drop (n + 1) :=
        insertIdx_split order pve (n + 1) hn
      have hbefore : ∀ e ∈ order.take (n + 1), e.pid < pve.pid := by
        intro e he
        obtain ⟨i, hi, rfl⟩ := mem_iff_getElem.mp he
        rw [length_take] at hi
        rw [getElem_take]
        rcases Nat.lt_or_ge i n with hin | hin
        · exact List.lt_trans (pairwise_iff_getElem.mp h i n (by omega) hlt hin) hsmaller
        · have hi' : i = n := by omega
          subst hi'
          exact hsmaller
      have hparts : Increasing (order.take (n + 1) ++ order.drop (n + 1)) := by
        rw [take_append_drop]
        exact h
      obtain ⟨hleft, hright, hcross⟩ := pairwise_append.mp hparts
      rw [hsplit]
      refine pairwise_append.mpr ⟨hleft, pairwise_cons.mpr ⟨hpassed, hright⟩, ?_⟩
      intro e he f hf
      rcases mem_cons.mp hf with rfl | hf
      · exact hbefore e he
      · exact hcross e he f hf
    · rename_i hnot
      refine ih (Nat.le_of_lt hlt) fun e he => ?_
      rw [drop_eq_getElem_cons hlt] at he
      rcases mem_cons.mp he with rfl | he
      · have hne := hnew _ (getElem_mem hlt)
        rcases List.le_iff_lt_or_eq.mp (List.not_lt.mp hnot) with hlt' | heq
        · exact hlt'
        · exact absurd heq.symm hne
      · exact hpassed e he

/-! ## runs -/

/-- The ring, and what keeps its ids apart: an id of the vector is a key of the table. -/
structure Kept (s : Peerview) : Prop extends Ring s where
  known : ∀ e ∈ s.localViewOrder, s.localView e.pid ≠ none

/-- What the ring is read from. -/
theorem Kept.congr {s' : Peerview} (h : Kept s) (htable : s'.localView = s.localView)
    (horder : s'.localViewOrder = s.localViewOrder) (hself : s'.selfPVE = s.selfPVE)
    (hup : s'.upPVE = s.upPVE) (hdown : s'.downPVE = s.downPVE) : Kept s' where
  increasing := by
    rw [horder]
    exact h.increasing
  neighbours := by
    rw [horder, hself, hup, hdown]
    exact h.neighbours
  known := by
    rw [horder, htable]
    exact h.known

/-- Every change of the vector is followed by `addjust_up_down_peers`. -/
theorem Kept.addjust (horder : Increasing s.localViewOrder)
    (hknown : ∀ e ∈ s.localViewOrder, s.localView e.pid ≠ none) : Kept (addjustUpDownPeers s) where
  toRing := Ring.addjust horder
  known := by
    rw [addjust_localViewOrder, addjust_localView]
    exact hknown

section
variable (h : Kept s)
include h

theorem Kept.addPve (pve : Pve) : Kept (addPve s pve).1 := by
  unfold Peerview.addPve
  cases hget : s.localView pve.pid with
  | some other => exact h
  | none =>
    have hnew : ∀ e ∈ s.localViewOrder, e.pid ≠ pve.pid := by
      intro e he heq
      exact h.known e he (heq ▸ hget)
    refine Kept.addjust ?_ fun e he => ?_
    · exact insertFrom_increasing h.increasing pve hnew _ (Nat.le_refl _) (by simp)
    · rcases mem_cons.mp ((insertFrom_perm _ _ _ (Nat.le_refl _)).mem_iff.mp he) with rfl | he
      · simp
      · dsimp only
        rw [Function.update_of_ne (hnew e he)]
        exact h.known e he

theorem Kept.removePve (pid : Pid) : Kept (removePve s pid).1 := by
  have hspec := removeFirst_spec pid s.localViewOrder h.increasing.pid_nodup
  unfold Peerview.removePve
  cases hrem : removeFirst pid s.localViewOrder with
  | none => exact h
  | some order =>
    rw [hrem] at hspec
    obtain ⟨hsub, -, hmem⟩ := hspec
    refine Kept.addjust (h.increasing.sublist hsub) fun e he => ?_
    obtain ⟨he, hne⟩ := (hmem e).mp he
    dsimp only
    rw [Function.update_of_ne hne]
    exact h.known e he

/-- Without anything removed the neighbours stay as they are, and are still right. -/
theorem Kept.removeExpired (now : Nat) : Kept (removeExpiredPVEs s now) := by
  have hsub : (s.localViewOrder.filter fun e => ¬s.expires e.address < now).Sublist
      s.localViewOrder := filter_sublist
  have hknown := fun e he => h.known e (hsub.subset he)
  unfold removeExpiredPVEs
  rw [removeExpiredFrom_eq]
  split
  · rename_i order heq
    obtain ⟨rfl, -⟩ := Prod.mk.inj heq
    exact Kept.addjust (h.increasing.sublist hsub) hknown
  · rename_i order heq
    obtain ⟨rfl, hany⟩ := Prod.mk.inj heq
    refine h.congr rfl (filter_eq_self.mpr fun e he => ?_) rfl rfl rfl
    exact decide_eq_true fun hexp => by simpa [hexp] using any_eq_false.mp hany e he

theorem Kept.getPve (pid : Pid) (add : Bool) : Kept (getPve s pid add).1 := by
  have hfresh : Kept (newPve s pid).1 := h.congr rfl rfl rfl rfl rfl
  unfold Peerview.getPve
  cases s.localView pid with
  | some pve => exact h
  | none =>
    cases add with
    | true => exact hfresh.addPve _
    | false => exact hfresh

theorem Kept.message (dest : Pid) (edge failure cached : Bool) (now : Nat) :
    Kept (processPeerviewMessage s dest edge failure cached now).1 := by
  unfold processPeerviewMessage
  cases failure with
  | true => exact h.removePve dest
  | false =>
    have hget := h.getPve dest (!edge && !cached)
    simp only [Bool.false_eq_true, if_false]
    split
    · rename_i u pve heq
      rw [heq] at hget
      exact hget.congr rfl rfl rfl rfl rfl
    · rename_i u pve res _ heq
      rw [heq] at hget
      exact hget

theorem Kept.step (op : Op) : Kept (step s op) := by
  cases op with
  | message dest edge failure cached now => exact h.message dest edge failure cached now
  | getLocalview now => exact h.removeExpired now
  | periodic now => exact h.removeExpired now
  | sendFailed pid => exact h.removePve pid
  | start => exact h.addPve s.selfPVE
  | stop => exact h.removePve s.selfPVE.pid

end

theorem kept_init (pid : Pid) (pveExpires : Nat) : Kept (init pid pveExpires) where
  increasing := List.Pairwise.nil
  neighbours := ⟨fun h => absurd h not_mem_nil, fun h => absurd h not_mem_nil,
    by simp [init], by simp [init]⟩
  known := fun _ he => absurd he not_mem_nil

theorem kept_run (pid : Pid) (pveExpires : Nat) (ops : List Op) :
    Kept (run (init pid pveExpires) ops) := by
  induction ops using List.reverseRecOn with
  | nil => exact kept_init pid pveExpires
  | append_singleton ops op ih =>
    rw [run_concat]
    exact ih.step op

@[simp] theorem addPve_selfPVE (s : Peerview) (pve : Pve) :
    (addPve s pve).1.selfPVE = s.selfPVE := by
  unfold addPve
  split <;> simp

@[simp] theorem removePve_selfPVE (s : Peerview) (pid : Pid) :
    (removePve s pid).1.selfPVE = s.selfPVE := by
  unfold removePve
  split <;> simp

@[simp] theorem removeExpired_selfPVE (s : Peerview) (now : Nat) :
    (removeExpiredPVEs s now).selfPVE = s.selfPVE := by
  unfold removeExpiredPVEs
  split <;> simp

theorem message_selfPVE (s : Peerview) (dest : Pid) (edge failure cached : Bool) (now : Nat) :
    (processPeerviewMessage s dest edge failure cached now).1.selfPVE = s.selfPVE := by
  have hget : (getPve s dest (!edge && !cached)).1.selfPVE = s.selfPVE := by
    unfold getPve newPve
    split
    · rfl
    · cases !edge && !cached <;> simp
  unfold processPeerviewMessage
  cases failure with
  | true => exact removePve_selfPVE s dest
  | false =>
    rw [if_neg Bool.false_ne_true]
    split <;> simp_all

/-- A peer keeps its own entry. -/
theorem run_selfPVE (pid : Pid) (pveExpires : Nat) (ops : List Op) :
    (run (init pid pveExpires) ops).selfPVE = ⟨0, pid⟩ := by
  induction ops using List.reverseRecOn with
  | nil => rfl
  | append_singleton ops op ih =>
    rw [run_concat, ← ih]
    cases op <;> simp [step, getLocalview, message_selfPVE]

end JxtaC.Peerview
