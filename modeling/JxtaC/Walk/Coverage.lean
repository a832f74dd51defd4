import JxtaC.Advertisement.Flat
import JxtaC.Peerview.Ring
import JxtaC.Walk.Termination

/-
  A walk over peers that share one local view reaches all of them, as long as the view has less than
  `2 ^ 31` members. Each of the two directions is one token: it is `k` places from the originator
  when it has `n - k` left (`Spread`), so it stops at the last peer before the originator. In larger
  views the TTL does not fit into its `int`, and too few peers are reached.
-/

namespace JxtaC.Walk

open Lib Peerview List

variable {xmlParse : XmlParser} {send : Transmission → Status}

/-- The state of a peer, as the rendezvous service sees it. -/
def provider (s : Peerview) : Provider :=
  ⟨s.selfPVE.pid, s.localViewOrder.length, s.upPVE.map Pve.pid, s.downPVE.map Pve.pid⟩

/-- The peers of the view hold this view, each with itself in it. -/
structure SharedView (peers : Pid → Peerview) (view : List Pid) : Prop where
  ring : ∀ p ∈ view, Ring (peers p)
  order : ∀ p ∈ view, (peers p).localViewOrder.map Pve.pid = view
  self : ∀ p ∈ view, (peers p).selfPVE ∈ (peers p).localViewOrder ∧ (peers p).selfPVE.pid = p

/-- What a walk has done when it is at `net`. -/
structure Covered (view : List Pid) (origin : Pid) (net : Net) : Prop where
  away : origin ∉ net.sent ∧ origin ∉ net.received
  transmissions : net.sent.length ≤ 2 * (view.length - 1)
  reached : net.inFlight = [] → ∀ p ∈ view, p ≠ origin → p ∈ net.received

/-- The walk starts, and goes on until nothing is in flight, whatever is delivered when. -/
def Covers (xmlParse : XmlParser) (send : Transmission → Status) (peers : Pid → Peerview)
    (view : List Pid) (r : Request) : Prop :=
  ∃ net₀, start xmlParse send (provider (peers r.origin)) r.msg r.serviceName r.serviceParam =
      .ok net₀ ∧
    ∀ k net, Run xmlParse send (· = fun p => provider (peers p)) net₀ k net →
      Covered view r.origin net ∧
      ∀ i (serviceName serviceParam : CString), ∀ t ∈ net.inFlight, ∃ net',
        deliver xmlParse send (provider (peers t.dest)) serviceName serviceParam net i = .ok net'

/-! ## places on the ring -/

section Places
variable {view : List Pid} {peers : Pid → Peerview}
variable {n i k : Nat}

theorem SharedView.nodup (h : SharedView peers view) (hne : view ≠ []) : view.Nodup := by
  obtain ⟨p, hp⟩ := exists_mem_of_ne_nil view hne
  rw [← h.order p hp]
  exact (h.ring p hp).increasing.pid_nodup

/-- The up and the down peer of the peer at a place are those at the next and the previous one. -/
theorem SharedView.provider (h : SharedView peers view) (htwo : 2 ≤ view.length) {j : Nat}
    {p : Pid} (hj : view[j]? = some p) :
    (provider (peers p)).localPeerId = p ∧ (provider (peers p)).localViewSize = view.length ∧
      (provider (peers p)).upPeer = view[(j + 1) % view.length]? ∧
      (provider (peers p)).downPeer = view[(j + (view.length - 1)) % view.length]? := by
  have hp : p ∈ view := mem_of_getElem? hj
  have horder := h.order p hp
  have hring := h.ring p hp
  obtain ⟨hmem, hpid⟩ := h.self p hp
  have hlen : (peers p).localViewOrder.length = view.length := by
    rw [← horder, length_map]
  obtain ⟨i, hi, hself⟩ := mem_iff_getElem.mp hmem
  have hij : i = j := by
    have hvi : view[i]? = some p := by
      rw [← horder, getElem?_map, getElem?_eq_getElem hi, hself, Option.map_some, hpid]
    have hnodup := h.nodup (ne_nil_of_mem hp)
    exact (getElem?_inj (hlen ▸ hi) hnodup).mp (hvi.trans hj.symm)
  subst hij
  have hmore : (peers p).localViewOrder ≠ [(peers p).selfPVE] := by
    intro heq
    rw [heq, length_singleton] at hlen
    omega
  have hnodup := hring.increasing.nodup
  have hpos : 0 < (peers p).localViewOrder.length := by omega
  have hup := hring.neighbours.next hmem hmore
  have hdown := hring.neighbours.prev hmem hmore
  have hnext := next_getElem (peers p).localViewOrder hnodup i hi
  have hprev := prev_getElem (peers p).localViewOrder hnodup i hi
  simp only [hself] at hnext hprev
  refine ⟨hpid, hlen, ?_, ?_⟩
  · show (peers p).upPVE.map Pve.pid = _
    rw [hup, hnext, ← getElem?_eq_getElem, ← getElem?_map, horder, hlen]
  · show (peers p).downPVE.map Pve.pid = _
    rw [hdown, hprev, ← getElem?_eq_getElem, ← getElem?_map, horder, hlen]

/-- The place `k` steps from a place, up or down. -/
def place (n i : Nat) (up : Bool) (k : Nat) : Nat := if up then (i + k) % n else (i + (n - k)) % n

theorem place_ne (up : Bool) (hi : i < n) (hk : 0 < k) (hkn : k < n) : place n i up k ≠ i := by
  unfold place
  cases up with
  | true =>
    simp only [if_true]
    rcases Nat.lt_or_ge (i + k) n with h | h
    · rw [Nat.mod_eq_of_lt h]
      omega
    · rw [Nat.mod_eq_sub_mod h, Nat.mod_eq_of_lt (by omega)]
      omega
  | false =>
    simp only [Bool.false_eq_true, if_false]
    rcases Nat.lt_or_ge (i + (n - k)) n with h | h
    · rw [Nat.mod_eq_of_lt h]
      omega
    · rw [Nat.mod_eq_sub_mod h, Nat.mod_eq_of_lt (by omega)]
      omega

/-- Every other place is some steps up. -/
theorem exists_place {j : Nat} (hi : i < n) (hj : j < n) (hne : j ≠ i) :
    ∃ k, 0 < k ∧ k < n ∧ place n i true k = j := by
  unfold place
  simp only [if_true]
  rcases Nat.lt_or_gt_of_ne hne with h | h
  · refine ⟨j + n - i, by omega, by omega, ?_⟩
    rw [show i + (j + n - i) = j + n by omega, Nat.add_mod_right, Nat.mod_eq_of_lt hj]
  · refine ⟨j - i, by omega, by omega, ?_⟩
    rw [show i + (j - i) = j by omega, Nat.mod_eq_of_lt hj]

theorem place_up : (place n i true k + 1) % n = place n i true (k + 1) := by
  unfold place
  simp only [if_true]
  rw [Nat.mod_add_mod, Nat.add_assoc]

theorem place_down (hk : k < n) : (place n i false k + (n - 1)) % n = place n i false (k + 1) := by
  unfold place
  simp only [Bool.false_eq_true, if_false]
  rw [Nat.mod_add_mod, show i + (n - k) + (n - 1) = i + (n - (k + 1)) + n by omega,
    Nat.add_mod_right]

theorem place_zero (up : Bool) (hi : i < n) : place n i up 0 = i := by
  unfold place
  cases up with
  | true => exact Nat.mod_eq_of_lt hi
  | false =>
    show (i + (n - 0)) % n = i
    rw [Nat.sub_zero, Nat.add_mod_right, Nat.mod_eq_of_lt hi]

end Places

/-! ## the two tokens -/

section Ring
variable {view : List Pid} {peers : Pid → Peerview} {i : Nat}
variable {k : Nat} {steps : Bool → Nat} {n : TokenNet} (up : Bool)

/-- The peer `k` steps from the originator. -/
def around (view : List Pid) (i : Nat) (up : Bool) (k : Nat) : Pid :=
  (view[place view.length i up k]?).getD []

/-- The token of one direction, when it has been passed on `k` times: it is gone after `n - 1`. -/
def tokenAt (view : List Pid) (i : Nat) (up : Bool) (k : Nat) : List Token :=
  if k < view.length then
    [⟨around view i up k, toInt (view.length - k), up, toInt_fits (view.length - k)⟩]
  else []

theorem view_place (k : Nat) (h : 0 < view.length) :
    view[place view.length i up k]? = some (around view i up k) := by
  have hlt : place view.length i up k < view.length := by
    unfold place
    split
    · exact Nat.mod_lt _ h
    · exact Nat.mod_lt _ h
  unfold around
  rw [getElem?_eq_getElem hlt, Option.getD_some]

/-- A peer's neighbour in a direction is one step further. -/
theorem SharedView.peer (h : SharedView peers view) (htwo : 2 ≤ view.length) (up : Bool)
    (hk : k < view.length) :
    (Walk.provider (peers (around view i up k))).peer up = some (around view i up (k + 1)) := by
  have hpos : 0 < view.length := by omega
  obtain ⟨-, -, hup, hdown⟩ := h.provider htwo (view_place (i := i) up k hpos)
  unfold Provider.peer
  cases up with
  | true =>
    rw [if_pos rfl, hup, place_up]
    exact view_place true (k + 1) hpos
  | false =>
    rw [if_neg Bool.false_ne_true, hdown, place_down hk]
    exact view_place false (k + 1) hpos

theorem left_eq {self : Provider} {n : Nat} (hsize : self.localViewSize = n) (hn : 0 < n)
    (hsmall : n < 2 ^ 31) (hk : k < n) : self.left ((n - k : Nat) : Int) = n - (k + 1) := by
  have hone : n % uintMod = n := Nat.mod_eq_of_lt (by unfold uintMod; omega)
  have hlimit : (n + (uintMod - 1)) % uintMod = n - 1 := by
    rw [show n + (uintMod - 1) = n - 1 + uintMod by unfold uintMod; omega, Nat.add_mod_right,
      Nat.mod_eq_of_lt (by unfold uintMod; omega)]
  have hmod : (((n - k : Nat) : Int) - 1) % uintMod = ((n - (k + 1) : Nat) : Int) := by
    rw [Int.emod_eq_of_lt (by omega) (by unfold uintMod; omega)]
    omega
  unfold Provider.left
  rw [hsize, hone, hlimit, hmod, Int.toNat_natCast]
  omega

theorem tokens_eq (h : SharedView peers view) (htwo : 2 ≤ view.length)
    (hsmall : view.length < 2 ^ 31) (up : Bool) (hk : k < view.length) :
    (Walk.provider (peers (around view i up k))).tokens ((view.length - k : Nat) : Int) up =
      tokenAt view i up (k + 1) := by
  have hpos : 0 < view.length := by omega
  obtain ⟨-, hsize, -⟩ := h.provider htwo (view_place (i := i) up k hpos)
  have hleft := left_eq hsize hpos hsmall hk
  unfold Provider.tokens tokenAt
  simp only [hleft, h.peer htwo up hk]
  by_cases hend : k + 1 < view.length
  · rw [if_pos hend, if_neg (by omega)]
    rfl
  · rw [if_neg hend, if_pos (by omega)]

/-- Passed on by the peer it is at, a token is one step further. -/
theorem onward_eq (h : SharedView peers view) (htwo : 2 ≤ view.length)
    (hsmall : view.length < 2 ^ 31) (up : Bool) {t : Token} (ht : tokenAt view i up k = [t]) :
    (Walk.provider (peers t.dest)).onward t = tokenAt view i up (k + 1) ∧
      t.reached = [around view i up k] ∧ t.up = up ∧ k < view.length := by
  unfold tokenAt at ht
  split at ht
  · rename_i hk
    have htoken := singleton_inj.mp ht
    have hdest : around view i up k = t.dest := congrArg Token.dest htoken
    have hup : up = t.up := congrArg Token.up htoken
    have httl := congrArg Token.ttl htoken
    dsimp only at httl
    rw [toInt_of_lt (by omega)] at httl
    have hpos : ¬t.ttl ≤ 0 := by omega
    unfold Provider.onward Token.reached
    rw [if_neg hpos, if_neg hpos, ← hdest, ← hup, ← httl]
    exact ⟨tokens_eq h htwo hsmall up hk, rfl, rfl, hk⟩
  · cases ht

/-- The walk when its tokens have gone `steps up` and `steps down` places. -/
structure Spread (view : List Pid) (i : Nat) (steps : Bool → Nat) (n : TokenNet) : Prop where
  within : ∀ up, 0 < steps up ∧ steps up ≤ view.length
  tokens : n.tokens.Perm (tokenAt view i true (steps true) ++ tokenAt view i false (steps false))
  sent_length : n.sent.length + 2 =
    min (steps true + 1) view.length + min (steps false + 1) view.length
  sent_places : ∀ p ∈ n.sent, ∃ up k, 0 < k ∧ k < view.length ∧ p = around view i up k
  received : ∀ up k, 0 < k → k < steps up → around view i up k ∈ n.received
  received_places : ∀ p ∈ n.received, ∃ up k, 0 < k ∧ k < view.length ∧ p = around view i up k

theorem Spread.perm (h : Spread view i steps n) (up : Bool) :
    n.tokens.Perm (tokenAt view i up (steps up) ++ tokenAt view i (!up) (steps !up)) := by
  cases up with
  | true => exact h.tokens
  | false => exact h.tokens.trans perm_append_comm

theorem Spread.length_sent (h : Spread view i steps n) (up : Bool) :
    n.sent.length + 2 = min (steps up + 1) view.length + min (steps (!up) + 1) view.length := by
  cases up with
  | true => exact h.sent_length
  | false => exact h.sent_length.trans (Nat.add_comm _ _)

theorem spread_of_perm (within : ∀ up, 0 < steps up ∧ steps up ≤ view.length)
    (tokens : n.tokens.Perm (tokenAt view i up (steps up) ++ tokenAt view i (!up) (steps !up)))
    (sent_length : n.sent.length + 2 =
      min (steps up + 1) view.length + min (steps (!up) + 1) view.length)
    (sent_places : ∀ p ∈ n.sent, ∃ up k, 0 < k ∧ k < view.length ∧ p = around view i up k)
    (received : ∀ up k, 0 < k → k < steps up → around view i up k ∈ n.received)
    (received_places : ∀ p ∈ n.received, ∃ up k, 0 < k ∧ k < view.length ∧ p = around view i up k) :
    Spread view i steps n := by
  refine ⟨within, ?_, ?_, sent_places, received, received_places⟩
  · cases up with
    | true => exact tokens
    | false => exact tokens.trans perm_append_comm
  · cases up with
    | true => exact sent_length
    | false => exact sent_length.trans (Nat.add_comm _ _)

theorem tokenAt_dest (k : Nat) : (tokenAt view i up k).map Token.dest =
    if k < view.length then [around view i up k] else [] := by
  unfold tokenAt
  split <;> rfl

section
variable (h : SharedView peers view)
include h

/-- The origin sends both tokens to the places next to it. -/
theorem Spread.start (htwo : 2 ≤ view.length) (hsmall : view.length < 2 ^ 31) {origin : Pid}
    (hi : view[i]? = some origin) :
    Spread view i (fun _ => 1) (Walk.provider (peers origin)).startNet := by
  obtain ⟨hlt, -⟩ := List.getElem?_eq_some_iff.mp hi
  have horigin : ∀ up, around view i up 0 = origin := by
    intro up
    unfold around
    rw [place_zero up hlt, hi, Option.getD_some]
  obtain ⟨-, hsize, -⟩ := h.provider htwo hi
  have httl : (Walk.provider (peers origin)).startTTL = ((view.length - 0 : Nat) : Int) := by
    unfold Provider.startTTL
    rw [hsize, Nat.mod_eq_of_lt (by unfold uintMod; omega), toInt_of_lt hsmall, Nat.sub_zero]
  have htokens : ∀ up, (Walk.provider (peers origin)).tokens
      (Walk.provider (peers origin)).startTTL up = tokenAt view i up 1 := by
    intro up
    have heq := tokens_eq (i := i) h htwo hsmall up (k := 0) (by omega)
    rw [horigin up] at heq
    rw [httl]
    exact heq
  have hsent : (Walk.provider (peers origin)).startNet.sent =
      [around view i true 1, around view i false 1] := by
    unfold Provider.startNet
    dsimp only
    rw [htokens, htokens, map_append, tokenAt_dest, tokenAt_dest,
      if_pos (show 1 < view.length by omega), if_pos (show 1 < view.length by omega)]
    rfl
  refine ⟨fun _ => ⟨Nat.one_pos, by omega⟩, ?_, ?_, ?_, ?_, ?_⟩
  · unfold Provider.startNet
    rw [htokens, htokens]
  · rw [hsent]
    show 2 + 2 = min 2 view.length + min 2 view.length
    omega
  · intro p hp
    rw [hsent] at hp
    rcases mem_cons.mp hp with rfl | hp
    · exact ⟨true, 1, Nat.one_pos, by omega, rfl⟩
    · exact ⟨false, 1, Nat.one_pos, by omega, mem_singleton.mp hp⟩
  · intro up k hpos hk
    omega
  · intro p hp
    exact absurd hp not_mem_nil

/-- The delivery of a token takes it one step further. -/
theorem Spread.deliver (htwo : 2 ≤ view.length) (hsmall : view.length < 2 ^ 31)
    (hn : Spread view i steps n) {j : Nat} {t : Token} (ht : n.tokens[j]? = some t) :
    ∃ steps', Spread view i steps' (n.deliver (Walk.provider (peers t.dest)) j) := by
  obtain ⟨hj, hget⟩ := List.getElem?_eq_some_iff.mp ht
  have hpick := getElem_cons_eraseIdx_perm hj
  rw [hget] at hpick
  have hmem : t ∈ tokenAt view i true (steps true) ++ tokenAt view i false (steps false) :=
    hn.tokens.mem_iff.mp (mem_of_getElem? ht)
  have hcase : ∃ up, tokenAt view i up (steps up) = [t] := by
    have hone : ∀ up, t ∈ tokenAt view i up (steps up) → tokenAt view i up (steps up) = [t] := by
      intro up hin
      unfold tokenAt at hin ⊢
      split at hin
      · rename_i hlt
        rw [if_pos hlt, mem_singleton.mp hin]
      · exact absurd hin not_mem_nil
    rcases mem_append.mp hmem with hin | hin
    · exact ⟨true, hone true hin⟩
    · exact ⟨false, hone false hin⟩
  obtain ⟨up, hup⟩ := hcase
  obtain ⟨honward, hreached, -, hk⟩ := onward_eq h htwo hsmall up hup
  have hrest : (n.tokens.eraseIdx j).Perm (tokenAt view i (!up) (steps !up)) := by
    have hperm := hpick.trans (hn.perm up)
    rw [hup] at hperm
    exact hperm.cons_inv
  have hother : ∀ up', up' ≠ up → Function.update steps up (steps up + 1) up' = steps up' :=
    fun up' hne => Function.update_of_ne hne _ _
  have hnot : (!up) ≠ up := by cases up <;> decide
  refine ⟨Function.update steps up (steps up + 1), ?_⟩
  have hwithin := hn.within
  have hlength := hn.length_sent up
  unfold TokenNet.deliver
  rw [ht]
  dsimp only
  rw [honward, hreached]
  refine spread_of_perm up ?_ ?_ ?_ ?_ ?_ ?_
  · intro up'
    by_cases heq : up' = up
    · subst heq
      rw [Function.update_self]
      omega
    · rw [hother up' heq]
      exact hwithin up'
  · rw [Function.update_self, hother _ hnot]
    exact (hrest.append_right _).trans perm_append_comm
  · rw [Function.update_self, hother _ hnot, length_append, tokenAt_dest]
    split <;> simp only [length_singleton, length_nil] <;> omega
  · intro p hp
    rcases mem_append.mp hp with hp | hp
    · exact hn.sent_places p hp
    · rw [tokenAt_dest] at hp
      split at hp
      · rename_i hlt
        exact ⟨up, steps up + 1, by omega, hlt, mem_singleton.mp hp⟩
      · exact absurd hp not_mem_nil
  · intro up' k hpos hlt
    by_cases heq : up' = up
    · subst heq
      rw [Function.update_self] at hlt
      rcases Nat.lt_or_ge k (steps up') with hk' | hk'
      · exact mem_append_left _ (hn.received up' k hpos hk')
      · have hkeq : k = steps up' := by omega
        rw [hkeq]
        exact mem_append_right _ (mem_singleton.mpr rfl)
    · rw [hother up' heq] at hlt
      exact mem_append_left _ (hn.received up' k hpos hlt)
  · intro p hp
    rcases mem_append.mp hp with hp | hp
    · exact hn.received_places p hp
    · exact ⟨up, steps up, (hwithin up).1, hk, mem_singleton.mp hp⟩

theorem Spread.run (htwo : 2 ≤ view.length) (hsmall : view.length < 2 ^ 31) {origin : Pid}
    (hi : view[i]? = some origin)
    (hrun : TokenRun (· = fun p => Walk.provider (peers p))
      (Walk.provider (peers origin)).startNet k n) :
    ∃ steps, Spread view i steps n := by
  induction hrun with
  | start => exact ⟨_, Spread.start h htwo hsmall hi⟩
  | @deliver k n' peers' j t run now ht ih =>
    obtain ⟨steps, hn⟩ := ih
    rw [now]
    exact hn.deliver h htwo hsmall ht

/-- Going up alone reaches everyone, and no step leads back. -/
theorem Spread.covered (hi : view[i]? = some r.origin) (hn : Spread view i steps n) :
    Covered view r.origin (n.net r) := by
  obtain ⟨hlt, hget⟩ := List.getElem?_eq_some_iff.mp hi
  have hnodup := h.nodup (ne_nil_of_mem (mem_of_getElem? hi))
  have hpos : 0 < view.length := by omega
  have haway : ∀ up k, 0 < k → k < view.length → r.origin ≠ around view i up k := by
    intro up k hk hkn heq
    have hplace := view_place (i := i) up k hpos
    rw [← heq, ← hi] at hplace
    exact place_ne up hlt hk hkn
      ((getElem?_inj hlt hnodup).mp hplace.symm).symm
  refine ⟨⟨?_, ?_⟩, ?_, ?_⟩
  · intro hmem
    obtain ⟨up, k, hk, hkn, heq⟩ := hn.sent_places _ hmem
    exact haway up k hk hkn heq
  · intro hmem
    obtain ⟨up, k, hk, hkn, heq⟩ := hn.received_places _ hmem
    exact haway up k hk hkn heq
  · have hlength := hn.sent_length
    show n.sent.length ≤ 2 * (view.length - 1)
    omega
  · intro hend p hp hne
    have htokens : n.tokens = [] := map_eq_nil_iff.mp hend
    have hperm := hn.tokens
    rw [htokens] at hperm
    have hup : tokenAt view i true (steps true) = [] :=
      (append_eq_nil_iff.mp hperm.nil_eq.symm).1
    have hall : view.length ≤ steps true := by
      unfold tokenAt at hup
      split at hup
      · cases hup
      · omega
    obtain ⟨j, hj, hjp⟩ := mem_iff_getElem.mp hp
    have hji : j ≠ i := by
      rintro rfl
      exact hne (hjp.symm.trans hget)
    obtain ⟨k, hk, hkn, hplace⟩ := exists_place hlt hj hji
    have hin := hn.received true k hk (by omega)
    unfold around at hin
    rw [hplace, getElem?_eq_getElem hj, Option.getD_some, hjp] at hin
    exact hin

end

end Ring

/-! ## coverage -/

theorem covers_of_lt (hxml : ReadsFlat xmlParse) {peers : Pid → Peerview} {view : List Pid}
    (r : Request) (h : SharedView peers view) (htwo : 2 ≤ view.length) (horigin : r.origin ∈ view)
    (hsmall : view.length < 2 ^ 31) : Covers xmlParse send peers view r := by
  obtain ⟨i, hi⟩ := getElem?_of_mem horigin
  obtain ⟨hid, hsize, -⟩ := h.provider htwo hi
  have hlow : -2 ^ 31 < (provider (peers r.origin)).startTTL := by
    have hfit := toInt_of_lt hsmall
    unfold Provider.startTTL
    rw [hsize, Nat.mod_eq_of_lt (by unfold uintMod; omega), hfit]
    omega
  refine ⟨_, by rw [start_eq r _ hid, if_pos hlow], fun k net hrun => ?_⟩
  obtain ⟨n, rfl, htokens⟩ := run_net hxml r hrun
  obtain ⟨steps, hn⟩ := Spread.run h htwo hsmall hi htokens
  refine ⟨hn.covered h hi, fun j serviceName serviceParam t _ => ?_⟩
  exact ⟨_, deliver_net hxml r _ n j serviceName serviceParam⟩

/-- From a large view a walk starts with a TTL that is negative, or far too small. -/
theorem start_reach (self : Provider) (hlarge : 2 ^ 31 ≤ self.localViewSize)
    (hlow : -2 ^ 31 < self.startTTL) :
    2 * (toInt (self.left self.startTTL)).toNat + 1 < self.localViewSize := by
  have hu : self.left self.startTTL < 2 ^ 32 :=
    Nat.lt_of_le_of_lt (Nat.min_le_left _ _) (Nat.mod_lt _ (by decide))
  have hsmall : self.localViewSize < 2 ^ 32 → 2 ^ 31 ≤ self.left self.startTTL := by
    intro hsize
    have hone : self.localViewSize % uintMod = self.localViewSize := Nat.mod_eq_of_lt hsize
    have hlimit : (self.localViewSize + (uintMod - 1)) % uintMod = self.localViewSize - 1 := by
      rw [show self.localViewSize + (uintMod - 1) = self.localViewSize - 1 + uintMod by
        unfold uintMod; omega, Nat.add_mod_right, Nat.mod_eq_of_lt (by unfold uintMod; omega)]
    have httl : self.startTTL = self.localViewSize - 2 ^ 32 := by
      unfold Provider.startTTL
      rw [hone, toInt_of_ge hlarge hsize]
    have hmod : (self.startTTL - 1) % uintMod = ((self.localViewSize - 1 : Nat) : Int) := by
      rw [httl, ← Int.add_emod_right, Int.emod_eq_of_lt (by unfold uintMod; omega)
        (by unfold uintMod; omega)]
      unfold uintMod
      omega
    unfold Provider.left
    rw [hone, hlimit, hmod, Int.toNat_natCast]
    omega
  rcases Nat.lt_or_ge (self.left self.startTTL) (2 ^ 31) with hleft | hleft
  · rw [toInt_of_lt hleft, Int.toNat_natCast]
    have hsize : ¬self.localViewSize < 2 ^ 32 := fun h => absurd (hsmall h) (Nat.not_le.mpr hleft)
    omega
  · have hneg := toInt_of_ge hleft hu
    omega

/-- In a larger view fewer peers are reached than there are. -/
theorem lt_of_covers (hxml : ReadsFlat xmlParse) {peers : Pid → Peerview} {view : List Pid}
    (r : Request) (h : SharedView peers view) (htwo : 2 ≤ view.length) (horigin : r.origin ∈ view)
    (hcovers : Covers xmlParse send peers view r) : view.length < 2 ^ 31 := by
  refine Nat.lt_of_not_le fun hlarge => ?_
  obtain ⟨net₀, hstart, hrun⟩ := hcovers
  obtain ⟨i, hi⟩ := getElem?_of_mem horigin
  obtain ⟨hid, hsize, -⟩ := h.provider htwo hi
  rw [start_eq r _ hid] at hstart
  split at hstart
  · rename_i hlow
    obtain rfl := Except.ok.inj hstart
    obtain ⟨k, n, htokens, hend⟩ := @exists_end (· = fun p => provider (peers p))
      (fun p => provider (peers p)) rfl _ _ _ .start
    have hnet := @tokenRun_net xmlParse send hxml r _ _ _ _ htokens
    have hreached := (hrun k _ hnet).1.reached (by unfold TokenNet.net; rw [hend]; rfl)
    have hle := htokens.reaches_le
    have hbound := weight_start reaches (provider (peers r.origin))
      (toInt ((provider (peers r.origin)).left (provider (peers r.origin)).startTTL)).toNat
      fun pid up => by
        unfold reaches
        dsimp only
        exact Nat.le_refl _
    have hreach := start_reach (provider (peers r.origin)) (hsize ▸ hlarge) hlow
    have hnodup := h.nodup (ne_nil_of_mem horigin)
    have hothers : (view.erase r.origin).length ≤ n.received.length := by
      refine (subperm_of_subset (hnodup.erase _) fun p hp => ?_).length_le
      obtain ⟨hne, hmem⟩ := hnodup.mem_erase_iff.mp hp
      exact hreached p hmem hne
    rw [length_erase_of_mem horigin] at hothers
    have hnone : (provider (peers r.origin)).startNet.received.length = 0 := rfl
    omega
  · cases hstart

/-- A walk covers a shared view exactly when the size of the view fits into the TTL; and every walk
    ends, whatever the peers' views are and become. -/
theorem walk_covers_iff (hxml : ReadsFlat xmlParse) :
    (∀ (peers : Pid → Peerview) (view : List Pid) (r : Request), SharedView peers view →
      2 ≤ view.length → r.origin ∈ view →
        (Covers xmlParse send peers view r ↔ view.length < 2 ^ 31)) ∧
    ∀ (r : Request) (self : Provider), self.localPeerId = r.origin → Ends xmlParse send r self := by
  refine ⟨fun peers view r h htwo horigin => ⟨?_, ?_⟩, fun r self horigin => ?_⟩
  · exact lt_of_covers hxml r h htwo horigin
  · exact covers_of_lt hxml r h htwo horigin
  · exact walk_ends hxml r self horigin

/-! ## a shared view of any size -/

/-- Ids of growing length. -/
def pidOf (i : Nat) : Pid := List.replicate (i + 1) 97

def orderOf (n : Nat) : List Pve := (List.range n).map fun i => ⟨i, pidOf i⟩

/-- The peer with this id, which knows `n` peers. -/
def peerOf (n : Nat) (pid : Pid) : Peerview :=
  addjustUpDownPeers
    { init pid 0 with localViewOrder := orderOf n, selfPVE := ⟨pid.length - 1, pid⟩ }

theorem pidOf_lt {i j : Nat} (h : i < j) : pidOf i < pidOf j := by
  have hsplit : pidOf j = pidOf i ++ List.replicate (j - i - 1 + 1) 97 := by
    unfold pidOf
    rw [← replicate_add]
    congr 1
    omega
  have hlt : ([] : Pid) < List.replicate (j - i - 1 + 1) 97 := by
    rw [replicate_succ]
    exact nil_lt_cons _ _
  have happend : pidOf i ++ [] < pidOf i ++ List.replicate (j - i - 1 + 1) 97 :=
    append_left_lt hlt
  rw [append_nil] at happend
  rw [hsplit]
  exact happend

theorem orderOf_increasing (n : Nat) : Increasing (orderOf n) := by
  unfold Increasing orderOf
  rw [pairwise_map]
  exact pairwise_lt_range.imp fun hlt => pidOf_lt hlt

theorem sharedView_orderOf (n : Nat) :
    SharedView (peerOf n) ((List.range n).map pidOf) where
  ring := fun p _ => Ring.addjust (orderOf_increasing n)
  order := fun p _ => by
    unfold peerOf
    rw [addjust_localViewOrder]
    show (orderOf n).map Pve.pid = _
    unfold orderOf
    rw [map_map]
    rfl
  self := fun p hp => by
    obtain ⟨i, hi, rfl⟩ := mem_map.mp hp
    unfold peerOf
    rw [addjust_localViewOrder, addjust_selfPVE]
    refine ⟨mem_map.mpr ⟨i, hi, ?_⟩, rfl⟩
    simp [pidOf]

/-- A walk of the first peer, of an empty message. -/
def sampleRequest : Request where
  msg := []
  serviceName := .ofBuffer (text "svc")
  serviceParam := .ofBuffer (text "param")
  origin := pidOf 0
  fresh := rfl
  plainName := by decide
  plainParam := by decide
  plainOrigin := by decide

/-- Three peers, with a parser of flat documents. -/
theorem walk_covers_iff_three :
    Covers Advertisement.flatParse (fun _ => .success) (peerOf 3) ((List.range 3).map pidOf)
      sampleRequest :=
  (((walk_covers_iff Advertisement.flatParse_reads).1 (peerOf 3) _ sampleRequest
    (sharedView_orderOf 3) (by decide) (by decide)).mpr (by decide))

/-- With `2 ^ 31 + 1` peers the TTL of the first message is negative, and no one takes it. -/
theorem not_walk_covers : ¬∀ (xmlParse : XmlParser) (send : Transmission → Status)
    (peers : Pid → Peerview) (view : List Pid) (r : Request), ReadsFlat xmlParse →
      SharedView peers view → 2 ≤ view.length → r.origin ∈ view →
        Covers xmlParse send peers view r := by
  intro h
  have hlen : ((List.range (2 ^ 31 + 1)).map pidOf).length = 2 ^ 31 + 1 := by
    rw [length_map, length_range]
  have hin : sampleRequest.origin ∈ (List.range (2 ^ 31 + 1)).map pidOf :=
    mem_map.mpr ⟨0, mem_range.mpr (by omega), rfl⟩
  have hcovers := h Advertisement.flatParse (fun _ => .success) (peerOf (2 ^ 31 + 1)) _ sampleRequest
    Advertisement.flatParse_reads (sharedView_orderOf _) (by omega) hin
  have hlt := lt_of_covers Advertisement.flatParse_reads sampleRequest (sharedView_orderOf _)
    (by omega) hin hcovers
  omega

/-! ## views with a history -/

/-- The peers got their views by any runs; these agree, and each peer has its own entry in its view. -/
theorem covers_iff_of_runs (hxml : ReadsFlat xmlParse) (pveExpires : Pid → Nat) (ops : Pid → List Op)
    {view : List Pid} (r : Request)
    (horder : ∀ p ∈ view, (run (init p (pveExpires p)) (ops p)).localViewOrder.map Pve.pid = view)
    (hself : ∀ p ∈ view, ⟨0, p⟩ ∈ (run (init p (pveExpires p)) (ops p)).localViewOrder)
    (htwo : 2 ≤ view.length) (horigin : r.origin ∈ view) :
    Covers xmlParse send (fun p => run (init p (pveExpires p)) (ops p)) view r ↔
      view.length < 2 ^ 31 := by
  have hshared : SharedView (fun p => run (init p (pveExpires p)) (ops p)) view := by
    refine ⟨fun p _ => (kept_run p _ (ops p)).toRing, horder, fun p hp => ?_⟩
    rw [run_selfPVE]
    exact ⟨hself p hp, rfl⟩
  exact ⟨lt_of_covers hxml r hshared htwo horigin, covers_of_lt hxml r hshared htwo horigin⟩

/-- Two peers hear of each other, and one of them of a third one that expires. -/
theorem covers_iff_of_runs_two : Covers Advertisement.flatParse (fun _ => .success)
    (fun p => run (init p 10) ([.start, .message (pidOf 0) false false false 9,
      .message (pidOf 1) false false false 9] ++
      if p = pidOf 1 then [.message (pidOf 2) false false false 1, .periodic 12] else []))
    [pidOf 0, pidOf 1] sampleRequest :=
  (covers_iff_of_runs Advertisement.flatParse_reads (fun _ => 10) _ sampleRequest
    (by decide +kernel) (by decide +kernel) (by decide) (by decide)).mpr (by decide)

end JxtaC.Walk
