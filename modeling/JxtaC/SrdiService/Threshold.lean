import JxtaC.Discovery
import Mathlib.Data.List.Perm.Subperm

/-
  A query for some peers of a list (`forwardQuery_threshold`). The choice of them is not written:
  `randomResult` gives an empty vector, so that beyond the threshold no peer is sent the query
  (`served_iff`).
-/

namespace JxtaC.Discovery.Node

open List
variable {Peer : Type}

/-- `randomResult`. -/
def randomResult (result : List Peer) (threshold : Int) : Option (List Peer) :=
  let size := (result.length : Int).bmod uintMod
  if threshold < size then some [] else none

variable [DecidableEq Peer] (n : Node Peer)

/-- `forwardQuery_threshold`: the size is an int. -/
def forwardQueryThreshold (peers : List Peer) (threshold hc : Int) : Forwarded Peer :=
  let size := (peers.length : Int).bmod uintMod
  let forwarded :=
    if size ≤ threshold then n.forwardQueryPeers peers hc
    else n.forwardQueryPeers ((randomResult peers threshold).getD []) hc
  { forwarded with status := .success }

/-- Some of the peers are served, as many as the threshold lets: all that are not the local peer are
sent the query. -/
def Served (peers : List Peer) (threshold : Int) (sent : List (Peer × Int)) : Prop :=
  ∃ chosen : List Peer, chosen.Nodup ∧ chosen ⊆ peers ∧
    (chosen.length : Int) = min (peers.length : Int) threshold ∧
    (sent.map Prod.fst).Perm (chosen.filter (n.self ≠ ·))

theorem forwardQueryPeers_sent {hc : Int} (hok : hopcountOk (incrementHopCount hc) 3 = true)
    (peers : List Peer) :
    (n.forwardQueryPeers peers hc).sent.map Prod.fst = peers.filter (n.self ≠ ·) := by
  unfold forwardQueryPeers
  rw [if_neg (by rw [hok]; decide), map_map]
  exact map_id _

/-- The peers that are sent the query. -/
theorem forwardQueryThreshold_sent {hc : Int} (hok : hopcountOk (incrementHopCount hc) 3 = true)
    (peers : List Peer) (threshold : Int) :
    (n.forwardQueryThreshold peers threshold hc).sent.map Prod.fst =
      if (peers.length : Int).bmod uintMod ≤ threshold then peers.filter (n.self ≠ ·) else [] := by
  unfold forwardQueryThreshold
  dsimp only
  by_cases hall : (peers.length : Int).bmod uintMod ≤ threshold
  · rw [if_pos hall, if_pos hall]
    exact n.forwardQueryPeers_sent hok peers
  · have hnone : (randomResult peers threshold).getD [] = [] := by
      unfold randomResult
      rw [if_pos (Int.not_le.mp hall)]
      rfl
    rw [if_neg hall, if_neg hall, hnone]
    exact n.forwardQueryPeers_sent hok []

/-- A list without the local peer is one element shorter, if it has that at all. -/
theorem length_filter_self {peers : List Peer} (hnodup : peers.Nodup) :
    peers.length = (peers.filter (n.self ≠ ·)).length + if n.self ∈ peers then 1 else 0 := by
  induction peers with
  | nil => rfl
  | cons peer peers ih =>
    obtain ⟨hnot, hrest⟩ := nodup_cons.mp hnodup
    by_cases hself : n.self = peer
    · subst hself
      have h := ih hrest
      rw [if_neg hnot] at h
      rw [filter_cons_of_neg (by simp), if_pos mem_cons_self, length_cons, h]
    · rw [filter_cons_of_pos (by simpa using hself), length_cons, length_cons,
        ih hrest]
      simp only [mem_cons, hself, false_or]
      omega

/-- How many peers are served, given those that are sent the query. -/
theorem served_of_sent {peers sentTo : List Peer} (hsub : sentTo ⊆ peers) (hnodup : sentTo.Nodup)
    (hself : n.self ∉ sentTo) {threshold : Int} {sent : List (Peer × Int)}
    (hsent : sent.map Prod.fst = sentTo) :
    n.Served peers threshold sent ↔
      min (peers.length : Int) threshold = sentTo.length ∨
        (n.self ∈ peers ∧ min (peers.length : Int) threshold = sentTo.length + 1) := by
  have hothers : sentTo.filter (n.self ≠ ·) = sentTo := by
    apply filter_eq_self.mpr
    intro peer hpeer
    exact decide_eq_true fun heq => hself (heq ▸ hpeer)
  unfold Served
  rw [hsent]
  constructor
  · rintro ⟨chosen, hchosen, hin, hcount, hperm⟩
    have hlen := n.length_filter_self hchosen
    rw [← hperm.length_eq] at hlen
    by_cases hmem : n.self ∈ chosen
    · rw [if_pos hmem] at hlen
      exact .inr ⟨hin hmem, by rw [← hcount, hlen]; rfl⟩
    · rw [if_neg hmem] at hlen
      exact .inl (by rw [← hcount, hlen]; rfl)
  · rintro (hcount | ⟨hmem, hcount⟩)
    · exact ⟨sentTo, hnodup, hsub, hcount.symm, by rw [hothers]⟩
    · refine ⟨n.self :: sentTo, nodup_cons.mpr ⟨hself, hnodup⟩,
        cons_subset.mpr ⟨hmem, hsub⟩, ?_, ?_⟩
      · rw [hcount, length_cons]
        rfl
      · rw [filter_cons_of_neg (by simp), hothers]

/-- The least of all the peers and the threshold is served, if and only if the threshold is not
passed, or what is served all the same is as many by chance. -/
theorem served_iff {peers : List Peer} (hdistinct : peers.Nodup) {threshold : Int}
    (hthreshold : 0 ≤ threshold) {hc : Int} (hok : hopcountOk (incrementHopCount hc) 3 = true) :
    n.Served peers threshold (n.forwardQueryThreshold peers threshold hc).sent ↔
      (peers.length : Int) ≤ threshold ∨
        if (peers.length : Int).bmod uintMod ≤ threshold then
          n.self ∈ peers ∧ (peers.length : Int) = threshold + 1
        else threshold = 0 ∨ (n.self ∈ peers ∧ threshold = 1) := by
  have hsent := n.forwardQueryThreshold_sent hok peers threshold
  have hsize : (peers.length : Int).bmod uintMod ≤ peers.length := by
    rw [Int.bmod_def]
    unfold uintMod
    split <;> omega
  by_cases hall : (peers.length : Int).bmod uintMod ≤ threshold
  · rw [if_pos hall] at hsent ⊢
    have hlen := n.length_filter_self hdistinct
    rw [n.served_of_sent (filter_subset_self _) (hdistinct.filter _) (by simp) hsent]
    by_cases hmem : n.self ∈ peers
    · rw [if_pos hmem] at hlen
      simp only [hmem, true_and]
      omega
    · rw [if_neg hmem] at hlen
      simp only [hmem, false_and, or_false]
      omega
  · rw [if_neg hall] at hsent ⊢
    rw [n.served_of_sent (nil_subset _) nodup_nil not_mem_nil hsent]
    have hcount : min (peers.length : Int) threshold = threshold := by omega
    rw [hcount, length_nil]
    have hlong : ¬ (peers.length : Int) ≤ threshold := by omega
    simp [hlong]

/-- A peer that reaches all the others. -/
def lonely : Node Nat where
  self := 0
  isRendezvous := true
  isSource := false
  rqMissingRa := false
  lookup := .nothing
  context := none
  querySrdi := .notFound
  queryReplica := []
  searchSrdi := []
  getNumericReplica _ := none
  getReplicaPeer _ := none
  hashOrder := id
  hashOrder_perm _ := List.Perm.refl _
  sendQuery _ := .success

theorem served_iff_below :
    lonely.Served [1, 2] 2 (lonely.forwardQueryThreshold [1, 2] 2 0).sent ↔
      (([1, 2] : List Nat).length : Int) ≤ 2 ∨
        if (([1, 2] : List Nat).length : Int).bmod uintMod ≤ 2 then
          lonely.self ∈ [1, 2] ∧ (([1, 2] : List Nat).length : Int) = 2 + 1
        else (2 : Int) = 0 ∨ (lonely.self ∈ [1, 2] ∧ (2 : Int) = 1) :=
  lonely.served_iff (by decide) (by decide) (by decide)

/-- One of two peers is to be sent the query, and none is. -/
theorem not_served : ¬ lonely.Served [1, 2] 1 (lonely.forwardQueryThreshold [1, 2] 1 0).sent := by
  have hnone : (lonely.forwardQueryThreshold [1, 2] 1 0).sent.map Prod.fst = [] := by decide
  rw [lonely.served_of_sent (nil_subset _) nodup_nil not_mem_nil hnone]
  decide

end JxtaC.Discovery.Node
