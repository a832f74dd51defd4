import JxtaC.Discovery

/-
  The replicas that a new query is sent to (`discovery_service_send_to_replica`). All of them are
  served with the one query object, whose hop count `forwardQuery_peer` raises each time: the second
  replica is sent the hop count 2, and from the third on none is sent anything (`fansOut_iff`).
-/

namespace JxtaC.Discovery.Node

open List
variable {Peer : Type} [DecidableEq Peer] (n : Node Peer)

/-- A peer other than this one is the replica of an element of the query without a wildcard. -/
def IsReplica (context : Option QueryContext) (peer : Peer) : Prop :=
  peer ≠ n.self ∧ ∃ jContext ∈ context, ∃ elem ∈ jContext.queries, n.replicaOf elem = some peer

/-- Every replica is sent the query once, with hop count 1, and nobody else; it goes on the walk if
there is none. -/
structure FansOut (context : Option QueryContext) (f : Forwarded Peer) : Prop where
  once : f.sent.Nodup
  sent : ∀ peer hc, (peer, hc) ∈ f.sent ↔ n.IsReplica context peer ∧ hc = 1
  walked : f.status = .itemNotfound ↔ ∀ peer, ¬ n.IsReplica context peer

theorem mem_peerHash {context : Option QueryContext} {peer : Peer} :
    peer ∈ n.peerHash context ↔ n.IsReplica context peer := by
  unfold peerHash IsReplica
  match context with
  | none => simp
  | some jContext =>
    simp only [mem_dedup, mem_filter, mem_filterMap, decide_eq_true_eq,
      Option.mem_def, Option.some.injEq, exists_eq_left']
    rw [and_comm, ne_comm]

theorem nodup_peerHash (context : Option QueryContext) : (n.peerHash context).Nodup := by
  unfold peerHash
  match context with
  | none => exact nodup_nil
  | some jContext => exact nodup_dedup _

/-! ## the loop over the replicas -/

theorem forwardQueryPeer_other {peer : Peer} (h : n.self ≠ peer) {hc : Int}
    (hok : hopcountOk (incrementHopCount hc) 3 = true) :
    (n.forwardQueryPeer peer hc).sent = [(peer, incrementHopCount hc)] := by
  unfold forwardQueryPeer
  rw [if_pos hok, if_neg h]

theorem forwardEach_one {peer : Peer} (h : n.self ≠ peer) :
    (n.forwardEach [peer] 0).sent = [(peer, 1)] := by
  unfold forwardEach
  dsimp only
  rw [n.forwardQueryPeer_other h (by decide)]
  rfl

/-- The second replica is sent the hop count 2. -/
theorem forwardEach_two {first second : Peer} (rest : List Peer) (h : n.self ≠ second) :
    (second, 2) ∈ (n.forwardEach (first :: second :: rest) 0).sent := by
  have hcount : (n.forwardQueryPeer first 0).hopCount = 1 := n.forwardQueryPeer_hopCount first 0
  unfold forwardEach
  dsimp only
  rw [hcount]
  unfold forwardEach
  dsimp only
  rw [n.forwardQueryPeer_other h (by decide)]
  exact mem_append_right _ mem_cons_self

section NewQuery
variable (context : Option QueryContext)

theorem sendToReplica_none (h : n.peerHash context = []) :
    n.sendToReplica context 0 = ⟨.itemNotfound, 1, []⟩ := by
  unfold sendToReplica
  rw [if_pos rfl, if_neg (not_not_intro h)]
  rfl

theorem sendToReplica_some (h : n.peerHash context ≠ []) :
    n.sendToReplica context 0 = n.forwardEach (n.hashOrder (n.peerHash context)) 0 := by
  unfold sendToReplica
  rw [if_pos rfl, if_pos h]

/-- A new query is sent to its replicas as it should if and only if there are not two of them. -/
theorem fansOut_iff :
    n.FansOut context (n.sendToReplica context 0) ↔
      ∀ peer peer', n.IsReplica context peer → n.IsReplica context peer' → peer = peer' := by
  have hperm := n.hashOrder_perm (n.peerHash context)
  have hmem : ∀ {peer}, peer ∈ n.hashOrder (n.peerHash context) ↔ n.IsReplica context peer := by
    intro peer
    rw [hperm.mem_iff, n.mem_peerHash]
  have hnodup := hperm.nodup_iff.mpr (n.nodup_peerHash context)
  by_cases hnil : n.peerHash context = []
  · have hnone : ∀ peer, ¬ n.IsReplica context peer := by
      intro peer h
      rw [← n.mem_peerHash, hnil] at h
      cases h
    rw [n.sendToReplica_none context hnil]
    refine iff_of_true ⟨nodup_nil, fun peer hc => ?_, iff_of_true rfl hnone⟩
      fun peer _ h => absurd h (hnone peer)
    exact iff_of_false not_mem_nil fun h => hnone peer h.1
  · have hself : ∀ {peer}, n.IsReplica context peer → n.self ≠ peer := fun h => Ne.symm h.1
    rw [n.sendToReplica_some context hnil]
    have hstatus := n.forwardEach_status (n.hashOrder (n.peerHash context)) 0
    generalize n.hashOrder (n.peerHash context) = replicas at hmem hnodup hperm hstatus
    match replicas with
    | [] => exact absurd hperm.nil_eq.symm hnil
    | [peer] =>
      have hone : ∀ {peer'}, n.IsReplica context peer' ↔ peer' = peer := by
        intro peer'
        rw [← hmem, mem_singleton]
      have hreplica := hone.mpr (Eq.refl peer)
      refine iff_of_true ⟨?_, fun peer' hc => ?_, ?_⟩ fun p q hp hq => ?_
      · rw [n.forwardEach_one (hself hreplica)]
        exact nodup_singleton _
      · rw [n.forwardEach_one (hself hreplica), mem_singleton, Prod.mk.injEq, hone]
      · rw [hstatus]
        exact iff_of_false (by decide) fun h => h peer hreplica
      · rw [hone.mp hp, hone.mp hq]
    | first :: second :: rest =>
      have hfirst := hmem.mp mem_cons_self
      have hsecond := hmem.mp (mem_cons_of_mem first mem_cons_self)
      refine iff_of_false (fun h => ?_) fun h => ?_
      · have htwo := (h.sent second 2).mp (n.forwardEach_two rest (hself hsecond))
        exact absurd htwo.2 (by decide)
      · have heq := h first second hfirst hsecond
        exact (nodup_cons.mp hnodup).1 (heq ▸ mem_cons_self)

end NewQuery

/-- A peer whose view has a replica for either of two names. -/
def twoReplicas : Node (List Byte) where
  self := text "self"
  isRendezvous := true
  isSource := false
  rqMissingRa := false
  lookup := .nothing
  context := none
  querySrdi := .notFound
  queryReplica := []
  searchSrdi := []
  getNumericReplica _ := none
  getReplicaPeer expression := some expression
  hashOrder := id
  hashOrder_perm _ := List.Perm.refl _
  sendQuery _ := .success

/-- A query for two names. -/
def twoNames : QueryContext :=
  ⟨[⟨false, false, .ofBuffer (text "Name"), .ofBuffer (text "a")⟩,
    ⟨false, false, .ofBuffer (text "Name"), .ofBuffer (text "b")⟩], by decide⟩

/-- The second replica is sent the hop count 2. -/
theorem not_fansOut :
    ¬ twoReplicas.FansOut (some twoNames) (twoReplicas.sendToReplica (some twoNames) 0) := by
  intro h
  have hmem : (text "Nameb", 2) ∈ (twoReplicas.sendToReplica (some twoNames) 0).sent := by decide
  exact absurd ((h.sent (text "Nameb") 2).mp hmem).2 (by decide)

end JxtaC.Discovery.Node
