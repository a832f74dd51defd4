import JxtaC.Message
import Mathlib.Algebra.Order.Group.Int
import Mathlib.Data.List.Dedup

/-
  The way of a discovery query through the rendezvous (jxta_discovery_service_ref.c,
  jxta_srdi_service_ref.c). Each peer raises the hop count before it passes the query on and stops
  at 3; only towards the publishers the SRDI names is it lowered first, so that it stays. A cycle of
  SRDI entries therefore sends a query around for ever (`not_propagation_bounded`); every other hop
  takes it closer to 3 (`propagation_bounded`).
-/

namespace JxtaC.Discovery

open List

/-- `INT_MAX`. -/
def intMax : Int := 2 ^ 31 - 1

/-- `jxta_resolver_query_set_hopcount`: the parameter is an int. -/
def setHopcount (hopcount : Int) : Int := hopcount.bmod uintMod

/-- `increment_hop_count`. -/
def incrementHopCount (hc : Int) : Int :=
  let count := if hc < 0 then 0 else hc
  setHopcount (count + 1)

/-- `hopcount_ok`. -/
def hopcountOk (hc count : Int) : Bool := decide (hc < count)

/-- Forwarding a query: the status, the hop count of the query afterwards, and the peers it was sent
to, with the hop count it had on that. -/
structure Forwarded (Peer : Type) where
  status : Status
  hopCount : Int
  sent : List (Peer × Int)

/-- An element of the parsed query. -/
structure QueryElement where
  isNumeric : Bool
  hasWildcard : Bool
  name : CString
  value : CString

/-- A query context. The text of the query has an int length, and every element a place in it. -/
structure QueryContext where
  queries : List QueryElement
  fits : (queries.length : Int) < intMax

/-- How `discovery_service_query_listener` fares before the SRDI is asked. -/
inductive Lookup where
  /-- There is no query in it, or none that parses. -/
  | unreadable
  /-- `goto finishTop`: the query of this peer, or one that cannot be looked up. -/
  | unprocessed
  /-- There are keys. -/
  | answered
  /-- There are no keys. -/
  | nothing
  deriving DecidableEq

/-- What `query_srdi` returns. It gives peers only when it gives some. -/
inductive SrdiAnswer (Peer : Type) where
  | notFound
  | found (first : Peer) (rest : List Peer)
  | failed

/-- A peer that received the query, with what its tables say of it. -/
structure Node (Peer : Type) where
  self : Peer
  isRendezvous : Bool
  /-- The query started at this peer. -/
  isSource : Bool
  /-- The query came without the route to its source. -/
  rqMissingRa : Bool
  lookup : Lookup
  context : Option QueryContext
  querySrdi : SrdiAnswer Peer
  queryReplica : List Peer
  searchSrdi : List Peer
  getNumericReplica : QueryElement → Option Peer
  getReplicaPeer : List Byte → Option Peer
  /-- The order in which `jxta_hashtable_values_get` gives the values. -/
  hashOrder : List Peer → List Peer
  hashOrder_perm : ∀ peers, (hashOrder peers).Perm peers
  /-- `jxta_resolver_service_sendQuery`. -/
  sendQuery : Peer → Status

namespace Node
variable {Peer : Type} [DecidableEq Peer] (n : Node Peer)

/-- `forwardQuery_peer`. -/
def forwardQueryPeer (peer : Peer) (hc : Int) : Forwarded Peer :=
  let hc := incrementHopCount hc
  if hopcountOk hc 3 then
    if n.self = peer then ⟨.success, hc, []⟩ else ⟨n.sendQuery peer, hc, [(peer, hc)]⟩
  else ⟨.failed, hc, []⟩

/-- `forwardQuery_peers`. -/
def forwardQueryPeers (peers : List Peer) (hc : Int) : Forwarded Peer :=
  let hc := incrementHopCount hc
  if !hopcountOk hc 3 then ⟨.success, hc, []⟩
  else
    ⟨peers.foldl (fun _ peer => if n.self = peer then .success else n.sendQuery peer) .success, hc,
      (peers.filter (n.self ≠ ·)).map (·, hc)⟩

/-- The replica peer that `discovery_service_send_to_replica` asks for an element. -/
def replicaOf (elem : QueryElement) : Option Peer :=
  if elem.isNumeric then n.getNumericReplica elem
  else if !elem.hasWildcard then n.getReplicaPeer (elem.name.bytes ++ elem.value.bytes)
  else none

/-- The peers in `peerHash`. -/
def peerHash (context : Option QueryContext) : List Peer :=
  match context with
  | none => []
  | some jContext =>
    ((jContext.queries.filterMap n.replicaOf).filter (n.self ≠ ·)).dedup

/-- The loop over the replicas: the status of a forward is not looked at. -/
def forwardEach : List Peer → Int → Forwarded Peer
  | [], hc => ⟨.success, hc, []⟩
  | peer :: rest, hc =>
    let first := n.forwardQueryPeer peer hc
    let others := forwardEach rest first.hopCount
    ⟨others.status, others.hopCount, first.sent ++ others.sent⟩

/-- `discovery_service_send_to_replica`. -/
def sendToReplica (context : Option QueryContext) (hc : Int) : Forwarded Peer :=
  if hc = 0 then
    if n.peerHash context ≠ [] then n.forwardEach (n.hashOrder (n.peerHash context)) hc
    else ⟨.itemNotfound, setHopcount 1, []⟩
  else
    let hc := setHopcount (hc + 1)
    ⟨if hc < 3 then .itemNotfound else .success, hc, []⟩

/-- The peers the query goes to, and its hop count before it is forwarded. -/
def chosenPeers (hc : Int) : List Peer × Int :=
  match n.context with
  | some _ =>
    match n.querySrdi with
    | .notFound => (n.queryReplica, hc)
    | .found first rest => (first :: rest, setHopcount (hc - 1))
    | .failed => ([], setHopcount (hc - 1))
  | none => (n.searchSrdi, hc)

/-- The SRDI names publishers of what the query asks for. -/
def srdiMatch : Bool :=
  n.context.isSome &&
    match n.querySrdi with
    | .found _ _ => true
    | _ => false

/-- `discovery_service_query_listener`. -/
def queryListener (hc : Int) : Forwarded Peer :=
  match n.lookup with
  | .unreadable => ⟨.success, hc, []⟩
  | .unprocessed => ⟨.itemNotfound, hc, []⟩
  | .answered => ⟨.success, hc, []⟩
  | .nothing =>
    if !n.isRendezvous then ⟨.itemNotfound, hc, []⟩
    else
      let (peers, hc) := n.chosenPeers hc
      if peers ≠ [] then n.forwardQueryPeers peers hc else n.sendToReplica n.context hc

end Node

/-- A query leaves a peer: to a peer that was chosen, or on the walk. -/
structure Pass where
  walked : Bool
  hopCount : Int
  deriving DecidableEq

/-- `resolver_service_query_cb`: the hop counts of the messages that carry the query on. The walk
has the message as it came, unless its route was missing. -/
def Node.queryCb {Peer : Type} [DecidableEq Peer] (n : Node Peer) (hc : Int) : List Pass :=
  let forwarded : Forwarded Peer :=
    if n.isSource then ⟨.itemNotfound, hc, []⟩ else n.queryListener hc
  let carried := if !n.isSource && n.rqMissingRa then forwarded.hopCount else hc
  forwarded.sent.map (fun sent => ⟨false, sent.2⟩) ++
    if forwarded.status ≠ .success ∧ n.isRendezvous then [⟨true, carried⟩] else []

/-- A hop of a query: a peer that received it with one hop count and passed it on with another. -/
structure Hop (Peer : Type) where
  node : Node Peer
  received : Int
  pass : Pass

/-- A chain of hops of a query that starts with the hop count `hc`. -/
inductive Chain {Peer : Type} [DecidableEq Peer] : Int → List (Hop Peer) → Prop where
  | nil (hc : Int) : Chain hc []
  | cons {hc : Int} {n : Node Peer} {pass : Pass} {hops : List (Hop Peer)}
      (head : pass ∈ n.queryCb hc) (tail : Chain pass.hopCount hops) :
      Chain hc (⟨n, hc, pass⟩ :: hops)

namespace Hop
variable {Peer : Type}

/-- The peer forwards the query to the publishers its SRDI names. -/
def srdiMatch (hop : Hop Peer) : Bool := hop.node.srdiMatch

/-- The peer processed the query: it is not its own one, it could be looked up, the SRDI answered,
and the walk has the query as the listener left it. -/
def Processed (hop : Hop Peer) : Prop :=
  hop.node.isSource = false ∧ hop.node.lookup ≠ .unprocessed ∧
    (hop.node.context.isSome → hop.node.querySrdi ≠ .failed) ∧
    (hop.pass.walked → hop.node.rqMissingRa)

/-- The hop count grows and stays below 3; towards a publisher it stays. -/
def Bounded (hop : Hop Peer) : Prop :=
  hop.received < 3 ∧ hop.pass.hopCount < 3 ∧
    if hop.srdiMatch then hop.pass.hopCount = max hop.received 1
    else hop.received < hop.pass.hopCount

end Hop

/-! ## the hop count -/

theorem setHopcount_of_int {h : Int} (hmin : -2 ^ 31 ≤ h) (hmax : h ≤ intMax) :
    setHopcount h = h := by
  unfold intMax at hmax
  exact Int.bmod_eq_of_le (by unfold uintMod; omega) (by unfold uintMod; omega)

theorem incrementHopCount_of_int {h : Int} (hmax : h < intMax) :
    incrementHopCount h = max h 0 + 1 := by
  have hcount : (if h < 0 then 0 else h) = max h 0 := by
    split <;> omega
  unfold incrementHopCount
  rw [hcount]
  unfold intMax at hmax
  apply setHopcount_of_int
  · omega
  · unfold intMax
    omega

/-! ## what leaves a peer -/

/-- Every message that carries the query on has a hop count in `P`, the query handed back too. -/
def Forwarded.Within {Peer : Type} (f : Forwarded Peer) (P : Int → Prop) : Prop :=
  (∀ sent ∈ f.sent, P sent.2) ∧ (f.status ≠ .success → P f.hopCount)

theorem Forwarded.Within.mono {Peer : Type} {f : Forwarded Peer} {P Q : Int → Prop}
    (h : f.Within P) (hPQ : ∀ h, P h → Q h) : f.Within Q :=
  ⟨fun sent hsent => hPQ sent.2 (h.1 sent hsent), fun hst => hPQ f.hopCount (h.2 hst)⟩

namespace Node
variable {Peer : Type} [DecidableEq Peer] (n : Node Peer)
variable {hc : Int} (peers : List Peer)

theorem forwardQueryPeers_within (hc : Int) :
    (n.forwardQueryPeers peers hc).Within fun h => h = incrementHopCount hc ∧ h < 3 := by
  unfold forwardQueryPeers hopcountOk
  dsimp only
  split
  · refine ⟨?_, fun h => absurd rfl h⟩
    intro sent hsent
    cases hsent
  · rename_i hok
    have hlt : incrementHopCount hc < 3 := by simpa using hok
    constructor
    · intro sent hsent
      obtain ⟨peer, -, rfl⟩ := mem_map.mp hsent
      exact ⟨rfl, hlt⟩
    · intro _
      exact ⟨rfl, hlt⟩

theorem forwardQueryPeer_hopCount (peer : Peer) (hc : Int) :
    (n.forwardQueryPeer peer hc).hopCount = incrementHopCount hc := by
  unfold forwardQueryPeer
  dsimp only
  split
  · split <;> rfl
  · rfl

theorem forwardQueryPeer_sent {peer : Peer} {sent : Peer × Int}
    (hsent : sent ∈ (n.forwardQueryPeer peer hc).sent) :
    sent.2 = incrementHopCount hc ∧ sent.2 < 3 := by
  unfold forwardQueryPeer hopcountOk at hsent
  dsimp only at hsent
  split at hsent
  · rename_i hok
    split at hsent
    · cases hsent
    · obtain rfl := mem_singleton.mp hsent
      exact ⟨rfl, of_decide_eq_true hok⟩
  · cases hsent

theorem forwardEach_status (hc : Int) : (n.forwardEach peers hc).status = .success := by
  induction peers generalizing hc with
  | nil => rfl
  | cons peer rest ih => exact ih _

/-- Every replica is sent a larger hop count than the one before it. -/
theorem forwardEach_sent (hpos : 0 ≤ hc) (hfits : hc + peers.length ≤ intMax) {sent : Peer × Int}
    (hsent : sent ∈ (n.forwardEach peers hc).sent) : hc < sent.2 ∧ sent.2 < 3 := by
  induction peers generalizing hc with
  | nil => cases hsent
  | cons peer rest ih =>
    simp only [length_cons, Int.natCast_add, Int.natCast_one] at hfits
    have hnext : incrementHopCount hc = hc + 1 := by
      rw [incrementHopCount_of_int (by omega), max_eq_left hpos]
    apply Or.elim (mem_append.mp hsent)
    · intro hfirst
      obtain ⟨heq, hlt⟩ := n.forwardQueryPeer_sent hfirst
      omega
    · intro hrest
      rw [forwardQueryPeer_hopCount, hnext] at hrest
      have := ih (by omega) (by omega) hrest
      omega

theorem length_peerHash (context : Option QueryContext) :
    ((n.peerHash context).length : Int) < intMax := by
  cases context with
  | none => exact show (0 : Int) < intMax by decide
  | some jContext =>
    have hlen : (n.peerHash (some jContext)).length ≤ jContext.queries.length := calc
      _ ≤ ((jContext.queries.filterMap n.replicaOf).filter (n.self ≠ ·)).length :=
        (dedup_sublist _).length_le
      _ ≤ (jContext.queries.filterMap n.replicaOf).length := length_filter_le _ _
      _ ≤ jContext.queries.length := List.length_filterMap_le _ _
    have := jContext.fits
    omega

theorem sendToReplica_within (context : Option QueryContext) (hmin : -2 ^ 31 ≤ hc)
    (hmax : hc < intMax) : (n.sendToReplica context hc).Within fun h => hc < h ∧ h < 3 := by
  unfold sendToReplica
  split
  · subst hc
    split
    · refine ⟨fun sent hsent => ?_, fun h => absurd (n.forwardEach_status _ _) h⟩
      apply n.forwardEach_sent _ (Int.le_refl 0) _ hsent
      have := n.length_peerHash context
      rw [(n.hashOrder_perm _).length_eq]
      omega
    · refine ⟨fun sent hsent => ?_, fun _ => ?_⟩
      · cases hsent
      · exact show 0 < setHopcount 1 ∧ setHopcount 1 < 3 by decide
  · have hnext : setHopcount (hc + 1) = hc + 1 := setHopcount_of_int (by omega) (by omega)
    rw [hnext]
    refine ⟨fun sent hsent => ?_, fun hst => ?_⟩
    · cases hsent
    · have hlt : hc + 1 < 3 := by
        by_contra hge
        exact hst (if_neg hge)
      exact ⟨by dsimp only; omega, hlt⟩

/-- What the listener makes of the hop count of a query that it does not answer. -/
def Raises (hc h : Int) : Prop := h < 3 ∧ if n.srdiMatch then h = max hc 1 else hc < h

theorem queryListener_within (hmin : -2 ^ 31 < hc) (hmax : hc < intMax)
    (hrdv : n.isRendezvous = true) (hlookup : n.lookup ≠ .unprocessed)
    (hsrdi : n.context.isSome → n.querySrdi ≠ .failed) :
    (n.queryListener hc).Within (n.Raises hc) := by
  have hnone (st : Status) (hst : st = .success) :
      (⟨st, hc, []⟩ : Forwarded Peer).Within (n.Raises hc) := by
    refine ⟨fun sent hsent => ?_, fun h => absurd hst h⟩
    cases hsent
  -- without a match both ways to pass the query on raise the hop count
  have hforward (hmatch : n.srdiMatch = false) (peers : List Peer) :
      (n.forwardQueryPeers peers hc).Within (n.Raises hc) := by
    apply (n.forwardQueryPeers_within peers hc).mono
    intro h hh
    rw [incrementHopCount_of_int hmax] at hh
    unfold Raises
    rw [hmatch]
    exact ⟨hh.2, show hc < h by omega⟩
  have hreplica (hmatch : n.srdiMatch = false) (context : Option QueryContext) :
      (n.sendToReplica context hc).Within (n.Raises hc) := by
    apply (n.sendToReplica_within context (by omega) hmax).mono
    intro h hh
    unfold Raises
    rw [hmatch]
    exact ⟨hh.2, hh.1⟩
  unfold queryListener
  rw [hrdv]
  cases hl : n.lookup with
  | unreadable => exact hnone _ rfl
  | unprocessed => exact absurd hl hlookup
  | answered => exact hnone _ rfl
  | nothing =>
    rw [if_neg (by decide : ¬(!true) = true)]
    unfold chosenPeers
    cases hctx : n.context with
    | none =>
      have hmatch : n.srdiMatch = false := by simp [srdiMatch, hctx]
      dsimp only
      split
      · exact hforward hmatch _
      · exact hreplica hmatch _
    | some jContext =>
      cases hans : n.querySrdi with
      | notFound =>
        have hmatch : n.srdiMatch = false := by simp [srdiMatch, hans]
        dsimp only
        split
        · exact hforward hmatch _
        · exact hreplica hmatch _
      | failed => exact absurd hans (hsrdi (by rw [hctx]; rfl))
      | found first rest =>
        have hmatch : n.srdiMatch = true := by simp [srdiMatch, hctx, hans]
        have hlower : setHopcount (hc - 1) = hc - 1 := setHopcount_of_int (by omega) (by omega)
        dsimp only
        rw [if_pos (cons_ne_nil first rest), hlower]
        apply (n.forwardQueryPeers_within (first :: rest) (hc - 1)).mono
        intro h hh
        rw [incrementHopCount_of_int (by omega)] at hh
        unfold Raises
        rw [hmatch]
        exact ⟨hh.2, show h = max hc 1 by omega⟩

end Node

/-! ## chains -/

section Chains
variable {Peer : Type} [DecidableEq Peer]

/-- An edge peer passes nothing on. -/
theorem queryCb_edge {n : Node Peer} (hrdv : n.isRendezvous = false) (hc : Int) :
    n.queryCb hc = [] := by
  have hsent : (n.queryListener hc).sent = [] := by
    unfold Node.queryListener
    rw [hrdv]
    cases n.lookup <;> rfl
  unfold Node.queryCb
  rw [hrdv]
  cases n.isSource with
  | true => simp
  | false => simp [hsent]

/-- One hop of a query that the peer processed. -/
theorem hop_bounded {n : Node Peer} {hc : Int} {pass : Pass} (hmin : -2 ^ 31 < hc)
    (hmax : hc < intMax) (hpass : pass ∈ n.queryCb hc)
    (hproc : (⟨n, hc, pass⟩ : Hop Peer).Processed) : (⟨n, hc, pass⟩ : Hop Peer).Bounded := by
  obtain ⟨hsource, hlookup, hsrdi, hmissing⟩ := hproc
  have hraises : n.Raises hc pass.hopCount := by
    cases hrdv : n.isRendezvous with
    | false =>
      rw [queryCb_edge hrdv] at hpass
      cases hpass
    | true =>
      obtain ⟨hsent, hback⟩ := n.queryListener_within hmin hmax hrdv hlookup hsrdi
      unfold Node.queryCb at hpass
      dsimp only at hsource hpass
      rw [hsource, if_neg Bool.false_ne_true] at hpass
      apply Or.elim (mem_append.mp hpass)
      · intro hin
        obtain ⟨sent, hmem, rfl⟩ := mem_map.mp hin
        exact hsent sent hmem
      · intro hin
        split at hin
        · rename_i hst
          obtain rfl := mem_singleton.mp hin
          have hra : n.rqMissingRa = true := hmissing rfl
          rw [hra]
          exact hback hst.1
        · cases hin
  obtain ⟨hlt, hgrow⟩ := hraises
  refine ⟨?_, hlt, hgrow⟩
  dsimp only
  split at hgrow <;> omega

/-- Along a chain of peers that process the query the hop count grows at every hop but those towards
a publisher, and a query with hop count 3 is not passed on: at most `2 - hc` hops raise it. -/
theorem propagation_bounded {hc : Int} {hops : List (Hop Peer)} (hmin : -2 ^ 31 < hc)
    (hmax : hc < intMax) (chain : Chain hc hops) (hproc : ∀ hop ∈ hops, hop.Processed) :
    (∀ hop ∈ hops, hop.Bounded) ∧
      hops.countP (fun hop => !hop.srdiMatch) ≤ (2 - hc).toNat := by
  induction chain with
  | nil hc =>
    refine ⟨fun hop hmem => ?_, Nat.zero_le _⟩
    cases hmem
  | @cons hc n pass hops head tail ih =>
    have hfirst := hop_bounded hmin hmax head (hproc _ mem_cons_self)
    obtain ⟨hreceived, hlt, hgrow⟩ := hfirst
    dsimp only at hreceived hlt hgrow
    have hlow : hc ≤ pass.hopCount := by
      split at hgrow <;> omega
    obtain ⟨hrest, hcount⟩ := ih (by omega) (by unfold intMax; omega)
      (fun hop hmem => hproc hop (mem_cons_of_mem _ hmem))
    constructor
    · intro hop hmem
      apply Or.elim (mem_cons.mp hmem)
      · intro heq
        rw [heq]
        exact ⟨hreceived, hlt, hgrow⟩
      · exact hrest hop
    · rw [countP_cons]
      split at hgrow
      · rename_i hmatch
        simp only [hmatch]
        have : (2 - pass.hopCount).toNat ≤ (2 - hc).toNat := by omega
        exact hcount.trans this
      · rename_i hmatch
        simp only [hmatch]
        rw [if_pos (by rfl)]
        omega

end Chains

/-- A rendezvous whose SRDI names the other one of two as a publisher. -/
def oneOfTwo (self : Bool) : Node Bool where
  self := self
  isRendezvous := true
  isSource := false
  rqMissingRa := false
  lookup := .nothing
  context := some ⟨[], by decide⟩
  querySrdi := .found (!self) []
  queryReplica := []
  searchSrdi := []
  getNumericReplica _ := none
  getReplicaPeer _ := none
  hashOrder peers := peers
  hashOrder_perm _ := .refl _
  sendQuery _ := .success

/-- The hops between the two. -/
def circle : Bool → Nat → List (Hop Bool)
  | _, 0 => []
  | self, k + 1 => ⟨oneOfTwo self, 1, ⟨false, 1⟩⟩ :: circle (!self) k

theorem chain_circle (self : Bool) (k : Nat) : Chain 1 (circle self k) := by
  induction k generalizing self with
  | zero => exact .nil 1
  | succ k ih =>
    have hpass : (oneOfTwo self).queryCb 1 = [⟨false, 1⟩] := by
      cases self <;> decide +kernel
    apply Chain.cons
    · rw [hpass]
      exact mem_singleton.mpr rfl
    · exact ih (!self)

theorem circle_processed (self : Bool) (k : Nat) : ∀ hop ∈ circle self k, hop.Processed := by
  induction k generalizing self with
  | zero =>
    intro hop hmem
    cases hmem
  | succ k ih =>
    intro hop hmem
    apply Or.elim (mem_cons.mp hmem)
    · intro heq
      rw [heq]
      refine ⟨rfl, (by decide : Lookup.nothing ≠ .unprocessed), fun _ h => ?_, fun h => ?_⟩
      · cases h
      · cases h
    · exact ih (!self) hop

/-- Between two rendezvous whose SRDI name one another the query goes around with hop count 1. -/
theorem not_propagation_bounded :
    ¬∀ (hc : Int) (hops : List (Hop Bool)), Chain hc hops → (∀ hop ∈ hops, hop.Processed) →
      (∀ hop ∈ hops, hop.received < 3 ∧ hop.received < hop.pass.hopCount) ∧ hops.length ≤ 3 := by
  intro h
  have hlong := (h 1 (circle true 4) (chain_circle true 4) (circle_processed true 4)).2
  exact absurd hlong (by decide)

/-- A rendezvous that finds nothing and walks the query. -/
def walker : Node Bool := { oneOfTwo false with querySrdi := .notFound, rqMissingRa := true }

/-- A query that is walked, forwarded to a publisher and walked again. -/
def walkedTwice : List (Hop Bool) :=
  [⟨walker, 0, ⟨true, 1⟩⟩, ⟨oneOfTwo true, 1, ⟨false, 1⟩⟩, ⟨walker, 1, ⟨true, 2⟩⟩]

theorem chain_walkedTwice : Chain 0 walkedTwice :=
  .cons (by decide +kernel) (.cons (by decide +kernel) (.cons (by decide +kernel) (.nil 2)))

theorem walkedTwice_processed : ∀ hop ∈ walkedTwice, hop.Processed := by
  intro hop hmem
  have hwalker (hc : Int) (pass : Pass) : (⟨walker, hc, pass⟩ : Hop Bool).Processed := by
    refine ⟨rfl, (by decide : Lookup.nothing ≠ .unprocessed), fun _ h => ?_, fun _ => rfl⟩
    cases h
  simp only [walkedTwice, mem_cons, not_mem_nil, or_false] at hmem
  obtain rfl | rfl | rfl := hmem
  · exact hwalker 0 ⟨true, 1⟩
  · exact circle_processed true 1 _ mem_cons_self
  · exact hwalker 1 ⟨true, 2⟩

theorem propagation_bounded_walkedTwice :
    (∀ hop ∈ walkedTwice, hop.Bounded) ∧
      walkedTwice.countP (fun hop => !hop.srdiMatch) ≤ ((2 : Int) - 0).toNat :=
  propagation_bounded (by decide) (by decide) chain_walkedTwice walkedTwice_processed

end JxtaC.Discovery
