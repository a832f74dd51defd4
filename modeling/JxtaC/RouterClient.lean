import JxtaC.ResolverQuery
import Mathlib.Data.List.AList
import Mathlib.Data.List.MinMax

/-
  The choice of a route by the router client (jxta_router_client.c): the address with the best
  metric of an access point or of a relay, and the table of the direct routes that failed lately.
  The URI parser and the transports are parameters. Times do not overflow.
-/

namespace JxtaC

open Lib List

namespace RouterClient

/-- `ROUTING_IGNORE_ADDRESS_PERIOD`. -/
def routingIgnoreAddressPeriod : Nat := 60 * 1000

/-- `INT_MIN`. -/
def intMin : Int := -2 ^ 31

/-- `Jxta_transport`: whether it has a messenger for an address, and its metric. -/
structure Transport where
  messengerGet : EndpointAddress → Bool
  metricGet : Int
  range : intMin ≤ metricGet ∧ metricGet < 2 ^ 31

/-- `jxta_endpoint_service_lookup_transport`. -/
abbrev Transports := CString → Option Transport

/-- `_jxta_router_client`, and what `jpr_time_now` returns. -/
structure Router where
  started : Bool
  failedConnections : AList fun _ : List Byte => Nat
  timeNow : Nat

/-- A call of `jxta_router_select_best_route`: it comes some time after the last one, and takes some
time. -/
structure Call where
  ap : AccessPointAdvertisement
  hop : Option AccessPointAdvertisement
  transports : Transports
  waited : Nat
  took : Nat

/-- `reachable_address`. -/
def reachableAddress (transports : Transports) (addr : EndpointAddress) : Int :=
  match transports addr.protocolName with
  | some transport => if transport.messengerGet addr then transport.metricGet else intMin
  | none => intMin

/-- `failed_address_add`. -/
def failedAddressAdd (router : Router) (addressKey : List Byte) : Router :=
  { router with
    failedConnections :=
      router.failedConnections.insert addressKey (router.timeNow + routingIgnoreAddressPeriod) }

/-- `failed_address_exists`. -/
def failedAddressExists (router : Router) (addressKey : List Byte) : Router × Bool :=
  match router.failedConnections.lookup addressKey with
  | some ignoreUntilTime =>
    if ignoreUntilTime < router.timeNow then
      ({ router with failedConnections := router.failedConnections.erase addressKey }, false)
    else (router, true)
  | none => (router, false)

section Code
variable (uriParse : CString → Uri)

/-- The loop of `jxta_router_select_best_address`. -/
def selectLoop (transports : Transports) :
    List (List Byte) → Option EndpointAddress → Int → Option EndpointAddress
  | [], bestAddr, _ => bestAddr
  | addr :: addresses, bestAddr, best =>
    match EndpointAddress.new uriParse (.ofBuffer addr) with
    | none => none
    | some eaddr =>
      let metric := reachableAddress transports eaddr
      if best < metric then selectLoop transports addresses (some eaddr) metric
      else selectLoop transports addresses bestAddr best

/-- `jxta_router_select_best_address`. -/
def selectBestAddress (transports : Transports) (ap : AccessPointAdvertisement) :
    Option EndpointAddress := selectLoop uriParse transports ap.endpoints none intMin

/-- `jxta_router_select_best_route`. -/
def selectBestRoute (router : Router) (c : Call) : Router × Option EndpointAddress :=
  let router := { router with timeNow := router.timeNow + c.waited }
  if !router.started then (router, none)
  else
    let viaHop := c.hop.bind (selectBestAddress uriParse c.transports)
    let xmlKey := c.ap.getXml
    let (router, failed) := failedAddressExists router xmlKey
    if failed then (router, viaHop.or (selectBestAddress uriParse c.transports c.ap))
    else
      let router := { router with timeNow := router.timeNow + c.took }
      match selectBestAddress uriParse c.transports c.ap with
      | some addr => (router, some addr)
      | none => (failedAddressAdd router xmlKey, viaHop)

/-! ## the claim of the route -/

/-- Some transport has a messenger for the address. -/
def reachable (transports : Transports) (addr : EndpointAddress) : Bool :=
  (transports addr.protocolName).any fun transport => transport.messengerGet addr

/-- The addresses of an access point that can be parsed. -/
def parsed (addresses : List (List Byte)) : List EndpointAddress :=
  addresses.filterMap fun addr => EndpointAddress.new uriParse (.ofBuffer addr)

/-- Those of them that can be reached. -/
def candidates (transports : Transports) (addresses : List (List Byte)) : List EndpointAddress :=
  (parsed uriParse addresses).filter (reachable transports)

/-- The metric of the address is not the least number there is. -/
def above (transports : Transports) (addr : EndpointAddress) : Bool :=
  intMin < reachableAddress transports addr

/-- The candidates with a metric above the least number. -/
def eligible (transports : Transports) (addresses : List (List Byte)) : List EndpointAddress :=
  (candidates uriParse transports addresses).filter (above transports)

/-- The first of those with the greatest metric. -/
def greatest (transports : Transports) (addresses : List EndpointAddress) :
    Option EndpointAddress :=
  @argmax _ _ Int.instLinearOrder.toPreorder Int.decLt (reachableAddress transports) addresses

/-- The first of the best of the candidates. -/
def preferred (transports : Transports) (addresses : List (List Byte)) : Option EndpointAddress :=
  greatest transports (eligible uriParse transports addresses)

/-- The candidates of the direct route. -/
def Call.direct (c : Call) : List EndpointAddress := candidates uriParse c.transports c.ap.endpoints

/-- The addresses of the relay. -/
def Call.relayed (c : Call) : List (List Byte) := (c.hop.map (·.endpoints)).getD []

/-- The candidates of the relay. -/
def Call.relay (c : Call) : List EndpointAddress := candidates uriParse c.transports c.relayed

/-- An address of the list, with the best metric of all. -/
def Best (transports : Transports) (l : List EndpointAddress) (a : EndpointAddress) : Prop :=
  a ∈ l ∧ ∀ b ∈ l, reachableAddress transports b ≤ reachableAddress transports a

end Code

/-- The table has a failure whose period is not over. -/
def Router.Listed (router : Router) (xmlKey : List Byte) (now : Nat) : Prop :=
  ∃ ignoreUntilTime, router.failedConnections.lookup xmlKey = some ignoreUntilTime ∧
    now ≤ ignoreUntilTime

/-- The router, and the direct attempts that failed under no ban so far: for which access point, and
when. -/
structure Observed where
  router : Router
  failures : List (List Byte × Nat)

namespace Observed

/-- The router as it starts. -/
def start (timeNow : Nat) : Observed := ⟨⟨true, ∅, timeNow⟩, []⟩

/-- A direct attempt for the access point failed within the period before this time. -/
def banned (s : Observed) (xmlKey : List Byte) (now : Nat) : Bool :=
  s.failures.any fun f => f.1 = xmlKey ∧ now ≤ f.2 + routingIgnoreAddressPeriod

/-- The call comes under a ban. -/
def bans (s : Observed) (c : Call) : Bool := s.banned c.ap.getXml (s.router.timeNow + c.waited)

section Steps
variable (uriParse : CString → Uri)

def step (s : Observed) (c : Call) : Exec (Observed × Option EndpointAddress) :=
  let (router, found) := selectBestRoute uriParse s.router c
  .ok (⟨router, s.failures ++
    if s.bans c = false ∧ c.direct uriParse = [] then [(c.ap.getXml, router.timeNow)] else []⟩,
    found)

/-- The table has the failures of the last period. -/
def Recorded (s : Observed) : Prop :=
  ∀ xmlKey now, s.router.timeNow ≤ now →
    (s.router.Listed xmlKey now ↔ s.banned xmlKey now = true)

/-- What is chosen of the candidates of the access point that is tried first, and of those of the
other. -/
structure Chooses (transports : Transports) (first other : List EndpointAddress)
    (found : Option EndpointAddress) : Prop where
  null : found = none ↔ first = [] ∧ other = []
  best : ∀ a, found = some a → Best transports (if first = [] then other else first) a

/-- The relay is tried first if and only if the call comes under a ban. -/
def Selects (s : Observed) (c : Call) (found : Option EndpointAddress) : Prop :=
  if s.bans c then Chooses c.transports (c.relay uriParse) (c.direct uriParse) found
  else Chooses c.transports (c.direct uriParse) (c.relay uriParse) found

/-- Where an access point has a candidate, each of its addresses can be parsed, and the metric of
some candidate is not the least number there is. -/
def Fair (transports : Transports) (addresses : List (List Byte)) : Prop :=
  candidates uriParse transports addresses = [] ∨
    (∀ addr ∈ addresses, EndpointAddress.new uriParse (.ofBuffer addr) ≠ none) ∧
      eligible uriParse transports addresses ≠ []

/-- The access point that is tried first is fair; and so is the other one, if it has to be tried. -/
def FairPair (transports : Transports) (first other : List (List Byte)) : Prop :=
  Fair uriParse transports first ∧
    (candidates uriParse transports first = [] → Fair uriParse transports other)

/-- The choice of the other access point is as good as any of the first. -/
def SameBest (transports : Transports) (first other : List (List Byte)) : Prop :=
  Fair uriParse transports other ∧ ∃ a ∈ preferred uriParse transports other,
    Best transports (candidates uriParse transports first) a

/-- A direct route that is tried first has to be found; a relay that is not found does no harm where
the direct route is as good. -/
def Safe (s : Observed) (c : Call) : Prop :=
  if s.bans c then FairPair uriParse c.transports c.relayed c.ap.endpoints ∨
    SameBest uriParse c.transports c.relayed c.ap.endpoints
  else FairPair uriParse c.transports c.ap.endpoints c.relayed

end Steps

end Observed

/-! ### the best address -/

section Select
variable {uriParse : CString → Uri} {transports : Transports}
  {addresses first other : List (List Byte)} {a : EndpointAddress}

theorem intMin_le_reachableAddress (transports : Transports) (a : EndpointAddress) :
    intMin ≤ reachableAddress transports a := by
  unfold reachableAddress
  split
  · rename_i transport _
    split
    · exact transport.range.1
    · exact Int.le_refl _
  · exact Int.le_refl _

/-- Only what is reachable has a metric above the least number. -/
theorem reachable_of_lt (h : intMin < reachableAddress transports a) :
    reachable transports a = true := by
  unfold reachableAddress at h
  unfold reachable
  cases htransport : transports a.protocolName with
  | none =>
    rw [htransport] at h
    exact absurd h (Int.lt_irrefl _)
  | some transport =>
    rw [htransport] at h
    by_contra hno
    have hunreached : ¬transport.messengerGet a = true := hno
    simp only [if_neg hunreached] at h
    exact Int.lt_irrefl _ h

/-- The metric of the best address so far. -/
def bestMetric (transports : Transports) (bestAddr : Option EndpointAddress) : Int :=
  (bestAddr.map (reachableAddress transports)).getD intMin

theorem above_iff : above transports a = true ↔ intMin < reachableAddress transports a :=
  decide_eq_true_iff

/-- One more address for the best of those with a metric above the least. -/
theorem greatest_snoc (transports : Transports) (seen : List EndpointAddress)
    (a : EndpointAddress) :
    greatest transports ((seen ++ [a]).filter (above transports)) =
      if bestMetric transports (greatest transports (seen.filter (above transports))) <
        reachableAddress transports a
      then some a
      else greatest transports (seen.filter (above transports)) := by
  unfold greatest
  rw [filter_append]
  cases hbest : @argmax _ _ Int.instLinearOrder.toPreorder Int.decLt (reachableAddress transports)
    (seen.filter (above transports)) with
  | none =>
    rw [argmax_eq_none.mp hbest, nil_append]
    by_cases habove : above transports a = true
    · rw [filter_cons_of_pos habove]
      exact (if_pos (above_iff.mp habove)).symm
    · rw [filter_cons_of_neg habove]
      exact (if_neg fun hno => habove (above_iff.mpr hno)).symm
  | some m =>
    have hm : intMin < reachableAddress transports m :=
      above_iff.mp (mem_filter.mp (argmax_mem hbest)).2
    by_cases habove : above transports a = true
    · rw [filter_cons_of_pos habove, filter_nil, argmax_concat, hbest]
      rfl
    · have hle : ¬reachableAddress transports m < reachableAddress transports a :=
        fun hno => habove (above_iff.mpr (Int.lt_trans hm hno))
      rw [filter_cons_of_neg habove, filter_nil, append_nil, hbest]
      exact (if_neg hle).symm

/-- Where every address can be parsed the loop ends with the best of all. -/
theorem selectLoop_eq
    (hparse : ∀ addr ∈ addresses, EndpointAddress.new uriParse (.ofBuffer addr) ≠ none)
    (seen : List EndpointAddress) :
    selectLoop uriParse transports addresses (greatest transports (seen.filter (above transports)))
        (bestMetric transports (greatest transports (seen.filter (above transports)))) =
      greatest transports ((seen ++ parsed uriParse addresses).filter (above transports)) := by
  induction addresses generalizing seen with
  | nil =>
    unfold parsed
    rw [filterMap_nil, append_nil]
    rfl
  | cons addr addresses ih =>
    obtain ⟨eaddr, headdr⟩ := Option.ne_none_iff_exists'.mp (hparse addr mem_cons_self)
    have hrest := ih (fun addr' hmem => hparse addr' (mem_cons_of_mem addr hmem))
      (seen ++ [eaddr])
    have hseen : seen ++ parsed uriParse (addr :: addresses) =
        (seen ++ [eaddr]) ++ parsed uriParse addresses := by
      unfold parsed
      rw [filterMap_cons_some (by exact headdr), append_assoc]
      rfl
    rw [greatest_snoc] at hrest
    rw [hseen]
    simp only [selectLoop, headdr]
    split
    · rename_i hlt
      rw [if_pos hlt] at hrest
      exact hrest
    · rename_i hle
      rw [if_neg hle] at hrest
      exact hrest

/-- An address that cannot be parsed ends the loop. -/
theorem selectLoop_unparsable {addr : List Byte} (hmem : addr ∈ addresses)
    (haddr : EndpointAddress.new uriParse (.ofBuffer addr) = none)
    (bestAddr : Option EndpointAddress) (best : Int) :
    selectLoop uriParse transports addresses bestAddr best = none := by
  induction addresses generalizing bestAddr best with
  | nil => exact absurd hmem not_mem_nil
  | cons head addresses ih =>
    cases hhead : EndpointAddress.new uriParse (.ofBuffer head) with
    | none => simp only [selectLoop, hhead]
    | some eaddr =>
      have hrest : addr ∈ addresses := by
        rcases mem_cons.mp hmem with rfl | hrest
        · rw [hhead] at haddr
          cases haddr
        · exact hrest
      simp only [selectLoop, hhead]
      split
      · exact ih hrest _ _
      · exact ih hrest _ _

/-- What is above the least metric is reachable. -/
theorem eligible_eq (transports : Transports) (addresses : List (List Byte)) :
    eligible uriParse transports addresses =
      (parsed uriParse addresses).filter (above transports) := by
  unfold eligible candidates
  rw [filter_filter]
  apply filter_congr
  intro a _
  by_cases hlt : intMin < reachableAddress transports a
  · rw [reachable_of_lt hlt, Bool.and_true]
  · have habove : above transports a = false := decide_eq_false hlt
    rw [habove, Bool.false_and]

variable (uriParse) in
/-- One address that cannot be parsed, and no address is chosen; else the first of the best is. -/
theorem selectLoop_cases (transports : Transports) (addresses : List (List Byte)) :
    (∃ addr ∈ addresses, EndpointAddress.new uriParse (.ofBuffer addr) = none) ∧
        selectLoop uriParse transports addresses none intMin = none ∨
      (∀ addr ∈ addresses, EndpointAddress.new uriParse (.ofBuffer addr) ≠ none) ∧
        selectLoop uriParse transports addresses none intMin =
          preferred uriParse transports addresses := by
  by_cases hparse : ∀ addr ∈ addresses, EndpointAddress.new uriParse (.ofBuffer addr) ≠ none
  · refine .inr ⟨hparse, ?_⟩
    unfold preferred
    rw [eligible_eq]
    exact selectLoop_eq hparse []
  · obtain ⟨addr, hmem, hnone⟩ : ∃ addr ∈ addresses,
        EndpointAddress.new uriParse (.ofBuffer addr) = none := by
      by_contra hno
      exact hparse fun addr hmem hnone => hno ⟨addr, hmem, hnone⟩
    exact .inl ⟨⟨addr, hmem, hnone⟩, selectLoop_unparsable hmem hnone none intMin⟩

/-- What is preferred is a best candidate. -/
theorem best_of_preferred (h : preferred uriParse transports addresses = some a) :
    Best transports (candidates uriParse transports addresses) a := by
  have hmem := mem_filter.mp (argmax_mem h)
  refine ⟨hmem.1, fun b hb => ?_⟩
  by_cases hlt : intMin < reachableAddress transports b
  · exact le_of_mem_argmax (mem_filter.mpr ⟨hb, decide_eq_true hlt⟩) h
  · exact Int.le_trans (Int.not_lt.mp hlt) (intMin_le_reachableAddress transports a)

theorem best_of_selectLoop (h : selectLoop uriParse transports addresses none intMin = some a) :
    preferred uriParse transports addresses = some a := by
  rcases selectLoop_cases uriParse transports addresses with ⟨-, hnone⟩ | ⟨-, heq⟩
  · exact absurd (hnone.symm.trans h) (by simp)
  · exact heq.symm.trans h

/-- A fair access point with a candidate has one that is found. -/
theorem selectLoop_fair (hfair : Observed.Fair uriParse transports addresses)
    (hsome : candidates uriParse transports addresses ≠ []) :
    ∃ a, selectLoop uriParse transports addresses none intMin = some a := by
  obtain ⟨hparse, heligible⟩ := hfair.resolve_left hsome
  rcases selectLoop_cases uriParse transports addresses with ⟨hno, -⟩ | ⟨-, heq⟩
  · obtain ⟨addr, hmem, hnone⟩ := hno
    exact absurd hnone (hparse addr hmem)
  · rw [heq]
    exact Option.ne_none_iff_exists'.mp fun hnone => heligible (argmax_eq_none.mp hnone)

theorem selectLoop_eq_none (h : candidates uriParse transports addresses = []) :
    selectLoop uriParse transports addresses none intMin = none := by
  by_contra hne
  obtain ⟨a, ha⟩ := Option.ne_none_iff_exists'.mp hne
  have hmem := (best_of_preferred (best_of_selectLoop ha)).1
  rw [h] at hmem
  exact not_mem_nil hmem

/-- Of an access point that is not fair no candidate is found. -/
theorem selectLoop_unfair (h : ¬Observed.Fair uriParse transports addresses) :
    selectLoop uriParse transports addresses none intMin = none := by
  rcases selectLoop_cases uriParse transports addresses with
    ⟨-, hnone⟩ | ⟨hparse, heq⟩
  · exact hnone
  · rw [heq]
    by_contra hne
    exact h (.inr ⟨hparse, fun hnone => hne (argmax_eq_none.mpr hnone)⟩)

/-- Fair access points that are tried in turn are chosen from as they should be. -/
theorem chooses_of_fairPair (h : Observed.FairPair uriParse transports first other) :
    Observed.Chooses transports (candidates uriParse transports first)
      (candidates uriParse transports other)
      ((selectLoop uriParse transports first none intMin).or
        (selectLoop uriParse transports other none intMin)) := by
  by_cases hempty : candidates uriParse transports first = []
  · rw [selectLoop_eq_none hempty, Option.none_or]
    constructor
    · constructor
      · intro hnone
        refine ⟨hempty, ?_⟩
        by_contra hsome
        obtain ⟨a, ha⟩ := selectLoop_fair (h.2 hempty) hsome
        exact absurd (hnone.symm.trans ha) (by simp)
      · exact fun hboth => selectLoop_eq_none hboth.2
    · intro a ha
      rw [if_pos hempty]
      exact best_of_preferred (best_of_selectLoop ha)
  · obtain ⟨a, ha⟩ := selectLoop_fair h.1 hempty
    rw [ha, Option.some_or]
    refine ⟨iff_of_false (by simp) fun hno => hempty hno.1, fun b hb => ?_⟩
    cases hb
    rw [if_neg hempty]
    exact best_of_preferred (best_of_selectLoop ha)

/-- Where nothing of the first access point is chosen though it has candidates, the other has to be
as good. -/
theorem sameBest_of_chooses (hunfair : ¬Observed.Fair uriParse transports first)
    (h : Observed.Chooses transports (candidates uriParse transports first)
      (candidates uriParse transports other)
      ((selectLoop uriParse transports first none intMin).or
        (selectLoop uriParse transports other none intMin))) :
    Observed.SameBest uriParse transports first other := by
  have hsome : candidates uriParse transports first ≠ [] := fun hempty => hunfair (.inl hempty)
  rw [selectLoop_unfair hunfair, Option.none_or] at h
  obtain ⟨a, ha⟩ := Option.ne_none_iff_exists'.mp fun hnone => hsome (h.null.mp hnone).1
  have hbest := h.best a ha
  rw [if_neg hsome] at hbest
  refine ⟨?_, a, best_of_selectLoop ha, hbest⟩
  by_contra hother
  exact absurd ((selectLoop_unfair hother).symm.trans ha) (by simp)

theorem fair_of_chooses (hempty : candidates uriParse transports first = [])
    (h : Observed.Chooses transports (candidates uriParse transports first)
      (candidates uriParse transports other)
      ((selectLoop uriParse transports first none intMin).or
        (selectLoop uriParse transports other none intMin))) :
    Observed.Fair uriParse transports other := by
  by_contra hunfair
  rw [selectLoop_eq_none hempty, selectLoop_unfair hunfair] at h
  exact hunfair (.inl (h.null.mp rfl).2)

theorem chooses_of_sameBest (h : Observed.SameBest uriParse transports first other) :
    Observed.Chooses transports (candidates uriParse transports first)
      (candidates uriParse transports other)
      ((selectLoop uriParse transports first none intMin).or
        (selectLoop uriParse transports other none intMin)) := by
  obtain ⟨hother, a, ha, hbest⟩ := h
  have hsome : candidates uriParse transports first ≠ [] := ne_nil_of_mem hbest.1
  by_cases hfair : Observed.Fair uriParse transports first
  · exact chooses_of_fairPair ⟨hfair, fun _ => hother⟩
  · have hmem := (best_of_preferred ha).1
    obtain ⟨b, hb⟩ := selectLoop_fair hother (ne_nil_of_mem hmem)
    have hab : a = b := Option.some.inj (ha.symm.trans (best_of_selectLoop hb))
    rw [selectLoop_unfair hfair, Option.none_or, hb]
    refine ⟨iff_of_false (by simp) fun hno => hsome hno.1, fun b' hb' => ?_⟩
    cases hb'
    rw [if_neg hsome, ← hab]
    exact hbest

/-- Of two access points that are tried in turn the choice is as it should be if and only if they
are fair, or the other is as good as the first. -/
theorem chooses_iff :
    (Observed.FairPair uriParse transports first other ∨
        Observed.SameBest uriParse transports first other) ↔
      Observed.Chooses transports (candidates uriParse transports first)
        (candidates uriParse transports other)
        ((selectLoop uriParse transports first none intMin).or
          (selectLoop uriParse transports other none intMin)) := by
  constructor
  · intro h
    exact h.elim chooses_of_fairPair chooses_of_sameBest
  · intro h
    by_cases hfair : Observed.Fair uriParse transports first
    · exact .inl ⟨hfair, fun hempty => fair_of_chooses hempty h⟩
    · exact .inr (sameBest_of_chooses hfair h)

end Select

/-! ### the failures -/

section Table
variable (router : Router) (addressKey : List Byte)

/-- The look tells whether there is a failure whose period is not over, and takes no such away. -/
theorem failedAddressExists_spec :
    ∃ router' failed, failedAddressExists router addressKey = (router', failed) ∧
      (failed = true ↔ router.Listed addressKey router.timeNow) ∧
      router'.started = router.started ∧ router'.timeNow = router.timeNow ∧
      ∀ xmlKey now, router.timeNow ≤ now →
        (router'.Listed xmlKey now ↔ router.Listed xmlKey now) := by
  unfold failedAddressExists
  cases hlookup : router.failedConnections.lookup addressKey with
  | none =>
    refine ⟨router, false, rfl, iff_of_false (by decide) fun hno => ?_, rfl, rfl,
      fun _ _ _ => Iff.rfl⟩
    obtain ⟨ignoreUntilTime, hsome, -⟩ := hno
    exact absurd (hlookup.symm.trans hsome) (by simp)
  | some ignoreUntilTime =>
    have hlisted : ∀ now, router.Listed addressKey now ↔ now ≤ ignoreUntilTime := by
      intro now
      constructor
      · intro h
        obtain ⟨ignoreUntilTime', hsome, hle⟩ := h
        obtain rfl := Option.some.inj (hlookup.symm.trans hsome)
        exact hle
      · exact fun hle => ⟨ignoreUntilTime, hlookup, hle⟩
    by_cases hexpired : ignoreUntilTime < router.timeNow
    · refine ⟨{ router with failedConnections := router.failedConnections.erase addressKey }, false,
        if_pos hexpired, iff_of_false (by decide) fun hno => ?_, rfl, rfl,
        fun xmlKey now hnow => ?_⟩
      · exact Nat.not_le.mpr hexpired ((hlisted _).mp hno)
      · by_cases hkey : xmlKey = addressKey
        · subst hkey
          refine iff_of_false (fun hno => ?_) fun hno => ?_
          · obtain ⟨ignoreUntilTime', hsome, -⟩ := hno
            rw [AList.lookup_erase] at hsome
            cases hsome
          · exact Nat.not_le.mpr (Nat.lt_of_lt_of_le hexpired hnow) ((hlisted now).mp hno)
        · unfold Router.Listed
          rw [AList.lookup_erase_ne hkey]
    · exact ⟨router, true, if_neg hexpired,
        iff_of_true rfl ((hlisted _).mpr (Nat.not_lt.mp hexpired)), rfl, rfl, fun _ _ _ => Iff.rfl⟩

theorem listed_failedAddressAdd (xmlKey : List Byte) (now : Nat) :
    (failedAddressAdd router addressKey).Listed xmlKey now ↔
      if xmlKey = addressKey then now ≤ router.timeNow + routingIgnoreAddressPeriod
      else router.Listed xmlKey now := by
  unfold failedAddressAdd Router.Listed
  by_cases hkey : xmlKey = addressKey
  · subst hkey
    rw [if_pos rfl, AList.lookup_insert]
    constructor
    · intro h
      obtain ⟨ignoreUntilTime, hsome, hle⟩ := h
      rw [Option.some.inj hsome]
      exact hle
    · exact fun hle => ⟨_, rfl, hle⟩
  · rw [if_neg hkey, AList.lookup_insert_ne hkey]

end Table

namespace Observed

section Bans
variable {uriParse : CString → Uri} {s s' : Observed} {c : Call} {found : Option EndpointAddress}

/-- The router runs, and no failure is of a time to come. -/
structure Running (s : Observed) : Prop where
  started : s.router.started = true
  past : ∀ f ∈ s.failures, f.2 ≤ s.router.timeNow

theorem Running.not_stopped (h : Running s) : ¬(!s.router.started) = true := by
  rw [h.started]
  decide

theorem banned_iff {xmlKey : List Byte} {now : Nat} : s.banned xmlKey now = true ↔
    ∃ t, (xmlKey, t) ∈ s.failures ∧ now ≤ t + routingIgnoreAddressPeriod := by
  unfold banned
  rw [any_eq_true]
  constructor
  · intro h
    obtain ⟨⟨key, t⟩, hmem, htest⟩ := h
    obtain ⟨rfl, hle⟩ := of_decide_eq_true htest
    exact ⟨t, hmem, hle⟩
  · intro h
    obtain ⟨t, hmem, hle⟩ := h
    exact ⟨(xmlKey, t), hmem, decide_eq_true ⟨rfl, hle⟩⟩

theorem viaHop_eq (uriParse : CString → Uri) (c : Call) :
    c.hop.bind (selectBestAddress uriParse c.transports) =
      selectLoop uriParse c.transports c.relayed none intMin := by
  unfold Call.relayed
  cases c.hop with
  | none => rfl
  | some hop => rfl

theorem step_eq : s.step uriParse c =
    .ok (⟨(selectBestRoute uriParse s.router c).1, s.failures ++
      if s.bans c = false ∧ c.direct uriParse = []
      then [(c.ap.getXml, (selectBestRoute uriParse s.router c).1.timeNow)] else []⟩,
      (selectBestRoute uriParse s.router c).2) := rfl

variable (uriParse) in
/-- A call under a ban tries the relay first, and changes nothing of what the table has. -/
theorem step_banned (hs : Running s) (hrec : Recorded s) (hban : s.bans c = true) :
    ∃ router, s.step uriParse c = .ok (⟨router, s.failures⟩,
        (selectLoop uriParse c.transports c.relayed none intMin).or
          (selectLoop uriParse c.transports c.ap.endpoints none intMin)) ∧
      Recorded ⟨router, s.failures⟩ := by
  obtain ⟨router, failed, hexists, hfailed, hstarted, htime, hlisted⟩ := failedAddressExists_spec
    { s.router with timeNow := s.router.timeNow + c.waited } c.ap.getXml
  have hkey := hrec c.ap.getXml (s.router.timeNow + c.waited) (Nat.le_add_right _ _)
  have htrue : failed = true := hfailed.mpr (hkey.mpr hban)
  refine ⟨router, ?_, fun xmlKey now hnow => ?_⟩
  · have hroute : selectBestRoute uriParse s.router c = (router,
        (selectLoop uriParse c.transports c.relayed none intMin).or
          (selectLoop uriParse c.transports c.ap.endpoints none intMin)) := by
      unfold selectBestRoute
      simp only [hexists, htrue, viaHop_eq]
      rw [if_neg hs.not_stopped]
      rfl
    rw [step_eq, hroute, if_neg fun hno => absurd (hban.symm.trans hno.1) (by decide),
      append_nil]
  · have hlater : s.router.timeNow + c.waited ≤ now := Nat.le_trans (Nat.le_of_eq htime.symm) hnow
    rw [hlisted xmlKey now hlater]
    exact hrec xmlKey now (Nat.le_trans (Nat.le_add_right _ _) hlater)

variable (uriParse) in
/-- Any other call tries the direct route first, and adds it to the table where nothing is found. -/
theorem step_direct (hs : Running s) (hrec : Recorded s) (hban : s.bans c = false) :
    ∃ router, s.step uriParse c = .ok (⟨router, s.failures ++
          if c.direct uriParse = [] then [(c.ap.getXml, router.timeNow)] else []⟩,
        (selectLoop uriParse c.transports c.ap.endpoints none intMin).or
          (selectLoop uriParse c.transports c.relayed none intMin)) ∧
      router.timeNow = s.router.timeNow + c.waited + c.took ∧
      ∀ xmlKey now, router.timeNow ≤ now → (router.Listed xmlKey now ↔
        if selectLoop uriParse c.transports c.ap.endpoints none intMin = none ∧
          xmlKey = c.ap.getXml then now ≤ router.timeNow + routingIgnoreAddressPeriod
        else s.banned xmlKey now = true) := by
  obtain ⟨router, failed, hexists, hfailed, hstarted, htime, hlisted⟩ := failedAddressExists_spec
    { s.router with timeNow := s.router.timeNow + c.waited } c.ap.getXml
  have hkey := hrec c.ap.getXml (s.router.timeNow + c.waited) (Nat.le_add_right _ _)
  have hfalse : failed = false := by
    by_contra hno
    have htrue := hkey.mp (hfailed.mp (Bool.eq_true_of_not_eq_false hno))
    exact absurd (hban.symm.trans htrue) (by decide)
  have hlater : ∀ xmlKey now, s.router.timeNow + c.waited + c.took ≤ now →
      (router.Listed xmlKey now ↔ s.banned xmlKey now = true) := by
    intro xmlKey now hnow
    have hle : s.router.timeNow + c.waited ≤ now := Nat.le_trans (Nat.le_add_right _ _) hnow
    rw [hlisted xmlKey now hle]
    exact hrec xmlKey now (Nat.le_trans (Nat.le_add_right _ _) hle)
  have hclock : router.timeNow + c.took = s.router.timeNow + c.waited + c.took := by rw [htime]
  have hroute : selectBestRoute uriParse s.router c =
      (if selectLoop uriParse c.transports c.ap.endpoints none intMin = none
        then failedAddressAdd { router with timeNow := router.timeNow + c.took } c.ap.getXml
        else { router with timeNow := router.timeNow + c.took },
        (selectLoop uriParse c.transports c.ap.endpoints none intMin).or
          (selectLoop uriParse c.transports c.relayed none intMin)) := by
    unfold selectBestRoute
    simp only [hexists, hfalse, viaHop_eq]
    rw [if_neg hs.not_stopped]
    unfold selectBestAddress
    cases selectLoop uriParse c.transports c.ap.endpoints none intMin with
    | none => rfl
    | some addr => rfl
  refine ⟨(selectBestRoute uriParse s.router c).1, ?_, ?_, ?_⟩
  · simp only [step_eq, hban, true_and, hroute]
  · rw [hroute, ← hclock]
    by_cases hnone : selectLoop uriParse c.transports c.ap.endpoints none intMin = none
    · rw [if_pos hnone]
      rfl
    · rw [if_neg hnone]
  · intro xmlKey now hnow
    by_cases hnone : selectLoop uriParse c.transports c.ap.endpoints none intMin = none
    · rw [hroute, if_pos hnone] at hnow ⊢
      rw [listed_failedAddressAdd]
      by_cases hkey : xmlKey = c.ap.getXml
      · rw [if_pos hkey, if_pos (And.intro hnone hkey)]
        rfl
      · rw [if_neg hkey, if_neg fun hno => hkey hno.2]
        exact hlater xmlKey now (Nat.le_trans (Nat.le_of_eq hclock.symm) hnow)
    · rw [hroute, if_neg hnone] at hnow ⊢
      rw [if_neg fun hno => hnone hno.1]
      exact hlater xmlKey now (Nat.le_trans (Nat.le_of_eq hclock.symm) hnow)

/-- With one more failure the router is under one more ban. -/
theorem banned_append (router router' : Router) (failures : List (List Byte × Nat))
    (addressKey xmlKey : List Byte) (t now : Nat) :
    banned ⟨router, failures ++ [(addressKey, t)]⟩ xmlKey now = true ↔
      banned ⟨router', failures⟩ xmlKey now = true ∨
        addressKey = xmlKey ∧ now ≤ t + routingIgnoreAddressPeriod := by
  unfold banned
  rw [any_append, Bool.or_eq_true, any_cons, any_nil, Bool.or_false,
    decide_eq_true_iff]

section
variable (hs : Running s)
include hs

/-- An old failure is over before a new one. -/
theorem Running.banned_le {xmlKey : List Byte} {t now : Nat} (ht : s.router.timeNow ≤ t)
    (h : s.banned xmlKey now = true) : now ≤ t + routingIgnoreAddressPeriod := by
  obtain ⟨t', hmem, hle⟩ := banned_iff.mp h
  have hpast : t' ≤ s.router.timeNow := hs.past _ hmem
  omega

/-- The direct attempt that fails is recorded, and no other, if and only if the direct route is
fair. -/
theorem recorded_iff (hban : s.bans c = false) {router : Router}
    (htime : router.timeNow = s.router.timeNow + c.waited + c.took)
    (hlisted : ∀ xmlKey now, router.timeNow ≤ now → (router.Listed xmlKey now ↔
      if selectLoop uriParse c.transports c.ap.endpoints none intMin = none ∧
        xmlKey = c.ap.getXml then now ≤ router.timeNow + routingIgnoreAddressPeriod
      else s.banned xmlKey now = true)) :
    Fair uriParse c.transports c.ap.endpoints ↔
      Recorded ⟨router, s.failures ++
        if c.direct uriParse = [] then [(c.ap.getXml, router.timeNow)] else []⟩ := by
  have hlater : s.router.timeNow ≤ router.timeNow := by omega
  by_cases hdirect : c.direct uriParse = []
  · have hnone := selectLoop_eq_none hdirect
    refine iff_of_true (.inl hdirect) fun xmlKey now hnow => ?_
    rw [hlisted xmlKey now hnow, if_pos hdirect, banned_append router s.router]
    by_cases hkey : xmlKey = c.ap.getXml
    · rw [if_pos (And.intro hnone hkey)]
      constructor
      · exact fun hle => .inr ⟨hkey.symm, hle⟩
      · intro h
        rcases h with hold | ⟨-, hle⟩
        · exact hs.banned_le hlater hold
        · exact hle
    · rw [if_neg fun hno => hkey hno.2]
      constructor
      · exact Or.inl
      · intro h
        exact h.resolve_right fun hno => hkey hno.1.symm
  · rw [if_neg hdirect, append_nil]
    constructor
    · intro hfair xmlKey now hnow
      obtain ⟨a, ha⟩ := selectLoop_fair hfair hdirect
      rw [hlisted xmlKey now hnow, if_neg fun hno => absurd (hno.1.symm.trans ha) (by simp)]
      rfl
    · intro h
      by_contra hunfair
      have hnew := (hlisted c.ap.getXml router.timeNow (Nat.le_refl _)).mpr
      rw [if_pos (And.intro (selectLoop_unfair hunfair) rfl)] at hnew
      have hagain := (h c.ap.getXml router.timeNow (Nat.le_refl _)).mp (hnew (Nat.le_add_right _ _))
      obtain ⟨t, hmem, hle⟩ := banned_iff.mp hagain
      have hstill : s.bans c = true := banned_iff.mpr ⟨t, hmem, by omega⟩
      exact absurd (hban.symm.trans hstill) (by decide)

/-- A safe call, and no other, chooses and records as it should. -/
theorem step_iff (hrec : Recorded s) :
    Safe uriParse s c ↔ ∃ s' found, s.step uriParse c = .ok (s', found) ∧
      Selects uriParse s c found ∧ Recorded s' := by
  unfold Safe Selects
  cases hban : s.bans c with
  | true =>
    obtain ⟨router, hstep, hrec'⟩ := step_banned uriParse hs hrec hban
    rw [if_pos rfl, chooses_iff]
    constructor
    · exact fun hchooses => ⟨_, _, hstep, hchooses, hrec'⟩
    · intro h
      obtain ⟨s', found, hstep', hchooses, -⟩ := h
      obtain ⟨rfl, rfl⟩ := Prod.mk.inj (Except.ok.inj (hstep.symm.trans hstep'))
      exact hchooses
  | false =>
    obtain ⟨router, hstep, htime, hlisted⟩ := step_direct uriParse hs hrec hban
    have hrecorded := recorded_iff hs hban htime hlisted
    rw [if_neg (by decide)]
    constructor
    · intro hpair
      exact ⟨_, _, hstep, chooses_of_fairPair hpair, hrecorded.mp hpair.1⟩
    · intro h
      obtain ⟨s', found, hstep', hchooses, hrec'⟩ := h
      obtain ⟨rfl, rfl⟩ := Prod.mk.inj (Except.ok.inj (hstep.symm.trans hstep'))
      exact ⟨hrecorded.mpr hrec', fun hempty => fair_of_chooses hempty hchooses⟩

/-- The router goes on, and its time does not go back. -/
theorem selectBestRoute_runs (uriParse : CString → Uri) (c : Call) :
    (selectBestRoute uriParse s.router c).1.started = true ∧
      s.router.timeNow ≤ (selectBestRoute uriParse s.router c).1.timeNow := by
  obtain ⟨router, failed, hexists, -, hstarted, htime, -⟩ := failedAddressExists_spec
    { s.router with timeNow := s.router.timeNow + c.waited } c.ap.getXml
  have hon : router.started = true := hstarted.trans hs.started
  have hlater : router.timeNow = s.router.timeNow + c.waited := htime
  unfold selectBestRoute
  simp only [hexists]
  rw [if_neg hs.not_stopped]
  cases failed with
  | true => exact ⟨hon, by simp only [if_pos]; omega⟩
  | false =>
    cases selectBestAddress uriParse c.transports c.ap with
    | some addr => exact ⟨hon, by show _ ≤ router.timeNow + c.took; omega⟩
    | none => exact ⟨hon, by show _ ≤ router.timeNow + c.took; omega⟩

theorem running_step (hstep : s.step uriParse c = .ok (s', found)) : Running s' := by
  rw [step_eq] at hstep
  cases hstep
  obtain ⟨hon, hlater⟩ := selectBestRoute_runs hs uriParse c
  refine ⟨hon, fun f hf => ?_⟩
  rcases mem_append.mp hf with hold | hnew
  · exact Nat.le_trans (hs.past f hold) hlater
  · split at hnew
    · rw [mem_singleton.mp hnew]
    · exact absurd hnew not_mem_nil

end

end Bans

end Observed

variable (uriParse : CString → Uri)

/-- The best route is chosen and the direct attempts that fail are recorded along the runs in which
every call is safe, and along no others. -/
theorem best_route_along_iff (timeNow : Nat) (calls : List Call) :
    Along (Observed.step uriParse) Observed.Recorded (fun s c found _ => s.Selects uriParse c found)
        (.start timeNow) calls ↔
      SafeRun (Observed.step uriParse) (Observed.Safe uriParse) (.start timeNow) calls := by
  refine along_iff_safeRun (fun s c s' found => Observed.running_step)
    (fun s c => Observed.step_iff) calls ?_ ?_
  · exact ⟨rfl, fun f hf => absurd hf not_mem_nil⟩
  · intro xmlKey now _
    refine iff_of_false (fun h => ?_) (by simp [Observed.start, Observed.banned])
    obtain ⟨ignoreUntilTime, hsome, -⟩ := h
    exact absurd (hsome.symm.trans (AList.lookup_empty xmlKey)) (by simp)

/-- `apr_uri_parse` of a text without a scheme, and of one with a scheme, a host and a port. -/
def parseTexts (s : CString) : Uri :=
  if s.bytes = text "tcp://10.0.0.1:9701" then
    ⟨some (.ofBuffer (text "tcp")), some (.ofBuffer (text "10.0.0.1")),
      some (.ofBuffer (text "9701")), none, none, none⟩
  else ⟨none, none, none, some s, none, none⟩

/-- The address that can be reached is given up for the one that cannot be parsed. -/
theorem not_best_route_along : ¬∀ (uriParse : CString → Uri) (timeNow : Nat) (calls : List Call),
    Along (Observed.step uriParse) Observed.Recorded (fun s c found _ => s.Selects uriParse c found)
      (.start timeNow) calls := by
  intro h
  let call : Call := ⟨⟨none, [text "10.0.0.1", text "tcp://10.0.0.1:9701"]⟩, none,
    fun _ => some ⟨fun _ => true, 6, by decide⟩, 0, 0⟩
  obtain ⟨-, s', found, hstep, hselects, -⟩ := h parseTexts 0 [call]
  have hgone : (Observed.start 0).step parseTexts call = .ok (_, none) := rfl
  obtain ⟨-, rfl⟩ := Prod.mk.inj (Except.ok.inj (hgone.symm.trans hstep))
  have hchooses : Observed.Chooses call.transports (call.direct parseTexts) (call.relay parseTexts)
    none := hselects
  exact absurd (hchooses.null.mp rfl).1 (by decide)

end RouterClient

end JxtaC
