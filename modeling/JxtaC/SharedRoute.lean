import JxtaC.Lib.XmlBare
import JxtaC.ResolverQuery.Document

/-
  Route advertisements (jxta_routea.c) as objects: the access points of a route are held elsewhere
  too. `getXml` prints the destination without its peer id, and takes it from the access point for
  that. `kept_iff`: a route is as it was behind the printing, and is read back from the document,
  just if its destination has no peer id of its own and no address changes when it is trimmed.
-/

namespace JxtaC

open Lib Lib.XmlDocument Dispatch List

/-- The access points, by their addresses in memory. -/
abbrev AccessPoints := Nat → AccessPointAdvertisement

/-- `jxta_AccessPointAdvertisement_set_PID`. -/
def AccessPoints.setPID (points : AccessPoints) (apa : Nat) (pid : Option JxtaId) : AccessPoints :=
  Function.update points apa { points apa with pid }

/-- `Jxta_RouteAdvertisement`, with pointers to its access points. -/
structure RouteObject where
  pid : Option JxtaId
  dest : Option Nat
  hops : List Nat
  deriving DecidableEq

namespace RouteObject

/-- The route, with what its access points hold. -/
def value (ad : RouteObject) (points : AccessPoints) : RouteAdvertisement :=
  ⟨ad.pid, ad.dest.map points, ad.hops.map points, .nowhere⟩

/-- `jxta_RouteAdvertisement_get_DestPID`, which keeps the peer id that it finds. -/
def getDestPID (ad : RouteObject) (points : AccessPoints) : RouteObject :=
  { ad with pid := ad.pid.or (ad.dest.bind fun dest => (points dest).pid) }

/-- `hops_printer`. -/
def hopsPrinter (ad : RouteObject) (points : AccessPoints) : List Byte :=
  if ad.hops = [] then []
  else text "<Hops>\n" ++ ad.hops.flatMap (fun hop => (points hop).getXml) ++ text "</Hops>\n"

/-- `jxta_RouteAdvertisement_get_xml`: the document, and the objects behind it. -/
def getXml (ad : RouteObject) (points : AccessPoints) :
    Except Status (List Byte × RouteObject × AccessPoints) :=
  match ad.dest with
  | none => .error .invalidArgument
  | some dest =>
    let ad := ad.getDestPID points
    let wroteDstPID :=
      match ad.pid with
      | some pid => element (text "DstPID") pid.toJString
      | none => []
    -- the peer id is in the document already
    let points := if ad.pid.isSome then points.setPID dest none else points
    .ok (text "<jxta:RA xmlns:jxta=\"http://jxta.org\">\n" ++ wroteDstPID ++
      element (text "Dst") (points dest).getXml ++ text "\n" ++ ad.hopsPrinter points ++
      text "</jxta:RA>\n", ad, points)

variable {ad : RouteObject} {points : AccessPoints} {dest : Nat}

/-! ## what printing does to the objects -/

theorem setPID_none (h : (points dest).pid = none) : points.setPID dest none = points := by
  unfold AccessPoints.setPID
  rw [← h]
  exact Function.update_eq_self dest points

section
variable (hdest : ad.dest = some dest)
include hdest

/-- Of the access points only the destination changes, and of that the peer id. -/
theorem getXml_changes {xml : List Byte} {ad' : RouteObject} {points' : AccessPoints}
    (hxml : ad.getXml points = .ok (xml, ad', points')) :
    ad' = { ad with pid := ad.pid.or (points dest).pid } ∧
      points' =
        if (ad.pid.or (points dest).pid).isSome then points.setPID dest none else points := by
  obtain ⟨pid, target, hops⟩ := ad
  obtain rfl : target = some dest := hdest
  obtain ⟨-, hrest⟩ := Prod.mk.inj (Except.ok.inj hxml)
  cases hrest
  exact ⟨rfl, rfl⟩

/-- A destination without a peer id of its own is printed as it is. -/
theorem getXml_of_none (hnone : (points dest).pid = none) :
    ∃ xml, ad.getXml points = .ok (xml, ad, points) ∧ (ad.value points).getXml = some xml := by
  have hpid : ad.getDestPID points = ad := by
    unfold getDestPID
    rw [hdest, Option.bind_some, hnone, Option.or_none, ← hdest]
  have hpoints : (if ad.pid.isSome then points.setPID dest none else points) = points := by
    rw [setPID_none hnone, ite_self]
  have hvalue : (ad.value points).dest = some (points dest) := by
    unfold value
    rw [hdest]
    rfl
  have hpid' : (ad.value points).getDestPID = ad.pid := by
    unfold RouteAdvertisement.getDestPID
    rw [hvalue, Option.bind_some, hnone, Option.or_none]
    rfl
  have hsame : ({ points dest with pid := none } : AccessPointAdvertisement) = points dest := by
    rw [← hnone]
  have hhops : (ad.value points).hops = ad.hops.map points := rfl
  unfold getXml RouteAdvertisement.getXml
  rw [hdest, hvalue]
  dsimp only
  rw [hpid, hpoints, hpid', hsame, hhops]
  refine ⟨_, rfl, congrArg some ?_⟩
  unfold hopsPrinter
  rw [flatMap_map]
  cases ad.pid <;> simp [map_eq_nil_iff]

/-- Printing leaves everything as it was just if the destination has no peer id. -/
theorem unchanged_iff :
    (∃ xml, ad.getXml points = .ok (xml, ad, points)) ↔ (points dest).pid = none := by
  constructor
  · intro h
    obtain ⟨xml, hxml⟩ := h
    obtain ⟨-, hpoints⟩ := getXml_changes hdest hxml
    cases hpid : (points dest).pid with
    | none => rfl
    | some pid =>
      have hsome : (ad.pid.or (points dest).pid).isSome = true := by
        rw [hpid, Option.isSome_or]
        exact Bool.or_true _
      have hset : points = points.setPID dest none := hpoints.trans (if_pos hsome)
      have hnone : (points.setPID dest none dest).pid = none := by
        unfold AccessPoints.setPID
        rw [Function.update_self]
      rw [← hset, hpid] at hnone
      exact hnone
  · intro hnone
    obtain ⟨xml, hxml, -⟩ := getXml_of_none hdest hnone
    exact ⟨xml, hxml⟩

end

end RouteObject

/-! ## reading back -/

/-- The addresses that are read of those printed. -/
theorem readEndpoints_eq_iff (endpoints : List (List Byte)) :
    (endpoints.map jstringTrim).filter (· ≠ []) = endpoints ↔
      ∀ endpoint ∈ endpoints, jstringTrim endpoint = endpoint ∧ endpoint ≠ [] := by
  constructor
  · intro h endpoint hmem
    rw [← h, mem_filter, mem_map] at hmem
    obtain ⟨⟨printed, -, rfl⟩, hne⟩ := hmem
    exact ⟨jstringTrim_idem printed, of_decide_eq_true hne⟩
  · intro h
    have hmap : endpoints.map jstringTrim = endpoints :=
      (map_congr_left fun e he => (h e he).1).trans (map_id _)
    rw [hmap]
    exact filter_eq_self.mpr fun e he => decide_eq_true (h e he).2

/-- No address of an access point changes when it is read. -/
def AccessPointAdvertisement.Trimmed (apa : AccessPointAdvertisement) : Prop :=
  ∀ endpoint ∈ apa.endpoints, jstringTrim endpoint = endpoint ∧ endpoint ≠ []

theorem AccessPointAdvertisement.merge_new_eq_iff (apa : AccessPointAdvertisement) :
    AccessPointAdvertisement.new.merge apa = apa ↔ apa.Trimmed := by
  obtain ⟨pid, endpoints⟩ := apa
  have hmerge : AccessPointAdvertisement.new.merge ⟨pid, endpoints⟩ =
      ⟨pid, (endpoints.map jstringTrim).filter (· ≠ [])⟩ := by
    unfold AccessPointAdvertisement.merge
    exact congrArg (AccessPointAdvertisement.mk · _) Option.or_none
  rw [hmerge]
  constructor
  · intro h
    exact (readEndpoints_eq_iff endpoints).mp (congrArg AccessPointAdvertisement.endpoints h)
  · intro h
    exact congrArg (AccessPointAdvertisement.mk pid) ((readEndpoints_eq_iff endpoints).mpr h)

theorem map_merge_new_eq_iff (hops : List AccessPointAdvertisement) :
    hops.map AccessPointAdvertisement.new.merge = hops ↔ ∀ hop ∈ hops, hop.Trimmed := by
  constructor
  · intro h hop hmem
    have hall : ∀ hop ∈ hops, AccessPointAdvertisement.new.merge hop = hop :=
      map_inj_left.mp (h.trans (map_id hops).symm)
    exact (AccessPointAdvertisement.merge_new_eq_iff hop).mp (hall hop hmem)
  · intro h
    exact (map_congr_left fun hop hmem =>
      (AccessPointAdvertisement.merge_new_eq_iff hop).mpr (h hop hmem)).trans (map_id _)

/-- What a document can hold of a resolver query, apart from its route. -/
structure ResolverQuery.Carries (rq : ResolverQuery) : Prop where
  srcPeerId : rq.srcPeerId.Legible ∧ rq.srcPeerId ≠ .nullID
  range : rq.InRange
  query : ∃ body, rq.query = some body ∧ Representable (jstringTrim body) ∧ 0 ∉ body ∧ 13 ∉ body
  credential : ∃ ps, IsText ps ∧ jstringTrim rq.credential = sourceOf ps
  handlerName : ∃ ps, IsText ps ∧ jstringTrim rq.handlerName = sourceOf ps

/-- A whole document without a prolog. -/
theorem Dispatch.Handlers.parse_bare {Kind Ad : Type} {h : Handlers Ad} {d : Dialect Kind}
    {parser : Parser} (hparser : ConformsBare parser) {root : Node} {blank : List Byte}
    (hchars : root.isChars = false) (hroot : root.WellFormed) (hblank : IsBlank blank) {kind : Kind}
    {a b : Ad} (hyields : h.Yields (d.act root) ⟨kind, 0, none⟩ 0 a b) :
    h.parse d parser kind a (root.source ++ blank) = .ok (b, .success) := by
  obtain ⟨back, cs, hcs, hflat⟩ := hparser root blank hchars hroot hblank
  obtain ⟨made', calls, -, hmakes, hrun⟩ := hyields [kind] Nat.one_pos
  obtain ⟨accum', shown, hrun⟩ := hrun [] []
  have hdelivers : Delivers cs [] root back := hflat
  have hrun : d.run (initial kind) cs = .ok ⟨[], made', calls⟩ := by
    rw [d.run_root kind hchars hdelivers, hrun, ok_bind, nil_append]
  unfold parse Dialect.parseCharbuffer
  rw [if_neg (append_ne_nil_of_left_ne_nil (source_ne_nil hchars) blank), hcs]
  rw [hrun, ok_bind]
  simp only [if_true, pure_bind, readAd_of_makes hmakes, ok_bind]
  rfl

namespace RouteAdvertisement

/-- What is read agrees with what was printed, just if no address changes. -/
theorem received_seen_iff {ad : RouteAdvertisement} {dest : AccessPointAdvertisement}
    (hdest : ad.dest = some dest) :
    (ad.received dest).seen = ad.seen ↔ dest.Trimmed ∧ ∀ hop ∈ ad.hops, hop.Trimmed := by
  have hprinted : ad.getDestPID.or (ad.printedDest dest).pid = ad.getDestPID := by
    unfold printedDest
    split
    next hnone =>
      have hpid : dest.pid = none := by
        unfold getDestPID at hnone
        rw [hdest] at hnone
        exact (Option.or_eq_none_iff.mp hnone).2
      rw [hnone, hpid, Option.or_none]
    next => exact Option.or_none
  have hendpoints : (ad.printedDest dest).endpoints = dest.endpoints := by
    unfold printedDest
    split <;> rfl
  have hreceived : (ad.received dest).seen = (ad.getDestPID,
      some ⟨ad.getDestPID, (dest.endpoints.map jstringTrim).filter (· ≠ [])⟩,
        ad.hops.map AccessPointAdvertisement.new.merge) := by
    unfold received seen
    simp only [getDestPID, getDest, Option.bind_some, Option.map_some] at hprinted ⊢
    rw [hprinted, Option.or_self]
    simp [AccessPointAdvertisement.merge, AccessPointAdvertisement.new, hendpoints]
  have hseen : ad.seen = (ad.getDestPID, some ⟨ad.getDestPID, dest.endpoints⟩, ad.hops) := by
    unfold seen getDest getDestPID
    rw [hdest]
    rfl
  have hdestination : dest.Trimmed ↔
      (dest.endpoints.map jstringTrim).filter (· ≠ []) = dest.endpoints :=
    (readEndpoints_eq_iff dest.endpoints).symm
  rw [hreceived, hseen, hdestination, ← map_merge_new_eq_iff]
  simp

/-- A route with the document `xml` is read back from it. -/
def ReadAlone {Kind : Type} (d : Dialect Kind) (parser : Parser) (route : Kind) (xml : List Byte)
    (ad : RouteAdvertisement) : Prop :=
  ∃ r, QueryAd.handlers.parse d parser route (.route .new) xml = .ok (.route r, .success) ∧
    r.seen = ad.seen

/-- A route is read back from any resolver query that holds it. -/
def ReadNested {Kind : Type} (d : Dialect Kind) (parser : Parser) (query : Kind)
    (ad : RouteAdvertisement) : Prop :=
  ∀ rq : ResolverQuery, rq.Carries → rq.route = some ad → ∃ xml q, rq.getXml = .ok xml ∧
    ResolverQuery.parseCharbuffer d parser query xml = .ok (q, .success) ∧
      q.route.map seen = some ad.seen

variable {Kind : Type} {d : Dialect Kind} {parser : Parser} {query route accessPoint : Kind}
  {ad : RouteAdvertisement} {dest : AccessPointAdvertisement}

theorem readAlone_iff (htables : QueryAd.Tables d query route accessPoint)
    (hparser : ConformsBare parser) (had : ad.Legible) (hdest : ad.dest = some dest)
    (hprinted : (ad.printedDest dest).Legible) {xml : List Byte} (hxml : ad.getXml = some xml) :
    ReadAlone d parser route xml ad ↔ dest.Trimmed ∧ ∀ hop ∈ ad.hops, hop.Trimmed := by
  have hdepth : 0 + 2 < maxAdvDepth := by decide
  obtain rfl := Option.some.inj (hxml.symm.trans (source_node hdest))
  have hchars : (node ad.getDestPID (ad.printedDest dest) ad.hops).isChars = false := rfl
  have hparse := Handlers.parse_bare hparser hchars (had.wellFormed hprinted) isBlank_newline
    (yields_received htables hdepth none 0 had hprinted)
  rw [← received_seen_iff hdest]
  constructor
  · intro h
    obtain ⟨r, hread, hseen⟩ := h
    obtain rfl := QueryAd.route.inj (congrArg Prod.fst (Except.ok.inj (hread.symm.trans hparse)))
    exact hseen
  · intro hseen
    exact ⟨_, hparse, hseen⟩

theorem readNested_of_trimmed (htables : QueryAd.Tables d query route accessPoint)
    (hparser : Conforms parser) (had : ad.Legible) (hdest : ad.dest = some dest)
    (htrimmed : dest.Trimmed ∧ ∀ hop ∈ ad.hops, hop.Trimmed) : ReadNested d parser query ad := by
  intro rq hrq hroute
  obtain ⟨body, hbody, hlegible⟩ := hrq.query
  obtain ⟨credential, hcredText, hcred⟩ := hrq.credential
  obtain ⟨handlerName, hnameText, hname⟩ := hrq.handlerName
  have hrq' : rq.Legible body := by
    refine ⟨hrq.srcPeerId.1, fun r hr => ?_, hlegible⟩
    obtain rfl := Option.some.inj (hroute.symm.trans hr)
    exact had
  refine ⟨_, _, ResolverQuery.getXml_eq hbody hrq' hcred hname, ResolverQuery.parse_received htables
    hparser hrq' hrq.range hrq.srcPeerId.2 hcredText hnameText, ?_⟩
  have hreceived : ResolverQuery.receivedRoute rq.route = some (ad.received dest) := by
    unfold ResolverQuery.receivedRoute
    rw [hroute, Option.bind_some, hdest, Option.map_some]
  rw [hreceived, Option.map_some, (received_seen_iff hdest).mpr htrimmed]

end RouteAdvertisement

namespace RouteObject

/-- A route with a destination, of ids and addresses that a document can hold. -/
structure Legible (ad : RouteObject) (points : AccessPoints) : Prop where
  dest : ∃ dest, ad.dest = some dest ∧ (points dest).Legible
  pid : ∀ pid, ad.pid = some pid → pid.Legible
  hops : ∀ hop ∈ ad.hops, (points hop).Legible

/-- The route and its access points are as they were behind the printing, and the route is read back
from its document, alone and in a resolver query. -/
structure Kept {Kind : Type} (d : Dialect Kind) (parser : Parser) (query route : Kind)
    (ad : RouteObject) (points : AccessPoints) : Prop where
  printed : ∃ xml, ad.getXml points = .ok (xml, ad, points) ∧
    RouteAdvertisement.ReadAlone d parser route xml (ad.value points)
  nested : RouteAdvertisement.ReadNested d parser query (ad.value points)

/-- The destination has no peer id of its own, and the addresses are those that are read. -/
structure Plain (ad : RouteObject) (points : AccessPoints) : Prop where
  pid : ∀ dest, ad.dest = some dest → (points dest).pid = none
  dest : ∀ dest, ad.dest = some dest → (points dest).Trimmed
  hops : ∀ hop ∈ ad.hops, (points hop).Trimmed

variable {ad : RouteObject} {points : AccessPoints}

theorem Legible.value (h : ad.Legible points) {dest : Nat} (hdest : ad.dest = some dest) :
    (ad.value points).Legible ∧ ((ad.value points).printedDest (points dest)).Legible := by
  obtain ⟨target, htarget, hlegible⟩ := h.dest
  obtain rfl := Option.some.inj (hdest.symm.trans htarget)
  have hvalue : (ad.value points).dest = some (points dest) := by
    unfold RouteObject.value
    rw [hdest]
    rfl
  have hprinted : ((ad.value points).printedDest (points dest)).Legible := by
    unfold RouteAdvertisement.printedDest
    split
    · exact hlegible
    · exact ⟨fun pid hpid => absurd hpid (by simp), hlegible.endpoints⟩
  refine ⟨⟨⟨_, hvalue, hprinted⟩, fun pid hpid => ?_, fun hop hhop => ?_⟩, hprinted⟩
  · unfold RouteAdvertisement.getDestPID at hpid
    rw [hvalue, Option.bind_some] at hpid
    rcases Option.or_eq_some_iff.mp hpid with hpid | ⟨-, hpid⟩
    · exact h.pid pid hpid
    · exact hlegible.pid pid hpid
  · obtain ⟨hop', hmem, rfl⟩ := mem_map.mp hhop
    exact h.hops hop' hmem

variable {Kind : Type} {d : Dialect Kind} {parser : Parser} {query route accessPoint : Kind}

/-- Nothing changes and all comes back, just of plain routes. -/
theorem kept_iff (htables : QueryAd.Tables d query route accessPoint) (hparser : Conforms parser)
    (hbare : ConformsBare parser) (had : ad.Legible points) :
    Kept d parser query route ad points ↔ ad.Plain points := by
  obtain ⟨dest, hdest, -⟩ := had.dest
  obtain ⟨hvalue, hprinted⟩ := had.value hdest
  have hvalueDest : (ad.value points).dest = some (points dest) := by
    unfold value
    rw [hdest]
    rfl
  have hhops : (∀ hop ∈ (ad.value points).hops, hop.Trimmed) ↔
      ∀ hop ∈ ad.hops, (points hop).Trimmed := forall_mem_map
  constructor
  · intro h
    obtain ⟨xml, hxml, hread⟩ := h.printed
    have hnone := (unchanged_iff hdest).mp ⟨xml, hxml⟩
    obtain ⟨xml', hxml', hprint⟩ := getXml_of_none hdest hnone
    obtain rfl := congrArg Prod.fst (Except.ok.inj (hxml.symm.trans hxml'))
    have htrimmed := (RouteAdvertisement.readAlone_iff htables hbare hvalue hvalueDest hprinted
      hprint).mp hread
    refine ⟨fun target htarget => ?_, fun target htarget => ?_, hhops.mp htrimmed.2⟩
    · obtain rfl := Option.some.inj (hdest.symm.trans htarget)
      exact hnone
    · obtain rfl := Option.some.inj (hdest.symm.trans htarget)
      exact htrimmed.1
  · intro h
    obtain ⟨xml, hxml, hprint⟩ := getXml_of_none hdest (h.pid dest hdest)
    have htrimmed := And.intro (h.dest dest hdest) (hhops.mpr h.hops)
    exact ⟨⟨xml, hxml, (RouteAdvertisement.readAlone_iff htables hbare hvalue hvalueDest hprinted
      hprint).mpr htrimmed⟩,
      RouteAdvertisement.readNested_of_trimmed htables hparser hvalue hvalueDest htrimmed⟩

end RouteObject

end JxtaC
