import JxtaC.Advertisement.Flat
import JxtaC.ResolverQuery

/-
  The resolver passing a query on (resolver_service_query_cb in jxta_resolver_service_ref.c). The
  query is read from the last element of its name, and a handler gets it; the message that is walked
  has the element as it came, unless the route to the source was missing. So the walk carries the
  query as it was left exactly where the handler left it alone, or the element was replaced by one
  that reads back (`walked_query_iff`). Allocations are served.
-/

namespace JxtaC.Resolver

open Lib List

/-- What the resolver of a peer works with. -/
structure Service where
  outque : CString
  localPeerId : JxtaId
  isRendezvous : Bool
  /-- The rest of `learn_route_from_query`, from where the route has a destination. -/
  publishRoute : RouteAdvertisement → Status
  /-- `peergroup_find_peer_RA`. -/
  findPeerRa : JxtaId → Option RouteAdvertisement
  /-- The handlers: their status, and the query as they leave it. -/
  queryHandlers : List Byte → Option (ResolverQuery → Status × ResolverQuery)
  /-- `jxta_rdv_service_walk`. -/
  rdvWalk : List MessageElement → Status

/-- A query that was read, as it is after its handler. -/
structure Handled where
  received : ResolverQuery
  rqMissingRa : Bool
  status : Status
  rq : ResolverQuery

/-- A message that is walked, and its query. -/
structure Walked where
  msg : List MessageElement
  rq : ResolverQuery

namespace Service
variable (self : Service) (xmlParse : XmlParser)

/-- It is an element with a query for this resolver. -/
def isQuery (el : MessageElement) : Bool := el.body.ns = messageJxtaNs ∧ el.body.name = self.outque

/-- `learn_route_from_query`. -/
def learnRouteFromQuery (rq : ResolverQuery) : Status :=
  match rq.route with
  | none => .itemNotfound
  | some route =>
    match route.getDest with
    | none => .invalidArgument
    | some _ => self.publishRoute route

/-- `populate_query_source_route`. -/
def populateQuerySourceRoute (rq : ResolverQuery) : ResolverQuery :=
  { rq with route := self.findPeerRa rq.srcPeerId }

/-- `resolver_service_query_cb` up to the status of the handler. -/
def handle (rq : ResolverQuery) : Handled :=
  if rq.srcPeerId.equals self.localPeerId then ⟨rq, false, .itemNotfound, rq⟩
  else
    let rqMissingRa : Bool := self.learnRouteFromQuery rq = .itemNotfound
    let populated := if rqMissingRa then self.populateQuerySourceRoute rq else rq
    match self.queryHandlers (jstringTrim populated.handlerName) with
    | some handler =>
      let (status, left) := handler populated
      ⟨rq, rqMissingRa, status, left⟩
    | none => ⟨rq, rqMissingRa, .itemNotfound, populated⟩

/-- The element with this document. -/
def queryElement (doc : List Byte) : MessageElement :=
  ⟨⟨messageJxtaNs, self.outque, some textXml, doc⟩, []⟩

/-- `replace_rq_element`. -/
def replaceRqElement (msg : List MessageElement) (rq : ResolverQuery) :
    Exec (List MessageElement) := do
  let doc ← rq.getXml
  return Message.removeElement2 messageJxtaNs self.outque msg ++ [self.queryElement doc]

/-- The message that is walked: with a new element, if the route was missing. -/
def walkedMessage (msg : List MessageElement) (h : Handled) : Exec (List MessageElement) :=
  if h.rqMissingRa then self.replaceRqElement msg h.rq else .ok msg

/-- `resolver_service_query_cb`: its status, and what it walks. -/
def queryCb (msg : List MessageElement) : Exec (Status × Option Walked) :=
  match Walk.getElement2 msg messageJxtaNs self.outque with
  | none => .ok (.invalidArgument, none)
  | some el => do
    let rq ← ResolverQuery.parse xmlParse el.body.value
    let h := self.handle rq
    if h.status = .success then return (.success, none)
    else if !self.isRendezvous then return (.success, none)
    else do
      let msg ← self.walkedMessage msg h
      return (self.rdvWalk msg, some ⟨msg, h.rq⟩)

/-- There is one element with a query, and the query that is walked reads from it. -/
def Carries (w : Walked) : Prop :=
  w.msg.countP self.isQuery = 1 ∧
    ∀ el ∈ w.msg, self.isQuery el →
      ∃ rq, ResolverQuery.parse xmlParse el.body.value = .ok rq ∧ rq.Agrees w.rq

/-- The document reads as this query. -/
def ReadsAs (doc : List Byte) (rq : ResolverQuery) : Prop :=
  ∃ read, ResolverQuery.parse xmlParse doc = .ok read ∧ read.Agrees rq

/-- The element is the only one, and it reads as the query was left: it was left as it came, or it
is replaced by a document that reads back. -/
def Synced (msg : List MessageElement) (h : Handled) : Prop :=
  h.status ≠ .success → self.isRendezvous →
    if h.rqMissingRa then
      ∀ doc, h.rq.getXml = .ok doc → msg.countP self.isQuery = 1 ∧ ReadsAs xmlParse doc h.rq
    else msg.countP self.isQuery = 1 ∧ h.received.Agrees h.rq

end Service

/-! ## elements -/

section Elements
variable {α : Type} {p : α → Bool} {xs : List α}

theorem eq_of_countP_one {a b : α} (hone : xs.countP p = 1) (ha : a ∈ xs) (hpa : p a = true)
    (hb : b ∈ xs) (hpb : p b = true) : a = b := by
  rw [countP_eq_length_filter, length_eq_one_iff] at hone
  obtain ⟨c, hc⟩ := hone
  have hac : a ∈ xs.filter p := mem_filter.mpr ⟨ha, hpa⟩
  have hbc : b ∈ xs.filter p := mem_filter.mpr ⟨hb, hpb⟩
  rw [hc, mem_singleton] at hac hbc
  rw [hac, hbc]

theorem countP_eraseP_add (h : ∃ a ∈ xs, p a = true) : (xs.eraseP p).countP p + 1 = xs.countP p := by
  obtain ⟨a, ha, hpa⟩ := h
  obtain ⟨b, l₁, l₂, -, hpb, hxs, herase⟩ := exists_of_eraseP ha hpa
  rw [herase, hxs, countP_append, countP_append, countP_cons_of_pos hpb]
  omega

end Elements

namespace Service
variable {self : Service} {xmlParse : XmlParser} {msg : List MessageElement}

theorem getElement2_mem {el : MessageElement}
    (h : Walk.getElement2 msg messageJxtaNs self.outque = some el) :
    el ∈ msg ∧ self.isQuery el = true :=
  ⟨mem_reverse.mp (mem_of_find?_eq_some h), find?_some h⟩

theorem isQuery_queryElement (doc : List Byte) : self.isQuery (self.queryElement doc) = true := by
  simp [isQuery, queryElement]

/-- The new element takes the place of one that was there. -/
theorem countP_replaced (hquery : ∃ el ∈ msg, self.isQuery el = true) (doc : List Byte) :
    (Message.removeElement2 messageJxtaNs self.outque msg ++ [self.queryElement doc]).countP
      self.isQuery = msg.countP self.isQuery := by
  obtain ⟨el, hmem, hel⟩ := hquery
  have hcount := countP_eraseP_add ⟨el, mem_reverse.mpr hmem, hel⟩
  rw [countP_reverse] at hcount
  rw [countP_append, countP_singleton, if_pos (isQuery_queryElement doc), Message.removeElement2,
    countP_reverse, ← hcount]
  rfl

/-- With one element the walked message carries what that element reads as. -/
theorem carries_iff {walked : List MessageElement} {el : MessageElement} (hmem : el ∈ walked)
    (hel : self.isQuery el = true) (rq : ResolverQuery) :
    self.Carries xmlParse ⟨walked, rq⟩ ↔
      walked.countP self.isQuery = 1 ∧ ReadsAs xmlParse el.body.value rq := by
  constructor
  · intro hcarries
    exact ⟨hcarries.1, hcarries.2 el hmem hel⟩
  · intro hone
    refine ⟨hone.1, ?_⟩
    intro el' hmem' hel'
    rw [eq_of_countP_one hone.1 hmem' hel' hmem hel]
    exact hone.2

theorem handle_received (rq : ResolverQuery) : (self.handle rq).received = rq := by
  unfold handle
  split
  · rfl
  · dsimp only
    split <;> rfl

/-- A query is walked where it was not found, by a rendezvous. -/
theorem queryCb_walked_iff {status : Status} {w : Walked} :
    self.queryCb xmlParse msg = .ok (status, some w) ↔
      ∃ el rq, Walk.getElement2 msg messageJxtaNs self.outque = some el ∧
        ResolverQuery.parse xmlParse el.body.value = .ok rq ∧ (self.handle rq).status ≠ .success ∧
        self.isRendezvous = true ∧ self.walkedMessage msg (self.handle rq) = .ok w.msg ∧
        w.rq = (self.handle rq).rq ∧ self.rdvWalk w.msg = status := by
  obtain ⟨wmsg, wrq⟩ := w
  unfold queryCb
  cases Walk.getElement2 msg messageJxtaNs self.outque with
  | none => simp
  | some el =>
    dsimp only
    cases hparse : ResolverQuery.parse xmlParse el.body.value with
    | error f => simp [hparse]
    | ok rq =>
      rw [ok_bind]
      by_cases hst : (self.handle rq).status = .success
      · simp [hst, hparse, pure_eq_ok]
      · cases hrdv : self.isRendezvous with
        | false => simp [hst, pure_eq_ok]
        | true =>
          rw [if_neg hst, if_neg (by decide), bind_eq_ok]
          simp only [pure_eq_ok, Except.ok.injEq, Prod.mk.injEq, Option.some.injEq, Walked.mk.injEq]
          constructor
          · rintro ⟨walked, hwalked, hstatus, rfl, rfl⟩
            exact ⟨el, rq, rfl, hparse, hst, trivial, hwalked, rfl, hstatus⟩
          · rintro ⟨el', rq', rfl, hparse', -, -, hwalked, rfl, hstatus⟩
            obtain rfl := Except.ok.inj (hparse.symm.trans hparse')
            exact ⟨wmsg, hwalked, hstatus, rfl, rfl⟩

/-- What is walked carries the query exactly where the element reads as it. -/
theorem walked_carries_iff {el : MessageElement} {rq : ResolverQuery} (hmem : el ∈ msg)
    (hel : self.isQuery el = true) (hparse : ResolverQuery.parse xmlParse el.body.value = .ok rq) :
    (∀ walked, self.walkedMessage msg (self.handle rq) = .ok walked →
      self.Carries xmlParse ⟨walked, (self.handle rq).rq⟩) ↔
      if (self.handle rq).rqMissingRa then
        ∀ doc, (self.handle rq).rq.getXml = .ok doc →
          msg.countP self.isQuery = 1 ∧ ReadsAs xmlParse doc (self.handle rq).rq
      else msg.countP self.isQuery = 1 ∧ (self.handle rq).received.Agrees (self.handle rq).rq := by
  unfold walkedMessage
  split
  · have hcarries (doc : List Byte) : self.Carries xmlParse
        ⟨Message.removeElement2 messageJxtaNs self.outque msg ++ [self.queryElement doc],
          (self.handle rq).rq⟩ ↔
        msg.countP self.isQuery = 1 ∧ ReadsAs xmlParse doc (self.handle rq).rq := by
      rw [carries_iff (mem_append_right _ mem_cons_self) (isQuery_queryElement doc),
        countP_replaced ⟨el, hmem, hel⟩]
      rfl
    constructor
    · intro hwalked doc hdoc
      apply (hcarries doc).mp
      apply hwalked
      rw [replaceRqElement, hdoc]
      rfl
    · intro hreads walked hwalked
      obtain ⟨doc, hdoc, hmsg⟩ := bind_eq_ok.mp hwalked
      rw [← Except.ok.inj hmsg]
      exact (hcarries doc).mpr (hreads doc hdoc)
  · have hreads : ReadsAs xmlParse el.body.value (self.handle rq).rq ↔
        (self.handle rq).received.Agrees (self.handle rq).rq := by
      rw [handle_received]
      constructor
      · intro ⟨read, hread, hagrees⟩
        rw [← Except.ok.inj (hparse.symm.trans hread)] at hagrees
        exact hagrees
      · intro hagrees
        exact ⟨rq, hparse, hagrees⟩
    rw [← hreads, ← carries_iff hmem hel]
    constructor
    · intro hwalked
      exact hwalked msg rfl
    · intro hcarries walked hwalked
      rw [← Except.ok.inj hwalked]
      exact hcarries

/-- A message that is walked carries the query as the handler left it if and only if its element is
the only one, and reads so. -/
theorem walked_query_iff (self : Service) (xmlParse : XmlParser) (msg : List MessageElement) :
    (∀ status w, self.queryCb xmlParse msg = .ok (status, some w) → self.Carries xmlParse w) ↔
      ∀ el rq, Walk.getElement2 msg messageJxtaNs self.outque = some el →
        ResolverQuery.parse xmlParse el.body.value = .ok rq →
          self.Synced xmlParse msg (self.handle rq) := by
  constructor
  · intro hcarries el rq hget hparse hst hrdv
    obtain ⟨hmem, hel⟩ := getElement2_mem hget
    apply (walked_carries_iff hmem hel hparse).mp
    intro walked hwalked
    apply hcarries (self.rdvWalk walked)
    exact queryCb_walked_iff.mpr ⟨el, rq, hget, hparse, hst, hrdv, hwalked, rfl, rfl⟩
  · intro hsynced status w hcb
    obtain ⟨el, rq, hget, hparse, hst, hrdv, hwalked, hrq, -⟩ := queryCb_walked_iff.mp hcb
    obtain ⟨hmem, hel⟩ := getElement2_mem hget
    have hcarries := (walked_carries_iff hmem hel hparse).mpr
      (hsynced el rq hget hparse hst hrdv) w.msg hwalked
    rw [← hrq] at hcarries
    exact hcarries

end Service

/-! ## a query with a route -/

/-- The calls for a document whose elements may have attributes: these are no part of the name. -/
def attributeParse : XmlParser := fun doc =>
  ((Advertisement.flatParse doc).1.map fun
    | .startElement ename markup => .startElement (ename.takeWhile (· ≠ 32)) markup
    | event => event, true)

/-- A peer with its route. -/
def farPeer : JxtaId := .jxta (.ofBuffer (text "Far"))

def farRoute : RouteAdvertisement :=
  ⟨some farPeer, some ⟨some farPeer, [text "tcp://10.0.0.1:9701"]⟩, [], .nowhere⟩

/-- A query of that peer, with this route and hop count. -/
def farQuery (route : Option RouteAdvertisement) (hopCount : Int) : ResolverQuery :=
  ⟨[], farPeer, route, text "discovery", 7, some (text "what"), hopCount⟩

/-- A rendezvous with a handler that does not find what is asked for, and sets the hop count. -/
def raising : Service where
  outque := .ofBuffer (text "out")
  localPeerId := .nullID
  isRendezvous := true
  publishRoute _ := .success
  findPeerRa _ := some farRoute
  queryHandlers _ := some fun rq => (.itemNotfound, rq.setHopcount 1)
  rdvWalk _ := .success

/-- The document of the query with its route. -/
def farDoc : List Byte := (farQuery (some farRoute) 0).getXml.toOption.getD []

theorem parse_farDoc :
    ResolverQuery.parse attributeParse farDoc = .ok (farQuery (some farRoute) 0) := by
  decide +kernel

/-- The handler sets the hop count to 1, and the message goes on with hop count 0. -/
theorem not_walked_query :
    ¬∀ (self : Service) (msg : List MessageElement) (status : Status) (w : Walked),
      self.queryCb attributeParse msg = .ok (status, some w) → self.Carries attributeParse w := by
  intro h
  have hwalked : raising.queryCb attributeParse [raising.queryElement farDoc] =
      .ok (.success, some ⟨[raising.queryElement farDoc], farQuery (some farRoute) 1⟩) := by
    unfold Service.queryCb
    have hget : Walk.getElement2 [raising.queryElement farDoc] messageJxtaNs raising.outque =
        some (raising.queryElement farDoc) := by
      simp [Walk.getElement2, Service.queryElement]
    rw [hget]
    have hparse : ResolverQuery.parse attributeParse (raising.queryElement farDoc).body.value =
        .ok (farQuery (some farRoute) 0) := parse_farDoc
    dsimp only
    rw [hparse, ok_bind]
    have hhandle : raising.handle (farQuery (some farRoute) 0) =
        ⟨farQuery (some farRoute) 0, false, .itemNotfound, farQuery (some farRoute) 1⟩ := by
      rfl
    rw [hhandle]
    rfl
  obtain ⟨read, hread, hagrees⟩ := (h _ _ _ _ hwalked).2 (raising.queryElement farDoc)
    mem_cons_self (by decide)
  have hsame : read = farQuery (some farRoute) 0 :=
    Except.ok.inj (hread.symm.trans parse_farDoc)
  rw [hsame] at hagrees
  exact absurd hagrees (by decide +kernel)

end JxtaC.Resolver
