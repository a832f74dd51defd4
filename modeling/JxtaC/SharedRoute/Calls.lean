import JxtaC.DiscoveryQuery.Layers
import JxtaC.SharedRoute

/-
  The parse functions of a route, call by call. Where the document of a route ends, the peer id of
  its `DstPID` is put into the destination, whether there is one or not. `guarded_iff` says of which
  documents there is one each time: an access point has to start in a `Dst` before.
-/

namespace JxtaC

open Lib Lib.XmlDocument Dispatch DiscoveryQuery List

namespace RouteAdvertisement
variable {c : ParseCall} {cs : List ParseCall} {ad ad' : RouteAdvertisement}

/-- `handleAPA`: the access point that it makes is read by parse functions of its own. -/
def handleAPA (ad : RouteAdvertisement) (cd : List Byte) : Exec RouteAdvertisement :=
  .ok (if cd = [] then ad.adoptAccessPoint .new else ad)

/-- A call of a parse function of `Jxta_RouteAdvertisement_tags`. -/
def call (ad : RouteAdvertisement) (c : ParseCall) : Exec RouteAdvertisement :=
  if c.kwd = text "jxta:RA" then ad.handleRouteAdvertisement c.cd
  else if c.kwd = text "DstPID" then ad.handleDestPID c.cd
  else if c.kwd = text "Dst" then ad.handleDest c.cd
  else if c.kwd = text "Hops" then ad.handleHops c.cd
  else if c.kwd = text "jxta:APA" then ad.handleAPA c.cd
  else .ok ad

/-- Apart from access points, these are the parse functions that read the document of a route. -/
theorem handlers_call (ad : RouteAdvertisement) (h : c.kwd ≠ text "jxta:APA") :
    QueryAd.handlers.call (.route ad) c = (ad.call c).map QueryAd.route := by
  obtain ⟨owner, kwd, cd, atts, inner⟩ := c
  by_cases hroot : kwd = text "jxta:RA"
  · subst hroot
    rfl
  by_cases hpid : kwd = text "DstPID"
  · subst hpid
    rfl
  by_cases hdst : kwd = text "Dst"
  · subst hdst
    rfl
  by_cases hhops : kwd = text "Hops"
  · subst hhops
    rfl
  have hentry : QueryAd.entryOf (.route ad) ⟨owner, kwd, cd, atts, inner⟩ = none := by
    refine find?_eq_none.mpr fun k hk => ?_
    simp only [QueryAd.dialect, QueryAd.routeTags, mem_cons, not_mem_nil, or_false] at hk
    rcases hk with rfl | rfl | rfl | rfl | rfl
    · simpa using fun hk => hroot hk.symm
    · simpa using fun hk => hpid hk.symm
    · simpa using fun hk => hdst hk.symm
    · simpa using fun hk => hhops hk.symm
    · simpa using fun hk => h hk.symm
  unfold QueryAd.handlers call
  dsimp only
  rw [hentry, if_neg hroot, if_neg hpid, if_neg hdst, if_neg hhops, if_neg h]
  rfl

/-! ## what the calls say -/

/-- What a call does to the peer id of the route, if anything: it is replaced, or dropped where the
format of the new one is not known. -/
def namedBy (c : ParseCall) : Option (Option JxtaId) :=
  if c.kwd = text "DstPID" ∧ c.cd ≠ [] then
    match JxtaId.fromStr (jstringTrim c.cd) with
    | .ok (.ok pid) => some (some pid)
    | .ok (.error .notimp) => some none
    | _ => none
  else none

/-- The peer id that the last `DstPID` named. -/
def named (cs : List ParseCall) : Option JxtaId := (cs.filterMap namedBy).getLast?.join

/-- The texts for peer ids fit into ids. -/
def Readable (cs : List ParseCall) : Prop :=
  ∀ c ∈ cs, c.kwd = text "DstPID" → c.cd ≠ [] → ∃ r, JxtaId.fromStr (jstringTrim c.cd) = .ok r

/-- The start or the end of an element for access points. -/
def isPlace (c : ParseCall) : Bool := c.kwd = text "Dst" || c.kwd = text "Hops"

/-- The last of these was the start of a destination. -/
def InDst (cs : List ParseCall) : Prop :=
  ∃ c, (cs.filter isPlace).getLast? = some c ∧ c.kwd = text "Dst" ∧ c.cd = []

/-- An access point was started in a destination. -/
def Supplied (cs : List ParseCall) : Prop :=
  ∃ front c, front ++ [c] <+: cs ∧ InDst front ∧ c.kwd = text "jxta:APA" ∧ c.cd = []

section
variable {cs : List ParseCall} {c : ParseCall}

theorem named_append (cs : List ParseCall) (c : ParseCall) :
    named (cs ++ [c]) = (namedBy c).getD (named cs) := by
  unfold named
  rw [filterMap_append]
  cases hc : namedBy c with
  | none => rw [filterMap_cons_none hc, filterMap_nil, append_nil, Option.getD_none]
  | some pid =>
    rw [filterMap_cons_some hc, filterMap_nil, getLast?_concat, Option.getD_some]
    rfl

theorem named_append_of_ne (h : c.kwd ≠ text "DstPID") : named (cs ++ [c]) = named cs := by
  rw [named_append, namedBy, if_neg fun hc => h hc.1, Option.getD_none]

theorem inDst_append_of_place (h : isPlace c = true) :
    InDst (cs ++ [c]) ↔ c.kwd = text "Dst" ∧ c.cd = [] := by
  have hlast : ((cs ++ [c]).filter isPlace).getLast? = some c := by
    rw [filter_append, filter_cons_of_pos h, filter_nil, getLast?_concat]
  unfold InDst
  rw [hlast]
  constructor
  · intro hin
    obtain ⟨c', hc', hdst⟩ := hin
    cases hc'
    exact hdst
  · intro hdst
    exact ⟨c, rfl, hdst⟩

theorem inDst_append_of_not_place (h : isPlace c = false) : InDst (cs ++ [c]) ↔ InDst cs := by
  unfold InDst
  rw [filter_append, filter_cons_of_neg (Bool.not_eq_true _ ▸ h), filter_nil,
    append_nil]

theorem supplied_append (cs : List ParseCall) (c : ParseCall) :
    Supplied (cs ++ [c]) ↔ Supplied cs ∨ InDst cs ∧ c.kwd = text "jxta:APA" ∧ c.cd = [] := by
  constructor
  · intro h
    obtain ⟨front, apa, hprefix, hapa⟩ := h
    rcases prefix_concat_iff.mp hprefix with heq | hprefix
    · obtain ⟨rfl, hc⟩ := append_inj' heq rfl
      obtain rfl := singleton_inj.mp hc
      exact .inr hapa
    · exact .inl ⟨front, apa, hprefix, hapa⟩
  · intro h
    rcases h with ⟨front, apa, hprefix, hapa⟩ | hapa
    · exact ⟨front, apa, hprefix.trans (prefix_append cs [c]), hapa⟩
    · exact ⟨cs, c, prefix_rfl, hapa⟩

theorem supplied_append_of_ne (h : c.kwd ≠ text "jxta:APA") :
    Supplied (cs ++ [c]) ↔ Supplied cs := by
  rw [supplied_append]
  exact or_iff_left fun hc => h hc.2.1

end

/-! ## what the parse functions keep -/

/-- The route that these calls leave. -/
structure Left (cs : List ParseCall) (ad : RouteAdvertisement) : Prop where
  pid : ad.pid = named cs
  location : ad.apaLocation = .inDst ↔ InDst cs
  dest : ad.dest.isSome ↔ Supplied cs

theorem left_nil : Left [] .new where
  pid := rfl
  location := by simp [new, InDst]
  dest := by
    simp only [new, Option.isSome_none, Bool.false_eq_true, false_iff]
    intro h
    obtain ⟨front, c, hprefix, -⟩ := h
    exact absurd (prefix_nil.mp hprefix) (by simp)

section
variable (h : Left cs ad)
include h

/-- A call that has nothing to do with the peer id or with access points. -/
theorem Left.of_other (hpid : c.kwd ≠ text "DstPID") (hplace : isPlace c = false)
    (hapa : c.kwd ≠ text "jxta:APA") (hpid' : ad'.pid = ad.pid)
    (hlocation : ad'.apaLocation = ad.apaLocation) (hdest : ad'.dest.isSome = ad.dest.isSome) :
    Left (cs ++ [c]) ad' where
  pid := by rw [hpid', h.pid, named_append_of_ne hpid]
  location := by rw [hlocation, h.location, inDst_append_of_not_place hplace]
  dest := by rw [hdest, h.dest, supplied_append_of_ne hapa]

theorem Left.handleRouteAdvertisement (hkwd : c.kwd = text "jxta:RA")
    (hstep : ad.handleRouteAdvertisement c.cd = .ok ad') : Left (cs ++ [c]) ad' := by
  have hplace : isPlace c = false := by
    unfold isPlace
    rw [hkwd]
    decide
  have hother : ∀ ad' : RouteAdvertisement, ad'.pid = ad.pid → ad'.apaLocation = ad.apaLocation →
      ad'.dest.isSome = ad.dest.isSome → Left (cs ++ [c]) ad' := fun ad' =>
    h.of_other (by rw [hkwd]; decide) hplace (by rw [hkwd]; decide)
  unfold RouteAdvertisement.handleRouteAdvertisement at hstep
  split at hstep
  · cases hstep
    exact hother ad rfl rfl rfl
  · cases hpid : ad.pid with
    | none =>
      rw [hpid] at hstep
      cases hstep
      exact hother ad rfl rfl rfl
    | some pid =>
      cases hdest : ad.dest with
      | none =>
        rw [hpid, hdest] at hstep
        cases hstep
      | some dest =>
        rw [hpid, hdest] at hstep
        cases hstep
        exact hother _ hpid.symm rfl (by rw [hdest]; rfl)

theorem Left.handleDestPID (hkwd : c.kwd = text "DstPID")
    (hstep : ad.handleDestPID c.cd = .ok ad') : Left (cs ++ [c]) ad' := by
  have hplace : isPlace c = false := by
    unfold isPlace
    rw [hkwd]
    decide
  have hapa : c.kwd ≠ text "jxta:APA" := by
    rw [hkwd]
    decide
  have hleft : ∀ pid, (namedBy c).getD ad.pid = pid → Left (cs ++ [c]) { ad with pid } := by
    intro pid hpid
    refine ⟨?_, ?_, ?_⟩
    · rw [named_append, ← h.pid, hpid]
    · rw [inDst_append_of_not_place hplace]
      exact h.location
    · rw [supplied_append_of_ne hapa]
      exact h.dest
  unfold RouteAdvertisement.handleDestPID at hstep
  unfold namedBy at hleft
  split at hstep
  next hcd =>
    cases hstep
    refine hleft ad.pid ?_
    rw [if_neg fun hc => hc.2 hcd, Option.getD_none]
  next hcd =>
    rw [if_pos (And.intro hkwd hcd)] at hleft
    obtain ⟨r, hr, hstep⟩ := bind_eq_ok.mp hstep
    rw [hr] at hleft
    cases r with
    | ok pid =>
      cases hstep
      exact hleft (some pid) rfl
    | error e =>
      cases e <;>
        · cases hstep
          exact hleft _ rfl

/-- The start or the end of an element for access points. -/
theorem Left.place {location : ApaLocation} (hplace : isPlace c = true)
    (hlocation : location = .inDst ↔ c.kwd = text "Dst" ∧ c.cd = []) :
    Left (cs ++ [c]) { ad with apaLocation := location } := by
  have hkwd : c.kwd = text "Dst" ∨ c.kwd = text "Hops" := by
    unfold isPlace at hplace
    simpa using hplace
  have hpid : c.kwd ≠ text "DstPID" := by
    rcases hkwd with hkwd | hkwd <;> rw [hkwd] <;> decide
  have hapa : c.kwd ≠ text "jxta:APA" := by
    rcases hkwd with hkwd | hkwd <;> rw [hkwd] <;> decide
  refine ⟨?_, ?_, ?_⟩
  · rw [named_append_of_ne hpid]
    exact h.pid
  · rw [inDst_append_of_place hplace]
    exact hlocation
  · rw [supplied_append_of_ne hapa]
    exact h.dest

theorem Left.handleAPA (hkwd : c.kwd = text "jxta:APA") :
    Left (cs ++ [c]) (if c.cd = [] then ad.adoptAccessPoint .new else ad) := by
  have hplace : isPlace c = false := by
    unfold isPlace
    rw [hkwd]
    decide
  have hpid : named (cs ++ [c]) = named cs := named_append_of_ne (by rw [hkwd]; decide)
  have hin : InDst (cs ++ [c]) ↔ InDst cs := inDst_append_of_not_place hplace
  have hsupplied : Supplied (cs ++ [c]) ↔ Supplied cs ∨ InDst cs ∧ c.cd = [] := by
    rw [supplied_append]
    simp [hkwd]
  by_cases hcd : c.cd = []
  · rw [if_pos hcd]
    by_cases hlocation : ad.apaLocation = .inDst
    · have hadopt : ad.adoptAccessPoint .new = { ad with dest := some .new } := by
        unfold adoptAccessPoint
        rw [hlocation]
      rw [hadopt]
      refine ⟨h.pid.trans hpid.symm, h.location.trans hin.symm, ?_⟩
      rw [hsupplied]
      exact iff_of_true rfl (.inr ⟨h.location.mp hlocation, hcd⟩)
    · have hadopt : (ad.adoptAccessPoint .new).pid = ad.pid ∧
          (ad.adoptAccessPoint .new).apaLocation = ad.apaLocation ∧
            (ad.adoptAccessPoint .new).dest = ad.dest := by
        unfold adoptAccessPoint
        cases hwhere : ad.apaLocation with
        | nowhere => exact ⟨rfl, hwhere, rfl⟩
        | inDst => exact absurd hwhere hlocation
        | inHops => exact ⟨rfl, rfl, rfl⟩
      obtain ⟨hpid', hlocation', hdest'⟩ := hadopt
      refine ⟨hpid'.trans (h.pid.trans hpid.symm), ?_, ?_⟩
      · rw [hlocation']
        exact h.location.trans hin.symm
      · rw [hdest', hsupplied, or_iff_left fun hc => hlocation (h.location.mpr hc.1)]
        exact h.dest
  · rw [if_neg hcd]
    refine ⟨h.pid.trans hpid.symm, h.location.trans hin.symm, ?_⟩
    rw [hsupplied, or_iff_left fun hc => hcd hc.2]
    exact h.dest

/-- One call. -/
theorem Left.call (hstep : ad.call c = .ok ad') : Left (cs ++ [c]) ad' := by
  unfold RouteAdvertisement.call at hstep
  split at hstep
  next hkwd => exact h.handleRouteAdvertisement hkwd hstep
  next hroot =>
  split at hstep
  next hkwd => exact h.handleDestPID hkwd hstep
  next hpid =>
  split at hstep
  next hkwd =>
    cases hstep
    refine h.place (by simp [isPlace, hkwd]) ?_
    split <;> simp_all
  next hdst =>
  split at hstep
  next hkwd =>
    cases hstep
    refine h.place (by simp [isPlace, hkwd]) ?_
    split <;> simp_all
  next hhops =>
  split at hstep
  next hkwd =>
    cases hstep
    exact h.handleAPA hkwd
  next hapa =>
    cases hstep
    exact h.of_other hpid (by simp [isPlace, hdst, hhops]) hapa rfl rfl rfl

end

/-- All calls of a document. -/
theorem left_of_run (hrun : cs.foldlM RouteAdvertisement.call .new = .ok ad) : Left cs ad := by
  induction cs using List.reverseRecOn generalizing ad with
  | nil =>
    cases hrun
    exact left_nil
  | append_singleton cs c ih =>
    rw [foldlM_append] at hrun
    obtain ⟨before, hbefore, hstep⟩ := bind_eq_ok.mp hrun
    rw [foldlM_cons] at hstep
    obtain ⟨behind, hcall, hnil⟩ := bind_eq_ok.mp hstep
    cases hnil
    exact (ih hbefore).call hcall

/-! ## routes without a destination -/

end RouteAdvertisement

/-- Reading an id goes wrong in one way only: its bytes do not fit. -/
theorem JxtaId.fromStr_error {idStr : List Byte} {e : Fault} (h : JxtaId.fromStr idStr = .error e) :
    e = .outOfBounds := by
  unfold JxtaId.fromStr at h
  split at h
  · simp at h
  split at h
  · simp at h
  dsimp only at h
  split at h
  · simp at h
  split at h
  · unfold uuidFromStr at h
    split at h
    · simp at h
    split at h
    · exact (Except.error.inj h).symm
    · simp at h
  split at h
  · simp [jxtaFromStr] at h
  · simp at h

namespace RouteAdvertisement

/-- A call fails where a route ends without a destination, and where an id does not fit. -/
theorem call_error {ad : RouteAdvertisement} {c : ParseCall} {e : Fault}
    (h : ad.call c = .error e) :
    (e = .nullPointer ∧ c.kwd = text "jxta:RA" ∧ c.cd ≠ [] ∧ ad.pid.isSome ∧ ad.dest = none) ∨
      (e = .outOfBounds ∧ c.kwd = text "DstPID" ∧ c.cd ≠ [] ∧
        JxtaId.fromStr (jstringTrim c.cd) = .error e) := by
  unfold call at h
  split at h
  next hkwd =>
    unfold handleRouteAdvertisement at h
    split at h
    · simp at h
    next hcd =>
      cases hpid : ad.pid with
      | none => simp [hpid] at h
      | some pid =>
        cases hdest : ad.dest with
        | none =>
          rw [hpid, hdest] at h
          exact .inl ⟨(Except.error.inj h).symm, hkwd, hcd, rfl, rfl⟩
        | some dest => simp [hpid, hdest] at h
  split at h
  next hkwd =>
    unfold handleDestPID at h
    split at h
    · simp at h
    next hcd =>
      cases hid : JxtaId.fromStr (jstringTrim c.cd) with
      | error e' =>
        rw [hid] at h
        cases h
        exact .inr ⟨JxtaId.fromStr_error hid, hkwd, hcd, rfl⟩
      | ok r =>
        rw [hid, ok_bind] at h
        cases r with
        | ok pid => exact absurd h (by simp [pure_eq_ok])
        | error e' => cases e' <;> exact absurd h (by simp [pure_eq_ok])
  split at h
  · simp [handleDest] at h
  split at h
  · simp [handleHops] at h
  split at h
  · simp [handleAPA] at h
  · simp at h

/-- Calls that leave a route had texts that can be read. -/
theorem readable_of_run {cs : List ParseCall} {ad : RouteAdvertisement}
    (hrun : cs.foldlM call .new = .ok ad) : Readable cs := by
  intro c hc hkwd hcd
  obtain ⟨before, behind, hcall⟩ := exists_ok_of_foldlM hrun c hc
  have hroot : c.kwd ≠ text "jxta:RA" := by
    rw [hkwd]
    decide
  unfold call handleDestPID at hcall
  rw [if_neg hroot, if_pos hkwd, if_neg hcd] at hcall
  obtain ⟨r, hr, -⟩ := bind_eq_ok.mp hcall
  exact ⟨r, hr⟩

/-- Each time a route ends that names its peer, an access point was started in its destination. -/
def EndsSupplied (cs : List ParseCall) : Prop :=
  ∀ front c back, cs = front ++ c :: back → c.kwd = text "jxta:RA" → c.cd ≠ [] → Readable front →
    (named front).isSome → Supplied front

/-- No peer id is given to a missing access point, just if the destination is there each time. -/
theorem run_ne_null_iff (cs : List ParseCall) :
    cs.foldlM call .new ≠ .error .nullPointer ↔ EndsSupplied cs := by
  constructor
  · intro h front c back hcs hkwd hcd hreadable hnamed
    have hnull : front.foldlM call .new ≠ .error .nullPointer := by
      intro hfront
      apply h
      rw [hcs, foldlM_append, hfront]
      rfl
    cases hfront : front.foldlM call .new with
    | error e =>
      obtain ⟨front', c', back', ad, rfl, -, hcall⟩ := exists_error_of_foldlM hfront
      rcases call_error hcall with ⟨rfl, -⟩ | ⟨-, hkwd', hcd', hfails⟩
      · exact absurd hfront hnull
      · obtain ⟨r, hr⟩ := hreadable c' (by simp) hkwd' hcd'
        exact absurd (hr.symm.trans hfails) (by simp)
    | ok ad =>
      have hleft := left_of_run hfront
      rw [← hleft.dest]
      by_contra hmissing
      have hdest : ad.dest = none := Option.not_isSome_iff_eq_none.mp hmissing
      obtain ⟨pid, hpid⟩ := Option.isSome_iff_exists.mp (hleft.pid ▸ hnamed)
      have hcall : ad.call c = .error .nullPointer := by
        unfold call handleRouteAdvertisement
        rw [if_pos hkwd, if_neg hcd, hpid, hdest]
      apply h
      rw [hcs, foldlM_append, hfront, ok_bind, foldlM_cons, hcall]
      rfl
  · intro h hrun
    obtain ⟨front, c, back, ad, hcs, hfront, hcall⟩ := exists_error_of_foldlM hrun
    rcases call_error hcall with ⟨-, hkwd, hcd, hpid, hdest⟩ | ⟨hfault, -⟩
    · have hleft := left_of_run hfront
      have hsupplied := h front c back hcs hkwd hcd (readable_of_run hfront) (hleft.pid ▸ hpid)
      rw [← hleft.dest, hdest] at hsupplied
      cases hsupplied
    · cases hfault

/-- The calls that are for the advertisement with this number. -/
def callsOf (n : Nat) (calls : List ParseCall) : List ParseCall := calls.filter fun c => c.owner = n

variable {Kind : Type} (d : Dialect Kind) (parser : Parser) (kind route : Kind) (buf : List Byte)

/-- In no route of a document, alone or inside of others, a peer id is given to a missing access
point. -/
def Guarded : Prop :=
  ∀ made calls status, d.parseCharbuffer parser kind buf = .ok (made, calls, status) →
    ∀ n, made[n]? = some route → (callsOf n calls).foldlM call .new ≠ .error .nullPointer

/-- The routes of a document that name their peers have a destination each time they end. -/
def DestinationsSupplied : Prop :=
  ∀ made calls status, d.parseCharbuffer parser kind buf = .ok (made, calls, status) →
    ∀ n, made[n]? = some route → EndsSupplied (callsOf n calls)

theorem guarded_iff :
    Guarded d parser kind route buf ↔ DestinationsSupplied d parser kind route buf :=
  forall_congr' fun _ => forall_congr' fun calls => forall_congr' fun _ => forall_congr' fun _ =>
    forall_congr' fun n => forall_congr' fun _ => run_ne_null_iff (callsOf n calls)

variable {d parser route} {query accessPoint : Kind}

/-- Routes are kept and read back just if they are plain; and no peer id is given to a missing
access point just in documents that have the destinations. -/
theorem kept_and_guarded_iff (htables : QueryAd.Tables d query route accessPoint)
    (hparser : Conforms parser) (hbare : ConformsBare parser) :
    (∀ (ad : RouteObject) (points : AccessPoints), ad.Legible points →
      (ad.Kept d parser query route points ↔ ad.Plain points)) ∧
    ∀ kind buf, Guarded d parser kind route buf ↔ DestinationsSupplied d parser kind route buf :=
  ⟨fun _ _ had => RouteObject.kept_iff htables hparser hbare had,
    fun kind buf => guarded_iff d parser kind route buf⟩

/-- `urn:jxta:jxta-Peer`. -/
def peer : JxtaId := .jxta (.ofBuffer (text "Peer"))

theorem peer_legible : peer.Legible :=
  ⟨JxtaId.canonical_jxta _, isText_raw_plain (by decide), by decide⟩

/-- Access points of one address, with this peer id. -/
def neighbours (pid : Option JxtaId) : AccessPoints := fun _ => ⟨pid, [text "tcp://10.0.0.2:9701"]⟩

theorem neighbours_legible {pid : Option JxtaId} (hpid : ∀ jid, pid = some jid → jid.Legible)
    (apa : Nat) : (neighbours pid apa).Legible := by
  refine ⟨hpid, fun endpoint hmem => ?_⟩
  obtain rfl := mem_singleton.mp hmem
  exact isText_raw_plain (by decide)

theorem neighbours_trimmed (pid : Option JxtaId) (apa : Nat) : (neighbours pid apa).Trimmed := by
  intro endpoint hmem
  obtain rfl := mem_singleton.mp hmem
  exact ⟨by decide, by decide⟩

/-- A route that names its peer itself, over one hop. -/
theorem kept_and_guarded_iff_separate :
    RouteObject.Kept queryDialect scan .query .route ⟨some peer, some 0, [1]⟩ (neighbours none) ∧
      Guarded queryDialect scan .route .route [] := by
  have hnone : ∀ jid, (none : Option JxtaId) = some jid → jid.Legible :=
    fun _ h => absurd h (by simp)
  have hmain := kept_and_guarded_iff query_tables scan_conforms scan_conformsBare
  refine ⟨(hmain.1 _ _ ?_).mpr ?_, (hmain.2 .route []).mpr ?_⟩
  · refine ⟨⟨0, rfl, neighbours_legible hnone 0⟩, fun pid hpid => ?_, fun hop _ =>
      neighbours_legible hnone hop⟩
    cases hpid
    exact peer_legible
  · exact ⟨fun _ _ => rfl, fun dest _ => neighbours_trimmed none dest,
      fun hop _ => neighbours_trimmed none hop⟩
  · intro made calls status hparse n _ front c back hcs
    obtain ⟨-, hrest⟩ := Prod.mk.inj (Except.ok.inj hparse)
    cases hrest
    exact absurd hcs (by simp [callsOf])

/-- A route that names its peer, and has no destination. -/
def unsupplied : Node :=
  .element (text "jxta:RA") [] [] [leafNode (text "DstPID") (raw peer.toJString)]

example : unsupplied.source =
    text "<jxta:RA><DstPID>urn:jxta:jxta-Peer</DstPID></jxta:RA>" := by decide

theorem unsupplied_wellFormed : unsupplied.WellFormed :=
  ⟨by decide, attsWellFormed_nil, by decide, by simp [Separate],
    leafNode_wellFormed (by decide) peer_legible.text, trivial⟩

/-- The calls for it. -/
def unsuppliedCalls : List ParseCall :=
  [⟨0, text "jxta:RA", [], [], none⟩, ⟨0, text "DstPID", [], [], none⟩,
    ⟨0, text "DstPID", peer.toJString, [], none⟩, ⟨0, text "jxta:RA", text " ", [], none⟩]

theorem act_unsupplied : queryDialect.act unsupplied ⟨.route, 0, none⟩ 0 ⟨[], [], [.route], []⟩ =
    .ok ⟨[], [], [.route], unsuppliedCalls⟩ := by
  have hroot : queryDialect.opening .route [] (text "jxta:RA") = .keep ⟨text "jxta:RA", .keep⟩ :=
    Dialect.opening_keep rfl rfl rfl rfl
  have hpid : queryDialect.opening .route [] (text "DstPID") = .keep ⟨text "DstPID", .keep⟩ :=
    Dialect.opening_keep rfl rfl rfl rfl
  have hzero : 0 < maxAdvDepth := Nat.succ_pos 31
  have hone : 0 + 1 < maxAdvDepth := Nat.succ_lt_succ (Nat.succ_pos 30)
  unfold unsupplied leafNode
  rw [Dialect.act, queryDialect.element_shallow hzero]
  simp only [attsOf, map_nil, hroot, Dialect.attributes_nil, append_nil, nil_append]
  rw [Dialect.actAll, Dialect.act, queryDialect.element_shallow hone]
  simp only [attsOf, map_nil, hpid, Dialect.attributes_nil, append_nil, nil_append,
    Dialect.actAll, Dialect.act, ok_bind, valueOf_raw]
  rfl
/-- Printing takes the peer id from an access point; and the peer id of a route is given to an
access point that is not there. -/
theorem not_kept_and_guarded :
    ¬ RouteObject.Kept queryDialect scan .query .route ⟨none, some 0, []⟩
      (neighbours (some peer)) ∧
      ¬ Guarded queryDialect scan .route .route unsupplied.source := by
  constructor
  · intro h
    obtain ⟨xml, hxml, -⟩ := h.printed
    have hpid := congrArg RouteObject.pid (RouteObject.getXml_changes rfl hxml).1
    exact absurd hpid (by simp [neighbours])
  · intro h
    have hchars : unsupplied.isChars = false := rfl
    obtain ⟨back, cs, hcs, hflat⟩ := scan_conformsBare unsupplied [] hchars unsupplied_wellFormed
      isBlank_nil
    have hrun : queryDialect.run (initial .route) cs = .ok ⟨[], [.route], unsuppliedCalls⟩ := by
      have hdelivers : Delivers cs [] unsupplied back := hflat
      rw [queryDialect.run_root .route hchars hdelivers, act_unsupplied, ok_bind]
    have hparse : queryDialect.parseCharbuffer scan .route unsupplied.source =
        .ok ([.route], unsuppliedCalls, .success) := by
      rw [append_nil] at hcs
      unfold Dialect.parseCharbuffer
      rw [if_neg (source_ne_nil hchars), hcs]
      rw [hrun]
      rfl
    refine h _ _ _ hparse 0 rfl ?_
    have hown : callsOf 0 unsuppliedCalls = unsuppliedCalls := by decide
    have hread : (new.call ⟨0, text "DstPID", peer.toJString, [], none⟩) =
        .ok { new with pid := some peer } := by
      have hfrom := peer_legible.fromStr
      have hcall : new.call ⟨0, text "DstPID", peer.toJString, [], none⟩ =
          new.handleDestPID peer.toJString := rfl
      rw [hcall]
      unfold handleDestPID
      rw [if_neg (JxtaId.toJString_ne_nil peer), hfrom]
      rfl
    have hstart : new.call ⟨0, text "jxta:RA", [], [], none⟩ = .ok new := rfl
    have hstart' : new.call ⟨0, text "DstPID", [], [], none⟩ = .ok new := rfl
    rw [hown, unsuppliedCalls, foldlM_cons, hstart, ok_bind, foldlM_cons, hstart',
      ok_bind, foldlM_cons, hread]
    rfl

end RouteAdvertisement

end JxtaC
