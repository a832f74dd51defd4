import JxtaC.Lib.Transition
import JxtaC.PipeResolver

/-
  The pending requests in runs of careful steps. A request that has been sent, or is being sent, is in
  the vector of its pipe until it is notified, and in the hands of one worker at most (`Inv`); the
  vectors change by one request at a time (`vectorOf_resolve`, `vectorOf_remove`).
-/

namespace JxtaC

open Lib List

namespace PipeResolver

/-- The requests that are pending for a pipe. -/
def State.vectorOf (s : State) (pipeId : CString) : List Nat :=
  (s.pendingRequests.lookup pipeId).getD []

theorem pending_iff {s : State} {n : Nat} : s.Pending n ↔ ∃ pipeId, n ∈ s.vectorOf pipeId := by
  unfold State.Pending State.vectorOf
  constructor
  · rintro ⟨pipeId, vector, hlookup, hn⟩
    exact ⟨pipeId, by rwa [hlookup]⟩
  · rintro ⟨pipeId, hn⟩
    cases hlookup : s.pendingRequests.lookup pipeId with
    | none =>
      rw [hlookup] at hn
      cases hn
    | some vector =>
      rw [hlookup] at hn
      exact ⟨pipeId, vector, hlookup, hn⟩

/-- A request that is notified once at most, and in time. -/
structure Request.Good (now : Int) (r : Request) : Prop where
  noticed : r.notices = [] ∨ ∃ notice, r.notices = [notice] ∧ notice.answer.Fits r ∧
    notice.time < r.timeout ∧ notice.failed = false
  inTime : r.failed = false → r.notices = [] → now < r.timeout
  times : ∀ t ∈ r.timed, r.timeout ≤ now + t
  answered : r.timed.isSome = true → r.returned = some .success → r.notices ≠ []

theorem Answer.Fits.congr {answer : Answer} {r r' : Request} (h : answer.Fits r)
    (hid : r'.pipeId = r.pipeId) (hdest : r'.dest = r.dest) : answer.Fits r' :=
  ⟨hid ▸ h.pipeId, h.found, fun dest hd => h.peer dest (hdest ▸ hd)⟩

/-- What was said of a request does not depend on what it came to. -/
theorem Request.Good.noticed_congr {now : Int} {r r' : Request} (h : r.Good now)
    (hid : r'.pipeId = r.pipeId) (hdest : r'.dest = r.dest) (htimeout : r'.timeout = r.timeout)
    (hnotices : r'.notices = r.notices) : r'.notices = [] ∨ ∃ notice, r'.notices = [notice] ∧
      notice.answer.Fits r' ∧ notice.time < r'.timeout ∧ notice.failed = false := by
  rcases h.noticed with hnone | ⟨notice, hone, hfits, hrest⟩
  · exact .inl (hnotices.trans hnone)
  · exact .inr ⟨notice, hnotices.trans hone, hfits.congr hid hdest, htimeout ▸ hrest⟩

/-- A request that an answer may still notify. -/
structure Request.Open (r : Request) : Prop where
  failed : r.failed = false
  notices : r.notices = []

/-- What careful steps keep. -/
structure Inv (s : State) : Prop where
  good : ∀ (n : Nat) (r : Request), s.requests[n]? = some r → r.Good s.now
  nodup : ∀ pipeId, (s.vectorOf pipeId).Nodup
  own : ∀ pipeId, ∀ n ∈ s.vectorOf pipeId, ∃ r, s.requests[n]? = some r ∧ r.pipeId = pipeId
  pending : ∀ (n : Nat) (r : Request), s.requests[n]? = some r →
    (n ∈ s.vectorOf r.pipeId ↔ r.Open)
  hands : (s.workers.flatMap Worker.reqs).Nodup
  held : ∀ w ∈ s.workers, ∀ n ∈ w.reqs, ∃ r, s.requests[n]? = some r ∧ r.Open ∧ w.answer.Fits r
  waiting : ∀ w ∈ s.waiters, ∃ r, s.requests[w.request]? = some r ∧ r.sent = some .success ∧
    r.timeout ≤ w.timeout

theorem inv_initial : Inv initial := by
  refine ⟨?_, fun _ => nodup_nil, fun _ n hn => ?_, ?_, ?_, ?_, ?_⟩
  · simp [initial]
  · exact absurd hn (by simp [State.vectorOf, initial])
  all_goals simp [initial]

section Steps
variable {s s' : State}
variable {pipeId : CString} {n : Nat} {r : Request} {answer : Answer} {i : Nat}

theorem Inv.lawful (h : Inv s) : s.Lawful := by
  have hgood : ∀ r ∈ s.requests, r.Good s.now := by
    intro r hr
    obtain ⟨n, hn⟩ := mem_iff_getElem?.mp hr
    exact h.good n r hn
  have hone : ∀ r ∈ s.requests, ∀ notice ∈ r.notices, notice.answer.Fits r ∧
      notice.time < r.timeout ∧ notice.failed = false := by
    intro r hr notice hnotice
    rcases (hgood r hr).noticed with hnone | ⟨notice', hone, hrest⟩
    · exact absurd hnotice (by simp [hnone])
    · rw [hone] at hnotice
      exact mem_singleton.mp hnotice ▸ hrest
  refine ⟨fun r hr => ?_, fun r hr notice hnotice => (hone r hr notice hnotice).1,
    fun r hr notice hnotice => (hone r hr notice hnotice).2.1,
    fun r hr notice hnotice => (hone r hr notice hnotice).2.2, fun n r hr => ?_,
    fun r hr => (hgood r hr).answered⟩
  · rcases (hgood r hr).noticed with hnone | ⟨notice, hone, -⟩
    · simp [hnone]
    · simp [hone]
  · rw [pending_iff]
    constructor
    · rintro ⟨pipeId, hn⟩
      obtain ⟨r', hr', rfl⟩ := h.own pipeId n hn
      obtain rfl := Option.some.inj (hr.symm.trans hr')
      obtain ⟨hfailed, hnone⟩ := (h.pending n r hr).mp hn
      exact ⟨hfailed, hnone, (h.good n r hr).inTime hfailed hnone⟩
    · rintro ⟨hfailed, hnone, -⟩
      exact ⟨r.pipeId, (h.pending n r hr).mpr ⟨hfailed, hnone⟩⟩

/-! ## the steps -/

/-- The table behind an insertion. -/
theorem getD_lookup_insert {t : AList fun _ : CString => List Nat} {vector : List Nat}
    (k : CString) : ((t.insert pipeId vector).lookup k).getD [] =
      if k = pipeId then vector else (t.lookup k).getD [] := by
  split
  next hk => rw [hk, AList.lookup_insert, Option.getD_some]
  next hk => rw [AList.lookup_insert_ne hk]

/-- A request is added, or there was no room for it. -/
theorem resolve_cases (s : State) (pipeId : CString) (timeout : Int) (dest : Option CString)
    (timed allocated : Bool) :
    (s.resolve pipeId timeout dest timed allocated = { s with requests := s.requests ++
      [⟨pipeId, s.now + timeout, dest, if timed then some timeout else none, some .nomem,
        some .nomem, []⟩] }) ∨
    ∃ t, s.resolve pipeId timeout dest timed allocated =
      { s with
        requests := s.requests ++
          [⟨pipeId, s.now + timeout, dest, if timed then some timeout else none, none, none, []⟩]
        pendingRequests := t } ∧
      ∀ k, (t.lookup k).getD [] =
        if k = pipeId then s.vectorOf k ++ [s.requests.length] else s.vectorOf k := by
  unfold State.resolve
  dsimp only
  split
  next vector hlookup =>
    refine .inr ⟨_, rfl, fun k => ?_⟩
    rw [getD_lookup_insert]
    split
    next hk =>
      subst hk
      simp [State.vectorOf, hlookup]
    next => rfl
  next hlookup =>
    split
    next =>
      refine .inr ⟨_, rfl, fun k => ?_⟩
      rw [getD_lookup_insert]
      split
      next hk =>
        subst hk
        simp [State.vectorOf, hlookup]
      next => rfl
    next => exact .inl rfl

/-- Only requests that were made are in the table. -/
theorem Inv.lt_length (h : Inv s) (hn : n ∈ s.vectorOf pipeId) : n < s.requests.length := by
  obtain ⟨r, hr, -⟩ := h.own pipeId n hn
  exact (List.getElem?_eq_some_iff.mp hr).1

/-- A request that is added, to the table or not, leaves what is said of the others. -/
theorem Inv.concat (h : Inv s) (hgood : r.Good s.now)
    (hrequests : s'.requests = s.requests ++ [r]) (hnow : s'.now = s.now)
    (hworkers : s'.workers = s.workers) (hwaiters : s'.waiters = s.waiters)
    (hopen : r.Open ∧ (∀ k, s'.vectorOf k =
        if k = r.pipeId then s.vectorOf k ++ [s.requests.length] else s.vectorOf k) ∨
      ¬ r.Open ∧ ∀ k, s'.vectorOf k = s.vectorOf k) : Inv s' := by
  have hfresh : ∀ id, s.requests.length ∉ s.vectorOf id := fun id hn =>
    absurd (h.lt_length hn) (Nat.lt_irrefl _)
  have hold : ∀ {n : Nat} {x : Request}, s.requests[n]? = some x → s'.requests[n]? = some x := by
    intro n x hx
    rw [hrequests]
    exact getElem?_concat_iff.mpr (.inl hx)
  have hlast : s'.requests[s.requests.length]? = some r := by
    rw [hrequests]
    exact getElem?_concat_iff.mpr (.inr ⟨rfl, rfl⟩)
  have hmem : ∀ k n, n ∈ s'.vectorOf k ↔
      n ∈ s.vectorOf k ∨ (r.Open ∧ k = r.pipeId ∧ n = s.requests.length) := by
    intro k n
    rcases hopen with ⟨hopen, hvector⟩ | ⟨hopen, hvector⟩
    · rw [hvector]
      split
      next hk => simp [hk, hopen]
      next hk => simp [hk]
    · rw [hvector]
      simp [hopen]
  refine ⟨fun n x hx => ?_, fun k => ?_, fun k n hn => ?_, fun n x hx => ?_, ?_, fun w hw n hn => ?_,
    fun w hw => ?_⟩
  · rw [hnow]
    rw [hrequests] at hx
    rcases getElem?_concat_iff.mp hx with hx | ⟨-, rfl⟩
    · exact h.good n x hx
    · exact hgood
  · rcases hopen with ⟨-, hvector⟩ | ⟨-, hvector⟩
    · rw [hvector]
      split
      next =>
        rw [nodup_append]
        refine ⟨h.nodup k, nodup_singleton _, fun a ha b hb hab => ?_⟩
        rw [mem_singleton.mp hb] at hab
        exact hfresh k (hab ▸ ha)
      next => exact h.nodup k
    · rw [hvector]
      exact h.nodup k
  · rcases (hmem k n).mp hn with hn | ⟨-, rfl, rfl⟩
    · obtain ⟨x, hx, hid⟩ := h.own k n hn
      exact ⟨x, hold hx, hid⟩
    · exact ⟨r, hlast, rfl⟩
  · rw [hmem]
    rw [hrequests] at hx
    rcases getElem?_concat_iff.mp hx with hx | ⟨rfl, rfl⟩
    · rw [h.pending n x hx]
      have hlt : n < s.requests.length := (List.getElem?_eq_some_iff.mp hx).1
      simp [Nat.ne_of_lt hlt]
    · simp [hfresh]
  · rw [hworkers]
    exact h.hands
  · rw [hworkers] at hw
    obtain ⟨x, hx, hrest⟩ := h.held w hw n hn
    exact ⟨x, hold hx, hrest⟩
  · rw [hwaiters] at hw
    obtain ⟨x, hx, hrest⟩ := h.waiting w hw
    exact ⟨x, hold hx, hrest⟩

theorem Inv.resolve {timeout : Int} {dest : Option CString} {timed allocated : Bool} (h : Inv s)
    (htimeout : 0 < timeout) : Inv (s.resolve pipeId timeout dest timed allocated) := by
  have htimes : ∀ t ∈ (if timed then some timeout else none), s.now + timeout ≤ s.now + t := by
    intro t ht
    split at ht
    next => exact (Option.some.inj ht) ▸ Int.le_refl _
    next => cases ht
  rcases resolve_cases s pipeId timeout dest timed allocated with heq | ⟨t, heq, ht⟩
  · rw [heq]
    refine h.concat ⟨.inl rfl, fun hfailed => ?_, htimes, by simp⟩ rfl rfl rfl rfl
      (.inr ⟨fun hopen => ?_, fun _ => rfl⟩)
    · exact absurd hfailed (by simp [Request.failed])
    · exact absurd hopen.failed (by simp [Request.failed])
  · rw [heq]
    refine h.concat ⟨.inl rfl, fun _ _ => ?_, htimes, by simp⟩ rfl rfl rfl rfl
      (.inl ⟨⟨rfl, rfl⟩, ht⟩)
    show s.now < s.now + timeout
    omega

/-- A request is changed: what is said of it, and of the others. -/
theorem Inv.update {r' : Request} (h : Inv s) (hr : s.requests[n]? = some r)
    (hrequests : s'.requests = s.requests.set n r') (hnow : s'.now = s.now)
    (htable : s'.pendingRequests = s.pendingRequests) (hworkers : s'.workers = s.workers)
    (hgood : r'.Good s.now) (hid : r'.pipeId = r.pipeId) (hdest : r'.dest = r.dest)
    (hopen : r'.Open ↔ r.Open)
    (hwaiting : ∀ w ∈ s'.waiters, ∃ x, s'.requests[w.request]? = some x ∧ x.sent = some .success ∧
      x.timeout ≤ w.timeout) : Inv s' := by
  have hvector : ∀ k, s'.vectorOf k = s.vectorOf k := by
    intro k
    unfold State.vectorOf
    rw [htable]
  have hget : ∀ {m : Nat} {x : Request}, s.requests[m]? = some x →
      ∃ x', s'.requests[m]? = some x' ∧ x'.pipeId = x.pipeId ∧ x'.dest = x.dest ∧
        (x'.Open ↔ x.Open) := by
    intro m x hx
    rw [hrequests]
    by_cases hm : m = n
    · subst hm
      obtain rfl := Option.some.inj (hr.symm.trans hx)
      exact ⟨r', (getElem?_set_iff hr).mpr (.inl ⟨rfl, rfl⟩), hid, hdest, hopen⟩
    · exact ⟨x, (getElem?_set_iff hr).mpr (.inr ⟨hm, hx⟩), rfl, rfl, Iff.rfl⟩
  refine ⟨fun m x hx => ?_, fun k => ?_, fun k m hm => ?_, fun m x hx => ?_, ?_,
    fun w hw m hm => ?_, hwaiting⟩
  · rw [hnow]
    rw [hrequests] at hx
    rcases (getElem?_set_iff hr).mp hx with ⟨-, rfl⟩ | ⟨-, hx⟩
    · exact hgood
    · exact h.good m x hx
  · rw [hvector]
    exact h.nodup k
  · rw [hvector] at hm
    obtain ⟨x, hx, rfl⟩ := h.own k m hm
    obtain ⟨x', hx', hid', -⟩ := hget hx
    exact ⟨x', hx', hid'⟩
  · rw [hrequests] at hx
    rw [hvector]
    rcases (getElem?_set_iff hr).mp hx with ⟨rfl, rfl⟩ | ⟨-, hx⟩
    · rw [hid, hopen]
      exact h.pending m r hr
    · exact h.pending m x hx
  · rw [hworkers]
    exact h.hands
  · rw [hworkers] at hw
    obtain ⟨x, hx, hxopen, hfits⟩ := h.held w hw m hm
    obtain ⟨x', hx', hid', hdest', hopen'⟩ := hget hx
    exact ⟨x', hx', hopen'.mpr hxopen, hfits.congr hid' hdest'⟩

/-- A query has been sent, or could not be. -/
theorem Inv.sendQuery {rv : Status} (h : Inv s) (hr : s.requests[n]? = some r)
    (hsent : r.sent = none) (hcare : rv = .success ∨ r.notices ≠ []) :
    Inv (s.sendQuery n r rv) := by
  have hgood := h.good n r hr
  have hlt : n < s.requests.length := (List.getElem?_eq_some_iff.mp hr).1
  have hunfailed : r.failed = false := by simp [Request.failed, hsent]
  have hsame : ∀ r' : Request, r'.sent = some rv → r'.notices = r.notices → (r'.Open ↔ r.Open) := by
    intro r' hsent' hnotices
    constructor
    · exact fun hopen => ⟨hunfailed, hnotices ▸ hopen.notices⟩
    · intro hopen
      refine ⟨?_, hnotices.trans hopen.notices⟩
      rcases hcare with rfl | hne
      · simp [Request.failed, hsent']
      · exact absurd hopen.notices hne
  have hwaiting : ∀ r' : Request, ∀ w ∈ s.waiters, ∃ x, (s.requests.set n r')[w.request]? = some x ∧
      x.sent = some .success ∧ x.timeout ≤ w.timeout := by
    intro r' w hw
    obtain ⟨x, hx, hxsent, htime⟩ := h.waiting w hw
    refine ⟨x, (getElem?_set_iff hr).mpr (.inr ⟨?_, hx⟩), hxsent, htime⟩
    rintro rfl
    obtain rfl := Option.some.inj (hr.symm.trans hx)
    rw [hsent] at hxsent
    cases hxsent
  unfold State.sendQuery
  split
  next timeout htimed =>
    split
    next hrv =>
      refine h.update hr rfl rfl rfl rfl ?_ rfl rfl (hsame _ rfl rfl) fun w hw => ?_
      · exact ⟨hgood.noticed_congr rfl rfl rfl rfl, fun _ => hgood.inTime hunfailed, hgood.times,
          hgood.answered⟩
      · rcases mem_append.mp hw with hw | hw
        · exact hwaiting _ w hw
        · obtain rfl := mem_singleton.mp hw
          refine ⟨_, (getElem?_set_iff hr).mpr (.inl ⟨rfl, rfl⟩), congrArg some hrv, ?_⟩
          exact hgood.times timeout (by rw [htimed]; rfl)
    next hrv =>
      refine h.update hr rfl rfl rfl rfl ?_ rfl rfl (hsame _ rfl rfl) (hwaiting _)
      exact ⟨hgood.noticed_congr rfl rfl rfl rfl, fun _ => hgood.inTime hunfailed, hgood.times,
        fun _ hreturned => absurd (Option.some.inj hreturned) hrv⟩
  next htimed =>
    refine h.update hr rfl rfl rfl rfl ?_ rfl rfl (hsame _ rfl rfl) (hwaiting _)
    exact ⟨hgood.noticed_congr rfl rfl rfl rfl, fun _ => hgood.inTime hunfailed, hgood.times,
      fun hsome => absurd hsome (by simp [htimed])⟩

/-- What is selected is pending for the pipe of the answer, and takes its peer. -/
theorem mem_selected (hn : n ∈ s.selected answer) :
    ∃ pipeId peer, answer.pipeId = some pipeId ∧ answer.peer = some peer ∧
      n ∈ s.vectorOf pipeId ∧ s.takes peer n = true := by
  unfold State.selected at hn
  split at hn
  next pipeId peer hid hpeer =>
    rw [mem_reverse, mem_filter] at hn
    exact ⟨pipeId, peer, hid, hpeer, hn.1, hn.2⟩
  next => cases hn

theorem Inv.nodup_selected (h : Inv s) (answer : Answer) : (s.selected answer).Nodup := by
  unfold State.selected
  split
  next pipeId peer _ _ => exact nodup_reverse.mpr ((h.nodup pipeId).filter _)
  next => exact nodup_nil

theorem Inv.select (h : Inv s)
    (hcare : ∀ n ∈ s.selected answer, answer.found = true ∧ ∀ w ∈ s.workers, n ∉ w.reqs) :
    Inv (s.select answer) := by
  unfold State.select
  split
  next => exact h
  next =>
    refine ⟨h.good, h.nodup, h.own, h.pending, ?_, fun w hw n hn => ?_, h.waiting⟩
    · rw [flatMap_append, nodup_append]
      refine ⟨h.hands, by simpa using h.nodup_selected answer, fun a ha b hb hab => ?_⟩
      subst hab
      obtain ⟨w, hw, hmem⟩ := mem_flatMap.mp ha
      exact (hcare a (by simpa using hb)).2 w hw hmem
    · rcases mem_append.mp hw with hw | hw
      · exact h.held w hw n hn
      · obtain rfl := mem_singleton.mp hw
        obtain ⟨pipeId, peer, hid, hpeer, hvector, htakes⟩ := mem_selected hn
        obtain ⟨r, hr, rfl⟩ := h.own pipeId n hvector
        refine ⟨r, hr, (h.pending n r hr).mp hvector, hid, (hcare n hn).1, fun dest hdest => ?_⟩
        unfold State.takes at htakes
        rw [hr] at htakes
        simp only [hdest, reduceCtorEq, Option.some.injEq, false_or, decide_eq_true_eq] at htakes
        rw [hpeer, htakes]

/-- The request is out of the vector of its pipe. -/
theorem vectorOf_remove (s : State) (n : Nat) (r : Request) (k : CString) :
    (s.remove n r).vectorOf k =
      if k = r.pipeId then (s.vectorOf k).filter (· ≠ n) else s.vectorOf k := by
  unfold State.remove
  split
  next hlookup =>
    split
    next hk =>
      subst hk
      simp [State.vectorOf, hlookup]
    next => rfl
  next vector hlookup =>
    split
    next hnil =>
      unfold State.vectorOf
      split
      next hk =>
        subst hk
        rw [AList.lookup_erase, hlookup, Option.getD_some, hnil]
        rfl
      next hk => rw [AList.lookup_erase_ne hk]
    next =>
      unfold State.vectorOf
      rw [getD_lookup_insert]
      split
      next hk =>
        subst hk
        rw [hlookup, Option.getD_some]
      next => rfl

/-- The worker has one request less in its hands. -/
theorem proceed_workers {reqs : List Nat} {t : State}
    (hw : t.workers[i]? = some ⟨answer, n :: reqs⟩) :
    ∃ before behind, t.workers.flatMap Worker.reqs = before ++ n :: (reqs ++ behind) ∧
      (t.proceed i answer reqs).workers.flatMap Worker.reqs = before ++ (reqs ++ behind) ∧
      ∀ w ∈ (t.proceed i answer reqs).workers, w ∈ t.workers ∨ w = ⟨answer, reqs⟩ := by
  obtain ⟨pre, post, hworkers, hset, herase⟩ := exists_split hw
  refine ⟨pre.flatMap Worker.reqs, post.flatMap Worker.reqs, by simp [hworkers], ?_, fun w hmem => ?_⟩
  · unfold State.proceed
    split
    next hnil => simp [herase, hnil]
    next => simp [hset]
  · unfold State.proceed at hmem
    split at hmem
    next =>
      rw [herase] at hmem
      rw [hworkers]
      rcases mem_append.mp hmem with hmem | hmem
      · exact .inl (mem_append_left _ hmem)
      · exact .inl (mem_append_right _ (mem_cons_of_mem _ hmem))
    next => exact (mem_or_eq_of_mem_set hmem)

/-- A request is removed and its listener invoked. -/
theorem Inv.notify {reqs : List Nat} (h : Inv s) (hw : s.workers[i]? = some ⟨answer, n :: reqs⟩)
    (hr : s.requests[n]? = some r) :
    Inv (((s.remove n r).invoke n r answer).proceed i answer reqs) := by
  have hgood := h.good n r hr
  obtain ⟨r', hr', hopen, hfits⟩ := h.held _ (mem_of_getElem? hw) n mem_cons_self
  obtain rfl := Option.some.inj (hr.symm.trans hr')
  have hremove : (s.remove n r).requests = s.requests ∧ (s.remove n r).workers = s.workers ∧
      (s.remove n r).now = s.now ∧ (s.remove n r).waiters = s.waiters := by
    unfold State.remove
    split
    next => exact ⟨rfl, rfl, rfl, rfl⟩
    next => split <;> exact ⟨rfl, rfl, rfl, rfl⟩
  obtain ⟨hrequests, hworkers, hnow, hwaiters⟩ := hremove
  generalize hu : (s.remove n r).invoke n r answer = u
  have huw : u.workers[i]? = some ⟨answer, n :: reqs⟩ := by
    rw [← hu]
    show (s.remove n r).workers[i]? = _
    rw [hworkers, hw]
  obtain ⟨before, behind, hold, hnew, hmem⟩ := proceed_workers huw
  let noticed : Request := { r with notices := [⟨answer, s.now, r.failed⟩] }
  have hset : u.requests = s.requests.set n noticed := by
    rw [← hu]
    show (s.remove n r).requests.set n _ = _
    rw [hrequests, hnow, hopen.notices]
    rfl
  have hvector : ∀ k, u.vectorOf k =
      if k = r.pipeId then (s.vectorOf k).filter (· ≠ n) else s.vectorOf k := by
    intro k
    rw [← hu]
    exact vectorOf_remove s n r k
  have hnodup : (before ++ n :: (reqs ++ behind)).Nodup := by
    rw [← hold, ← hu]
    show ((s.remove n r).workers.flatMap _).Nodup
    rw [hworkers]
    exact h.hands
  have hunow : u.now = s.now := by
    rw [← hu]
    exact hnow
  have huwaiters : u.waiters = s.waiters := by
    rw [← hu]
    exact hwaiters
  have huworkers : u.workers = s.workers := by
    rw [← hu]
    exact hworkers
  have hget : ∀ {m : Nat} {x : Request}, m ≠ n → s.requests[m]? = some x →
      u.requests[m]? = some x := by
    intro m x hm hx
    rw [hset]
    exact (getElem?_set_iff hr).mpr (.inr ⟨hm, hx⟩)
  have hnoticed : u.requests[n]? = some noticed := by
    rw [hset]
    exact (getElem?_set_iff hr).mpr (.inl ⟨rfl, rfl⟩)
  have hmemof : ∀ k m, m ∈ u.vectorOf k ↔ m ∈ s.vectorOf k ∧ (k = r.pipeId → m ≠ n) := by
    intro k m
    rw [hvector]
    split
    next hk => simp [hk]
    next hk => simp [hk]
  have hrest : ∀ m ∈ before ++ (reqs ++ behind), m ≠ n := by
    rintro m hm rfl
    exact (nodup_middle.mp hnodup).notMem hm
  have hheld : ∀ w ∈ (u.proceed i answer reqs).workers, ∀ m ∈ w.reqs,
      ∃ x, s.requests[m]? = some x ∧ x.Open ∧ w.answer.Fits x := by
    intro w hw' m hm
    rcases hmem w hw' with hw' | rfl
    · exact h.held w (huworkers ▸ hw') m hm
    · exact h.held _ (mem_of_getElem? hw) m (mem_cons_of_mem _ hm)
  refine ⟨fun m x hx => ?_, fun k => ?_, fun k m hm => ?_, fun m x hx => ?_, ?_,
    fun w hw' m hm => ?_, fun w hw' => ?_⟩
  · show x.Good u.now
    rw [hunow]
    change u.requests[m]? = some x at hx
    rw [hset] at hx
    rcases (getElem?_set_iff hr).mp hx with ⟨-, rfl⟩ | ⟨-, hx⟩
    · exact ⟨.inr ⟨_, rfl, hfits.congr rfl rfl, hgood.inTime hopen.failed hopen.notices,
        hopen.failed⟩, fun _ hnone => absurd hnone (by simp [noticed]), hgood.times,
        fun _ _ => by simp [noticed]⟩
    · exact h.good m x hx
  · show (u.vectorOf k).Nodup
    rw [hvector]
    split
    next => exact (h.nodup k).filter _
    next => exact h.nodup k
  · obtain ⟨hm, hne⟩ := (hmemof k m).mp hm
    obtain ⟨x, hx, rfl⟩ := h.own k m hm
    by_cases hmn : m = n
    · subst hmn
      obtain rfl := Option.some.inj (hr.symm.trans hx)
      exact absurd rfl (hne rfl)
    · exact ⟨x, hget hmn hx, rfl⟩
  · show m ∈ u.vectorOf x.pipeId ↔ x.Open
    rw [hmemof]
    change u.requests[m]? = some x at hx
    rw [hset] at hx
    rcases (getElem?_set_iff hr).mp hx with ⟨rfl, rfl⟩ | ⟨hmn, hx⟩
    · exact ⟨fun hm => absurd rfl (hm.2 rfl), fun hx => absurd hx.notices (by simp [noticed])⟩
    · rw [h.pending m x hx]
      exact ⟨fun hx => hx.1, fun hx => ⟨hx, fun _ => hmn⟩⟩
  · rw [hnew]
    exact (nodup_middle.mp hnodup).of_cons
  · obtain ⟨x, hx, hrest'⟩ := hheld w hw' m hm
    refine ⟨x, hget (hrest m ?_) hx, hrest'⟩
    rw [← hnew]
    exact mem_flatMap.mpr ⟨w, hw', hm⟩
  · obtain ⟨x, hx, hsent, htime⟩ := h.waiting w (huwaiters ▸ hw')
    by_cases hwn : w.request = n
    · rw [hwn] at hx ⊢
      obtain rfl := Option.some.inj (hr.symm.trans hx)
      exact ⟨noticed, hnoticed, hsent, htime⟩
    · exact ⟨x, hget hwn hx, hsent, htime⟩

/-- A waiting call returns, since its request has been notified. -/
theorem Inv.take {w : Waiter} (h : Inv s) (hr : s.requests[w.request]? = some r)
    (hnotices : r.notices ≠ []) :
    Inv { s.setRequest w.request { r with returned := some .success } with
      waiters := s.waiters.eraseIdx i } := by
  have hgood := h.good _ r hr
  have hopen : ({ r with returned := some .success } : Request).Open ↔ r.Open :=
    ⟨fun hopen => ⟨hopen.failed, hopen.notices⟩, fun hopen => ⟨hopen.failed, hopen.notices⟩⟩
  refine h.update hr rfl rfl rfl rfl ?_ rfl rfl hopen fun v hv => ?_
  · exact ⟨hgood.noticed_congr rfl rfl rfl rfl, hgood.inTime, hgood.times, fun _ _ => hnotices⟩
  · obtain ⟨x, hx, hsent, htime⟩ := h.waiting v (mem_of_mem_eraseIdx hv)
    by_cases hvw : v.request = w.request
    · rw [hvw] at hx ⊢
      obtain rfl := Option.some.inj (hr.symm.trans hx)
      exact ⟨_, (getElem?_set_iff hr).mpr (.inl ⟨rfl, rfl⟩), hsent, htime⟩
    · exact ⟨x, (getElem?_set_iff hr).mpr (.inr ⟨hvw, hx⟩), hsent, htime⟩

/-- Time passes, but no request runs out of it. -/
theorem Inv.tick {d : Nat} (h : Inv s)
    (hcare : ∀ r ∈ s.requests, r.failed = false → r.notices = [] → s.now + d < r.timeout) :
    Inv { s with now := s.now + d } := by
  refine ⟨fun n r hr => ?_, h.nodup, h.own, h.pending, h.hands, h.held, h.waiting⟩
  have hgood := h.good n r hr
  refine ⟨hgood.noticed, hcare r (mem_of_getElem? hr), fun t ht => ?_, hgood.answered⟩
  show r.timeout ≤ s.now + d + t
  have := hgood.times t ht
  omega

theorem Inv.next {a : Action} (h : Inv s) (hcare : Careful s a) (hnext : Next s a s') : Inv s' := by
  unfold Next step at hnext
  cases a with
  | resolve pipeId timeout dest timed allocated =>
    cases hnext
    exact h.resolve hcare
  | sendQuery n rv =>
    dsimp only at hnext
    split at hnext
    next r hr =>
      split at hnext
      next hsent =>
        cases hnext
        exact h.sendQuery hr hsent (hcare r hr)
      next => cases hnext
    next => cases hnext
  | select answer =>
    dsimp only at hnext
    split at hnext
    next =>
      cases hnext
      exact h.select hcare
    next => cases hnext
  | notify i =>
    dsimp only at hnext
    split at hnext
    next answer n reqs hw =>
      cases hr : s.requests[n]? with
      | none =>
        rw [hr] at hnext
        cases hnext
      | some r =>
        rw [hr] at hnext
        cases hnext
        exact h.notify hw hr
    next => cases hnext
  | take i =>
    dsimp only at hnext
    split at hnext
    next w hw =>
      split at hnext
      next r hr =>
        split at hnext
        next hnotices =>
          cases hnext
          exact h.take hr hnotices
        next => cases hnext
      next => cases hnext
    next => cases hnext
  | giveUp i =>
    dsimp only at hnext
    split at hnext
    next w hw =>
      split at hnext
      next r hr => split at hnext <;> cases hnext
      next => cases hnext
    next => cases hnext
  | tick d =>
    cases hnext
    exact h.tick hcare

/-- No call of `timed_remote_resolve` is left without its event. -/
theorem Inv.faultless {a : Action} {f : Fault} (h : Inv s) : step s a ≠ some (.error f) := by
  intro hfault
  unfold step at hfault
  cases a with
  | resolve pipeId timeout dest timed allocated => cases hfault
  | sendQuery n rv =>
    dsimp only at hfault
    split at hfault
    next => split at hfault <;> cases hfault
    next => cases hfault
  | select answer =>
    dsimp only at hfault
    split at hfault <;> cases hfault
  | notify i =>
    dsimp only at hfault
    split at hfault
    next answer n reqs hw =>
      obtain ⟨r, hr, -⟩ := h.held _ (mem_of_getElem? hw) n mem_cons_self
      rw [hr] at hfault
      cases hfault
    next => cases hfault
  | take i =>
    dsimp only at hfault
    split at hfault
    next =>
      split at hfault
      next => split at hfault <;> cases hfault
      next => cases hfault
    next => cases hfault
  | giveUp i =>
    dsimp only at hfault
    split at hfault
    next w hw =>
      split at hfault
      next r hr =>
        split at hfault
        next htime =>
          -- the query of a waiting call was sent, and its request still has time
          obtain ⟨x, hx, hsent, hlate⟩ := h.waiting w (mem_of_getElem? hw)
          obtain rfl := Option.some.inj (hr.symm.trans hx)
          have hleft := (h.good _ r hr).inTime (by simp [Request.failed, hsent]) htime.2
          have hover := htime.1
          omega
        next => cases hfault
      next => cases hfault
    next => cases hfault
  | tick d => cases hfault

/-- Runs of careful steps keep the law of the requests, and dereference nothing that is not there. -/
theorem requests_lawful (hreaches : Reaches Next Careful initial s) :
    s.Lawful ∧ ∀ a f, step s a ≠ some (.error f) := by
  have hinv : Inv s := hreaches.invariant inv_initial Inv.next
  exact ⟨hinv.lawful, fun a f => hinv.faultless⟩

end Steps

/-! ## runs -/

instance (s : State) (a : Action) : Decidable (Careful s a) := by
  unfold Careful
  split <;> infer_instance

/-- The state behind a step, under a condition. -/
def call (ok : State → Action → Bool) (s : State) (a : Action) : Option State :=
  if ok s a then (step s a).bind Except.toOption else none

theorem call_eq_some {ok : State → Action → Bool} {s s' : State} {a : Action}
    (h : call ok s a = some s') : ok s a = true ∧ Next s a s' := by
  unfold call at h
  split at h
  next hok =>
    obtain ⟨r, hstep, hr⟩ := Option.bind_eq_some_iff.mp h
    cases r with
    | error f => cases hr
    | ok t =>
      cases hr
      exact ⟨hok, hstep⟩
  next => cases h

/-- The id of a pipe. -/
def pipeId : CString := .ofBuffer (text "urn:jxta:pipe")

/-- The id of a peer. -/
def peerId : CString := .ofBuffer (text "urn:jxta:peer")

/-- A call that waits five units of time for an answer of a peer, and has it after two. -/
def waitedFor : State :=
  ⟨2, [⟨pipeId, 5, some peerId, some 5, some .success, some .success,
    [⟨⟨some pipeId, some peerId, true⟩, 2, false⟩]⟩], ∅, [], []⟩

theorem requests_lawful_answered : waitedFor.Lawful ∧ ∀ a f, step waitedFor a ≠ some (.error f) := by
  refine requests_lawful (reaches_of_foldlM (f := call fun s a => decide (Careful s a))
    (fun h => ⟨of_decide_eq_true (call_eq_some h).1, (call_eq_some h).2⟩)
    (l := [.resolve pipeId 5 (some peerId) true true, .sendQuery 0 .success, .tick 2,
      .select ⟨some pipeId, some peerId, true⟩, .notify 0, .take 0]) rfl)

/-- A peer answers that it does not have the pipe, and the listener is told of it. -/
theorem not_requests_lawful : ¬ ∀ s, Reaches Next (fun _ _ => True) initial s →
    s.Lawful ∧ ∀ a f, step s a ≠ some (.error f) := by
  intro h
  let answer : Answer := ⟨some pipeId, some peerId, false⟩
  have hrun : Reaches Next (fun _ _ => True) initial
      ⟨0, [⟨pipeId, 5, none, none, some .success, some .success, [⟨answer, 0, false⟩]⟩], ∅, [], []⟩ :=
    reaches_of_foldlM (f := call fun _ _ => true) (fun h => ⟨trivial, (call_eq_some h).2⟩)
      (l := [.resolve pipeId 5 none false true, .sendQuery 0 .success, .select answer, .notify 0]) rfl
  have hfits := (h _ hrun).1.fits _ (mem_singleton.mpr rfl) _ (mem_singleton.mpr rfl)
  exact absurd hfits.found (by simp [answer])

end PipeResolver

end JxtaC
