import JxtaC.TcpThreads.Stream

/-
  A TCP connection keeps its promise in every run of careful steps. There is one worker at most and
  one close at most that has begun (`Crew`); where the worker is says what the endpoint service has
  been told (`Tells`), and the connection as the worker will leave it comes to the same messages as all
  that was received (`Data`).
-/

namespace JxtaC

open Lib TcpConnection List

namespace TcpThreads
variable {w' : Option Point} {p p' : Point} {more : List Bucket} {eof : Bool} {conn : TcpConnection}
variable {rv : AprStatus} {caller : Caller} {wasConnected : Bool}

/-- The worker, from the push on. -/
def Point.worker (p : Point) : Option Point := if p = .push ∨ p.Works = true then some p else none

/-- A close that has begun, with `was_connected`. -/
def Point.closing : Point → Option Bool
  | .close (.removePoll wasConnected) _ | .close (.shutdown wasConnected) _ => some wasConnected
  | _ => none

/-- The worker has not come to the end. -/
def Point.Active : Point → Bool
  | .push | .top | .accepted | .getMessenger | .messengerNew | .transportEvent | .messageRead => true
  | _ => false

/-- A close lies behind. -/
def Point.Behind : Point → Bool
  | .endOfStream | .leave | .giveUp => true
  | _ => false

/-- Who is on the way: the worker, and the close that has begun. -/
structure Crew (threads : List Point) (w : Option Point) (c : Option Bool) : Prop where
  worker : threads.filterMap Point.worker = w.toList
  closer : threads.filterMap Point.closing = c.toList

section Crew
variable {threads : List Point} {w : Option Point} {c : Option Bool} {n : Nat} {p p' : Point}

theorem Crew.eq_some (h : Crew threads w c) (hn : threads[n]? = some p) (hp : p.worker = some p) :
    w = some p := (filterMap_set_of_some hn hp h.worker p).1

theorem Crew.mem (h : Crew threads (some p) c) : p ∈ threads := by
  have hmem : p ∈ threads.filterMap Point.worker := by
    rw [h.worker]
    exact mem_singleton_self p
  obtain ⟨q, hq, hworker⟩ := mem_filterMap.mp hmem
  unfold Point.worker at hworker
  split at hworker
  next => exact Option.some.inj hworker ▸ hq
  next => cases hworker

section
variable (h : Crew threads w c)
include h

theorem Crew.mem_messageRead : Point.messageRead ∈ threads ↔ w = some .messageRead := by
  constructor
  · intro hmem
    obtain ⟨n, hn⟩ := mem_iff_getElem?.mp hmem
    exact h.eq_some hn rfl
  · rintro rfl
    exact h.mem

/-- The worker goes on. -/
theorem Crew.work (hn : threads[n]? = some p) (hp : p.worker = some p)
    (hc : p'.closing = p.closing) : Crew (threads.set n p') p'.worker c :=
  ⟨(filterMap_set_of_some hn hp h.worker p').2, (filterMap_set_of_eq hn hc).trans h.closer⟩

/-- Another thread goes on. -/
theorem Crew.pass (hn : threads[n]? = some p) (hp : p'.worker = p.worker)
    (hc : p'.closing = p.closing) : Crew (threads.set n p') w c :=
  ⟨(filterMap_set_of_eq hn hp).trans h.worker, (filterMap_set_of_eq hn hc).trans h.closer⟩

/-- A thread comes, which is neither. -/
theorem Crew.concat (hp : p.worker = none) (hc : p.closing = none) : Crew (threads ++ [p]) w c := by
  refine ⟨?_, ?_⟩
  · rw [filterMap_append, h.worker, filterMap_cons, hp, filterMap_nil,
      append_nil]
  · rw [filterMap_append, h.closer, filterMap_cons, hc, filterMap_nil,
      append_nil]

end

end Crew

variable (env : Surroundings)

/-- The connect event is told, and the event of the close once it is over. -/
def Told (s : State) (c : Option Bool) : Prop :=
  (s.events = [env.connected] ∧ (s.connectionState = .connected ∨ c = some true)) ∨
    (s.events = [env.connected, .connectionClosed] ∧ s.connectionState = .disconnected)

/-- Nothing is told, and no close will tell of itself. -/
def Untold (s : State) (c : Option Bool) : Prop :=
  s.events = [] ∧ s.connectionState ≠ .connected ∧ c ≠ some true

/-- How far the worker is with the connect event. -/
inductive Stage where
  | accepted
  | waiting
  | telling
  | reading
  | elsewhere

def stage : Option Point → Stage
  | some .accepted => .accepted
  | some .getMessenger | some .messengerNew => .waiting
  | some .transportEvent => .telling
  | some .messageRead => .reading
  | _ => .elsewhere

/-- What is told meanwhile. -/
def Tells (s : State) (c : Option Bool) : Stage → Prop
  | .accepted => s.conn.itsWelcome ≠ none ∧ Untold s c
  | .waiting => s.conn.itsWelcome ≠ none ∧ s.events = [] ∧ s.connectionState = .connected
  | .telling =>
    s.conn.itsWelcome ≠ none ∧ s.events = [] ∧ (s.connectionState = .connected ∨ c = some true)
  | .reading => s.conn.itsWelcome ≠ none ∧ Told env s c
  | .elsewhere =>
    (s.conn.itsWelcome = none ∧ Untold s c) ∨ (s.conn.itsWelcome ≠ none ∧ Told env s c)

/-- How the state of the connection goes with who is on the way. -/
structure Phase (s : State) (w : Option Point) (c : Option Bool) : Prop where
  started : s.connectionState ≠ .init
  dispatched : w ≠ none → s.dispatched = true
  undispatched : s.dispatched = true → w = none → s.before ≠ none
  disconnecting : s.connectionState = .disconnecting ↔ c ≠ none
  before : s.before = none ↔ s.connectionState = .connecting ∨ s.connectionState = .connected
  socket : s.socket = false ↔ s.connectionState = .disconnected
  behind : ∀ p ∈ s.threads, p.Behind = true → s.before ≠ none

/-- The connection as the worker leaves it. -/
def State.view (s : State) (w : Option Point) : TcpConnection :=
  if s.broken then { s.conn with closed := true }
  else if w = some .messageRead then s.conn.deliver env.messageRead
  else s.conn

/-- What is received and what comes of it. -/
structure Data (s : State) (w : Option Point) : Prop where
  stream : s.socket = true → ∀ more : List (List Byte), (∀ bucket ∈ more, bucket ≠ []) →
    complete env.uriParse env.messageRead ((s.view env w).arrive more)
      = messages env (s.received ++ more)
  cleaned : s.socket = false → s.conn.brigade = []
  inOrder : (s.view env w).delivered <+: messages env s.received
  kept : s.socket = false → ∀ before ∈ s.before,
    messages env before <+: (s.view env w).delivered
  ready : s.broken = false → (w = some .messageRead ∧ s.conn.Ripe) ∨
    (w ≠ some .messageRead ∧ (s.conn.Waits ∨ s.conn.Receives))
  idle : s.broken = true → ∀ p ∈ w, p.Active = false
  quiet : s.before = none → w = none → Point.close .begin .readCb ∉ s.threads → s.conn.brigade = []

/-- What careful steps keep. -/
structure InvAt (s : State) (w : Option Point) (c : Option Bool) : Prop where
  crew : Crew s.threads w c
  phase : Phase s w c
  tells : Tells env s c (stage w)
  data : Data env s w

def Inv (s : State) : Prop := ∃ w c, InvAt env s w c

variable {env} {s s' : State} {w : Option Point} {c : Option Bool} {n : Nat}

theorem messages_eq (buckets : List (List Byte)) : messages env buckets = complete env.uriParse
    env.messageRead ((TcpConnection.start env.destAddr env.myMsgVersion).arrive buckets) := rfl

theorem inv_initial : Inv env (initial env) := by
  refine ⟨none, none, ⟨rfl, rfl⟩, ?_, .inl ⟨rfl, rfl, by simp [initial], by simp⟩, ?_⟩
  · refine ⟨?_, ?_, ?_, ?_, ?_, ?_, ?_⟩ <;> simp [initial]
  · refine ⟨fun _ more _ => (messages_eq more).symm, nofun, List.nil_prefix, nofun,
      fun _ => .inr ⟨by decide, .inl (waits_start _ _)⟩, nofun, fun _ _ _ => rfl⟩

/-- Where nothing is on the way. -/
theorem InvAt.atRest (h : InvAt env s w c) (hrest : s.AtRest) : w = none ∧ c = none := by
  have hnil : ∀ {β : Type} (f : Point → Option β), f .done = none → s.threads.filterMap f = [] := by
    intro β f hf
    rw [filterMap_eq_nil_iff]
    exact fun p hp => hrest p hp ▸ hf
  refine ⟨?_, ?_⟩
  · have hw := h.crew.worker
    rw [hnil _ rfl] at hw
    exact Option.toList_eq_nil_iff.mp hw.symm
  · have hc := h.crew.closer
    rw [hnil _ rfl] at hc
    exact Option.toList_eq_nil_iff.mp hc.symm

theorem State.delivered_view (s : State) (w : Option Point) :
    s.conn.delivered <+: (s.view env w).delivered := by
  unfold State.view
  split
  next => exact prefix_refl _
  next =>
    split
    next => exact deliver_extends _
    next => exact prefix_refl _

theorem InvAt.lawful (h : InvAt env s w c) : s.Lawful env := by
  have htold : s.events <+: [env.connected, .connectionClosed] := by
    have hnone : ([] : List TransportEvent) <+: [env.connected, .connectionClosed] := List.nil_prefix
    have hUntold : Untold s c → s.events <+: [env.connected, .connectionClosed] :=
      fun hu => hu.1 ▸ hnone
    have hTold : Told env s c → s.events <+: [env.connected, .connectionClosed] := by
      rintro (⟨hevents, -⟩ | ⟨hevents, -⟩)
      · exact hevents ▸ prefix_append [env.connected] [.connectionClosed]
      · exact hevents ▸ prefix_refl _
    have htells := h.tells
    cases hstage : stage w with
    | accepted =>
      rw [hstage] at htells
      exact hUntold htells.2
    | waiting =>
      rw [hstage] at htells
      exact htells.2.1 ▸ hnone
    | telling =>
      rw [hstage] at htells
      exact htells.2.1 ▸ hnone
    | reading =>
      rw [hstage] at htells
      exact hTold htells.2
    | elsewhere =>
      rw [hstage] at htells
      exact htells.elim (fun h => hUntold h.2) (fun h => hTold h.2)
  have hview : w = none → (s.view env w).delivered = s.conn.delivered := by
    rintro rfl
    unfold State.view
    split <;> rfl
  have hne : env.connected ≠ .connectionClosed := by
    unfold Surroundings.connected
    split <;> decide
  refine ⟨?_, (s.delivered_view w).trans h.data.inOrder, fun hrest hbefore => ?_,
    fun hrest before hbefore => ?_, htold, fun hrest => ?_, fun hrest hwelcome => ?_⟩
  · have hlength := congrArg List.length h.crew.worker
    have hle : w.toList.length ≤ 1 := by cases w <;> simp
    rw [length_filterMap_eq_countP] at hlength
    refine Nat.le_trans (countP_mono_left fun p _ hp => ?_) (hlength ▸ hle)
    unfold Point.worker
    rw [if_pos (.inr hp)]
    rfl
  · obtain ⟨rfl, rfl⟩ := h.atRest hrest
    have hopen := h.phase.before.mp hbefore
    have hsocket : s.socket = true := by
      rw [← Bool.not_eq_false]
      intro hsocket
      rw [h.phase.socket.mp hsocket] at hopen
      exact absurd hopen (by decide)
    have hnil := h.data.quiet hbefore rfl fun hmem => absurd (hrest _ hmem) (by decide)
    have hstream := h.data.stream hsocket [] fun _ h => absurd h not_mem_nil
    rw [arrive_nil, append_nil] at hstream
    rw [← hstream, ← hview rfl]
    refine (complete_of_nil ?_ ?_).symm
    · unfold State.view
      split
      next => exact .inr (.inl rfl)
      next hbroken =>
        rw [if_neg (by decide)]
        rcases h.data.ready (by simpa using hbroken) with ⟨hw, -⟩ | ⟨-, hwaits | hreceives⟩
        · cases hw
        · exact .inl hwaits
        · exact .inr (.inr hreceives)
    · unfold State.view
      split
      next => exact hnil
      next => exact hnil
  · obtain ⟨rfl, rfl⟩ := h.atRest hrest
    rw [← hview rfl]
    refine h.data.kept ?_ before hbefore
    rw [h.phase.socket]
    have hopen : ¬ s.before = none := by
      rw [hbefore]
      nofun
    rw [h.phase.before] at hopen
    have hclosing := h.phase.disconnecting
    have hstarted := h.phase.started
    cases hstate : s.connectionState with
    | init => exact absurd hstate hstarted
    | connecting => exact absurd (.inl hstate) hopen
    | connected => exact absurd (.inr hstate) hopen
    | disconnecting => exact absurd rfl (hclosing.mp hstate)
    | disconnected => rfl
  · obtain ⟨rfl, rfl⟩ := h.atRest hrest
    rcases h.tells with ⟨hwelcome, hevents, -⟩ | ⟨hwelcome, ⟨hevents, -⟩ | ⟨hevents, -⟩⟩
    · simp [hwelcome, hevents]
    · simp [hwelcome, hevents]
    · simp [hwelcome, hevents]
  · obtain ⟨rfl, rfl⟩ := h.atRest hrest
    rw [ne_eq, h.phase.before]
    rcases h.tells with ⟨hnone, -⟩ | ⟨-, ⟨hevents, hstate⟩ | ⟨hevents, hstate⟩⟩
    · exact absurd hnone hwelcome
    · have hstate' := hstate.resolve_right (by decide)
      simp [hevents, hstate', hne.symm]
    · simp [hevents, hstate]

/-! ## the steps -/

/-- The connection waits for its greeting, or the bytes go the way of `feed`. -/
theorem Data.view_ready (h : s.broken = false → (w = some .messageRead ∧ s.conn.Ripe) ∨
    (w ≠ some .messageRead ∧ (s.conn.Waits ∨ s.conn.Receives))) :
    (s.view env w).Waits ∨ (s.view env w).Settled := by
  unfold State.view
  split
  next => exact .inr (.inl rfl)
  next hbroken =>
    rcases h (by simpa using hbroken) with ⟨hw, hripe⟩ | ⟨hw, hwaits | hreceives⟩
    · rw [if_pos hw]
      exact .inr hripe.deliver
    · rw [if_neg hw]
      exact .inl hwaits
    · rw [if_neg hw]
      exact .inr (.inr hreceives)

/-- What is delivered is a part of what all that was received comes to. -/
theorem Data.inOrder_of_stream
    (hready : (s.view env w).Waits ∨ (s.view env w).Settled)
    (hstream : ∀ more : List (List Byte), (∀ bucket ∈ more, bucket ≠ []) →
      complete env.uriParse env.messageRead ((s.view env w).arrive more)
        = messages env (s.received ++ more)) :
    (s.view env w).delivered <+: messages env s.received := by
  rcases hready with hwaits | hsettled
  · rw [hwaits.undelivered]
    exact List.nil_prefix
  · have hall := hstream [] fun _ h => absurd h not_mem_nil
    rw [arrive_nil, append_nil] at hall
    rw [← hall]
    exact delivered_prefix_complete hsettled

theorem Point.worker_ne (hp : p ≠ .messageRead) : p.worker ≠ some .messageRead := by
  unfold Point.worker
  split
  next => simpa using hp
  next => decide

theorem State.view_working (hbroken : s.broken = false) (hw : w ≠ some .messageRead) :
    s.view env w = s.conn := by
  unfold State.view
  rw [hbroken, if_neg (by decide), if_neg hw]

theorem State.view_reading (hbroken : s.broken = false) :
    s.view env (some .messageRead) = s.conn.deliver env.messageRead := by
  unfold State.view
  rw [hbroken]
  rfl

/-- Nothing is broken before the worker comes to the end. -/
theorem InvAt.unbroken (h : InvAt env s (some p) c) (hp : p.Active = true) : s.broken = false := by
  rw [← Bool.not_eq_true]
  exact fun hbroken => absurd (hp.symm.trans (h.data.idle hbroken p rfl)) (by decide)

theorem State.view_congr (hconn : s'.conn = s.conn) (hbroken : s'.broken = s.broken)
    (hview : w' = some .messageRead ↔ w = some .messageRead) : s'.view env w' = s.view env w := by
  unfold State.view
  rw [hconn, hbroken]
  by_cases hw : w = some .messageRead
  · rw [if_pos hw, if_pos (hview.mpr hw)]
  · rw [if_neg hw, if_neg fun hw' => hw (hview.mp hw')]

/-- A step that leaves what was received as it is. -/
theorem Data.move (h : Data env s w) (hconn : s'.conn = s.conn) (hsocket : s'.socket = s.socket)
    (hreceived : s'.received = s.received) (hbefore : s'.before = s.before)
    (hbroken : s'.broken = s.broken) (hview : w' = some .messageRead ↔ w = some .messageRead)
    (hidle : s.broken = true → ∀ p ∈ w', p.Active = false)
    (hquiet : s.before = none → w' = none → Point.close .begin .readCb ∉ s'.threads →
      s.conn.brigade = []) : Data env s' w' := by
  have hview' : s'.view env w' = s.view env w := State.view_congr hconn hbroken hview
  refine ⟨?_, ?_, ?_, ?_, ?_, ?_, ?_⟩
  · rw [hview', hsocket, hreceived]
    exact h.stream
  · rw [hsocket, hconn]
    exact h.cleaned
  · rw [hview', hreceived]
    exact h.inOrder
  · rw [hview', hsocket, hbefore]
    exact h.kept
  · rw [hbroken, hconn, ne_eq, hview]
    exact h.ready
  · rw [hbroken]
    exact hidle
  · rw [hbefore, hconn]
    exact hquiet

/-- A step of the threads alone. -/
theorem InvAt.control {l : List Point} (d : Bool) (lock : Option Nat) (h : InvAt env s w c)
    (hcrew : Crew l w' c) (hdispatched : w' ≠ none → d = true)
    (hundispatched : d = true → w' = none → s.before ≠ none)
    (hbehind : ∀ p ∈ l, p.Behind = true → s.before ≠ none) (htells : Tells env s c (stage w'))
    (hview : w' = some .messageRead ↔ w = some .messageRead)
    (hidle : s.broken = true → ∀ p ∈ w', p.Active = false)
    (hquiet : s.before = none → w' = none → Point.close .begin .readCb ∉ l → s.conn.brigade = []) :
    InvAt env { s with threads := l, dispatched := d, readingLock := lock } w' c :=
  ⟨hcrew, ⟨h.phase.started, hdispatched, hundispatched, h.phase.disconnecting, h.phase.before,
    h.phase.socket, hbehind⟩, htells, h.data.move rfl rfl rfl rfl rfl hview hidle hquiet⟩

/-- Buckets arrive while someone is on the way to them. -/
theorem InvAt.arrive (h : InvAt env s w c) (hsocket : s.socket = true)
    (hbusy : s.before = none → w = none → Point.close .begin .readCb ∈ s.threads)
    (more : List Bucket) : InvAt env (s.arrive more) w c := by
  have hmore : ∀ bucket ∈ more.map (·.val), bucket ≠ [] := by
    intro bucket hmem
    obtain ⟨b, -, rfl⟩ := mem_map.mp hmem
    exact b.property
  have hready : (s.arrive more).broken = false → (w = some .messageRead ∧ (s.arrive more).conn.Ripe) ∨
      (w ≠ some .messageRead ∧ ((s.arrive more).conn.Waits ∨ (s.arrive more).conn.Receives)) := by
    intro hbroken
    refine (h.data.ready hbroken).imp (fun h => ⟨h.1, h.2.arrive hmore⟩) fun h => ⟨h.1, ?_⟩
    exact h.2.imp (·.arrive hmore) (·.arrive hmore)
  have hstream : ∀ later : List (List Byte), (∀ bucket ∈ later, bucket ≠ []) →
      complete env.uriParse env.messageRead (((s.arrive more).view env w).arrive later)
        = messages env ((s.arrive more).received ++ later) := by
    intro later hlater
    have hall := h.data.stream hsocket (more.map (·.val) ++ later) fun b hb =>
      (mem_append.mp hb).elim (hmore b) (hlater b)
    rw [← append_assoc] at hall
    refine Eq.trans ?_ hall
    unfold State.view
    rw [show (s.arrive more).broken = s.broken from rfl]
    split
    next => exact congrArg _ (arrive_arrive { s.conn with closed := true } _ _)
    next =>
      split
      next => exact complete_deliver_arrive _
      next => exact congrArg _ (arrive_arrive _ _ _)
  refine ⟨h.crew, ⟨h.phase.started, h.phase.dispatched, h.phase.undispatched, h.phase.disconnecting,
    h.phase.before, h.phase.socket, h.phase.behind⟩, h.tells, ⟨fun _ => hstream, ?_,
    Data.inOrder_of_stream (Data.view_ready hready) hstream, ?_, hready, h.data.idle,
    fun hbefore hw hnot => absurd (hbusy hbefore hw) hnot⟩⟩
  · exact fun hnot => absurd (hsocket.symm.trans hnot) (by decide)
  · exact fun hnot => absurd (hsocket.symm.trans hnot) (by decide)

/-- A thread that goes on leaves the others where they are. -/
theorem mem_set_of_ne {l : List Point} {q : Point} (hn : l[n]? = some p) (hq : q ∈ l)
    (hne : q ≠ p) : q ∈ l.set n p' := by
  obtain ⟨pre, post, rfl, hset, -⟩ := exists_split hn
  rw [hset]
  simp only [mem_append, mem_cons] at hq ⊢
  tauto

theorem Phase.behind_set (h : Phase s w c) (hp' : p'.Behind = true → s.before ≠ none) :
    ∀ p ∈ s.threads.set n p', p.Behind = true → s.before ≠ none := by
  intro p hp hbehind
  rcases mem_or_eq_of_mem_set hp with hp | rfl
  · exact h.behind p hp hbehind
  · exact hp' hbehind

/-- A thread that is not the worker goes on. -/
theorem InvAt.pass (p' : Point) (d : Bool) (lock : Option Nat) (h : InvAt env s w c)
    (hn : s.threads[n]? = some p) (hp : p'.worker = p.worker) (hc : p'.closing = p.closing)
    (hne : p ≠ .close .begin .readCb) (hd : s.dispatched = true → d = true)
    (hd' : d = true → s.dispatched = false → s.before ≠ none)
    (hbehind : p'.Behind = true → s.before ≠ none) :
    InvAt env { s with threads := s.threads.set n p', dispatched := d, readingLock := lock } w c := by
  refine h.control d lock (h.crew.pass hn hp hc) (fun hw => hd (h.phase.dispatched hw)) (fun ht hw => ?_)
    (h.phase.behind_set hbehind) h.tells Iff.rfl h.data.idle (fun hbefore hw hnot => ?_)
  · cases hs : s.dispatched with
    | false => exact hd' ht hs
    | true => exact h.phase.undispatched hs hw
  · exact h.data.quiet hbefore hw fun hmem => hnot (mem_set_of_ne hn hmem hne.symm)

/-- The worker goes on. -/
theorem InvAt.work (h : InvAt env s w c) (hn : s.threads[n]? = some p) (hp : p.worker = some p)
    (hp' : p'.worker = some p') (hc : p'.closing = p.closing)
    (htells : Tells env s c (stage (some p)) → Tells env s c (stage (some p')))
    (hview : p' = .messageRead ↔ p = .messageRead) (hactive : p.Active = true)
    (hbehind : p'.Behind = false) : InvAt env (s.goTo n p') (some p') c := by
  obtain rfl := h.crew.eq_some hn hp
  have hcrew := h.crew.work hn hp hc
  rw [hp'] at hcrew
  refine h.control s.dispatched s.readingLock hcrew (fun _ => h.phase.dispatched (by simp)) (by simp)
    (h.phase.behind_set fun hb => absurd (hbehind.symm.trans hb) (by decide)) (htells h.tells)
    (by simpa using hview) (fun hbroken => ?_) (by simp)
  exact absurd (hbroken.symm.trans (h.unbroken hactive)) (by decide)

theorem InvAt.readCb (h : InvAt env s w c) (hn : s.threads[n]? = some .readCb)
    (hcare : s.broken = true → s.dispatched = true ∨ eof = true)
    (hstep : s.readCb n more eof = .ok s') : Inv env s' := by
  unfold State.readCb at hstep
  split at hstep
  next => cases hstep
  next hsocket =>
    have hsocket' : s.socket = true := by simpa using hsocket
    dsimp only at hstep
    split at hstep
    next heof =>
      cases hstep
      have hmoved := h.pass (.close .begin .readCb) s.dispatched (some n) hn rfl rfl (by decide) id
        (fun ht hf => absurd (ht.symm.trans hf) (by decide)) nofun
      refine ⟨w, c, hmoved.arrive hsocket' (fun _ _ => ?_) more⟩
      exact mem_set (List.getElem?_eq_some_iff.mp hn).1 _
    next heof =>
      split at hstep
      next hdispatched =>
        cases hstep
        have hmoved := h.pass .done s.dispatched s.readingLock hn rfl rfl (by decide) id
          (fun ht hf => absurd (ht.symm.trans hf) (by decide)) nofun
        refine ⟨w, c, hmoved.arrive hsocket' (fun hbefore hw => ?_) more⟩
        exact absurd hbefore (h.phase.undispatched hdispatched hw)
      next hdispatched =>
        cases hstep
        have hnone : w = none := by
          by_contra hw
          exact hdispatched (h.phase.dispatched hw)
        subst hnone
        have hcrew : Crew (s.threads.set n .push) (some .push) c :=
          ⟨filterMap_set_of_nil hn h.crew.worker .push,
            (filterMap_set_of_eq hn (b := .push) rfl).trans h.crew.closer⟩
        have hbroken : s.broken = false := by
          rw [← Bool.not_eq_true]
          intro hbroken
          exact (hcare hbroken).elim hdispatched heof
        have hmoved := h.control true s.readingLock hcrew (fun _ => rfl) (by simp)
          (h.phase.behind_set nofun) h.tells (by simp)
          (fun ht => absurd (hbroken.symm.trans ht) (by decide)) (by simp)
        exact ⟨_, c, hmoved.arrive hsocket' (by simp) more⟩

/-- The worker has been at the brigade. -/
theorem InvAt.processed (d : Bool) (lock : Option Nat) (broken : Bool)
    (h : InvAt env s (some .top) c) (hn : s.threads[n]? = some .top) (hc : p'.closing = none)
    (hd : p'.worker ≠ none → d = s.dispatched) (hd' : p'.worker = none → d = false)
    (hbehind : p'.Behind = false) (htells : Tells env { s with conn := conn } c (stage p'.worker))
    (hcleaned : s.socket = false → conn.brigade = [] ∧ conn.delivered = s.conn.delivered ∧
      p' ≠ .messageRead) (hstream : ∀ more : List (List Byte), (∀ bucket ∈ more, bucket ≠ []) →
      complete env.uriParse env.messageRead
          ((State.view env { s with conn := conn, broken := broken } p'.worker).arrive more)
        = complete env.uriParse env.messageRead (s.conn.arrive more))
    (hready : broken = false → (p'.worker = some .messageRead ∧ conn.Ripe) ∨
      (p'.worker ≠ some .messageRead ∧ (conn.Waits ∨ conn.Receives)))
    (hidle : broken = true → ∀ p ∈ p'.worker, p.Active = false)
    (hquiet : p'.worker = none → conn.brigade = []) :
    Inv env { s with
      conn := conn
      threads := s.threads.set n p'
      dispatched := d
      readingLock := lock
      broken := broken } := by
  have hview : s.view env (some .top) = s.conn := State.view_working (h.unbroken rfl) (by decide)
  have hcrew : Crew (s.threads.set n p') p'.worker c := h.crew.work hn rfl hc
  have hstream' : s.socket = true → ∀ more : List (List Byte), (∀ bucket ∈ more, bucket ≠ []) →
      complete env.uriParse env.messageRead
          ((State.view env { s with conn := conn, broken := broken } p'.worker).arrive more)
        = messages env (s.received ++ more) := by
    intro hsocket more hmore
    rw [hstream more hmore, ← h.data.stream hsocket more hmore, hview]
  have hdelivered : s.socket = false →
      (State.view env { s with conn := conn, broken := broken } p'.worker).delivered
        = s.conn.delivered := by
    intro hsocket
    obtain ⟨-, hsame, hne⟩ := hcleaned hsocket
    unfold State.view
    split
    next => exact hsame
    next =>
      rw [if_neg (Point.worker_ne hne)]
      exact hsame
  refine ⟨p'.worker, c, hcrew, ⟨h.phase.started, fun hw => ?_, fun ht hw => ?_,
    h.phase.disconnecting, h.phase.before, h.phase.socket,
    h.phase.behind_set fun hb => absurd (hbehind.symm.trans hb) (by decide)⟩, htells,
    ⟨hstream', fun hsocket => (hcleaned hsocket).1, ?_, fun hsocket before hbefore => ?_, hready,
      hidle, fun _ hw _ => hquiet hw⟩⟩
  · exact (hd hw).trans (h.phase.dispatched (by decide))
  · exact absurd (ht.symm.trans (hd' hw)) (by decide)
  · cases hsocket : s.socket with
    | true => exact Data.inOrder_of_stream (Data.view_ready hready) (hstream' hsocket)
    | false =>
      refine (hdelivered hsocket).symm ▸ ?_
      exact hview ▸ h.data.inOrder
  · refine (hdelivered hsocket).symm ▸ ?_
    exact hview ▸ h.data.kept hsocket before hbefore

/-- The loop of `process_data` ends. -/
theorem InvAt.endLoop (h : InvAt env s (some .top) c) (hn : s.threads[n]? = some .top)
    (hwelcome : (s.conn.itsWelcome = none ↔ conn.itsWelcome = none))
    (hrv : (rv = .eof ∧ s.conn.brigade ≠ [] ∧ (∀ more, (∀ bucket ∈ more, bucket ≠ []) →
        complete env.uriParse env.messageRead (s.conn.arrive more) = conn.delivered)) ∨
      (rv = .eagain ∧ conn.brigade = [] ∧ conn.delivered = s.conn.delivered ∧
        (conn.Waits ∨ conn.Receives) ∧ ∀ more, (∀ bucket ∈ more, bucket ≠ []) →
          complete env.uriParse env.messageRead (conn.arrive more) =
            complete env.uriParse env.messageRead (s.conn.arrive more))) :
    Inv env (State.endLoop { s with conn := conn } n rv eof) := by
  have htells : ∀ w', w' = none ∨ w' = some (.close .begin .processData) →
      Tells env { s with conn := conn } c (stage w') := by
    have hold : (s.conn.itsWelcome = none ∧ Untold s c) ∨
        (s.conn.itsWelcome ≠ none ∧ Told env s c) := h.tells
    rw [ne_eq, hwelcome] at hold
    rintro w' (rfl | rfl)
    · exact hold
    · exact hold
  have hbroken := h.unbroken rfl
  unfold State.endLoop
  rcases hrv with ⟨rfl, hne, hend⟩ | ⟨rfl, hnil, hdelivered, hready, hstream⟩
  · rw [if_pos rfl]
    refine h.processed s.dispatched (some n) true hn rfl (fun _ => rfl) nofun rfl
      (htells _ (.inr rfl)) (fun hsocket => absurd (h.data.cleaned hsocket) hne)
      (fun more hmore => ?_) nofun (fun _ p hp => ?_) nofun
    · rw [hend more hmore]
      exact complete_closed rfl
    · cases hp
      rfl
  · have hstream' : ∀ p' : Point, p' ≠ .messageRead → ∀ more : List (List Byte),
        (∀ bucket ∈ more, bucket ≠ []) → complete env.uriParse env.messageRead
          ((State.view env { s with conn := conn, broken := s.broken } p'.worker).arrive more)
            = complete env.uriParse env.messageRead (s.conn.arrive more) := by
      intro p' hp' more hmore
      rw [← hstream more hmore]
      exact congrArg (fun me : TcpConnection => complete env.uriParse env.messageRead
        (me.arrive more)) (State.view_working hbroken (Point.worker_ne hp'))
    rw [if_neg (by decide)]
    split
    next =>
      exact h.processed s.dispatched (some n) s.broken hn rfl (fun _ => rfl) nofun rfl
        (htells _ (.inr rfl)) (fun _ => ⟨hnil, hdelivered, by decide⟩) (hstream' _ (by decide))
        (fun _ => .inr ⟨by decide, hready⟩) (fun ht => absurd (hbroken.symm.trans ht) (by decide))
        nofun
    next =>
      exact h.processed false s.readingLock s.broken hn rfl (fun hw => absurd rfl hw) (fun _ => rfl)
        rfl (htells _ (.inl rfl)) (fun _ => ⟨hnil, hdelivered, by decide⟩) (hstream' _ (by decide))
        (fun _ => .inr ⟨by decide, hready⟩) (fun ht => absurd (hbroken.symm.trans ht) (by decide))
        (fun _ => hnil)

/-- `process_data` looks for the greeting. -/
theorem InvAt.greeting (eof : Bool) (h : InvAt env s (some .top) c) (hn : s.threads[n]? = some .top)
    (hwaits : s.conn.Waits) (hok : s.conn.processWelcome env.uriParse = .ok (conn, rv)) :
    Inv env (if rv = .success then
        ({ s with conn := conn, readingLock := some n }.goTo n .accepted)
      else State.endLoop { s with conn := conn } n rv eof) := by
  have hcomplete := fun (more : List (List Byte)) (hmore : ∀ bucket ∈ more, bucket ≠ []) =>
    @complete_processWelcome env.uriParse env.messageRead s.conn conn rv more hwaits hok hmore
  obtain ⟨-, ⟨rfl, hwaits', hnil⟩ | ⟨rfl, hne, hwaits'⟩ | ⟨rfl, hne, hreceives⟩⟩ :=
    processWelcome_spec hwaits hok
  · rw [if_neg (by decide)]
    refine h.endLoop hn (iff_of_true hwaits.unwelcomed hwaits'.unwelcomed)
      (.inr ⟨rfl, hnil, hwaits'.undelivered.trans hwaits.undelivered.symm, .inl hwaits', ?_⟩)
    exact fun more hmore => (hcomplete more hmore).symm
  · rw [if_neg (by decide)]
    refine h.endLoop hn (iff_of_true hwaits.unwelcomed hwaits'.unwelcomed)
      (.inl ⟨rfl, hne, fun more hmore => ?_⟩)
    exact (hcomplete more hmore).trans hwaits'.undelivered.symm
  · rw [if_pos rfl]
    have hbroken := h.unbroken rfl
    have hview : State.view env { s with conn := conn, broken := s.broken } (some .accepted) = conn :=
      State.view_working hbroken (by decide)
    refine h.processed s.dispatched (some n) s.broken hn rfl (fun _ => rfl) nofun rfl
      ⟨hreceives.welcomed, ?_⟩ (fun hsocket => absurd (h.data.cleaned hsocket) hne)
      (fun more hmore => ?_) (fun _ => .inr ⟨by decide, .inr hreceives⟩)
      (fun ht => absurd (hbroken.symm.trans ht) (by decide)) nofun
    · exact h.tells.elim (·.2) fun ht => absurd hwaits.unwelcomed ht.1
    · rw [hcomplete more hmore, if_neg (by decide)]
      exact congrArg (fun me : TcpConnection => complete env.uriParse env.messageRead (me.arrive more))
        hview

/-- `process_data` looks for a message. -/
theorem InvAt.message (eof : Bool) (h : InvAt env s (some .top) c) (hn : s.threads[n]? = some .top)
    (hreceives : s.conn.Receives) (hok : s.conn.takeMessage = .ok (conn, rv)) :
    Inv env (if rv = .success then { s with conn := conn }.goTo n .messageRead
      else State.endLoop { s with conn := conn } n rv eof) := by
  obtain ⟨conn', rv', hok', hdelivered, hend⟩ | ⟨habort, -⟩ :=
    takeMessage_spec env.messageRead hreceives
  case inr => exact nomatch hok.symm.trans habort
  obtain ⟨rfl, rfl⟩ := Prod.mk.inj (Except.ok.inj (hok.symm.trans hok'))
  rcases hend with ⟨rfl, hnil, hreceives', hfed⟩ | ⟨rfl, hne, hripe, hfed⟩
  · rw [if_neg (by decide)]
    refine h.endLoop hn (iff_of_false hreceives.welcomed hreceives'.welcomed)
      (.inr ⟨rfl, hnil, hdelivered, .inr hreceives', fun more hmore => ?_⟩)
    exact complete_arrive_congr (.inr hreceives) (.inr hreceives') hfed hmore
  · rw [if_pos rfl]
    have hbroken := h.unbroken rfl
    have hview : State.view env { s with conn := conn, broken := s.broken } (some .messageRead)
        = conn.deliver env.messageRead := State.view_reading hbroken
    refine h.processed s.dispatched s.readingLock s.broken hn rfl (fun _ => rfl) nofun rfl
      ⟨hripe.welcomed, ?_⟩ (fun hsocket => absurd (h.data.cleaned hsocket) hne)
      (fun more hmore => ?_) (fun _ => .inl ⟨rfl, hripe⟩)
      (fun ht => absurd (hbroken.symm.trans ht) (by decide)) nofun
    · exact h.tells.elim (fun ht => absurd ht.1 hreceives.welcomed) (·.2)
    · refine Eq.trans (congrArg (fun me : TcpConnection =>
        complete env.uriParse env.messageRead (me.arrive more)) hview) ?_
      exact complete_arrive_congr (.inr hreceives) hripe.deliver hfed hmore

variable (env) in
/-- What `process_data` does with what there is. -/
def State.attend (s : State) (n : Nat) (eof : Bool) : Exec State :=
  if s.conn.itsWelcome = none then
    s.conn.processWelcome env.uriParse >>= fun r =>
      .ok (if r.2 = .success then { s with conn := r.1, readingLock := some n }.goTo n .accepted
        else State.endLoop { s with conn := r.1 } n r.2 eof)
  else
    s.conn.takeMessage >>= fun r =>
      .ok (if r.2 = .success then { s with conn := r.1 }.goTo n .messageRead
        else State.endLoop { s with conn := r.1 } n r.2 eof)

theorem State.process_eq (s : State) (n : Nat) (more : List Bucket) (eof : Bool) :
    s.process env n more eof = (if s.socket then s.arrive more else s).attend env n eof := by
  unfold State.process State.attend
  simp only [apply_ite Except.ok]
  rfl

section
variable (h : InvAt env s w c)
include h

theorem InvAt.process (hn : s.threads[n]? = some .top) (hstep : s.process env n more eof = .ok s') :
    Inv env s' := by
  obtain rfl := h.crew.eq_some hn rfl
  have hall : ∀ {s : State}, InvAt env s (some .top) c → s.threads[n]? = some .top →
      s.attend env n eof = .ok s' → Inv env s' := by
    intro s h hn hstep
    have hready := ((h.data.ready (h.unbroken rfl)).resolve_left fun ht => absurd ht.1 (by decide)).2
    unfold State.attend at hstep
    split at hstep
    next hnone =>
      obtain ⟨⟨conn, rv⟩, hok, hstep⟩ := bind_eq_ok.mp hstep
      have hwaits := hready.resolve_right fun ht => ht.welcomed hnone
      have hinv := h.greeting eof hn hwaits hok
      exact Except.ok.inj hstep ▸ hinv
    next hsome =>
      obtain ⟨⟨conn, rv⟩, hok, hstep⟩ := bind_eq_ok.mp hstep
      have hreceives := hready.resolve_left fun ht => hsome ht.unwelcomed
      have hinv := h.message eof hn hreceives hok
      exact Except.ok.inj hstep ▸ hinv
  rw [State.process_eq] at hstep
  cases hsocket : s.socket with
  | true =>
    rw [hsocket] at hstep
    exact hall (h.arrive hsocket (by simp) more) hn hstep
  | false =>
    rw [hsocket] at hstep
    exact hall h hn hstep

theorem InvAt.process_no_abort (hn : s.threads[n]? = some .top)
    (hcare : s.Allows env more eof .top) : s.process env n more eof ≠ .error .aborted := by
  obtain rfl := h.crew.eq_some hn rfl
  have hall : ∀ {s : State}, InvAt env s (some .top) c →
      (s.conn.itsWelcome ≠ none → s.conn.msgCtx.msg = false → s.conn.HeadersRead) →
      s.conn.processWelcome env.uriParse ≠ .error .aborted ∧
        (s.conn.itsWelcome ≠ none → s.conn.takeMessage ≠ .error .aborted) := by
    intro s h hread
    have hready := ((h.data.ready (h.unbroken rfl)).resolve_left fun ht => absurd ht.1 (by decide)).2
    refine ⟨fun habort => absurd (processWelcome_error habort) (by decide), fun hsome habort => ?_⟩
    have hreceives := hready.resolve_left fun ht => hsome ht.unwelcomed
    obtain ⟨conn, rv, hok, -⟩ | ⟨-, hmsg, hnot⟩ := takeMessage_spec env.messageRead hreceives
    · exact nomatch hok.symm.trans habort
    · exact hnot (hread hsome hmsg)
  have hnone : ∀ {s : State}, InvAt env s (some .top) c →
      (s.conn.itsWelcome ≠ none → s.conn.msgCtx.msg = false → s.conn.HeadersRead) →
      s.attend env n eof ≠ .error .aborted := by
    intro s h hread habort
    obtain ⟨hwelcome, htake⟩ := hall h hread
    unfold State.attend at habort
    split at habort
    next =>
      cases hok : s.conn.processWelcome env.uriParse with
      | error f =>
        rw [hok] at habort
        obtain rfl : f = .aborted := Except.error.inj habort
        exact hwelcome hok
      | ok r =>
        rw [hok] at habort
        cases habort
    next hsome =>
      cases hok : s.conn.takeMessage with
      | error f =>
        rw [hok] at habort
        obtain rfl : f = .aborted := Except.error.inj habort
        exact htake hsome hok
      | ok r =>
        rw [hok] at habort
        cases habort
  intro habort
  rw [State.process_eq] at habort
  unfold State.Allows at hcare
  cases hsocket : s.socket with
  | true =>
    rw [hsocket] at habort hcare
    exact hnone (h.arrive hsocket (by simp) more) hcare habort
  | false =>
    rw [hsocket] at habort hcare
    exact hnone h hcare habort

/-- The state becomes `CONN_CONNECTED`. -/
theorem InvAt.accepted (hn : s.threads[n]? = some .accepted)
    (hcare : s.connectionState = .connecting) :
    Inv env ({ s with connectionState := .connected, readingLock := none }.goTo n .getMessenger) := by
  obtain rfl := h.crew.eq_some hn rfl
  obtain ⟨hwelcome, hevents, -⟩ := h.tells
  have hnone : ¬ c ≠ none := by
    rw [← h.phase.disconnecting, hcare]
    decide
  have hbefore := h.phase.before.mpr (.inl hcare)
  have hsocket : ¬ s.socket = false := by
    rw [h.phase.socket, hcare]
    decide
  refine ⟨some .getMessenger, c, h.crew.work hn rfl rfl, ⟨nofun,
    fun _ => h.phase.dispatched (by decide), nofun, iff_of_false nofun hnone,
    iff_of_true hbefore (.inr rfl), iff_of_false hsocket nofun, h.phase.behind_set nofun⟩,
    ⟨hwelcome, hevents, rfl⟩, h.data.move rfl rfl rfl rfl rfl (by decide) (fun hbroken => ?_) nofun⟩
  exact absurd (hbroken.symm.trans (h.unbroken rfl)) (by decide)

/-- The endpoint service is told of the connect. -/
theorem InvAt.transportEvent (hn : s.threads[n]? = some .transportEvent) :
    Inv env ({ s with events := s.events ++ [env.connected] }.goTo n .top) := by
  obtain rfl := h.crew.eq_some hn rfl
  obtain ⟨hwelcome, hevents, hstate⟩ := h.tells
  refine ⟨some .top, c, h.crew.work hn rfl rfl, ⟨h.phase.started,
    fun _ => h.phase.dispatched (by decide), nofun, h.phase.disconnecting, h.phase.before,
    h.phase.socket, h.phase.behind_set nofun⟩, .inr ⟨hwelcome, .inl ⟨?_, hstate⟩⟩,
    h.data.move rfl rfl rfl rfl rfl (by decide) (fun hbroken => ?_) nofun⟩
  · show s.events ++ [env.connected] = _
    rw [hevents]
    rfl
  · exact absurd (h.data.idle hbroken .transportEvent rfl) (by decide)

/-- A message is read. -/
theorem InvAt.readMessage (hn : s.threads[n]? = some .messageRead) :
    Inv env (s.readMessage env n) := by
  obtain rfl := h.crew.eq_some hn rfl
  have hbroken := h.unbroken rfl
  have hripe : s.conn.Ripe :=
    ((h.data.ready hbroken).resolve_right fun ht => ht.1 rfl).2
  have hview : s.view env (some .messageRead) = s.conn.deliver env.messageRead :=
    State.view_reading hbroken
  unfold State.readMessage
  split
  next hread =>
    have hdeliver : s.conn.deliver env.messageRead = { s.conn with
        delivered := s.conn.delivered ++ [(s.conn.msgCtx.header, s.conn.buf)]
        msgCtx := .reset
        buf := [] } := if_pos hread
    have hview' : State.view env
        ({ s with conn := s.conn.deliver env.messageRead }.goTo n .top) (some .top)
        = s.conn.deliver env.messageRead := State.view_working hbroken (by decide)
    refine ⟨some .top, c, h.crew.work hn rfl rfl, ⟨h.phase.started,
      fun _ => h.phase.dispatched (by decide), nofun, h.phase.disconnecting, h.phase.before,
      h.phase.socket, h.phase.behind_set nofun⟩, ?_, ⟨?_, ?_, ?_, ?_, fun _ => .inr ⟨by decide, ?_⟩,
      fun ht => absurd (hbroken.symm.trans ht) (by decide), nofun⟩⟩
    · refine .inr ⟨?_, h.tells.2⟩
      show (s.conn.deliver env.messageRead).itsWelcome ≠ none
      rw [hdeliver]
      exact hripe.welcomed
    · rw [hview', ← hview]
      exact h.data.stream
    · show s.socket = false → (s.conn.deliver env.messageRead).brigade = []
      rw [hdeliver]
      exact h.data.cleaned
    · rw [hview', ← hview]
      exact h.data.inOrder
    · rw [hview', ← hview]
      exact h.data.kept
    · refine .inr (hripe.deliver.resolve_left ?_)
      rw [hdeliver]
      exact fun ht => absurd (hripe.opened.symm.trans ht) (by decide)
  next hread =>
    have hdeliver : s.conn.deliver env.messageRead = s.conn.close := if_neg hread
    have hdelivered : (s.view env (some .messageRead)).delivered = s.conn.delivered := by
      rw [hview, hdeliver]
      rfl
    refine ⟨some (.close .begin .unreadable), c, h.crew.work hn rfl rfl, ⟨h.phase.started,
      fun _ => h.phase.dispatched (by decide), nofun, h.phase.disconnecting, h.phase.before,
      h.phase.socket, h.phase.behind_set nofun⟩, .inr h.tells, ⟨fun hsocket more hmore => ?_,
      h.data.cleaned, ?_, ?_, nofun, fun _ p hp => ?_, nofun⟩⟩
    · refine Eq.trans (complete_closed rfl) ?_
      have hall := h.data.stream hsocket more hmore
      rw [hview, hdeliver, complete_closed rfl] at hall
      exact hall
    · exact hdelivered ▸ h.data.inOrder
    · exact hdelivered ▸ h.data.kept
    · cases hp
      rfl

/-- `process_data` is pushed. -/
theorem InvAt.push (hn : s.threads[n]? = some .push) :
    Inv env { s with threads := s.threads.set n .done ++ [.top] } := by
  obtain rfl := h.crew.eq_some hn rfl
  have hgone : Crew (s.threads.set n .done) none c := h.crew.work hn rfl rfl
  have hcrew : Crew (s.threads.set n .done ++ [.top]) (some .top) c := by
    refine ⟨?_, ?_⟩
    · rw [filterMap_append, hgone.worker]
      rfl
    · rw [filterMap_append, hgone.closer]
      exact append_nil _
  have hset : ∀ p ∈ s.threads.set n .done, p.Behind = true → s.before ≠ none :=
    h.phase.behind_set nofun
  refine ⟨some .top, c, h.control s.dispatched s.readingLock hcrew
    (fun _ => h.phase.dispatched (by decide)) nofun (fun p hp hb => ?_) h.tells (by decide)
    (fun hbroken => ?_) nofun⟩
  · rcases mem_append.mp hp with hp | hp
    · exact hset p hp hb
    · obtain rfl := mem_singleton.mp hp
      cases hb
  · exact absurd (h.data.idle hbroken .push rfl) (by decide)

end

/-- `process_data` ends behind a close. -/
theorem InvAt.ends (lock : Option Nat) (h : InvAt env s w c) (hn : s.threads[n]? = some p)
    (hp : p = .leave ∨ p = .giveUp) :
    Inv env { s with
      threads := s.threads.set n .done
      dispatched := false
      readingLock := lock } := by
  have hworker : p.worker = some p ∧ Point.done.closing = p.closing ∧ p.Behind = true ∧
      stage (some p) = .elsewhere ∧ p ≠ .messageRead := by
    rcases hp with rfl | rfl
    · exact ⟨rfl, rfl, rfl, rfl, by decide⟩
    · exact ⟨rfl, rfl, rfl, rfl, by decide⟩
  obtain ⟨hself, hclosing, hbehind, hstage, hne⟩ := hworker
  obtain rfl := h.crew.eq_some hn hself
  have hbefore := h.phase.behind p (mem_of_getElem? hn) hbehind
  have htells := h.tells
  rw [hstage] at htells
  exact ⟨none, c, h.control false lock (h.crew.work hn hself hclosing) nofun nofun
    (h.phase.behind_set nofun) htells (by simpa using hne) (fun _ => nofun)
    fun hnone => absurd hnone hbefore⟩

/-! ## the close -/

/-- What the close does to who is on the way. -/
structure Succeeds (threads : List Point) (w w' : Option Point) : Prop where
  worker : threads.filterMap Point.worker = w'.toList
  stage_eq : stage w' = stage w
  reads : w' = some .messageRead ↔ w = some .messageRead
  idle : (∀ p ∈ w, p.Active = false) → ∀ p ∈ w', p.Active = false
  none_iff : w' = none ↔ w = none

/-- The worker, or not, goes on in the close or behind it. -/
theorem Crew.close {section_ : Closing} (h : Crew s.threads w c)
    (hn : s.threads[n]? = some (.close section_ caller))
    (hp' : p' = caller.behind ∨ ∃ next, p' = .close next caller) :
    ∃ w', Succeeds (s.threads.set n p') w w' := by
  have hworks : (Point.close section_ caller).worker = some (.close section_ caller) →
      p'.worker = some p' → stage (some p') = .elsewhere → p'.Active = false → p' ≠ .messageRead →
      ∃ w', Succeeds (s.threads.set n p') w w' := by
    intro hself hself' hstage hactive hne
    obtain ⟨rfl, hset⟩ := filterMap_set_of_some hn hself h.worker p'
    rw [hself'] at hset
    refine ⟨some p', hset, hstage, by simpa using hne, fun _ p hp => ?_, by simp⟩
    exact Option.some.inj hp ▸ hactive
  have hother : (Point.close section_ caller).worker = none → p'.worker = none →
      ∃ w', Succeeds (s.threads.set n p') w w' := by
    intro hnone hnone'
    have hset := filterMap_set_of_eq hn (hnone'.trans hnone.symm)
    exact ⟨w, hset.trans h.worker, rfl, Iff.rfl, id, Iff.rfl⟩
  cases caller with
  | closer => rcases hp' with rfl | ⟨next, rfl⟩ <;> exact hother rfl rfl
  | readCb => rcases hp' with rfl | ⟨next, rfl⟩ <;> exact hother rfl rfl
  | processData =>
    rcases hp' with rfl | ⟨next, rfl⟩ <;> exact hworks rfl rfl rfl rfl (by simp [Caller.behind])
  | unreadable =>
    rcases hp' with rfl | ⟨next, rfl⟩ <;> exact hworks rfl rfl rfl rfl (by simp [Caller.behind])

theorem closing_behind (caller : Caller) : caller.behind.closing = none := by
  cases caller <;> rfl

/-- The close that begins will tell of itself if the connect event is told, or about to be. -/
theorem Tells.begin {g : Stage} (h : Tells env s none g) (hg : g ≠ .waiting)
    (hopen : s.connectionState ≠ .disconnected) (hevents : s'.events = s.events)
    (hconn : s'.conn = s.conn) (hstate : s'.connectionState = .disconnecting) :
    Tells env s' (some (decide (s.connectionState = .connected))) g := by
  have hUntold : Untold s none → Untold s' (some (decide (s.connectionState = .connected))) := by
    rintro ⟨hnil, hne, -⟩
    refine ⟨hevents.trans hnil, ?_, ?_⟩
    · rw [hstate]
      decide
    · simpa using hne
  have hTold : Told env s none → Told env s' (some (decide (s.connectionState = .connected))) := by
    rintro (⟨hone, hconnected⟩ | ⟨-, hover⟩)
    · rw [hconnected.resolve_right nofun]
      exact .inl ⟨hevents.trans hone, .inr rfl⟩
    · exact absurd hover hopen
  cases g with
  | accepted => exact ⟨hconn ▸ h.1, hUntold h.2⟩
  | waiting => exact absurd rfl hg
  | telling =>
    rw [h.2.2.resolve_right nofun]
    exact ⟨hconn ▸ h.1, hevents.trans h.2.1, .inr rfl⟩
  | reading => exact ⟨hconn ▸ h.1, hTold h.2⟩
  | elsewhere =>
    exact h.imp (fun h => ⟨hconn ▸ h.1, hUntold h.2⟩) fun h => ⟨hconn ▸ h.1, hTold h.2⟩

/-- The close is over. -/
theorem Tells.shutdown {g : Stage} (h : Tells env s (some wasConnected) g)
    (hg : wasConnected = true → g ≠ .telling) (hclosing : s.connectionState = .disconnecting)
    (hevents : s'.events = if wasConnected then s.events ++ [.connectionClosed] else s.events)
    (hwelcome : s'.conn.itsWelcome = s.conn.itsWelcome)
    (hstate : s'.connectionState = .disconnected) : Tells env s' none g := by
  have hUntold : Untold s (some wasConnected) → Untold s' none := by
    rintro ⟨hnil, -, hne⟩
    obtain rfl : wasConnected = false := by simpa using hne
    refine ⟨hevents.trans hnil, ?_, nofun⟩
    rw [hstate]
    decide
  have hTold : Told env s (some wasConnected) → Told env s' none := by
    rw [Told, hclosing]
    rintro (⟨hone, hc⟩ | ⟨-, hover⟩)
    · obtain rfl : wasConnected = true := by simpa using hc
      rw [if_pos rfl, hone] at hevents
      exact .inr ⟨hevents, hstate⟩
    · cases hover
  cases g with
  | accepted => exact ⟨hwelcome ▸ h.1, hUntold h.2⟩
  | waiting => exact absurd (hclosing.symm.trans h.2.2) (by decide)
  | telling =>
    have hc := h.2.2
    rw [hclosing] at hc
    exact absurd rfl (hg (by simpa using hc))
  | reading => exact ⟨hwelcome ▸ h.1, hTold h.2⟩
  | elsewhere =>
    exact h.imp (fun h => ⟨hwelcome ▸ h.1, hUntold h.2⟩) fun h => ⟨hwelcome ▸ h.1, hTold h.2⟩

/-- A close begins, or finds that there is one already. -/
theorem InvAt.begin (h : InvAt env s w c) (hn : s.threads[n]? = some (.close .begin caller))
    (hcare : Point.getMessenger ∉ s.threads ∧ Point.messengerNew ∉ s.threads)
    (hstep : s.close n caller .begin = some s') : Inv env s' := by
  unfold State.close at hstep
  dsimp only at hstep
  split at hstep
  next hopen =>
    cases hstep
    obtain ⟨w', hworker, hstage, hview, hidle, hnone⟩ := h.crew.close hn
      (.inr ⟨.removePoll (decide (s.connectionState = .connected)), rfl⟩)
    have hc : c = none := by
      by_contra hc
      rw [h.phase.disconnecting.mpr hc] at hopen
      exact absurd hopen (by decide)
    subst hc
    have hover : s.connectionState ≠ .disconnected := by
      rintro hover
      rw [hover] at hopen
      exact absurd hopen (by decide)
    have hsocket : s.socket = true := by
      rw [← Bool.not_eq_false, h.phase.socket]
      exact hover
    have hwaiting : stage w ≠ .waiting := by
      unfold stage
      split
      next => nofun
      next => exact absurd h.crew.mem hcare.1
      next => exact absurd h.crew.mem hcare.2
      next => nofun
      next => nofun
      next => nofun
    have hsame : ∀ t : State, t.conn = s.conn → t.broken = s.broken →
        t.view env w' = s.view env w := fun t hconn hbroken => State.view_congr hconn hbroken hview
    refine ⟨w', some (decide (s.connectionState = .connected)),
      ⟨hworker, filterMap_set_of_nil hn h.crew.closer _⟩,
      ⟨nofun, fun hw => h.phase.dispatched fun hw' => hw (hnone.mpr hw'), fun _ _ => nofun,
        iff_of_true rfl nofun, iff_of_false nofun (by simp [State.goTo]), ?_,
        fun _ _ _ => nofun⟩, ?_,
      ⟨?_, h.data.cleaned, ?_, fun hnot => ?_, ?_, fun ht => hidle (h.data.idle ht), nofun⟩⟩
    · exact iff_of_false (fun hnot => hover (h.phase.socket.mp hnot)) nofun
    · exact hstage ▸ h.tells.begin hwaiting hover rfl rfl rfl
    · rw [hsame]
      · exact h.data.stream
      · rfl
      · rfl
    · rw [hsame]
      · exact h.data.inOrder
      · rfl
      · rfl
    · exact absurd (hsocket.symm.trans hnot) (by decide)
    · rw [ne_eq, hview]
      exact h.data.ready
  next hopen =>
    cases hstep
    obtain ⟨w', hworker, hstage, hview, hidle, hnone⟩ := h.crew.close hn (.inl rfl)
    have hbefore : s.before ≠ none := fun hbefore => hopen (h.phase.before.mp hbefore)
    refine ⟨w', c, h.control s.dispatched s.readingLock
      ⟨hworker, (filterMap_set_of_eq hn (closing_behind caller)).trans h.crew.closer⟩
      (fun hw => h.phase.dispatched fun hw' => hw (hnone.mpr hw'))
      (fun ht hw => h.phase.undispatched ht (hnone.mp hw)) (h.phase.behind_set fun _ => hbefore)
      (hstage ▸ h.tells) hview (fun ht => hidle (h.data.idle ht)) fun hnot => absurd hnot hbefore⟩

/-- The socket is no longer polled. -/
theorem InvAt.removePoll (h : InvAt env s w c)
    (hn : s.threads[n]? = some (.close (.removePoll wasConnected) caller)) :
    Inv env ({ s with polled := false }.goTo n (.close (.shutdown wasConnected) caller)) := by
  obtain ⟨w', hworker, hstage, hview, hidle, hnone⟩ := h.crew.close hn (.inr ⟨.shutdown wasConnected, rfl⟩)
  have hcloser : (s.threads.set n (.close (.shutdown wasConnected) caller)).filterMap Point.closing
      = c.toList := by
    have hclosing : (Point.close (.shutdown wasConnected) caller).closing
        = (Point.close (.removePoll wasConnected) caller).closing := rfl
    rw [filterMap_set_of_eq hn hclosing]
    exact h.crew.closer
  refine ⟨w', c, ⟨hworker, hcloser⟩,
    ⟨h.phase.started, fun hw => h.phase.dispatched fun hw' => hw (hnone.mpr hw'),
      fun ht hw => h.phase.undispatched ht (hnone.mp hw), h.phase.disconnecting, h.phase.before,
      h.phase.socket, h.phase.behind_set nofun⟩, hstage ▸ h.tells,
    h.data.move rfl rfl rfl rfl rfl hview (fun ht => hidle (h.data.idle ht)) fun hbefore hw hnot => ?_⟩
  exact h.data.quiet hbefore (hnone.mp hw) fun hmem => hnot (mem_set_of_ne hn hmem (by simp))

theorem deliver_cleaned (messageRead : List Byte → Status) (me : TcpConnection) :
    (TcpConnection.deliver messageRead { me with brigade := [] }).delivered
      = (me.deliver messageRead).delivered := by
  unfold TcpConnection.deliver
  split <;> rfl

/-- The brigade is emptied. -/
theorem InvAt.shutdown (h : InvAt env s w c)
    (hn : s.threads[n]? = some (.close (.shutdown wasConnected) caller))
    (hcare : wasConnected = true → Point.transportEvent ∉ s.threads)
    (hkept : ∀ before ∈ s.before, messages env before <+: s.taken env) :
    Inv env ({ s with
      conn := { s.conn with brigade := [] }
      socket := false
      connectionState := .disconnected
      events := if wasConnected then s.events ++ [TransportEvent.connectionClosed] else s.events
      }.goTo n caller.behind) := by
  obtain ⟨w', hworker, hstage, hview, hidle, hnone⟩ := h.crew.close hn (.inl rfl)
  obtain ⟨rfl, hcloser⟩ := filterMap_set_of_some hn (x := wasConnected) rfl h.crew.closer
    caller.behind
  rw [closing_behind] at hcloser
  have hclosing := h.phase.disconnecting.mpr nofun
  have hbefore : s.before ≠ none := by
    rw [ne_eq, h.phase.before, hclosing]
    decide
  have htelling : wasConnected = true → stage w ≠ .telling := by
    intro hwas
    unfold stage
    split
    next => nofun
    next => nofun
    next => nofun
    next => exact absurd h.crew.mem (hcare hwas)
    next => nofun
    next => nofun
  have hdelivered : ∀ t : State, t.conn = { s.conn with brigade := [] } → t.broken = s.broken →
      (t.view env w').delivered = (s.view env w).delivered := by
    intro t hconn hbroken
    unfold State.view
    rw [hconn, hbroken]
    split
    next => rfl
    next =>
      by_cases hw : w = some .messageRead
      · rw [if_pos hw, if_pos (hview.mpr hw), deliver_cleaned]
      · rw [if_neg hw, if_neg fun hw' => hw (hview.mp hw')]
  have htaken : s.taken env = (s.view env w).delivered := by
    have hmem := h.crew.mem_messageRead
    unfold State.taken State.view
    by_cases hw : w = some .messageRead
    · cases s.broken <;> simp [hw, hmem.mpr hw]
    · cases s.broken <;> simp [hw, hmem]
  refine ⟨w', none, ⟨hworker, hcloser⟩, ⟨nofun,
    fun hw => h.phase.dispatched fun hw' => hw (hnone.mpr hw'), fun _ _ => hbefore,
    iff_of_false nofun nofun, iff_of_false hbefore (by simp [State.goTo]), iff_of_true rfl rfl,
    h.phase.behind_set fun _ => hbefore⟩, hstage ▸ h.tells.shutdown htelling hclosing rfl rfl rfl,
    ⟨nofun, fun _ => rfl, ?_, fun _ before hb => ?_, fun hbroken => ?_,
      fun ht => hidle (h.data.idle ht), fun hnot => absurd hnot hbefore⟩⟩
  · rw [hdelivered]
    · exact h.data.inOrder
    · rfl
    · rfl
  · rw [hdelivered, ← htaken]
    · exact hkept before hb
    · rfl
    · rfl
  · rw [ne_eq, hview]
    refine (h.data.ready hbroken).imp (fun ht => ⟨ht.1, ht.2.opened, ht.2.welcomed,
      fun _ hmem => absurd hmem not_mem_nil⟩) fun ht => ⟨ht.1, ht.2.imp (fun hw => ?_) fun hr => ?_⟩
    · exact ⟨hw.opened, hw.unwelcomed, hw.undelivered, hw.context,
        fun _ hmem => absurd hmem not_mem_nil⟩
    · exact ⟨hr.opened, hr.welcomed, fun _ hmem => absurd hmem not_mem_nil, hr.collected⟩

/-! ## runs -/

theorem Inv.next {a : Action} (h : Inv env s) (hcare : Careful env s a) (hnext : Next env s a s') :
    Inv env s' := by
  obtain ⟨w, c, h⟩ := h
  have hconcat : ∀ p : Point, p.worker = none → p.closing = none → p.Behind = false →
      p ≠ .close .begin .readCb → Inv env { s with threads := s.threads ++ [p] } := by
    intro p hp hc hbehind hne
    refine ⟨w, c, h.control s.dispatched s.readingLock (h.crew.concat hp hc) h.phase.dispatched
      h.phase.undispatched (fun q hq hb => ?_) h.tells Iff.rfl h.data.idle
      fun hbefore hw hnot => h.data.quiet hbefore hw fun hmem => hnot (mem_append_left _ hmem)⟩
    rcases mem_append.mp hq with hq | hq
    · exact h.phase.behind q hq hb
    · rw [mem_singleton.mp hq] at hb
      exact absurd (hbehind.symm.trans hb) (by decide)
  unfold Next step at hnext
  cases a with
  | readable =>
    dsimp only at hnext
    split at hnext
    next =>
      cases hnext
      exact hconcat .readCb rfl rfl rfl (by decide)
    next => cases hnext
  | close =>
    cases hnext
    exact hconcat (.close .begin .closer) rfl rfl rfl (by decide)
  | run n more eof =>
    obtain ⟨p, hn, hrun⟩ := Option.bind_eq_some_iff.mp hnext
    have hcare' := hcare p hn
    cases p with
    | readCb =>
      unfold runThread at hrun
      dsimp only at hrun
      split at hrun
      next => exact h.readCb hn hcare' (Option.some.inj hrun)
      next => cases hrun
    | endOfStream =>
      cases hrun
      have hbefore := h.phase.behind .endOfStream (mem_of_getElem? hn) rfl
      exact ⟨w, c, h.pass .done true none hn rfl rfl (by decide) (fun _ => rfl) (fun _ _ => hbefore)
        nofun⟩
    | push =>
      cases hrun
      exact h.push hn
    | top =>
      unfold runThread at hrun
      dsimp only at hrun
      split at hrun
      next => exact h.process hn (Option.some.inj hrun)
      next => cases hrun
    | accepted =>
      cases hrun
      exact h.accepted hn hcare'
    | getMessenger =>
      unfold runThread at hrun
      dsimp only at hrun
      split at hrun
      next =>
        cases hrun
        exact ⟨_, c, h.work hn rfl rfl rfl id (by decide) rfl rfl⟩
      next => cases hrun
    | messengerNew =>
      unfold runThread at hrun
      dsimp only at hrun
      split at hrun
      next =>
        cases hrun
        exact ⟨_, c, h.work hn rfl rfl rfl (fun ht => ⟨ht.1, ht.2.1, .inl ht.2.2⟩) (by decide) rfl
          rfl⟩
      next => cases hrun
    | transportEvent =>
      cases hrun
      exact h.transportEvent hn
    | messageRead =>
      cases hrun
      exact h.readMessage hn
    | leave =>
      cases hrun
      exact h.ends none hn (.inl rfl)
    | giveUp =>
      cases hrun
      exact h.ends s.readingLock hn (.inr rfl)
    | close section_ caller =>
      obtain ⟨t, hclose, heq⟩ := Option.map_eq_some_iff.mp hrun
      cases heq
      cases section_ with
      | begin => exact h.begin hn hcare' hclose
      | removePoll wasConnected =>
        unfold State.close at hclose
        dsimp only at hclose
        split at hclose
        next =>
          cases hclose
          exact h.removePoll hn
        next => cases hclose
      | shutdown wasConnected =>
        cases hclose
        exact h.shutdown hn hcare'.1 hcare'.2
    | done => cases hrun

/-- No assertion fails. -/
theorem Inv.no_abort {a : Action} (h : Inv env s) (hcare : Careful env s a) :
    step env s a ≠ some (.error .aborted) := by
  obtain ⟨w, c, h⟩ := h
  intro habort
  cases a with
  | readable =>
    unfold step at habort
    dsimp only at habort
    split at habort
    next => cases habort
    next => cases habort
  | close => cases habort
  | run n more eof =>
    obtain ⟨p, hn, hrun⟩ := Option.bind_eq_some_iff.mp habort
    cases p with
    | readCb =>
      unfold runThread at hrun
      dsimp only at hrun
      split at hrun
      next =>
        unfold State.readCb at hrun
        dsimp only at hrun
        split at hrun
        next => cases hrun
        next => split at hrun <;> [skip; split at hrun] <;> cases hrun
      next => cases hrun
    | top =>
      unfold runThread at hrun
      dsimp only at hrun
      split at hrun
      next => exact h.process_no_abort hn (hcare .top hn) (Option.some.inj hrun)
      next => cases hrun
    | getMessenger =>
      obtain rfl := h.crew.eq_some hn rfl
      unfold runThread at hrun
      rw [if_pos h.tells.2.2] at hrun
      cases hrun
    | messengerNew =>
      obtain rfl := h.crew.eq_some hn rfl
      unfold runThread at hrun
      dsimp only at hrun
      rw [if_pos h.tells.2.2] at hrun
      cases hrun
    | close section_ caller =>
      obtain ⟨t, -, heq⟩ := Option.map_eq_some_iff.mp hrun
      cases heq
    | _ => cases hrun

/-- Whatever the threads of a connection do in careful steps, and in whatever order, one worker at most
is on the way, every message that is whole is delivered once and in order, the connect and then the
close are told once each, and no assertion fails in a careful step. -/
theorem threads_lawful (env : Surroundings) {s : State}
    (h : Reaches (Next env) (Careful env) (initial env) s) :
    s.Lawful env ∧ ∀ a, Careful env s a → step env s a ≠ some (.error .aborted) := by
  obtain ⟨w, c, hinv⟩ := h.invariant inv_initial fun h => h.next
  exact ⟨hinv.lawful, fun _ => Inv.no_abort ⟨w, c, hinv⟩⟩

/-! ## two runs -/

/-- A peer whose messages can be read. -/
def tcpSurroundings : Surroundings where
  uriParse := WelcomeMessage.tcpUri
  messageRead := fun _ => .success
  left := id
  destAddr := WelcomeMessage.tcpAddress
  myMsgVersion := 1
  inbound := true

/-- The greeting and a message in one bucket. -/
def firstBucket : Bucket := ⟨welcomeLine ++ smallMessage, by decide⟩

/-- They are delivered before the connection is closed. -/
def politeRun : List Action :=
  [.readable, .run 0 [firstBucket] false, .run 0 [] false, .run 1 [] false, .run 1 [] false,
    .run 1 [] false, .run 1 [] false, .run 1 [] false, .run 1 [] false, .run 1 [] false,
    .run 1 [] false, .close, .run 2 [] false, .run 2 [] false, .run 2 [] false]

/-- They come with the end of the stream. -/
def hastyRun : List Action :=
  [.readable, .run 0 [firstBucket] true, .run 0 [] false, .run 0 [] false, .run 0 [] false,
    .run 0 [] false]

theorem threads_lawful_polite : ∃ s, Reaches (Next tcpSurroundings) (Careful tcpSurroundings)
    (initial tcpSurroundings) s ∧ s.events = [.inboundConnected, .connectionClosed] ∧
      s.Lawful tcpSurroundings ∧
      ∀ a, Careful tcpSurroundings s a → step tcpSurroundings s a ≠ some (.error .aborted) := by
  have hevents : (politeRun.foldlM (goOn (step tcpSurroundings) fun s a =>
      decide (Careful tcpSurroundings s a)) (initial tcpSurroundings)).map State.events
        = some [.inboundConnected, .connectionClosed] := by
    decide +kernel
  obtain ⟨s, hs, hevents⟩ := Option.map_eq_some_iff.mp hevents
  have hrun : Reaches (Next tcpSurroundings) (Careful tcpSurroundings) (initial tcpSurroundings) s :=
    reaches_of_foldlM (fun h => ⟨of_decide_eq_true (goOn_eq_some h).1, (goOn_eq_some h).2⟩) hs
  exact ⟨s, hrun, hevents, threads_lawful tcpSurroundings hrun⟩

/-- The message that came with the end of the stream is lost. -/
theorem not_threads_lawful : ¬ ∀ (env : Surroundings) (s : State),
    Reaches (Next env) (fun _ _ => True) (initial env) s → s.Lawful env := by
  intro h
  have hlost : (hastyRun.foldlM (goOn (step tcpSurroundings) fun _ _ => true)
      (initial tcpSurroundings)).map (fun s => decide (s.threads = [.done] ∧
        s.before = some [firstBucket.val] ∧ s.conn.delivered = [])) = some true := by
    decide +kernel
  obtain ⟨s, hs, hlost⟩ := Option.map_eq_some_iff.mp hlost
  obtain ⟨hthreads, hbefore, hdelivered⟩ := of_decide_eq_true hlost
  have hrun : Reaches (Next tcpSurroundings) (fun _ _ => True) (initial tcpSurroundings) s :=
    reaches_of_foldlM (fun h => ⟨trivial, (goOn_eq_some h).2⟩) hs
  have hrest : s.AtRest := by
    intro p hp
    rw [hthreads] at hp
    exact mem_singleton.mp hp
  have hkept := (h tcpSurroundings s hrun).wholeBefore hrest _ hbefore
  rw [hdelivered, prefix_nil] at hkept
  have hone : (messages tcpSurroundings [firstBucket.val]).length = 1 := by decide +kernel
  rw [hkept] at hone
  cases hone

end TcpThreads

end JxtaC
