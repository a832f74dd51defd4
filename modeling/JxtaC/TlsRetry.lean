import JxtaC.Base.Status
import JxtaC.Lib.Transition

/-
  The retry task of a TLS connection (`jxta_transport_tls_connection.c`). A step is a section under
  `retry_thread.mutex`, or what the thread pool and the other users of the connection do meanwhile.
  The retry message has its mark, the blocks, and a destination once it was sent:
  `jxta_endpoint_service_send` puts one there unless it fails before. The flag `retry_thread.abort`
  is never set (`tls_connection_free` sets that of the receive thread twice). A task of the pool
  begins at any time after it was scheduled; one that disconnects holds a reference, one that
  retries does not.
-/

namespace JxtaC.TlsRetry

open Lib List

/-- `TLS_TIMEOUT`, in microseconds. -/
def tlsTimeout : Nat := 10000000

/-- How far `tls_connection_free` is: it cancels the tasks of the connection and waits for those
that run, then releases the fields. -/
inductive Life where
  | alive
  | cancelling
  | released
  deriving DecidableEq

/-- A connection, with the tasks of the pool for it: scheduled or begun retries, and disconnects. -/
structure State where
  blocks : List Int
  addressed : Bool
  running : Bool
  lastFeedback : Nat
  now : Nat
  scheduled : Nat
  begun : Nat
  disconnects : Nat
  disconnected : Bool
  life : Life
  deriving DecidableEq

/-- `tls_connection_new`. -/
def initial (now : Nat) : State := ⟨[], false, false, now, now, 0, 0, 0, false, .alive⟩

namespace State
variable (s : State)

/-- `jxta_message_get_elements`: how many there are. -/
def elementCount : Nat := 1 + s.addressed.toNat + s.blocks.length

/-- `tls_connection_add_retry` schedules the task. -/
def restarts : Bool := s.elementCount = 1 && !s.running

/-- `tls_connection_add_retry`. -/
def addRetry (seqNumber : Int) : State :=
  let s :=
    if s.restarts then
      { s with running := true, lastFeedback := s.now, scheduled := s.scheduled + 1 }
    else s
  { s with blocks := s.blocks ++ [seqNumber] }

/-- `jxta_message_remove_element_2`, which looks from the end. -/
def removeElement2 (blocks : List Int) (seqNumber : Int) : List Int :=
  (blocks.reverse.erase seqNumber).reverse

/-- `tls_connection_remove_retries`; the numbers are in host order. The first one is looked at for
every block with a number above 0, also where there is none. -/
def removeRetries (retries : List Nat) : Exec State :=
  let blocks :=
    retries.foldl (fun blocks n => removeElement2 blocks ((n : Int).bmod uintMod)) s.blocks
  match retries with
  | [] => if blocks.any (0 < ·) then .error .outOfBounds else .ok s
  | first :: _ => .ok { s with blocks := blocks.filter fun n => !(0 < n && n.toNat < first) }

/-- `tls_connection_disconnect`. -/
def disconnect : State := { s with disconnects := s.disconnects + 1, disconnected := true }

def TimedOut : Prop := s.lastFeedback + tlsTimeout < s.now

instance : Decidable s.TimedOut := inferInstanceAs (Decidable (_ < _))

/-- `tls_retry_thread`; `sent` if a destination was put into the message. -/
def retryThread (sent : Bool) : State :=
  let done := { s with running := false, begun := s.begun - 1 }
  if s.TimedOut then done.disconnect
  else if 1 + s.blocks.length ≤ 1 then done
  else { done with addressed := s.addressed || sent, scheduled := s.scheduled + 1 }

end State

inductive Action where
  | addRetry (seqNumber : Int)
  | removeRetries (retries : List Nat)
  | feedback
  | tick (d : Nat)
  | begin
  | retryThread (sent : Bool)
  | disconnect
  | disconnectThread
  | free
  | release
  deriving DecidableEq

/-- When it can happen. -/
def may (s : State) : Action → Bool
  | .addRetry _ | .removeRetries _ | .feedback | .disconnect => s.life ≠ .released
  | .tick _ => true
  | .begin => 0 < s.scheduled
  | .retryThread _ => 0 < s.begun
  | .disconnectThread => 0 < s.disconnects
  | .free => s.life = .alive && s.disconnects = 0
  | .release => s.life = .cancelling && s.begun = 0

def effect (s : State) : Action → Exec State
  | .addRetry n => .ok (s.addRetry n)
  | .removeRetries retries => s.removeRetries retries
  | .feedback => .ok { s with lastFeedback := s.now }
  | .tick d => .ok { s with now := s.now + d }
  | .begin => .ok { s with scheduled := s.scheduled - 1, begun := s.begun + 1 }
  | .retryThread sent =>
    if s.life = .released then .error .danglingPointer else .ok (s.retryThread sent)
  -- a message cannot be decrypted
  | .disconnect => .ok s.disconnect
  | .disconnectThread =>
    if s.life = .released then .error .danglingPointer
    else .ok { s with disconnects := s.disconnects - 1 }
  -- the last reference is released; `apr_thread_pool_tasks_cancel`
  | .free => .ok { s with life := .cancelling, scheduled := 0 }
  | .release => .ok { s with life := .released }

/-- A step: none if it cannot be taken. -/
def step (s : State) (a : Action) : Option (Exec State) :=
  if may s a = true then some (effect s a) else none

def Next (s : State) (a : Action) (s' : State) : Prop := step s a = some (.ok s')

/-- A block in a retry message has one task as long as the connection is neither disconnected nor
freed; there are never two; none is scheduled while it is freed, and none is left behind that. -/
structure State.Lawful (s : State) : Prop where
  one : s.life = .alive → s.disconnected = false → s.blocks ≠ [] → s.scheduled + s.begun = 1
  notTwo : s.scheduled + s.begun ≤ 1
  freed : s.life ≠ .alive → s.scheduled = 0 ∧ s.disconnects = 0
  released : s.life = .released → s.begun = 0

/-- A first block restarts the task where it is missing, and only there; a task that resends finds
the connection in use and not disconnected; none disconnects while it is freed. -/
def Careful (s : State) : Action → Prop
  | .addRetry _ => s.blocks = [] → (s.restarts = true ↔
      s.scheduled + s.begun = 0 ∧ s.disconnected = false ∧ s.life = .alive)
  | .retryThread _ => (s.TimedOut → s.life = .alive) ∧
      (¬ s.TimedOut → s.blocks ≠ [] → s.life = .alive ∧ s.disconnected = false)
  | .disconnect => s.life = .alive
  | _ => True

instance (s : State) (a : Action) : Decidable (Careful s a) := by
  unfold Careful
  split <;> infer_instance

/-! ## what careful steps keep -/

variable {s s' : State}

theorem lawful_initial (now : Nat) : (initial now).Lawful := ⟨nofun, Nat.zero_le 1, nofun, nofun⟩

/-- While the connection is not freed only its retry tasks count. -/
theorem lawful_of_alive (halive : s.life = .alive)
    (hone : s.disconnected = false → s.blocks ≠ [] → s.scheduled + s.begun = 1)
    (htwo : s.scheduled + s.begun ≤ 1) : s.Lawful :=
  ⟨fun _ => hone, htwo, fun hfreed => absurd halive hfreed,
    fun hover => absurd (halive.symm.trans hover) (by decide)⟩

theorem restarts_of_blocks (h : s.blocks ≠ []) : s.restarts = false := by
  have hlen := length_pos_of_ne_nil h
  unfold State.restarts State.elementCount
  rw [decide_eq_false (by omega), Bool.false_and]

theorem addRetry_scheduled (n : Int) (h : s.restarts = false) :
    s.addRetry n = { s with blocks := s.blocks ++ [n] } := by
  unfold State.addRetry
  rw [h]
  rfl

theorem removeRetries_eq {retries : List Nat} (h : s.removeRetries retries = .ok s') :
    ∃ blocks, s' = { s with blocks } ∧ (s.blocks = [] → blocks = []) := by
  have hnil : ∀ retries : List Nat, retries.foldl (fun blocks n =>
      State.removeElement2 blocks ((n : Int).bmod uintMod)) [] = [] := by
    intro retries
    induction retries with
    | nil => rfl
    | cons n retries ih => exact ih
  unfold State.removeRetries at h
  dsimp only at h
  split at h
  next =>
    split at h <;> cases h
    exact ⟨s.blocks, rfl, id⟩
  next first rest =>
    cases h
    refine ⟨_, rfl, fun hempty => ?_⟩
    rw [hempty, hnil]
    rfl

theorem retryThread_of_timedOut {sent : Bool} (htime : s.TimedOut) : s.retryThread sent =
    State.disconnect { s with running := false, begun := s.begun - 1 } :=
  if_pos htime

theorem retryThread_of_not {sent : Bool} (htime : ¬ s.TimedOut) : s.retryThread sent =
    if 1 + s.blocks.length ≤ 1 then { s with running := false, begun := s.begun - 1 }
    else { s with
      running := false, begun := s.begun - 1
      addressed := s.addressed || sent, scheduled := s.scheduled + 1 } :=
  if_neg htime

theorem next_eq {a : Action} (h : Next s a s') : may s a = true ∧ effect s a = .ok s' := by
  obtain ⟨hmay, heffect⟩ := Option.ite_none_right_eq_some.mp h
  exact ⟨hmay, Option.some.inj heffect⟩

/-- A task that goes on finds the connection. -/
theorem of_present {e : Exec State} (h : (if s.life = .released then .error .danglingPointer
    else e) = .ok s') : e = .ok s' := by
  split at h
  next => cases h
  next => exact h

section
variable (h : s.Lawful)
include h

theorem State.Lawful.alive (hsome : 0 < s.scheduled ∨ 0 < s.disconnects) : s.life = .alive := by
  by_contra hfreed
  have hnone := h.freed hfreed
  omega

theorem State.Lawful.addRetry {n : Int} (hcare : Careful s (.addRetry n)) :
    (s.addRetry n).Lawful := by
  by_cases hrestarts : s.restarts = true
  · have hblocks : s.blocks = [] := by
      by_contra hsome
      exact absurd hrestarts (by rw [restarts_of_blocks hsome]; decide)
    obtain ⟨hnone, -, halive⟩ := (hcare hblocks).mp hrestarts
    unfold State.addRetry
    rw [if_pos hrestarts]
    refine lawful_of_alive halive (fun _ _ => ?_) ?_
    · show s.scheduled + 1 + s.begun = 1
      omega
    · show s.scheduled + 1 + s.begun ≤ 1
      omega
  · rw [addRetry_scheduled n (Bool.eq_false_iff.mpr hrestarts)]
    refine ⟨fun halive hconnected _ => ?_, h.notTwo, h.freed, h.released⟩
    by_cases hblocks : s.blocks = []
    · have hsome : s.scheduled + s.begun ≠ 0 :=
        fun hnone => hrestarts ((hcare hblocks).mpr ⟨hnone, hconnected, halive⟩)
      have htwo := h.notTwo
      show s.scheduled + s.begun = 1
      omega
    · exact h.one halive hconnected hblocks

theorem State.Lawful.retryThread {sent : Bool} (hcare : Careful s (.retryThread sent))
    (hbegun : 0 < s.begun) : (s.retryThread sent).Lawful := by
  have htwo := h.notTwo
  have hless : s.scheduled + (s.begun - 1) ≤ 1 := by omega
  by_cases htime : s.TimedOut
  · rw [retryThread_of_timedOut htime]
    exact lawful_of_alive (hcare.1 htime) nofun hless
  rw [retryThread_of_not htime]
  by_cases hblocks : s.blocks = []
  · rw [if_pos (by rw [hblocks]; decide)]
    exact ⟨fun _ _ hsome => absurd hblocks hsome, hless, h.freed,
      fun hover => absurd (h.released hover) (Nat.ne_of_gt hbegun)⟩
  · have hlen := length_pos_of_ne_nil hblocks
    rw [if_neg (by omega)]
    refine lawful_of_alive (hcare.2 htime hblocks).1 (fun _ _ => ?_) ?_
    · show s.scheduled + 1 + (s.begun - 1) = 1
      omega
    · show s.scheduled + 1 + (s.begun - 1) ≤ 1
      omega

theorem State.Lawful.next {a : Action} (hcare : Careful s a) (hnext : Next s a s') :
    s'.Lawful := by
  obtain ⟨hmay, heffect⟩ := next_eq hnext
  cases a with
  | addRetry n =>
    cases heffect
    exact h.addRetry hcare
  | removeRetries retries =>
    obtain ⟨blocks, rfl, hempty⟩ := removeRetries_eq heffect
    exact ⟨fun halive hconnected hblocks => h.one halive hconnected fun hnone =>
      hblocks (hempty hnone), h.notTwo, h.freed, h.released⟩
  | feedback | tick d =>
    cases heffect
    exact ⟨h.one, h.notTwo, h.freed, h.released⟩
  | begin =>
    have hpos : 0 < s.scheduled := of_decide_eq_true hmay
    have halive := h.alive (.inl hpos)
    cases heffect
    have hsum : s.scheduled - 1 + (s.begun + 1) = s.scheduled + s.begun := by omega
    exact lawful_of_alive halive
      (fun hconnected hblocks => hsum.trans (h.one halive hconnected hblocks))
      (Nat.le_trans (Nat.le_of_eq hsum) h.notTwo)
  | retryThread sent =>
    cases of_present heffect
    exact h.retryThread hcare (of_decide_eq_true hmay)
  | disconnect =>
    cases heffect
    exact lawful_of_alive hcare nofun h.notTwo
  | disconnectThread =>
    have halive := h.alive (.inr (of_decide_eq_true hmay))
    cases of_present heffect
    exact lawful_of_alive halive (h.one halive) h.notTwo
  | free =>
    obtain ⟨-, hnone⟩ := (Bool.and_eq_true _ _).mp hmay
    cases heffect
    have htwo := h.notTwo
    refine ⟨nofun, ?_, fun _ => ⟨rfl, of_decide_eq_true hnone⟩, nofun⟩
    show 0 + s.begun ≤ 1
    omega
  | release =>
    obtain ⟨hlife, hbegun⟩ := (Bool.and_eq_true _ _).mp hmay
    cases heffect
    exact ⟨nofun, h.notTwo, fun _ => h.freed (by rw [of_decide_eq_true hlife]; decide),
      fun _ => of_decide_eq_true hbegun⟩

/-- No task meets a connection whose fields are released. -/
theorem State.Lawful.no_dangling (a : Action) : step s a ≠ some (.error .danglingPointer) := by
  intro hstep
  obtain ⟨hmay, hstep⟩ := Option.ite_none_right_eq_some.mp hstep
  replace hstep := Option.some.inj hstep
  unfold effect at hstep
  cases a with
  | removeRetries retries =>
    unfold State.removeRetries at hstep
    dsimp only at hstep
    split at hstep
    next => split at hstep <;> cases hstep
    next => cases hstep
  | retryThread sent =>
    have hbegun : 0 < s.begun := of_decide_eq_true hmay
    dsimp only at hstep
    split at hstep
    next hover => exact absurd (h.released hover) (Nat.ne_of_gt hbegun)
    next => cases hstep
  | disconnectThread =>
    have halive := h.alive (.inr (of_decide_eq_true hmay))
    dsimp only at hstep
    split at hstep
    next hover => exact absurd (halive.symm.trans hover) (by decide)
    next => cases hstep
  | _ => cases hstep

end

/-- A careful step schedules nothing on a connection that was disconnected. -/
theorem scheduled_le {a : Action} (hcare : Careful s a) (hnext : Next s a s')
    (hover : s.disconnected = true) : s'.scheduled ≤ s.scheduled := by
  obtain ⟨-, heffect⟩ := next_eq hnext
  cases a with
  | addRetry n =>
    cases heffect
    have hrestarts : s.restarts = false := by
      by_cases hblocks : s.blocks = []
      · rw [← Bool.not_eq_true, hcare hblocks]
        rintro ⟨-, hconnected, -⟩
        exact absurd (hover.symm.trans hconnected) (by decide)
      · exact restarts_of_blocks hblocks
    rw [addRetry_scheduled n hrestarts]
  | removeRetries retries =>
    obtain ⟨blocks, rfl, -⟩ := removeRetries_eq heffect
    exact Nat.le_refl _
  | retryThread sent =>
    cases of_present heffect
    by_cases htime : s.TimedOut
    · rw [retryThread_of_timedOut htime]
      exact Nat.le_refl _
    rw [retryThread_of_not htime]
    by_cases hblocks : s.blocks = []
    · rw [if_pos (by rw [hblocks]; decide)]
    · obtain ⟨-, hconnected⟩ := hcare.2 htime hblocks
      exact absurd (hover.symm.trans hconnected) (by decide)
  | begin =>
    cases heffect
    exact Nat.sub_le _ 1
  | disconnectThread =>
    cases of_present heffect
    exact Nat.le_refl _
  | feedback | tick d | disconnect | release =>
    cases heffect
    exact Nat.le_refl _
  | free =>
    cases heffect
    exact Nat.zero_le _

/-- Whatever the users of a connection, its tasks and the thread pool do in careful steps, in any
order, unacknowledged blocks have one retry task and never two, none is scheduled after a
disconnect, and none runs when the fields are released. -/
theorem retry_lawful (now : Nat) (h : Reaches Next Careful (initial now) s) : s.Lawful ∧
    ∀ a, Careful s a → step s a ≠ some (.error .danglingPointer) ∧
      ∀ s', Next s a s' → s.disconnected = true → s'.scheduled ≤ s.scheduled := by
  have hlawful := h.invariant (lawful_initial now) fun h => h.next
  exact ⟨hlawful, fun a hcare => ⟨hlawful.no_dangling a, fun s' hnext => scheduled_le hcare hnext⟩⟩

/-- A block is sent again, and acknowledged; the task ends. -/
def acknowledged : List Action :=
  [.addRetry 1, .begin, .retryThread true, .begin, .removeRetries [1], .feedback, .retryThread true]

theorem reaches_acknowledged :
    Reaches Next Careful (initial 0) { initial 0 with addressed := true } := by
  have hrun : acknowledged.foldlM (goOn step fun s a => decide (Careful s a)) (initial 0) =
      some { initial 0 with addressed := true } := by
    decide +kernel
  exact reaches_of_foldlM
    (fun h => ⟨of_decide_eq_true (goOn_eq_some h).1, (goOn_eq_some h).2⟩) hrun

theorem retry_lawful_acknowledged : ∃ s, s.addressed = true ∧
    s.Lawful ∧ ∀ a, Careful s a → step s a ≠ some (.error .danglingPointer) ∧
      ∀ s', Next s a s' → s.disconnected = true → s'.scheduled ≤ s.scheduled :=
  ⟨_, rfl, retry_lawful 0 reaches_acknowledged⟩

/-! ## after the first resend -/

/-- The retry message was sent once, and there is no task. -/
structure State.Over (s : State) : Prop where
  addressed : s.addressed = true
  scheduled : s.scheduled = 0
  begun : s.begun = 0

theorem State.Over.next {a : Action} (h : s.Over) (hnext : Next s a s') :
    s'.Over ∧ ((∀ retries, a ≠ .removeRetries retries) → s.blocks <+: s'.blocks) := by
  obtain ⟨haddressed, hscheduled, hbegun⟩ := h
  obtain ⟨hmay, heffect⟩ := next_eq hnext
  cases a with
  | addRetry n =>
    cases heffect
    have hrestarts : s.restarts = false := by
      unfold State.restarts State.elementCount
      rw [haddressed, decide_eq_false (by simp; omega), Bool.false_and]
    rw [addRetry_scheduled n hrestarts]
    exact ⟨⟨haddressed, hscheduled, hbegun⟩, fun _ => prefix_append _ _⟩
  | removeRetries retries =>
    obtain ⟨blocks, rfl, -⟩ := removeRetries_eq heffect
    exact ⟨⟨haddressed, hscheduled, hbegun⟩, fun hno => absurd rfl (hno retries)⟩
  | begin =>
    have hpos : 0 < s.scheduled := of_decide_eq_true hmay
    omega
  | retryThread sent =>
    have hpos : 0 < s.begun := of_decide_eq_true hmay
    omega
  | disconnectThread =>
    cases of_present heffect
    exact ⟨⟨haddressed, hscheduled, hbegun⟩, fun _ => prefix_rfl⟩
  | feedback | tick d | disconnect | release =>
    cases heffect
    exact ⟨⟨haddressed, hscheduled, hbegun⟩, fun _ => prefix_rfl⟩
  | free =>
    cases heffect
    exact ⟨⟨haddressed, rfl, hbegun⟩, fun _ => prefix_rfl⟩

end JxtaC.TlsRetry
