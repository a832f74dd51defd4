import JxtaC.Bidipipe

/-
  The states of a bidirectional pipe in runs of careful steps. What is held, which calls are in
  progress and where they are goes together in a few ways (`Shape`), which the steps keep
  (`Inv.next`); from each of them a call of close gets the pipe back (`Inv.closable`).
-/

namespace JxtaC

open Lib List

namespace Bidipipe

/-- Behind `construct_input_pipe`. -/
def Point.isBehind : Point → Bool
  | .bound => true
  | .waiting _ => true
  | _ => false

/-- A call that only waits for its signal, or will: a response confirms a connect with the signal. -/
structure Opener.Loose (o : Opener) : Prop where
  behind : o.point.isBehind = true
  confirmed : o.call = .connect → (o.confirmed = true ↔ o.point = .waiting true)

/-- What is held up to the input pipe. -/
inductive Opening : Pipe → Opener → Prop
  | resolving (l : Nat) :
      Opening ⟨.connecting, none, none, none, none⟩ ⟨.connect, .resolving l, false⟩
  | composing (l adv : Nat) :
      Opening ⟨.connecting, some l, none, none, none⟩ ⟨.connect, .composing adv, false⟩
  | starting (l adv : Nat) :
      Opening ⟨.accepting, none, none, none, none⟩ ⟨.accept, .starting l adv, false⟩
  | bindingConnect (l adv : Nat) :
      Opening ⟨.connecting, some l, none, some adv, none⟩ ⟨.connect, .binding adv, false⟩
  | bindingAccept (l adv : Nat) :
      Opening ⟨.accepting, some l, none, some adv, none⟩ ⟨.accept, .binding adv, false⟩

/-- What is held, with the calls in progress. -/
inductive Shape : Pipe → Bool → List Opener → List Closer → Prop
  | closed (o : Option Opener) (hloose : ∀ o' ∈ o, o'.Loose) : Shape .closed false o.toList []
  | opening {pipe : Pipe} {o : Opener} (hopening : Opening pipe o) : Shape pipe false [o] []
  | connecting (l ip adv : Nat) {o : Opener} (hloose : o.Loose) (hcall : o.call = .connect)
      (hpoint : o.point ≠ .waiting true) :
      Shape ⟨.connecting, some l, some ip, some adv, none⟩ true [o] []
  | accepting (l ip adv : Nat) {o : Opener} (hloose : o.Loose) (hcall : o.call = .accept)
      (hpoint : o.point ≠ .waiting true) :
      Shape ⟨.accepting, some l, some ip, some adv, none⟩ true [o] []
  | connected (l ip adv : Nat) (addr : EndpointAddress) (o : Option Opener)
      (hloose : ∀ o' ∈ o, o'.Loose) :
      Shape ⟨.connected, some l, some ip, some adv, some addr⟩ true o.toList []
  | closing (l ip adv : Nat) (addr : Option EndpointAddress) (o : Option Opener) (c : Closer)
      (hloose : ∀ o' ∈ o, o'.Loose) (hc : c = .requesting → addr.isSome) :
      Shape ⟨.closing, some l, some ip, some adv, addr⟩ true o.toList [c]

/-- What careful steps keep. -/
structure Inv (s : State) : Prop where
  shape : Shape s.pipe s.started s.openers s.closers
  returned : ∀ r ∈ s.returned, r.Lawful

theorem inv_initial : Inv initial := ⟨.closed none (by simp), by simp [initial]⟩

section Shapes
variable {pipe : Pipe} {started : Bool} {openers : List Opener} {closers : List Closer}
variable {i : Nat} {o : Opener}

/-- The only call in progress. -/
theorem getElem?_toList {α : Type} {o : Option α} {a : α} (h : o.toList[i]? = some a) :
    o = some a ∧ i = 0 := by
  cases o with
  | none => simp at h
  | some b =>
    cases i with
    | zero => exact ⟨h, rfl⟩
    | succ i => simp at h

theorem getElem?_singleton {α : Type} {b : α} {a : α} (h : [b][i]? = some a) : b = a ∧ i = 0 := by
  obtain ⟨hb, hi⟩ := getElem?_toList (o := some b) h
  exact ⟨Option.some.inj hb, hi⟩

theorem Opening.ne_closed (h : Opening pipe o) : pipe.state ≠ .closed := by
  cases h <;> simp

theorem Opening.ne_connected (h : Opening pipe o) : pipe.state ≠ .connected := by
  cases h <;> simp

theorem Opening.not_behind (h : Opening pipe o) : o.point.isBehind = false := by
  cases h <;> rfl

section
variable (h : Shape pipe started openers closers)
include h

/-- A closed pipe holds nothing. -/
theorem Shape.of_closed (hclosed : pipe.state = .closed) :
    pipe = .closed ∧ started = false ∧ closers = [] ∧ ∀ o ∈ openers, o.Loose := by
  cases h with
  | closed o hloose => exact ⟨rfl, rfl, rfl, by simpa using hloose⟩
  | opening hopening => exact absurd hclosed hopening.ne_closed
  | connecting => simp at hclosed
  | accepting => simp at hclosed
  | connected => simp at hclosed
  | closing => simp at hclosed

/-- A connected pipe holds all. -/
theorem Shape.of_connected (hconnected : pipe.state = .connected) :
    closers = [] ∧ (∀ o ∈ openers, o.Loose) ∧
      started = true ∧
      ∃ l ip adv addr, pipe = ⟨.connected, some l, some ip, some adv, some addr⟩ := by
  cases h with
  | connected l ip adv addr o hloose =>
    exact ⟨rfl, by simpa using hloose, rfl, l, ip, adv, addr, rfl⟩
  | opening hopening => exact absurd hconnected hopening.ne_connected
  | closed => simp [Pipe.closed] at hconnected
  | connecting => simp at hconnected
  | accepting => simp at hconnected
  | closing => simp at hconnected

/-- A call that has no input pipe yet is alone. -/
theorem Shape.of_opening (ho : openers[i]? = some o) (hp : o.point.isBehind = false) :
    Opening pipe o ∧ started = false ∧ openers = [o] ∧ closers = [] ∧ i = 0 := by
  have hloose : ∀ {o' : Opener}, o'.Loose → o' ≠ o := by
    intro o' hloose heq
    rw [← heq, hloose.behind] at hp
    cases hp
  cases h with
  | opening hopening =>
    obtain ⟨rfl, rfl⟩ := getElem?_singleton ho
    exact ⟨hopening, rfl, rfl, rfl, rfl⟩
  | closed o' hall => exact absurd rfl (hloose (hall o (getElem?_toList ho).1))
  | connecting _ _ _ hloose' => exact absurd (getElem?_singleton ho).1 (hloose hloose')
  | accepting _ _ _ hloose' => exact absurd (getElem?_singleton ho).1 (hloose hloose')
  | connected _ _ _ _ o' hall => exact absurd rfl (hloose (hall o (getElem?_toList ho).1))
  | closing _ _ _ _ o' _ hall => exact absurd rfl (hloose (hall o (getElem?_toList ho).1))

/-- A call that has its input pipe only waits for its signal. -/
theorem Shape.loose (ho : openers[i]? = some o) (hp : o.point.isBehind = true) : o.Loose := by
  cases h with
  | opening hopening =>
    rw [← (getElem?_singleton ho).1, hopening.not_behind] at hp
    cases hp
  | closed o' hall => exact hall o (getElem?_toList ho).1
  | connecting _ _ _ hloose => exact (getElem?_singleton ho).1 ▸ hloose
  | accepting _ _ _ hloose => exact (getElem?_singleton ho).1 ▸ hloose
  | connected _ _ _ _ o' hall => exact hall o (getElem?_toList ho).1
  | closing _ _ _ _ o' _ hall => exact hall o (getElem?_toList ho).1

/-- A call that has its signal may go, and one of a closed pipe. -/
theorem Shape.leave (ho : openers[i]? = some o)
    (hp : o.point = .waiting true ∨ pipe.state = .closed) :
    Shape pipe started (openers.eraseIdx i) closers := by
  have herase : ∀ {m : Option Opener}, m.toList[i]? = some o →
      m.toList.eraseIdx i = (none : Option Opener).toList := by
    intro m hm
    obtain ⟨rfl, rfl⟩ := getElem?_toList hm
    rfl
  cases h with
  | opening hopening =>
    obtain ⟨rfl, rfl⟩ := getElem?_singleton ho
    rcases hp with hp | hp
    · have hbehind := hopening.not_behind
      rw [hp] at hbehind
      cases hbehind
    · exact absurd hp hopening.ne_closed
  | connecting l ip adv _ _ hpoint =>
    obtain ⟨rfl, rfl⟩ := getElem?_singleton ho
    exact absurd hp (by simp [hpoint])
  | accepting l ip adv _ _ hpoint =>
    obtain ⟨rfl, rfl⟩ := getElem?_singleton ho
    exact absurd hp (by simp [hpoint])
  | closed m hall =>
    rw [herase ho]
    exact .closed none (by simp)
  | connected l ip adv addr m hall =>
    rw [herase ho]
    exact .connected l ip adv addr none (by simp)
  | closing l ip adv addr m c hall hc =>
    rw [herase ho]
    exact .closing l ip adv addr none c (by simp) hc

end

end Shapes

theorem Inv.lawful {s : State} (h : Inv s) : s.Lawful := by
  refine ⟨fun hclosed => (h.shape.of_closed hclosed).1, fun hconnected => ?_, h.returned⟩
  obtain ⟨-, -, -, l, ip, adv, addr, hpipe⟩ := h.shape.of_connected hconnected
  rw [hpipe]
  exact ⟨rfl, rfl, rfl, rfl⟩

/-! ## what is returned -/

section Steps
variable {s s' : State}
variable {rv : Status} {o : Opener} {pipe : Pipe} {i l adv : Nat} {woken : Option Nat} {c : Closer}

theorem Inv.append {returned : List Return} {r : Return} (h : ∀ r ∈ returned, r.Lawful)
    (hr : r.Lawful) : ∀ r' ∈ returned ++ [r], r'.Lawful := by
  intro r' hr'
  rcases mem_append.mp hr' with hmem | hmem
  · exact h r' hmem
  · exact mem_singleton.mp hmem ▸ hr

/-- A call that did nothing. -/
theorem lawful_refused (call : Call) (left : Pipe) :
    Return.Lawful ⟨call, .violation, true, false, left⟩ :=
  ⟨by simp, by simp, by simp⟩

/-- A call of close or send. -/
theorem lawful_other {call : Call} (hcall : call = .close ∨ call = .send) (rv : Status)
    (left : Pipe) : Return.Lawful ⟨call, rv, false, false, left⟩ := by
  rcases hcall with rfl | rfl <;> exact ⟨by simp, by simp, by simp⟩

/-- A call that failed and left a closed pipe behind. -/
theorem lawful_failed (call : Call) (hrv : rv ≠ .success) :
    Return.Lawful ⟨call, rv, false, false, .closed⟩ :=
  ⟨fun _ _ _ => rfl, fun _ h => absurd h hrv, fun _ _ => rfl⟩

theorem Inv.refuse (h : Inv s) (call : Call) : Inv (s.refuse call .violation) :=
  ⟨h.shape, Inv.append h.returned (lawful_refused call _)⟩

/-! ## the steps of connect and accept -/

theorem Inv.connect (h : Inv s) (l : Nat) (hcare : s.pipe.state = .closed → s.openers = []) :
    Inv (s.connect l) := by
  unfold State.connect
  split
  next hclosed =>
    obtain ⟨hpipe, hstarted, hclosers, -⟩ := h.shape.of_closed hclosed
    refine ⟨?_, h.returned⟩
    rw [hcare hclosed, hpipe, hstarted, hclosers]
    exact .opening (.resolving l)
  next => exact h.refuse _

theorem Inv.accept (h : Inv s) (adv l : Nat) (hcare : s.pipe.state = .closed → s.openers = []) :
    Inv (s.accept adv l) := by
  unfold State.accept
  split
  next hclosed =>
    obtain ⟨hpipe, hstarted, hclosers, -⟩ := h.shape.of_closed hclosed
    refine ⟨?_, h.returned⟩
    rw [hcare hclosed, hpipe, hstarted, hclosers]
    exact .opening (.starting l adv)
  next => exact h.refuse _

/-- A call that fails before there is an input pipe leaves a closed pipe. -/
theorem Inv.fail (h : Inv s) (hstarted : s.started = false) (hopeners : s.openers = [o])
    (hclosers : s.closers = []) (hconfirmed : o.confirmed = false) (hrv : rv ≠ .success)
    (hpipe : pipe = .closed) : Inv (s.openerReturns 0 o rv pipe) := by
  subst hpipe
  refine ⟨?_, Inv.append h.returned ?_⟩
  · unfold State.openerReturns
    rw [hstarted, hopeners, hclosers]
    exact .closed none (by simp)
  · rw [hconfirmed]
    exact lawful_failed _ hrv

theorem Inv.resolve (h : Inv s) (ho : s.openers[i]? = some o) (hp : o.point = .resolving l)
    (hstep : s.resolve i o l rv adv = .ok s') : Inv s' := by
  obtain ⟨hopening, hstarted, hopeners, hclosers, rfl⟩ := h.shape.of_opening ho (by rw [hp]; rfl)
  generalize hpipe : s.pipe = pipe at hopening
  cases hopening with
  | resolving l' =>
    obtain rfl := Point.resolving.inj hp
    unfold State.resolve at hstep
    rw [hpipe] at hstep
    split at hstep
    next =>
      obtain rfl := Except.ok.inj hstep
      refine ⟨?_, h.returned⟩
      unfold State.setOpener
      dsimp only
      rw [hstarted, hopeners, hclosers]
      exact .opening (.composing l' adv)
    next hrv =>
      cases hstep
      exact h.fail hstarted hopeners hclosers rfl hrv rfl
  | _ => cases hp

/-- On to the input pipe. -/
theorem inv_constructInputPipe {state : Phase} (hreturned : ∀ r ∈ s.returned, r.Lawful)
    (hstarted : s.started = false) (hopeners : s.openers = [o]) (hclosers : s.closers = [])
    (hpipe : s.pipe = ⟨state, some l, none, none, none⟩)
    (hopening : Opening ⟨state, some l, none, some adv, none⟩ { o with point := .binding adv }) :
    Inv (s.constructInputPipe 0 o adv) := by
  unfold State.constructInputPipe
  rw [hpipe]
  refine ⟨?_, hreturned⟩
  simp only [Option.isSome_none, Bool.false_eq_true, ↓reduceIte, State.setOpener]
  rw [hstarted, hopeners, hclosers]
  exact .opening hopening

theorem Inv.compose (h : Inv s) (ho : s.openers[i]? = some o) (hp : o.point = .composing adv) :
    Inv (s.compose i o adv rv) := by
  obtain ⟨hopening, hstarted, hopeners, hclosers, rfl⟩ := h.shape.of_opening ho (by rw [hp]; rfl)
  generalize hpipe : s.pipe = pipe at hopening
  cases hopening with
  | composing l adv' =>
    obtain rfl := Point.composing.inj hp
    unfold State.compose
    split
    next =>
      exact inv_constructInputPipe h.returned hstarted hopeners hclosers hpipe
        (.bindingConnect l adv')
    next hrv => exact h.fail hstarted hopeners hclosers rfl hrv (by rw [hpipe]; rfl)
  | _ => cases hp

theorem Inv.start (h : Inv s) (ho : s.openers[i]? = some o) (hp : o.point = .starting l adv)
    (hstep : s.start i o l adv = .ok s') : Inv s' := by
  obtain ⟨hopening, hstarted, hopeners, hclosers, rfl⟩ := h.shape.of_opening ho (by rw [hp]; rfl)
  generalize hpipe : s.pipe = pipe at hopening
  cases hopening with
  | starting l' adv' =>
    obtain ⟨rfl, rfl⟩ := Point.starting.inj hp
    unfold State.start at hstep
    rw [hpipe] at hstep
    obtain rfl := Except.ok.inj hstep
    exact inv_constructInputPipe h.returned hstarted hopeners hclosers rfl (.bindingAccept l' adv')
  | _ => cases hp

/-- The input pipe is there. -/
theorem Inv.bind (h : Inv s) (ho : s.openers[i]? = some o) (hp : o.point = .binding adv)
    (hrv : rv = .success) : Inv (s.bind i o adv rv) := by
  obtain ⟨hopening, hstarted, hopeners, hclosers, rfl⟩ := h.shape.of_opening ho (by rw [hp]; rfl)
  generalize hpipe : s.pipe = pipe at hopening
  refine ⟨?_, by simpa [State.bind, hrv, State.setOpener] using h.returned⟩
  unfold State.bind
  rw [if_pos hrv]
  unfold State.setOpener
  rw [hopeners, hclosers, hpipe]
  cases hopening with
  | bindingConnect l adv' =>
    exact .connecting l adv adv' ⟨rfl, fun _ => by simp⟩ rfl (by simp)
  | bindingAccept l adv' => exact .accepting l adv adv' ⟨rfl, fun h => by simp at h⟩ rfl (by simp)
  | _ => cases hp

/-- A call that waits for its signal goes on waiting, or returns. -/
theorem Shape.loosen {started : Bool} {openers : List Opener} {closers : List Closer}
    {o' : Opener} (h : Shape pipe started openers closers) (ho : openers[i]? = some o)
    (hbehind : o.point.isBehind = true) (hloose : o.Loose → o'.Loose) (hcall : o'.call = o.call)
    (hpoint : o.point ≠ .waiting true → o'.point ≠ .waiting true) :
    Shape pipe started (openers.set i o') closers := by
  have hset : ∀ {m : Option Opener}, m.toList[i]? = some o → (∀ o ∈ m, o.Loose) →
      m.toList.set i o' = (some o').toList ∧ ∀ x ∈ some o', x.Loose := by
    intro m hm hall
    obtain ⟨rfl, rfl⟩ := getElem?_toList hm
    exact ⟨rfl, fun x hx => Option.some.inj hx ▸ hloose (hall o rfl)⟩
  cases h with
  | opening hopening =>
    rw [← (getElem?_singleton ho).1, hopening.not_behind] at hbehind
    cases hbehind
  | closed m hall =>
    obtain ⟨hlist, hall'⟩ := hset ho hall
    rw [hlist]
    exact .closed _ hall'
  | connecting l ip adv hold hcall' hpoint' =>
    obtain ⟨rfl, rfl⟩ := getElem?_singleton ho
    exact .connecting l ip adv (hloose hold) (hcall.trans hcall') (hpoint hpoint')
  | accepting l ip adv hold hcall' hpoint' =>
    obtain ⟨rfl, rfl⟩ := getElem?_singleton ho
    exact .accepting l ip adv (hloose hold) (hcall.trans hcall') (hpoint hpoint')
  | connected l ip adv addr m hall =>
    obtain ⟨hlist, hall'⟩ := hset ho hall
    rw [hlist]
    exact .connected l ip adv addr _ hall'
  | closing l ip adv addr m c hall hc =>
    obtain ⟨hlist, hall'⟩ := hset ho hall
    rw [hlist]
    exact .closing l ip adv addr _ c hall' hc

theorem Inv.await (h : Inv s) (ho : s.openers[i]? = some o) (hp : o.point = .bound) :
    Inv (s.setOpener i { o with point := .waiting false }) := by
  refine ⟨h.shape.loosen ho (by rw [hp]; rfl) (fun hloose => ⟨rfl, fun hcall => ?_⟩) rfl
    (fun _ => by simp), h.returned⟩
  rw [hloose.confirmed hcall, hp]
  simp

theorem Inv.wake (h : Inv s) (ho : s.openers[i]? = some o) (hp : o.point = .waiting true) :
    Inv (s.openerReturns i o .success s.pipe) := by
  refine ⟨h.shape.leave ho (.inl hp), Inv.append h.returned ⟨by simp, fun hcall _ => ?_, by simp⟩⟩
  exact ((h.shape.loose ho (by rw [hp]; rfl)).confirmed hcall).mpr hp

theorem Inv.timeout (h : Inv s) (ho : s.openers[i]? = some o) (hp : o.point = .waiting false)
    (hclosed : s.pipe.state = .closed) : Inv (s.openerReturns i o .timeout s.pipe) := by
  refine ⟨h.shape.leave ho (.inr hclosed), Inv.append h.returned
    ⟨fun _ _ _ => (h.shape.of_closed hclosed).1, by simp, fun hcall _ => ?_⟩⟩
  have hiff := (h.shape.loose ho (by rw [hp]; rfl)).confirmed hcall
  rw [hp] at hiff
  simpa using hiff

/-! ## the steps of the worker -/

/-- The thread that a signal reaches. -/
theorem signal_cases (h : s.signal woken = some s') :
    (s' = s ∧ ∀ o ∈ s.openers, o.point ≠ .waiting false) ∨
      ∃ i o, s.openers[i]? = some o ∧ o.point = .waiting false ∧
        s' = s.setOpener i { o with point := .waiting true } := by
  unfold State.signal at h
  cases woken with
  | none =>
    dsimp only at h
    split at h
    next => exact absurd h (by simp)
    next hany =>
      refine .inl ⟨(Option.some.inj h).symm, fun o ho hp => hany ?_⟩
      exact any_eq_true.mpr ⟨o, ho, decide_eq_true hp⟩
  | some i =>
    obtain ⟨o, ho, hset⟩ := Option.bind_eq_some_iff.mp h
    split at hset
    next hp => exact .inr ⟨i, o, ho, hp, (Option.some.inj hset).symm⟩
    next => exact absurd hset (by simp)

/-- What is not looked at while the worker is where it is. -/
theorem Inv.handler (h : Inv s) (handler : Option Handler) : Inv { s with handler } :=
  ⟨h.shape, h.returned⟩

/-- Closing the pipes leaves a closed pipe, and calls that wait. -/
theorem Inv.closePipes (hreturned : ∀ r ∈ s.returned, r.Lawful) {o : Option Opener}
    (hopeners : s.openers = o.toList) (hloose : ∀ o' ∈ o, o'.Loose) (hclosers : s.closers = [])
    (haddr : s.pipe.state = .closing ∨ s.pipe.epAddr = none) : Inv s.closePipes := by
  refine ⟨?_, hreturned⟩
  have hpipe : s.closePipes.pipe = .closed := by
    unfold State.closePipes Pipe.closed
    rcases haddr with haddr | haddr <;> simp [haddr]
  rw [hpipe]
  show Shape .closed false s.openers s.closers
  rw [hopeners, hclosers]
  exact .closed o hloose

/-- A pipe that has its input pipe is connected, and its opener gets the signal if it waits. -/
theorem inv_established {addr : EndpointAddress} (hreturned : ∀ r ∈ s.returned, r.Lawful)
    {state : Phase} {ip : Nat} (hpipe : s.pipe = ⟨state, some l, some ip, some adv, none⟩)
    (hstarted : s.started = true) (hopeners : s.openers = [o]) (hclosers : s.closers = [])
    (hloose : o.Loose) (hwaits : o.call = .connect → o.point = .waiting false)
    (hstep : (s.established addr).signal woken = some s') : Inv s' := by
  have hshape : ∀ {point : Point}, point.isBehind = true →
      (o.call = .connect → point = .waiting true) →
      Shape (s.established addr).pipe (s.established addr).started [⟨o.call, point, true⟩]
        (s.established addr).closers := by
    intro point hbehind hpoint
    unfold State.established
    rw [hpipe, hstarted, hclosers]
    refine .connected l ip adv addr (some ⟨o.call, point, true⟩) fun o' ho' => ?_
    cases ho'
    exact ⟨hbehind, fun hcall => ⟨fun _ => hpoint hcall, fun _ => rfl⟩⟩
  have hlist : (s.established addr).openers = [⟨o.call, o.point, true⟩] := by
    unfold State.established
    rw [hopeners]
    rfl
  rcases signal_cases hstep with ⟨rfl, hnone⟩ | ⟨i, o', ho', hp, rfl⟩
  · refine ⟨?_, hreturned⟩
    rw [hlist] at hnone ⊢
    refine hshape hloose.behind fun hcall => ?_
    exact absurd (hwaits hcall) (hnone ⟨o.call, o.point, true⟩ (mem_singleton_self _))
  · refine ⟨?_, hreturned⟩
    rw [hlist] at ho'
    obtain ⟨rfl, rfl⟩ := getElem?_singleton ho'
    unfold State.setOpener
    rw [hlist]
    exact hshape rfl fun _ => rfl

theorem Inv.handle {msg : Message} (h : Inv s)
    (hpipe : s.pipe.state = .connecting ∨ s.pipe.state = .accepting → s.pipe.iPipe.isSome)
    (hwaits : s.pipe.state = .connecting → msg.responseAddress.isSome →
      ∃ o ∈ s.openers, o.point = .waiting false) (hstep : s.handle msg rv woken = some (.ok s')) :
    Inv s' := by
  obtain ⟨pipe, started, openers, closers, senders, handler, returned⟩ := s
  have hreturned := h.returned
  have hshape := h.shape
  dsimp only at hshape hreturned hpipe hwaits
  unfold State.handle at hstep
  cases hshape with
  | closed o hloose =>
    cases hstep
    exact h.handler none
  | closing l ip adv addr o c hloose hc =>
    cases hstep
    exact h.handler none
  | opening hopening =>
    cases hopening <;> exact absurd (hpipe (by simp)) (by simp)
  | connected l ip adv addr o hloose =>
    split at hstep
    next =>
      cases hstep
      exact Inv.closePipes hreturned rfl hloose rfl (.inl rfl)
    next =>
      cases hstep
      exact h.handler _
  | @connecting l ip adv o hloose hcall hpoint =>
    dsimp only at hstep
    split at hstep
    next =>
      obtain rfl := Except.ok.inj (Option.some.inj hstep)
      exact Inv.closePipes hreturned (o := some o) rfl (by simpa using hloose) rfl (.inr rfl)
    next addr haddr =>
      obtain ⟨u, hu, hok⟩ := Option.map_eq_some_iff.mp hstep
      cases hok
      obtain ⟨o', hmem, hp⟩ := hwaits rfl (by rw [haddr]; rfl)
      obtain rfl := mem_singleton.mp hmem
      exact inv_established hreturned rfl rfl rfl rfl hloose (fun _ => hp) hu
  | @accepting l ip adv o hloose hcall hpoint =>
    dsimp only at hstep
    split at hstep
    next =>
      obtain rfl := Except.ok.inj (Option.some.inj hstep)
      exact ⟨.accepting l ip adv hloose hcall hpoint, hreturned⟩
    next addr haddr =>
      split at hstep
      next hnull => cases hstep
      next =>
        split at hstep
        next =>
          obtain ⟨u, hu, hok⟩ := Option.map_eq_some_iff.mp hstep
          cases hok
          refine inv_established hreturned rfl rfl rfl rfl hloose (fun hconnect => ?_) hu
          exact absurd (hconnect.symm.trans hcall) (by decide)
        next =>
          cases hstep
          exact ⟨.accepting l ip adv hloose hcall hpoint, hreturned⟩

theorem Inv.handle_faultless {msg : Message} {f : Fault} (h : Inv s)
    (hpipe : s.pipe.state = .connecting ∨ s.pipe.state = .accepting → s.pipe.iPipe.isSome) :
    s.handle msg rv woken ≠ some (.error f) := by
  obtain ⟨pipe, started, openers, closers, senders, handler, returned⟩ := s
  have hshape := h.shape
  dsimp only at hshape hpipe
  unfold State.handle
  cases hshape with
  | closed => simp [Pipe.closed]
  | closing => simp
  | opening hopening => cases hopening <;> exact absurd (hpipe (by simp)) (by simp)
  | connected =>
    split <;> simp
  | connecting =>
    dsimp only
    split <;> simp
  | accepting =>
    dsimp only
    split
    next => simp
    next =>
      rw [if_neg (by simp)]
      split <;> simp

/-! ## the steps of close and send -/

theorem Inv.close (h : Inv s) (hpipe : s.pipe.state = .accepting → s.pipe.iPipe.isSome)
    (hstep : s.close woken = some s') : Inv s' := by
  obtain ⟨pipe, started, openers, closers, senders, handler, returned⟩ := s
  have hreturned := h.returned
  have hshape := h.shape
  dsimp only at hshape hreturned hpipe
  unfold State.close at hstep
  cases hshape with
  | closed o hloose =>
    cases hstep
    exact ⟨h.shape, Inv.append hreturned (lawful_other (.inl rfl) _ _)⟩
  | closing l ip adv addr o c hloose hc =>
    cases hstep
    exact h.refuse _
  | connected l ip adv addr o hloose =>
    cases hstep
    exact ⟨.closing l ip adv (some addr) o .requesting hloose (fun _ => rfl), hreturned⟩
  | connecting =>
    cases hstep
    exact h.refuse _
  | opening hopening =>
    cases hopening with
    | starting => exact absurd (hpipe rfl) (by simp)
    | bindingAccept => exact absurd (hpipe rfl) (by simp)
    | _ =>
      cases hstep
      exact h.refuse _
  | @accepting l ip adv o hloose hcall hpoint =>
    rcases signal_cases hstep with ⟨rfl, -⟩ | ⟨i, o', ho', hp, rfl⟩
    · exact ⟨.closing l ip adv none (some o) .closing (by simpa using hloose) (by simp), hreturned⟩
    · refine ⟨?_, hreturned⟩
      obtain ⟨rfl, rfl⟩ := getElem?_singleton ho'
      refine .closing l ip adv none (some { o with point := .waiting true }) .closing ?_ (by simp)
      intro o' ho'
      cases ho'
      exact ⟨rfl, fun hconnect => absurd (hconnect.symm.trans hcall) (by decide)⟩

/-- A call of close that goes on. -/
theorem Inv.closer {c' : Closer} (h : Inv s) (hc : s.closers[i]? = some c)
    (hnext : c' ≠ .requesting) : Inv { s with closers := s.closers.set i c' } := by
  obtain ⟨pipe, started, openers, closers, senders, handler, returned⟩ := s
  have hreturned := h.returned
  have hshape := h.shape
  dsimp only at hshape hreturned hc ⊢
  refine ⟨?_, hreturned⟩
  cases hshape with
  | closing l ip adv addr o c'' hloose haddr =>
    obtain ⟨rfl, rfl⟩ := getElem?_singleton hc
    exact .closing l ip adv addr o c' hloose fun heq => absurd heq hnext
  | _ => simp at hc

theorem Inv.finish (h : Inv s) (hc : s.closers[i]? = some c) :
    Inv (s.closePipes.closerReturns i .success) ∧
      (s.closePipes.closerReturns i .success).pipe = .closed := by
  obtain ⟨pipe, started, openers, closers, senders, handler, returned⟩ := s
  have hreturned := h.returned
  have hshape := h.shape
  dsimp only at hshape hreturned hc ⊢
  cases hshape with
  | closing l ip adv addr o c'' hloose haddr =>
    obtain ⟨rfl, rfl⟩ := getElem?_singleton hc
    refine ⟨⟨?_, Inv.append hreturned (lawful_other (.inl rfl) _ _)⟩, rfl⟩
    exact .closed o hloose
  | _ => simp at hc

/-- A call of close is in progress in a closing pipe only, which has the address it needs. -/
theorem Shape.of_closer {started : Bool} {openers : List Opener} {closers : List Closer}
    (h : Shape pipe started openers closers) (hc : closers[i]? = some c) :
    pipe.state = .closing ∧ (c = .requesting → pipe.epAddr.isSome) := by
  cases h with
  | closing l ip adv addr o c' hloose haddr =>
    obtain ⟨rfl, rfl⟩ := getElem?_singleton hc
    exact ⟨rfl, haddr⟩
  | _ => simp at hc

theorem Inv.send (h : Inv s) : Inv s.send := by
  unfold State.send
  split
  next => exact ⟨h.shape, h.returned⟩
  next => exact h.refuse _

/-- A careful step keeps what goes together. -/
theorem Inv.next {a : Action} (h : Inv s) (hcare : Careful s a) (hnext : Next s a s') : Inv s' := by
  unfold Next step at hnext
  cases a with
  | connect l =>
    cases hnext
    exact h.connect l hcare
  | accept adv l =>
    cases hnext
    exact h.accept adv l hcare
  | resolve i rv adv =>
    obtain ⟨o, ho, hstep⟩ := Option.bind_eq_some_iff.mp hnext
    split at hstep
    next l hp => exact h.resolve ho hp (Option.some.inj hstep)
    next => cases hstep
  | compose i rv =>
    obtain ⟨o, ho, hstep⟩ := Option.bind_eq_some_iff.mp hnext
    split at hstep
    next adv hp =>
      cases hstep
      exact h.compose ho hp
    next => cases hstep
  | start i =>
    obtain ⟨o, ho, hstep⟩ := Option.bind_eq_some_iff.mp hnext
    split at hstep
    next l adv hp => exact h.start ho hp (Option.some.inj hstep)
    next => cases hstep
  | bind i rv =>
    obtain ⟨o, ho, hstep⟩ := Option.bind_eq_some_iff.mp hnext
    split at hstep
    next adv hp =>
      cases hstep
      exact h.bind ho hp hcare
    next => cases hstep
  | await i =>
    obtain ⟨o, ho, hstep⟩ := Option.bind_eq_some_iff.mp hnext
    split at hstep
    next hp =>
      cases hstep
      exact h.await ho hp
    next => cases hstep
  | wake i =>
    obtain ⟨o, ho, hstep⟩ := Option.bind_eq_some_iff.mp hnext
    split at hstep
    next =>
      cases hstep
      exact h.wake ho (hcare o ho)
    next => cases hstep
  | timeout i =>
    obtain ⟨o, ho, hstep⟩ := Option.bind_eq_some_iff.mp hnext
    split at hstep
    next hp =>
      cases hstep
      exact h.timeout ho hp hcare
    next => cases hstep
  | receive msg =>
    dsimp only at hnext
    split at hnext
    next =>
      cases hnext
      exact h.handler _
    next => cases hnext
  | handle rv woken =>
    dsimp only at hnext
    split at hnext
    next msg hmsg =>
      exact h.handle hcare.1 (fun hstate => hcare.2 hstate msg hmsg) hnext
    next => cases hnext
  | pass =>
    dsimp only at hnext
    split at hnext
    next =>
      split at hnext
      next =>
        cases hnext
        exact h.handler _
      next => cases hnext
    next => cases hnext
  | close woken =>
    obtain ⟨u, hu, hok⟩ := Option.map_eq_some_iff.mp hnext
    cases hok
    exact h.close hcare hu
  | request i rv =>
    dsimp only at hnext
    split at hnext
    next hc =>
      have haddr := (h.shape.of_closer hc).2 rfl
      have hrv : rv = .success := hcare
      simp only [State.request, haddr, hrv, ↓reduceIte, Option.some.injEq, Except.ok.injEq] at hnext
      obtain rfl := hnext
      exact h.closer hc (by decide)
    next => cases hnext
  | check i =>
    dsimp only at hnext
    split at hnext
    next hc =>
      cases hnext
      unfold State.check
      rw [if_pos (.inl (h.shape.of_closer hc).1)]
      exact h.closer hc (by decide)
    next => cases hnext
  | finish i =>
    dsimp only at hnext
    split at hnext
    next hc =>
      cases hnext
      exact (h.finish hc).1
    next => cases hnext
  | send =>
    cases hnext
    exact h.send
  | dispatch rv =>
    dsimp only at hnext
    split at hnext
    next =>
      have haddr : s.pipe.epAddr.isSome := hcare
      simp only [State.dispatch, haddr, ↓reduceIte, Option.some.injEq, Except.ok.injEq] at hnext
      obtain rfl := hnext
      exact ⟨h.shape, Inv.append h.returned (lawful_other (.inr rfl) _ _)⟩
    next => cases hnext

end Steps

/-- No careful step fails. -/
theorem Inv.faultless {s : State} {a : Action} {f : Fault} (h : Inv s) (hcare : Careful s a) :
    step s a ≠ some (.error f) := by
  intro hstep
  unfold step at hstep
  cases a with
  | resolve i rv adv =>
    obtain ⟨o, ho, hstep⟩ := Option.bind_eq_some_iff.mp hstep
    split at hstep
    next l hp =>
      obtain ⟨hopening, -⟩ := h.shape.of_opening ho (by rw [hp]; rfl)
      have hlistener : s.pipe.listener = none := by
        generalize s.pipe = pipe at hopening
        cases hopening <;> first | rfl | cases hp
      unfold State.resolve at hstep
      rw [hlistener] at hstep
      split at hstep <;> simp at hstep
    next => simp at hstep
  | start i =>
    obtain ⟨o, ho, hstep⟩ := Option.bind_eq_some_iff.mp hstep
    split at hstep
    next l adv hp =>
      obtain ⟨hopening, -⟩ := h.shape.of_opening ho (by rw [hp]; rfl)
      have hlistener : s.pipe.listener = none := by
        generalize s.pipe = pipe at hopening
        cases hopening <;> first | rfl | cases hp
      simp [State.start, hlistener] at hstep
    next => simp at hstep
  | handle rv woken =>
    dsimp only at hstep
    split at hstep
    next msg hmsg => exact h.handle_faultless hcare.1 hstep
    next => simp at hstep
  | pass =>
    dsimp only at hstep
    rw [if_pos (show s.pipe.listener.isSome = true from hcare)] at hstep
    split at hstep <;> simp at hstep
  | request i rv =>
    dsimp only at hstep
    split at hstep
    next hc =>
      have haddr := (h.shape.of_closer hc).2 rfl
      unfold State.request at hstep
      rw [if_pos haddr] at hstep
      split at hstep <;> simp at hstep
    next => simp at hstep
  | dispatch rv =>
    dsimp only at hstep
    unfold State.dispatch at hstep
    rw [if_pos (show s.pipe.epAddr.isSome = true from hcare)] at hstep
    split at hstep <;> simp at hstep
  | connect l => simp at hstep
  | accept adv l => simp at hstep
  | receive msg =>
    dsimp only at hstep
    split at hstep <;> simp at hstep
  | close woken => simp at hstep
  | check i =>
    dsimp only at hstep
    split at hstep <;> simp at hstep
  | finish i =>
    dsimp only at hstep
    split at hstep <;> simp at hstep
  | send => simp at hstep
  | compose i rv | bind i rv | await i | wake i | timeout i =>
    obtain ⟨o, ho, hstep⟩ := Option.bind_eq_some_iff.mp hstep
    split at hstep <;> simp at hstep

/-! ## the way back -/

section Closable
variable {l ip adv senders : Nat} {openers : List Opener} {handler : Option Handler}
  {returned : List Return}

theorem Closable.head {s t : State} {a : Action} (hcare : Careful s a) (hnext : Next s a t)
    (h : Closable t) : Closable s := by
  obtain ⟨u, b, v, hreaches, hlast⟩ := h
  exact ⟨u, b, v, hreaches.head hcare hnext, hlast⟩

theorem closable_closed {started : Bool} {closers : List Closer} :
    Closable ⟨.closed, started, openers, closers, senders, handler, returned⟩ :=
  ⟨_, .close none, _, .refl, fun h => by simp [Pipe.closed] at h, rfl, rfl, rfl⟩

theorem closable_closing {addr : Option EndpointAddress} {c : Closer}
    (hc : c = .requesting → addr.isSome) :
    Closable ⟨⟨.closing, some l, some ip, some adv, addr⟩, true, openers, [c], senders, handler,
      returned⟩ := by
  have hchecked : Closable ⟨⟨.closing, some l, some ip, some adv, addr⟩, true, openers, [.checked],
      senders, handler, returned⟩ := ⟨_, .finish 0, _, .refl, trivial, rfl, rfl, rfl⟩
  have hclosing : Closable ⟨⟨.closing, some l, some ip, some adv, addr⟩, true, openers, [.closing],
      senders, handler, returned⟩ := hchecked.head (a := .check 0) trivial rfl
  cases c with
  | requesting =>
    obtain ⟨addr, rfl⟩ := Option.isSome_iff_exists.mp (hc rfl)
    exact hclosing.head (a := .request 0 .success) rfl rfl
  | closing => exact hclosing
  | checked => exact hchecked

theorem closable_connected {addr : EndpointAddress} :
    Closable ⟨⟨.connected, some l, some ip, some adv, some addr⟩, true, openers, [], senders, handler,
      returned⟩ := by
  have hclosing : Closable ⟨⟨.closing, some l, some ip, some adv, some addr⟩, true, openers,
      [.requesting], senders, handler, returned⟩ := closable_closing fun _ => rfl
  exact hclosing.head (a := .close none) (fun h => by simp at h) rfl

/-- Some thread can be reached by a signal, or none waits for one. -/
theorem exists_signal (s : State) : ∃ woken, ∃ openers, s.signal woken = some { s with openers } := by
  by_cases hany : s.openers.any (·.point = .waiting false) = true
  · obtain ⟨o, ho, hp⟩ := any_eq_true.mp hany
    obtain ⟨i, hi⟩ := mem_iff_getElem?.mp ho
    refine ⟨some i, s.openers.set i { o with point := .waiting true }, ?_⟩
    simp [State.signal, hi, of_decide_eq_true hp, State.setOpener]
  · exact ⟨none, s.openers, by simp [State.signal, hany]⟩

theorem closable_accepting :
    Closable ⟨⟨.accepting, some l, some ip, some adv, none⟩, true, openers, [], senders, handler,
      returned⟩ := by
  obtain ⟨woken, openers', hsignal⟩ := exists_signal ⟨⟨.closing, some l, some ip, some adv, none⟩,
    true, openers, [.closing], senders, handler, returned⟩
  have hclosing : Closable ⟨⟨.closing, some l, some ip, some adv, none⟩, true, openers', [.closing],
      senders, handler, returned⟩ := closable_closing (by simp)
  exact hclosing.head (a := .close woken) (fun _ => rfl) (congrArg (Option.map Except.ok) hsignal)

/-- A message that is a response. -/
def response : Message := ⟨none, some none, some (.ofBuffer []), false⟩

/-- A connect that waits for its response: what the worker has in its hands is out of the way first. -/
theorem closable_waiting {confirmed : Bool} :
    Closable ⟨⟨.connecting, some l, some ip, some adv, none⟩, true,
      [⟨.connect, .waiting false, confirmed⟩], [], senders, handler, returned⟩ := by
  have hhandling : ∀ msg, Closable ⟨⟨.connecting, some l, some ip, some adv, none⟩, true,
      [⟨.connect, .waiting false, confirmed⟩], [], senders, some (.handling msg), returned⟩ := by
    intro msg
    have hcare : Careful ⟨⟨.connecting, some l, some ip, some adv, none⟩, true,
        [⟨.connect, .waiting false, confirmed⟩], [], senders, some (.handling msg), returned⟩
        (.handle .success (some 0)) :=
      ⟨fun _ => rfl, fun _ _ _ _ => ⟨_, mem_singleton_self _, rfl⟩⟩
    cases hmsg : msg.responseAddress with
    | none =>
      refine Closable.head hcare (t := ⟨.closed, false, [⟨.connect, .waiting false, confirmed⟩], [],
        senders, none, returned⟩) ?_ closable_closed
      unfold Next step State.handle
      simp only [hmsg]
      rfl
    | some addr =>
      refine Closable.head hcare (t := ⟨⟨.connected, some l, some ip, some adv, some addr⟩, true,
        [⟨.connect, .waiting true, true⟩], [], senders, none, returned⟩) ?_ closable_connected
      unfold Next step State.handle
      simp only [hmsg]
      rfl
  have hnone : Closable ⟨⟨.connecting, some l, some ip, some adv, none⟩, true,
      [⟨.connect, .waiting false, confirmed⟩], [], senders, none, returned⟩ :=
    (hhandling response).head (a := .receive response) trivial rfl
  cases handler with
  | none => exact hnone
  | some handler =>
    cases handler with
    | handling msg => exact hhandling msg
    | passing => exact hnone.head (a := .pass) rfl rfl

theorem closable_connecting {confirmed : Bool} :
    Closable ⟨⟨.connecting, some l, some ip, some adv, none⟩, true,
      [⟨.connect, .bound, confirmed⟩], [], senders, handler, returned⟩ :=
  closable_waiting.head (a := .await 0) trivial rfl

/-- Calls that have no input pipe yet get one. -/
theorem closable_opening {pipe : Pipe} {o : Opener} (h : Opening pipe o) :
    Closable ⟨pipe, false, [o], [], senders, handler, returned⟩ := by
  have hbinding : ∀ l adv, Closable ⟨⟨.connecting, some l, none, some adv, none⟩, false,
      [⟨.connect, .binding adv, false⟩], [], senders, handler, returned⟩ := fun l adv =>
    closable_connecting.head (a := .bind 0 .success) rfl rfl
  have hcomposing : ∀ l adv, Closable ⟨⟨.connecting, some l, none, none, none⟩, false,
      [⟨.connect, .composing adv, false⟩], [], senders, handler, returned⟩ := fun l adv =>
    (hbinding l adv).head (a := .compose 0 .success) trivial rfl
  have haccept : ∀ l adv, Closable ⟨⟨.accepting, some l, none, some adv, none⟩, false,
      [⟨.accept, .binding adv, false⟩], [], senders, handler, returned⟩ := fun l adv =>
    closable_accepting.head (a := .bind 0 .success) rfl rfl
  cases h with
  | resolving l => exact (hcomposing l 0).head (a := .resolve 0 .success 0) trivial rfl
  | composing l adv => exact hcomposing l adv
  | starting l adv => exact (haccept l adv).head (a := .start 0) trivial rfl
  | bindingConnect l adv => exact hbinding l adv
  | bindingAccept l adv => exact haccept l adv

theorem Inv.closable {s : State} (h : Inv s) : Closable s := by
  obtain ⟨pipe, started, openers, closers, senders, handler, returned⟩ := s
  obtain ⟨hshape, -⟩ := h
  cases hshape with
  | closed => exact closable_closed
  | opening hopening => exact closable_opening hopening
  | accepting => exact closable_accepting
  | connected => exact closable_connected
  | closing l ip adv addr o c hloose hc => exact closable_closing hc
  | @connecting l ip adv o hloose hcall hpoint =>
    obtain ⟨call, point, confirmed⟩ := o
    obtain rfl : call = .connect := hcall
    cases point with
    | bound => exact closable_connecting
    | waiting signalled =>
      cases signalled with
      | false => exact closable_waiting
      | true => exact absurd rfl hpoint
    | _ => exact absurd hloose.behind (by simp [Point.isBehind])

end Closable

/-- In every run of careful steps the law of the pipe holds, a call of close can bring the pipe back,
and nothing fails. -/
theorem pipe_lawful {s : State} (hreaches : Reaches Next Careful initial s) :
    s.Lawful ∧ Closable s ∧ ∀ a f, Careful s a → step s a ≠ some (.error f) := by
  have hinv : Inv s :=
    hreaches.invariant inv_initial fun h hcare hnext => h.next hcare hnext
  exact ⟨hinv.lawful, hinv.closable, fun a f hcare => hinv.faultless hcare⟩

/-! ## runs -/

instance (s : State) : Decidable (∀ msg, s.handler = some (.handling msg) →
    msg.responseAddress.isSome → ∃ o ∈ s.openers, o.point = .waiting false) :=
  match s.handler with
  | some (.handling msg) =>
    decidable_of_iff (msg.responseAddress.isSome → ∃ o ∈ s.openers, o.point = .waiting false)
      ⟨fun h _ heq => Handler.handling.inj (Option.some.inj heq) ▸ h, fun h => h msg rfl⟩
  | some .passing => isTrue (by simp)
  | none => isTrue (by simp)

instance (s : State) (a : Action) : Decidable (Careful s a) := by
  unfold Careful
  split <;> infer_instance

/-- A connect that is confirmed. -/
def confirmedConnect : List Action :=
  [.connect 1, .resolve 0 .success 2, .compose 0 .success, .bind 0 .success, .await 0,
    .receive response, .handle .success (some 0), .wake 0]

/-- The pipe of a connect, connected. -/
def connectedPipe : Pipe := ⟨.connected, some 1, some 2, some 2, response.responseAddress⟩

theorem pipe_lawful_confirmed :
    State.Lawful ⟨connectedPipe, true, [], [], 0, none,
        [⟨.connect, .success, false, true, connectedPipe⟩]⟩ ∧
      Closable ⟨connectedPipe, true, [], [], 0, none,
        [⟨.connect, .success, false, true, connectedPipe⟩]⟩ ∧
      ∀ a f, Careful ⟨connectedPipe, true, [], [], 0, none,
          [⟨.connect, .success, false, true, connectedPipe⟩]⟩ a →
        step ⟨connectedPipe, true, [], [], 0, none,
          [⟨.connect, .success, false, true, connectedPipe⟩]⟩ a ≠ some (.error f) := by
  refine pipe_lawful (reaches_of_foldlM
    (f := goOn step fun s a => decide (Careful s a)) (fun h => ?_)
    (l := confirmedConnect) (by decide +kernel))
  exact ⟨of_decide_eq_true (goOn_eq_some h).1, (goOn_eq_some h).2⟩

/-- The response is there before the wait begins. -/
def earlyResponse : List Action :=
  [.connect 1, .resolve 0 .success 2, .compose 0 .success, .bind 0 .success,
    .receive response, .handle .success none, .await 0, .timeout 0]

/-- A connected pipe is reported as a timeout. -/
theorem not_pipe_lawful : ¬ ∀ s, Reaches Next (fun _ _ => True) initial s → s.Lawful := by
  intro h
  have hrun : Reaches Next (fun _ _ => True) initial ⟨connectedPipe, true, [], [], 0, none,
      [⟨.connect, .timeout, false, true, connectedPipe⟩]⟩ :=
    reaches_of_foldlM (f := goOn step fun _ _ => true)
      (fun h => ⟨trivial, (goOn_eq_some h).2⟩) (l := earlyResponse) (by decide +kernel)
  have hlawful := (h _ hrun).returned _ (mem_singleton_self _)
  exact absurd (hlawful.timeout rfl rfl) (by decide)

end Bidipipe

end JxtaC
