import JxtaC.Lib.Transition
import JxtaC.Unipipe

/-
  The recipients of the input pipes in runs of careful calls. An input pipe has registered its user's
  listener, or nothing (`Inv`); what the calls do comes down to a registration (`Inv.register`), its
  removal (`Inv.unregister`) and steps that touch neither (`Inv.same`).
-/

namespace JxtaC

open Lib

namespace Unipipe

theorem addKey_inj {id id' : CString} (h : addKey id = addKey id') : id = id' :=
  Subtype.ext (List.append_cancel_left h)

/-- What is not there cannot be removed. -/
theorem lookup_erase_of_eq_none {α β : Type} [DecidableEq α] {a : α} {s : AList fun _ : α => β}
    (h : s.lookup a = none) (k : α) : (s.erase a).lookup k = s.lookup k := by
  by_cases hk : k = a
  · rw [hk, AList.lookup_erase, h]
  · exact AList.lookup_erase_ne hk

/-- The law of the recipients, the two tables together, and what an input pipe holds. -/
structure Inv (s : State) : Prop where
  recipient : ∀ id r, s.recipients.lookup (addKey id) = some r ↔ s.Registered r.owner r.listener id
  tables : ∀ id, (s.acceptSessions.lookup id).isSome = (s.recipients.lookup (addKey id)).isSome
  own : ∀ (p : Nat) (ip : InputPipe), s.inputPipes[p]? = some ip →
    ip.listener = none ∧ ip.registered = ip.userListener

theorem inv_initial : Inv initial := by
  have hnone : ∀ p l id, ¬ initial.Registered p l id := by
    rintro p l id ⟨ip, hip, -⟩
    simp [initial] at hip
  refine ⟨fun id r => ?_, fun id => rfl, fun p ip hip => ?_⟩
  · exact iff_of_false (by simp [initial]) (hnone _ _ _)
  · simp [initial] at hip

theorem Inv.lawful {s : State} (h : Inv s) : s.Lawful := by
  refine ⟨h.recipient, fun id => ?_⟩
  rw [h.tables, Option.isSome_iff_exists]
  simp only [h.recipient]
  constructor
  · rintro ⟨r, hreg⟩
    exact ⟨r.owner, r.listener, hreg⟩
  · rintro ⟨p, l, hreg⟩
    exact ⟨⟨l, p⟩, hreg⟩

section Steps
variable {s s' : State} {p : Nat} {ip ip' : InputPipe}
variable {l : Nat} {id : CString} {a : Action}

/-- Only input pipes that have not been freed are looked at. -/
theorem inputPipe?_eq (h : s.inputPipe? p = some ip) : s.inputPipes[p]? = some ip :=
  (Option.filter_eq_some_iff.mp h).1

theorem registered_iff (hip : s.inputPipes[p]? = some ip) :
    s.Registered p l id ↔ ip.registered = some l ∧ ip.id = id := by
  constructor
  · rintro ⟨x, hx, hreg⟩
    exact Option.some.inj (hip.symm.trans hx) ▸ hreg
  · exact fun hreg => ⟨ip, hip, hreg⟩

theorem registered_set (hip : s.inputPipes[p]? = some ip)
    (hpipes : s'.inputPipes = s.inputPipes.set p ip') {q : Nat} :
    s'.Registered q l id ↔
      (q = p ∧ ip'.registered = some l ∧ ip'.id = id) ∨ (q ≠ p ∧ s.Registered q l id) := by
  unfold State.Registered
  rw [hpipes]
  simp only [getElem?_set_iff hip]
  constructor
  · rintro ⟨x, ⟨rfl, rfl⟩ | ⟨hq, hx⟩, hreg⟩
    · exact .inl ⟨rfl, hreg⟩
    · exact .inr ⟨hq, x, hx, hreg⟩
  · rintro (⟨rfl, hreg⟩ | ⟨hq, x, hx, hreg⟩)
    · exact ⟨ip', .inl ⟨rfl, rfl⟩, hreg⟩
    · exact ⟨x, .inr ⟨hq, hx⟩, hreg⟩

/-- What the changed input pipe holds. -/
theorem own_set (h : Inv s) (hip : s.inputPipes[p]? = some ip)
    (hpipes : s'.inputPipes = s.inputPipes.set p ip')
    (hown : ip'.listener = none ∧ ip'.registered = ip'.userListener) (q : Nat) (x : InputPipe)
    (hx : s'.inputPipes[q]? = some x) : x.listener = none ∧ x.registered = x.userListener := by
  rw [hpipes, getElem?_set_iff hip] at hx
  rcases hx with ⟨-, rfl⟩ | ⟨-, hx⟩
  · exact hown
  · exact h.own q x hx

/-- Nobody has registered a listener for an id that has no recipient. -/
theorem Inv.not_registered (h : Inv s) (hnone : s.recipients.lookup (addKey id) = none)
    (q l : Nat) : ¬ s.Registered q l id := by
  intro hreg
  have hsome := (h.recipient id ⟨l, q⟩).mpr hreg
  rw [hnone] at hsome
  cases hsome

/-- An input pipe that has registered nothing, before and after, and tables that answer as before. -/
theorem Inv.same (h : Inv s) (hip : s.inputPipes[p]? = some ip)
    (hpipes : s'.inputPipes = s.inputPipes.set p ip') (hnone : ip.registered = none)
    (hnone' : ip'.registered = none) (hown : ip'.listener = none ∧ ip'.registered = ip'.userListener)
    (hrecipients : ∀ key, s'.recipients.lookup key = s.recipients.lookup key)
    (hsessions : ∀ id, s'.acceptSessions.lookup id = s.acceptSessions.lookup id) : Inv s' := by
  have hreg : ∀ q l id, s'.Registered q l id ↔ s.Registered q l id := by
    intro q l id
    rw [registered_set hip hpipes, hnone']
    by_cases hq : q = p
    · subst hq
      rw [registered_iff hip, hnone]
      simp
    · simp [hq]
  refine ⟨fun id r => ?_, fun id => ?_, own_set h hip hpipes hown⟩
  · rw [hrecipients, hreg]
    exact h.recipient id r
  · rw [hsessions, hrecipients]
    exact h.tables id

/-- A listener is registered. -/
theorem Inv.register (h : Inv s) (hip : s.inputPipes[p]? = some ip)
    (hpipes : s'.inputPipes = s.inputPipes.set p ip')
    (hfree : s.recipients.lookup (addKey ip.id) = none) (hreg' : ip'.registered = some l)
    (hid : ip'.id = ip.id) (hown : ip'.listener = none ∧ ip'.registered = ip'.userListener)
    (hrecipients : s'.recipients = s.recipients.insert (addKey ip.id) ⟨l, p⟩)
    (hsessions : s'.acceptSessions = s.acceptSessions.insert ip.id l) : Inv s' := by
  have hnone := h.not_registered hfree
  refine ⟨fun id r => ?_, fun id => ?_, own_set h hip hpipes hown⟩
  · rw [registered_set hip hpipes, hreg', hid, hrecipients]
    by_cases hkey : id = ip.id
    · subst hkey
      rw [AList.lookup_insert]
      obtain ⟨listener, owner⟩ := r
      simp only [hnone, and_false, or_false, and_true, Option.some.injEq, Recipient.mk.injEq]
      rw [eq_comm (a := owner), and_comm]
    · rw [AList.lookup_insert_ne fun heq => hkey (addKey_inj heq), h.recipient]
      simp only [Ne.symm hkey, and_false, false_or]
      refine ⟨fun hreg => ⟨?_, hreg⟩, fun hreg => hreg.2⟩
      intro howner
      rw [howner, registered_iff hip] at hreg
      exact hkey hreg.2.symm
  · rw [hsessions, hrecipients]
    by_cases hkey : id = ip.id
    · subst hkey
      rw [AList.lookup_insert, AList.lookup_insert]
      rfl
    · rw [AList.lookup_insert_ne hkey, AList.lookup_insert_ne fun heq => hkey (addKey_inj heq)]
      exact h.tables id

/-- A registration is removed. -/
theorem Inv.unregister (h : Inv s) (hip : s.inputPipes[p]? = some ip)
    (hpipes : s'.inputPipes = s.inputPipes.set p ip') (hreg : ip.registered = some l)
    (hreg' : ip'.registered = none) (hown : ip'.listener = none ∧ ip'.registered = ip'.userListener)
    (hrecipients : ∀ key, s'.recipients.lookup key = (s.recipients.erase (addKey ip.id)).lookup key)
    (hsessions : s'.acceptSessions = s.acceptSessions.erase ip.id) : Inv s' := by
  have hfirst : s.recipients.lookup (addKey ip.id) = some ⟨l, p⟩ :=
    (h.recipient _ ⟨l, p⟩).mpr ((registered_iff hip).mpr ⟨hreg, rfl⟩)
  refine ⟨fun id r => ?_, fun id => ?_, own_set h hip hpipes hown⟩
  · rw [registered_set hip hpipes, hreg', hrecipients]
    by_cases hkey : id = ip.id
    · subst hkey
      rw [AList.lookup_erase, ← h.recipient, hfirst]
      simp only [reduceCtorEq, false_and, and_false, false_or, Option.some.injEq, false_iff, not_and]
      rintro howner rfl
      exact howner rfl
    · rw [AList.lookup_erase_ne fun heq => hkey (addKey_inj heq), h.recipient]
      simp only [reduceCtorEq, false_and, and_false, false_or]
      refine ⟨fun hreg' => ⟨?_, hreg'⟩, fun hreg' => hreg'.2⟩
      intro howner
      rw [howner, registered_iff hip] at hreg'
      exact hkey hreg'.2.symm
  · rw [hsessions, hrecipients]
    by_cases hkey : id = ip.id
    · subst hkey
      rw [AList.lookup_erase, AList.lookup_erase]
      rfl
    · rw [AList.lookup_erase_ne hkey, AList.lookup_erase_ne fun heq => hkey (addKey_inj heq)]
      exact h.tables id

/-! ## the calls -/

/-- The endpoint service refuses, or has the recipient. -/
theorem endpointAdd_cases (s : State) (id : CString) (r : Recipient) (rv : Status) :
    (∃ res, res ≠ .success ∧ s.endpointAdd id r rv = (s, res)) ∨
      (rv = .success ∧ s.recipients.lookup (addKey id) = none ∧ s.endpointAdd id r rv =
        ({ s with recipients := s.recipients.insert (addKey id) r }, .success)) := by
  unfold State.endpointAdd
  split
  next hrv => exact .inl ⟨rv, hrv, rfl⟩
  next hrv =>
    split
    next => exact .inl ⟨.busy, by decide, rfl⟩
    next hnone => exact .inr ⟨not_not.mp hrv, by simpa using hnone, rfl⟩

theorem keeps_refl (a : Action) (s : State) : Keeps a s s := fun _ _ _ => Iff.rfl

/-- A key changes that had no recipient, or has none any more, and is the input pipe's own. -/
theorem keeps_of_key (hp : a.inputPipe = some p) {k : List Byte}
    (hold : ∀ r, s.recipients.lookup k = some r → r.owner = p)
    (hnew : ∀ r, s'.recipients.lookup k = some r → r.owner = p)
    (hother : ∀ key, key ≠ k → s'.recipients.lookup key = s.recipients.lookup key) :
    Keeps a s s' := by
  intro key r hr
  rw [hp] at hr
  by_cases hk : key = k
  · subst hk
    exact iff_of_false (fun h => hr (congrArg some (hnew r h)).symm)
      (fun h => hr (congrArg some (hold r h)).symm)
  · rw [hother key hk]

theorem Inv.timedReceive {listener : Option Nat} {rv answer : Status} (h : Inv s)
    (hip : s.inputPipes[p]? = some ip) (hcare : ip.userListener = none → ip.listener = none →
      listener.isSome → rv = .success → (s.recipients.lookup (addKey ip.id)).isSome) :
    (s.timedReceive p ip listener rv answer).1 = s := by
  unfold State.timedReceive
  split
  next => rfl
  next huser =>
    rw [(h.own p ip hip).1]
    cases listener with
    | none => rfl
    | some l =>
      rcases endpointAdd_cases s ip.id ⟨l, p⟩ rv with ⟨res, hres, heq⟩ | ⟨hrv, hnone, -⟩
      · simp only [heq]
        cases res <;> simp at hres ⊢
      · have hsome := hcare (by simpa using huser) (h.own p ip hip).1 rfl hrv
        rw [hnone] at hsome
        cases hsome

theorem Inv.addListener {rv : Status} (h : Inv s) (hip : s.inputPipes[p]? = some ip)
    (hp : a.inputPipe = some p) :
    Inv (s.addListener p ip l rv).1 ∧ Keeps a s (s.addListener p ip l rv).1 := by
  unfold State.addListener
  split
  next => exact ⟨h, keeps_refl a s⟩
  next huser =>
    split
    next => exact ⟨h, keeps_refl a s⟩
    next =>
      rcases endpointAdd_cases s ip.id ⟨l, p⟩ rv with ⟨res, hres, heq⟩ | ⟨-, hnone, heq⟩
      · simp only [heq]
        cases res with
        | success => exact absurd rfl hres
        | _ => exact ⟨h, keeps_refl a s⟩
      · simp only [heq]
        refine ⟨h.register hip rfl hnone rfl rfl ⟨(h.own p ip hip).1, rfl⟩ rfl rfl,
          keeps_of_key hp (fun r hr => ?_) (fun r hr => ?_) fun k hk => AList.lookup_insert_ne hk⟩
        · rw [hnone] at hr
          cases hr
        · have hr : (s.recipients.insert (addKey ip.id) ⟨l, p⟩).lookup (addKey ip.id) = some r := hr
          rw [AList.lookup_insert] at hr
          exact (Option.some.inj hr) ▸ rfl

/-- The key that is removed is the one that was added. -/
theorem removeKey_eq (hfits : (addKey id).length ≤ 255) : removeKey id = addKey id :=
  List.take_of_length_le hfits

/-- A registration is removed, and the other recipients stay. -/
theorem keeps_unregister (h : Inv s) (hip : s.inputPipes[p]? = some ip)
    (hp : a.inputPipe = some p) (hreg : ip.registered = some l)
    (hrecipients : ∀ key, s'.recipients.lookup key = (s.recipients.erase (addKey ip.id)).lookup key) :
    Keeps a s s' := by
  refine keeps_of_key (k := addKey ip.id) hp (fun r hr => ?_) (fun r hr => ?_) fun k hk => ?_
  · have hfirst : s.recipients.lookup (addKey ip.id) = some ⟨l, p⟩ :=
      (h.recipient _ ⟨l, p⟩).mpr ((registered_iff hip).mpr ⟨hreg, rfl⟩)
    exact Option.some.inj (hfirst.symm.trans hr) ▸ rfl
  · rw [hrecipients, AList.lookup_erase] at hr
    cases hr
  · rw [hrecipients, AList.lookup_erase_ne hk]

theorem Inv.removeListener {listener : Option Nat} (h : Inv s) (hip : s.inputPipes[p]? = some ip)
    (hp : a.inputPipe = some p)
    (hcare : ip.userListener = listener → if listener.isSome then (addKey ip.id).length ≤ 255
      else s.recipients.lookup (removeKey ip.id) = none ∧ s.acceptSessions.lookup ip.id = none) :
    Inv (s.removeListener p ip listener).1 ∧ Keeps a s (s.removeListener p ip listener).1 := by
  obtain ⟨hlistener, hreg⟩ := h.own p ip hip
  unfold State.removeListener
  split
  next => exact ⟨h, keeps_refl a s⟩
  next huser =>
    obtain rfl := not_not.mp huser
    have hcare := hcare rfl
    cases hsome : ip.userListener with
    | some l =>
      rw [hsome] at hcare hreg
      have hrecipients : ∀ key, (s.endpointRemove ip.id).recipients.lookup key =
          (s.recipients.erase (addKey ip.id)).lookup key := by
        intro key
        unfold State.endpointRemove
        rw [removeKey_eq hcare]
      exact ⟨h.unregister hip rfl hreg rfl ⟨hlistener, rfl⟩ hrecipients rfl,
        keeps_unregister h hip hp hreg hrecipients⟩
    | none =>
      rw [hsome] at hcare hreg
      have hlookup := lookup_erase_of_eq_none hcare.1
      refine ⟨h.same hip rfl hreg rfl ⟨hlistener, rfl⟩ hlookup
        (lookup_erase_of_eq_none hcare.2), fun key r _ => ?_⟩
      exact (hlookup key).symm ▸ Iff.rfl

theorem Inv.free (h : Inv s) (hip : s.inputPipes[p]? = some ip) (hp : a.inputPipe = some p)
    (hcare : if ip.userListener.isSome then (addKey ip.id).length ≤ 255
      else s.recipients.lookup (removeKey ip.id) = none) :
    Inv (s.free p ip) ∧ Keeps a s (s.free p ip) := by
  obtain ⟨hlistener, hreg⟩ := h.own p ip hip
  cases hsome : ip.userListener with
  | some l =>
    rw [hsome] at hcare hreg
    have hrecipients : ∀ key, (s.free p ip).recipients.lookup key =
        (s.recipients.erase (addKey ip.id)).lookup key := by
      intro key
      simp only [State.free, hsome, Option.isSome_some, ↓reduceIte, State.removeListener, ne_eq,
        not_true_eq_false, State.setInputPipe, State.endpointRemove, removeKey_eq hcare]
      refine lookup_erase_of_eq_none ?_ key
      exact AList.lookup_erase _ _
    have hpipes : (s.free p ip).inputPipes = s.inputPipes.set p ⟨ip.id, none, none, true, none⟩ := by
      simp [State.free, hsome, State.removeListener, State.setInputPipe, State.endpointRemove]
    refine ⟨h.unregister hip hpipes hreg rfl ⟨rfl, rfl⟩ hrecipients ?_,
      keeps_unregister h hip hp hreg hrecipients⟩
    simp [State.free, hsome, State.removeListener, State.setInputPipe, State.endpointRemove]
  | none =>
    rw [hsome] at hcare hreg
    have hlookup : ∀ key, (s.free p ip).recipients.lookup key = s.recipients.lookup key := by
      intro key
      simp only [State.free, hsome, Option.isSome_none, Bool.false_eq_true, ↓reduceIte,
        State.setInputPipe, State.endpointRemove]
      exact lookup_erase_of_eq_none hcare key
    have hpipes : (s.free p ip).inputPipes = s.inputPipes.set p ⟨ip.id, none, none, true, none⟩ := by
      simp [State.free, hsome, State.setInputPipe, State.endpointRemove]
    refine ⟨h.same hip hpipes hreg rfl ⟨rfl, rfl⟩ hlookup ?_,
      fun key r _ => (hlookup key).symm ▸ Iff.rfl⟩
    simp [State.free, hsome, State.setInputPipe, State.endpointRemove]

theorem Inv.getInputpipe (h : Inv s) (id : CString) :
    Inv { s with inputPipes := s.inputPipes ++ [⟨id, none, none, false, none⟩] } := by
  have hget : ∀ {q : Nat} {x : InputPipe},
      (s.inputPipes ++ [⟨id, none, none, false, none⟩])[q]? = some x →
        s.inputPipes[q]? = some x ∨ x = ⟨id, none, none, false, none⟩ := by
    intro q x hx
    rw [List.getElem?_append, List.getElem?_singleton] at hx
    split at hx
    next => exact .inl hx
    next =>
      split at hx
      next => exact .inr (Option.some.inj hx).symm
      next => cases hx
  have hreg : ∀ q l id', State.Registered
      { s with inputPipes := s.inputPipes ++ [⟨id, none, none, false, none⟩] } q l id' ↔
        s.Registered q l id' := by
    intro q l id'
    constructor
    · rintro ⟨x, hx, hreg⟩
      rcases hget hx with hx | rfl
      · exact ⟨x, hx, hreg⟩
      · exact absurd hreg.1 (by simp)
    · rintro ⟨x, hx, hreg⟩
      exact ⟨x, (List.getElem?_append_left (List.getElem?_eq_some_iff.mp hx).1).trans hx, hreg⟩
  refine ⟨fun id' r => ?_, h.tables, fun q x hx => ?_⟩
  · rw [hreg]
    exact h.recipient id' r
  · rcases hget hx with hx | rfl
    · exact h.own q x hx
    · exact ⟨rfl, rfl⟩

/-- A careful call keeps the registrations, and those of the other input pipes. -/
theorem Inv.next (h : Inv s) (hcare : Careful s a) (hnext : Next s a s') :
    Inv s' ∧ Keeps a s s' := by
  obtain ⟨rv, hstep⟩ := hnext
  unfold step at hstep
  cases a with
  | accept id =>
    unfold State.accept at hstep
    dsimp only at hstep
    split at hstep
    next =>
      cases hstep
      exact ⟨h, keeps_refl _ _⟩
    next =>
      cases hstep
      exact ⟨⟨h.recipient, h.tables, h.own⟩, fun _ _ _ => Iff.rfl⟩
  | connect id =>
    cases hstep
    exact ⟨⟨h.recipient, h.tables, h.own⟩, fun _ _ _ => Iff.rfl⟩
  | getInputpipe pipe =>
    obtain ⟨id, -, hstep⟩ := Option.map_eq_some_iff.mp hstep
    cases hstep
    exact ⟨h.getInputpipe id, fun _ _ _ => Iff.rfl⟩
  | timedReceive p listener rv' answer =>
    obtain ⟨ip, hip, hstep⟩ := Option.map_eq_some_iff.mp hstep
    obtain rfl := h.timedReceive (inputPipe?_eq hip) (hcare ip hip) ▸ congrArg Prod.fst hstep
    exact ⟨h, keeps_refl _ _⟩
  | addListener p l rv' =>
    obtain ⟨ip, hip, hstep⟩ := Option.map_eq_some_iff.mp hstep
    obtain rfl : (s.addListener p ip l rv').1 = s' := congrArg Prod.fst hstep
    exact h.addListener (inputPipe?_eq hip) rfl
  | removeListener p listener =>
    obtain ⟨ip, hip, hstep⟩ := Option.map_eq_some_iff.mp hstep
    obtain rfl : (s.removeListener p ip listener).1 = s' := congrArg Prod.fst hstep
    exact h.removeListener (inputPipe?_eq hip) rfl (hcare ip hip)
  | release p =>
    obtain ⟨ip, hip, hstep⟩ := Option.map_eq_some_iff.mp hstep
    cases hstep
    exact h.free (inputPipe?_eq hip) rfl (hcare ip hip)

/-- In every run of careful calls the law of the registrations holds, and a call leaves the recipients
of the other input pipes. -/
theorem recipients_lawful (hreaches : Reaches Next Careful initial s) :
    s.Lawful ∧ ∀ a s', Careful s a → Next s a s' → Keeps a s s' := by
  have hinv : Inv s :=
    hreaches.invariant inv_initial fun h hcare hnext => (h.next hcare hnext).1
  exact ⟨hinv.lawful, fun a s' hcare hnext => (hinv.next hcare hnext).2⟩

end Steps

/-! ## runs -/

instance (s : State) (a : Action) : Decidable (Careful s a) := by
  unfold Careful
  split <;> infer_instance

/-- The state behind a call, under a condition. -/
def call (ok : State → Action → Bool) (s : State) (a : Action) : Option State :=
  if ok s a then (step s a).map Prod.fst else none

theorem call_eq_some {ok : State → Action → Bool} {s s' : State} {a : Action}
    (h : call ok s a = some s') : ok s a = true ∧ Next s a s' := by
  unfold call at h
  split at h
  next hok =>
    obtain ⟨⟨t, rv⟩, hstep, rfl⟩ := Option.map_eq_some_iff.mp h
    exact ⟨hok, rv, hstep⟩
  next => cases h

/-- The id of a pipe. -/
def pipeId : CString := .ofBuffer (text "urn:jxta:pipe")

/-- Two input pipes of one id, of which the first has registered a listener. -/
def twoInputPipes : State :=
  ⟨[pipeId], [⟨pipeId, none, some 1, false, some 1⟩, ⟨pipeId, none, none, false, none⟩],
    AList.insert pipeId 1 ∅, AList.insert (addKey pipeId) ⟨1, 0⟩ ∅⟩

/-- The second is refused. -/
def addTwice : List Action :=
  [.accept pipeId, .getInputpipe 0, .getInputpipe 0, .addListener 0 1 .success,
    .addListener 1 2 .success]

theorem recipients_lawful_two : twoInputPipes.Lawful ∧
    ∀ a s', Careful twoInputPipes a → Next twoInputPipes a s' → Keeps a twoInputPipes s' := by
  refine recipients_lawful (reaches_of_foldlM (f := call fun s a => decide (Careful s a)) (fun h => ?_)
    (l := addTwice) rfl)
  exact ⟨of_decide_eq_true (call_eq_some h).1, (call_eq_some h).2⟩

/-- The second input pipe is released, and the recipient of the first is gone. -/
theorem not_recipients_lawful : ¬ ∀ s, Reaches Next (fun _ _ => True) initial s → s.Lawful := by
  intro h
  have hrun : Reaches Next (fun _ _ => True) initial
      ⟨[pipeId], [⟨pipeId, none, some 1, false, some 1⟩, ⟨pipeId, none, none, true, none⟩],
        AList.insert pipeId 1 ∅, ∅⟩ :=
    reaches_of_foldlM (f := call fun _ _ => true) (fun h => ⟨trivial, (call_eq_some h).2⟩)
      (l := addTwice ++ [.release 1]) rfl
  have hrecipient := ((h _ hrun).recipient pipeId ⟨1, 0⟩).mpr ⟨_, rfl, rfl, rfl⟩
  cases hrecipient

end Unipipe

end JxtaC
