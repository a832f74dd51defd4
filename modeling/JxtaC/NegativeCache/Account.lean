import JxtaC.NegativeCache.Pending

/-
  What becomes of a message that could not be sent. `Accounts`: between two states of an entry, a
  message whose last send found the peer unreachable is in the queue, or was evicted by newer ones,
  or the entry was at its maximum timeout and had no queue (any more). Stretches of events compose
  (`Accounts.append`); every operation of the workers is one (`perform_accounts`).
-/

namespace JxtaC.NegativeCache

open List

section Events
variable {Msg : Type}

/-- The message was dropped with the queue of an entry, or there was no queue for it. -/
def Shed (events : List (Event Msg)) (msg : Msg) (timeout : Int) : Prop :=
  .dropped msg timeout ∈ events ∨ .refused msg timeout ∈ events

/-- The message did not stay in the queue, and was not sent. -/
def Discarded (events : List (Event Msg)) (msg : Msg) : Prop :=
  .evicted msg ∈ events ∨ ∃ timeout, Shed events msg timeout

theorem Discarded.mono {l m : List (Event Msg)} {msg : Msg} (h : Discarded l msg) (hsub : l ⊆ m) :
    Discarded m msg := by
  apply h.imp (fun hout => hsub hout)
  intro hshed
  obtain ⟨timeout, hshed⟩ := hshed
  exact ⟨timeout, hshed.imp (fun hout => hsub hout) (fun hout => hsub hout)⟩

/-- The message itself is in the queue then, or was discarded at once. -/
theorem Pending.push_new (capacity : Nat) (p : Pending Msg) (msg : Msg) :
    msg ∈ held (some (p.push capacity msg).1) ∨ Discarded (p.push capacity msg).2 msg := by
  unfold push
  split
  · exact .inr (.inr ⟨p.timeout, .inr (mem_singleton_self _)⟩)
  · rename_i queue hqueue
    have hmem : msg ∈ (queue ++ [msg]).rdrop capacity ++ (queue ++ [msg]).rtake capacity := by
      unfold List.rdrop List.rtake
      rw [take_append_drop]
      exact mem_append_right _ (mem_singleton_self msg)
    rcases mem_append.mp hmem with hmem | hmem
    · exact .inr (.inl (mem_append_left _ (mem_map_of_mem hmem)))
    · exact .inl hmem

end Events

variable {Msg : Type} [DecidableEq Msg]

/-- What the event's attempt to send the message returned, if it is one. -/
def Event.attempt (msg : Msg) : Event Msg → Option Status
  | .sent m => if m = msg then some .success else none
  | .failed m res | .offered m res => if m = msg then some res else none
  | _ => none

/-- What the last attempt to send the message returned. -/
def lastAttempt (events : List (Event Msg)) (msg : Msg) : Option Status :=
  (events.filterMap (Event.attempt msg)).getLast?

/-- From what was in the queue to what is in it. -/
structure Accounts (config : NcConfig) (Excused : Msg → Prop) (before : List Msg)
    (events : List (Event Msg)) (after : List Msg) : Prop where
  conserves : Conserves before events after
  kept : ∀ msg, lastAttempt events msg = some .unreachableDest ∨
      lastAttempt events msg = none ∧ msg ∈ before →
    msg ∈ after ∨ Discarded events msg ∨ Excused msg
  newer : ∀ msg, .evicted msg ∈ events → ∃ l r,
    before ++ entered events = l ++ msg :: r ∧ config.ncrqSize ≤ r.length
  atMaximum : ∀ msg timeout, Shed events msg timeout → config.ncTimeoutMax ≤ timeout

variable {config : NcConfig} {X Y Z : Msg → Prop} {a b c queue : List Msg}
  {l m events : List (Event Msg)} {msg : Msg}

theorem lastAttempt_append (l m : List (Event Msg)) (msg : Msg) :
    lastAttempt (l ++ m) msg = (lastAttempt m msg).or (lastAttempt l msg) := by
  unfold lastAttempt
  rw [filterMap_append, getLast?_append]

theorem accounts_nil (config : NcConfig) (X : Msg → Prop) (a : List Msg) :
    Accounts config X a [] a := by
  refine ⟨conserves_nil a, ?_, ?_, ?_⟩
  · intro msg h
    rcases h with h | h
    · cases h
    · exact .inl h.2
  · intro msg h
    cases h
  · intro msg timeout h
    rcases h with h | h
    · cases h
    · cases h

section
variable (h : Accounts config X a l b)
include h

theorem Accounts.append (h' : Accounts config Y b m c)
    (hX : ∀ msg, X msg → msg ∈ c ∨ Discarded m msg ∨ Z msg) (hY : ∀ msg, Y msg → Z msg) :
    Accounts config Z a (l ++ m) c := by
  have hfirst := h.conserves
  refine ⟨h.conserves.append h'.conserves, ?_, ?_, ?_⟩
  · intro msg hlast
    rw [lastAttempt_append] at hlast
    have hsecond : lastAttempt m msg = some .unreachableDest ∨ lastAttempt m msg = none ∧ msg ∈ b →
        msg ∈ c ∨ Discarded (l ++ m) msg ∨ Z msg := by
      intro hm
      rcases h'.kept msg hm with hin | hout | hexcused
      · exact .inl hin
      · exact .inr (.inl (hout.mono (subset_append_right l m)))
      · exact .inr (.inr (hY msg hexcused))
    cases hm : lastAttempt m msg with
    | some res =>
      rw [hm] at hlast
      rcases hlast with hlast | hlast
      · exact hsecond (.inl (hm.trans hlast))
      · cases hlast.1
    | none =>
      rw [hm, Option.none_or] at hlast
      rcases h.kept msg hlast with hin | hout | hexcused
      · exact hsecond (.inr ⟨hm, hin⟩)
      · exact .inr (.inl (hout.mono (subset_append_left l m)))
      · rcases hX msg hexcused with hin | hout | hz
        · exact .inl hin
        · exact .inr (.inl (hout.mono (subset_append_right l m)))
        · exact .inr (.inr hz)
  · intro msg hmem
    unfold Conserves at hfirst
    rcases mem_append.mp hmem with hmem | hmem
    · obtain ⟨u, v, heq, hlen⟩ := h.newer msg hmem
      refine ⟨u, v ++ entered m, ?_, ?_⟩
      · rw [entered_append, ← append_assoc, heq, append_assoc, cons_append]
      · rw [length_append]
        omega
    · obtain ⟨u, v, heq, hlen⟩ := h'.newer msg hmem
      refine ⟨departed l ++ u, v, ?_, hlen⟩
      rw [entered_append, ← append_assoc, hfirst, append_assoc, heq, append_assoc]
  · intro msg timeout hshed
    unfold Shed at hshed
    rw [mem_append, mem_append] at hshed
    rcases hshed with (hl | hm) | (hl | hm)
    · exact h.atMaximum msg timeout (.inl hl)
    · exact h'.atMaximum msg timeout (.inl hm)
    · exact h.atMaximum msg timeout (.inr hl)
    · exact h'.atMaximum msg timeout (.inr hm)

theorem Accounts.mono (hX : ∀ msg, X msg → Y msg) : Accounts config Y a l b :=
  ⟨h.conserves, fun msg hlast => (h.kept msg hlast).imp_right fun hout => hout.imp_right (hX msg),
    h.newer, h.atMaximum⟩

/-- Where nothing is excused. -/
theorem Accounts.trans (h' : Accounts config (fun _ => False) b m c) :
    Accounts config X a (l ++ m) c :=
  h.append h' (fun _ hx => .inr (.inr hx)) (fun _ hfalse => hfalse.elim)

end

/-! ## the operations -/

theorem lastAttempt_single (event : Event Msg) (msg : Msg) :
    lastAttempt [event] msg = event.attempt msg := by
  unfold lastAttempt
  cases h : event.attempt msg with
  | none => rw [filterMap_cons_none h]; rfl
  | some res => rw [filterMap_cons_some h]; rfl

/-- An attempt to send a message, which leaves all others where they are. -/
theorem accounts_attempt {event : Event Msg} {res : Status}
    (hattempt : ∀ m, event.attempt m = if msg = m then some res else none)
    (hcons : Conserves a [event] b) (hothers : ∀ m ∈ a, m ≠ msg → m ∈ b)
    (hfailed : res = .unreachableDest → msg ∈ b ∨ X msg)
    (hevicted : ∀ m, event ≠ .evicted m) (hdropped : ∀ m t, event ≠ .dropped m t)
    (hrefused : ∀ m t, event ≠ .refused m t) : Accounts config X a [event] b := by
  refine ⟨hcons, ?_, ?_, ?_⟩
  · intro m hlast
    rw [lastAttempt_single, hattempt] at hlast
    by_cases hm : msg = m
    · subst hm
      rw [if_pos rfl] at hlast
      rcases hlast with hlast | hlast
      · exact (hfailed (Option.some.inj hlast)).imp_right .inr
      · cases hlast.1
    · rw [if_neg hm] at hlast
      rcases hlast with hlast | hlast
      · cases hlast
      · exact .inl (hothers m hlast.2 (Ne.symm hm))
  · intro m hmem
    exact absurd (mem_singleton.mp hmem).symm (hevicted m)
  · intro m timeout hshed
    rcases hshed with hmem | hmem
    · exact absurd (mem_singleton.mp hmem).symm (hdropped m timeout)
    · exact absurd (mem_singleton.mp hmem).symm (hrefused m timeout)

theorem accounts_sent (msg : Msg) (rest : List Msg) :
    Accounts config X (msg :: rest) [.sent msg] rest := by
  have hcons : Conserves (msg :: rest) [.sent msg] rest := append_nil _
  refine accounts_attempt (fun _ => rfl) hcons ?_ ?_ nofun nofun nofun
  · exact fun m hm hne => (mem_cons.mp hm).resolve_left hne
  · exact fun hres => absurd hres (by decide)

theorem accounts_failed {res : Status} (hmem : msg ∈ a) :
    Accounts config X a [.failed msg res] a := by
  have hcons : Conserves a [.failed msg res] a := conserves_single rfl rfl a
  refine accounts_attempt (fun _ => rfl) hcons ?_ ?_ nofun nofun nofun
  · exact fun m hm _ => hm
  · exact fun _ => .inl hmem

/-- A message that was sent past the queue. -/
theorem accounts_offered {res : Status} (hX : res = .unreachableDest → X msg) :
    Accounts config X a [.offered msg res] a := by
  have hcons : Conserves a [.offered msg res] a := conserves_single rfl rfl a
  refine accounts_attempt (fun _ => rfl) hcons ?_ ?_ nofun nofun nofun
  · exact fun m hm _ => hm
  · exact fun hres => .inr (hX hres)

theorem lastAttempt_none {events : List (Event Msg)}
    (h : ∀ event ∈ events, event.attempt msg = none) : lastAttempt events msg = none := by
  unfold lastAttempt
  rw [filterMap_eq_nil_iff.mpr h]
  rfl

theorem accounts_dropped {timeout : Int} (hmax : config.ncTimeoutMax ≤ timeout) (a : List Msg) :
    Accounts config X a (a.map (.dropped · timeout)) [] := by
  have hnone : ∀ msg, lastAttempt (a.map (Event.dropped · timeout)) msg = none := by
    intro msg
    apply lastAttempt_none
    intro event hevent
    obtain ⟨m, -, rfl⟩ := mem_map.mp hevent
    rfl
  refine ⟨conserves_dropped timeout a, ?_, ?_, ?_⟩
  · intro msg hlast
    rw [hnone] at hlast
    rcases hlast with hlast | hlast
    · cases hlast
    · exact .inr (.inl (.inr ⟨timeout, .inl (mem_map_of_mem hlast.2)⟩))
  · intro msg hmem
    obtain ⟨m, -, hm⟩ := mem_map.mp hmem
    cases hm
  · intro msg t hshed
    rcases hshed with hmem | hmem
    · obtain ⟨m, -, hm⟩ := mem_map.mp hmem
      cases hm
      exact hmax
    · obtain ⟨m, -, hm⟩ := mem_map.mp hmem
      cases hm

theorem accounts_refused {timeout : Int} (hmax : config.ncTimeoutMax ≤ timeout) (msg : Msg) :
    Accounts config X a [.refused msg timeout] a := by
  refine ⟨conserves_single rfl rfl a, ?_, ?_, ?_⟩
  · intro m hlast
    rw [lastAttempt_single] at hlast
    rcases hlast with hlast | hlast
    · cases hlast
    · exact .inl hlast.2
  · intro m hmem
    cases mem_singleton.mp hmem
  · intro m t hshed
    rcases hshed with hmem | hmem
    · cases mem_singleton.mp hmem
    · cases mem_singleton.mp hmem
      exact hmax

/-- The new message and the evicted ones: those have as many behind them as the queue takes. -/
theorem accounts_queued (config : NcConfig) (queue : List Msg) (msg : Msg) :
    Accounts config X queue
      (((queue ++ [msg]).rdrop config.ncrqSize).map .evicted ++ [.queued msg])
      ((queue ++ [msg]).rtake config.ncrqSize) := by
  have hall : (queue ++ [msg]).rdrop config.ncrqSize ++ (queue ++ [msg]).rtake config.ncrqSize =
      queue ++ [msg] := take_append_drop _ _
  have hin : entered (((queue ++ [msg]).rdrop config.ncrqSize).map .evicted ++ [.queued msg]) =
      [msg] := by
    rw [entered_append, entered_evicted]
    rfl
  refine ⟨?_, ?_, ?_, ?_⟩
  · unfold Conserves
    rw [hin, departed_append, departed_evicted]
    exact hall.symm.trans (congrArg (· ++ _) (append_nil _).symm)
  · intro m hlast
    rcases hlast with hlast | hlast
    · rw [lastAttempt_none] at hlast
      · cases hlast
      · intro event hevent
        rcases mem_append.mp hevent with hevent | hevent
        · obtain ⟨_, -, rfl⟩ := mem_map.mp hevent
          rfl
        · rw [mem_singleton.mp hevent]
          rfl
    · have hmem : m ∈ queue ++ [msg] := mem_append_left _ hlast.2
      rw [← hall] at hmem
      rcases mem_append.mp hmem with hmem | hmem
      · exact .inr (.inl (.inl (mem_append_left _ (mem_map_of_mem hmem))))
      · exact .inl hmem
  · intro m hmem
    rw [hin]
    rcases mem_append.mp hmem with hmem | hmem
    · obtain ⟨m', hm', heq⟩ := mem_map.mp hmem
      cases heq
      obtain ⟨u, v, huv⟩ := append_of_mem hm'
      refine ⟨u, v ++ (queue ++ [msg]).rtake config.ncrqSize, ?_, ?_⟩
      · rw [← cons_append, ← append_assoc, ← huv]
        exact hall.symm
      · have hpos := length_pos_of_mem hm'
        unfold List.rdrop at hpos
        unfold List.rtake
        rw [length_take] at hpos
        rw [length_append, length_drop]
        omega
    · cases mem_singleton.mp hmem
  · intro m timeout hshed
    rcases hshed with hmem | hmem
    · rcases mem_append.mp hmem with hmem | hmem
      · obtain ⟨_, -, heq⟩ := mem_map.mp hmem
        cases heq
      · cases mem_singleton.mp hmem
    · rcases mem_append.mp hmem with hmem | hmem
      · obtain ⟨_, -, heq⟩ := mem_map.mp hmem
        cases heq
      · cases mem_singleton.mp hmem

/-- The first message of a queue. -/
theorem accounts_first (hsize : 1 ≤ config.ncrqSize) (msg : Msg) :
    Accounts config X [] [.queued msg] [msg] := by
  have hqueued : Accounts config X [] _ _ := accounts_queued config [] msg
  have hdrop : ([] ++ [msg]).rdrop config.ncrqSize = [] := by
    unfold List.rdrop
    rw [nil_append, length_singleton, Nat.sub_eq_zero_of_le hsize, take_zero]
  have htake : ([] ++ [msg]).rtake config.ncrqSize = [msg] := by
    unfold List.rtake
    rw [nil_append, length_singleton, Nat.sub_eq_zero_of_le hsize, drop_zero]
  rw [hdrop, htake] at hqueued
  exact hqueued

namespace Pending

variable {p : Pending Msg} {pass : Pass}

theorem flush_accounts (send : Nat → Status) (queue : List Msg) (sent : Nat) :
    Accounts config X queue (flush send sent queue).2.2 (flush send sent queue).1 := by
  induction queue generalizing sent with
  | nil => exact accounts_nil config X []
  | cons msg rest ih =>
    by_cases hsend : send sent = .success
    · rw [flush_sent hsend]
      exact (accounts_sent msg rest).append (ih (sent + 1)) (fun _ hx => .inr (.inr hx))
        (fun _ hx => hx)
    · rw [flush_stops hsend]
      exact accounts_failed mem_cons_self

theorem process_accounts (config : NcConfig) (pass : Pass) (p : Pending Msg) :
    Accounts config X (held (some p)) (p.process config pass).2.2
      (held (some (p.process config pass).1)) := by
  unfold process
  split
  · exact accounts_nil config X _
  · split
    · exact accounts_nil config X _
    · rename_i queue hqueue
      have hflush : Accounts config X queue (flush pass.send 0 queue).2.2
          (flush pass.send 0 queue).1 := flush_accounts pass.send queue 0
      rw [held_queue hqueue]
      dsimp only
      split
      · unfold backOff
        split
        · exact hflush.trans (accounts_dropped (by assumption) _)
        · exact hflush.trans (accounts_nil config _ _)
      · exact hflush

theorem push_accounts (h : p.AtMaximum config) (msg : Msg) :
    Accounts config X (held (some p)) (p.push config.ncrqSize msg).2
      (held (some (p.push config.ncrqSize msg).1)) := by
  unfold push
  split
  · exact accounts_refused (h (by assumption)) msg
  · rename_i queue hqueue
    rw [held_queue hqueue]
    exact accounts_queued config queue msg

theorem queueMsg_accounts (h : p.AtMaximum config) (pass : Pass) (own : Status) (msg : Msg) :
    Accounts config X (held (some p)) (p.queueMsg config pass own msg).2.2
      (held (p.queueMsg config pass own msg).1) := by
  have hpass : Accounts config X (held (some p)) (p.process config pass).2.2
      (held (some (p.process config pass).1)) := process_accounts config pass p
  have hsuccess := @process_success Msg config pass p
  have hmax := @process_atMaximum Msg config pass p h
  unfold queueMsg
  generalize p.process config pass = out at *
  obtain ⟨q, res, events⟩ := out
  dsimp only at hpass hsuccess hmax ⊢
  by_cases hback : res = .success ∧ own ≠ .unreachableDest
  · rw [if_pos hback]
    rw [hsuccess hback.1] at hpass
    exact hpass.trans (accounts_offered (fun hown => absurd hown hback.2))
  · rw [if_neg hback]
    have hoffer : Accounts config (fun m => X m ∨ m = msg) (held (some q))
        (if res = .success then [.offered msg own] else []) (held (some q)) := by
      split
      · exact accounts_offered (fun _ => .inr rfl)
      · exact accounts_nil config _ _
    have hboth := hpass.append hoffer (fun _ hx => .inr (.inr (.inl hx))) (fun _ hx => hx)
    refine hboth.append (push_accounts hmax msg) ?_ (fun _ hfalse => False.elim hfalse)
    intro m hm
    rcases hm with hx | rfl
    · exact .inr (.inr hx)
    · exact (push_new config.ncrqSize q m).imp_right .inl

/-- The workers' operations account for every message. -/
theorem perform_accounts {t : Option (Pending Msg)} (h : ∀ p ∈ t, p.AtMaximum config) (op : Op Msg)
    (hop : op ≠ .dropRetransmitQueue) :
    Accounts config X (held t) (perform config t op).2.2 (held (perform config t op).1) ∧
      ∀ p ∈ (perform config t op).1, p.AtMaximum config := by
  cases t with
  | none => exact ⟨accounts_nil config X [], nofun⟩
  | some p =>
    have hp := h p rfl
    have hend : ∀ (pass : Pass) (p : Pending Msg) (gone : Prop) [Decidable gone],
        p.AtMaximum config → (gone → (p.process config pass).2.1 = .success) →
        Accounts config X (held (some p)) (p.process config pass).2.2
          (held (if gone then none else some (p.process config pass).1)) ∧
        ∀ q ∈ (if gone then none else some (p.process config pass).1), q.AtMaximum config := by
      intro pass p gone _ hp hgone
      have hpass : Accounts config X (held (some p)) (p.process config pass).2.2
        (held (some (p.process config pass).1)) := process_accounts config pass p
      split
      · rename_i hg
        rw [process_success (hgone hg)] at hpass
        exact ⟨hpass, nofun⟩
      · refine ⟨hpass, ?_⟩
        intro q hq
        cases hq
        exact process_atMaximum hp
    cases op with
    | queueMsg pass own msg =>
      exact ⟨queueMsg_accounts hp pass own msg, queueMsg_atMaximum hp own msg⟩
    | processQueue pass =>
      have hpass := hend pass p False hp False.elim
      rwa [if_neg not_false] at hpass
    | review pass => exact hend pass p _ hp And.left
    | checkNcEntry pass => exact hend pass { p with expiration := 0 } _ hp id
    | dropRetransmitQueue => exact absurd rfl hop

end Pending

end JxtaC.NegativeCache
