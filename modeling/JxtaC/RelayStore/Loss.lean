import JxtaC.RelayStore.Refines

/-
  When the store of a lease loses a message. A message may leave the store once its send has
  succeeded or its storage interval has elapsed (`Keeps`). The flag `delete_message` of
  `relay_send_all_messages_1` is not reset between the messages, so that a message which is refused,
  or for which there is no messenger, leaves the store too where an earlier one of the pass was sent
  or had expired. A pass without such a message is `Orderly`.
-/

namespace JxtaC.RelayLease

open Lib List

variable {Msg : Type} {lease : RelayLease Msg}
variable {l : List (Entry Msg)} {e : Entry Msg} {visit : Nat → Visit}

/-- The stored messages with their addresses, from the head on. -/
def entries (lease : RelayLease Msg) : List (Entry Msg) :=
  lease.contents.filterMap fun a => (lease.message a).map (Entry.mk a)

/-- The storage interval of the message at an address has elapsed when the operation checks it. -/
def elapsed (lease : RelayLease Msg) : Op Msg → (address : Nat) → Bool
  | .put _ _, _ => false
  | .sendAll visit, a => (lease.message a).any fun m => m.hasExpired (visit a).now
  | .checkTimeout now, a => (lease.message a).any fun m => m.hasExpired (now a)

/-- The operation returns, and every stored message is still in the store, unless its own send
    returned `JXTA_SUCCESS` or its own storage interval had elapsed. -/
def Keeps (lease : RelayLease Msg) (op : Op Msg) : Prop :=
  match lease.step op with
  | .ok (lease', sends) => ∀ a ∈ lease.contents, (a, .success) ∈ sends ∨ lease.elapsed op a ∨
      (a ∈ lease'.contents ∧ lease'.message a = lease.message a)
  | .error _ => False

instance [DecidableEq Msg] (op : Op Msg) : Decidable (Keeps lease op) := by
  unfold Keeps
  split <;> infer_instance

/-- The messages that a pass comes to. -/
def reached (out : Entry Msg → Outcome) : List (Entry Msg) → List (Entry Msg)
  | [] => []
  | e :: entries => e :: if out e = .unavailable then [] else reached out entries

/-- Behind a message that is sent or has expired, the pass comes to such messages only. -/
def Orderly (out : Entry Msg → Outcome) (entries : List (Entry Msg)) : Prop :=
  (reached out entries).Pairwise fun e f => (out e).removes → (out f).removes

/-- A pass over the stored messages is orderly. -/
def OrderlyPass (lease : RelayLease Msg) : Op Msg → Prop
  | .sendAll visit => Orderly (outcome visit) (visited lease.entries)
  | .put _ _ | .checkTimeout _ => True

section
variable (h : Holds lease l)
include h

theorem Holds.entries_eq : lease.entries = l := by
  unfold entries
  rw [h.contents, filterMap_map]
  have hsome : ∀ e ∈ l, ((fun a => (lease.message a).map (Entry.mk a)) ∘ Entry.address) e
      = some e := by
    intro e he
    dsimp only [Function.comp_apply]
    rw [h.message e he]
    rfl
  rw [filterMap_congr hsome, filterMap_some]

theorem Holds.mem_contents (he : e ∈ l) : e.address ∈ lease.contents := by
  rw [h.contents]
  exact mem_map_of_mem he

/-- An entry is still there if its address is and has the same message. -/
theorem Holds.mem_iff (e : Entry Msg) :
    e ∈ l ↔ e.address ∈ lease.contents ∧ lease.message e.address = some e.stored := by
  refine ⟨fun he => ⟨h.mem_contents he, h.message e he⟩, fun ⟨hmem, hmessage⟩ => ?_⟩
  rw [h.contents] at hmem
  obtain ⟨f, hf, heq⟩ := mem_map.mp hmem
  have hstored := h.message f hf
  rw [heq, hmessage] at hstored
  have hsame : e = f := by
    cases e
    cases f
    cases heq
    cases Option.some.inj hstored
    rfl
  exact hsame ▸ hf

/-- What a step keeps, in terms of the entries before and after. -/
theorem Holds.keeps_iff {l' : List (Entry Msg)} {lease' : RelayLease Msg} {op : Op Msg}
    {sends : List (Nat × Status)} (hstep : lease.step op = .ok (lease', sends))
    (h' : Holds lease' l') :
    Keeps lease op ↔ ∀ e ∈ l, (e.address, .success) ∈ sends ∨ lease.elapsed op e.address ∨ e ∈ l' := by
  unfold Keeps
  rw [hstep]
  have hkept : ∀ e ∈ l, (e.address ∈ lease'.contents ∧
      lease'.message e.address = lease.message e.address) ↔ e ∈ l' := by
    intro e he
    rw [h.message e he, ← h'.mem_iff e]
  constructor
  · intro hall e he
    rw [← hkept e he]
    exact hall _ (h.mem_contents he)
  · intro hall a ha
    rw [h.contents] at ha
    obtain ⟨e, he, rfl⟩ := mem_map.mp ha
    rw [hkept e he]
    exact hall e he

/-! ## storing and timeouts -/

theorem keeps_put (msg : Msg) (now : Nat) : Keeps lease (.put msg now) := by
  rw [h.keeps_iff rfl (h.put msg now)]
  intro e he
  right
  right
  by_cases hfull : lease.totalStored > maxNumberMessagesPerClient
  · rw [if_pos hfull]
    exact he
  · rw [if_neg hfull]
    exact mem_append_left _ he

end

theorem mem_unexpired {now : Nat → Nat} (he : e ∈ l) : expiredAt now e ∨ e ∈ unexpired now l := by
  cases hexp : expiredAt now e with
  | true => exact Or.inl rfl
  | false => exact Or.inr (mem_filter.mpr ⟨he, by rw [hexp]; rfl⟩)

theorem mem_afterTimeout {now : Nat → Nat} (he : e ∈ l) :
    expiredAt now e ∨ e ∈ afterTimeout now l := by
  rcases l with _ | ⟨a, _ | ⟨b, rest⟩⟩
  · exact absurd he not_mem_nil
  · exact mem_unexpired he
  · rcases mem_cons.mp he with rfl | he
    · exact Or.inr mem_cons_self
    · exact (mem_unexpired he).imp_right (mem_cons_of_mem _)

theorem keeps_checkTimeout (h : Holds lease l) (now : Nat → Nat) :
    Keeps lease (.checkTimeout now) := by
  obtain ⟨lease', hstep, h'⟩ := step_checkTimeout now h
  rw [h.keeps_iff hstep h']
  intro e he
  right
  refine (mem_afterTimeout he).imp_left fun hexp => ?_
  change (lease.message e.address).any (fun m => m.hasExpired (now e.address)) = true
  rw [h.message e he]
  exact hexp

/-! ## a pass -/

theorem kept_subset (out : Entry Msg → Outcome) (delete : Bool) (l : List (Entry Msg)) :
    kept out delete l ⊆ l := by
  induction l generalizing delete with
  | nil => exact List.Subset.refl _
  | cons e l ih =>
    have htail : ∀ d, kept out d l ⊆ e :: l := fun d =>
      List.Subset.trans (ih d) (subset_cons_self e l)
    unfold kept
    cases out e with
    | expired => exact htail true
    | sent => exact htail true
    | refused =>
      cases delete with
      | true => exact htail true
      | false => exact cons_subset_cons e (ih false)
    | unavailable =>
      cases delete with
      | true => exact subset_cons_self e l
      | false => exact List.Subset.refl _

/-- The messages of a pass that it may not keep are all but the ones it sent or found expired, if
    and only if it is orderly, and comes to no other messages once the flag is set. -/
theorem kept_iff (out : Entry Msg → Outcome) (hnodup : l.Nodup) (delete : Bool) :
    (∀ e ∈ l, (e ∈ offered out l ∧ out e = .sent) ∨ out e = .expired ∨ e ∈ kept out delete l) ↔
      Orderly out l ∧ (delete → ∀ e ∈ reached out l, (out e).removes) := by
  induction l generalizing delete with
  | nil => simp [Orderly, reached]
  | cons e l ih =>
    obtain ⟨hel, hnodup⟩ := nodup_cons.mp hnodup
    have hnot : ∀ d, e ∉ kept out d l := fun d hmem => hel (kept_subset out d l hmem)
    have hne : ∀ x ∈ l, x ≠ e := by
      rintro x hx rfl
      exact hel hx
    have hmem : ∀ x ∈ l, (x ∈ e :: offered out l ↔ x ∈ offered out l) := fun x hx =>
      mem_cons.trans (or_iff_right (hne x hx))
    have hkept : ∀ x ∈ l, (x ∈ e :: kept out false l ↔ x ∈ kept out false l) := fun x hx =>
      mem_cons.trans (or_iff_right (hne x hx))
    unfold Orderly at ih ⊢
    unfold offered reached kept
    rw [forall_mem_cons, pairwise_cons, forall_mem_cons]
    cases hout : out e with
    | expired =>
      have hrest := ih hnodup true
      simp only [reduceCtorEq, if_false, Outcome.removes, and_false, false_or, true_or, true_and,
        forall_const, hrest]
      tauto
    | sent =>
      have hrest : (∀ x ∈ l, (x ∈ e :: offered out l ∧ out x = .sent) ∨ out x = .expired ∨
          x ∈ kept out true l) ↔ _ :=
        (forall₂_congr fun x hx => by rw [hmem x hx]).trans (ih hnodup true)
      simp only [reduceCtorEq, if_false, Outcome.removes, mem_cons_self, true_and, true_or,
        forall_const, hrest]
      tauto
    | refused =>
      cases delete with
      | true => simp [hnot true]
      | false =>
        have hrest : (∀ x ∈ l, (x ∈ e :: offered out l ∧ out x = .sent) ∨ out x = .expired ∨
            x ∈ e :: kept out false l) ↔ _ :=
          (forall₂_congr fun x hx => by rw [hmem x hx, hkept x hx]).trans (ih hnodup false)
        simp only [reduceCtorEq, if_false, Outcome.removes, mem_cons_self, and_false,
          or_true, true_and, Bool.false_eq_true, false_imp_iff, hrest]
        tauto
    | unavailable =>
      cases delete with
      | true => simp [hel]
      | false =>
        apply iff_of_true
        · exact ⟨Or.inr (Or.inr mem_cons_self),
            fun x hx => Or.inr (Or.inr (mem_cons_of_mem e hx))⟩
        · simp

theorem mem_offered {out : Entry Msg → Outcome} (h : e ∈ offered out l) :
    e ∈ l ∧ (out e = .sent ∨ out e = .refused) := by
  induction l with
  | nil => exact absurd h not_mem_nil
  | cons a l ih =>
    have htail : e ∈ offered out l → e ∈ a :: l ∧ (out e = .sent ∨ out e = .refused) :=
      fun h => (ih h).imp_left (mem_cons_of_mem a)
    unfold offered at h
    cases hout : out a with
    | expired =>
      rw [hout] at h
      exact htail h
    | unavailable =>
      rw [hout] at h
      exact absurd h not_mem_nil
    | sent =>
      rw [hout] at h
      rcases mem_cons.mp h with rfl | h
      · exact ⟨mem_cons_self, Or.inl hout⟩
      · exact htail h
    | refused =>
      rw [hout] at h
      rcases mem_cons.mp h with rfl | h
      · exact ⟨mem_cons_self, Or.inr hout⟩
      · exact htail h

/-- A message is not expired and its send succeeds exactly where it is sent. -/
theorem outcome_eq_sent (h : outcome visit e = .sent ∨ outcome visit e = .refused) :
    (visit e.address).send = .success ↔ outcome visit e = .sent := by
  unfold outcome at h ⊢
  dsimp only at h ⊢
  split_ifs at h ⊢ <;> simp_all

theorem outcome_eq_expired :
    outcome visit e = .expired ↔ e.stored.hasExpired (visit e.address).now = true := by
  unfold outcome
  dsimp only
  split_ifs with hexp hmessenger hsend <;> simp [hexp]

/-- The successful sends of a pass over messages with different addresses. -/
theorem mem_passSends (hnodup : (l.map Entry.address).Nodup) (he : e ∈ l) :
    (e.address, .success) ∈ passSends visit l ↔ e ∈ offered (outcome visit) l ∧
      outcome visit e = .sent := by
  unfold passSends
  rw [mem_map]
  constructor
  · rintro ⟨f, hf, heq⟩
    obtain ⟨haddress, hsend⟩ := Prod.mk.inj heq
    obtain ⟨hfl, hout⟩ := mem_offered hf
    obtain rfl : f = e := inj_on_of_nodup_map hnodup hfl he haddress
    exact ⟨hf, (outcome_eq_sent hout).mp hsend⟩
  · rintro ⟨hf, hout⟩
    exact ⟨e, hf, by rw [(outcome_eq_sent (Or.inl hout)).mpr hout]⟩

theorem visited_sublist (l : List (Entry Msg)) : (visited l).Sublist l := by
  rcases l with _ | ⟨a, _ | ⟨b, rest⟩⟩
  · exact List.Sublist.refl _
  · exact List.Sublist.refl _
  · exact sublist_cons_self a (b :: rest)

/-- A pass keeps the head, if it is not alone, and of the messages it visits what `kept` says. -/
theorem mem_afterPass {out : Entry Msg → Outcome} (hnodup : l.Nodup) (he : e ∈ l) :
    e ∈ afterPass out l ↔ (e ∈ visited l → e ∈ kept out false (visited l)) := by
  rcases l with _ | ⟨a, _ | ⟨b, rest⟩⟩
  · exact absurd he not_mem_nil
  · exact ⟨fun h _ => h, fun h => h he⟩
  · have ha : a ∉ visited (a :: b :: rest) := (nodup_cons.mp hnodup).1
    rcases mem_cons.mp he with rfl | htail
    · exact iff_of_true mem_cons_self fun h => absurd h ha
    · have hne : e ≠ a := by
        rintro rfl
        exact ha htail
      unfold afterPass
      rw [mem_cons, or_iff_right hne]
      exact ⟨fun h _ => h, fun h => h htail⟩

theorem keeps_sendAll (h : Holds lease l) (visit : Nat → Visit) :
    Keeps lease (.sendAll visit) ↔ OrderlyPass lease (.sendAll visit) := by
  obtain ⟨lease', hstep, h'⟩ := step_sendAll visit h
  have hsub := visited_sublist l
  have hnodup : l.Nodup := h.nodup.of_map _
  have hnodup' : ((visited l).map Entry.address).Nodup := h.nodup.sublist (hsub.map _)
  change _ ↔ Orderly (outcome visit) (visited lease.entries)
  rw [h.keeps_iff hstep h', h.entries_eq]
  have hiff := kept_iff (outcome visit) (hnodup.sublist hsub) false
  rw [and_iff_left (fun hfalse => absurd hfalse Bool.false_ne_true)] at hiff
  rw [← hiff]
  have helapsed : ∀ e ∈ l, lease.elapsed (.sendAll visit) e.address = true ↔
      outcome visit e = .expired := by
    intro e he
    change (lease.message e.address).any (fun m => m.hasExpired (visit e.address).now) = true ↔ _
    rw [h.message e he, outcome_eq_expired]
    rfl
  constructor
  · intro hall e he
    have hone := hall e (hsub.subset he)
    rw [mem_passSends hnodup' he, helapsed e (hsub.subset he),
      mem_afterPass hnodup (hsub.subset he)] at hone
    exact hone.imp_right fun h => h.imp_right fun h => h he
  · intro hall e he
    rw [helapsed e he, mem_afterPass hnodup he]
    by_cases hvisited : e ∈ visited l
    · rw [mem_passSends hnodup' hvisited]
      exact (hall e hvisited).imp_right fun h => h.imp_right fun h _ => h
    · exact Or.inr (Or.inr fun h => absurd h hvisited)

theorem keeps_iff_orderly (h : Holds lease l) (op : Op Msg) :
    Keeps lease op ↔ OrderlyPass lease op := by
  cases op with
  | put msg now => exact iff_of_true (keeps_put h msg now) trivial
  | sendAll visit => exact keeps_sendAll h visit
  | checkTimeout now => exact iff_of_true (keeps_checkTimeout h now) trivial

/-! ## runs -/

/-- The steps of a run on a new store lose no message if and only if its passes are orderly. -/
theorem keeps_run_iff (ops : List (Op Msg)) :
    SafeRun step Keeps (new : RelayLease Msg) ops ↔ SafeRun step OrderlyPass new ops := by
  refine @safeRun_congr _ _ _ step (fun lease => ∃ l, Holds lease l) Keeps OrderlyPass ?_ holds_kept
    ops new ⟨[], holds_new⟩
  rintro lease op ⟨l, h⟩
  exact keeps_iff_orderly h op

/-- Three messages are stored. In the pass, the send of the second succeeds and that of the third
    does not: both leave the store. -/
theorem not_keeps_run : ¬∀ ops : List (Op Nat), SafeRun step Keeps new ops := by
  intro h
  have hrun := h [.put 0 0, .put 1 0, .put 2 0,
    .sendAll fun a => ⟨0, true, if a = 1 then .success else .failed⟩]
  revert hrun
  decide

end JxtaC.RelayLease
