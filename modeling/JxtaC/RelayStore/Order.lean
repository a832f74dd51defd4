import JxtaC.RelayStore.Loss

/-
  The order in which a client receives its messages. `relay_send_all_messages_1` starts at the
  message behind the head and ends when it comes back to it, so that the head, the oldest message, has
  no turn unless it is alone. A pass attempts every unexpired message, in the order in which they
  were stored, exactly where the head is alone or has expired (`HeadPassed`).
-/

namespace JxtaC.RelayLease

open Lib List

variable {Msg : Type} {lease : RelayLease Msg}
variable {l : List (Entry Msg)} {visit : Nat → Visit}

/-- There is a messenger at every turn. -/
def Available (visit : Nat → Visit) : Prop :=
  ∀ a, (visit a).messenger = true

/-- The stored messages that are not expired at their turn, in the order in which they were
    stored. -/
def pending (lease : RelayLease Msg) (visit : Nat → Visit) : List Nat :=
  lease.contents.filter fun a => !lease.elapsed (.sendAll visit) a

/-- The pass attempts exactly the unexpired messages, each once, in the order of their storing. -/
def AttemptsInOrder (lease : RelayLease Msg) (visit : Nat → Visit) : Prop :=
  match lease.step (.sendAll visit) with
  | .ok (_, sends) => sends.map Prod.fst = lease.pending visit ∧
      (sends.map Prod.fst).Pairwise (· < ·)
  | .error _ => False

instance (visit : Nat → Visit) : Decidable (AttemptsInOrder lease visit) := by
  unfold AttemptsInOrder
  split <;> infer_instance

/-- The head is alone, or has expired when the pass checks the messages. -/
def HeadPassed (lease : RelayLease Msg) (visit : Nat → Visit) : Prop :=
  lease.contents.length ≤ 1 ∨ ∀ a ∈ lease.contents.head?, lease.elapsed (.sendAll visit) a = true

instance (visit : Nat → Visit) : Decidable (HeadPassed lease visit) :=
  inferInstanceAs (Decidable (_ ∨ _))

/-! ## one pass -/

theorem elapsed_sendAll (h : Holds lease l) (visit : Nat → Visit) {e : Entry Msg} (he : e ∈ l) :
    lease.elapsed (.sendAll visit) e.address = true ↔ outcome visit e = .expired := by
  change (lease.message e.address).any (fun m => m.hasExpired (visit e.address).now) = true ↔ _
  rw [h.message e he, outcome_eq_expired]
  rfl

/-- The times at which a pass checks the messages. -/
def times (visit : Nat → Visit) (address : Nat) : Nat :=
  (visit address).now

theorem expiredAt_times {e : Entry Msg} :
    expiredAt (times visit) e = true ↔ outcome visit e = .expired :=
  outcome_eq_expired.symm

theorem Holds.pending_eq (h : Holds lease l) (visit : Nat → Visit) :
    lease.pending visit = (unexpired (times visit) l).map Entry.address := by
  unfold pending unexpired
  rw [h.contents, filter_map]
  congr 1
  apply filter_congr
  intro e he
  rw [Function.comp_apply, Bool.eq_iff_iff, Bool.not_eq_true', Bool.not_eq_true', ← Bool.not_eq_true,
    elapsed_sendAll h visit he, ← expiredAt_times, Bool.not_eq_true]

theorem offered_available (hall : Available visit) (l : List (Entry Msg)) :
    offered (outcome visit) l = unexpired (times visit) l := by
  induction l with
  | nil => rfl
  | cons e l ih =>
    have hmessenger : outcome visit e ≠ .unavailable := by
      have hone := hall e.address
      unfold outcome
      dsimp only
      split_ifs <;> simp_all
    unfold unexpired at ih ⊢
    unfold offered
    rw [filter_cons, ih]
    cases hexp : expiredAt (times visit) e with
    | true =>
      rw [expiredAt_times.mp hexp]
      rfl
    | false =>
      have hne : outcome visit e ≠ .expired := fun hout =>
        Bool.false_ne_true (hexp.symm.trans (expiredAt_times.mpr hout))
      cases hout : outcome visit e with
      | unavailable => exact absurd hout hmessenger
      | expired => exact absurd hout hne
      | sent => rfl
      | refused => rfl

/-- The head is passed where the messages visited are all that are not expired. -/
theorem Holds.headPassed_iff (h : Holds lease l) (visit : Nat → Visit) :
    HeadPassed lease visit ↔ unexpired (times visit) (visited l) = unexpired (times visit) l := by
  unfold HeadPassed
  rw [h.contents]
  rcases l with _ | ⟨a, _ | ⟨b, rest⟩⟩
  · exact iff_of_true (Or.inl (Nat.zero_le _)) rfl
  · exact iff_of_true (Or.inl (Nat.le_refl _)) rfl
  · have hlong : ¬((a :: b :: rest).map Entry.address).length ≤ 1 := by simp
    rw [or_iff_right hlong, map_cons, head?_cons]
    have hhead : (∀ x ∈ some a.address, lease.elapsed (.sendAll visit) x = true) ↔
        expiredAt (times visit) a = true := by
      rw [expiredAt_times, ← elapsed_sendAll h visit mem_cons_self]
      exact ⟨fun hx => hx _ rfl, fun hx x hmem => Option.some.inj hmem ▸ hx⟩
    rw [hhead]
    change _ ↔ unexpired (times visit) (b :: rest) = _
    unfold unexpired
    rw [filter_cons (x := a)]
    cases hexp : expiredAt (times visit) a with
    | true => exact iff_of_true rfl rfl
    | false =>
      refine iff_of_false Bool.false_ne_true fun heq => ?_
      have hlen := congrArg List.length heq
      simp at hlen

theorem Holds.sends_eq (hall : Available visit) :
    (passSends visit (visited l)).map Prod.fst
      = (unexpired (times visit) (visited l)).map Entry.address := by
  unfold passSends
  rw [map_map, offered_available hall]
  rfl

theorem Holds.attemptsInOrder_iff (h : Holds lease l) (hall : Available visit) :
    AttemptsInOrder lease visit ↔ HeadPassed lease visit := by
  obtain ⟨lease', hstep, -⟩ := step_sendAll visit h
  have hsub : (unexpired (times visit) (visited l)).Sublist (unexpired (times visit) l) :=
    (visited_sublist l).filter _
  have hascending : ((unexpired (times visit) (visited l)).map Entry.address).Pairwise (· < ·) :=
    h.ascending.sublist ((filter_sublist.trans (visited_sublist l)).map _)
  unfold AttemptsInOrder
  rw [hstep, h.headPassed_iff]
  dsimp only
  rw [sends_eq hall, h.pending_eq, and_iff_left hascending]
  constructor
  · intro heq
    have hlen := congrArg List.length heq
    rw [length_map, length_map] at hlen
    exact hsub.eq_of_length hlen
  · intro heq
    rw [heq]

/-! ## runs -/

/-- Every message of a pass gets a messenger, and its send succeeds. -/
def Delivers : Op Msg → Prop
  | .sendAll visit => ∀ a, (visit a).messenger = true ∧ (visit a).send = .success
  | .put _ _ | .checkTimeout _ => True

/-- The clock does not go back from one pass to a later one. -/
def NotBefore : Op Msg → Op Msg → Prop
  | .sendAll visit, .sendAll visit' => ∀ a, (visit a).now ≤ (visit' a).now
  | _, _ => True

/-- In a pass, the head is alone or has expired. -/
def HeadPassedIn (lease : RelayLease Msg) : Op Msg → Prop
  | .sendAll visit => HeadPassed lease visit
  | .put _ _ | .checkTimeout _ => True

instance (op : Op Msg) : Decidable (HeadPassedIn lease op) :=
  match op with
  | .sendAll visit => inferInstanceAs (Decidable (HeadPassed lease visit))
  | .put _ _ => isTrue trivial
  | .checkTimeout _ => isTrue trivial

/-- The messages that the client received, in this order. -/
def received (log : List (List (Nat × Status))) : List Nat :=
  (log.flatten.filter fun s => s.2 = .success).map Prod.fst

theorem removeMessage_fresh (lease : RelayLease Msg) (current : Nat) :
    (lease.removeMessage current).fresh = lease.fresh := rfl

theorem turn_fresh {s s' : Sending Msg} (h : s.turn visit = .ok s') :
    s'.lease.fresh = s.lease.fresh := by
  unfold Sending.turn at h
  dsimp only at h
  split at h
  · cases h
  · have heq := Except.ok.inj h
    rw [← heq]
    unfold Sending.offer
    split_ifs <;> rfl

theorem sendLoop_fresh {head : Nat} (turns : Nat) {s s' : Sending Msg}
    (h : sendLoop visit head turns s = .ok s') : s'.lease.fresh = s.lease.fresh := by
  induction turns generalizing s with
  | zero => exact absurd h (by simp [sendLoop])
  | succ turns ih =>
    unfold sendLoop at h
    obtain ⟨t, hturn, hrest⟩ := bind_eq_ok.mp h
    split_ifs at hrest
    · exact (ih hrest).trans (turn_fresh hturn)
    · rw [← Except.ok.inj hrest]
      exact turn_fresh hturn

theorem timeoutLoop_fresh {now : Nat → Nat} {head : Nat} (turns : Nat)
    {lease lease' : RelayLease Msg} {current : Nat}
    (h : timeoutLoop now head turns lease current = .ok lease') : lease'.fresh = lease.fresh := by
  induction turns generalizing lease current with
  | zero => exact absurd h (by simp [timeoutLoop])
  | succ turns ih =>
    unfold timeoutLoop at h
    dsimp only at h
    split at h
    · exact absurd h (by simp)
    · split_ifs at h
      · exact (ih h).trans (removeMessage_fresh _ _)
      · exact ih h
      · rw [← Except.ok.inj h]
        rfl
      · rw [← Except.ok.inj h]

/-- Addresses are only given out. -/
theorem step_fresh {op : Op Msg} {lease' : RelayLease Msg} {sends : List (Nat × Status)}
    (h : lease.step op = .ok (lease', sends)) : lease.fresh ≤ lease'.fresh := by
  cases op with
  | put msg now =>
    cases h
    unfold archivePutMessage1
    split_ifs
    · exact Nat.le_refl _
    · exact Nat.le_succ _
  | sendAll visit =>
    obtain ⟨⟨l, s, st⟩, hpass, heq⟩ := bind_eq_ok.mp h
    cases heq
    unfold relaySendAllMessages1 at hpass
    split at hpass
    · cases hpass
      exact Nat.le_refl _
    · obtain ⟨t, hloop, heq⟩ := bind_eq_ok.mp hpass
      cases heq
      exact Nat.le_of_eq (sendLoop_fresh _ hloop).symm
  | checkTimeout now =>
    obtain ⟨l, hcheck, heq⟩ := bind_eq_ok.mp h
    cases heq
    unfold archiveCheckTimeout at hcheck
    split at hcheck
    · cases hcheck
      exact Nat.le_refl _
    · exact Nat.le_of_eq (timeoutLoop_fresh _ hcheck).symm

/-- A message of the store is newer than all received, or expired at every pass that follows. -/
def NewerOrExpired (before : List Nat) (ops : List (Op Msg)) (e : Entry Msg) : Prop :=
  (∀ r ∈ before, r < e.address) ∨ ∀ visit, .sendAll visit ∈ ops → outcome visit e = .expired

theorem afterTimeout_subset (now : Nat → Nat) (l : List (Entry Msg)) : afterTimeout now l ⊆ l := by
  rcases l with _ | ⟨a, _ | ⟨b, rest⟩⟩
  · exact List.Subset.refl _
  · exact filter_sublist.subset
  · exact cons_subset_cons a (filter_sublist.subset)

/-- A pass whose sends all succeed keeps none of the messages it visits. -/
theorem kept_delivered (hall : ∀ a, (visit a).messenger = true ∧ (visit a).send = .success)
    (delete : Bool) (l : List (Entry Msg)) : kept (outcome visit) delete l = [] := by
  induction l generalizing delete with
  | nil => rfl
  | cons e l ih =>
    have hremoved : outcome visit e = .expired ∨ outcome visit e = .sent := by
      obtain ⟨hmessenger, hsend⟩ := hall e.address
      unfold outcome
      dsimp only
      split_ifs <;> simp_all
    unfold kept
    rcases hremoved with hout | hout
    · rw [hout]
      exact ih true
    · rw [hout]
      exact ih true

/-- After a pass whose sends all succeed and that passes the head, the store holds at most the head,
    which had expired. -/
theorem Holds.afterPass_delivered (h : Holds lease l)
    (hall : ∀ a, (visit a).messenger = true ∧ (visit a).send = .success)
    (hpassed : HeadPassed lease visit) :
    ∀ e ∈ afterPass (outcome visit) l, e ∈ l ∧ outcome visit e = .expired := by
  rw [h.headPassed_iff] at hpassed
  intro e he
  rcases l with _ | ⟨a, _ | ⟨b, rest⟩⟩
  · exact absurd he not_mem_nil
  · change e ∈ kept (outcome visit) false [a] at he
    rw [kept_delivered hall] at he
    exact absurd he not_mem_nil
  · change e ∈ a :: kept (outcome visit) false (b :: rest) at he
    rw [kept_delivered hall] at he
    obtain rfl := mem_singleton.mp he
    refine ⟨mem_cons_self, ?_⟩
    by_contra hexp
    have hmem : e ∈ unexpired (times visit) (e :: b :: rest) := by
      refine mem_filter.mpr ⟨mem_cons_self, ?_⟩
      rw [Bool.not_eq_true', ← Bool.not_eq_true, expiredAt_times]
      exact hexp
    rw [← hpassed] at hmem
    have hnodup := h.nodup.of_map
    exact (nodup_cons.mp hnodup).1 (mem_of_mem_filter hmem)

theorem received_cons (sends : List (Nat × Status)) (log : List (List (Nat × Status))) :
    received (sends :: log) = received [sends] ++ received log := by
  simp [received]

/-- What a pass whose sends all succeed brings to the client. -/
theorem Holds.received_pass (h : Holds lease l)
    (hall : ∀ a, (visit a).messenger = true ∧ (visit a).send = .success)
    (hpassed : HeadPassed lease visit) :
    received [passSends visit (visited l)] = (unexpired (times visit) l).map Entry.address := by
  have hsuccess : ∀ s ∈ passSends visit (visited l), s.2 = .success := by
    intro s hs
    obtain ⟨e, -, rfl⟩ := mem_map.mp hs
    exact (hall e.address).2
  unfold received
  rw [flatten_singleton, filter_eq_self.mpr (fun s hs => decide_eq_true (hsuccess s hs)),
    sends_eq fun a => (hall a).1, (h.headPassed_iff visit).mp hpassed]

/-- From a store whose messages are newer than all received, or expired for good, a run brings the
    client the messages in the order in which they were stored. -/
theorem received_run (ops : List (Op Msg)) :
    ∀ (lease : RelayLease Msg) (l : List (Entry Msg)) (before : List Nat), Holds lease l →
      before.Pairwise (· < ·) → (∀ r ∈ before, r < lease.fresh) →
      (∀ e ∈ l, NewerOrExpired before ops e) → (∀ op ∈ ops, Delivers op) →
      ops.Pairwise NotBefore → SafeRun step HeadPassedIn lease ops →
        ∃ lease' log, runOps step lease ops = .ok (lease', log) ∧
          (before ++ received log).Pairwise (· < ·) := by
  induction ops with
  | nil =>
    intro lease l before _ hbefore _ _ _ _ _
    refine ⟨lease, [], rfl, ?_⟩
    rw [show received [] = [] from rfl, append_nil]
    exact hbefore
  | cons op ops ih =>
    intro lease l before h hbefore hfresh hnewer hdelivers hclock hsafe
    obtain ⟨hpassed, hrest⟩ := hsafe
    obtain ⟨hop, hdelivers⟩ := forall_mem_cons.mp hdelivers
    obtain ⟨hlater, hclock⟩ := pairwise_cons.mp hclock
    -- what is left to show of the step: the store after it, and what the client received
    have hstep : ∀ lease' l' sends, lease.step op = .ok (lease', sends) → Holds lease' l' →
        (before ++ received [sends]).Pairwise (· < ·) →
        (∀ r ∈ received [sends], r < lease.fresh) →
        (∀ e ∈ l', NewerOrExpired (before ++ received [sends]) ops e) →
        ∃ lease'' log, runOps step lease (op :: ops) = .ok (lease'', log) ∧
          (before ++ received log).Pairwise (· < ·) := by
      intro lease' l' sends hone h' hbefore' hnew hnewer'
      have hgrow := step_fresh hone
      have hsafe' := returns_ok hrest hone
      have hfresh' : ∀ r ∈ before ++ received [sends], r < lease'.fresh := by
        intro r hr
        rcases mem_append.mp hr with hr | hr
        · exact Nat.lt_of_lt_of_le (hfresh r hr) hgrow
        · exact Nat.lt_of_lt_of_le (hnew r hr) hgrow
      obtain ⟨lease'', log, hrun, hpairwise⟩ := ih lease' l' _ h' hbefore' hfresh' hnewer' hdelivers
        hclock hsafe'
      refine ⟨lease'', sends :: log, ?_, ?_⟩
      · rw [runOps_cons_ok hone, hrun]
        rfl
      · rw [received_cons, ← append_assoc]
        exact hpairwise
    have hnone : received ([[]] : List (List (Nat × Status))) = [] := rfl
    have htail : ∀ e, NewerOrExpired before (op :: ops) e → NewerOrExpired before ops e :=
      fun e he => he.imp_right fun hexp visit hmem => hexp visit (mem_cons_of_mem op hmem)
    cases op with
    | put msg now =>
      refine hstep _ _ [] rfl (h.put msg now) ?_ ?_ ?_
      · rw [hnone, append_nil]
        exact hbefore
      · rw [hnone]
        exact fun r hr => absurd hr not_mem_nil
      · rw [hnone, append_nil]
        intro e he
        split_ifs at he
        · exact htail e (hnewer e he)
        · rcases mem_append.mp he with he | he
          · exact htail e (hnewer e he)
          · rw [mem_singleton.mp he]
            exact Or.inl hfresh
    | checkTimeout now =>
      obtain ⟨lease', hone, h'⟩ := step_checkTimeout now h
      refine hstep lease' _ [] hone h' ?_ ?_ ?_
      · rw [hnone, append_nil]
        exact hbefore
      · rw [hnone]
        exact fun r hr => absurd hr not_mem_nil
      · rw [hnone, append_nil]
        exact fun e he => htail e (hnewer e (afterTimeout_subset now l he))
    | sendAll visit =>
      obtain ⟨lease', hone, h'⟩ := step_sendAll visit h
      have hreceived := h.received_pass hop hpassed
      have hmem : ∀ r ∈ received [passSends visit (visited l)], ∃ e ∈ l, e.address = r ∧
          outcome visit e ≠ .expired := by
        intro r hr
        rw [hreceived] at hr
        obtain ⟨e, he, rfl⟩ := mem_map.mp hr
        obtain ⟨he, hexp⟩ := mem_filter.mp he
        refine ⟨e, he, rfl, fun hout => ?_⟩
        rw [expiredAt_times.mpr hout] at hexp
        exact Bool.false_ne_true hexp
      refine hstep lease' _ _ hone h' ?_ ?_ ?_
      · rw [pairwise_append]
        refine ⟨hbefore, ?_, fun r hr r' hr' => ?_⟩
        · rw [hreceived]
          exact h.ascending.sublist (filter_sublist.map _)
        · obtain ⟨e, he, rfl, hexp⟩ := hmem r' hr'
          rcases hnewer e he with hnew | hexpired
          · exact hnew r hr
          · exact absurd (hexpired visit mem_cons_self) hexp
      · intro r hr
        obtain ⟨e, he, rfl, -⟩ := hmem r hr
        exact h.fresh e he
      · intro e he
        obtain ⟨-, hexp⟩ := h.afterPass_delivered hop hpassed e he
        -- the head stays expired as the clock does not go back
        refine Or.inr fun visit' hlater' => ?_
        rw [outcome_eq_expired] at hexp ⊢
        have hnow := hlater _ hlater' e.address
        unfold StoredMessage.hasExpired at hexp ⊢
        rw [decide_eq_true_iff] at hexp ⊢
        exact Nat.lt_of_lt_of_le hexp hnow

/-- A pass with all messengers available attempts the unexpired messages in the order of their
    storing exactly where the head is alone or has expired; and in a run of stores and of passes whose
    sends all succeed, whose passes meet this and whose clock does not go back, the client receives
    the messages in the order in which they were stored. -/
theorem passes_in_order :
    (∀ (ops : List (Op Msg)) (lease : RelayLease Msg) (log : List (List (Nat × Status))),
      runOps step new ops = .ok (lease, log) → ∀ visit, Available visit →
        (AttemptsInOrder lease visit ↔ HeadPassed lease visit)) ∧
    ∀ ops : List (Op Msg), (∀ op ∈ ops, Delivers op) → ops.Pairwise NotBefore →
      SafeRun step HeadPassedIn new ops →
        ∃ lease log, runOps step new ops = .ok (lease, log) ∧ (received log).Pairwise (· < ·) := by
  constructor
  · intro ops lease log hrun visit hall
    obtain ⟨l, h⟩ := @runOps_keeps _ _ _ step (fun lease => ∃ l, Holds lease l) _ _ _ holds_kept ops
      ⟨[], holds_new⟩ hrun
    exact h.attemptsInOrder_iff hall
  · intro ops hdelivers hclock hsafe
    exact received_run ops new [] [] holds_new List.Pairwise.nil
      (fun r hr => absurd hr not_mem_nil) (fun e he => absurd he not_mem_nil) hdelivers
      hclock hsafe

/-- A message is stored and sent, and then another one. -/
theorem passes_in_order_two :
    (AttemptsInOrder ((new : RelayLease Nat).archivePutMessage1 5 0).1 (fun _ => ⟨0, true, .success⟩) ↔
      HeadPassed ((new : RelayLease Nat).archivePutMessage1 5 0).1 fun _ => ⟨0, true, .success⟩) ∧
    ∃ lease log, runOps step (new : RelayLease Nat) [.put 5 0, .sendAll fun _ => ⟨0, true, .success⟩,
      .put 6 1, .sendAll fun _ => ⟨1, true, .success⟩] = .ok (lease, log) ∧
        (received log).Pairwise (· < ·) := by
  refine ⟨passes_in_order.1 [.put 5 0] _ _ rfl _ fun _ => rfl, passes_in_order.2 _ ?_ ?_ (by decide)⟩
  · simp [Delivers]
  · simp [NotBefore]

/-- Two messages are stored. The pass sends the second one only. -/
theorem not_attemptsInOrder :
    ¬∀ (ops : List (Op Nat)) (lease : RelayLease Nat) (log : List (List (Nat × Status))),
      runOps step new ops = .ok (lease, log) → ∀ visit, Available visit →
        AttemptsInOrder lease visit := by
  intro h
  have hpass := h [.put 5 0, .put 6 0] _ _ rfl (fun _ => ⟨0, true, .success⟩) fun _ => rfl
  revert hpass
  decide

end JxtaC.RelayLease
