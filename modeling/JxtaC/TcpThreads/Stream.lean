import JxtaC.TcpConnection.Reassembly
import JxtaC.TcpThreads

/-
  What the threads of a TCP connection make of its stream. `complete` is what `process_data` would
  deliver with the connection to itself; a section of the worker does not change it, whatever arrives
  afterwards (`Same`): a greeting that is taken as soon as it is there is the one that is found later
  (`splitBrigade_append`), and the bytes behind it go the way of `feed`.
-/

namespace JxtaC

open Lib List

/-- Buckets behind those that there are. -/
theorem splitBrigade_append {σ : Type} (fn : SplitFn σ) (arg : σ) (brigade more : List (List Byte))
    (out : List Byte) : splitBrigade fn arg (brigade ++ more) out =
      (splitBrigade fn arg brigade out >>= fun r =>
        if r.2.2.2 = .success then .ok (r.1, r.2.1 ++ more, r.2.2.1, .success)
        else splitBrigade fn r.1 more r.2.2.1) := by
  induction brigade generalizing arg out with
  | nil => rfl
  | cons data brigade ih =>
    rw [cons_append, splitBrigade, splitBrigade]
    cases fn arg data with
    | error f => rfl
    | ok r =>
      obtain ⟨arg', used, status⟩ := r
      rw [ok_bind, ok_bind]
      dsimp only
      split
      next =>
        split
        next => rfl
        next => rfl
      next => exact ih arg' (out ++ data)

/-- What `split_brigade` leaves. -/
theorem splitBrigade_rest {σ : Type} {fn : SplitFn σ} {arg arg' : σ}
    {brigade rest : List (List Byte)} {out out' : List Byte} {rv : AprStatus}
    (h : splitBrigade fn arg brigade out = .ok (arg', rest, out', rv)) :
    rest.flatten.length ≤ brigade.flatten.length ∧
      ((∀ bucket ∈ brigade, bucket ≠ []) → ∀ bucket ∈ rest, bucket ≠ []) ∧
      ((rv = .success ∧ brigade ≠ []) ∨ (rv = .eagain ∧ rest = [])) := by
  induction brigade generalizing arg out with
  | nil =>
    cases h
    exact ⟨Nat.le_refl _, fun _ _ h => absurd h not_mem_nil, .inr ⟨rfl, rfl⟩⟩
  | cons data brigade ih =>
    rw [splitBrigade] at h
    obtain ⟨⟨arg₁, used, status⟩, hfn, h⟩ := bind_eq_ok.mp h
    dsimp only at h
    split at h
    next =>
      split at h
      next hused =>
        cases h
        refine ⟨by simp, fun hne bucket hmem => ?_, .inl ⟨rfl, cons_ne_nil _ _⟩⟩
        rcases mem_cons.mp hmem with rfl | hmem
        · intro hnil
          rw [drop_eq_nil_iff] at hnil
          omega
        · exact hne bucket (mem_cons_of_mem _ hmem)
      next =>
        cases h
        exact ⟨by simp, fun hne bucket hmem => hne bucket (mem_cons_of_mem _ hmem),
          .inl ⟨rfl, cons_ne_nil _ _⟩⟩
    next =>
      obtain ⟨hlength, hbuckets, hrv⟩ := ih h
      refine ⟨?_, fun hne => hbuckets fun b hb => hne b (mem_cons_of_mem _ hb),
        hrv.imp_left fun h => ⟨h.1, cons_ne_nil _ _⟩⟩
      rw [flatten_cons, length_append]
      omega

namespace TcpConnection

section Welcome
variable {uriParse : CString → Uri} {messageRead : List Byte → Status} {me me' : TcpConnection}
  {rv : AprStatus}

/-- A connection that waits for the greeting. -/
structure Waits (me : TcpConnection) : Prop where
  opened : me.closed = false
  unwelcomed : me.itsWelcome = none
  undelivered : me.delivered = []
  context : me.msgCtx = .reset
  buckets : ∀ bucket ∈ me.brigade, bucket ≠ []

theorem waits_start (destAddr : EndpointAddress) (myMsgVersion : Int) :
    (start destAddr myMsgVersion).Waits :=
  ⟨rfl, rfl, rfl, rfl, fun _ h => absurd h not_mem_nil⟩

theorem mem_arrive {more : List (List Byte)} (h : ∀ bucket ∈ me.brigade, bucket ≠ [])
    (hmore : ∀ bucket ∈ more, bucket ≠ []) : ∀ bucket ∈ (me.arrive more).brigade, bucket ≠ [] := by
  intro bucket hmem
  rcases mem_append.mp hmem with hmem | hmem
  · exact h bucket hmem
  · exact hmore bucket hmem

theorem Waits.arrive {more : List (List Byte)} (h : me.Waits)
    (hmore : ∀ bucket ∈ more, bucket ≠ []) : (me.arrive more).Waits :=
  ⟨h.opened, h.unwelcomed, h.undelivered, h.context, mem_arrive h.buckets hmore⟩

theorem Receives.arrive {more : List (List Byte)} (h : me.Receives)
    (hmore : ∀ bucket ∈ more, bucket ≠ []) : (me.arrive more).Receives :=
  ⟨h.opened, h.welcomed, mem_arrive h.buckets hmore, h.collected⟩

/-- What is there of the greeting, what is behind it, or that it is none. -/
theorem processWelcome_spec (h : me.Waits) (hok : me.processWelcome uriParse = .ok (me', rv)) :
    me'.brigade.flatten.length ≤ me.brigade.flatten.length ∧
      ((rv = .eagain ∧ me'.Waits ∧ me'.brigade = []) ∨
        (rv = .eof ∧ me.brigade ≠ [] ∧ me'.Waits) ∨
        (rv = .success ∧ me.brigade ≠ [] ∧ me'.Receives)) := by
  unfold processWelcome at hok
  obtain ⟨⟨arg, brigade, buf, rv'⟩, hsplit, hok⟩ := bind_eq_ok.mp hok
  obtain ⟨hlength, hbuckets, hrv⟩ := splitBrigade_rest hsplit
  have hwaits : ∀ buf', ({ me with brigade, buf := buf' } : TcpConnection).Waits := fun _ =>
    ⟨h.opened, h.unwelcomed, h.undelivered, h.context, hbuckets h.buckets⟩
  dsimp only at hok
  split at hok
  next hne =>
    cases hok
    obtain ⟨rfl, rfl⟩ := hrv.resolve_left fun h => hne h.1
    exact ⟨Nat.zero_le _, .inl ⟨rfl, hwaits buf, rfl⟩⟩
  next hsuccess =>
    have hbrigade := (hrv.resolve_right fun h => hsuccess (by rw [h.1]; decide)).2
    split at hok
    next =>
      cases hok
      exact ⟨hlength, .inr (.inl ⟨rfl, hbrigade, hwaits []⟩)⟩
    next =>
      split at hok
      next => cases hok
      next =>
        cases hok
        refine ⟨hlength, .inr (.inr ⟨rfl, hbrigade, h.opened, Option.some_ne_none _,
          hbuckets h.buckets, fun _ => ?_⟩)⟩
        rw [h.context]
        exact collected_reset

/-- Buckets that arrive behind the greeting are not looked at. -/
theorem processWelcome_arrive (hok : me.processWelcome uriParse = .ok (me', rv))
    (more : List (List Byte)) : (me.arrive more).processWelcome uriParse =
      if rv = .eagain then (me'.arrive more).processWelcome uriParse
      else .ok (me'.arrive more, rv) := by
  unfold processWelcome at hok
  obtain ⟨⟨arg, brigade, buf, rv'⟩, hsplit, hok⟩ := bind_eq_ok.mp hok
  obtain ⟨-, -, hrv⟩ := splitBrigade_rest hsplit
  have happend := splitBrigade_append splitWelcome () me.brigade more me.buf
  rw [hsplit, ok_bind] at happend
  dsimp only at hok happend
  split at hok
  next hne =>
    cases hok
    obtain ⟨rfl, rfl⟩ := hrv.resolve_left fun h => hne h.1
    rw [if_pos rfl]
    rw [if_neg hne] at happend
    unfold processWelcome
    rw [show (me.arrive more).brigade = me.brigade ++ more from rfl,
      show (me.arrive more).buf = me.buf from rfl, happend]
    rfl
  next hrv' =>
    obtain rfl : rv' = .success := not_not.mp hrv'
    rw [if_pos rfl] at happend
    have hne : rv ≠ .eagain := by
      rintro rfl
      split at hok
      next => cases hok
      next => split at hok <;> cases hok
    rw [if_neg hne]
    unfold processWelcome
    rw [show (me.arrive more).brigade = me.brigade ++ more from rfl,
      show (me.arrive more).buf = me.buf from rfl, happend, ok_bind]
    dsimp only
    rw [if_neg (by decide)]
    split at hok
    next =>
      cases hok
      rfl
    next =>
      split at hok
      next => cases hok
      next =>
        cases hok
        rfl

end Welcome

section Complete
variable {uriParse : CString → Uri} {messageRead : List Byte → Status} {me me' : TcpConnection}
  {rv : AprStatus} {more : List (List Byte)}

theorem complete_closed (h : me.closed = true) :
    complete uriParse messageRead me = me.delivered := by
  unfold complete
  rw [if_pos h]

theorem complete_opened (h : me.closed = false) : complete uriParse messageRead me =
    deliveries uriParse messageRead (me.brigade.flatten.length + 2) me := by
  unfold complete
  rw [h, if_neg (by decide)]

/-- With the greeting, what is delivered is what `feed` delivers. -/
theorem deliveries_eq (turns : Nat) (h : me.Receives)
    (hturns : me.brigade.flatten.length + (if me.msgCtx.msg then 2 else 1) ≤ turns) :
    deliveries uriParse messageRead turns me = (fed messageRead me).delivered := by
  induction turns generalizing me with
  | zero =>
    split at hturns
    · omega
    · omega
  | succ turns ih =>
    unfold deliveries
    obtain ⟨me', again, hturn, hfed, hend⟩ | ⟨hturn, -, hdelivered⟩ :=
      @processTurn_spec uriParse messageRead me h
    · rw [hturn]
      dsimp only
      rcases hend with ⟨rfl, hnil, -⟩ | ⟨rfl, hreceives, hmsg, hlen⟩
      · rw [if_neg (by decide), ← hfed, fed_of_nil hnil]
      · rw [if_pos rfl, ← hfed]
        refine ih hreceives ?_
        rw [hmsg, if_neg (by decide)]
        split at hturns
        · rw [if_pos ‹_›] at hlen
          omega
        · rw [if_neg ‹_›] at hlen
          omega
    · rw [hturn, hdelivered]

/-- A connection that has its greeting, or takes no more. -/
def Settled (me : TcpConnection) : Prop := me.closed = true ∨ me.Receives

/-- With the greeting, the bytes go the way of `feed`. -/
theorem complete_arrive (h : me.Settled) (hmore : ∀ bucket ∈ more, bucket ≠ []) :
    complete uriParse messageRead (me.arrive more) =
      (feed messageRead (fed messageRead me) more.flatten).delivered := by
  rcases h with hclosed | hreceives
  · have hclosed' : ({ me with brigade := [] } : TcpConnection).closed = true := hclosed
    have harrived : (me.arrive more).closed = true := hclosed
    rw [complete_closed harrived]
    unfold fed
    rw [feed_closed hclosed', feed_closed hclosed']
    rfl
  · have hreceives' := hreceives.arrive hmore
    have hloop := @deliveries_eq uriParse messageRead _
      ((me.arrive more).brigade.flatten.length + 2) hreceives' (by split <;> omega)
    rw [complete_opened hreceives'.opened, hloop]
    have hfed : fed messageRead (me.arrive more)
        = feed messageRead (fed messageRead me) more.flatten := by
      unfold fed
      rw [show (me.arrive more).brigade = me.brigade ++ more from rfl, flatten_append,
        feed_append]
      rfl
    rw [hfed]

/-- A section that leaves what the bytes come to leaves what is delivered in the end. -/
theorem complete_arrive_congr (h : me.Settled) (h' : me'.Settled)
    (hfed : fed messageRead me' = fed messageRead me) (hmore : ∀ bucket ∈ more, bucket ≠ []) :
    complete uriParse messageRead (me'.arrive more)
      = complete uriParse messageRead (me.arrive more) := by
  rw [complete_arrive h' hmore, complete_arrive h hmore, hfed]

theorem processWelcome_delivered (h : me.processWelcome uriParse = .ok (me', rv)) :
    me'.delivered = me.delivered := by
  unfold processWelcome at h
  obtain ⟨⟨arg, brigade, buf, rv'⟩, -, h⟩ := bind_eq_ok.mp h
  dsimp only at h
  split at h
  next =>
    cases h
    rfl
  next =>
    split at h
    next =>
      cases h
      rfl
    next =>
      split at h
      next => cases h
      next =>
        cases h
        rfl

/-- Without the greeting, it comes first. -/
theorem complete_waits (h : me.Waits) : complete uriParse messageRead me =
    match me.processWelcome uriParse with
    | .ok (me', .success) => (fed messageRead me').delivered
    | _ => [] := by
  rw [complete_opened h.opened]
  cases hwelcome : me.processWelcome uriParse with
  | error f =>
    unfold deliveries
    rw [processTurn_fault h.unwelcomed hwelcome]
    exact h.undelivered
  | ok r =>
    obtain ⟨me', rv⟩ := r
    obtain ⟨hlength, ⟨rfl, hwaits, -⟩ | ⟨rfl, -, hwaits⟩ | ⟨rfl, -, hreceives⟩⟩ :=
      processWelcome_spec h hwelcome
    · unfold deliveries
      rw [processTurn_no_welcome h.unwelcomed hwelcome (by decide)]
      exact hwaits.undelivered
    · unfold deliveries
      rw [processTurn_no_welcome h.unwelcomed hwelcome (by decide)]
      exact hwaits.undelivered
    · have hloop := @deliveries_eq uriParse messageRead me' (me.brigade.flatten.length + 2)
        hreceives (by split <;> omega)
      have hdelivered := processWelcome_delivered hwelcome
      dsimp only
      rw [← hloop]
      unfold deliveries
      rw [processTurn_welcome h.unwelcomed hwelcome hreceives.welcomed, hdelivered]

/-- The worker looks for the greeting as soon as there is something, or later. -/
theorem complete_processWelcome (h : me.Waits)
    (hok : me.processWelcome uriParse = .ok (me', rv)) (hmore : ∀ bucket ∈ more, bucket ≠ []) :
    complete uriParse messageRead (me.arrive more) =
      if rv = .eof then [] else complete uriParse messageRead (me'.arrive more) := by
  have harrive := processWelcome_arrive hok more
  rw [complete_waits (h.arrive hmore)]
  obtain ⟨-, ⟨rfl, hwaits, -⟩ | ⟨rfl, -⟩ | ⟨rfl, -, hreceives⟩⟩ := processWelcome_spec h hok
  · rw [if_pos rfl] at harrive
    rw [harrive, if_neg (by decide), complete_waits (hwaits.arrive hmore)]
  · rw [if_neg (by decide)] at harrive
    rw [harrive, if_pos rfl]
  · rw [if_neg (by decide)] at harrive
    have hall := @complete_arrive uriParse messageRead (me'.arrive more) [] (.inr (hreceives.arrive hmore))
      (fun _ h => absurd h not_mem_nil)
    rw [harrive, if_neg (by decide)]
    rw [show (me'.arrive more).arrive [] = me'.arrive more from by
      unfold TcpConnection.arrive
      rw [append_nil]] at hall
    exact hall.symm

/-- The header block is read without anything being delivered. -/
theorem processHeaders_delivered (h : me.processHeaders = .ok (me', rv)) :
    me'.delivered = me.delivered := by
  unfold processHeaders at h
  obtain ⟨⟨ctx, brigade, buf, rv'⟩, -, h⟩ := bind_eq_ok.mp h
  dsimp only at h
  split at h
  next =>
    cases h
    rfl
  next =>
    obtain ⟨⟨ctx', used, status⟩, -, h⟩ := bind_eq_ok.mp h
    split at h
    next => cases h
    next =>
      cases h
      rfl

/-- A block that is read to its end does not make the assertion fail. -/
theorem HeadersRead.not_aborted (h : me.HeadersRead) : me.processHeaders ≠ .error .aborted := by
  intro habort
  unfold HeadersRead at h
  unfold processHeaders at habort
  cases hsplit : splitBrigade TcpMsgCtx.splitHeaders me.msgCtx me.brigade me.buf with
  | error f =>
    rw [hsplit] at h
    exact h
  | ok r =>
    obtain ⟨ctx, brigade, block, rv⟩ := r
    rw [hsplit] at h
    rw [hsplit, ok_bind] at habort
    dsimp only at h habort
    split at habort
    next => exact nomatch habort
    next hrv =>
      have h := h (not_not.mp hrv)
      cases hread : ctx.readHeaders block with
      | error f =>
        rw [hread] at h
        exact h
      | ok r =>
        obtain ⟨ctx', used, status⟩ := r
        rw [hread] at h
        rw [hread, ok_bind] at habort
        dsimp only at h habort
        rw [if_neg fun hor => hor.elim (fun hne => hne h.1) fun hne => hne h.2] at habort
        exact nomatch habort

/-- A message is in `buf`. -/
structure Ripe (me : TcpConnection) : Prop where
  opened : me.closed = false
  welcomed : me.itsWelcome ≠ none
  buckets : ∀ bucket ∈ me.brigade, bucket ≠ []

theorem Ripe.arrive (h : me.Ripe) (hmore : ∀ bucket ∈ more, bucket ≠ []) : (me.arrive more).Ripe :=
  ⟨h.opened, h.welcomed, mem_arrive h.buckets hmore⟩

theorem Ripe.deliver (h : me.Ripe) : (me.deliver messageRead).Settled := by
  unfold TcpConnection.deliver
  split
  next => exact .inr ⟨h.opened, h.welcomed, h.buckets, fun _ => collected_reset⟩
  next => exact .inl rfl

/-- The message that comes next, or what there is of it, unless its header block makes the assertion
fail. -/
theorem takeMessage_spec (messageRead : List Byte → Status) (h : me.Receives) :
    (∃ me' rv, me.takeMessage = .ok (me', rv) ∧ me'.delivered = me.delivered ∧
      ((rv = .eagain ∧ me'.brigade = [] ∧ me'.Receives ∧ fed messageRead me' = fed messageRead me) ∨
        (rv = .success ∧ me.brigade ≠ [] ∧ me'.Ripe ∧
          fed messageRead (me'.deliver messageRead) = fed messageRead me))) ∨
    (me.takeMessage = .error .aborted ∧ me.msgCtx.msg = false ∧ ¬me.HeadersRead) := by
  have hbody : ∀ {me : TcpConnection}, me.Receives → me.msgCtx.msg = true → ∃ me' rv,
      (splitBrigade TcpMsgCtx.splitMessage me.msgCtx me.brigade me.buf >>= fun r =>
        Except.ok ({ me with msgCtx := r.1, brigade := r.2.1, buf := r.2.2.1 }, r.2.2.2))
          = .ok (me', rv) ∧ me'.delivered = me.delivered ∧
      ((rv = .eagain ∧ me'.brigade = [] ∧ me'.Receives ∧ fed messageRead me' = fed messageRead me) ∨
        (rv = .success ∧ me.brigade ≠ [] ∧ me'.Ripe ∧
          fed messageRead (me'.deliver messageRead) = fed messageRead me)) := by
    intro me h hmsg
    obtain ⟨me', again, hturn, hfed, hend⟩ := @bodyTurn_spec messageRead me h hmsg
    unfold bodyTurn at hturn
    obtain ⟨⟨ctx, brigade, buf, rv⟩, hsplit, hturn⟩ := bind_eq_ok.mp hturn
    obtain ⟨-, hbuckets, hrv⟩ := splitBrigade_rest hsplit
    rw [hsplit, ok_bind]
    dsimp only at hturn
    refine ⟨_, _, rfl, rfl, ?_⟩
    rcases hrv with ⟨rfl, hne⟩ | ⟨rfl, rfl⟩
    · rw [if_neg (by decide)] at hturn
      cases hturn
      exact .inr ⟨rfl, hne, ⟨h.opened, h.welcomed, hbuckets h.buckets⟩, hfed⟩
    · rw [if_pos (by decide)] at hturn
      cases hturn
      refine .inl ⟨rfl, rfl, ?_, hfed⟩
      rcases hend with ⟨-, -, hclosed | hreceives⟩ | ⟨hagain, -⟩
      · exact absurd (h.opened.symm.trans hclosed.1) (by decide)
      · exact hreceives
      · cases hagain
  unfold takeMessage
  cases hmsg : me.msgCtx.msg with
  | true =>
    rw [if_pos rfl, pure_eq_ok, ok_bind]
    exact .inl (hbody h hmsg)
  | false =>
    rw [if_neg (by decide)]
    obtain ⟨me₁, rv, hheaders, hfed, hreceives, hrv⟩ | ⟨hheaders, -⟩ :=
      @processHeaders_spec messageRead me h hmsg
    case inr =>
      rw [hheaders]
      exact .inr ⟨rfl, rfl, fun hread => hread.not_aborted hheaders⟩
    rw [hheaders, ok_bind]
    dsimp only
    left
    have hdelivered := processHeaders_delivered hheaders
    rcases hrv with ⟨rfl, hnil⟩ | ⟨rfl, hmsg₁, hlength⟩
    · rw [if_pos (by decide)]
      exact ⟨me₁, _, rfl, hdelivered, .inl ⟨rfl, hnil, hreceives, hfed⟩⟩
    · rw [if_neg (by decide)]
      obtain ⟨me', rv, htake, hsame, hcases⟩ := hbody hreceives hmsg₁
      have hne : me.brigade ≠ [] := by
        intro hnil
        rw [hnil] at hlength
        exact absurd hlength (Nat.not_succ_le_zero _)
      rw [hfed] at hcases
      exact ⟨me', rv, htake, hsame.trans hdelivered, hcases.imp_right fun h => ⟨h.1, hne, h.2.2⟩⟩

section
variable (me : TcpConnection)

theorem deliver_extends : me.delivered <+: (me.deliver messageRead).delivered := by
  unfold TcpConnection.deliver
  split
  next => exact prefix_append _ _
  next => exact prefix_refl _

/-- What is delivered is not taken back. -/
theorem feedByte_extends (b : Byte) : me.delivered <+: (feedByte messageRead me b).delivered := by
  have hripe : me.delivered <+: (me.ripe messageRead).delivered := by
    unfold ripe
    split
    next => exact deliver_extends me
    next => exact prefix_refl _
  have hbody : ∀ me : TcpConnection, me.delivered <+: (me.bodyByte messageRead b).delivered := by
    intro me
    have hdeliver := @deliver_extends messageRead { me with
      msgCtx := { me.msgCtx with deficit := me.msgCtx.deficit - 1 }
      buf := me.buf ++ [b] }
    unfold bodyByte
    dsimp only
    split
    next => exact hdeliver
    next => exact prefix_refl _
  have hheader : ∀ me : TcpConnection, (me.headerByte b).delivered = me.delivered := by
    intro me
    unfold headerByte headersDone
    dsimp only
    split
    next =>
      split
      next => split <;> rfl
      next => rfl
    next => rfl
  unfold feedByte
  split
  next => exact prefix_refl _
  next =>
    split
    next => exact prefix_refl _
    next =>
      refine hripe.trans ?_
      dsimp only
      split
      next => exact prefix_refl _
      next =>
        split
        next => exact hbody _
        next => rw [hheader]

theorem feed_extends (data : List Byte) :
    me.delivered <+: (feed messageRead me data).delivered := by
  induction data generalizing me with
  | nil => exact prefix_refl _
  | cons b data ih => exact (feedByte_extends me b).trans (ih _)

theorem arrive_nil : me.arrive [] = me := by
  unfold TcpConnection.arrive
  rw [append_nil]

theorem arrive_arrive (first more : List (List Byte)) :
    (me.arrive first).arrive more = me.arrive (first ++ more) := by
  unfold TcpConnection.arrive
  rw [append_assoc]

end

theorem delivered_prefix_complete (h : me.Settled) :
    me.delivered <+: complete uriParse messageRead me := by
  have hall := @complete_arrive uriParse messageRead me [] h fun _ h => absurd h not_mem_nil
  rw [arrive_nil] at hall
  rw [hall]
  exact feed_extends { me with brigade := [] } _

/-- Nothing is left to do. -/
theorem complete_of_nil (h : me.Waits ∨ me.Settled) (hnil : me.brigade = []) :
    complete uriParse messageRead me = me.delivered := by
  rcases h with hwaits | hsettled
  · rw [complete_waits hwaits, hwaits.undelivered]
    unfold processWelcome
    rw [hnil]
    rfl
  · have hall := @complete_arrive uriParse messageRead me [] hsettled
      fun _ h => absurd h not_mem_nil
    rw [arrive_nil, fed_of_nil hnil] at hall
    exact hall

/-- A message that is in `buf` is delivered, whatever arrives in the meantime. -/
theorem complete_deliver_arrive (first : List (List Byte)) :
    complete uriParse messageRead (((me.arrive first).deliver messageRead).arrive more) =
      complete uriParse messageRead ((me.deliver messageRead).arrive (first ++ more)) := by
  unfold TcpConnection.deliver
  rw [show (me.arrive first).buf = me.buf from rfl]
  split
  next =>
    unfold TcpConnection.arrive
    rw [append_assoc]
  next =>
    rw [complete_closed rfl, complete_closed rfl]
    rfl

theorem processWelcome_error {f : Fault} (h : me.processWelcome uriParse = .error f) :
    f = .nullPointer := by
  have hsplit : ∀ (brigade : List (List Byte)) (out : List Byte),
      ∃ r, splitBrigade splitWelcome () brigade out = .ok r := by
    intro brigade
    induction brigade with
    | nil => exact fun out => ⟨_, rfl⟩
    | cons data brigade ih =>
      intro out
      obtain ⟨⟨arg, used, status⟩, hfn⟩ : ∃ r, splitWelcome () data = .ok r := by
        unfold splitWelcome
        split
        next => exact ⟨_, rfl⟩
        next =>
          split
          next => exact ⟨_, rfl⟩
          next => dsimp only; split <;> exact ⟨_, rfl⟩
      rw [splitBrigade, hfn, ok_bind]
      dsimp only
      split
      next => split <;> exact ⟨_, rfl⟩
      next => exact ih _
  obtain ⟨⟨arg, brigade, buf, rv⟩, hr⟩ := hsplit me.brigade me.buf
  unfold processWelcome at h
  rw [hr, ok_bind] at h
  dsimp only at h
  split at h
  next => cases h
  next =>
    split at h
    next => cases h
    next =>
      split at h
      next =>
        cases h
        rfl
      next => cases h

end Complete

end TcpConnection

end JxtaC
