import JxtaC.TcpConnection.Scan

/-
  The receiving side of a TCP connection byte by byte (jxta_transport_tcp_connection.c).
  `feed` is what a connection with a welcome message does with the bytes of its buckets, whatever
  the buckets are: `processLoop_eq` is that `process_data` does the same, and ends. Where the assertion
  about `read_headers` fails, `feed` is `Stuck`. A message without a body is delivered with the byte
  behind it, as in the source.
-/

namespace JxtaC

open Lib List

namespace TcpMsgCtx
variable (ctx : TcpMsgCtx)

/-- `split_brigade` with `split_message`: more is missing than there is. -/
theorem splitBrigade_splitMessage_part (brigade : List (List Byte)) (out : List Byte)
    (hlen : brigade.flatten.length < ctx.deficit ∨ brigade = []) :
    splitBrigade splitMessage ctx brigade out =
      .ok ({ ctx with deficit := ctx.deficit - brigade.flatten.length }, [],
        out ++ brigade.flatten, .eagain) := by
  induction brigade generalizing ctx out with
  | nil =>
    rw [splitBrigade, flatten_nil, append_nil, length_nil, Nat.sub_zero]
  | cons data brigade ih =>
    obtain hlen | hnil := hlen
    · rw [flatten_cons, length_append] at hlen
      have hrest := ih { ctx with deficit := ctx.deficit - data.length } (out ++ data)
        (.inl (by dsimp only; omega))
      have hturn : splitMessage ctx data
          = .ok ({ ctx with deficit := ctx.deficit - data.length }, data.length, .no) := by
        unfold splitMessage
        rw [if_neg (by omega)]
        dsimp only
        rw [if_neg (by omega)]
      rw [splitBrigade, hturn, ok_bind]
      dsimp only
      rw [if_neg (by decide), hrest, flatten_cons, length_append, Nat.sub_sub,
        append_assoc]
    · cases hnil

/-- All that is missing is there. -/
theorem splitBrigade_splitMessage_whole (brigade : List (List Byte))
    (hne : ∀ bucket ∈ brigade, bucket ≠ []) (out : List Byte)
    (hlen : ctx.deficit ≤ brigade.flatten.length) (hbrigade : brigade ≠ []) :
    ∃ brigade', (∀ bucket ∈ brigade', bucket ≠ []) ∧
      brigade'.flatten = brigade.flatten.drop ctx.deficit ∧
      splitBrigade splitMessage ctx brigade out = .ok ({ ctx with deficit := 0 }, brigade',
        out ++ brigade.flatten.take ctx.deficit, .success) := by
  induction brigade generalizing ctx out with
  | nil => exact absurd rfl hbrigade
  | cons data brigade ih =>
    have hne' : ∀ bucket ∈ brigade, bucket ≠ [] := fun b hb => hne b (mem_cons_of_mem _ hb)
    have hpos : 0 < data.length := length_pos_iff.mpr (hne data mem_cons_self)
    rw [flatten_cons, length_append] at hlen
    by_cases hlt : ctx.deficit < data.length
    · have hturn : splitMessage ctx data = .ok ({ ctx with deficit := 0 }, ctx.deficit, .yes) := by
        unfold splitMessage
        rw [if_pos hlt]
      refine ⟨data.drop ctx.deficit :: brigade, ?_, ?_, ?_⟩
      · intro bucket hmem
        rcases mem_cons.mp hmem with rfl | hmem
        · intro hnil
          have hdrop := congrArg List.length hnil
          rw [length_drop, length_nil] at hdrop
          omega
        · exact hne' bucket hmem
      · rw [flatten_cons, flatten_cons, drop_append_of_le_length (by omega)]
      · rw [splitBrigade, hturn, ok_bind, flatten_cons,
          take_append_of_le_length (by omega)]
        dsimp only
        rw [if_pos (by decide), if_pos hlt]
        rfl
    · by_cases hzero : ctx.deficit - data.length = 0
      · have heq : ctx.deficit = data.length := by omega
        have hturn : splitMessage ctx data = .ok ({ ctx with deficit := 0 }, data.length, .yes) := by
          unfold splitMessage
          rw [if_neg hlt]
          dsimp only
          rw [hzero, if_pos rfl]
        refine ⟨brigade, hne', ?_, ?_⟩
        · rw [flatten_cons, heq, drop_left]
        · rw [splitBrigade, hturn, ok_bind, flatten_cons, heq, take_left]
          dsimp only
          rw [if_pos (by decide), if_neg (Nat.lt_irrefl _)]
          rfl
      · have hturn : splitMessage ctx data
            = .ok ({ ctx with deficit := ctx.deficit - data.length }, data.length, .no) := by
          unfold splitMessage
          rw [if_neg hlt]
          dsimp only
          rw [if_neg hzero]
        have hbrigade' : brigade ≠ [] := by
          rintro rfl
          rw [flatten_nil, length_nil] at hlen
          omega
        obtain ⟨brigade', hall, hflat, heq⟩ := ih { ctx with deficit := ctx.deficit - data.length }
          hne' (out ++ data) (by dsimp only; omega) hbrigade'
        refine ⟨brigade', hall, ?_, ?_⟩
        · rw [hflat, flatten_cons, drop_append,
            drop_eq_nil_of_le (show data.length ≤ ctx.deficit by omega), nil_append]
        · rw [splitBrigade, hturn, ok_bind]
          dsimp only
          rw [if_neg (by decide), heq, flatten_cons, take_append,
            take_of_length_le (show data.length ≤ ctx.deficit by omega), append_assoc]

theorem splitTurn_msg (data : List Byte) : (ctx.splitTurn data).1.msg = ctx.msg := by
  unfold splitTurn
  cases ctx.state with
  | hdrName => dsimp only; split <;> rfl
  | hdrBody => dsimp only; split <;> rfl
  | hdrNameSize => rfl
  | hdrBodySizeMsb => rfl
  | hdrBodySizeLsb => rfl
  | hdrDone => rfl

theorem headerByte_msg (b : Byte) : (ctx.headerByte b).msg = ctx.msg := by
  unfold headerByte
  rw [splitTurn_msg]
  unfold settle
  split
  · split <;> rfl
  · split <;> rfl
  · rfl

theorem scanHeaders_msg (data : List Byte) : (scanHeaders ctx data).1.msg = ctx.msg := by
  induction data generalizing ctx with
  | nil => rfl
  | cons b data ih =>
    by_cases hdone : ctx.state = .hdrDone
    · rw [scanHeaders_done hdone]
    · rw [scanHeaders_cons hdone, ih, headerByte_msg]

/-- The scanner takes a byte where there is one. -/
theorem length_scanHeaders {ctx : TcpMsgCtx} (h : ctx.state ≠ .hdrDone) {data : List Byte}
    (hdata : data ≠ []) : (scanHeaders ctx data).2.length < data.length := by
  obtain ⟨b, rest, rfl⟩ := exists_cons_of_ne_nil hdata
  obtain ⟨taken, htaken⟩ := scanHeaders_suffix (ctx.headerByte b) rest
  have hlen := congrArg List.length htaken
  rw [length_append] at hlen
  rw [scanHeaders_cons h, length_cons]
  omega

end TcpMsgCtx

namespace TcpConnection

section Feed
variable (messageRead : List Byte → Status)

/-- The header block of a message is there. -/
def headersDone (me : TcpConnection) : TcpConnection :=
  match me.msgCtx.readHeaders me.buf with
  | .ok (msgCtx, used, status) =>
    if status ≠ .success ∨ used ≠ me.buf.length then me
    else { me with
      buf := []
      msgCtx := { msgCtx with msg := true, deficit := msgCtx.msgSize, header := me.buf } }
  | .error _ => me

/-- The header block is there and was not read to its end. -/
def Stuck (me : TcpConnection) : Prop := me.msgCtx.msg = false ∧ me.msgCtx.state = .hdrDone

instance (me : TcpConnection) : Decidable me.Stuck :=
  inferInstanceAs (Decidable (me.msgCtx.msg = false ∧ me.msgCtx.state = .hdrDone))

/-- How `process_data` ends. -/
def outcome (me : TcpConnection) : Exec TcpConnection :=
  if me.Stuck then .error .aborted else .ok me

/-- A byte of a header block. -/
def headerByte (me : TcpConnection) (b : Byte) : TcpConnection :=
  let me := { me with msgCtx := me.msgCtx.headerByte b, buf := me.buf ++ [b] }
  if me.msgCtx.state = .hdrDone then me.headersDone else me

/-- A byte of a body. -/
def bodyByte (me : TcpConnection) (b : Byte) : TcpConnection :=
  let me := { me with
    msgCtx := { me.msgCtx with deficit := me.msgCtx.deficit - 1 }
    buf := me.buf ++ [b] }
  if me.msgCtx.deficit = 0 then me.deliver messageRead else me

/-- A message of which nothing is missing is delivered. -/
def ripe (me : TcpConnection) : TcpConnection :=
  if me.msgCtx.msg ∧ me.msgCtx.deficit = 0 then me.deliver messageRead else me

/-- The connection takes a byte. -/
def feedByte (me : TcpConnection) (b : Byte) : TcpConnection :=
  if me.closed then me
  else if me.Stuck then me
  else
    let me := me.ripe messageRead
    if me.closed then me else if me.msgCtx.msg then me.bodyByte messageRead b else me.headerByte b

/-- The connection takes bytes. -/
def feed (me : TcpConnection) (data : List Byte) : TcpConnection :=
  data.foldl (feedByte messageRead) me

variable {messageRead} {me : TcpConnection}

theorem feed_append (data more : List Byte) :
    feed messageRead me (data ++ more) = feed messageRead (feed messageRead me data) more :=
  foldl_append

theorem feed_closed (h : me.closed = true) (data : List Byte) : feed messageRead me data = me := by
  induction data with
  | nil => rfl
  | cons b data ih =>
    have hbyte : feedByte messageRead me b = me := if_pos h
    show feed messageRead (feedByte messageRead me b) data = me
    rw [hbyte, ih]

theorem not_stuck_of_msg (h : me.msgCtx.msg = true) : ¬me.Stuck :=
  fun hstuck => Bool.false_ne_true (hstuck.1.symm.trans h)

theorem not_stuck_of_state (h : me.msgCtx.state ≠ .hdrDone) : ¬me.Stuck := fun hstuck => h hstuck.2

theorem feed_stuck (h : me.Stuck) (data : List Byte) : feed messageRead me data = me := by
  induction data with
  | nil => rfl
  | cons b data ih =>
    have hbyte : feedByte messageRead me b = me := by
      unfold feedByte
      rw [if_pos h]
      split <;> rfl
    show feed messageRead (feedByte messageRead me b) data = me
    rw [hbyte, ih]

theorem feed_cons (b : Byte) (data : List Byte) :
    feed messageRead me (b :: data) = feed messageRead (feedByte messageRead me b) data := rfl

section
variable (hopen : me.closed = false)
include hopen

/-- Delivering does not wait for the next byte, as far as that byte goes. -/
theorem feedByte_deliver (hmsg : me.msgCtx.msg = true) (hzero : me.msgCtx.deficit = 0) (b : Byte) :
    feedByte messageRead me b = feedByte messageRead (me.deliver messageRead) b := by
  have hripe : me.ripe messageRead = me.deliver messageRead := if_pos ⟨hmsg, hzero⟩
  unfold feedByte
  rw [hopen, if_neg (by decide), if_neg (not_stuck_of_msg hmsg), hripe]
  unfold deliver
  split
  · rw [hopen]
    rfl
  · rfl

/-- Bytes of a header block. -/
theorem feed_headers (hmsg : me.msgCtx.msg = false) (hstate : me.msgCtx.state ≠ .hdrDone)
    {ctx : TcpMsgCtx} {taken rest : List Byte}
    (hscan : TcpMsgCtx.scanHeaders me.msgCtx (taken ++ rest) = (ctx, rest)) :
    feed messageRead me (taken ++ rest) =
      if ctx.state = .hdrDone then
        feed messageRead (headersDone { me with msgCtx := ctx, buf := me.buf ++ taken }) rest
      else { me with msgCtx := ctx, buf := me.buf ++ taken } := by
  induction taken generalizing me with
  | nil =>
    have hrest : rest = [] := by
      by_contra hne
      have hlt := TcpMsgCtx.length_scanHeaders hstate hne
      rw [nil_append] at hscan
      rw [hscan] at hlt
      exact Nat.lt_irrefl _ hlt
    subst hrest
    cases hscan
    rw [if_neg hstate, append_nil, append_nil]
    rfl
  | cons b taken ih =>
    have hbyte : feedByte messageRead me b = me.headerByte b := by
      have hripe : me.ripe messageRead = me := if_neg fun h => by rw [hmsg] at h; cases h.1
      unfold feedByte
      rw [hopen, if_neg (by decide), if_neg (not_stuck_of_state hstate), hripe]
      dsimp only
      rw [hopen, if_neg (by decide), hmsg, if_neg (by decide)]
    rw [cons_append, TcpMsgCtx.scanHeaders_cons hstate] at hscan
    rw [cons_append, feed_cons, hbyte]
    unfold headerByte
    by_cases hdone : (me.msgCtx.headerByte b).state = .hdrDone
    · rw [TcpMsgCtx.scanHeaders_done hdone] at hscan
      obtain ⟨rfl, hrest⟩ := Prod.mk.inj hscan
      obtain rfl : taken = [] := append_left_eq_self.mp hrest
      rw [if_pos hdone, if_pos hdone, nil_append]
    · have hmsg' : (me.msgCtx.headerByte b).msg = false := by
        rw [TcpMsgCtx.headerByte_msg]
        exact hmsg
      have htail := @ih { me with msgCtx := me.msgCtx.headerByte b, buf := me.buf ++ [b] } hopen
        hmsg' hdone hscan
      rw [if_neg hdone, htail, append_assoc]
      rfl

/-- Bytes of a body that goes on behind them. -/
theorem feed_body_part (hmsg : me.msgCtx.msg = true) {data : List Byte}
    (hlen : data.length < me.msgCtx.deficit) :
    feed messageRead me data = { me with
      msgCtx := { me.msgCtx with deficit := me.msgCtx.deficit - data.length }
      buf := me.buf ++ data } := by
  induction data generalizing me with
  | nil =>
    rw [append_nil, length_nil, Nat.sub_zero]
    rfl
  | cons b data ih =>
    rw [length_cons] at hlen
    have hbyte : feedByte messageRead me b = { me with
        msgCtx := { me.msgCtx with deficit := me.msgCtx.deficit - 1 }
        buf := me.buf ++ [b] } := by
      have hripe : me.ripe messageRead = me := if_neg fun h => by omega
      unfold feedByte
      rw [hopen, if_neg (by decide), if_neg (not_stuck_of_msg hmsg), hripe]
      dsimp only
      rw [hopen, if_neg (by decide), hmsg, if_pos rfl]
      unfold bodyByte
      dsimp only
      rw [if_neg (by omega), hopen, hmsg]
    have htail := @ih { me with
        msgCtx := { me.msgCtx with deficit := me.msgCtx.deficit - 1 }
        buf := me.buf ++ [b] } hopen hmsg (by dsimp only; omega)
    rw [feed_cons, hbyte, htail, length_cons, append_assoc, Nat.sub_sub, Nat.add_comm 1]
    rfl

/-- Bytes of a body, and more behind it. -/
theorem feed_body_whole (hmsg : me.msgCtx.msg = true) {data : List Byte}
    (hlen : me.msgCtx.deficit ≤ data.length) (hdata : data ≠ []) :
    feed messageRead me data = feed messageRead (deliver messageRead { me with
      msgCtx := { me.msgCtx with deficit := 0 }
      buf := me.buf ++ data.take me.msgCtx.deficit }) (data.drop me.msgCtx.deficit) := by
  induction data generalizing me with
  | nil => exact absurd rfl hdata
  | cons b data ih =>
    rw [length_cons] at hlen
    by_cases hzero : me.msgCtx.deficit = 0
    · have hself : { me with
          msgCtx := { me.msgCtx with deficit := 0 }
          buf := me.buf ++ (b :: data).take 0 } = me := by
        rw [take_zero, append_nil, ← hzero]
      rw [hzero, hself, drop_zero, feed_cons, feed_cons, feedByte_deliver hopen hmsg hzero]
    · obtain ⟨n, hn⟩ : ∃ n, me.msgCtx.deficit = n + 1 := ⟨me.msgCtx.deficit - 1, by omega⟩
      have hbyte : feedByte messageRead me b = me.bodyByte messageRead b := by
        have hripe : me.ripe messageRead = me := if_neg fun h => hzero h.2
        unfold feedByte
        rw [hopen, if_neg (by decide), if_neg (not_stuck_of_msg hmsg), hripe]
        dsimp only
        rw [hopen, if_neg (by decide), hmsg, if_pos rfl]
      rw [feed_cons, hbyte, hn, take_succ_cons, drop_succ_cons]
      unfold bodyByte
      rw [hn, Nat.add_sub_cancel]
      by_cases hone : n = 0
      · rw [if_pos hone, hone]
        rfl
      · have hdata' : data ≠ [] := by
          rintro rfl
          rw [length_nil] at hlen
          omega
        have htail := @ih { me with
          msgCtx := { me.msgCtx with deficit := n }
          buf := me.buf ++ [b] } hopen hmsg (by dsimp only; omega) hdata'
        rw [if_neg hone, htail, append_assoc]
        rfl

end

end Feed

/-! ## `process_data` -/

/-- A connection with a welcome message, between two steps. -/
structure Receives (me : TcpConnection) : Prop where
  opened : me.closed = false
  welcomed : me.itsWelcome ≠ none
  buckets : ∀ bucket ∈ me.brigade, bucket ≠ []
  collected : me.msgCtx.msg = false → me.msgCtx.Collected me.buf ∧ me.msgCtx.state ≠ .hdrDone

section Process
variable {uriParse : CString → Uri} {messageRead : List Byte → Status} {me : TcpConnection}

/-- What the connection is once it has taken the bytes of its buckets. -/
def fed (messageRead : List Byte → Status) (me : TcpConnection) : TcpConnection :=
  feed messageRead { me with brigade := [] } me.brigade.flatten

theorem fed_of_nil (h : me.brigade = []) : fed messageRead me = me := by
  obtain ⟨version, welcome, useVersion, destAddr, brigade, buf, ctx, delivered, closed⟩ := me
  obtain rfl : brigade = [] := h
  rfl

theorem collected_reset : TcpMsgCtx.reset.Collected [] ∧ TcpMsgCtx.reset.state ≠ .hdrDone :=
  ⟨⟨[], [], fun _ h => absurd h not_mem_nil, rfl, rfl⟩, by decide⟩

theorem Receives.not_stuck (h : me.Receives) : ¬me.Stuck :=
  fun hstuck => (h.collected hstuck.1).2 hstuck.2

/-- The header block, or what there is of it, unless it makes the assertion fail. -/
theorem processHeaders_spec (h : me.Receives) (hmsg : me.msgCtx.msg = false) :
    (∃ me' rv, me.processHeaders = .ok (me', rv) ∧ fed messageRead me' = fed messageRead me ∧
      me'.Receives ∧ ((rv = .eagain ∧ me'.brigade = []) ∨ (rv = .success ∧
        me'.msgCtx.msg = true ∧ me'.brigade.flatten.length + 1 ≤ me.brigade.flatten.length))) ∨
    (me.processHeaders = .error .aborted ∧ (fed messageRead me).Stuck ∧
      (fed messageRead me).delivered = me.delivered) := by
  obtain ⟨hcollected, hstate⟩ := h.collected hmsg
  obtain ⟨brigade, taken, hbuckets, hscan, hflat, hsplit⟩ :=
    TcpMsgCtx.splitBrigade_splitHeaders me.msgCtx hstate me.brigade h.buckets me.buf
  obtain ⟨taken', htaken', hblock⟩ := hcollected.scanHeaders me.brigade.flatten
  obtain ⟨ctx, hctx⟩ : ∃ ctx, (TcpMsgCtx.scanHeaders me.msgCtx me.brigade.flatten).1 = ctx :=
    ⟨_, rfl⟩
  rw [hctx] at hscan hsplit hblock
  obtain rfl : taken' = taken := by
    rw [hscan, hflat] at htaken'
    exact (append_cancel_right htaken').symm
  have hfed : fed messageRead me = if ctx.state = .hdrDone then
      feed messageRead (headersDone { me with
        brigade := [], msgCtx := ctx, buf := me.buf ++ taken' }) brigade.flatten
      else { me with brigade := [], msgCtx := ctx, buf := me.buf ++ taken' } := by
    have hfeed := @feed_headers messageRead { me with brigade := [] } h.opened hmsg hstate ctx taken'
      brigade.flatten (by rw [← hflat]; exact hscan)
    rw [← hflat] at hfeed
    exact hfeed
  have hmsg' : ctx.msg = false := by
    rw [← hctx, TcpMsgCtx.scanHeaders_msg]
    exact hmsg
  unfold processHeaders
  rw [hsplit, ok_bind]
  dsimp only
  by_cases hdone : ctx.state = .hdrDone
  · obtain ⟨headers, hheaders, hblock'⟩ := hblock.exists_headers hdone
    obtain ⟨ctx', used, hread⟩ : ∃ ctx' used,
        ctx.readHeaders (me.buf ++ taken') = .ok (ctx', used, .success) :=
      ⟨_, _, hblock' ▸ TcpMsgCtx.readHeaders_headers hheaders ctx⟩
    rw [if_pos hdone] at hfed
    unfold headersDone at hfed
    dsimp only at hfed
    rw [hread] at hfed
    dsimp only at hfed
    have hpos : 0 < taken'.length := by
      rw [length_pos_iff]
      rintro rfl
      rw [nil_append] at hflat
      by_cases hdata : me.brigade.flatten = []
      · rw [hdata] at hctx
        exact hstate (by rw [← hctx] at hdone; exact hdone)
      · have hlt := TcpMsgCtx.length_scanHeaders hstate hdata
        rw [hscan, hflat] at hlt
        exact Nat.lt_irrefl _ hlt
    rw [if_pos hdone, if_neg (by decide), hread, ok_bind]
    by_cases hused : used = (me.buf ++ taken').length
    · have hread' : ¬(AprStatus.success ≠ .success ∨ used ≠ (me.buf ++ taken').length) :=
        fun hor => hor.elim (fun hne => hne rfl) fun hne => hne hused
      rw [if_neg hread'] at hfed ⊢
      left
      refine ⟨_, _, rfl, hfed.symm, ⟨h.opened, h.welcomed, hbuckets, nofun⟩, .inr ⟨rfl, rfl, ?_⟩⟩
      rw [hflat, length_append]
      dsimp only
      omega
    · have hread' : AprStatus.success ≠ .success ∨ used ≠ (me.buf ++ taken').length := .inr hused
      rw [if_pos hread'] at hfed ⊢
      have hstuck : ({ me with
          brigade := [], msgCtx := ctx, buf := me.buf ++ taken' } : TcpConnection).Stuck :=
        ⟨hmsg', hdone⟩
      rw [feed_stuck hstuck] at hfed
      right
      rw [hfed]
      exact ⟨rfl, hstuck, rfl⟩
  · have hnil : brigade = [] := by
      have hrest := @TcpMsgCtx.scanHeaders_rest me.msgCtx me.brigade.flatten (by rw [hctx]; exact hdone)
      rw [hscan] at hrest
      exact eq_nil_iff_forall_not_mem.mpr fun bucket hmem =>
        hbuckets bucket hmem (flatten_eq_nil_iff.mp hrest bucket hmem)
    subst hnil
    rw [if_neg hdone, if_pos (by decide)]
    left
    refine ⟨_, _, rfl, ?_, ⟨h.opened, h.welcomed, hbuckets, fun _ => ⟨hblock, hdone⟩⟩,
      .inl ⟨rfl, rfl⟩⟩
    rw [hfed, if_neg hdone]
    rfl

/-- The part of `process_data` behind the header block. -/
def bodyTurn (messageRead : List Byte → Status) (me : TcpConnection) :
    Exec (TcpConnection × Bool) := do
  let (msgCtx, brigade, buf, rv) ← splitBrigade TcpMsgCtx.splitMessage me.msgCtx me.brigade me.buf
  let me := { me with msgCtx, brigade, buf }
  if rv ≠ .success then return (me.handleReadingError rv, false)
  else
    let me := me.deliver messageRead
    return (me, !me.closed)

/-- The body, or what there is of it. -/
theorem bodyTurn_spec (h : me.Receives) (hmsg : me.msgCtx.msg = true) :
    ∃ me' again, me.bodyTurn messageRead = .ok (me', again) ∧
      fed messageRead me' = fed messageRead me ∧
      ((again = false ∧ me'.brigade = [] ∧ ((me'.closed = true ∧ ¬me'.Stuck) ∨ me'.Receives)) ∨
        (again = true ∧ me'.Receives ∧ me'.msgCtx.msg = false ∧
          me'.brigade.flatten.length ≤ me.brigade.flatten.length)) := by
  have hdrained : ({ me with brigade := [] } : TcpConnection).closed = false := h.opened
  by_cases hlen : me.brigade.flatten.length < me.msgCtx.deficit ∨ me.brigade = []
  · have hsplit := TcpMsgCtx.splitBrigade_splitMessage_part me.msgCtx me.brigade me.buf hlen
    unfold bodyTurn
    rw [hsplit, ok_bind]
    dsimp only
    rw [if_pos (by decide)]
    refine ⟨_, _, rfl, ?_, .inl ⟨rfl, rfl, .inr ⟨h.opened, h.welcomed, ?_, ?_⟩⟩⟩
    · rw [fed_of_nil rfl]
      rcases hlen with hlen | hnil
      · exact (feed_body_part hdrained hmsg hlen).symm
      · rw [fed_of_nil hnil, hnil, flatten_nil, append_nil, length_nil, Nat.sub_zero]
        unfold handleReadingError
        rw [← hnil]
    · exact fun _ h => absurd h not_mem_nil
    · intro hnot
      dsimp only [handleReadingError] at hnot
      rw [hmsg] at hnot
      cases hnot
  · obtain ⟨hge, hbrigade⟩ := not_or.mp hlen
    obtain ⟨brigade, hbuckets, hflat, hsplit⟩ := TcpMsgCtx.splitBrigade_splitMessage_whole me.msgCtx
      me.brigade h.buckets me.buf (by omega) hbrigade
    have hdata : me.brigade.flatten ≠ [] := by
      obtain ⟨bucket, rest, heq⟩ := exists_cons_of_ne_nil hbrigade
      have hbucket := h.buckets bucket (by rw [heq]; exact mem_cons_self)
      rw [heq, flatten_cons]
      exact fun hnil => hbucket (append_eq_nil_iff.mp hnil).1
    have hfed := @feed_body_whole messageRead { me with brigade := [] } hdrained hmsg
      me.brigade.flatten (by dsimp only; omega) hdata
    unfold bodyTurn
    rw [hsplit, ok_bind]
    dsimp only
    rw [if_neg (by decide)]
    refine ⟨_, _, rfl, ?_, ?_⟩
    · unfold fed
      rw [hfed, ← hflat]
      unfold deliver
      split
      · rfl
      · rw [feed_closed rfl, feed_closed rfl]
        rfl
    · unfold deliver
      split
      · refine .inr ⟨?_, ⟨h.opened, h.welcomed, hbuckets, fun _ => collected_reset⟩, rfl, ?_⟩
        · rw [h.opened]
          rfl
        · rw [hflat, length_drop]
          omega
      · exact .inl ⟨rfl, rfl, .inl ⟨rfl, not_stuck_of_msg hmsg⟩⟩

/-- A turn of the loop: the bytes that it takes go the way of `feed`. -/
theorem processTurn_spec (h : me.Receives) :
    (∃ me' again, me.processTurn uriParse messageRead = .ok (me', again) ∧
      fed messageRead me' = fed messageRead me ∧
      ((again = false ∧ me'.brigade = [] ∧ ((me'.closed = true ∧ ¬me'.Stuck) ∨ me'.Receives)) ∨
        (again = true ∧ me'.Receives ∧ me'.msgCtx.msg = false ∧
          me'.brigade.flatten.length + (if me.msgCtx.msg then 0 else 1)
            ≤ me.brigade.flatten.length))) ∨
    (me.processTurn uriParse messageRead = .error .aborted ∧ (fed messageRead me).Stuck ∧
      (fed messageRead me).delivered = me.delivered) := by
  unfold processTurn
  rw [if_neg h.welcomed, pure_eq_ok, ok_bind]
  dsimp only
  rw [if_neg (by decide)]
  cases hmsg : me.msgCtx.msg with
  | true =>
    obtain ⟨me', again, hbody, hfed, hend⟩ := @bodyTurn_spec messageRead me h hmsg
    rw [if_pos rfl]
    refine .inl ⟨me', again, hbody, hfed, ?_⟩
    rw [if_pos rfl]
    exact hend
  | false =>
    rw [if_neg (by decide)]
    obtain ⟨me₁, rv, hheaders, hfed₁, hreceives, hrv⟩ | ⟨hheaders, hstuck⟩ :=
      @processHeaders_spec messageRead me h hmsg
    case inr =>
      rw [hheaders]
      exact .inr ⟨rfl, hstuck⟩
    rw [hheaders, ok_bind]
    dsimp only
    left
    rcases hrv with ⟨rfl, hnil⟩ | ⟨rfl, hmsg₁, hlen₁⟩
    · rw [if_pos (by decide)]
      exact ⟨me₁, false, rfl, hfed₁, .inl ⟨rfl, hnil, .inr hreceives⟩⟩
    · obtain ⟨me', again, hbody, hfed, hend⟩ := @bodyTurn_spec messageRead me₁ hreceives hmsg₁
      rw [if_neg (by decide)]
      refine ⟨me', again, hbody, hfed.trans hfed₁, ?_⟩
      rcases hend with hend | ⟨hagain, hreceives', hmsg', hlen⟩
      · exact .inl hend
      · refine .inr ⟨hagain, hreceives', hmsg', ?_⟩
        rw [if_neg (by decide)]
        omega

/-- `process_data` ends, and has taken all of the bytes, or its assertion fails. -/
theorem processLoop_eq (turns : Nat) (h : me.Receives)
    (hturns : me.brigade.flatten.length + (if me.msgCtx.msg then 2 else 1) ≤ turns) :
    processLoop uriParse messageRead turns me = (fed messageRead me).outcome ∧
      ((fed messageRead me).Stuck ∨ (((fed messageRead me).closed = true ∨
        (fed messageRead me).Receives) ∧ (fed messageRead me).brigade = [])) := by
  induction turns generalizing me with
  | zero =>
    split at hturns
    · omega
    · omega
  | succ turns ih =>
    rw [processLoop]
    obtain ⟨me', again, hturn, hfed, hend⟩ | ⟨hturn, hstuck, -⟩ :=
      @processTurn_spec uriParse messageRead me h
    · rw [hturn, ok_bind]
      dsimp only
      rcases hend with ⟨rfl, hnil, hends⟩ | ⟨rfl, hreceives, hmsg, hlen⟩
      · have hfree : ¬me'.Stuck := hends.elim (fun hclosed => hclosed.2) Receives.not_stuck
        rw [if_neg (by decide), ← hfed, fed_of_nil hnil]
        unfold outcome
        rw [if_neg hfree]
        exact ⟨rfl, .inr ⟨hends.imp_left fun hclosed => hclosed.1, hnil⟩⟩
      · rw [if_pos rfl, ← hfed]
        refine ih hreceives ?_
        rw [hmsg, if_neg (by decide)]
        split at hturns
        · rw [if_pos ‹_›] at hlen
          omega
        · rw [if_neg ‹_›] at hlen
          omega
    · rw [hturn]
      unfold outcome
      rw [if_pos hstuck]
      exact ⟨rfl, .inl hstuck⟩

end Process

end TcpConnection

end JxtaC
