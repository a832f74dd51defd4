import Mathlib.Data.List.Infix
import JxtaC.TcpConnection.Feed
import JxtaC.WelcomeMessage.RoundTrip

/-
  What a TCP connection makes of its stream (jxta_transport_tcp_connection.c).
  `split_welcome` looks for the end of the welcome line in one bucket at a time, and whatever is not
  FALSE ends its search: a bucket that is shorter than the greeting or does not begin with it does.
  Where it finds the line (`CutAfterLine`), the connection is the same as when the whole stream is one
  bucket, at every call of `process_data` (`reassembled`): the bytes behind the line go the way of
  `feed`. A first bucket that is shorter than the greeting closes the connection.
-/

namespace JxtaC

open Lib List

namespace TcpConnection

open WelcomeMessage (greeting crlf space)

/-! ## the welcome line -/

/-- A line that begins with the greeting, and ends where it should. -/
def IsWelcomeLine (line : List Byte) : Prop :=
  line.length ≤ maxWelcomeMsgSize ∧
    ∃ fields, line = greeting ++ space :: (fields ++ crlf) ∧ ¬crlf <:+: fields

/-- `split_welcome` finds the end of the line: it is in the first bucket, or the first bucket has the
    greeting and the second one ends with the line and does not look like a line of its own. -/
def CutAfterLine (line : List Byte) : List (List Byte) → Prop
  | [] => False
  | bucket :: buckets => line <+: bucket ∨ (greeting.length ≤ bucket.length ∧
      ∃ last rest, buckets = last :: rest ∧ bucket ++ last = line ∧ ¬greeting <+: last)

section Line
variable {line : List Byte}

theorem infix_of_getElem? {l : List Byte} {a b : Byte} {k : Nat} (ha : l[k]? = some a)
    (hb : l[k + 1]? = some b) : [a, b] <:+: l := by
  obtain ⟨hlt, ha⟩ := List.getElem?_eq_some_iff.mp ha
  obtain ⟨hlt', hb⟩ := List.getElem?_eq_some_iff.mp hb
  refine ⟨l.take k, l.drop (k + 2), ?_⟩
  rw [← ha, ← hb, append_assoc]
  simp

theorem IsWelcomeLine.length_ge (h : IsWelcomeLine line) : greeting.length + 3 ≤ line.length := by
  obtain ⟨-, fields, rfl, -⟩ := h
  rw [length_append, length_cons, length_append, show crlf.length = 2 from rfl]
  omega

/-- There is no end of a line in front of the last two bytes. -/
theorem IsWelcomeLine.no_crlf {bytes : List Byte} (h : IsWelcomeLine bytes) {j : Nat}
    (hlow : greeting.length + 2 ≤ j) (hhigh : j + 1 < bytes.length) :
    ¬(bytes[j]? = some 10 ∧ bytes[j - 1]? = some 13) := by
  obtain ⟨-, fields, rfl, hfields⟩ := h
  have hg : greeting.length = 9 := by decide
  obtain ⟨k, rfl⟩ : ∃ k, j = greeting.length + (k + 2) := ⟨j - greeting.length - 2, by omega⟩
  rw [length_append, length_cons, length_append, show crlf.length = 2 from rfl]
    at hhigh
  rintro ⟨hlf, hcr⟩
  rw [getElem?_append_right (by omega), show greeting.length + (k + 2) - greeting.length
    = (k + 1) + 1 by omega, getElem?_cons_succ] at hlf
  rw [getElem?_append_right (by omega), show greeting.length + (k + 2) - 1 - greeting.length
    = k + 1 by omega, getElem?_cons_succ, getElem?_append_left (by omega)] at hcr
  by_cases hlast : k + 1 < fields.length
  · rw [getElem?_append_left hlast] at hlf
    exact hfields (infix_of_getElem? hcr hlf)
  · rw [getElem?_append_right (by omega), show k + 1 - fields.length = 0 by omega] at hlf
    cases hlf

/-- The end of the line. -/
theorem IsWelcomeLine.crlf_at_end {bytes : List Byte} (h : IsWelcomeLine bytes) :
    bytes[bytes.length - 1]? = some 10 ∧ bytes[bytes.length - 2]? = some 13 := by
  obtain ⟨-, fields, rfl, -⟩ := h
  have hlen : (greeting ++ space :: (fields ++ crlf)).length = (greeting ++ space :: fields).length + 2 := by
    rw [length_append, length_cons, length_append, length_append,
      length_cons, show crlf.length = 2 from rfl]
    omega
  have hline : greeting ++ space :: (fields ++ crlf) = (greeting ++ space :: fields) ++ crlf := by
    rw [append_assoc]
    rfl
  rw [hlen, hline]
  constructor
  · rw [getElem?_append_right (by omega),
      show ∀ n, n + 2 - 1 - n = 1 from fun n => by omega]
    rfl
  · rw [getElem?_append_right (by omega), show ∀ n, n + 2 - 2 - n = 0 from fun n => by omega]
    rfl

theorem IsWelcomeLine.greets (h : IsWelcomeLine line) (more : List Byte) :
    (line ++ more).take greeting.length = greeting := by
  obtain ⟨-, fields, rfl, -⟩ := h
  rw [append_assoc, take_left]

/-- The line ends in this bucket. -/
theorem splitWelcome_whole (h : IsWelcomeLine line) (more : List Byte) :
    splitWelcome () (line ++ more) = .ok ((), line.length, .yes) := by
  have hlow := h.length_ge
  have hfront : (line ++ more).take maxWelcomeMsgSize
      = line ++ more.take (maxWelcomeMsgSize - line.length) := by
    rw [take_append, take_of_length_le h.1]
  have hfind : findCrlf (line ++ more.take (maxWelcomeMsgSize - line.length)) (greeting.length + 2)
      = some (line.length - 1) := by
    unfold findCrlf
    rw [find?_range_eq_some]
    obtain ⟨hlf, hcr⟩ := h.crlf_at_end
    refine ⟨?_, ?_, ?_⟩
    · rw [getElem?_append_left (by omega), getElem?_append_left (by omega), hlf,
        show line.length - 1 - 1 = line.length - 2 by omega, hcr, decide_eq_true (by omega)]
      rfl
    · rw [mem_range, length_append]
      omega
    · intro j hj
      have hno := @IsWelcomeLine.no_crlf line h j
      rw [getElem?_append_left (by omega), getElem?_append_left (by omega)]
      simp only [Bool.not_eq_true', Bool.and_eq_false_iff, decide_eq_false_iff_not]
      by_cases hused : greeting.length + 2 ≤ j
      · have hnot := hno hused (by omega)
        rw [not_and_or] at hnot
        rcases hnot with hnot | hnot
        · exact .inl (.inr hnot)
        · exact .inr hnot
      · exact .inl (.inl hused)
  unfold splitWelcome
  rw [if_neg (by rw [length_append]; omega), if_neg (not_not_intro (h.greets more)), hfront]
  dsimp only
  rw [hfind]
  dsimp only
  rw [Nat.sub_add_cancel (by omega)]

/-- The line goes on behind this bucket. -/
theorem splitWelcome_wait (h : IsWelcomeLine line) {bucket more : List Byte}
    (hline : bucket ++ more = line) (hmore : more ≠ []) (hlen : greeting.length ≤ bucket.length) :
    splitWelcome () bucket = .ok ((), bucket.length, .no) := by
  have hpos : 0 < more.length := length_pos_iff.mpr hmore
  have hsize := h.1
  have hgreets := h.greets []
  rw [← hline, length_append] at hsize
  rw [← hline, append_nil, take_append_of_le_length hlen] at hgreets
  have hfind : findCrlf bucket (greeting.length + 2) = none := by
    unfold findCrlf
    rw [find?_eq_none]
    intro j hj
    rw [mem_range] at hj
    have hno := @IsWelcomeLine.no_crlf line h j
    rw [← hline, length_append, getElem?_append_left hj,
      getElem?_append_left (by omega)] at hno
    simp only [Bool.and_eq_true, decide_eq_true_eq]
    exact fun hfound => hno hfound.1.1 (by omega) ⟨hfound.1.2, hfound.2⟩
  unfold splitWelcome
  rw [if_neg (by omega), if_neg (not_not_intro hgreets), take_of_length_le (by omega)]
  dsimp only
  rw [hfind]

/-- This bucket ends the search, whatever is in it. -/
theorem splitWelcome_last {bucket : List Byte} (h : ¬greeting <+: bucket) :
    ∃ status, splitWelcome () bucket = .ok ((), bucket.length, status) ∧ status.done = true := by
  unfold splitWelcome
  by_cases hlen : bucket.length < greeting.length
  · exact ⟨.again, if_pos hlen, rfl⟩
  · refine ⟨.eof, ?_, rfl⟩
    rw [if_neg hlen, if_pos]
    exact fun htake => h ⟨bucket.drop greeting.length, by
      rw [← take_append_drop greeting.length bucket, htake]
      simp⟩

end Line

/-! ## the welcome message -/

/-- What is left of the cutting once the buckets in front of it are in the buffer. -/
def Finds (line buf : List Byte) (buckets : List (List Byte)) : Prop :=
  (buf = [] ∧ CutAfterLine line buckets) ∨
    ∃ last rest, buckets = last :: rest ∧ buf ++ last = line ∧ ¬greeting <+: last

theorem Finds.length_le {line buf : List Byte} {buckets : List (List Byte)}
    (h : Finds line buf buckets) : buf.length ≤ line.length := by
  rcases h with ⟨rfl, -⟩ | ⟨last, rest, -, rfl, -⟩
  · exact Nat.zero_le _
  · rw [length_append]
    omega

/-- The search for the line ends with it, or goes on behind the buckets that are there. -/
theorem splitBrigade_splitWelcome {line buf : List Byte} {buckets more : List (List Byte)}
    (hline : IsWelcomeLine line) (h : Finds line buf (buckets ++ more))
    (hne : ∀ bucket ∈ buckets ++ more, bucket ≠ []) :
    (∃ brigade, (∀ bucket ∈ brigade, bucket ≠ []) ∧
        buf ++ buckets.flatten = line ++ brigade.flatten ∧
        splitBrigade splitWelcome () buckets buf = .ok ((), brigade, line, .success)) ∨
      (Finds line (buf ++ buckets.flatten) more ∧ splitBrigade splitWelcome () buckets buf
        = .ok ((), [], buf ++ buckets.flatten, .eagain)) := by
  -- a bucket that ends the search, with the line in the buffer behind it
  have hends : ∀ {last buf : List Byte} {rest : List (List Byte)}, buf ++ last = line →
      ¬greeting <+: last →
      splitBrigade splitWelcome () (last :: rest) buf = .ok ((), rest, line, .success) := by
    intro last buf rest heq hlast
    obtain ⟨status, hsplit, hdone⟩ := splitWelcome_last hlast
    rw [splitBrigade, hsplit, ok_bind]
    dsimp only
    rw [hdone, if_pos rfl, if_neg (Nat.lt_irrefl _), heq]
    rfl
  cases buckets with
  | nil =>
    right
    rw [flatten_nil, append_nil]
    exact ⟨h, rfl⟩
  | cons bucket buckets =>
    have hne' : ∀ b ∈ buckets, b ≠ [] := fun b hb =>
      hne b (mem_cons_of_mem _ (mem_append_left more hb))
    rcases h with ⟨rfl, ⟨more', rfl⟩ | ⟨hlen, last, rest, hrest, hcut, hlast⟩⟩
        | ⟨last, rest, hrest, hcut, hlast⟩
    · left
      rw [splitBrigade, splitWelcome_whole hline more', ok_bind]
      dsimp only
      rw [if_pos (by decide)]
      by_cases hmore : more' = []
      · subst hmore
        refine ⟨buckets, hne', ?_, ?_⟩
        · rw [append_nil]
          rfl
        · rw [append_nil, if_neg (Nat.lt_irrefl _)]
          rfl
      · have hpos : 0 < more'.length := length_pos_iff.mpr hmore
        refine ⟨more' :: buckets, ?_, ?_, ?_⟩
        · intro b hb
          rcases mem_cons.mp hb with rfl | hb
          · exact hmore
          · exact hne' b hb
        · rw [nil_append, flatten_cons, flatten_cons, append_assoc]
        · rw [if_pos (by rw [length_append]; omega), drop_left, take_left]
          rfl
    · have hlast' : last ≠ [] :=
        hne last (mem_cons_of_mem _ (by rw [hrest]; exact mem_cons_self))
      have hwait := splitWelcome_wait hline hcut hlast' hlen
      rw [splitBrigade, hwait, ok_bind]
      dsimp only
      rw [if_neg (by decide), nil_append]
      cases buckets with
      | nil =>
        right
        rw [flatten_cons, flatten_nil, append_nil, nil_append]
        exact ⟨.inr ⟨last, rest, hrest, hcut, hlast⟩, rfl⟩
      | cons b buckets =>
        left
        cases hrest
        refine ⟨buckets, fun b hb => hne' b (mem_cons_of_mem _ hb), ?_, hends hcut hlast⟩
        rw [flatten_cons, flatten_cons, ← append_assoc, hcut]
    · left
      cases hrest
      refine ⟨buckets, hne', ?_, hends hcut hlast⟩
      rw [flatten_cons, ← append_assoc, hcut]

section Greet
variable (uriParse : CString → Uri) (messageRead : List Byte → Status)
variable {me : TcpConnection}

/-- The connection has the welcome line. -/
def greet (line : List Byte) (me : TcpConnection) : Exec TcpConnection :=
  match WelcomeMessage.new2 uriParse (.ofBuffer line) with
  | none => .ok { me with buf := [] }.close
  | some welcome =>
    match welcome.publicAddr with
    | none => .error .nullPointer
    | some destAddr => .ok { me with
        buf := []
        itsWelcome := some welcome
        useMsgVersion := useVersion welcome.useMessageVersion me.myMsgVersion
        destAddr }

/-- A connection that has no welcome message yet. -/
def waiting (destAddr : EndpointAddress) (myMsgVersion : Int) (buf : List Byte)
    (brigade : List (List Byte)) : TcpConnection :=
  { start destAddr myMsgVersion with buf, brigade }

variable {uriParse} {messageRead} {destAddr : EndpointAddress} {myMsgVersion : Int}
  {line buf : List Byte} {buckets brigade : List (List Byte)}

/-- A turn of the loop in which the welcome message is accepted. -/
theorem processTurn_welcome {me' : TcpConnection} (h : me.itsWelcome = none)
    (hwelcome : me.processWelcome uriParse = .ok (me', .success)) (h' : me'.itsWelcome ≠ none) :
    me.processTurn uriParse messageRead = me'.processTurn uriParse messageRead := by
  unfold processTurn
  rw [if_pos h, hwelcome, ok_bind, if_neg h', pure_eq_ok, ok_bind]

/-- A turn in which it is not. -/
theorem processTurn_no_welcome {me' : TcpConnection} {rv : AprStatus} (h : me.itsWelcome = none)
    (hwelcome : me.processWelcome uriParse = .ok (me', rv)) (hrv : rv ≠ .success) :
    me.processTurn uriParse messageRead = .ok (me'.handleReadingError rv, false) := by
  unfold processTurn
  rw [if_pos h, hwelcome, ok_bind]
  dsimp only
  rw [if_pos hrv]
  rfl

theorem processTurn_fault {f : Fault} (h : me.itsWelcome = none)
    (hwelcome : me.processWelcome uriParse = .error f) :
    me.processTurn uriParse messageRead = .error f := by
  unfold processTurn
  rw [if_pos h, hwelcome]
  rfl

theorem processLoop_succ (turns : Nat) (me : TcpConnection) :
    processLoop uriParse messageRead (turns + 1) me =
      (me.processTurn uriParse messageRead >>= fun p =>
        if p.2 then processLoop uriParse messageRead turns p.1 else .ok p.1) := rfl

/-- `process_data` on a connection that has the welcome line: it takes the bytes behind the line. -/
theorem processData_greet (hbuf : buf.length ≤ line.length)
    (hbrigade : ∀ bucket ∈ brigade, bucket ≠ [])
    (hflat : buf ++ buckets.flatten = line ++ brigade.flatten)
    (hsplit : splitBrigade splitWelcome () buckets buf = .ok ((), brigade, line, .success)) :
    (waiting destAddr myMsgVersion buf buckets).processData uriParse messageRead =
      (greet uriParse line (start destAddr myMsgVersion) >>= fun me =>
        (feed messageRead me brigade.flatten).outcome) := by
  have hwelcome : (waiting destAddr myMsgVersion buf buckets).processWelcome uriParse =
      (match WelcomeMessage.new2 uriParse (.ofBuffer line) with
        | none => .ok (waiting destAddr myMsgVersion [] brigade, .eof)
        | some welcome =>
          match welcome.publicAddr with
          | none => .error .nullPointer
          | some addr => .ok ({ waiting addr myMsgVersion [] brigade with
              itsWelcome := some welcome
              useMsgVersion := useVersion welcome.useMessageVersion myMsgVersion }, .success)) := by
    unfold processWelcome
    rw [show (waiting destAddr myMsgVersion buf buckets).brigade = buckets from rfl,
      show (waiting destAddr myMsgVersion buf buckets).buf = buf from rfl, hsplit, ok_bind]
    dsimp only
    rw [if_neg (by decide)]
    rfl
  unfold processData
  rw [if_neg (show ¬(waiting destAddr myMsgVersion buf buckets).closed = true from
    Bool.false_ne_true), processLoop_succ]
  unfold greet
  cases hnew : WelcomeMessage.new2 uriParse (.ofBuffer line) with
  | none =>
    rw [hnew] at hwelcome
    rw [processTurn_no_welcome rfl hwelcome (by decide), ok_bind, ok_bind, feed_closed rfl]
    rfl
  | some welcome =>
    rw [hnew] at hwelcome
    dsimp only at hwelcome ⊢
    cases haddr : welcome.publicAddr with
    | none =>
      rw [haddr] at hwelcome
      dsimp only at hwelcome ⊢
      rw [processTurn_fault rfl hwelcome]
      rfl
    | some addr =>
      rw [haddr] at hwelcome
      dsimp only at hwelcome ⊢
      have hreceives : Receives { waiting addr myMsgVersion [] brigade with
          itsWelcome := some welcome
          useMsgVersion := useVersion welcome.useMessageVersion myMsgVersion } :=
        ⟨rfl, Option.some_ne_none _, hbrigade, fun _ => collected_reset⟩
      rw [processTurn_welcome rfl hwelcome (Option.some_ne_none _), ← processLoop_succ, ok_bind]
      refine (processLoop_eq _ hreceives ?_).1
      have hlen := congrArg List.length hflat
      rw [length_append, length_append] at hlen
      show brigade.flatten.length + 1 ≤ buckets.flatten.length + 1 + 1
      omega

/-- `process_data` on a connection that waits on. -/
theorem processData_waits
    (hsplit : splitBrigade splitWelcome () buckets buf = .ok ((), [], buf ++ buckets.flatten, .eagain)) :
    (waiting destAddr myMsgVersion buf buckets).processData uriParse messageRead =
      .ok (waiting destAddr myMsgVersion (buf ++ buckets.flatten) []) := by
  have hwelcome : (waiting destAddr myMsgVersion buf buckets).processWelcome uriParse =
      .ok (waiting destAddr myMsgVersion (buf ++ buckets.flatten) [], .eagain) := by
    unfold processWelcome
    rw [show (waiting destAddr myMsgVersion buf buckets).brigade = buckets from rfl,
      show (waiting destAddr myMsgVersion buf buckets).buf = buf from rfl, hsplit, ok_bind]
    rfl
  unfold processData
  rw [if_neg (show ¬(waiting destAddr myMsgVersion buf buckets).closed = true from
    Bool.false_ne_true), processLoop_succ, processTurn_no_welcome rfl hwelcome (by decide)]
  rfl

/-! ## runs -/

variable (uriParse) (messageRead) in
/-- The steps in turn. -/
def run : TcpConnection → List Event → Exec TcpConnection
  | me, [] => .ok me
  | me, e :: es => do
    let me ← me.step uriParse messageRead e
    run me es

/-- The buckets that arrive. -/
def arrivals (es : List Event) : List (List Byte) :=
  es.filterMap fun e =>
    match e with
    | .arrive bucket => some bucket
    | .processData => none

theorem arrivals_arrive (bucket : List Byte) (es : List Event) :
    arrivals (.arrive bucket :: es) = bucket :: arrivals es := rfl

theorem arrivals_processData (es : List Event) : arrivals (.processData :: es) = arrivals es := rfl

theorem run_cons (me : TcpConnection) (e : Event) (es : List Event) :
    run uriParse messageRead me (e :: es) =
      (me.step uriParse messageRead e >>= fun me => run uriParse messageRead me es) := rfl

theorem run_closed (h : me.closed = true) (es : List Event) :
    run uriParse messageRead me es = .ok me := by
  induction es with
  | nil => rfl
  | cons e es ih =>
    have hstep : me.step uriParse messageRead e = .ok me := by
      cases e with
      | arrive bucket => exact congrArg _ (if_pos h)
      | processData => exact if_pos h
    rw [run_cons, hstep, ok_bind, ih]

theorem step_processData (h : me.Receives) :
    me.step uriParse messageRead .processData = (fed messageRead me).outcome ∧
      ((fed messageRead me).Stuck ∨ (((fed messageRead me).closed = true ∨
        (fed messageRead me).Receives) ∧ (fed messageRead me).brigade = [])) := by
  have hloop := @processLoop_eq uriParse messageRead me (me.brigade.flatten.length + 2) h
    (by split <;> omega)
  refine ⟨?_, hloop.2⟩
  show (if me.closed = true then _ else _) = _
  rw [h.opened, if_neg (by decide)]
  exact hloop.1

theorem bind_run_nil (x : Exec TcpConnection) :
    (x >>= fun me => run uriParse messageRead me []) = x := by
  cases x with
  | error f => rfl
  | ok me => rfl

/-- What follows a connection that is stuck is not reached. -/
theorem outcome_bind_stuck (h : me.Stuck) (data : List Byte)
    (f : TcpConnection → Exec TcpConnection) :
    (me.outcome >>= f) = (feed messageRead me data).outcome := by
  rw [feed_stuck h]
  unfold outcome
  rw [if_pos h]
  rfl

theorem outcome_of_not_stuck (h : ¬me.Stuck) : me.outcome = .ok me := if_neg h

/-- With a welcome message, a run up to a call of `process_data` takes all of the bytes that arrive,
    however they are cut. -/
theorem run_receives (h : me.Receives) (es : List Event)
    (hne : ∀ bucket ∈ arrivals es, bucket ≠ []) :
    run uriParse messageRead me (es ++ [.processData]) =
      (feed messageRead { me with brigade := [] }
        (me.brigade.flatten ++ (arrivals es).flatten)).outcome := by
  induction es generalizing me with
  | nil =>
    rw [nil_append, run_cons, (step_processData h).1, bind_run_nil]
    exact congrArg _ (congrArg _ (append_nil _).symm)
  | cons e es ih =>
    cases e with
    | arrive bucket =>
      have hstep : me.step uriParse messageRead (.arrive bucket)
          = .ok { me with brigade := me.brigade ++ [bucket] } := by
        show Except.ok (if me.closed = true then _ else _) = _
        rw [h.opened, if_neg (by decide)]
      have hreceives : Receives { me with brigade := me.brigade ++ [bucket] } := by
        refine ⟨h.opened, h.welcomed, ?_, h.collected⟩
        intro b hb
        rcases mem_append.mp hb with hb | hb
        · exact h.buckets b hb
        · exact hne b (mem_cons.mpr (.inl (mem_singleton.mp hb)))
      rw [cons_append, run_cons, hstep, ok_bind,
        ih hreceives fun b hb => hne b (mem_cons_of_mem _ hb), arrivals_arrive]
      rw [flatten_append, flatten_singleton, flatten_cons, append_assoc]
    | processData =>
      obtain ⟨hstep, hend⟩ := @step_processData uriParse messageRead me h
      rw [cons_append, run_cons, hstep, arrivals_processData, feed_append]
      by_cases hstuck : (fed messageRead me).Stuck
      · exact outcome_bind_stuck hstuck _ _
      obtain ⟨hend, hnil⟩ := hend.resolve_left hstuck
      rw [outcome_of_not_stuck hstuck, ok_bind]
      rcases hend with hclosed | hreceives
      · rw [run_closed hclosed, ← outcome_of_not_stuck hstuck]
        exact congrArg _ (feed_closed hclosed _).symm
      · rw [ih hreceives hne, hnil, flatten_nil, nil_append]
        have hself : { fed messageRead me with brigade := [] } = fed messageRead me := by
          rw [← hnil]
        rw [hself]
        rfl

/-- What is between the welcome message and the messages. -/
theorem greet_start (h : greet uriParse line (start destAddr myMsgVersion) = .ok me) :
    me.brigade = [] ∧ (me.closed = true ∨ me.Receives) := by
  unfold greet at h
  split at h
  · cases h
    exact ⟨rfl, .inl rfl⟩
  · split at h
    · cases h
    · cases h
      exact ⟨rfl, .inr ⟨rfl, Option.some_ne_none _, fun _ h => absurd h not_mem_nil,
        fun _ => collected_reset⟩⟩

theorem run_feed (hnil : me.brigade = []) (hend : me.closed = true ∨ me.Receives)
    (hbrigade : ∀ bucket ∈ brigade, bucket ≠ []) (es : List Event)
    (hne : ∀ bucket ∈ arrivals es, bucket ≠ []) :
    ((feed messageRead me brigade.flatten).outcome >>= fun me =>
        run uriParse messageRead me (es ++ [.processData])) =
      (feed messageRead me (brigade.flatten ++ (arrivals es).flatten)).outcome := by
  rcases hend with hclosed | hreceives
  · rw [feed_closed hclosed, feed_closed hclosed]
    by_cases hstuck : me.Stuck
    · rw [← @feed_stuck messageRead me hstuck []]
      exact outcome_bind_stuck (by rwa [feed_stuck hstuck]) [] _
    · rw [outcome_of_not_stuck hstuck, ok_bind, run_closed hclosed]
  · have hreceives' : Receives { me with brigade } :=
      ⟨hreceives.opened, hreceives.welcomed, hbrigade, hreceives.collected⟩
    have hself : { me with brigade := [] } = me := by rw [← hnil]
    -- the run that takes these buckets first
    have hrun := @run_receives uriParse messageRead _ hreceives' (.processData :: es) hne
    have hstep := (@step_processData uriParse messageRead _ hreceives').1
    unfold fed at hstep
    rw [hself] at hstep
    rw [cons_append, run_cons, hstep] at hrun
    rw [hrun]
    rw [hself, arrivals_processData]

/-- Without one, the line is taken first. -/
theorem run_waiting (hline : IsWelcomeLine line) (es : List Event)
    (h : Finds line buf (buckets ++ arrivals es))
    (hne : ∀ bucket ∈ buckets ++ arrivals es, bucket ≠ []) {body : List Byte}
    (hbody : buf ++ (buckets ++ arrivals es).flatten = line ++ body) :
    run uriParse messageRead (waiting destAddr myMsgVersion buf buckets) (es ++ [.processData]) =
      (greet uriParse line (start destAddr myMsgVersion) >>= fun me =>
        (feed messageRead me body).outcome) := by
  induction es generalizing buf buckets with
  | nil =>
    rcases splitBrigade_splitWelcome hline h hne with ⟨brigade, hbrigade, hflat, hsplit⟩ | ⟨h', -⟩
    · have hbody' : body = brigade.flatten := by
        rw [show arrivals [] = [] from rfl, append_nil, hflat] at hbody
        exact (append_cancel_left hbody).symm
      rw [nil_append, run_cons]
      show ((waiting destAddr myMsgVersion buf buckets).processData uriParse messageRead >>= _) = _
      rw [processData_greet h.length_le hbrigade hflat hsplit, hbody']
      exact bind_run_nil _
    · rcases h' with ⟨-, hcut⟩ | ⟨last, rest, hnil, -⟩
      · exact hcut.elim
      · cases hnil
  | cons e es ih =>
    cases e with
    | arrive bucket =>
      have happend : buckets ++ arrivals (.arrive bucket :: es)
          = buckets ++ [bucket] ++ arrivals es := by
        rw [arrivals_arrive, append_assoc]
        rfl
      have hstep : (waiting destAddr myMsgVersion buf buckets).step uriParse messageRead
          (.arrive bucket) = .ok (waiting destAddr myMsgVersion buf (buckets ++ [bucket])) := rfl
      rw [happend] at h hne hbody
      rw [cons_append, run_cons, hstep, ok_bind, ih h hne hbody]
    | processData =>
      rw [cons_append, run_cons]
      show ((waiting destAddr myMsgVersion buf buckets).processData uriParse messageRead >>= _) = _
      rcases splitBrigade_splitWelcome hline h hne with ⟨brigade, hbrigade, hflat, hsplit⟩
          | ⟨h', hsplit⟩
      · have hbody' : body = brigade.flatten ++ (arrivals es).flatten := by
          rw [arrivals_processData, flatten_append, ← append_assoc, hflat,
            append_assoc] at hbody
          exact (append_cancel_left hbody).symm
        rw [arrivals_processData] at hne
        rw [processData_greet h.length_le hbrigade hflat hsplit, hbody']
        cases hgreet : greet uriParse line (start destAddr myMsgVersion) with
        | error f => rfl
        | ok me =>
          obtain ⟨hnil, hend⟩ := greet_start hgreet
          exact run_feed hnil hend hbrigade es fun b hb => hne b (mem_append_right _ hb)
      · rw [processData_waits hsplit, ok_bind]
        rw [arrivals_processData] at hbody hne
        refine ih h' (fun b hb => hne b (mem_append_right _ hb)) ?_
        rw [nil_append, append_assoc, ← flatten_append]
        exact hbody

end Greet

/-! ## the stream -/

section Stream
variable (uriParse : CString → Uri) (messageRead : List Byte → Status) (destAddr : EndpointAddress)
  (myMsgVersion : Int)

/-- After these steps and a call of `process_data` the connection is as if its whole stream had been
    one bucket: it has the same welcome message and has delivered the same messages. -/
def Reassembles (es : List Event) : Prop :=
  run uriParse messageRead (start destAddr myMsgVersion) (es ++ [.processData]) =
    run uriParse messageRead (start destAddr myMsgVersion)
      [.arrive (arrivals es).flatten, .processData]

/-- It is wherever `split_welcome` finds the end of the welcome line, for any bytes behind the line,
    any cutting of them and any calls of `process_data` between the buckets. -/
theorem reassembles_of_cut (line body : List Byte) (hline : IsWelcomeLine line) (es : List Event)
    (hne : ∀ bucket ∈ arrivals es, bucket ≠ []) (hstream : (arrivals es).flatten = line ++ body)
    (hcut : CutAfterLine line (arrivals es)) :
    Reassembles uriParse messageRead destAddr myMsgVersion es := by
  have hpos := hline.length_ge
  have hwhole : ∀ bucket ∈ [line ++ body], bucket ≠ [] := by
    intro bucket hmem
    rw [mem_singleton.mp hmem]
    intro hnil
    rw [(append_eq_nil_iff.mp hnil).1, length_nil] at hpos
    omega
  unfold Reassembles
  rw [hstream]
  have hfirst : CutAfterLine line [line ++ body] := Or.inl (prefix_append line body)
  have hcutting := @run_waiting uriParse messageRead destAddr myMsgVersion line [] [] hline es
    (.inl ⟨rfl, hcut⟩) hne body hstream
  have hone := @run_waiting uriParse messageRead destAddr myMsgVersion line [] [] hline
    [.arrive (line ++ body)] (.inl ⟨rfl, hfirst⟩) hwhole body (append_nil _)
  exact hcutting.trans hone.symm

end Stream

/-- The fields of a welcome line. -/
def welcomeFields : List Byte :=
  text "tcp://10.0.0.1:9701 tcp://10.0.0.1:9701 urn:jxta:uuid-1 1 1 3.0"

def welcomeLine : List Byte := greeting ++ space :: (welcomeFields ++ crlf)

theorem isWelcomeLine_welcomeLine : IsWelcomeLine welcomeLine :=
  ⟨by decide, welcomeFields, rfl, by decide⟩

/-- A message of three bytes. -/
def smallMessage : List Byte :=
  PacketHeader.headerBlock 3 false (.ofBuffer []) ++ [1, 2, 3]

/-- The message is cut behind the first byte, and in its body. -/
theorem reassembles_of_cut_small :
    Reassembles WelcomeMessage.tcpUri (fun _ => .success) WelcomeMessage.tcpAddress 1
      [.arrive (welcomeLine ++ smallMessage.take 1), .processData,
        .arrive ((smallMessage.drop 1).take 60), .processData,
        .arrive ((smallMessage.drop 1).drop 60)] :=
  reassembles_of_cut _ _ _ _ welcomeLine smallMessage isWelcomeLine_welcomeLine _ (by decide)
    (by decide) (.inl (prefix_append _ _))

/-- A first bucket of four bytes closes the connection. -/
theorem not_reassembles :
    ¬∀ (uriParse : CString → Uri) (messageRead : List Byte → Status) (destAddr : EndpointAddress)
      (myMsgVersion : Int) (line body : List Byte), IsWelcomeLine line → ∀ es : List Event,
      (∀ bucket ∈ arrivals es, bucket ≠ []) → (arrivals es).flatten = line ++ body →
        Reassembles uriParse messageRead destAddr myMsgVersion es := by
  intro h
  have hsame := h WelcomeMessage.tcpUri (fun _ => .success) WelcomeMessage.tcpAddress 1 welcomeLine
    [] isWelcomeLine_welcomeLine [.arrive (welcomeLine.take 4), .arrive (welcomeLine.drop 4)]
    (by decide) (by decide)
  have hclosed := congrArg (fun x => Returns x fun me => me.closed = true) hsame
  have hcut : Returns (run WelcomeMessage.tcpUri (fun _ => .success)
      (start WelcomeMessage.tcpAddress 1) ([.arrive (welcomeLine.take 4),
        .arrive (welcomeLine.drop 4)] ++ [.processData])) fun me => me.closed = true := by
    decide
  have hwhole : ¬Returns (run WelcomeMessage.tcpUri (fun _ => .success)
      (start WelcomeMessage.tcpAddress 1) [.arrive (arrivals [.arrive (welcomeLine.take 4),
        .arrive (welcomeLine.drop 4)]).flatten, .processData]) fun me => me.closed = true := by
    decide
  exact hwhole (hclosed ▸ hcut)

end TcpConnection

end JxtaC
