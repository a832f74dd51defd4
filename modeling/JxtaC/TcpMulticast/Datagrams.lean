import JxtaC.TcpMulticast

/-
  What goes in and out over multicast. `datagrams_iff`: the message behind a readable header is
  handed on whatever its reader said, so that only datagrams with a good message are handled as they
  should; a packet goes out whole if its header fits into the buffer, and where it does not but the
  message does, the bytes to send end behind the buffer (`propagates_iff`).
  Both sides come down to the index of the buffer: `readStreamN_spec` for reads, `advance` for writes.
-/

namespace JxtaC.TcpMulticast

open Lib Lib.Stream PacketHeader List

/-! ## the stream that is read -/

namespace STREAM

/-- A stream that stands inside of what was received. -/
def Within (received : List Byte) (stream : STREAM) : Prop :=
  stream.dIndex + stream.dLen = received.length ∧ ∃ behind, stream.dataBuf = received ++ behind

/-- The streams that the readers come to, from this one on. -/
inductive ReadOn (start : STREAM) : STREAM → Prop where
  | start : ReadOn start start
  | read {stream stream' : STREAM} {size : Nat} {bytes : Option (List Byte)}
      (h : ReadOn start stream) (hread : stream.readStreamN size = .ok (bytes, stream')) :
      ReadOn start stream'

section Within
variable {received : List Byte} {stream : STREAM}

/-- A read is one from what is left, and ends inside of what was received. -/
theorem readStreamN_spec (h : Within received stream) (size : Nat) :
    ∃ bytes stream', stream.readStreamN size = .ok (bytes, stream') ∧ Within received stream' ∧
      Stream.read inputStream.toSource size stream.rest = .ok bytes stream'.rest ∧
      (bytes.isSome = true → stream.dIndex + size ≤ received.length) := by
  obtain ⟨hindex, behind, hbuf⟩ := h
  have hlen : stream.rest.length = stream.dLen := by
    unfold rest
    rw [length_take, length_drop, hbuf, length_append]
    omega
  by_cases hshort : stream.dLen < size
  · refine ⟨none, stream, if_pos hshort, ⟨hindex, behind, hbuf⟩, ?_, nofun⟩
    unfold Stream.read
    rw [if_neg (by omega)]
    rfl
  · have hend : stream.dIndex + size ≤ received.length := by omega
    have hroom : ¬ stream.dataBuf.length < stream.dIndex + size := by
      rw [hbuf, length_append]
      omega
    refine ⟨_, _, (if_neg hshort).trans (if_neg hroom), ⟨?_, behind, hbuf⟩, ?_, fun _ => hend⟩
    · dsimp only
      omega
    · unfold Stream.read
      rw [if_pos (by omega)]
      unfold rest
      rw [take_take, Nat.min_eq_left (by omega), drop_take, drop_drop]

theorem ReadOn.within (h : Within received stream) {stream' : STREAM} (hread : ReadOn stream stream') :
    Within received stream' := by
  induction hread with
  | start => exact h
  | @read s s' size bytes _ hstep ih =>
    obtain ⟨bytes', s'', hread', hwithin, -⟩ := readStreamN_spec ih size
    rw [hstep] at hread'
    cases hread'
    exact hwithin

end Within

theorem dataBuf_received (dSize : Nat) (datagram : List Byte) :
    (received dSize datagram).dataBuf = datagram.take dSize ++
      (List.replicate dSize (0 : Byte)).drop (datagram.take dSize).length := rfl

theorem within_behindWelcome {dSize : Nat} {datagram : List Byte}
    (h : 4 ≤ (datagram.take dSize).length) (hlt : (datagram.take dSize).length < 2 ^ 64) :
    Within (datagram.take dSize) (received dSize datagram).behindWelcome := by
  refine ⟨?_, _, rfl⟩
  show 0 + 4 + ((datagram.take dSize).length + 2 ^ 64 - 4) % 2 ^ 64 = _
  omega

theorem rest_behindWelcome {dSize : Nat} {datagram body : List Byte}
    (h : datagram.take dSize = welcome ++ body) (hlt : (datagram.take dSize).length < 2 ^ 64) :
    (received dSize datagram).behindWelcome.rest = body := by
  have hlen : (datagram.take dSize).length = 4 + body.length := by
    rw [h, length_append]
    rfl
  unfold rest behindWelcome
  rw [dataBuf_received, h, append_assoc]
  show ((welcome ++ _).drop welcome.length).take _ = _
  rw [drop_left]
  have hleft : ((received dSize datagram).dLen + 2 ^ 64 - 4) % 2 ^ 64 = body.length := by
    show ((datagram.take dSize).length + 2 ^ 64 - 4) % 2 ^ 64 = _
    omega
  rw [hleft, take_left]

end STREAM

/-! ## receiving -/

theorem checkWelcome_spec (expected dataBuf : List Byte) :
    (∃ looked whole, checkWelcome expected dataBuf = .ok (looked, whole) ∧
      (whole = true ↔ expected <+: dataBuf)) ∨
    (checkWelcome expected dataBuf = .error .outOfBounds ∧ ¬ expected <+: dataBuf) := by
  induction expected generalizing dataBuf with
  | nil => exact .inl ⟨0, true, rfl, iff_of_true rfl (List.nil_prefix)⟩
  | cons e expected ih =>
    match dataBuf with
    | [] => exact .inr ⟨rfl, fun h => nomatch prefix_nil.mp h⟩
    | b :: dataBuf =>
      unfold checkWelcome
      by_cases heq : b = e
      · subst heq
        rw [if_neg (not_not_intro rfl), cons_prefix_cons, and_iff_right rfl]
        rcases ih dataBuf with ⟨looked, whole, hcheck, hwhole⟩ | ⟨hcheck, hshort⟩
        · exact .inl ⟨looked + 1, whole, by rw [hcheck]; rfl, hwhole⟩
        · exact .inr ⟨by rw [hcheck]; rfl, hshort⟩
      · rw [if_pos heq]
        refine .inl ⟨1, false, rfl, iff_of_false nofun fun hprefix => heq ?_⟩
        exact (cons_prefix_cons.mp hprefix).1.symm

/-- The test stays inside of the first bytes unless they are a beginning of what it looks for. -/
theorem checkWelcome_inside (expected received behind : List Byte) :
    (∃ looked whole, checkWelcome expected (received ++ behind) = .ok (looked, whole) ∧
      looked ≤ received.length) ↔ (received <+: expected → received = expected) := by
  induction expected generalizing received with
  | nil => exact iff_of_true ⟨0, true, rfl, Nat.zero_le _⟩ fun h => prefix_nil.mp h
  | cons e expected ih =>
    match received with
    | [] =>
      refine iff_of_false ?_ fun h => nomatch h (List.nil_prefix)
      rintro ⟨looked, whole, hcheck, hle⟩
      match behind with
      | [] => cases hcheck
      | b :: behind =>
        rw [nil_append, checkWelcome] at hcheck
        obtain rfl : looked = 0 := Nat.le_zero.mp hle
        split at hcheck
        · cases hcheck
        · obtain ⟨p, -, hp⟩ := bind_eq_ok.mp hcheck
          cases hp
    | b :: received =>
      by_cases heq : b = e
      · subst heq
        rw [cons_prefix_cons, and_iff_right rfl, List.cons.injEq, and_iff_right rfl, ← ih received]
        rw [cons_append, checkWelcome, if_neg (not_not_intro rfl)]
        constructor
        · rintro ⟨looked, whole, hcheck, hle⟩
          obtain ⟨⟨looked', whole'⟩, hrest, hp⟩ := bind_eq_ok.mp hcheck
          cases hp
          exact ⟨looked', whole, hrest, Nat.le_of_succ_le_succ hle⟩
        · rintro ⟨looked, whole, hcheck, hle⟩
          exact ⟨looked + 1, whole, by rw [hcheck]; rfl, Nat.succ_le_succ hle⟩
      · refine iff_of_true ⟨1, false, ?_, Nat.succ_pos _⟩ fun h => ?_
        · rw [cons_append, checkWelcome, if_pos heq]
        · exact absurd (cons_prefix_cons.mp h).1 heq

section Receive
variable {Qos : Type} (extract : Option Qos → List Byte → Exec (Option Qos × Status))
  (me : TcpMulticast) (datagram : List Byte)
variable {msg : Message Qos}

/-- The bytes of a datagram that `apr_socket_recvfrom` stores. -/
def stored : List Byte := datagram.take me.multicastPacketSize

variable {extract me datagram}

theorem dataBuf_stored : (STREAM.received me.multicastPacketSize datagram).dataBuf =
    stored me datagram ++
      (List.replicate me.multicastPacketSize (0 : Byte)).drop (stored me datagram).length := rfl

theorem length_stored_lt : (stored me datagram).length < 2 ^ 64 := by
  have hlt := me.multicastPacketSize_lt
  have hle := length_take_le me.multicastPacketSize datagram
  unfold stored
  omega

/-- Where the buffer begins with the prefix the datagram does: there is no zero in it. -/
theorem welcome_starts (h : welcome <+: (STREAM.received me.multicastPacketSize datagram).dataBuf) :
    welcome <+: stored me datagram := by
  rw [dataBuf_stored] at h
  by_cases hlen : welcome.length ≤ (stored me datagram).length
  · exact prefix_of_prefix_length_le h (prefix_append _ _) hlen
  · have hat : welcome[(stored me datagram).length]? = some 0 := by
      obtain ⟨behind, hbehind⟩ := h
      have hlt : (stored me datagram).length < (welcome ++ behind).length := by
        rw [length_append]
        omega
      have hget := congrArg (·[(stored me datagram).length]?) hbehind
      rw [getElem?_append_left (by omega)] at hget
      rw [hget]
      rw [hbehind, length_append] at hlt
      rw [getElem?_append_right (Nat.le_refl _), Nat.sub_self, getElem?_drop,
        getElem?_replicate]
      rw [length_drop, length_replicate] at hlt
      exact if_pos (by unfold stored at hlt ⊢; omega)
    exact absurd (mem_of_getElem? hat) (by decide)

/-- What the call comes to behind the prefix. -/
def processBody (extract : Option Qos → List Byte → Exec (Option Qos × Status)) (body : List Byte) :
    Exec (Option (Message Qos)) :=
  match messagePacketHeaderRead inputStream.toSource true body with
  | .fault f => .error f
  | .exit _ _ => return none
  | .ok (msgSize, _) behind =>
    if 0 < msgSize ∧ msgSize < 2 ^ 63 then do
      let (msg, _, _) ← Message.messageRead inputStream extract ⟨[], none⟩ TcpSender.appMsg behind
      return some msg
    else return none

theorem process_body {body : List Byte} (hallow : me.allowMulticast = true) (hrun : me.run = true)
    (hbody : stored me datagram = welcome ++ body) :
    process extract me (STREAM.received me.multicastPacketSize datagram) =
      processBody extract body := by
  have hprefix : welcome <+: (STREAM.received me.multicastPacketSize datagram).dataBuf := by
    rw [dataBuf_stored, hbody, append_assoc]
    exact prefix_append _ _
  have hrest := STREAM.rest_behindWelcome hbody length_stored_lt
  unfold process
  rw [hallow, hrun, if_neg (by decide), hrest]
  rcases checkWelcome_spec welcome (STREAM.received me.multicastPacketSize datagram).dataBuf with
    ⟨looked, whole, hcheck, hwhole⟩ | ⟨-, hshort⟩
  · rw [hcheck, hwhole.mpr hprefix]
    rfl
  · exact absurd hprefix hshort

/-- Without the prefix nothing is handed on. -/
theorem process_damaged (h : ¬ welcome <+: stored me datagram) :
    process extract me (STREAM.received me.multicastPacketSize datagram) ≠ .ok (some msg) := by
  unfold process
  split
  · exact nofun
  · rcases checkWelcome_spec welcome (STREAM.received me.multicastPacketSize datagram).dataBuf with
      ⟨looked, whole, hcheck, hwhole⟩ | ⟨hcheck, -⟩
    · match whole with
      | true => exact absurd (welcome_starts (hwhole.mp rfl)) h
      | false =>
        rw [hcheck]
        exact nofun
    · rw [hcheck]
      exact nofun

theorem processBody_eq_some {body : List Byte} :
    processBody extract body = .ok (some msg) ↔ ∃ msgSize src behind status rest,
      messagePacketHeaderRead inputStream.toSource true body = .ok (msgSize, src) behind ∧
      (0 < msgSize ∧ msgSize < 2 ^ 63) ∧
      Message.messageRead inputStream extract ⟨[], none⟩ TcpSender.appMsg behind =
        .ok (msg, status, rest) := by
  unfold processBody
  match messagePacketHeaderRead inputStream.toSource true body with
  | .fault f => exact iff_of_false nofun fun ⟨_, _, _, _, _, h, _⟩ => nomatch h
  | .exit e r => exact iff_of_false nofun fun ⟨_, _, _, _, _, h, _⟩ => nomatch h
  | .ok (msgSize, src) behind =>
    dsimp only
    by_cases hsize : 0 < msgSize ∧ msgSize < 2 ^ 63
    · rw [if_pos hsize]
      constructor
      · intro h
        obtain ⟨⟨msg', status, rest⟩, hread, hend⟩ := bind_eq_ok.mp h
        cases hend
        exact ⟨msgSize, src, behind, status, rest, rfl, hsize, hread⟩
      · rintro ⟨_, _, _, status, rest, hheader, -, hread⟩
        cases hheader
        rw [hread]
        rfl
    · rw [if_neg hsize]
      refine iff_of_false nofun ?_
      rintro ⟨_, _, _, _, _, hheader, hsize', -⟩
      cases hheader
      exact hsize hsize'

/-- A message is handed on wherever `jxta_message_read` returns. -/
theorem process_eq_some :
    process extract me (STREAM.received me.multicastPacketSize datagram) = .ok (some msg) ↔
      (me.allowMulticast = true ∧ me.run = true) ∧ ∃ body msgSize src behind status rest,
        stored me datagram = welcome ++ body ∧
        messagePacketHeaderRead inputStream.toSource true body = .ok (msgSize, src) behind ∧
        (0 < msgSize ∧ msgSize < 2 ^ 63) ∧
        Message.messageRead inputStream extract ⟨[], none⟩ TcpSender.appMsg behind =
          .ok (msg, status, rest) := by
  constructor
  · intro h
    have hon : me.allowMulticast = true ∧ me.run = true := by
      have hboth : ∀ a b : Bool, ¬ (!a || !b) = true → a = true ∧ b = true := by decide
      refine hboth _ _ fun hoff => ?_
      unfold process at h
      rw [if_pos hoff] at h
      cases h
    by_cases hwelcome : welcome <+: stored me datagram
    · obtain ⟨body, hbody⟩ := hwelcome
      rw [process_body hon.1 hon.2 hbody.symm] at h
      obtain ⟨msgSize, src, behind, status, rest, hheader, hsize, hread⟩ := processBody_eq_some.mp h
      exact ⟨hon, body, msgSize, src, behind, status, rest, hbody.symm, hheader, hsize, hread⟩
    · exact absurd h (process_damaged hwelcome)
  · rintro ⟨⟨hallow, hrun⟩, body, msgSize, src, behind, status, rest, hbody, hheader, hsize, hread⟩
    rw [process_body hallow hrun hbody]
    exact processBody_eq_some.mpr ⟨msgSize, src, behind, status, rest, hheader, hsize, hread⟩

/-- A datagram is handled as it should: nothing behind it is read, and a message is handed on only
behind the prefix and a header, and only if it was read. -/
structure Handled (extract : Option Qos → List Byte → Exec (Option Qos × Status)) (me : TcpMulticast)
    (datagram : List Byte) : Prop where
  looked : me.allowMulticast = true → me.run = true → ∃ looked whole,
    checkWelcome welcome (STREAM.received me.multicastPacketSize datagram).dataBuf =
      .ok (looked, whole) ∧ looked ≤ (stored me datagram).length
  read : welcome <+: (STREAM.received me.multicastPacketSize datagram).dataBuf →
    ∀ stream, STREAM.ReadOn (STREAM.received me.multicastPacketSize datagram).behindWelcome stream →
      ∀ size, ∃ bytes stream', stream.readStreamN size = .ok (bytes, stream') ∧
        (bytes.isSome = true → stream.dIndex + size ≤ (stored me datagram).length)
  handed : ∀ msg, process extract me (STREAM.received me.multicastPacketSize datagram) =
    .ok (some msg) → ∃ body msgSize src behind rest, stored me datagram = welcome ++ body ∧
      messagePacketHeaderRead inputStream.toSource true body = .ok (msgSize, src) behind ∧
      Message.messageRead inputStream extract ⟨[], none⟩ TcpSender.appMsg behind =
        .ok (msg, .success, rest)

/-- It is no beginning of the prefix, and what stands behind a header that announces a message is
one that can be read. -/
structure Good (extract : Option Qos → List Byte → Exec (Option Qos × Status)) (me : TcpMulticast)
    (datagram : List Byte) : Prop where
  opening : stored me datagram <+: welcome → stored me datagram = welcome
  message : ∀ body msgSize src behind, stored me datagram = welcome ++ body →
    messagePacketHeaderRead inputStream.toSource true body = .ok (msgSize, src) behind →
    0 < msgSize ∧ msgSize < 2 ^ 63 → ∀ msg status rest,
      Message.messageRead inputStream extract ⟨[], none⟩ TcpSender.appMsg behind =
        .ok (msg, status, rest) → status = .success

theorem handled_iff : Handled extract me datagram ↔
    (me.allowMulticast = true → me.run = true → Good extract me datagram) := by
  have hlooked := checkWelcome_inside welcome (stored me datagram)
    ((List.replicate me.multicastPacketSize 0).drop (stored me datagram).length)
  constructor
  · intro h hallow hrun
    refine ⟨hlooked.mp (h.looked hallow hrun), ?_⟩
    intro body msgSize src behind hbody hheader hsize msg status rest hread
    obtain ⟨body', msgSize', src', behind', rest', hbody', hheader', hread'⟩ := h.handed msg
      (process_eq_some.mpr ⟨⟨hallow, hrun⟩, body, msgSize, src, behind, status, rest, hbody, hheader,
        hsize, hread⟩)
    obtain rfl := append_cancel_left (hbody.symm.trans hbody')
    rw [hheader] at hheader'
    cases hheader'
    rw [hread] at hread'
    cases hread'
    rfl
  · intro h
    refine ⟨fun hallow hrun => hlooked.mpr (h hallow hrun).opening, ?_, ?_⟩
    · intro hwelcome stream hread size
      have hle := (welcome_starts hwelcome).length_le
      have hwithin := hread.within (STREAM.within_behindWelcome hle length_stored_lt)
      obtain ⟨bytes, stream', hstep, -, -, hend⟩ := STREAM.readStreamN_spec hwithin size
      exact ⟨bytes, stream', hstep, hend⟩
    · intro msg hmsg
      obtain ⟨⟨hallow, hrun⟩, body, msgSize, src, behind, status, rest, hbody, hheader, hsize, hread⟩ :=
        process_eq_some.mp hmsg
      obtain rfl := (h hallow hrun).message body msgSize src behind hbody hheader hsize _ _ _ hread
      exact ⟨body, msgSize, src, behind, rest, hbody, hheader, hread⟩

end Receive

/-! ## the stream that is written -/

namespace STREAM

/-- Where the index of a buffer of this size goes with a chunk. -/
def advance (dSize dIndex : Nat) (chunk : List Byte) : Nat :=
  if dSize ≤ dIndex + chunk.length then dIndex else dIndex + chunk.length

/-- The chunks in turn, whatever becomes of them. -/
def writeAll (stream : STREAM) (chunks : List (List Byte)) : STREAM :=
  chunks.foldl (fun s chunk => (s.writeStream chunk).1) stream

section Write
variable {stream : STREAM} {chunks : List (List Byte)}

theorem writeStream_refused {buf : List Byte}
    (h : stream.dataBuf.length ≤ stream.dIndex + buf.length) :
    stream.writeStream buf = (stream, .failed) := if_pos h

theorem writeStream_taken {buf : List Byte}
    (h : stream.dIndex + buf.length < stream.dataBuf.length) :
    ∃ stream', stream.writeStream buf = (stream', .success) ∧
      stream'.dIndex = stream.dIndex + buf.length ∧
      stream'.dataBuf.length = stream.dataBuf.length ∧
      stream'.dataBuf.take stream'.dIndex = stream.dataBuf.take stream.dIndex ++ buf := by
  have hfront : (stream.dataBuf.take stream.dIndex ++ buf).length = stream.dIndex + buf.length := by
    rw [length_append, length_take, Nat.min_eq_left (by omega)]
  refine ⟨_, if_neg (Nat.not_le.mpr h), rfl, ?_, ?_⟩
  · rw [length_append, hfront, length_drop]
    omega
  · rw [← hfront, take_left]

theorem length_writeAll : (stream.writeAll chunks).dataBuf.length = stream.dataBuf.length := by
  induction chunks generalizing stream with
  | nil => rfl
  | cons chunk chunks ih =>
    show ((stream.writeStream chunk).1.writeAll chunks).dataBuf.length = _
    rw [ih]
    by_cases h : stream.dataBuf.length ≤ stream.dIndex + chunk.length
    · rw [writeStream_refused h]
    · obtain ⟨stream', heq, -, hlen, -⟩ := writeStream_taken (Nat.not_le.mp h)
      rw [heq]
      exact hlen

theorem dIndex_writeAll : (stream.writeAll chunks).dIndex =
    chunks.foldl (advance stream.dataBuf.length) stream.dIndex := by
  induction chunks generalizing stream with
  | nil => rfl
  | cons chunk chunks ih =>
    show ((stream.writeStream chunk).1.writeAll chunks).dIndex = _
    rw [ih, foldl_cons, advance]
    by_cases h : stream.dataBuf.length ≤ stream.dIndex + chunk.length
    · rw [writeStream_refused h, if_pos h]
    · obtain ⟨stream', heq, hindex, hlen, -⟩ := writeStream_taken (Nat.not_le.mp h)
      rw [heq, if_neg h]
      rw [hlen, hindex]

section
variable (h : stream.dIndex + chunks.flatten.length < stream.dataBuf.length)
include h

/-- Chunks that fit together are all in the buffer. -/
theorem writeAll_fits :
    (stream.writeAll chunks).dIndex = stream.dIndex + chunks.flatten.length ∧
      (stream.writeAll chunks).dataBuf.take (stream.writeAll chunks).dIndex =
        stream.dataBuf.take stream.dIndex ++ chunks.flatten := by
  induction chunks generalizing stream with
  | nil => exact ⟨rfl, (append_nil _).symm⟩
  | cons chunk chunks ih =>
    rw [flatten_cons, length_append] at h
    obtain ⟨stream', heq, hindex, hlen, htake⟩ := @writeStream_taken stream chunk (by omega)
    have hwrite : stream.writeAll (chunk :: chunks) = stream'.writeAll chunks := by
      show (stream.writeStream chunk).1.writeAll chunks = _
      rw [heq]
    obtain ⟨hindex', htake'⟩ := @ih stream' (by rw [hindex, hlen]; omega)
    rw [hwrite, flatten_cons]
    constructor
    · rw [hindex', hindex, length_append, Nat.add_assoc]
    · rw [htake', htake, append_assoc]

/-- The writers stop at the first chunk that does not fit. -/
theorem driveChunks_fits :
    Script.driveChunks writeFunc chunks stream = .ok (stream.writeAll chunks, none) := by
  induction chunks generalizing stream with
  | nil => rfl
  | cons chunk chunks ih =>
    rw [flatten_cons, length_append] at h
    obtain ⟨stream', heq, hindex, hlen, -⟩ := @writeStream_taken stream chunk (by omega)
    have hput : writeFunc stream chunk = .ok (stream', none) := by
      unfold writeFunc
      rw [heq]
      rfl
    have hwrite : stream.writeAll (chunk :: chunks) = stream'.writeAll chunks := by
      show (stream.writeStream chunk).1.writeAll chunks = _
      rw [heq]
    rw [Script.driveChunks, hput, hwrite]
    exact ih (by rw [hindex, hlen]; omega)

end

theorem driveChunks_refused (hne : chunks ≠ [])
    (h : stream.dataBuf.length ≤ stream.dIndex + chunks.flatten.length) :
    ∃ stream', Script.driveChunks writeFunc chunks stream = .ok (stream', some .failed) := by
  induction chunks generalizing stream with
  | nil => exact absurd rfl hne
  | cons chunk chunks ih =>
    by_cases hchunk : stream.dataBuf.length ≤ stream.dIndex + chunk.length
    · refine ⟨stream, ?_⟩
      rw [Script.driveChunks]
      unfold writeFunc
      rw [writeStream_refused hchunk]
      rfl
    · obtain ⟨stream', heq, hindex, hlen, -⟩ := writeStream_taken (Nat.not_le.mp hchunk)
      have hput : writeFunc stream chunk = .ok (stream', none) := by
        unfold writeFunc
        rw [heq]
        rfl
      rw [flatten_cons, length_append] at h
      rw [Script.driveChunks, hput]
      refine @ih stream' ?_ (by rw [hindex, hlen]; omega)
      rintro rfl
      rw [flatten_nil, length_nil] at h
      omega

end Write

end STREAM

/-! ## sending -/

theorem foldl_sizeFunc (chunks : List (List Byte)) (size : Nat) :
    chunks.foldl (fun s chunk => (sizeFunc s chunk).1) size = size + chunks.flatten.length := by
  induction chunks generalizing size with
  | nil => rfl
  | cons chunk chunks ih =>
    rw [foldl_cons, ih, flatten_cons, length_append]
    exact Nat.add_assoc _ _ _

section Send
variable {Qos : Type} (sendto : List Byte → Bool) (qosToXml : Qos → CString) (me : TcpMulticast)
  (msg : Message Qos) (serviceName serviceParams : Option CString)
variable (msgSize : Nat)

theorem length_srcAddr : me.srcAddr.bytes.length < 65536 :=
  Nat.lt_of_le_of_lt (CString.length_ofBuffer_le _)
    (Nat.lt_of_le_of_lt (length_take_le _ _) (by decide))

/-- The header in front of a message of this size. -/
def header (msgSize : Nat) : List Byte := headerBlock msgSize true me.srcAddr

/-- How far the prefix and the header fill the buffer, chunk by chunk. -/
def filled (msgSize : Nat) : Nat :=
  (welcome :: chunks msgSize true me.srcAddr).foldl (STREAM.advance me.multicastPacketSize) 0

/-- The bytes of the message that is sent. -/
def body : List Byte :=
  (Message.WriteScript.messageWriter 0 TcpSender.appMsg (Message.addQosElement qosToXml
    (msg.setDestination (me.destination serviceName serviceParams))).elements).bytes

/-- The header fits into the buffer, or else the message does not fit behind what of it does. -/
def Fits (wire : List Byte) : Prop :=
  4 + (header me wire.length).length < me.multicastPacketSize ∨
    me.multicastPacketSize ≤ filled me wire.length + wire.length

/-- The call comes back, and with success only where the packet was sent whole. -/
def Propagates : Prop :=
  ∃ sent msg' status, propagate sendto qosToXml me msg serviceName serviceParams =
      .ok (sent, msg', status) ∧
    (status = .success → ∃ wire, TcpSender.wireForm qosToXml
        (msg.setDestination (me.destination serviceName serviceParams)) 0 = some wire ∧
      sent = [welcome ++ (header me wire.length ++ wire)])

variable {sendto qosToXml me msg serviceName serviceParams}

theorem completes_body : (Message.WriteScript.messageWriter 0 TcpSender.appMsg
    (Message.addQosElement qosToXml
      (msg.setDestination (me.destination serviceName serviceParams))).elements).Completes := by
  unfold Message.WriteScript.messageWriter
  rw [if_pos rfl]
  exact Message.WriteScript.completes_messageWriteV1 (by decide) _

theorem wireForm_body : TcpSender.wireForm qosToXml
    (msg.setDestination (me.destination serviceName serviceParams)) 0 =
      some (body qosToXml me msg serviceName serviceParams) :=
  TcpSender.wireForm_eq completes_body

/-- A message begins with its magic bytes. -/
theorem body_ne_nil : body qosToXml me msg serviceName serviceParams ≠ [] := nofun

/-- The stream in front of the body. -/
def opened (me : TcpMulticast) (msgSize : Nat) : STREAM :=
  (STREAM.init me.multicastPacketSize).writeAll (welcome :: chunks msgSize true me.srcAddr)

theorem length_opened : (opened me msgSize).dataBuf.length = me.multicastPacketSize :=
  STREAM.length_writeAll.trans length_replicate

theorem dIndex_opened : (opened me msgSize).dIndex = filled me msgSize := by
  unfold opened filled
  rw [STREAM.dIndex_writeAll]
  unfold STREAM.init
  rw [length_replicate]

theorem flatten_opening :
    (welcome :: chunks msgSize true me.srcAddr).flatten = welcome ++ header me msgSize := by
  rw [flatten_cons, chunks_flatten msgSize true (length_srcAddr me)]
  rfl

theorem length_flatten_opening :
    (welcome :: chunks msgSize true me.srcAddr).flatten.length = 4 + (header me msgSize).length := by
  rw [flatten_opening, length_append]
  rfl

/-- A header that fits is in the buffer behind the prefix. -/
theorem opened_fits {msgSize : Nat} (h : 4 + (header me msgSize).length < me.multicastPacketSize) :
    (opened me msgSize).dIndex = 4 + (header me msgSize).length ∧
      (opened me msgSize).dataBuf.take (4 + (header me msgSize).length) =
        welcome ++ header me msgSize := by
  have hbelow : (STREAM.init me.multicastPacketSize).dIndex +
      (welcome :: chunks msgSize true me.srcAddr).flatten.length <
        (STREAM.init me.multicastPacketSize).dataBuf.length := by
    unfold STREAM.init
    rw [length_flatten_opening, length_replicate, Nat.zero_add]
    exact h
  obtain ⟨hindex, htake⟩ := STREAM.writeAll_fits hbelow
  rw [length_flatten_opening] at hindex
  have hend : (opened me msgSize).dIndex = 4 + (header me msgSize).length :=
    hindex.trans (Nat.zero_add _)
  refine ⟨hend, ?_⟩
  rw [← hend]
  exact htake.trans (flatten_opening msgSize)

theorem packetHeaderSize_eq :
    (messagePacketHeaderWrite sizeFunc 0 msgSize true me.srcAddr).1 = (header me msgSize).length := by
  rw [messagePacketHeaderWrite_eq, foldl_sizeFunc, Nat.zero_add,
    chunks_flatten msgSize true (length_srcAddr me)]
  rfl

theorem opened_eq :
    (messagePacketHeaderWrite STREAM.writeStream
        ((STREAM.init me.multicastPacketSize).writeStream welcome).1 msgSize true me.srcAddr).1 =
      opened me msgSize := by
  rw [messagePacketHeaderWrite_eq]
  unfold opened STREAM.writeAll
  rw [foldl_cons]

/-- The size that the first pass finds is that of the message. -/
theorem drive_msgWireformatSize {x : Message.WriteScript} (hx : x.Completes) :
    x.drive TcpSender.msgWireformatSize 0 = .ok (x.bytes.length, none) := by
  have hchunks : ∀ (chunks : List (List Byte)) (size : Nat),
      Script.driveChunks TcpSender.msgWireformatSize chunks size =
        .ok (size + chunks.flatten.length, none) := by
    intro chunks
    induction chunks with
    | nil => exact fun _ => rfl
    | cons chunk chunks ih =>
      intro size
      rw [Script.driveChunks, flatten_cons, length_append, ← Nat.add_assoc]
      exact ih (size + chunk.length)
  unfold Script.drive
  rw [hchunks, ok_bind, Nat.zero_add]
  rw [hx]
  rfl

/-- The message as it is written. -/
def written (qosToXml : Qos → CString) (me : TcpMulticast) (msg : Message Qos)
    (serviceName serviceParams : Option CString) : Message Qos :=
  Message.addQosElement qosToXml (msg.setDestination (me.destination serviceName serviceParams))

/-- The chunks of a message. -/
def bodyChunks (qosToXml : Qos → CString) (me : TcpMulticast) (msg : Message Qos)
    (serviceName serviceParams : Option CString) : List (List Byte) :=
  (Message.WriteScript.messageWriter 0 TcpSender.appMsg
    (written qosToXml me msg serviceName serviceParams).elements).chunks

theorem propagate_eq (hallow : me.allowMulticast = true) (hrun : me.run = true) {size : Nat}
    (hsize : (body qosToXml me msg serviceName serviceParams).length = size) :
    propagate sendto qosToXml me msg serviceName serviceParams =
      (Script.driveChunks STREAM.writeFunc (bodyChunks qosToXml me msg serviceName serviceParams)
          (opened me size) >>= fun p =>
        match p.2 with
        | some _ => .ok ([], written qosToXml me msg serviceName serviceParams, .failed)
        | none => write sendto p.1 (4 + (header me size).length + size) >>= fun q =>
            .ok (q.1, written qosToXml me msg serviceName serviceParams,
              if q.2 = .success then q.2 else .failed)) := by
  subst hsize
  unfold propagate Message.WriteScript.messageWrite1To
  rw [hallow, hrun, if_neg (by decide)]
  dsimp only
  rw [drive_msgWireformatSize completes_body, ok_bind, pure_eq_ok, ok_bind]
  rw [TcpSender.addQosElement_addQosElement, packetHeaderSize_eq, opened_eq,
    Script.drive_completes completes_body]
  cases hchunks : Script.driveChunks STREAM.writeFunc
      (bodyChunks qosToXml me msg serviceName serviceParams)
      (opened me (body qosToXml me msg serviceName serviceParams).length) with
  | error f =>
    unfold bodyChunks written body at hchunks
    rw [hchunks]
    rfl
  | ok p =>
    unfold bodyChunks written body at hchunks
    rw [hchunks]
    rfl

theorem bodyChunks_ne_nil : bodyChunks qosToXml me msg serviceName serviceParams ≠ [] := nofun

/-- A packet goes out whole, and no byte behind the buffer, if and only if its header fits into the
buffer or its message does not. -/
theorem propagates_iff : Propagates sendto qosToXml me msg serviceName serviceParams ↔
    (me.allowMulticast = true → me.run = true →
      Fits me (body qosToXml me msg serviceName serviceParams)) := by
  by_cases hon : me.allowMulticast = true ∧ me.run = true
  · obtain ⟨hallow, hrun⟩ := hon
    rw [forall_prop_of_true hallow, forall_prop_of_true hrun]
    unfold Propagates
    generalize hbody : body qosToXml me msg serviceName serviceParams = wire
    have heq := @propagate_eq _ sendto qosToXml me msg serviceName serviceParams hallow hrun
      wire.length (by rw [hbody])
    rw [heq]
    have hflat : (bodyChunks qosToXml me msg serviceName serviceParams).flatten = wire := hbody
    have hindex := @dIndex_opened me wire.length
    have hlen := @length_opened me wire.length
    have hform := @wireForm_body _ qosToXml me msg serviceName serviceParams
    rw [hbody] at hform
    by_cases hroom : filled me wire.length + wire.length < me.multicastPacketSize
    · -- the message fits behind what of the header does
      have hbelow : (opened me wire.length).dIndex +
          (bodyChunks qosToXml me msg serviceName serviceParams).flatten.length <
            (opened me wire.length).dataBuf.length := by
        rw [hflat, hindex, hlen]
        exact hroom
      rw [STREAM.driveChunks_fits hbelow, ok_bind]
      unfold write
      rw [if_neg (by omega), STREAM.length_writeAll, hlen]
      by_cases hheader : 4 + (header me wire.length).length < me.multicastPacketSize
      · refine iff_of_true ?_ (.inl hheader)
        obtain ⟨hfull, htake⟩ := opened_fits hheader
        obtain ⟨hend, hsent⟩ := STREAM.writeAll_fits hbelow
        rw [hend, hflat, hfull, htake] at hsent
        rw [hindex] at hfull
        rw [if_neg (by omega), hsent, append_assoc]
        by_cases htaken : sendto (welcome ++ (header me wire.length ++ wire)) = true
        · rw [if_pos htaken]
          exact ⟨_, _, _, rfl, fun _ => ⟨wire, hform, rfl⟩⟩
        · rw [if_neg htaken]
          exact ⟨_, _, _, rfl, nofun⟩
      · refine iff_of_false ?_ fun h => h.elim hheader (Nat.not_le.mpr hroom)
        -- what is missing of the header is more than what is left of the buffer
        have hpos : 0 < wire.length := length_pos_iff.mpr (hbody ▸ body_ne_nil)
        rw [if_pos (by omega)]
        rintro ⟨sent, msg', status, hok, -⟩
        cases hok
    · refine iff_of_true ?_ (.inr (Nat.not_lt.mp hroom))
      have habove : (opened me wire.length).dataBuf.length ≤ (opened me wire.length).dIndex +
          (bodyChunks qosToXml me msg serviceName serviceParams).flatten.length := by
        rw [hflat, hindex, hlen]
        exact Nat.not_lt.mp hroom
      obtain ⟨stream', hrefused⟩ := STREAM.driveChunks_refused bodyChunks_ne_nil habove
      rw [hrefused, ok_bind]
      exact ⟨_, _, _, rfl, nofun⟩
  · refine iff_of_true ?_ fun hallow hrun => absurd ⟨hallow, hrun⟩ hon
    have hoff : ∀ a b : Bool, ¬ (a = true ∧ b = true) → (!a || !b) = true := by decide
    refine ⟨[], msg, .failed, ?_, nofun⟩
    unfold propagate
    rw [if_pos (hoff _ _ hon)]

end Send

/-- A datagram is handled as it should if and only if its message can be read; a packet goes out as
it should if and only if its header fits into the buffer, or its message does not. -/
theorem datagrams_iff {Qos : Type} (extract : Option Qos → List Byte → Exec (Option Qos × Status))
    (sendto : List Byte → Bool) (qosToXml : Qos → CString) (me : TcpMulticast) :
    (∀ datagram, Handled extract me datagram ↔
      (me.allowMulticast = true → me.run = true → Good extract me datagram)) ∧
    ∀ msg serviceName serviceParams, Propagates sendto qosToXml me msg serviceName serviceParams ↔
      (me.allowMulticast = true → me.run = true →
        Fits me (body qosToXml me msg serviceName serviceParams)) :=
  ⟨fun _ => handled_iff, fun _ _ _ => propagates_iff⟩

/-- A running multicast with the usual packet size. -/
def running : TcpMulticast :=
  ⟨true, true, .ofBuffer (text "224.0.1.85"), 1234, 16384, by decide, .ofBuffer (text "10.0.0.1"),
    9701⟩

def noQos : Option Unit → List Byte → Exec (Option Unit × Status) := fun qos _ => .ok (qos, .success)

/-- Five bytes that are no message are handed on as an empty one. -/
theorem not_handled : ¬ ∀ (me : TcpMulticast) (datagram : List Byte), Handled noQos me datagram := by
  intro h
  have hgood := handled_iff.mp (h running (welcome ++ (header running 5 ++ text "xxxxx"))) rfl rfl
  have hheader : messagePacketHeaderRead inputStream.toSource true (header running 5 ++ text "xxxxx")
      = .ok (5, some running.srcAddr) (text "xxxxx") := by decide +kernel
  have hread : Message.messageRead inputStream noQos ⟨[], none⟩ TcpSender.appMsg (text "xxxxx") =
      .ok (⟨[], none⟩, .ioerr, text "x") := by decide +kernel
  have hsuccess := hgood.message _ _ _ _ (by decide +kernel) hheader (by decide) _ _ _ hread
  cases hsuccess

end JxtaC.TcpMulticast
