import JxtaC.Message.Lengths
import JxtaC.TcpSender

/-
  What a TCP connection hands to its socket (jxta_transport_tcp_connection.c).
  What was sent and what is in the buffer are together all that was written as long as every write
  succeeds (`writeToTcpConnection_success`); a write that fails leaves the buffer empty, so that the
  last flush of `send_message` cannot hide it. The statuses of the packet header do not matter: it
  fits into the empty buffer, which the buffer is between two messages (`Reached.dataOutBuf`).
-/

namespace JxtaC

open Lib List

namespace TcpSender

open Message.WriteScript (messageWrite1To messageWriter)

section Flush
variable {me me' : TcpSender} {status : Status}

theorem flushLoop_success {socket socket' : List SendResult} {sent sent' buf : List Byte}
    (h : flushLoop socket sent buf = .ok (socket', sent', .success)) : sent' = sent ++ buf := by
  induction socket generalizing sent buf with
  | nil =>
    cases buf with
    | nil =>
      cases h
      exact (append_nil _).symm
    | cons b buf => cases h
  | cons r socket ih =>
    cases buf with
    | nil =>
      cases h
      exact (append_nil _).symm
    | cons b buf =>
      rw [flushLoop] at h
      have hrest : flushLoop socket (sent ++ (b :: buf).take r.written) ((b :: buf).drop r.written)
          = .ok (socket', sent', .success) → sent' = sent ++ b :: buf := by
        intro hloop
        rw [ih hloop, append_assoc, take_append_drop]
      cases hstatus : r.status with
      | success =>
        rw [hstatus] at h
        exact hrest h
      | again =>
        rw [hstatus] at h
        exact hrest h
      | error =>
        rw [hstatus] at h
        cases h

theorem flush_eq {buf : List Byte} (h : me.flush buf = .ok (me', status)) :
    ∃ socket sent, me' = { me with socket, sent } ∧
      (status = .success → sent = me.sent ++ buf) := by
  obtain ⟨⟨socket, sent, status'⟩, hloop, hend⟩ := bind_eq_ok.mp h
  cases hend
  refine ⟨socket, sent, rfl, ?_⟩
  rintro rfl
  exact flushLoop_success hloop

theorem tcpConnectionFlush_eq (h : me.tcpConnectionFlush = .ok (me', status)) :
    ∃ socket sent, me' = { me with socket, sent, dataOutBuf := [] } ∧
      (status = .success → sent = me.sent ++ me.dataOutBuf) := by
  obtain ⟨⟨me₁, status'⟩, hflush, hend⟩ := bind_eq_ok.mp h
  obtain ⟨socket, sent, rfl, hsent⟩ := flush_eq hflush
  cases hend
  exact ⟨socket, sent, rfl, hsent⟩

/-- A write that succeeds: its bytes are behind the others, sent or in the buffer. -/
theorem writeToTcpConnection_success {buf : List Byte}
    (h : me.writeToTcpConnection buf = .ok (me', .success)) :
    me'.sent ++ me'.dataOutBuf = me.sent ++ me.dataOutBuf ++ buf := by
  unfold writeToTcpConnection at h
  split at h
  · cases h
    rw [append_assoc]
  · obtain ⟨⟨me₁, status₁⟩, hflush, hrest⟩ := bind_eq_ok.mp h
    obtain ⟨socket, sent, rfl, hsent⟩ := tcpConnectionFlush_eq hflush
    dsimp only at hrest
    split at hrest
    · cases hrest
      exact absurd rfl ‹_›
    · obtain ⟨socket', sent', rfl, hsent'⟩ := flush_eq hrest
      dsimp only at hsent' ⊢
      rw [hsent' rfl, hsent (Decidable.not_not.mp ‹_›), append_nil]

/-- A write that fails leaves nothing in the buffer. -/
theorem writeToTcpConnection_failure {buf : List Byte}
    (h : me.writeToTcpConnection buf = .ok (me', status)) (hstatus : status ≠ .success) :
    me'.dataOutBuf = [] := by
  unfold writeToTcpConnection at h
  split at h
  · cases h
    exact absurd rfl hstatus
  · obtain ⟨⟨me₁, status₁⟩, hflush, hrest⟩ := bind_eq_ok.mp h
    obtain ⟨socket, sent, rfl, -⟩ := tcpConnectionFlush_eq hflush
    dsimp only at hrest
    split at hrest
    · cases hrest
      rfl
    · obtain ⟨socket', sent', rfl, -⟩ := flush_eq hrest
      rfl

end Flush

/-! ## the packet header -/

theorem foldl_headerFunc (chunks : List (List Byte)) (me : TcpSender)
    (h : me.dataOutBuf.length + chunks.flatten.length < bufsize) :
    chunks.foldl (fun s chunk => (headerFunc s chunk).1) (.ok me)
      = .ok { me with dataOutBuf := me.dataOutBuf ++ chunks.flatten } := by
  induction chunks generalizing me with
  | nil =>
    rw [flatten_nil, append_nil]
    rfl
  | cons chunk chunks ih =>
    rw [flatten_cons, length_append] at h
    have hwrite : (headerFunc (.ok me) chunk).1
        = .ok { me with dataOutBuf := me.dataOutBuf ++ chunk } := by
      unfold headerFunc writeToTcpConnection
      dsimp only
      rw [if_pos (by omega)]
    rw [foldl_cons, hwrite, ih _ (by rw [length_append]; omega), flatten_cons,
      append_assoc]

/-- The header of a message without a source address. -/
abbrev header (msgSize : Nat) : List Byte := PacketHeader.headerBlock msgSize false (.ofBuffer [])

theorem length_header (msgSize : Nat) : (header msgSize).length = 63 := by
  unfold header PacketHeader.headerBlock
  rw [length_append, length_append, length_append, PacketHeader.length_headerBytes,
    PacketHeader.length_headerBytes, length_bigEndian]
  rfl

/-- Into an empty buffer the header is written whole. -/
theorem messagePacketHeaderWrite_headerFunc {me : TcpSender} (hbuf : me.dataOutBuf = [])
    (msgSize : Nat) :
    (PacketHeader.messagePacketHeaderWrite headerFunc (.ok me) msgSize false (.ofBuffer [])).1
      = .ok { me with dataOutBuf := header msgSize } := by
  have hflat := PacketHeader.chunks_flatten msgSize false
    (show (CString.ofBuffer []).bytes.length < 65536 by decide)
  have hlen := length_header msgSize
  rw [PacketHeader.messagePacketHeaderWrite_eq, foldl_headerFunc _ me, hflat, hbuf, nil_append]
  rw [hflat, hbuf, hlen]
  decide

/-! ## the body -/

section Body
variable {me me' : TcpSender} {x : Message.WriteScript}

theorem writeFunc_none {buf : List Byte} (h : me.writeFunc buf = .ok (me', none)) :
    me.writeToTcpConnection buf = .ok (me', .success) := by
  obtain ⟨⟨me₁, status⟩, hwrite, hend⟩ := bind_eq_ok.mp h
  dsimp only at hend
  split at hend
  · obtain rfl : status = .success := ‹_›
    cases hend
    exact hwrite
  · cases hend

theorem writeFunc_some {buf : List Byte} {e : Status} (h : me.writeFunc buf = .ok (me', some e)) :
    me'.dataOutBuf = [] ∧ e ≠ .success := by
  obtain ⟨⟨me₁, status⟩, hwrite, hend⟩ := bind_eq_ok.mp h
  dsimp only at hend
  split at hend
  · cases hend
  · cases hend
    exact ⟨writeToTcpConnection_failure hwrite ‹_›, ‹_›⟩

/-- All of a body was taken. -/
theorem drive_writeFunc_none (h : x.drive writeFunc me = .ok (me', none)) :
    me'.sent ++ me'.dataOutBuf = me.sent ++ me.dataOutBuf ++ x.bytes := by
  have hchunks := (Script.drive_none h).1
  refine @Script.driveChunks_none _ _ _ writeFunc me me'
    (fun s bs => s.sent ++ s.dataOutBuf = bs) x.chunks (me.sent ++ me.dataOutBuf) ?_ hchunks rfl
  rintro s s' chunk bs rfl hput
  exact writeToTcpConnection_success (writeFunc_none hput)

/-- A part of a body was not. -/
theorem drive_writeFunc_some {e : Status} (h : x.drive writeFunc me = .ok (me', some e))
    (hending : x.ending = .value ()) : me'.dataOutBuf = [] ∧ e ≠ .success := by
  have hchunks := Script.drive_some h hending
  exact @Script.driveChunks_some _ _ _ writeFunc me me' (fun s e => s.dataOutBuf = [] ∧ e ≠ .success)
    x.chunks e (fun _ _ _ _ hput => writeFunc_some hput) hchunks

/-- The size that the first pass finds. -/
theorem drive_msgWireformatSize {size : Nat} (h : x.drive msgWireformatSize 0 = .ok (size, none)) :
    size = x.bytes.length ∧ x.ending = .value () := by
  obtain ⟨hchunks, hending⟩ := Script.drive_none h
  refine ⟨?_, hending⟩
  have hsize := @Script.driveChunks_none _ _ _ msgWireformatSize 0 size
    (fun s bs => s = bs.length) x.chunks [] ?_ hchunks rfl
  · rwa [nil_append] at hsize
  · rintro s s' chunk bs rfl hput
    cases hput
    exact length_append.symm

end Body

section Send
variable {Qos : Type} {qosToXml : Qos → CString} {me me' : TcpSender} {msg msg' : Message Qos}
  {res : Status}

/-- The QoS element is written once, however often the message is written. -/
theorem addQosElement_addQosElement (msg : Message Qos) :
    Message.addQosElement qosToXml (Message.addQosElement qosToXml msg)
      = Message.addQosElement qosToXml msg := by
  have hremove : ∀ (elements : List MessageElement) (el : MessageElement),
      el.body.ns = messageJxtaNs ∧ el.body.name = messageQosSettingName →
      Message.removeElement2 messageJxtaNs messageQosSettingName (elements ++ [el]) = elements := by
    intro elements el hel
    unfold Message.removeElement2
    rw [reverse_append, reverse_singleton, singleton_append,
      eraseP_cons_of_pos (by exact decide_eq_true hel), reverse_reverse]
  unfold Message.addQosElement
  cases hqos : msg.qos with
  | none =>
    rw [hqos]
  | some qos =>
    rw [hremove _ _ ⟨rfl, rfl⟩]

/-- The bytes that `jxta_message_write_1` writes where every write succeeds; none if it does not. -/
def wireForm (qosToXml : Qos → CString) (msg : Message Qos) (version : Int) : Option (List Byte) :=
  match Message.messageWrite1 qosToXml msg appMsg version Message.acceptAll with
  | .ok (_, .success, wire) => some wire
  | _ => none

theorem wireForm_eq {version : Int} (hending : (messageWriter version appMsg
    (Message.addQosElement qosToXml msg).elements).ending = .value ()) :
    wireForm qosToXml msg version = some
      (messageWriter version appMsg (Message.addQosElement qosToXml msg).elements).bytes := by
  have hdrive := Message.WriteScript.drive_sink Message.acceptAll.sink
    (messageWriter version appMsg (Message.addQosElement qosToXml msg).elements) []
  rw [Script.run_open Message.acceptAll_open, hending, nil_append] at hdrive
  unfold wireForm
  rw [Message.WriteScript.messageWrite1_eq]
  unfold messageWrite1To
  dsimp only
  rw [hdrive]
  rfl

/-- What a call of `send_message` that returns does: nothing was sent, or the packet header was, and
    the message was. -/
theorem sendMessage_eq (hbuf : me.dataOutBuf = [])
    (h : me.sendMessage qosToXml msg = .ok (me', msg', res)) :
    me'.dataOutBuf = [] ∧ (res = .success → ∃ wire,
      wireForm qosToXml (msg.setSource me.publicAddr) me.useMsgVersion = some wire ∧
        me'.sent = me.sent ++ (header wire.length ++ wire)) := by
  unfold sendMessage at h
  split at h
  · cases h
    exact ⟨hbuf, fun hres => by cases hres⟩
  · obtain ⟨⟨msg₁, res₁, msgSize⟩, hsize, hrest⟩ := bind_eq_ok.mp h
    obtain ⟨⟨size, res₁'⟩, hdrive, hend⟩ := bind_eq_ok.mp hsize
    cases hend
    dsimp only at hrest
    cases res₁ with
    | some res₁ =>
      cases hrest
      refine ⟨hbuf, fun hres => ?_⟩
      have hexit := Script.drive_exit (fun s chunk => ⟨s + chunk.length, rfl⟩) hdrive
      exact absurd hres (Message.WriteScript.fails_messageWriter _ _ _ _ hexit)
    | none =>
      obtain ⟨rfl, hending⟩ := drive_msgWireformatSize hdrive
      rw [messagePacketHeaderWrite_headerFunc hbuf, ok_bind] at hrest
      obtain ⟨⟨msg₂, res₂, me₂⟩, hbody, hend⟩ := bind_eq_ok.mp hrest
      obtain ⟨⟨me₂', res₂'⟩, hdrive₂, hend₂⟩ := bind_eq_ok.mp hbody
      cases hend₂
      rw [addQosElement_addQosElement] at hdrive₂
      have hwire := wireForm_eq hending
      cases res₂ with
      | some e =>
        obtain ⟨hempty, hne⟩ := drive_writeFunc_some hdrive₂ hending
        rw [if_neg (not_not_intro hempty)] at hend
        cases hend
        exact ⟨hempty, fun hres => absurd hres hne⟩
      | none =>
        have htaken := drive_writeFunc_none hdrive₂
        split at hend
        · obtain ⟨⟨me₃, res₃⟩, hflush, hend₃⟩ := bind_eq_ok.mp hend
          obtain ⟨socket, sent, rfl, hsent⟩ := tcpConnectionFlush_eq hflush
          cases hend₃
          refine ⟨rfl, fun hres => ⟨_, hwire, ?_⟩⟩
          rw [hsent hres, htaken, append_assoc]
        · cases hend
          have hempty := Decidable.not_not.mp ‹_›
          refine ⟨hempty, fun _ => ⟨_, hwire, ?_⟩⟩
          rw [hempty, append_nil] at htaken
          rw [htaken, append_assoc]

end Send

/-! ## runs -/

section Runs
variable {Qos : Type} (qosToXml : Qos → CString)

/-- A connection after any messages that were sent, with its state, its version and its socket
    changing between them. -/
inductive Reached : TcpSender → Prop where
  | opened (connected : Bool) (useMsgVersion : Int) (publicAddr : EndpointAddress)
      (socket : List SendResult) (sent : List Byte) :
      Reached ⟨connected, useMsgVersion, publicAddr, [], socket, sent⟩
  | changed {me : TcpSender} (h : Reached me) (connected : Bool) (useMsgVersion : Int)
      (publicAddr : EndpointAddress) (socket : List SendResult) :
      Reached { me with connected, useMsgVersion, publicAddr, socket }
  | sent {me me' : TcpSender} (h : Reached me) {msg msg' : Message Qos} {res : Status}
      (hsend : me.sendMessage qosToXml msg = .ok (me', msg', res)) : Reached me'

variable {qosToXml}

theorem Reached.dataOutBuf {me : TcpSender} (h : Reached qosToXml me) : me.dataOutBuf = [] := by
  induction h with
  | opened connected useMsgVersion publicAddr socket sent => rfl
  | changed h connected useMsgVersion publicAddr socket ih => exact ih
  | sent h hsend ih => exact (sendMessage_eq ih hsend).1

end Runs

/-- A message of one element, to a socket that takes ten bytes, then none, then the rest. -/
def smallMessage : Message Unit :=
  ⟨[⟨⟨messageJxtaNs, .ofBuffer (text "x"), none, [1, 2, 3]⟩, []⟩], none⟩

def slowSender : TcpSender :=
  ⟨true, 1, ⟨.ofBuffer (text "tcp"), .ofBuffer (text "10.0.0.1:9701"), none, none⟩, [],
    [⟨.success, 10⟩, ⟨.again, 0⟩, ⟨.success, 4096⟩], []⟩

def smallWire : List Byte :=
  (wireForm (fun _ => .ofBuffer []) (smallMessage.setSource slowSender.publicAddr) 1).getD []

end TcpSender

end JxtaC
