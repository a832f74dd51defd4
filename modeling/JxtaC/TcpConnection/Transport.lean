import JxtaC.Message.RoundTrip
import JxtaC.TcpConnection.HeaderBlock
import JxtaC.TcpConnection.Reassembly
import JxtaC.TcpMulticast.Datagrams

/-
  A TCP connection from end to end (jxta_transport_tcp_connection.c). A message is a frame of the
  stream, its packet header and its wire form; `feed` takes a frame to a delivered message
  (`feed_frame`), so however the stream is cut, the messages arrive (`messages_delivered`).
-/

namespace JxtaC

open Lib List

namespace TcpConnection

open TcpSender (appMsg header wireForm Reached)
open Message (CarriedV1 CarriedV2 grouped)

/-! ## frames -/

/-- A message on the stream. -/
def frame (wire : List Byte) : List Byte := header wire.length ++ wire

/-- The headers of a message of this size. -/
def fields (msgSize : Nat) : List (List Byte × List Byte) :=
  [(PacketHeader.contentType, PacketHeader.appMsg),
    (PacketHeader.contentLength, bigEndian 8 msgSize)]

theorem fields_fit (msgSize : Nat) :
    ∀ p ∈ fields msgSize, p.1 ≠ [] ∧ p.1.length < 256 ∧ p.2.length < 65536 := by
  refine forall_mem_cons.mpr ⟨by decide, forall_mem_singleton.mpr ⟨nofun, ?_, ?_⟩⟩
  · show PacketHeader.contentLength.length < 256
    decide
  · rw [length_bigEndian]
    decide

theorem header_eq (msgSize : Nat) :
    TcpMsgCtx.headersBytes (fields msgSize) ++ [0] = header msgSize := by
  unfold TcpMsgCtx.headersBytes fields header PacketHeader.headerBlock
  simp

/-- The scan ends behind the packet header. -/
theorem scanHeaders_header (msgSize : Nat) (rest : List Byte) : ∃ ctx,
    TcpMsgCtx.scanHeaders .reset (header msgSize ++ rest) = (ctx, rest) ∧ ctx.state = .hdrDone := by
  obtain ⟨headers, hheaders⟩ := Header.exists_headers (fields_fit msgSize)
  obtain ⟨ctx, hsplit⟩ := Header.splitHeaders_block headers rest
  rw [Header.block_eq, hheaders, header_eq, TcpMsgCtx.splitHeaders_eq] at hsplit
  obtain ⟨hctx, hused⟩ := Prod.mk.inj (Except.ok.inj hsplit)
  obtain ⟨hused, hstatus⟩ := Prod.mk.inj hused
  obtain ⟨taken, htaken⟩ := TcpMsgCtx.scanHeaders_suffix .reset (header msgSize ++ rest)
  have hdone : ctx.state = .hdrDone := by
    by_contra hnot
    rw [hctx, if_neg hnot] at hstatus
    cases hstatus
  have hlen := congrArg List.length htaken
  rw [length_append, length_append] at hlen
  rw [length_append] at hused
  refine ⟨ctx, Prod.ext hctx ?_, hdone⟩
  exact ((append_inj htaken (by omega)).2).symm

/-- The size of the message is read from the packet header. -/
theorem readHeaders_header {msgSize : Nat} (hsize : msgSize < 2 ^ 63) (ctx : TcpMsgCtx) :
    ∃ ctx', ctx.readHeaders (header msgSize) = .ok (ctx', (header msgSize).length, .success) ∧
      ctx'.msgSize = msgSize := by
  have hlast : TcpMsgCtx.LengthsLast (fields msgSize) :=
    ⟨fun hbad => absurd hbad (by decide), fun _ => rfl, trivial⟩
  have hread := TcpMsgCtx.readHeaders_headers (fields_fit msgSize) ctx
  have hvalue : ofBigEndian (bigEndian 8 msgSize) = msgSize := by
    rw [ofBigEndian_bigEndian]
    exact Nat.mod_eq_of_lt (by omega)
  have hused := congrArg List.length (header_eq msgSize)
  rw [length_append, length_singleton] at hused
  rw [TcpMsgCtx.reached_eq hlast, header_eq, hused] at hread
  refine ⟨_, hread, ?_⟩
  show (TcpMsgCtx.handleHeader _ PacketHeader.contentLength (bigEndian 8 msgSize)).1.msgSize = _
  unfold TcpMsgCtx.handleHeader
  rw [if_neg (by decide), if_neg (by decide), if_pos (by decide), if_pos (by decide),
    if_neg (not_not_intro (length_bigEndian 8 msgSize))]
  exact hvalue

section Feed
variable {messageRead : List Byte → Status} {me : TcpConnection}

/-- A connection between two messages takes a frame to a message. -/
theorem feed_frame {wire : List Byte} (hopen : me.closed = false) (hctx : me.msgCtx = .reset)
    (hbuf : me.buf = []) (hwire : wire ≠ []) (hsize : wire.length < 2 ^ 63)
    (hread : messageRead wire = .success) (rest : List Byte) :
    feed messageRead me (frame wire ++ rest) = feed messageRead
      { me with delivered := me.delivered ++ [(header wire.length, wire)] } rest := by
  obtain ⟨ctx, hscan, hdone⟩ := scanHeaders_header wire.length (wire ++ rest)
  obtain ⟨ctx', hfields, hmsgSize⟩ := readHeaders_header hsize ctx
  have hheaders : headersDone { me with msgCtx := ctx, buf := header wire.length } = { me with
      msgCtx := { ctx' with msg := true, deficit := wire.length, header := header wire.length }
      buf := [] } := by
    unfold headersDone
    rw [hfields]
    dsimp only
    rw [if_neg (by simp), hmsgSize]
  have hbody := @feed_body_whole messageRead { me with
    msgCtx := { ctx' with msg := true, deficit := wire.length, header := header wire.length }
    buf := [] } hopen rfl (wire ++ rest) (by simp) (by simp [hwire])
  unfold frame
  rw [append_assoc, feed_headers hopen (by rw [hctx]; rfl) (by rw [hctx]; decide)
    (by rw [hctx]; exact hscan), if_pos hdone, hbuf, nil_append, hheaders, hbody]
  dsimp only
  rw [nil_append, take_left, drop_left, hctx]
  unfold deliver
  rw [if_pos hread]

theorem feed_frames {wires : List (List Byte)} (hopen : me.closed = false)
    (hctx : me.msgCtx = .reset) (hbuf : me.buf = []) (hwires : ∀ wire ∈ wires,
      wire ≠ [] ∧ wire.length < 2 ^ 63 ∧ messageRead wire = .success) :
    feed messageRead me (wires.flatMap frame) = { me with
      delivered := me.delivered ++ wires.map fun wire => (header wire.length, wire) } := by
  induction wires generalizing me with
  | nil =>
    rw [map_nil, append_nil]
    rfl
  | cons wire wires ih =>
    obtain ⟨hwire, hsize, hread⟩ := hwires wire mem_cons_self
    rw [flatMap_cons, feed_frame hopen hctx hbuf hwire hsize hread,
      @ih { me with delivered := me.delivered ++ [(header wire.length, wire)] } hopen hctx hbuf
        fun w hw => hwires w (mem_cons_of_mem wire hw)]
    dsimp only
    rw [append_assoc, map_cons]
    rfl

end Feed

/-! ## what is sent -/

section Sends
variable {Qos : Type} {qosToXml : Qos → CString}

variable (qosToXml) in
/-- Messages that were sent, as they were put on the stream, with their source and version.
Between them anything may happen to the connection but a message that is not sent. -/
inductive Sends : TcpSender → List (Message Qos × Int) → TcpSender → Prop where
  | nil (me : TcpSender) : Sends me [] me
  | changed {me me' : TcpSender} {sent : List (Message Qos × Int)} (connected : Bool)
      (useMsgVersion : Int) (publicAddr : EndpointAddress) (socket : List SendResult)
      (h : Sends { me with connected, useMsgVersion, publicAddr, socket } sent me') :
      Sends me sent me'
  | sent {me me' me'' : TcpSender} {msg msg' : Message Qos} {sent : List (Message Qos × Int)}
      (hsend : me.sendMessage qosToXml msg = .ok (me', msg', .success)) (h : Sends me' sent me'') :
      Sends me ((msg.setSource me.publicAddr, me.useMsgVersion) :: sent) me''

/-- The version carries the message. -/
structure Carried (qosToXml : Qos → CString) (msg : Message Qos) (version : Int) : Prop where
  plain : msg.qos = none
  elements : (version = 0 ∧ CarriedV1 msg.elements ∧ ∀ el ∈ msg.elements, el.sigs = []) ∨
    (version = 1 ∧ CarriedV2 msg.elements)
  size : ∀ wire ∈ wireForm qosToXml msg version, wire.length < 2 ^ 63

/-- The message that arrives: version 1 groups the elements by their namespaces. -/
def arrived (msg : Message Qos) (version : Int) : Message Qos :=
  ⟨if version = 0 then grouped msg.elements else msg.elements, none⟩

variable (extract : Option Qos → List Byte → Exec (Option Qos × Status)) (stream : InputStream)

/-- What `jxta_message_read` says of a body. -/
def readStatus (body : List Byte) : Status :=
  match Message.messageRead stream extract ⟨[], none⟩ appMsg body with
  | .ok (_, status, _) => status
  | .error _ => .failed

/-- The message of a body. -/
def ReadsAs (body : List Byte) (msg : Message Qos) : Prop :=
  Message.messageRead stream extract ⟨[], none⟩ appMsg body = .ok (msg, .success, [])

variable {extract stream}

theorem ReadsAs.readStatus {body : List Byte} {msg : Message Qos}
    (h : ReadsAs extract stream body msg) : readStatus extract stream body = .success := by
  unfold TcpConnection.readStatus
  rw [h]

/-- What is written is read back. -/
theorem readsAs_wireForm {msg : Message Qos} {version : Int} {wire : List Byte}
    (hcarried : Carried qosToXml msg version) (h : wireForm qosToXml msg version = some wire) :
    wire ≠ [] ∧ ReadsAs extract stream wire (arrived msg version) := by
  obtain ⟨hqos, hversion, -⟩ := hcarried
  unfold wireForm at h
  split at h
  next msg' wire' hwrite =>
    cases h
    rcases hversion with ⟨rfl, hc, hsigs⟩ | ⟨rfl, hc⟩
    · have hread := @CarriedV1.roundTrips Qos extract stream qosToXml msg appMsg hqos hsigs
        (fun _ => hc) Message.acceptAll _ _ hwrite []
      obtain ⟨-, hbytes⟩ := Message.messageWrite1_v1_ok hqos hwrite
      rw [append_nil] at hread
      refine ⟨?_, hread⟩
      rw [hbytes]
      exact nofun
    · obtain ⟨bytes, hbytes, hread⟩ :=
        @CarriedV2.roundTrips Qos extract stream appMsg msg.elements (by decide) hc
      obtain ⟨-, -, hlayout⟩ := Message.messageWriteV2_ok hbytes
      have hwhole := hread []
      rw [append_nil] at hwhole
      unfold Message.messageWrite1 Message.addQosElement at hwrite
      rw [hqos] at hwrite
      dsimp only at hwrite
      rw [if_neg (by decide), if_pos rfl, hbytes] at hwrite
      cases hwrite
      refine ⟨?_, hwhole⟩
      rw [hlayout]
      exact nofun
  next => cases h

/-- What was sent is a frame for each message. -/
theorem Sends.frames {me me' : TcpSender} {sent : List (Message Qos × Int)}
    (h : Sends qosToXml me sent me') (hbuf : me.dataOutBuf = [])
    (hcarried : ∀ p ∈ sent, Carried qosToXml p.1 p.2) : ∃ bodies,
      Forall₂ (fun p body => ReadsAs extract stream body (arrived p.1 p.2)) sent bodies ∧
      (∀ body ∈ bodies, body ≠ [] ∧ body.length < 2 ^ 63 ∧
        readStatus extract stream body = .success) ∧
      me'.sent = me.sent ++ bodies.flatMap frame := by
  induction h with
  | nil me => exact ⟨[], .nil, fun _ h => absurd h not_mem_nil, (append_nil _).symm⟩
  | changed connected useMsgVersion publicAddr socket h ih => exact ih hbuf hcarried
  | sent hsend h ih =>
    obtain ⟨hbuf', hframe⟩ := TcpSender.sendMessage_eq hbuf hsend
    obtain ⟨body, hbody, hsent⟩ := hframe rfl
    have hfirst := hcarried _ mem_cons_self
    obtain ⟨hne, hread⟩ := @readsAs_wireForm Qos qosToXml extract stream _ _ _ hfirst hbody
    obtain ⟨bodies, hreads, hall, hrest⟩ := ih hbuf' fun p hp => hcarried p (mem_cons_of_mem _ hp)
    refine ⟨body :: bodies, .cons hread hreads, ?_, ?_⟩
    · exact forall_mem_cons.mpr ⟨⟨hne, hfirst.size body hbody, hread.readStatus⟩, hall⟩
    · rw [hrest, hsent, append_assoc, flatMap_cons]
      rfl

/-- The bytes that were sent arrive in any buckets, and `process_data` is called at any time: the
messages are delivered once each, in order, and read back. -/
theorem messages_delivered (uriParse : CString → Uri) {me me' : TcpSender}
    {sent : List (Message Qos × Int)} (hreached : Reached qosToXml me)
    (hsends : Sends qosToXml me sent me') (hcarried : ∀ p ∈ sent, Carried qosToXml p.1 p.2)
    {you : TcpConnection} (hyou : you.Receives) (hctx : you.msgCtx = .reset) (hbuf : you.buf = [])
    (hbrigade : you.brigade = []) (es : List Event) (hne : ∀ bucket ∈ arrivals es, bucket ≠ [])
    (hstream : me'.sent = me.sent ++ (arrivals es).flatten) : ∃ bodies,
      run uriParse (readStatus extract stream) you (es ++ [.processData]) = .ok { you with
        delivered := you.delivered ++ bodies.map fun body => (header body.length, body) } ∧
      Forall₂ (fun p body => ReadsAs extract stream body (arrived p.1 p.2)) sent bodies := by
  obtain ⟨bodies, hreads, hall, hframes⟩ :=
    @Sends.frames Qos qosToXml extract stream _ _ _ hsends hreached.dataOutBuf hcarried
  have hbytes : (arrivals es).flatten = bodies.flatMap frame :=
    append_cancel_left (hstream.symm.trans hframes)
  have hself : { you with brigade := [] } = you := by rw [← hbrigade]
  have hrun := @run_receives uriParse (readStatus extract stream) you hyou es hne
  rw [hself, hbrigade, flatten_nil, nil_append, hbytes,
    feed_frames hyou.opened hctx hbuf hall] at hrun
  refine ⟨bodies, hrun.trans (outcome_of_not_stuck (not_stuck_of_state ?_)), hreads⟩
  rw [hctx]
  decide

end Sends

instance (p : Part) : Decidable (Message.PartFits p) :=
  decidable_of_iff (p.ns.bytes.length < 65536 ∧ p.name.bytes.length < 65536 ∧
      (∀ m ∈ p.mimeType, m.bytes.length < 65536) ∧ p.value.length < 4294967296)
    ⟨fun h => ⟨h.1, h.2.1, h.2.2.1, h.2.2.2⟩, fun h => ⟨h.ns, h.name, h.mimeType, h.value⟩⟩

/-- A connection that has its welcome message. -/
def welcomed : TcpConnection :=
  { start WelcomeMessage.tcpAddress 1 with
    itsWelcome := WelcomeMessage.new2 WelcomeMessage.tcpUri (.ofBuffer welcomeLine) }

def keepQos (qos : Option Unit) (_ : List Byte) : Exec (Option Unit × Status) := .ok (qos, .success)

/-- The message of the slow sender arrives, cut behind ten bytes. -/
def slowArrival : List Event :=
  [.arrive ((frame TcpSender.smallWire).take 10), .processData,
    .arrive ((frame TcpSender.smallWire).drop 10)]

theorem messages_delivered_slow : ∃ bodies,
    run WelcomeMessage.tcpUri (readStatus keepQos Message.exhausted) welcomed
        (slowArrival ++ [.processData]) = .ok { welcomed with
      delivered := welcomed.delivered ++ bodies.map fun body => (header body.length, body) } ∧
    Forall₂ (fun p body => ReadsAs keepQos Message.exhausted body (arrived p.1 p.2))
      [(TcpSender.smallMessage.setSource TcpSender.slowSender.publicAddr, (1 : Int))] bodies := by
  have hsend : TcpSender.slowSender.sendMessage (fun _ => .ofBuffer []) TcpSender.smallMessage =
      .ok ({ TcpSender.slowSender with socket := [], sent := frame TcpSender.smallWire },
        TcpSender.smallMessage.setSource TcpSender.slowSender.publicAddr, .success) := by
    decide +kernel
  refine messages_delivered WelcomeMessage.tcpUri (.opened true 1 _ _ []) (.sent hsend (.nil _))
    ?_ ?_ rfl rfl rfl slowArrival (by decide +kernel) ?_
  · intro p hp
    obtain rfl := mem_singleton.mp hp
    exact ⟨rfl, .inr ⟨rfl, ⟨⟨by decide +kernel, by decide +kernel, by decide +kernel⟩,
      by decide +kernel, by decide +kernel, by decide +kernel⟩⟩, by decide +kernel⟩
  · exact ⟨rfl, by decide +kernel, fun _ h => absurd h not_mem_nil, fun _ => collected_reset⟩
  · decide +kernel

end TcpConnection

namespace TcpMulticast

open TcpConnection (Carried arrived readsAs_wireForm)

/-- A packet that was sent is handed on by every peer whose buffer takes it, as the message. -/
theorem propagated_received {Qos : Type} {sendto : List Byte → Bool} {qosToXml : Qos → CString}
    (extract : Option Qos → List Byte → Exec (Option Qos × Status)) {me you : TcpMulticast}
    {msg msg' : Message Qos} {serviceName serviceParams : Option CString}
    (hcarried : Carried qosToXml (msg.setDestination (me.destination serviceName serviceParams)) 0)
    (hfits : Fits me (body qosToXml me msg serviceName serviceParams)) {sent : List (List Byte)}
    (h : propagate sendto qosToXml me msg serviceName serviceParams = .ok (sent, msg', .success))
    (hyou : you.allowMulticast = true ∧ you.run = true) {datagram : List Byte}
    (hmem : datagram ∈ sent) (htakes : datagram.length ≤ you.multicastPacketSize) :
    process extract you (STREAM.received you.multicastPacketSize datagram) =
      .ok (some (arrived (msg.setDestination (me.destination serviceName serviceParams)) 0)) := by
  obtain ⟨_, _, _, hsend, hsent⟩ := propagates_iff.mpr fun _ _ => hfits
  cases h.symm.trans hsend
  obtain ⟨wire, hwire, rfl⟩ := hsent rfl
  obtain rfl := mem_singleton.mp hmem
  obtain ⟨hne, hread⟩ := @readsAs_wireForm Qos qosToXml extract inputStream _ _ _ hcarried hwire
  have hsize := hcarried.size wire hwire
  exact process_eq_some.mpr ⟨hyou, header me wire.length ++ wire, wire.length, some me.srcAddr,
    wire, .success, [], take_of_length_le htakes,
    PacketHeader.messagePacketHeaderRead_headerBlock _ hsize true (length_srcAddr me) wire,
    ⟨length_pos_iff.mpr hne, hsize⟩, hread⟩

def smallBody : List Byte := body (fun _ => .ofBuffer []) running TcpSender.smallMessage none none

theorem propagated_received_small : process TcpConnection.keepQos running
    (STREAM.received 16384 (welcome ++ (header running smallBody.length ++ smallBody))) = .ok (some
      (arrived (TcpSender.smallMessage.setDestination (running.destination none none)) 0)) := by
  have hsend : propagate (fun _ => true) (fun _ => .ofBuffer []) running TcpSender.smallMessage none
      none = .ok ([welcome ++ (header running smallBody.length ++ smallBody)],
        TcpSender.smallMessage.setDestination (running.destination none none), .success) := by
    decide +kernel
  refine propagated_received _ ?_ (.inl (by decide +kernel)) hsend ⟨rfl, rfl⟩ mem_cons_self
    (by decide +kernel)
  exact ⟨rfl, .inl ⟨rfl, ⟨⟨by decide +kernel, by decide +kernel, by decide +kernel⟩,
    by decide +kernel, by decide +kernel⟩, by decide +kernel⟩, by decide +kernel⟩

end TcpMulticast

end JxtaC
