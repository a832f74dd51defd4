import JxtaC.TcpConnection

/-
  A packet header is read back (jxta_tcp_message_packet_header.c, jxta_transport_tcp_connection.c).
  `headerBlock` is the format: headers, each a name and a value with their lengths, and a zero byte.
  `messagePacketHeaderWrite` hands this block on in chunks; `message_packet_header_read`,
  `split_headers` and `read_headers` take one header after the other off it.
-/

namespace JxtaC

open Lib Lib.Stream List

namespace PacketHeader

/-! ## the format -/

/-- One header. -/
def headerBytes (name value : List Byte) : List Byte :=
  UInt8.ofNat name.length :: (name ++ (bigEndian 2 value.length ++ value))

/-- The headers of a message of this size, and the empty one. -/
def headerBlock (msgSize : Nat) (isMulticast : Bool) (srcAddr : CString) : List Byte :=
  headerBytes contentType appMsg ++ (headerBytes contentLength (bigEndian 8 msgSize) ++
    ((if isMulticast then headerBytes srcEA srcAddr.bytes else []) ++ [0]))

/-- What `message_packet_header_write` hands to its `write_func` for one header. -/
def headerChunks (name value : List Byte) : List (List Byte) :=
  [[UInt8.ofNat name.length], name, bigEndian 2 (value.length % 65536),
    value.take (value.length % 65536)]

def chunks (msgSize : Nat) (isMulticast : Bool) (srcAddr : CString) : List (List Byte) :=
  headerChunks contentType appMsg ++ (headerChunks contentLength (bigEndian 8 msgSize) ++
    ((if isMulticast then headerChunks srcEA srcAddr.bytes else []) ++ [[0]]))

/-- The writer is its chunks, in turn. -/
theorem messagePacketHeaderWrite_eq {σ : Type} (writeFunc : WriteFunc σ) (stream : σ)
    (msgSize : Nat) (isMulticast : Bool) (srcAddr : CString) :
    messagePacketHeaderWrite writeFunc stream msgSize isMulticast srcAddr =
      ((chunks msgSize isMulticast srcAddr).foldl (fun s chunk => (writeFunc s chunk).1) stream,
        .success) := by
  cases isMulticast with
  | true => rfl
  | false => rfl

theorem headerChunks_flatten (name : List Byte) {value : List Byte} (h : value.length < 65536) :
    (headerChunks name value).flatten = headerBytes name value := by
  unfold headerChunks headerBytes
  rw [Nat.mod_eq_of_lt h, take_length]
  simp only [flatten_cons, flatten_nil, append_nil, singleton_append]

theorem length_appMsg : appMsg.length < 65536 := by decide

theorem chunks_flatten (msgSize : Nat) (isMulticast : Bool) {srcAddr : CString}
    (h : srcAddr.bytes.length < 65536) :
    (chunks msgSize isMulticast srcAddr).flatten = headerBlock msgSize isMulticast srcAddr := by
  have hlength : (bigEndian 8 msgSize).length < 65536 := by
    rw [length_bigEndian]
    decide
  unfold chunks headerBlock
  rw [flatten_append, flatten_append, flatten_append,
    headerChunks_flatten _ length_appMsg, headerChunks_flatten _ hlength]
  cases isMulticast with
  | true => rw [if_pos rfl, if_pos rfl, headerChunks_flatten _ h]; rfl
  | false => rfl

/-- A stream that keeps what is written to it. -/
def appendFunc : WriteFunc (List Byte) := fun stream chunk => (stream ++ chunk, .success)

theorem foldl_appendFunc (stream : List Byte) (chunks : List (List Byte)) :
    chunks.foldl (fun s chunk => (appendFunc s chunk).1) stream = stream ++ chunks.flatten := by
  induction chunks generalizing stream with
  | nil => exact (append_nil stream).symm
  | cons chunk chunks ih =>
    rw [foldl_cons, ih, flatten_cons, ← append_assoc]
    rfl

/-- The bytes of a packet header. -/
theorem messagePacketHeaderWrite_appendFunc (stream : List Byte) (msgSize : Nat)
    (isMulticast : Bool) {srcAddr : CString} (h : srcAddr.bytes.length < 65536) :
    messagePacketHeaderWrite appendFunc stream msgSize isMulticast srcAddr =
      (stream ++ headerBlock msgSize isMulticast srcAddr, .success) := by
  rw [messagePacketHeaderWrite_eq, foldl_appendFunc, chunks_flatten msgSize isMulticast h]

theorem length_headerBytes (name value : List Byte) :
    (headerBytes name value).length = name.length + value.length + 3 := by
  unfold headerBytes
  rw [length_cons, length_append, length_append, length_bigEndian]
  omega

/-! ## the pull reader -/

section Read
variable (P : Source Byte Status)
variable {h : Headers} (isMulticast : Bool) (turns : Nat)

theorem reads_readOr (e : Status) {bs : List Byte} {n : Nat} (h : bs.length = n) :
    Reads (readOr P e n) bs bs := by
  intro rest
  unfold readOr
  rw [(reads_read P h).bind_apply]
  rfl

/-- A header that was not there before is read. -/
theorem readHeader_header {name value : List Byte} {i : Nat} (hname : name.length ≤ headerBufsize)
    (hvalue : value.length < 65536) (hnumber : headerNumber name = some i)
    (hnew : (h.value i).isSome = false) (hcount : i + 1 ≤ headerCount isMulticast) :
    Reads (readHeader P isMulticast h name.length) (name ++ (bigEndian 2 value.length ++ value))
      (h.set i value) := by
  have hsize : ofBigEndian (bigEndian 2 value.length) = value.length := by
    rw [ofBigEndian_bigEndian]
    exact Nat.mod_eq_of_lt hvalue
  intro rest
  unfold readHeader
  rw [if_neg (by omega), append_assoc, (reads_readOr P .ioerr rfl).bind_apply, hnumber]
  dsimp only
  rw [hnew, if_neg (by decide), append_assoc,
    (reads_readOr P .failed (length_bigEndian 2 value.length)).bind_apply,
    (reads_readOr P .failed hsize.symm).bind_apply, if_neg (by omega)]
  rfl

theorem readHeaders_succ (h : Headers) :
    readHeaders P isMulticast (turns + 1) h = (readOr P .ioerr 1 >>= fun nameLength =>
      if ofBigEndian nameLength = 0 then
        if h.complete isMulticast then pure h else readHeaders P isMulticast turns h
      else readHeader P isMulticast h (ofBigEndian nameLength) >>= fun h =>
        readHeaders P isMulticast turns h) := rfl

/-- The turn of the loop for such a header. -/
theorem readHeaders_header {name value : List Byte} {i : Nat} (rest : List Byte) (hne : name ≠ [])
    (hname : name.length < 256) (hvalue : value.length < 65536)
    (hnumber : headerNumber name = some i) (hnew : (h.value i).isSome = false)
    (hcount : i + 1 ≤ headerCount isMulticast) :
    readHeaders P isMulticast (turns + 1) h (headerBytes name value ++ rest) =
      readHeaders P isMulticast turns (h.set i value) rest := by
  have hbyte : ofBigEndian [UInt8.ofNat name.length] = name.length := by
    have hmod : ofBigEndian (bigEndian 1 name.length) = name.length % 256 ^ 1 :=
      ofBigEndian_bigEndian 1 name.length
    rwa [Nat.mod_eq_of_lt (by omega)] at hmod
  have hpos : name.length ≠ 0 := fun h => hne (eq_nil_of_length_eq_zero h)
  have hsplit : headerBytes name value ++ rest
      = [UInt8.ofNat name.length] ++ (name ++ (bigEndian 2 value.length ++ value) ++ rest) := rfl
  have hle : name.length ≤ headerBufsize := by
    unfold headerBufsize
    omega
  rw [readHeaders_succ, hsplit, (reads_readOr P .ioerr (length_singleton)).bind_apply, hbyte, if_neg hpos,
    (readHeader_header P isMulticast hle hvalue hnumber hnew hcount).bind_apply]

/-- The empty header ends the block. -/
theorem readHeaders_empty (rest : List Byte) (hcomplete : h.complete isMulticast = true) :
    readHeaders P isMulticast (turns + 1) h (0 :: rest) = .ok h rest := by
  rw [readHeaders_succ, show (0 : Byte) :: rest = [0] ++ rest from rfl,
    (reads_readOr P .ioerr (length_singleton)).bind_apply,
    if_pos (show ofBigEndian [(0 : Byte)] = 0 from rfl), if_pos hcomplete]
  rfl

/-- The values of a header block. -/
def headersOf (msgSize : Nat) (isMulticast : Bool) (srcAddr : CString) : Headers :=
  ⟨some appMsg, some (bigEndian 8 msgSize), if isMulticast then some srcAddr.bytes else none⟩

theorem readHeaders_headerBlock (msgSize : Nat) (isMulticast : Bool) {srcAddr : CString}
    (h : srcAddr.bytes.length < 65536) (turns : Nat) (rest : List Byte) :
    readHeaders P isMulticast (turns + 4) ⟨none, none, none⟩
        (headerBlock msgSize isMulticast srcAddr ++ rest) =
      .ok (headersOf msgSize isMulticast srcAddr) rest := by
  have hlength : (bigEndian 8 msgSize).length < 65536 := by
    rw [length_bigEndian]
    decide
  unfold headerBlock
  rw [append_assoc, readHeaders_header P isMulticast (turns + 3) _ (by decide) (by decide)
      length_appMsg (show headerNumber contentType = some 0 by decide) rfl
      (by cases isMulticast <;> decide),
    append_assoc, readHeaders_header P isMulticast (turns + 2) _ (by decide) (by decide)
      hlength (show headerNumber contentLength = some 1 by decide) rfl
      (by cases isMulticast <;> decide),
    append_assoc]
  cases isMulticast with
  | true =>
    rw [if_pos rfl, readHeaders_header P true (turns + 1) _ (by decide) (by decide) h
      (show headerNumber srcEA = some 2 by decide) rfl (by decide)]
    exact readHeaders_empty P true turns rest rfl
  | false => exact readHeaders_empty P false (turns + 1) rest rfl

theorem messagePacketHeaderRead_headerBlock {msgSize : Nat} (hsize : msgSize < 2 ^ 63)
    (isMulticast : Bool) {srcAddr : CString} (h : srcAddr.bytes.length < 65536) :
    Reads (messagePacketHeaderRead P isMulticast) (headerBlock msgSize isMulticast srcAddr)
      (msgSize, if isMulticast then some srcAddr else none) := by
  have hturns : ∀ rest, ∃ turns,
      (headerBlock msgSize isMulticast srcAddr ++ rest).length + 1 = turns + 4 := by
    intro rest
    have hlen : 3 ≤ (headerBlock msgSize isMulticast srcAddr).length := by
      unfold headerBlock
      rw [length_append, length_headerBytes]
      omega
    rw [length_append]
    exact ⟨(headerBlock msgSize isMulticast srcAddr).length + rest.length - 3, by omega⟩
  have hvalue : ((bigEndian 8 msgSize ++ [0]).take 8) = bigEndian 8 msgSize :=
    take_left' (length_bigEndian 8 msgSize)
  have hnumber : ofBigEndian (bigEndian 8 msgSize) = msgSize := by
    rw [ofBigEndian_bigEndian]
    exact Nat.mod_eq_of_lt (by omega)
  intro rest
  obtain ⟨turns, hturns⟩ := hturns rest
  unfold messagePacketHeaderRead
  rw [hturns, bind_of_ok (readHeaders_headerBlock P msgSize isMulticast h turns rest)]
  unfold headersOf
  dsimp only
  rw [if_neg (by rw [length_bigEndian]; decide), hvalue, hnumber]
  cases isMulticast with
  | true =>
    show Result.ok (msgSize, (some srcAddr.bytes).map CString.ofBuffer) rest = _
    rw [Option.map_some, CString.ofBuffer_bytes]
    rfl
  | false => rfl

end Read

end PacketHeader

/-! ## the connection's readers -/

namespace TcpMsgCtx

open PacketHeader
variable {value : List Byte} (ctx : TcpMsgCtx) (turns : Nat)

/-- A turn of the loop of `split_headers`. -/
theorem splitLoop_turn {ctx ctx' : TcpMsgCtx} {data data' : List Byte}
    (hstate : ctx.state ≠ .hdrDone) (hdata : data ≠ []) (h : ctx.splitTurn data = (ctx', data')) :
    splitLoop (turns + 1) ctx data = splitLoop turns ctx' data' := by
  rw [splitLoop, if_pos ⟨hstate, hdata⟩, h]

/-- While the name or the value is read and all of it is there, the turn takes it. -/
theorem drop_deficit (part rest : List Byte) :
    ¬part.length > (part ++ rest).length ∧ (part ++ rest).drop part.length = rest := by
  rw [length_append, drop_left]
  exact ⟨by omega, rfl⟩

/-- `split_headers` takes a header in five turns, where there is more data behind it. -/
theorem splitLoop_headerBytes {ctx : TcpMsgCtx} (hstate : ctx.state = .hdrNameSize) (turns : Nat)
    {name rest : List Byte} (hne : name ≠ []) (hname : name.length < 256)
    (hvalue : value.length < 65536) (hrest : rest ≠ []) :
    splitLoop (turns + 5) ctx (headerBytes name value ++ rest) =
      splitLoop turns { ctx with deficit := 0, state := .hdrNameSize } rest := by
  obtain ⟨msgType, msgSize, srcEa, msg, state, deficit, block⟩ := ctx
  obtain rfl : state = .hdrNameSize := hstate
  have hpos : name.length ≠ 0 := fun h => hne (eq_nil_of_length_eq_zero h)
  have hbyte : (UInt8.ofNat name.length).toNat = name.length := by
    rw [UInt8.toNat_ofNat']
    exact Nat.mod_eq_of_lt hname
  have hhigh : (UInt8.ofNat (value.length / 256)).toNat = value.length / 256 := by
    rw [UInt8.toNat_ofNat']
    omega
  have hlow : (UInt8.ofNat value.length).toNat = value.length % 256 := UInt8.toNat_ofNat'
  have hdata : headerBytes name value ++ rest = UInt8.ofNat name.length ::
      (name ++ (UInt8.ofNat (value.length / 256) :: UInt8.ofNat value.length ::
        (value ++ rest))) := by
    unfold headerBytes
    rw [cons_append, append_assoc, append_assoc]
    rfl
  obtain ⟨hshort, hdrop⟩ := drop_deficit name (UInt8.ofNat (value.length / 256) ::
    UInt8.ofNat value.length :: (value ++ rest))
  obtain ⟨hshort', hdrop'⟩ := drop_deficit value rest
  rw [hdata]
  calc splitLoop (turns + 5) ⟨msgType, msgSize, srcEa, msg, .hdrNameSize, deficit, block⟩ _
    _ = splitLoop (turns + 4) ⟨msgType, msgSize, srcEa, msg, .hdrName, name.length, block⟩
          (name ++ (UInt8.ofNat (value.length / 256) :: UInt8.ofNat value.length ::
            (value ++ rest))) := by
        refine splitLoop_turn _ (by simp) (cons_ne_nil _ _) ?_
        simp only [splitTurn, headD_cons, tail_cons, hbyte, ne_eq, hpos, not_false_eq_true,
          if_true]
    _ = splitLoop (turns + 3) ⟨msgType, msgSize, srcEa, msg, .hdrBodySizeMsb, 0, block⟩
          (UInt8.ofNat (value.length / 256) :: UInt8.ofNat value.length :: (value ++ rest)) := by
        refine splitLoop_turn _ (by simp) (by simp [hne]) ?_
        simp only [splitTurn, if_neg hshort, hdrop]
    _ = splitLoop (turns + 2)
          ⟨msgType, msgSize, srcEa, msg, .hdrBodySizeLsb, value.length / 256, block⟩
          (UInt8.ofNat value.length :: (value ++ rest)) := by
        refine splitLoop_turn _ (by simp) (cons_ne_nil _ _) ?_
        simp only [splitTurn, headD_cons, tail_cons, hhigh]
    _ = splitLoop (turns + 1) ⟨msgType, msgSize, srcEa, msg, .hdrBody, value.length, block⟩
          (value ++ rest) := by
        refine splitLoop_turn _ (by simp) (cons_ne_nil _ _) ?_
        simp only [splitTurn, headD_cons, tail_cons, hlow]
        rw [show value.length / 256 * 256 + value.length % 256 = value.length by omega]
    _ = splitLoop turns ⟨msgType, msgSize, srcEa, msg, .hdrNameSize, 0, block⟩ rest := by
        refine splitLoop_turn _ (by simp) (by simp [hrest]) ?_
        simp only [splitTurn, if_neg hshort', hdrop']

/-- The empty header ends the block. -/
theorem splitLoop_empty {ctx : TcpMsgCtx} (hstate : ctx.state = .hdrNameSize) (turns : Nat)
    (rest : List Byte) : splitLoop (turns + 2) ctx (0 :: rest) =
      .ok ({ ctx with deficit := 0, state := .hdrDone }, rest) := by
  have hturn : ctx.splitTurn (0 :: rest) = ({ ctx with deficit := 0, state := .hdrDone }, rest) := by
    unfold splitTurn
    rw [hstate]
    rfl
  rw [splitLoop_turn (turns + 1) (by rw [hstate]; decide) (cons_ne_nil _ _) hturn, splitLoop,
    if_neg fun h => h.1 rfl]

/-- The context that has a header block of this size behind it, in its buffer. -/
def blockDone : TcpMsgCtx := { reset with state := .hdrDone }

/-- `split_headers` takes a header block, and no more. -/
theorem splitHeaders_headerBlock (msgSize : Nat) (isMulticast : Bool) {srcAddr : CString}
    (h : srcAddr.bytes.length < 65536) (rest : List Byte) :
    splitHeaders reset (headerBlock msgSize isMulticast srcAddr ++ rest) =
      .ok (blockDone, (headerBlock msgSize isMulticast srcAddr).length, .yes) := by
  have hlength : (bigEndian 8 msgSize).length < 65536 := by
    rw [length_bigEndian]
    decide
  have hturns : ∃ turns,
      2 * (headerBlock msgSize isMulticast srcAddr ++ rest).length + 1 = turns + 2 + 5 + 5 + 5 := by
    have hlen : 20 ≤ (headerBlock msgSize isMulticast srcAddr).length := by
      unfold headerBlock
      rw [length_append, length_headerBytes, show contentType.length = 12 by decide,
        show appMsg.length = 22 by decide]
      omega
    rw [length_append]
    exact ⟨2 * ((headerBlock msgSize isMulticast srcAddr).length + rest.length) - 16, by omega⟩
  have hloop : ∀ turns, splitLoop (turns + 2 + 5 + 5 + 5) reset
      (headerBlock msgSize isMulticast srcAddr ++ rest) = .ok (blockDone, rest) := by
    intro turns
    unfold headerBlock
    rw [append_assoc, splitLoop_headerBytes rfl (turns + 2 + 5 + 5) (by decide) (by decide)
        length_appMsg (by simp),
      append_assoc, splitLoop_headerBytes rfl (turns + 2 + 5) (by decide) (by decide) hlength
        (by simp),
      append_assoc]
    cases isMulticast with
    | true =>
      rw [if_pos rfl, splitLoop_headerBytes rfl (turns + 2) (by decide) (by decide) h (by simp)]
      exact splitLoop_empty rfl turns rest
    | false => exact splitLoop_empty rfl (turns + 5) rest
  obtain ⟨turns, hturns⟩ := hturns
  unfold splitHeaders
  rw [hturns, hloop turns, length_append]
  show Except.ok _ = Except.ok _
  rw [Nat.add_sub_cancel, if_pos (show blockDone.state = .hdrDone from rfl)]

/-- `read_headers` takes a header, where it is all there. -/
theorem readLoop_headerBytes (used : Nat) {name : List Byte} {rest : List Byte} (hrest : rest ≠ [])
    (hne : name ≠ []) (hname : name.length < 256) (hvalue : value.length < 65536) :
    readLoop (turns + 1) ctx (headerBytes name value ++ rest) used =
      readLoop turns (ctx.handleHeader name value).1
        (if (ctx.handleHeader name value).2 = .success then rest else rest.set 0 0)
        (used + (headerBytes name value).length) := by
  have hbehindValue : 0 < rest.length := length_pos_iff.mpr hrest
  have hpos : name.length ≠ 0 := fun h => hne (eq_nil_of_length_eq_zero h)
  have hbyte : (UInt8.ofNat name.length).toNat = name.length := by
    rw [UInt8.toNat_ofNat']
    exact Nat.mod_eq_of_lt hname
  have hzero : UInt8.ofNat name.length ≠ 0 := fun h => hpos (by rw [← hbyte, h]; rfl)
  have hsize : ofBigEndian (bigEndian 2 value.length) = value.length := by
    rw [ofBigEndian_bigEndian]
    exact Nat.mod_eq_of_lt hvalue
  have hdata : headerBytes name value ++ rest = UInt8.ofNat name.length ::
      (name ++ (bigEndian 2 value.length ++ (value ++ rest))) := by
    unfold headerBytes
    rw [cons_append, append_assoc, append_assoc]
  have hlen : (name ++ (bigEndian 2 value.length ++ (value ++ rest))).length
      = name.length + 2 + value.length + rest.length := by
    rw [length_append, length_append, length_bigEndian, length_append]
    omega
  have hvalLen : ofBigEndian (((name ++ (bigEndian 2 value.length ++ (value ++ rest))).drop
      name.length).take 2) = value.length := by
    rw [drop_left, take_left' (length_bigEndian 2 value.length), hsize]
  have hname' : (name ++ (bigEndian 2 value.length ++ (value ++ rest))).take name.length = name :=
    take_left
  have hbehind : (name ++ (bigEndian 2 value.length ++ (value ++ rest))).drop (name.length + 2)
      = value ++ rest := by
    rw [← drop_drop, drop_left, drop_left' (length_bigEndian 2 value.length)]
  have hlast : (name ++ (bigEndian 2 value.length ++ (value ++ rest))).drop
      (name.length + 2 + value.length) = rest := by
    rw [← drop_drop, hbehind, drop_left]
  rw [hdata, readLoop, if_neg hzero, hbyte, if_neg (by omega)]
  dsimp only
  rw [hvalLen, if_neg (by omega), if_neg (by omega), hname', hbehind, hlast, take_left,
    length_headerBytes]
  congr 1
  omega

theorem readLoop_empty (used : Nat) (rest : List Byte) :
    readLoop (turns + 1) ctx (0 :: rest) used = .ok (ctx, used + 1, .success) := by
  rw [readLoop, if_pos rfl]

theorem handleHeader_contentType (value : List Byte) :
    ctx.handleHeader contentType value =
      ({ ctx with msgType := some (.ofBuffer value) }, .success) := by
  unfold handleHeader
  rw [if_neg (by decide), if_pos (by decide), if_pos (by decide)]

theorem handleHeader_contentLength (h : value.length = 8) :
    ctx.handleHeader contentLength value =
      ({ ctx with msgSize := ofBigEndian value }, .success) := by
  unfold handleHeader
  rw [if_neg (by decide), if_neg (by decide), if_pos (by decide), if_pos (by decide),
    if_neg (by omega)]

theorem handleHeader_srcEA (value : List Byte) :
    ctx.handleHeader srcEA value =
      ({ ctx with srcEa := some (.ofBuffer value) }, .success) := by
  unfold handleHeader
  rw [if_pos (by decide), if_pos (by decide)]

/-- `read_headers` finds in a header block what was written. -/
theorem readHeaders_headerBlock {msgSize : Nat} (hsize : msgSize < 2 ^ 63) (isMulticast : Bool)
    {srcAddr : CString} (h : srcAddr.bytes.length < 65536) :
    readHeaders blockDone (headerBlock msgSize isMulticast srcAddr) = .ok
      ({ blockDone with
          msgType := some (.ofBuffer appMsg)
          msgSize := msgSize
          srcEa := if isMulticast then some srcAddr else none },
        (headerBlock msgSize isMulticast srcAddr).length, .success) := by
  have hlength : (bigEndian 8 msgSize).length < 65536 := by
    rw [length_bigEndian]
    decide
  have hnumber : ofBigEndian (bigEndian 8 msgSize) = msgSize := by
    rw [ofBigEndian_bigEndian]
    exact Nat.mod_eq_of_lt (by omega)
  have hturns : ∃ turns, (headerBlock msgSize isMulticast srcAddr).length + 1 = turns + 4 := by
    have hlen : 3 ≤ (headerBlock msgSize isMulticast srcAddr).length := by
      unfold headerBlock
      rw [length_append, length_headerBytes]
      omega
    exact ⟨(headerBlock msgSize isMulticast srcAddr).length - 3, by omega⟩
  obtain ⟨turns, hturns⟩ := hturns
  unfold readHeaders
  rw [hturns]
  unfold headerBlock
  rw [readLoop_headerBytes _ (turns + 3) 0 (by simp) (by decide) (by decide) length_appMsg,
    handleHeader_contentType, if_pos rfl,
    readLoop_headerBytes _ (turns + 2) _ (by simp) (by decide) (by decide) hlength,
    handleHeader_contentLength _ (length_bigEndian 8 msgSize), if_pos rfl, hnumber]
  cases isMulticast with
  | true =>
    rw [if_pos rfl, if_pos rfl,
      readLoop_headerBytes _ (turns + 1) _ (by simp) (by decide) (by decide) h,
      handleHeader_srcEA, if_pos rfl, readLoop_empty, CString.ofBuffer_bytes]
    simp only [length_append, length_singleton, Nat.zero_add, Nat.add_assoc]
  | false =>
    rw [if_neg (by decide), if_neg (by decide), nil_append, readLoop_empty]
    simp only [length_append, length_singleton, Nat.zero_add, Nat.add_assoc]
    rfl

end TcpMsgCtx

/-! ## the round trip -/

namespace PacketHeader

/-- What `message_packet_header_write` writes is consumed exactly, whatever is behind it, by
    `message_packet_header_read` and by `split_headers` and `read_headers` of a connection; all of
    them find the size, and the source address of a multicast. -/
theorem roundTrip (P : Source Byte Status) (msgSize : Nat) (hsize : msgSize < 2 ^ 63)
    (isMulticast : Bool) (srcAddr : CString) (h : srcAddr.bytes.length < 65536) :
    ∃ block, messagePacketHeaderWrite appendFunc [] msgSize isMulticast srcAddr
        = (block, .success) ∧
      (∀ rest, messagePacketHeaderRead P isMulticast (block ++ rest)
        = .ok (msgSize, if isMulticast then some srcAddr else none) rest) ∧
      ∃ ctx ctx', (∀ rest, TcpMsgCtx.splitHeaders .reset (block ++ rest)
          = .ok (ctx, block.length, .yes)) ∧
        ctx.readHeaders block = .ok (ctx', block.length, .success) ∧ ctx'.msgSize = msgSize ∧
        ctx'.srcEa = if isMulticast then some srcAddr else none :=
  ⟨headerBlock msgSize isMulticast srcAddr,
    messagePacketHeaderWrite_appendFunc [] msgSize isMulticast h,
    messagePacketHeaderRead_headerBlock P hsize isMulticast h, _, _,
    TcpMsgCtx.splitHeaders_headerBlock msgSize isMulticast h,
    TcpMsgCtx.readHeaders_headerBlock hsize isMulticast h, rfl, rfl⟩

/-- A stream that is empty after a read that fails. -/
def drained : Source Byte Status := .exhausted Byte .ioerr

theorem roundTrip_multicast :
    ∃ block, messagePacketHeaderWrite appendFunc [] 70000 true (.ofBuffer (text "tcp://10.0.0.1"))
        = (block, .success) ∧
      (∀ rest, messagePacketHeaderRead drained true (block ++ rest)
        = .ok (70000, if true then some (.ofBuffer (text "tcp://10.0.0.1")) else none) rest) ∧
      ∃ ctx ctx', (∀ rest, TcpMsgCtx.splitHeaders .reset (block ++ rest)
          = .ok (ctx, block.length, .yes)) ∧
        ctx.readHeaders block = .ok (ctx', block.length, .success) ∧ ctx'.msgSize = 70000 ∧
        ctx'.srcEa = if true then some (.ofBuffer (text "tcp://10.0.0.1")) else none :=
  roundTrip drained 70000 (by decide) true (.ofBuffer (text "tcp://10.0.0.1")) (by decide)

end PacketHeader

end JxtaC
