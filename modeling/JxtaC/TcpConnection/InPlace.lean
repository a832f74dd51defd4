import JxtaC.Lib.CStrings
import JxtaC.TcpConnection.Scan
import Mathlib.Data.List.Basic

/-
  `read_headers` in the block that it goes over (jxta_transport_tcp_connection.c). `handle_header` puts
  a NUL behind the value and, at its end, the byte back that was there; the loop overwrites that byte
  with a NUL of its own once it has read it as the length of the next name. Where `handle_header` returns
  in front of its end, the loop finds the NUL and takes it for the empty header. On whole blocks the
  loop and `TcpMsgCtx.readHeaders` come to the same (`readHeaders_inPlace`).
-/

namespace JxtaC

open Lib List

/-- The fields of `Tcp_msg_ctx` that `read_headers` sets. The strings are places in the block. -/
structure HeaderFields where
  msgType : Option Nat
  msgSize : Nat
  srcEa : Option Nat
  deriving DecidableEq

namespace HeaderFields

/-- The `switch` of `handle_header`, for a header with its value at this place. -/
def takeHeader (ctx : HeaderFields) (name value : List Byte) (val : Nat) : HeaderFields × Status :=
  if name.length = 5 then
    if PacketHeader.sameName 5 PacketHeader.srcEA name then
      ({ ctx with srcEa := some val }, .success)
    else (ctx, .success)
  else if name.length = 12 then
    if PacketHeader.sameName 12 PacketHeader.contentType name then
      ({ ctx with msgType := some val }, .success)
    else (ctx, .success)
  else if name.length = 14 then
    if PacketHeader.sameName 14 PacketHeader.contentLength name then
      if value.length ≠ 8 then (ctx, .invalidArgument)
      else ({ ctx with msgSize := ofBigEndian value }, .success)
    else (ctx, .success)
  else (ctx, .success)

/-- `handle_header`: `name` and `val` are places in the data. -/
def handleHeader (ctx : HeaderFields) (data : List Byte) (name nameLen val valLen : Nat) :
    Exec (HeaderFields × List Byte × Status) := do
  let data ← setByte data (name + nameLen) 0
  let tmp ← byteAt data (val + valLen : Nat)
  let data ← setByte data (val + valLen) 0
  let (ctx, status) :=
    ctx.takeHeader ((data.drop name).take nameLen) ((data.drop val).take valLen) val
  if status ≠ .success then return (ctx, data, status)
  else
    let data ← setByte data (val + valLen) tmp
    return (ctx, data, .success)

/-- The loop of `read_headers`; `data` has moved on by `used`. -/
def readLoop (len : Nat) : (turns : Nat) → HeaderFields → (data : List Byte) → (used : Nat) →
    Exec (HeaderFields × List Byte × Nat × AprStatus)
  | 0, _, _, _ => .error .neverReturns
  | turns + 1, ctx, data, used =>
    if used < len then do
      let nameLen := (← byteAt data used).toNat
      if nameLen = 0 then return (ctx, data, used + 1, .success)
      else
        let data ← setByte data used 0
        if used + (nameLen + 1) + 2 > len then return (ctx, data, used, .eagain)
        else
          let msb ← byteAt data (used + (nameLen + 1) : Nat)
          let lsb ← byteAt data (used + (nameLen + 2) : Nat)
          let valLen := ofBigEndian [msb, lsb]
          if used + (nameLen + 1 + valLen + 2) > len then return (ctx, data, used, .eagain)
          else
            let (ctx, data, _) ←
              ctx.handleHeader data (used + 1) nameLen (used + (nameLen + 3)) valLen
            readLoop len turns ctx data (used + (nameLen + 1 + valLen + 2))
    else .ok (ctx, data, used, .eagain)

/-- `read_headers`: the fields, and the data as it is left. -/
def readHeaders (ctx : HeaderFields) (data : List Byte) :
    Exec (HeaderFields × List Byte × Nat × AprStatus) :=
  readLoop data.length (data.length + 1) ctx data 0

end HeaderFields

/-- A header as it can be in a block. -/
structure Header where
  name : List Byte
  value : List Byte
  nonempty : name ≠ []
  name_lt : name.length < 256
  value_lt : value.length < 65536

namespace Header

/-- The name and the value. -/
def pair (h : Header) : List Byte × List Byte := (h.name, h.value)

def bytes (h : Header) : List Byte := PacketHeader.headerBytes h.name h.value

/-- What is left of the bytes: a NUL in place of the first byte of each of the two lengths. -/
def cleared (h : Header) : List Byte :=
  0 :: (h.name ++ 0 :: ((bigEndian 2 h.value.length).tail ++ h.value))

/-- A block: headers, and the empty header. -/
def block (headers : List Header) : List Byte := headers.flatMap bytes ++ [0]

theorem pair_injective : Function.Injective pair := by
  intro ⟨name, value, _, _, _⟩ ⟨name', value', _, _, _⟩ hab
  obtain ⟨rfl, rfl⟩ : name = name' ∧ value = value' := Prod.mk.inj hab
  rfl

theorem length_cleared (h : Header) : h.cleared.length = h.bytes.length := by
  unfold cleared bytes PacketHeader.headerBytes
  simp only [length_cons, length_append, length_tail, length_bigEndian]
  omega

theorem length_bytes (h : Header) : h.bytes.length = h.name.length + 1 + h.value.length + 2 := by
  unfold bytes
  rw [PacketHeader.length_headerBytes]
  omega

theorem block_eq (headers : List Header) :
    block headers = TcpMsgCtx.headersBytes (headers.map pair) ++ [0] := by
  unfold block TcpMsgCtx.headersBytes
  rw [flatMap_map]
  rfl

end Header

open Header

namespace HeaderFields
variable (ctx : HeaderFields)

theorem takeHeader_status (h : Header) (val : Nat) :
    (ctx.takeHeader h.name h.value val).2 = (TcpMsgCtx.reset.handleHeader h.name h.value).2 := by
  unfold takeHeader TcpMsgCtx.handleHeader
  repeat' split
  all_goals rfl

theorem takeHeader_success (h : Header) (val : Nat) :
    (ctx.takeHeader h.name h.value val).2 = .success ↔ ¬TcpMsgCtx.BadLength h.pair := by
  rw [takeHeader_status]
  exact TcpMsgCtx.handleHeader_status .reset h.pair

/-- `handle_header` with the bytes that it writes to. -/
theorem handleHeader_eq (h : Header) (pre rest : List Byte) (b lsb next : Byte) (size : Byte)
    {name val : Nat} (hname : name = pre.length + 1)
    (hval : val = pre.length + (h.name.length + 3)) :
    ctx.handleHeader (pre ++ b :: (h.name ++ size :: lsb :: (h.value ++ next :: rest))) name
        h.name.length val h.value.length =
      .ok ((ctx.takeHeader h.name h.value val).1,
        pre ++ b :: (h.name ++ 0 :: lsb :: (h.value ++
          (if TcpMsgCtx.BadLength h.pair then 0 else next) :: rest)),
        (ctx.takeHeader h.name h.value val).2) := by
  have hfirst : ∀ s v, pre ++ b :: (h.name ++ s :: v) = (pre ++ b :: h.name) ++ s :: v := by
    intro s v
    simp
  have hlast : ∀ v, pre ++ b :: (h.name ++ 0 :: lsb :: (h.value ++ v))
      = (pre ++ b :: (h.name ++ 0 :: lsb :: h.value)) ++ v := by
    intro v
    simp
  have hplace : name + h.name.length = (pre ++ b :: h.name).length := by
    rw [length_append, length_cons]
    omega
  have hend : val + h.value.length = (pre ++ b :: (h.name ++ 0 :: lsb :: h.value)).length := by
    simp only [length_append, length_cons]
    omega
  have hnameAt : ∀ v, ((pre ++ b :: (h.name ++ v)).drop name).take h.name.length = h.name := by
    intro v
    have hsplit : pre ++ b :: (h.name ++ v) = (pre ++ [b]) ++ (h.name ++ v) := by simp
    rw [hsplit, drop_left' (by rw [length_append, hname]; rfl), take_left]
  have hvalueAt : ∀ v, ((pre ++ b :: (h.name ++ 0 :: lsb :: (h.value ++ v))).drop val).take
      h.value.length = h.value := by
    intro v
    have hsplit : pre ++ b :: (h.name ++ 0 :: lsb :: (h.value ++ v))
        = (pre ++ b :: (h.name ++ [0, lsb])) ++ (h.value ++ v) := by simp
    rw [hsplit, drop_left' (by simp [hval]), take_left]
  have hstatus := ctx.takeHeader_success h val
  unfold handleHeader
  rw [hfirst, setByte_append hplace, ok_bind, ← hfirst, hlast, byteAt_append hend, ok_bind,
    setByte_append hend, ok_bind, ← hlast, hnameAt, hvalueAt]
  obtain ⟨ctx', status, htake⟩ : ∃ ctx' status, ctx.takeHeader h.name h.value val = (ctx', status) :=
    ⟨_, _, rfl⟩
  rw [htake] at hstatus ⊢
  dsimp only at hstatus ⊢
  by_cases hbad : TcpMsgCtx.BadLength h.pair
  · rw [if_pos fun heq => hstatus.mp heq hbad, if_pos hbad]
    rfl
  · obtain rfl := hstatus.mpr hbad
    rw [if_neg fun hne => hne rfl, if_neg hbad, hlast, setByte_append hend, ok_bind, ← hlast]
    rfl

/-- A turn of the loop goes over a header and clears the first bytes of its lengths. -/
theorem readLoop_header (h : Header) (len turns : Nat) (pre rest : List Byte) (next : Byte)
    (hlen : pre.length + h.bytes.length ≤ len) :
    readLoop len (turns + 1) ctx (pre ++ (h.bytes ++ next :: rest)) pre.length =
      readLoop len turns (ctx.takeHeader h.name h.value (pre.length + (h.name.length + 3))).1
        (pre ++ (h.cleared ++ (if TcpMsgCtx.BadLength h.pair then 0 else next) :: rest))
        (pre.length + h.bytes.length) := by
  obtain ⟨msb, lsb, hsize⟩ := length_eq_two.mp (length_bigEndian 2 h.value.length)
  have hnumber : ofBigEndian [msb, lsb] = h.value.length := by
    rw [← hsize, ofBigEndian_bigEndian]
    exact Nat.mod_eq_of_lt h.value_lt
  have hpos : h.name.length ≠ 0 := fun hzero => h.nonempty (eq_nil_of_length_eq_zero hzero)
  have hbyte : (UInt8.ofNat h.name.length).toNat = h.name.length := by
    rw [UInt8.toNat_ofNat']
    exact Nat.mod_eq_of_lt h.name_lt
  have hbytes : ∀ v, h.bytes ++ v
      = UInt8.ofNat h.name.length :: (h.name ++ msb :: lsb :: (h.value ++ v)) := by
    intro v
    unfold Header.bytes PacketHeader.headerBytes
    rw [hsize]
    simp
  have hcleared : ∀ v, h.cleared ++ v = 0 :: (h.name ++ 0 :: lsb :: (h.value ++ v)) := by
    intro v
    unfold Header.cleared
    rw [hsize]
    simp
  have hmsb : ∀ v, pre ++ (0 : Byte) :: (h.name ++ msb :: v) = (pre ++ 0 :: h.name) ++ msb :: v := by
    intro v
    simp
  have hlsb : ∀ v, pre ++ (0 : Byte) :: (h.name ++ msb :: lsb :: v)
      = (pre ++ 0 :: (h.name ++ [msb])) ++ lsb :: v := by
    intro v
    simp
  have hmsbAt : pre.length + (h.name.length + 1) = (pre ++ (0 : Byte) :: h.name).length := by
    rw [length_append, length_cons]
  have hlsbAt : pre.length + (h.name.length + 2)
      = (pre ++ (0 : Byte) :: (h.name ++ [msb])).length := by
    simp
  have hlength := h.length_bytes
  rw [readLoop, if_pos (by omega), hbytes, byteAt_append rfl, ok_bind]
  rw [hbyte, if_neg hpos, setByte_append rfl, ok_bind, if_neg (by omega), hmsb,
    byteAt_append hmsbAt, ok_bind, ← hmsb, hlsb, byteAt_append hlsbAt, ok_bind, ← hlsb, hnumber,
    if_neg (by omega), handleHeader_eq ctx h pre rest 0 lsb next msb rfl rfl, ok_bind, hcleared,
    hlength]

/-- The NUL behind the headers ends the loop. -/
theorem readLoop_end {len : Nat} (turns : Nat) (pre rest : List Byte) (hlen : pre.length < len) :
    readLoop len (turns + 1) ctx (pre ++ 0 :: rest) pre.length =
      .ok (ctx, pre ++ 0 :: rest, pre.length + 1, .success) := by
  rw [readLoop, if_pos hlen, byteAt_append rfl, ok_bind]
  rfl

/-- The headers that the loop comes to. -/
def reached : List Header → List Header
  | [] => []
  | h :: headers => h :: if TcpMsgCtx.BadLength h.pair then [] else reached headers

/-- The fields that headers set, the first one at this place. -/
def fields (ctx : HeaderFields) (place : Nat) : List Header → HeaderFields
  | [] => ctx
  | h :: headers =>
    fields (ctx.takeHeader h.name h.value (place + (h.name.length + 3))).1
      (place + h.bytes.length) headers

theorem reached_pair (headers : List Header) :
    (reached headers).map pair = TcpMsgCtx.reached (headers.map pair) := by
  induction headers with
  | nil => rfl
  | cons h headers ih =>
    unfold reached
    rw [map_cons, map_cons]
    unfold TcpMsgCtx.reached
    by_cases hbad : TcpMsgCtx.BadLength h.pair
    · rw [if_pos hbad, if_pos hbad]
      rfl
    · rw [if_neg hbad, if_neg hbad, ih]

/-- The loop on the headers of a block. -/
theorem readLoop_block (headers : List Header) (ctx : HeaderFields) (len turns : Nat)
    (pre : List Byte) (hlen : (pre ++ block headers).length ≤ len)
    (hturns : (headers.flatMap bytes).length < turns) :
    ∃ tail, readLoop len turns ctx (pre ++ block headers) pre.length =
      .ok (ctx.fields pre.length (reached headers),
        pre ++ ((reached headers).flatMap cleared ++ 0 :: tail),
        pre.length + ((reached headers).flatMap bytes).length + 1, .success) := by
  induction headers generalizing ctx turns pre with
  | nil =>
    obtain ⟨turns, rfl⟩ := Nat.exists_eq_add_one_of_ne_zero (Nat.ne_zero_of_lt hturns)
    have hlt : pre.length < len := by
      rw [length_append] at hlen
      exact Nat.lt_of_lt_of_le (Nat.lt_add_of_pos_right (Nat.zero_lt_one)) hlen
    exact ⟨[], readLoop_end ctx turns pre [] hlt⟩
  | cons h headers ih =>
    obtain ⟨turns, rfl⟩ := Nat.exists_eq_add_one_of_ne_zero (Nat.ne_zero_of_lt hturns)
    have hblock : block (h :: headers) = h.bytes ++ block headers := by
      unfold block
      rw [flatMap_cons, append_assoc]
    have hsame := h.length_cleared
    have hlength := h.length_bytes
    rw [flatMap_cons, length_append] at hturns
    rw [hblock] at hlen ⊢
    have hne : block headers ≠ [] := by
      unfold block
      simp
    obtain ⟨next, rest, hnext⟩ := exists_cons_of_ne_nil hne
    have hfits : pre.length + h.bytes.length < len := by
      rw [hnext, length_append, length_append, length_cons] at hlen
      omega
    have hat : pre.length + h.bytes.length = (pre ++ h.cleared).length := by
      rw [length_append, hsame]
    rw [hnext, readLoop_header ctx h len turns pre rest next (Nat.le_of_lt hfits)]
    unfold reached
    rw [flatMap_cons, flatMap_cons, length_append, fields, hat, ← append_assoc]
    by_cases hbad : TcpMsgCtx.BadLength h.pair
    · obtain ⟨turns, rfl⟩ : ∃ n, turns = n + 1 := ⟨turns - 1, by omega⟩
      rw [if_pos hbad, if_pos hbad]
      rw [readLoop_end _ turns (pre ++ h.cleared) rest (hat ▸ hfits)]
      refine ⟨rest, ?_⟩
      rw [← hat, append_assoc, flatMap_nil, flatMap_nil, append_nil]
      rfl
    · rw [if_neg hbad, if_neg hbad, ← hnext]
      obtain ⟨tail, hloop⟩ := ih (ctx.takeHeader h.name h.value (pre.length + (h.name.length + 3))).1
        turns (pre ++ h.cleared) (by rwa [length_append, length_append, hsame,
          ← length_append, ← length_append, append_assoc]) (by omega)
      refine ⟨tail, ?_⟩
      rw [hloop, append_assoc, append_assoc, ← hat, Nat.add_assoc pre.length]

end HeaderFields

end JxtaC
