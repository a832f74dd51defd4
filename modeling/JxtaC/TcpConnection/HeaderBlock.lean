import JxtaC.TcpConnection.InPlace
import JxtaC.TcpConnection.Feed

/-
  What `read_headers` records of the blocks that `split_headers` delimits. These are the header lists
  with the empty header behind them (`splitHeaders_block`, `exists_block`). The fields are the last
  values of their headers, and the strings end where the values end (`Recorded`); the block is used to
  its end unless a content-length header whose value is not of eight bytes has another one behind it.
  What `TcpMsgCtx.readHeaders` makes of the block is the same (`readHeaders_inPlace`).
-/

namespace JxtaC

open Lib Header List

namespace HeaderFields

/-- The header has this name, in upper or lower case. -/
def Named (name : List Byte) (h : Header) : Bool :=
  decide (h.name.length = name.length) && PacketHeader.sameName name.length name h.name

/-- The header is about the length of the message, and has it. -/
def Sized (h : Header) : Bool := Named PacketHeader.contentLength h && decide (h.value.length = 8)

/-- The value of the last of these headers. -/
def lastValue (is : Header → Bool) (headers : List Header) : Option (List Byte) :=
  ((headers.filter is).getLast?).map Header.value

/-- A string that is recorded: there is the value at its place, and a NUL behind the value. Without a
    value it is the one from before. -/
def Points (data : List Byte) (before after : Option Nat) : Option (List Byte) → Prop
  | none => after = before
  | some value => ∃ place, after = some place ∧ value ++ [0] <+: data.drop place

/-- The fields are those of the block. -/
structure Recorded (before after : HeaderFields) (data : List Byte) (headers : List Header) :
    Prop where
  msgSize : after.msgSize = ((lastValue Sized headers).map ofBigEndian).getD before.msgSize
  srcEa : Points data before.srcEa after.srcEa (lastValue (Named PacketHeader.srcEA) headers)
  msgType :
    Points data before.msgType after.msgType (lastValue (Named PacketHeader.contentType) headers)

/-- `read_headers` succeeds, has consumed the whole block and recorded its fields. -/
def ReadsWhole (ctx : HeaderFields) (headers : List Header) : Prop :=
  ∃ ctx' data, ctx.readHeaders (block headers) =
      .ok (ctx', data, (block headers).length, .success) ∧ Recorded ctx ctx' data headers

/-! ## the last values -/

theorem lastValue_cons (is : Header → Bool) (h : Header) (headers : List Header) :
    lastValue is (h :: headers) = (lastValue is headers).or (if is h then some h.value else none) := by
  unfold lastValue
  rw [filter_cons]
  cases is h with
  | false =>
    rw [if_neg Bool.false_ne_true, if_neg Bool.false_ne_true, Option.or_none]
  | true =>
    rw [if_pos rfl, if_pos rfl, getLast?_cons]
    cases (headers.filter is).getLast? with
    | none => rfl
    | some last => rfl

theorem takeHeader_srcEa (ctx : HeaderFields) (h : Header) (val : Nat) :
    (ctx.takeHeader h.name h.value val).1.srcEa =
      if Named PacketHeader.srcEA h then some val else ctx.srcEa := by
  have hlen : PacketHeader.srcEA.length = 5 := by decide
  unfold takeHeader Named
  rw [hlen]
  by_cases h5 : h.name.length = 5
  · rw [if_pos h5, decide_eq_true h5, Bool.true_and]
    split <;> rfl
  · rw [if_neg h5, decide_eq_false h5, Bool.false_and, if_neg Bool.false_ne_true]
    repeat' split
    all_goals rfl

theorem takeHeader_msgType (ctx : HeaderFields) (h : Header) (val : Nat) :
    (ctx.takeHeader h.name h.value val).1.msgType =
      if Named PacketHeader.contentType h then some val else ctx.msgType := by
  have hlen : PacketHeader.contentType.length = 12 := by decide
  unfold takeHeader Named
  rw [hlen]
  by_cases h12 : h.name.length = 12
  · rw [if_neg (by omega), if_pos h12, decide_eq_true h12, Bool.true_and]
    split <;> rfl
  · rw [if_neg h12, decide_eq_false h12, Bool.false_and, if_neg Bool.false_ne_true]
    repeat' split
    all_goals rfl

theorem takeHeader_msgSize (ctx : HeaderFields) (h : Header) (val : Nat) :
    (ctx.takeHeader h.name h.value val).1.msgSize =
      if Sized h then ofBigEndian h.value else ctx.msgSize := by
  have hlen : PacketHeader.contentLength.length = 14 := by decide
  unfold takeHeader Sized Named
  rw [hlen]
  by_cases h14 : h.name.length = 14
  · rw [if_neg (by omega), if_neg (by omega), if_pos h14, decide_eq_true h14, Bool.true_and]
    by_cases h8 : h.value.length = 8
    · rw [decide_eq_true h8, Bool.and_true, if_neg (not_not_intro h8)]
      split <;> rfl
    · rw [decide_eq_false h8, Bool.and_false, if_neg Bool.false_ne_true, if_pos h8]
      split <;> rfl
  · rw [if_neg h14, decide_eq_false h14, Bool.false_and, Bool.false_and,
      if_neg Bool.false_ne_true]
    repeat' split
    all_goals rfl

/-! ## the fields -/

/-- The value of a header, and the first byte of what is behind it. -/
theorem value_at_place (h : Header) (headers : List Header) (pre tail : List Byte) :
    h.value ++ [0] <+: (pre ++ (h.cleared ++ (headers.flatMap cleared ++ 0 :: tail))).drop
      (pre.length + (h.name.length + 3)) := by
  obtain ⟨msb, lsb, hsize⟩ := length_eq_two.mp (length_bigEndian 2 h.value.length)
  have hbehind : ∃ more, headers.flatMap cleared ++ 0 :: tail = 0 :: more := by
    rcases headers with _ | ⟨next, headers⟩
    · exact ⟨tail, rfl⟩
    · rw [flatMap_cons]
      exact ⟨_, rfl⟩
  obtain ⟨more, hmore⟩ := hbehind
  have hsplit : pre ++ (h.cleared ++ 0 :: more)
      = (pre ++ 0 :: (h.name ++ [0, lsb])) ++ ((h.value ++ [0]) ++ more) := by
    unfold Header.cleared
    rw [hsize]
    simp
  rw [hmore, hsplit, drop_left' (by simp)]
  exact prefix_append _ _

/-- A string that headers of this kind set points to the value of the last one. -/
theorem points_fields {get : HeaderFields → Option Nat} {is : Header → Bool}
    (hset : ∀ (ctx : HeaderFields) (h : Header) val,
      get (ctx.takeHeader h.name h.value val).1 = if is h then some val else get ctx)
    (headers : List Header) (ctx : HeaderFields) (pre tail : List Byte) :
    Points (pre ++ (headers.flatMap cleared ++ 0 :: tail)) (get ctx)
      (get (ctx.fields pre.length headers)) (lastValue is headers) := by
  induction headers generalizing ctx pre with
  | nil => exact rfl
  | cons h headers ih =>
    have hat : pre.length + h.bytes.length = (pre ++ h.cleared).length := by
      rw [length_append, h.length_cleared]
    have hrest := ih (ctx.takeHeader h.name h.value (pre.length + (h.name.length + 3))).1
      (pre ++ h.cleared)
    rw [hset, ← hat, append_assoc] at hrest
    rw [flatMap_cons, append_assoc, fields, lastValue_cons]
    cases hlast : lastValue is headers with
    | some value =>
      rw [hlast] at hrest
      exact hrest
    | none =>
      rw [hlast] at hrest
      rw [Option.none_or]
      cases his : is h with
      | false =>
        rw [his] at hrest
        exact hrest
      | true =>
        rw [his] at hrest
        exact ⟨_, hrest, value_at_place h headers pre tail⟩

section
variable (headers : List Header)
include headers

theorem msgSize_fields (ctx : HeaderFields) (place : Nat) :
    (ctx.fields place headers).msgSize =
      ((lastValue Sized headers).map ofBigEndian).getD ctx.msgSize := by
  induction headers generalizing ctx place with
  | nil => rfl
  | cons h headers ih =>
    rw [fields, ih, takeHeader_msgSize, lastValue_cons]
    cases lastValue Sized headers with
    | some value => rfl
    | none => cases Sized h <;> rfl

theorem recorded_fields (ctx : HeaderFields) (tail : List Byte) :
    Recorded ctx (ctx.fields 0 headers) (headers.flatMap cleared ++ 0 :: tail) headers :=
  ⟨msgSize_fields headers ctx 0,
    points_fields (fun ctx h val => ctx.takeHeader_srcEa h val) headers ctx [] tail,
    points_fields (fun ctx h val => ctx.takeHeader_msgType h val) headers ctx [] tail⟩

/-! ## whole blocks -/

theorem readHeaders_block (ctx : HeaderFields) :
    ∃ tail, ctx.readHeaders (block headers) = .ok (ctx.fields 0 (reached headers),
      (reached headers).flatMap cleared ++ 0 :: tail,
      ((reached headers).flatMap bytes).length + 1, .success) := by
  have hturns : (headers.flatMap bytes).length < (block headers).length + 1 := by
    unfold block
    rw [length_append]
    omega
  obtain ⟨tail, hloop⟩ := readLoop_block headers ctx (block headers).length
    ((block headers).length + 1) [] (Nat.le_refl _) hturns
  rw [nil_append, nil_append, length_nil, Nat.zero_add] at hloop
  exact ⟨tail, hloop⟩

theorem length_bytes_pair :
    (headers.flatMap bytes).length = (TcpMsgCtx.headersBytes (headers.map pair)).length := by
  have hblock := congrArg List.length (block_eq headers)
  unfold block at hblock
  rw [length_append, length_append] at hblock
  exact Nat.add_right_cancel hblock

theorem reached_eq_iff :
    ((reached headers).flatMap bytes).length = (headers.flatMap bytes).length ↔
      TcpMsgCtx.LengthsLast (headers.map pair) := by
  rw [← TcpMsgCtx.length_reached_iff, ← reached_pair, ← length_bytes_pair, ← length_bytes_pair]

end

theorem reached_eq {headers : List Header} (h : TcpMsgCtx.LengthsLast (headers.map pair)) :
    reached headers = headers :=
  map_injective_iff.mpr pair_injective ((reached_pair headers).trans (TcpMsgCtx.reached_eq h))

theorem readsWhole_iff (ctx : HeaderFields) (headers : List Header) :
    ReadsWhole ctx headers ↔ TcpMsgCtx.LengthsLast (headers.map pair) := by
  obtain ⟨tail, hread⟩ := readHeaders_block headers ctx
  have hlength : (block headers).length = (headers.flatMap bytes).length + 1 := by
    unfold block
    rw [length_append, length_singleton]
  constructor
  · intro h
    obtain ⟨ctx', data, hok, -⟩ := h
    rw [hread] at hok
    have hused := congrArg (fun r => r.2.2.1) (Except.ok.inj hok)
    rw [hlength] at hused
    exact (reached_eq_iff headers).mp (Nat.add_right_cancel hused)
  · intro hlast
    rw [reached_eq hlast, ← hlength] at hread
    exact ⟨_, _, hread, recorded_fields headers ctx tail⟩

/-! ## the strings -/

/-- The fields of the connection, with the strings that are at the places. -/
structure Denotes (data : List Byte) (places : HeaderFields) (ctx : TcpMsgCtx) : Prop where
  msgSize : ctx.msgSize = places.msgSize
  srcEa : ctx.srcEa = places.srcEa.map fun place => .ofBuffer (data.drop place)
  msgType : ctx.msgType = places.msgType.map fun place => .ofBuffer (data.drop place)

theorem ofBuffer_of_nul {value data : List Byte} (h : value ++ [0] <+: data) :
    CString.ofBuffer data = .ofBuffer value := by
  obtain ⟨more, rfl⟩ := h
  apply Subtype.ext
  unfold CString.ofBuffer
  dsimp only
  rw [append_assoc]
  induction value with
  | nil => rfl
  | cons b value ih => rw [cons_append, takeWhile_cons, takeWhile_cons, ih]

theorem Denotes.takeHeader {data : List Byte} {places : HeaderFields} {ctx : TcpMsgCtx}
    (h : Denotes data places ctx) (header : Header) {val : Nat}
    (hval : header.value ++ [0] <+: data.drop val) :
    Denotes data (places.takeHeader header.name header.value val).1
      (ctx.handleHeader header.name header.value).1 := by
  have hstring : some (CString.ofBuffer header.value)
      = (some val).map fun place => .ofBuffer (data.drop place) :=
    congrArg some (ofBuffer_of_nul hval).symm
  unfold HeaderFields.takeHeader TcpMsgCtx.handleHeader
  by_cases h5 : header.name.length = 5
  · rw [if_pos h5, if_pos h5]
    split
    next => exact ⟨h.msgSize, hstring, h.msgType⟩
    next => exact h
  · rw [if_neg h5, if_neg h5]
    by_cases h12 : header.name.length = 12
    · rw [if_pos h12, if_pos h12]
      split
      next => exact ⟨h.msgSize, h.srcEa, hstring⟩
      next => exact h
    · rw [if_neg h12, if_neg h12]
      split
      next =>
        split
        next =>
          split
          next => exact h
          next => exact ⟨rfl, h.srcEa, h.msgType⟩
        next => exact h
      next => exact h

theorem Denotes.fields {places : HeaderFields} {ctx : TcpMsgCtx} (headers : List Header)
    (pre tail : List Byte)
    (h : Denotes (pre ++ (headers.flatMap cleared ++ 0 :: tail)) places ctx) :
    Denotes (pre ++ (headers.flatMap cleared ++ 0 :: tail)) (places.fields pre.length headers)
      (ctx.fields (headers.map pair)) := by
  induction headers generalizing places ctx pre with
  | nil => exact h
  | cons header headers ih =>
    have hat : pre.length + header.bytes.length = (pre ++ header.cleared).length := by
      rw [length_append, header.length_cleared]
    rw [flatMap_cons, append_assoc] at h ⊢
    have htaken := h.takeHeader header (value_at_place header headers pre tail)
    rw [← append_assoc] at htaken ⊢
    rw [HeaderFields.fields, hat]
    exact ih (pre ++ header.cleared) htaken

end HeaderFields

/-! ## the blocks of `split_headers` -/

namespace Header

theorem exists_headers {pairs : List (List Byte × List Byte)}
    (h : ∀ p ∈ pairs, p.1 ≠ [] ∧ p.1.length < 256 ∧ p.2.length < 65536) :
    ∃ headers : List Header, headers.map pair = pairs := by
  induction pairs with
  | nil => exact ⟨[], rfl⟩
  | cons p pairs ih =>
    obtain ⟨hne, hname, hvalue⟩ := h p mem_cons_self
    obtain ⟨headers, hheaders⟩ := ih fun q hq => h q (mem_cons_of_mem _ hq)
    exact ⟨⟨p.1, p.2, hne, hname, hvalue⟩ :: headers, congrArg (p :: ·) hheaders⟩

theorem splitLoop_block (headers : List Header) {ctx : TcpMsgCtx}
    (hstate : ctx.state = .hdrNameSize) {turns : Nat}
    (hturns : 2 * (headers.flatMap bytes).length + 2 ≤ turns) (rest : List Byte) :
    ∃ ctx', TcpMsgCtx.splitLoop turns ctx (block headers ++ rest) = .ok (ctx', rest) ∧
      ctx'.state = .hdrDone := by
  induction headers generalizing ctx turns with
  | nil =>
    obtain ⟨turns, rfl⟩ : ∃ n, turns = n + 2 := ⟨turns - 2, by omega⟩
    exact ⟨_, TcpMsgCtx.splitLoop_empty hstate turns rest, rfl⟩
  | cons h headers ih =>
    have hlength := h.length_bytes
    rw [flatMap_cons, length_append] at hturns
    obtain ⟨turns, rfl⟩ : ∃ n, turns = n + 5 := ⟨turns - 5, by omega⟩
    have hblock : block (h :: headers) ++ rest
        = PacketHeader.headerBytes h.name h.value ++ (block headers ++ rest) := by
      unfold block
      rw [flatMap_cons, append_assoc, append_assoc, append_assoc]
      rfl
    have hne : block headers ++ rest ≠ [] := by
      unfold block
      simp
    obtain ⟨ctx', hloop, hdone⟩ := @ih { ctx with deficit := 0, state := .hdrNameSize } rfl turns
      (by omega)
    refine ⟨ctx', ?_, hdone⟩
    rw [hblock, TcpMsgCtx.splitLoop_headerBytes hstate turns h.nonempty h.name_lt h.value_lt hne,
      hloop]

/-- A block is delimited, whatever is behind it. -/
theorem splitHeaders_block (headers : List Header) (rest : List Byte) :
    ∃ ctx, TcpMsgCtx.splitHeaders .reset (block headers ++ rest)
      = .ok (ctx, (block headers).length, .yes) := by
  have hturns : 2 * (headers.flatMap bytes).length + 2
      ≤ 2 * (block headers ++ rest).length + 1 := by
    unfold block
    rw [length_append, length_append, length_singleton]
    omega
  obtain ⟨ctx, hloop, hdone⟩ := @splitLoop_block headers .reset rfl _ hturns rest
  refine ⟨ctx, ?_⟩
  unfold TcpMsgCtx.splitHeaders
  rw [hloop, ok_bind]
  dsimp only
  rw [if_pos hdone, length_append, Nat.add_sub_cancel]
  rfl

/-- `split_headers` delimits blocks, whatever is behind them, and nothing else. -/
theorem delimits_iff (data : List Byte) (used : Nat) :
    (∃ ctx, TcpMsgCtx.splitHeaders .reset data = .ok (ctx, used, .yes)) ↔
      ∃ headers rest, data = block headers ++ rest ∧ used = (block headers).length := by
  constructor
  · intro ⟨ctx, h⟩
    rw [TcpMsgCtx.splitHeaders_eq] at h
    obtain ⟨hused, hstatus⟩ := Prod.mk.inj (Prod.mk.inj (Except.ok.inj h)).2
    have hdone : (TcpMsgCtx.scanHeaders .reset data).1.state = .hdrDone := by
      by_contra hdone
      rw [if_neg hdone] at hstatus
      exact nomatch hstatus
    obtain ⟨taken, htaken, hcollected⟩ := TcpConnection.collected_reset.1.scanHeaders data
    obtain ⟨pairs, hfits, hpairs⟩ := hcollected.exists_headers hdone
    obtain ⟨headers, rfl⟩ := exists_headers hfits
    have hblock : block headers = taken := by
      rw [block_eq, ← hpairs, nil_append]
    refine ⟨headers, (TcpMsgCtx.scanHeaders .reset data).2, by rw [hblock]; exact htaken, ?_⟩
    have hlen := congrArg List.length htaken
    rw [length_append] at hlen
    rw [hblock]
    omega
  · intro ⟨headers, rest, hdata, hused⟩
    rw [hdata, hused]
    exact splitHeaders_block headers rest

end Header

namespace HeaderFields

/-- Of the blocks that `split_headers` delimits, `read_headers` reads those to their end and records
    their fields in which no content-length header whose value is not of eight bytes has another
    header behind it, and no others. -/
theorem delimited_read_iff (ctx : HeaderFields) (headers : List Header) :
    (∀ rest, ∃ split, TcpMsgCtx.splitHeaders .reset (block headers ++ rest)
      = .ok (split, (block headers).length, .yes)) ∧
    (ReadsWhole ctx headers ↔ TcpMsgCtx.LengthsLast (headers.map pair)) :=
  ⟨splitHeaders_block headers, readsWhole_iff ctx headers⟩

/-- A length of one byte, and the type of the message. -/
def shortLength : List Header :=
  [⟨PacketHeader.contentLength, [3], by decide, by decide, by decide⟩,
    ⟨PacketHeader.contentType, text "a", by decide, by decide, by decide⟩]

theorem not_readsWhole : ¬∀ (ctx : HeaderFields) (headers : List Header), ReadsWhole ctx headers := by
  intro h
  have hlast := (readsWhole_iff ⟨none, 0, none⟩ shortLength).mp (h _ _)
  have hbad : TcpMsgCtx.BadLength (pair ⟨PacketHeader.contentLength, [3], by decide, by decide,
      by decide⟩) := by
    decide
  exact cons_ne_nil _ _ (hlast.1 hbad)

end HeaderFields

end JxtaC
