import JxtaC.PacketHeader.RoundTrip

/-
  `split_headers` and `split_brigade` byte by byte (jxta_transport_tcp_connection.c).
  `scanHeaders` takes one byte after the other until the header block ends; the loop of
  `split_headers` does the same in longer strides, and `split_brigade` does it over the buckets as if
  they were one (`splitBrigade_splitHeaders`). A name or value of which nothing is missing is
  left with the next byte only, as in the source. `Collected` says what the bytes of an unfinished
  block are. `read_headers` returns JXTA_SUCCESS on every block that `split_headers` finds
  (`readHeaders_headers`), but before it is at the end where a content-length header whose value is not
  of eight bytes has another header behind it (`length_reached_iff`).
-/

namespace JxtaC

open Lib List

namespace TcpMsgCtx

open PacketHeader (headerBytes)

/-! ## the scanner -/

/-- A part of which nothing is missing is behind the scanner. -/
def settle (ctx : TcpMsgCtx) : TcpMsgCtx :=
  match ctx.state with
  | .hdrName => if ctx.deficit = 0 then { ctx with state := .hdrBodySizeMsb } else ctx
  | .hdrBody => if ctx.deficit = 0 then { ctx with state := .hdrNameSize } else ctx
  | _ => ctx

/-- The scanner takes a byte. -/
def headerByte (ctx : TcpMsgCtx) (b : Byte) : TcpMsgCtx := (ctx.settle.splitTurn [b]).1

/-- The scanner takes bytes until the block ends: its state, and the bytes that are left. -/
def scanHeaders : TcpMsgCtx → List Byte → TcpMsgCtx × List Byte
  | ctx, [] => (ctx, [])
  | ctx, b :: data =>
    if ctx.state = .hdrDone then (ctx, b :: data) else scanHeaders (ctx.headerByte b) data

theorem scanHeaders_done {ctx : TcpMsgCtx} (h : ctx.state = .hdrDone) (data : List Byte) :
    scanHeaders ctx data = (ctx, data) := by
  cases data with
  | nil => rfl
  | cons b data => rw [scanHeaders, if_pos h]

theorem scanHeaders_cons {ctx : TcpMsgCtx} (h : ctx.state ≠ .hdrDone) (b : Byte)
    (data : List Byte) : scanHeaders ctx (b :: data) = scanHeaders (ctx.headerByte b) data := by
  rw [scanHeaders, if_neg h]

/-- Where the block has not ended, no byte is left. -/
theorem scanHeaders_rest {ctx : TcpMsgCtx} {data : List Byte}
    (h : (scanHeaders ctx data).1.state ≠ .hdrDone) : (scanHeaders ctx data).2 = [] := by
  induction data generalizing ctx with
  | nil => rfl
  | cons b data ih =>
    by_cases hstate : ctx.state = .hdrDone
    · rw [scanHeaders_done hstate] at h
      exact absurd hstate h
    · rw [scanHeaders_cons hstate] at h ⊢
      exact ih h

/-- The bytes that are left are the last ones. -/
theorem scanHeaders_suffix (ctx : TcpMsgCtx) (data : List Byte) :
    ∃ taken, data = taken ++ (scanHeaders ctx data).2 := by
  induction data generalizing ctx with
  | nil => exact ⟨[], rfl⟩
  | cons b data ih =>
    by_cases hstate : ctx.state = .hdrDone
    · exact ⟨[], by rw [scanHeaders_done hstate, nil_append]⟩
    · obtain ⟨taken, htaken⟩ := ih (ctx.headerByte b)
      exact ⟨b :: taken, by rw [scanHeaders_cons hstate, cons_append, ← htaken]⟩

theorem scanHeaders_append {ctx ctx' : TcpMsgCtx} {data rest : List Byte}
    (h : scanHeaders ctx data = (ctx', rest)) (more : List Byte) :
    scanHeaders ctx (data ++ more)
      = if ctx'.state = .hdrDone then (ctx', rest ++ more) else scanHeaders ctx' more := by
  induction data generalizing ctx with
  | nil =>
    cases h
    by_cases hstate : ctx'.state = .hdrDone
    · rw [if_pos hstate, nil_append, scanHeaders_done hstate]
    · rw [if_neg hstate, nil_append]
  | cons b data ih =>
    by_cases hstate : ctx.state = .hdrDone
    · rw [scanHeaders_done hstate] at h
      cases h
      rw [if_pos hstate, scanHeaders_done hstate]
    · rw [scanHeaders_cons hstate] at h
      rw [cons_append, scanHeaders_cons hstate, ih h]

/-! ## the loop of `split_headers` -/

/-- A state in which a part of known length is read, and the state behind it. -/
def Skips (state next : MsgState) : Prop :=
  (state = .hdrName ∧ next = .hdrBodySizeMsb) ∨ (state = .hdrBody ∧ next = .hdrNameSize)

section Skip
variable {ctx : TcpMsgCtx} {next : MsgState}

theorem Skips.ne_done {state : MsgState} (h : Skips state next) : state ≠ .hdrDone := by
  rcases h with ⟨rfl, -⟩ | ⟨rfl, -⟩
  · decide
  · decide

theorem settle_skips (h : Skips ctx.state next) :
    ctx.settle = if ctx.deficit = 0 then { ctx with state := next } else ctx := by
  unfold settle
  rcases h with ⟨hstate, rfl⟩ | ⟨hstate, rfl⟩
  · rw [hstate]
  · rw [hstate]

theorem splitTurn_skips (h : Skips ctx.state next) (data : List Byte) :
    ctx.splitTurn data =
      if ctx.deficit > data.length then ({ ctx with deficit := ctx.deficit - data.length }, [])
      else ({ ctx with deficit := 0, state := next }, data.drop ctx.deficit) := by
  unfold splitTurn
  rcases h with ⟨hstate, rfl⟩ | ⟨hstate, rfl⟩
  · rw [hstate]
  · rw [hstate]

/-- One byte of such a part. -/
theorem headerByte_skips (h : Skips ctx.state next) (hpos : 0 < ctx.deficit) (b : Byte) :
    ctx.headerByte b = if 1 < ctx.deficit then { ctx with deficit := ctx.deficit - 1 }
      else { ctx with deficit := 0, state := next } := by
  unfold headerByte
  rw [settle_skips h, if_neg (by omega), splitTurn_skips h, length_singleton]
  split
  · rfl
  · rfl

theorem headerByte_settle (ctx : TcpMsgCtx) (b : Byte) :
    ctx.settle.headerByte b = ctx.headerByte b := by
  have hidem : ctx.settle.settle = ctx.settle := by
    unfold settle
    cases hstate : ctx.state with
    | hdrName => by_cases hd : ctx.deficit = 0 <;> simp [hd, hstate]
    | hdrBody => by_cases hd : ctx.deficit = 0 <;> simp [hd, hstate]
    | hdrNameSize => simp [hstate]
    | hdrBodySizeMsb => simp [hstate]
    | hdrBodySizeLsb => simp [hstate]
    | hdrDone => simp [hstate]
  unfold headerByte
  rw [hidem]

/-- The scanner on a part that goes on behind the data. -/
theorem scanHeaders_part (h : Skips ctx.state next) {data : List Byte}
    (hlen : data.length < ctx.deficit) :
    scanHeaders ctx data = ({ ctx with deficit := ctx.deficit - data.length }, []) := by
  induction data generalizing ctx with
  | nil => rfl
  | cons b data ih =>
    rw [length_cons] at hlen
    have hbyte : ctx.headerByte b = { ctx with deficit := ctx.deficit - 1 } := by
      rw [headerByte_skips h (by omega), if_pos (by omega)]
    have hrest := @ih { ctx with deficit := ctx.deficit - 1 } h (by dsimp only; omega)
    rw [scanHeaders_cons h.ne_done, hbyte, hrest, length_cons, Nat.sub_sub, Nat.add_comm 1]

/-- The scanner on a part that is all there, with more data behind it. -/
theorem scanHeaders_skip (h : Skips ctx.state next) {data : List Byte}
    (hlen : ctx.deficit ≤ data.length) (hdata : data ≠ []) :
    scanHeaders ctx data
      = scanHeaders { ctx with deficit := 0, state := next } (data.drop ctx.deficit) := by
  have hnext : next ≠ .hdrDone := by
    rcases h with ⟨-, rfl⟩ | ⟨-, rfl⟩
    · decide
    · decide
  induction data generalizing ctx with
  | nil => exact absurd rfl hdata
  | cons b data ih =>
    rw [length_cons] at hlen
    rw [scanHeaders_cons h.ne_done]
    by_cases hzero : ctx.deficit = 0
    · have hsettle : ctx.settle = { ctx with deficit := 0, state := next } := by
        rw [settle_skips h, if_pos hzero, ← hzero]
      rw [hzero, drop_zero, scanHeaders_cons hnext, ← hsettle, headerByte_settle]
    · obtain ⟨n, hn⟩ : ∃ n, ctx.deficit = n + 1 := ⟨ctx.deficit - 1, by omega⟩
      rw [hn, drop_succ_cons]
      by_cases hone : n = 0
      · rw [headerByte_skips h (by omega), if_neg (by omega), hone, drop_zero]
      · have hbyte : ctx.headerByte b = { ctx with deficit := n } := by
          rw [headerByte_skips h (by omega), if_pos (by omega), hn, Nat.add_sub_cancel]
        rw [hbyte]
        refine @ih { ctx with deficit := n } h (by dsimp only; omega) ?_
        rintro rfl
        rw [length_nil] at hlen
        omega

/-- A turn of the loop is a number of bytes. -/
theorem scanHeaders_splitTurn (h : ctx.state ≠ .hdrDone) {data : List Byte} (hdata : data ≠ []) :
    scanHeaders ctx data
      = scanHeaders (ctx.splitTurn data).1 (ctx.splitTurn data).2 := by
  have hskip : ∀ {next}, Skips ctx.state next →
      scanHeaders ctx data = scanHeaders (ctx.splitTurn data).1 (ctx.splitTurn data).2 := by
    intro next hskips
    rw [splitTurn_skips hskips]
    by_cases hlen : ctx.deficit > data.length
    · rw [if_pos hlen, scanHeaders_part hskips hlen]
      rfl
    · rw [if_neg hlen, scanHeaders_skip hskips (by omega) hdata]
  obtain ⟨b, rest, rfl⟩ := exists_cons_of_ne_nil hdata
  cases hstate : ctx.state with
  | hdrName => exact hskip (.inl ⟨hstate, rfl⟩)
  | hdrBody => exact hskip (.inr ⟨hstate, rfl⟩)
  | hdrDone => exact absurd hstate h
  | hdrNameSize =>
    rw [scanHeaders_cons h]
    unfold headerByte settle splitTurn
    rw [hstate]
    rw [hstate]
    rfl
  | hdrBodySizeMsb =>
    rw [scanHeaders_cons h]
    unfold headerByte settle splitTurn
    rw [hstate]
    rw [hstate]
    rfl
  | hdrBodySizeLsb =>
    rw [scanHeaders_cons h]
    unfold headerByte settle splitTurn
    rw [hstate]
    rw [hstate]
    rfl

end Skip

/-- The state is about to be left without a byte. -/
def Settles (ctx : TcpMsgCtx) : Prop :=
  ctx.deficit = 0 ∧ (ctx.state = .hdrName ∨ ctx.state = .hdrBody)

instance (ctx : TcpMsgCtx) : Decidable ctx.Settles :=
  inferInstanceAs (Decidable (ctx.deficit = 0 ∧ (ctx.state = .hdrName ∨ ctx.state = .hdrBody)))

/-- A turn uses a byte, or the next one does. -/
theorem length_splitTurn {ctx : TcpMsgCtx} (h : ctx.state ≠ .hdrDone) {data : List Byte}
    (hdata : data ≠ []) :
    if ctx.Settles then
      (ctx.splitTurn data).2 = data ∧ ¬(ctx.splitTurn data).1.Settles
    else (ctx.splitTurn data).2.length + 1 ≤ data.length := by
  have hpos : 0 < data.length := length_pos_iff.mpr hdata
  have hskip : ∀ {next}, Skips ctx.state next → if ctx.Settles then
      (ctx.splitTurn data).2 = data ∧ ¬(ctx.splitTurn data).1.Settles
    else (ctx.splitTurn data).2.length + 1 ≤ data.length := by
    intro next hskips
    rw [splitTurn_skips hskips]
    by_cases hzero : ctx.deficit = 0
    · have hsettles : ctx.Settles := by
        refine ⟨hzero, ?_⟩
        rcases hskips with ⟨hstate, -⟩ | ⟨hstate, -⟩
        · exact .inl hstate
        · exact .inr hstate
      rw [if_pos hsettles, if_neg (by omega), hzero]
      refine ⟨rfl, ?_⟩
      rintro ⟨-, hnext⟩
      rcases hskips with ⟨-, rfl⟩ | ⟨-, rfl⟩
      · rcases hnext with hnext | hnext <;> cases hnext
      · rcases hnext with hnext | hnext <;> cases hnext
    · rw [if_neg fun hsettles => hzero hsettles.1]
      split
      · rw [length_nil]
        omega
      · rw [length_drop]
        omega
  have hone : ¬ctx.Settles → (ctx.splitTurn data).2 = data.tail → if ctx.Settles then
      (ctx.splitTurn data).2 = data ∧ ¬(ctx.splitTurn data).1.Settles
    else (ctx.splitTurn data).2.length + 1 ≤ data.length := by
    intro hsettles htail
    rw [if_neg hsettles, htail, length_tail]
    omega
  have hother : ctx.state ≠ .hdrName → ctx.state ≠ .hdrBody → ¬ctx.Settles :=
    fun hname hbody hsettles => hsettles.2.elim hname hbody
  cases hstate : ctx.state with
  | hdrName => exact hskip (.inl ⟨hstate, rfl⟩)
  | hdrBody => exact hskip (.inr ⟨hstate, rfl⟩)
  | hdrDone => exact absurd hstate h
  | hdrNameSize =>
    refine hone (hother (by rw [hstate]; decide) (by rw [hstate]; decide)) ?_
    unfold splitTurn
    rw [hstate]
  | hdrBodySizeMsb =>
    refine hone (hother (by rw [hstate]; decide) (by rw [hstate]; decide)) ?_
    unfold splitTurn
    rw [hstate]
  | hdrBodySizeLsb =>
    refine hone (hother (by rw [hstate]; decide) (by rw [hstate]; decide)) ?_
    unfold splitTurn
    rw [hstate]

/-- The loop takes byte after byte. -/
theorem splitLoop_eq (ctx : TcpMsgCtx) (data : List Byte) (turns : Nat)
    (hturns : if ctx.Settles then 2 * data.length < turns
      else 2 * data.length ≤ turns ∧ 0 < turns) :
    splitLoop turns ctx data = .ok (scanHeaders ctx data) := by
  induction turns generalizing ctx data with
  | zero =>
    split at hturns
    · omega
    · omega
  | succ turns ih =>
    rw [splitLoop]
    by_cases h : ctx.state ≠ .hdrDone ∧ data ≠ []
    · have hlen := length_splitTurn h.1 h.2
      have hpos : 0 < data.length := length_pos_iff.mpr h.2
      rw [if_pos h, scanHeaders_splitTurn h.1 h.2]
      generalize ctx.splitTurn data = turn at hlen ⊢
      obtain ⟨ctx', data'⟩ := turn
      dsimp only at hlen
      refine ih ctx' data' ?_
      by_cases hsettles : ctx.Settles
      · rw [if_pos hsettles] at hlen hturns
        obtain ⟨rfl, hnot⟩ := hlen
        rw [if_neg hnot]
        omega
      · rw [if_neg hsettles] at hlen hturns
        split
        · omega
        · omega
    · rw [if_neg h]
      rcases Decidable.not_and_iff_not_or_not.mp h with hstate | hdata
      · rw [scanHeaders_done (Decidable.not_not.mp hstate)]
      · rw [Decidable.not_not.mp hdata]
        rfl

theorem splitHeaders_eq (ctx : TcpMsgCtx) (data : List Byte) :
    splitHeaders ctx data = .ok ((scanHeaders ctx data).1,
      data.length - (scanHeaders ctx data).2.length,
      if (scanHeaders ctx data).1.state = .hdrDone then .yes else .no) := by
  have hloop := splitLoop_eq ctx data (2 * data.length + 1) (by split <;> omega)
  unfold splitHeaders
  rw [hloop]
  rfl

/-! ## the buckets -/

/-- `split_brigade` with `split_headers` finds what the scanner finds in all of the buckets. -/
theorem splitBrigade_splitHeaders (ctx : TcpMsgCtx) (hstate : ctx.state ≠ .hdrDone)
    (brigade : List (List Byte)) (hne : ∀ bucket ∈ brigade, bucket ≠ []) (out : List Byte) :
    ∃ brigade' taken, (∀ bucket ∈ brigade', bucket ≠ []) ∧
      scanHeaders ctx brigade.flatten = ((scanHeaders ctx brigade.flatten).1, brigade'.flatten) ∧
      brigade.flatten = taken ++ brigade'.flatten ∧
      splitBrigade splitHeaders ctx brigade out = .ok ((scanHeaders ctx brigade.flatten).1,
        brigade', out ++ taken,
        if (scanHeaders ctx brigade.flatten).1.state = .hdrDone then .success else .eagain) := by
  induction brigade generalizing ctx out with
  | nil =>
    refine ⟨[], [], hne, rfl, rfl, ?_⟩
    rw [splitBrigade, flatten_nil, scanHeaders, if_neg hstate, append_nil]
  | cons data brigade ih =>
    obtain ⟨taken, htaken⟩ := scanHeaders_suffix ctx data
    obtain ⟨ctx', rest, hscan⟩ : ∃ ctx' rest, scanHeaders ctx data = (ctx', rest) :=
      ⟨_, _, rfl⟩
    replace htaken : data = taken ++ rest := by rwa [hscan] at htaken
    have happend := scanHeaders_append hscan brigade.flatten
    have hne' : ∀ bucket ∈ brigade, bucket ≠ [] := fun b hb => hne b (mem_cons_of_mem _ hb)
    have hused : data.length - rest.length = taken.length := by
      rw [htaken, length_append]
      omega
    rw [splitBrigade, splitHeaders_eq, hscan, ok_bind, flatten_cons]
    dsimp only
    rw [hused]
    by_cases hdone : ctx'.state = .hdrDone
    · rw [if_pos hdone] at happend
      rw [happend, if_pos hdone, if_pos (by decide)]
      by_cases hlen : taken.length < data.length
      · refine ⟨rest :: brigade, taken, ?_, ?_, ?_, ?_⟩
        · intro bucket hmem
          rcases mem_cons.mp hmem with rfl | hmem
          · rintro rfl
            rw [htaken, append_nil] at hlen
            omega
          · exact hne' bucket hmem
        · rfl
        · rw [htaken, append_assoc]
          rfl
        · rw [if_pos hlen, htaken, drop_left, take_left]
          rw [if_pos hdone]
          rfl
      · have hrest : rest = [] := by
          have hlen' := congrArg List.length htaken
          rw [length_append] at hlen'
          exact eq_nil_of_length_eq_zero (by omega)
        subst hrest
        rw [append_nil] at htaken
        refine ⟨brigade, taken, hne', rfl, by rw [htaken], ?_⟩
        rw [if_neg hlen, htaken]
        rw [if_pos hdone]
        rfl
    · have hrest : rest = [] := by
        have hnil := @scanHeaders_rest ctx data (by rw [hscan]; exact hdone)
        rwa [hscan] at hnil
      subst hrest
      rw [if_neg hdone] at happend
      obtain ⟨brigade', taken', hbrigade, hscan', hsplit, heq⟩ := ih ctx' hdone hne' (out ++ data)
      refine ⟨brigade', data ++ taken', hbrigade, ?_, ?_, ?_⟩
      · rw [happend]
        exact hscan'
      · rw [hsplit, append_assoc]
      · rw [happend, if_neg hdone, if_neg (by decide), heq, append_assoc]

/-! ## the bytes of a block -/

/-- What there is of the header that the scanner is in. -/
def Part (state : MsgState) (deficit : Nat) (part : List Byte) : Prop :=
  match state with
  | .hdrNameSize => part = []
  | .hdrName => ∃ name : List Byte, 0 < name.length + deficit ∧ name.length + deficit < 256 ∧
      part = UInt8.ofNat (name.length + deficit) :: name
  | .hdrBodySizeMsb => ∃ name : List Byte, name ≠ [] ∧ name.length < 256 ∧
      part = UInt8.ofNat name.length :: name
  | .hdrBodySizeLsb => ∃ (name : List Byte) (b : Byte), name ≠ [] ∧ name.length < 256 ∧
      b.toNat = deficit ∧ part = UInt8.ofNat name.length :: (name ++ [b])
  | .hdrBody => ∃ name value : List Byte, name ≠ [] ∧ name.length < 256 ∧
      value.length + deficit < 65536 ∧
      part = UInt8.ofNat name.length :: (name ++ (bigEndian 2 (value.length + deficit) ++ value))
  | .hdrDone => part = [0]

def headersBytes (headers : List (List Byte × List Byte)) : List Byte :=
  headers.flatMap fun h => headerBytes h.1 h.2

theorem headersBytes_cons (h : List Byte × List Byte) (headers : List (List Byte × List Byte)) :
    headersBytes (h :: headers) = headerBytes h.1 h.2 ++ headersBytes headers := flatMap_cons

/-- The bytes of a block up to here: whole headers, and what there is of the next one. -/
def Collected (ctx : TcpMsgCtx) (block : List Byte) : Prop :=
  ∃ (headers : List (List Byte × List Byte)) (part : List Byte),
    (∀ h ∈ headers, h.1 ≠ [] ∧ h.1.length < 256 ∧ h.2.length < 65536) ∧
      block = headersBytes headers ++ part ∧
      Part ctx.state ctx.deficit part

/-- A header is at its end. -/
theorem collected_header {headers : List (List Byte × List Byte)} {name value : List Byte}
    (hheaders : ∀ h ∈ headers, h.1 ≠ [] ∧ h.1.length < 256 ∧ h.2.length < 65536)
    (hne : name ≠ []) (hname : name.length < 256) (hvalue : value.length < 65536) {ctx : TcpMsgCtx}
    (hstate : ctx.state = .hdrNameSize) :
    ctx.Collected (headersBytes headers ++ headerBytes name value) := by
  refine ⟨headers ++ [(name, value)], [], ?_, ?_, ?_⟩
  · intro h hmem
    rcases mem_append.mp hmem with hmem | hmem
    · exact hheaders h hmem
    · rw [mem_singleton.mp hmem]
      exact ⟨hne, hname, hvalue⟩
  · unfold headersBytes
    rw [flatMap_append, append_nil, flatMap_singleton]
  · rw [hstate]
    exact rfl

theorem Collected.settle {ctx : TcpMsgCtx} {block : List Byte} (h : ctx.Collected block) :
    ctx.settle.Collected block ∧ ¬ctx.settle.Settles := by
  obtain ⟨headers, part, hheaders, rfl, hpart⟩ := h
  have hother : ctx.settle = ctx → ¬ctx.Settles →
      ctx.settle.Collected (headersBytes headers ++ part) ∧
        ¬ctx.settle.Settles := by
    intro heq hnot
    rw [heq]
    exact ⟨⟨headers, part, hheaders, rfl, hpart⟩, hnot⟩
  by_cases hsettles : ctx.Settles
  · obtain ⟨hzero, hstate | hstate⟩ := hsettles
    · rw [hstate] at hpart
      obtain ⟨name, hpos, hname, rfl⟩ := hpart
      rw [settle_skips (.inl ⟨hstate, rfl⟩), if_pos hzero, hzero, Nat.add_zero] at *
      refine ⟨⟨headers, _, hheaders, rfl, name, length_pos_iff.mp hpos, hname, rfl⟩, ?_⟩
      rintro ⟨-, hnext | hnext⟩ <;> cases hnext
    · rw [hstate] at hpart
      obtain ⟨name, value, hne, hname, hvalue, rfl⟩ := hpart
      rw [settle_skips (.inr ⟨hstate, rfl⟩), if_pos hzero, hzero, Nat.add_zero] at *
      refine ⟨collected_header hheaders hne hname hvalue rfl, ?_⟩
      rintro ⟨-, hnext | hnext⟩ <;> cases hnext
  · refine hother ?_ hsettles
    unfold TcpMsgCtx.settle
    split
    · exact if_neg fun hzero => hsettles ⟨hzero, .inl ‹_›⟩
    · exact if_neg fun hzero => hsettles ⟨hzero, .inr ‹_›⟩
    · rfl

/-- A byte more. -/
theorem Collected.headerByte {ctx : TcpMsgCtx} {block : List Byte} (h : ctx.Collected block)
    (hdone : ctx.state ≠ .hdrDone) (b : Byte) : (ctx.headerByte b).Collected (block ++ [b]) := by
  obtain ⟨h, hnot⟩ := h.settle
  have hdone' : ctx.settle.state ≠ .hdrDone := by
    unfold TcpMsgCtx.settle
    split
    · split
      · exact fun h => nomatch h
      · exact hdone
    · split
      · exact fun h => nomatch h
      · exact hdone
    · exact hdone
  unfold TcpMsgCtx.headerByte
  generalize ctx.settle = ctx at h hnot hdone' ⊢
  obtain ⟨headers, part, hheaders, rfl, hpart⟩ := h
  rw [append_assoc]
  cases hstate : ctx.state with
  | hdrDone => exact absurd hstate hdone'
  | hdrNameSize =>
    rw [hstate] at hpart
    obtain rfl : part = [] := hpart
    have hturn : ctx.splitTurn [b] = ({ ctx with
        deficit := b.toNat
        state := if b.toNat ≠ 0 then .hdrName else .hdrDone }, []) := by
      unfold splitTurn
      rw [hstate]
      rfl
    rw [hturn]
    refine ⟨headers, [b], hheaders, rfl, ?_⟩
    by_cases hzero : b.toNat = 0
    · obtain rfl : b = 0 := UInt8.toNat_inj.mp hzero
      exact rfl
    · dsimp only
      rw [if_pos hzero]
      refine ⟨[], by rw [length_nil]; omega, ?_, ?_⟩
      · rw [length_nil, Nat.zero_add]
        exact b.toNat_lt
      · rw [length_nil, Nat.zero_add, UInt8.ofNat_toNat]
  | hdrName =>
    rw [hstate] at hpart
    obtain ⟨name, hpos, hname, rfl⟩ := hpart
    have hdeficit : ctx.deficit ≠ 0 := fun hzero => hnot ⟨hzero, .inl hstate⟩
    have hlen : (name ++ [b]).length = name.length + 1 := length_append
    rw [splitTurn_skips (.inl ⟨hstate, rfl⟩), length_singleton, cons_append]
    split
    · refine ⟨headers, _, hheaders, rfl, ?_⟩
      dsimp only
      rw [hstate]
      refine ⟨name ++ [b], by omega, by omega, ?_⟩
      rw [hlen, show name.length + 1 + (ctx.deficit - 1) = name.length + ctx.deficit by omega]
    · refine ⟨headers, _, hheaders, rfl, name ++ [b], by simp, by omega, ?_⟩
      rw [hlen, show name.length + ctx.deficit = name.length + 1 by omega]
  | hdrBodySizeMsb =>
    rw [hstate] at hpart
    obtain ⟨name, hne, hname, rfl⟩ := hpart
    have hturn : ctx.splitTurn [b]
        = ({ ctx with deficit := b.toNat, state := .hdrBodySizeLsb }, []) := by
      unfold splitTurn
      rw [hstate]
      rfl
    rw [hturn]
    exact ⟨headers, _, hheaders, rfl, name, b, hne, hname, rfl, rfl⟩
  | hdrBodySizeLsb =>
    rw [hstate] at hpart
    obtain ⟨name, high, hne, hname, hhigh, rfl⟩ := hpart
    have hturn : ctx.splitTurn [b]
        = ({ ctx with deficit := ctx.deficit * 256 + b.toNat, state := .hdrBody }, []) := by
      unfold splitTurn
      rw [hstate]
      rfl
    have hsize : bigEndian 2 (ctx.deficit * 256 + b.toNat) = [high, b] := by
      have hb := bigEndian_ofBigEndian [high, b]
      have hnumber : ofBigEndian [high, b] = ctx.deficit * 256 + b.toNat := by
        rw [← hhigh]
        show (0 * 256 + high.toNat) * 256 + b.toNat = _
        rw [Nat.zero_mul, Nat.zero_add]
      rwa [hnumber] at hb
    have hb := b.toNat_lt
    have hhigh' := high.toNat_lt
    rw [hturn]
    refine ⟨headers, _, hheaders, rfl, name, [], hne, hname, ?_, ?_⟩
    · dsimp only
      rw [length_nil]
      omega
    · rw [length_nil, Nat.zero_add, hsize, cons_append, append_assoc]
      rfl
  | hdrBody =>
    rw [hstate] at hpart
    obtain ⟨name, value, hne, hname, hvalue, rfl⟩ := hpart
    have hdeficit : ctx.deficit ≠ 0 := fun hzero => hnot ⟨hzero, .inr hstate⟩
    have hlen : (value ++ [b]).length = value.length + 1 := length_append
    rw [splitTurn_skips (.inr ⟨hstate, rfl⟩), length_singleton, cons_append,
      append_assoc, append_assoc]
    split
    · refine ⟨headers, _, hheaders, rfl, ?_⟩
      dsimp only
      rw [hstate]
      refine ⟨name, value ++ [b], hne, hname, by omega, ?_⟩
      rw [hlen, show value.length + 1 + (ctx.deficit - 1) = value.length + ctx.deficit by omega]
    · rw [show value.length + ctx.deficit = (value ++ [b]).length by omega]
      exact collected_header hheaders hne hname (by omega) rfl

/-- The bytes that the scanner takes. -/
theorem Collected.scanHeaders {ctx : TcpMsgCtx} {block : List Byte} (h : ctx.Collected block)
    (data : List Byte) : ∃ taken, data = taken ++ (TcpMsgCtx.scanHeaders ctx data).2 ∧
      (TcpMsgCtx.scanHeaders ctx data).1.Collected (block ++ taken) := by
  induction data generalizing ctx block with
  | nil => exact ⟨[], rfl, by rwa [append_nil]⟩
  | cons b data ih =>
    by_cases hdone : ctx.state = .hdrDone
    · rw [scanHeaders_done hdone]
      exact ⟨[], rfl, by rwa [append_nil]⟩
    · obtain ⟨taken, htaken, hcollected⟩ := ih (h.headerByte hdone b)
      rw [scanHeaders_cons hdone]
      exact ⟨b :: taken, by rw [cons_append, ← htaken], by rwa [append_assoc] at hcollected⟩

/-- What `split_headers` finds is whole headers, and the empty one. -/
theorem Collected.exists_headers {ctx : TcpMsgCtx} {block : List Byte} (h : ctx.Collected block)
    (hdone : ctx.state = .hdrDone) : ∃ headers : List (List Byte × List Byte),
      (∀ h ∈ headers, h.1 ≠ [] ∧ h.1.length < 256 ∧ h.2.length < 65536) ∧
        block = headersBytes headers ++ [0] := by
  obtain ⟨headers, part, hheaders, hblock, hpart⟩ := h
  rw [hdone] at hpart
  obtain rfl : part = [0] := hpart
  exact ⟨headers, hheaders, hblock⟩

/-! ## `read_headers` on a block -/

/-- A content-length header whose value is not a size. -/
def BadLength (h : List Byte × List Byte) : Prop :=
  h.1.length = 14 ∧ PacketHeader.sameName 14 PacketHeader.contentLength h.1 = true ∧
    h.2.length ≠ 8

instance (h : List Byte × List Byte) : Decidable (BadLength h) := by
  unfold BadLength
  infer_instance

/-- There is no header behind one of these. -/
def LengthsLast : List (List Byte × List Byte) → Prop
  | [] => True
  | h :: headers => (BadLength h → headers = []) ∧ LengthsLast headers

theorem handleHeader_status (ctx : TcpMsgCtx) (h : List Byte × List Byte) :
    (ctx.handleHeader h.1 h.2).2 = .success ↔ ¬BadLength h := by
  unfold handleHeader BadLength
  by_cases h5 : h.1.length = 5
  · rw [if_pos h5]
    refine iff_of_true ?_ fun hbad => by omega
    split <;> rfl
  · rw [if_neg h5]
    by_cases h12 : h.1.length = 12
    · rw [if_pos h12]
      refine iff_of_true ?_ fun hbad => by omega
      split <;> rfl
    · rw [if_neg h12]
      by_cases h14 : h.1.length = 14
      · rw [if_pos h14]
        cases PacketHeader.sameName 14 PacketHeader.contentLength h.1 with
        | false =>
          rw [if_neg Bool.false_ne_true]
          exact iff_of_true rfl fun hbad => Bool.false_ne_true hbad.2.1
        | true =>
          rw [if_pos rfl]
          by_cases h8 : h.2.length = 8
          · rw [if_neg (not_not_intro h8)]
            exact iff_of_true rfl fun hbad => hbad.2.2 h8
          · rw [if_pos h8]
            exact iff_of_false nofun (not_not_intro ⟨h14, rfl, h8⟩)
      · rw [if_neg h14]
        exact iff_of_true rfl fun hbad => h14 hbad.1

/-- The headers that `read_headers` comes to. -/
def reached : List (List Byte × List Byte) → List (List Byte × List Byte)
  | [] => []
  | h :: headers => h :: if BadLength h then [] else reached headers

/-- The fields that headers set. -/
def fields (ctx : TcpMsgCtx) (headers : List (List Byte × List Byte)) : TcpMsgCtx :=
  headers.foldl (fun ctx h => (ctx.handleHeader h.1 h.2).1) ctx

theorem headersBytes_pos {h : List Byte × List Byte} {headers : List (List Byte × List Byte)} :
    0 < (headersBytes (h :: headers)).length := by
  rw [headersBytes_cons, length_append, PacketHeader.length_headerBytes]
  omega

/-- All of the headers are reached if no bad length is in front of another one. -/
theorem length_reached_iff (headers : List (List Byte × List Byte)) :
    (headersBytes (reached headers)).length = (headersBytes headers).length ↔
      LengthsLast headers := by
  induction headers with
  | nil => exact iff_of_true rfl trivial
  | cons h headers ih =>
    unfold reached LengthsLast
    rw [headersBytes_cons, headersBytes_cons, length_append, length_append,
      Nat.add_left_cancel_iff]
    by_cases hbad : BadLength h
    · rw [if_pos hbad]
      rcases headers with _ | ⟨next, headers⟩
      · exact iff_of_true rfl ⟨fun _ => rfl, trivial⟩
      · have hpos := @headersBytes_pos next headers
        refine iff_of_false (fun hlen => ?_) fun hall => cons_ne_nil _ _ (hall.1 hbad)
        rw [← hlen] at hpos
        exact Nat.lt_irrefl _ hpos
    · rw [if_neg hbad, ih]
      exact ⟨fun hall => ⟨fun h => absurd h hbad, hall⟩, fun hall => hall.2⟩

theorem reached_eq {headers : List (List Byte × List Byte)} (h : LengthsLast headers) :
    reached headers = headers := by
  induction headers with
  | nil => rfl
  | cons a headers ih =>
    unfold reached
    by_cases hbad : BadLength a
    · rw [if_pos hbad, h.1 hbad]
    · rw [if_neg hbad, ih h.2]

/-- The loop of `read_headers` goes over the headers it reaches, to the NUL behind them. -/
theorem readLoop_headers {headers : List (List Byte × List Byte)}
    (hheaders : ∀ h ∈ headers, h.1 ≠ [] ∧ h.1.length < 256 ∧ h.2.length < 65536)
    {turns : Nat} (hturns : (headersBytes headers).length < turns) (used : Nat) (ctx : TcpMsgCtx) :
    readLoop turns ctx (headersBytes headers ++ [0]) used =
      .ok (ctx.fields (reached headers), used + (headersBytes (reached headers)).length + 1,
        .success) := by
  induction headers generalizing turns used ctx with
  | nil =>
    obtain ⟨turns, rfl⟩ := Nat.exists_eq_add_one_of_ne_zero (Nat.ne_zero_of_lt hturns)
    exact readLoop_empty ctx turns used []
  | cons h headers ih =>
    obtain ⟨hne, hname, hvalue⟩ := hheaders h mem_cons_self
    obtain ⟨turns, rfl⟩ := Nat.exists_eq_add_one_of_ne_zero (Nat.ne_zero_of_lt hturns)
    have hrest : headersBytes headers ++ [0] ≠ [] := by simp
    rw [headersBytes_cons, length_append, PacketHeader.length_headerBytes] at hturns
    rw [headersBytes_cons, append_assoc,
      readLoop_headerBytes ctx turns used hrest hne hname hvalue]
    unfold reached
    by_cases hbad : BadLength h
    · -- the name length of the next header is gone
      have hstatus : ¬(ctx.handleHeader h.1 h.2).2 = .success :=
        fun heq => (handleHeader_status ctx h).mp heq hbad
      obtain ⟨b, tail, heq⟩ := exists_cons_of_ne_nil hrest
      obtain ⟨turns, rfl⟩ : ∃ n, turns = n + 1 := ⟨turns - 1, by omega⟩
      rw [if_neg hstatus, if_pos hbad, heq, set_cons_zero, readLoop_empty, headersBytes_cons]
      have hnil : headersBytes [] = [] := rfl
      rw [hnil, append_nil]
      rfl
    · have hgo := @ih (fun h hmem => hheaders h (mem_cons_of_mem _ hmem)) turns (by omega)
        (used + (headerBytes h.1 h.2).length) (ctx.handleHeader h.1 h.2).1
      rw [if_pos ((handleHeader_status ctx h).mpr hbad), if_neg hbad, hgo, headersBytes_cons,
        length_append, Nat.add_assoc used]
      rfl

theorem readHeaders_headers {headers : List (List Byte × List Byte)}
    (hheaders : ∀ h ∈ headers, h.1 ≠ [] ∧ h.1.length < 256 ∧ h.2.length < 65536) (ctx : TcpMsgCtx) :
    ctx.readHeaders (headersBytes headers ++ [0]) =
      .ok (ctx.fields (reached headers), (headersBytes (reached headers)).length + 1, .success) := by
  have hturns : (headersBytes headers).length < (headersBytes headers ++ [0]).length + 1 := by
    rw [length_append]
    omega
  have hloop := readLoop_headers hheaders hturns 0 ctx
  rw [Nat.zero_add] at hloop
  exact hloop

end TcpMsgCtx

end JxtaC
