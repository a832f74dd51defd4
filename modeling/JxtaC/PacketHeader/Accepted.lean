import JxtaC.PacketHeader.RoundTrip

/-
  Which streams `message_packet_header_read` takes (jxta_tcp_message_packet_header.c). `Opening` is
  what the loop goes over without an end: headers with a name that agrees with a known one as far as
  it goes, and empty ones while something is missing. `readHeaders_outcome` says that the loop ends
  behind such a beginning of the stream, or in front of a header that it does not expect;
  `Opening.readHeaders` that it goes over every such beginning.
-/

namespace JxtaC

open Lib Lib.Stream List

namespace PacketHeader
variable {name : List Byte} {i : Nat} {value : List Byte}

/-! ## the format -/

/-- The name and the value have lengths that a header can give. -/
structure Fits (name value : List Byte) : Prop where
  nonempty : name ≠ []
  name : name.length < 256
  value : value.length < 65536

/-- A known name, spelled in full. -/
def InFull (name : List Byte) (i : Nat) : Prop :=
  messagePacketHeader[i]?.map (List.map toLower) = some (name.map toLower)

/-- The headers of a packet. -/
structure WellFormed (isMulticast : Bool) (headers : List (List Byte × List Byte)) : Prop where
  fits : ∀ header ∈ headers, Fits header.1 header.2
  known : ∀ header ∈ headers, ∃ i, InFull header.1 i
  once : headers.Pairwise fun a b => a.1.map toLower ≠ b.1.map toLower
  length : ∀ header ∈ headers, InFull header.1 1 → header.2.length = 8
  required : ∀ i < headerCount isMulticast, ∃ header ∈ headers, InFull header.1 i

/-- The headers, and the empty one. -/
def block (headers : List (List Byte × List Byte)) : List Byte :=
  headers.flatMap (fun header => headerBytes header.1 header.2) ++ [0]

/-- The reader takes a packet header off the stream, or ends with an error. -/
def Meets (P : Source Byte Status) (isMulticast : Bool) (stream : List Byte) : Prop :=
  match messagePacketHeaderRead P isMulticast stream with
  | .ok _ rest => ∃ headers, WellFormed isMulticast headers ∧ stream = block headers ++ rest
  | .exit e _ => e ≠ .success
  | .fault _ => False

/-! ## what the loop goes over -/

/-- A header, or the empty one. -/
abbrev Item := Option (List Byte × List Byte)

def itemBytes : Item → List Byte
  | none => [0]
  | some (name, value) => headerBytes name value

/-- The headers that have to be there are. -/
def Complete (isMulticast : Bool) (items : List Item) : Prop :=
  ∀ i < headerCount isMulticast, ∃ name value,
    some (name, value) ∈ items ∧ headerNumber name = some i

/-- Headers, none of them twice, and empty ones in front of what has to be there. -/
inductive Opening (isMulticast : Bool) : List Item → Prop
  | nil : Opening isMulticast []
  | empty {items : List Item} (h : Opening isMulticast items)
      (hmissing : ¬ Complete isMulticast items) :
      Opening isMulticast (items ++ [none])
  | header {items : List Item} {name value : List Byte} {i : Nat} (h : Opening isMulticast items)
      (hfits : Fits name value) (hnumber : headerNumber name = some i)
      (hcount : i < headerCount isMulticast)
      (hnew : ∀ name' value', some (name', value') ∈ items → headerNumber name' ≠ some i) :
      Opening isMulticast (items ++ [some (name, value)])

/-- What a packet header does not have: a shortened name, an empty header in front of what has to be
there, and a length of other than eight bytes. -/
structure Clean (items : List Item) : Prop where
  full : ∀ name value, some (name, value) ∈ items → ∃ i, InFull name i
  last : none ∉ items
  length : ∀ name value, some (name, value) ∈ items → headerNumber name = some 1 → value.length = 8

/-- What the loop takes at the front of the stream is clean, and in front of a source address that
is not expected there are the headers that have to be there. -/
def Sound (isMulticast : Bool) (stream : List Byte) : Prop :=
  (∀ items rest, Opening isMulticast items → Complete isMulticast items →
    stream = items.flatMap itemBytes ++ 0 :: rest → Clean items) ∧
  (isMulticast = false → ∀ items name value rest, Opening isMulticast items → Fits name value →
    headerNumber name = some 2 →
    stream = items.flatMap itemBytes ++ (headerBytes name value ++ rest) →
    Complete isMulticast items)

/-! ## names -/

theorem toLower_eq_zero {b : Byte} : toLower b = 0 ↔ b = 0 := by
  unfold toLower
  split
  next h =>
    constructor
    · intro heq
      have hval := congrArg UInt8.toNat heq
      rw [UInt8.toNat_add] at hval
      simp at hval
      omega
    · intro heq
      subst heq
      exact absurd h.1 (by decide)
  next => exact Iff.rfl

/-- A name without a NUL is compared as far as it goes. -/
theorem sameName_eq {a : List Byte} (h : (0 : Byte) ∉ a) (b : List Byte) :
    sameName a.length a b = (a.map toLower).isPrefixOf (b.map toLower) := by
  induction a generalizing b with
  | nil => rfl
  | cons x a ih =>
    obtain ⟨hx, ha⟩ := not_or.mp fun hor => h (mem_cons.mpr hor)
    have hlower : toLower x ≠ 0 := fun heq => hx (toLower_eq_zero.mp heq).symm
    match b with
    | [] =>
      have hnil : toLower x ≠ toLower (([] : List Byte).headD 0) := hlower
      rw [length_cons, sameName, headD_cons, if_pos hnil]
      rfl
    | y :: b =>
      rw [length_cons, sameName, headD_cons, headD_cons, if_neg (Ne.symm hx),
        tail_cons, tail_cons, ih ha, map_cons, map_cons, isPrefixOf_cons_cons]
      by_cases heq : toLower x = toLower y
      · simp [heq]
      · simp [heq]

theorem InFull.lt (h : InFull name i) : i < 3 := by
  obtain ⟨b, hb, -⟩ := Option.map_eq_some_iff.mp h
  exact (List.getElem?_eq_some_iff.mp hb).1

theorem InFull.not_mem (h : InFull name i) : (0 : Byte) ∉ name := by
  intro hmem
  have hzero : (0 : Byte) ∈ name.map toLower := mem_map.mpr ⟨0, hmem, rfl⟩
  obtain ⟨b, hb, heq⟩ := Option.map_eq_some_iff.mp h
  have hknown : ∀ b ∈ messagePacketHeader, (0 : Byte) ∉ b.map toLower := by decide
  rw [← heq] at hzero
  exact hknown b (mem_of_getElem? hb) hzero

/-- A name that is spelled in full is the first that it agrees with. -/
theorem InFull.headerNumber (h : InFull name i) : headerNumber name = some i := by
  have hsame : PacketHeader.headerNumber name = messagePacketHeader.findIdx? fun b =>
      (name.map toLower).isPrefixOf (b.map toLower) := by
    unfold PacketHeader.headerNumber
    simp only [sameName_eq h.not_mem]
  rw [hsame]
  have hlt := h.lt
  match i, hlt with
  | 0, _ => rw [← Option.some.inj h]; decide
  | 1, _ => rw [← Option.some.inj h]; decide
  | 2, _ => rw [← Option.some.inj h]; decide

theorem headerNumber_lt (h : headerNumber name = some i) : i < 3 := by
  unfold headerNumber at h
  exact (findIdx?_eq_some_iff_getElem.mp h).1

/-! ## bytes -/

theorem Fits.toNat (h : Fits name value) : (UInt8.ofNat name.length).toNat = name.length := by
  rw [UInt8.toNat_ofNat']
  exact Nat.mod_eq_of_lt h.name

theorem Fits.ne_zero (h : Fits name value) : UInt8.ofNat name.length ≠ 0 := by
  intro heq
  have hlen := h.toNat
  rw [heq] at hlen
  exact h.nonempty (eq_nil_of_length_eq_zero hlen.symm)

theorem headerBytes_append_inj {name' value' rest rest' : List Byte} (h : Fits name value)
    (h' : Fits name' value')
    (heq : headerBytes name value ++ rest = headerBytes name' value' ++ rest') :
    (name, value) = (name', value') ∧ rest = rest' := by
  unfold headerBytes at heq
  simp only [cons_append, append_assoc] at heq
  obtain ⟨hbyte, htail⟩ := List.cons.inj heq
  have hlen : name.length = name'.length := by rw [← h.toNat, hbyte, h'.toNat]
  obtain ⟨hname, hbehind⟩ := append_inj htail hlen
  obtain ⟨hsize, hvalues⟩ := append_inj hbehind (by rw [length_bigEndian, length_bigEndian])
  have hlen' : value.length = value'.length := by
    have hnum := congrArg ofBigEndian hsize
    rwa [ofBigEndian_bigEndian, ofBigEndian_bigEndian,
      Nat.mod_eq_of_lt (show value.length < 256 ^ 2 from h.value),
      Nat.mod_eq_of_lt (show value'.length < 256 ^ 2 from h'.value)] at hnum
  obtain ⟨hvalue, hrest⟩ := append_inj hvalues hlen'
  exact ⟨Prod.ext hname hvalue, hrest⟩

/-- Items are told apart by their bytes. -/
theorem itemBytes_inj {items items' : List Item}
    (h : ∀ name value, some (name, value) ∈ items → Fits name value)
    (h' : ∀ name value, some (name, value) ∈ items' → Fits name value)
    (heq : items.flatMap itemBytes = items'.flatMap itemBytes) : items = items' := by
  induction items generalizing items' with
  | nil =>
    match items' with
    | [] => rfl
    | none :: items' => exact absurd heq nofun
    | some (name', value') :: items' => exact absurd heq nofun
  | cons item items ih =>
    have htail : ∀ name value, some (name, value) ∈ items → Fits name value :=
      fun name value hmem => h name value (mem_cons_of_mem _ hmem)
    match item, items' with
    | none, [] => exact absurd heq nofun
    | some (name, value), [] => exact absurd heq nofun
    | none, none :: items' =>
      have hrest := (List.cons.inj heq).2
      rw [ih htail (fun name value hmem => h' name value (mem_cons_of_mem _ hmem)) hrest]
    | none, some (name', value') :: items' =>
      exact absurd (List.cons.inj heq).1.symm (h' name' value' mem_cons_self).ne_zero
    | some (name, value), none :: items' =>
      exact absurd (List.cons.inj heq).1 (h name value mem_cons_self).ne_zero
    | some (name, value), some (name', value') :: items' =>
      rw [flatMap_cons, flatMap_cons] at heq
      obtain ⟨hheader, hrest⟩ := headerBytes_append_inj (h name value mem_cons_self)
        (h' name' value' mem_cons_self) heq
      rw [hheader,
        ih htail (fun name value hmem => h' name value (mem_cons_of_mem _ hmem)) hrest]

theorem flatMap_itemBytes (headers : List (List Byte × List Byte)) :
    (headers.map some).flatMap itemBytes =
      headers.flatMap fun header => headerBytes header.1 header.2 := by
  rw [flatMap_map]
  rfl

theorem block_append (headers : List (List Byte × List Byte)) (rest : List Byte) :
    block headers ++ rest = (headers.map some).flatMap itemBytes ++ 0 :: rest := by
  rw [flatMap_itemBytes, block, append_assoc]
  rfl

theorem flatMap_concat (items : List Item) (item : Item) (rest : List Byte) :
    (items ++ [item]).flatMap itemBytes ++ rest =
      items.flatMap itemBytes ++ (itemBytes item ++ rest) := by
  rw [flatMap_append, flatMap_cons, flatMap_nil, append_nil, append_assoc]

/-! ## what an opening is -/

section Opening
variable {isMulticast : Bool} {items : List Item}

section
variable (h : Opening isMulticast items)
include h

theorem Opening.fits : ∀ name value, some (name, value) ∈ items → Fits name value := by
  induction h with
  | nil => nofun
  | empty _ _ ih =>
    intro name value hmem
    exact ih name value ((mem_append.mp hmem).resolve_right (by simp))
  | header _ hfits _ _ _ ih =>
    intro name value hmem
    rcases mem_append.mp hmem with hmem | hmem
    · exact ih name value hmem
    · obtain ⟨rfl, rfl⟩ := Prod.mk.inj (Option.some.inj (mem_singleton.mp hmem))
      exact hfits

theorem Opening.number_lt : ∀ name value,
    some (name, value) ∈ items → ∀ i, headerNumber name = some i → i < headerCount isMulticast := by
  induction h with
  | nil => nofun
  | empty _ _ ih =>
    intro name value hmem
    exact ih name value ((mem_append.mp hmem).resolve_right (by simp))
  | header _ _ hnumber hcount _ ih =>
    intro name value hmem i hi
    rcases mem_append.mp hmem with hmem | hmem
    · exact ih name value hmem i hi
    · obtain ⟨rfl, rfl⟩ := Prod.mk.inj (Option.some.inj (mem_singleton.mp hmem))
      obtain rfl := Option.some.inj (hnumber.symm.trans hi)
      exact hcount

/-- No header is there twice. -/
theorem Opening.once : items.Pairwise fun a b =>
    ∀ x ∈ a, ∀ y ∈ b, headerNumber x.1 ≠ headerNumber y.1 := by
  induction h with
  | nil => exact List.Pairwise.nil
  | empty _ _ ih =>
    refine pairwise_append.mpr ⟨ih, pairwise_singleton _ _, fun a _ b hb => ?_⟩
    obtain rfl := mem_singleton.mp hb
    nofun
  | header _ _ hnumber _ hnew ih =>
    refine pairwise_append.mpr ⟨ih, pairwise_singleton _ _, fun a ha b hb x hx y hy => ?_⟩
    obtain rfl := mem_singleton.mp hb
    cases hy
    obtain rfl := hx
    rw [hnumber]
    exact hnew x.1 x.2 ha

end

end Opening

/-! ## the values that were read -/

/-- The values are those of the headers among the items. -/
def Has (h : Headers) (items : List Item) : Prop :=
  ∀ i < 3, ∀ value, h.value i = some value ↔
    ∃ name, some (name, value) ∈ items ∧ headerNumber name = some i

section Has
variable {h : Headers} {items : List Item}
variable {i : Nat}

theorem has_nil : Has ⟨none, none, none⟩ [] := by
  intro i hi value
  match i with
  | 0 => simp [Headers.value]
  | 1 => simp [Headers.value]
  | _ + 2 => simp [Headers.value]

theorem Has.empty (hhas : Has h items) : Has h (items ++ [none]) := by
  intro i hi value
  rw [hhas i hi value]
  simp

theorem Headers.value_set (h : Headers) {j : Nat} (hi : i < 3) (hj : j < 3) (value : List Byte) :
    (h.set i value).value j = if j = i then some value else h.value j := by
  match i, j with
  | 0, 0 => rfl
  | 0, 1 => rfl
  | 0, 2 => rfl
  | 1, 0 => rfl
  | 1, 1 => rfl
  | 1, 2 => rfl
  | 2, 0 => rfl
  | 2, 1 => rfl
  | 2, 2 => rfl
  | _ + 3, _ => omega
  | _, _ + 3 => omega

theorem Has.header {name value : List Byte} (hhas : Has h items)
    (hnumber : headerNumber name = some i) (hnew : h.value i = none) :
    Has (h.set i value) (items ++ [some (name, value)]) := by
  intro j hj v
  have hi := headerNumber_lt hnumber
  rw [h.value_set hi hj value]
  simp only [mem_append, mem_singleton, Option.some.injEq, Prod.mk.injEq]
  by_cases heq : j = i
  · subst heq
    rw [if_pos rfl]
    constructor
    · intro hv
      exact ⟨name, .inr ⟨rfl, (Option.some.inj hv).symm⟩, hnumber⟩
    · intro ⟨name', hmem, hnumber'⟩
      rcases hmem with hmem | ⟨-, rfl⟩
      · rw [(hhas j hj v).mpr ⟨name', hmem, hnumber'⟩] at hnew
        exact absurd hnew nofun
      · rfl
  · rw [if_neg heq, hhas j hj v]
    constructor
    · intro ⟨name', hmem, hnumber'⟩
      exact ⟨name', .inl hmem, hnumber'⟩
    · intro ⟨name', hmem, hnumber'⟩
      rcases hmem with hmem | ⟨rfl, -⟩
      · exact ⟨name', hmem, hnumber'⟩
      · exact absurd (Option.some.inj (hnumber'.symm.trans hnumber)) heq

theorem Has.isSome (hhas : Has h items) (hi : i < 3) :
    (h.value i).isSome = true ↔
      ∃ name value, some (name, value) ∈ items ∧ headerNumber name = some i := by
  rw [Option.isSome_iff_exists, exists_comm]
  exact exists_congr fun value => hhas i hi value

theorem headerCount_le (isMulticast : Bool) : headerCount isMulticast ≤ 3 := by
  match isMulticast with
  | true => exact Nat.le_refl _
  | false => decide

theorem Has.complete (hhas : Has h items) (isMulticast : Bool) :
    h.complete isMulticast = true ↔ Complete isMulticast items := by
  have hall : h.complete isMulticast = true ↔
      ∀ i < headerCount isMulticast, (h.value i).isSome = true := by
    match isMulticast with
    | true =>
      simp only [Headers.complete, Bool.not_true, Bool.false_or, Bool.and_eq_true, headerCount,
        ↓reduceIte, Headers.value, Nat.forall_lt_succ_right, Nat.lt_one_iff, forall_eq]
    | false =>
      simp only [Headers.complete, Bool.not_false, Bool.true_or, Bool.and_true, Bool.and_eq_true,
        headerCount, Bool.false_eq_true, ↓reduceIte, Headers.value, Nat.forall_lt_succ_right,
        Nat.lt_one_iff, forall_eq]
  rw [hall]
  apply forall₂_congr
  intro i hi
  exact hhas.isSome (Nat.lt_of_lt_of_le hi (headerCount_le isMulticast))

end Has

/-! ## the loop -/

section Loop
variable {P : Source Byte Status} {isMulticast : Bool} {h : Headers} {items : List Item}

theorem freeValues_eq (isMulticast : Bool) (h : Headers) :
    freeValues isMulticast h =
      if h.complete isMulticast then pure () else crash .danglingPointer := by
  match isMulticast with
  | true =>
    simp [freeValues, Headers.complete, headerCount, range_succ, Headers.value, and_assoc]
  | false => simp [freeValues, Headers.complete, headerCount, range_succ, Headers.value]

/-- The two ways a read ends. -/
theorem readOr_cases (P : Source Byte Status) (e : Status) (n : Nat) (s : List Byte) :
    (∃ bs r, s = bs ++ r ∧ bs.length = n ∧ readOr P e n s = .ok bs r) ∨
      ∃ r, readOr P e n s = .exit e r := by
  obtain ⟨o, r, hr⟩ := read_total P n s
  unfold readOr
  rw [bind_of_ok hr]
  rcases read_ok hr with ⟨bs, rfl, hs, hlen⟩ | ⟨rfl, -⟩
  · exact .inl ⟨bs, r, hs, hlen, rfl⟩
  · exact .inr ⟨r, rfl⟩

/-- A header that is expected nowhere in a packet: what has been read is freed. -/
theorem readHeader_stray {name value : List Byte} {i : Nat} (hfits : Fits name value)
    (hnumber : headerNumber name = some i) (hnew : h.value i = none)
    (hcount : headerCount isMulticast ≤ i) (rest : List Byte) :
    readHeader P isMulticast h name.length (name ++ (bigEndian 2 value.length ++ value) ++ rest) =
      if h.complete isMulticast then .exit .failed rest else .fault .danglingPointer := by
  have hname : ¬ name.length > headerBufsize := by
    have hlt := hfits.name
    unfold headerBufsize
    omega
  have hsize : ofBigEndian (bigEndian 2 value.length) = value.length := by
    rw [ofBigEndian_bigEndian]
    exact Nat.mod_eq_of_lt hfits.value
  have hset : (h.set i value).complete isMulticast = h.complete isMulticast := by
    match isMulticast, i, headerNumber_lt hnumber with
    | true, i, hlt => exact absurd hcount (Nat.not_le.mpr hlt)
    | false, 0, _ => cases hcount
    | false, 1, _ => exact absurd hcount (by decide)
    | false, 2, _ => simp [Headers.complete, Headers.set]
  unfold readHeader
  rw [if_neg hname, append_assoc, (reads_readOr P .ioerr rfl).bind_apply, hnumber]
  dsimp only
  rw [hnew, if_neg (by decide), append_assoc,
    (reads_readOr P .failed (length_bigEndian 2 value.length)).bind_apply,
    (reads_readOr P .failed hsize.symm).bind_apply, if_pos (by omega), freeValues_eq, hset]
  split
  next => rfl
  next => rfl

/-- How a turn for a name of this length ends. -/
def TurnEnds (isMulticast : Bool) (h : Headers) (nameLength : Nat) (s : List Byte)
    (r : Result Byte Status Headers) : Prop :=
  match r with
  | .ok h' rest => ∃ name value i, name.length = nameLength ∧ value.length < 65536 ∧
      headerNumber name = some i ∧ i < headerCount isMulticast ∧ h.value i = none ∧
      h' = h.set i value ∧ s = name ++ (bigEndian 2 value.length ++ value) ++ rest
  | .exit e _ => e ≠ .success
  | .fault _ => h.complete isMulticast = false ∧ ∃ name value i rest, name.length = nameLength ∧
      value.length < 65536 ∧ headerNumber name = some i ∧ headerCount isMulticast ≤ i ∧
      s = name ++ (bigEndian 2 value.length ++ value) ++ rest

theorem readHeader_eq (P : Source Byte Status) (isMulticast : Bool) (h : Headers) {n : Nat}
    (hn : n ≤ headerBufsize) : readHeader P isMulticast h n = (readOr P .ioerr n >>= fun name =>
      match headerNumber name with
      | none => leave .failed
      | some i =>
        if (h.value i).isSome then leave .failed
        else readOr P .failed 2 >>= fun size => readOr P .failed (ofBigEndian size) >>= fun value =>
          if i + 1 > headerCount isMulticast then
            freeValues isMulticast (h.set i value) >>= fun _ => leave .failed
          else pure (h.set i value)) := by
  unfold readHeader
  exact if_neg (Nat.not_lt.mpr hn)

theorem readHeader_ends (P : Source Byte Status) (isMulticast : Bool) (h : Headers) {n : Nat}
    (hpos : n ≠ 0) (hn : n < 256) (s : List Byte) :
    TurnEnds isMulticast h n s (readHeader P isMulticast h n s) := by
  have hbuf : n ≤ headerBufsize := by
    unfold headerBufsize
    omega
  have hreturn : ∀ {e : Status} {r : List Byte}, e ≠ .success →
      readHeader P isMulticast h n s = .exit e r →
      TurnEnds isMulticast h n s (readHeader P isMulticast h n s) := by
    intro e r he heq
    rw [heq]
    exact he
  have hunfold := congrFun (readHeader_eq P isMulticast h hbuf) s
  rcases readOr_cases P .ioerr n s with ⟨name, r, rfl, rfl, hname⟩ | ⟨r, hname⟩
  · rw [bind_of_ok hname] at hunfold
    match hnumber : headerNumber name with
    | none =>
      rw [hnumber] at hunfold
      exact hreturn (by decide) hunfold
    | some i =>
      rw [hnumber] at hunfold
      dsimp only at hunfold
      match hvalue : h.value i with
      | some v =>
        rw [hvalue, if_pos Option.isSome_some] at hunfold
        exact hreturn (by decide) hunfold
      | none =>
        rw [hvalue, if_neg (Bool.eq_false_iff.mp Option.isSome_none)] at hunfold
        rcases readOr_cases P .failed 2 r with ⟨size, r₁, rfl, hlen, hsize⟩ | ⟨r₁, hsize⟩
        · rw [bind_of_ok hsize] at hunfold
          rcases readOr_cases P .failed (ofBigEndian size) r₁ with
            ⟨value, rest, rfl, hval, hread⟩ | ⟨r₂, hread⟩
          · have hlt : value.length < 65536 := by
              have hbound := ofBigEndian_lt size
              rw [hlen] at hbound
              omega
            have hbytes : bigEndian 2 value.length = size := by
              rw [hval, ← hlen]
              exact bigEndian_ofBigEndian size
            have hs : name ++ (size ++ (value ++ rest)) =
                name ++ (bigEndian 2 value.length ++ value) ++ rest := by
              rw [hbytes, append_assoc, append_assoc]
            by_cases hcount : i < headerCount isMulticast
            · rw [bind_of_ok hread, if_neg (by omega)] at hunfold
              rw [hunfold]
              exact ⟨name, value, i, rfl, hlt, hnumber, hcount, hvalue, rfl, hs⟩
            · have hfits : Fits name value :=
                ⟨fun hnil => hpos (by rw [hnil]; rfl), hn, hlt⟩
              rw [hs, readHeader_stray hfits hnumber hvalue (Nat.not_lt.mp hcount) rest]
              split
              next => exact nofun
              next hmissing =>
                exact ⟨Bool.eq_false_iff.mpr hmissing, name, value, i, rest, rfl, hlt, hnumber,
                  Nat.not_lt.mp hcount, rfl⟩
          · rw [bind_of_exit hread] at hunfold
            exact hreturn (by decide) hunfold
        · rw [bind_of_exit hsize] at hunfold
          exact hreturn (by decide) hunfold
  · rw [bind_of_exit hname] at hunfold
    exact hreturn (by decide) hunfold

/-- How the loop ends: behind an opening that is complete, or in front of a header that it does not
expect while something is missing. -/
def Ends (isMulticast : Bool) (stream : List Byte) (r : Result Byte Status Headers) : Prop :=
  match r with
  | .ok h rest => ∃ items, Opening isMulticast items ∧ Complete isMulticast items ∧ Has h items ∧
      stream = items.flatMap itemBytes ++ 0 :: rest
  | .exit e _ => e ≠ .success
  | .fault _ => isMulticast = false ∧ ∃ items name value rest, Opening isMulticast items ∧
      ¬ Complete isMulticast items ∧ Fits name value ∧ headerNumber name = some 2 ∧
      stream = items.flatMap itemBytes ++ (headerBytes name value ++ rest)

theorem readHeaders_outcome (hopening : Opening isMulticast items) (hhas : Has h items)
    {turns : Nat} {s : List Byte} (hturns : s.length < turns) :
    Ends isMulticast (items.flatMap itemBytes ++ s) (readHeaders P isMulticast turns h s) := by
  induction turns generalizing h items s with
  | zero => exact absurd hturns (Nat.not_lt_zero _)
  | succ turns ih =>
    rw [readHeaders_succ]
    rcases readOr_cases P .ioerr 1 s with ⟨bs, r, rfl, hlen, hread⟩ | ⟨r, hread⟩
    · obtain ⟨b, rfl⟩ := length_eq_one_iff.mp hlen
      have hlt : r.length < turns := by
        rw [length_append] at hturns
        simp at hturns
        omega
      have hbyte : ofBigEndian [b] = b.toNat := by simp [ofBigEndian]
      rw [bind_of_ok hread, hbyte]
      by_cases hzero : b.toNat = 0
      · obtain rfl : b = 0 := UInt8.toNat_inj.mp hzero
        rw [if_pos hzero]
        by_cases hcomplete : h.complete isMulticast = true
        · rw [if_pos hcomplete]
          exact ⟨items, hopening, (hhas.complete isMulticast).mp hcomplete, hhas, rfl⟩
        · rw [if_neg hcomplete]
          have hnext := ih (hopening.empty fun hc => hcomplete ((hhas.complete isMulticast).mpr hc))
            hhas.empty hlt
          rwa [flatMap_concat] at hnext
      · rw [if_neg hzero]
        have hends := readHeader_ends P isMulticast h hzero b.toNat_lt r
        have hfits : ∀ {name value : List Byte}, name.length = b.toNat → value.length < 65536 →
            Fits name value ∧ ∀ rest, [b] ++ (name ++ (bigEndian 2 value.length ++ value) ++ rest) =
              headerBytes name value ++ rest := by
          intro name value hname hvalue
          refine ⟨⟨?_, by rw [hname]; exact b.toNat_lt, hvalue⟩, fun rest => ?_⟩
          · intro hnil
            rw [hnil] at hname
            exact hzero hname.symm
          · rw [headerBytes, hname, UInt8.ofNat_toNat]
            rfl
        cases hturn : readHeader P isMulticast h b.toNat r with
        | ok h' rest =>
          rw [hturn] at hends
          obtain ⟨name, value, i, hname, hvalue, hnumber, hcount, hnew, rfl, rfl⟩ := hends
          obtain ⟨hfits, hbytes⟩ := hfits hname hvalue
          rw [bind_of_ok hturn]
          have hopening' : Opening isMulticast (items ++ [some (name, value)]) := by
            refine hopening.header hfits hnumber hcount fun name' value' hmem hnumber' => ?_
            have hsome := (hhas i (headerNumber_lt hnumber) value').mpr ⟨name', hmem, hnumber'⟩
            rw [hnew] at hsome
            cases hsome
          have hrest : rest.length < turns := by
            rw [length_append] at hlt
            omega
          have hnext := ih hopening' (hhas.header hnumber hnew) hrest
          rw [flatMap_concat] at hnext
          rwa [hbytes]
        | exit e rest =>
          rw [hturn] at hends
          rw [bind_of_exit hturn]
          exact hends
        | fault g =>
          rw [hturn] at hends
          obtain ⟨hmissing, name, value, i, rest, hname, hvalue, hnumber, hcount, rfl⟩ := hends
          obtain ⟨hfits, hbytes⟩ := hfits hname hvalue
          rw [bind_of_fault hturn, hbytes]
          have hlt := headerNumber_lt hnumber
          have hincomplete : ¬ Complete isMulticast items := by
            intro hc
            rw [(hhas.complete isMulticast).mpr hc] at hmissing
            cases hmissing
          cases isMulticast with
          | true => exact absurd hcount (Nat.not_le.mpr hlt)
          | false =>
            have hi : i = 2 := by
              have hle : 2 ≤ i := hcount
              omega
            exact ⟨rfl, items, name, value, rest, hopening, hincomplete, hfits, hi ▸ hnumber, rfl⟩
    · rw [bind_of_exit hread]
      intro hioerr
      cases hioerr

theorem readHeaders_skip (hmissing : ¬ h.complete isMulticast = true) (turns : Nat)
    (rest : List Byte) :
    readHeaders P isMulticast (turns + 1) h (0 :: rest) =
      readHeaders P isMulticast turns h rest := by
  rw [readHeaders_succ, show (0 : Byte) :: rest = [0] ++ rest from rfl,
    (reads_readOr P .ioerr (length_singleton)).bind_apply,
    if_pos (show ofBigEndian [(0 : Byte)] = 0 from rfl), if_neg hmissing]

/-- The loop goes over every opening. -/
theorem Opening.readHeaders (P : Source Byte Status) (hopening : Opening isMulticast items)
    (tail : List Byte) {turns : Nat} (hturns : (items.flatMap itemBytes ++ tail).length < turns) :
    ∃ turns' h, tail.length < turns' ∧ Has h items ∧
      PacketHeader.readHeaders P isMulticast turns ⟨none, none, none⟩
          (items.flatMap itemBytes ++ tail) =
        PacketHeader.readHeaders P isMulticast turns' h tail := by
  induction hopening generalizing tail with
  | nil => exact ⟨turns, _, hturns, has_nil, rfl⟩
  | empty _ hmissing ih =>
    rw [flatMap_concat] at hturns ⊢
    obtain ⟨turns', h, hlt, hhas, heq⟩ := ih _ hturns
    match turns' with
    | 0 => exact absurd hlt (Nat.not_lt_zero _)
    | turns' + 1 =>
      refine ⟨turns', h, Nat.lt_of_succ_lt_succ hlt, hhas.empty, ?_⟩
      rw [heq]
      exact readHeaders_skip (fun hc => hmissing ((hhas.complete _).mp hc)) turns' tail
  | @header items name value i _ hfits hnumber hcount hnew ih =>
    rw [flatMap_concat] at hturns ⊢
    obtain ⟨turns', h, hlt, hhas, heq⟩ := ih _ hturns
    match turns' with
    | 0 => exact absurd hlt (Nat.not_lt_zero _)
    | turns' + 1 =>
      have hnone : h.value i = none := by
        rw [Option.eq_none_iff_forall_ne_some]
        intro v hv
        obtain ⟨name', hmem, hnumber'⟩ := (hhas _ (headerNumber_lt hnumber) v).mp hv
        exact hnew name' v hmem hnumber'
      refine ⟨turns', h.set i value, ?_, hhas.header hnumber hnone, ?_⟩
      · rw [length_append, itemBytes, length_headerBytes] at hlt
        omega
      · rw [heq]
        exact readHeaders_header P isMulticast turns' tail hfits.nonempty hfits.name hfits.value
          hnumber (by rw [hnone]; rfl) hcount

end Loop

/-! ## what is taken -/

section Taken
variable {isMulticast : Bool} {items : List Item} {headers : List (List Byte × List Byte)}

/-- Where nothing is unclean, an opening that is complete is made of the headers of a packet. -/
theorem Clean.wellFormed (hclean : Clean (headers.map some))
    (hopening : Opening isMulticast (headers.map some))
    (hcomplete : Complete isMulticast (headers.map some)) : WellFormed isMulticast headers := by
  have hitem : ∀ header ∈ headers, some (header.1, header.2) ∈ headers.map some :=
    fun header hmem => mem_map.mpr ⟨header, hmem, rfl⟩
  refine ⟨fun header hmem => ?_, fun header hmem => ?_, ?_, fun header hmem hfull => ?_,
    fun i hi => ?_⟩
  · exact hopening.fits header.1 header.2 (hitem header hmem)
  · exact hclean.full header.1 header.2 (hitem header hmem)
  · have honce := pairwise_map.mp hopening.once
    refine honce.imp_of_mem fun {a b} ha hb hne heq => ?_
    obtain ⟨i, hi⟩ := hclean.full a.1 a.2 (hitem a ha)
    have hi' : InFull b.1 i := by
      unfold InFull at hi ⊢
      rw [hi, heq]
    exact hne a rfl b rfl (hi.headerNumber.trans hi'.headerNumber.symm)
  · exact hclean.length header.1 header.2 (hitem header hmem) hfull.headerNumber
  · obtain ⟨name, value, hmem, hnumber⟩ := hcomplete i hi
    obtain ⟨header, hheader, heq⟩ := mem_map.mp hmem
    cases heq
    obtain ⟨j, hj⟩ := hclean.full name value hmem
    obtain rfl := Option.some.inj (hj.headerNumber.symm.trans hnumber)
    exact ⟨(name, value), hheader, hj⟩

theorem WellFormed.clean (h : WellFormed isMulticast headers) : Clean (headers.map some) := by
  have hitem : ∀ name value, some (name, value) ∈ headers.map some → (name, value) ∈ headers := by
    intro name value hmem
    obtain ⟨header, hheader, heq⟩ := mem_map.mp hmem
    exact Option.some.inj heq ▸ hheader
  refine ⟨fun name value hmem => ?_, by simp, fun name value hmem hnumber => ?_⟩
  · exact h.known (name, value) (hitem name value hmem)
  · obtain ⟨i, hi⟩ := h.known (name, value) (hitem name value hmem)
    obtain rfl := Option.some.inj (hi.headerNumber.symm.trans hnumber)
    exact h.length (name, value) (hitem name value hmem) hi

/-- Items without an empty header are headers. -/
theorem exists_headers (h : none ∉ items) :
    ∃ headers : List (List Byte × List Byte), items = headers.map some := by
  induction items with
  | nil => exact ⟨[], rfl⟩
  | cons item items ih =>
    obtain ⟨headers, rfl⟩ := ih fun hmem => h (mem_cons_of_mem _ hmem)
    match item with
    | none => exact absurd mem_cons_self h
    | some header => exact ⟨header :: headers, rfl⟩

/-- The reader, where the loop goes over an opening that is complete. -/
theorem read_of_opening (P : Source Byte Status) (hopening : Opening isMulticast items)
    (hcomplete : Complete isMulticast items) (rest : List Byte) :
    ∃ name value, some (name, value) ∈ items ∧ headerNumber name = some 1 ∧
      (value.length + 1 < 8 → messagePacketHeaderRead P isMulticast
        (items.flatMap itemBytes ++ 0 :: rest) = .fault .outOfBounds) ∧
      (8 ≤ value.length + 1 → ∃ a, messagePacketHeaderRead P isMulticast
        (items.flatMap itemBytes ++ 0 :: rest) = .ok a rest) := by
  obtain ⟨turns, h, hturns, hhas, heq⟩ := hopening.readHeaders P (0 :: rest) (Nat.lt_succ_self _)
  have hall : h.complete isMulticast = true := (hhas.complete isMulticast).mpr hcomplete
  match turns with
  | 0 => exact absurd hturns (Nat.not_lt_zero _)
  | turns + 1 =>
    rw [readHeaders_empty P isMulticast turns rest hall] at heq
    have hcount : 1 < headerCount isMulticast := by
      match isMulticast with
      | true => decide
      | false => decide
    obtain ⟨name, value, hmem, hnumber⟩ := hcomplete 1 hcount
    have hvalue : h.length = some value := (hhas 1 (by decide) value).mpr ⟨name, hmem, hnumber⟩
    refine ⟨name, value, hmem, hnumber, fun hshort => ?_, fun hlong => ?_⟩
    · unfold messagePacketHeaderRead
      rw [bind_of_ok heq, hvalue]
      dsimp only
      rw [if_pos hshort, crash_apply]
    · refine ⟨(ofBigEndian ((value ++ [0]).take 8), h.source.map CString.ofBuffer), ?_⟩
      unfold messagePacketHeaderRead
      rw [bind_of_ok heq, hvalue]
      dsimp only
      rw [if_neg (Nat.not_lt.mpr hlong), freeValues_eq, if_pos hall]
      rfl

/-- The reader, in front of a source address that is not expected while something is missing. -/
theorem read_of_stray (P : Source Byte Status) {name value : List Byte}
    (hopening : Opening false items) (hmissing : ¬ Complete false items) (hfits : Fits name value)
    (hnumber : headerNumber name = some 2) (rest : List Byte) :
    messagePacketHeaderRead P false (items.flatMap itemBytes ++ (headerBytes name value ++ rest)) =
      .fault .danglingPointer := by
  obtain ⟨turns, h, hturns, hhas, heq⟩ := hopening.readHeaders P (headerBytes name value ++ rest)
    (Nat.lt_succ_self _)
  have hnone : h.value 2 = none := by
    rw [Option.eq_none_iff_forall_ne_some]
    intro v hv
    obtain ⟨name', hmem, hnumber'⟩ := (hhas 2 (by decide) v).mp hv
    exact absurd (hopening.number_lt name' v hmem 2 hnumber') (by decide)
  have hfault : PacketHeader.readHeaders P false turns h (headerBytes name value ++ rest) =
      .fault .danglingPointer := by
    match turns with
    | 0 => exact absurd hturns (Nat.not_lt_zero _)
    | turns + 1 =>
      have hsplit : headerBytes name value ++ rest = [UInt8.ofNat name.length] ++
          (name ++ (bigEndian 2 value.length ++ value) ++ rest) := rfl
      have hbyte : ofBigEndian [UInt8.ofNat name.length] = name.length := by
        simp [ofBigEndian, Nat.mod_eq_of_lt hfits.name]
      have hpos : name.length ≠ 0 :=
        fun hzero => hfits.nonempty (eq_nil_of_length_eq_zero hzero)
      rw [readHeaders_succ, hsplit, (reads_readOr P .ioerr (length_singleton)).bind_apply,
        hbyte, if_neg hpos]
      apply bind_of_fault
      have hcount : headerCount false ≤ 2 := Nat.le_refl 2
      rw [readHeader_stray hfits hnumber hnone hcount rest,
        if_neg fun hc => hmissing ((hhas.complete false).mp hc)]
  rw [hfault] at heq
  unfold messagePacketHeaderRead
  rw [bind_of_fault heq]

end Taken

/-- The reader takes nothing but packet headers, stays within their values and frees what it has
read if and only if what its loop takes at the front of the stream is clean, and a packet that is not a
multicast has no source address in front of its other headers. -/
theorem meets_iff (P : Source Byte Status) (isMulticast : Bool) (stream : List Byte) :
    Meets P isMulticast stream ↔ Sound isMulticast stream := by
  unfold Meets
  constructor
  · intro h
    refine ⟨fun items rest hopening hcomplete heq => ?_,
      fun hcast items name value rest hopening hfits hnumber heq => ?_⟩
    · obtain ⟨name, value, hmem, hnumber, hshort, hlong⟩ :=
        read_of_opening P hopening hcomplete rest
      rw [heq] at h
      by_cases hlength : value.length + 1 < 8
      · rw [hshort hlength] at h
        exact absurd h id
      · obtain ⟨a, hread⟩ := hlong (Nat.not_lt.mp hlength)
        rw [hread] at h
        obtain ⟨headers, hwell, hblock⟩ := h
        rw [block_append] at hblock
        have hfits : ∀ name value, some (name, value) ∈ headers.map some → Fits name value := by
          intro name value hmem
          obtain ⟨header, hheader, hsome⟩ := mem_map.mp hmem
          cases hsome
          exact hwell.fits _ hheader
        rw [itemBytes_inj hopening.fits hfits (append_cancel_right hblock)]
        exact hwell.clean
    · subst hcast
      by_contra hmissing
      rw [heq, read_of_stray P hopening hmissing hfits hnumber rest] at h
      exact h
  · intro ⟨hclean, hstray⟩
    have hopens : Opening isMulticast [] := .nil
    have hends := readHeaders_outcome (P := P) hopens has_nil (Nat.lt_succ_self stream.length)
    match hread : readHeaders P isMulticast (stream.length + 1) ⟨none, none, none⟩ stream with
    | .ok h rest =>
      rw [hread] at hends
      obtain ⟨items, hopening, hcomplete, hhas, heq⟩ := hends
      have hclean' := hclean items rest hopening hcomplete heq
      obtain ⟨name, value, hmem, hnumber, -, hlong⟩ := read_of_opening P hopening hcomplete rest
      have hlength := hclean'.length name value hmem hnumber
      obtain ⟨a, hok⟩ := hlong (by omega)
      obtain ⟨headers, rfl⟩ := exists_headers hclean'.last
      have hstream : stream = (headers.map some).flatMap itemBytes ++ 0 :: rest := heq
      rw [hstream, hok]
      exact ⟨headers, hclean'.wellFormed hopening hcomplete, (block_append headers rest).symm⟩
    | .exit e rest =>
      rw [hread] at hends
      have hexit : messagePacketHeaderRead P isMulticast stream = .exit e rest := bind_of_exit hread
      rw [hexit]
      exact hends
    | .fault g =>
      rw [hread] at hends
      obtain ⟨hcast, items, name, value, rest, hopening, hmissing, hfits, hnumber, heq⟩ := hends
      exact absurd (hstray hcast items name value rest hopening hfits hnumber heq) hmissing

/-- A length of no bytes: the loop for the size reads behind what was allocated. -/
def noLength : List Byte :=
  headerBytes contentType appMsg ++ (headerBytes contentLength [] ++ [0])

theorem not_meets : ¬ ∀ P isMulticast stream, Meets P isMulticast stream := by
  intro h
  have hfault : messagePacketHeaderRead drained false noLength = .fault .outOfBounds := by
    decide +kernel
  have hmeets := h drained false noLength
  unfold Meets at hmeets
  rw [hfault] at hmeets
  exact hmeets

end PacketHeader

end JxtaC
