import JxtaC.Message.Lengths
import JxtaC.Message.MessageReader

/-
  What is written is read back.
  A layout that fits its fields is framed, so that the reader takes it (`layoutV1_framed`,
  `layoutV2_framed`). Conversely what the reader returns comes from a framed message, whose counts
  and lengths are those of its fields; so a message that is read back fits.
-/

namespace JxtaC.Message

open Lib Lib.Stream List
variable {elements : List MessageElement} {table : List CString}

/-! ## what a framed message bounds -/

section Bounds
variable {table : List CString}

theorem length_string_lt {w : WireString} (h : w.Faithful) : w.string.bytes.length < 65536 :=
  Nat.lt_of_le_of_lt (CString.length_ofBuffer_le w.data) (Counted.Faithful.length_lt h)

theorem length_table_lt {h : WireHeader} (hh : h.Faithful) {n : CString} (hn : n ∈ h.table) :
    n.bytes.length < 65536 := by
  rcases mem_cons.mp hn with rfl | hn
  · decide
  rcases mem_cons.mp hn with rfl | hn
  · decide
  obtain ⟨w, hw, rfl⟩ := mem_map.mp hn
  exact length_string_lt (hh.names w hw)

theorem getD_mem_table (h : WireHeader) (i : Nat) : h.table.getD i messageEmptyNs ∈ h.table := by
  by_cases hi : i < h.table.length
  · rw [getD_eq_getElem _ _ hi]
    exact getElem_mem hi
  · rw [getD_eq_default _ _ (Nat.le_of_not_lt hi)]
    exact mem_cons_self

theorem WireElement1.part_fits {h : WireHeader} (hh : h.Faithful) {e : WireElement1}
    (he : e.Faithful) : PartFits (e.part h.table) := by
  refine ⟨length_table_lt hh (getD_mem_table h _), length_string_lt he.name, ?_,
    Counted.Faithful.length_lt he.value⟩
  intro m hm
  obtain ⟨w, hw, rfl⟩ := Option.map_eq_some_iff.mp hm
  exact length_string_lt (he.mimeType w hw)

end Bounds

section Success
variable {Qos : Type} {extract : Option Qos → List Byte → Exec (Option Qos × Status)}
  {stream : InputStream} {msg msg' : Message Qos} {mimeType : Option CString} {s rest : List Byte}

/-- A success comes from a framed message, or has no elements. -/
theorem messageRead_success (hmime : wireMimeOk mimeType = true)
    (h : messageRead stream extract msg mimeType s = .ok (msg', .success, rest)) :
    msg'.elements = [] ∨ ∃ w : WireMessage, w.Framed ∧ w.header.namesCount.val < 65534 ∧
      s = w.bytes ++ rest ∧ takeAll extract (cleared msg) w.contents = .ok (msg', .success) := by
  rcases messageRead_cases stream extract msg mimeType hmime s with
    ⟨w, r, msg₁, hw, hroom, rfl, htake⟩ |
    ⟨w, es, r, msg₁, hw, hroom, hlen, hes, rfl, htake, hblocked⟩ |
    ⟨version, n, r, rfl, hn⟩ | ⟨version, n, r, rfl, hn, hnames⟩ | ⟨msg₁, res, r, hread, hres⟩
  · rw [messageRead_framed hmime hw hroom htake] at h
    cases h
    exact .inr ⟨w, hw, hroom, rfl, htake⟩
  · obtain ⟨f, hfault⟩ := @messageRead_blocked Qos extract stream msg msg₁ mimeType r hmime w hw
      hroom es hes hlen htake hblocked
    rw [hfault] at h
    cases h
  · rw [messageRead_full hmime hn] at h
    cases h
  · obtain ⟨r', hshort⟩ := @messageRead_short Qos extract stream msg mimeType r hmime version n hn
      hnames
    rw [hshort] at h
    cases h
    exact .inl rfl
  · rw [hread] at h
    cases h
    exact absurd rfl hres

end Success

/-! ## version 1 -/

theorem string_wireString (s : CString) : WireString.string (wireString s) = s :=
  CString.ofBuffer_bytes s

theorem table_layoutHeader (version : WireVersion) (names : List CString) (count : Nat) :
    (layoutHeader version (tableOf names) count).table = tableOf names := by
  rw [WireHeader.table, layoutHeader, map_map,
    show WireString.string ∘ wireString = id from funext string_wireString, map_id,
    ← tableOf_eq]

theorem table_layoutV1 (elements : List MessageElement) :
    (layoutV1 elements).header.table = v1NamesTable elements := by
  rw [layoutV1, v1NamesTable_eq, table_layoutHeader]

/-- The flags of a version 1 element. -/
theorem v1Flags_typed (p : Part) (nsid : Nat) :
    (wireElement1 nsid p).flags &&& elmFlag1Type ≠ 0 ↔ (wireElement1 nsid p).mimeType.isSome := by
  rw [wireElement1, Option.isSome_map]
  by_cases h : p.mimeType.isSome
  · simp only [h]
    decide
  · simp only [h]
    decide

/-- A message that version 1 carries: its sizes fit, every namespace has an index of one byte, and
    no element is taken for the QoS. -/
structure CarriedV1 (elements : List MessageElement) : Prop extends FitsV1 elements where
  namespaces : (v1NamesTable elements).length ≤ 256
  plain : ∀ el ∈ elements, el.isQos = false

theorem nsid_toNat (h : (v1NamesTable elements).length ≤ 256) {el : MessageElement}
    (hel : el ∈ elements) :
    (wireElement1 ((v1NamesTable elements).idxOf el.body.ns) el.body).ns.toNat =
        (v1NamesTable elements).idxOf el.body.ns ∧
      (v1NamesTable elements).idxOf el.body.ns < (v1NamesTable elements).length := by
  have hidx := idxOf_lt_length_of_mem (mem_v1NamesTable hel)
  refine ⟨?_, hidx⟩
  rw [wireElement1, UInt8.toNat_ofNat']
  exact Nat.mod_eq_of_lt (Nat.lt_of_lt_of_le hidx h)

theorem layoutV1_framed (h : FitsV1 elements) (htable : (v1NamesTable elements).length ≤ 256) :
    (layoutV1 elements).Framed := by
  have hfaithful := layoutV1_faithful_iff.mpr h
  refine ⟨hfaithful.header, hfaithful.count, ?_⟩
  rw [table_layoutV1]
  have hall := hfaithful.elements
  rw [layoutV1, layoutV1Elements_eq, forall_mem_map] at hall ⊢
  intro el hel
  obtain ⟨hns, hlt⟩ := nsid_toNat htable ((grouped_perm elements).mem_iff.mp hel)
  exact ⟨rfl, ⟨hall el hel, v1Flags_typed _ _⟩, by rw [hns]; exact hlt⟩

/-- Version 1 carries the elements without their signatures. -/
theorem contents_layoutV1 (h : (v1NamesTable elements).length ≤ 256) :
    (layoutV1 elements).contents = (grouped elements).map fun el => ⟨el.body, []⟩ := by
  rw [WireMessage.contents, table_layoutV1, layoutV1, layoutV1Elements_eq, map_map]
  refine map_congr_left fun el hel => ?_
  obtain ⟨hns, hlt⟩ := nsid_toNat h ((grouped_perm elements).mem_iff.mp hel)
  obtain ⟨⟨ns, name, mimeType, value⟩, sigs⟩ := el
  have hstr : ∀ o : Option CString, (o.map wireString).map WireString.string = o := by
    intro o
    cases o with
    | none => rfl
    | some m => exact congrArg some (string_wireString m)
  simp only [Function.comp_apply, WireElement.element, WireElement1.part, hns,
    getD_eq_getElem _ _ hlt, getElem_idxOf]
  simp only [wireElement1, string_wireString, hstr, Counted.data_of]

theorem grouped_unsigned (h : ∀ el ∈ elements, el.sigs = []) :
    ((grouped elements).map fun el => (⟨el.body, []⟩ : MessageElement)) = grouped elements := by
  refine (map_congr_left fun el hel => ?_).trans (map_id _)
  obtain ⟨body, sigs⟩ := el
  obtain rfl : sigs = [] := h _ ((grouped_perm elements).mem_iff.mp hel)
  rfl

section V1
variable {Qos : Type} (extract : Option Qos → List Byte → Exec (Option Qos × Status))
  (stream : InputStream) (qosToXml : Qos → CString)

/-- What is written in version 1 is read back: all of it, and the elements in the order of their
    namespaces in the names table. -/
def RoundTripsV1 (msg : Message Qos) (mimeType : Option CString) : Prop :=
  ∀ (out : OutputStream) (msg' : Message Qos) (bytes : List Byte),
    messageWrite1 qosToXml msg mimeType 0 out = .ok (msg', .success, bytes) →
    ∀ rest, messageRead stream extract ⟨[], none⟩ mimeType (bytes ++ rest) =
      .ok (⟨grouped msg.elements, none⟩, .success, rest)

variable {extract stream qosToXml} {msg : Message Qos} {mimeType : Option CString}

theorem messageWrite1_v1_ok (hqos : msg.qos = none) {out : OutputStream} {msg' : Message Qos}
    {bytes : List Byte}
    (h : messageWrite1 qosToXml msg mimeType 0 out = .ok (msg', .success, bytes)) :
    wireMimeOk mimeType = true ∧ bytes = (layoutV1 msg.elements).bytes := by
  rw [messageWrite1, addQosElement, hqos] at h
  rw [if_pos rfl] at h
  by_cases hmime : wireMimeOk mimeType = true
  · rcases emits_messageWriteV1 out.sink hmime msg.elements [] with hok | ⟨e, o, _, _, hexit, hW⟩
    · rw [hok] at h
      cases h
      exact ⟨hmime, rfl⟩
    · rw [hexit] at h
      cases h
      exact absurd rfl (OutputStream.refused hW)
  · rw [messageWriteV1, if_pos (by simpa using hmime)] at h
    cases h

theorem messageWrite1_v1_acceptAll (hqos : msg.qos = none) (hmime : wireMimeOk mimeType = true) :
    messageWrite1 qosToXml msg mimeType 0 acceptAll =
      .ok (msg, .success, (layoutV1 msg.elements).bytes) := by
  rw [messageWrite1, addQosElement, hqos]
  rw [if_pos rfl, (emits_messageWriteV1 _ hmime _).of_open acceptAll_open]
  rfl

/-- A framed message of version 1 that starts as this layout does bounds what it holds. -/
theorem carriedV1_of_framed {elements : List MessageElement} {w : WireMessage} (hw : w.Framed)
    (hversion : w.header.version.byte = 0)
    (hcontents : grouped elements = w.contents.filter fun el => !el.isQos) :
    CarriedV1 elements := by
  -- every element was read from the fields of a version 1 element
  have hread : ∀ el ∈ elements, el.isQos = false ∧ PartFits el.body ∧
      el.body.ns ∈ w.header.table.take 256 := by
    intro el hel
    have hmem := (grouped_perm elements).mem_iff.mpr hel
    rw [hcontents] at hmem
    obtain ⟨hmem, hqos⟩ := mem_filter.mp hmem
    obtain ⟨e, he, rfl⟩ := mem_map.mp hmem
    refine ⟨by simpa using hqos, ?_⟩
    cases e with
    | v1 e =>
      obtain ⟨-, hframed, hns⟩ := hw.elements _ he
      refine ⟨WireElement1.part_fits hw.header hframed.toFaithful, ?_⟩
      have hlt : e.ns.toNat < 256 := e.ns.toNat_lt
      show w.header.table.getD e.ns.toNat messageEmptyNs ∈ _
      rw [getD_eq_getElem _ _ hns]
      exact mem_take_iff_getElem.mpr ⟨e.ns.toNat, by omega, rfl⟩
    | v2 e => exact absurd hversion (hw.elements _ he).1
  have hlen : elements.length < 65536 := by
    have hle : (grouped elements).length ≤ w.elements.length := by
      rw [hcontents]
      exact (length_filter_le _ _).trans (length_map _).le
    rw [(grouped_perm elements).length_eq, ← hw.count] at hle
    exact Nat.lt_of_le_of_lt hle w.header.elementCount.isLt
  have htable : (v1NamesTable elements).length ≤ 256 := by
    have hsubset : ∀ n ∈ v1NamesTable elements, n ∈ w.header.table.take 256 := by
      intro n hn
      rw [v1NamesTable_eq] at hn
      rcases mem_tableOf.mp hn with rfl | rfl | hn
      · exact mem_cons_self
      · exact mem_cons_of_mem _ mem_cons_self
      · obtain ⟨el, hel, rfl⟩ := mem_map.mp hn
        exact (hread el (mem_reverse.mp hel)).2.2
    have hle := (subperm_of_subset (nodup_v1NamesTable elements) hsubset).length_le
    rw [length_take] at hle
    omega
  exact ⟨⟨by omega, hlen, fun el hel => (hread el hel).2.1⟩, htable, fun el hel => (hread el hel).1⟩

theorem RoundTripsV1.carried (hqos : msg.qos = none)
    (h : RoundTripsV1 extract stream qosToXml msg mimeType) (hmime : wireMimeOk mimeType = true) :
    CarriedV1 msg.elements := by
  by_cases hempty : msg.elements = []
  · rw [hempty]
    exact ⟨⟨by decide, by decide, by simp⟩, by decide, by simp⟩
  have hread := h acceptAll msg _ (messageWrite1_v1_acceptAll hqos hmime) []
  rcases messageRead_success hmime hread with hnone | ⟨w, hw, hroom, heq, htake⟩
  · have hlen := (grouped_perm msg.elements).length_eq
    rw [show grouped msg.elements = [] from hnone] at hlen
    exact absurd (eq_nil_of_length_eq_zero hlen.symm) hempty
  · refine carriedV1_of_framed hw ?_ (takeAll_elements htake)
    simp only [WireMessage.bytes, WireHeader.bytes, append_assoc] at heq
    have hopening := Reads.unique (reads_readOpening (P := stream.toSource) _ _)
      (reads_readOpening (P := stream.toSource) _ _) heq
    exact (congrArg Prod.fst hopening.1).symm

theorem CarriedV1.roundTrips (hqos : msg.qos = none) (hsigs : ∀ el ∈ msg.elements, el.sigs = [])
    (h : wireMimeOk mimeType = true → CarriedV1 msg.elements) :
    RoundTripsV1 extract stream qosToXml msg mimeType := by
  intro out msg' bytes hwrite rest
  obtain ⟨hmime, rfl⟩ := messageWrite1_v1_ok hqos hwrite
  have hc := h hmime
  have hroom : (layoutV1 msg.elements).header.namesCount.val < 65534 := by
    have hle := hc.namespaces
    show ((v1NamesTable msg.elements).length - 2) % 65536 < 65534
    omega
  refine messageRead_framed hmime (layoutV1_framed hc.toFitsV1 hc.namespaces) hroom ?_ rest
  rw [contents_layoutV1 hc.namespaces, grouped_unsigned hsigs]
  exact takeAll_plain fun el hel => hc.plain el ((grouped_perm _).mem_iff.mp hel)

/-- Version 1 is read back exactly if everything fits, there are at most 256 names, and no element
    is taken for the QoS. -/
theorem roundTripsV1_iff (extract : Option Qos → List Byte → Exec (Option Qos × Status))
    (stream : InputStream) (qosToXml : Qos → CString) (msg : Message Qos)
    (mimeType : Option CString) (hqos : msg.qos = none)
    (hsigs : ∀ el ∈ msg.elements, el.sigs = []) :
    RoundTripsV1 extract stream qosToXml msg mimeType ↔
      (wireMimeOk mimeType = true → CarriedV1 msg.elements) :=
  ⟨fun h => h.carried hqos, CarriedV1.roundTrips hqos hsigs⟩

end V1

/-- A source that is empty after a read that fails. -/
def exhausted : InputStream := ⟨.exhausted Byte .ioerr, by decide⟩

/-- `roundTripsV1_iff` at a message of one element. -/
theorem roundTripsV1_iff_one :
    RoundTripsV1 (fun qos _ => .ok (qos, .success)) exhausted (fun _ : Unit => messageEmptyNs)
        ⟨[⟨⟨messageJxtaNs, octetStream, none, [1, 2]⟩, []⟩], none⟩ none ↔
      (wireMimeOk none = true → CarriedV1 [⟨⟨messageJxtaNs, octetStream, none, [1, 2]⟩, []⟩]) :=
  roundTripsV1_iff _ _ _ _ _ rfl (by simp)

/-- The length of a name of 2^16 bytes is written as 0. -/
theorem not_roundTripsV1 :
    ¬ RoundTripsV1 (fun qos _ => .ok (qos, .success)) exhausted (fun _ : Unit => messageEmptyNs)
      ⟨[longNamed], none⟩ none := by
  intro h
  have hfits := (h.carried rfl rfl).parts longNamed mem_cons_self
  have hname := hfits.name
  rw [show longNamed.body.name.bytes = List.replicate 65536 1 from rfl,
    length_replicate] at hname
  omega

/-! ## version 2 -/

theorem WireName.length_string_lt {h : WireHeader} (hh : h.Faithful) {n : WireName}
    (hn : n.Faithful) : (n.string h.table).bytes.length < 65536 := by
  cases n with
  | token idx => exact length_table_lt hh (getD_mem_table h idx.val)
  | literal name => exact JxtaC.Message.length_string_lt hn

/-- The strings of a part that was read are short; its value may have a length of 64 bits. -/
theorem WirePart.strings_fit {h : WireHeader} (hh : h.Faithful) {p : WirePart} (hp : p.Faithful) :
    (p.part h.table).ns.bytes.length < 65536 ∧ (p.part h.table).name.bytes.length < 65536 ∧
      ∀ m ∈ (p.part h.table).mimeType, m.bytes.length < 65536 := by
  refine ⟨WireName.length_string_lt hh hp.ns, ?_, ?_⟩
  · obtain ⟨flags, ns, name, mimeType, value⟩ := p
    cases name with
    | inl name => exact length_string_lt hp.name
    | inr name => exact WireName.length_string_lt hh hp.name
  · intro m hm
    obtain ⟨w, hw, rfl⟩ := Option.map_eq_some_iff.mp hm
    exact WireName.length_string_lt hh (hp.mimeType w hw)

section Level
variable {table : List CString} {p : Part}

/-- The level of a chain with a value of its own. -/
def levelWith (table : List CString) (p : Part) (sigs : List Part)
    (value : Counted (lengthWidth (v2Flags p sigs))) : WirePart where
  flags := v2Flags p sigs
  ns := wireName table p.ns
  name := .inl (wireString p.name)
  mimeType := p.mimeType.map (wireName table)
  value := value

theorem string_wireName {n : CString} (h : Registered table n) :
    (wireName table n).string table = n := by
  rw [wireName_of_registered h, WireName.string, getD_eq_getElem _ _ h.1]
  exact getElem_idxOf h.1

theorem wireName_known {n : CString} (h : Registered table n) :
    (wireName table n).Faithful ∧ (wireName table n).Known table := by
  rw [wireName_of_registered h]
  exact ⟨trivial, h.1⟩

theorem levelWith_framed (hname : p.name.bytes.length < 65536)
    (hreg : ∀ n ∈ lookups p, Registered table n) (sigs : List Part)
    {value : Counted (lengthWidth (v2Flags p sigs))} (hvalue : value.Faithful) :
    (levelWith table p sigs value).Framed table := by
  obtain ⟨hsupported, hliteral, htype, -, -⟩ := v2Flags_cases p sigs
  have hmime : ∀ w ∈ p.mimeType.map (wireName table), w.Faithful ∧ w.Known table := by
    intro w hw
    obtain ⟨m, hm, rfl⟩ := Option.map_eq_some_iff.mp hw
    exact wireName_known (hreg m (mem_cons_of_mem _ (Option.mem_toList.mpr hm)))
  have hns := wireName_known (hreg p.ns mem_cons_self)
  exact ⟨⟨hns.1, wireString_faithful_iff.mpr hname, fun w hw => (hmime w hw).1, hvalue⟩,
    hsupported, hns.2, ⟨fun _ => rfl, fun _ => hliteral⟩, trivial,
    htype.trans (by rw [levelWith, Option.isSome_map]), fun w hw => (hmime w hw).2⟩

theorem part_levelWith (hreg : ∀ n ∈ lookups p, Registered table n) (sigs : List Part)
    (value : Counted (lengthWidth (v2Flags p sigs))) :
    (levelWith table p sigs value).part table = { p with value := value.data } := by
  have hmime : (p.mimeType.map (wireName table)).map (WireName.string table) = p.mimeType := by
    cases hm : p.mimeType with
    | none => rfl
    | some m =>
      have hregistered := hreg m (mem_cons_of_mem _ (Option.mem_toList.mpr hm))
      exact congrArg some (string_wireName hregistered)
  rw [WirePart.part, levelWith]
  rw [string_wireName (hreg p.ns mem_cons_self), hmime, Sum.elim_inl, string_wireString]

end Level

/-- A message that version 2 carries: its sizes fit, every name that is looked up is in a table of
    at most 65535 names, and no element is taken for the QoS. -/
structure CarriedV2 (elements : List MessageElement) : Prop extends FitsV2 elements where
  table : (buildV2NamesTable elements).length ≤ 65535
  registered : ∀ n ∈ lookupsOf elements, n ∈ buildV2NamesTable elements
  plain : ∀ el ∈ elements, el.isQos = false

theorem CarriedV2.lookup (h : CarriedV2 elements) :
    ∀ n ∈ lookupsOf elements, Registered (buildV2NamesTable elements) n := by
  intro n hn
  have hidx := idxOf_lt_length_of_mem (h.registered n hn)
  exact ⟨hidx, Nat.lt_of_lt_of_le hidx h.table⟩

theorem table_layoutV2 (elements : List MessageElement) :
    (layoutV2 elements).header.table = buildV2NamesTable elements := by
  rw [layoutV2, buildV2NamesTable_eq, table_layoutHeader]

theorem wirePart_framed {p : Part} (hfits : PartFits p) (hreg : ∀ n ∈ lookups p, Registered table n)
    (sigs : List Part) : (wirePart table p sigs).Framed table := by
  refine levelWith_framed hfits.name hreg sigs (Counted.faithful_of_iff.mpr ?_)
  rw [(v2Flags_cases p sigs).2.2.2.2]
  exact hfits.value

/-- A chain that fits is laid out as a chain that the signature flags tie together. -/
theorem wireSigs_signed (p : Part) (sigs : List Part) (hfits : ∀ q ∈ p :: sigs, PartFits q)
    (hreg : ∀ q ∈ p :: sigs, ∀ n ∈ lookups q, Registered table n) :
    WireElement2.Signed table none (wirePart table p sigs) (wireSigs table sigs) := by
  induction sigs generalizing p with
  | nil =>
    have hsig := (v2Flags_cases p []).2.2.2.1
    refine ⟨wirePart_framed (hfits p mem_cons_self) (hreg p mem_cons_self) [], ?_, ?_⟩
    · exact ⟨fun h => absurd rfl (hsig.mp h), fun h => by cases h⟩
    · exact fun flags h => by cases h
  | cons sig sigs ih =>
    have hsig := (v2Flags_cases p (sig :: sigs)).2.2.2.1
    refine ⟨wirePart_framed (hfits p mem_cons_self) (hreg p mem_cons_self) _, ?_, ?_⟩
    · exact hsig.mpr (cons_ne_nil sig sigs)
    · exact ih sig (fun q hq => hfits q (mem_cons_of_mem p hq))
        fun q hq => hreg q (mem_cons_of_mem p hq)

theorem part_wirePart {p : Part} (sigs : List Part) (hreg : ∀ n ∈ lookups p, Registered table n) :
    (wirePart table p sigs).part table = p :=
  part_levelWith hreg sigs (.of _ p.value)

theorem map_part_wireSigs (sigs : List Part)
    (hreg : ∀ q ∈ sigs, ∀ n ∈ lookups q, Registered table n) :
    (wireSigs table sigs).map (WirePart.part table) = sigs := by
  induction sigs with
  | nil => rfl
  | cons sig sigs ih =>
    rw [wireSigs, map_cons, part_wirePart sigs (hreg sig mem_cons_self),
      ih fun q hq => hreg q (mem_cons_of_mem sig hq)]

section Elements
variable {elements : List MessageElement}

theorem lookups_registered {table : List CString}
    (h : ∀ n ∈ lookupsOf elements, Registered table n) {el : MessageElement} (hel : el ∈ elements) :
    ∀ q ∈ el.body :: el.sigs, ∀ n ∈ lookups q, Registered table n :=
  fun _ hq n hn => h n (mem_lookupsOf hel hq hn)

theorem layoutV2_element_framed {table : List CString}
    (h : ∀ n ∈ lookupsOf elements, Registered table n) {el : MessageElement} (hel : el ∈ elements)
    (hfits : ∀ q ∈ el.body :: el.sigs, PartFits q) :
    (WireElement.v2 (wireElement2 table el)).Framed 1 table :=
  ⟨by decide, wireSigs_signed el.body el.sigs hfits (lookups_registered h hel)⟩

theorem layoutV2_framed
    (hlookup : ∀ n ∈ lookupsOf elements, Registered (buildV2NamesTable elements) n)
    (h : FitsV2 elements) : (layoutV2 elements).Framed := by
  have hreg := firstUnregistered_eq_none_iff.mpr hlookup
  have hfaithful := (layoutV2_faithful_iff hreg).mpr h
  refine ⟨hfaithful.header, hfaithful.count, ?_⟩
  rw [table_layoutV2, layoutV2, forall_mem_map]
  exact fun el hel => layoutV2_element_framed hlookup hel (h.parts el hel)

theorem contents_layoutV2 (h : ∀ n ∈ lookupsOf elements, Registered (buildV2NamesTable elements) n) :
    (layoutV2 elements).contents = elements := by
  rw [WireMessage.contents, table_layoutV2, layoutV2, map_map]
  refine (map_congr_left fun el hel => ?_).trans (map_id _)
  have hreg := lookups_registered h hel
  rw [Function.comp_apply, WireElement.element, wireElement2,
    part_wirePart _ (hreg _ mem_cons_self),
    map_part_wireSigs _ fun q hq => hreg q (mem_cons_of_mem _ hq), id]

end Elements

section V2
variable {Qos : Type} (extract : Option Qos → List Byte → Exec (Option Qos × Status))
  (stream : InputStream)
variable {table : List CString} {r : List Byte}

/-- What is written in version 2 is read back: all of it, and the same elements. -/
def RoundTripsV2 (mimeType : Option CString) (elements : List MessageElement) : Prop :=
  ∃ bytes, messageWriteV2 acceptAll.sink mimeType elements [] = .ok () bytes ∧
    ∀ rest, messageRead stream extract ⟨[], none⟩ mimeType (bytes ++ rest) =
      .ok (⟨elements, none⟩, .success, rest)

variable {extract stream} {mimeType : Option CString} {elements : List MessageElement}

theorem CarriedV2.roundTrips (hmime : wireMimeOk mimeType = true) (h : CarriedV2 elements) :
    RoundTripsV2 extract stream mimeType elements := by
  have hreg := firstUnregistered_eq_none_iff.mpr h.lookup
  refine ⟨(layoutV2 elements).bytes,
    ((looks_messageWriteV2 hmime elements).emits hreg).of_open acceptAll_open [], fun rest => ?_⟩
  have hroom : (layoutV2 elements).header.namesCount.val < 65534 := by
    have hle := h.table
    show ((buildV2NamesTable elements).length - 2) % 65536 < 65534
    omega
  refine messageRead_framed hmime (layoutV2_framed h.lookup h.toFitsV2) hroom ?_ rest
  rw [contents_layoutV2 h.lookup]
  exact takeAll_plain h.plain

/-- What was written looked all names up. -/
theorem messageWriteV2_ok {bytes : List Byte}
    (h : messageWriteV2 acceptAll.sink mimeType elements [] = .ok () bytes) :
    wireMimeOk mimeType = true ∧
      (∀ n ∈ lookupsOf elements, Registered (buildV2NamesTable elements) n) ∧
      bytes = (layoutV2 elements).bytes := by
  by_cases hmime : wireMimeOk mimeType = true
  swap
  · rw [messageWriteV2, if_pos (by simpa using hmime)] at h
    cases h
  have hlooks := @looks_messageWriteV2 acceptAll mimeType hmime elements
  cases hfirst : firstUnregistered (buildV2NamesTable elements) (lookupsOf elements) with
  | none =>
    rw [(hlooks.emits hfirst).of_open acceptAll_open] at h
    cases h
    exact ⟨hmime, firstUnregistered_eq_none_iff.mp hfirst, rfl⟩
  | some name =>
    have hunregistered : ¬ Registered (buildV2NamesTable elements) name := by
      simpa using find?_some hfirst
    rcases lookupNameToken_not_registered hunregistered with hlookup | hlookup
    · obtain ⟨res, o, hexit, -⟩ := hlooks.refuses name hfirst hlookup []
      rw [hexit] at h
      cases h
    · rw [hlooks.hangs name hfirst hlookup acceptAll_open] at h
      cases h

/-- A level as the reader takes it: up to the announced end of its value. -/
theorem exists_level {p : Part} (sigs : List Part) (hname : p.name.bytes.length < 65536)
    (hreg : ∀ n ∈ lookups p, Registered table n) :
    ∃ (w : WirePart) (extra : List Byte), w.Framed table ∧ w.flags = v2Flags p sigs ∧
      (wirePart table p sigs).bytes = w.bytes ++ extra ∧
      (w.part table = p → extra = [] ∧ p.value.length < 4294967296) := by
  obtain ⟨c, extra, hc, hdata, hbytes, hfit⟩ :=
    Counted.exists_cut (lengthWidth (v2Flags p sigs)) p.value
  refine ⟨levelWith table p sigs c, extra, levelWith_framed hname hreg sigs hc, rfl, ?_, ?_⟩
  · simp only [WirePart.bytes, WirePart.fields, wirePart, levelWith, hbytes, append_assoc]
  · intro hpart
    rw [part_levelWith hreg sigs c] at hpart
    have hvalue : c.data = p.value := congrArg Part.value hpart
    have hextra : extra = [] := by
      rw [hvalue] at hdata
      exact self_eq_append_right.mp hdata
    refine ⟨hextra, ?_⟩
    have hlt := hfit hextra
    rw [(v2Flags_cases p sigs).2.2.2.2] at hlt
    exact hlt

/-- A value whose length was cut off is not read back. -/
theorem values_fit_of_read {P : Source Byte Status} {fuel : Nat} (p : Part) (sigs : List Part)
    {rest : List Byte} (hname : ∀ q ∈ p :: sigs, q.name.bytes.length < 65536)
    (hreg : ∀ q ∈ p :: sigs, ∀ n ∈ lookups q, Registered table n)
    (h : readV2Element P table fuel ((wirePart table p sigs :: wireSigs table sigs).flatMap
      WirePart.bytes ++ rest) = .ok (some ⟨p, sigs⟩) r) :
    ∀ q ∈ p :: sigs, q.value.length < 4294967296 := by
  induction sigs generalizing p fuel r with
  | nil =>
    obtain ⟨w, extra, hw, hflags, hbytes, hfit⟩ :=
      exists_level [] (hname p mem_cons_self) (hreg p mem_cons_self)
    have hsig := (v2Flags_cases p []).2.2.2.1
    cases fuel with
    | zero => cases h
    | succ fuel =>
      rw [wireSigs, flatMap_singleton, hbytes, append_assoc, readV2Element_part hw,
        hflags, if_neg (fun hne => hsig.mp hne rfl)] at h
      injection h with hel
      injection hel with hel
      injection hel with hpart
      intro q hq
      rw [mem_singleton.mp hq]
      exact (hfit hpart).2
  | cons sig sigs ih =>
    obtain ⟨w, extra, hw, hflags, hbytes, hfit⟩ :=
      exists_level (sig :: sigs) (hname p mem_cons_self) (hreg p mem_cons_self)
    have hsig := (v2Flags_cases p (sig :: sigs)).2.2.2.1
    cases fuel with
    | zero => cases h
    | succ fuel =>
      rw [flatMap_cons, hbytes, append_assoc, append_assoc, readV2Element_part hw,
        hflags, if_pos (hsig.mpr (cons_ne_nil sig sigs))] at h
      obtain ⟨o, s₁, hread, hnew⟩ := bind_ok_iff.mp h
      rw [newElement_read] at hnew
      injection hnew with hel hr
      injection hel with hel
      injection hel with hpart hsigs
      obtain ⟨rfl, hvalue⟩ := hfit hpart
      obtain rfl : o = some ⟨sig, sigs⟩ := by
        cases o with
        | none => cases hsigs
        | some el =>
          obtain ⟨body, more⟩ := el
          cases hsigs
          rfl
      intro q hq
      rcases mem_cons.mp hq with rfl | hq
      · exact hvalue
      · exact ih sig (fun q hq => hname q (mem_cons_of_mem p hq))
          (fun q hq => hreg q (mem_cons_of_mem p hq)) hread q hq

/-- Elements that are read back from where they were written have values that fit. -/
theorem values_fit_of_elements (P : Source Byte Status) {h : Header} (hversion : h.version = 1)
    {es : List WireElement} (hes : ∀ e ∈ es, e.Framed h.version h.table)
    {els : List MessageElement} (hels : es.map (WireElement.element h.table) = els)
    (hstrings : ∀ el ∈ els, ∀ q ∈ el.body :: el.sigs, q.ns.bytes.length < 65536 ∧
      q.name.bytes.length < 65536 ∧ ∀ m ∈ q.mimeType, m.bytes.length < 65536)
    (hreg : ∀ el ∈ els, ∀ q ∈ el.body :: el.sigs, ∀ n ∈ lookups q, Registered h.table n)
    {r' : List Byte} (heq : (els.map fun el => WireElement.v2 (wireElement2 h.table el)).flatMap
      WireElement.bytes ++ r = es.flatMap WireElement.bytes ++ r') :
    ∀ el ∈ els, ∀ q ∈ el.body :: el.sigs, PartFits q := by
  induction es generalizing els with
  | nil =>
    obtain rfl : els = [] := hels.symm
    exact fun el hel => absurd hel not_mem_nil
  | cons e es ih =>
    obtain ⟨el, els, rfl⟩ : ∃ el els', els = el :: els' := ⟨_, _, hels.symm⟩
    injection hels with hel hels
    simp only [map_cons, flatMap_cons, append_assoc] at heq
    have he := hes e mem_cons_self
    have hread := reads_readElement (P := P) he (es.flatMap WireElement.bytes ++ r')
    rw [← heq, hel] at hread
    have hlevels : (WireElement.v2 (wireElement2 h.table el)).bytes =
        (wirePart h.table el.body el.sigs :: wireSigs h.table el.sigs).flatMap
          WirePart.bytes := by
      simp [WireElement.bytes, WireElement2.bytes, wireElement2, WireElement2.cutBytes]
    have hvalues : ∀ q ∈ el.body :: el.sigs, q.value.length < 4294967296 := by
      unfold readElement at hread
      rw [if_neg (by rw [hversion]; decide), hlevels] at hread
      exact values_fit_of_read el.body el.sigs
        (fun q hq => (hstrings el mem_cons_self q hq).2.1) (hreg el mem_cons_self) hread
    have hfits : ∀ q ∈ el.body :: el.sigs, PartFits q := fun q hq =>
      ⟨(hstrings el mem_cons_self q hq).1, (hstrings el mem_cons_self q hq).2.1,
        (hstrings el mem_cons_self q hq).2.2, hvalues q hq⟩
    have hframed : (WireElement.v2 (wireElement2 h.table el)).Framed h.version h.table :=
      ⟨by rw [hversion]; decide, wireSigs_signed el.body el.sigs hfits (hreg el mem_cons_self)⟩
    have hrest := (Reads.unique (reads_readElement (P := P) hframed) (reads_readElement he) heq).2
    have htail := ih (fun e' he' => hes e' (mem_cons_of_mem e he')) hels
      (fun el' hel' => hstrings el' (mem_cons_of_mem el hel'))
      (fun el' hel' => hreg el' (mem_cons_of_mem el hel')) hrest
    intro el' hel'
    rcases mem_cons.mp hel' with rfl | hel'
    · exact hfits
    · exact htail el' hel'

/-- All parts of a chain are framed. -/
theorem WireElement2.Signed.framed {cut : Option Byte} {p : WirePart} {sigs : List WirePart}
    (h : Signed table cut p sigs) : ∀ q ∈ p :: sigs, q.Framed table := by
  induction sigs generalizing p with
  | nil =>
    intro q hq
    rw [mem_singleton.mp hq]
    exact h.1
  | cons sig sigs ih =>
    intro q hq
    rcases mem_cons.mp hq with rfl | hq
    · exact h.1
    · exact ih h.2.2 q hq

/-- The table of version 2 has at most one name behind the tokens: the type of elements that have
    none. -/
theorem length_table_le (h : ∀ n ∈ lookupsOf elements, Registered (buildV2NamesTable elements) n) :
    (buildV2NamesTable elements).length ≤ 65536 := by
  have hnodup : (buildV2NamesTable elements).Nodup := by
    rw [buildV2NamesTable_eq]
    exact nodup_tableOf _
  have hlate : ∀ n ∈ buildV2NamesTable elements, 65535 ≤ (buildV2NamesTable elements).idxOf n →
      n = octetStream := by
    intro n hn hle
    have hdefault : n ≠ messageEmptyNs ∧ n ≠ messageJxtaNs := by
      constructor <;> rintro rfl <;> rw [buildV2NamesTable_eq, tableOf_eq] at hle
      · rw [idxOf_cons_self] at hle
        omega
      · rw [idxOf_cons_ne _ (by decide), idxOf_cons_self] at hle
        omega
    rw [buildV2NamesTable_eq] at hn
    obtain ⟨el, hel, hn⟩ := mem_flatMap.mp
      (((mem_tableOf.mp hn).resolve_left hdefault.1).resolve_left hdefault.2)
    rcases exists_lookup_of_mem_namesOf hn with heq | ⟨p, hp, hlookup⟩
    · exact heq
    · have hlt := (h n (mem_lookupsOf (mem_reverse.mp hel) hp hlookup)).2
      omega
  by_contra hlen
  have hget : ∀ i (hi : i < (buildV2NamesTable elements).length), 65535 ≤ i →
      (buildV2NamesTable elements).idxOf octetStream = i := by
    intro i hi hle
    have hidx := hnodup.idxOf_getElem i hi
    rw [← hlate _ (getElem_mem hi) (by rw [hidx]; exact hle)]
    exact hidx
  have hfirst := hget 65535 (by omega) (Nat.le_refl _)
  have hsecond := hget 65536 (by omega) (by omega)
  omega

/-- The strings of the elements that were read. -/
theorem strings_of_framed {w : WireMessage} (hw : w.Framed)
    (hversion : w.header.version.byte = 1) {el : MessageElement} (hel : el ∈ w.contents) :
    ∀ q ∈ el.body :: el.sigs, q.ns.bytes.length < 65536 ∧ q.name.bytes.length < 65536 ∧
      ∀ m ∈ q.mimeType, m.bytes.length < 65536 := by
  obtain ⟨e, he, rfl⟩ := mem_map.mp hel
  cases e with
  | v1 e =>
    have hzero := (hw.elements _ he).1
    rw [hversion] at hzero
    cases hzero
  | v2 e =>
    intro q hq
    rw [WireElement.element] at hq
    obtain ⟨p, hp, rfl⟩ : ∃ p ∈ e.head :: e.sigs, p.part w.header.table = q :=
      mem_map.mp hq
    exact WirePart.strings_fit hw.header ((hw.elements _ he).2.framed p hp).toFaithful

theorem carriedV2_of_framed (P : Source Byte Status) {w : WireMessage} (hw : w.Framed)
    (hroom : w.header.namesCount.val < 65534)
    (hreg : ∀ n ∈ lookupsOf elements, Registered (buildV2NamesTable elements) n) {r' : List Byte}
    (heq : (layoutV2 elements).bytes ++ r = w.bytes ++ r')
    (hcontents : elements = w.contents.filter fun el => !el.isQos) : CarriedV2 elements := by
  have hopening := heq
  simp only [WireMessage.bytes, WireHeader.bytes, append_assoc] at hopening
  obtain ⟨hpair, -⟩ := Reads.unique (reads_readOpening (P := P) _ _)
    (reads_readOpening (P := P) _ _) hopening
  have hversion : w.header.version.byte = 1 := (congrArg Prod.fst hpair).symm
  have hsize : ((buildV2NamesTable elements).length - 2) % 65536 + 2 =
      ((layoutV2 elements).header.namesCount.val + 2) := rfl
  have hcount : ((layoutV2 elements).header.namesCount.val + 2) % 65536 =
      (w.header.namesCount.val + 2) % 65536 := congrArg Prod.snd hpair
  have htable : (buildV2NamesTable elements).length ≤ 65535 := by
    have hle := length_table_le hreg
    omega
  have hread : ∀ el ∈ elements, el ∈ w.contents ∧ el.isQos = false := by
    intro el hel
    rw [hcontents] at hel
    obtain ⟨hmem, hqos⟩ := mem_filter.mp hel
    exact ⟨hmem, by simpa using hqos⟩
  have hstrings : ∀ el ∈ elements, ∀ q ∈ el.body :: el.sigs, q.ns.bytes.length < 65536 ∧
      q.name.bytes.length < 65536 ∧ ∀ m ∈ q.mimeType, m.bytes.length < 65536 :=
    fun el hel => strings_of_framed hw hversion (hread el hel).1
  have hlength : elements.length < 65536 := by
    have hle : elements.length ≤ w.elements.length := by
      rw [hcontents]
      exact (length_filter_le _ _).trans (length_map _).le
    rw [← hw.count] at hle
    exact Nat.lt_of_le_of_lt hle w.header.elementCount.isLt
  -- the header is laid out faithfully, so that both begin with the same
  have hheader : (layoutV2 elements).header.Faithful := by
    have hiff := @layoutHeader_faithful_iff .v2 (elements.reverse.flatMap namesOf)
      elements.length
    rw [← buildV2NamesTable_eq] at hiff
    refine hiff.mpr ⟨by omega, fun n hn => ?_⟩
    obtain ⟨el, hel, hn⟩ := mem_flatMap.mp hn
    refine namesOf_short (fun p hp n hn => ?_) hn
    have hshort := hstrings el (mem_reverse.mp hel) p hp
    rcases mem_lookups.mp hn with rfl | hm
    · exact hshort.1
    · exact hshort.2.2 n hm
  have hbytes := heq
  rw [WireMessage.bytes, WireMessage.bytes, append_assoc, append_assoc] at hbytes
  obtain ⟨hsame, hrest⟩ := Reads.unique
    (reads_readHeader (P := P) hheader (by omega)) (reads_readHeader hw.header hroom) hbytes
  have hsameTable : buildV2NamesTable elements = w.header.table := by
    rw [← table_layoutV2]
    exact congrArg Header.table hsame
  have hsameCount : elements.length % 65536 = w.header.elementCount.val :=
    congrArg Header.elementCount hsame
  have hall : w.contents = elements := by
    have hfull : (w.contents.filter fun el => !el.isQos).length = w.contents.length := by
      rw [← hcontents, WireMessage.contents, length_map, ← hw.count, ← hsameCount]
      exact (Nat.mod_eq_of_lt hlength).symm
    rw [filter_eq_self.mpr (length_filter_eq_length_iff.mp hfull)] at hcontents
    exact hcontents.symm
  have hfits : ∀ el ∈ elements, ∀ q ∈ el.body :: el.sigs, PartFits q := by
    rw [layoutV2, hsameTable] at hrest
    rw [hsameTable] at hreg
    exact values_fit_of_elements P (h := w.header.header) hversion hw.elements hall hstrings
      (fun el hel => lookups_registered hreg hel) hrest
  exact ⟨⟨by omega, hlength, hfits⟩, htable, fun n hn => (hreg n hn).mem,
    fun el hel => (hread el hel).2⟩

theorem RoundTripsV2.carried (h : RoundTripsV2 extract stream mimeType elements) :
    wireMimeOk mimeType = true ∧ CarriedV2 elements := by
  obtain ⟨bytes, hwrite, hread⟩ := h
  obtain ⟨hmime, hreg, rfl⟩ := messageWriteV2_ok hwrite
  refine ⟨hmime, ?_⟩
  rcases messageRead_success hmime (hread []) with hnone | ⟨w, hw, hroom, heq, htake⟩
  · obtain rfl : elements = [] := hnone
    exact ⟨⟨by decide, by decide, by simp⟩, by decide, by decide, by simp⟩
  · exact carriedV2_of_framed stream.toSource hw hroom hreg heq (takeAll_elements htake)

/-- Version 2 is read back exactly if everything fits, all names that are looked up are in a table
    of at most 65535 names, and no element is taken for the QoS. -/
theorem roundTripsV2_iff (extract : Option Qos → List Byte → Exec (Option Qos × Status))
    (stream : InputStream) (mimeType : Option CString) (elements : List MessageElement) :
    RoundTripsV2 extract stream mimeType elements ↔
      wireMimeOk mimeType = true ∧ CarriedV2 elements :=
  ⟨fun h => h.carried, fun h => h.2.roundTrips h.1⟩

end V2

/-- An element with a signature, and a signature of that in a namespace of its own. -/
def countersigned : MessageElement :=
  ⟨⟨messageEmptyNs, messageEmptyNs, none, []⟩,
    [⟨messageEmptyNs, messageEmptyNs, none, []⟩, ⟨textXml, messageEmptyNs, none, []⟩]⟩

/-- The names of a signature's signature are not in the names table, so that it is not written. -/
theorem not_roundTripsV2 :
    ¬ RoundTripsV2 (fun qos _ => .ok (qos, .success) : Option Unit → _ → _) exhausted none
      [countersigned] := by
  intro h
  have hns := h.carried.2.registered textXml (by decide)
  exact absurd hns (by decide)

end JxtaC.Message
