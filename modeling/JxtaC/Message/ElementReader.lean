import JxtaC.Message.Wire

/-
  The reader against the wire formats, function by function.
  `reads_*`: the function takes the bytes of a field and returns what the field holds. `*_ok`: what
  it returned was read from such bytes. `leaves_*`: it does not fault, and leaves with an error.
-/

namespace JxtaC.Message

open Lib Lib.Stream List

variable {P : Source Byte Status} {s r : List Byte} {table : List CString}
variable {α : Type} {x : Action Byte Status (Option CString)} {E : Status → Prop} {str : CString}
variable {flags : Byte} {p : WirePart} {fuel : Nat}

/-- Not success. -/
def IsError (res : Status) : Prop := res ≠ .success

/-! ## bytes and strings -/

theorem reads_byteRead (P : Source Byte Status) (b : Byte) : Reads (byteRead P) [b] b := by
  intro rest
  exact (reads_readAll P (rfl : [b].length = 1)).bind_apply rest

theorem byteRead_ok {b : Byte} (h : byteRead P s = .ok b r) : s = b :: r := by
  obtain ⟨bs, s₁, hbs, hpure⟩ := bind_ok_iff.mp h
  obtain ⟨rfl, hlen⟩ := readAll_ok hbs
  obtain ⟨b', rfl⟩ := length_eq_one_iff.mp hlen
  cases hpure
  rfl

theorem leaves_byteRead (hP : IsError P.err) (s : List Byte) : Leaves IsError (byteRead P) s :=
  (leaves_readAll hP 1 s).bind fun bs r _ => leaves_pure (bs.headD 0) r

theorem reads_afterMagic {x : Action Byte Status α} {bs : List Byte} {a : α} (magic : List Byte)
    (h : Reads x bs a) : Reads (afterMagic P magic x) (magic ++ bs) a := by
  refine (reads_readAll P rfl).bind ?_
  rw [if_neg (fun hne => hne rfl)]
  exact h

theorem afterMagic_ok {x : Action Byte Status α} {a : α} {magic : List Byte}
    (h : afterMagic P magic x s = .ok a r) : ∃ s₁, s = magic ++ s₁ ∧ x s₁ = .ok a r := by
  obtain ⟨bs, s₁, hbs, hx⟩ := bind_ok_iff.mp h
  obtain ⟨rfl, -⟩ := readAll_ok hbs
  by_cases hmagic : bs = magic
  · rw [if_neg (not_not_intro hmagic)] at hx
    exact ⟨s₁, by rw [hmagic], hx⟩
  · rw [if_pos hmagic] at hx
    cases hx

theorem leaves_afterMagic {x : Action Byte Status α} (hP : IsError P.err) (magic s : List Byte)
    (h : ∀ s₁, s = magic ++ s₁ → Leaves IsError x s₁) :
    Leaves IsError (afterMagic P magic x) s := by
  refine (leaves_readAll hP magic.length s).bind fun bs r hok => ?_
  obtain ⟨rfl, -⟩ := readAll_ok hok
  by_cases hmagic : bs = magic
  · rw [if_neg (not_not_intro hmagic)]
    exact h r (by rw [hmagic])
  · rw [if_pos hmagic]
    exact leaves_leave (fun h => by cases h) r

theorem reads_orElse {bs : List Byte} {a : CString} (e : Status) (h : Reads x bs (some a)) :
    Reads (orElse e x) bs a := by
  intro rest
  exact h.bind_apply rest

theorem orElse_ok {e : Status} {a : CString} (h : orElse e x s = .ok a r) :
    x s = .ok (some a) r := by
  obtain ⟨o, s₁, hx, ho⟩ := bind_ok_iff.mp h
  cases o with
  | none => cases ho
  | some str =>
    cases ho
    exact hx

theorem leaves_orElse {e : Status} (he : E e) (h : Leaves E x s) : Leaves E (orElse e x) s :=
  h.bind fun o r _ => by
    cases o with
    | none => exact leaves_leave he r
    | some str => exact leaves_pure str r

theorem reads_stringRead {w : WireString} (h : w.Faithful) :
    Reads (stringRead P) w.bytes (some w.string) := by
  refine (reads_read P w.length.length_bytes).bind ?_
  rw [show w.data = w.data ++ [] from (append_nil _).symm]
  refine (reads_read P ?_).bind (reads_pure _)
  rw [CountField.ofBigEndian_bytes]
  exact h.symm

theorem stringRead_ok (h : stringRead P s = .ok (some str) r) :
    ∃ w : WireString, w.Faithful ∧ s = w.bytes ++ r ∧ w.string = str := by
  obtain ⟨len, s₁, hlen, h₁⟩ := bind_ok_iff.mp h
  rcases CountField.of_read hlen with ⟨n, rfl, rfl⟩ | rfl
  · obtain ⟨data, s₂, hdata, h₂⟩ := bind_ok_iff.mp h₁
    rcases read_ok hdata with ⟨bs, rfl, rfl, hbs⟩ | ⟨rfl, -⟩
    · cases h₂
      rw [CountField.ofBigEndian_bytes] at hbs
      exact ⟨⟨n, bs⟩, hbs.symm, by rw [Counted.bytes, append_assoc], rfl⟩
    · cases h₂
  · cases h₁

theorem leaves_stringRead (s : List Byte) : Leaves E (stringRead P) s :=
  (leaves_read P 2 s).bind fun len s₁ _ => by
    cases len with
    | none => exact leaves_pure none s₁
    | some len =>
      refine (leaves_read P _ s₁).bind fun data s₂ _ => ?_
      cases data with
      | none => exact leaves_pure none s₂
      | some data => exact leaves_pure _ s₂

/-! ## names -/

theorem reads_nameRead {w : WireName} (h : w.Faithful) (hknown : w.Known table) :
    Reads (nameRead P table) w.bytes (some (w.string table)) := by
  cases w with
  | token idx =>
    have hlt : idx.val < 65535 := idx.isLt
    have hidx : ofBigEndian (bigEndian 2 idx.val) = idx.val := by
      rw [ofBigEndian_bigEndian]
      exact Nat.mod_eq_of_lt (by omega)
    intro rest
    refine ((reads_read P (length_bigEndian 2 idx.val)).bind_apply rest).trans ?_
    show (if ofBigEndian (bigEndian 2 idx.val) = namesLiteralIdx then stringRead P
      else pure table[ofBigEndian (bigEndian 2 idx.val)]?) rest = _
    rw [hidx, if_neg (by unfold namesLiteralIdx; omega), pure_apply,
      getElem?_eq_getElem hknown, WireName.string, getD_eq_getElem _ _ hknown]
  | literal name =>
    refine (reads_read P (length_bigEndian 2 namesLiteralIdx)).bind ?_
    dsimp only
    rw [ofBigEndian_bigEndian]
    exact reads_stringRead h

theorem nameRead_ok (h : nameRead P table s = .ok (some str) r) :
    ∃ w : WireName, w.Faithful ∧ w.Known table ∧ s = w.bytes ++ r ∧ w.string table = str := by
  obtain ⟨idx, s₁, hidx, h₁⟩ := bind_ok_iff.mp h
  rcases CountField.of_read hidx with ⟨n, rfl, rfl⟩ | rfl
  · dsimp only at h₁
    rw [CountField.ofBigEndian_bytes] at h₁
    by_cases hn : n.val = namesLiteralIdx
    · rw [if_pos hn] at h₁
      obtain ⟨w, hw, rfl, rfl⟩ := stringRead_ok h₁
      refine ⟨.literal w, hw, trivial, ?_, rfl⟩
      rw [WireName.bytes, ← hn, append_assoc]
      rfl
    · rw [if_neg hn] at h₁
      have hlt : n.val < 65535 := Nat.lt_of_le_of_ne (Nat.le_of_lt_succ n.isLt) hn
      obtain ⟨hget, rfl⟩ : table[n.val]? = some str ∧ s₁ = r := by
        injection h₁ with hget hr
        exact ⟨hget, hr⟩
      obtain ⟨hknown, hstr⟩ := List.getElem?_eq_some_iff.mp hget
      refine ⟨.token ⟨n.val, hlt⟩, trivial, hknown, rfl, ?_⟩
      rw [WireName.string, getD_eq_getElem _ _ hknown, hstr]
  · cases h₁

theorem leaves_nameRead (s : List Byte) : Leaves E (nameRead P table) s :=
  (leaves_read P 2 s).bind fun idx s₁ _ => by
    cases idx with
    | none => exact leaves_pure none s₁
    | some idx =>
      dsimp only
      split
      · exact leaves_stringRead s₁
      · exact leaves_pure _ s₁

/-! ## values -/

theorem reads_valueRead {width : Nat} {c : Counted width} (h : c.Faithful) :
    Reads (valueRead P width) c.bytes c.data := by
  refine (c.length.reads P).bind (reads_readAll P ?_)
  rw [CountField.ofBigEndian_bytes]
  exact h.symm

theorem valueRead_ok {width : Nat} {value : List Byte} (h : valueRead P width s = .ok value r) :
    ∃ c : Counted width, c.Faithful ∧ s = c.bytes ++ r ∧ c.data = value := by
  obtain ⟨len, s₁, hlen, h₁⟩ := bind_ok_iff.mp h
  obtain ⟨n, rfl, rfl⟩ := CountField.of_readAll hlen
  obtain ⟨rfl, hval⟩ := readAll_ok h₁
  rw [CountField.ofBigEndian_bytes] at hval
  exact ⟨⟨n, value⟩, hval.symm, by rw [Counted.bytes, append_assoc], rfl⟩

theorem leaves_valueRead (hP : IsError P.err) (width : Nat) (s : List Byte) :
    Leaves IsError (valueRead P width) s :=
  (leaves_readAll hP width s).bind fun _ r _ => leaves_readAll hP _ r

/-! ## elements of version 1 -/

theorem reads_v1MimeTypeRead {o : Option WireString}
    (htyped : flags &&& elmFlag1Type ≠ 0 ↔ o.isSome) (h : ∀ m ∈ o, m.Faithful) :
    Reads (v1MimeTypeRead P flags) (o.elim [] Counted.bytes) (o.map WireString.string) := by
  unfold v1MimeTypeRead
  cases o with
  | none =>
    rw [if_neg (fun hflag => by simpa using htyped.mp hflag)]
    exact reads_pure none
  | some m =>
    rw [if_pos (htyped.mpr rfl)]
    intro rest
    exact (reads_orElse _ (reads_stringRead (h m rfl))).bind_apply rest

theorem v1MimeTypeRead_ok {o : Option CString} (h : v1MimeTypeRead P flags s = .ok o r) :
    ∃ w : Option WireString, (flags &&& elmFlag1Type ≠ 0 ↔ w.isSome) ∧ (∀ m ∈ w, m.Faithful) ∧
      s = w.elim [] Counted.bytes ++ r ∧ w.map WireString.string = o := by
  unfold v1MimeTypeRead at h
  by_cases hflag : flags &&& elmFlag1Type ≠ 0
  · rw [if_pos hflag] at h
    obtain ⟨str, s₁, hstr, hpure⟩ := bind_ok_iff.mp h
    obtain ⟨w, hw, rfl, rfl⟩ := stringRead_ok (orElse_ok hstr)
    cases hpure
    exact ⟨some w, by simp [hflag], fun m hm => (by cases hm; exact hw), rfl, rfl⟩
  · rw [if_neg hflag] at h
    cases h
    exact ⟨none, by simp [hflag], fun m hm => (by cases hm), rfl, rfl⟩

theorem leaves_v1MimeTypeRead (flags : Byte) (s : List Byte) :
    Leaves IsError (v1MimeTypeRead P flags) s := by
  unfold v1MimeTypeRead
  split
  · exact (leaves_orElse (fun h => by cases h) (leaves_stringRead s)).bind fun m r _ =>
      leaves_pure (some m) r
  · exact leaves_pure none s

theorem reads_readV1Fields {e : WireElement1} (h : e.Framed) :
    Reads (readV1Fields P) e.bytes
      ⟨e.ns, e.name.string, e.mimeType.map WireString.string, e.value.data⟩ := by
  refine reads_afterMagic elmMagicSig ?_
  refine (reads_byteRead P e.ns).bind ?_
  refine (reads_byteRead P e.flags).bind ?_
  refine (reads_orElse .ioerr (reads_stringRead h.name)).bind ?_
  refine (reads_v1MimeTypeRead h.typed h.mimeType).bind ?_
  intro rest
  exact (reads_valueRead h.value).bind_apply rest

theorem readV1Fields_ok {fields : V1Fields} (h : readV1Fields P s = .ok fields r) :
    ∃ e : WireElement1, e.Framed ∧ s = e.bytes ++ r ∧
      fields = ⟨e.ns, e.name.string, e.mimeType.map WireString.string, e.value.data⟩ := by
  obtain ⟨s₁, rfl, h₁⟩ := afterMagic_ok h
  obtain ⟨ns, s₂, hns, h₂⟩ := bind_ok_iff.mp h₁
  obtain ⟨flags, s₃, hflags, h₃⟩ := bind_ok_iff.mp h₂
  obtain ⟨name, s₄, hname, h₄⟩ := bind_ok_iff.mp h₃
  obtain ⟨mimeType, s₅, hmime, h₅⟩ := bind_ok_iff.mp h₄
  obtain ⟨value, s₆, hvalue, h₆⟩ := bind_ok_iff.mp h₅
  obtain rfl := byteRead_ok hns
  obtain rfl := byteRead_ok hflags
  obtain ⟨wname, hwname, rfl, rfl⟩ := stringRead_ok (orElse_ok hname)
  obtain ⟨wmime, htyped, hwmime, rfl, rfl⟩ := v1MimeTypeRead_ok hmime
  obtain ⟨wvalue, hwvalue, rfl, rfl⟩ := valueRead_ok hvalue
  cases h₆
  refine ⟨⟨ns, flags, wname, wmime, wvalue⟩, ⟨⟨hwname, hwmime, hwvalue⟩, htyped⟩, ?_, rfl⟩
  simp [WireElement1.bytes, append_assoc]

theorem leaves_readV1Fields (hP : IsError P.err) (s : List Byte) :
    Leaves IsError (readV1Fields P) s :=
  leaves_afterMagic hP elmMagicSig s fun s _ =>
    (leaves_byteRead hP s).bind fun _ s _ =>
    (leaves_byteRead hP s).bind fun flags s _ =>
    (leaves_orElse (fun h => by cases h) (leaves_stringRead s)).bind fun _ s _ =>
    (leaves_v1MimeTypeRead flags s).bind fun _ s _ =>
    (leaves_valueRead hP 4 s).bind fun _ r _ => leaves_pure _ r

theorem readV1Element_bytes {e : WireElement1} (h : e.Framed) (rest : List Byte) :
    readV1Element P table (e.bytes ++ rest) =
      if e.ns.toNat < table.length then .ok ((WireElement.v1 e).element table) rest
      else .fault .outOfBounds := by
  unfold readV1Element
  rw [(reads_readV1Fields h).bind_apply]
  by_cases hns : e.ns.toNat < table.length
  · rw [if_pos hns]
    simp only [getElem?_eq_getElem hns, WireElement.element, WireElement1.part,
      getD_eq_getElem _ _ hns, pure_apply]
  · rw [if_neg hns]
    simp only [getElem?_eq_none (Nat.le_of_not_lt hns), crash_apply]

/-- `read_v1_element` has an element when it looks the namespace up, or leaves with an error. -/
theorem readV1Element_cases (hP : IsError P.err) (table : List CString) (s : List Byte) :
    (∃ e r, WireElement1.Framed e ∧ s = e.bytes ++ r) ∨
      ∃ res r, readV1Element P table s = .exit res r ∧ IsError res := by
  rcases (leaves_readV1Fields hP s).cases with ⟨fields, r, hok⟩ | ⟨res, r, hexit, hres⟩
  · obtain ⟨e, he, hs, -⟩ := readV1Fields_ok hok
    exact .inl ⟨e, r, he, hs⟩
  · exact .inr ⟨res, r, bind_of_exit hexit, hres⟩

/-! ## elements of version 2 -/

theorem reads_v2NameRead {n : WireString ⊕ WireName}
    (hnamed : flags &&& elmFlagNameLiteral ≠ 0 ↔ n.isLeft)
    (h : n.elim Counted.Faithful WireName.Faithful)
    (hknown : n.elim (fun _ => True) (WireName.Known table)) :
    Reads (v2NameRead P table flags) (n.elim Counted.bytes WireName.bytes)
      (some (n.elim WireString.string (WireName.string table))) := by
  unfold v2NameRead
  cases n with
  | inl name =>
    rw [if_pos (hnamed.mpr rfl)]
    exact reads_stringRead h
  | inr name =>
    rw [if_neg (fun hflag => by simpa using hnamed.mp hflag)]
    intro rest
    exact (reads_orElse _ (reads_nameRead h hknown)).bind_apply rest

theorem v2NameRead_ok (h : v2NameRead P table flags s = .ok (some str) r) :
    ∃ n : WireString ⊕ WireName, (flags &&& elmFlagNameLiteral ≠ 0 ↔ n.isLeft) ∧
      n.elim Counted.Faithful WireName.Faithful ∧
      n.elim (fun _ => True) (WireName.Known table) ∧
      s = n.elim Counted.bytes WireName.bytes ++ r ∧
      n.elim WireString.string (WireName.string table) = str := by
  unfold v2NameRead at h
  by_cases hflag : flags &&& elmFlagNameLiteral ≠ 0
  · rw [if_pos hflag] at h
    obtain ⟨w, hw, rfl, rfl⟩ := stringRead_ok h
    exact ⟨.inl w, by simp [hflag], hw, trivial, rfl, rfl⟩
  · rw [if_neg hflag] at h
    obtain ⟨name, s₁, hname, hpure⟩ := bind_ok_iff.mp h
    obtain ⟨w, hw, hknown, rfl, rfl⟩ := nameRead_ok (orElse_ok hname)
    cases hpure
    exact ⟨.inr w, by simp [hflag], hw, hknown, rfl, rfl⟩

theorem leaves_v2NameRead (flags : Byte) (s : List Byte) :
    Leaves IsError (v2NameRead P table flags) s := by
  unfold v2NameRead
  split
  · exact leaves_stringRead s
  · exact (leaves_orElse (fun h => by cases h) (leaves_nameRead s)).bind fun m r _ =>
      leaves_pure (some m) r

theorem reads_v2MimeTypeRead {o : Option WireName} (htyped : flags &&& elmFlagType ≠ 0 ↔ o.isSome)
    (h : ∀ m ∈ o, m.Faithful) (hknown : ∀ m ∈ o, m.Known table) :
    Reads (v2MimeTypeRead P table flags) (o.elim [] WireName.bytes)
      (o.map (WireName.string table)) := by
  unfold v2MimeTypeRead
  cases o with
  | none =>
    rw [if_neg (fun hflag => by simpa using htyped.mp hflag)]
    exact reads_pure none
  | some m =>
    rw [if_pos (htyped.mpr rfl)]
    intro rest
    exact (reads_orElse _ (reads_nameRead (h m rfl) (hknown m rfl))).bind_apply rest

theorem v2MimeTypeRead_ok {o : Option CString} (h : v2MimeTypeRead P table flags s = .ok o r) :
    ∃ w : Option WireName, (flags &&& elmFlagType ≠ 0 ↔ w.isSome) ∧ (∀ m ∈ w, m.Faithful) ∧
      (∀ m ∈ w, m.Known table) ∧ s = w.elim [] WireName.bytes ++ r ∧
      w.map (WireName.string table) = o := by
  unfold v2MimeTypeRead at h
  by_cases hflag : flags &&& elmFlagType ≠ 0
  · rw [if_pos hflag] at h
    obtain ⟨str, s₁, hstr, hpure⟩ := bind_ok_iff.mp h
    obtain ⟨w, hw, hknown, rfl, rfl⟩ := nameRead_ok (orElse_ok hstr)
    cases hpure
    exact ⟨some w, by simp [hflag], fun m hm => (by cases hm; exact hw),
      fun m hm => (by cases hm; exact hknown), rfl, rfl⟩
  · rw [if_neg hflag] at h
    cases h
    exact ⟨none, by simp [hflag], fun m hm => (by cases hm), fun m hm => (by cases hm), rfl, rfl⟩

theorem leaves_v2MimeTypeRead (flags : Byte) (s : List Byte) :
    Leaves IsError (v2MimeTypeRead P table flags) s := by
  unfold v2MimeTypeRead
  split
  · exact (leaves_orElse (fun h => by cases h) (leaves_nameRead s)).bind fun m r _ =>
      leaves_pure (some m) r
  · exact leaves_pure none s

/-- The fields of a part as the reader has them. -/
def WirePart.read (table : List CString) (p : WirePart) : V2Fields :=
  ⟨p.ns.string table, some (p.name.elim WireString.string (WireName.string table)),
    p.mimeType.map (WireName.string table), p.value.data⟩

theorem reads_readV2Fields (h : p.Framed table) :
    Reads (readV2Fields P table p.flags) p.fields (p.read table) := by
  refine (reads_orElse .ioerr (reads_nameRead h.ns h.ns_known)).bind ?_
  refine (reads_v2NameRead h.named h.name h.name_known).bind ?_
  refine (reads_v2MimeTypeRead h.typed h.mimeType h.mimeType_known).bind ?_
  intro rest
  exact (reads_valueRead h.value).bind_apply rest

theorem readV2Fields_ok {fields : V2Fields} (hflags : flags &&& elmFlagUnsupported = 0)
    (h : readV2Fields P table flags s = .ok fields r) (hname : fields.name = some str) :
    ∃ p : WirePart, p.flags = flags ∧ p.Framed table ∧ s = p.fields ++ r ∧
      fields = p.read table := by
  obtain ⟨ns, s₁, hns, h₁⟩ := bind_ok_iff.mp h
  obtain ⟨name, s₂, hn, h₂⟩ := bind_ok_iff.mp h₁
  obtain ⟨mimeType, s₃, hmime, h₃⟩ := bind_ok_iff.mp h₂
  obtain ⟨value, s₄, hvalue, h₄⟩ := bind_ok_iff.mp h₃
  cases h₄
  obtain rfl : name = some str := hname
  obtain ⟨wns, hwns, hknown, rfl, rfl⟩ := nameRead_ok (orElse_ok hns)
  obtain ⟨wname, hnamed, hwname, hnknown, rfl, rfl⟩ := v2NameRead_ok hn
  obtain ⟨wmime, htyped, hwmime, hmknown, rfl, rfl⟩ := v2MimeTypeRead_ok hmime
  obtain ⟨wvalue, hwvalue, rfl, rfl⟩ := valueRead_ok hvalue
  refine ⟨⟨flags, wns, wname, wmime, wvalue⟩, rfl, ⟨⟨hwns, hwname, hwmime, hwvalue⟩, hflags,
    hknown, hnamed, hnknown, htyped, hmknown⟩, ?_, rfl⟩
  simp [WirePart.fields, append_assoc]

theorem leaves_readV2Fields (hP : IsError P.err) (flags : Byte) (s : List Byte) :
    Leaves IsError (readV2Fields P table flags) s :=
  (leaves_orElse (fun h => by cases h) (leaves_nameRead s)).bind fun _ s _ =>
  (leaves_v2NameRead flags s).bind fun _ s _ =>
  (leaves_v2MimeTypeRead flags s).bind fun _ s _ =>
  (leaves_valueRead hP _ s).bind fun _ r _ => leaves_pure _ r

theorem shrinks_orElse (e : Status) (h : Shrinks x) : Shrinks (orElse e x) :=
  h.bind fun o => by
    cases o with
    | none => exact shrinks_leave e
    | some str => exact shrinks_pure str

section
variable (P : Source Byte Status)

theorem shrinks_stringRead : Shrinks (stringRead P) :=
  (shrinks_read P 2).bind fun len => by
    cases len with
    | none => exact shrinks_pure none
    | some len =>
      refine (shrinks_read P _).bind fun data => ?_
      cases data with
      | none => exact shrinks_pure none
      | some data => exact shrinks_pure _

theorem shrinks_nameRead (table : List CString) : Shrinks (nameRead P table) :=
  (shrinks_read P 2).bind fun idx => by
    cases idx with
    | none => exact shrinks_pure none
    | some idx =>
      dsimp only
      split
      · exact shrinks_stringRead P
      · exact shrinks_pure _

theorem shrinks_readV2Fields (table : List CString) (flags : Byte) :
    Shrinks (readV2Fields P table flags) := by
  have hname : Shrinks (v2NameRead P table flags) := by
    unfold v2NameRead
    split
    · exact shrinks_stringRead P
    · exact (shrinks_orElse _ (shrinks_nameRead P table)).bind fun m => shrinks_pure (some m)
  have hmime : Shrinks (v2MimeTypeRead P table flags) := by
    unfold v2MimeTypeRead
    split
    · exact (shrinks_orElse _ (shrinks_nameRead P table)).bind fun m => shrinks_pure (some m)
    · exact shrinks_pure none
  refine (shrinks_orElse _ (shrinks_nameRead P table)).bind fun _ => hname.bind fun _ =>
    hmime.bind fun _ => ?_
  refine ((shrinks_readAll P _).bind fun _ => shrinks_readAll P _).bind fun _ => shrinks_pure _

end

theorem newElement_read (p : WirePart) (sig : Option MessageElement) :
    newElement (p.read table) sig =
      pure (some ⟨p.part table, sig.elim [] fun sig => sig.body :: sig.sigs⟩) := by
  cases sig with
  | none => rfl
  | some sig => rfl

theorem readV2Element_part (h : p.Framed table) (fuel : Nat) (rest : List Byte) :
    readV2Element P table (fuel + 1) (p.bytes ++ rest) =
      if p.flags &&& elmFlagSignature ≠ 0 then
        (readV2Element P table fuel >>= newElement (p.read table)) rest
      else .ok (some ⟨p.part table, []⟩) rest := by
  have hmagic : p.bytes ++ rest = elmMagicSig ++ (p.flags :: (p.fields ++ rest)) := by
    simp [WirePart.bytes, append_assoc]
  rw [hmagic, readV2Element, afterMagic, (reads_readAll P rfl).bind_apply,
    if_neg (fun hne => hne rfl), ← singleton_append, (reads_byteRead P p.flags).bind_apply,
    if_neg (not_not_intro h.supported), (reads_readV2Fields h).bind_apply]
  split
  · rfl
  · rw [newElement_read]
    rfl

theorem readV2Element_cut (h : flags &&& elmFlagUnsupported ≠ 0) (fuel : Nat) (rest : List Byte) :
    readV2Element P table (fuel + 1) (elmMagicSig ++ [flags] ++ rest) = .ok none rest := by
  rw [append_assoc, readV2Element, afterMagic, (reads_readAll P rfl).bind_apply,
    if_neg (fun hne => hne rfl), (reads_byteRead P flags).bind_apply, if_pos h]
  rfl

theorem reads_readV2Element {cut : Option Byte} {sigs : List WirePart}
    (h : WireElement2.Signed table cut p sigs) (hfuel : sigs.length + 1 < fuel) :
    Reads (readV2Element P table fuel) (WireElement2.bytes ⟨p, sigs, cut⟩)
      (some ⟨p.part table, sigs.map (WirePart.part table)⟩) := by
  induction sigs generalizing p fuel with
  | nil =>
    obtain ⟨hp, hflag, hcut⟩ := h
    obtain ⟨fuel, rfl⟩ : ∃ k, fuel = k + 2 := ⟨fuel - 2, by simp at hfuel; omega⟩
    intro rest
    rw [WireElement2.bytes, flatMap_singleton, append_assoc, readV2Element_part hp]
    cases cut with
    | none =>
      rw [if_neg (fun hne => by simpa using hflag.mp hne)]
      rfl
    | some flags =>
      have hread : readV2Element P table (fuel + 1) (elmMagicSig ++ [flags] ++ rest) =
          .ok none rest := readV2Element_cut (hcut flags rfl) fuel rest
      rw [if_pos (hflag.mpr rfl)]
      refine (bind_of_ok hread).trans ?_
      rw [newElement_read]
      rfl
  | cons sig sigs ih =>
    obtain ⟨hp, hflag, hsig⟩ := h
    obtain ⟨fuel, rfl⟩ : ∃ k, fuel = k + 1 := ⟨fuel - 1, by omega⟩
    intro rest
    have htail := ih hsig (by simp at hfuel; omega) rest
    rw [WireElement2.bytes] at htail
    rw [WireElement2.bytes, flatMap_cons, append_assoc, append_assoc,
      readV2Element_part hp, if_pos hflag, ← append_assoc, bind_of_ok htail, newElement_read]
    rfl

theorem newElement_ok {fields : V2Fields} {sig o : Option MessageElement}
    (h : newElement fields sig s = .ok o r) : (∃ str, fields.name = some str) ∧ s = r := by
  unfold newElement at h
  cases hname : fields.name with
  | none =>
    rw [hname] at h
    cases h
  | some str =>
    rw [hname] at h
    cases sig with
    | none =>
      cases h
      exact ⟨⟨str, rfl⟩, rfl⟩
    | some sig =>
      cases h
      exact ⟨⟨str, rfl⟩, rfl⟩

theorem leaves_newElement (fields : V2Fields) (sig : Option MessageElement) (s : List Byte) :
    Leaves IsError (newElement fields sig) s := by
  unfold newElement
  cases fields.name with
  | none => exact leaves_leave (fun h => by cases h) s
  | some str =>
    cases sig with
    | none => exact leaves_pure _ s
    | some sig => exact leaves_pure _ s

/-- What one level of `read_v2_element` has read. -/
theorem readV2Element_inv {o : Option MessageElement}
    (h : readV2Element P table (fuel + 1) s = .ok o r) :
    (∃ flags, flags &&& elmFlagUnsupported ≠ 0 ∧ s = elmMagicSig ++ [flags] ++ r ∧ o = none) ∨
      ∃ p : WirePart, p.Framed table ∧ ∃ s₁, s = p.bytes ++ s₁ ∧
        if p.flags &&& elmFlagSignature ≠ 0 then
          ∃ sig, readV2Element P table fuel s₁ = .ok sig r ∧
            o = some ⟨p.part table, sig.elim [] fun sig => sig.body :: sig.sigs⟩
        else s₁ = r ∧ o = some ⟨p.part table, []⟩ := by
  obtain ⟨s₁, rfl, h₁⟩ := afterMagic_ok h
  obtain ⟨flags, s₂, hflags, h₂⟩ := bind_ok_iff.mp h₁
  obtain rfl := byteRead_ok hflags
  by_cases hunsupported : flags &&& elmFlagUnsupported ≠ 0
  · rw [if_pos hunsupported] at h₂
    cases h₂
    exact .inl ⟨flags, hunsupported, rfl, rfl⟩
  rw [if_neg hunsupported] at h₂
  obtain ⟨fields, s₃, hfields, h₃⟩ := bind_ok_iff.mp h₂
  have hpart : (∃ str, fields.name = some str) → ∃ p : WirePart, p.flags = flags ∧
      p.Framed table ∧ elmMagicSig ++ flags :: s₂ = p.bytes ++ s₃ ∧ fields = p.read table := by
    rintro ⟨str, hname⟩
    obtain ⟨p, rfl, hp, rfl, rfl⟩ := readV2Fields_ok (not_not.mp hunsupported) hfields hname
    exact ⟨p, rfl, hp, by simp [WirePart.bytes, append_assoc], rfl⟩
  right
  by_cases hsig : flags &&& elmFlagSignature ≠ 0
  · rw [if_pos hsig] at h₃
    obtain ⟨sig, s₄, hread, h₄⟩ := bind_ok_iff.mp h₃
    obtain ⟨hname, rfl⟩ := newElement_ok h₄
    obtain ⟨p, rfl, hp, hs, rfl⟩ := hpart hname
    rw [newElement_read] at h₄
    cases h₄
    refine ⟨p, hp, s₃, hs, ?_⟩
    rw [if_pos hsig]
    exact ⟨sig, hread, rfl⟩
  · rw [if_neg hsig] at h₃
    obtain ⟨hname, rfl⟩ := newElement_ok h₃
    obtain ⟨p, rfl, hp, hs, rfl⟩ := hpart hname
    rw [newElement_read] at h₃
    cases h₃
    refine ⟨p, hp, s₃, hs, ?_⟩
    rw [if_neg hsig]
    exact ⟨rfl, rfl⟩

theorem readV2Element_none (h : readV2Element P table fuel s = .ok none r) :
    ∃ flags, flags &&& elmFlagUnsupported ≠ 0 ∧ s = elmMagicSig ++ [flags] ++ r := by
  cases fuel with
  | zero => cases h
  | succ fuel =>
    rcases readV2Element_inv h with ⟨flags, hflags, hs, -⟩ | ⟨p, -, s₁, -, hsig⟩
    · exact ⟨flags, hflags, hs⟩
    · split at hsig
      · obtain ⟨sig, -, hnone⟩ := hsig
        cases hnone
      · cases hsig.2

theorem readV2Element_some {el : MessageElement}
    (h : readV2Element P table fuel s = .ok (some el) r) :
    ∃ e : WireElement2, WireElement2.Signed table e.cut e.head e.sigs ∧ s = e.bytes ++ r ∧
      (WireElement.v2 e).element table = el := by
  induction fuel generalizing s el with
  | zero => cases h
  | succ fuel ih =>
    rcases readV2Element_inv h with ⟨flags, -, -, hnone⟩ | ⟨p, hp, s₁, rfl, hsig⟩
    · cases hnone
    split at hsig
    · rename_i hflag
      obtain ⟨sig, hread, hel⟩ := hsig
      cases hel
      cases sig with
      | none =>
        obtain ⟨flags, hflags, rfl⟩ := readV2Element_none hread
        refine ⟨⟨p, [], some flags⟩, ⟨hp, by simp [hflag], ?_⟩, ?_, rfl⟩
        · intro flags' heq
          cases heq
          exact hflags
        · simp [WireElement2.bytes, WireElement2.cutBytes, append_assoc]
      | some sig =>
        obtain ⟨e, he, rfl, rfl⟩ := ih hread
        refine ⟨⟨p, e.head :: e.sigs, e.cut⟩, ⟨hp, hflag, he⟩, ?_, rfl⟩
        simp [WireElement2.bytes, append_assoc]
    · rename_i hflag
      obtain ⟨rfl, hel⟩ := hsig
      cases hel
      refine ⟨⟨p, [], none⟩, ⟨hp, by simp [hflag], fun flags heq => by cases heq⟩, ?_, rfl⟩
      simp [WireElement2.bytes, WireElement2.cutBytes]

theorem leaves_readV2Element (hP : IsError P.err) (table : List CString) (fuel : Nat)
    (s : List Byte) (hfuel : s.length < fuel) : Leaves IsError (readV2Element P table fuel) s := by
  induction fuel generalizing s with
  | zero => omega
  | succ fuel ih =>
    refine leaves_afterMagic hP elmMagicSig s fun s₁ hs => ?_
    refine (leaves_byteRead hP s₁).bind fun flags s₂ hflags => ?_
    split
    · exact leaves_pure none s₂
    refine (leaves_readV2Fields hP flags s₂).bind fun fields s₃ hfields => ?_
    -- the magic and the flags are gone when the signature is read
    have hlt : s₃.length < fuel := by
      have hle := shrinks_readV2Fields P table flags s₂ fields s₃ hfields
      rw [hs, byteRead_ok hflags, length_append, length_cons] at hfuel
      omega
    split
    · exact (ih s₃ hlt).bind fun sig s₄ _ => leaves_newElement fields sig s₄
    · exact leaves_newElement fields none s₃

end JxtaC.Message
