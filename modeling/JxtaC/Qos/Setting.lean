import JxtaC.Qos

/-
  The XML of a QoS is read back (`xmlToQosSetting_plain`), if its keys and values are plain text and
  the parser reads plain elements as they are. What `extract_qos_element` accepts of it has a TTL
  that is one less, and every other entry as it was (`extractQosElement_setting`).
-/

namespace JxtaC.Qos

open Lib Lib.Xml List

/-! ## XML -/

/-- The parser reads a plain element back from its text. -/
def AprXmlParser.ReadsPlain (psr : AprXmlParser) : Prop :=
  ∀ e : Element, e.Plain → psr.feed e.text = true ∧ psr.done e.text = some e

/-- The element of an entry. -/
def entryElement (entry : AprHash.Entry) : Element :=
  ⟨text "QoS", [entry.1.bytes], [⟨text "Value", [entry.2.bytes], []⟩]⟩

/-- The root of the document. -/
def settingElement (entries : List AprHash.Entry) : Element :=
  ⟨text "QoS_Setting", [], entries.map entryElement⟩

/-- Key and value come through XML as they are. -/
def PlainEntry (entry : AprHash.Entry) : Prop :=
  IsPlainText entry.1.bytes ∧ IsPlainText entry.2.bytes

theorem plain_entryElement {entry : AprHash.Entry} (h : PlainEntry entry) :
    (entryElement entry).Plain :=
  ⟨⟨by decide, by decide⟩, .inr ⟨_, rfl, h.1⟩, ⟨⟨by decide, by decide⟩, .inr ⟨_, rfl, h.2⟩, trivial⟩,
    trivial⟩

theorem plain_settingElement {entries : List AprHash.Entry} (h : ∀ e ∈ entries, PlainEntry e) :
    (settingElement entries).Plain := by
  refine ⟨⟨by decide, by decide⟩, .inl rfl, Element.plainAll_iff.mpr ?_⟩
  rw [forall_mem_map]
  exact fun e he => plain_entryElement (h e he)

theorem text_entryElement (entry : AprHash.Entry) : (entryElement entry).text = entryXml entry := by
  unfold entryElement entryXml
  simp only [Element.text, Element.textAll, flatten_singleton, append_assoc,
    cons_append, nil_append]
  rfl

theorem bytes_ofBuffer {buffer : List Byte} (h : 0 ∉ buffer) :
    (CString.ofBuffer buffer).bytes = buffer :=
  congrArg CString.bytes (CString.ofBuffer_bytes ⟨buffer, h⟩)

theorem not_mem_entryXml (entry : AprHash.Entry) : 0 ∉ entryXml entry := by
  have hkey : 0 ∉ entry.1.bytes := entry.1.property
  have hvalue : 0 ∉ entry.2.bytes := entry.2.property
  unfold entryXml
  simp only [mem_append, not_or]
  exact ⟨⟨⟨⟨by decide, hkey⟩, by decide⟩, hvalue⟩, by decide⟩

theorem bytes_qosSettingToXml {entries : List AprHash.Entry} (h : entries ≠ []) :
    (qosSettingToXml entries).bytes = (settingElement entries).text := by
  have hentries : 0 ∉ entries.flatMap entryXml := by
    intro hmem
    obtain ⟨e, -, he⟩ := mem_flatMap.mp hmem
    exact not_mem_entryXml e he
  have hall : 0 ∉ text "<QoS_Setting>" ++ entries.flatMap entryXml ++ text "</QoS_Setting>" := by
    simp only [mem_append, not_or]
    exact ⟨⟨by decide, hentries⟩, by decide⟩
  unfold qosSettingToXml
  rw [if_neg h, bytes_ofBuffer hall]
  unfold settingElement
  simp only [Element.text, Element.textAll_eq, flatMap_map, text_entryElement, flatten_nil]
  rfl

/-! ## the table -/

/-- The entries are put into the table one after the other. -/
def insertAll (ht : AprHash) (entries : List AprHash.Entry) : AprHash :=
  entries.foldl (fun ht e => ht.insert e.1 e.2) ht

theorem settingLoop_entries (entries : List AprHash.Entry) (ht : AprHash) :
    settingLoop (entries.map entryElement) (some ht) = .ok (some (insertAll ht entries)) := by
  induction entries generalizing ht with
  | nil => rfl
  | cons e entries ih =>
    rw [map_cons]
    show settingLoop (entries.map entryElement)
      (some (ht.insert (.ofBuffer e.1.bytes) (.ofBuffer e.2.bytes))) = _
    rw [CString.ofBuffer_bytes, CString.ofBuffer_bytes, ih]
    rfl

/-- The entries are read back, if there are any. -/
theorem xmlToQosSetting_plain {psr : AprXmlParser} (hpsr : psr.ReadsPlain)
    {entries : List AprHash.Entry} (hne : entries ≠ []) (hplain : ∀ e ∈ entries, PlainEntry e) :
    xmlToQosSetting psr (qosSettingToXml entries) = .ok (.ok (some (insertAll ∅ entries))) := by
  obtain ⟨hfeed, hdone⟩ := hpsr _ (plain_settingElement hplain)
  have hloop : settingLoop (entries.map entryElement) none = .ok (some (insertAll ∅ entries)) := by
    obtain ⟨e, entries, rfl⟩ := exists_cons_of_ne_nil hne
    exact settingLoop_entries (e :: entries) ∅
  unfold xmlToQosSetting
  rw [bytes_qosSettingToXml hne, hfeed, hdone]
  unfold settingElement
  dsimp only
  rw [hloop]
  rfl

theorem lookup_insertAll {entries : List AprHash.Entry} (h : entries.NodupKeys) (ht : AprHash)
    (name : CString) :
    (insertAll ht entries).lookup name = (entries.dlookup name).or (ht.lookup name) := by
  induction entries generalizing ht with
  | nil => rfl
  | cons e entries ih =>
    obtain ⟨key, value⟩ := e
    obtain ⟨hfirst, hrest⟩ := nodupKeys_cons.mp h
    show (insertAll (ht.insert key value) entries).lookup name = _
    rw [ih hrest]
    by_cases hname : name = key
    · subst hname
      rw [dlookup_eq_none.mpr hfirst, dlookup_cons_eq, AList.lookup_insert]
      rfl
    · rw [dlookup_cons_ne _ (⟨key, value⟩ : AprHash.Entry) hname, AList.lookup_insert_ne hname]

/-- The table that was written is read back, up to the order of its entries. -/
theorem lookup_read {ht : AprHash} {entries : List AprHash.Entry} (h : entries.Perm ht.entries)
    (name : CString) : (insertAll ∅ entries).lookup name = ht.lookup name := by
  have hnodup : entries.NodupKeys := (perm_nodupKeys h).mpr ht.nodupKeys
  rw [lookup_insertAll hnodup, AList.lookup_empty, Option.or_none]
  exact perm_dlookup name hnodup h

/-! ## numbers -/

theorem getLong_congr {me me' : Qos} {name : CString}
    (h : me.ht.lookup name = me'.ht.lookup name) : me.getLong name = me'.getLong name := by
  unfold getLong
  rw [h]

theorem not_mem_ofInt (i : Int) : (0 : Byte) ∉ Decimal.ofInt i := by
  have hdigits : ∀ n, (0 : Byte) ∉ Decimal.ofNat n := fun n h =>
    absurd (Decimal.isDigit_of_mem h) (by decide)
  cases i with
  | ofNat n => exact hdigits n
  | negSucc n =>
    intro h
    rcases mem_cons.mp h with heq | hmem
    · cases heq
    · exact hdigits _ hmem

/-- What is set is read back. -/
theorem getLong_setLong {me : Qos} (hme : me.immutable = false) (name : CString) {i : Int}
    (hlow : -2 ^ 63 ≤ i) (hhigh : i < 2 ^ 63) : (me.setLong name i).1.getLong name = .ok i := by
  unfold setLong
  rw [hme, if_neg (by decide)]
  unfold getLong
  rw [AList.lookup_insert]
  dsimp only
  rw [bytes_ofBuffer (not_mem_ofInt i), Decimal.strtolEnd_ofInt, if_neg (fun h => h.2 rfl),
    Decimal.strtol_ofInt hlow hhigh]

theorem lookup_setLong {me : Qos} {name other : CString} (h : other ≠ name) (i : Int) :
    (me.setLong name i).1.ht.lookup other = me.ht.lookup other := by
  unfold setLong
  split
  · rfl
  · exact AList.lookup_insert_ne h

/-- A `long`. -/
theorem getLong_bounds {me : Qos} {name : CString} {n : Int} (h : me.getLong name = .ok n) :
    -2 ^ 63 ≤ n ∧ n < 2 ^ 63 := by
  unfold getLong at h
  split at h
  · cases h
  · dsimp only at h
    split at h
    · cases h
    · rw [← Except.ok.inj h]
      unfold Decimal.strtol
      omega

/-! ## the element -/

/-- Keys and values come through XML as they are. -/
def Plain (me : Qos) : Prop :=
  ∀ name v, me.ht.lookup name = some v → IsPlainText name.bytes ∧ IsPlainText v.bytes

theorem Plain.entries {me : Qos} (h : me.Plain) {entries : List AprHash.Entry}
    (hperm : entries.Perm me.ht.entries) : ∀ e ∈ entries, PlainEntry e := by
  intro e he
  exact h e.1 e.2 (AList.mem_lookup_iff.mpr (hperm.mem_iff.mp he))

/-- A character of a number is a digit. -/
theorem plain_ofNat (n : Nat) : IsPlainText (Decimal.ofNat n) := by
  have hdigit : ∀ c ∈ Nat.toDigits 10 n, 48 ≤ c.toNat ∧ c.toNat ≤ 57 := by
    intro c hc
    have h := Nat.isDigit_of_mem_toDigits (by decide) (by decide) hc
    simp only [Char.isDigit, Bool.and_eq_true, decide_eq_true_eq] at h
    exact h
  have hencode : ∀ c ∈ Nat.toDigits 10 n, String.utf8EncodeChar c = [Decimal.ascii c] := by
    intro c hc
    obtain ⟨-, hle⟩ := hdigit c hc
    rw [String.utf8EncodeChar]
    exact if_pos (show c.toNat ≤ 127 by omega)
  refine ⟨Nat.toDigits 10 n, ?_, Nat.toDigits_ne_nil, ?_, ?_⟩
  · rw [flatMap_congr hencode]
    exact map_eq_flatMap
  · intro c hc
    obtain ⟨hlow, hhigh⟩ := hdigit c hc
    refine ⟨.inr (by omega), by omega, by omega, ?_, ?_⟩ <;> rintro rfl <;> revert hlow hhigh <;>
      decide
  · intro h
    have hmem : ']' ∈ Nat.toDigits 10 n := h.subset mem_cons_self
    exact absurd (hdigit _ hmem) (by decide)

/-- What is left of a QoS by a hop: the TTL is one less. -/
structure Passed (me me' : Qos) (n : Int) : Prop where
  ttl : me'.getLong ttlName = .ok (n - 1)
  others : ∀ name ≠ ttlName, me'.ht.lookup name = me.ht.lookup name
  plain : me'.Plain

/-- A QoS that is accepted had a TTL of at least 1. -/
theorem extractQosElement_setting {psr : AprXmlParser} (hpsr : psr.ReadsPlain) {me : Qos} {n : Int}
    (hplain : me.Plain) (httl : me.getLong ttlName = .ok n) (hn : 0 ≤ n)
    {entries : List AprHash.Entry} (hperm : entries.Perm me.ht.entries) {time : Int}
    {old qos : Option Qos}
    (h : extractQosElement psr time old (qosSettingToXml entries).bytes = .ok (qos, .success)) :
    0 < n ∧ ∃ me', qos = some me' ∧ me.Passed me' n := by
  have hlookup := lookup_read hperm
  have hne : entries ≠ [] := by
    rintro rfl
    have hnone : me.ht.lookup ttlName = none := (hlookup ttlName).symm
    unfold getLong at httl
    rw [hnone] at httl
    cases httl
  have hread : (⟨insertAll ∅ entries, false⟩ : Qos).getLong ttlName = .ok n := by
    rw [← httl]
    exact getLong_congr (hlookup ttlName)
  obtain ⟨-, hhigh⟩ := getLong_bounds httl
  unfold extractQosElement at h
  rw [CString.ofBuffer_bytes, xmlToQosSetting_plain hpsr hne (hplain.entries hperm)] at h
  dsimp only at h
  unfold decrementTtl at h
  rw [hread] at h
  dsimp only at h
  by_cases hzero : n = 0
  · rw [if_pos hzero] at h
    cases h
  rw [if_neg hzero, if_neg (by omega)] at h
  have hqos := congrArg Prod.fst (Except.ok.inj h)
  refine ⟨by omega, _, hqos.symm, ?_, ?_, ?_⟩
  · exact getLong_setLong rfl ttlName (by omega) (by omega)
  · intro name hname
    rw [lookup_setLong hname]
    exact hlookup name
  · intro name v hv
    by_cases hname : name = ttlName
    · subst hname
      obtain ⟨v', hv'⟩ : ∃ v', me.ht.lookup ttlName = some v' := by
        unfold getLong at httl
        cases hlook : me.ht.lookup ttlName with
        | none =>
          rw [hlook] at httl
          cases httl
        | some v' => exact ⟨v', rfl⟩
      refine ⟨(hplain _ _ hv').1, ?_⟩
      obtain rfl := Option.some.inj ((AList.lookup_insert _).symm.trans hv)
      obtain ⟨m, hm⟩ := Int.eq_ofNat_of_zero_le (show 0 ≤ n - 1 by omega)
      rw [bytes_ofBuffer (not_mem_ofInt _), hm]
      exact plain_ofNat m
    · rw [lookup_setLong hname] at hv
      exact hplain name v ((hlookup name).symm.trans hv)

end JxtaC.Qos
