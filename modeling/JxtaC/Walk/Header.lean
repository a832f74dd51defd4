import JxtaC.Walk

/-
  A walk header is read back from its document, and a message carries at most one of them: what
  `walk` takes out of a message that it sent is the header it put in. `Token` is what matters of a
  message on its way, `arrive_token` what becomes of it.
-/

namespace JxtaC

open Lib List
variable {s : List Byte}

/-! ## the document -/

theorem not_space_of_plain {b : Byte} (h : plainByte b = true) :
    Decimal.isSpace b = false ∧ b ≠ 0 := by
  unfold plainByte at h
  rw [decide_eq_true_iff] at h
  refine ⟨?_, ?_⟩
  · unfold Decimal.isSpace
    rw [decide_eq_false_iff_not]
    omega
  · rintro rfl
    exact absurd h.1 (by decide)

theorem plain_ofInt (i : Int) : Plain (Decimal.ofInt i) := by
  have hdigit : ∀ b : Byte, Decimal.isDigit b = true → plainByte b = true := by
    intro b hb
    unfold Decimal.isDigit at hb
    rw [decide_eq_true_iff] at hb
    unfold plainByte
    rw [decide_eq_true_iff]
    refine ⟨by omega, by omega, fun hmem => ?_⟩
    rcases (show b = 60 ∨ b = 62 ∨ b = 38 by simpa [text] using hmem) with rfl | rfl | rfl
    · exact absurd hb.2 (by decide)
    · exact absurd hb.2 (by decide)
    · exact absurd hb.1 (by decide)
  cases i with
  | ofNat n => exact fun b hb => hdigit b (Decimal.isDigit_of_mem hb)
  | negSucc n =>
    intro b hb
    rcases mem_cons.mp hb with rfl | hb
    · decide
    · exact hdigit b (Decimal.isDigit_of_mem hb)

theorem ofInt_ne_nil (i : Int) : Decimal.ofInt i ≠ [] := by
  cases i with
  | ofNat n => exact Decimal.ofNat_ne_nil n
  | negSucc n => exact cons_ne_nil _ _

theorem dropWhile_space_plain (h : Plain s) : s.dropWhile Decimal.isSpace = s := by
  cases s with
  | nil => rfl
  | cons b s => exact dropWhile_cons_of_neg (by simp [not_space_of_plain (h b mem_cons_self)])

theorem extractCharData_plain (h : Plain s) : extractCharData s = s := by
  unfold extractCharData
  rw [dropWhile_space_plain h, takeWhile_eq_self_iff]
  intro b hb
  simp [not_space_of_plain (h b hb)]

theorem jstringTrim_plain (h : Plain s) : jstringTrim s = s := by
  have hrev : Plain s.reverse := fun b hb => h b (mem_reverse.mp hb)
  unfold jstringTrim
  rw [dropWhile_space_plain h, dropWhile_space_plain hrev, reverse_reverse]

namespace LimitedRangeRdvMessage
variable {ad : LimitedRangeRdvMessage}

/-- The header as it stands in a walk message: numbers that fit, texts that need no escapes. -/
structure Printable (ad : LimitedRangeRdvMessage) : Prop where
  ttl : -2 ^ 31 ≤ ad.ttl ∧ ad.ttl < 2 ^ 31
  dir : -2 ^ 31 ≤ ad.dir ∧ ad.dir < 2 ^ 31
  srcPeerId : ∃ s, ad.srcPeerId = some s ∧ Plain s
  svcName : ∃ s, ad.svcName = some s ∧ Plain s
  svcParams : ∃ s, ad.svcParams = some s ∧ Plain s

theorem handleInt_ofInt (set : Int → LimitedRangeRdvMessage) (ad : LimitedRangeRdvMessage) {i : Int}
    (h : -2 ^ 31 ≤ i ∧ i < 2 ^ 31) : handleInt set ad (Decimal.ofInt i) = set i := by
  unfold handleInt
  rw [extractCharData_plain (plain_ofInt i), if_neg (by simp [ofInt_ne_nil]),
    Decimal.atoi_ofInt h.1 h.2]

/-- A text arrives as it is; where there is none the handler gets a blank, and trims it. -/
theorem handleString_plain (set : Option (List Byte) → LimitedRangeRdvMessage)
    (ad : LimitedRangeRdvMessage) {s : List Byte} (h : Plain s) :
    handleString none set ad (if s = [] then [32] else s) = set (some s) := by
  by_cases hs : s = []
  · subst hs
    rfl
  · unfold handleString
    rw [if_neg hs, if_neg hs]
    exact congrArg (fun t => set (some t)) (jstringTrim_plain h)

/-- The names of the elements. -/
def fieldNames : List (List Byte) :=
  [text "TTL", text "Dir", text "SrcPeerID", text "SrcSvcName", text "SrcSvcParams"]

theorem mem_fieldNames {f : List Byte × List Byte} (hf : f ∈ ad.fields) : f.1 ∈ fieldNames := by
  rw [show fieldNames = ad.fields.map Prod.fst from rfl]
  exact mem_map_of_mem hf

theorem find_tags {f : List Byte × List Byte} (hf : f ∈ ad.fields) :
    (tags.find? fun k => k.kwd = f.1).isSome := by
  have hall : ∀ name ∈ fieldNames, (tags.find? fun k => k.kwd = name).isSome := by decide
  exact hall f.1 (mem_fieldNames hf)

/-- The handlers rebuild a printable header from its fields. -/
theorem foldl_fields (h : ad.Printable) :
    ad.fields.foldl (Advertisement.onField tags) new = ad := by
  obtain ⟨ttl, dir, src, name, params⟩ := ad
  obtain ⟨httl, hdir, ⟨s, rfl, hs⟩, ⟨n, rfl, hn⟩, ⟨p, rfl, hp⟩⟩ := h
  have hTTL : ∀ ad, Advertisement.onField tags ad (text "TTL", Decimal.ofInt ttl) =
      { ad with ttl := ttl } := by
    intro ad
    show handleTTL (handleTTL ad []) (if Decimal.ofInt ttl = [] then [32] else Decimal.ofInt ttl) = _
    rw [if_neg (ofInt_ne_nil ttl)]
    exact handleInt_ofInt _ _ httl
  have hDir : ∀ ad, Advertisement.onField tags ad (text "Dir", Decimal.ofInt dir) =
      { ad with dir := dir } := by
    intro ad
    show handleDir (handleDir ad []) (if Decimal.ofInt dir = [] then [32] else Decimal.ofInt dir) = _
    rw [if_neg (ofInt_ne_nil dir)]
    exact handleInt_ofInt _ _ hdir
  have hSrc : ∀ ad : LimitedRangeRdvMessage, ad.srcPeerId = none →
      Advertisement.onField tags ad (text "SrcPeerID", s) = { ad with srcPeerId := some s } := by
    intro ad had
    show handleSrcPeerID (handleSrcPeerID ad []) (if s = [] then [32] else s) = _
    show handleString ad.srcPeerId _ _ _ = _
    rw [had]
    exact handleString_plain _ _ hs
  have hName : ∀ ad : LimitedRangeRdvMessage, ad.svcName = none →
      Advertisement.onField tags ad (text "SrcSvcName", n) = { ad with svcName := some n } := by
    intro ad had
    show handleSrcSvcName (handleSrcSvcName ad []) (if n = [] then [32] else n) = _
    show handleString ad.svcName _ _ _ = _
    rw [had]
    exact handleString_plain _ _ hn
  have hParams : ∀ ad : LimitedRangeRdvMessage, ad.svcParams = none →
      Advertisement.onField tags ad (text "SrcSvcParams", p) = { ad with svcParams := some p } := by
    intro ad had
    show handleSrcSvcParams (handleSrcSvcParams ad []) (if p = [] then [32] else p) = _
    show handleString ad.svcParams _ _ _ = _
    rw [had]
    exact handleString_plain _ _ hp
  simp only [fields, Option.getD_some, foldl_cons, foldl_nil, hTTL, hDir]
  rw [hSrc _ rfl, hName _ rfl, hParams _ rfl]

theorem fields_plain (h : ad.Printable) (f : List Byte × List Byte) (hf : f ∈ ad.fields) :
    XmlName f.1 ∧ Plain f.2 := by
  have hall : ∀ name ∈ fieldNames, XmlName name := by decide
  refine ⟨hall f.1 (mem_fieldNames hf), ?_⟩
  obtain ⟨ttl, dir, src, name, params⟩ := ad
  obtain ⟨-, -, ⟨s, rfl, hs⟩, ⟨n, rfl, hn⟩, ⟨p, rfl, hp⟩⟩ := h
  simp only [fields, Option.getD_some, mem_cons, not_mem_nil, or_false] at hf
  rcases hf with rfl | rfl | rfl | rfl | rfl
  · exact plain_ofInt ttl
  · exact plain_ofInt dir
  · exact hs
  · exact hn
  · exact hp

/-- A printable header is read back from its document. -/
theorem parse_getXml {xmlParse : XmlParser} (hxml : ReadsFlat xmlParse) (h : ad.Printable) :
    parse xmlParse ad.getXml = (ad, .success) := by
  obtain ⟨events, hevents, hparse⟩ := hxml documentName ad.fields (by decide)
    (fields_plain h)
  have hne : ad.getXml ≠ [] := by
    intro hnil
    have hlen := congrArg List.length hnil
    simp [getXml, flatDocument, text] at hlen
  have hroot : (tags.find? fun k => k.kwd = documentName) =
      some ⟨documentName, handleLimitedRangeRdvMessage⟩ := by
    unfold tags
    rw [find?_cons_of_pos]
    exact decide_eq_true rfl
  unfold parse Advertisement.parseCharbuffer
  have hdoc : xmlParse ad.getXml = (events, true) := hparse
  rw [if_neg hne, hdoc]
  dsimp only
  rw [Advertisement.parse_flat hevents hroot (fun f hf => find_tags hf) new, if_pos rfl]
  exact congrArg (·, Status.success) (foldl_fields h)

end LimitedRangeRdvMessage

end JxtaC
