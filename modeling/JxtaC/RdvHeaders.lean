import JxtaC.Lib.XmlScanner
import JxtaC.Propagate.Header

/-
  The headers of a rendezvous peer (jxta_walk_msg.c, jxta_pm.c), as they are printed and read again
  at every hop. A text of a header is printed as it is, or left out where it is unset: the getters
  hand on NULL, which `jstring_append_2` does not look at.
-/

namespace JxtaC

open Lib Lib.XmlDocument Dispatch List

/-! ## printing -/

/-- `strlen`, for which NULL is a fault. -/
def strlenOrFault : Option (List Byte) → Exec Nat
  | none => .error .nullPointer
  | some s => .ok (s.takeWhile (· ≠ 0)).length

/-- `jstring_append_2`. -/
def jstringAppend2 (js : List Byte) (string : Option (List Byte)) : Exec (List Byte) :=
  if string = none then .ok js
  else do
    let len ← strlenOrFault string
    return js ++ (string.getD []).take len

/-- Texts, appended one after the other. -/
def appendAll (texts : List (Option (List Byte))) : Exec (List Byte) :=
  texts.foldlM jstringAppend2 []

/-- `apr_snprintf` of a number, into a buffer of this size. -/
def snprintf (size : Nat) (i : Int) : List Byte := (Decimal.ofInt i).take (size - 1)

/-- The texts of an element, with a line end behind it. -/
def elementTexts (name : List Byte) (value : Option (List Byte)) : List (Option (List Byte)) :=
  [some (startTag name), value, some (endTag name ++ text "\n")]

/-- `LimitedRangeRdvMessage_get_xml`, text by text. -/
def LimitedRangeRdvMessage.writeXml (ad : LimitedRangeRdvMessage) : Exec (List Byte) :=
  appendAll <| [some (text "<?xml version=\"1.0\"?>\n"),
    some (text "<!DOCTYPE jxta:LimitedRangeRdvMessage>"),
    some (text "<jxta:LimitedRangeRdvMessage>\n")] ++
    (elementTexts (text "TTL") (some (snprintf 12 ad.ttl)) ++
    (elementTexts (text "Dir") (some (snprintf 12 ad.dir)) ++
    (elementTexts (text "SrcPeerID") ad.srcPeerId ++
    (elementTexts (text "SrcSvcName") ad.svcName ++
    (elementTexts (text "SrcSvcParams") ad.svcParams ++
    [some (text "</jxta:LimitedRangeRdvMessage>\n")])))))

/-- `RendezVousPropagateMessage_get_xml`, text by text. -/
def RendezVousPropagateMessage.writeXml (ad : RendezVousPropagateMessage) : Exec (List Byte) :=
  appendAll <| [some (text "<?xml version=\"1.0\"?>\n"),
    some (text "<!DOCTYPE jxta:RendezVousPropagateMessage>"),
    some (text "<jxta:RendezVousPropagateMessage>\n")] ++
    (elementTexts (text "DestSName") ad.destSName ++
    (elementTexts (text "DestSParam") ad.destSParam ++
    (elementTexts (text "MessageId") ad.messageId ++
    (elementTexts (text "TTL") (some (snprintf 18 ad.ttl)) ++
    ((ad.path.flatMap fun path => elementTexts (text "Path") (some path)) ++
    [some (text "</jxta:RendezVousPropagateMessage>\n")])))))

section Printing
open RendezVousPropagateMessage (printed)

/-- No text makes the printer fail. -/
theorem appendAll_eq (texts : List (Option (List Byte))) :
    appendAll texts = .ok (texts.flatMap printed) := by
  have hstep : ∀ js string, jstringAppend2 js string = .ok (js ++ printed string) := by
    intro js string
    unfold jstringAppend2 printed
    cases string with
    | none => exact congrArg Except.ok (append_nil js).symm
    | some s =>
      rw [if_neg (Option.some_ne_none s)]
      refine congrArg (fun t => Except.ok (js ++ t)) ?_
      exact (prefix_iff_eq_take.mp (List.takeWhile_prefix _)).symm
  have hfold : ∀ js, texts.foldlM jstringAppend2 js = .ok (js ++ texts.flatMap printed) := by
    induction texts with
    | nil => exact fun js => congrArg Except.ok (append_nil js).symm
    | cons string texts ih =>
      intro js
      rw [foldlM_cons, hstep, ok_bind, ih, flatMap_cons, append_assoc]
  exact hfold []

/-- A number fits its buffer. -/
theorem snprintf_eq {size : Nat} {i : Int} (hsize : 12 ≤ size) (h : -2 ^ 31 ≤ i ∧ i < 2 ^ 31) :
    snprintf size i = Decimal.ofInt i := by
  have hlen : (Decimal.ofInt i).length ≤ 11 := by
    cases i with
    | ofNat n =>
      have hn : n < 10 ^ 11 := by
        have hlt := h.2
        rw [Int.ofNat_eq_natCast] at hlt
        omega
      exact Decimal.length_ofNat_le (by decide) hn
    | negSucc n =>
      have hn : n + 1 < 10 ^ 10 := by
        have hle := h.1
        rw [Int.negSucc_eq] at hle
        omega
      exact Nat.succ_le_succ (Decimal.length_ofNat_le (by decide) hn)
  exact take_of_length_le (by omega)

theorem zero_not_mem_sourceOf {ps : List Piece} (h : IsText ps) : 0 ∉ sourceOf ps :=
  (representable_sourceOf h.1).zero_not_mem

theorem printed_of_zero {s : Option (List Byte)} {t : List Byte} (hs : s.getD [] = t) (ht : 0 ∉ t) :
    printed s = t := by
  unfold printed
  rw [hs, takeWhile_eq_self_iff]
  exact fun b hb => decide_eq_true fun heq => ht (heq ▸ hb)

theorem printed_number (i : Int) : printed (some (Decimal.ofInt i)) = Decimal.ofInt i :=
  printed_of_zero rfl fun hno => (not_space_of_plain (plain_ofInt i 0 hno)).2 rfl

theorem printed_literal {s : List Byte} (hs : 0 ∉ s) : printed (some s) = s :=
  printed_of_zero rfl hs

/-- The texts of an element make the element. -/
theorem elementTexts_eq {name : List Byte} (hname : 0 ∉ name) (ps : List Piece)
    {value : Option (List Byte)} (hvalue : printed value = sourceOf ps) :
    (elementTexts name value).flatMap printed = (leafNode name ps).source ++ text "\n" := by
  have hstart : 0 ∉ startTag name := by simp [startTag, hname, text]
  have hend : 0 ∉ endTag name ++ text "\n" := by simp [endTag, hname, text]
  simp [elementTexts, printed_literal hstart, printed_literal hend, hvalue, element_eq, element]

end Printing

/-! ## texts -/

section Texts
open RendezVousPropagateMessage (Verbatim Word readPath)
variable {ps : List Piece} {s : Option (List Byte)}

/-- A text that is set, and printed and read as it is. -/
def Whole (s : Option (List Byte)) : Prop := ∃ t, s = some t ∧ Verbatim t

/-- Without references a text stands for itself. -/
theorem raw_of_no_reference (h : 38 ∉ sourceOf ps) : ps = raw (sourceOf ps) := by
  induction ps with
  | nil => rfl
  | cons piece ps ih =>
    cases piece with
    | byte b => exact congrArg (Piece.byte b :: ·) (ih fun hno => h (mem_cons_of_mem b hno))
    | lt => exact absurd mem_cons_self h
    | gt => exact absurd mem_cons_self h
    | amp => exact absurd mem_cons_self h

theorem raw_of_isText (h : IsText (raw (sourceOf ps))) : ps = raw (sourceOf ps) :=
  raw_of_no_reference fun hno => absurd ((isText_raw_iff.mp h).2.1 38 hno) (by decide)

/-- What is read of a text is the text if and only if it is whole. -/
theorem whole_iff (hps : IsText ps) (hs : s.getD [] = sourceOf ps) :
    some (jstringTrim (valueOf ps)) = s ↔ Whole s := by
  constructor
  · intro h
    subst h
    have hraw := raw_of_trim hs
    refine ⟨_, rfl, ?_, ?_⟩
    · rw [show jstringTrim (valueOf ps) = sourceOf ps from hs, ← hraw]
      exact hps
    · have hval : valueOf ps = jstringTrim (valueOf ps) := by
        rw [show jstringTrim (valueOf ps) = sourceOf ps from hs, hraw, valueOf_raw, sourceOf_raw]
      exact congrArg jstringTrim hval.symm
  · intro h
    obtain ⟨t, rfl, ht⟩ := h
    obtain rfl : t = sourceOf ps := hs
    rw [raw_of_isText ht.text, valueOf_raw, sourceOf_raw, ht.trimmed]

/-- What is read of a peer of the path is the peer if and only if it is a word. -/
theorem word_iff (hps : IsText ps) :
    extractCharData (valueOf ps) ≠ [] ∧ extractCharData (valueOf ps) = sourceOf ps ↔
      Word (sourceOf ps) := by
  have hle : (extractCharData (valueOf ps)).length ≤ (valueOf ps).length := by
    unfold extractCharData
    exact Nat.le_trans (List.takeWhile_prefix _).length_le (dropWhile_suffix _).length_le
  constructor
  · intro h
    obtain ⟨hne, heq⟩ := h
    have hraw : ps = raw (sourceOf ps) := valueOf_eq_sourceOf (by rw [← heq]; exact hle)
    have hval : valueOf ps = sourceOf ps := by
      rw [hraw, valueOf_raw, sourceOf_raw]
    refine ⟨hraw ▸ hps, heq ▸ hne, ?_⟩
    rw [← hval]
    exact heq.trans hval.symm
  · intro h
    have hval : valueOf ps = sourceOf ps := by
      rw [raw_of_isText h.text, valueOf_raw, sourceOf_raw]
    rw [hval, h.whole]
    exact ⟨h.nonempty, rfl⟩

theorem readPath_iff {path : List (List Piece)} (hpath : ∀ ps ∈ path, IsText ps) :
    readPath path = path.map sourceOf ↔ ∀ ps ∈ path, Word (sourceOf ps) := by
  constructor
  · intro h
    have hall : readPath path = path.map fun ps => extractCharData (valueOf ps) := by
      refine List.Sublist.eq_of_length filter_sublist ?_
      exact (congrArg List.length h).trans (by rw [length_map, length_map])
    have hne := filter_eq_self.mp hall
    have heq := map_inj_left.mp (hall.symm.trans h)
    intro ps hps
    exact (word_iff (hpath ps hps)).mp
      ⟨of_decide_eq_true (hne _ (mem_map_of_mem hps)), heq ps hps⟩
  · intro h
    have heq : (path.map fun ps => extractCharData (valueOf ps)) = path.map sourceOf :=
      map_congr_left fun ps hps => ((word_iff (hpath ps hps)).mpr (h ps hps)).2
    unfold readPath
    rw [heq, filter_eq_self]
    intro t ht
    obtain ⟨ps, hps, rfl⟩ := mem_map.mp ht
    exact decide_eq_true (h ps hps).nonempty

theorem Whole.isMarkup (h : Whole s) : IsMarkup (s.getD []) := by
  obtain ⟨t, rfl, ht⟩ := h
  exact ⟨raw t, ht.text, sourceOf_raw t⟩

/-- Texts of characters and references are those of pieces. -/
theorem exists_pieces {texts : List (List Byte)} (h : ∀ t ∈ texts, IsMarkup t) :
    ∃ path : List (List Piece), (∀ ps ∈ path, IsText ps) ∧ texts = path.map sourceOf := by
  induction texts with
  | nil => exact ⟨[], fun ps hps => absurd hps not_mem_nil, rfl⟩
  | cons t texts ih =>
    obtain ⟨ps, hps, rfl⟩ := h t mem_cons_self
    obtain ⟨path, hpath, rfl⟩ := ih fun other hmem => h other (mem_cons_of_mem _ hmem)
    exact ⟨ps :: path, forall_mem_cons.mpr ⟨hps, hpath⟩, rfl⟩

end Texts

/-! ## the walk header -/

namespace LimitedRangeRdvMessage

/-- The parse functions of `LimitedRangeRdvMessage_tags`. -/
def handlers : Handlers LimitedRangeRdvMessage :=
  .flat (tags.map fun k => (k.kwd, fun ad c => .ok (k.nodeparse ad c.cd)))

/-- `LimitedRangeRdvMessage_parse_charbuffer`, into a new header. -/
def parseCharbuffer {Kind : Type} (d : Dialect Kind) (parser : Parser) (kind : Kind)
    (buf : List Byte) : Exec (LimitedRangeRdvMessage × Status) :=
  handlers.parse d parser kind new buf

/-- The tables of the parser have that of walk headers. -/
structure Tables {Kind : Type} (d : Dialect Kind) (header : Kind) : Prop where
  name : d.documentName header = documentName
  elements : d.elements header = some (keepers Kind [text "TTL", text "Dir", text "SrcPeerID",
    text "SrcSvcName", text "SrcSvcParams"])

/-- The numbers of a header fit their types. -/
structure InRange (ad : LimitedRangeRdvMessage) : Prop where
  ttl : -2 ^ 31 ≤ ad.ttl ∧ ad.ttl < 2 ^ 31
  dir : -2 ^ 31 ≤ ad.dir ∧ ad.dir < 2 ^ 31

/-- All texts are set, and printed and read as they are. -/
structure Faithful (ad : LimitedRangeRdvMessage) : Prop where
  srcPeerId : Whole ad.srcPeerId
  svcName : Whole ad.svcName
  svcParams : Whole ad.svcParams

/-- The texts of the header consist of characters and references. -/
structure Markup (ad : LimitedRangeRdvMessage) : Prop where
  srcPeerId : IsMarkup (ad.srcPeerId.getD [])
  svcName : IsMarkup (ad.svcName.getD [])
  svcParams : IsMarkup (ad.svcParams.getD [])

/-- Printed and read, the header is the same. -/
def Carried {Kind : Type} (d : Dialect Kind) (parser : Parser) (kind : Kind)
    (ad : LimitedRangeRdvMessage) : Prop :=
  ∃ xml, ad.writeXml = .ok xml ∧ parseCharbuffer d parser kind xml = .ok (ad, .success)

/-- The elements of the document. -/
def elements (ttl dir : Int) (id name params : List Piece) : List (Node × List Byte) :=
  [(leafNode (text "TTL") (raw (Decimal.ofInt ttl)), text "\n"),
    (leafNode (text "Dir") (raw (Decimal.ofInt dir)), text "\n"),
    (leafNode (text "SrcPeerID") id, text "\n"),
    (leafNode (text "SrcSvcName") name, text "\n"),
    (leafNode (text "SrcSvcParams") params, text "\n")]

/-- The document. -/
def document (ttl dir : Int) (id name params : List Piece) : Document :=
  fieldsDocument documentName (text "\n", [], text "\n") (text "\n")
    (elements ttl dir id name params)

section Reading
variable {ad : LimitedRangeRdvMessage} {id name params : List Piece}

theorem writeXml_eq (hrange : ad.InRange) (hid : IsText id) (hname : IsText name)
    (hparams : IsText params) (hid' : ad.srcPeerId.getD [] = sourceOf id)
    (hname' : ad.svcName.getD [] = sourceOf name)
    (hparams' : ad.svcParams.getD [] = sourceOf params) :
    ad.writeXml = .ok (document ad.ttl ad.dir id name params).source := by
  have hfront : [some (text "<?xml version=\"1.0\"?>\n"),
      some (text "<!DOCTYPE jxta:LimitedRangeRdvMessage>"),
      some (text "<jxta:LimitedRangeRdvMessage>\n")].flatMap RendezVousPropagateMessage.printed =
        xmlDeclaration ++ text "\n" ++ doctypeStart ++ documentName ++ [62] ++
          (60 :: (documentName ++ [62]) ++ text "\n") := by decide
  have hback : [some (text "</jxta:LimitedRangeRdvMessage>\n")].flatMap
      RendezVousPropagateMessage.printed = endSource documentName ++ text "\n" := by decide
  unfold writeXml
  rw [appendAll_eq, snprintf_eq (by decide) hrange.ttl, snprintf_eq (by decide) hrange.dir]
  refine congrArg Except.ok ?_
  rw [flatMap_append, flatMap_append, flatMap_append, flatMap_append,
    flatMap_append, flatMap_append,
    elementTexts_eq (by decide) (raw (Decimal.ofInt ad.ttl)) (by simp [printed_number]),
    elementTexts_eq (by decide) (raw (Decimal.ofInt ad.dir)) (by simp [printed_number]),
    elementTexts_eq (by decide) id (printed_of_zero hid' (zero_not_mem_sourceOf hid)),
    elementTexts_eq (by decide) name (printed_of_zero hname' (zero_not_mem_sourceOf hname)),
    elementTexts_eq (by decide) params (printed_of_zero hparams' (zero_not_mem_sourceOf hparams)),
    hfront, hback, document, fieldsDocument_source]
  simp [elements]

theorem document_wellFormed (ttl dir : Int) (hid : IsText id) (hname : IsText name)
    (hparams : IsText params) : (document ttl dir id name params).WellFormed := by
  have hnumber : ∀ i : Int, IsText (raw (Decimal.ofInt i)) := fun i =>
    isText_raw_plain fun b hb => isPlain_of_plainByte (plain_ofInt i b hb)
  refine fieldsDocument_wellFormed (by decide) ⟨isBlank_newline, isBlank_nil, isBlank_newline⟩
    isBlank_newline fun f hf => ?_
  unfold elements at hf
  simp only [mem_cons, not_mem_nil, or_false] at hf
  rcases hf with rfl | rfl | rfl | rfl | rfl
  · exact ⟨rfl, leafNode_wellFormed (by decide) (hnumber ttl), isBlank_newline⟩
  · exact ⟨rfl, leafNode_wellFormed (by decide) (hnumber dir), isBlank_newline⟩
  · exact ⟨rfl, leafNode_wellFormed (by decide) hid, isBlank_newline⟩
  · exact ⟨rfl, leafNode_wellFormed (by decide) hname, isBlank_newline⟩
  · exact ⟨rfl, leafNode_wellFormed (by decide) hparams, isBlank_newline⟩

/-- A number is read as it was printed. -/
theorem handleTTL_endText (ad : LimitedRangeRdvMessage) {ttl : Int}
    (h : -2 ^ 31 ≤ ttl ∧ ttl < 2 ^ 31) :
    ad.handleTTL (endText (valueOf (raw (Decimal.ofInt ttl)))) = { ad with ttl } := by
  rw [valueOf_raw, endText_of_ne (ofInt_ne_nil ttl)]
  exact handleInt_ofInt (fun ttl => { ad with ttl }) ad h

theorem handleDir_endText (ad : LimitedRangeRdvMessage) {dir : Int}
    (h : -2 ^ 31 ≤ dir ∧ dir < 2 ^ 31) :
    ad.handleDir (endText (valueOf (raw (Decimal.ofInt dir)))) = { ad with dir } := by
  rw [valueOf_raw, endText_of_ne (ofInt_ne_nil dir)]
  exact handleInt_ofInt (fun dir => { ad with dir }) ad h

/-- A text is read trimmed, and it is set. -/
theorem handleString_endText (set : Option (List Byte) → LimitedRangeRdvMessage)
    (ad : LimitedRangeRdvMessage) (s : List Byte) :
    handleString none set ad (endText s) = set (some (jstringTrim s)) := by
  unfold handleString
  rw [if_neg (endText_ne_nil s), Option.getD_none, nil_append, jstringTrim_endText]

variable {Kind : Type} {d : Dialect Kind} {kind : Kind} {parser : Parser}

theorem opening_tags (htables : Tables d kind) {ename : List Byte}
    (h : ename ∈ tags.map Kwdtab.kwd) : d.opening kind [] ename = .keep ⟨ename, .keep⟩ := by
  apply Dialect.opening_keep htables.elements rfl _ rfl
  rw [htables.name]
  simp only [tags, map_cons, map_nil, mem_cons, not_mem_nil, or_false] at h
  rcases h with rfl | rfl | rfl | rfl | rfl | rfl
  · rfl
  · rfl
  · rfl
  · rfl
  · rfl
  · rfl

/-- What is read of a document. -/
theorem parse_document (htables : Tables d kind) (hparser : Conforms parser) {ttl dir : Int}
    (httl : -2 ^ 31 ≤ ttl ∧ ttl < 2 ^ 31) (hdir : -2 ^ 31 ≤ dir ∧ dir < 2 ^ 31) (hid : IsText id)
    (hname : IsText name) (hparams : IsText params) :
    parseCharbuffer d parser kind (document ttl dir id name params).source =
      .ok (⟨ttl, dir, some (jstringTrim (valueOf id)), some (jstringTrim (valueOf name)),
        some (jstringTrim (valueOf params))⟩, .success) := by
  have hone : 1 < maxAdvDepth := Nat.succ_lt_succ (Nat.succ_pos 30)
  have hfields : handlers.Yields (d.actAll (XmlDocument.fields (elements ttl dir id name params)))
      ⟨kind, 1, some ⟨documentName, .keep⟩⟩ 0 new
        ⟨ttl, dir, some (jstringTrim (valueOf id)), some (jstringTrim (valueOf name)),
          some (jstringTrim (valueOf params))⟩ := by
    refine .field (b := ⟨ttl, walkBoth, none, none, none⟩)
      (Handlers.yields_leafNode hone (opening_tags htables (by decide)) rfl ?_) ?_
    · exact congrArg Except.ok (handleTTL_endText _ httl)
    refine .field (b := ⟨ttl, dir, none, none, none⟩)
      (Handlers.yields_leafNode hone (opening_tags htables (by decide)) rfl ?_) ?_
    · exact congrArg Except.ok (handleDir_endText _ hdir)
    refine .field (b := ⟨ttl, dir, some (jstringTrim (valueOf id)), none, none⟩)
      (Handlers.yields_leafNode hone (opening_tags htables (by decide)) rfl ?_) ?_
    · exact congrArg Except.ok (handleString_endText (fun s => ⟨ttl, dir, s, none, none⟩) _ _)
    refine .field (b := ⟨ttl, dir, some (jstringTrim (valueOf id)),
        some (jstringTrim (valueOf name)), none⟩)
      (Handlers.yields_leafNode hone (opening_tags htables (by decide)) rfl ?_) ?_
    · exact congrArg Except.ok (handleString_endText (fun s => ⟨ttl, dir, _, s, none⟩) _ _)
    refine .field (Handlers.yields_leafNode hone (opening_tags htables (by decide)) rfl ?_)
      (Handlers.yields_fields_nil _ 0 _)
    exact congrArg Except.ok (handleString_endText (fun s => ⟨ttl, dir, _, _, s⟩) _ _)
  exact Handlers.parse_document hparser (document_wellFormed ttl dir hid hname hparams)
    (Handlers.yields_fieldsDocument (opening_tags htables (by decide)) rfl hfields
      fun _ _ _ => rfl)

theorem carried_iff (htables : Tables d kind) (hparser : Conforms parser) (hrange : ad.InRange)
    (hmarkup : ad.Markup) : Carried d parser kind ad ↔ ad.Faithful := by
  obtain ⟨⟨id, hid, hid'⟩, ⟨name, hname, hname'⟩, ⟨params, hparams, hparams'⟩⟩ := hmarkup
  have hwrite := writeXml_eq hrange hid hname hparams hid'.symm hname'.symm hparams'.symm
  have hparse := parse_document htables hparser hrange.ttl hrange.dir hid hname hparams
  have hsame : (⟨ad.ttl, ad.dir, some (jstringTrim (valueOf id)), some (jstringTrim (valueOf name)),
      some (jstringTrim (valueOf params))⟩ : LimitedRangeRdvMessage) = ad ↔ ad.Faithful := by
    constructor
    · intro h
      exact ⟨(whole_iff hid hid'.symm).mp (congrArg srcPeerId h),
        (whole_iff hname hname'.symm).mp (congrArg svcName h),
        (whole_iff hparams hparams'.symm).mp (congrArg svcParams h)⟩
    · intro h
      rw [(whole_iff hid hid'.symm).mpr h.srcPeerId, (whole_iff hname hname'.symm).mpr h.svcName,
        (whole_iff hparams hparams'.symm).mpr h.svcParams]
  rw [← hsame]
  constructor
  · intro h
    obtain ⟨xml, hxml, hread⟩ := h
    obtain rfl := Except.ok.inj (hwrite.symm.trans hxml)
    exact congrArg Prod.fst (Except.ok.inj (hparse.symm.trans hread))
  · intro h
    refine ⟨_, hwrite, ?_⟩
    rw [hparse, h]

end Reading

/-- A whole text consists of characters. -/
theorem Faithful.markup {ad : LimitedRangeRdvMessage} (h : ad.Faithful) : ad.Markup :=
  ⟨h.srcPeerId.isMarkup, h.svcName.isMarkup, h.svcParams.isMarkup⟩

end LimitedRangeRdvMessage

/-! ## the propagate header -/

namespace RendezVousPropagateMessage

/-- The texts are set, and printed and read as they are; the peers of the path are words. -/
structure WholeTexts (ad : RendezVousPropagateMessage) : Prop where
  destSName : Whole ad.destSName
  destSParam : Whole ad.destSParam
  messageId : Whole ad.messageId
  path : ∀ peer ∈ ad.path, Word peer

/-- The texts of the header consist of characters and references. -/
structure Markup (ad : RendezVousPropagateMessage) : Prop where
  destSName : IsMarkup (ad.destSName.getD [])
  destSParam : IsMarkup (ad.destSParam.getD [])
  messageId : IsMarkup (ad.messageId.getD [])
  path : ∀ peer ∈ ad.path, IsMarkup peer

/-- Printed and read, the header is the same. -/
def Carried {Kind : Type} (d : Dialect Kind) (parser : Parser) (kind : Kind)
    (ad : RendezVousPropagateMessage) : Prop :=
  ∃ xml, ad.writeXml = .ok xml ∧ parseCharbuffer d parser kind xml = .ok (ad, .success)

section Carrying
variable {ad : RendezVousPropagateMessage} {name param id : List Piece} {path : List (List Piece)}

theorem writeXml_eq (httl : -2 ^ 31 ≤ ad.ttl ∧ ad.ttl < 2 ^ 31) (hname : IsText name)
    (hparam : IsText param) (hid : IsText id) (hpath : ∀ peer ∈ path, IsText peer)
    (hname' : ad.destSName.getD [] = sourceOf name)
    (hparam' : ad.destSParam.getD [] = sourceOf param)
    (hid' : ad.messageId.getD [] = sourceOf id) (hpath' : ad.path = path.map sourceOf) :
    ad.writeXml = .ok (document name param id ad.ttl path).source := by
  have hfront : [some (text "<?xml version=\"1.0\"?>\n"),
      some (text "<!DOCTYPE jxta:RendezVousPropagateMessage>"),
      some (text "<jxta:RendezVousPropagateMessage>\n")].flatMap printed =
        xmlDeclaration ++ text "\n" ++ doctypeStart ++ documentName ++ [62] ++
          (60 :: (documentName ++ [62]) ++ text "\n") := by decide
  have hback : [some (text "</jxta:RendezVousPropagateMessage>\n")].flatMap printed =
      endSource documentName ++ text "\n" := by decide
  have hpeers :
      (ad.path.flatMap fun peer => elementTexts (text "Path") (some peer)).flatMap printed =
      (path.map fun peer => (leafNode (text "Path") peer, text "\n")).flatMap
        fun f => f.1.source ++ f.2 := by
    rw [hpath', flatMap_assoc, flatMap_map, flatMap_map]
    refine flatMap_congr fun peer hpeer => ?_
    exact elementTexts_eq (by decide) peer
      (printed_literal (zero_not_mem_sourceOf (hpath peer hpeer)))
  unfold writeXml
  rw [appendAll_eq, snprintf_eq (by decide) httl]
  refine congrArg Except.ok ?_
  rw [flatMap_append, flatMap_append, flatMap_append, flatMap_append,
    flatMap_append, flatMap_append,
    elementTexts_eq (by decide) name (printed_of_zero hname' (zero_not_mem_sourceOf hname)),
    elementTexts_eq (by decide) param (printed_of_zero hparam' (zero_not_mem_sourceOf hparam)),
    elementTexts_eq (by decide) id (printed_of_zero hid' (zero_not_mem_sourceOf hid)),
    elementTexts_eq (by decide) (raw (Decimal.ofInt ad.ttl)) (by simp [printed_number]),
    hpeers, hfront, hback, document, fieldsDocument_source, printedElements, flatMap_append]
  simp

variable {Kind : Type} {d : Dialect Kind} {kind : Kind} {parser : Parser}

theorem carried_iff (htables : Tables d kind) (hparser : Conforms parser)
    (httl : -2 ^ 31 ≤ ad.ttl ∧ ad.ttl < 2 ^ 31) (hmarkup : ad.Markup) :
    Carried d parser kind ad ↔ ad.WholeTexts := by
  obtain ⟨⟨name, hname, hname'⟩, ⟨param, hparam, hparam'⟩, ⟨id, hid, hid'⟩, hpeers⟩ := hmarkup
  obtain ⟨path, hpath, hpath'⟩ := exists_pieces hpeers
  have hwrite := writeXml_eq httl hname hparam hid hpath hname'.symm hparam'.symm hid'.symm hpath'
  have hparse := parse_document htables hparser httl hname hparam hid hpath
  have hsame : (⟨some (jstringTrim (valueOf name)), some (jstringTrim (valueOf param)),
      some (jstringTrim (valueOf id)), readPath path, ad.ttl⟩ : RendezVousPropagateMessage) = ad ↔
        ad.WholeTexts := by
    have hwords : (∀ peer ∈ ad.path, Word peer) ↔ ∀ peer ∈ path, Word (sourceOf peer) := by
      rw [hpath', forall_mem_map]
    constructor
    · intro h
      exact ⟨(whole_iff hname hname'.symm).mp (congrArg destSName h),
        (whole_iff hparam hparam'.symm).mp (congrArg destSParam h),
        (whole_iff hid hid'.symm).mp (congrArg messageId h),
        hwords.mpr ((readPath_iff hpath).mp ((congrArg RendezVousPropagateMessage.path h).trans
          hpath'))⟩
    · intro h
      rw [(whole_iff hname hname'.symm).mpr h.destSName,
        (whole_iff hparam hparam'.symm).mpr h.destSParam,
        (whole_iff hid hid'.symm).mpr h.messageId,
        (readPath_iff hpath).mpr (hwords.mp h.path), ← hpath']
  rw [← hsame]
  constructor
  · intro h
    obtain ⟨xml, hxml, hread⟩ := h
    obtain rfl := Except.ok.inj (hwrite.symm.trans hxml)
    exact congrArg Prod.fst (Except.ok.inj (hparse.symm.trans hread))
  · intro h
    refine ⟨_, hwrite, ?_⟩
    rw [hparse, h]

end Carrying

theorem WholeTexts.markup {ad : RendezVousPropagateMessage} (h : ad.WholeTexts) : ad.Markup :=
  ⟨h.destSName.isMarkup, h.destSParam.isMarkup, h.messageId.isMarkup,
    fun peer hpeer => ⟨raw peer, (h.path peer hpeer).text, sourceOf_raw peer⟩⟩

end RendezVousPropagateMessage

/-! ## both headers -/

/-- A header is read as it was printed if all its texts are set, trimmed and without markup, and the
peers of its path are words; a text with references is not. And no header that is received makes
the printer fail. -/
theorem headers_carried_iff {Kind : Type} {d : Dialect Kind} {walk propagate : Kind}
    {parser : Parser} (hwalk : LimitedRangeRdvMessage.Tables d walk)
    (hpropagate : RendezVousPropagateMessage.Tables d propagate) (hparser : Conforms parser) :
    (∀ ad : LimitedRangeRdvMessage, ad.InRange →
      (ad.Faithful → ad.Carried d parser walk) ∧
      (ad.Markup → ad.Carried d parser walk → ad.Faithful)) ∧
    (∀ ad : RendezVousPropagateMessage, -2 ^ 31 ≤ ad.ttl ∧ ad.ttl < 2 ^ 31 →
      (ad.WholeTexts → ad.Carried d parser propagate) ∧
      (ad.Markup → ad.Carried d parser propagate → ad.WholeTexts)) ∧
    (∀ buf ad status, LimitedRangeRdvMessage.parseCharbuffer d parser walk buf = .ok (ad, status) →
      ∃ xml, ad.writeXml = .ok xml) ∧
    (∀ buf ad status,
      RendezVousPropagateMessage.parseCharbuffer d parser propagate buf = .ok (ad, status) →
        ∃ xml, ad.writeXml = .ok xml) := by
  refine ⟨fun ad hrange => ⟨fun h => ?_, fun hmarkup h => ?_⟩,
    fun ad httl => ⟨fun h => ?_, fun hmarkup h => ?_⟩, fun _ ad _ _ => ?_, fun _ ad _ _ => ?_⟩
  · exact (LimitedRangeRdvMessage.carried_iff hwalk hparser hrange h.markup).mpr h
  · exact (LimitedRangeRdvMessage.carried_iff hwalk hparser hrange hmarkup).mp h
  · exact (RendezVousPropagateMessage.carried_iff hpropagate hparser httl h.markup).mpr h
  · exact (RendezVousPropagateMessage.carried_iff hpropagate hparser httl hmarkup).mp h
  · exact ⟨_, appendAll_eq _⟩
  · exact ⟨_, appendAll_eq _⟩

/-- The headers of a rendezvous peer. -/
inductive HeaderKind where
  | walk
  | propagate
  deriving DecidableEq

/-- `LimitedRangeRdvMessage_tags`, `RendezVousPropagateMessage_tags`. -/
def headerElements : HeaderKind → List (Dispatch.Kwdtab HeaderKind)
  | .walk => keepers HeaderKind [text "TTL", text "Dir", text "SrcPeerID", text "SrcSvcName",
      text "SrcSvcParams"]
  | .propagate => keepers HeaderKind [text "DestSName", text "DestSParam", text "MessageId",
      text "Path", text "TTL"]

def headerDialect : Dialect HeaderKind where
  documentName
    | .walk => LimitedRangeRdvMessage.documentName
    | .propagate => RendezVousPropagateMessage.documentName
  elements kind := some (headerElements kind)
  globalHandler _ := none
  rank _ := 0
  rank_lt {kind tags k inner} htags hmem hparse := by
    cases htags
    have hkeep : ∀ kind, ∀ k ∈ headerElements kind, k.nodeparse = .keep := by
      intro kind
      cases kind <;> decide
    exact absurd ((hkeep kind k hmem).symm.trans hparse) (by simp)
  switch_table _ _ _ := rfl
  global_table h := absurd h (by simp)

/-- A walk header with these parameters. -/
def walkHeader (svcParams : Option (List Byte)) : LimitedRangeRdvMessage :=
  ⟨5, walkDown, some (text "urn:jxta:uuid-5A03"), some (text "urn:jxta:svc"), svcParams⟩

/-- A propagate header that came by two peers. -/
def propagateHeader : RendezVousPropagateMessage :=
  ⟨some (text "svc"), some [], some (text "4f2a"), [text "uuid-2", text "uuid-1"], 3⟩

theorem walk_tables : LimitedRangeRdvMessage.Tables headerDialect .walk := ⟨rfl, rfl⟩

theorem propagate_tables : RendezVousPropagateMessage.Tables headerDialect .propagate := ⟨rfl, rfl⟩

theorem whole_plain {s : List Byte} (h : Plain s) : Whole (some s) :=
  ⟨s, rfl, RendezVousPropagateMessage.verbatim_plain h⟩

theorem headers_carried_iff_plain :
    (walkHeader (some (text "param"))).Carried headerDialect scan .walk ∧
      propagateHeader.Carried headerDialect scan .propagate := by
  have hall := headers_carried_iff walk_tables propagate_tables scan_conforms
  refine ⟨(hall.1 _ ⟨by decide, by decide⟩).1 ⟨whole_plain ?_, whole_plain ?_, whole_plain ?_⟩,
    (hall.2.1 _ (by decide)).1 ⟨whole_plain ?_, whole_plain ?_, whole_plain ?_, ?_⟩⟩
  · decide
  · decide
  · decide
  · decide
  · decide
  · decide
  · intro peer hpeer
    rcases mem_cons.mp hpeer with rfl | hpeer
    · exact RendezVousPropagateMessage.word_plain (by decide) (by decide)
    · rw [mem_singleton.mp hpeer]
      exact RendezVousPropagateMessage.word_plain (by decide) (by decide)

/-- Parameters that are not set come back empty, and `R&amp;D` comes back as `R&D`. -/
theorem not_headers_carried : ¬(walkHeader none).Carried headerDialect scan .walk ∧
    ¬(walkHeader (some (text "R&amp;D"))).Carried headerDialect scan .walk := by
  have hid : IsMarkup (text "urn:jxta:uuid-5A03") :=
    ⟨raw _, isText_raw_plain (by decide), sourceOf_raw _⟩
  have hname : IsMarkup (text "urn:jxta:svc") :=
    ⟨raw _, isText_raw_plain (by decide), sourceOf_raw _⟩
  have hparams : IsMarkup (text "R&amp;D") := by
    refine ⟨[.byte 82, .amp, .byte 68], ?_, by decide⟩
    exact isText_encoded (s := text "R&D") (representable_printed (by decide)) (by decide)
  have hnil : IsMarkup [] := ⟨raw [], isText_raw_plain (by simp), rfl⟩
  constructor
  · intro h
    have hmarkup : (walkHeader none).Markup := ⟨hid, hname, hnil⟩
    have hfaithful := (LimitedRangeRdvMessage.carried_iff walk_tables scan_conforms
      ⟨by decide, by decide⟩ hmarkup).mp h
    obtain ⟨t, hset, -⟩ := hfaithful.svcParams
    exact absurd hset (by simp [walkHeader])
  · intro h
    have hmarkup : (walkHeader (some (text "R&amp;D"))).Markup := ⟨hid, hname, hparams⟩
    have hfaithful := (LimitedRangeRdvMessage.carried_iff walk_tables scan_conforms
      ⟨by decide, by decide⟩ hmarkup).mp h
    obtain ⟨t, hset, ht⟩ := hfaithful.svcParams
    cases hset
    exact absurd ((isText_raw_iff.mp ht.text).2.1 38 (by decide)) (by decide)

end JxtaC
