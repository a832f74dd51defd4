import JxtaC.DiscoveryQuery.Document
import JxtaC.Propagate

/-
  A propagate header is read back from its document (`parse_getXml`), where its texts stand for
  themselves in a document and are not trimmed, and the peers of its path are words.
-/

namespace JxtaC.RendezVousPropagateMessage

open Lib Lib.XmlDocument Dispatch List

/-- A text that is printed and read as it is. -/
structure Verbatim (s : List Byte) : Prop where
  text : IsText (raw s)
  trimmed : jstringTrim s = s

/-- A peer of the path that is printed and read as it is. -/
structure Word (s : List Byte) : Prop where
  text : IsText (raw s)
  nonempty : s ≠ []
  whole : extractCharData s = s

/-- A header with nothing in it that its document could not hold. -/
structure Faithful (ad : RendezVousPropagateMessage) : Prop where
  destSName : ∃ s, ad.destSName = some s ∧ Verbatim s
  destSParam : ∃ s, ad.destSParam = some s ∧ Verbatim s
  messageId : ∃ s, ad.messageId = some s ∧ Verbatim s
  path : ∀ peer ∈ ad.path, Word peer
  ttl : -2 ^ 31 ≤ ad.ttl ∧ ad.ttl < 2 ^ 31

theorem verbatim_nil : Verbatim [] := ⟨isText_raw_plain (by simp), rfl⟩

theorem verbatim_plain {s : List Byte} (h : Plain s) : Verbatim s :=
  ⟨isText_raw_plain fun b hb => isPlain_of_plainByte (h b hb), jstringTrim_plain h⟩

theorem word_plain {s : List Byte} (h : Plain s) (hne : s ≠ []) : Word s :=
  ⟨isText_raw_plain fun b hb => isPlain_of_plainByte (h b hb), hne, extractCharData_plain h⟩

theorem printed_of_isText {s : List Byte} (h : IsText (raw s)) : printed (some s) = s := by
  have hzero : 0 ∉ s := by
    have hs := h.1
    rw [valueOf_raw] at hs
    exact hs.zero_not_mem
  exact takeWhile_eq_self_iff.mpr fun b hb => decide_eq_true fun heq => hzero (heq ▸ hb)

/-- A word is no white space. -/
theorem extractCharData_endText (s : List Byte) :
    extractCharData (endText s) = extractCharData s := by
  unfold endText
  split
  next h => subst h; rfl
  next => rfl

/-! ## the document -/

/-- What is read of the path. -/
def readPath (path : List (List Piece)) : List (List Byte) :=
  (path.map fun ps => extractCharData (valueOf ps)).filter (· ≠ [])

/-- The elements of the document. -/
def printedElements (name param id : List Piece) (ttl : Int) (path : List (List Piece)) :
    List (Node × List Byte) :=
  [(leafNode (text "DestSName") name, text "\n"), (leafNode (text "DestSParam") param, text "\n"),
    (leafNode (text "MessageId") id, text "\n"),
    (leafNode (text "TTL") (raw (Decimal.ofInt ttl)), text "\n")] ++
    path.map fun peer => (leafNode (text "Path") peer, text "\n")

/-- The document. -/
def document (name param id : List Piece) (ttl : Int) (path : List (List Piece)) : Document :=
  fieldsDocument documentName (text "\n", [], text "\n") (text "\n")
    (printedElements name param id ttl path)

section Reading
variable {name param id : List Piece} {path : List (List Piece)}

theorem printed_wellFormed (ttl : Int) (hname : IsText name) (hparam : IsText param)
    (hid : IsText id) (hpath : ∀ peer ∈ path, IsText peer) :
    (document name param id ttl path).WellFormed := by
  have hnumber : IsText (raw (Decimal.ofInt ttl)) :=
    isText_raw_plain fun b hb => isPlain_of_plainByte (plain_ofInt ttl b hb)
  refine fieldsDocument_wellFormed (by decide) ⟨isBlank_newline, isBlank_nil, isBlank_newline⟩
    isBlank_newline fun f hf => ?_
  unfold printedElements at hf
  rw [mem_append, mem_map] at hf
  rcases hf with hf | ⟨peer, hpeer, rfl⟩
  · simp only [mem_cons, not_mem_nil, or_false] at hf
    rcases hf with rfl | rfl | rfl | rfl
    · exact ⟨rfl, leafNode_wellFormed (by decide) hname, isBlank_newline⟩
    · exact ⟨rfl, leafNode_wellFormed (by decide) hparam, isBlank_newline⟩
    · exact ⟨rfl, leafNode_wellFormed (by decide) hid, isBlank_newline⟩
    · exact ⟨rfl, leafNode_wellFormed (by decide) hnumber, isBlank_newline⟩
  · exact ⟨rfl, leafNode_wellFormed (by decide) (hpath peer hpeer), isBlank_newline⟩

variable {Kind : Type} {d : Dialect Kind} {kind : Kind} {parser : Parser}

theorem opening_tags (htables : Tables d kind) {ename : List Byte}
    (h : ename ∈ tags.map Prod.fst) : d.opening kind [] ename = .keep ⟨ename, .keep⟩ := by
  apply Dialect.opening_keep htables.elements rfl _ rfl
  rw [htables.name]
  simp only [tags, map_cons, map_nil, mem_cons, not_mem_nil, or_false] at h
  rcases h with rfl | rfl | rfl | rfl | rfl | rfl
  · rfl
  · rfl
  · rfl
  · rfl
  · rfl
  · rfl

/-- The peers of the path are read one after the other, those without a word are left out. -/
theorem yields_readPath (htables : Tables d kind) (curr : Option (Dispatch.Kwdtab Kind)) (n : Nat)
    (path : List (List Piece)) (ad : RendezVousPropagateMessage) :
    handlers.Yields
      (d.actAll (fields (path.map fun peer => (leafNode (text "Path") peer, text "\n"))))
      ⟨kind, 1, curr⟩ n ad { ad with path := ad.path ++ readPath path } := by
  have hone : 1 < maxAdvDepth := Nat.succ_lt_succ (Nat.succ_pos 30)
  induction path generalizing ad with
  | nil =>
    rw [show readPath [] = [] from rfl, append_nil]
    exact Handlers.yields_fields_nil _ n _
  | cons peer path ih =>
    have hend : handlers.call ad ⟨n, text "Path", endText (valueOf peer), [], none⟩ =
        .ok (ad.handlePath (endText (valueOf peer))) := rfl
    have hread : (ad.handlePath (endText (valueOf peer))).path ++ readPath path =
        ad.path ++ readPath (peer :: path) := by
      unfold handlePath readPath
      rw [extractCharData_endText, map_cons]
      by_cases hempty : extractCharData (valueOf peer) = []
      · rw [if_pos hempty, filter_cons_of_neg (by simp [hempty])]
      · rw [if_neg hempty, filter_cons_of_pos (by simp [hempty]), append_assoc]
        rfl
    have hsame : { ad.handlePath (endText (valueOf peer)) with
        path := (ad.handlePath (endText (valueOf peer))).path ++ readPath path } =
          { ad with path := ad.path ++ readPath (peer :: path) } := by
      rw [hread]
      unfold handlePath
      split
      · rfl
      · rfl
    have hrest := ih (ad.handlePath (endText (valueOf peer)))
    rw [hsame] at hrest
    exact (Handlers.yields_leafNode hone (opening_tags htables (by decide)) rfl hend).field hrest

theorem appendTrimmed_endText (s : List Byte) :
    DiscoveryQuery.appendTrimmed none (endText s) = some (jstringTrim s) := by
  rw [DiscoveryQuery.appendTrimmed_none (endText_ne_nil s), jstringTrim_endText]

theorem handleTTL_number (ad : RendezVousPropagateMessage) {ttl : Int}
    (h : -2 ^ 31 ≤ ttl ∧ ttl < 2 ^ 31) :
    ad.handleTTL (endText (valueOf (raw (Decimal.ofInt ttl)))) = { ad with ttl } := by
  unfold handleTTL
  rw [valueOf_raw, extractCharData_endText, extractCharData_plain (plain_ofInt ttl),
    if_neg (ofInt_ne_nil ttl), Decimal.atoi_ofInt h.1 h.2]

/-- What is read of a document. -/
theorem parse_document (htables : Tables d kind) (hparser : Conforms parser) {ttl : Int}
    (httl : -2 ^ 31 ≤ ttl ∧ ttl < 2 ^ 31) (hname : IsText name) (hparam : IsText param)
    (hid : IsText id) (hpath : ∀ peer ∈ path, IsText peer) :
    parseCharbuffer d parser kind (document name param id ttl path).source =
      .ok (⟨some (jstringTrim (valueOf name)), some (jstringTrim (valueOf param)),
        some (jstringTrim (valueOf id)), readPath path, ttl⟩, .success) := by
  have hone : 1 < maxAdvDepth := Nat.succ_lt_succ (Nat.succ_pos 30)
  have hfields : handlers.Yields (d.actAll (fields (printedElements name param id ttl path)))
      ⟨kind, 1, some ⟨documentName, .keep⟩⟩ 0 new
        ⟨some (jstringTrim (valueOf name)), some (jstringTrim (valueOf param)),
          some (jstringTrim (valueOf id)), readPath path, ttl⟩ := by
    refine .fields_append (b := ⟨some (jstringTrim (valueOf name)),
      some (jstringTrim (valueOf param)), some (jstringTrim (valueOf id)), [], ttl⟩) ?_
      (yields_readPath htables _ 0 path _)
    refine .field (b := ⟨some (jstringTrim (valueOf name)), none, none, [], 0⟩)
      (Handlers.yields_leafNode hone (opening_tags htables (by decide)) rfl ?_) ?_
    · exact congrArg (fun s => Except.ok (mk s none none [] 0)) (appendTrimmed_endText _)
    refine .field (b := ⟨some (jstringTrim (valueOf name)), some (jstringTrim (valueOf param)),
        none, [], 0⟩)
      (Handlers.yields_leafNode hone (opening_tags htables (by decide)) rfl ?_) ?_
    · exact congrArg (fun s => Except.ok (mk _ s none [] 0)) (appendTrimmed_endText _)
    refine .field (b := ⟨some (jstringTrim (valueOf name)), some (jstringTrim (valueOf param)),
        some (jstringTrim (valueOf id)), [], 0⟩)
      (Handlers.yields_leafNode hone (opening_tags htables (by decide)) rfl ?_) ?_
    · exact congrArg (fun s => Except.ok (mk _ _ s [] 0)) (appendTrimmed_endText _)
    refine .field (Handlers.yields_leafNode hone (opening_tags htables (by decide)) rfl ?_)
      (Handlers.yields_fields_nil _ 0 _)
    exact congrArg Except.ok (handleTTL_number _ httl)
  exact Handlers.parse_document hparser (printed_wellFormed ttl hname hparam hid hpath)
    (Handlers.yields_fieldsDocument (opening_tags htables (by decide)) rfl hfields
      fun _ _ _ => rfl)

end Reading

/-! ## verbatim texts -/

section Verbatim
variable {name param id : List Byte} {ttl : Int} {path : List (List Byte)}

theorem getXml_eq (hname : Verbatim name) (hparam : Verbatim param) (hid : Verbatim id)
    (hpath : ∀ peer ∈ path, Word peer) :
    getXml ⟨some name, some param, some id, path, ttl⟩ =
      (document (raw name) (raw param) (raw id) ttl (path.map raw)).source := by
  have hfront : text "<?xml version=\"1.0\"?>\n" ++
      text "<!DOCTYPE jxta:RendezVousPropagateMessage>" ++
      text "<jxta:RendezVousPropagateMessage>\n" = xmlDeclaration ++ text "\n" ++ doctypeStart ++
        documentName ++ [62] ++ (60 :: (documentName ++ [62]) ++ text "\n") := by decide
  have hback : text "</jxta:RendezVousPropagateMessage>\n" = endSource documentName ++ text "\n" := by
    decide
  have hpeers : (path.flatMap fun peer => element (text "Path") (printed (some peer)) ++ text "\n") =
      ((path.map raw).map fun peer => (leafNode (text "Path") peer, text "\n")).flatMap
        fun f => f.1.source ++ f.2 := by
    rw [flatMap_map, flatMap_map]
    refine flatMap_congr fun peer hpeer => ?_
    rw [element_eq, sourceOf_raw, printed_of_isText (hpath peer hpeer).text]
  unfold getXml
  rw [hfront, hback, hpeers, printed_of_isText hname.text, printed_of_isText hparam.text,
    printed_of_isText hid.text, document, fieldsDocument_source, printedElements, flatMap_append]
  simp [element_eq]

/-- A header is read back from its document. -/
theorem parse_getXml {Kind : Type} {d : Dialect Kind} {kind : Kind} (htables : Tables d kind)
    {parser : Parser} (hparser : Conforms parser) {ad : RendezVousPropagateMessage}
    (h : ad.Faithful) : parseCharbuffer d parser kind ad.getXml = .ok (ad, .success) := by
  obtain ⟨name, param, id, path, ttl⟩ := ad
  obtain ⟨⟨name, rfl, hname⟩, ⟨param, rfl, hparam⟩, ⟨id, rfl, hid⟩, hpath, httl⟩ := h
  have htrim : ∀ {s : List Byte}, Verbatim s → jstringTrim (valueOf (raw s)) = s := fun hs => by
    rw [valueOf_raw, hs.trimmed]
  have hread : readPath (path.map raw) = path := by
    have hwords : (path.map raw).map (fun ps => extractCharData (valueOf ps)) = path := by
      rw [map_map]
      refine (map_congr_left fun peer hpeer => ?_).trans (map_id path)
      rw [Function.comp_apply, valueOf_raw, (hpath peer hpeer).whole, id_eq]
    unfold readPath
    rw [hwords, filter_eq_self]
    exact fun peer hpeer => decide_eq_true (hpath peer hpeer).nonempty
  have htexts : ∀ peer ∈ path.map raw, IsText peer :=
    forall_mem_map.mpr fun peer hpeer => (hpath peer hpeer).text
  rw [getXml_eq hname hparam hid hpath, parse_document htables hparser httl hname.text hparam.text
    hid.text htexts, htrim hname, htrim hparam, htrim hid, hread]

end Verbatim

end JxtaC.RendezVousPropagateMessage
