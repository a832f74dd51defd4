import JxtaC.Advertisement.AccessPoints
import JxtaC.DiscoveryQuery

/-
  The document of a discovery query: what the handlers read from it (`parse_document`). Texts that are
  printed as they are may hold references, which are resolved when they are read.
-/

namespace JxtaC

open Lib Lib.XmlDocument Dispatch List
variable {ps : List Piece}

/-! ## numbers -/

theorem digitsValue_ten (s : List Byte) :
    digitsValue 10 s = Decimal.value (s.takeWhile Decimal.isDigit) := by
  have hdigit : ∀ b : Byte, decide (digitValue b < 10) = Decimal.isDigit b := by
    have h : ∀ n < 256, decide (digitValue (UInt8.ofNat n) < 10) =
        Decimal.isDigit (UInt8.ofNat n) := by decide +kernel
    exact @JxtaId.byte_cases (fun b => decide (digitValue b < 10) = Decimal.isDigit b) h
  have htake : (s.takeWhile fun b => digitValue b < 10) = s.takeWhile Decimal.isDigit := by
    simp only [hdigit]
  unfold digitsValue Decimal.value
  rw [htake]
  refine foldl_ext _ _ 0 fun v b hb => ?_
  have hb := mem_takeWhile_imp hb
  simp only [Decimal.isDigit, decide_eq_true_eq] at hb
  simp [digitValue, hb]

/-- A number is read back by `strtol` from its digits, which say that the base is ten. -/
theorem strtol0_ofInt {i : Int} (hlow : -2 ^ 63 ≤ i) (hhigh : i < 2 ^ 63) {rest : List Byte}
    (hrest : rest = [] ∨ rest = text "\n") : strtol0 (Decimal.ofInt i ++ rest) = i := by
  have hends : Decimal.Ends rest := by
    rcases hrest with rfl | rfl
    · exact Decimal.ends_nil
    · intro b hb
      cases hb
      rfl
  have hprefixed : ∀ n : Nat, prefixedValue (Decimal.ofNat n ++ rest) = n := by
    intro n
    rcases Nat.eq_zero_or_pos n with rfl | hn
    · rcases hrest with rfl | rfl <;> decide
    · have hhead := Decimal.head_ofNat hn
      have hten : prefixedValue (Decimal.ofNat n ++ rest) = digitsValue 10 (Decimal.ofNat n ++ rest) := by
        cases hds : Decimal.ofNat n with
        | nil => exact absurd hds (Decimal.ofNat_ne_nil n)
        | cons b ds =>
          rw [hds] at hhead
          have hb : b ≠ 48 := fun h => hhead (congrArg some h)
          unfold prefixedValue
          split
          next heq => exact absurd (List.cons.inj heq).1 hb
          next heq => exact absurd (List.cons.inj heq).1 hb
          next => rfl
      rw [hten, digitsValue_ten, Decimal.takeWhile_ofNat n hends, Decimal.value_ofNat]
  unfold strtol0
  cases i with
  | ofNat n =>
    have hnumber := hprefixed n
    have hofInt : Decimal.ofInt (.ofNat n) = Decimal.ofNat n := rfl
    rw [hofInt]
    cases hds : Decimal.ofNat n with
    | nil => exact absurd hds (Decimal.ofNat_ne_nil n)
    | cons b ds =>
      have hb : Decimal.isDigit b = true :=
        Decimal.isDigit_of_mem (n := n) (hds ▸ mem_cons_self)
      obtain ⟨hspace, hminus, hplus⟩ := Decimal.not_space_of_digit hb
      rw [hds] at hnumber
      rw [cons_append] at hnumber ⊢
      rw [dropWhile_cons_of_neg (by simp [hspace])]
      split
      next heq => exact absurd (List.cons.inj heq).1 hminus
      next heq => exact absurd (List.cons.inj heq).1 hplus
      next =>
        rw [hnumber]
        simp only [Int.ofNat_eq_natCast] at *
        omega
  | negSucc n =>
    have hofInt : Decimal.ofInt (.negSucc n) ++ rest = 45 :: (Decimal.ofNat (n + 1) ++ rest) := rfl
    rw [hofInt, dropWhile_cons_of_neg (by decide)]
    show max (-2 ^ 63) (min (2 ^ 63 - 1) (-(prefixedValue (Decimal.ofNat (n + 1) ++ rest) : Int))) =
      Int.negSucc n
    rw [hprefixed (n + 1)]
    omega

/-! ## texts -/

theorem isPlain_of_plainByte {b : Byte} (h : plainByte b = true) : isPlain b = true := by
  have hall : ∀ n < 256, plainByte (UInt8.ofNat n) = true → isPlain (UInt8.ofNat n) = true := by
    decide +kernel
  exact @JxtaId.byte_cases (fun b => plainByte b = true → isPlain b = true) hall b h

/-- A number and the end of its line. -/
theorem isText_number (i : Int) : IsText (raw (Decimal.ofInt i ++ text "\n")) := by
  refine isText_raw_plain fun b hb => ?_
  rcases mem_append.mp hb with hb | hb
  · exact isPlain_of_plainByte (plain_ofInt i b hb)
  · obtain rfl := mem_singleton.mp hb
    rfl

/-- White space behind a text is trimmed. -/
theorem jstringTrim_append_newline (s : List Byte) :
    jstringTrim (s ++ text "\n") = jstringTrim s := by
  have hrev : ∀ t : List Byte, ((t ++ text "\n").reverse.dropWhile Decimal.isSpace) =
      t.reverse.dropWhile Decimal.isSpace := by
    intro t
    rw [reverse_append]
    rfl
  unfold jstringTrim
  by_cases h : ∀ b ∈ s, Decimal.isSpace b = true
  · have hs : s.dropWhile Decimal.isSpace = [] := dropWhile_eq_nil_iff.mpr h
    have hsn : (s ++ text "\n").dropWhile Decimal.isSpace = [] := by
      refine dropWhile_eq_nil_iff.mpr fun b hb => ?_
      rcases mem_append.mp hb with hb | hb
      · exact h b hb
      · obtain rfl := mem_singleton.mp hb
        rfl
    rw [hs, hsn]
  · have hdrop : (s ++ text "\n").dropWhile Decimal.isSpace =
        s.dropWhile Decimal.isSpace ++ text "\n" := by
      rw [dropWhile_append, if_neg]
      rw [List.isEmpty_iff, dropWhile_eq_nil_iff]
      exact h
    rw [hdrop, hrev]

/-- A text that begins and ends with others than white space is not trimmed. -/
theorem jstringTrim_of_ends {b c : Byte} (hb : Decimal.isSpace b = false)
    (hc : Decimal.isSpace c = false) (s : List Byte) :
    jstringTrim (b :: (s ++ [c])) = b :: (s ++ [c]) := by
  have hrev : (b :: (s ++ [c])).reverse = c :: (s.reverse ++ [b]) := by simp
  unfold jstringTrim
  rw [dropWhile_cons_of_neg (by simp [hb]), hrev, dropWhile_cons_of_neg (by simp [hc]),
    ← hrev, reverse_reverse]

/-- A document without the line end behind it. -/
theorem jstringTrim_fieldsDocument (name before between space : List Byte)
    (fs : List (Node × List Byte)) :
    jstringTrim (fieldsDocument name (before, between, text "\n") space fs).source =
      (fieldsDocument name (before, between, []) space fs).source := by
  have hnewline : (fieldsDocument name (before, between, text "\n") space fs).source =
      (fieldsDocument name (before, between, []) space fs).source ++ text "\n" := by
    simp [fieldsDocument_source]
  have hends : ∃ s, (fieldsDocument name (before, between, []) space fs).source =
      60 :: (s ++ [62]) := by
    refine ⟨xmlDeclaration.tail ++ (before ++ (doctypeStart ++ (name ++ ([62] ++ (between ++
      (60 :: (name ++ [62]) ++ (space ++ (fs.flatMap (fun f => f.1.source ++ f.2) ++
        60 :: 47 :: name)))))))), ?_⟩
    have hdeclaration : xmlDeclaration = 60 :: xmlDeclaration.tail := rfl
    rw [fieldsDocument_source, hdeclaration]
    simp [endSource]
  obtain ⟨s, hs⟩ := hends
  rw [hnewline, jstringTrim_append_newline, hs, jstringTrim_of_ends (by decide) (by decide)]

/-- References make a text longer. -/
theorem valueOf_eq_sourceOf (h : (sourceOf ps).length ≤ (valueOf ps).length) :
    ps = raw (sourceOf ps) := by
  have hle : ∀ ps : List Piece, (valueOf ps).length ≤ (sourceOf ps).length := by
    intro ps
    induction ps with
    | nil => exact Nat.le_refl 0
    | cons piece ps ih =>
      have hpiece : 1 ≤ piece.source.length := by cases piece <;> simp [Piece.source]
      show (valueOf ps).length + 1 ≤ (piece.source ++ sourceOf ps).length
      rw [length_append]
      omega
  induction ps with
  | nil => rfl
  | cons piece ps ih =>
    have hps := hle ps
    have hlen : (piece.source ++ sourceOf ps).length ≤ (valueOf ps).length + 1 := h
    rw [length_append] at hlen
    cases piece with
    | byte b =>
      have ih := ih (by simpa [Piece.source, Nat.add_comm] using hlen)
      exact congrArg (.byte b :: ·) ih
    | lt | gt | amp =>
      simp [Piece.source] at hlen
      omega

/-- A text of a document: what is printed as it is, for some characters and references. -/
def IsMarkup (s : List Byte) : Prop := ∃ ps, IsText ps ∧ sourceOf ps = s

/-- If what is read of it is the text itself, there are no references in it. -/
theorem raw_of_trim (h : jstringTrim (valueOf ps) = sourceOf ps) : ps = raw (sourceOf ps) :=
  valueOf_eq_sourceOf (h ▸ jstringTrim_length_le (valueOf ps))

/-- The reference of a byte, if it has one. -/
theorem encodeJstring_eq {s : List Byte} (hs : 0 ∉ s) : encodeJstring s = sourceOf (encoded s) := by
  have htake : s.takeWhile (· ≠ 0) = s :=
    takeWhile_eq_self_iff.mpr fun b hb => decide_eq_true fun h : b = 0 => hs (h ▸ hb)
  unfold encodeJstring sourceOf encoded
  rw [htake, flatMap_map]
  refine flatMap_congr fun b _ => ?_
  split_ifs <;> rfl

/-! ## the document -/

/-- The element for a text, where there is one that is not empty. -/
def optionalNode (name : List Byte) (ps : Option (List Piece)) (behind : List Byte) :
    List (Node × List Byte) :=
  if ps.getD [] = [] then [] else [(leafNode name (ps.getD []), behind)]

theorem sourceOf_eq_nil : sourceOf ps = [] ↔ ps = [] := by
  cases ps with
  | nil => simp
  | cons piece ps => cases piece <;> simp [sourceOf, Piece.source]

theorem optionalNode_source (name : List Byte) (ps : Option (List Piece)) (behind : List Byte) :
    ((optionalNode name ps behind).flatMap fun f => f.1.source ++ f.2) =
      DiscoveryQuery.optionalElement name id (ps.map sourceOf) behind := by
  unfold optionalNode DiscoveryQuery.optionalElement
  cases ps with
  | none => rfl
  | some ps =>
    simp only [Option.getD_some, Option.map_some, sourceOf_eq_nil]
    split
    · rfl
    · simp [element_eq]

theorem optionalNode_wellFormed {name : List Byte} {ps : Option (List Piece)} {behind : List Byte}
    (hname : IsName name) (hps : ∀ qs, ps = some qs → IsText qs) (hbehind : IsBlank behind) :
    ∀ f ∈ optionalNode name ps behind, f.1.isChars = false ∧ f.1.WellFormed ∧ IsBlank f.2 := by
  intro f hf
  unfold optionalNode at hf
  split at hf
  · simp at hf
  · next hne =>
    obtain rfl := mem_singleton.mp hf
    cases ps with
    | none => exact absurd rfl hne
    | some qs => exact ⟨rfl, leafNode_wellFormed hname (hps qs rfl), hbehind⟩

/-- What is read of an optional text. -/
def readOptional (ps : Option (List Piece)) : Option (List Byte) :=
  if ps.getD [] = [] then none else some (jstringTrim (valueOf (ps.getD [])))

theorem yields_optional {Kind Ad : Type} {h : Handlers Ad} {d : Dialect Kind} {kind : Kind}
    {name : List Byte} (curr : Option (Dispatch.Kwdtab Kind)) {n : Nat}
    (hopen : d.opening kind [] name = .keep ⟨name, .keep⟩) (f : Option (List Byte) → Ad)
    (hstart : h.call (f none) ⟨n, name, [], [], none⟩ = .ok (f none))
    (hend : ∀ t, t ≠ [] → h.call (f none) ⟨n, name, t, [], none⟩ = .ok (f (some (jstringTrim t))))
    (ps : Option (List Piece)) (behind : List Byte) :
    h.Yields (d.actAll (fields (optionalNode name ps behind))) ⟨kind, 1, curr⟩ n (f none)
      (f (readOptional ps)) := by
  have hone : 1 < maxAdvDepth := Nat.succ_lt_succ (Nat.succ_pos 30)
  unfold optionalNode readOptional
  split
  · exact Handlers.yields_fields_nil _ n _
  · refine (Handlers.yields_leafNode hone hopen hstart ?_).field (Handlers.yields_fields_nil _ n _)
    rw [hend _ (endText_ne_nil _), jstringTrim_endText]

namespace DiscoveryQuery
variable {q : DiscoveryQuery} {attr value : Option (List Piece)}

/-- The elements of the document; the attribute and the value are printed as they are. -/
def elements (q : DiscoveryQuery) (attr value : Option (List Piece)) : List (Node × List Byte) :=
  [(leafNode (text "Type") (raw (Decimal.ofInt q.type ++ text "\n")), text "\n"),
    (leafNode (text "Threshold") (raw (Decimal.ofInt q.threshold ++ text "\n")), text "\n")] ++
    ((match q.peerAdv with
    | some peerAdv => [(leafNode (text "PeerAdv") (encoded peerAdv), text "\n")]
    | none => []) ++
    (optionalNode (text "Attr") attr (text "\n") ++
    (optionalNode (text "Value") value (text "\n") ++
    optionalNode (text "ExtendedQuery") (q.extendedQuery.map encoded) [])))

/-- The document, with white space behind it. -/
def document (q : DiscoveryQuery) (attr value : Option (List Piece)) (behind : List Byte) :
    Document :=
  fieldsDocument documentName (text "\n", [], behind) (text "\n") (q.elements attr value)

/-- The texts that are escaped have nothing in them that a document cannot hold. -/
structure Representable (q : DiscoveryQuery) : Prop where
  peerAdv : ∀ s, q.peerAdv = some s → XmlDocument.Representable s ∧ 0 ∉ s ∧ 13 ∉ s
  extendedQuery : ∀ s, q.extendedQuery = some s → XmlDocument.Representable s ∧ 0 ∉ s ∧ 13 ∉ s

theorem getXml_eq (hq : q.Representable) (hattr : q.attr = attr.map sourceOf)
    (hvalue : q.value = value.map sourceOf) :
    q.getXml = (q.document attr value (text "\n")).source := by
  have hfront : text "<?xml version=\"1.0\"?>\n" ++ text "<!DOCTYPE jxta:DiscoveryQuery>" ++
      text "<jxta:DiscoveryQuery>\n" = xmlDeclaration ++ text "\n" ++ doctypeStart ++
        documentName ++ [62] ++ (60 :: (documentName ++ [62]) ++ text "\n") := by decide
  have hback : text "</jxta:DiscoveryQuery>\n" = endSource documentName ++ text "\n" := by decide
  have hextended : optionalElement (text "ExtendedQuery") encodeJstring q.extendedQuery [] =
      optionalElement (text "ExtendedQuery") id ((q.extendedQuery.map encoded).map sourceOf) [] := by
    unfold optionalElement
    cases hext : q.extendedQuery with
    | none => rfl
    | some s =>
      have hs := (hq.extendedQuery s hext).2.1
      have hnil : sourceOf (encoded s) = [] ↔ s = [] := by simp [sourceOf_eq_nil, encoded]
      simp [encodeJstring_eq hs, hnil]
  unfold getXml document
  rw [hfront, hback, hextended, hattr, hvalue, fieldsDocument_source, elements, flatMap_append,
    flatMap_append, flatMap_append, flatMap_append, optionalNode_source,
    optionalNode_source, optionalNode_source]
  cases hpeer : q.peerAdv with
  | none => simp [element_eq]
  | some s => simp [element_eq, encodeJstring_eq (hq.peerAdv s hpeer).2.1]

/-- What is read of a query. -/
def received (q : DiscoveryQuery) (attr value : Option (List Piece)) : DiscoveryQuery :=
  ⟨q.type, q.threshold, q.peerAdv.map endText, readOptional attr, readOptional value,
    readOptional (q.extendedQuery.map encoded)⟩

theorem document_wellFormed (hq : q.Representable) (hattr : ∀ ps, attr = some ps → IsText ps)
    (hvalue : ∀ ps, value = some ps → IsText ps) {behind : List Byte} (hbehind : IsBlank behind) :
    (q.document attr value behind).WellFormed := by
  refine fieldsDocument_wellFormed (by decide) ⟨isBlank_newline, isBlank_nil, hbehind⟩ isBlank_newline
    fun f hf => ?_
  unfold elements at hf
  simp only [mem_append, mem_cons, not_mem_nil, or_false] at hf
  rcases hf with (rfl | rfl) | hf | hf | hf | hf
  · exact ⟨rfl, leafNode_wellFormed (by decide) (isText_number _), isBlank_newline⟩
  · exact ⟨rfl, leafNode_wellFormed (by decide) (isText_number _), isBlank_newline⟩
  · cases hpeer : q.peerAdv with
    | none => simp [hpeer] at hf
    | some s =>
      rw [hpeer] at hf
      obtain rfl := mem_singleton.mp hf
      obtain ⟨hs, -, hcr⟩ := hq.peerAdv s hpeer
      exact ⟨rfl, leafNode_wellFormed (by decide) (isText_encoded hs hcr), isBlank_newline⟩
  · exact optionalNode_wellFormed (by decide) hattr isBlank_newline f hf
  · exact optionalNode_wellFormed (by decide) hvalue isBlank_newline f hf
  · refine optionalNode_wellFormed (by decide) (fun ps hps => ?_) (by decide) f hf
    obtain ⟨s, hs, rfl⟩ := Option.map_eq_some_iff.mp hps
    exact isText_encoded (hq.extendedQuery s hs).1 (hq.extendedQuery s hs).2.2

/-- The numbers of a query fit their types. -/
structure InRange (q : DiscoveryQuery) : Prop where
  type : -2 ^ 15 ≤ q.type ∧ q.type < 2 ^ 15
  threshold : -2 ^ 31 ≤ q.threshold ∧ q.threshold < 2 ^ 31

theorem extractCharData_number (i : Int) :
    extractCharData (Decimal.ofInt i ++ text "\n") ≠ [] := by
  have hplain := plain_ofInt i
  have hne := ofInt_ne_nil i
  revert hplain hne
  generalize Decimal.ofInt i = s
  intro hplain hne
  cases s with
  | nil => exact absurd rfl hne
  | cons b s =>
    obtain ⟨hspace, hzero⟩ := not_space_of_plain (hplain b mem_cons_self)
    unfold extractCharData
    rw [cons_append, dropWhile_cons_of_neg (by simp [hspace]),
      takeWhile_cons_of_pos (by simp [hspace, hzero])]
    exact cons_ne_nil _ _

theorem number_ne_nil (i : Int) : Decimal.ofInt i ++ text "\n" ≠ [] := by
  simp [ofInt_ne_nil]

theorem handleType_number {i : Int} (hi : -2 ^ 15 ≤ i ∧ i < 2 ^ 15) :
    q.handleType (endText (valueOf (raw (Decimal.ofInt i ++ text "\n")))) = { q with type := i } := by
  unfold handleType
  rw [valueOf_raw, endText_of_ne (number_ne_nil i), if_neg (not_or.mpr
    ⟨number_ne_nil i, extractCharData_number i⟩), strtol0_ofInt (by omega) (by omega) (.inr rfl),
    Int.bmod_eq_of_le (by omega) (by omega)]

theorem handleThreshold_number {i : Int} (hi : -2 ^ 31 ≤ i ∧ i < 2 ^ 31) :
    q.handleThreshold (endText (valueOf (raw (Decimal.ofInt i ++ text "\n")))) =
      { q with threshold := i } := by
  unfold handleThreshold
  rw [valueOf_raw, endText_of_ne (number_ne_nil i), if_neg (not_or.mpr
    ⟨number_ne_nil i, extractCharData_number i⟩), strtol0_ofInt (by omega) (by omega) (.inr rfl),
    Int.bmod_eq_of_le (by omega) (by omega)]

theorem appendTrimmed_none {t : List Byte} (ht : t ≠ []) :
    appendTrimmed none t = some (jstringTrim t) := if_neg ht

/-- What is read of the document of a query. -/
theorem parse_document {Kind : Type} {d : Dialect Kind} {kind : Kind} (htables : Tables d kind)
    {parser : Parser} (hparser : Conforms parser) (hrange : q.InRange) (hq : q.Representable)
    (hattr : ∀ ps, attr = some ps → IsText ps) (hvalue : ∀ ps, value = some ps → IsText ps)
    {behind : List Byte} (hbehind : IsBlank behind) :
    parseCharbuffer d parser kind (q.document attr value behind).source =
      .ok (q.received attr value, .success) := by
  have hone : 1 < maxAdvDepth := Nat.succ_lt_succ (Nat.succ_pos 30)
  have hopen : ∀ name ∈ [documentName, text "Type", text "Threshold", text "PeerAdv", text "Attr",
      text "Value", text "ExtendedQuery"], d.opening kind [] name = .keep ⟨name, .keep⟩ := by
    intro name hname
    refine Dialect.opening_keep htables.elements rfl ?_ rfl
    rw [htables.name]
    simp only [mem_cons, not_mem_nil, or_false] at hname
    rcases hname with rfl | rfl | rfl | rfl | rfl | rfl | rfl <;> rfl
  have hfields : handlers.Yields (d.actAll (fields (q.elements attr value)))
      ⟨kind, 1, some ⟨documentName, .keep⟩⟩ 0 new (q.received attr value) := by
    unfold elements
    refine .fields_append (b := ⟨q.type, q.threshold, none, none, none, none⟩) ?_ ?_
    · refine .field (b := ⟨q.type, 0, none, none, none, none⟩)
        (Handlers.yields_leafNode hone (hopen _ (by simp)) rfl ?_) ?_
      · exact congrArg Except.ok (handleType_number hrange.type)
      refine .field (Handlers.yields_leafNode hone (hopen _ (by simp)) rfl ?_)
        (Handlers.yields_fields_nil _ 0 _)
      exact congrArg Except.ok (handleThreshold_number hrange.threshold)
    refine .fields_append
      (b := ⟨q.type, q.threshold, q.peerAdv.map endText, none, none, none⟩) ?_ ?_
    · cases q.peerAdv with
      | none => exact Handlers.yields_fields_nil _ 0 _
      | some s =>
        refine .field (Handlers.yields_leafNode hone (hopen _ (by simp)) rfl ?_)
          (Handlers.yields_fields_nil _ 0 _)
        refine congrArg Except.ok ?_
        show handlePeerAdv _ (endText (valueOf (encoded s))) = _
        unfold handlePeerAdv
        rw [if_neg (endText_ne_nil _), valueOf_encoded]
        rfl
    have hattr := yields_optional (h := handlers) (n := 0) (some ⟨documentName, .keep⟩)
      (hopen (text "Attr") (by simp))
      (fun attr => DiscoveryQuery.mk q.type q.threshold (q.peerAdv.map endText) attr none none) rfl
      (fun t ht => congrArg (fun attr => Except.ok (DiscoveryQuery.mk q.type q.threshold
        (q.peerAdv.map endText) attr none none)) (appendTrimmed_none ht)) attr (text "\n")
    have hvalue := yields_optional (h := handlers) (n := 0) (some ⟨documentName, .keep⟩)
      (hopen (text "Value") (by simp))
      (fun value => DiscoveryQuery.mk q.type q.threshold (q.peerAdv.map endText)
        (readOptional attr) value none) rfl
      (fun t ht => congrArg (fun value => Except.ok (DiscoveryQuery.mk q.type q.threshold
        (q.peerAdv.map endText) (readOptional attr) value none)) (appendTrimmed_none ht)) value (text "\n")
    have hextended := yields_optional (h := handlers) (n := 0) (some ⟨documentName, .keep⟩)
      (hopen (text "ExtendedQuery") (by simp))
      (fun extended => DiscoveryQuery.mk q.type q.threshold (q.peerAdv.map endText)
        (readOptional attr) (readOptional value) extended) rfl
      (fun t ht => congrArg (fun extended => Except.ok (DiscoveryQuery.mk q.type q.threshold
        (q.peerAdv.map endText) (readOptional attr) (readOptional value) extended)) (appendTrimmed_none ht))
      (q.extendedQuery.map encoded) []
    exact hattr.fields_append (hvalue.fields_append hextended)
  have hparse := Handlers.parse_document hparser (document_wellFormed hq hattr hvalue hbehind)
    (Handlers.yields_fieldsDocument (hopen _ (by simp)) rfl hfields fun _ _ _ => rfl)
  unfold parseCharbuffer
  rw [document] at hparse ⊢
  rw [hparse]
  rfl

end DiscoveryQuery

end JxtaC
