import JxtaC.Lib.XmlDocument

/-
  Texts that need no references, and documents whose elements stand between white space: their
  source, and when they are well-formed. The source of a well-formed document is a text itself
  (`Document.WellFormed.clean`), so that it can be carried by another one.
  Nothing here depends on the modelled code.
-/

namespace JxtaC.Lib.XmlDocument

open List
variable {s : List UInt8} {ps : List Piece} {fs : List (Node × List UInt8)} {name : List UInt8}

/-! ## texts -/

/-- A byte of ASCII that stands for itself between tags. -/
def isPlain (b : UInt8) : Bool :=
  (b = 10 ∨ 32 ≤ b.toNat ∧ b.toNat ≤ 126) ∧ b ≠ 60 ∧ b ≠ 62 ∧ b ≠ 38

theorem utf8_ascii {n : Nat} (h : n < 128) :
    String.utf8EncodeChar (Char.ofNat n) = [UInt8.ofNat n] := by
  revert n
  decide +kernel

theorem isChar_ascii {n : Nat} (h : n < 128) (hn : n = 10 ∨ 32 ≤ n) : IsChar (Char.ofNat n) := by
  revert n
  decide +kernel

/-- The bytes of a character beyond ASCII are beyond ASCII. -/
theorem utf8_high {c : Char} (h : 128 ≤ c.toNat) :
    ∀ b ∈ String.utf8EncodeChar c, 128 ≤ b.toNat := by
  intro b hb
  have hc : ¬ c.toNat ≤ 0x7f := by omega
  unfold String.utf8EncodeChar at hb
  simp only [Char.toNat] at *
  simp only [hc] at hb
  simp at hb
  split_ifs at hb <;> simp at hb <;> rcases hb with rfl | rfl | rfl | rfl <;> simp <;> omega

theorem utf8_low {c : Char} (h : c.toNat < 128) :
    String.utf8EncodeChar c = [UInt8.ofNat c.toNat] := by
  have hchar := utf8_ascii h
  rwa [Char.ofNat_toNat] at hchar

theorem representable_nil : Representable [] := ⟨[], rfl, by simp⟩

theorem Representable.append {t : List UInt8} (hs : Representable s) (ht : Representable t) :
    Representable (s ++ t) := by
  obtain ⟨cs, rfl, hcs⟩ := hs
  obtain ⟨ds, rfl, hds⟩ := ht
  refine ⟨cs ++ ds, flatMap_append.symm, fun c hc => ?_⟩
  exact (mem_append.mp hc).elim (hcs c) (hds c)

/-- A byte of ASCII that can stand in a document. -/
def isPrinted (b : UInt8) : Bool := b = 10 ∨ 32 ≤ b.toNat ∧ b.toNat ≤ 126

theorem representable_printed (hs : ∀ b ∈ s, isPrinted b = true) : Representable s := by
  have hbyte : ∀ b ∈ s, b.toNat < 128 ∧ (b.toNat = 10 ∨ 32 ≤ b.toNat) := by
    intro b hb
    have h := hs b hb
    simp only [isPrinted, decide_eq_true_eq] at h
    rcases h with rfl | h
    · decide
    · omega
  refine ⟨s.map fun b => Char.ofNat b.toNat, ?_, ?_⟩
  · rw [flatMap_map]
    calc s = s.flatMap fun b => [b] := (flatMap_singleton' s).symm
      _ = s.flatMap fun b => String.utf8EncodeChar (Char.ofNat b.toNat) := by
        refine flatMap_congr fun b hb => ?_
        rw [utf8_ascii (hbyte b hb).1, UInt8.ofNat_toNat]
  · intro c hc
    obtain ⟨b, hb, rfl⟩ := mem_map.mp hc
    exact isChar_ascii (hbyte b hb).1 (hbyte b hb).2

theorem Representable.zero_not_mem (hs : Representable s) : 0 ∉ s := by
  obtain ⟨cs, rfl, hcs⟩ := hs
  intro hmem
  obtain ⟨c, hc, hb⟩ := mem_flatMap.mp hmem
  have hchar := (hcs c hc).1
  rcases Nat.lt_or_ge c.toNat 128 with h | h
  · rw [utf8_low h, mem_singleton] at hb
    have hzero : c.toNat = 0 := by
      have hb := congrArg UInt8.toNat hb
      rw [UInt8.toNat_ofNat_of_lt' (show c.toNat < 256 by omega)] at hb
      exact hb.symm
    have hc : c = Char.ofNat 0 := by rw [← hzero, Char.ofNat_toNat]
    subst hc
    exact absurd hchar (by decide)
  · exact absurd (utf8_high h 0 hb) (by decide)

/-- A text with references is a text of characters too. -/
theorem representable_sourceOf (hps : Representable (valueOf ps)) :
    Representable (sourceOf ps) := by
  obtain ⟨cs, hps, hcs⟩ := hps
  induction cs generalizing ps with
  | nil =>
    obtain rfl := map_eq_nil_iff.mp hps
    exact representable_nil
  | cons c cs ih =>
    rw [flatMap_cons] at hps
    obtain ⟨qs, rs, rfl, hqs, hrs⟩ := map_eq_append_iff.mp hps
    have hrest := ih hrs fun d hd => hcs d (mem_cons_of_mem c hd)
    rw [sourceOf_append]
    refine Representable.append ?_ hrest
    by_cases hbytes : ∀ piece ∈ qs, ∃ b, piece = .byte b
    · have hqs' : sourceOf qs = String.utf8EncodeChar c := by
        rw [← hqs]
        refine (flatMap_congr fun piece hpiece => ?_).trans (map_eq_flatMap ..).symm
        obtain ⟨b, rfl⟩ := hbytes piece hpiece
        rfl
      exact ⟨[c], by rw [hqs', flatMap_singleton], fun d hd =>
        hcs d (mem_singleton.mp hd ▸ mem_cons_self)⟩
    · -- a reference stands for a character of ASCII
      have hlow : c.toNat < 128 := by
        by_contra hhigh
        refine hbytes fun piece hpiece => ?_
        have hb : 128 ≤ piece.value.toNat :=
          utf8_high (by omega) _ (hqs ▸ mem_map_of_mem hpiece)
        cases piece with
        | byte b => exact ⟨b, rfl⟩
        | lt | gt | amp => exact absurd hb (by decide)
      rw [utf8_low hlow] at hqs
      obtain ⟨piece, rfl, -⟩ := map_eq_singleton_iff.mp hqs
      cases piece with
      | byte b => exact absurd (fun piece hpiece => ⟨b, mem_singleton.mp hpiece⟩) hbytes
      | lt | gt | amp => exact representable_printed (by decide)

theorem isText_raw_plain (hs : ∀ b ∈ s, isPlain b = true) : IsText (raw s) := by
  refine ⟨?_, ?_, ?_⟩
  · rw [valueOf_raw]
    refine representable_printed fun b hb => ?_
    have h := hs b hb
    simp only [isPlain, isPrinted, decide_eq_true_eq] at h ⊢
    exact h.1
  · intro b hb
    rw [raw, mem_map] at hb
    obtain ⟨c, hc, heq⟩ := hb
    obtain rfl := Piece.byte.inj heq
    have h := hs c hc
    simp only [isPlain, decide_eq_true_eq] at h
    simp only [isTextMarkup, decide_eq_false_iff_not, not_or]
    refine ⟨h.2.1, h.2.2.2, ?_⟩
    rintro rfl
    exact absurd h.1 (by decide)
  · rw [sourceOf_raw]
    intro hsub
    exact absurd (hs 62 (hsub.subset (by simp))) (by decide)

theorem isText_blank (hs : IsBlank s) : IsText (raw s) := by
  refine isText_raw_plain fun b hb => ?_
  rcases hs b hb with rfl | rfl <;> rfl

/-- With references in the place of markup a text needs to be free of carriage returns only. -/
theorem isText_encoded (hs : Representable s) (hcr : 13 ∉ s) : IsText (encoded s) := by
  refine ⟨by rwa [valueOf_encoded], ?_, ?_⟩
  · intro b hb
    rw [encoded, mem_map] at hb
    obtain ⟨c, hc, heq⟩ := hb
    split_ifs at heq with hlt hgt hamp
    cases heq
    simp only [isTextMarkup, decide_eq_false_iff_not, not_or]
    exact ⟨hlt, hamp, fun h => hcr (h ▸ hc)⟩
  · intro hsub
    have hmem : (62 : UInt8) ∈ sourceOf (encoded s) := hsub.subset (by simp)
    rw [sourceOf, mem_flatMap] at hmem
    obtain ⟨piece, hpiece, hbyte⟩ := hmem
    rw [encoded, mem_map] at hpiece
    obtain ⟨c, -, rfl⟩ := hpiece
    split_ifs at hbyte with hlt hgt hamp
    · exact absurd hbyte (by decide)
    · exact absurd hbyte (by decide)
    · exact absurd hbyte (by decide)
    · rw [Piece.source, mem_singleton] at hbyte
      exact hgt hbyte.symm

theorem isText_raw_iff :
    IsText (raw s) ↔ Representable s ∧ (∀ b ∈ s, isTextMarkup b = false) ∧ ¬ [93, 93, 62] <:+: s := by
  unfold IsText Free
  rw [valueOf_raw, sourceOf_raw]
  simp [raw]

/-! ## elements and white space -/

/-- Elements, each with the white space behind it. -/
def fields (fs : List (Node × List UInt8)) : List Node :=
  fs.flatMap fun f => [f.1, .chars (raw f.2)]

/-- An element with nothing but a text. -/
def leafNode (name : List UInt8) (ps : List Piece) : Node := .element name [] [] [.chars ps]

theorem sources_append (nodes nodes' : List Node) :
    Node.sources (nodes ++ nodes') = Node.sources nodes ++ Node.sources nodes' := by
  induction nodes with
  | nil => rfl
  | cons node nodes ih =>
    rw [cons_append, Node.sources, ih, Node.sources, append_assoc]

theorem allWellFormed_append (nodes nodes' : List Node) :
    Node.AllWellFormed (nodes ++ nodes') ↔ Node.AllWellFormed nodes ∧ Node.AllWellFormed nodes' := by
  induction nodes with
  | nil => simp [Node.AllWellFormed]
  | cons node nodes ih => rw [cons_append, Node.AllWellFormed, ih, Node.AllWellFormed, and_assoc]

theorem sources_fields (fs : List (Node × List UInt8)) :
    Node.sources (fields fs) = fs.flatMap fun f => f.1.source ++ f.2 := by
  induction fs with
  | nil => rfl
  | cons f fs ih =>
    have hcons : fields (f :: fs) = [f.1, .chars (raw f.2)] ++ fields fs := rfl
    rw [hcons, sources_append, ih]
    simp [Node.sources, Node.source]

theorem separate_fields (s : List UInt8) (hfs : ∀ f ∈ fs, f.1.isChars = false) :
    Separate (.chars (raw s) :: fields fs) := by
  induction fs generalizing s with
  | nil => exact isChain_singleton _
  | cons f fs ih =>
    have hf := hfs f mem_cons_self
    have hcons : Node.chars (raw s) :: fields (f :: fs) =
        .chars (raw s) :: f.1 :: .chars (raw f.2) :: fields fs := rfl
    have hrest := ih f.2 fun g hg => hfs g (mem_cons_of_mem f hg)
    rw [hcons]
    unfold Separate
    rw [isChain_cons_cons, isChain_cons_cons]
    exact ⟨fun hand => by simp [hf] at hand, fun hand => by simp [hf] at hand, hrest⟩

theorem allWellFormed_fields (hfs : ∀ f ∈ fs, f.1.WellFormed ∧ IsBlank f.2) :
    Node.AllWellFormed (fields fs) := by
  induction fs with
  | nil => trivial
  | cons f fs ih =>
    obtain ⟨hf, hblank⟩ := hfs f mem_cons_self
    exact ⟨hf, isText_blank hblank, ih fun g hg => hfs g (mem_cons_of_mem f hg)⟩

theorem attsWellFormed_nil : AttsWellFormed [] :=
  ⟨fun _ h => absurd h not_mem_nil, nodup_nil⟩

theorem leafNode_source (name : List UInt8) (ps : List Piece) :
    (leafNode name ps).source =
      60 :: (name ++ [62]) ++ (sourceOf ps ++ endSource name) := by
  simp [leafNode, Node.source, Node.sources, startSource, tagSource]

theorem leafNode_wellFormed (hname : IsName name) (hps : IsText ps) :
    (leafNode name ps).WellFormed := by
  exact ⟨hname, attsWellFormed_nil, by decide, isChain_singleton _, hps, trivial⟩

/-- A document of elements with white space around them. -/
def fieldsDocument (name : List UInt8) (spaces : List UInt8 × List UInt8 × List UInt8)
    (space : List UInt8) (fs : List (Node × List UInt8)) : Document :=
  ⟨spaces, name, [], .chars (raw space) :: fields fs⟩

theorem fieldsDocument_source (name : List UInt8) (spaces : List UInt8 × List UInt8 × List UInt8)
    (space : List UInt8) (fs : List (Node × List UInt8)) :
    (fieldsDocument name spaces space fs).source =
      xmlDeclaration ++ spaces.1 ++ doctypeStart ++ name ++ [62] ++ spaces.2.1 ++
        (60 :: (name ++ [62]) ++ (space ++ (fs.flatMap fun f => f.1.source ++ f.2) ++
          endSource name)) ++ spaces.2.2 := by
  simp [fieldsDocument, Document.source, Document.root, Node.source, Node.sources, sources_fields,
    startSource, tagSource]

theorem fieldsDocument_wellFormed {spaces : List UInt8 × List UInt8 × List UInt8}
    {space : List UInt8} (hname : IsName name)
    (hspaces : IsBlank spaces.1 ∧ IsBlank spaces.2.1 ∧ IsBlank spaces.2.2)
    (hspace : IsBlank space) (hfs : ∀ f ∈ fs, f.1.isChars = false ∧ f.1.WellFormed ∧ IsBlank f.2) :
    (fieldsDocument name spaces space fs).WellFormed := by
  refine ⟨hspaces.1, hspaces.2.1, hspaces.2.2, hname, attsWellFormed_nil, by decide,
    separate_fields space fun f hf => (hfs f hf).1, isText_blank hspace, ?_⟩
  exact allWellFormed_fields fun f hf => (hfs f hf).2

/-! ## the characters of a document -/

/-- A text that a parser takes as it is, apart from its markup. -/
def Clean (s : List UInt8) : Prop := Representable s ∧ 13 ∉ s

theorem clean_nil : Clean [] := ⟨representable_nil, by simp⟩

theorem Clean.append {t : List UInt8} (hs : Clean s) (ht : Clean t) : Clean (s ++ t) :=
  ⟨hs.1.append ht.1, by simp [hs.2, ht.2]⟩

theorem clean_printed (hs : ∀ b ∈ s, isPrinted b = true) : Clean s :=
  ⟨representable_printed hs, fun h => absurd (hs 13 h) (by decide)⟩

theorem clean_sourceOf (hps : Representable (valueOf ps)) (hcr : Piece.byte 13 ∉ ps) :
    Clean (sourceOf ps) := by
  refine ⟨representable_sourceOf hps, fun h => ?_⟩
  obtain ⟨piece, hpiece, hb⟩ := mem_flatMap.mp h
  cases piece with
  | byte b =>
    obtain rfl := mem_singleton.mp hb
    exact hcr hpiece
  | lt | gt | amp => exact absurd hb (by decide)

theorem IsText.clean (h : IsText ps) : Clean (sourceOf ps) :=
  clean_sourceOf h.1 fun hmem => absurd (h.2.1 13 hmem) (by decide)

theorem IsValue.clean (h : IsValue ps) : Clean (sourceOf ps) :=
  clean_sourceOf h.1 fun hmem => absurd (h.2 13 hmem) (by decide)

theorem clean_name (h : IsName name) : Clean name := by
  have hall : ∀ n < 256, isNameByte (UInt8.ofNat n) = true → isPrinted (UInt8.ofNat n) = true := by
    decide +kernel
  refine clean_printed fun b hb => ?_
  have hb := hall b.toNat b.toNat_lt
  rw [UInt8.ofNat_toNat] at hb
  exact hb (h.2 b ‹_›)

theorem clean_blank (h : IsBlank s) : Clean s := by
  refine clean_printed fun b hb => ?_
  rcases h b hb with rfl | rfl <;> rfl

theorem clean_tagSource {space : List UInt8} {atts : List Attribute} (hname : IsName name)
    (hatts : AttsWellFormed atts) (hspace : IsBlank space) :
    Clean (tagSource name atts space) := by
  have hsource : ∀ atts : List Attribute, (∀ a ∈ atts, a.WellFormed) →
      Clean (atts.flatMap Attribute.source) := by
    intro atts hatts
    induction atts with
    | nil => exact clean_nil
    | cons a atts ih =>
      obtain ⟨-, hblank, haname, hvalue⟩ := hatts a mem_cons_self
      have hsource : a.source = a.space ++ (a.name ++ ([61, 34] ++ (sourceOf a.value ++ [34]))) := rfl
      rw [flatMap_cons, hsource]
      refine Clean.append ?_ (ih fun b hb => hatts b (mem_cons_of_mem a hb))
      exact (clean_blank hblank).append ((clean_name haname).append
        ((clean_printed (by decide)).append (hvalue.clean.append (clean_printed (by decide)))))
  exact (clean_name hname).append ((hsource atts hatts.1).append (clean_blank hspace))

mutual
theorem Node.WellFormed.clean : ∀ {node : Node}, node.WellFormed → Clean node.source
  | .chars _, h => IsText.clean h
  | .element name atts space children, h => by
    obtain ⟨hname, hatts, hspace, -, hchildren⟩ := h
    have hstart : startSource name atts space = [60] ++ (tagSource name atts space ++ [62]) := rfl
    have hend : endSource name = [60, 47] ++ (name ++ [62]) := rfl
    rw [Node.source, hstart, hend]
    exact ((clean_printed (by decide)).append ((clean_tagSource hname hatts hspace).append
      (clean_printed (by decide)))).append ((Node.AllWellFormed.clean hchildren).append
        ((clean_printed (by decide)).append ((clean_name hname).append (clean_printed (by decide)))))
  | .empty name atts space, h => by
    obtain ⟨hname, hatts, hspace⟩ := h
    have hempty : emptySource name atts space = [60] ++ (tagSource name atts space ++ [47, 62]) := rfl
    rw [Node.source, hempty]
    exact (clean_printed (by decide)).append ((clean_tagSource hname hatts hspace).append
      (clean_printed (by decide)))

theorem Node.AllWellFormed.clean : ∀ {nodes : List Node}, Node.AllWellFormed nodes →
    Clean (Node.sources nodes)
  | [], _ => clean_nil
  | _ :: _, h => (Node.WellFormed.clean h.1).append (Node.AllWellFormed.clean h.2)
end

theorem Document.WellFormed.clean {doc : Document} (h : doc.WellFormed) : Clean doc.source := by
  obtain ⟨hfront, hmiddle, hback, hroot⟩ := h
  have hdeclaration : Clean xmlDeclaration := clean_printed (by decide)
  have hdoctype : Clean doctypeStart := clean_printed (by decide)
  exact (((((((hdeclaration.append (clean_blank hfront)).append hdoctype).append
    (clean_name hroot.1)).append (clean_printed (by decide))).append (clean_blank hmiddle)).append
    hroot.clean).append (clean_blank hback))

end JxtaC.Lib.XmlDocument
