import JxtaC.Lib.XmlFields
import JxtaC.Lib.XmlScanner

/-
  A document between its `<`: every run behind one is a tag with the characters up to the next.
  What a run spells determines the name and the attributes of its tag (`tagSource_inj`), and a
  document of elements without children has no runs but those of their tags (`exists_runs`,
  `exists_run`).
  Nothing here depends on the modelled code.
-/

namespace JxtaC.Lib.XmlDocument

open List
variable {s t : List UInt8} {b : UInt8} {atts atts' : List Attribute} {space r name : List UInt8}
variable {ps : List Piece} {node : Node} {nodes : List Node}

/-! ## tags -/

/-- The part of a list up to where a condition fails for the first time is determined. -/
theorem prefix_inj {p : UInt8 → Bool} {c : UInt8} {x y : List UInt8} (hs : ∀ b ∈ s, p b = true)
    (ht : ∀ b ∈ t, p b = true) (hb : p b = false) (hc : p c = false)
    (h : s ++ b :: x = t ++ c :: y) : s = t ∧ b = c ∧ x = y := by
  have hleft : (s ++ b :: x).takeWhile p = s := by
    rw [takeWhile_append_of_pos hs, takeWhile_cons_of_neg (by simp [hb]), append_nil]
  have hright : (t ++ c :: y).takeWhile p = t := by
    rw [takeWhile_append_of_pos ht, takeWhile_cons_of_neg (by simp [hc]), append_nil]
  have hst : s = t := by rw [← hleft, h, hright]
  subst hst
  obtain ⟨hbc, hxy⟩ := List.cons.inj (append_cancel_left h)
  exact ⟨rfl, hbc, hxy⟩

/-- The byte behind a tag, or the slash of an empty element. -/
def IsTagEnd (b : UInt8) : Prop := b = 62 ∨ b = 47

/-- An attribute that is read up to the quotation mark that ends it. -/
def Attribute.Quoted (a : Attribute) : Prop :=
  a.space ≠ [] ∧ IsBlank a.space ∧ IsName a.name ∧ 34 ∉ sourceOf a.value

/-- An attribute as it is spelled. -/
def Attribute.spelling (a : Attribute) : List UInt8 × List UInt8 := (a.name, sourceOf a.value)

theorem names_of_spelling (h : atts.map Attribute.spelling = atts'.map Attribute.spelling) :
    atts.map Attribute.name = atts'.map Attribute.name := by
  have hnames := congrArg (List.map Prod.fst) h
  rw [map_map, map_map] at hnames
  exact hnames

theorem Attribute.WellFormed.quoted {a : Attribute} (h : a.WellFormed) : a.Quoted :=
  ⟨h.1, h.2.1, h.2.2.1, quote_not_mem h.2.2.2⟩

def isBlankByte (b : UInt8) : Bool := b = 32 ∨ b = 10

theorem IsBlank.isBlankByte (h : IsBlank s) : ∀ b ∈ s, isBlankByte b = true :=
  fun b hb => decide_eq_true (h b hb)

theorem isBlankByte_nameByte (h : isNameByte b = true) : isBlankByte b = false := by
  obtain ⟨-, -, -, -, -, hblank, hline⟩ := isNameByte_plain h
  simp [isBlankByte, hblank, hline]

theorem IsTagEnd.plain (h : IsTagEnd b) : isBlankByte b = false ∧ isNameByte b = false := by
  rcases h with rfl | rfl
  · decide
  · decide

/-- The byte behind the name in a tag is not one of a name. -/
theorem exists_behind_name (hatts : ∀ a ∈ atts, a.Quoted) (hspace : IsBlank space)
    (hb : IsTagEnd b) :
    ∃ c x, atts.flatMap Attribute.source ++ (space ++ b :: r) = c :: x ∧ isNameByte c = false := by
  cases atts with
  | nil =>
    cases space with
    | nil => exact ⟨b, r, rfl, hb.plain.2⟩
    | cons c space => exact ⟨c, _, rfl, (blank_plain hspace c mem_cons_self).2⟩
  | cons a atts =>
    obtain ⟨hne, hblank, -, -⟩ := hatts a mem_cons_self
    obtain ⟨c, s, hs⟩ := exists_cons_of_ne_nil hne
    refine ⟨c, s ++ (a.name ++ 61 :: 34 :: (sourceOf a.value ++ [34])) ++
      (atts.flatMap Attribute.source ++ (space ++ b :: r)), ?_,
      (blank_plain hblank c (hs ▸ mem_cons_self)).2⟩
    simp [Attribute.source, hs]

/-- The attributes of a tag, and what stands behind it. -/
theorem atts_inj {space' r' : List UInt8} {b' : UInt8} (hatts : ∀ a ∈ atts, a.Quoted)
    (hatts' : ∀ a ∈ atts', a.Quoted) (hspace : IsBlank space) (hspace' : IsBlank space')
    (hb : IsTagEnd b) (hb' : IsTagEnd b')
    (h : atts.flatMap Attribute.source ++ (space ++ b :: r) =
      atts'.flatMap Attribute.source ++ (space' ++ b' :: r')) :
    atts.map Attribute.spelling = atts'.map Attribute.spelling ∧ b = b' ∧ r = r' := by
  -- behind white space a tag ends in one list, and a name begins in the other
  have hclash : ∀ {a : Attribute} {sp x y : List UInt8} {e : UInt8}, a.Quoted → IsBlank sp →
      IsTagEnd e → sp ++ e :: x ≠ a.source ++ y := by
    intro a sp x y e ha hsp he heq
    obtain ⟨-, hblank, hname, -⟩ := ha
    obtain ⟨c, hc, -⟩ := hname.1
    obtain ⟨n, hn⟩ : ∃ n, a.name = c :: n := by
      cases hcase : a.name with
      | nil => rw [hcase] at hc; cases hc
      | cons d n => rw [hcase] at hc; exact ⟨n, by rw [Option.some.inj hc]⟩
    have hcname := hname.2 c (hn ▸ mem_cons_self)
    have hsplit : sp ++ e :: x = a.space ++ c :: (n ++ 61 :: 34 :: (sourceOf a.value ++ [34]) ++ y) := by
      rw [heq, Attribute.source, hn]
      simp
    obtain ⟨-, hec, -⟩ := prefix_inj hsp.isBlankByte hblank.isBlankByte he.plain.1
      (isBlankByte_nameByte hcname) hsplit
    rw [← hec, he.plain.2] at hcname
    cases hcname
  induction atts generalizing atts' with
  | nil =>
    cases atts' with
    | nil =>
      obtain ⟨-, hbb, hrr⟩ := prefix_inj hspace.isBlankByte hspace'.isBlankByte hb.plain.1 hb'.plain.1 h
      exact ⟨rfl, hbb, hrr⟩
    | cons a' atts' =>
      rw [flatMap_cons, append_assoc] at h
      exact absurd h (hclash (hatts' a' mem_cons_self) hspace hb)
  | cons a atts ih =>
    obtain ⟨ha, hrest⟩ := forall_mem_cons.mp hatts
    cases atts' with
    | nil =>
      rw [flatMap_cons, append_assoc] at h
      exact absurd h.symm (hclash ha hspace' hb')
    | cons a' atts' =>
      obtain ⟨ha', hrest'⟩ := forall_mem_cons.mp hatts'
      obtain ⟨-, hblank, hname, hquote⟩ := ha
      obtain ⟨-, hblank', hname', hquote'⟩ := ha'
      obtain ⟨c, n, hn⟩ : ∃ c n, a.name = c :: n := by
        obtain ⟨c, hc, -⟩ := hname.1
        cases hcase : a.name with
        | nil => rw [hcase] at hc; cases hc
        | cons d n => exact ⟨d, n, rfl⟩
      obtain ⟨c', n', hn'⟩ : ∃ c n, a'.name = c :: n := by
        obtain ⟨c, hc, -⟩ := hname'.1
        cases hcase : a'.name with
        | nil => rw [hcase] at hc; cases hc
        | cons d n => exact ⟨d, n, rfl⟩
      have hfirst := isBlankByte_nameByte (hname.2 c (hn ▸ mem_cons_self))
      have hfirst' := isBlankByte_nameByte (hname'.2 c' (hn' ▸ mem_cons_self))
      have hsource : a.space ++ c :: (n ++ 61 :: 34 :: (sourceOf a.value ++ 34 ::
          (atts.flatMap Attribute.source ++ (space ++ b :: r)))) =
          a'.space ++ c' :: (n' ++ 61 :: 34 :: (sourceOf a'.value ++ 34 ::
          (atts'.flatMap Attribute.source ++ (space' ++ b' :: r')))) := by
        simpa [Attribute.source, hn, hn'] using h
      obtain ⟨-, hcc, hbehind⟩ := prefix_inj hblank.isBlankByte hblank'.isBlankByte hfirst hfirst' hsource
      have hnames : a.name ++ 61 :: 34 :: (sourceOf a.value ++ 34 ::
          (atts.flatMap Attribute.source ++ (space ++ b :: r))) =
          a'.name ++ 61 :: 34 :: (sourceOf a'.value ++ 34 ::
          (atts'.flatMap Attribute.source ++ (space' ++ b' :: r'))) := by
        rw [hn, hn', cons_append, cons_append, hcc, hbehind]
      obtain ⟨hnn, -, hvalues⟩ := prefix_inj hname.2 hname'.2 (by decide) (by decide) hnames
      have hunquoted : ∀ {s : List UInt8}, 34 ∉ s → ∀ b ∈ s, decide (b ≠ 34) = true :=
        fun hs b hb => decide_eq_true fun heq => hs (heq ▸ hb)
      obtain ⟨hvv, -, hatts⟩ := prefix_inj (p := fun b => decide (b ≠ 34)) (hunquoted hquote)
        (hunquoted hquote') (by decide) (by decide) (List.cons.inj hvalues).2
      obtain ⟨hmaps, hbb, hrr⟩ := ih hrest hrest' hatts
      exact ⟨congrArg₂ List.cons (Prod.ext hnn hvv) hmaps, hbb, hrr⟩

/-- A tag is determined by what it spells. -/
theorem tagSource_inj {name' : List UInt8} {space' r' : List UInt8} {b' : UInt8}
    (hname : IsName name) (hname' : IsName name') (hatts : ∀ a ∈ atts, a.Quoted)
    (hatts' : ∀ a ∈ atts', a.Quoted) (hspace : IsBlank space) (hspace' : IsBlank space')
    (hb : IsTagEnd b) (hb' : IsTagEnd b')
    (h : tagSource name atts space ++ b :: r = tagSource name' atts' space' ++ b' :: r') :
    name = name' ∧ atts.map Attribute.spelling = atts'.map Attribute.spelling ∧ b = b' ∧ r = r' := by
  obtain ⟨c, x, hx, hc⟩ := exists_behind_name hatts hspace hb (r := r)
  obtain ⟨c', x', hx', hc'⟩ := exists_behind_name hatts' hspace' hb' (r := r')
  have hsplit : name ++ c :: x = name' ++ c' :: x' := by
    rw [← hx, ← hx']
    simpa [tagSource] using h
  obtain ⟨hnames, hcc, hxx⟩ := prefix_inj hname.2 hname'.2 hc hc' hsplit
  exact ⟨hnames, atts_inj hatts hatts' hspace hspace' hb hb' (by rw [hx, hx', hcc, hxx])⟩

/-! ## pieces -/

/-- A reference is longer than what it means. -/
theorem length_valueOf_le (ps : List Piece) : (valueOf ps).length ≤ (sourceOf ps).length := by
  induction ps with
  | nil => exact Nat.le_refl _
  | cons piece ps ih =>
    have hsource : (sourceOf (piece :: ps)).length = piece.source.length + (sourceOf ps).length :=
      length_append
    have hvalue : (valueOf (piece :: ps)).length = (valueOf ps).length + 1 := rfl
    have hpiece : 1 ≤ piece.source.length := by
      cases piece with
      | byte b => exact Nat.le_refl _
      | lt | gt | amp => decide
    omega

theorem length_valueOf_lt {piece : Piece} (hmem : piece ∈ ps) (hpiece : ∀ b, piece ≠ .byte b) :
    (valueOf ps).length < (sourceOf ps).length := by
  obtain ⟨before, behind, rfl⟩ := append_of_mem hmem
  have hbefore := length_valueOf_le before
  have hbehind := length_valueOf_le behind
  have hlong : 1 < piece.source.length := by
    cases piece with
    | byte b => exact absurd rfl (hpiece b)
    | lt | gt | amp => decide
  have hsource : sourceOf (before ++ piece :: behind) =
      sourceOf before ++ (piece.source ++ sourceOf behind) := sourceOf_append _ _
  have hvalue : valueOf (before ++ piece :: behind) =
      valueOf before ++ piece.value :: valueOf behind := valueOf_append _ _
  rw [hsource, hvalue]
  simp only [length_append, length_cons]
  omega

/-- What means itself is written with no references. -/
theorem eq_raw_of_eq (h : sourceOf ps = valueOf ps) : ps = raw (valueOf ps) := by
  have hbytes : ∀ piece ∈ ps, ∃ b, piece = .byte b := by
    intro piece hmem
    by_contra hnone
    have hlt := length_valueOf_lt hmem fun b hb => hnone ⟨b, hb⟩
    rw [h] at hlt
    exact absurd hlt (Nat.lt_irrefl _)
  clear h
  induction ps with
  | nil => rfl
  | cons piece ps ih =>
    obtain ⟨b, rfl⟩ := hbytes piece mem_cons_self
    exact congrArg (Piece.byte b :: ·) (ih fun q hq => hbytes q (mem_cons_of_mem _ hq))

/-- Two texts that are spelled alike mean the same. -/
theorem valueOf_inj {qs : List Piece} (hps : NoReference ps) (hqs : NoReference qs)
    (h : sourceOf ps = sourceOf qs) : valueOf ps = valueOf qs := by
  rw [← decode_sourceOf hps, ← decode_sourceOf hqs, h]

theorem lt_not_mem_of_free {markup : UInt8 → Bool} (hmarkup : markup 60 = true)
    (h : Free markup ps) : 60 ∉ sourceOf ps := by
  intro hmem
  have hfree := h 60 (mem_of_mem_sourceOf lt_piece hmem)
  rw [hmarkup] at hfree
  cases hfree

theorem IsText.lt_not_mem (h : IsText ps) : 60 ∉ sourceOf ps :=
  lt_not_mem_of_free (by decide) h.2.1

theorem IsValue.lt_not_mem (h : IsValue ps) : 60 ∉ sourceOf ps :=
  lt_not_mem_of_free (by decide) h.2

theorem lt_not_mem_name (h : ∀ b ∈ name, isNameByte b = true) : 60 ∉ name :=
  fun hmem => absurd (h 60 hmem) (by decide)

theorem lt_not_mem_blank (h : IsBlank s) : 60 ∉ s := by
  intro hmem
  rcases h 60 hmem with heq | heq
  · cases heq
  · cases heq

theorem lt_not_mem_tagSource (hname : IsName name)
    (hatts : ∀ a ∈ atts, IsBlank a.space ∧ IsName a.name ∧ 60 ∉ sourceOf a.value)
    (hspace : IsBlank space) : 60 ∉ tagSource name atts space := by
  unfold tagSource
  rw [mem_append, mem_append, not_or, not_or]
  refine ⟨lt_not_mem_name hname.2, fun hmem => ?_, lt_not_mem_blank hspace⟩
  obtain ⟨a, ha, hmem⟩ := mem_flatMap.mp hmem
  obtain ⟨hblank, haname, hvalue⟩ := hatts a ha
  simp [Attribute.source, lt_not_mem_blank hblank, lt_not_mem_name haname.2, hvalue] at hmem

theorem AttsWellFormed.lt_not_mem (hname : IsName name) (hatts : AttsWellFormed atts)
    (hspace : IsBlank space) : 60 ∉ tagSource name atts space :=
  lt_not_mem_tagSource hname
    (fun a ha => ⟨(hatts.1 a ha).2.1, (hatts.1 a ha).2.2.1, (hatts.1 a ha).2.2.2.lt_not_mem⟩) hspace

/-! ## runs -/

/-- What stands between the `<` of a document. -/
def runs (s : List UInt8) : List (List UInt8) := s.splitOnP (· = 60)

theorem runs_of_not_mem (h : 60 ∉ s) : runs s = [s] :=
  splitOnP_eq_singleton fun _ hb => decide_eq_false fun heq => h (heq ▸ hb)

theorem runs_append (s t : List UInt8) : runs (s ++ 60 :: t) = runs s ++ runs t :=
  splitOnP_append_cons s t (by decide)

theorem runs_append_of_not_mem (h : 60 ∉ s) (t : List UInt8) :
    runs (s ++ 60 :: t) = s :: runs t := by
  rw [runs_append, runs_of_not_mem h, singleton_append]

/-- The first run begins with what has no `<` in it. -/
theorem exists_runs_append (h : 60 ∉ s) (t : List UInt8) :
    ∃ r rest, runs t = r :: rest ∧ runs (s ++ t) = (s ++ r) :: rest := by
  obtain ⟨r, rest, hr⟩ := exists_cons_of_ne_nil (splitOnP_ne_nil (· = 60) t)
  refine ⟨r, rest, hr, ?_⟩
  induction s with
  | nil => exact hr
  | cons b s ih =>
    obtain ⟨hb, hs⟩ := not_or.mp (mem_cons.not.mp h)
    have hne : ¬ decide (b = 60) = true := by simpa using Ne.symm hb
    show List.splitOnP (· = 60) (b :: (s ++ t)) = _
    rw [splitOnP_cons_eq_if_modifyHead, if_neg hne]
    show List.modifyHead (List.cons b) (runs (s ++ t)) = _
    rw [ih hs]
    rfl

/-- A document is its first run, and what stands behind it. -/
theorem runs_head {rest : List (List UInt8)} (h : runs s = r :: rest) :
    60 ∉ r ∧ (s = r ∧ rest = [] ∨ ∃ t, s = r ++ 60 :: t ∧ runs t = rest) := by
  by_cases hmem : 60 ∈ s
  · obtain ⟨before, behind, rfl, hbefore⟩ := eq_append_cons_of_mem hmem
    rw [runs_append_of_not_mem hbefore] at h
    cases h
    exact ⟨hbefore, .inr ⟨behind, rfl, rfl⟩⟩
  · rw [runs_of_not_mem hmem] at h
    cases h
    exact ⟨hmem, .inl ⟨rfl, rfl⟩⟩

/-- Runs behind the first are shorter than the whole. -/
theorem length_lt_of_mem_runs {rest : List (List UInt8)} (h : runs s = r :: rest) :
    ∀ x ∈ rest, x.length < s.length := by
  have hle : ∀ (n : Nat) (s : List UInt8), s.length ≤ n → ∀ x ∈ runs s, x.length ≤ s.length := by
    intro n
    induction n with
    | zero =>
      intro s hs x hx
      obtain rfl := length_eq_zero_iff.mp (Nat.le_zero.mp hs)
      obtain rfl := mem_singleton.mp hx
      exact Nat.le_refl _
    | succ n ih =>
      intro s hs x hx
      obtain ⟨r, rest, hr⟩ := exists_cons_of_ne_nil (splitOnP_ne_nil (· = 60) s)
      have hruns : runs s = r :: rest := hr
      rw [hruns] at hx
      obtain ⟨-, ⟨rfl, rfl⟩ | ⟨t, rfl, hrest⟩⟩ := runs_head hruns
      · obtain rfl := mem_singleton.mp hx
        exact Nat.le_refl _
      · simp only [length_append, length_cons] at hs ⊢
        rcases mem_cons.mp hx with rfl | hx
        · omega
        · have hlength := ih t (by omega) x (hrest ▸ hx)
          omega
  intro x hx
  obtain ⟨-, ⟨rfl, rfl⟩ | ⟨t, rfl, rfl⟩⟩ := runs_head h
  · exact absurd hx not_mem_nil
  · have hlength := hle t.length t (Nat.le_refl _) x hx
    simp only [length_append, length_cons]
    omega

/-! ## elements without children -/

/-- The name, the attributes and the text of an element without children. -/
def Node.leaf : Node → Option (List UInt8 × List Attribute × List Piece)
  | .element name atts _ [] => some (name, atts, [])
  | .element name atts _ [.chars ps] => some (name, atts, ps)
  | .empty name atts _ => some (name, atts, [])
  | _ => none

/-- The node is an element without children, or none. -/
def Node.Flat (node : Node) : Prop := node.isChars = true ∨ node.leaf.isSome = true

/-- The run of a tag. -/
def IsTagRun (r : List UInt8) : Prop :=
  ∃ name atts space b s, IsName name ∧ AttsWellFormed atts ∧ IsBlank space ∧ IsTagEnd b ∧
    r = tagSource name atts space ++ b :: s

/-- How an element without children is written. -/
theorem leaf_source (hwf : node.WellFormed) (h : node.leaf = some (name, atts, ps)) :
    ∃ space, IsName name ∧ AttsWellFormed atts ∧ IsBlank space ∧ IsText ps ∧
      (node.source = 60 :: (tagSource name atts space ++ 62 :: (sourceOf ps ++
          60 :: 47 :: (name ++ [62]))) ∨
        node.source = 60 :: (tagSource name atts space ++ [47, 62]) ∧ ps = []) := by
  have hnil : IsText [] := isText_blank (s := []) (by decide)
  unfold Node.leaf at h
  split at h
  next n as space =>
    cases h
    obtain ⟨hname, hatts, hspace, -, -⟩ := hwf
    refine ⟨space, hname, hatts, hspace, hnil, .inl ?_⟩
    simp [Node.source, Node.sources, startSource, endSource]
  next n as space qs =>
    cases h
    obtain ⟨hname, hatts, hspace, -, htext, -⟩ := hwf
    refine ⟨space, hname, hatts, hspace, htext, .inl ?_⟩
    simp [Node.source, Node.sources, startSource, endSource]
  next n as space =>
    cases h
    obtain ⟨hname, hatts, hspace⟩ := hwf
    exact ⟨space, hname, hatts, hspace, hnil, .inr ⟨rfl, rfl⟩⟩
  next => cases h

theorem wellFormed_of_mem (h : Node.AllWellFormed nodes) (hmem : node ∈ nodes) :
    node.WellFormed := by
  obtain ⟨before, behind, rfl⟩ := append_of_mem hmem
  exact ((allWellFormed_append _ _).mp h).2.1

/-- The run of an element without children. -/
theorem exists_run {f : List UInt8} (hwf : Node.AllWellFormed nodes) (hmem : node ∈ nodes)
    (hleaf : node.leaf = some (name, atts, ps)) :
    ∃ space b s, IsName name ∧ AttsWellFormed atts ∧ IsBlank space ∧ IsText ps ∧
      (b = 62 ∧ s = sourceOf ps ∨ b = 47 ∧ ps = []) ∧
      tagSource name atts space ++ b :: s ∈ runs (t ++ (Node.sources nodes ++ f)) := by
  obtain ⟨space, hname, hatts, hspace, htext, hsource⟩ :=
    leaf_source (wellFormed_of_mem hwf hmem) hleaf
  obtain ⟨before, behind, rfl⟩ := append_of_mem hmem
  have hsplit : t ++ (Node.sources (before ++ node :: behind) ++ f) =
      (t ++ Node.sources before) ++ (node.source ++ (Node.sources behind ++ f)) := by
    simp [sources_append, Node.sources]
  have htag := hatts.lt_not_mem hname hspace
  rcases hsource with hsource | ⟨hsource, rfl⟩
  · refine ⟨space, 62, sourceOf ps, hname, hatts, hspace, htext, .inl ⟨rfl, rfl⟩, ?_⟩
    have hfree : 60 ∉ tagSource name atts space ++ 62 :: sourceOf ps := by
      simp [htag, htext.lt_not_mem]
    have hrun : node.source ++ (Node.sources behind ++ f) =
        60 :: ((tagSource name atts space ++ 62 :: sourceOf ps) ++
          60 :: (47 :: (name ++ [62]) ++ (Node.sources behind ++ f))) := by
      rw [hsource]
      simp
    rw [hsplit, hrun, runs_append, runs_append_of_not_mem hfree]
    exact mem_append_right _ mem_cons_self
  · have hfree : 60 ∉ tagSource name atts space ++ [47, 62] := by simp [htag]
    obtain ⟨r, rest, -, hruns⟩ := exists_runs_append hfree (Node.sources behind ++ f)
    refine ⟨space, 47, 62 :: r, hname, hatts, hspace, htext, .inr ⟨rfl, rfl⟩, ?_⟩
    rw [hsplit, hsource, cons_append, runs_append, hruns]
    exact mem_append_right _ (by simp)

/-- The runs of a document of elements without children, up to the end tag around them: the first
begins as the document does. -/
theorem exists_runs {f : List UInt8} (hwf : Node.AllWellFormed nodes)
    (hflat : ∀ node ∈ nodes, node.Flat) (hxs : 60 ∉ t) (hf : 60 ∉ f) :
    ∃ r rest, runs (t ++ (Node.sources nodes ++ 60 :: 47 :: f)) = (t ++ r) :: rest ∧
      ∀ r ∈ rest, r.head? = some 47 ∨ IsTagRun r := by
  induction nodes generalizing t with
  | nil =>
    have hend : 60 ∉ (47 : UInt8) :: f := by simp [hf]
    refine ⟨[], [47 :: f], ?_, fun r hr => .inl ?_⟩
    · rw [Node.sources, nil_append, runs_append_of_not_mem hxs, runs_of_not_mem hend,
        append_nil]
    · rw [mem_singleton.mp hr]
      rfl
  | cons node nodes ih =>
    obtain ⟨hnode, hnodes⟩ := hwf
    obtain ⟨hnodeflat, hnodesflat⟩ := forall_mem_cons.mp hflat
    rcases hnodeflat with hchars | hleaf
    · cases node with
      | chars ps =>
        have hps : 60 ∉ t ++ sourceOf ps := by simp [hxs, IsText.lt_not_mem hnode]
        obtain ⟨r, rest, hruns, hrest⟩ := ih hnodes hnodesflat hps
        refine ⟨sourceOf ps ++ r, rest, ?_, hrest⟩
        simpa [Node.sources, Node.source] using hruns
      | element name atts space children => exact absurd hchars (by simp [Node.isChars])
      | empty name atts space => exact absurd hchars (by simp [Node.isChars])
    · obtain ⟨⟨name, atts, ps⟩, hleaf⟩ := Option.isSome_iff_exists.mp hleaf
      obtain ⟨space, hname, hatts, hspace, htext, hsource⟩ := leaf_source hnode hleaf
      have htag := hatts.lt_not_mem hname hspace
      rw [Node.sources]
      rcases hsource with hsource | ⟨hsource, rfl⟩
      · have hfree : 60 ∉ tagSource name atts space ++ 62 :: sourceOf ps := by
          simp [htag, htext.lt_not_mem]
        have hend : 60 ∉ (47 : UInt8) :: (name ++ [62]) := by simp [lt_not_mem_name hname.2]
        have hsplit : t ++ (node.source ++ Node.sources nodes ++ 60 :: 47 :: f) =
            t ++ 60 :: ((tagSource name atts space ++ 62 :: sourceOf ps) ++
              60 :: ((47 :: (name ++ [62])) ++ (Node.sources nodes ++ 60 :: 47 :: f))) := by
          rw [hsource]
          simp
        obtain ⟨r, rest, hruns, hrest⟩ := ih hnodes hnodesflat hend
        refine ⟨[], (tagSource name atts space ++ 62 :: sourceOf ps) ::
          (47 :: (name ++ [62]) ++ r) :: rest, ?_, fun x hx => ?_⟩
        · rw [hsplit, runs_append_of_not_mem hxs, runs_append_of_not_mem hfree, hruns, append_nil]
        · rcases mem_cons.mp hx with rfl | hx
          · exact .inr ⟨name, atts, space, 62, _, hname, hatts, hspace, .inl rfl, rfl⟩
          · rcases mem_cons.mp hx with rfl | hx
            · exact .inl rfl
            · exact hrest x hx
      · have hfree : 60 ∉ tagSource name atts space ++ [47, 62] := by simp [htag]
        have hsplit : t ++ (node.source ++ Node.sources nodes ++ 60 :: 47 :: f) =
            t ++ 60 :: ((tagSource name atts space ++ [47, 62]) ++
              (Node.sources nodes ++ 60 :: 47 :: f)) := by
          rw [hsource]
          simp
        obtain ⟨r, rest, hruns, hrest⟩ := ih hnodes hnodesflat hfree
        refine ⟨[], (tagSource name atts space ++ [47, 62] ++ r) :: rest, ?_, fun x hx => ?_⟩
        · rw [hsplit, runs_append_of_not_mem hxs, hruns, append_nil]
        · rcases mem_cons.mp hx with rfl | hx
          · refine .inr ⟨name, atts, space, 47, 62 :: r, hname, hatts, hspace, .inr rfl, ?_⟩
            simp
          · exact hrest x hx

end JxtaC.Lib.XmlDocument
