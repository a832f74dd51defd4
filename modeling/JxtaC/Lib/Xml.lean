import JxtaC.Lib.Decimal

/-
  XML elements without attributes, and their text.
  A parser keeps the characters in front of an element's first child, in the chunks it comes upon
  them; `Plain` elements are those whose characters come in one chunk as they are. `parse` is a parser
  for such elements: `parse_text`. It keeps a stack of the elements whose end tags are still to come.
  Nothing here depends on the modelled code.
-/

namespace JxtaC.Lib.Xml

open List

/-- An element: its name, the characters in front of its first child, and its children. -/
structure Element where
  name : List UInt8
  cdata : List (List UInt8)
  children : List Element

/-! ## text -/

mutual
/-- The element between its tags. -/
def Element.text : Element → List UInt8
  | ⟨name, cdata, children⟩ =>
    60 :: (name ++ 62 :: cdata.flatten) ++ (Element.textAll children ++ 60 :: 47 :: (name ++ [62]))

def Element.textAll : List Element → List UInt8
  | [] => []
  | e :: es => e.text ++ Element.textAll es
end

/-- A name of ASCII letters and low lines. -/
def IsName (name : List UInt8) : Prop :=
  name ≠ [] ∧ ∀ b ∈ name, b = 95 ∨ (65 ≤ b ∧ b ≤ 90) ∨ (97 ≤ b ∧ b ≤ 122)

/-- A character that stands for itself: no control, no noncharacter, and neither `<` nor `&`. -/
def IsPlainChar (c : Char) : Prop :=
  (c = '\t' ∨ 32 ≤ c.toNat) ∧ c.toNat ≠ 0xfffe ∧ c.toNat ≠ 0xffff ∧ c ≠ '<' ∧ c ≠ '&'

instance (c : Char) : Decidable (IsPlainChar c) := inferInstanceAs (Decidable (_ ∧ _))

/-- A property of the characters of a text is decided on the text, not on all characters. -/
instance (priority := 1100) decidableChars (p : Char → Prop) [DecidablePred p]
    (text : List Char) : Decidable (∀ c ∈ text, p c) := List.decidableBAll p text

/-- Characters in UTF-8 that come as they are and in one chunk. -/
def IsPlainText (s : List UInt8) : Prop :=
  ∃ cs : List Char, s = cs.flatMap String.utf8EncodeChar ∧ cs ≠ [] ∧ (∀ c ∈ cs, IsPlainChar c) ∧
    ¬ [']', ']', '>'] <:+: cs

mutual
/-- An element that can be read back from its text. -/
def Element.Plain : Element → Prop
  | ⟨name, cdata, children⟩ =>
    IsName name ∧ (cdata = [] ∨ ∃ s, cdata = [s] ∧ IsPlainText s) ∧ Element.PlainAll children

def Element.PlainAll : List Element → Prop
  | [] => True
  | e :: es => e.Plain ∧ Element.PlainAll es
end

theorem Element.plainAll_iff {es : List Element} : PlainAll es ↔ ∀ e ∈ es, e.Plain := by
  induction es with
  | nil => exact ⟨fun _ e he => absurd he not_mem_nil, fun _ => trivial⟩
  | cons e es ih =>
    rw [forall_mem_cons, ← ih]
    rfl

theorem Element.textAll_eq (es : List Element) : textAll es = es.flatMap Element.text := by
  induction es with
  | nil => rfl
  | cons e es ih =>
    rw [flatMap_cons, ← ih]
    rfl

/-! ## parsing -/

/-- An element whose end tag is still to come. -/
structure Open where
  name : List UInt8
  cdata : List (List UInt8)
  children : List Element

def Open.add (o : Open) (e : Element) : Open := { o with children := o.children ++ [e] }

def Open.close (o : Open) : Element := ⟨o.name, o.cdata, o.children⟩

/-- The chunks of the characters up to the next tag. -/
def chunks (s : List UInt8) : List (List UInt8) := if s = [] then [] else [s]

/-- An end tag: the element is a child of the one around it. -/
def endTag (name : List UInt8) : List Open → Option (List Open)
  | o :: parent :: stack => if o.name = name then some (parent.add o.close :: stack) else none
  | _ => none

/-- A tag, and the characters between it and the next one. -/
def step (stack : List Open) (piece : List UInt8) : Option (List Open) :=
  match piece.dropWhile (· ≠ 62) with
  | [] => none
  | _ :: s =>
    match piece.takeWhile (· ≠ 62) with
    | 47 :: name => endTag name stack
    | name => some (⟨name, chunks s, []⟩ :: stack)

/-- The element that a text is of. -/
def parse (text : List UInt8) : Option Element :=
  match text.splitOnP (· = 60) with
  | [] :: pieces =>
    match pieces.foldlM step [⟨[], [], []⟩] with
    | some [⟨_, _, [root]⟩] => some root
    | _ => none
  | _ => none

/-! ## the text is parsed -/

mutual
/-- The text of an element without the brackets in front of its tags. -/
def Element.pieces : Element → List (List UInt8)
  | ⟨name, cdata, children⟩ =>
    (name ++ 62 :: cdata.flatten) :: (Element.piecesAll children ++ [47 :: (name ++ [62])])

def Element.piecesAll : List Element → List (List UInt8)
  | [] => []
  | e :: es => e.pieces ++ Element.piecesAll es
end

mutual
theorem Element.text_eq_pieces : ∀ e : Element, e.text = e.pieces.flatMap (60 :: ·)
  | ⟨name, cdata, children⟩ => by
    have hchildren := Element.textAll_eq_pieces children
    rw [Element.text, Element.pieces, flatMap_cons, flatMap_append, hchildren,
      flatMap_singleton]

theorem Element.textAll_eq_pieces : ∀ es : List Element,
    Element.textAll es = (Element.piecesAll es).flatMap (60 :: ·)
  | [] => rfl
  | e :: es => by
    have he := Element.text_eq_pieces e
    have hes := Element.textAll_eq_pieces es
    rw [Element.textAll, Element.piecesAll, flatMap_append, he, hes]
end

theorem splitOnP_flatMap {xs : List UInt8} {ps : List (List UInt8)} (hxs : 60 ∉ xs)
    (hps : ∀ p ∈ ps, 60 ∉ p) : (xs ++ ps.flatMap (60 :: ·)).splitOnP (· = 60) = xs :: ps := by
  have hfree : ∀ {ys : List UInt8}, 60 ∉ ys → ∀ y ∈ ys, decide (y = 60) = false :=
    fun hys y hy => decide_eq_false fun h => hys (h ▸ hy)
  induction ps generalizing xs with
  | nil =>
    rw [flatMap_nil, append_nil]
    exact splitOnP_eq_singleton (hfree hxs)
  | cons p ps ih =>
    rw [flatMap_cons, cons_append,
      splitOnP_append_cons_of_forall_mem (hfree hxs) 60 (decide_eq_true rfl),
      ih (hps p mem_cons_self) fun q hq => hps q (mem_cons_of_mem p hq)]

/-- A byte of the rest of UTF-8 is no ASCII character. -/
theorem ne_high {n : Nat} (hlow : 128 ≤ n) (hhigh : n < 256) : (60 : UInt8) ≠ UInt8.ofNat n := by
  intro h
  have hval := congrArg UInt8.toNat h
  rw [UInt8.toNat_ofNat_of_lt' hhigh] at hval
  have hsixty : (60 : UInt8).toNat = 60 := rfl
  omega

theorem not_mem_utf8EncodeChar {c : Char} (h : c ≠ '<') : 60 ∉ String.utf8EncodeChar c := by
  rw [String.utf8EncodeChar]
  split_ifs with hascii
  · intro hmem
    have hval := congrArg UInt8.toNat (mem_singleton.mp hmem)
    rw [UInt8.toNat_ofNat_of_lt' (show c.val.toNat < 256 by omega)] at hval
    exact h (Char.toNat_inj.mp hval.symm)
  all_goals
    simp only [mem_cons, not_mem_nil, or_false, not_or]
  · exact ⟨ne_high (by omega) (by omega), ne_high (by omega) (by omega)⟩
  · exact ⟨ne_high (by omega) (by omega), ne_high (by omega) (by omega),
      ne_high (by omega) (by omega)⟩
  · exact ⟨ne_high (by omega) (by omega), ne_high (by omega) (by omega),
      ne_high (by omega) (by omega), ne_high (by omega) (by omega)⟩

theorem IsPlainText.not_mem {s : List UInt8} (h : IsPlainText s) : 60 ∉ s := by
  obtain ⟨cs, rfl, -, hplain, -⟩ := h
  intro hmem
  obtain ⟨c, hc, hmem⟩ := mem_flatMap.mp hmem
  exact not_mem_utf8EncodeChar (hplain c hc).2.2.2.1 hmem

theorem IsPlainText.ne_nil {s : List UInt8} (h : IsPlainText s) : s ≠ [] := by
  obtain ⟨cs, rfl, hne, -, -⟩ := h
  obtain ⟨c, cs, rfl⟩ := exists_cons_of_ne_nil hne
  rw [flatMap_cons]
  exact fun hnil => String.utf8EncodeChar_ne_nil (append_eq_nil_iff.mp hnil).1

/-- No name has a bracket or a slash in it. -/
theorem IsName.not_mem {name : List UInt8} (h : IsName name) {b : UInt8}
    (hb : b = 47 ∨ b = 60 ∨ b = 62) : b ∉ name := by
  intro hmem
  rcases hb with rfl | rfl | rfl
  · exact absurd (h.2 _ hmem) (by decide)
  · exact absurd (h.2 _ hmem) (by decide)
  · exact absurd (h.2 _ hmem) (by decide)

theorem takeWhile_tag {name : List UInt8} (h : 62 ∉ name) (s : List UInt8) :
    (name ++ 62 :: s).takeWhile (· ≠ 62) = name ∧ (name ++ 62 :: s).dropWhile (· ≠ 62) = 62 :: s := by
  have hall : ∀ b ∈ name, decide (b ≠ 62) = true := fun b hb => decide_eq_true fun heq => h (heq ▸ hb)
  constructor
  · rw [takeWhile_append_of_pos hall, takeWhile_cons_of_neg (by decide), append_nil]
  · rw [dropWhile_append_of_pos hall, dropWhile_cons_of_neg (by decide)]

/-- A start tag, with characters behind it. -/
theorem step_startTag {name : List UInt8} (h : IsName name) (stack : List Open) (s : List UInt8) :
    step stack (name ++ 62 :: s) = some (⟨name, chunks s, []⟩ :: stack) := by
  obtain ⟨htake, hdrop⟩ := takeWhile_tag (h.not_mem (.inr (.inr rfl))) s
  unfold step
  rw [htake, hdrop]
  obtain ⟨b, name, rfl⟩ := exists_cons_of_ne_nil h.1
  have hslash : b ≠ 47 := fun heq => h.not_mem (.inl heq) mem_cons_self
  dsimp only
  split
  · rename_i heq
    exact absurd (List.cons.inj heq).1 hslash
  · rfl

theorem step_endTag {name : List UInt8} (h : IsName name) (o parent : Open) (stack : List Open)
    (ho : o.name = name) :
    step (o :: parent :: stack) (47 :: (name ++ [62])) = some (parent.add o.close :: stack) := by
  have hmem : 62 ∉ 47 :: name := by
    intro hmem
    rcases mem_cons.mp hmem with heq | hmem
    · cases heq
    · exact h.not_mem (.inr (.inr rfl)) hmem
  obtain ⟨htake, hdrop⟩ := takeWhile_tag hmem []
  unfold step
  rw [← cons_append, htake, hdrop]
  exact if_pos ho

theorem chunks_flatten {cdata : List (List UInt8)}
    (h : cdata = [] ∨ ∃ s, cdata = [s] ∧ IsPlainText s) : chunks cdata.flatten = cdata := by
  rcases h with rfl | ⟨s, rfl, hs⟩
  · rfl
  · rw [flatten_singleton]
    exact if_neg hs.ne_nil

mutual
/-- A plain element becomes a child of the one it is in. -/
theorem foldlM_pieces : ∀ (e : Element) (o : Open) (stack : List Open) (ps : List (List UInt8)),
    e.Plain → (e.pieces ++ ps).foldlM step (o :: stack) = ps.foldlM step (o.add e :: stack)
  | ⟨name, cdata, children⟩, o, stack, ps, ⟨hname, hcdata, hchildren⟩ => by
    rw [Element.pieces, cons_append, foldlM_cons, step_startTag hname,
      chunks_flatten hcdata, append_assoc]
    show (Element.piecesAll children ++ ([47 :: (name ++ [62])] ++ ps)).foldlM step
      (⟨name, cdata, []⟩ :: o :: stack) = _
    rw [foldlM_piecesAll children ⟨name, cdata, []⟩ (o :: stack) _ hchildren, singleton_append,
      foldlM_cons, step_endTag hname _ o stack rfl]
    rfl

theorem foldlM_piecesAll : ∀ (es : List Element) (o : Open) (stack : List Open)
    (ps : List (List UInt8)), Element.PlainAll es →
      (Element.piecesAll es ++ ps).foldlM step (o :: stack) =
        ps.foldlM step ({ o with children := o.children ++ es } :: stack)
  | [], o, stack, ps, _ => by
    rw [append_nil]
    rfl
  | e :: es, o, stack, ps, ⟨he, hes⟩ => by
    rw [Element.piecesAll, append_assoc, foldlM_pieces e o stack _ he,
      foldlM_piecesAll es (o.add e) stack ps hes]
    unfold Open.add
    rw [append_assoc]
    rfl
end

mutual
theorem Element.Plain.not_mem_pieces : ∀ {e : Element}, e.Plain → ∀ p ∈ e.pieces, 60 ∉ p
  | ⟨name, cdata, children⟩, ⟨hname, hcdata, hchildren⟩, p, hp => by
    have hbracket := hname.not_mem (.inr (.inl rfl))
    have htext : 60 ∉ cdata.flatten := by
      rcases hcdata with rfl | ⟨s, rfl, hs⟩
      · exact not_mem_nil
      · rw [flatten_singleton]
        exact hs.not_mem
    rw [Element.pieces, mem_cons, mem_append, mem_singleton] at hp
    rcases hp with rfl | hp | rfl
    · simp [hbracket, htext]
    · exact Element.PlainAll.not_mem_pieces hchildren p hp
    · simp [hbracket]

theorem Element.PlainAll.not_mem_pieces : ∀ {es : List Element}, PlainAll es →
    ∀ p ∈ piecesAll es, 60 ∉ p
  | [], _, p, hp => absurd hp not_mem_nil
  | _ :: _, ⟨he, hes⟩, p, hp => by
    rw [Element.piecesAll] at hp
    rcases mem_append.mp hp with hp | hp
    · exact Element.Plain.not_mem_pieces he p hp
    · exact Element.PlainAll.not_mem_pieces hes p hp
end

/-- A plain element is read back from its text. -/
theorem parse_text {e : Element} (h : e.Plain) : parse e.text = some e := by
  have hsplit := splitOnP_flatMap not_mem_nil h.not_mem_pieces
  rw [nil_append, ← e.text_eq_pieces] at hsplit
  have hfold := foldlM_pieces e ⟨[], [], []⟩ [] [] h
  rw [append_nil] at hfold
  unfold parse
  rw [hsplit]
  dsimp only
  rw [hfold]
  rfl

end JxtaC.Lib.Xml
