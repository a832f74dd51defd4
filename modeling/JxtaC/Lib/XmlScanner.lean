import JxtaC.Lib.XmlDocument

/-
  A parser for XML documents with attributes and references: `scan_conforms`. It reads a document
  byte by byte; what stands between `<` and `>`, outside of quotation marks, is a tag.
  Nothing here depends on the modelled code.
-/

namespace JxtaC.Lib.XmlDocument

open List
variable {b : UInt8} {ps : List Piece} {s name : List UInt8} {atts : List Attribute}
variable {space tag : List UInt8}

/-! ## reading -/

/-- The text with its references resolved. -/
def decode : List UInt8 → List UInt8
  | 38 :: 108 :: 116 :: 59 :: s => 60 :: decode s
  | 38 :: 103 :: 116 :: 59 :: s => 62 :: decode s
  | 38 :: 97 :: 109 :: 112 :: 59 :: s => 38 :: decode s
  | b :: s => b :: decode s
  | [] => []

/-- In the attributes of a tag: those read, the name of the next one, and what was read of its
value. -/
structure AttScan where
  atts : List (List UInt8 × List UInt8)
  name : List UInt8
  buf : List UInt8
  inValue : Bool

def AttScan.step (s : AttScan) (b : UInt8) : AttScan :=
  if s.inValue then
    if b = 34 then ⟨s.atts ++ [(s.name, decode s.buf)], [], [], false⟩
    else { s with buf := s.buf ++ [b] }
  else if b = 34 then { s with inValue := true }
  else if isNameByte b then { s with name := s.name ++ [b] } else s

/-- The attributes that a text holds. -/
def scanAtts (s : List UInt8) : List (List UInt8 × List UInt8) :=
  (s.foldl AttScan.step ⟨[], [], [], false⟩).atts

/-- The calls for a start tag, without the slash of an empty element. -/
def startCall (tag markup : List UInt8) : Call :=
  .start (tag.takeWhile isNameByte) (scanAtts (tag.dropWhile isNameByte)) markup

/-- The calls for a tag; a declaration is handed on as text. -/
def tagCalls (tag : List UInt8) : List Call :=
  let markup := 60 :: (tag ++ [62])
  if tag.head? = some 47 then [.finish tag.tail markup]
  else if tag.head? = some 63 ∨ tag.head? = some 33 then [.chars markup]
  else if tag.getLast? = some 47 then
    [startCall tag.dropLast markup, .finish (tag.dropLast.takeWhile isNameByte) []]
  else [startCall tag markup]

inductive Mode where
  | text
  | tag
  | quoted
  deriving Repr, DecidableEq

/-- Between two bytes: the calls so far, and what was read since. -/
structure Scan where
  calls : List Call
  buf : List UInt8
  mode : Mode

def Scan.step (s : Scan) (b : UInt8) : Scan :=
  match s.mode with
  | .text =>
    if b = 60 then ⟨s.calls ++ [.chars (decode s.buf)], [], .tag⟩
    else { s with buf := s.buf ++ [b] }
  | .tag =>
    if b = 62 then ⟨s.calls ++ tagCalls s.buf, [], .text⟩
    else ⟨s.calls, s.buf ++ [b], if b = 34 then .quoted else .tag⟩
  | .quoted => ⟨s.calls, s.buf ++ [b], if b = 34 then .tag else .quoted⟩

def scan : Parser := fun doc =>
  let s := doc.foldl Scan.step ⟨[], [], .text⟩
  (s.calls ++ [.chars (decode s.buf)], true)

/-! ## characters -/

theorem decode_cons (h : b ≠ 38) (s : List UInt8) : decode (b :: s) = b :: decode s := by
  rw [decode.eq_def]
  split
  next heq => exact absurd (List.cons.inj heq).1 h
  next heq => exact absurd (List.cons.inj heq).1 h
  next heq => exact absurd (List.cons.inj heq).1 h
  next heq =>
    cases heq
    rfl
  next heq => exact absurd heq (cons_ne_nil _ _)

/-- Bytes that do not begin a reference. -/
def NoReference (ps : List Piece) : Prop := ∀ b, Piece.byte b ∈ ps → b ≠ 38

theorem decode_sourceOf (h : NoReference ps) : decode (sourceOf ps) = valueOf ps := by
  induction ps with
  | nil => rfl
  | cons p ps ih =>
    have hps := ih fun b hb => h b (mem_cons_of_mem p hb)
    unfold sourceOf valueOf at hps ⊢
    rw [flatMap_cons, map_cons]
    cases p with
    | byte b =>
      have hb := h b mem_cons_self
      exact (decode_cons hb _).trans (congrArg (b :: ·) hps)
    | lt => exact congrArg (60 :: ·) hps
    | gt => exact congrArg (62 :: ·) hps
    | amp => exact congrArg (38 :: ·) hps

theorem NoReference.append {qs : List Piece} (hps : NoReference ps) (hqs : NoReference qs) :
    NoReference (ps ++ qs) := fun b hb => (mem_append.mp hb).elim (hps b) (hqs b)

/-- A byte that no reference has in it stands for itself. -/
theorem mem_of_mem_sourceOf (hb : ∀ p : Piece, b ∈ p.source → p = .byte b) (h : b ∈ sourceOf ps) :
    Piece.byte b ∈ ps := by
  obtain ⟨p, hp, hmem⟩ := mem_flatMap.mp h
  rw [← hb p hmem]
  exact hp

theorem lt_piece (p : Piece) (h : 60 ∈ p.source) : p = .byte 60 := by
  cases p with
  | byte b => rw [mem_singleton.mp h]
  | lt => exact absurd h (by decide)
  | gt => exact absurd h (by decide)
  | amp => exact absurd h (by decide)

theorem quote_piece (p : Piece) (h : 34 ∈ p.source) : p = .byte 34 := by
  cases p with
  | byte b => rw [mem_singleton.mp h]
  | lt => exact absurd h (by decide)
  | gt => exact absurd h (by decide)
  | amp => exact absurd h (by decide)

/-- Text mode collects what has no tag in it. -/
theorem foldl_text (s : List UInt8) (h : 60 ∉ s) (calls : List Call) (buf : List UInt8) :
    s.foldl Scan.step ⟨calls, buf, .text⟩ = ⟨calls, buf ++ s, .text⟩ := by
  induction s generalizing buf with
  | nil => rw [append_nil]; rfl
  | cons b s ih =>
    obtain ⟨hb, hs⟩ := not_or.mp (mem_cons.not.mp h)
    have hstep : Scan.step ⟨calls, buf, .text⟩ b = ⟨calls, buf ++ [b], .text⟩ :=
      if_neg (Ne.symm hb)
    rw [foldl_cons, hstep, ih hs, append_assoc]
    rfl

/-! ## tags -/

/-- A text that is read in a tag without ending it. -/
def Quiet (t : List UInt8) : Prop :=
  ∀ calls buf, t.foldl Scan.step ⟨calls, buf, .tag⟩ = ⟨calls, buf ++ t, .tag⟩

theorem Quiet.append {t : List UInt8} (hs : Quiet s) (ht : Quiet t) : Quiet (s ++ t) := by
  intro calls buf
  rw [foldl_append, hs, ht, append_assoc]

theorem quiet_nil : Quiet [] := fun calls buf => by
  rw [append_nil]
  rfl

theorem quiet_of_plain (h : ∀ b ∈ s, b ≠ 62 ∧ b ≠ 34) : Quiet s := by
  induction s with
  | nil => exact quiet_nil
  | cons b s ih =>
    obtain ⟨hb, hs⟩ := forall_mem_cons.mp h
    intro calls buf
    have hstep : Scan.step ⟨calls, buf, .tag⟩ b = ⟨calls, buf ++ [b], .tag⟩ := by
      refine (if_neg hb.1).trans ?_
      rw [if_neg hb.2]
    rw [foldl_cons, hstep, ih hs, append_assoc]
    rfl

theorem foldl_quoted (s : List UInt8) (h : 34 ∉ s) (calls : List Call) (buf : List UInt8) :
    s.foldl Scan.step ⟨calls, buf, .quoted⟩ = ⟨calls, buf ++ s, .quoted⟩ := by
  induction s generalizing buf with
  | nil => rw [append_nil]; rfl
  | cons b s ih =>
    obtain ⟨hb, hs⟩ := not_or.mp (mem_cons.not.mp h)
    have hstep : Scan.step ⟨calls, buf, .quoted⟩ b = ⟨calls, buf ++ [b], .quoted⟩ := by
      show (⟨_, _, if b = 34 then .tag else .quoted⟩ : Scan) = _
      rw [if_neg (Ne.symm hb)]
    rw [foldl_cons, hstep, ih hs, append_assoc]
    rfl

/-- What stands between quotation marks does not end a tag. -/
theorem quiet_quotes (h : 34 ∉ s) : Quiet (34 :: (s ++ [34])) := by
  intro calls buf
  have hopen : Scan.step ⟨calls, buf, .tag⟩ 34 = ⟨calls, buf ++ [34], .quoted⟩ := rfl
  have hclose (buf : List UInt8) :
      [34].foldl Scan.step ⟨calls, buf, .quoted⟩ = ⟨calls, buf ++ [34], .tag⟩ := rfl
  rw [foldl_cons, hopen, foldl_append, foldl_quoted s h, hclose]
  simp

theorem isNameByte_plain (h : isNameByte b = true) :
    b ≠ 62 ∧ b ≠ 34 ∧ b ≠ 47 ∧ b ≠ 63 ∧ b ≠ 33 ∧ b ≠ 32 ∧ b ≠ 10 := by
  refine ⟨?_, ?_, ?_, ?_, ?_, ?_, ?_⟩ <;>
  · rintro rfl
    cases h

theorem quiet_name (h : ∀ b ∈ name, isNameByte b = true) : Quiet name :=
  quiet_of_plain fun b hb => ⟨(isNameByte_plain (h b hb)).1, (isNameByte_plain (h b hb)).2.1⟩

theorem quiet_blank (h : IsBlank s) : Quiet s := by
  apply quiet_of_plain
  intro b hb
  rcases h b hb with rfl | rfl
  · decide
  · decide

theorem quote_not_mem (h : IsValue ps) : 34 ∉ sourceOf ps := fun hmem =>
  absurd (h.2 34 (mem_of_mem_sourceOf quote_piece hmem)) (by decide)

theorem Attribute.WellFormed.quiet {a : Attribute} (h : a.WellFormed) : Quiet a.source := by
  obtain ⟨-, hspace, hname, hvalue⟩ := h
  have heq : Quiet [61] := quiet_of_plain (by decide)
  exact (quiet_blank hspace).append
    ((quiet_name hname.2).append (heq.append (quiet_quotes (quote_not_mem hvalue))))

theorem quiet_atts (h : ∀ a ∈ atts, a.WellFormed) : Quiet (atts.flatMap Attribute.source) := by
  induction atts with
  | nil => exact quiet_nil
  | cons a atts ih =>
    obtain ⟨ha, hatts⟩ := forall_mem_cons.mp h
    exact ha.quiet.append (ih hatts)

theorem quiet_tagSource (hname : IsName name) (hatts : AttsWellFormed atts)
    (hspace : IsBlank space) : Quiet (tagSource name atts space) :=
  (quiet_name hname.2).append ((quiet_atts hatts.1).append (quiet_blank hspace))

/-! ## attributes -/

theorem foldl_attBlank (h : ∀ b ∈ s, b ≠ 34 ∧ isNameByte b = false)
    (atts : List (List UInt8 × List UInt8)) (name buf : List UInt8) :
    s.foldl AttScan.step ⟨atts, name, buf, false⟩ = ⟨atts, name, buf, false⟩ := by
  induction s with
  | nil => rfl
  | cons b s ih =>
    obtain ⟨⟨hquote, hname⟩, hs⟩ := forall_mem_cons.mp h
    have hstep : AttScan.step ⟨atts, name, buf, false⟩ b = ⟨atts, name, buf, false⟩ := by
      refine (if_neg hquote).trans (if_neg ?_)
      rw [hname]
      decide
    rw [foldl_cons, hstep, ih hs]

theorem foldl_attName (h : ∀ b ∈ s, isNameByte b = true) (atts : List (List UInt8 × List UInt8))
    (name buf : List UInt8) :
    s.foldl AttScan.step ⟨atts, name, buf, false⟩ = ⟨atts, name ++ s, buf, false⟩ := by
  induction s generalizing name with
  | nil => rw [append_nil]; rfl
  | cons b s ih =>
    obtain ⟨hb, hs⟩ := forall_mem_cons.mp h
    have hstep : AttScan.step ⟨atts, name, buf, false⟩ b = ⟨atts, name ++ [b], buf, false⟩ :=
      (if_neg (isNameByte_plain hb).2.1).trans (if_pos hb)
    rw [foldl_cons, hstep, ih hs, append_assoc]
    rfl

theorem foldl_attValue (h : 34 ∉ s) (atts : List (List UInt8 × List UInt8))
    (name buf : List UInt8) :
    s.foldl AttScan.step ⟨atts, name, buf, true⟩ = ⟨atts, name, buf ++ s, true⟩ := by
  induction s generalizing buf with
  | nil => rw [append_nil]; rfl
  | cons b s ih =>
    obtain ⟨hb, hs⟩ := not_or.mp (mem_cons.not.mp h)
    have hstep : AttScan.step ⟨atts, name, buf, true⟩ b = ⟨atts, name, buf ++ [b], true⟩ :=
      if_neg (Ne.symm hb)
    rw [foldl_cons, hstep, ih hs, append_assoc]
    rfl

theorem blank_plain (h : IsBlank s) : ∀ b ∈ s, b ≠ 34 ∧ isNameByte b = false := by
  intro b hb
  rcases h b hb with rfl | rfl
  · decide
  · decide

theorem IsValue.noReference (h : IsValue ps) : NoReference ps := by
  rintro b hb rfl
  exact absurd (h.2 38 hb) (by decide)

theorem IsText.noReference (h : IsText ps) : NoReference ps := by
  rintro b hb rfl
  exact absurd (h.2.1 38 hb) (by decide)

theorem foldl_attribute {a : Attribute} (h : a.WellFormed) (atts : List (List UInt8 × List UInt8)) :
    a.source.foldl AttScan.step ⟨atts, [], [], false⟩ =
      ⟨atts ++ [(a.name, valueOf a.value)], [], [], false⟩ := by
  obtain ⟨-, hspace, hname, hvalue⟩ := h
  have heq : ∀ name, [61].foldl AttScan.step ⟨atts, name, [], false⟩ = ⟨atts, name, [], false⟩ :=
    fun name => foldl_attBlank (by decide) atts name []
  have hopen : ∀ name, [34].foldl AttScan.step ⟨atts, name, [], false⟩ = ⟨atts, name, [], true⟩ :=
    fun _ => rfl
  have hclose : ∀ name buf, [34].foldl AttScan.step ⟨atts, name, buf, true⟩ =
      ⟨atts ++ [(name, decode buf)], [], [], false⟩ := fun _ _ => rfl
  have hsource : a.source = a.space ++ (a.name ++ ([61] ++ ([34] ++ (sourceOf a.value ++ [34])))) :=
    rfl
  rw [hsource, foldl_append, foldl_attBlank (blank_plain hspace), foldl_append,
    foldl_attName hname.2, foldl_append, heq, foldl_append, hopen, foldl_append,
    foldl_attValue (quote_not_mem hvalue), hclose, nil_append, nil_append,
    decode_sourceOf hvalue.noReference]

theorem foldl_attributes (h : ∀ a ∈ atts, a.WellFormed) (done : List (List UInt8 × List UInt8)) :
    (atts.flatMap Attribute.source).foldl AttScan.step ⟨done, [], [], false⟩ =
      ⟨done ++ attsOf atts, [], [], false⟩ := by
  induction atts generalizing done with
  | nil => rw [attsOf, map_nil, append_nil]; rfl
  | cons a atts ih =>
    obtain ⟨ha, hatts⟩ := forall_mem_cons.mp h
    rw [flatMap_cons, foldl_append, foldl_attribute ha, ih hatts, append_assoc]
    rfl

theorem scanAtts_source (hatts : AttsWellFormed atts) (hspace : IsBlank space) :
    scanAtts (atts.flatMap Attribute.source ++ space) = attsOf atts := by
  unfold scanAtts
  rw [foldl_append, foldl_attributes hatts.1, foldl_attBlank (blank_plain hspace),
    nil_append]

/-- What stands behind the name in a tag does not begin with a byte of a name. -/
theorem behind_name (hatts : AttsWellFormed atts) (hspace : IsBlank space) :
    ∀ b ∈ (atts.flatMap Attribute.source ++ space).head?, isNameByte b = false := by
  intro b hb
  cases atts with
  | nil => exact (blank_plain hspace b (mem_of_mem_head? hb)).2
  | cons a atts =>
    obtain ⟨hne, hblank, -, -⟩ := hatts.1 a mem_cons_self
    obtain ⟨c, s, hs⟩ := exists_cons_of_ne_nil hne
    have hhead : (List.flatMap Attribute.source (a :: atts) ++ space).head? = some c := by
      rw [flatMap_cons, Attribute.source, hs]
      rfl
    rw [hhead] at hb
    obtain rfl := Option.mem_some_iff.mp hb
    exact (blank_plain hblank c (hs ▸ mem_cons_self)).2

theorem takeWhile_name {rest : List UInt8} (hname : ∀ b ∈ name, isNameByte b = true)
    (hrest : ∀ b ∈ rest.head?, isNameByte b = false) :
    (name ++ rest).takeWhile isNameByte = name ∧ (name ++ rest).dropWhile isNameByte = rest := by
  rw [takeWhile_append_of_pos hname, dropWhile_append_of_pos hname]
  cases rest with
  | nil => exact ⟨append_nil name, rfl⟩
  | cons b rest =>
    have hb := hrest b rfl
    rw [takeWhile_cons_of_neg (by simp [hb]), dropWhile_cons_of_neg (by simp [hb])]
    exact ⟨append_nil name, rfl⟩

theorem startCall_source (hname : IsName name) (hatts : AttsWellFormed atts)
    (hspace : IsBlank space) (markup : List UInt8) :
    startCall (tagSource name atts space) markup = .start name (attsOf atts) markup ∧
      (tagSource name atts space).takeWhile isNameByte = name := by
  obtain ⟨htake, hdrop⟩ := takeWhile_name hname.2 (behind_name hatts hspace)
  unfold startCall tagSource
  rw [htake, hdrop, scanAtts_source hatts hspace]
  exact ⟨rfl, rfl⟩

/-- The byte at the front of a tag is one of a name. -/
theorem head_tagSource (hname : IsName name) (atts : List Attribute) (space rest : List UInt8) :
    ∃ b, (tagSource name atts space ++ rest).head? = some b ∧ isNameByte b = true := by
  obtain ⟨b, hb, -⟩ := hname.1
  cases name with
  | nil => cases hb
  | cons c name => exact ⟨c, rfl, hname.2 c mem_cons_self⟩

theorem tagCalls_of_name (hhead : tag.head? = some b) (hb : isNameByte b = true) :
    tagCalls tag = if tag.getLast? = some 47 then
        [startCall tag.dropLast (60 :: (tag ++ [62])),
          .finish (tag.dropLast.takeWhile isNameByte) []]
      else [startCall tag (60 :: (tag ++ [62]))] := by
  obtain ⟨-, -, hslash, hquestion, hbang, -, -⟩ := isNameByte_plain hb
  have hend : ¬ some b = some 47 := fun h => hslash (Option.some.inj h)
  have hdecl : ¬ (some b = some 63 ∨ some b = some 33) := by
    rintro (h | h)
    · exact hquestion (Option.some.inj h)
    · exact hbang (Option.some.inj h)
  unfold tagCalls
  rw [hhead]
  rw [if_neg hend, if_neg hdecl]

/-- A start tag does not end with a slash. -/
theorem last_tagSource (hname : IsName name) (hspace : IsBlank space) :
    (tagSource name atts space).getLast? ≠ some 47 := by
  intro h
  unfold tagSource at h
  rw [← append_assoc] at h
  cases hs : space.getLast? with
  | some b =>
    rw [getLast?_append, hs] at h
    have hb : b = 47 := Option.some.inj h
    rcases hspace b (mem_of_getLast? hs) with rfl | rfl
    · cases hb
    · cases hb
  | none =>
    rw [getLast?_append, hs, Option.none_or, getLast?_append] at h
    cases ha : (atts.flatMap Attribute.source).getLast? with
    | none =>
      rw [ha, Option.none_or] at h
      exact (isNameByte_plain (hname.2 47 (mem_of_getLast? h))).2.2.1 rfl
    | some b =>
      rw [ha] at h
      obtain rfl : b = 47 := Option.some.inj h
      have hquote : ∀ atts : List Attribute, ∀ b ∈ (atts.flatMap Attribute.source).getLast?,
          b = 34 := by
        intro atts
        induction atts with
        | nil => exact fun b hb => absurd hb (by simp)
        | cons a atts ih =>
          intro b hb
          have hlast : a.source.getLast? = some 34 := by
            have hsource : a.source = (a.space ++ (a.name ++ 61 :: 34 :: sourceOf a.value)) ++ [34] := by
              simp [Attribute.source]
            rw [hsource, getLast?_concat]
          rw [flatMap_cons, getLast?_append, hlast] at hb
          cases hatts : (atts.flatMap Attribute.source).getLast? with
          | none =>
            rw [hatts] at hb
            exact (Option.some.inj hb).symm
          | some c =>
            rw [hatts] at hb
            have hc : c = b := Option.some.inj hb
            exact hc ▸ ih c hatts
      exact absurd (hquote atts 47 ha) (by decide)

theorem tagCalls_start (hname : IsName name) (hatts : AttsWellFormed atts)
    (hspace : IsBlank space) :
    tagCalls (tagSource name atts space) =
      [.start name (attsOf atts) (startSource name atts space)] := by
  obtain ⟨b, hhead, hb⟩ := head_tagSource hname atts space []
  rw [append_nil] at hhead
  rw [tagCalls_of_name hhead hb, if_neg (last_tagSource hname hspace),
    (startCall_source hname hatts hspace _).1]
  rfl

theorem tagCalls_empty (hname : IsName name) (hatts : AttsWellFormed atts)
    (hspace : IsBlank space) :
    tagCalls (tagSource name atts space ++ [47]) =
      [.start name (attsOf atts) (emptySource name atts space), .finish name []] := by
  obtain ⟨b, hhead, hb⟩ := head_tagSource hname atts space [47]
  rw [tagCalls_of_name hhead hb, if_pos getLast?_concat, dropLast_concat,
    (startCall_source hname hatts hspace _).1, (startCall_source hname hatts hspace []).2]
  simp [emptySource]

theorem tagCalls_finish (name : List UInt8) :
    tagCalls (47 :: name) = [.finish name (endSource name)] := rfl

/-- A tag ends the text in front of it. -/
theorem foldl_tag (h : Quiet tag) (calls : List Call) (buf : List UInt8) :
    (60 :: (tag ++ [62])).foldl Scan.step ⟨calls, buf, .text⟩ =
      ⟨calls ++ .chars (decode buf) :: tagCalls tag, [], .text⟩ := by
  have hopen : Scan.step ⟨calls, buf, .text⟩ 60 = ⟨calls ++ [.chars (decode buf)], [], .tag⟩ := rfl
  have hclose (calls : List Call) (buf : List UInt8) :
      [62].foldl Scan.step ⟨calls, buf, .tag⟩ = ⟨calls ++ tagCalls buf, [], .text⟩ := rfl
  rw [foldl_cons, hopen, foldl_append, h, hclose, nil_append, append_assoc]
  rfl

/-! ## documents -/

/-- From one state to another the calls and the waiting text grow by these calls. -/
def Extends (s : Scan) (ps : List Piece) (source : List UInt8) (cs : List Call) : Prop :=
  ∃ (calls : List Call) (qs : List Piece),
    source.foldl Scan.step ⟨s.calls, sourceOf ps, .text⟩ = ⟨calls, sourceOf qs, .text⟩ ∧
      NoReference qs ∧
        flat (calls ++ [.chars (valueOf qs)]) = flat (s.calls ++ [.chars (valueOf ps)] ++ cs)

theorem flat_markup (calls cs : List Call) (s : List UInt8) :
    flat (calls ++ .chars s :: cs ++ [.chars []]) = flat (calls ++ [.chars s] ++ cs) := by
  simp

theorem extends_tag {s : Scan} (hps : NoReference ps) (h : Quiet tag) :
    Extends s ps (60 :: (tag ++ [62])) (tagCalls tag) := by
  refine ⟨s.calls ++ .chars (valueOf ps) :: tagCalls tag, [], ?_, fun b hb => ?_, ?_⟩
  · rw [foldl_tag h, decode_sourceOf hps]
    rfl
  · exact absurd hb not_mem_nil
  · exact flat_markup _ _ _

theorem extends_nil (s : Scan) (hps : NoReference ps) : Extends s ps [] [] :=
  ⟨s.calls, ps, rfl, hps, by simp⟩

/-- Two parts of a document, one behind the other. -/
theorem Extends.append {s : Scan} {source source' : List UInt8} {cs cs' : List Call}
    (h : Extends s ps source cs)
    (h' : ∀ (t : Scan) (qs : List Piece), NoReference qs → Extends t qs source' cs') :
    Extends s ps (source ++ source') (cs ++ cs') := by
  obtain ⟨calls, qs, hfold, hqs, hflat⟩ := h
  obtain ⟨calls', qs', hfold', hqs', hflat'⟩ := h' ⟨calls, [], .text⟩ qs hqs
  refine ⟨calls', qs', ?_, hqs', ?_⟩
  · rw [foldl_append, hfold, hfold']
  · rw [hflat', flat_append, hflat, ← append_assoc, flat_append _ cs']

theorem quiet_end (h : IsName name) : Quiet (47 :: name) :=
  (quiet_of_plain (s := [47]) (by decide)).append (quiet_name h.2)

mutual
theorem extends_node : ∀ (node : Node), node.WellFormed → ∀ (s : Scan) (ps : List Piece),
    NoReference ps → Extends s ps node.source node.calls
  | .chars qs, h, s, ps, hps => by
    have hfree : 60 ∉ sourceOf qs := fun hmem =>
      absurd (h.2.1 60 (mem_of_mem_sourceOf lt_piece hmem)) (by decide)
    refine ⟨s.calls, ps ++ qs, ?_, hps.append h.noReference, ?_⟩
    · rw [Node.source, foldl_text _ hfree, sourceOf_append]
    · simp [Node.calls]
  | .element name atts space children, ⟨hname, hatts, hspace, _, hchildren⟩, s, ps, hps => by
    have hstart : Extends s ps (startSource name atts space)
        [.start name (attsOf atts) (startSource name atts space)] := by
      rw [← tagCalls_start hname hatts hspace]
      exact extends_tag hps (quiet_tagSource hname hatts hspace)
    have hend : ∀ (t : Scan) (qs : List Piece), NoReference qs →
        Extends t qs (endSource name) [.finish name (endSource name)] := by
      intro t qs hqs
      rw [← tagCalls_finish]
      exact extends_tag hqs (quiet_end hname)
    exact hstart.append fun t qs hqs => (extends_nodes children hchildren t qs hqs).append hend
  | .empty name atts space, ⟨hname, hatts, hspace⟩, s, ps, hps => by
    have hquiet : Quiet (tagSource name atts space ++ [47]) :=
      (quiet_tagSource hname hatts hspace).append (quiet_of_plain (by decide))
    have htag := extends_tag (s := s) hps hquiet
    rw [tagCalls_empty hname hatts hspace, append_assoc] at htag
    exact htag

theorem extends_nodes : ∀ (nodes : List Node), Node.AllWellFormed nodes →
    ∀ (s : Scan) (ps : List Piece), NoReference ps →
      Extends s ps (Node.sources nodes) (Node.allCalls nodes)
  | [], _, s, _, hps => extends_nil s hps
  | node :: nodes, ⟨hnode, hnodes⟩, s, ps, hps =>
    (extends_node node hnode s ps hps).append (extends_nodes nodes hnodes)
end

theorem extends_blank {s : Scan} (hps : NoReference ps) {t : List UInt8} (ht : IsBlank t) :
    Extends s ps t [.chars t] := by
  have hfree : 60 ∉ t := fun hmem => by
    rcases ht 60 hmem with h | h
    · cases h
    · cases h
  have hraw : NoReference (raw t) := by
    intro b hb
    obtain ⟨c, hc, hcb⟩ := mem_map.mp hb
    cases hcb
    rintro rfl
    rcases ht 38 hc with h | h
    · cases h
    · cases h
  refine ⟨s.calls, ps ++ raw t, ?_, hps.append hraw, ?_⟩
  · rw [foldl_text _ hfree, sourceOf_append, sourceOf_raw]
  · simp

/-- A declaration is handed on as text. -/
theorem extends_declaration {s : Scan} (hps : NoReference ps) (h : Quiet tag)
    (hhead : tag.head? = some 63 ∨ tag.head? = some 33) :
    Extends s ps (60 :: (tag ++ [62])) [.chars (60 :: (tag ++ [62]))] := by
  have hcalls : tagCalls tag = [.chars (60 :: (tag ++ [62]))] := by
    have hend : ¬ tag.head? = some 47 := by
      rcases hhead with hhead | hhead
      · rw [hhead]
        decide
      · rw [hhead]
        decide
    unfold tagCalls
    rw [if_neg hend, if_pos hhead]
  rw [← hcalls]
  exact extends_tag hps h

theorem extends_xmlDeclaration (t : Scan) (qs : List Piece) (hqs : NoReference qs) :
    Extends t qs xmlDeclaration [.chars xmlDeclaration] := by
  let tag : List UInt8 := [63, 120, 109, 108, 32, 118, 101, 114, 115, 105, 111, 110, 61] ++
    ((34 :: ([49, 46, 48] ++ [34])) ++ [63])
  have hquiet : Quiet tag :=
    (quiet_of_plain (by decide)).append ((quiet_quotes (by decide)).append
      (quiet_of_plain (by decide)))
  have hsource : xmlDeclaration = 60 :: (tag ++ [62]) := by decide
  rw [hsource]
  exact extends_declaration hqs hquiet (.inl (by decide))

theorem extends_doctype (hname : IsName name) (t : Scan) (qs : List Piece) (hqs : NoReference qs) :
    Extends t qs (doctypeStart ++ name ++ [62]) [.chars (doctypeStart ++ name ++ [62])] := by
  have hquiet : Quiet ([33, 68, 79, 67, 84, 89, 80, 69, 32] ++ name) :=
    (quiet_of_plain (by decide)).append (quiet_name hname.2)
  have hsource : doctypeStart ++ name ++ [62] =
      60 :: (([33, 68, 79, 67, 84, 89, 80, 69, 32] ++ name) ++ [62]) := by
    simp [doctypeStart]
  rw [hsource]
  exact extends_declaration hqs hquiet (.inr (by simp))

/-- The scanner is a parser. -/
theorem scan_conforms : Conforms scan := by
  intro doc h
  obtain ⟨hone, htwo, hthree, hroot⟩ := h
  have hname : IsName doc.name := hroot.1
  have hdoc := (extends_xmlDeclaration ⟨[], [], .text⟩ [] fun b hb =>
    absurd hb not_mem_nil).append fun t qs hqs => (extends_blank hqs hone).append
      fun t qs hqs => (extends_doctype hname t qs hqs).append
      fun t qs hqs => (extends_blank hqs htwo).append fun t qs hqs =>
        (extends_node doc.root hroot t qs hqs).append fun t qs hqs => extends_blank hqs hthree
  obtain ⟨calls, qs, hfold, hqs, hflat⟩ := hdoc
  dsimp only at hfold hflat
  refine ⟨xmlDeclaration ++ doc.spaces.1 ++ (doctypeStart ++ doc.name ++ [62]) ++ doc.spaces.2.1,
    doc.spaces.2.2, calls ++ [.chars (valueOf qs)], ?_, ?_⟩
  · have hsource : doc.source = xmlDeclaration ++ (doc.spaces.1 ++ ((doctypeStart ++ doc.name ++ [62]) ++
        (doc.spaces.2.1 ++ (doc.root.source ++ doc.spaces.2.2)))) := by
      simp [Document.source]
    unfold scan
    rw [hsource]
    rw [sourceOf_nil] at hfold
    rw [hfold]
    dsimp only
    rw [decode_sourceOf hqs]
  · rw [hflat]
    simp

end JxtaC.Lib.XmlDocument
