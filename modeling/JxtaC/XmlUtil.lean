import JxtaC.Lib.CStrings
import JxtaC.ResolverQuery

/-
  The XML text codec (jxta_xml_util.c), with its two cursors: `pending` is what stands between
  `startchunk` and `srcbuf`, and `srcbuf` is the buffer from there on. The decoder looks for the
  next `;` behind a `&` however far it is, and what it does not know in between is left out, with
  all that has not been copied yet (`codec_iff`).
-/

namespace JxtaC.XmlUtil

open Lib ResolverQuery List
variable {rest run : List Byte}

/-! ## the functions -/

/-- The loop of `jxta_xml_util_encode_jstring`. -/
def encodeLoop (pending : List Byte) : (srcbuf dest : List Byte) → Exec (List Byte)
  | [], _ => .error .outOfBounds
  | b :: srcbuf, dest =>
    if b = 0 then .ok (dest ++ pending)
    else if b = 60 then encodeLoop [] srcbuf (dest ++ pending ++ text "&lt;")
    else if b = 62 then encodeLoop [] srcbuf (dest ++ pending ++ text "&gt;")
    else if b = 38 then encodeLoop [] srcbuf (dest ++ pending ++ text "&amp;")
    else encodeLoop (pending ++ [b]) srcbuf dest

/-- The run from a `&` to the `;` at `endchar` is put into `dest`. -/
def decodeRun (pending srcbuf : List Byte) (endchar : Nat) (dest : List Byte) :
    Exec (List Byte) := do
  if ← sameStr (endchar + 1) (text "&amp;" ++ [0]) srcbuf then return dest ++ pending ++ [38]
  else if ← sameStr (endchar + 1) (text "&lt;" ++ [0]) srcbuf then return dest ++ pending ++ [60]
  else if ← sameStr (endchar + 1) (text "&gt;" ++ [0]) srcbuf then return dest ++ pending ++ [62]
  else return dest

/-- The loop of `jxta_xml_util_decode_jstring`. -/
def decodeLoop (pending srcbuf dest : List Byte) : Exec (List Byte) :=
  match srcbuf with
  | [] => .error .outOfBounds
  | b :: rest =>
    if b = 0 then .ok (dest ++ pending)
    else if b = 38 then do
      match ← strchr 59 rest with
      | none => decodeLoop (pending ++ [b]) rest dest
      | some i => decodeLoop [] (rest.drop (i + 1)) (← decodeRun pending (b :: rest) (i + 1) dest)
    else decodeLoop (pending ++ [b]) rest dest
termination_by srcbuf.length
decreasing_by all_goals simp only [length_drop, length_cons]; omega

/-- `jxta_xml_util_encode_jstring`. -/
def encodeJstring (src : CString) : Exec (List Byte) := encodeLoop [] (src.bytes ++ [0]) []

/-- `jxta_xml_util_decode_jstring`. -/
def decodeJstring (src : List Byte) : Exec (List Byte) := decodeLoop [] (src ++ [0]) []

/-! ## the encoder -/

/-- The characters of a byte. -/
def escape (b : Byte) : List Byte :=
  if b = 60 then text "&lt;" else if b = 62 then text "&gt;"
  else if b = 38 then text "&amp;" else [b]

theorem encodeLoop_eq {src : List Byte} (hsrc : 0 ∉ src) (pending dest : List Byte) :
    encodeLoop pending (src ++ [0]) dest = .ok (dest ++ pending ++ src.flatMap escape) := by
  induction src generalizing pending dest with
  | nil =>
    rw [nil_append, encodeLoop, if_pos rfl, flatMap_nil, append_nil]
  | cons b src ih =>
    obtain ⟨hb, hsrc⟩ := not_mem_cons hsrc
    rw [cons_append, encodeLoop, if_neg hb, flatMap_cons]
    unfold escape
    by_cases hlt : b = 60
    · rw [if_pos hlt, if_pos hlt, ih hsrc, append_nil, append_assoc _ (text _)]
      rfl
    · rw [if_neg hlt, if_neg hlt]
      by_cases hgt : b = 62
      · rw [if_pos hgt, if_pos hgt, ih hsrc, append_nil, append_assoc _ (text _)]
        rfl
      · rw [if_neg hgt, if_neg hgt]
        by_cases hamp : b = 38
        · rw [if_pos hamp, if_pos hamp, ih hsrc, append_nil, append_assoc _ (text _)]
          rfl
        · rw [if_neg hamp, if_neg hamp, ih hsrc]
          simp only [append_assoc]
          rfl

/-! ## the references -/

/-- The names of the references, and what they stand for. -/
def entities : List (List Byte × Byte) := [(text "amp", 38), (text "lt", 60), (text "gt", 62)]

/-- A text with each reference replaced, from left to right, and the rest as it is. -/
def references : List Byte → List Byte
  | 38 :: 97 :: 109 :: 112 :: 59 :: rest => 38 :: references rest
  | 38 :: 108 :: 116 :: 59 :: rest => 60 :: references rest
  | 38 :: 103 :: 116 :: 59 :: rest => 62 :: references rest
  | b :: rest => b :: references rest
  | [] => []

/-- Every `&` that has a `;` somewhere behind it begins a reference. -/
def Referring (t : List Byte) : Prop :=
  ∀ u v, t = u ++ 38 :: v → 59 ∈ v → ∃ entity ∈ entities, entity.1 ++ [59] <+: v

theorem references_entity {name : List Byte} {c : Byte} (h : (name, c) ∈ entities)
    (rest : List Byte) : references (38 :: (name ++ 59 :: rest)) = c :: references rest := by
  simp only [entities, mem_cons, Prod.mk.injEq, not_mem_nil, or_false] at h
  rcases h with ⟨rfl, rfl⟩ | ⟨rfl, rfl⟩ | ⟨rfl, rfl⟩
  · exact references.eq_1 rest
  · exact references.eq_2 rest
  · exact references.eq_3 rest

theorem references_cons {b : Byte} (h : b = 38 → ∀ entity ∈ entities, ¬ entity.1 ++ [59] <+: rest) :
    references (b :: rest) = b :: references rest := by
  have hamp : ∀ tail, rest = text "amp;" ++ tail → b ≠ 38 := by
    rintro tail rfl hb
    exact h hb (text "amp", 38) (by decide) ⟨tail, rfl⟩
  have hlt : ∀ tail, rest = text "lt;" ++ tail → b ≠ 38 := by
    rintro tail rfl hb
    exact h hb (text "lt", 60) (by decide) ⟨tail, rfl⟩
  have hgt : ∀ tail, rest = text "gt;" ++ tail → b ≠ 38 := by
    rintro tail rfl hb
    exact h hb (text "gt", 62) (by decide) ⟨tail, rfl⟩
  apply references.eq_4
  · rintro tail hb rfl
    exact hamp tail rfl hb
  · rintro tail hb rfl
    exact hlt tail rfl hb
  · rintro tail hb rfl
    exact hgt tail rfl hb

theorem entity_name {entity : List Byte × Byte} (h : entity ∈ entities) :
    59 ∉ entity.1 ∧ 38 ∉ entity.1 ∧ 0 ∉ entity.1 := by
  revert entity
  decide

theorem takeWhile_run (h : 59 ∉ run) (rest : List Byte) :
    (run ++ 59 :: rest).takeWhile (· ≠ 59) = run := by
  rw [takeWhile_append_of_pos, takeWhile_cons_of_neg (by decide), append_nil]
  intro b hb
  exact decide_eq_true fun heq => h (heq ▸ hb)

/-- A reference ends with the first `;`. -/
theorem entity_of_isPrefix {entity : List Byte × Byte} (h : entity ∈ entities) (hrun : 59 ∉ run)
    (hbegin : entity.1 ++ [59] <+: run ++ 59 :: rest) : entity.1 = run := by
  obtain ⟨tail, htail⟩ := hbegin
  rw [append_assoc, singleton_append] at htail
  have hwords := congrArg (List.takeWhile (· ≠ 59)) htail
  rwa [takeWhile_run (entity_name h).1, takeWhile_run hrun] at hwords

/-- What is behind a `;` has less text than what it is behind of. -/
theorem length_references_behind (u rest : List Byte) :
    (references rest).length < (references (u ++ 59 :: rest)).length := by
  match u with
  | [] =>
    rw [nil_append, references_cons fun hb => absurd hb (by decide)]
    exact Nat.lt_succ_self _
  | b :: u =>
    by_cases hbegin : b = 38 ∧ ∃ entity ∈ entities, entity.1 ++ [59] <+: u ++ 59 :: rest
    · obtain ⟨rfl, entity, hentity, hbegin⟩ := hbegin
      by_cases hmem : 59 ∈ u
      · obtain ⟨run, behind, rfl, hrun⟩ := eq_append_cons_of_mem hmem
        rw [append_assoc, cons_append] at hbegin
        have hname := entity_of_isPrefix hentity hrun hbegin
        rw [cons_append, append_assoc, cons_append, ← hname,
          references_entity hentity]
        exact Nat.lt_succ_of_lt (length_references_behind behind rest)
      · have hname := entity_of_isPrefix hentity hmem hbegin
        rw [cons_append, ← hname, references_entity hentity]
        exact Nat.lt_succ_self _
    · rw [cons_append, references_cons fun hb entity hentity hbegins =>
        hbegin ⟨hb, entity, hentity, hbegins⟩]
      exact Nat.lt_succ_of_lt (length_references_behind u rest)
termination_by u.length

/-! ## where every `&` with a `;` begins a reference -/

section Referring
variable {b : Byte} {rest : List Byte}

theorem Referring.tail (h : Referring (b :: rest)) : Referring rest := by
  rintro u v rfl hv
  exact h (b :: u) v rfl hv

theorem Referring.cons (h : Referring rest)
    (hb : b = 38 → 59 ∈ rest → ∃ entity ∈ entities, entity.1 ++ [59] <+: rest) :
    Referring (b :: rest) := by
  intro u v heq hv
  match u with
  | [] =>
    cases heq
    exact hb rfl hv
  | _ :: u =>
    cases heq
    exact h u v rfl hv

theorem referring_append {u : List Byte} (hu : 38 ∉ u) :
    Referring (u ++ rest) ↔ Referring rest := by
  induction u with
  | nil => exact Iff.rfl
  | cons b u ih =>
    have hne : b ≠ 38 := fun h => hu (h ▸ mem_cons_self)
    rw [cons_append, ← ih fun h => hu (mem_cons_of_mem b h)]
    exact ⟨Referring.tail, fun h => h.cons fun hb => absurd hb hne⟩

theorem referring_entity {entity : List Byte × Byte} (h : entity ∈ entities) :
    Referring (38 :: (entity.1 ++ 59 :: rest)) ↔ Referring rest := by
  have hname : 38 ∉ entity.1 ++ [59] := by
    rw [mem_append, mem_singleton]
    rintro (hmem | hmem)
    · exact (entity_name h).2.1 hmem
    · cases hmem
  have hrest : entity.1 ++ 59 :: rest = entity.1 ++ [59] ++ rest := by
    rw [append_assoc, singleton_append]
  have hbehind : Referring (entity.1 ++ [59] ++ rest) ↔ Referring rest := referring_append hname
  rw [hrest, ← hbehind]
  constructor
  · exact Referring.tail
  · intro hr
    exact hr.cons fun _ _ => ⟨entity, h, prefix_append _ _⟩

end Referring

/-! ## the decoder -/

/-- A run to the next `;` is copied if it is a reference, and left out if not. -/
theorem decodeRun_entity {name : List Byte} {c : Byte} (h : (name, c) ∈ entities)
    (pending dest rest : List Byte) :
    decodeRun pending (38 :: (name ++ 59 :: rest)) (name.length + 1) dest =
      .ok (dest ++ pending ++ [c]) := by
  simp only [entities, mem_cons, Prod.mk.injEq, not_mem_nil, or_false] at h
  rcases h with ⟨rfl, rfl⟩ | ⟨rfl, rfl⟩ | ⟨rfl, rfl⟩ <;> rfl

theorem decodeRun_other (hrun : 59 ∉ run) (hzero : 0 ∉ run)
    (h : ∀ entity ∈ entities, entity.1 ≠ run) (hrest : 0 ∉ rest) (pending dest : List Byte) :
    decodeRun pending (38 :: (run ++ 59 :: (rest ++ [0]))) (run.length + 1) dest = .ok dest := by
  have hbuf : 0 ∉ 38 :: (run ++ 59 :: rest) := by
    simp [hzero, hrest]
  have hsplit : 38 :: (run ++ 59 :: (rest ++ [0])) = 38 :: (run ++ 59 :: rest) ++ 0 :: [] := by
    simp
  have hcompare : ∀ entity ∈ entities,
      sameStr (run.length + 1 + 1) (38 :: (entity.1 ++ [59]) ++ [0])
        (38 :: (run ++ 59 :: (rest ++ [0]))) = .ok false := by
    intro entity hentity
    obtain ⟨hsemi, -, hnul⟩ := entity_name hentity
    rw [hsplit, sameStr_eq (by simp [hnul]) hbuf, take_succ_cons, take_succ_cons]
    have htake : (run ++ 59 :: rest).take (run.length + 1) = run ++ [59] := by
      rw [take_length_add_append, take_succ_cons, take_zero]
    rw [htake]
    refine congrArg Except.ok (decide_eq_false fun heq => ?_)
    have hwhole : entity.1 ++ [59] =
        run ++ 59 :: (entity.1 ++ [59]).drop (run.length + 1) := by
      conv_lhs => rw [← take_append_drop (run.length + 1) (entity.1 ++ [59])]
      rw [(List.cons.inj heq).2, append_assoc, singleton_append]
    exact h entity hentity (entity_of_isPrefix hentity hrun ⟨[], by rwa [append_nil]⟩)
  have hamp : sameStr (run.length + 1 + 1) (text "&amp;" ++ [0])
      (38 :: (run ++ 59 :: (rest ++ [0]))) = .ok false := hcompare (text "amp", 38) (by decide)
  have hlt : sameStr (run.length + 1 + 1) (text "&lt;" ++ [0])
      (38 :: (run ++ 59 :: (rest ++ [0]))) = .ok false := hcompare (text "lt", 60) (by decide)
  have hgt : sameStr (run.length + 1 + 1) (text "&gt;" ++ [0])
      (38 :: (run ++ 59 :: (rest ++ [0]))) = .ok false := hcompare (text "gt", 62) (by decide)
  unfold decodeRun
  rw [hamp, ok_bind, hlt, ok_bind, hgt]
  rfl

/-- From a `&` to the next `;`. -/
theorem decodeLoop_run {behind : List Byte} (hrun : 59 ∉ run) (hrest : 0 ∉ run ++ 59 :: behind)
    (pending dest : List Byte) :
    decodeLoop pending (38 :: (run ++ 59 :: behind) ++ [0]) dest =
      decodeRun pending (38 :: (run ++ 59 :: (behind ++ [0]))) (run.length + 1) dest >>=
        decodeLoop [] (behind ++ [0]) := by
  have hsemi : 59 ∈ run ++ 59 :: behind := mem_append_right _ mem_cons_self
  rw [cons_append, decodeLoop, if_neg (by decide), if_pos rfl, strchr_eq hrest (by decide),
    if_pos hsemi, takeWhile_run hrun, ok_bind, append_assoc, cons_append]
  dsimp only
  rw [← drop_drop, drop_left]
  rfl

/-- What the loop gives: the text with its references replaced, or less. -/
theorem decodeLoop_spec (n : Nat) {t : List Byte} (hn : t.length ≤ n) (ht : 0 ∉ t)
    (pending dest : List Byte) :
    ∃ out, decodeLoop pending (t ++ [0]) dest = .ok (dest ++ out) ∧
      (Referring t → out = pending ++ references t) ∧
      (¬ Referring t → out.length < pending.length + (references t).length) := by
  match n, t with
  | _, [] =>
    refine ⟨pending, ?_, fun _ => (append_nil _).symm, fun h => absurd ?_ h⟩
    · rw [nil_append, decodeLoop, if_pos rfl]
    · rintro u v heq -
      cases u <;> cases heq
  | n + 1, b :: rest =>
    obtain ⟨hb, hrest⟩ := not_mem_cons ht
    have hlen : rest.length ≤ n := Nat.le_of_succ_le_succ hn
    -- where the character is kept, what is behind it decides
    have hkept : references (b :: rest) = b :: references rest →
        (Referring (b :: rest) ↔ Referring rest) →
        decodeLoop pending (b :: (rest ++ [0])) dest =
          decodeLoop (pending ++ [b]) (rest ++ [0]) dest →
        ∃ out, decodeLoop pending (b :: rest ++ [0]) dest = .ok (dest ++ out) ∧
          (Referring (b :: rest) → out = pending ++ references (b :: rest)) ∧
          (¬ Referring (b :: rest) →
            out.length < pending.length + (references (b :: rest)).length) := by
      intro href hiff hloop
      obtain ⟨out, hout, hall, hless⟩ := decodeLoop_spec n hlen hrest (pending ++ [b]) dest
      rw [href, hiff, cons_append, hloop]
      refine ⟨out, hout, fun h => ?_, fun h => ?_⟩
      · rw [hall h, append_assoc, singleton_append]
      · have hlen := hless h
        rw [length_append, length_singleton] at hlen
        rw [length_cons]
        omega
    by_cases hamp : b = 38
    · subst hamp
      by_cases hsemi : 59 ∈ rest
      · obtain ⟨run, behind, rfl, hrun⟩ := eq_append_cons_of_mem hsemi
        have hzero : 0 ∉ run := fun h => hrest (mem_append_left _ h)
        have hbehind : 0 ∉ behind := fun h =>
          hrest (mem_append_right _ (mem_cons_of_mem _ h))
        rw [length_append, length_cons] at hlen
        have hshort : behind.length ≤ n := by omega
        rw [decodeLoop_run hrun hrest]
        by_cases hentity : ∃ entity ∈ entities, entity.1 = run
        · obtain ⟨entity, hentity, rfl⟩ := hentity
          obtain ⟨out, hout, hall, hless⟩ := decodeLoop_spec n hshort hbehind []
            (dest ++ pending ++ [entity.2])
          rw [decodeRun_entity hentity, ok_bind, hout, referring_entity hentity,
            references_entity hentity]
          refine ⟨pending ++ entity.2 :: out, by simp, fun h => ?_, fun h => ?_⟩
          · rw [hall h, nil_append]
          · have hlen := hless h
            rw [length_nil, Nat.zero_add] at hlen
            rw [length_append, length_cons, length_cons]
            omega
        · have hother : ∀ entity ∈ entities, entity.1 ≠ run :=
            fun entity hmem heq => hentity ⟨entity, hmem, heq⟩
          have hnot : ∀ entity ∈ entities, ¬ entity.1 ++ [59] <+: run ++ 59 :: behind :=
            fun entity hmem hbegins => hother entity hmem (entity_of_isPrefix hmem hrun hbegins)
          obtain ⟨out, hout, hall, hless⟩ := decodeLoop_spec n hshort hbehind [] dest
          rw [decodeRun_other hrun hzero hother hbehind, ok_bind, hout]
          refine ⟨out, rfl, fun h => ?_, fun _ => ?_⟩
          · obtain ⟨entity, hmem, hbegins⟩ := h [] _ rfl hsemi
            exact absurd hbegins (hnot entity hmem)
          · have hle : out.length ≤ (references behind).length := by
              by_cases hr : Referring behind
              · rw [hall hr, nil_append]
              · have hlen := hless hr
                rw [length_nil, Nat.zero_add] at hlen
                exact Nat.le_of_lt hlen
            have hlen := length_references_behind run behind
            rw [references_cons fun _ => hnot, length_cons]
            omega
      · have hno : ∀ entity ∈ entities, ¬ entity.1 ++ [59] <+: rest := by
          intro entity _ hbegins
          exact hsemi (hbegins.subset (mem_append_right _ mem_cons_self))
        refine hkept (references_cons fun _ => hno) ⟨Referring.tail, fun h => h.cons fun _ hmem =>
          absurd hmem hsemi⟩ ?_
        rw [decodeLoop, if_neg hb, if_pos rfl, strchr_eq hrest (by decide), if_neg hsemi]
        rfl
    · refine hkept (references_cons fun h => absurd h hamp)
        ⟨Referring.tail, fun h => h.cons fun heq => absurd heq hamp⟩ ?_
      rw [decodeLoop, if_neg hb, if_neg hamp]

/-! ## the codec -/

theorem referring_escape (src : List Byte) :
    Referring (src.flatMap escape) ∧ references (src.flatMap escape) = src := by
  induction src with
  | nil =>
    refine ⟨fun u v heq => ?_, rfl⟩
    cases u <;> cases heq
  | cons b src ih =>
    obtain ⟨hr, href⟩ := ih
    have hentity : ∀ {name : List Byte} {c : Byte}, (name, c) ∈ entities →
        escape b = 38 :: (name ++ [59]) → b = c → Referring ((b :: src).flatMap escape) ∧
          references ((b :: src).flatMap escape) = b :: src := by
      intro name c hmem hescape hc
      have hsplit : (b :: src).flatMap escape = 38 :: (name ++ 59 :: src.flatMap escape) := by
        rw [flatMap_cons, hescape, cons_append, append_assoc, singleton_append]
      rw [hsplit, referring_entity hmem, references_entity hmem, href, hc]
      exact ⟨hr, rfl⟩
    by_cases hlt : b = 60
    · exact @hentity (text "lt") 60 (by decide) (by subst hlt; rfl) hlt
    · by_cases hgt : b = 62
      · exact @hentity (text "gt") 62 (by decide) (by subst hgt; rfl) hgt
      · by_cases hamp : b = 38
        · exact @hentity (text "amp") 38 (by decide) (by subst hamp; rfl) hamp
        · have hsplit : (b :: src).flatMap escape = b :: src.flatMap escape := by
            rw [flatMap_cons]
            unfold escape
            rw [if_neg hlt, if_neg hgt, if_neg hamp]
            rfl
          rw [hsplit, references_cons fun h => absurd h hamp, href]
          exact ⟨hr.cons fun h => absurd h hamp, rfl⟩

theorem decodeJstring_iff {t : List Byte} (ht : 0 ∉ t) :
    decodeJstring t = .ok (references t) ↔ Referring t := by
  obtain ⟨out, hout, hall, hless⟩ := decodeLoop_spec t.length (Nat.le_refl _) ht [] []
  unfold decodeJstring
  rw [hout, nil_append, Except.ok.injEq]
  constructor
  · intro heq
    by_contra hr
    have hlen := hless hr
    rw [heq, length_nil, Nat.zero_add] at hlen
    exact Nat.lt_irrefl _ hlen
  · exact hall

/-- What was encoded is decoded, and every other text is decoded as it should if and only if every
`&` in it that has a `;` behind it begins a reference. -/
theorem codec_iff (s : CString) :
    (∃ encoded, encodeJstring s = .ok encoded ∧ decodeJstring encoded = .ok s.bytes) ∧
      (decodeJstring s.bytes = .ok (references s.bytes) ↔ Referring s.bytes) := by
  have hs : 0 ∉ s.bytes := s.2
  refine ⟨⟨s.bytes.flatMap escape, encodeLoop_eq hs [] [], ?_⟩, decodeJstring_iff hs⟩
  obtain ⟨hr, href⟩ := referring_escape s.bytes
  have hzero : 0 ∉ s.bytes.flatMap escape := by
    intro h
    obtain ⟨b, hb, hmem⟩ := mem_flatMap.mp h
    unfold escape at hmem
    split_ifs at hmem
    · exact absurd hmem (by decide)
    · exact absurd hmem (by decide)
    · exact absurd hmem (by decide)
    · exact hs (mem_singleton.mp hmem ▸ hb)
  have h := (decodeJstring_iff hzero).mpr hr
  rwa [href] at h

/-- Of `a&b;c` only the last letter is left. -/
theorem decodes_less : ¬ ∀ t : CString, decodeJstring t.bytes = .ok (references t.bytes) := by
  intro h
  have hr := (decodeJstring_iff (by decide)).mp (h (.ofBuffer (text "a&b;c")))
  obtain ⟨entity, hmem, hbegins⟩ := hr (text "a") (text "b;c") rfl (by decide)
  revert entity
  decide

end JxtaC.XmlUtil
