import JxtaC.JxtaId.Pointers
import JxtaC.JxtaId.RoundTrip

/-
  What `jxta_id_from_str` accepts. `fromStr_meets_iff`: the format's name is compared over its own length
  only, so that any beginning of a name will do, and the first of `uuid` is also the empty one; and two
  characters are a byte whatever they are, as many as there are. The rest is rejected, and read and
  written in bounds (`fromStrAt_eq`).
-/

namespace JxtaC.JxtaId

open Lib PacketHeader List

/-- The string in front of the format's name, the name, and what stands behind it. The prefix is
compared without regard to the case. -/
structure Opening (idStr front name unique : List Byte) : Prop where
  string : idStr = front ++ (name ++ 45 :: unique)
  length : front.length = idPrefix.length
  same : sameName idPrefix.length front idPrefix = true
  name : 45 ∉ name

def isHexDigit (b : Byte) : Bool := (hexValue b).isSome

/-- A name of a format, and if that is `uuid`, digits for the bytes of an ID. -/
def Formed (name unique : List Byte) : Prop :=
  (name = text "uuid" ∧ unique.length % 2 = 0 ∧ (∀ b ∈ unique, isHexDigit b = true) ∧
    unique.length ≤ 2 * 64) ∨ name = text "jxta"

/-- The form of an ID. -/
def HasForm (idStr : List Byte) : Prop :=
  ∃ front name unique, Opening idStr front name unique ∧ Formed name unique

/-- The reads and writes keep their bounds, and a string that is accepted has the form. -/
def Meets (idStr : List Byte) : Prop :=
  ∃ r, fromStrAt idStr = .ok r ∧ ∀ jid, r = .ok jid → HasForm idStr

/-- `strncmp` over the length of the name finds this format. -/
def Matches (name format : List Byte) : Prop := name <+: format ∨ format ++ [0] <+: name

/-- The characters of one byte or more. -/
def WholeBytes (unique : List Byte) : Prop := 2 ≤ unique.length ∧ unique.length % 2 = 0

/-- What is accepted without the form, or written behind the bytes of the ID. -/
inductive Defect : (name unique : List Byte) → Prop where
  | noUuid {name unique : List Byte} (h : Matches name (text "uuid")) (hne : name ≠ text "uuid")
      (hwhole : WholeBytes unique) : Defect name unique
  | noDigit {unique : List Byte} (hwhole : WholeBytes unique) {b : Byte} (hmem : b ∈ unique)
      (hdigit : ¬ isHexDigit b = true) : Defect (text "uuid") unique
  | tooLong {unique : List Byte} (hwhole : WholeBytes unique) (hlong : 2 * 64 < unique.length) :
      Defect (text "uuid") unique
  | noJxta {name unique : List Byte} (hother : ¬ Matches name (text "uuid"))
      (h : Matches name (text "jxta")) (hne : name ≠ text "jxta") : Defect name unique

/-! ## the opening -/

theorem sameName_append (n : Nat) {a : List Byte} (h : a.length = n) (rest b : List Byte) :
    sameName n (a ++ rest) b = sameName n a b := by
  induction n generalizing a b with
  | zero => rfl
  | succ n ih =>
    match a with
    | [] => cases h
    | x :: a =>
      unfold sameName
      rw [cons_append, headD_cons, headD_cons, tail_cons, tail_cons,
        ih (Nat.succ.inj h)]

theorem idxOf_name {name : List Byte} (h : 45 ∉ name) (unique : List Byte) :
    (name ++ 45 :: unique).idxOf 45 = name.length := by
  rw [idxOf_append_of_notMem h, idxOf_cons_self, Nat.add_zero]

theorem Opening.unique {idStr front front' name name' unique unique' : List Byte}
    (h : Opening idStr front name unique) (h' : Opening idStr front' name' unique') :
    name = name' ∧ unique = unique' := by
  obtain ⟨-, hfmt⟩ := append_inj (h.string.symm.trans h'.string) (h.length.trans h'.length.symm)
  have hlen : name.length = name'.length := by
    rw [← idxOf_name h.name unique, hfmt, idxOf_name h'.name]
  obtain ⟨hname, hrest⟩ := append_inj hfmt hlen
  exact ⟨hname, (List.cons.inj hrest).2⟩

/-- Behind an opening the format decides; without one the string is rejected. -/
theorem fromStr_opening {idStr front name unique : List Byte}
    (h : Opening idStr front name unique) :
    fromStr idStr =
      if isFormat (text "uuid") (name ++ 45 :: unique) name.length then uuidFromStr unique
      else if isFormat (text "jxta") (name ++ 45 :: unique) name.length then jxtaFromStr unique
      else .ok (.error .notimp) := by
  have hrest : (name ++ 45 :: unique).drop (name.length + 1) = unique := by
    rw [← drop_drop, drop_left]
    rfl
  have hshort : ¬ idPrefix.length > idStr.length := by
    rw [h.string, length_append, h.length]
    omega
  unfold fromStr
  rw [if_neg hshort, h.string, sameName_append _ h.length, h.same, if_neg (by decide), ← h.length,
    drop_left]
  dsimp only
  rw [idxOf_name h.name, if_neg (by rw [length_append, length_cons]; omega), hrest]

theorem fromStr_closed {idStr : List Byte}
    (h : ∀ front name unique, ¬ Opening idStr front name unique) :
    fromStr idStr = .ok (.error .invalidArgument) := by
  unfold fromStr
  by_cases hshort : idPrefix.length > idStr.length
  · rw [if_pos hshort]
  · have hlen : (idStr.take idPrefix.length).length = idPrefix.length := by
      rw [length_take, Nat.min_eq_left (Nat.not_lt.mp hshort)]
    have hsame : sameName idPrefix.length idStr idPrefix =
        sameName idPrefix.length (idStr.take idPrefix.length) idPrefix := by
      conv_lhs => rw [← take_append_drop idPrefix.length idStr]
      exact sameName_append _ hlen _ _
    rw [if_neg hshort, hsame]
    by_cases hname : (!sameName idPrefix.length (idStr.take idPrefix.length) idPrefix) = true
    · rw [if_pos hname]
    · rw [if_neg hname]
      refine if_pos (Nat.le_of_not_lt fun hlt => ?_)
      have hdash := idxOf_lt_length_iff.mp hlt
      obtain ⟨name, unique, hsplit, hnot⟩ := eq_append_cons_of_mem hdash
      refine h (idStr.take idPrefix.length) name unique ⟨?_, hlen, ?_, hnot⟩
      · rw [← hsplit, take_append_drop]
      · simpa using hname

/-! ## the format -/

theorem takeWhile_name {name : List Byte} (h : 0 ∉ name) (rest : List Byte) :
    (name ++ rest).takeWhile (· ≠ 0) = name ++ rest.takeWhile (· ≠ 0) := by
  apply takeWhile_append_of_pos
  intro b hb
  exact decide_eq_true fun hzero => h (hzero ▸ hb)

theorem isFormat_iff {format name : List Byte} (hformat : 0 ∉ format) (unique : List Byte) :
    isFormat format (name ++ 45 :: unique) name.length = true ↔ Matches name format := by
  unfold isFormat Matches
  rw [WelcomeMessage.sameText_eq hformat, decide_eq_true_eq]
  by_cases hzero : 0 ∈ name
  · -- the name ends at its first NUL
    obtain ⟨short, behind, rfl, hshort⟩ := eq_append_cons_of_mem hzero
    have hread : (short ++ 0 :: behind ++ 45 :: unique).takeWhile (· ≠ 0) = short := by
      rw [append_assoc, takeWhile_name hshort, cons_append,
        takeWhile_cons_of_neg (by decide), append_nil]
    have hlong : short.length < (short ++ 0 :: behind).length := by
      rw [length_append, length_cons]
      omega
    rw [hread, take_of_length_le (Nat.le_of_lt hlong)]
    constructor
    · intro heq
      have hlen : (format.take (short ++ 0 :: behind).length).length = short.length :=
        congrArg List.length heq
      rw [length_take] at hlen
      rw [take_of_length_le (by omega)] at heq
      subst heq
      exact .inr ⟨behind, by rw [append_assoc, singleton_append]⟩
    · rintro (h | ⟨rest, h⟩)
      · exact absurd (h.subset hzero) hformat
      · have heq : format = short := by
          have hwords := congrArg (List.takeWhile (· ≠ 0)) h
          rwa [append_assoc, singleton_append, takeWhile_name hformat,
            takeWhile_name hshort, takeWhile_cons_of_neg (by decide),
            takeWhile_cons_of_neg (by decide), append_nil, append_nil] at hwords
        rw [heq, take_of_length_le (Nat.le_of_lt hlong)]
  · rw [takeWhile_name hzero, take_left]
    constructor
    · intro heq
      exact .inl (prefix_iff_eq_take.mpr heq.symm)
    · rintro (h | h)
      · exact (prefix_iff_eq_take.mp h).symm
      · exact absurd (h.subset (mem_append_right _ (mem_singleton_self 0))) hzero

/-! ## what is accepted -/

theorem matches_self (format : List Byte) : Matches format format := .inl (prefix_refl format)

theorem uuidFromStr_short {unique : List Byte} (h : ¬ WholeBytes unique) :
    uuidFromStr unique = .ok (.error .invalidArgument) := by
  unfold WholeBytes at h
  exact if_pos (by omega)

theorem uuidFromStr_whole {unique : List Byte} (h : WholeBytes unique) :
    uuidFromStr unique =
      if unique.length / 2 - 1 > 64 then .error .outOfBounds
      else .ok (.ok (translateToWellKnown (.uuid (bytesOfStr unique)))) := by
  obtain ⟨hlong, heven⟩ := h
  exact if_neg (by omega)

section Outcomes
variable {idStr : List Byte}

theorem meets_of_accepted {jid : JxtaId} (h : fromStr idStr = .ok (.ok jid)) :
    Meets idStr ↔ HasForm idStr := by
  unfold Meets
  rw [fromStrAt_eq, h]
  constructor
  · rintro ⟨r, hr, hform⟩
    exact hform jid (Except.ok.inj hr).symm
  · intro hform
    exact ⟨_, rfl, fun _ _ => hform⟩

theorem meets_of_rejected {e : Status} (h : fromStr idStr = .ok (.error e)) : Meets idStr := by
  refine ⟨.error e, by rw [fromStrAt_eq, h], fun jid hok => ?_⟩
  cases hok

theorem not_meets_of_fault (h : fromStr idStr = .error .outOfBounds) : ¬ Meets idStr := by
  rintro ⟨r, hr, _⟩
  rw [fromStrAt_eq, h] at hr
  cases hr

theorem hasForm_iff {front name unique : List Byte} (ho : Opening idStr front name unique) :
    HasForm idStr ↔ Formed name unique := by
  constructor
  · rintro ⟨front', name', unique', ho', hform⟩
    obtain ⟨rfl, rfl⟩ := ho.unique ho'
    exact hform
  · intro hform
    exact ⟨front, name, unique, ho, hform⟩

end Outcomes

theorem not_matches_uuid : ¬ Matches (text "jxta") (text "uuid") := by
  rintro (h | h) <;> exact absurd h (by decide)

/-- What is read as a UUID is of the form where no defect is met. -/
theorem formed_uuid {name unique : List Byte} (hmatch : Matches name (text "uuid"))
    (hwhole : WholeBytes unique) : Formed name unique ↔ ¬ Defect name unique := by
  constructor
  · rintro (⟨rfl, -, hdigits, hle⟩ | rfl) hdefect
    · cases hdefect with
      | noUuid _ hne => exact hne rfl
      | noDigit _ hmem hdigit => exact hdigit (hdigits _ hmem)
      | tooLong _ hlong => exact absurd hle (Nat.not_le.mpr hlong)
      | noJxta hother => exact hother hmatch
    · exact not_matches_uuid hmatch
  · intro hdefect
    have hname : name = text "uuid" :=
      Decidable.byContradiction fun hne => hdefect (.noUuid hmatch hne hwhole)
    subst hname
    refine .inl ⟨rfl, hwhole.2, fun b hb => ?_, ?_⟩
    · exact Decidable.byContradiction fun hdigit => hdefect (.noDigit hwhole hb hdigit)
    · exact Nat.le_of_not_lt fun hlong => hdefect (.tooLong hwhole hlong)

theorem formed_jxta {name unique : List Byte} (hother : ¬ Matches name (text "uuid"))
    (hmatch : Matches name (text "jxta")) : Formed name unique ↔ ¬ Defect name unique := by
  constructor
  · rintro (⟨rfl, -⟩ | rfl) hdefect
    · exact hother (matches_self _)
    · cases hdefect with
      | noUuid h => exact hother h
      | noJxta _ _ hne => exact hne rfl
  · intro hdefect
    exact .inr (Decidable.byContradiction fun hne => hdefect (.noJxta hother hmatch hne))

/-- Where the format is `uuid`. -/
theorem meets_uuid {idStr front name unique : List Byte} (ho : Opening idStr front name unique)
    (hmatch : Matches name (text "uuid")) : Meets idStr ↔ ¬ Defect name unique := by
  have hread : fromStr idStr = uuidFromStr unique := by
    rw [fromStr_opening ho, if_pos ((isFormat_iff (by decide) unique).mpr hmatch)]
  by_cases hwhole : WholeBytes unique
  · rw [← formed_uuid hmatch hwhole]
    rw [uuidFromStr_whole hwhole] at hread
    by_cases hlong : unique.length / 2 - 1 > 64
    · rw [if_pos hlong] at hread
      refine iff_of_false (not_meets_of_fault hread) ?_
      rintro (⟨-, -, -, hle⟩ | rfl)
      · omega
      · exact not_matches_uuid hmatch
    · rw [if_neg hlong] at hread
      rw [meets_of_accepted hread, hasForm_iff ho]
  · rw [uuidFromStr_short hwhole] at hread
    refine iff_of_true (meets_of_rejected hread) fun hdefect => ?_
    cases hdefect with
    | noUuid _ _ h => exact hwhole h
    | noDigit h => exact hwhole h
    | tooLong h => exact hwhole h
    | noJxta h => exact h hmatch

/-- Where it is not. -/
theorem meets_other {idStr front name unique : List Byte} (ho : Opening idStr front name unique)
    (hother : ¬ Matches name (text "uuid")) : Meets idStr ↔ ¬ Defect name unique := by
  have hread := fromStr_opening ho
  rw [if_neg (mt (isFormat_iff (by decide) unique).mp hother)] at hread
  by_cases hmatch : Matches name (text "jxta")
  · rw [if_pos ((isFormat_iff (by decide) unique).mpr hmatch)] at hread
    rw [meets_of_accepted hread, hasForm_iff ho, formed_jxta hother hmatch]
  · rw [if_neg (mt (isFormat_iff (by decide) unique).mp hmatch)] at hread
    refine iff_of_true (meets_of_rejected hread) fun hdefect => ?_
    cases hdefect with
    | noUuid h => exact hother h
    | noDigit => exact hother (matches_self _)
    | tooLong => exact hother (matches_self _)
    | noJxta _ h => exact hmatch h

/-- The bytes of the ID and of the string are kept to, and what is accepted has the form, if and only
if the string has no such name, character or length. -/
theorem fromStr_meets_iff (idStr : List Byte) :
    Meets idStr ↔
      ∀ front name unique, Opening idStr front name unique → ¬ Defect name unique := by
  by_cases hopen : ∃ front name unique, Opening idStr front name unique
  · obtain ⟨front, name, unique, ho⟩ := hopen
    have hone : Meets idStr ↔ ¬ Defect name unique := by
      by_cases hmatch : Matches name (text "uuid")
      · exact meets_uuid ho hmatch
      · exact meets_other ho hmatch
    rw [hone]
    constructor
    · intro h front' name' unique' ho'
      obtain ⟨rfl, rfl⟩ := ho.unique ho'
      exact h
    · intro h
      exact h front name unique ho
  · have hclosed : ∀ front name unique, ¬ Opening idStr front name unique :=
      fun front name unique ho => hopen ⟨front, name, unique, ho⟩
    exact iff_of_true (meets_of_rejected (fromStr_closed hclosed))
      fun front name unique ho => absurd ho (hclosed front name unique)

/-- The empty name is read as `uuid`, and `zz` as a byte. -/
theorem empty_format_accepted : ¬ Meets (text "urn:jxta:-zz") := by
  have hname : Matches [] (text "uuid") := .inl List.nil_prefix
  have ho : Opening (text "urn:jxta:-zz") (text "urn:jxta:") [] (text "zz") :=
    ⟨rfl, rfl, by decide, by decide⟩
  intro h
  exact (meets_uuid ho hname).mp h (.noUuid hname (by decide) ⟨by decide, by decide⟩)

end JxtaC.JxtaId
