import JxtaC.JxtaId
import JxtaC.WelcomeMessage.Pointers

/-
  `jxta_id_from_str` with its reads of the string and its writes to the new ID, each checked
  (jxta_id.c, jxta_id_uuid.c, jxta_id_jxta.c). The string has no NUL behind it. `fromStrAt_eq`: no read
  leaves it, and the ID is that of `fromStr`, which says when a write leaves the bytes of the ID.
-/

namespace JxtaC.JxtaId

open Lib PacketHeader List

/-! ## the functions -/

/-- `strncasecmp` finds no difference. -/
def sameCase : (n : Nat) → (a b : List Byte) → Exec Bool
  | 0, _, _ => .ok true
  | n + 1, x :: a, y :: b =>
    if toLower x ≠ toLower y then .ok false else if x = 0 then .ok true else sameCase n a b
  | _ + 1, _, _ => .error .outOfBounds

/-- `strncpy`, from a buffer to one that is as long. -/
def copyStr : (n : Nat) → (src : List Byte) → Exec (List Byte)
  | 0, _ => .ok []
  | _ + 1, [] => .error .outOfBounds
  | n + 1, b :: src => if b = 0 then .ok (List.replicate (n + 1) 0) else return b :: (← copyStr n src)

/-- The loop over the format's name, from this offset on. -/
def findDash (fmt : List Byte) : (turns offset : Nat) → Exec Nat
  | 0, offset => .ok offset
  | turns + 1, offset => do
    if (← Lib.byteAt fmt offset) = 45 then return offset else findDash fmt turns (offset + 1)

/-- The byte of two characters of the string. -/
def readByte (str : List Byte) (i : Nat) : Exec Byte := do
  let first ← Lib.byteAt str i
  let second ← Lib.byteAt str (i + 1 : Nat)
  return strtoul ([first, second].takeWhile (· ≠ 0))

/-- The loop over all bytes but the flags. -/
def fillBytes (str : List Byte) : (turns eachByte : Nat) → (data : List Byte) → Exec (List Byte)
  | 0, _, data => .ok data
  | turns + 1, eachByte, data => do
    let b ← readByte str (eachByte * 2)
    let data ← Lib.setByte data eachByte b
    fillBytes str turns (eachByte + 1) data

/-- `new_from_str` of `uuid`. -/
def uuidFromStrAt (str : List Byte) : Exec (Except Status JxtaId) :=
  if str.length < 2 ∨ str.length % 2 ≠ 0 then .ok (.error .invalidArgument)
  else do
    let data ← fillBytes str (str.length / 2 - 1) 0 (List.replicate 64 0)
    let b ← readByte str (str.length - 2)
    let data ← Lib.setByte data 63 b
    return .ok (translateToWellKnown (.uuid fun j => data.getD j.val 0))

/-- `new_from_str` of `jxta`. -/
def jxtaFromStrAt (str : List Byte) : Exec (Except Status JxtaId) := do
  return .ok (.jxta (.ofBuffer (← copyStr str.length str)))

/-- `jxta_id_from_str`. -/
def fromStrAt (idStr : List Byte) : Exec (Except Status JxtaId) :=
  if idPrefix.length > idStr.length then .ok (.error .invalidArgument)
  else do
    if !(← sameCase idPrefix.length idStr (idPrefix ++ [0])) then return .error .invalidArgument
    else
      let fmt := idStr.drop idPrefix.length
      let offset ← findDash fmt fmt.length 0
      if offset ≥ fmt.length then return .error .invalidArgument
      else
        let str := fmt.drop (offset + 1)
        if ← sameStr offset (text "uuid" ++ [0]) fmt then uuidFromStrAt str
        else if ← sameStr offset (text "jxta" ++ [0]) fmt then jxtaFromStrAt str
        else return .error .notimp

/-! ## reads and writes -/

section Reads
variable {str fmt : List Byte}

theorem sameCase_eq (n : Nat) {a b : List Byte} (ha : n ≤ a.length) (hb : n ≤ b.length) :
    sameCase n a b = .ok (sameName n a b) := by
  induction n generalizing a b with
  | zero => rfl
  | succ n ih =>
    match a, b with
    | [], _ => exact absurd ha (Nat.not_succ_le_zero n)
    | _ :: _, [] => exact absurd hb (Nat.not_succ_le_zero n)
    | x :: a, y :: b =>
      unfold sameCase sameName
      rw [ih (Nat.le_of_succ_le_succ ha) (Nat.le_of_succ_le_succ hb), headD_cons,
        headD_cons, tail_cons, tail_cons]
      by_cases hcase : toLower x = toLower y
      · rw [if_neg (not_not_intro hcase), if_neg (not_not_intro hcase)]
        by_cases hzero : x = 0
        · rw [if_pos hzero, if_pos hzero]
        · rw [if_neg hzero, if_neg hzero]
      · rw [if_pos hcase, if_pos hcase]

/-- A NUL behind a name does not matter. -/
theorem sameName_terminated (n : Nat) (a b : List Byte) :
    sameName n a (b ++ [0]) = sameName n a b := by
  induction n generalizing a b with
  | zero => rfl
  | succ n ih =>
    unfold sameName
    match b with
    | [] => rfl
    | y :: b =>
      rw [cons_append, tail_cons, tail_cons, ih]
      rfl

theorem copyStr_eq : copyStr str.length str =
    .ok (str.takeWhile (· ≠ 0) ++ List.replicate (str.length - (str.takeWhile (· ≠ 0)).length) 0) := by
  induction str with
  | nil => rfl
  | cons b str ih =>
    rw [length_cons, copyStr]
    by_cases hb : b = 0
    · rw [if_pos hb, takeWhile_cons_of_neg (by simpa using hb)]
      rfl
    · have htake : (b :: str).takeWhile (· ≠ 0) = b :: str.takeWhile (· ≠ 0) :=
        takeWhile_cons_of_pos (decide_eq_true hb)
      rw [if_neg hb, ih, htake, length_cons, Nat.add_sub_add_right]
      rfl

theorem findDash_eq (turns offset : Nat) (h : offset + turns = fmt.length) :
    findDash fmt turns offset = .ok (offset + (fmt.drop offset).idxOf 45) := by
  induction turns generalizing offset with
  | zero =>
    rw [drop_eq_nil_of_le (by omega)]
    rfl
  | succ turns ih =>
    have hlt : offset < fmt.length := by omega
    have hget : fmt[offset]? = some fmt[offset] := getElem?_eq_getElem hlt
    rw [findDash, byteAt_ok hget, ok_bind, drop_eq_getElem_cons hlt]
    by_cases hdash : fmt[offset] = 45
    · rw [if_pos hdash, hdash, idxOf_cons_self]
      rfl
    · rw [if_neg hdash, ih (offset + 1) (by omega), idxOf_cons_ne _ hdash, Nat.succ_eq_add_one]
      congr 1
      omega

theorem sameStr_isFormat {name : List Byte} (hname : 0 ∉ name) {offset : Nat}
    (h : offset ≤ fmt.length) :
    sameStr offset (name ++ [0]) fmt = .ok (isFormat name fmt offset) := by
  unfold isFormat
  rw [WelcomeMessage.sameText_eq hname]
  induction offset generalizing name fmt with
  | zero => simp [sameStr]
  | succ offset ih =>
    rcases fmt with _ | ⟨y, fmt⟩
    · exact absurd h (Nat.not_succ_le_zero offset)
    · have htail : offset ≤ fmt.length := Nat.le_of_succ_le_succ h
      rcases name with _ | ⟨x, name⟩
      · by_cases hy : y = 0
        · subst hy
          simp [sameStr]
        · simp [sameStr, hy, Ne.symm hy]
      · obtain ⟨hx, hname'⟩ := not_mem_cons hname
        by_cases heq : x = y
        · subst heq
          have htake : (x :: fmt).takeWhile (· ≠ 0) = x :: fmt.takeWhile (· ≠ 0) :=
            takeWhile_cons_of_pos (decide_eq_true hx)
          rw [cons_append, sameStr, if_neg (not_not_intro rfl), if_neg hx, ih hname' htail,
            htake, take_succ_cons, take_succ_cons]
          simp
        · rw [cons_append, sameStr, if_pos heq]
          by_cases hy : y = 0
          · subst hy
            simp
          · simp [hy, heq]

theorem readByte_eq {i : Nat} (h : i + 1 < str.length) : readByte str i = .ok (byteAt str i) := by
  have hfirst : str[i]? = some (str.getD i 0) := by
    rw [getD_eq_getElem?_getD, getElem?_eq_getElem (by omega)]
    rfl
  have hsecond : str[i + 1]? = some (str.getD (i + 1) 0) := by
    rw [getD_eq_getElem?_getD, getElem?_eq_getElem h]
    rfl
  unfold readByte byteAt
  rw [byteAt_ok hfirst, ok_bind, byteAt_ok hsecond, ok_bind]
  rfl

/-- The loop that fills the bytes: it reads inside of the string, and ends if it writes inside of the
bytes. -/
theorem fillBytes_spec (turns eachByte : Nat) (data : List Byte) (hle : eachByte ≤ data.length)
    (hstr : 2 * (eachByte + turns) ≤ str.length) :
    (eachByte + turns ≤ data.length ∧ ∃ data', fillBytes str turns eachByte data = .ok data' ∧
      data'.length = data.length ∧ ∀ j, data'.getD j 0 =
        if eachByte ≤ j ∧ j < eachByte + turns then byteAt str (j * 2) else data.getD j 0) ∨
    (data.length < eachByte + turns ∧ fillBytes str turns eachByte data = .error .outOfBounds) := by
  induction turns generalizing eachByte data with
  | zero =>
    refine .inl ⟨hle, data, rfl, rfl, fun j => ?_⟩
    rw [if_neg (by omega)]
  | succ turns ih =>
    rw [fillBytes, readByte_eq (by omega), ok_bind]
    by_cases hlt : eachByte < data.length
    · have hset : Lib.setByte data eachByte (byteAt str (eachByte * 2)) =
          .ok (data.set eachByte (byteAt str (eachByte * 2))) := if_pos hlt
      rw [hset, ok_bind]
      rcases ih (eachByte + 1) (data.set eachByte (byteAt str (eachByte * 2)))
        (by rw [length_set]; exact hlt) (by omega) with
        ⟨hend, data', hfill, hlen, hget⟩ | ⟨hend, hfill⟩
      · rw [length_set] at hend hlen
        refine .inl ⟨by omega, data', hfill, hlen, fun j => ?_⟩
        rw [hget j]
        by_cases hj : j = eachByte
        · subst hj
          rw [if_neg (by omega), if_pos (by omega), getD_eq_getElem?_getD,
            getElem?_set_self hlt]
          rfl
        · rw [getD_eq_getElem?_getD, getElem?_set_ne (Ne.symm hj),
            ← getD_eq_getElem?_getD]
          by_cases hin : eachByte + 1 ≤ j ∧ j < eachByte + 1 + turns
          · rw [if_pos hin, if_pos (by omega)]
          · rw [if_neg hin, if_neg (by omega)]
      · rw [length_set] at hend
        exact .inr ⟨by omega, hfill⟩
    · have hset : Lib.setByte data eachByte (byteAt str (eachByte * 2)) = .error .outOfBounds :=
        if_neg hlt
      rw [hset]
      exact .inr ⟨by omega, rfl⟩

theorem uuidFromStrAt_eq (str : List Byte) : uuidFromStrAt str = uuidFromStr str := by
  unfold uuidFromStrAt uuidFromStr
  by_cases hodd : str.length < 2 ∨ str.length % 2 ≠ 0
  · rw [if_pos hodd, if_pos hodd]
  · rw [if_neg hodd, if_neg hodd]
    rcases @fillBytes_spec str (str.length / 2 - 1) 0 (List.replicate 64 0) (Nat.zero_le _)
      (by omega) with
      ⟨hend, data', hfill, hlen, hget⟩ | ⟨hend, hfill⟩
    · rw [length_replicate] at hend hlen
      have hset : Lib.setByte data' 63 (byteAt str (str.length - 2)) =
          .ok (data'.set 63 (byteAt str (str.length - 2))) := if_pos (by omega)
      rw [hfill, ok_bind, readByte_eq (by omega), ok_bind, hset, ok_bind, if_neg (by omega)]
      have hbytes : (fun j : Fin 64 => (data'.set 63 (byteAt str (str.length - 2))).getD j.val 0) =
          bytesOfStr str := by
        funext j
        unfold bytesOfStr
        rw [getD_eq_getElem?_getD]
        by_cases hj : j = flagsoffset
        · subst hj
          rw [if_pos rfl]
          show ((data'.set 63 _)[63]?).getD 0 = _
          rw [getElem?_set_self (by omega)]
          rfl
        · have hne : 63 ≠ j.val := fun h => hj (Fin.ext h.symm)
          rw [if_neg hj, getElem?_set_ne hne, ← getD_eq_getElem?_getD, hget j.val]
          by_cases hlt : j.val < str.length / 2 - 1
          · rw [if_pos hlt, if_pos (by omega)]
          · rw [if_neg hlt, if_neg (by omega), getD_eq_getElem?_getD,
              getElem?_replicate]
            rw [if_pos j.isLt]
            rfl
      rw [hbytes]
      rfl
    · rw [length_replicate] at hend
      rw [hfill, if_pos (by omega)]
      rfl

theorem jxtaFromStrAt_eq (str : List Byte) : jxtaFromStrAt str = jxtaFromStr str := by
  have hstring : CString.ofBuffer (str.takeWhile (· ≠ 0) ++
      List.replicate (str.length - (str.takeWhile (· ≠ 0)).length) 0) = CString.ofBuffer str := by
    apply Subtype.ext
    show List.takeWhile _ _ = List.takeWhile _ _
    have hall : ∀ b ∈ str.takeWhile (· ≠ 0), decide (b ≠ 0) = true := by
      intro b hb
      have h := mem_takeWhile_imp hb
      exact h
    rw [takeWhile_append_of_pos hall]
    cases str.length - (str.takeWhile (· ≠ 0)).length with
    | zero => exact append_nil _
    | succ n =>
      rw [replicate_succ, takeWhile_cons_of_neg (by decide)]
      exact append_nil _
  unfold jxtaFromStrAt jxtaFromStr
  rw [copyStr_eq, ok_bind, hstring]
  rfl

/-- No read leaves the string. -/
theorem fromStrAt_eq (idStr : List Byte) : fromStrAt idStr = fromStr idStr := by
  unfold fromStrAt fromStr
  by_cases hshort : idPrefix.length > idStr.length
  · rw [if_pos hshort, if_pos hshort]
  · rw [if_neg hshort, if_neg hshort, sameCase_eq _ (Nat.not_lt.mp hshort) (by decide), ok_bind]
    rw [sameName_terminated]
    by_cases hname : (!sameName idPrefix.length idStr idPrefix) = true
    · rw [if_pos hname, if_pos hname]
      rfl
    · rw [if_neg hname, if_neg hname]
      dsimp only
      rw [findDash_eq _ 0 (Nat.zero_add _), ok_bind, Nat.zero_add, drop_zero]
      by_cases hend : (idStr.drop idPrefix.length).idxOf 45 ≥ (idStr.drop idPrefix.length).length
      · rw [if_pos hend, if_pos hend]
        rfl
      · rw [if_neg hend, if_neg hend, sameStr_isFormat (by decide) (Nat.le_of_not_ge hend), ok_bind,
          uuidFromStrAt_eq, jxtaFromStrAt_eq, sameStr_isFormat (by decide) (Nat.le_of_not_ge hend),
          ok_bind]
        rfl

end Reads

end JxtaC.JxtaId
