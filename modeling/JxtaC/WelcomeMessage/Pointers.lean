import JxtaC.Lib.CStrings
import JxtaC.WelcomeMessage.RoundTrip

/-
  `welcome_message_new_2` with its pointers into the line (jxta_transport_welcome_message.c): each
  is the place in the line that it stands for, and every read is checked against the line's end.
  `new2At_eq` says that no read leaves the line and that the message is that of `new2`.
-/

namespace JxtaC.WelcomeMessage

open Lib List

/-! ## the function -/

/-- A byte for each place, and the NUL. -/
def lineOf (s : CString) : List Byte := s.bytes ++ [0]

/-- `strchr(current, ' ')`. -/
def nextSpace (line : List Byte) (current : Nat) : Exec (Option Nat) := do
  return (← strchr space (line.drop current)).map (current + ·)

/-- `strrchr(current, ' ')`. -/
def lastSpace (line : List Byte) (current : Nat) : Exec (Option Nat) := do
  return (← strrchr space (line.drop current)).map (current + ·)

/-- What stands between two places. -/
def between (line : List Byte) (current next : Nat) : List Byte :=
  (line.drop current).take (next - current)

/-- A token that is not empty, and the place behind the space. -/
def fieldAt (line : List Byte) (current : Nat) : Exec (Option (List Byte × Nat)) := do
  match ← nextSpace line current with
  | none => return none
  | some next =>
    if next - current = 0 then return none
    else return some (between line current next, next + 1)

/-- The propagate flag, as `nopropField` has it. -/
def nopropAt (line : List Byte) (current : Nat) : Exec (Option (Option Bool × Nat)) := do
  match ← nextSpace line current with
  | none => return none
  | some next =>
    if next - current ≠ 1 then return none
    else
      let flag ← byteAt line current
      if flag = 48 then return some (some false, next + 1)
      else if flag = 49 then return some (some true, next + 1)
      else return some (none, next + 1)

/-- The two comparisons at the end of the line, which are only logged. -/
def checkEnd (line : List Byte) (behind : Int) : Exec Unit := do
  let lf ← byteAt line (behind - 1)
  if lf = 10 then
    let _ ← byteAt line (behind - 2)
    return ()
  else return ()

/-- A difference of pointers as a `size_t`. -/
def sizeOfDiff (d : Int) : Nat := (if d < 0 then d + 2 ^ 64 else d).toNat

/-- `strncmp(version, last, end - last)`. -/
def isVersionAt (version line : List Byte) (last : Nat) (behind : Int) : Exec Bool :=
  sameStr (sizeOfDiff (behind - last)) (version ++ [0]) (line.drop last)

/-- The fields behind the peer id. -/
def parseVersionAt (myself : WelcomeMessage) (line : List Byte) (current : Nat) :
    Exec (Option WelcomeMessage) := do
  let length ← strlen (line.drop current)
  let behind : Int := (current + length : Nat)
  checkEnd line behind
  let behind := behind - 2
  match ← lastSpace line current with
  | none => return none
  | some last =>
    let last := last + 1
    if (← byteAt line last) = 48 then return none
    else if ← isVersionAt (text "1.1") line last behind then
      match ← nopropAt line current with
      | none => return none
      | some (none, _) => return some myself
      | some (some noprop, current) =>
        if current ≠ last then return some { myself with noprop }
        else return some { myself with noprop, version := .v1_1 }
    else if ← isVersionAt (text "3.0") line last behind then
      match ← nopropAt line current with
      | none => return none
      | some (none, _) => return some myself
      | some (some noprop, current) =>
        match ← fieldAt line current with
        | none => return none
        | some (msgVers, current) =>
          if msgVers.length > 3 then return none
          else
            let useMessageVersion := Decimal.atoi msgVers
            if current ≠ last then return some { myself with noprop, useMessageVersion }
            else return some { myself with noprop, useMessageVersion, version := .v3_0 }
    else return some { myself with noprop := true, useMessageVersion := 0, version := .unknown }

/-- `welcome_message_new_2`, on a line with its NUL. -/
def new2At (uriParse : CString → Uri) (line : List Byte) : Exec (Option WelcomeMessage) := do
  match ← nextSpace line 0 with
  | none => return none
  | some next =>
    if next = 0 then return none
    else if ¬(← sameStr next line (greeting ++ [0])) then return none
    else
      match ← fieldAt line (next + 1) with
      | none => return none
      | some (dest, current) =>
        match ← fieldAt line current with
        | none => return none
        | some (source, current) =>
          match ← fieldAt line current with
          | none => return none
          | some (peerId, current) =>
            parseVersionAt
              ⟨EndpointAddress.new uriParse (.ofBuffer dest),
                EndpointAddress.new uriParse (.ofBuffer source), peerId, false, 0, .unknown⟩
              line current

/-! ## places -/

/-- The place of what is left of the line. -/
def placeOf (s : CString) (current : List Byte) : Nat := s.bytes.length - current.length

section Places
variable {s : CString} {current next : List Byte}

theorem drop_placeOf (h : current <:+ s.bytes) :
    (lineOf s).drop (placeOf s current) = current ++ [0] := by
  obtain ⟨front, hfront⟩ := h
  unfold lineOf placeOf
  rw [← hfront, length_append, Nat.add_sub_cancel, append_assoc, drop_left]

theorem not_mem_of_suffix (h : current <:+ s.bytes) : (0 : Byte) ∉ current :=
  fun hmem => s.property (h.subset hmem)

/-- What is left is told by its place. -/
theorem placeOf_inj (h : current <:+ s.bytes) (h' : next <:+ s.bytes)
    (heq : placeOf s current = placeOf s next) : current = next := by
  have hdrop := drop_placeOf h
  rw [heq, drop_placeOf h'] at hdrop
  exact (append_cancel_right hdrop).symm

/-- Some bytes in front of what is left. -/
theorem placeOf_append {front rest : List Byte} (h : front ++ rest <:+ s.bytes) :
    rest <:+ s.bytes ∧ placeOf s rest = placeOf s (front ++ rest) + front.length := by
  have hle := h.length_le
  refine ⟨(suffix_append front rest).trans h, ?_⟩
  unfold placeOf
  rw [length_append] at hle ⊢
  omega

theorem token_eq_some {t rest : List Byte} (h : token current = some (t, rest)) :
    current = t ++ space :: rest ∧ space ∉ t := by
  unfold token at h
  split at h
  next hmem =>
    cases h
    have hne : current.dropWhile (· ≠ space) ≠ [] := by
      intro hnil
      have hall := dropWhile_eq_nil_iff.mp hnil space hmem
      exact absurd rfl (of_decide_eq_true hall)
    have hhead := head_dropWhile_not (fun b => decide (b ≠ space)) hne
    constructor
    · have hcons : current.dropWhile (· ≠ space) =
          space :: (current.dropWhile (· ≠ space)).drop 1 := by
        rw [drop_one]
        refine (cons_head_tail hne).symm.trans ?_
        congr 1
        exact not_not.mp (of_decide_eq_false hhead)
      rw [← hcons, takeWhile_append_dropWhile]
    · intro hx
      have hpos := mem_takeWhile_imp hx
      simp at hpos
  next => exact absurd h nofun

section
variable (h : current <:+ s.bytes)
include h

theorem nextSpace_eq : nextSpace (lineOf s) (placeOf s current) =
    .ok ((token current).map fun f => placeOf s current + f.1.length) := by
  unfold nextSpace
  rw [drop_placeOf h, strchr_eq (not_mem_of_suffix h) (by decide)]
  unfold token
  by_cases hmem : space ∈ current
  · rw [if_pos hmem, if_pos hmem]
    rfl
  · rw [if_neg hmem, if_neg hmem]
    rfl

/-- The bytes of a token, and the place behind its space. -/
theorem token_place {t rest : List Byte} (htoken : token current = some (t, rest)) :
    between (lineOf s) (placeOf s current) (placeOf s current + t.length) = t ∧
      rest <:+ s.bytes ∧ placeOf s current + t.length + 1 = placeOf s rest := by
  obtain ⟨hsplit, -⟩ := token_eq_some htoken
  have hfront : (t ++ [space]) ++ rest <:+ s.bytes := by
    rw [append_assoc]
    exact hsplit ▸ h
  obtain ⟨hrest, hplace⟩ := placeOf_append hfront
  refine ⟨?_, hrest, ?_⟩
  · unfold between
    rw [drop_placeOf h, Nat.add_sub_cancel_left, hsplit, append_assoc, take_left]
  · rw [hplace, append_assoc, singleton_append, ← hsplit, length_append,
      length_singleton]
    omega

theorem fieldAt_eq : fieldAt (lineOf s) (placeOf s current) =
    .ok ((field current).map fun f => (f.1, placeOf s f.2)) := by
  unfold fieldAt field
  rw [nextSpace_eq h, ok_bind]
  match htoken : token current with
  | none => rfl
  | some (t, rest) =>
    obtain ⟨hbetween, -, hplace⟩ := token_place h htoken
    dsimp only [Option.map_some]
    rw [Nat.add_sub_cancel_left, hbetween, hplace]
    by_cases hnil : t = []
    · rw [if_pos (length_eq_zero_iff.mpr hnil), if_pos hnil]
      rfl
    · rw [if_neg fun hzero => hnil (length_eq_zero_iff.mp hzero), if_neg hnil]
      rfl

theorem field_suffix {f : List Byte × List Byte} (hfield : field current = some f) :
    f.2 <:+ s.bytes ∧ placeOf s current < placeOf s f.2 := by
  unfold field at hfield
  split at hfield
  next t rest htoken =>
    split at hfield
    next => exact absurd hfield nofun
    next =>
      cases hfield
      obtain ⟨-, hrest, hplace⟩ := token_place h htoken
      exact ⟨hrest, by dsimp only; omega⟩
  next => exact absurd hfield nofun

theorem nopropAt_eq : nopropAt (lineOf s) (placeOf s current) =
    .ok ((nopropField current).map fun f => (f.1, placeOf s f.2)) := by
  unfold nopropAt nopropField
  rw [nextSpace_eq h, ok_bind]
  match htoken : token current with
  | none => rfl
  | some (t, rest) =>
    obtain ⟨-, -, hplace⟩ := token_place h htoken
    dsimp only [Option.map_some]
    rw [Nat.add_sub_cancel_left, hplace]
    by_cases hlen : t.length ≠ 1
    · rw [if_pos hlen, if_pos hlen]
      rfl
    · rw [if_neg hlen, if_neg hlen]
      obtain ⟨b, rfl⟩ := length_eq_one_iff.mp (not_not.mp hlen)
      have hbyte : (lineOf s)[placeOf s current]? = some b := by
        rw [← Nat.add_zero (placeOf s current), ← getElem?_drop, drop_placeOf h,
          (token_eq_some htoken).1]
        rfl
      rw [byteAt_ok hbyte, ok_bind]
      have hzero : [b] = text "0" ↔ b = 48 := by simp [text]
      have hone : [b] = text "1" ↔ b = 49 := by simp [text]
      simp only [hzero, hone]
      split
      next => rfl
      next => split <;> rfl

theorem nopropField_suffix {f : Option Bool × List Byte} (hfield : nopropField current = some f) :
    f.2 <:+ s.bytes := by
  unfold nopropField at hfield
  split at hfield
  next t rest htoken =>
    have hrest := (token_place h htoken).2.1
    split at hfield
    next => exact absurd hfield nofun
    next =>
      split at hfield
      next =>
        cases hfield
        exact hrest
      next =>
        split at hfield
        next =>
          cases hfield
          exact hrest
        next =>
          cases hfield
          exact hrest
  next => exact absurd hfield nofun

end

/-- `strncmp` of the model, on bytes without a NUL. -/
theorem sameText_eq {a : List Byte} (ha : (0 : Byte) ∉ a) (n : Nat) (b : List Byte) :
    sameText n a b = decide (a.take n = b.take n) := by
  induction n generalizing a b with
  | zero => simp [sameText]
  | succ n ih =>
    cases a with
    | nil => cases b <;> simp [sameText]
    | cons x a =>
      cases b with
      | nil => simp [sameText]
      | cons y b =>
        rw [sameText, ih (not_mem_cons ha).2]
        by_cases heq : x = y
        · simp [heq]
        · simp [heq]

theorem lastToken_eq_some {last : List Byte} (h : lastToken current = some last) :
    ∃ front, current = front ++ space :: last ∧ space ∉ last := by
  unfold lastToken at h
  split at h
  next hmem =>
    have hrev := mem_reverse.mpr hmem
    have htoken : token current.reverse = some (current.reverse.takeWhile (· ≠ space),
        (current.reverse.dropWhile (· ≠ space)).drop 1) := if_pos hrev
    obtain ⟨hsplit, hnot⟩ := token_eq_some htoken
    cases h
    refine ⟨((current.reverse.dropWhile (· ≠ space)).drop 1).reverse, ?_, ?_⟩
    · rw [← reverse_reverse current]
      conv_lhs => rw [hsplit]
      rw [reverse_append, reverse_cons, append_assoc, reverse_reverse]
      rfl
    · exact fun hmem' => hnot (mem_reverse.mp hmem')
  next => exact absurd h nofun

theorem lastSpace_none (h : current <:+ s.bytes) (hnone : lastToken current = none) :
    lastSpace (lineOf s) (placeOf s current) = .ok none := by
  unfold lastToken at hnone
  split at hnone
  next => exact absurd hnone nofun
  next hmem =>
    unfold lastSpace
    rw [drop_placeOf h, strrchr_eq (not_mem_of_suffix h) (by decide), if_neg hmem]
    rfl

theorem lastSpace_some {last : List Byte} (h : current <:+ s.bytes)
    (hlast : lastToken current = some last) : last <:+ s.bytes ∧ ∃ i,
      lastSpace (lineOf s) (placeOf s current) = .ok (some i) ∧ i + 1 = placeOf s last := by
  obtain ⟨front, hsplit, -⟩ := lastToken_eq_some hlast
  have hmem : space ∈ current := hsplit ▸ mem_append_right front mem_cons_self
  have hlen := congrArg List.length hsplit
  rw [length_append, length_cons] at hlen
  have hfront : (front ++ [space]) ++ last <:+ s.bytes := by
    rw [append_assoc]
    exact hsplit ▸ h
  obtain ⟨hsuffix, hplace⟩ := placeOf_append hfront
  rw [append_assoc, singleton_append, ← hsplit, length_append,
    length_singleton] at hplace
  have htoken : (current.reverse.takeWhile (· ≠ space)).length = last.length := by
    unfold lastToken at hlast
    rw [if_pos hmem] at hlast
    rw [← Option.some.inj hlast, length_reverse]
  refine ⟨hsuffix, placeOf s current + front.length, ?_, by omega⟩
  unfold lastSpace
  rw [drop_placeOf h, strrchr_eq (not_mem_of_suffix h) (by decide), if_pos hmem, htoken]
  show Except.ok (some (placeOf s current + (current.length - (last.length + 1)))) = _
  congr 3
  omega

/-- In front of the last two bytes of the line there is at least a space and the peer id. -/
theorem checkEnd_eq {n : Nat} (hn : n ≤ s.bytes.length) (htwo : 2 ≤ n) :
    checkEnd (lineOf s) (n : Nat) = .ok () := by
  have hget : ∀ i < n, ∃ b, byteAt (lineOf s) (i : Nat) = .ok b := by
    intro i hi
    have hlt : i < (lineOf s).length := by
      unfold lineOf
      rw [length_append]
      omega
    exact ⟨(lineOf s)[i], byteAt_ok (getElem?_eq_getElem hlt)⟩
  obtain ⟨lf, hlf⟩ := hget (n - 1) (by omega)
  obtain ⟨cr, hcr⟩ := hget (n - 2) (by omega)
  have hminus : ((n - 1 : Nat) : Int) = (n : Int) - 1 := by omega
  have hminus' : ((n - 2 : Nat) : Int) = (n : Int) - 2 := by omega
  rw [hminus] at hlf
  rw [hminus'] at hcr
  unfold checkEnd
  rw [hlf, ok_bind]
  split
  next => rw [hcr]; rfl
  next => rfl

/-- The comparison with the difference of the pointers, which wraps where it is negative. -/
theorem isVersionAt_eq {last version : List Byte} (h : last <:+ s.bytes)
    (hversion : (0 : Byte) ∉ version) (hshort : version.length < 2 ^ 32) :
    isVersionAt version (lineOf s) (placeOf s last) ((s.bytes.length : Int) - 2) =
      .ok (isVersion version last) := by
  have hle := h.length_le
  have hdiff : (s.bytes.length : Int) - 2 - (placeOf s last : Nat) = (last.length : Int) - 2 := by
    unfold placeOf
    omega
  unfold isVersionAt isVersion
  rw [drop_placeOf h, sameStr_eq hversion (not_mem_of_suffix h), sameText_eq hversion, hdiff]
  congr 1
  by_cases hlast : last.length < 2
  · have hcount : sizeOfDiff ((last.length : Int) - 2) = last.length + 2 ^ 64 - 2 := by
      unfold sizeOfDiff
      rw [if_pos (by omega)]
      omega
    rw [if_pos hlast, hcount, take_of_length_le (by omega), take_of_length_le (by omega),
      take_of_length_le (by omega), take_of_length_le (by omega)]
  · have hcount : sizeOfDiff ((last.length : Int) - 2) = last.length - 2 := by
      unfold sizeOfDiff
      rw [if_neg (by omega)]
      omega
    rw [if_neg hlast, hcount]

/-! ## the whole -/

theorem byteAt_head {last : List Byte} (h : last <:+ s.bytes) :
    byteAt (lineOf s) (placeOf s last : Nat) = .ok (last.headD 0) := by
  have hbyte : (lineOf s)[placeOf s last]? = some (last.headD 0) := by
    rw [← Nat.add_zero (placeOf s last), ← getElem?_drop, drop_placeOf h]
    match last with
    | [] => rfl
    | b :: last => rfl
  exact byteAt_ok hbyte

theorem parseVersionAt_eq (myself : WelcomeMessage) (h : current <:+ s.bytes)
    (htwo : 2 ≤ placeOf s current) :
    parseVersionAt myself (lineOf s) (placeOf s current) = .ok (parseVersion myself current) := by
  have hle := h.length_le
  have hbehind : placeOf s current + current.length = s.bytes.length := by
    unfold placeOf
    omega
  unfold parseVersionAt parseVersion
  rw [drop_placeOf h, strlen_eq (not_mem_of_suffix h), ok_bind, hbehind]
  dsimp only
  rw [checkEnd_eq (Nat.le_refl _) (by omega), ok_bind]
  match hlast : lastToken current with
  | none =>
    rw [lastSpace_none h hlast]
    rfl
  | some last =>
    obtain ⟨hsuffix, i, hspace, hplace⟩ := lastSpace_some h hlast
    have hhead : last.headD 0 = 48 ↔ last.head? = some 48 := by
      match last with
      | [] => simp
      | b :: last => simp
    -- the places behind two tokens are the same if the tokens are followed by the same bytes
    have hsame : ∀ {rest : List Byte}, rest <:+ s.bytes →
        (placeOf s rest ≠ placeOf s last ↔ rest ≠ last) :=
      fun hrest => not_congr ⟨placeOf_inj hrest hsuffix, fun heq => heq ▸ rfl⟩
    rw [hspace, ok_bind]
    dsimp only
    rw [hplace, byteAt_head hsuffix, ok_bind]
    simp only [hhead]
    by_cases hzero : last.head? = some 48
    · rw [if_pos hzero, if_pos hzero]
      rfl
    · rw [if_neg hzero, if_neg hzero, isVersionAt_eq hsuffix (by decide) (by decide), ok_bind]
      by_cases hone : isVersion (text "1.1") last = true
      · rw [if_pos hone, if_pos hone, nopropAt_eq h, ok_bind]
        match hflag : nopropField current with
        | none => rfl
        | some (none, _) => rfl
        | some (some noprop, next) =>
          have hnext := nopropField_suffix h hflag
          dsimp only [Option.map_some]
          simp only [hsame hnext]
          split
          next => rfl
          next => rfl
      · rw [if_neg hone, if_neg hone, isVersionAt_eq hsuffix (by decide) (by decide), ok_bind]
        by_cases hthree : isVersion (text "3.0") last = true
        · rw [if_pos hthree, if_pos hthree, nopropAt_eq h, ok_bind]
          match hflag : nopropField current with
          | none => rfl
          | some (none, _) => rfl
          | some (some noprop, next) =>
            have hnext := nopropField_suffix h hflag
            dsimp only [Option.map_some]
            rw [fieldAt_eq hnext, ok_bind]
            match hvers : field next with
            | none => rfl
            | some (msgVers, next') =>
              obtain ⟨hnext', -⟩ := field_suffix hnext hvers
              dsimp only [Option.map_some]
              simp only [hsame hnext']
              split
              next => rfl
              next =>
                split
                next => rfl
                next => rfl
        · rw [if_neg hthree, if_neg hthree]
          rfl

end Places

/-- No read leaves the line, and the message is that of `new2`. -/
theorem new2At_eq (uriParse : CString → Uri) (s : CString) :
    new2At uriParse (lineOf s) = .ok (new2 uriParse s) := by
  have hself : s.bytes <:+ s.bytes := suffix_refl _
  have hstart : placeOf s s.bytes = 0 := Nat.sub_self _
  have hspace := nextSpace_eq hself
  rw [hstart] at hspace
  unfold new2At new2
  rw [hspace, ok_bind]
  match htoken : token s.bytes with
  | none => rfl
  | some (t, current) =>
    obtain ⟨-, hcurrent, hplace⟩ := token_place hself htoken
    rw [hstart] at hplace
    have hgreeting : sameStr (0 + t.length) (lineOf s) (greeting ++ [0]) =
        .ok (sameText t.length s.bytes greeting) := by
      have hline : (0 : Byte) ∉ s.bytes := s.property
      have hknown : (0 : Byte) ∉ greeting := by decide
      rw [Nat.zero_add, lineOf, sameStr_eq hline hknown, sameText_eq hline]
    dsimp only [Option.map_some]
    rw [hgreeting, ok_bind, hplace, fieldAt_eq hcurrent]
    by_cases hnil : t = []
    · have hzero : 0 + t.length = 0 := by rw [hnil, length_nil]
      rw [if_pos hzero, if_pos (.inl hnil)]
      rfl
    · have hne : ¬ 0 + t.length = 0 := by
        rw [Nat.zero_add]
        exact fun hzero => hnil (length_eq_zero_iff.mp hzero)
      rw [if_neg hne]
      by_cases hsame : sameText t.length s.bytes greeting = true
      · have hor : ¬ (t = [] ∨ ¬ sameText t.length s.bytes greeting = true) := by
          intro hor
          exact hor.elim hnil (fun hfalse => hfalse hsame)
        rw [if_neg (not_not_intro hsame), if_neg hor, ok_bind]
        match hdest : field current with
        | none => rfl
        | some (dest, current₁) =>
          obtain ⟨hsuffix₁, hlt₁⟩ := field_suffix hcurrent hdest
          dsimp only [Option.map_some]
          rw [fieldAt_eq hsuffix₁, ok_bind]
          match hsource : field current₁ with
          | none => rfl
          | some (source, current₂) =>
            obtain ⟨hsuffix₂, hlt₂⟩ := field_suffix hsuffix₁ hsource
            dsimp only [Option.map_some]
            rw [fieldAt_eq hsuffix₂, ok_bind]
            match hpeer : field current₂ with
            | none => rfl
            | some (peerId, current₃) =>
              obtain ⟨hsuffix₃, hlt₃⟩ := field_suffix hsuffix₂ hpeer
              dsimp only [Option.map_some]
              have htwo : 2 ≤ placeOf s current₃ := by
                dsimp only at hlt₁ hlt₂ hlt₃
                omega
              exact parseVersionAt_eq _ hsuffix₃ htwo
      · rw [if_pos hsame, if_pos (.inr hsame)]
        rfl

end JxtaC.WelcomeMessage
