import JxtaC.Bytevector.Spec
import JxtaC.JString
import JxtaC.Walk
import Mathlib.Data.List.DropRight

/-
  Strings refine byte lists.
  `ListStep` says what each operation answers and leaves on a store of byte lists. `step_follows` is
  one operation under the condition `Safe`, `jstrings_run_refine` a whole run.
-/

namespace JxtaC.JString

open Lib Lib.Block List

/-- The operations, with the places of the strings in the store of all of them. -/
inductive Op where
  | new1 (bufsize : UInt64)
  | new2 (string : Option CString)
  | new3 (bytes : Option Bytevector)
  | clone (origstring : Nat)
  | append0 (js : Nat) (newstring : Option (List Byte))
  | append1 (jsorig jsnew : Nat)
  | append2 (js : Nat) (string : Option CString)
  | concat (js : Nat) (argv : List (Option CString))
  | trim (js : Nat)
  | reset (js : Nat) (buf : Bool)
  | getString (js : Nat)
  | length (js : Nat)

/-- What a call returns: whether there is a new string, nothing, the bytes that a pointer leads to,
    or a length. -/
inductive Output where
  | object (made : Bool)
  | done
  | chars (bytes : List Byte)
  | size (length : Nat)
  deriving Repr, DecidableEq

section Store
variable (heap : Heap) (stale : Byte)

def find (strings : List JString) (js : Nat) : Exec JString :=
  match strings[js]? with
  | some js => .ok js
  | none => .error .nullPointer

/-- A string that changes. -/
def change (strings : List JString) (js : Nat) (f : JString → Exec JString) :
    Exec (List JString × Output) := do
  return (strings.set js (← f (← find strings js)), .done)

/-- A string that may have been made. -/
def add (strings : List JString) (made : Option JString) : List JString × Output :=
  (strings ++ made.toList, .object made.isSome)

def step (strings : List JString) : Op → Exec (List JString × Output)
  | .new1 bufsize => .ok (add strings (some (JString.new1 heap bufsize.toNat)))
  | .new2 string => do return add strings (← JString.new2 heap stale (string.map (·.bytes)))
  | .new3 bytes => do return add strings (← JString.new3 heap bytes)
  | .clone origstring => do
    let (orig, js) ← JString.clone heap stale (← find strings origstring)
    return add (strings.set origstring orig) (some js)
  | .append0 js newstring =>
    change strings js fun js =>
      match newstring with
      | none => JString.append0 heap stale js .null 0
      | some bytes => JString.append0 heap stale js (.outside bytes) bytes.length
  | .append1 jsorig jsnew => do
    let new ← find strings jsnew
    change strings jsorig fun js =>
      JString.append1 heap stale js (if jsorig = jsnew then none else some new)
  | .append2 js string =>
    change strings js fun js => JString.append2 heap stale js (string.map (·.bytes))
  | .concat js argv =>
    change strings js fun js => JString.concat heap stale js (argv.map (·.map (·.bytes)))
  | .trim js => change strings js JString.trim
  | .reset js buf => do
    let (new, handed) ← JString.reset heap stale (← find strings js) buf
    let old ← find strings js
    return (strings.set js new,
      match handed with
      | some string => .chars (string.take (old.length + 1))
      | none => .done)
  | .getString js => do
    let (new, string) ← JString.getString heap stale (← find strings js)
    return (strings.set js new, .chars (string.take (new.length + 1)))
  | .length js => do return (strings, .size (← find strings js).length)

end Store

/-! ## byte lists -/

/-- The byte list at a place. -/
def listAt (lists : List (List Byte)) (js : Nat) : List Byte := lists[js]?.getD []

/-- What an operation means on byte lists. -/
def listStep (lists : List (List Byte)) : Op → List (List Byte) × Output
  | .new1 _ => (lists ++ [[]], .object true)
  | .new2 string => (lists ++ (string.map (·.bytes)).toList, .object string.isSome)
  | .new3 bytes => (lists ++ (bytes.map (·.bytes)).toList, .object bytes.isSome)
  | .clone origstring => (lists ++ [listAt lists origstring], .object true)
  | .append0 js newstring => (lists.set js (listAt lists js ++ newstring.getD []), .done)
  | .append1 jsorig jsnew =>
    (lists.set jsorig (listAt lists jsorig ++ listAt lists jsnew), .done)
  | .append2 js string =>
    (lists.set js (listAt lists js ++ (string.map (·.bytes)).getD []), .done)
  | .concat js argv =>
    (lists.set js (listAt lists js ++ (argv.map fun s => (s.map (·.bytes)).getD []).flatten), .done)
  | .trim js => (lists.set js (jstringTrim (listAt lists js)), .done)
  | .reset js buf =>
    (lists.set js [], if buf then .chars (listAt lists js ++ [0]) else .done)
  | .getString js => (lists, .chars (listAt lists js ++ [0]))
  | .length js => (lists, .size (listAt lists js).length)

/-! ## the condition on the operations -/

/-- Doubled often enough, the buffer has more than `length` bytes, and the heap gives it. -/
def Grows (heap : Heap) (bufsize length : Nat) : Prop :=
  ∃ k < 64, length < bufsize * 2 ^ k ∧ bufsize * 2 ^ k ≤ heap.limit

/-- There is a string at the place, with the property. -/
def On (strings : List JString) (js : Nat) (P : JString → Prop) : Prop :=
  match strings[js]? with
  | some js => P js
  | none => False

/-- The strings exist and the heap gives what the operation asks for; a byte vector is not empty, a
    string that is cloned holds no NUL, only an empty one is appended to itself, and none begins
    with 2^32 bytes of white space or more when it is trimmed. -/
def Safe (heap : Heap) (strings : List JString) : Op → Prop
  | .new1 bufsize => 0 < newSize bufsize.toNat ∧ newSize bufsize.toNat ≤ heap.limit
  | .new2 none => True
  | .new2 (some s) => Grows heap (newSize s.bytes.length) (s.bytes.length + 1)
  | .new3 none => True
  | .new3 (some bytes) =>
    bytes.WellFormed heap ∧ 0 < bytes.size ∧ newSize bytes.size ≤ heap.limit
  | .clone origstring => On strings origstring fun js =>
      0 ∉ js.bytes ∧ Grows heap (newSize js.bufsize) (js.length + 1)
  | .append0 js none => On strings js fun _ => True
  | .append0 js (some bytes) =>
    On strings js fun js => Grows heap js.bufsize (js.length + bytes.length + 1)
  | .append1 jsorig jsnew => On strings jsnew fun new => On strings jsorig fun js =>
      (jsorig = jsnew → js.length = 0) ∧ Grows heap js.bufsize (js.length + new.length + 1)
  | .append2 js none => On strings js fun _ => True
  | .append2 js (some s) =>
    On strings js fun js => Grows heap js.bufsize (js.length + s.bytes.length + 1)
  | .concat js argv => On strings js fun js =>
      (∃ s ∈ argv, s ≠ none) → Grows heap js.bufsize
        (js.length + (argv.map fun s => (s.map (·.bytes)).getD []).flatten.length + 1)
  | .trim js => On strings js fun js => (js.bytes.takeWhile Decimal.isSpace).length < uintMod
  | .reset js _ => (On strings js fun _ => True) ∧ defaultBufsize ≤ heap.limit
  | .getString js => On strings js fun _ => True
  | .length js => On strings js fun _ => True

/-! ## one string -/

/-- The string holds these bytes: its buffer is as large as it is taken to be, and has room for a
    NUL behind them. -/
structure Holds (heap : Heap) (js : JString) (s : List Byte) : Prop where
  block : ∃ rest, js.string = some (s ++ rest) ∧ s.length + rest.length = js.bufsize
  length_eq : js.length = s.length
  length_lt : js.length < js.bufsize
  bufsize_le : js.bufsize ≤ heap.limit

section OneString
variable {heap : Heap} (stale : Byte) {js : JString} {s : List Byte}

theorem Holds.bytes_eq (h : Holds heap js s) : js.bytes = s := by
  obtain ⟨rest, hstring, -⟩ := h.block
  unfold bytes
  rw [hstring, h.length_eq]
  exact take_left

theorem writeAt_behind {s rest new : List Byte} (h : new.length ≤ rest.length) :
    writeAt (s ++ rest) s.length new = .ok (s ++ (new ++ rest.drop new.length)) := by
  have hfits : s.length + new.length ≤ (s ++ rest).length := by
    rw [length_append]
    omega
  rw [writeAt_of_le hfits, take_left, drop_append, append_assoc]
  simp

theorem readAt_own (bytes : List Byte) : readAt bytes 0 bytes.length = .ok bytes := by
  rw [readAt_of_le (Nat.zero_add _).le, drop_zero, take_length]

theorem holds_new1 {n : Nat} (hpos : 0 < newSize n) (hle : newSize n ≤ heap.limit) :
    Holds heap (new1 heap n) [] where
  block := ⟨List.replicate (newSize n) 0, if_pos hle, by
    rw [length_nil, Nat.zero_add, length_replicate]
    rfl⟩
  length_eq := rfl
  length_lt := hpos
  bufsize_le := hle

/-- The size that the buffer grows to. -/
theorem growBuf_spec {bufsize length k fuel : Nat} (hlt : length < bufsize * 2 ^ k)
    (hlimit : bufsize * 2 ^ k < sizeMod) (hfuel : k < fuel) :
    ∃ j ≤ k, growBuf fuel bufsize length = .ok (bufsize * 2 ^ j) ∧ length < bufsize * 2 ^ j := by
  induction fuel generalizing bufsize k with
  | zero => omega
  | succ fuel ih =>
    rw [growBuf]
    by_cases hle : bufsize ≤ length
    · cases k with
      | zero => omega
      | succ k =>
        have hdouble : bufsize * 2 * 2 ^ k = bufsize * 2 ^ (k + 1) := by
          rw [Nat.pow_succ', Nat.mul_assoc]
        have hsmall : bufsize * 2 < sizeMod := by
          have hpow : bufsize * 2 * 1 ≤ bufsize * 2 * 2 ^ k :=
            Nat.mul_le_mul_left _ Nat.one_le_two_pow
          omega
        rw [if_pos hle, Nat.mod_eq_of_lt hsmall]
        rw [← hdouble] at hlt hlimit
        obtain ⟨j, hj, hgrow, hroom⟩ := ih hlt hlimit (by omega)
        have hj' : bufsize * 2 * 2 ^ j = bufsize * 2 ^ (j + 1) := by
          rw [Nat.pow_succ', Nat.mul_assoc]
        exact ⟨j + 1, by omega, by rw [hgrow, hj'], by omega⟩
    · exact ⟨0, Nat.zero_le _, by rw [if_neg hle, Nat.pow_zero, Nat.mul_one], by omega⟩

theorem sizeMod_eq : sizeMod = 2 * 2 ^ 63 := rfl

section
variable (h : Holds heap js s)
include h

/-- The bytes that are read go behind those of the string; the size has been doubled `j` times. -/
theorem append0_spec {chars : Chars} {new : List Byte} {k : Nat} (hchars : chars ≠ .null)
    (hload : chars.load new.length = .ok new) (hk : k < 64)
    (hroom : js.length + new.length + 1 < js.bufsize * 2 ^ k)
    (hlimit : js.bufsize * 2 ^ k ≤ heap.limit) :
    ∃ js' j, append0 heap stale js chars new.length = .ok js' ∧
      Holds heap js' (s ++ new) ∧ js'.bufsize = js.bufsize * 2 ^ j ∧ j ≤ k := by
  obtain ⟨rest, hstring, hsize⟩ := h.block
  have hlength := h.length_eq
  have hlt := h.length_lt
  have hheap := heap.limit_lt
  have hmod := sizeMod_eq
  have hspec : ∃ j ≤ k, growBuf 65 js.bufsize (js.length + new.length + 1) = _ ∧ _ :=
    growBuf_spec hroom (by omega) (by omega)
  obtain ⟨j, hj, hgrow, hlarge⟩ := hspec
  have hle : js.bufsize * 2 ^ j ≤ js.bufsize * 2 ^ k :=
    Nat.mul_le_mul_left _ (Nat.pow_le_pow_right (by decide) hj)
  have hold : js.bufsize * 1 ≤ js.bufsize * 2 ^ j := Nat.mul_le_mul_left _ Nat.one_le_two_pow
  obtain ⟨bufsize, hnew⟩ : ∃ bufsize, js.bufsize * 2 ^ j = bufsize := ⟨_, rfl⟩
  rw [hnew] at hgrow hlarge hle hold
  let rest' := rest ++ List.replicate (bufsize - (s ++ rest).length) stale
  have hrest' : s.length + rest'.length = bufsize := by
    rw [length_append, length_replicate, length_append]
    omega
  have hresize : resizeBuf heap stale js.string bufsize = some (s ++ rest') := by
    unfold resizeBuf
    rw [if_pos (by omega), hstring, Option.getD_some, ← append_assoc,
      take_of_length_le (by rw [length_append]; omega)]
  have hwrite : writeAt (s ++ rest') s.length new = _ := writeAt_behind (by omega)
  rw [← hlength] at hwrite
  refine ⟨⟨js.length + new.length, bufsize, some (s ++ (new ++ rest'.drop new.length))⟩, j,
    ?_, ⟨⟨rest'.drop new.length, ?_, ?_⟩, ?_, ?_, ?_⟩, hnew.symm, hj⟩
  · unfold append0 store
    rw [if_neg hchars, Nat.mod_eq_of_lt (by omega), hgrow, ok_bind, hresize]
    simp only [hload, ok_bind, hwrite]
    rw [Nat.mod_eq_of_lt (by omega)]
    rfl
  · rw [append_assoc]
  · rw [length_append, length_drop]
    dsimp only
    omega
  · rw [length_append, hlength]
  · dsimp only
    omega
  · dsimp only
    omega

theorem append_outside_spec {new : List Byte} {k : Nat} (hk : k < 64)
    (hroom : js.length + new.length + 1 < js.bufsize * 2 ^ k)
    (hlimit : js.bufsize * 2 ^ k ≤ heap.limit) :
    ∃ js' j, append0 heap stale js (.outside new) new.length = .ok js' ∧
      Holds heap js' (s ++ new) ∧ js'.bufsize = js.bufsize * 2 ^ j ∧ j ≤ k :=
  append0_spec stale h (by simp) (readAt_own new) hk hroom hlimit

theorem append2_spec {string : Option (List Byte)}
    (hgrows : ∀ new, string = some new → Grows heap js.bufsize (js.length + new.length + 1)) :
    ∃ js', append2 heap stale js string = .ok js' ∧ Holds heap js' (s ++ string.getD []) := by
  cases string with
  | none =>
    refine ⟨js, rfl, ?_⟩
    rw [Option.getD_none, append_nil]
    exact h
  | some new =>
    obtain ⟨k, hk, hroom, hlimit⟩ := hgrows new rfl
    obtain ⟨js', j, happend, hholds, -⟩ := append_outside_spec stale h hk hroom hlimit
    exact ⟨js', happend, hholds⟩

/-- What the heap gives for all the arguments, it gives for each of them in turn. -/
theorem concat_spec {argv : List (Option (List Byte))}
    (hgrows : (∃ string ∈ argv, string ≠ none) →
      Grows heap js.bufsize (js.length + (argv.map (·.getD [])).flatten.length + 1)) :
    ∃ js', concat heap stale js argv = .ok js' ∧
      Holds heap js' (s ++ (argv.map (·.getD [])).flatten) := by
  induction argv generalizing js s with
  | nil =>
    refine ⟨js, rfl, ?_⟩
    rw [map_nil, flatten_nil, append_nil]
    exact h
  | cons string argv ih =>
    rw [map_cons, flatten_cons] at hgrows ⊢
    cases string with
    | none =>
      have hnone : concat heap stale js (none :: argv) = concat heap stale js argv := rfl
      rw [hnone, Option.getD_none, nil_append]
      rw [Option.getD_none, nil_append] at hgrows
      apply ih h
      rintro ⟨other, hmem, hne⟩
      exact hgrows ⟨other, mem_cons_of_mem _ hmem, hne⟩
    | some new =>
      obtain ⟨k, hk, hroom, hlimit⟩ := hgrows ⟨some new, mem_cons_self, by simp⟩
      rw [Option.getD_some, length_append] at hroom
      obtain ⟨js', j, happend, hholds, hsize, hj⟩ :=
        append_outside_spec stale h hk (show js.length + new.length + 1 < _ by omega) hlimit
      have hlength := hholds.length_eq
      rw [length_append, ← h.length_eq] at hlength
      have hsplit : js.bufsize * 2 ^ j * 2 ^ (k - j) = js.bufsize * 2 ^ k := by
        rw [Nat.mul_assoc, ← Nat.pow_add, Nat.add_sub_cancel' hj]
      have hnext := ih hholds fun _ => by
        refine ⟨k - j, by omega, ?_, ?_⟩
        · rw [hsize, hsplit, hlength]
          omega
        · rw [hsize, hsplit]
          exact hlimit
      obtain ⟨js'', hrest, hholds'⟩ := hnext
      refine ⟨js'', ?_, ?_⟩
      · have hfirst : append2 heap stale js (some new) = .ok js' := happend
        rw [concat, hfirst, ok_bind, hrest]
      · rw [Option.getD_some, ← append_assoc]
        exact hholds'

/-- The pointer leads to the bytes and a NUL, without any growth. -/
theorem getString_spec :
    ∃ js' rest, getString heap stale js = .ok (js', s ++ 0 :: rest) ∧ Holds heap js' s ∧
      js'.bufsize = js.bufsize := by
  obtain ⟨rest, hstring, hsize⟩ := h.block
  have hlength := h.length_eq
  have hlt := h.length_lt
  have hwrite : writeAt (s ++ rest) s.length [0] = _ := writeAt_behind (by simp; omega)
  rw [← hlength] at hwrite
  refine ⟨{ js with string := some (s ++ ([0] ++ rest.drop 1)) }, rest.drop 1, ?_,
    ⟨⟨[0] ++ rest.drop 1, rfl, ?_⟩, hlength, hlt, h.bufsize_le⟩, rfl⟩
  · unfold getString store
    rw [if_neg (Nat.ne_of_lt hlt)]
    simp only [hstring, hwrite, ok_bind]
    rfl
  · rw [length_append, length_drop, length_singleton]
    dsimp only
    omega

end

/-! ### white space -/

theorem trimFront_spec {rest : List Byte} {st : Nat}
    (h : st + (rest.takeWhile Decimal.isSpace).length < uintMod) :
    trimFront rest st = .ok (st + (rest.takeWhile Decimal.isSpace).length) := by
  induction rest generalizing st with
  | nil => rfl
  | cons c rest ih =>
    rw [trimFront]
    by_cases hc : Decimal.isSpace c = true
    · rw [takeWhile_cons_of_pos hc, length_cons] at h ⊢
      rw [if_pos hc, if_neg (by omega), ih (by omega)]
      congr 1
      omega
    · rw [takeWhile_cons_of_neg hc, if_neg hc]
      rfl

/-- What is left between the two cursors. -/
theorem trimBack_spec {string : List Byte} {st len : Nat} (hst : st ≤ len)
    (hlen : len ≤ string.length) :
    ∃ last, trimBack string st len = .ok last ∧ st ≤ last ∧ last ≤ len ∧
      (string.take last).drop st = ((string.take len).drop st).rdropWhile Decimal.isSpace := by
  induction len with
  | zero =>
    refine ⟨0, rfl, hst, Nat.le_refl _, ?_⟩
    simp
  | succ len ih =>
    rw [trimBack]
    by_cases hlt : st < len + 1
    · have hget : string[len]? = some string[len] := getElem?_eq_getElem (by omega)
      have htake : string.take (len + 1) = string.take len ++ [string[len]] :=
        take_succ_eq_append_getElem (by omega)
      have hdrop :
          (string.take (len + 1)).drop st = (string.take len).drop st ++ [string[len]] := by
        rw [htake, drop_append_of_le_length]
        rw [length_take]
        omega
      rw [if_pos hlt, byteAt_ok hget, ok_bind]
      by_cases hc : Decimal.isSpace string[len] = true
      · obtain ⟨last, hlast, hge, hle, heq⟩ := ih (by omega) (by omega)
        refine ⟨last, by rw [if_pos hc, hlast], hge, by omega, ?_⟩
        rw [hdrop, rdropWhile_concat_pos _ _ _ hc, heq]
      · refine ⟨len + 1, by rw [if_neg hc]; rfl, hst, Nat.le_refl _, ?_⟩
        rw [hdrop, rdropWhile_concat_neg _ _ _ hc]
    · refine ⟨len + 1, by rw [if_neg hlt], hst, Nat.le_refl _, ?_⟩
      have hnil : (string.take (len + 1)).drop st = [] :=
        drop_eq_nil_of_le (by rw [length_take]; omega)
      rw [hnil]
      rfl

theorem drop_white_space (s : List Byte) :
    s.drop (s.takeWhile Decimal.isSpace).length = s.dropWhile Decimal.isSpace := by
  calc s.drop (s.takeWhile Decimal.isSpace).length
      = (s.takeWhile Decimal.isSpace ++ s.dropWhile Decimal.isSpace).drop
          (s.takeWhile Decimal.isSpace).length := by rw [takeWhile_append_dropWhile]
    _ = s.dropWhile Decimal.isSpace := drop_left

/-- What both loops leave is moved to the start of the buffer, with a NUL behind it. -/
theorem trim_spec (h : Holds heap js s) (hspace : (s.takeWhile Decimal.isSpace).length < uintMod) :
    ∃ js', trim js = .ok js' ∧ Holds heap js' (jstringTrim s) := by
  obtain ⟨rest, hstring, hsize⟩ := h.block
  have hlength := h.length_eq
  have hlt := h.length_lt
  have hfront : trimFront s 0 = _ := trimFront_spec (by omega)
  have hst : (s.takeWhile Decimal.isSpace).length ≤ s.length :=
    (List.takeWhile_prefix _).length_le
  rw [Nat.zero_add] at hfront
  have hskip := drop_white_space s
  obtain ⟨st, hst'⟩ : ∃ st, (s.takeWhile Decimal.isSpace).length = st := ⟨_, rfl⟩
  rw [hst'] at hfront hst hskip
  have hall : (s ++ rest).take js.length = s := by rw [hlength, take_left]
  have hread : readAt (s ++ rest) 0 js.length = .ok s := by
    rw [readAt_of_le (by rw [length_append]; omega), drop_zero, hall]
  have hspec : ∃ last, trimBack (s ++ rest) st js.length = .ok last ∧ _ :=
    trimBack_spec (by omega) (by rw [length_append]; omega)
  obtain ⟨last, hback, hge, hlast, hkept⟩ := hspec
  have htrim : ((s ++ rest).take last).drop st = jstringTrim s := by
    rw [hkept, hall, hskip]
    rfl
  have hlen : (jstringTrim s).length = last - st := by
    rw [← htrim, length_drop, length_take, length_append]
    omega
  have hrun : trim js = (if st > 0 ∨ last < js.length then do
      let string ← memmove (s ++ rest) 0 st (last - st)
      let string ← writeAt string (last - st) [0]
      return { js with length := last - st, string := some string }
    else return js) := by
    unfold trim
    rw [hstring]
    simp only [hread, ok_bind, hfront, hback]
  rw [hrun]
  by_cases hchanged : st > 0 ∨ last < js.length
  · have hmove : memmove (s ++ rest) 0 st (last - st) =
        .ok (jstringTrim s ++ (s ++ rest).drop (last - st)) := by
      unfold memmove
      rw [readAt_of_le (by rw [length_append]; omega), ok_bind, ← drop_take, htrim,
        writeAt_of_le (by rw [length_append]; omega), take_zero, nil_append,
        Nat.zero_add, hlen]
    have hbehind : (s ++ rest).drop (last - st) ≠ [] := by
      intro hnil
      have hshort := drop_eq_nil_iff.mp hnil
      rw [length_append] at hshort
      omega
    have hwrite : writeAt (jstringTrim s ++ (s ++ rest).drop (last - st)) (jstringTrim s).length [0]
        = _ := writeAt_behind (length_pos_iff.mpr hbehind)
    rw [hlen] at hwrite
    rw [if_pos hchanged, hmove, ok_bind, hwrite, ok_bind]
    refine ⟨_, rfl, ⟨[0] ++ ((s ++ rest).drop (last - st)).drop 1, rfl, ?_⟩, hlen.symm, ?_,
      h.bufsize_le⟩
    · rw [length_append, length_drop, length_drop, length_append,
        length_singleton]
      dsimp only
      omega
    · dsimp only
      omega
  · have hsame : jstringTrim s = s := by
      obtain ⟨rfl, rfl⟩ : st = 0 ∧ last = js.length := by omega
      rw [← htrim, hall, drop_zero]
    rw [if_neg hchanged, hsame]
    exact ⟨js, rfl, h⟩

/-! ### new strings -/

theorem reset_spec (h : Holds heap js s) (hheap : defaultBufsize ≤ heap.limit) (buf : Bool) :
    ∃ js' handed, reset heap stale js buf = .ok (js', handed) ∧ Holds heap js' [] ∧
      handed.map (·.take (js.length + 1)) = if buf then some (s ++ [0]) else none := by
  have hnew : Holds heap ⟨0, defaultBufsize, newCharBuf heap defaultBufsize⟩ [] :=
    holds_new1 (n := 0) (by decide) hheap
  cases buf with
  | true =>
    obtain ⟨js', rest, hget, -⟩ := getString_spec stale h
    refine ⟨_, some (s ++ 0 :: rest), ?_, hnew, ?_⟩
    · unfold reset
      simp only [hget, ok_bind]
      rfl
    · have htake : (s ++ 0 :: rest).take (js.length + 1) = s ++ [0] := by
        rw [h.length_eq, take_length_add_append]
        rfl
      rw [Option.map_some, htake]
      rfl
  | false =>
    obtain ⟨rest, hstring, hsize⟩ := h.block
    obtain ⟨shredded, hset⟩ := exists_memset (s ++ rest) 0 js.bufsize 0xdd
      (by rw [length_append]; omega)
    refine ⟨_, none, ?_, hnew, rfl⟩
    unfold reset deleteCharBuf
    simp only [hstring, hset, ok_bind]
    rfl

theorem new2_spec {bytes : List Byte} (h : Grows heap (newSize bytes.length) (bytes.length + 1)) :
    ∃ js', new2 heap stale (some bytes) = .ok (some js') ∧ Holds heap js' bytes := by
  obtain ⟨k, hk, hroom, hlimit⟩ := h
  have hpos : 0 < newSize bytes.length := Nat.pos_of_lt_mul_right hroom
  have hle : newSize bytes.length * 1 ≤ newSize bytes.length * 2 ^ k :=
    Nat.mul_le_mul_left _ Nat.one_le_two_pow
  have hnew : Holds heap (new1 heap bytes.length) [] := holds_new1 hpos (by omega)
  have hroom' : (new1 heap bytes.length).length + bytes.length + 1 <
      (new1 heap bytes.length).bufsize * 2 ^ k := by
    rw [show (new1 heap bytes.length).length = 0 from rfl, Nat.zero_add]
    exact hroom
  obtain ⟨js', j, happend, hholds, -⟩ := append_outside_spec stale hnew hk hroom' hlimit
  refine ⟨js', ?_, hholds⟩
  unfold new2
  simp only [happend, ok_bind]
  rfl

theorem newSize_pos {n : Nat} (hpos : 0 < n) (hlt : n + 1 < sizeMod) : newSize n = n + 1 := by
  unfold newSize
  rw [if_neg (by omega), Nat.mod_eq_of_lt hlt]

theorem new3_spec {bytes : Bytevector} (hbytes : bytes.WellFormed heap) (hpos : 0 < bytes.size)
    (hlimit : newSize bytes.size ≤ heap.limit) :
    ∃ js', new3 heap (some bytes) = .ok (some js') ∧ Holds heap js' bytes.bytes := by
  have hsize := newSize_pos hpos (by have := hbytes.size_lt; have := sizeMod_eq; omega)
  have hlength := Bytevector.length_bytes hbytes.size_le
  have hget : bytes.getBytesAt 0 bytes.size = .ok (.success, bytes.bytes) := by
    unfold Bytevector.getBytesAt Bytevector.getBytesAt1
    rw [if_neg (by omega)]
    dsimp only
    rw [if_neg (by omega), Nat.sub_zero, readAt_of_le (by rw [Nat.zero_add]; exact hbytes.size_le)]
    rfl
  have hwrite : writeAt ([] ++ List.replicate (newSize bytes.size) 0) ([] : List Byte).length
      bytes.bytes = _ := writeAt_behind (by rw [length_replicate]; omega)
  rw [nil_append, length_nil, nil_append] at hwrite
  have hstring : (new1 heap bytes.size).string = some (List.replicate (newSize bytes.size) 0) :=
    if_pos hlimit
  refine ⟨{ new1 heap bytes.size with
    length := bytes.size
    string := some (bytes.bytes ++ (List.replicate (newSize bytes.size) 0).drop
      bytes.bytes.length) }, ?_, ⟨_, rfl, ?_⟩, hlength.symm, ?_, hlimit⟩
  · unfold new3 store
    simp only [hget, ok_bind, hstring, hwrite]
    rfl
  · rw [length_drop, length_replicate]
    show _ = newSize bytes.size
    omega
  · show bytes.size < newSize bytes.size
    omega

/-- The clone is made of what stands in front of the first NUL. -/
theorem clone_spec (h : Holds heap js s) (hnul : 0 ∉ s)
    (hgrows : Grows heap (newSize js.bufsize) (js.length + 1)) :
    ∃ orig new, clone heap stale js = .ok (orig, new) ∧ Holds heap orig s ∧ Holds heap new s := by
  obtain ⟨k, hk, hroom, hlimit⟩ := hgrows
  have hpos : 0 < newSize js.bufsize := Nat.pos_of_lt_mul_right hroom
  have hle : newSize js.bufsize * 1 ≤ newSize js.bufsize * 2 ^ k :=
    Nat.mul_le_mul_left _ Nat.one_le_two_pow
  have hnew : Holds heap (new1 heap js.bufsize) [] := holds_new1 hpos (by omega)
  have hroom' : (new1 heap js.bufsize).length + s.length + 1 <
      (new1 heap js.bufsize).bufsize * 2 ^ k := by
    rw [show (new1 heap js.bufsize).length = 0 from rfl, Nat.zero_add, ← h.length_eq]
    exact hroom
  obtain ⟨orig, rest, hget, horig, -⟩ := getString_spec stale h
  obtain ⟨new, j, happend, hholds, -⟩ := append_outside_spec stale hnew hk hroom' hlimit
  have happend : append2 heap stale (new1 heap js.bufsize) (some s) = .ok new := happend
  refine ⟨orig, new, ?_, horig, hholds⟩
  unfold clone
  simp only [hget, ok_bind, stringIn_append hnul, happend]
  rfl

end OneString

/-! ## the store -/

/-- The strings are those of the byte lists, at the same places. -/
structure Matches (heap : Heap) (strings : List JString) (lists : List (List Byte)) : Prop where
  length_eq : strings.length = lists.length
  holds : ∀ js x, strings[js]? = some x → Holds heap x (listAt lists js)

section Store
variable {heap : Heap} (stale : Byte) {strings : List JString} {lists : List (List Byte)}
variable {js : Nat} {x : JString} {s : List Byte}

theorem On.exists {P : JString → Prop} (h : On strings js P) :
    ∃ x, strings[js]? = some x ∧ P x := by
  unfold On at h
  cases hx : strings[js]? with
  | none =>
    rw [hx] at h
    exact h.elim
  | some x =>
    rw [hx] at h
    exact ⟨x, rfl, h⟩

theorem find_eq (h : strings[js]? = some x) : find strings js = .ok x := by
  unfold find
  rw [h]

section
variable (h : Matches heap strings lists)
include h

theorem Matches.set (hx : Holds heap x s) (js : Nat) :
    Matches heap (strings.set js x) (lists.set js s) where
  length_eq := by rw [length_set, length_set, h.length_eq]
  holds := by
    intro other y hy
    unfold listAt
    rw [getElem?_set] at hy ⊢
    by_cases hother : js = other
    · subst hother
      rw [if_pos rfl] at hy ⊢
      by_cases hlt : js < strings.length
      · rw [if_pos hlt] at hy
        rw [if_pos (h.length_eq ▸ hlt), ← Option.some.inj hy]
        exact hx
      · rw [if_neg hlt] at hy
        cases hy
    · rw [if_neg hother] at hy ⊢
      exact h.holds other y hy

/-- A string that still holds the same bytes. -/
theorem Matches.keep (hx : Holds heap x (listAt lists js)) :
    Matches heap (strings.set js x) lists := by
  have hset := h.set hx js
  unfold listAt at hset
  by_cases hlt : js < lists.length
  · rw [getElem?_eq_getElem hlt, Option.getD_some, set_getElem_self] at hset
    exact hset
  · have hlists : lists.set js (lists[js]?.getD []) = lists := set_eq_of_length_le (by omega)
    rw [hlists] at hset
    exact hset

theorem Matches.add (hx : Holds heap x s) :
    Matches heap (strings ++ [x]) (lists ++ [s]) where
  length_eq := by rw [length_append, length_append, h.length_eq]; rfl
  holds := by
    intro other y hy
    unfold listAt
    rcases Nat.lt_trichotomy other strings.length with hlt | heq | hgt
    · rw [getElem?_append_left hlt] at hy
      rw [getElem?_append_left (h.length_eq ▸ hlt)]
      exact h.holds other y hy
    · subst heq
      rw [getElem?_concat_length] at hy
      rw [h.length_eq, getElem?_concat_length, ← Option.some.inj hy]
      exact hx
    · rw [getElem?_eq_none (by rw [length_append, length_singleton]; omega)] at hy
      cases hy

/-- A string that changes as its byte list does. -/
theorem change_follows {f : JString → Exec JString} (hx : strings[js]? = some x)
    (hf : ∃ x', f x = .ok x' ∧ Holds heap x' s) :
    ∃ strings', change strings js f = .ok (strings', .done) ∧
      Matches heap strings' (lists.set js s) := by
  obtain ⟨x', hf, hx'⟩ := hf
  refine ⟨strings.set js x', ?_, h.set hx' js⟩
  unfold change
  rw [find_eq hx, ok_bind, hf]
  rfl

theorem Matches.add_none : Matches heap (strings ++ []) (lists ++ []) := by
  rw [append_nil, append_nil]
  exact h

end

theorem append1_spec {new : JString} {t : List Byte} (h : Holds heap x s) (hnew : Holds heap new t)
    (hgrows : Grows heap x.bufsize (x.length + new.length + 1)) :
    ∃ x', append1 heap stale x (some new) = .ok x' ∧ Holds heap x' (s ++ t) := by
  obtain ⟨rest, hstring, hsize⟩ := hnew.block
  obtain ⟨k, hk, hroom, hlimit⟩ := hgrows
  rw [hnew.length_eq] at hroom
  have hload : (Chars.outside (t ++ rest)).load t.length = .ok t := by
    have hread : readAt (t ++ rest) 0 t.length = .ok t := by
      rw [readAt_of_le (by rw [length_append]; omega), drop_zero, take_left]
    exact hread
  obtain ⟨x', j, happend, hholds, -⟩ :=
    append0_spec stale h (by simp) hload hk hroom hlimit
  refine ⟨x', ?_, hholds⟩
  unfold append1
  simp only [hstring, hnew.length_eq, happend]

/-- Only an empty string can be appended to itself. -/
theorem append1_self_spec (h : Holds heap x s) (hnil : x.length = 0)
    (hgrows : Grows heap x.bufsize (x.length + x.length + 1)) :
    ∃ x', append1 heap stale x none = .ok x' ∧ Holds heap x' (s ++ s) := by
  obtain ⟨rest, hstring, hsize⟩ := h.block
  obtain ⟨k, hk, hroom, hlimit⟩ := hgrows
  have hs : s = [] := length_eq_zero_iff.mp (h.length_eq.symm.trans hnil)
  subst hs
  rw [hnil] at hroom
  have hload : Chars.own.load ([] : List Byte).length = .ok [] := rfl
  obtain ⟨x', j, happend, hholds, -⟩ :=
    append0_spec stale h (by simp) hload hk (by rw [hnil]; exact hroom) hlimit
  refine ⟨x', ?_, hholds⟩
  unfold append1
  simp only [hstring, hnil]
  exact happend

theorem step_follows (h : Matches heap strings lists) (op : Op) (hsafe : Safe heap strings op) :
    ∃ strings', step heap stale strings op = .ok (strings', (listStep lists op).2) ∧
      Matches heap strings' (listStep lists op).1 := by
  cases op with
  | new1 bufsize => exact ⟨_, rfl, h.add (holds_new1 hsafe.1 hsafe.2)⟩
  | new2 string =>
    cases string with
    | none => exact ⟨_, rfl, h.add_none⟩
    | some string =>
      obtain ⟨x, hnew, hholds⟩ := new2_spec stale hsafe
      refine ⟨strings ++ [x], ?_, h.add hholds⟩
      have hstep : step heap stale strings (.new2 (some string)) =
          (do return add strings (← JString.new2 heap stale (some string.bytes))) := rfl
      rw [hstep, hnew]
      rfl
  | new3 bytes =>
    cases bytes with
    | none => exact ⟨_, rfl, h.add_none⟩
    | some bytes =>
      obtain ⟨x, hnew, hholds⟩ := new3_spec hsafe.1 hsafe.2.1 hsafe.2.2
      refine ⟨strings ++ [x], ?_, h.add hholds⟩
      have hstep : step heap stale strings (.new3 (some bytes)) =
          (do return add strings (← JString.new3 heap (some bytes))) := rfl
      rw [hstep, hnew]
      rfl
  | clone origstring =>
    obtain ⟨x, hx, hnul, hgrows⟩ := hsafe.exists
    have hholds := h.holds origstring x hx
    rw [hholds.bytes_eq] at hnul
    obtain ⟨orig, new, hclone, horig, hnew⟩ := clone_spec stale hholds hnul hgrows
    refine ⟨strings.set origstring orig ++ [new], ?_, (h.keep horig).add hnew⟩
    unfold step
    simp only [find_eq hx, ok_bind, hclone]
    rfl
  | append0 js newstring =>
    cases newstring with
    | none =>
      obtain ⟨x, hx, -⟩ := hsafe.exists
      refine change_follows h hx ⟨x, rfl, ?_⟩
      rw [Option.getD_none, append_nil]
      exact h.holds js x hx
    | some bytes =>
      obtain ⟨x, hx, k, hk, hroom, hlimit⟩ := hsafe.exists
      obtain ⟨x', j, happend, hholds, -⟩ :=
        append_outside_spec stale (h.holds js x hx) hk hroom hlimit
      exact change_follows h hx ⟨x', happend, hholds⟩
  | append1 jsorig jsnew =>
    obtain ⟨new, hnew, hon⟩ := hsafe.exists
    obtain ⟨x, hx, hself, hgrows⟩ := hon.exists
    have hstep : step heap stale strings (.append1 jsorig jsnew) = change strings jsorig
        fun js => JString.append1 heap stale js (if jsorig = jsnew then none else some new) := by
      rw [step, find_eq hnew, ok_bind]
    rw [hstep]
    refine change_follows h hx ?_
    by_cases hsame : jsorig = jsnew
    · subst hsame
      obtain rfl := Option.some.inj (hx.symm.trans hnew)
      rw [if_pos rfl]
      exact append1_self_spec stale (h.holds jsorig x hx) (hself rfl) hgrows
    · rw [if_neg hsame]
      exact append1_spec stale (h.holds jsorig x hx) (h.holds jsnew new hnew) hgrows
  | append2 js string =>
    cases string with
    | none =>
      obtain ⟨x, hx, -⟩ := hsafe.exists
      exact change_follows h hx (append2_spec stale (h.holds js x hx) (by simp))
    | some string =>
      obtain ⟨x, hx, hgrows⟩ := hsafe.exists
      refine change_follows h hx (append2_spec stale (h.holds js x hx) ?_)
      intro new hsome
      cases hsome
      exact hgrows
  | concat js argv =>
    obtain ⟨x, hx, hgrows⟩ := hsafe.exists
    have hlists : argv.map (fun s => (s.map (·.bytes)).getD []) =
        (argv.map (·.map (·.bytes))).map (·.getD []) := by
      rw [map_map]
      rfl
    have hgrows' : (∃ string ∈ argv.map (·.map (·.bytes)), string ≠ none) → Grows heap x.bufsize
        (x.length + ((argv.map (·.map (·.bytes))).map (·.getD [])).flatten.length + 1) := by
      rintro ⟨string, hmem, hne⟩
      rw [← hlists]
      apply hgrows
      obtain ⟨s, hs, rfl⟩ := mem_map.mp hmem
      refine ⟨s, hs, ?_⟩
      rintro rfl
      exact hne rfl
    have hf := concat_spec stale (h.holds js x hx) hgrows'
    rw [← hlists] at hf
    exact change_follows h hx hf
  | trim js =>
    obtain ⟨x, hx, hspace⟩ := hsafe.exists
    have hholds := h.holds js x hx
    rw [hholds.bytes_eq] at hspace
    exact change_follows h hx (trim_spec hholds hspace)
  | reset js buf =>
    obtain ⟨hon, hheap⟩ := hsafe
    obtain ⟨x, hx, -⟩ := hon.exists
    obtain ⟨x', handed, hreset, hnew, hhanded⟩ :=
      reset_spec stale (h.holds js x hx) hheap buf
    refine ⟨strings.set js x', ?_, h.set hnew js⟩
    unfold step
    simp only [find_eq hx, ok_bind, hreset]
    cases buf with
    | true =>
      obtain ⟨string, rfl, htake⟩ := Option.map_eq_some_iff.mp hhanded
      dsimp only
      rw [htake]
      rfl
    | false =>
      obtain rfl := Option.map_eq_none_iff.mp hhanded
      rfl
  | getString js =>
    obtain ⟨x, hx, -⟩ := hsafe.exists
    have hholds := h.holds js x hx
    obtain ⟨x', rest, hget, hx', -⟩ := getString_spec stale hholds
    refine ⟨strings.set js x', ?_, h.keep hx'⟩
    have htake : (listAt lists js ++ 0 :: rest).take (x'.length + 1) = listAt lists js ++ [0] := by
      rw [hx'.length_eq, take_length_add_append]
      rfl
    unfold step
    simp only [find_eq hx, ok_bind, hget, htake]
    rfl
  | length js =>
    obtain ⟨x, hx, -⟩ := hsafe.exists
    refine ⟨strings, ?_, h⟩
    rw [step, find_eq hx, ok_bind, (h.holds js x hx).length_eq]
    rfl

end Store

/-! ## runs -/

/-- In every state of a run whose operations meet the condition the strings are those of the byte
    lists, each with room for a NUL in its buffer, and every call returns what it does on byte
    lists. -/
theorem jstrings_run_refine (heap : Heap) (stale : Byte) (ops : List Op)
    (hsafe : SafeRun (step heap stale) (Safe heap) [] ops) :
    Follows (step heap stale) listStep (Matches heap) [] [] ops := by
  have hnone : Matches heap [] [] := ⟨rfl, fun js x hx => absurd hx (by simp)⟩
  have hstep : ∀ strings lists op, Matches heap strings lists → Safe heap strings op → _ :=
    fun strings lists op h hop => step_follows stale h op hop
  exact follows_of_safeRun hstep ops hnone hsafe

/-- A heap that gives a megabyte at a time. -/
def smallHeap : Heap := ⟨2 ^ 20, by decide⟩

/-- A blank is trimmed off. -/
theorem jstrings_run_refine_trim : Follows (step smallHeap 0xdd) listStep (Matches smallHeap) [] []
    [.new1 3, .append0 0 (some [32, 65]), .trim 0, .getString 0] :=
  jstrings_run_refine smallHeap 0xdd _
    ⟨⟨by decide, by decide⟩, ⟨0, by decide, by decide, by decide⟩,
      (by decide : ([32] : List Byte).length < uintMod), trivial, trivial⟩

/-- A string with a NUL inside is not what its clone is. -/
theorem not_jstrings_run_refine :
    ¬ ∀ ops, Follows (step smallHeap 0) listStep (Matches smallHeap) [] [] ops := by
  intro hall
  have hfollows := hall [.new1 5, .append0 0 (some [65, 0, 66]), .clone 0, .length 1]
  obtain ⟨strings, hrun, -⟩ := hfollows.runOps
  have hreal : (runOps (step smallHeap 0) []
      [.new1 5, .append0 0 (some [65, 0, 66]), .clone 0, .length 1]).map (·.2) =
      .ok [.object true, .done, .object true, .size 1] := rfl
  rw [hrun] at hreal
  have hspec : (runSpec listStep [] [.new1 5, .append0 0 (some [65, 0, 66]), .clone 0,
      .length 1]).2 = [.object true, .done, .object true, .size 1] := Except.ok.inj hreal
  cases hspec

end JxtaC.JString
