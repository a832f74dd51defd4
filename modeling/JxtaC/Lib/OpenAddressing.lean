import JxtaC.Lib.Exec
import Mathlib.Data.Nat.ModEq
import Mathlib.Data.Nat.Prime.Basic
import Mathlib.Data.Fintype.EquivFin

/-
  Open addressing with odd increments over a table whose size is a power of two.
  `path` is the probing path of a hash: it meets every slot once (`path_injective`,
  `path_surjective`). `walk` follows it to a key or to a blank slot, remembering the first
  reusable slot. `Sound` is the invariant that makes such a table a map: every entry is reached
  before any blank slot of its path, and no key has two entries. Nothing here depends on the
  modelled code.
-/

namespace JxtaC.Lib.OpenAddressing

open List

/-! ## probing paths -/

/-- The first slot a hash is looked for at. -/
def start (modmask hashk : Nat) : Nat := hashk &&& modmask

/-- The distance between two probes: odd, and a function of the first slot. -/
def increment (modmask hashk : Nat) : Nat :=
  let slot := start modmask hashk
  if slot &&& 1 ≠ 0 then slot else slot + 1

/-- The slot after `curslot` on the path of a hash. -/
def next (modmask hashk curslot : Nat) : Nat := (curslot + increment modmask hashk) &&& modmask

/-- The slot met at the `j`-th probe. -/
def path (modmask hashk j : Nat) : Nat :=
  (start modmask hashk + j * increment modmask hashk) &&& modmask

section Path
variable {modmask k : Nat}

theorem and_modmask (hk : modmask + 1 = 2 ^ k) (x : Nat) : x &&& modmask = x % (modmask + 1) := by
  rw [hk, ← Nat.and_two_pow_sub_one_eq_mod, ← hk, Nat.add_sub_cancel]

theorem increment_odd (modmask hashk : Nat) : increment modmask hashk % 2 = 1 := by
  unfold increment
  simp only [Nat.and_one_is_mod]
  split <;> omega

section
variable (hk : modmask + 1 = 2 ^ k)
include hk

theorem path_zero (hashk : Nat) : path modmask hashk 0 = start modmask hashk := by
  unfold path start
  rw [Nat.zero_mul, Nat.add_zero, and_modmask hk, and_modmask hk, Nat.mod_mod]

theorem path_succ (hashk j : Nat) :
    path modmask hashk (j + 1) = next modmask hashk (path modmask hashk j) := by
  unfold next path
  rw [and_modmask hk, and_modmask hk, and_modmask hk, Nat.mod_add_mod, Nat.succ_mul, Nat.add_assoc]

theorem path_lt (hashk j : Nat) : path modmask hashk j < modmask + 1 := by
  unfold path
  rw [and_modmask hk]
  exact Nat.mod_lt _ (Nat.succ_pos _)

/-- An odd increment is prime to the table size: a path does not meet a slot twice. -/
theorem path_injective {hashk i j : Nat} (hi : i < modmask + 1) (hj : j < modmask + 1)
    (h : path modmask hashk i = path modmask hashk j) : i = j := by
  unfold path at h
  rw [and_modmask hk, and_modmask hk] at h
  have hadd : i * increment modmask hashk ≡ j * increment modmask hashk [MOD modmask + 1] :=
    Nat.ModEq.add_left_cancel' _ h
  have hcop : Nat.gcd (modmask + 1) (increment modmask hashk) = 1 := by
    rw [hk]
    exact Nat.Coprime.pow_left _ (Nat.coprime_two_left.mpr
      (Nat.odd_iff.mpr (increment_odd modmask hashk)))
  exact (hadd.cancel_right_of_coprime hcop).eq_of_lt_of_lt hi hj

/-- A path meets every slot. -/
theorem path_surjective (hashk : Nat) {i : Nat} (hi : i < modmask + 1) :
    ∃ j < modmask + 1, path modmask hashk j = i := by
  let f : Fin (modmask + 1) → Fin (modmask + 1) := fun j =>
    ⟨path modmask hashk j.val, path_lt hk hashk j.val⟩
  have hinj : Function.Injective f := fun a b hab =>
    Fin.ext (path_injective hk a.isLt b.isLt (congrArg Fin.val hab))
  obtain ⟨j, hj⟩ := Finite.injective_iff_surjective.mp hinj ⟨i, hi⟩
  exact ⟨j.val, j.isLt, congrArg Fin.val hj⟩

/-- A path is back at its first slot after a full turn and not before. -/
theorem path_eq_start {hashk j : Nat} (hj : j ≤ modmask + 1) (hpos : 0 < j) :
    path modmask hashk j = start modmask hashk ↔ j = modmask + 1 := by
  rw [← path_zero hk]
  constructor
  · intro h
    by_contra hne
    have := path_injective hk (show j < modmask + 1 by omega) (Nat.succ_pos modmask) h
    omega
  · rintro rfl
    unfold path
    rw [and_modmask hk, and_modmask hk]
    simp only [Nat.zero_mul, Nat.add_zero, Nat.add_mul_mod_self_left]

end

end Path

/-! ## walking a path -/

/-- A slot: never used, used before, or holding an entry. -/
inductive Slot (κ ν : Type) where
  | blank
  | reusable
  | live (hashk : Nat) (key : κ) (value : ν)
  deriving Repr, DecidableEq

/-- Where a walk ends: at the key, at a blank slot, or back at its first slot; with the first
    reusable slot it passed. -/
inductive Probe where
  | found (slot : Nat) (reuse : Option Nat)
  | vacant (slot : Nat) (reuse : Option Nat)
  | exhausted
  deriving Repr, DecidableEq

variable {κ ν : Type}

/-- Follows the path of `hashk` from `curslot` on; `hit` recognises the entry looked for. -/
def walk (slots : List (Slot κ ν)) (modmask hashk : Nat) (hit : Nat → κ → Bool) :
    (fuel curslot : Nat) → Option Nat → Exec Probe
  | 0, _, _ => .error .neverReturns
  | fuel + 1, curslot, reuse =>
    let go (reuse : Option Nat) : Exec Probe :=
      if next modmask hashk curslot = start modmask hashk then .ok .exhausted
      else walk slots modmask hashk hit fuel (next modmask hashk curslot) reuse
    match slots[curslot]? with
    | none => .error .outOfBounds
    | some .blank => .ok (.vacant curslot reuse)
    | some .reusable => go (reuse <|> some curslot)
    | some (.live h key _) => if hit h key then .ok (.found curslot reuse) else go reuse

section Walk
variable {slots : List (Slot κ ν)} {modmask k : Nat} {hit : Nat → κ → Bool} {hashk : Nat}

/-- The slot neither ends the walk nor holds the entry looked for. -/
def Passed (slots : List (Slot κ ν)) (hit : Nat → κ → Bool) (i : Nat) : Prop :=
  slots[i]? ≠ some .blank ∧ ∀ h key v, slots[i]? = some (.live h key v) → hit h key = false

/-- The first reusable slot among the first `j` of the path. -/
def Reuse (slots : List (Slot κ ν)) (modmask hashk j : Nat) : Option Nat → Prop
  | none => ∀ i < j, slots[path modmask hashk i]? ≠ some .reusable
  | some r => ∃ i < j, r = path modmask hashk i ∧ slots[r]? = some .reusable

/-- What the end of a walk says about the table. -/
inductive Walked (slots : List (Slot κ ν)) (modmask hashk : Nat) (hit : Nat → κ → Bool) :
    Probe → Prop where
  | found {j h : Nat} {key : κ} {v : ν} {reuse : Option Nat} (hj : j < modmask + 1)
      (hslot : slots[path modmask hashk j]? = some (.live h key v)) (hhit : hit h key = true)
      (hpassed : ∀ i < j, Passed slots hit (path modmask hashk i))
      (hreuse : Reuse slots modmask hashk j reuse) :
      Walked slots modmask hashk hit (.found (path modmask hashk j) reuse)
  | vacant {j : Nat} {reuse : Option Nat} (hj : j < modmask + 1)
      (hslot : slots[path modmask hashk j]? = some .blank)
      (hpassed : ∀ i < j, Passed slots hit (path modmask hashk i))
      (hreuse : Reuse slots modmask hashk j reuse) :
      Walked slots modmask hashk hit (.vacant (path modmask hashk j) reuse)
  | exhausted (hpassed : ∀ i < modmask + 1, Passed slots hit (path modmask hashk i)) :
      Walked slots modmask hashk hit .exhausted

theorem walk_spec (hk : modmask + 1 = 2 ^ k) (hlen : slots.length = modmask + 1) (fuel j : Nat)
    (reuse : Option Nat) (hfuel : j + fuel = modmask + 1) (hpos : 0 < fuel)
    (hpassed : ∀ i < j, Passed slots hit (path modmask hashk i))
    (hreuse : Reuse slots modmask hashk j reuse) :
    ∃ p, walk slots modmask hashk hit fuel (path modmask hashk j) reuse = .ok p ∧
      Walked slots modmask hashk hit p := by
  induction fuel generalizing j reuse with
  | zero => omega
  | succ fuel ih =>
    have hlt := path_lt hk hashk j
    obtain ⟨slot, hslot⟩ : ∃ slot, slots[path modmask hashk j]? = some slot :=
      ⟨_, getElem?_eq_getElem (by omega)⟩
    -- going on to the next slot, once this one is passed
    have hgo : ∀ reuse', Passed slots hit (path modmask hashk j) →
        Reuse slots modmask hashk (j + 1) reuse' →
        ∃ p, (if next modmask hashk (path modmask hashk j) = start modmask hashk then
            .ok .exhausted
          else walk slots modmask hashk hit fuel (next modmask hashk (path modmask hashk j))
            reuse') = .ok p ∧ Walked slots modmask hashk hit p := by
      intro reuse' hthis hre
      have hall : ∀ i < j + 1, Passed slots hit (path modmask hashk i) := by
        intro i hi
        rcases Nat.lt_succ_iff_lt_or_eq.mp hi with hi | rfl
        · exact hpassed i hi
        · exact hthis
      have hend := @path_eq_start modmask k hk hashk (j + 1) (show j + 1 ≤ modmask + 1 by omega)
        (Nat.succ_pos j)
      rw [← path_succ hk]
      by_cases hturn : j + 1 = modmask + 1
      · rw [if_pos (hend.mpr hturn)]
        exact ⟨_, rfl, .exhausted (hturn ▸ hall)⟩
      · rw [if_neg (fun h => hturn (hend.mp h))]
        exact ih (j + 1) reuse' (by omega) (by omega) hall hre
    unfold walk
    simp only [hslot]
    cases slot with
    | blank => exact ⟨_, rfl, .vacant (by omega) hslot hpassed hreuse⟩
    | reusable =>
      refine hgo _ ⟨by rw [hslot]; simp, fun h key v hl => by rw [hslot] at hl; cases hl⟩ ?_
      cases reuse with
      | none => exact ⟨j, Nat.lt_succ_self j, rfl, hslot⟩
      | some r =>
        obtain ⟨i, hi, hr⟩ := hreuse
        exact ⟨i, Nat.lt_succ_of_lt hi, hr⟩
    | live h key v =>
      dsimp only
      by_cases hh : hit h key = true
      · rw [if_pos hh]
        exact ⟨_, rfl, .found (by omega) hslot hh hpassed hreuse⟩
      · rw [if_neg hh]
        refine hgo _ ⟨by rw [hslot]; simp, fun h' key' v' hl => ?_⟩ ?_
        · rw [hslot] at hl
          cases hl
          exact Bool.eq_false_iff.mpr hh
        · cases reuse with
          | none =>
            intro i hi
            rcases Nat.lt_succ_iff_lt_or_eq.mp hi with hi | rfl
            · exact hreuse i hi
            · rw [hslot]; simp
          | some r =>
            obtain ⟨i, hi, hr⟩ := hreuse
            exact ⟨i, Nat.lt_succ_of_lt hi, hr⟩

end Walk

/-! ## tables as maps -/

/-- Keys with a hash and an equality that agree. -/
structure Hashing (κ : Type) where
  hash : κ → Nat
  same : κ → κ → Bool
  refl : ∀ a, same a a = true
  symm : ∀ a b, same a b = true → same b a = true
  trans : ∀ a b c, same a b = true → same b c = true → same a c = true
  hash_eq : ∀ a b, same a b = true → hash a = hash b

def Slot.used : Slot κ ν → Bool
  | .blank => false
  | _ => true

def Slot.isLive : Slot κ ν → Bool
  | .live .. => true
  | _ => false

section Sound
variable (H : Hashing κ)
variable {v : ν} {i h : Nat} {key' : κ} {j : Nat} {s : Slot κ ν}

/-- Slot `i` lies on the path of the key, with no blank slot before it. -/
def Placeable (slots : List (Slot κ ν)) (modmask : Nat) (key : κ) (i : Nat) : Prop :=
  ∃ j < modmask + 1, path modmask (H.hash key) j = i ∧
    ∀ l < j, slots[path modmask (H.hash key) l]? ≠ some .blank

/-- The invariant of the slots. -/
structure Sound (slots : List (Slot κ ν)) (modmask : Nat) : Prop where
  hash_eq : ∀ {i h : Nat} {key : κ} {v : ν}, slots[i]? = some (.live h key v) → h = H.hash key
  placed : ∀ {i h : Nat} {key : κ} {v : ν}, slots[i]? = some (.live h key v) →
    Placeable H slots modmask key i
  unique : ∀ {i h j h' : Nat} {key key' : κ} {v v' : ν}, slots[i]? = some (.live h key v) →
    slots[j]? = some (.live h' key' v') → H.same key key' = true → i = j

/-- Some entry has this key and value. -/
def Has (slots : List (Slot κ ν)) (key : κ) (v : ν) : Prop :=
  ∃ (i h : Nat) (key' : κ), slots[i]? = some (.live h key' v) ∧ H.same key' key = true

/-- What recognises the entry of a key on its path. -/
def hitOf (key : κ) (h : Nat) (key' : κ) : Bool := h == H.hash key && H.same key' key

variable {H} {slots : List (Slot κ ν)} {modmask k : Nat} {key : κ}

theorem sound_blank (n modmask : Nat) :
    Sound H (List.replicate n (.blank : Slot κ ν)) modmask := by
  have hno : ∀ {i h : Nat} {key : κ} {v : ν},
      (List.replicate n (.blank : Slot κ ν))[i]? ≠ some (.live h key v) := by
    intro i h key v hl
    rw [getElem?_replicate] at hl
    split at hl <;> cases hl
  exact ⟨fun h => absurd h hno, fun h => absurd h hno, fun h => absurd h hno⟩

theorem not_has_blank (n : Nat) (key : κ) (v : ν) :
    ¬Has H (List.replicate n (.blank : Slot κ ν)) key v := by
  rintro ⟨i, h, key', hl, -⟩
  rw [getElem?_replicate] at hl
  split at hl <;> cases hl

section
variable (hs : Sound H slots modmask)
include hs

theorem Sound.has_unique {v' : ν} (h : Has H slots key v) (h' : Has H slots key v') : v = v' := by
  obtain ⟨i, g, a, hi, ha⟩ := h
  obtain ⟨j, g', b, hj, hb⟩ := h'
  obtain rfl := hs.unique hi hj (H.trans _ _ _ ha (H.symm _ _ hb))
  rw [hi] at hj
  cases hj
  rfl

theorem Sound.hitOf_eq (hi : slots[i]? = some (.live h key' v)) :
    hitOf H key h key' = H.same key' key := by
  unfold hitOf
  rw [hs.hash_eq hi]
  cases hsame : H.same key' key with
  | false => rw [Bool.and_false]
  | true => rw [H.hash_eq _ _ hsame, beq_self_eq_true, Bool.and_true]

/-- Before the end of its walk, a key is not in the table. -/
theorem Sound.not_has_of_passed (n : Nat)
    (hpassed : ∀ j < n, Passed slots (hitOf H key) (path modmask (H.hash key) j))
    (hend : n = modmask + 1 ∨ slots[path modmask (H.hash key) n]? = some .blank) (v : ν) :
    ¬Has H slots key v := by
  rintro ⟨i, h, key', hi, hsame⟩
  obtain ⟨j, hj, hpath, hbefore⟩ := hs.placed hi
  rw [H.hash_eq _ _ hsame] at hpath hbefore
  -- the entry lies before the blank slot, so the walk met it
  have hjn : j < n := by
    rcases hend with rfl | hblank
    · exact hj
    · rcases Nat.lt_trichotomy j n with h₁ | rfl | h₁
      · exact h₁
      · rw [hpath, hi] at hblank
        cases hblank
      · exact absurd hblank (hbefore n h₁)
  have hmiss := (hpassed j hjn).2 h key' v (by rw [hpath]; exact hi)
  rw [hs.hitOf_eq hi, hsame] at hmiss
  cases hmiss

end

/-- Writing a slot that is not blank makes no slot blank. -/
theorem blank_of_set (hs : s ≠ .blank) (h : (slots.set i s)[j]? = some .blank) :
    slots[j]? = some .blank := by
  rw [getElem?_set] at h
  split at h
  · split at h
    · exact absurd (Option.some.inj h) hs
    · cases h
  · exact h

theorem Placeable.set (hs : s ≠ .blank) (h : Placeable H slots modmask key j) :
    Placeable H (slots.set i s) modmask key j := by
  obtain ⟨l, hl, hpath, hbefore⟩ := h
  exact ⟨l, hl, hpath, fun m hm hb => hbefore m hm (blank_of_set hs hb)⟩

/-- The entries after one write. -/
theorem live_of_set (hl : (slots.set i s)[j]? = some (.live h key' v)) :
    (j = i ∧ s = .live h key' v) ∨ (j ≠ i ∧ slots[j]? = some (.live h key' v)) := by
  rw [getElem?_set] at hl
  split at hl
  · split at hl
    · exact .inl ⟨by omega, Option.some.inj hl⟩
    · cases hl
  · exact .inr ⟨by omega, hl⟩

/-- The key may be written into slot `i`: the slot is on its path, and holds its entry if there is
    one. -/
structure Storable (H : Hashing κ) (slots : List (Slot κ ν)) (modmask : Nat) (key : κ) (i : Nat) :
    Prop where
  placeable : Placeable H slots modmask key i
  lt_length : i < slots.length
  only : ∀ {j h : Nat} {key' : κ} {v : ν}, slots[j]? = some (.live h key' v) →
    H.same key' key = true → j = i
  free : ∀ {h : Nat} {key' : κ} {v : ν}, slots[i]? = some (.live h key' v) →
    H.same key' key = true

theorem Sound.store (hs : Sound H slots modmask) (hst : Storable H slots modmask key i) (v : ν) :
    Sound H (slots.set i (.live (H.hash key) key v)) modmask := by
  have hne : (.live (H.hash key) key v : Slot κ ν) ≠ .blank := by simp
  refine ⟨fun hl => ?_, fun hl => ?_, fun hl hl' hsame => ?_⟩
  · rcases live_of_set hl with ⟨-, heq⟩ | ⟨-, hl⟩
    · cases heq; rfl
    · exact hs.hash_eq hl
  · rcases live_of_set hl with ⟨rfl, heq⟩ | ⟨-, hl⟩
    · cases heq; exact hst.placeable.set hne
    · exact (hs.placed hl).set hne
  · rcases live_of_set hl with ⟨hi, heq⟩ | ⟨hi, hold⟩ <;>
      rcases live_of_set hl' with ⟨hj, heq'⟩ | ⟨hj, hold'⟩
    · exact hi.trans hj.symm
    · cases heq
      exact absurd (hst.only hold' (H.symm _ _ hsame)) hj
    · cases heq'
      exact absurd (hst.only hold hsame) hi
    · exact hs.unique hold hold' hsame

theorem has_store (hst : Storable H slots modmask key i) (v : ν) (key' : κ) (u : ν) :
    Has H (slots.set i (.live (H.hash key) key v)) key' u ↔
      if H.same key key' = true then u = v else Has H slots key' u := by
  have hget : (slots.set i (.live (H.hash key) key v))[i]? = some (.live (H.hash key) key v) := by
    rw [getElem?_set_self hst.lt_length]
  constructor
  · rintro ⟨j, h, a, hl, ha⟩
    rcases live_of_set hl with ⟨rfl, heq⟩ | ⟨hji, hl⟩
    · cases heq
      rw [if_pos ha]
    · rw [if_neg]
      · exact ⟨j, h, a, hl, ha⟩
      · intro hsame
        exact hji (hst.only hl (H.trans _ _ _ ha (H.symm _ _ hsame)))
  · by_cases hsame : H.same key key' = true
    · rw [if_pos hsame]
      rintro rfl
      exact ⟨i, _, key, hget, hsame⟩
    · rw [if_neg hsame]
      rintro ⟨j, h, a, hl, ha⟩
      have hji : j ≠ i := by
        rintro rfl
        exact hsame (H.trans _ _ _ (H.symm _ _ (hst.free hl)) ha)
      exact ⟨j, h, a, by rw [getElem?_set_ne (Ne.symm hji)]; exact hl, ha⟩

theorem Sound.erase (hs : Sound H slots modmask) (i : Nat) :
    Sound H (slots.set i .reusable) modmask := by
  have hne : (.reusable : Slot κ ν) ≠ .blank := by simp
  have hold : ∀ {j h : Nat} {key : κ} {v : ν},
      (slots.set i .reusable)[j]? = some (.live h key v) → slots[j]? = some (.live h key v) := by
    intro j h key v hl
    rcases live_of_set hl with ⟨-, heq⟩ | ⟨-, hl⟩
    · cases heq
    · exact hl
  exact ⟨fun hl => hs.hash_eq (hold hl), fun hl => (hs.placed (hold hl)).set hne,
    fun hl hl' hsame => hs.unique (hold hl) (hold hl') hsame⟩

theorem Sound.has_erase (hs : Sound H slots modmask) (hi : slots[i]? = some (.live h key' v))
    (a : κ) (u : ν) :
    Has H (slots.set i .reusable) a u ↔ H.same key' a = false ∧ Has H slots a u := by
  constructor
  · rintro ⟨j, g, b, hl, hb⟩
    rcases live_of_set hl with ⟨-, heq⟩ | ⟨hji, hl⟩
    · cases heq
    · refine ⟨Bool.eq_false_iff.mpr fun hsame => ?_, ⟨j, g, b, hl, hb⟩⟩
      exact hji (hs.unique hl hi (H.trans _ _ _ hb (H.symm _ _ hsame)))
  · rintro ⟨hsame, j, g, b, hl, hb⟩
    have hji : j ≠ i := by
      rintro rfl
      rw [hi] at hl
      cases hl
      rw [hsame] at hb
      cases hb
    exact ⟨j, g, b, by rw [getElem?_set_ne (Ne.symm hji)]; exact hl, hb⟩

end Sound

end JxtaC.Lib.OpenAddressing
