import JxtaC.Lib.OpenAddressing

/-
  Tables with open addressing: looking up, making room for a key, erasing, rehashing.
  `Valid` is the invariant of a table, `Has` (OpenAddressing) what it holds. Each operation has one
  lemma that says what it does to both: `findspot_lookup`, `findspot_adding`, `Valid.store`,
  `Valid.erase`, `rehash_spec`. Nothing here depends on the modelled code.
-/

namespace JxtaC.Lib.OpenAddressing

open List

variable {κ ν : Type}
variable {slots : List (Slot κ ν)} {i : Nat} {key a : κ} {v : ν} {g : Nat} {M : κ → Option ν}

/-- The slots of a table, its mask, and its counters: slots in use (reusable ones included),
    entries, and the number of slots in use above which the table is rebuilt. -/
structure Table (κ ν : Type) where
  slots : List (Slot κ ν)
  modmask : Nat
  occupancy : Nat
  usage : Nat
  maxOccupancy : Nat
  deriving Repr, DecidableEq

/-- A slot without its entry. -/
def Slot.freed : Slot κ ν → Slot κ ν
  | .live .. => .reusable
  | s => s

namespace Table

/-- Moves the entry in slot `i` to the reusable slot `r`. -/
def move (t : Table κ ν) (i r hashk : Nat) (key : κ) (v : ν) : Table κ ν :=
  { t with slots := (t.slots.set i .reusable).set r (.live hashk key v) }

/-- The slot of a key, or the slot to put it in: an entry found behind a reusable slot moves there
    when adding. -/
def findspot (t : Table κ ν) (same : κ → Bool) (hashk : Nat) (adding : Bool) :
    Exec (Table κ ν × Option Nat) := do
  match ← walk t.slots t.modmask hashk (fun h key => h == hashk && same key) (t.modmask + 1)
    (start t.modmask hashk) none with
  | .found i reuse =>
    match adding, reuse, t.slots[i]? with
    | true, some r, some (.live _ key v) => return (t.move i r hashk key v, some r)
    | _, _, _ => return (t, some i)
  | .vacant i reuse => return (t, if adding then some (reuse.getD i) else none)
  | .exhausted => return (t, none)

/-- Writes an entry into slot `i` and counts it. -/
def store (t : Table κ ν) (i hashk : Nat) (key : κ) (v : ν) : Table κ ν :=
  let slots := t.slots.set i (.live hashk key v)
  match t.slots[i]? with
  | some .blank => { t with slots, usage := t.usage + 1, occupancy := t.occupancy + 1 }
  | some .reusable => { t with slots, usage := t.usage + 1 }
  | _ => { t with slots }

/-- Makes slot `i` reusable. -/
def erase (t : Table κ ν) (i : Nat) : Table κ ν :=
  { t with slots := t.slots.set i .reusable, usage := t.usage - 1 }

/-- Puts every entry of the list into the table; `false` when one finds no slot. -/
def rehash (same : κ → κ → Bool) : List (Slot κ ν) → Table κ ν → Exec (Table κ ν × Bool)
  | [], t => .ok (t, true)
  | .live h key v :: es, t => do
    match ← t.findspot (fun key' => same key' key) h true with
    | (t, none) => return (t, false)
    | (t, some i) =>
      rehash same es { t with slots := t.slots.set i (.live h key v),
                              usage := t.usage + 1, occupancy := t.occupancy + 1 }
  | _ :: es, t => rehash same es t

/-- The entries in slot order. -/
def entriesOf : List (Slot κ ν) → List (κ × ν)
  | [] => []
  | .live _ key v :: es => (key, v) :: entriesOf es
  | _ :: es => entriesOf es

/-- Makes every slot in use reusable. -/
def clear (t : Table κ ν) : Table κ ν :=
  { t with slots := t.slots.map Slot.freed, usage := t.usage - t.slots.countP Slot.isLive }

/-- An empty table. -/
def empty (size modmask maxOccupancy : Nat) : Table κ ν :=
  ⟨List.replicate size .blank, modmask, 0, 0, maxOccupancy⟩

end Table

variable {H : Hashing κ} {t : Table κ ν}

/-- The invariant of a table. -/
structure Valid (H : Hashing κ) (t : Table κ ν) : Prop where
  pow : ∃ k, t.modmask + 1 = 2 ^ k
  length_eq : t.slots.length = t.modmask + 1
  sound : Sound H t.slots t.modmask
  occupancy_eq : t.occupancy = t.slots.countP Slot.used
  usage_eq : t.usage = t.slots.countP Slot.isLive

theorem count_set (p : Slot κ ν → Bool) {s : Slot κ ν} (hi : slots[i]? = some s) (s' : Slot κ ν) :
    (slots.set i s').countP p + (if p s then 1 else 0) =
      slots.countP p + if p s' then 1 else 0 := by
  obtain ⟨hlt, rfl⟩ := List.getElem?_eq_some_iff.mp hi
  rw [countP_set hlt]
  have hpos : p slots[i] = true → 0 < slots.countP p := fun h =>
    countP_pos_iff.mpr ⟨_, getElem_mem hlt, h⟩
  split
  · have := hpos ‹_›
    omega
  · omega

theorem valid_empty {size k maxOccupancy : Nat} (hk : size = 2 ^ k) :
    Valid H (Table.empty size (size - 1) maxOccupancy : Table κ ν) := by
  have hpos : 0 < size := hk ▸ Nat.two_pow_pos k
  refine ⟨⟨k, ?_⟩, ?_, sound_blank _ _, ?_, ?_⟩
  · show size - 1 + 1 = _
    omega
  · simp only [Table.empty, length_replicate]
    omega
  · simp [Table.empty, countP_replicate, Slot.used]
  · simp [Table.empty, countP_replicate, Slot.isLive]

theorem Valid.usage_le (h : Valid H t) : t.usage ≤ t.occupancy := by
  rw [h.usage_eq, h.occupancy_eq]
  refine countP_mono_left fun s _ hs => ?_
  cases s with
  | live => rfl
  | blank => cases hs
  | reusable => cases hs

theorem Valid.occupancy_le (h : Valid H t) : t.occupancy ≤ t.modmask + 1 := by
  rw [h.occupancy_eq, ← h.length_eq]
  exact countP_le_length

/-! ## finding a spot -/

theorem walk_of_valid (h : Valid H t) (key : κ) :
    ∃ p, walk t.slots t.modmask (H.hash key) (fun g a => g == H.hash key && H.same a key)
        (t.modmask + 1) (start t.modmask (H.hash key)) none = .ok p ∧
      Walked t.slots t.modmask (H.hash key) (hitOf H key) p := by
  obtain ⟨k, hk⟩ := h.pow
  have hw := @walk_spec κ ν t.slots t.modmask k (hitOf H key) (H.hash key) hk h.length_eq
    (t.modmask + 1) 0 none (by omega) (by omega) (fun i hi => absurd hi (Nat.not_lt_zero i))
    (fun i hi => absurd hi (Nat.not_lt_zero i))
  rwa [path_zero hk] at hw

/-- Looking up: the table stays, and the slot is the key's if it has one. -/
theorem findspot_lookup (h : Valid H t) (key : κ) :
    ∃ r, t.findspot (fun a => H.same a key) (H.hash key) false = .ok (t, r) ∧
      ((∃ i g a v, r = some i ∧ t.slots[i]? = some (.live g a v) ∧ H.same a key = true) ∨
        (r = none ∧ ∀ v, ¬Has H t.slots key v)) := by
  obtain ⟨p, hp, hw⟩ := walk_of_valid h key
  unfold Table.findspot
  rw [hp, ok_bind]
  cases hw with
  | @found j g a v reuse hj hslot hhit hpassed hreuse =>
    refine ⟨some (path t.modmask (H.hash key) j), rfl, .inl ⟨_, g, a, v, rfl, hslot, ?_⟩⟩
    rwa [h.sound.hitOf_eq hslot] at hhit
  | vacant hj hslot hpassed hreuse =>
    exact ⟨none, rfl, .inr ⟨rfl, h.sound.not_has_of_passed _ hpassed (.inr hslot)⟩⟩
  | exhausted hpassed =>
    exact ⟨none, rfl, .inr ⟨rfl, h.sound.not_has_of_passed _ hpassed (.inl rfl)⟩⟩

/-- The same table but for the place of one entry. -/
structure Rearranged (H : Hashing κ) (t t' : Table κ ν) : Prop where
  valid : Valid H t'
  has_iff : ∀ a v, Has H t'.slots a v ↔ Has H t.slots a v
  modmask_eq : t'.modmask = t.modmask
  occupancy_eq : t'.occupancy = t.occupancy
  usage_eq : t'.usage = t.usage
  maxOccupancy_eq : t'.maxOccupancy = t.maxOccupancy

theorem Rearranged.refl (h : Valid H t) : Rearranged H t t :=
  ⟨h, fun _ _ => Iff.rfl, rfl, rfl, rfl, rfl⟩

/-- A slot met on the walk of a key that the table does not hold can take the key. -/
theorem storable_of_not_has (h : Valid H t) {j : Nat} (hj : j < t.modmask + 1)
    (hpassed : ∀ i < j, Passed t.slots (hitOf H key) (path t.modmask (H.hash key) i))
    (hnot : ∀ v, ¬Has H t.slots key v)
    (hfree : ∀ g a v, t.slots[path t.modmask (H.hash key) j]? ≠ some (.live g a v)) :
    Storable H t.slots t.modmask key (path t.modmask (H.hash key) j) := by
  obtain ⟨k, hk⟩ := h.pow
  refine ⟨⟨j, hj, rfl, fun l hl => (hpassed l hl).1⟩, ?_, ?_, ?_⟩
  · rw [h.length_eq]
    exact path_lt hk _ _
  · intro i g a v hl hsame
    exact absurd ⟨i, g, a, hl, hsame⟩ (hnot v)
  · intro g a v hl
    exact absurd hl (hfree g a v)

/-- The move of a found entry to the first reusable slot of its path. -/
theorem rearranged_move (h : Valid H t) {j : Nat} (hj : j < t.modmask + 1) (hij : i < j)
    (hslot : t.slots[path t.modmask (H.hash key) j]? = some (.live g a v))
    (hsame : H.same a key = true)
    (hreuse : t.slots[path t.modmask (H.hash key) i]? = some .reusable)
    (hpassed : ∀ l < j, Passed t.slots (hitOf H key) (path t.modmask (H.hash key) l)) :
    Rearranged H t (t.move (path t.modmask (H.hash key) j) (path t.modmask (H.hash key) i)
      (H.hash key) a v) ∧
    Storable H (t.move (path t.modmask (H.hash key) j) (path t.modmask (H.hash key) i)
      (H.hash key) a v).slots t.modmask key (path t.modmask (H.hash key) i) := by
  unfold Table.move
  obtain ⟨k, hk⟩ := h.pow
  have hhash : H.hash a = H.hash key := H.hash_eq _ _ hsame
  generalize hp : path t.modmask (H.hash key) j = p at *
  generalize hq : path t.modmask (H.hash key) i = q at *
  have hpq : p ≠ q := by
    rintro rfl
    rw [hreuse] at hslot
    cases hslot
  have hq₁ : (t.slots.set p .reusable)[q]? = some .reusable := by
    rw [getElem?_set_ne hpq]; exact hreuse
  have hqlt : q < t.slots.length := by
    rw [h.length_eq, ← hq]
    exact path_lt hk _ _
  have hplace : Placeable H t.slots t.modmask key q :=
    ⟨i, by omega, hq, fun l hl => (hpassed l (by omega)).1⟩
  have hplace₁ : Placeable H (t.slots.set p .reusable) t.modmask a q := by
    unfold Placeable
    rw [hhash]
    exact hplace.set (by simp)
  have hsound₁ := h.sound.erase p
  have hst₁ : Storable H (t.slots.set p .reusable) t.modmask a q := by
    refine ⟨hplace₁, by rw [length_set]; exact hqlt, ?_, ?_⟩
    · intro l g' b u hl hb
      have := ((h.sound.has_erase hslot a u).mp ⟨l, g', b, hl, hb⟩).1
      rw [H.refl] at this
      cases this
    · intro g' b u hl
      rw [hq₁] at hl
      cases hl
  have hsound₂ := hsound₁.store hst₁ v
  rw [hhash] at hsound₂
  have hhas : ∀ b u, Has H ((t.slots.set p .reusable).set q (.live (H.hash key) a v)) b u ↔
      Has H t.slots b u := by
    intro b u
    have hst := has_store hst₁ v b u
    rw [hhash] at hst
    rw [hst]
    by_cases hab : H.same a b = true
    · rw [if_pos hab]
      have hav : Has H t.slots b v := ⟨p, g, a, hslot, hab⟩
      constructor
      · rintro rfl
        exact hav
      · exact fun hu => h.sound.has_unique hu hav
    · rw [if_neg hab, h.sound.has_erase hslot]
      simp [hab]
  refine ⟨⟨⟨⟨k, hk⟩, ?_, hsound₂, ?_, ?_⟩, hhas, rfl, rfl, rfl, rfl⟩, ?_⟩
  · simp only [length_set]
    exact h.length_eq
  · have h₁ := count_set Slot.used hslot .reusable
    have h₂ := count_set Slot.used hq₁ (.live (H.hash key) a v)
    have h₃ := h.occupancy_eq
    simp only [Slot.used, if_true] at h₁ h₂
    simp only
    omega
  · have h₁ := count_set Slot.isLive hslot .reusable
    have h₂ := count_set Slot.isLive hq₁ (.live (H.hash key) a v)
    have h₃ := h.usage_eq
    simp only [Slot.isLive, if_true, Bool.false_eq_true, if_false] at h₁ h₂
    simp only
    omega
  · have hget : ((t.slots.set p .reusable).set q (.live (H.hash key) a v))[q]? =
        some (.live (H.hash key) a v) := by
      rw [getElem?_set_self (by rw [length_set]; exact hqlt)]
    refine ⟨?_, by simp only [length_set]; exact hqlt, ?_, ?_⟩
    · exact (hplace.set (by simp)).set (by simp)
    · intro l g' b u hl hb
      exact hsound₂.unique hl hget (H.trans _ _ _ hb (H.symm _ _ hsame))
    · intro g' b u hl
      rw [hget] at hl
      cases hl
      exact hsame

/-- Looking for a place: the table holds what it held, and the slot can take the key; there is
    none only when every slot is in use and the key has no entry. -/
theorem findspot_adding (h : Valid H t) (key : κ) :
    ∃ t' r, t.findspot (fun a => H.same a key) (H.hash key) true = .ok (t', r) ∧
      Rearranged H t t' ∧
      ((∃ i, r = some i ∧ Storable H t'.slots t'.modmask key i) ∨
        (r = none ∧ (∀ v, ¬Has H t.slots key v) ∧ t.occupancy = t.modmask + 1)) := by
  obtain ⟨k, hk⟩ := h.pow
  obtain ⟨p, hp, hw⟩ := walk_of_valid h key
  unfold Table.findspot
  rw [hp, ok_bind]
  cases hw with
  | @found j g a v reuse hj hslot hhit hpassed hreuse =>
    rw [h.sound.hitOf_eq hslot] at hhit
    cases reuse with
    | none =>
      refine ⟨t, some (path t.modmask (H.hash key) j), rfl, .refl h, .inl ⟨_, rfl, ?_⟩⟩
      refine ⟨⟨j, hj, rfl, fun l hl => (hpassed l hl).1⟩, ?_, ?_, ?_⟩
      · rw [h.length_eq]
        exact path_lt hk _ _
      · intro l g' b u hl hb
        exact h.sound.unique hl hslot (H.trans _ _ _ hb (H.symm _ _ hhit))
      · intro g' b u hl
        rw [hslot] at hl
        cases hl
        exact hhit
    | some r =>
      obtain ⟨i, hij, rfl, hre⟩ := hreuse
      obtain ⟨hrear, hstore⟩ := rearranged_move h hj hij hslot hhit hre hpassed
      simp only [hslot]
      exact ⟨_, _, rfl, hrear, .inl ⟨_, rfl, hstore⟩⟩
  | @vacant j reuse hj hslot hpassed hreuse =>
    have hnot := h.sound.not_has_of_passed _ hpassed (.inr hslot)
    refine ⟨t, _, rfl, .refl h, .inl ⟨_, rfl, ?_⟩⟩
    cases reuse with
    | none =>
      refine storable_of_not_has h hj hpassed hnot fun g a v hl => ?_
      rw [hslot] at hl
      cases hl
    | some r =>
      obtain ⟨i, hij, rfl, hre⟩ := hreuse
      refine storable_of_not_has h (by omega) (fun l hl => hpassed l (by omega)) hnot
        fun g a v hl => ?_
      rw [hre] at hl
      cases hl
  | exhausted hpassed =>
    refine ⟨t, none, rfl, .refl h, .inr ⟨rfl, h.sound.not_has_of_passed _ hpassed (.inl rfl), ?_⟩⟩
    rw [h.occupancy_eq, ← h.length_eq, countP_eq_length]
    intro s hs
    obtain ⟨i, hi, rfl⟩ := getElem_of_mem hs
    obtain ⟨j, hj, hpath⟩ := path_surjective hk (H.hash key) (h.length_eq ▸ hi)
    have hne := (hpassed j hj).1
    rw [hpath, getElem?_eq_getElem hi] at hne
    cases hslot : t.slots[i] with
    | blank => exact absurd (congrArg some hslot) hne
    | reusable => rfl
    | live => rfl

/-- The first slot of the key's path is reusable, or holds the key: it is where the key goes. -/
def FirstTaken (H : Hashing κ) (t : Table κ ν) (key : κ) : Prop :=
  match t.slots[start t.modmask (H.hash key)]? with
  | some .reusable => True
  | some (.live _ a _) => H.same a key = true
  | _ => False

/-- Then no blank slot is taken, unless the table has none to end the walk at. -/
theorem findspot_first (h : Valid H t) (hfirst : FirstTaken H t key) {t' : Table κ ν}
    (hspot : t.findspot (fun a => H.same a key) (H.hash key) true = .ok (t', some i)) :
    t'.slots[i]? ≠ some .blank := by
  obtain ⟨k, hk⟩ := h.pow
  obtain ⟨p, hp, hw⟩ := walk_of_valid h key
  unfold FirstTaken at hfirst
  rw [← path_zero hk] at hfirst
  unfold Table.findspot at hspot
  rw [hp, ok_bind] at hspot
  cases hw with
  | @found j g a v reuse hj hslot hhit hpassed hreuse =>
    cases reuse with
    | none =>
      obtain ⟨rfl, hi⟩ := Prod.mk.inj (Except.ok.inj hspot)
      rw [← Option.some.inj hi, hslot]
      simp
    | some r =>
      simp only [hslot] at hspot
      obtain ⟨rfl, hi⟩ := Prod.mk.inj (Except.ok.inj hspot)
      rw [← Option.some.inj hi]
      unfold Table.move
      rw [getElem?_set]
      split
      · split <;> simp
      · exact absurd rfl ‹_›
  | @vacant j reuse hj hslot hpassed hreuse =>
    obtain ⟨rfl, hi⟩ := Prod.mk.inj (Except.ok.inj hspot)
    have hj₀ : 0 < j := by
      by_contra hzero
      obtain rfl : j = 0 := by omega
      rw [hslot] at hfirst
      exact hfirst
    cases reuse with
    | none =>
      -- the first slot was passed, so it is not the key's, and it was not reusable
      have hnot := hreuse 0 hj₀
      have hmiss := (hpassed 0 hj₀).2
      split at hfirst
      · exact absurd ‹_› hnot
      · rename_i g a v hlive
        have hhit := hmiss g a v hlive
        rw [h.sound.hitOf_eq hlive, hfirst] at hhit
        cases hhit
      · exact absurd hfirst id
    | some r =>
      obtain ⟨l, hl, rfl, hre⟩ := hreuse
      obtain rfl : path t.modmask (H.hash key) l = i := Option.some.inj hi
      rw [hre]
      simp
  | exhausted hpassed =>
    obtain ⟨-, hi⟩ := Prod.mk.inj (Except.ok.inj hspot)
    cases hi

/-! ## storing and erasing -/

theorem Valid.store (h : Valid H t) (hst : Storable H t.slots t.modmask key i) (v : ν) :
    Valid H (t.store i (H.hash key) key v) := by
  obtain ⟨s, hget⟩ : ∃ s, t.slots[i]? = some s := ⟨_, getElem?_eq_getElem hst.lt_length⟩
  have hsound := h.sound.store hst v
  have hused := count_set Slot.used hget (.live (H.hash key) key v)
  have hlive := count_set Slot.isLive hget (.live (H.hash key) key v)
  have hocc := h.occupancy_eq
  have huse := h.usage_eq
  have hlen : (t.slots.set i (.live (H.hash key) key v)).length = t.modmask + 1 := by
    rw [length_set]; exact h.length_eq
  unfold Table.store
  rw [hget]
  cases s <;>
    simp only [Slot.used, Slot.isLive, Bool.false_eq_true, if_false, if_true] at hused hlive <;>
    exact ⟨h.pow, hlen, hsound, by simp only; omega, by simp only; omega⟩

section
variable (t : Table κ ν)

section
variable (i hashk : Nat)

theorem store_slots (key : κ) (v : ν) :
    (t.store i hashk key v).slots = t.slots.set i (.live hashk key v) := by
  unfold Table.store
  split <;> rfl

theorem store_modmask (key : κ) (v : ν) : (t.store i hashk key v).modmask = t.modmask := by
  unfold Table.store
  split <;> rfl

theorem store_maxOccupancy (key : κ) (v : ν) :
    (t.store i hashk key v).maxOccupancy = t.maxOccupancy := by
  unfold Table.store
  split <;> rfl

theorem store_occupancy_le (key : κ) (v : ν) :
    (t.store i hashk key v).occupancy ≤ t.occupancy + 1 := by
  unfold Table.store
  split
  · exact Nat.le_refl _
  · exact Nat.le_succ _
  · exact Nat.le_succ _

end

end

/-- Only a blank slot counts. -/
theorem store_occupancy_eq (hi : t.slots[i]? ≠ some .blank) (hashk : Nat) (key : κ) (v : ν) :
    (t.store i hashk key v).occupancy = t.occupancy := by
  unfold Table.store
  split
  · exact absurd ‹_› hi
  · rfl
  · rfl

theorem Valid.erase (h : Valid H t) (hi : t.slots[i]? = some (.live g key v)) :
    Valid H (t.erase i) := by
  have hused := count_set Slot.used hi .reusable
  have hlive := count_set Slot.isLive hi .reusable
  have hocc := h.occupancy_eq
  have huse := h.usage_eq
  simp only [Slot.used, Slot.isLive, Bool.false_eq_true, if_false, if_true] at hused hlive
  refine ⟨h.pow, ?_, h.sound.erase i, ?_, ?_⟩
  · simp only [Table.erase, length_set]
    exact h.length_eq
  · simp only [Table.erase]
    omega
  · simp only [Table.erase]
    omega

theorem freed_ne_live : (slots.map Slot.freed)[i]? ≠ some (.live g a v) := by
  rw [getElem?_map]
  cases slots[i]? with
  | none => simp
  | some s => cases s <;> simp [Slot.freed]

theorem not_has_freed (slots : List (Slot κ ν)) (key : κ) (v : ν) :
    ¬Has H (slots.map Slot.freed) key v := by
  rintro ⟨i, g, a, hi, -⟩
  exact freed_ne_live hi

theorem Valid.clear (h : Valid H t) : Valid H t.clear := by
  have hused : (Slot.used ∘ Slot.freed : Slot κ ν → Bool) = Slot.used := by
    funext s
    cases s <;> rfl
  have hlive : (Slot.isLive ∘ Slot.freed : Slot κ ν → Bool) = fun _ => false := by
    funext s
    cases s <;> rfl
  refine ⟨h.pow, ?_, ⟨fun hi => absurd hi freed_ne_live, fun hi => absurd hi freed_ne_live,
    fun hi => absurd hi freed_ne_live⟩, ?_, ?_⟩
  · rw [Table.clear, length_map]
    exact h.length_eq
  · simp only [Table.clear, countP_map, hused]
    exact h.occupancy_eq
  · simp only [Table.clear, countP_map, hlive, countP_false]
    rw [h.usage_eq, Nat.sub_self]
    rfl

/-! ## rehashing -/

/-- The entries a rehash puts into a table: hashed, and no two with one key. -/
structure Source (H : Hashing κ) (es : List (Slot κ ν)) : Prop where
  hash_eq : ∀ h key v, .live h key v ∈ es → h = H.hash key
  distinct : es.Pairwise fun a b => ∀ h key v h' key' v', a = .live h key v → b = .live h' key' v' →
    H.same key key' = false

theorem Valid.source (h : Valid H t) : Source H t.slots := by
  refine ⟨fun g key v hmem => ?_, ?_⟩
  · obtain ⟨i, hi⟩ := mem_iff_getElem?.mp hmem
    exact h.sound.hash_eq hi
  · rw [pairwise_iff_getElem]
    intro i j hi hj hij g key v g' key' v' ha hb
    refine Bool.eq_false_iff.mpr fun hsame => ?_
    have := h.sound.unique (List.getElem?_eq_some_iff.mpr ⟨hi, ha⟩)
      (List.getElem?_eq_some_iff.mpr ⟨hj, hb⟩) hsame
    omega

theorem has_iff_mem : Has H slots key v ↔ ∃ h a, .live h a v ∈ slots ∧ H.same a key = true := by
  constructor
  · rintro ⟨i, h, a, hi, ha⟩
    exact ⟨h, a, mem_of_getElem? hi, ha⟩
  · rintro ⟨h, a, hmem, ha⟩
    obtain ⟨i, hi⟩ := mem_iff_getElem?.mp hmem
    exact ⟨i, h, a, hi, ha⟩

/-- A table without reusable slots keeps none of them when it looks for a place, and counts every
    new entry once. -/
theorem fresh_store (h : Valid H t) (hfresh : ∀ i : Nat, t.slots[i]? ≠ some .reusable)
    (hnot : ∀ v, ¬Has H t.slots key v) (hroom : t.occupancy < t.modmask + 1) :
    ∃ i, t.findspot (fun a => H.same a key) (H.hash key) true = .ok (t, some i) ∧
      Storable H t.slots t.modmask key i ∧ t.slots[i]? = some .blank := by
  obtain ⟨k, hk⟩ := h.pow
  obtain ⟨p, hp, hw⟩ := walk_of_valid h key
  unfold Table.findspot
  rw [hp, ok_bind]
  cases hw with
  | @found j g a u reuse hj hslot hhit hpassed hreuse =>
    rw [h.sound.hitOf_eq hslot] at hhit
    exact absurd ⟨_, g, a, hslot, hhit⟩ (hnot u)
  | @vacant j reuse hj hslot hpassed hreuse =>
    cases reuse with
    | none =>
      refine ⟨_, rfl, ?_, hslot⟩
      refine storable_of_not_has h hj hpassed hnot fun g a v hl => ?_
      rw [hslot] at hl
      cases hl
    | some r =>
      obtain ⟨i, hij, rfl, hre⟩ := hreuse
      exact absurd hre (hfresh _)
  | exhausted hpassed =>
    obtain ⟨t', r, hspot, -, hcases⟩ := findspot_adding h key
    unfold Table.findspot at hspot
    rw [hp, ok_bind] at hspot
    cases hspot
    rcases hcases with ⟨i, hi, -⟩ | ⟨-, -, hfull⟩
    · cases hi
    · omega

theorem rehash_spec (es : List (Slot κ ν)) (hes : Source H es) (h : Valid H t)
    (hfresh : ∀ i : Nat, t.slots[i]? ≠ some .reusable) (hcount : t.usage = t.occupancy)
    (hnew : ∀ g key v, .live g key v ∈ es → ∀ u, ¬Has H t.slots key u)
    (hroom : t.occupancy + es.countP Slot.isLive ≤ t.modmask + 1) :
    ∃ t', t.rehash H.same es = .ok (t', true) ∧ Valid H t' ∧ t'.modmask = t.modmask ∧
      t'.maxOccupancy = t.maxOccupancy ∧ t'.occupancy = t.occupancy + es.countP Slot.isLive ∧
      t'.usage = t.usage + es.countP Slot.isLive ∧
      ∀ key v, Has H t'.slots key v ↔ Has H t.slots key v ∨ Has H es key v := by
  induction es generalizing t with
  | nil =>
    have hnil : ∀ key v, ¬Has H ([] : List (Slot κ ν)) key v := by
      intro key v hv
      obtain ⟨g, a, hmem, -⟩ := has_iff_mem.mp hv
      exact absurd hmem not_mem_nil
    exact ⟨t, rfl, h, rfl, rfl, rfl, rfl, fun key v => (or_iff_left (hnil key v)).symm⟩
  | cons e es ih =>
    have hes' : Source H es :=
      ⟨fun g key v hmem => hes.hash_eq g key v (mem_cons_of_mem e hmem), hes.distinct.of_cons⟩
    have hcons : ∀ key v, Has H (e :: es) key v ↔
        (∃ g a, e = .live g a v ∧ H.same a key = true) ∨ Has H es key v := by
      intro key v
      simp only [has_iff_mem, mem_cons]
      constructor
      · rintro ⟨g, a, heq | hmem, ha⟩
        · exact .inl ⟨g, a, heq.symm, ha⟩
        · exact .inr ⟨g, a, hmem, ha⟩
      · rintro (⟨g, a, rfl, ha⟩ | ⟨g, a, hmem, ha⟩)
        · exact ⟨g, a, .inl rfl, ha⟩
        · exact ⟨g, a, .inr hmem, ha⟩
    cases e with
    | live g key v =>
      obtain rfl := hes.hash_eq g key v mem_cons_self
      have hnot := hnew _ key v mem_cons_self
      have hlive : ((.live (H.hash key) key v : Slot κ ν) :: es).countP Slot.isLive =
          es.countP Slot.isLive + 1 := countP_cons_of_pos rfl
      rw [hlive] at hroom
      obtain ⟨i, hspot, hst, hblank⟩ := fresh_store h hfresh hnot (by omega)
      have hstore : t.store i (H.hash key) key v =
          { t with
            slots := t.slots.set i (.live (H.hash key) key v)
            usage := t.usage + 1
            occupancy := t.occupancy + 1 } := by
        unfold Table.store
        rw [hblank]
      have hvalid := h.store hst v
      rw [hstore] at hvalid
      have hhas := has_store hst v
      have hdistinct : ∀ g' key' v', .live g' key' v' ∈ es → H.same key key' = false :=
        fun g' key' v' hmem =>
          rel_of_pairwise_cons hes.distinct hmem _ _ _ _ _ _ rfl rfl
      obtain ⟨t', hrun, hvalid', hmod, hmax, hocc, huse, hiff⟩ := ih hes' hvalid
        (fun j hj => by
          rw [getElem?_set] at hj
          split at hj
          · split at hj <;> cases hj
          · exact hfresh j hj)
        (by simp only; omega)
        (fun g' key' v' hmem u hu => by
          have hne := hdistinct g' key' v' hmem
          rw [hhas, hne, if_neg (by simp)] at hu
          exact hnew g' key' v' (mem_cons_of_mem _ hmem) u hu)
        (by simp only; omega)
      refine ⟨t', ?_, hvalid', hmod, hmax, ?_, ?_, fun a u => ?_⟩
      · simp only [Table.rehash, hspot, ok_bind]
        exact hrun
      · rw [hocc, hlive]; simp only; omega
      · rw [huse, hlive]; simp only; omega
      · rw [hiff, hhas, hcons]
        by_cases hsame : H.same key a = true
        · have hno : ¬Has H t.slots a u := by
            rintro ⟨j, g', b, hl, hb⟩
            exact hnot u ⟨j, g', b, hl, H.trans _ _ _ hb (H.symm _ _ hsame)⟩
          rw [if_pos hsame]
          constructor
          · rintro (rfl | hu)
            · exact .inr (.inl ⟨_, key, rfl, hsame⟩)
            · exact .inr (.inr hu)
          · rintro (hu | ⟨g', b, heq, hb⟩ | hu)
            · exact absurd hu hno
            · cases heq
              exact .inl rfl
            · exact .inr hu
        · rw [if_neg hsame]
          constructor
          · rintro (hu | hu)
            · exact .inl hu
            · exact .inr (.inr hu)
          · rintro (hu | ⟨g', b, heq, hb⟩ | hu)
            · exact .inl hu
            · cases heq
              exact absurd hb hsame
            · exact .inr hu
    | blank | reusable =>
      obtain ⟨t', hrun, hvalid', hmod, hmax, hocc, huse, hiff⟩ := ih hes' h hfresh hcount
        (fun g key v hmem => hnew g key v (mem_cons_of_mem _ hmem))
        (by rw [countP_cons_of_neg (by simp [Slot.isLive])] at hroom; exact hroom)
      refine ⟨t', hrun, hvalid', hmod, hmax, ?_, ?_, fun a u => ?_⟩
      · rw [hocc, countP_cons_of_neg (by simp [Slot.isLive])]
      · rw [huse, countP_cons_of_neg (by simp [Slot.isLive])]
      · rw [hiff, hcons]
        simp

/-- Rebuilding a table of another size from the slots of a valid one. -/
theorem rehash_empty (h : Valid H t) {size k : Nat} (maxOccupancy : Nat) (hk : size = 2 ^ k)
    (hroom : t.usage ≤ size) :
    ∃ t', (Table.empty size (size - 1) maxOccupancy).rehash H.same t.slots = .ok (t', true) ∧
      Valid H t' ∧ t'.modmask = size - 1 ∧ t'.maxOccupancy = maxOccupancy ∧
      t'.occupancy = t.usage ∧ t'.usage = t.usage ∧
      ∀ key v, Has H t'.slots key v ↔ Has H t.slots key v := by
  have hpos : 0 < size := hk ▸ Nat.two_pow_pos k
  have hempty : Valid H (Table.empty size (size - 1) maxOccupancy : Table κ ν) := valid_empty hk
  obtain ⟨t', hrun, hvalid, hmod, hmax, hocc, huse, hiff⟩ := rehash_spec t.slots h.source hempty
    (fun i hi => by
      simp only [Table.empty, getElem?_replicate] at hi
      split at hi <;> cases hi) rfl (fun g key v _ u => not_has_blank size key u) (by
      rw [← h.usage_eq]
      simp only [Table.empty]
      omega)
  have hcount : (Table.empty size (size - 1) maxOccupancy : Table κ ν).occupancy = 0 := rfl
  have hcount' : (Table.empty size (size - 1) maxOccupancy : Table κ ν).usage = 0 := rfl
  refine ⟨t', hrun, hvalid, hmod, hmax, ?_, ?_, fun key v => ?_⟩
  · rw [hocc, hcount, ← h.usage_eq, Nat.zero_add]
  · rw [huse, hcount', ← h.usage_eq, Nat.zero_add]
  · rw [hiff]
    exact or_iff_right (not_has_blank size key v)

/-! ## the map a table stands for -/

/-- The table holds exactly the entries of the map. -/
def Represents (H : Hashing κ) (t : Table κ ν) (M : κ → Option ν) : Prop :=
  ∀ key v, M key = some v ↔ Has H t.slots key v

/-- The list names every entry of the map once. -/
structure Enumerates (H : Hashing κ) (M : κ → Option ν) (es : List (κ × ν)) : Prop where
  once : es.Pairwise fun a b => H.same a.1 b.1 = false
  all : ∀ key v, M key = some v ↔ ∃ e ∈ es, H.same e.1 key = true ∧ e.2 = v

theorem mem_entriesOf : (key, v) ∈ Table.entriesOf slots ↔ ∃ h, .live h key v ∈ slots := by
  induction slots with
  | nil => simp [Table.entriesOf]
  | cons s slots ih =>
    cases s with
    | live h a u =>
      simp only [Table.entriesOf, mem_cons, ih, Prod.mk.injEq, Slot.live.injEq]
      constructor
      · rintro (⟨rfl, rfl⟩ | ⟨g, hg⟩)
        · exact ⟨h, .inl ⟨rfl, rfl, rfl⟩⟩
        · exact ⟨g, .inr hg⟩
      · rintro ⟨g, ⟨-, rfl, rfl⟩ | hg⟩
        · exact .inl ⟨rfl, rfl⟩
        · exact .inr ⟨g, hg⟩
    | blank => simp [Table.entriesOf, ih]
    | reusable => simp [Table.entriesOf, ih]

theorem length_entriesOf (slots : List (Slot κ ν)) :
    (Table.entriesOf slots).length = slots.countP Slot.isLive := by
  induction slots with
  | nil => rfl
  | cons s slots ih => cases s <;> simp [Table.entriesOf, countP_cons, Slot.isLive, ih]

theorem pairwise_entriesOf {es : List (Slot κ ν)} (h : Source H es) :
    (Table.entriesOf es).Pairwise fun a b => H.same a.1 b.1 = false := by
  induction es with
  | nil => exact .nil
  | cons s es ih =>
    have htail := ih ⟨fun g key v hmem => h.hash_eq g key v (mem_cons_of_mem s hmem),
      h.distinct.of_cons⟩
    cases s with
    | live g key v =>
      refine .cons (fun e he => ?_) htail
      obtain ⟨g', hmem⟩ := mem_entriesOf.mp (show (e.1, e.2) ∈ _ from he)
      exact rel_of_pairwise_cons h.distinct hmem _ _ _ _ _ _ rfl rfl
    | blank => exact htail
    | reusable => exact htail

theorem enumerates_entriesOf (h : Valid H t) (hM : Represents H t M) :
    Enumerates H M (Table.entriesOf t.slots) := by
  refine ⟨pairwise_entriesOf h.source, fun key v => ?_⟩
  rw [hM, has_iff_mem]
  constructor
  · rintro ⟨g, a, hmem, ha⟩
    exact ⟨(a, v), mem_entriesOf.mpr ⟨g, hmem⟩, ha, rfl⟩
  · rintro ⟨⟨a, u⟩, hmem, ha, rfl⟩
    obtain ⟨g, hg⟩ := mem_entriesOf.mp hmem
    exact ⟨g, a, hg, ha⟩

/-- The map with a value for a key. -/
def put (H : Hashing κ) (M : κ → Option ν) (key : κ) (v : ν) (a : κ) : Option ν :=
  if H.same key a then some v else M a

/-- The map without a key. -/
def remove (H : Hashing κ) (M : κ → Option ν) (key : κ) (a : κ) : Option ν :=
  if H.same key a then none else M a

theorem represents_empty (size modmask maxOccupancy : Nat) :
    Represents H (Table.empty size modmask maxOccupancy : Table κ ν) fun _ => none :=
  fun key v => iff_of_false (by simp) (not_has_blank size key v)

section
variable (hM : Represents H t M)
include hM

theorem Represents.none_iff (key : κ) : M key = none ↔ ∀ v, ¬Has H t.slots key v := by
  rw [Option.eq_none_iff_forall_not_mem]
  exact forall_congr' fun v => not_congr (hM key v)

theorem Represents.congr {t' : Table κ ν} (h : ∀ a v, Has H t'.slots a v ↔ Has H t.slots a v) :
    Represents H t' M :=
  fun key v => (hM key v).trans (h key v).symm

theorem Represents.store (hst : Storable H t.slots t.modmask key i) (v : ν) :
    Represents H (t.store i (H.hash key) key v) (put H M key v) := by
  intro a u
  rw [store_slots, has_store hst]
  unfold put
  split
  · exact ⟨fun h => (Option.some.inj h).symm, fun h => congrArg some h.symm⟩
  · exact hM a u

theorem Represents.erase (h : Valid H t) (hi : t.slots[i]? = some (.live g a v))
    (ha : H.same a key = true) : Represents H (t.erase i) (remove H M key) := by
  intro b u
  show _ ↔ Has H (t.slots.set i .reusable) b u
  rw [h.sound.has_erase hi]
  have hsame : H.same a b = H.same key b := by
    rw [Bool.eq_iff_iff]
    exact ⟨H.trans _ _ _ (H.symm _ _ ha), H.trans _ _ _ ha⟩
  unfold remove
  rw [hsame]
  cases hb : H.same key b with
  | true => simp
  | false => simpa using hM b u

/-- Where a key may be stored, the slot holds its entry if there is one. -/
theorem Represents.at_spot (hst : Storable H t.slots t.modmask key i) :
    (∃ g a v, t.slots[i]? = some (.live g a v) ∧ M key = some v) ∨
      ((∀ g a v, t.slots[i]? ≠ some (.live g a v)) ∧ M key = none) := by
  by_cases hlive : ∃ g a v, t.slots[i]? = some (.live g a v)
  · obtain ⟨g, a, v, hi⟩ := hlive
    exact .inl ⟨g, a, v, hi, (hM key v).mpr ⟨i, g, a, hi, hst.free hi⟩⟩
  · refine .inr ⟨fun g a v hi => hlive ⟨g, a, v, hi⟩, (hM.none_iff key).mpr ?_⟩
    rintro v ⟨j, g, a, hj, ha⟩
    obtain rfl := hst.only hj ha
    exact hlive ⟨g, a, v, hj⟩

/-- Looking a key up tells what the map has for it. -/
theorem Represents.lookup (h : Valid H t) (key : κ) :
    ∃ r, t.findspot (fun a => H.same a key) (H.hash key) false = .ok (t, r) ∧
      ((∃ i g a v, r = some i ∧ t.slots[i]? = some (.live g a v) ∧ H.same a key = true ∧
          M key = some v) ∨
        (r = none ∧ M key = none)) := by
  obtain ⟨r, hspot, hcases⟩ := findspot_lookup h key
  refine ⟨r, hspot, ?_⟩
  rcases hcases with ⟨i, g, a, v, hr, hi, ha⟩ | ⟨hr, hnot⟩
  · exact .inl ⟨i, g, a, v, hr, hi, ha, (hM key v).mpr ⟨i, g, a, hi, ha⟩⟩
  · exact .inr ⟨hr, (hM.none_iff key).mpr hnot⟩

end

end JxtaC.Lib.OpenAddressing
