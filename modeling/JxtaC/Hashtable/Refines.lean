import JxtaC.Hashtable

/-
  The hash table is a finite map, in every run of its operations.
  `Inv` relates a table to the map it stands for. Each function has one lemma that says what it
  answers and which map the table stands for afterwards; `step_refines` collects them, and
  `hashtable_run_refines` carries them through a run. `Safe` is what a call needs beforehand: the
  loops count the slots in an `int`, and a block that the allocator refuses ends the process.
-/

namespace JxtaC.Hashtable

open Lib Lib.OpenAddressing Lib.Block List

/-- The keys of the table under `hash` and `memcmp`. -/
def hashing (mix : Key → Nat) : Hashing Key where
  hash := hash mix
  same a b := a == b
  refl a := beq_self_eq_true a
  symm a b h := by rw [eq_of_beq h]; exact beq_self_eq_true b
  trans a b c h h' := by rw [eq_of_beq h]; exact h'
  hash_eq a b h := by rw [eq_of_beq h]

section Spec
variable {Val : Type} {heap : Heap} {mix : Key → Nat} {t : Hashtable Val}
  {M : Key → Option Val}

/-- The table stands for the map `M`. -/
abbrev Inv (heap : Heap) (mix : Key → Nat) (t : Hashtable Val) (M : Key → Option Val) : Prop :=
  Sized (hashing mix) entrySize heap t M

theorem put_eq_update (mix : Key → Nat) (key : Key) (v : Val) :
    OpenAddressing.put (hashing mix) M key v = Function.update M key (some v) := by
  funext a
  unfold OpenAddressing.put Function.update
  by_cases h : a = key
  · subst h
    simp [hashing]
  · rw [dif_neg h, if_neg]
    exact fun hk => h (eq_of_beq hk).symm

theorem remove_eq_update (mix : Key → Nat) (key : Key) :
    remove (hashing mix) M key = Function.update M key none := by
  funext a
  unfold remove Function.update
  by_cases h : a = key
  · subst h
    simp [hashing]
  · rw [dif_neg h, if_neg]
    exact fun hk => h (eq_of_beq hk).symm

theorem capacity_eq (hlt : t.modmask + 1 < 2 ^ 31) : capacity t = t.modmask + 1 := by
  unfold capacity
  exact Nat.mod_eq_of_lt (hlt.trans (by decide))

/-- Tables of fewer than `2 ^ 31` slots are visited as a whole. -/
theorem visited_eq (h : Inv heap mix t M) (hlt : t.modmask + 1 < 2 ^ 31) :
    visited t = .ok t.slots := by
  have hlen := h.valid.length_eq
  unfold visited
  rw [capacity_eq hlt, if_pos hlt, readAt_of_le (by omega), drop_zero,
    take_of_length_le (by omega)]

/-- A rebuilding is possible: the slots are counted right, and the block is served. -/
def CanGrow (heap : Heap) (t : Hashtable Val) : Prop :=
  t.modmask + 1 < 2 ^ 31 ∧
    (doublingUsage t.maxOccupancy < t.usage → entrySize * (2 * (t.modmask + 1)) ≤ heap.limit)

instance (heap : Heap) (t : Hashtable Val) : Decidable (CanGrow heap t) :=
  inferInstanceAs (Decidable (_ ∧ _))

/-- A rebuilding keeps the entries alone, in a table of the same size or of twice as many slots. -/
theorem grow_counts (h : Inv heap mix t M) (hgrow : CanGrow heap t) :
    ∃ t', grow heap t = .ok t' ∧ Grown (hashing mix) entrySize heap t' M ∧
      t'.occupancy = t.usage ∧
      ((t.usage ≤ doublingUsage t.maxOccupancy ∧ t'.modmask = t.modmask) ∨
        t'.modmask + 1 = 2 * (t.modmask + 1)) := by
  obtain ⟨hlt, hheap⟩ := hgrow
  obtain ⟨k, hk⟩ := h.valid.pow
  have hmax := h.max_eq
  unfold grow
  rw [visited_eq h hlt, capacity_eq hlt]
  by_cases hdouble : doublingUsage t.maxOccupancy < t.usage
  · have hmask : ((t.modmask + 1) * 2 + sizeMod - 1) % uintMod = (t.modmask + 1) * 2 - 1 := by
      unfold sizeMod uintMod
      omega
    have hsize : ((t.modmask + 1) * 2 - 1 + 1) % uintMod = (t.modmask + 1) * 2 := by
      unfold uintMod
      omega
    have hle : (t.modmask + 1) * 2 ≤ uintMod := by
      unfold uintMod
      omega
    have hserved : entrySize * ((t.modmask + 1) * 2) ≤ heap.limit := by
      rw [Nat.mul_comm (t.modmask + 1) 2]
      exact hheap hdouble
    obtain ⟨t', hrun, hgrown, hmask', hocc⟩ := h.rehash
      (show (t.modmask + 1) * 2 = 2 ^ (k + 1) by rw [hk, Nat.pow_succ]) (.inr (Nat.mul_comm _ _))
      hle hserved
    refine ⟨t', ?_, hgrown, hocc, .inr (by omega)⟩
    simp only [gt_iff_lt, hdouble, if_true, hmask, hsize, if_neg (Nat.not_lt.mpr hserved), ok_bind]
    have : Table.rehash (fun a b => a == b) t.slots
        (Table.empty ((t.modmask + 1) * 2) ((t.modmask + 1) * 2 - 1)
          (maxOccupancyOf ((t.modmask + 1) * 2))) = .ok (t', true) := hrun
    rw [this]
    rfl
  · have hsize : (t.modmask + 1) % uintMod = t.modmask + 1 :=
      Nat.mod_eq_of_lt (hlt.trans (by decide))
    obtain ⟨t', hrun, hgrown, hmask', hocc⟩ := h.rehash hk (.inl ⟨Nat.le_of_not_lt hdouble, rfl⟩)
      h.modmask_lt h.served
    refine ⟨t', ?_, hgrown, hocc, .inl ⟨Nat.le_of_not_lt hdouble, hmask'⟩⟩
    simp only [gt_iff_lt, hdouble, if_false, hsize, if_neg (Nat.not_lt.mpr h.served), ok_bind]
    rw [Nat.add_sub_cancel, ← hmax] at hrun
    have : Table.rehash (fun a b => a == b) t.slots
        (Table.empty (t.modmask + 1) t.modmask t.maxOccupancy) = .ok (t', true) := hrun
    rw [this]
    rfl

theorem grow_spec (h : Inv heap mix t M) (hgrow : CanGrow heap t) :
    ∃ t', grow heap t = .ok t' ∧ Grown (hashing mix) entrySize heap t' M := by
  obtain ⟨t', hrun, hgrown, -⟩ := grow_counts h hgrow
  exact ⟨t', hrun, hgrown⟩

/-- There is a slot to write without a rebuilding, or a rebuilding is possible. -/
def HasRoom (heap : Heap) (t : Hashtable Val) : Prop :=
  t.occupancy ≤ t.maxOccupancy ∨ CanGrow heap t

instance (heap : Heap) (t : Hashtable Val) : Decidable (HasRoom heap t) :=
  inferInstanceAs (Decidable (_ ∨ _))

theorem spotFor_spec (h : Inv heap mix t M) (key : Key) (hroom : HasRoom heap t) :
    ∃ t' e, spotFor heap mix t key = .ok (t', e) ∧ Inv heap mix t' M ∧
      Storable (hashing mix) t'.slots t'.modmask key e ∧
      (t.occupancy ≤ t.maxOccupancy → t'.modmask = t.modmask) := by
  unfold spotFor
  by_cases hocc : t.occupancy > t.maxOccupancy
  · obtain ⟨u, hu, hgrown⟩ := grow_spec h (hroom.resolve_left (Nat.not_le.mpr hocc))
    obtain ⟨t', e, hspot, hinv, hst, -⟩ := hgrown.exists_spot key
    refine ⟨t', e, ?_, hinv, hst, fun hle => absurd hle (Nat.not_le.mpr hocc)⟩
    rw [if_pos hocc, hu, ok_bind, show findspot mix u key true = .ok (t', some e) from hspot]
    rfl
  · obtain ⟨t', e, hspot, hinv, hst, hmod⟩ := (h.grown (Nat.not_lt.mp hocc)).exists_spot key
    refine ⟨t', e, ?_, hinv, hst, fun _ => hmod⟩
    rw [if_neg hocc, ok_bind, show findspot mix t key true = .ok (t', some e) from hspot]
    rfl

/-- `comboput` puts the value, unless the key is live and may not be replaced. -/
theorem comboput_spec (h : Inv heap mix t M) {key : Key} (value : Val) (replaceAllowed : Bool)
    (hroom : HasRoom heap t) (hkey : key.length ≤ heap.limit) :
    ∃ t' result old, comboput heap mix t key value replaceAllowed = .ok (t', result, old) ∧
      (t.occupancy ≤ t.maxOccupancy → t'.modmask = t.modmask) ∧
      if replaceAllowed = true ∨ M key = none then
        result = true ∧ old = M key ∧ Inv heap mix t' (Function.update M key (some value))
      else result = false ∧ old = none ∧ Inv heap mix t' M := by
  obtain ⟨u, e, hspot, hinv, hst, hmod⟩ := spotFor_spec h key hroom
  have hfill : fill heap mix u e key value = .ok (u.store e (hash mix key) key value) :=
    if_neg (Nat.not_lt.mpr hkey)
  have hstore : Inv heap mix (u.store e (hash mix key) key value)
      (Function.update M key (some value)) := by
    rw [← put_eq_update mix]
    exact hinv.store hst value
  have hmask : t.occupancy ≤ t.maxOccupancy →
      (u.store e (hash mix key) key value).modmask = t.modmask := by
    intro hle
    rw [store_modmask]
    exact hmod hle
  unfold comboput
  rw [hspot, ok_bind]
  obtain ⟨s, hs⟩ : ∃ s, u.slots[e]? = some s := ⟨_, getElem?_eq_getElem hst.lt_length⟩
  rcases hinv.represents.at_spot hst with ⟨g, a, v, hlive, hM⟩ | ⟨hfree, hM⟩
  · simp only [hlive]
    cases replaceAllowed with
    | true =>
      refine ⟨_, true, some v, ?_, hmask, ?_⟩
      · rw [if_pos rfl, hfill]
        rfl
      · rw [if_pos (.inl rfl)]
        exact ⟨rfl, hM.symm, hstore⟩
    | false =>
      refine ⟨u, false, none, rfl, hmod, ?_⟩
      rw [if_neg (by simp [hM])]
      exact ⟨rfl, rfl, hinv⟩
  · refine ⟨_, true, none, ?_, hmask, ?_⟩
    · cases s with
      | live g a v => exact absurd hs (hfree g a v)
      | blank | reusable =>
        simp only [hs, hfill, ok_bind]
        rfl
    · rw [if_pos (.inr hM)]
      exact ⟨rfl, hM.symm, hstore⟩

theorem lookup_spec (h : Inv heap mix t M) (key : Key) :
    (M key = none ∧ lookup mix t key = .ok none) ∨
      ∃ e v, M key = some v ∧ lookup mix t key = .ok (some (e, v)) ∧
        Inv heap mix (t.erase e) (Function.update M key none) := by
  obtain ⟨r, hspot, hcases⟩ := h.represents.lookup h.valid key
  have hspot' : findspot mix t key false = .ok (t, r) := hspot
  unfold lookup
  rw [hspot', ok_bind]
  rcases hcases with ⟨e, g, a, v, rfl, hslot, hsame, hM⟩ | ⟨rfl, hM⟩
  · refine .inr ⟨e, v, hM, ?_, ?_⟩
    · simp only [hslot]
      rfl
    · rw [← remove_eq_update mix]
      exact h.erase hslot hsame
  · exact .inl ⟨hM, rfl⟩

end Spec

/-! ## runs -/

inductive Op (Val : Type) where
  | put (key : Key) (value : Val)
  | putnoreplace (key : Key) (value : Val)
  | replace (key : Key) (value : Val) (wanted : Bool)
  | contains (key : Key)
  | get (key : Key) (wanted : Bool)
  | del (key : Key) (wanted : Bool)
  | delcheck (key : Key) (value : Val)
  | valuesGet
  | keysGet
  | clear
  deriving Repr, DecidableEq

variable {Val : Type} [DecidableEq Val]

def step (heap : Heap) (mix : Key → Nat) (t : Hashtable Val) :
    Op Val → Exec (Hashtable Val × Reply Val)
  | .put key value => put heap mix t key value
  | .putnoreplace key value => putnoreplace heap mix t key value
  | .replace key value wanted => replace heap mix t key value wanted
  | .contains key => contains mix t key
  | .get key wanted => get mix t key wanted
  | .del key wanted => del mix t key wanted
  | .delcheck key value => delcheck mix t key value
  | .valuesGet => valuesGet heap t
  | .keysGet => keysGet heap t
  | .clear => clear t

/-- The list names every entry of the map once, in some order. -/
def Entries (M : Key → Option Val) (es : List (Key × Val)) : Prop :=
  (es.map Prod.fst).Nodup ∧ ∀ key v, M key = some v ↔ (key, v) ∈ es

/-- What a finite map answers, and what it becomes. -/
def MapStep (M : Key → Option Val) (op : Op Val) (r : Reply Val) (M' : Key → Option Val) : Prop :=
  match op with
  | .put key value => r = .void none ∧ M' = Function.update M key (some value)
  | .putnoreplace key value =>
    r = .boolean (M key).isNone ∧
      M' = if (M key).isNone then Function.update M key (some value) else M
  | .replace key value wanted =>
    r = .void (if wanted then M key else none) ∧ M' = Function.update M key (some value)
  | .contains key =>
    r = .status (if (M key).isSome then .success else .itemNotfound) none ∧ M' = M
  | .get key wanted =>
    r = (if wanted ∧ (M key).isSome then .status .success (M key)
      else .status .itemNotfound none) ∧ M' = M
  | .del key wanted =>
    r = .status (if (M key).isSome then .success else .itemNotfound)
      (if wanted then M key else none) ∧ M' = Function.update M key none
  | .delcheck key value =>
    match M key with
    | none => r = .status .itemNotfound none ∧ M' = M
    | some v =>
      if value = v then r = .status .success none ∧ M' = Function.update M key none
      else r = .status .violation none ∧ M' = M
  | .valuesGet => (∃ es, Entries M es ∧ r = .values (es.map Prod.snd)) ∧ M' = M
  | .keysGet => (∃ es, Entries M es ∧ r = .keys (some (es.map fun e => e.1 ++ [0]))) ∧ M' = M
  | .clear => r = .void none ∧ M' = fun _ => none

/-- The allocator serves a copy of every key with its terminator. -/
def KeysServed (heap : Heap) (t : Hashtable Val) : Prop :=
  ∀ e ∈ Table.entriesOf t.slots, e.1.length + 1 ≤ heap.limit

/-- What a call needs: an insertion has room and its key is served; the loops over all slots have
    fewer than `2 ^ 31` of them. -/
def Safe (heap : Heap) (t : Hashtable Val) : Op Val → Prop
  | .put key _ | .putnoreplace key _ | .replace key _ _ =>
    HasRoom heap t ∧ key.length ≤ heap.limit
  | .valuesGet | .clear => t.modmask + 1 < 2 ^ 31
  | .keysGet => t.modmask + 1 < 2 ^ 31 ∧ KeysServed heap t
  | .contains _ | .get _ _ | .del _ _ | .delcheck _ _ => True

instance (heap : Heap) (t : Hashtable Val) : Decidable (KeysServed heap t) :=
  inferInstanceAs (Decidable (∀ e ∈ Table.entriesOf t.slots, e.1.length + 1 ≤ heap.limit))

instance (heap : Heap) (t : Hashtable Val) : (op : Op Val) → Decidable (Safe heap t op)
  | .put key _ | .putnoreplace key _ | .replace key _ _ =>
    inferInstanceAs (Decidable (HasRoom heap t ∧ key.length ≤ heap.limit))
  | .valuesGet | .clear => inferInstanceAs (Decidable (t.modmask + 1 < 2 ^ 31))
  | .keysGet => inferInstanceAs (Decidable (t.modmask + 1 < 2 ^ 31 ∧ KeysServed heap t))
  | .contains _ | .get _ _ | .del _ _ | .delcheck _ _ => inferInstanceAs (Decidable True)

section Steps
variable {heap : Heap} {mix : Key → Nat} {t : Hashtable Val} {M : Key → Option Val}

/-- The call answers as the map does, and the table stands for the new map. -/
def Agrees (heap : Heap) (mix : Key → Nat) (M : Key → Option Val) (op : Op Val)
    (x : Exec (Hashtable Val × Reply Val)) : Prop :=
  ∃ t' r M', x = .ok (t', r) ∧ MapStep M op r M' ∧ Inv heap mix t' M'

omit [DecidableEq Val] in
theorem entries_of_valid (h : Inv heap mix t M) : Entries M (Table.entriesOf t.slots) := by
  obtain ⟨honce, hall⟩ := enumerates_entriesOf h.valid h.represents
  refine ⟨?_, fun key v => ?_⟩
  · rw [List.Nodup, pairwise_map]
    refine honce.imp fun {a b} hab heq => ?_
    have : (a.1 == b.1) = false := hab
    rw [heq, beq_self_eq_true] at this
    cases this
  · rw [hall]
    constructor
    · rintro ⟨e, he, hkey, rfl⟩
      obtain rfl : e.1 = key := eq_of_beq hkey
      exact he
    · exact fun he => ⟨_, he, beq_self_eq_true key, rfl⟩

omit [DecidableEq Val] in
theorem usage_served (h : Inv heap mix t M) : pointerSize * (t.usage + 1) ≤ heap.limit := by
  have husage := h.valid.usage_le.trans h.valid.occupancy_le
  have hserved := h.served
  unfold entrySize at hserved
  unfold pointerSize
  omega

section
variable (h : Inv heap mix t M)
include h

section
variable (key : Key)

theorem agrees_put (value : Val) (hs : HasRoom heap t ∧ key.length ≤ heap.limit) :
    Agrees heap mix M (.put key value) (put heap mix t key value) := by
  obtain ⟨t', result, old, hput, -, hcase⟩ := comboput_spec h value true hs.1 hs.2
  rw [if_pos (.inl rfl)] at hcase
  exact ⟨t', _, _, by rw [put, hput]; rfl, ⟨rfl, rfl⟩, hcase.2.2⟩

theorem agrees_replace (value : Val) (wanted : Bool)
    (hs : HasRoom heap t ∧ key.length ≤ heap.limit) :
    Agrees heap mix M (.replace key value wanted) (replace heap mix t key value wanted) := by
  obtain ⟨t', result, old, hput, -, hcase⟩ := comboput_spec h value true hs.1 hs.2
  rw [if_pos (.inl rfl)] at hcase
  obtain ⟨-, rfl, hinv⟩ := hcase
  exact ⟨t', _, _, by rw [replace, hput]; rfl, ⟨rfl, rfl⟩, hinv⟩

theorem agrees_putnoreplace (value : Val) (hs : HasRoom heap t ∧ key.length ≤ heap.limit) :
    Agrees heap mix M (.putnoreplace key value) (putnoreplace heap mix t key value) := by
  obtain ⟨t', result, old, hput, -, hcase⟩ := comboput_spec h value false hs.1 hs.2
  refine ⟨t', _, _, by rw [putnoreplace, hput]; rfl, ⟨?_, rfl⟩, ?_⟩
  · cases hM : M key with
    | none =>
      rw [if_pos (.inr hM)] at hcase
      rw [hcase.1]
      rfl
    | some v =>
      rw [if_neg (by simp [hM])] at hcase
      rw [hcase.1]
      rfl
  · cases hM : M key with
    | none =>
      rw [if_pos (.inr hM)] at hcase
      exact hcase.2.2
    | some v =>
      rw [if_neg (by simp [hM])] at hcase
      exact hcase.2.2

theorem agrees_contains : Agrees heap mix M (.contains key) (contains mix t key) := by
  rcases lookup_spec h key with ⟨hM, hlook⟩ | ⟨e, v, hM, hlook, -⟩
  · exact ⟨t, _, M, by rw [contains, hlook]; rfl, ⟨by rw [hM]; rfl, rfl⟩, h⟩
  · exact ⟨t, _, M, by rw [contains, hlook]; rfl, ⟨by rw [hM]; rfl, rfl⟩, h⟩

theorem agrees_get (wanted : Bool) :
    Agrees heap mix M (.get key wanted) (get mix t key wanted) := by
  cases wanted with
  | false => exact ⟨t, _, M, rfl, ⟨by simp, rfl⟩, h⟩
  | true =>
    rcases lookup_spec h key with ⟨hM, hlook⟩ | ⟨e, v, hM, hlook, -⟩
    · exact ⟨t, .status .itemNotfound none, M, by simp only [get, hlook]; rfl,
        ⟨by simp [hM], rfl⟩, h⟩
    · exact ⟨t, .status .success (some v), M, by simp only [get, hlook]; rfl,
        ⟨by simp [hM], rfl⟩, h⟩

theorem agrees_del (wanted : Bool) :
    Agrees heap mix M (.del key wanted) (del mix t key wanted) := by
  rcases lookup_spec h key with ⟨hM, hlook⟩ | ⟨e, v, hM, hlook, herase⟩
  · refine ⟨t, _, M, by rw [del, hlook]; rfl, ⟨?_, ?_⟩, h⟩
    · simp [hM]
    · rw [← hM, Function.update_eq_self]
  · exact ⟨t.erase e, _, _, by rw [del, hlook]; rfl, ⟨by rw [hM]; rfl, rfl⟩, herase⟩

theorem agrees_delcheck (value : Val) :
    Agrees heap mix M (.delcheck key value) (delcheck mix t key value) := by
  rcases lookup_spec h key with ⟨hM, hlook⟩ | ⟨e, v, hM, hlook, herase⟩
  · exact ⟨t, _, M, by rw [delcheck, hlook]; rfl, by simp only [MapStep, hM, and_self], h⟩
  · by_cases heq : value = v
    · refine ⟨t.erase e, .status .success none, _, ?_, ?_, herase⟩
      · simp only [delcheck, hlook, ok_bind, if_neg (not_not_intro heq)]
        rfl
      · simp only [MapStep, hM, if_pos heq, and_self]
    · refine ⟨t, .status .violation none, M, ?_, ?_, h⟩
      · simp only [delcheck, hlook, ok_bind, if_pos heq]
        rfl
      · simp only [MapStep, hM, if_neg heq, and_self]

end

section
variable (hlt : t.modmask + 1 < 2 ^ 31)
include hlt

theorem agrees_valuesGet : Agrees heap mix M .valuesGet (valuesGet heap t) := by
  have hserved := usage_served h
  refine ⟨t, _, M, ?_, ⟨⟨_, entries_of_valid h, rfl⟩, rfl⟩, h⟩
  unfold valuesGet
  rw [if_neg (by rw [Nat.mul_add] at hserved; omega), visited_eq h hlt]
  rfl

theorem agrees_keysGet (hkeys : KeysServed heap t) :
    Agrees heap mix M .keysGet (keysGet heap t) := by
  have hserved := usage_served h
  have hfilter : ((Table.entriesOf t.slots).map Prod.fst).filter
      (fun key => decide (key.length + 1 ≤ heap.limit)) = (Table.entriesOf t.slots).map Prod.fst := by
    rw [filter_eq_self]
    intro key hmem
    obtain ⟨e, he, rfl⟩ := mem_map.mp hmem
    exact decide_eq_true (hkeys e he)
  have hlen : ((Table.entriesOf t.slots).map Prod.fst).length = t.usage := by
    rw [length_map, length_entriesOf, h.valid.usage_eq]
  refine ⟨t, .keys (some ((Table.entriesOf t.slots).map fun e => e.1 ++ [0])), M, ?_,
    ⟨⟨_, entries_of_valid h, rfl⟩, rfl⟩, h⟩
  unfold keysGet
  rw [if_neg (by omega), visited_eq h hlt, ok_bind]
  simp only [hfilter, hlen, gt_iff_lt, Nat.lt_irrefl, if_false, map_map]
  rfl

theorem agrees_clear : Agrees heap mix M .clear (clear t) := by
  refine ⟨Table.clear t, .void none, fun _ => none, ?_, ⟨rfl, rfl⟩, h.clear⟩
  unfold clear
  rw [visited_eq h hlt, ok_bind, drop_length, append_nil]
  rfl

end

theorem step_refines (op : Op Val) (hs : Safe heap t op) :
    Agrees heap mix M op (step heap mix t op) := by
  cases op with
  | put key value => exact agrees_put h key value hs
  | putnoreplace key value => exact agrees_putnoreplace h key value hs
  | replace key value wanted => exact agrees_replace h key value wanted hs
  | contains key => exact agrees_contains h key
  | get key wanted => exact agrees_get h key wanted
  | del key wanted => exact agrees_del h key wanted
  | delcheck key value => exact agrees_delcheck h key value
  | valuesGet => exact agrees_valuesGet h hs
  | keysGet => exact agrees_keysGet h hs.1 hs.2
  | clear => exact agrees_clear h hs

end

end Steps

/-- A new table and the run of the operations on it: the constructor is refused its memory, or the
    run returns and answers as an empty map does. -/
def RunRefines (heap : Heap) (mix : Key → Nat) (initialUsage : Nat) (ops : List (Op Val)) : Prop :=
  new0 heap initialUsage = .ok (none : Option (Hashtable Val)) ∨
    ∃ t t' rs M, new0 heap initialUsage = .ok (some t) ∧
      runOps (step heap mix) t ops = .ok (t', rs) ∧
      Answers MapStep (fun _ => none) ops rs M ∧ Inv heap mix t' M

/-- The size asked for fits the mask, and every step of the run is safe. -/
def SafeUse (heap : Heap) (mix : Key → Nat) (initialUsage : Nat) (ops : List (Op Val)) : Prop :=
  adjustedUsage initialUsage ≤ 2 ^ 32 ∧
    Returns (new0 heap initialUsage) fun o => ∀ t ∈ o, SafeRun (step heap mix) (Safe heap) t ops

instance (heap : Heap) (mix : Key → Nat) (initialUsage : Nat) (ops : List (Op Val)) :
    Decidable (SafeUse heap mix initialUsage ops) :=
  inferInstanceAs (Decidable (_ ∧ _))

omit [DecidableEq Val] in
theorem new0_spec {heap : Heap} (mix : Key → Nat) {initialUsage : Nat}
    (h : adjustedUsage initialUsage ≤ 2 ^ 32) :
    new0 heap initialUsage = .ok (none : Option (Hashtable Val)) ∨
      ∃ k, k ≤ 32 ∧ realSizeOf initialUsage = .ok (2 ^ k) ∧
        new0 heap initialUsage = .ok (some
          (Table.empty (2 ^ k) (2 ^ k - 1) (maxOccupancyOf (2 ^ k)) : Hashtable Val)) ∧
        Inv heap mix (Table.empty (2 ^ k) (2 ^ k - 1) (maxOccupancyOf (2 ^ k)) : Hashtable Val)
          fun _ => none := by
  obtain ⟨k, hreal, hk⟩ := realSizeOf_spec h
  have hmask : (2 ^ k - 1) % uintMod = 2 ^ k - 1 := by
    have hpos : 0 < 2 ^ k := Nat.two_pow_pos k
    have hle : 2 ^ k ≤ 2 ^ 32 := Nat.pow_le_pow_right (by decide) hk
    exact Nat.mod_eq_of_lt (show 2 ^ k - 1 < 2 ^ 32 by omega)
  unfold new0
  rw [hreal, ok_bind]
  by_cases hheap : entrySize * 2 ^ k > heap.limit
  · rw [if_pos hheap]
    exact .inl rfl
  · rw [if_neg hheap, hmask]
    exact .inr ⟨k, hk, rfl, rfl, sized_new hk (Nat.le_of_not_lt hheap)⟩

theorem hashtable_run_refines (heap : Heap) (mix : Key → Nat) (initialUsage : Nat)
    (ops : List (Op Val)) (hsafe : SafeUse heap mix initialUsage ops) :
    RunRefines heap mix initialUsage ops := by
  obtain ⟨hsize, hrun⟩ := hsafe
  rcases @new0_spec Val heap mix initialUsage hsize with hnone | ⟨k, -, -, hnew, hinv⟩
  · exact .inl hnone
  · have hsteps := returns_ok hrun hnew _ rfl
    have hstep : ∀ (t : Hashtable Val) (M : Key → Option Val) (op : Op Val), Inv heap mix t M →
        Safe heap t op → Agrees heap mix M op (step heap mix t op) :=
      fun t M op h hs => step_refines h op hs
    obtain ⟨t', rs, M, hops, hans, hinv'⟩ := safeRun_simulates hstep ops _ _ hinv hsteps
    exact .inr ⟨_, t', rs, M, hnew, hops, hans, hinv'⟩

/-- Three keys of one hash in a table for one: it grows, a deleted slot is used again. -/
theorem hashtable_run_refines_colliding :
    RunRefines ⟨1000, by decide⟩ (fun _ => 0) 1
      [.put [1] 10, .put [2] 20, .del [1] true, .putnoreplace [3] 30, .replace [2] 21 true,
        .delcheck [3] 31, .valuesGet, .keysGet, .clear, .get [2] true] :=
  hashtable_run_refines _ _ _ _ (by decide)

omit [DecidableEq Val] in
/-- From `2 ^ 31` slots on, up to the wrap, the loops visit none. -/
theorem visited_of_large {t : Hashtable Val} (hlarge : 2 ^ 31 ≤ t.modmask + 1)
    (hlt : t.modmask + 1 < uintMod) : visited t = .ok [] := by
  unfold visited capacity
  rw [Nat.mod_eq_of_lt hlt, if_neg (Nat.not_lt.mpr hlarge), readAt_of_le (by omega)]
  rfl

/-- In a table made for `2 ^ 30` entries `i` is negative: an entry is put, and `values_get` has
    none. -/
theorem not_hashtable_run_refines :
    ¬∀ heap mix initialUsage (ops : List (Op Unit)), RunRefines heap mix initialUsage ops := by
  intro hall
  let heap : Heap := ⟨2 ^ 40, by decide⟩
  let mix : Key → Nat := fun _ => 1
  have hreal : realSizeOf (2 ^ 30) = .ok (2 ^ 31) := by decide
  have hrefused : ¬entrySize * 2 ^ 31 > heap.limit := by decide
  obtain ⟨t, hnew, hinv, hmask, hocc⟩ : ∃ t : Hashtable Unit,
      new0 heap (2 ^ 30) = .ok (some t) ∧ Inv heap mix t (fun _ => none) ∧
        t.modmask + 1 = 2 ^ 31 ∧ t.occupancy = 0 := by
    rcases @new0_spec Unit heap mix (2 ^ 30) (by decide) with hnone | ⟨k, -, hk, hnew, hinv⟩
    · rw [new0, hreal, ok_bind, if_neg hrefused] at hnone
      cases hnone
    · refine ⟨_, hnew, hinv, ?_, rfl⟩
      have hsize : 2 ^ k = 2 ^ 31 := Except.ok.inj (hk.symm.trans hreal)
      show 2 ^ k - 1 + 1 = 2 ^ 31
      rw [hsize, Nat.sub_add_cancel (Nat.two_pow_pos 31)]
  obtain ⟨t₁, result, old, hput, hmod, hcase⟩ :=
    @comboput_spec Unit heap mix t _ hinv [1] () true (.inl (by omega)) (by decide)
  rw [if_pos (.inl rfl)] at hcase
  have hmask₁ : t₁.modmask + 1 = 2 ^ 31 := by
    rw [hmod (by omega), hmask]
  rcases hall heap mix (2 ^ 30) [.put [1] (), .valuesGet] with
    hnone | ⟨u, t', rs, M, hnew', hrun, hans, -⟩
  · rw [hnew] at hnone
    cases hnone
  · obtain rfl : t = u := Option.some.inj (Except.ok.inj (hnew.symm.trans hnew'))
    have hstep : step heap mix t (.put [1] ()) = .ok (t₁, .void none) := by
      show put heap mix t [1] () = _
      rw [put, hput]
      rfl
    have hstep₁ : step heap mix t₁ .valuesGet = .ok (t₁, .values []) := by
      have hserved := usage_served hcase.2.2
      show valuesGet heap t₁ = _
      rw [valuesGet, if_neg (by rw [Nat.mul_add] at hserved; omega),
        visited_of_large hmask₁.ge (by rw [hmask₁]; decide)]
      rfl
    rw [runOps_cons_ok hstep, runOps_cons_ok hstep₁] at hrun
    cases hrun
    cases hans with
    | cons hput hans =>
      obtain ⟨-, rfl⟩ := hput
      cases hans with
      | cons hvalues _ =>
        obtain ⟨⟨es, ⟨-, hall⟩, hes⟩, -⟩ := hvalues
        obtain rfl : es = [] := by simpa using hes.symm
        have := (hall [1] ()).mp (Function.update_self _ _ _)
        cases this

end JxtaC.Hashtable
