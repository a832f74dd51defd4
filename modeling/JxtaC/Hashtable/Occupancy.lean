import JxtaC.Hashtable.Refines

/-
  The counters of the hash table, and the blank slot that ends every walk.
  `Counted` is what should hold in every state. The counters do (`Sized`), in every run; the blank
  slot does as long as an insertion leaves one: `comboput_open`. A table is rebuilt before a key is
  put when more slots are in use than `max_occupancy`, which leaves two of four slots or more, but
  none of two.
-/

namespace JxtaC.Hashtable

open Lib Lib.OpenAddressing Lib.Block List

/-- The counters count, a slot is blank, and the number of slots is a power of two. -/
structure Counted {Val : Type} (t : Hashtable Val) : Prop where
  usage_eq : t.usage = t.slots.countP Slot.isLive
  occupancy_eq : t.occupancy = t.slots.countP Slot.used
  occupancy_lt : t.occupancy < t.slots.length
  blank : .blank ∈ t.slots
  pow : ∃ k, t.slots.length = 2 ^ k
  size_eq : t.slots.length = t.modmask + 1

/-- A rebuilding is possible: as for a small table, or at `2 ^ 31` slots, where no entry is visited,
    into as many. -/
def CanRebuild {Val : Type} (heap : Heap) (t : Hashtable Val) : Prop :=
  CanGrow heap t ∨ (t.modmask + 1 = 2 ^ 31 ∧ t.usage ≤ doublingUsage t.maxOccupancy)

/-- What an insertion needs: its key is served, and either the table is rebuilt and can be, or a
    slot stays blank: there are two, or the first slot of the key is reusable or the key's own. -/
structure CanPut {Val : Type} (heap : Heap) (mix : Key → Nat) (t : Hashtable Val) (key : Key) :
    Prop where
  served : key.length ≤ heap.limit
  rebuilt : t.maxOccupancy < t.occupancy → CanRebuild heap t
  stays : t.occupancy ≤ t.maxOccupancy →
    t.occupancy + 1 < t.modmask + 1 ∨ FirstTaken (hashing mix) t key

/-- The condition on the state before a call; only insertions have one. -/
def Careful {Val : Type} (heap : Heap) (mix : Key → Nat) (t : Hashtable Val) : Op Val → Prop
  | .put key _ | .putnoreplace key _ | .replace key _ _ => CanPut heap mix t key
  | _ => True

instance {Val : Type} (heap : Heap) (t : Hashtable Val) : Decidable (CanRebuild heap t) :=
  inferInstanceAs (Decidable (_ ∨ _))

instance {Val : Type} (mix : Key → Nat) (t : Hashtable Val) (key : Key) :
    Decidable (FirstTaken (hashing mix) t key) := by
  unfold FirstTaken
  split <;> infer_instance

instance {Val : Type} (heap : Heap) (mix : Key → Nat) (t : Hashtable Val) (key : Key) :
    Decidable (CanPut heap mix t key) :=
  decidable_of_iff
    (key.length ≤ heap.limit ∧ (t.maxOccupancy < t.occupancy → CanRebuild heap t) ∧
      (t.occupancy ≤ t.maxOccupancy →
        t.occupancy + 1 < t.modmask + 1 ∨ FirstTaken (hashing mix) t key))
    ⟨fun h => ⟨h.1, h.2.1, h.2.2⟩, fun h => ⟨h.served, h.rebuilt, h.stays⟩⟩

instance {Val : Type} (heap : Heap) (mix : Key → Nat) (t : Hashtable Val) :
    (op : Op Val) → Decidable (Careful heap mix t op)
  | .put key _ | .putnoreplace key _ | .replace key _ _ =>
    inferInstanceAs (Decidable (CanPut heap mix t key))
  | .contains _ | .get _ _ | .del _ _ | .delcheck _ _ | .valuesGet | .keysGet | .clear =>
    inferInstanceAs (Decidable True)

section Steps
variable {Val : Type} {heap : Heap} {mix : Key → Nat} {t : Hashtable Val}

/-- The table stands for some map, and a slot is blank. -/
structure Open (heap : Heap) (mix : Key → Nat) (t : Hashtable Val) : Prop where
  sized : ∃ M, Inv heap mix t M
  occupancy_lt : t.occupancy < t.modmask + 1

theorem Open.counted (h : Open heap mix t) : Counted t := by
  obtain ⟨⟨M, hinv⟩, hlt⟩ := h
  obtain ⟨k, hk⟩ := hinv.valid.pow
  have hlength := hinv.valid.length_eq
  have hocc := hinv.valid.occupancy_eq
  refine ⟨hinv.valid.usage_eq, hocc, by omega, ?_, ⟨k, hlength.trans hk⟩, hlength⟩
  by_contra hnone
  have hall : t.slots.countP Slot.used = t.slots.length := by
    rw [countP_eq_length]
    intro s hs
    match s, hs with
    | .blank, hs => exact absurd hs hnone
    | .reusable, _ => rfl
    | .live _ _ _, _ => rfl
  omega

/-! ## rebuilding -/

/-- Where `i` is negative from the start, no entry comes into the new table. -/
theorem grow_of_large {M : Key → Option Val} (h : Inv heap mix t M)
    (hsize : t.modmask + 1 = 2 ^ 31) (hsame : t.usage ≤ doublingUsage t.maxOccupancy) :
    grow heap t = .ok (Table.empty (2 ^ 31) (2 ^ 31 - 1) (maxOccupancyOf (2 ^ 31))) := by
  have hmask : t.modmask = 2 ^ 31 - 1 := by omega
  have hserved := h.served
  have hvisited : visited t = .ok [] := visited_of_large hsize.ge (by rw [hsize]; decide)
  have hmod : (2 ^ 31 - 1 + 1) % uintMod = 2 ^ 31 := by decide
  have hmax : t.maxOccupancy = maxOccupancyOf (2 ^ 31) := by rw [h.max_eq, hsize]
  rw [hsize] at hserved
  have hnot : ¬ doublingUsage t.maxOccupancy < t.usage := Nat.not_lt.mpr hsame
  unfold grow
  simp only [gt_iff_lt, hnot, if_false, hvisited, ok_bind]
  simp only [hmask, hmod, hmax, if_neg (Nat.not_lt.mpr hserved)]
  rfl

/-- Behind a rebuilding two slots are blank. -/
theorem grow_open {M : Key → Option Val} (h : Inv heap mix t M) (hlt : t.occupancy < t.modmask + 1)
    (hfull : t.maxOccupancy < t.occupancy) (hcan : CanRebuild heap t) :
    ∃ t' M', grow heap t = .ok t' ∧ Inv heap mix t' M' ∧ t'.occupancy + 1 < t'.modmask + 1 := by
  rcases hcan with hgrow | ⟨hsize, hsame⟩
  · obtain ⟨t', hrun, hgrown, hocc, hcases⟩ := grow_counts h hgrow
    have husage := h.valid.usage_le
    have hdouble := doublingUsage_le t.maxOccupancy
    refine ⟨t', M, hrun, hgrown.toSized, ?_⟩
    rcases hcases with ⟨hle, hmask⟩ | hmask
    · omega
    · omega
  · have hserved := h.served
    rw [hsize] at hserved
    refine ⟨_, _, grow_of_large h hsize hsame, sized_new (by decide) hserved, ?_⟩
    show 0 + 1 < 2 ^ 31 - 1 + 1
    decide

/-! ## insertion -/

/-- The slot that is found leaves a blank one when it is written. -/
theorem findspot_open {M : Key → Option Val} (h : Inv heap mix t M)
    (hlt : t.occupancy < t.modmask + 1) (key : Key)
    (hstays : t.occupancy + 1 < t.modmask + 1 ∨ FirstTaken (hashing mix) t key) :
    ∃ t' e, findspot mix t key true = .ok (t', some e) ∧ Inv heap mix t' M ∧
      Storable (hashing mix) t'.slots t'.modmask key e ∧ t'.occupancy < t'.modmask + 1 ∧
      ∀ v, (t'.store e (hash mix key) key v).occupancy < t'.modmask + 1 := by
  obtain ⟨t', r, hspot, hr, hcases⟩ := findspot_adding h.valid key
  have hocc := hr.occupancy_eq
  have hmask := hr.modmask_eq
  rcases hcases with ⟨e, rfl, hst⟩ | ⟨-, -, hfull⟩
  · refine ⟨t', e, hspot, h.rearranged hr, hst, by omega, fun v => ?_⟩
    rcases hstays with htwo | hfirst
    · have hle := store_occupancy_le t' e (hash mix key) key v
      omega
    · rw [store_occupancy_eq (findspot_first h.valid hfirst hspot)]
      omega
  · omega

/-- `spotFor` with its rebuilding. -/
theorem spotFor_open (h : Open heap mix t) {key : Key} (hput : CanPut heap mix t key) :
    ∃ t' e M, spotFor heap mix t key = .ok (t', e) ∧ Inv heap mix t' M ∧
      Storable (hashing mix) t'.slots t'.modmask key e ∧ t'.occupancy < t'.modmask + 1 ∧
      ∀ v, (t'.store e (hash mix key) key v).occupancy < t'.modmask + 1 := by
  obtain ⟨⟨M, hinv⟩, hlt⟩ := h
  unfold spotFor
  by_cases hocc : t.occupancy > t.maxOccupancy
  · obtain ⟨u, M', hgrow, hinv', hroom⟩ := grow_open hinv hlt hocc (hput.rebuilt hocc)
    obtain ⟨t', e, hspot, hinv'', hst, hopen⟩ :=
      findspot_open hinv' (Nat.lt_of_succ_lt hroom) key (.inl hroom)
    refine ⟨t', e, M', ?_, hinv'', hst, hopen⟩
    rw [if_pos hocc, hgrow, ok_bind, hspot]
    rfl
  · obtain ⟨t', e, hspot, hinv', hst, hopen⟩ :=
      findspot_open hinv hlt key (hput.stays (Nat.le_of_not_lt hocc))
    refine ⟨t', e, M, ?_, hinv', hst, hopen⟩
    rw [if_neg hocc, ok_bind, hspot]
    rfl

theorem comboput_open (h : Open heap mix t) {key : Key} (hput : CanPut heap mix t key)
    (value : Val) (replaceAllowed : Bool) :
    ∃ t' p, comboput heap mix t key value replaceAllowed = .ok (t', p) ∧ Open heap mix t' := by
  obtain ⟨u, e, M, hspot, hinv, hst, hlt, hstored⟩ := spotFor_open h hput
  have hfill : fill heap mix u e key value = .ok (u.store e (hash mix key) key value) :=
    if_neg (Nat.not_lt.mpr hput.served)
  have hstore : Open heap mix (u.store e (hash mix key) key value) := by
    refine ⟨⟨_, hinv.store hst value⟩, ?_⟩
    rw [store_modmask]
    exact hstored value
  unfold comboput
  rw [hspot, ok_bind]
  rcases hinv.represents.at_spot hst with ⟨g, a, v, hlive, -⟩ | ⟨hfree, -⟩
  · simp only [hlive]
    match replaceAllowed with
    | true =>
      rw [if_pos rfl, hfill]
      exact ⟨_, _, rfl, hstore⟩
    | false => exact ⟨u, _, rfl, ⟨M, hinv⟩, hlt⟩
  · obtain ⟨s, hs⟩ : ∃ s, u.slots[e]? = some s := ⟨_, getElem?_eq_getElem hst.lt_length⟩
    match s, hs with
    | .live g a v, hs => exact absurd hs (hfree g a v)
    | .blank, hs =>
      simp only [hs, hfill, ok_bind]
      exact ⟨_, _, rfl, hstore⟩
    | .reusable, hs =>
      simp only [hs, hfill, ok_bind]
      exact ⟨_, _, rfl, hstore⟩

/-! ## the other calls -/

/-- The call returns, and leaves a blank slot. -/
def Stays (heap : Heap) (mix : Key → Nat) (x : Exec (Hashtable Val × Reply Val)) : Prop :=
  ∃ t' r, x = .ok (t', r) ∧ Open heap mix t'

section
variable (h : Open heap mix t)
include h

theorem Open.lookup (key : Key) :
    lookup mix t key = .ok none ∨
      ∃ e v, lookup mix t key = .ok (some (e, v)) ∧ Open heap mix (t.erase e) := by
  obtain ⟨⟨M, hinv⟩, hlt⟩ := h
  rcases lookup_spec hinv key with ⟨-, hlook⟩ | ⟨e, v, -, hlook, herase⟩
  · exact .inl hlook
  · exact .inr ⟨e, v, hlook, ⟨_, herase⟩, hlt⟩

/-- The slots that a loop visits: all of them, or none. -/
theorem Open.visited : visited t = .ok t.slots ∨ visited t = .ok [] := by
  obtain ⟨⟨M, hinv⟩, -⟩ := h
  by_cases hlt : t.modmask + 1 < 2 ^ 31
  · exact .inl (visited_eq hinv hlt)
  · have hmask := hinv.modmask_lt
    have hcapacity : ¬ capacity t < 2 ^ 31 ∨ capacity t = 0 := by
      unfold capacity uintMod at *
      omega
    refine .inr ?_
    unfold Hashtable.visited
    rcases hcapacity with hlarge | hzero
    · rw [if_neg hlarge]
      exact readAt_of_le (by omega)
    · rw [hzero, if_pos (by decide)]
      exact readAt_of_le (by omega)

theorem stays_valuesGet : Stays heap mix (valuesGet heap t) := by
  obtain ⟨M, hinv⟩ := h.sized
  have hserved := usage_served hinv
  have hpointers : ¬ pointerSize * t.usage > heap.limit := by
    rw [Nat.mul_add] at hserved
    omega
  unfold valuesGet
  rw [if_neg hpointers]
  rcases h.visited with hall | hnone
  · rw [hall]
    exact ⟨t, _, rfl, h⟩
  · rw [hnone]
    exact ⟨t, _, rfl, h⟩

theorem stays_keysGet : Stays heap mix (keysGet heap t) := by
  obtain ⟨M, hinv⟩ := h.sized
  have hserved := usage_served hinv
  unfold keysGet
  rw [if_neg (by omega)]
  rcases h.visited with hall | hnone
  · have hlength : ¬ (((Table.entriesOf t.slots).map Prod.fst).filter
        fun key => decide (key.length + 1 ≤ heap.limit)).length > t.usage := by
      have hle := length_filter_le (fun key : Key => decide (key.length + 1 ≤ heap.limit))
        ((Table.entriesOf t.slots).map Prod.fst)
      rw [length_map, length_entriesOf, ← hinv.valid.usage_eq] at hle
      exact Nat.not_lt_of_le hle
    rw [hall, ok_bind]
    simp only [if_neg hlength]
    exact ⟨t, _, rfl, h⟩
  · rw [hnone, ok_bind]
    exact ⟨t, _, rfl, h⟩

theorem stays_clear : Stays heap mix (clear t) := by
  obtain ⟨⟨M, hinv⟩, hlt⟩ := h
  unfold clear
  rcases Open.visited ⟨⟨M, hinv⟩, hlt⟩ with hall | hnone
  · rw [hall, ok_bind, drop_length, append_nil]
    exact ⟨_, _, rfl, ⟨_, hinv.clear⟩, hlt⟩
  · rw [hnone, ok_bind]
    exact ⟨t, _, rfl, ⟨M, hinv⟩, hlt⟩

end

variable [DecidableEq Val]

/-- One careful call returns, and a slot stays blank. -/
theorem step_open (h : Open heap mix t) {op : Op Val} (hcare : Careful heap mix t op) :
    Stays heap mix (step heap mix t op) := by
  match op, hcare with
  | .put key value, hcare =>
    obtain ⟨t', p, hput, hopen⟩ := comboput_open h hcare value true
    exact ⟨t', _, by rw [step, put, hput]; rfl, hopen⟩
  | .putnoreplace key value, hcare =>
    obtain ⟨t', p, hput, hopen⟩ := comboput_open h hcare value false
    exact ⟨t', _, by rw [step, putnoreplace, hput]; rfl, hopen⟩
  | .replace key value wanted, hcare =>
    obtain ⟨t', p, hput, hopen⟩ := comboput_open h hcare value true
    exact ⟨t', _, by rw [step, replace, hput]; rfl, hopen⟩
  | .contains key, _ =>
    rcases h.lookup key with hlook | ⟨e, v, hlook, -⟩
    · exact ⟨t, _, by rw [step, contains, hlook]; rfl, h⟩
    · exact ⟨t, _, by rw [step, contains, hlook]; rfl, h⟩
  | .get key false, _ => exact ⟨t, _, rfl, h⟩
  | .get key true, _ =>
    rcases h.lookup key with hlook | ⟨e, v, hlook, -⟩
    · exact ⟨t, .status .itemNotfound none, by simp only [step, get, hlook]; rfl, h⟩
    · exact ⟨t, .status .success (some v), by simp only [step, get, hlook]; rfl, h⟩
  | .del key wanted, _ =>
    rcases h.lookup key with hlook | ⟨e, v, hlook, herase⟩
    · exact ⟨t, _, by rw [step, del, hlook]; rfl, h⟩
    · exact ⟨t.erase e, _, by rw [step, del, hlook]; rfl, herase⟩
  | .delcheck key value, _ =>
    rcases h.lookup key with hlook | ⟨e, v, hlook, herase⟩
    · exact ⟨t, _, by rw [step, delcheck, hlook]; rfl, h⟩
    · by_cases heq : value = v
      · refine ⟨t.erase e, .status .success none, ?_, herase⟩
        simp only [step, delcheck, hlook, ok_bind, if_neg (not_not_intro heq)]
        rfl
      · refine ⟨t, .status .violation none, ?_, h⟩
        simp only [step, delcheck, hlook, ok_bind, if_pos heq]
        rfl
  | .valuesGet, _ => exact stays_valuesGet h
  | .keysGet, _ => exact stays_keysGet h
  | .clear, _ => exact stays_clear h

end Steps

/-! ## runs -/

section Runs
variable {Val : Type} [DecidableEq Val]

/-- The constructor returns, and in the table it makes, if it makes one, the operations return and
    keep the counters and a blank slot. -/
def RunCounted (heap : Heap) (mix : Key → Nat) (initialUsage : Nat) (ops : List (Op Val)) : Prop :=
  ∃ o : Option (Hashtable Val), new0 heap initialUsage = .ok o ∧
    ∀ t ∈ o, Throughout (step heap mix) Counted (fun _ _ => True) t ops

/-- The usage asked for fits the mask, and every insertion can be made. -/
def CarefulUse (heap : Heap) (mix : Key → Nat) (initialUsage : Nat) (ops : List (Op Val)) : Prop :=
  adjustedUsage initialUsage ≤ 2 ^ 32 ∧
    Returns (new0 heap initialUsage : Exec (Option (Hashtable Val))) fun o =>
      ∀ t ∈ o, SafeRun (step heap mix) (Careful heap mix) t ops

instance (heap : Heap) (mix : Key → Nat) (initialUsage : Nat) (ops : List (Op Val)) :
    Decidable (CarefulUse heap mix initialUsage ops) :=
  inferInstanceAs (Decidable (_ ∧ _))

/-- In every run of careful calls the counters count, a slot stays blank, and no call aborts. -/
theorem hashtable_run_counted (heap : Heap) (mix : Key → Nat) (initialUsage : Nat)
    (ops : List (Op Val)) (hcare : CarefulUse heap mix initialUsage ops) :
    RunCounted heap mix initialUsage ops := by
  obtain ⟨hsize, hrun⟩ := hcare
  rcases @new0_spec Val heap mix initialUsage hsize with hnone | ⟨k, -, -, hnew, hinv⟩
  · exact ⟨none, hnone, nofun⟩
  · refine ⟨_, hnew, fun t ht => ?_⟩
    obtain rfl := Option.mem_some_iff.mp ht
    have hopen : Open heap mix
        (Table.empty (2 ^ k) (2 ^ k - 1) (maxOccupancyOf (2 ^ k)) : Hashtable Val) :=
      ⟨⟨_, hinv⟩, Nat.succ_pos _⟩
    have hstep : ∀ (s : Hashtable Val) (op : Op Val), Open heap mix s → Careful heap mix s op →
        ∃ s' r, step heap mix s op = .ok (s', r) ∧ True ∧ Open heap mix s' := by
      intro s op h hcareful
      obtain ⟨s', r, hreturns, hopen'⟩ := step_open h hcareful
      exact ⟨s', r, hreturns, trivial, hopen'⟩
    exact throughout_of_safeRun (fun _ h => h.counted) hstep ops hopen (returns_ok hrun hnew _ rfl)

/-- A table for two that grows, takes a deleted slot again and is cleared. -/
theorem hashtable_run_counted_growing :
    RunCounted ⟨1000, by decide⟩ (fun key => key.length) 2
      [.put [1] 10, .put [2] 20, .del [1] true, .put [3, 4] 30, .put [5] 50, .putnoreplace [3, 4] 31,
        .clear, .put [6] 60, .valuesGet] :=
  hashtable_run_counted _ _ _ _ (by decide)

/-- In a table for one, the second key takes the last blank slot. -/
theorem not_hashtable_run_counted :
    ¬∀ heap mix initialUsage (ops : List (Op Nat)), RunCounted heap mix initialUsage ops := by
  intro h
  obtain ⟨o, hnew, hrun⟩ := h ⟨1000, by decide⟩ (fun key => key.length) 1
    [.put [1] 10, .put [2, 3] 20]
  cases hnew
  obtain ⟨-, t₁, r₁, h₁, -, -, t₂, r₂, h₂, -, hcounted⟩ := hrun _ rfl
  cases h₁
  cases h₂
  exact absurd hcounted.occupancy_lt (by decide)

end Runs

end JxtaC.Hashtable
