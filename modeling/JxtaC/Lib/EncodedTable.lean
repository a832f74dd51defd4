import Mathlib.Data.List.AList

/-
  A table over the encodings of names, and the registry of the names themselves. `Encodes` says that
  the table holds the encoded names of the registry with their values, and nothing else, and that no
  two registered names have one encoding. It is kept by insertions and deletions whose encoding is
  that of no other registered name (`Alone`). Nothing here depends on the modelled code.
-/

namespace JxtaC.Lib

variable {α κ β : Type} [DecidableEq α] [DecidableEq κ]

/-- No other registered name has this encoding. -/
def Alone (enc : α → κ) (registry : AList fun _ : α => β) (a : α) (k : κ) : Prop :=
  ∀ a' ∈ registry.keys, enc a' = k → a' = a

instance (enc : α → κ) (registry : AList fun _ : α => β) (a : α) (k : κ) :
    Decidable (Alone enc registry a k) :=
  inferInstanceAs (Decidable (∀ a' ∈ registry.keys, enc a' = k → a' = a))

/-- The table holds the registered names, encoded, and nothing else. -/
structure Encodes (enc : α → κ) (table : AList fun _ : κ => β) (registry : AList fun _ : α => β) :
    Prop where
  found : ∀ a b, registry.lookup a = some b → table.lookup (enc a) = some b
  only : ∀ k b, table.lookup k = some b → ∃ a, enc a = k ∧ registry.lookup a = some b
  apart : ∀ a ∈ registry.keys, Alone enc registry a (enc a)

theorem encodes_empty (enc : α → κ) :
    Encodes enc (∅ : AList fun _ : κ => β) (∅ : AList fun _ : α => β) := by
  refine ⟨fun a b h => ?_, fun k b h => ?_, fun a h => ?_⟩
  · rw [AList.lookup_empty] at h
    cases h
  · rw [AList.lookup_empty] at h
    cases h
  · rw [AList.keys_empty] at h
    exact absurd h List.not_mem_nil

section Table
variable {enc : α → κ} {table : AList fun _ : κ => β} {registry : AList fun _ : α => β}

theorem mem_keys_of_lookup {a : α} {b : β} (h : registry.lookup a = some b) : a ∈ registry.keys :=
  AList.mem_keys.mp (AList.lookup_isSome.mp (by rw [h]; rfl))

theorem erase_of_lookup {k : κ} (h : table.lookup k = none) : table.erase k = table :=
  AList.ext (List.kerase_of_notMem_keys (AList.lookup_eq_none.mp h))

section
variable (h : Encodes enc table registry)
include h

/-- A name that shares its encoding with no registered name is looked up as in the registry. -/
theorem Encodes.lookup {a : α} (halone : Alone enc registry a (enc a)) :
    table.lookup (enc a) = registry.lookup a := by
  cases hregistry : registry.lookup a with
  | some b => exact h.found a b hregistry
  | none =>
    cases htable : table.lookup (enc a) with
    | none => rfl
    | some b =>
      obtain ⟨a', ha', hlookup⟩ := h.only _ _ htable
      obtain rfl := halone a' (mem_keys_of_lookup hlookup) ha'
      exact hregistry.symm.trans hlookup |>.symm

/-- Such a name is registered and found, or neither. -/
theorem Encodes.found_or {a : α} (halone : Alone enc registry a (enc a)) :
    (a ∈ registry.keys ∧ ∃ b, registry.lookup a = some b ∧ table.lookup (enc a) = some b) ∨
      (a ∉ registry.keys ∧ registry.lookup a = none ∧ table.lookup (enc a) = none) := by
  rw [h.lookup halone]
  cases hlookup : registry.lookup a with
  | some b => exact .inl ⟨mem_keys_of_lookup hlookup, b, rfl, rfl⟩
  | none =>
    refine .inr ⟨fun hmem => ?_, rfl, rfl⟩
    exact AList.lookup_eq_none.mp hlookup (AList.mem_keys.mpr hmem)

theorem Encodes.lookup_eq_none {k : κ} (hnone : ∀ a ∈ registry.keys, enc a ≠ k) :
    table.lookup k = none := by
  cases htable : table.lookup k with
  | none => rfl
  | some b =>
    obtain ⟨a, ha, hlookup⟩ := h.only _ _ htable
    exact absurd ha (hnone a (mem_keys_of_lookup hlookup))

theorem Encodes.insert {a : α} (halone : Alone enc registry a (enc a))
    (hnone : registry.lookup a = none) (b : β) :
    Encodes enc (table.insert (enc a) b) (registry.insert a b) := by
  have hother : ∀ a' ∈ registry.keys, enc a' ≠ enc a := by
    intro a' ha' heq
    obtain rfl := halone a' ha' heq
    exact AList.lookup_eq_none.mp hnone (AList.mem_keys.mpr ha')
  have hkeys : ∀ a' ∈ (registry.insert a b).keys, a' = a ∨ a' ∈ registry.keys := by
    intro a' ha'
    exact (AList.mem_insert registry).mp (AList.mem_keys.mpr ha') |>.imp_right AList.mem_keys.mp
  refine ⟨fun a' b' ha' => ?_, fun k b' hk => ?_, fun a' ha' a'' ha'' heq => ?_⟩
  · by_cases hname : a' = a
    · subst hname
      rw [AList.lookup_insert] at ha' ⊢
      exact ha'
    · rw [AList.lookup_insert_ne hname] at ha'
      rw [AList.lookup_insert_ne (hother a' (mem_keys_of_lookup ha'))]
      exact h.found a' b' ha'
  · by_cases hkey : k = enc a
    · subst hkey
      rw [AList.lookup_insert] at hk
      refine ⟨a, rfl, ?_⟩
      rw [AList.lookup_insert]
      exact hk
    · rw [AList.lookup_insert_ne hkey] at hk
      obtain ⟨a', rfl, hlookup⟩ := h.only k b' hk
      refine ⟨a', rfl, ?_⟩
      rw [AList.lookup_insert_ne fun heq => hkey (congrArg enc heq)]
      exact hlookup
  · rcases hkeys a' ha' with rfl | hmem
    · rcases hkeys a'' ha'' with rfl | hmem'
      · rfl
      · exact halone a'' hmem' heq
    · rcases hkeys a'' ha'' with rfl | hmem'
      · exact absurd heq.symm (hother a' hmem)
      · exact h.apart a' hmem a'' hmem' heq

/-- What is found under a key is deleted, in a registry where that is the name, if it is there. -/
theorem Encodes.erase {a : α} {k : κ} (halone : Alone enc registry a k)
    (hkey : a ∈ registry.keys → enc a = k) : Encodes enc (table.erase k) (registry.erase a) := by
  have hlookup : ∀ {a' b}, (registry.erase a).lookup a' = some b →
      a' ≠ a ∧ registry.lookup a' = some b := by
    intro a' b ha'
    by_cases hname : a' = a
    · subst hname
      rw [AList.lookup_erase] at ha'
      cases ha'
    · rw [AList.lookup_erase_ne hname] at ha'
      exact ⟨hname, ha'⟩
  refine ⟨fun a' b ha' => ?_, fun k' b hk' => ?_, fun a' ha' a'' ha'' heq => ?_⟩
  · obtain ⟨hname, ha'⟩ := hlookup ha'
    have hne : enc a' ≠ k := fun heq => hname (halone a' (mem_keys_of_lookup ha') heq)
    rw [AList.lookup_erase_ne hne]
    exact h.found a' b ha'
  · by_cases hk : k' = k
    · subst hk
      rw [AList.lookup_erase] at hk'
      cases hk'
    · rw [AList.lookup_erase_ne hk] at hk'
      obtain ⟨a', rfl, ha'⟩ := h.only k' b hk'
      refine ⟨a', rfl, ?_⟩
      rw [AList.lookup_erase_ne]
      · exact ha'
      · rintro rfl
        exact hk (hkey (mem_keys_of_lookup ha'))
  · rw [AList.keys_erase] at ha' ha''
    exact h.apart a' (List.mem_of_mem_erase ha') a'' (List.mem_of_mem_erase ha'') heq

end

end Table

end JxtaC.Lib
