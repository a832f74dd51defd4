import Mathlib.Data.List.AList
import JxtaC.Lib.Transition

/-
  A table that names objects by their keys, over a list of all objects that were ever made: `Names`
  says that a key leads to an object of that key, `Listed` that an object is the one of its key. Both
  are followed through new objects, changes that leave the key as it is, insertions and deletions.
  Nothing here depends on the modelled code.
-/

namespace JxtaC.Lib

section Directory
variable {κ ε : Type} [DecidableEq κ] (key : ε → κ) (objects : List ε)
  (table : AList fun _ : κ => Nat)

/-- What is found under a key is an object of that key. -/
def Names : Prop := ∀ k n, table.lookup k = some n → ∃ x, objects[n]? = some x ∧ key x = k

/-- The object is the one that is found under its key. -/
def Listed (n : Nat) : Prop := ∃ x, objects[n]? = some x ∧ table.lookup (key x) = some n

variable {key objects table} {m n : Nat} {x y : ε}

theorem names_empty : Names key objects ∅ := by
  intro k n h
  rw [AList.lookup_empty] at h
  cases h

section
variable (h : Names key objects table)
include h

theorem Names.listed {k : κ} (hk : table.lookup k = some n) : Listed key objects table n := by
  obtain ⟨x, hx, rfl⟩ := h k n hk
  exact ⟨x, hx, hk⟩

theorem Names.listed_values : ∀ n ∈ table.entries.map Sigma.snd, Listed key objects table n := by
  intro n hn
  obtain ⟨⟨k, m⟩, hmem, rfl⟩ := List.mem_map.mp hn
  exact h.listed (AList.mem_lookup_iff.mpr hmem)

/-- No object is found under two keys. -/
theorem Names.nodup_values : (table.entries.map Sigma.snd).Nodup := by
  apply List.Nodup.map_on _ table.nodupKeys.nodup
  intro ⟨k, n⟩ hk ⟨k', n'⟩ hk' heq
  obtain rfl : n = n' := heq
  obtain ⟨x, hx, rfl⟩ := h k n (AList.mem_lookup_iff.mpr hk)
  obtain ⟨x', hx', rfl⟩ := h k' n (AList.mem_lookup_iff.mpr hk')
  obtain rfl := Option.some.inj (hx.symm.trans hx')
  rfl

theorem Names.set (hn : objects[n]? = some x) (hy : key y = key x) :
    Names key (objects.set n y) table := by
  intro k m hk
  obtain ⟨z, hz, hkey⟩ := h k m hk
  by_cases hm : m = n
  · subst hm
    obtain rfl := Option.some.inj (hn.symm.trans hz)
    exact ⟨y, (getElem?_set_iff hn).mpr (.inl ⟨rfl, rfl⟩), hy.trans hkey⟩
  · exact ⟨z, (getElem?_set_iff hn).mpr (.inr ⟨hm, hz⟩), hkey⟩

end

theorem Listed.set (h : Listed key objects table m) (hn : objects[n]? = some x)
    (hy : key y = key x) : Listed key (objects.set n y) table m := by
  obtain ⟨z, hz, hlookup⟩ := h
  by_cases hm : m = n
  · subst hm
    obtain rfl := Option.some.inj (hn.symm.trans hz)
    exact ⟨y, (getElem?_set_iff hn).mpr (.inl ⟨rfl, rfl⟩), by rwa [hy]⟩
  · exact ⟨z, (getElem?_set_iff hn).mpr (.inr ⟨hm, hz⟩), hlookup⟩

/-- A new object is put into the table under its key. -/
theorem Names.insert (h : Names key objects table) (x : ε) :
    Names key (objects ++ [x]) (table.insert (key x) objects.length) := by
  intro k n hk
  by_cases hkey : k = key x
  · subst hkey
    rw [AList.lookup_insert] at hk
    exact ⟨x, getElem?_concat_iff.mpr (.inr ⟨(Option.some.inj hk).symm, rfl⟩), rfl⟩
  · rw [AList.lookup_insert_ne hkey] at hk
    obtain ⟨y, hy, rfl⟩ := h k n hk
    exact ⟨y, getElem?_concat_iff.mpr (.inl hy), rfl⟩

theorem Listed.insert (h : Listed key objects table n) (hnone : table.lookup (key x) = none) :
    Listed key (objects ++ [x]) (table.insert (key x) m) n := by
  obtain ⟨y, hy, hlookup⟩ := h
  refine ⟨y, getElem?_concat_iff.mpr (.inl hy), ?_⟩
  rw [AList.lookup_insert_ne, hlookup]
  intro heq
  rw [heq, hnone] at hlookup
  cases hlookup

theorem listed_insert (x : ε) :
    Listed key (objects ++ [x]) (table.insert (key x) objects.length) objects.length :=
  ⟨x, getElem?_concat_iff.mpr (.inr ⟨rfl, rfl⟩), AList.lookup_insert _⟩

theorem Names.erase (h : Names key objects table) (k : κ) : Names key objects (table.erase k) := by
  intro k' n hk'
  by_cases hkey : k' = k
  · subst hkey
    rw [AList.lookup_erase] at hk'
    cases hk'
  · rw [AList.lookup_erase_ne hkey] at hk'
    exact h k' n hk'

/-- One object is taken from the table, the others stay. -/
theorem Listed.erase (h : Listed key objects table m) (hn : objects[n]? = some x)
    (hlisted : Listed key objects table n) (hm : m ≠ n) :
    Listed key objects (table.erase (key x)) m := by
  obtain ⟨x', hx', hx⟩ := hlisted
  obtain rfl := Option.some.inj (hn.symm.trans hx')
  obtain ⟨y, hy, hlookup⟩ := h
  refine ⟨y, hy, ?_⟩
  rw [AList.lookup_erase_ne, hlookup]
  intro heq
  rw [heq] at hlookup
  exact hm (Option.some.inj (hlookup.symm.trans hx))

/-- The number of keys, as objects come and go. -/
theorem keys_length_insert {k : κ} (hnone : table.lookup k = none) (n : Nat) :
    (table.insert k n).keys.length = table.keys.length + 1 := by
  rw [AList.keys_insert, List.erase_of_not_mem (AList.lookup_eq_none.mp hnone), List.length_cons]

theorem keys_length_erase_le (k : κ) : (table.erase k).keys.length ≤ table.keys.length := by
  rw [AList.keys_erase]
  exact List.length_erase_le

end Directory

end JxtaC.Lib
