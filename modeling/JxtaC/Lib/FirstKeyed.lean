import Mathlib.Data.List.Nodup

/-
  Lists of objects of distinct keys, to which an object is added unless there is one of its key. Of
  several objects with one key the first one stays. Nothing here depends on the modelled code.
-/

namespace JxtaC.Lib

open List

section FirstKeyed
variable {κ ε : Type} [DecidableEq κ] (key : ε → κ)

/-- The list with `x`, unless it has an object of that key. -/
def putNew (l : List ε) (x : ε) : List ε := if key x ∈ l.map key then l else l ++ [x]

variable {key}

theorem nodup_putNew {l : List ε} (h : (l.map key).Nodup) (x : ε) :
    ((putNew key l x).map key).Nodup := by
  unfold putNew
  by_cases hx : key x ∈ l.map key
  · rwa [if_pos hx]
  · rw [if_neg hx, map_append]
    refine List.Nodup.append h (nodup_singleton _) ?_
    intro k hk hkx
    rw [map_singleton, mem_singleton] at hkx
    rw [hkx] at hk
    exact hx hk

theorem nodup_foldl_putNew {l : List ε} (h : (l.map key).Nodup) (xs : List ε) :
    ((xs.foldl (putNew key) l).map key).Nodup := by
  induction xs generalizing l with
  | nil => exact h
  | cons x xs ih => exact ih (nodup_putNew h x)

/-- A key leads to the same object as if `x` had been added behind the others. -/
theorem find?_putNew (l : List ε) (x : ε) (k : κ) :
    (putNew key l x).find? (fun y => key y = k) = (l ++ [x]).find? fun y => key y = k := by
  unfold putNew
  by_cases hx : key x ∈ l.map key
  · rw [if_pos hx, find?_append]
    cases hfind : l.find? fun y => key y = k with
    | some y => rfl
    | none =>
      have hne : key x ≠ k := by
        intro heq
        obtain ⟨y, hy, hyx⟩ := mem_map.mp hx
        have hno := find?_eq_none.mp hfind y hy
        exact hno (decide_eq_true (hyx.trans heq))
      rw [find?_singleton, if_neg (by simpa using hne)]
      rfl
  · rw [if_neg hx]

theorem find?_foldl_putNew (l xs : List ε) (k : κ) :
    (xs.foldl (putNew key) l).find? (fun y => key y = k) = (l ++ xs).find? fun y => key y = k := by
  induction xs generalizing l with
  | nil => rw [append_nil]; rfl
  | cons x xs ih =>
    rw [foldl_cons, ih, find?_append, find?_putNew, ← find?_append,
      append_assoc, singleton_append]

/-- Where keys are distinct, an object is in the list if its key leads to it. -/
theorem mem_iff_find?_key {l : List ε} (h : (l.map key).Nodup) (x : ε) :
    x ∈ l ↔ l.find? (fun y => key y = key x) = some x := by
  constructor
  · intro hx
    cases hfind : l.find? fun y => key y = key x with
    | none =>
      have hno := find?_eq_none.mp hfind x hx
      exact absurd (decide_eq_true rfl) hno
    | some y =>
      have hkey : key y = key x := by simpa using find?_some hfind
      rw [inj_on_of_nodup_map h (mem_of_find?_eq_some hfind) hx hkey]
  · exact mem_of_find?_eq_some

/-- Of several objects with one key the first one stays. -/
theorem mem_foldl_putNew (xs : List ε) (x : ε) :
    x ∈ xs.foldl (putNew key) [] ↔ xs.find? (fun y => key y = key x) = some x := by
  have hnil : (([] : List ε).map key).Nodup := nodup_nil
  rw [mem_iff_find?_key (nodup_foldl_putNew hnil xs), find?_foldl_putNew, nil_append]

theorem foldl_putNew_eq_nil (xs : List ε) : xs.foldl (putNew key) [] = [] ↔ xs = [] := by
  constructor
  · intro h
    cases xs with
    | nil => rfl
    | cons x xs =>
      have hfind : (x :: xs).find? (fun y => key y = key x) = some x :=
        find?_cons_of_pos (decide_eq_true rfl)
      have hmem := (mem_foldl_putNew (x :: xs) x).mpr hfind
      rw [h] at hmem
      exact absurd hmem not_mem_nil
  · intro h
    rw [h]
    rfl

end FirstKeyed

end JxtaC.Lib
