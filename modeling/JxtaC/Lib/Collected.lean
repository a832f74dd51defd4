import Mathlib.Data.List.AList
import Mathlib.Data.List.Induction

/-
  A table that keeps a list under each key: `collect` puts an element behind those of its key. What
  is found under a key after a list of them are the elements of that key, in their order. Also, when
  two partial maps make the same of a list. Nothing here depends on the modelled code.
-/

namespace JxtaC.Lib

open List

section Collected
variable {κ α β : Type} [DecidableEq κ]
variable (table : AList fun _ : κ => List β)

/-- The table with `x` behind the elements of its key. -/
def collect (table : AList fun _ : κ => List β) (k : κ) (x : β) : AList fun _ : κ => List β :=
  table.insert k ((table.lookup k).getD [] ++ [x])

/-- The elements of one key. -/
def ofKey (key : α → κ) (val : α → β) (xs : List α) (k : κ) : List β :=
  (xs.filter fun x => key x = k).map val

/-- The elements, each under its key. -/
def collected (key : α → κ) (val : α → β) (xs : List α) : AList fun _ : κ => List β :=
  xs.foldl (fun table x => collect table (key x) (val x)) ∅

/-- What is found under a key, if anything. -/
def listed (table : AList fun _ : κ => List β) (k : κ) : List β := (table.lookup k).getD []

variable {key : α → κ} {val : α → β} {xs : List α} {k k' : κ}

@[simp] theorem listed_insert_self (l : List β) : listed (table.insert k l) k = l := by
  rw [listed, AList.lookup_insert]
  rfl

theorem listed_insert_ne (l : List β) (h : k' ≠ k) :
    listed (table.insert k l) k' = listed table k' := by
  rw [listed, AList.lookup_insert_ne h]
  rfl

@[simp] theorem listed_collect_self (x : β) :
    listed (collect table k x) k = listed table k ++ [x] := listed_insert_self table _

theorem listed_collect_ne (x : β) (h : k' ≠ k) : listed (collect table k x) k' = listed table k' :=
  listed_insert_ne table _ h

theorem collected_concat (xs : List α) (x : α) :
    collected key val (xs ++ [x]) = collect (collected key val xs) (key x) (val x) := by
  unfold collected
  rw [foldl_append]
  rfl

theorem ofKey_concat_self (xs : List α) (x : α) :
    ofKey key val (xs ++ [x]) (key x) = ofKey key val xs (key x) ++ [val x] := by
  simp [ofKey]

theorem ofKey_concat_ne (xs : List α) {x : α} (h : key x ≠ k) :
    ofKey key val (xs ++ [x]) k = ofKey key val xs k := by
  simp [ofKey, h]

theorem ofKey_ne_nil : ofKey key val xs k ≠ [] ↔ ∃ x ∈ xs, key x = k := by
  unfold ofKey
  rw [Ne, map_eq_nil_iff, filter_eq_nil_iff]
  simp

theorem lookup_collected (k : κ) : (collected key val xs).lookup k =
    if ofKey key val xs k = [] then none else some (ofKey key val xs k) := by
  induction xs using List.reverseRecOn with
  | nil => rfl
  | append_singleton xs x ih =>
    rw [collected_concat, collect]
    by_cases hk : key x = k
    · subst hk
      rw [AList.lookup_insert, ih, ofKey_concat_self, if_neg (append_ne_nil_of_right_ne_nil _
        (cons_ne_nil _ _))]
      by_cases hnil : ofKey key val xs (key x) = []
      · rw [if_pos hnil, hnil]
        rfl
      · rw [if_neg hnil]
        rfl
    · rw [AList.lookup_insert_ne (Ne.symm hk), ih, ofKey_concat_ne xs hk]

theorem lookup_collected_of_ne_nil (h : ofKey key val xs k ≠ []) :
    (collected key val xs).lookup k = some (ofKey key val xs k) := by
  rw [lookup_collected, if_neg h]

theorem mem_collected : k ∈ collected key val xs ↔ ofKey key val xs k ≠ [] := by
  rw [← AList.lookup_isSome, lookup_collected]
  by_cases h : ofKey key val xs k = []
  · simp [h]
  · simp [h]

end Collected

/-! ## two partial maps over a list -/

theorem length_filterMap_le {α β : Type} {f g : α → Option β} {l : List α}
    (h : ∀ a ∈ l, f a ≠ none → g a ≠ none) : (l.filterMap f).length ≤ (l.filterMap g).length := by
  induction l with
  | nil => exact Nat.le_refl _
  | cons a l ih =>
    have hle := ih fun b hb => h b (mem_cons_of_mem a hb)
    cases hf : f a with
    | some y =>
      obtain ⟨z, hg⟩ := Option.ne_none_iff_exists'.mp
        (h a mem_cons_self (by rw [hf]; exact Option.some_ne_none y))
      rw [filterMap_cons_some hf, filterMap_cons_some hg]
      exact Nat.succ_le_succ hle
    | none =>
      rw [filterMap_cons_none hf]
      cases hg : g a with
      | none => rwa [filterMap_cons_none hg]
      | some z =>
        rw [filterMap_cons_some hg, length_cons]
        omega

/-- Two partial maps of which one is defined wherever the other one is agree on a list if they make
the same of it. -/
theorem filterMap_eq_iff {α β : Type} {f g : α → Option β} {l : List α}
    (h : ∀ a ∈ l, f a ≠ none → g a ≠ none) :
    l.filterMap f = l.filterMap g ↔ ∀ a ∈ l, f a = g a := by
  constructor
  · intro heq
    induction l with
    | nil =>
      intro a ha
      exact absurd ha not_mem_nil
    | cons a l ih =>
      have hrest : ∀ b ∈ l, f b ≠ none → g b ≠ none :=
        fun b hb => h b (mem_cons_of_mem a hb)
      have hhead : f a = g a ∧ l.filterMap f = l.filterMap g := by
        cases hf : f a with
        | some y =>
          obtain ⟨z, hg⟩ := Option.ne_none_iff_exists'.mp
            (h a mem_cons_self (by rw [hf]; exact Option.some_ne_none y))
          rw [filterMap_cons_some hf, filterMap_cons_some hg] at heq
          obtain ⟨rfl, htail⟩ := List.cons.inj heq
          exact ⟨hg.symm, htail⟩
        | none =>
          cases hg : g a with
          | none =>
            rw [filterMap_cons_none hf, filterMap_cons_none hg] at heq
            exact ⟨rfl, heq⟩
          | some z =>
            rw [filterMap_cons_none hf, filterMap_cons_some hg] at heq
            have hlen := congrArg List.length heq
            have hle := length_filterMap_le hrest
            rw [length_cons] at hlen
            omega
      intro b hb
      rcases mem_cons.mp hb with rfl | hb
      · exact hhead.1
      · exact ih hrest hhead.2 b hb
  · intro heq
    exact filterMap_congr heq

end JxtaC.Lib
