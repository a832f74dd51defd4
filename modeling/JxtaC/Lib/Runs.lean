import Mathlib.Data.List.Nodup
import Mathlib.Data.List.Pairwise

/-
  Runs of one key in a list that is read in one pass. Of an item `view` shows what belongs to a run,
  or nothing. A run also has the items that came by while it was the current one, up to the item
  that begins the next.
  Where the keys are ordered, there is one run for each key, with all that has the key
  (`grouped_runs`). Nothing here depends on the modelled code.
-/

namespace JxtaC.Lib

open List

structure Run (α β κ : Type) where
  key : κ
  own : List β
  read : List α

namespace Run

variable {α β κ : Type} (view : α → Option β) (key : β → κ) [DecidableEq κ]
variable {k : κ} {own : List β} {read : List α} {a : α} {rest : List α}

/-- The runs from the current one on. -/
def runsFrom (k : κ) (own : List β) (read : List α) : List α → List (Run α β κ)
  | [] => [⟨k, own, read⟩]
  | a :: rest =>
    match view a with
    | none => runsFrom k own (read ++ [a]) rest
    | some b =>
      if key b = k then runsFrom k (own ++ [b]) (read ++ [a]) rest
      else ⟨k, own, read ++ [a]⟩ :: runsFrom (key b) [b] [] rest

/-- The runs of a list; the first one has what came before it. -/
def runs (read : List α) : List α → List (Run α β κ)
  | [] => []
  | a :: rest =>
    match view a with
    | none => runs (read ++ [a]) rest
    | some b => runsFrom view key (key b) [b] (read ++ [a]) rest

/-- There is one run for each key, in order, with all that has the key. -/
structure Grouped (le : κ → κ → Prop) (bs : List β) (rs : List (Run α β κ)) : Prop where
  own : ∀ r ∈ rs, r.own = bs.filter (key · = r.key) ∧ r.own ≠ []
  keys : ∀ k, k ∈ rs.map Run.key ↔ ∃ b ∈ bs, key b = k
  nodup : (rs.map Run.key).Nodup
  sorted : (rs.map Run.key).Pairwise le

variable {view : α → Option β} {key : β → κ} {le : κ → κ → Prop}

theorem runsFrom_none (h : view a = none) :
    runsFrom view key k own read (a :: rest) = runsFrom view key k own (read ++ [a]) rest := by
  rw [runsFrom, h]

theorem runsFrom_same {b : β} (h : view a = some b) (hkey : key b = k) :
    runsFrom view key k own read (a :: rest) =
      runsFrom view key k (own ++ [b]) (read ++ [a]) rest := by
  rw [runsFrom, h]
  exact if_pos hkey

theorem runsFrom_next {b : β} (h : view a = some b) (hkey : key b ≠ k) :
    runsFrom view key k own read (a :: rest) =
      ⟨k, own, read ++ [a]⟩ :: runsFrom view key (key b) [b] [] rest := by
  rw [runsFrom, h]
  exact if_neg hkey

theorem mem_keys_runsFrom (rest : List α) (k : κ) (own : List β) (read : List α) (k' : κ) :
    k' ∈ (runsFrom view key k own read rest).map Run.key ↔
      k' = k ∨ ∃ b ∈ rest.filterMap view, key b = k' := by
  induction rest generalizing k own read with
  | nil => simp [runsFrom]
  | cons a rest ih =>
    cases hview : view a with
    | none => rw [runsFrom_none hview, ih, filterMap_cons_none hview]
    | some b =>
      rw [filterMap_cons_some hview, exists_mem_cons_iff]
      by_cases hkey : key b = k
      · rw [runsFrom_same hview hkey, ih, hkey, ← or_assoc, @eq_comm _ k k', or_self]
      · rw [runsFrom_next hview hkey, map_cons, mem_cons, ih, @eq_comm _ (key b) k']

/-- In any order, the keys of the runs are those of the list. -/
theorem mem_keys_runs (list read : List α) (k : κ) :
    k ∈ (runs view key read list).map Run.key ↔ ∃ b ∈ list.filterMap view, key b = k := by
  induction list generalizing read with
  | nil => simp [runs]
  | cons a rest ih =>
    rw [runs]
    cases hview : view a with
    | none =>
      rw [filterMap_cons_none hview]
      exact ih _
    | some b =>
      rw [filterMap_cons_some hview, exists_mem_cons_iff, @eq_comm _ (key b) k]
      exact mem_keys_runsFrom rest _ _ _ k

theorem own_ne_nil_runsFrom (rest : List α) (k : κ) (hown : own ≠ []) (read : List α) :
    ∀ r ∈ runsFrom view key k own read rest, r.own ≠ [] := by
  induction rest generalizing k own read with
  | nil =>
    intro r hr
    rw [mem_singleton.mp hr]
    exact hown
  | cons a rest ih =>
    cases hview : view a with
    | none =>
      rw [runsFrom_none hview]
      exact ih k hown _
    | some b =>
      by_cases hkey : key b = k
      · rw [runsFrom_same hview hkey]
        exact ih k (by simp) _
      · rw [runsFrom_next hview hkey]
        exact forall_mem_cons.mpr ⟨hown, ih _ (by simp) _⟩

theorem own_ne_nil_runs (list read : List α) : ∀ r ∈ runs view key read list, r.own ≠ [] := by
  induction list generalizing read with
  | nil => exact fun r hr => absurd hr not_mem_nil
  | cons a rest ih =>
    rw [runs]
    cases hview : view a with
    | none => exact ih _
    | some b => exact own_ne_nil_runsFrom rest _ (by simp) _

theorem grouped_single (read : List α) (hown : ∀ b ∈ own, key b = k) (hne : own ≠ []) :
    Grouped key le own [(⟨k, own, read⟩ : Run α β κ)] where
  own := by
    intro r hr
    obtain rfl := mem_singleton.mp hr
    refine ⟨?_, hne⟩
    exact (filter_eq_self.mpr fun b hb => decide_eq_true (hown b hb)).symm
  keys := by
    intro k'
    rw [map_singleton, mem_singleton]
    constructor
    · rintro rfl
      obtain ⟨b, hb⟩ := exists_mem_of_ne_nil own hne
      exact ⟨b, hb, hown b hb⟩
    · rintro ⟨b, hb, rfl⟩
      exact hown b hb
  nodup := nodup_singleton _
  sorted := pairwise_singleton _ _

/-- A run in front of others that have greater keys. -/
theorem Grouped.cons {bs : List β} {rs : List (Run α β κ)} (read : List α)
    (h : Grouped key le bs rs) (hown : ∀ b ∈ own, key b = k) (hne : own ≠ [])
    (hle : ∀ b ∈ bs, le k (key b)) (hnot : ∀ b ∈ bs, key b ≠ k) :
    Grouped key le (own ++ bs) (⟨k, own, read⟩ :: rs) where
  own := by
    intro r hr
    rw [filter_append]
    rcases mem_cons.mp hr with rfl | hr
    · have hself : own.filter (key · = k) = own :=
        filter_eq_self.mpr fun b hb => decide_eq_true (hown b hb)
      have hnil : bs.filter (key · = k) = [] :=
        filter_eq_nil_iff.mpr fun b hb heq => hnot b hb (of_decide_eq_true heq)
      refine ⟨?_, hne⟩
      rw [hself, hnil, append_nil]
    · obtain ⟨hfilter, hne'⟩ := h.own r hr
      have hkey : r.key ≠ k := by
        obtain ⟨b, hb, heq⟩ := (h.keys r.key).mp (mem_map_of_mem hr)
        exact fun hsame => hnot b hb (heq.trans hsame)
      have hnil : own.filter (key · = r.key) = [] :=
        filter_eq_nil_iff.mpr fun b hb heq =>
          hkey ((of_decide_eq_true heq).symm.trans (hown b hb))
      refine ⟨?_, hne'⟩
      rw [hnil, nil_append, hfilter]
  keys := by
    intro k'
    rw [map_cons, mem_cons, h.keys]
    constructor
    · rintro (rfl | ⟨b, hb, heq⟩)
      · obtain ⟨b, hb⟩ := exists_mem_of_ne_nil own hne
        exact ⟨b, mem_append_left _ hb, hown b hb⟩
      · exact ⟨b, mem_append_right _ hb, heq⟩
    · rintro ⟨b, hb, rfl⟩
      rcases mem_append.mp hb with hb | hb
      · exact .inl (hown b hb)
      · exact .inr ⟨b, hb, rfl⟩
  nodup := by
    rw [map_cons, nodup_cons, h.keys]
    refine ⟨?_, h.nodup⟩
    rintro ⟨b, hb, heq⟩
    exact hnot b hb heq
  sorted := by
    rw [map_cons, pairwise_cons]
    refine ⟨?_, h.sorted⟩
    intro k' hk'
    obtain ⟨b, hb, rfl⟩ := (h.keys k').mp hk'
    exact hle b hb

/-- The induction is on what is left to read; the run that is current has all of its key so far. -/
theorem grouped_runsFrom (hanti : ∀ a b, le a b → le b a → a = b) (rest : List α) (read : List α)
    (hown : ∀ b ∈ own, key b = k) (hne : own ≠ [])
    (hsorted : (own ++ rest.filterMap view).Pairwise fun a b => le (key a) (key b)) :
    Grouped key le (own ++ rest.filterMap view) (runsFrom view key k own read rest) := by
  induction rest generalizing k own read with
  | nil =>
    rw [filterMap_nil, append_nil]
    exact grouped_single read hown hne
  | cons a rest ih =>
    cases hview : view a with
    | none =>
      rw [filterMap_cons_none hview] at hsorted ⊢
      rw [runsFrom_none hview]
      exact ih _ hown hne hsorted
    | some b =>
      rw [filterMap_cons_some hview] at hsorted ⊢
      by_cases hkey : key b = k
      · have happend : own ++ b :: rest.filterMap view = (own ++ [b]) ++ rest.filterMap view := by
          rw [append_assoc, singleton_append]
        have hown' : ∀ c ∈ own ++ [b], key c = k := by
          intro c hc
          rcases mem_append.mp hc with hc | hc
          · exact hown c hc
          · rw [mem_singleton.mp hc, hkey]
        rw [runsFrom_same hview hkey]
        rw [happend] at hsorted ⊢
        exact ih _ hown' (by simp) hsorted
      · obtain ⟨-, htail, hbefore⟩ := pairwise_append.mp hsorted
        obtain ⟨hfirst, -⟩ := pairwise_cons.mp htail
        obtain ⟨o, ho⟩ := exists_mem_of_ne_nil own hne
        have hle : ∀ c ∈ b :: rest.filterMap view, le k (key c) := by
          intro c hc
          rw [← hown o ho]
          exact hbefore o ho c hc
        have hnot : ∀ c ∈ b :: rest.filterMap view, key c ≠ k := by
          intro c hc heq
          rcases mem_cons.mp hc with rfl | hc
          · exact hkey heq
          · have hback := hfirst c hc
            rw [heq] at hback
            exact hkey (hanti _ _ hback (hle b mem_cons_self))
        have hnext : ∀ c ∈ [b], key c = key b := fun c hc => by rw [mem_singleton.mp hc]
        rw [runsFrom_next hview hkey]
        exact (ih [] hnext (by simp) htail).cons _ hown hne hle hnot

theorem grouped_runs (hanti : ∀ a b, le a b → le b a → a = b) (list : List α) (read : List α)
    (hsorted : (list.filterMap view).Pairwise fun a b => le (key a) (key b)) :
    Grouped key le (list.filterMap view) (runs view key read list) := by
  induction list generalizing read with
  | nil =>
    refine ⟨fun r hr => absurd hr not_mem_nil, fun k => ?_, nodup_nil, .nil⟩
    exact iff_of_false not_mem_nil fun ⟨b, hb, _⟩ => not_mem_nil hb
  | cons a rest ih =>
    rw [runs]
    cases hview : view a with
    | none =>
      rw [filterMap_cons_none hview] at hsorted ⊢
      exact ih _ hsorted
    | some b =>
      rw [filterMap_cons_some hview] at hsorted ⊢
      have hown : ∀ c ∈ [b], key c = key b := fun c hc => by rw [mem_singleton.mp hc]
      exact grouped_runsFrom hanti rest _ hown (by simp) hsorted

end Run

end JxtaC.Lib
