import Mathlib.Data.List.Nodup
import Mathlib.Logic.Function.Basic

/-
  Circular doubly-linked lists. `Links` are the two pointers of every node; `Way` is a way from one
  node to another through a list of nodes, with the pointers of both directions; a list of nodes is
  a `Circle` if there is a way from its head through the rest back to the head. The operations that
  add a node in front of the head and take one out keep a circle (`circle_addLast`,
  `circle_remove`). Nothing here depends on the modelled code.
-/

namespace JxtaC.Lib

open List

/-- The pointers of the nodes. -/
structure Links where
  left : Nat → Nat
  right : Nat → Nat

namespace Links

/-- A node on its own. -/
def single (k : Links) (node : Nat) : Links :=
  { left := Function.update k.left node node, right := Function.update k.right node node }

/-- Puts a node between the head and what is left of it. -/
def addLast (k : Links) (node : Nat) : Option Nat → Links × Nat
  | none => (k.single node, node)
  | some head =>
    let left := Function.update k.left node (k.left head)
    let right := Function.update k.right node head
    let right := if k.right head = head then Function.update right head node
      else Function.update right (k.left head) node
    ({ left := Function.update left head node, right }, head)

/-- Takes a node out. The head moves on if it is the node. -/
def remove (k : Links) (node : Nat) (head : Option Nat) : Links × Option Nat :=
  if k.left node = k.right node ∧ k.right node = node then (k, none)
  else
    let head := if some node = head then some (k.right node) else head
    let left := Function.update k.left (k.right node) (k.left node)
    let right := Function.update k.right (k.left node) (k.right node)
    ({ left, right }, head)

/-- The way from `x` through `l` to `y`, in both directions. -/
def Way (k : Links) : (x : Nat) → (l : List Nat) → (y : Nat) → Prop
  | x, [], y => k.right x = y ∧ k.left y = x
  | x, z :: l, y => k.right x = z ∧ k.left z = x ∧ Way k z l y

/-- The nodes of the list, in a circle. -/
def Circle (k : Links) : List Nat → Prop
  | [] => True
  | h :: t => (h :: t).Nodup ∧ k.Way h t h

variable {k : Links} {x y z : Nat} {l u v : List Nat}

theorem circle_cons : k.Circle (x :: l) ↔ (x :: l).Nodup ∧ k.Way x l x := Iff.rfl

theorem way_append : k.Way x (u ++ z :: v) y ↔ k.Way x u z ∧ k.Way z v y := by
  induction u generalizing x with
  | nil => simp [Way, and_assoc]
  | cons w u ih =>
    simp only [cons_append, Way]
    rw [ih]
    simp only [and_assoc]

/-- The pointers of other nodes do not matter. -/
theorem Way.congr {k' : Links} (h : k.Way x l y) (hright : ∀ n ∈ x :: l, k'.right n = k.right n)
    (hleft : ∀ n ∈ l ++ [y], k'.left n = k.left n) : k'.Way x l y := by
  induction l generalizing x with
  | nil =>
    refine ⟨(hright x mem_cons_self).trans h.1, ?_⟩
    exact (hleft y (mem_append_right _ mem_cons_self)).trans h.2
  | cons z l ih =>
    obtain ⟨hr, hl, hrest⟩ := h
    refine ⟨(hright x mem_cons_self).trans hr, (hleft z mem_cons_self).trans hl, ?_⟩
    exact ih hrest (fun n hn => hright n (mem_cons_of_mem _ hn))
      fun n hn => hleft n (mem_cons_of_mem _ hn)

/-- A circle has no first node. -/
theorem circle_rotate : k.Circle (u ++ v) ↔ k.Circle (v ++ u) := by
  have hone : ∀ u v : List Nat, k.Circle (u ++ v) → k.Circle (v ++ u) := by
    intro u v h
    cases u with
    | nil => simpa using h
    | cons a u =>
      cases v with
      | nil => simpa using h
      | cons b v =>
        rw [cons_append, circle_cons] at h ⊢
        obtain ⟨hnodup, hway⟩ := h
        have hperm : (a :: u ++ b :: v).Perm (b :: v ++ a :: u) := perm_append_comm
        refine ⟨hperm.nodup_iff.mp hnodup, ?_⟩
        obtain ⟨hfirst, hsecond⟩ := way_append.mp hway
        exact way_append.mpr ⟨hsecond, hfirst⟩
  exact ⟨hone u v, hone v u⟩

/-- Behind a node of a circle stands the next one, and behind the last one the first. -/
theorem Circle.right_eq (h : k.Circle (u ++ x :: v)) : k.right x = (v ++ u).headD x := by
  have hrot := circle_rotate.mp h
  rw [cons_append, circle_cons] at hrot
  obtain ⟨-, hway⟩ := hrot
  cases hvu : v ++ u with
  | nil =>
    rw [hvu] at hway
    exact hway.1
  | cons y l =>
    rw [hvu] at hway
    exact hway.1

theorem Way.left_right (h : k.Way x l y) : k.left (k.right x) = x := by
  cases l with
  | nil => rw [h.1, h.2]
  | cons z l => rw [h.1, h.2.1]

theorem Way.right_left (h : k.Way x l y) : k.right (k.left y) = y := by
  induction l generalizing x with
  | nil => rw [h.2, h.1]
  | cons z l ih => exact ih h.2.2

theorem Way.left_mem (h : k.Way x l y) : k.left y ∈ x :: l := by
  induction l generalizing x with
  | nil =>
    rw [h.2]
    exact mem_cons_self
  | cons z l ih => exact mem_cons_of_mem x (ih h.2.2)

/-- A way whose last step leads somewhere else. -/
theorem Way.redirect {k' : Links} (h : k.Way x l y) (hnodup : (x :: l).Nodup)
    (hright : ∀ n ∈ x :: l, n ≠ k.left y → k'.right n = k.right n)
    (hleft : ∀ n ∈ l, k'.left n = k.left n) (hlast : k'.right (k.left y) = z)
    (hback : k'.left z = k.left y) : k'.Way x l z := by
  induction l generalizing x with
  | nil =>
    rw [h.2] at hlast hback
    exact ⟨hlast, hback⟩
  | cons w l ih =>
    obtain ⟨hr, hl, hrest⟩ := h
    obtain ⟨hx, hnodup⟩ := nodup_cons.mp hnodup
    have hne : x ≠ k.left y := fun heq => hx (heq ▸ hrest.left_mem)
    refine ⟨(hright x mem_cons_self hne).trans hr,
      (hleft w mem_cons_self).trans hl, ?_⟩
    exact ih hrest hnodup (fun n hn => hright n (mem_cons_of_mem _ hn))
      fun n hn => hleft n (mem_cons_of_mem _ hn)

/-- Puts a node between the last one and the first. -/
def insertLast (k : Links) (head node : Nat) : Links :=
  { left := Function.update (Function.update k.left head node) node (k.left head)
    right := Function.update (Function.update k.right (k.left head) node) node head }

theorem circle_insertLast (h : k.Circle (x :: l)) (hy : y ∉ x :: l) :
    (k.insertLast x y).Circle (x :: (l ++ [y])) := by
  obtain ⟨hnodup, hway⟩ := h
  have hxy : x ≠ y := fun heq => hy (heq ▸ mem_cons_self)
  have hlast : k.left x ≠ y := fun heq => hy (heq ▸ hway.left_mem)
  refine ⟨?_, way_append.mpr ⟨hway.redirect hnodup (fun n hn hne => ?_) (fun n hn => ?_) ?_ ?_,
    ?_, ?_⟩⟩
  · rw [← cons_append, nodup_append]
    refine ⟨hnodup, nodup_singleton y, fun n hn m hm heq => hy ?_⟩
    rw [← mem_singleton.mp hm, ← heq]
    exact hn
  · have hny : n ≠ y := fun heq => hy (heq ▸ hn)
    dsimp only [insertLast]
    rw [Function.update_of_ne hny, Function.update_of_ne hne]
  · have hny : n ≠ y := fun heq => hy (heq ▸ mem_cons_of_mem _ hn)
    have hnx : n ≠ x := fun heq => (nodup_cons.mp hnodup).1 (heq ▸ hn)
    dsimp only [insertLast]
    rw [Function.update_of_ne hny, Function.update_of_ne hnx]
  · dsimp only [insertLast]
    rw [Function.update_of_ne hlast, Function.update_self]
  · exact Function.update_self ..
  · exact Function.update_self ..
  · dsimp only [insertLast]
    rw [Function.update_of_ne hxy, Function.update_self]

/-- In a circle the two pointers undo each other. -/
theorem Circle.inverse (h : k.Circle l) (hx : x ∈ l) :
    k.left (k.right x) = x ∧ k.right (k.left x) = x := by
  obtain ⟨u, v, rfl⟩ := append_of_mem hx
  obtain ⟨-, hway⟩ := circle_rotate.mp h
  exact ⟨hway.left_right, hway.right_left⟩

/-- The pointers of a circle stay in it. -/
theorem Circle.mem (h : k.Circle l) (hx : x ∈ l) : k.left x ∈ l ∧ k.right x ∈ l := by
  obtain ⟨u, v, rfl⟩ := append_of_mem hx
  have hrot : k.Circle (x :: (v ++ u)) := circle_rotate.mp h
  have hperm : (x :: (v ++ u)).Perm (u ++ x :: v) := by
    rw [← cons_append]
    exact perm_append_comm
  refine ⟨hperm.subset hrot.2.left_mem, hperm.subset ?_⟩
  rw [h.right_eq]
  cases v ++ u with
  | nil => exact mem_cons_self
  | cons y l => exact mem_cons_of_mem _ mem_cons_self

/-- What `remove` makes of the pointers of a node that is not alone. -/
theorem Circle.remove_links (h : k.Circle (x :: u ++ y :: v)) (head : Option Nat) :
    (k.remove y head).1 =
      { left := Function.update k.left (k.right y) (k.left y)
        right := Function.update k.right (k.left y) (k.right y) } := by
  have hmore : ¬(k.left y = k.right y ∧ k.right y = y) := by
    intro hsingle
    have hright : k.right y = (v ++ x :: u).headD y := h.right_eq
    have hnot : y ∉ v ++ x :: u := by
      have hrot : k.Circle (y :: (v ++ x :: u)) := circle_rotate.mp h
      exact (nodup_cons.mp hrot.1).1
    rw [hsingle.2] at hright
    cases v with
    | nil => exact hnot (hright ▸ mem_cons_self)
    | cons z v => exact hnot (hright ▸ mem_cons_self)
  unfold remove
  rw [if_neg hmore]

theorem circle_single : (k.single x).Circle [x] :=
  ⟨nodup_singleton x, Function.update_self .., Function.update_self ..⟩

/-- The node in front of the head is the last one of the circle. -/
theorem circle_addLast (h : k.Circle l) (hx : x ∉ l) :
    (k.addLast x l.head?).1.Circle (l ++ [x]) ∧
      (l ++ [x]).head? = some (k.addLast x l.head?).2 := by
  cases l with
  | nil => exact ⟨circle_single, rfl⟩
  | cons a t =>
    refine ⟨?_, rfl⟩
    rw [cons_append, circle_cons, ← cons_append, head?_cons]
    refine ⟨?_, ?_⟩
    · rw [nodup_append]
      refine ⟨h.1, nodup_singleton x, fun n hn m hm heq => hx ?_⟩
      rw [← mem_singleton.mp hm, ← heq]
      exact hn
    · obtain ⟨hnodup, hway⟩ := h
      obtain ⟨hxa, hxt⟩ := not_or.mp (fun hor => hx (mem_cons.mpr hor))
      obtain ⟨hat, hnodup⟩ := nodup_cons.mp hnodup
      unfold addLast
      dsimp only
      rcases eq_nil_or_concat t with rfl | ⟨t, b, rfl⟩
      · obtain ⟨hr, hl⟩ := hway
        rw [if_pos hr]
        refine ⟨Function.update_self .., ?_, ?_, Function.update_self ..⟩
        · dsimp only
          rw [Function.update_of_ne hxa, Function.update_self, hl]
        · dsimp only
          rw [Function.update_of_ne hxa, Function.update_self]
      · rw [concat_eq_append] at *
        obtain ⟨hfirst, hr, hl⟩ := way_append.mp hway
        have hxb : x ≠ b := fun heq => hxt (heq ▸ mem_append_right _ mem_cons_self)
        have hba : b ≠ a := fun heq => hat (heq ▸ mem_append_right _ mem_cons_self)
        have hmore : k.right a ≠ a := by
          intro heq
          cases t with
          | nil => exact hba (hfirst.1.symm.trans heq)
          | cons w t =>
            exact hat ((hfirst.1.symm.trans heq) ▸ mem_append_left _ mem_cons_self)
        rw [if_neg hmore, hl, append_assoc]
        refine way_append.mpr ⟨?_, ?_⟩
        · refine hfirst.congr (fun n hn => ?_) fun n hn => ?_
          · have hnb : n ≠ b := by
              rintro rfl
              rcases mem_cons.mp hn with rfl | hn
              · exact hba rfl
              · exact (nodup_append.mp hnodup).2.2 n hn n mem_cons_self rfl
            have hnx : n ≠ x := by
              rintro rfl
              rcases mem_cons.mp hn with rfl | hn
              · exact hxa rfl
              · exact hxt (mem_append_left _ hn)
            dsimp only
            rw [Function.update_of_ne hnb, Function.update_of_ne hnx]
          · have hna : n ≠ a := by
              rintro rfl
              exact hat hn
            have hnx : n ≠ x := by
              rintro rfl
              exact hxt hn
            dsimp only
            rw [Function.update_of_ne hna, Function.update_of_ne hnx]
        · refine ⟨Function.update_self .., ?_, ?_, Function.update_self ..⟩
          · dsimp only
            rw [Function.update_of_ne hxa, Function.update_self]
          · dsimp only
            rw [Function.update_of_ne hxb, Function.update_self]

/-- Taking out the first node of a circle leaves the circle of the others. -/
theorem circle_remove_head (h : k.Circle (x :: l)) (head : Option Nat) :
    (k.remove x head).1.Circle l := by
  obtain ⟨hnodup, hway⟩ := h
  obtain ⟨hxl, hnodup⟩ := nodup_cons.mp hnodup
  cases l with
  | nil => trivial
  | cons a t =>
    obtain ⟨hxa, hxt⟩ := not_or.mp (fun hor => hxl (mem_cons.mpr hor))
    obtain ⟨hr, hl, hrest⟩ := hway
    have hmore : ¬(k.left x = k.right x ∧ k.right x = x) :=
      fun heq => hxa (heq.2.symm.trans hr)
    unfold remove
    rw [if_neg hmore, hr]
    refine ⟨hnodup, ?_⟩
    obtain ⟨hat, hnodup⟩ := nodup_cons.mp hnodup
    rcases eq_nil_or_concat t with rfl | ⟨t, b, rfl⟩
    · obtain ⟨hra, hla⟩ := hrest
      rw [hla]
      exact ⟨Function.update_self .., Function.update_self ..⟩
    · rw [concat_eq_append] at *
      obtain ⟨hfirst, hrb, hlx⟩ := way_append.mp hrest
      rw [hlx]
      refine way_append.mpr ⟨?_, Function.update_self .., Function.update_self ..⟩
      have hba : b ≠ a := fun heq => hat (heq ▸ mem_append_right _ mem_cons_self)
      refine hfirst.congr (fun n hn => ?_) fun n hn => ?_
      · refine Function.update_of_ne ?_ _ _
        rintro rfl
        rcases mem_cons.mp hn with rfl | hn
        · exact hba rfl
        · exact (nodup_append.mp hnodup).2.2 n hn n mem_cons_self rfl
      · refine Function.update_of_ne ?_ _ _
        rintro rfl
        exact hat hn

/-- Taking a node out of a circle leaves the others in their order; the head moves on where it was
    the node itself. -/
theorem circle_remove (h : k.Circle (u ++ x :: v)) :
    (k.remove x (u ++ x :: v).head?).1.Circle (u ++ v) ∧
      (k.remove x (u ++ x :: v).head?).2 = (u ++ v).head? := by
  have hrot : k.Circle (x :: (v ++ u)) := circle_rotate.mp h
  refine ⟨circle_rotate.mp (circle_remove_head hrot _), ?_⟩
  have hright := h.right_eq
  have hnodup : (u ++ x :: v).Nodup := by
    cases u with
    | nil => exact h.1
    | cons a u => exact h.1
  unfold remove
  split
  · rename_i hsingle
    have hself : (v ++ u).headD x = x := hright.symm.trans hsingle.2
    cases hvu : v ++ u with
    | nil =>
      obtain ⟨rfl, rfl⟩ := append_eq_nil_iff.mp hvu
      rfl
    | cons y l =>
      rw [hvu] at hself
      have hmem : x ∈ v ++ u := by
        rw [hvu, ← show y = x from hself]
        exact mem_cons_self
      have hnot : x ∉ v ++ u := (nodup_cons.mp hrot.1).1
      exact absurd hmem hnot
  · rename_i hmore
    cases u with
    | nil =>
      rw [nil_append, head?_cons, if_pos rfl, hright, append_nil]
      cases v with
      | nil =>
        obtain ⟨-, hr, hl⟩ := hrot
        exact absurd ⟨hl.trans hr.symm, hr⟩ hmore
      | cons y v => rfl
    | cons a u =>
      have hxa : x ≠ a := by
        rintro rfl
        exact (nodup_cons.mp hnodup).1 (mem_append_right _ mem_cons_self)
      rw [cons_append, head?_cons, if_neg (fun heq => hxa (Option.some.inj heq))]
      rfl

end Links

end JxtaC.Lib
