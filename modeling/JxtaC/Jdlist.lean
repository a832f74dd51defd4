import JxtaC.Lib.CircularList
import JxtaC.Lib.Exec
import Mathlib.Data.List.Perm.Subperm

/-
  The doubly-linked lists of jdlist.c, in the memory of their nodes. A list is circular, with a
  sentinel whose value is NULL; the left pointer of a node is its `blink`, the right one its
  `flink`. A value is a pointer, and NULL is 0. A node is read only while it is allocated. A failing
  `malloc` is left out.
-/

namespace JxtaC

open Lib List

/-- The nodes of all lists. -/
structure Dlists where
  links : Links
  val : Nat → Nat
  live : Nat → Bool
  fresh : Nat

namespace Dlists

/-- Nothing is allocated. -/
def empty : Dlists := ⟨⟨fun n => n, fun n => n⟩, fun _ => 0, fun _ => false, 0⟩

/-- `dl_make`, and the sentinel of the list. -/
def dlMake (s : Dlists) : Dlists × Nat :=
  ({ links := s.links.single s.fresh
     val := Function.update s.val s.fresh 0
     live := Function.update s.live s.fresh true
     fresh := s.fresh + 1 }, s.fresh)

/-- The pointer to a node is followed. -/
def deref (s : Dlists) (node : Nat) : Exec Unit :=
  if s.live node then .ok () else .error .danglingPointer

def flink (s : Dlists) (node : Nat) : Exec Nat := do
  s.deref node
  return s.links.right node

def blink (s : Dlists) (node : Nat) : Exec Nat := do
  s.deref node
  return s.links.left node

/-- `dl_first`. -/
def dlFirst (s : Dlists) (list : Nat) : Exec Nat := s.flink list

/-- The value of a node. -/
def valueAt (s : Dlists) (node : Nat) : Exec Nat := do
  s.deref node
  return s.val node

/-- `dl_insert_b`. -/
def dlInsertB (s : Dlists) (node val : Nat) : Exec Dlists := do
  let newNode := s.fresh
  let lastNode ← s.blink node
  s.deref lastNode
  let left := Function.update s.links.left node newNode
  let right := Function.update s.links.right lastNode newNode
  return {
    links := ⟨Function.update left newNode lastNode, Function.update right newNode node⟩
    val := Function.update s.val newNode val
    live := Function.update s.live newNode true
    fresh := s.fresh + 1 }

/-- `dl_delete_node`. -/
def dlDeleteNode (s : Dlists) (item : Nat) : Exec Dlists := do
  let next ← s.flink item
  s.deref next
  let left := Function.update s.links.left next (s.links.left item)
  s.deref (left item)
  let right := Function.update s.links.right (left item) next
  return { s with links := ⟨left, right⟩, live := Function.update s.live item false }

/-- The values of a list from one of its nodes on. -/
def valuesFrom (s : Dlists) (list : Nat) : (nodes : Nat) → (cur : Nat) → Exec (List Nat)
  | 0, _ => .error .neverReturns
  | nodes + 1, cur =>
    if cur = list then .ok []
    else do
      let val ← s.valueAt cur
      let next ← s.flink cur
      let rest ← valuesFrom s list nodes next
      return val :: rest

/-- The values of a list, in its order. -/
def contents (s : Dlists) (list : Nat) : Exec (List Nat) := do
  let first ← s.dlFirst list
  s.valuesFrom list s.fresh first

/-- The pointers lead from the sentinel through the nodes and back to it. -/
structure Chain (s : Dlists) (list : Nat) (nodes : List Nat) : Prop where
  circle : s.links.Circle (list :: nodes)
  live : ∀ n ∈ list :: nodes, s.live n = true
  fresh : ∀ n ∈ list :: nodes, n < s.fresh

variable {s : Dlists} {list node x : Nat} {nodes : List Nat}

theorem chain_dlMake (s : Dlists) : Chain s.dlMake.1 s.dlMake.2 [] := by
  refine ⟨Links.circle_single, fun n hn => ?_, fun n hn => ?_⟩
  · rw [mem_singleton.mp hn]
    exact Function.update_self ..
  · rw [mem_singleton.mp hn]
    exact Nat.lt_succ_self _

theorem deref_live (h : s.live node = true) : s.deref node = .ok () := if_pos h

theorem deref_dead (h : s.live node = false) : s.deref node = .error .danglingPointer :=
  if_neg (by rw [h]; exact Bool.false_ne_true)

theorem flink_live (h : s.live node = true) : s.flink node = .ok (s.links.right node) := by
  unfold flink
  rw [deref_live h]
  rfl

theorem flink_dead (h : s.live node = false) : s.flink node = .error .danglingPointer := by
  unfold flink
  rw [deref_dead h]
  rfl

theorem blink_dead (h : s.live node = false) : s.blink node = .error .danglingPointer := by
  unfold blink
  rw [deref_dead h]
  rfl

theorem valueAt_live (h : s.live node = true) : s.valueAt node = .ok (s.val node) := by
  unfold valueAt
  rw [deref_live h]
  rfl

section
variable (h : Chain s list nodes)
include h

theorem Chain.live_list : s.live list = true :=
  h.live list mem_cons_self

/-- The first node is the one behind the sentinel, or the sentinel itself. -/
theorem Chain.dlFirst_eq : s.dlFirst list = .ok (nodes.headD list) := by
  have hright := Links.Circle.right_eq (u := []) h.circle
  rw [append_nil] at hright
  unfold dlFirst
  rw [flink_live h.live_list, hright]

theorem Chain.not_mem : list ∉ nodes :=
  (nodup_cons.mp h.circle.1).1

theorem Chain.length_lt : nodes.length < s.fresh := by
  have hsub : list :: nodes ⊆ List.range s.fresh := fun n hn =>
    mem_range.mpr (h.fresh n hn)
  have hle := (subperm_of_subset h.circle.1 hsub).length_le
  rwa [length_range, length_cons] at hle

end

theorem valuesFrom_way (hway : s.links.Way x nodes list) (hne : list ∉ nodes)
    (hlive : ∀ n ∈ nodes, s.live n = true) {count : Nat} (hcount : nodes.length < count) :
    s.valuesFrom list count (s.links.right x) = .ok (nodes.map s.val) := by
  induction nodes generalizing x count with
  | nil =>
    obtain ⟨count, rfl⟩ := Nat.exists_eq_succ_of_ne_zero (Nat.ne_of_gt hcount)
    rw [valuesFrom, if_pos hway.1]
    rfl
  | cons n nodes ih =>
    obtain ⟨count, rfl⟩ := Nat.exists_eq_succ_of_ne_zero (Nat.ne_zero_of_lt hcount)
    obtain ⟨hright, -, hrest⟩ := hway
    obtain ⟨hn, hne⟩ := not_or.mp (fun hor => hne (mem_cons.mpr hor))
    have hliven := hlive n mem_cons_self
    rw [valuesFrom, hright, if_neg (Ne.symm hn), valueAt_live hliven, ok_bind, flink_live hliven,
      ok_bind, ih hrest hne (fun m hm => hlive m (mem_cons_of_mem _ hm))
        (Nat.lt_of_succ_lt_succ hcount)]
    rfl

/-- The values of a list are those of its nodes. -/
theorem Chain.contents_eq (h : Chain s list nodes) : s.contents list = .ok (nodes.map s.val) := by
  unfold contents dlFirst
  rw [flink_live h.live_list, ok_bind]
  exact valuesFrom_way h.circle.2 h.not_mem (fun n hn => h.live n (mem_cons_of_mem _ hn))
    h.length_lt

theorem contents_dead (h : s.live list = false) : s.contents list = .error .danglingPointer := by
  unfold contents dlFirst
  rw [flink_dead h]
  rfl

/-- The new node goes between the last one and the sentinel. -/
theorem Chain.insert (h : Chain s list nodes) (val : Nat) :
    ∃ s', s.dlInsertB list val = .ok s' ∧ Chain s' list (nodes ++ [s.fresh]) ∧
      (nodes ++ [s.fresh]).map s'.val = nodes.map s.val ++ [val] := by
  have hnew : s.fresh ∉ list :: nodes := fun hmem => Nat.lt_irrefl _ (h.fresh _ hmem)
  have hlast : s.links.left list ∈ list :: nodes := h.circle.2.left_mem
  unfold dlInsertB blink
  rw [deref_live h.live_list, ok_bind, pure_eq_ok, ok_bind, deref_live (h.live _ hlast), ok_bind]
  refine ⟨_, rfl, ⟨Links.circle_insertLast h.circle hnew, fun n hn => ?_, fun n hn => ?_⟩, ?_⟩
  · show Function.update s.live s.fresh true n = true
    rcases mem_append.mp (cons_append ▸ hn) with hn | hn
    · have hne : n ≠ s.fresh := fun heq => hnew (heq ▸ hn)
      rw [Function.update_of_ne hne]
      exact h.live n hn
    · rw [mem_singleton.mp hn, Function.update_self]
  · rcases mem_append.mp (cons_append ▸ hn) with hn | hn
    · exact Nat.lt_succ_of_lt (h.fresh n hn)
    · rw [mem_singleton.mp hn]
      exact Nat.lt_succ_self _
  · show (nodes ++ [s.fresh]).map (Function.update s.val s.fresh val) = _
    rw [map_append, map_singleton, Function.update_self]
    refine congrArg (· ++ [val]) (map_congr_left fun n hn => ?_)
    have hne : n ≠ s.fresh := fun heq => hnew (heq ▸ mem_cons_of_mem _ hn)
    exact Function.update_of_ne hne _ _

/-- `dl_delete_node` on a node of the list, or on its sentinel. -/
theorem Chain.dlDeleteNode_eq (h : Chain s list nodes) (hn : node ∈ list :: nodes) :
    s.dlDeleteNode node = .ok { s with
      links :=
        { left := Function.update s.links.left (s.links.right node) (s.links.left node)
          right := Function.update s.links.right (s.links.left node) (s.links.right node) }
      live := Function.update s.live node false } := by
  obtain ⟨hleft, hright⟩ := h.circle.mem hn
  have hsame : Function.update s.links.left (s.links.right node) (s.links.left node) node =
      s.links.left node := by
    by_cases heq : node = s.links.right node
    · rw [← heq, Function.update_self]
    · rw [Function.update_of_ne heq]
  unfold dlDeleteNode
  rw [flink_live (h.live node hn), ok_bind, deref_live (h.live _ hright), ok_bind]
  dsimp only
  rw [hsame, deref_live (h.live _ hleft)]
  rfl

/-- Without the first node the list has the others. -/
theorem Chain.delete_first (h : Chain s list (node :: nodes)) :
    ∃ s', s.dlDeleteNode node = .ok s' ∧ Chain s' list nodes ∧ s'.val = s.val := by
  have hcircle : s.links.Circle (list :: [] ++ node :: nodes) := h.circle
  obtain ⟨hnode, -⟩ := nodup_cons.mp (nodup_cons.mp h.circle.1).2
  have hsub : ∀ n ∈ list :: nodes, n ∈ list :: node :: nodes ∧ n ≠ node := by
    intro n hn
    rcases mem_cons.mp hn with rfl | hn
    · refine ⟨mem_cons_self, fun heq => h.not_mem ?_⟩
      rw [heq]
      exact mem_cons_self
    · refine ⟨mem_cons_of_mem _ (mem_cons_of_mem _ hn), fun heq => hnode ?_⟩
      rwa [← heq]
  refine ⟨_, h.dlDeleteNode_eq (mem_cons_of_mem _ mem_cons_self),
    ⟨?_, fun n hn => ?_, fun n hn => ?_⟩, rfl⟩
  · rw [← hcircle.remove_links]
    exact (Links.circle_remove hcircle).1
  · show Function.update s.live node false n = true
    rw [Function.update_of_ne (hsub n hn).2]
    exact h.live n (hsub n hn).1
  · exact h.fresh n (hsub n hn).1

/-- From an empty list the sentinel is deleted. -/
theorem Chain.delete_list (h : Chain s list nodes) :
    ∃ s', s.dlDeleteNode list = .ok s' ∧ s'.live list = false :=
  ⟨_, h.dlDeleteNode_eq mem_cons_self, Function.update_self ..⟩

end Dlists

end JxtaC
