import JxtaC.EndpointFilters
import Mathlib.Data.List.Perm.Subperm

/-
  Runs of the filter list. `Holds` is the list as its pointers have it, `traverse_eq` turns a
  traversal into a recursion over it. The string of a filter is not kept, so a filter is called
  whatever its string is, after a look at the string that its block points to; and the removal of a
  function that no filter has takes the sentinel out (`filters_iff`).
-/

namespace JxtaC.EndpointFilters

open Lib List

variable {Func Arg : Type}

/-! ## the claim of the filters -/

/-- A filter that is registered, with the string it was registered for. -/
structure Registration (Func Arg : Type) extends Call Func Arg where
  str : CString

/-- The string is a namespace of the message, or names an element of it. -/
def Present (str : CString) (msg : List MessageElement) : Prop :=
  ∃ el ∈ msg, el.body.ns = str ∨ (el.body.ns, el.body.name) = parseqname str

instance (str : CString) (msg : List MessageElement) : Decidable (Present str msg) :=
  inferInstanceAs (Decidable (∃ el ∈ msg, _ ∨ _))

/-- The service, with the filters that were added and not removed again. -/
structure Service (Func Arg : Type) where
  list : EndpointFilters Func Arg
  registered : List (Registration Func Arg)

/-- `string` says what the pointers in memory point to when the message arrives. -/
inductive Action (Func Arg : Type) where
  | addFilter (str : CString) (f : Func) (arg : Arg) (block : Nat)
  | removeFilter (f : Func)
  | demuxAddr (started : Bool) (dest : Option EndpointAddress) (string : Nat → Option CString)
      (msg : List MessageElement)

section Claim
variable (call : Func → Arg → List MessageElement → Bool × List MessageElement)

/-- The calls there should be, and what should become of the message. -/
def filtered : List (Registration Func Arg) → List MessageElement → List (Call Func Arg) × Outcome
  | [], msg => ([], .delivered msg)
  | r :: rest, msg =>
    if Present r.str msg then
      match call r.func r.arg msg with
      | (false, _) => ([r.toCall], .discarded)
      | (true, msg) => (r.toCall :: (filtered rest msg).1, (filtered rest msg).2)
    else filtered rest msg

variable [DecidableEq Func]

/-- A call of the service, and what it answers for a message. -/
def step (s : Service Func Arg) :
    Action Func Arg → Exec (Service Func Arg × Option (List (Call Func Arg) × Outcome))
  | .addFilter str f arg block => do
    let list ← s.list.addFilter str f arg block
    return (⟨list, s.registered ++ [⟨⟨s.list.fresh, f, arg⟩, str⟩]⟩, none)
  | .removeFilter f => do
    let list ← s.list.removeFilter f
    return (⟨list, s.registered.eraseP fun r => decide (r.func = f)⟩, none)
  | .demuxAddr started dest string msg => do
    let answer ← demuxAddr call s.list started dest string msg
    return (s, some answer)

/-- The list holds the registered filters, in the order of their registration. -/
def Listed (s : Service Func Arg) : Prop :=
  s.list.contents = .ok (s.registered.map Registration.toCall)

/-- A message goes through the filters registered for it. -/
def Heard (s : Service Func Arg) (a : Action Func Arg)
    (answer : Option (List (Call Func Arg) × Outcome)) (_ : Service Func Arg) : Prop :=
  match a with
  | .demuxAddr _ _ _ msg => answer = some (filtered call s.registered msg)
  | _ => True

/-- The block of the filter at a node points to a string. -/
def readable (list : EndpointFilters Func Arg) (string : Nat → Option CString) (node : Nat) :
    Bool :=
  match list.val node with
  | none => false
  | some filter => (string filter.str).isSome

/-- The string of every filter is there, down to the first one that does not let the message pass,
    and the block of the filter points to some string. -/
def AllPresent (list : EndpointFilters Func Arg) (string : Nat → Option CString) :
    List (Registration Func Arg) → List MessageElement → Prop
  | [], _ => True
  | r :: rest, msg => Present r.str msg ∧ readable list string r.node = true ∧
    match call r.func r.arg msg with
    | (false, _) => True
    | (true, msg) => AllPresent list string rest msg

/-- The condition on a call. -/
def Careful (s : Service Func Arg) : Action Func Arg → Prop
  | .addFilter .. => True
  | .removeFilter f => ∃ r ∈ s.registered, r.func = f
  | .demuxAddr started dest string msg =>
    started = true ∧ dest ≠ none ∧ AllPresent call s.list string s.registered msg

end Claim

/-! ## the list -/

/-- A node of the list with its filter. -/
abbrev Entry (Func Arg : Type) : Type := Nat × Filter Func Arg

/-- What a call of the filter is. -/
def Entry.call (e : Entry Func Arg) : Call Func Arg := ⟨e.1, e.2.func, e.2.arg⟩

/-- The pointers lead from the sentinel through the entries and back to it. -/
structure Holds (s : EndpointFilters Func Arg) (entries : List (Entry Func Arg)) : Prop where
  circle : s.links.Circle (s.filterList :: entries.map Prod.fst)
  live : ∀ n ∈ s.filterList :: entries.map Prod.fst, s.live n = true
  fresh : ∀ n ∈ s.filterList :: entries.map Prod.fst, n < s.fresh
  val : ∀ e ∈ entries, s.val e.1 = some e.2

theorem holds_dlMake : Holds (dlMake : EndpointFilters Func Arg) [] := by
  refine ⟨⟨nodup_singleton _, rfl, rfl⟩, fun n hn => ?_, fun n hn => ?_, fun e he => ?_⟩
  · rw [mem_singleton.mp hn]
    rfl
  · rw [mem_singleton.mp hn]
    exact Nat.zero_lt_one
  · exact absurd he not_mem_nil

section Traversal
variable {s : EndpointFilters Func Arg} {entries : List (Entry Func Arg)}
variable {n : Nat}

theorem deref_live (h : s.live n = true) : s.deref n = .ok () := if_pos h

theorem deref_dead (h : s.live n = false) : s.deref n = .error .danglingPointer :=
  if_neg (by rw [h]; exact Bool.false_ne_true)

theorem flink_live (h : s.live n = true) : s.flink n = .ok (s.links.right n) := by
  unfold flink
  rw [deref_live h]
  rfl

/-- The loop of `dl_traverse` over the entries. -/
def through {β : Type} (body : Nat → Filter Func Arg → β → Exec (Bool × β)) (sentinel : Nat) :
    List (Entry Func Arg) → β → Exec (Nat × β)
  | [], b => .ok (sentinel, b)
  | e :: rest, b => do
    let (more, b) ← body e.1 e.2 b
    if more then through body sentinel rest b else return (e.1, b)

theorem traverse_way {β : Type} (body : Nat → Filter Func Arg → β → Exec (Bool × β)) {x : Nat}
    (hway : s.links.Way x (entries.map Prod.fst) s.filterList)
    (hne : ∀ e ∈ entries, e.1 ≠ s.filterList) (hlive : ∀ e ∈ entries, s.live e.1 = true)
    (hval : ∀ e ∈ entries, s.val e.1 = some e.2) (nodes : Nat) (hnodes : entries.length < nodes)
    (b : β) : s.traverse body nodes (s.links.right x) b = through body s.filterList entries b := by
  induction entries generalizing x nodes b with
  | nil =>
    obtain ⟨nodes, rfl⟩ := Nat.exists_eq_succ_of_ne_zero (Nat.ne_of_gt hnodes)
    unfold traverse
    rw [if_pos hway.1, hway.1]
    rfl
  | cons e entries ih =>
    obtain ⟨nodes, rfl⟩ := Nat.exists_eq_succ_of_ne_zero (Nat.ne_zero_of_lt hnodes)
    obtain ⟨hright, -, hrest⟩ := hway
    have hfilter : s.filterAt e.1 = .ok e.2 := by
      unfold filterAt
      rw [deref_live (hlive e mem_cons_self), hval e mem_cons_self]
      rfl
    unfold traverse through
    rw [hright, if_neg (hne e mem_cons_self), hfilter, ok_bind]
    apply congrArg
    funext ⟨more, b⟩
    cases more with
    | false => rfl
    | true =>
      show (s.flink e.1 >>= fun next => s.traverse body nodes next b) = _
      rw [flink_live (hlive e mem_cons_self), ok_bind]
      exact ih hrest (fun e he => hne e (mem_cons_of_mem _ he))
        (fun e he => hlive e (mem_cons_of_mem _ he))
        (fun e he => hval e (mem_cons_of_mem _ he)) nodes (Nat.lt_of_succ_lt_succ hnodes) b

section
variable (h : Holds s entries)
include h

theorem Holds.nodup : (s.filterList :: entries.map Prod.fst).Nodup :=
  h.circle.1

theorem Holds.ne_sentinel : ∀ e ∈ entries, e.1 ≠ s.filterList := by
  intro e he heq
  exact (nodup_cons.mp h.nodup).1 (heq ▸ mem_map_of_mem he)

theorem Holds.length_lt : entries.length < s.fresh := by
  have hsub : s.filterList :: entries.map Prod.fst ⊆ List.range s.fresh := fun n hn =>
    mem_range.mpr (h.fresh n hn)
  have hle := (subperm_of_subset h.nodup hsub).length_le
  rw [length_range, length_cons, length_map] at hle
  exact hle

/-- A traversal visits the entries in order. -/
theorem Holds.traverse_eq {β : Type} (body : Nat → Filter Func Arg → β → Exec (Bool × β)) (b : β) :
    s.dlTraverse body b = through body s.filterList entries b := by
  unfold dlTraverse
  rw [flink_live (h.live _ mem_cons_self), ok_bind]
  exact traverse_way body h.circle.2 h.ne_sentinel
    (fun e he => h.live _ (mem_cons_of_mem _ (mem_map_of_mem he))) h.val _ h.length_lt b

theorem Holds.contents_eq : s.contents = .ok (entries.map Entry.call) := by
  have hthrough : ∀ calls : List (Call Func Arg), through
      (fun node filter calls => .ok (true, calls ++ [⟨node, filter.func, filter.arg⟩]))
      s.filterList entries calls = .ok (s.filterList, calls ++ entries.map Entry.call) := by
    clear h
    induction entries with
    | nil => intro calls; rw [map_nil, append_nil]; rfl
    | cons e entries ih =>
      intro calls
      unfold through
      rw [ok_bind]
      exact (ih _).trans (by rw [append_assoc]; rfl)
  unfold contents
  rw [h.traverse_eq, hthrough, ok_bind]
  rfl

end

theorem contents_dead (h : s.live s.filterList = false) :
    s.contents = .error .danglingPointer := by
  unfold contents dlTraverse flink
  rw [deref_dead h]
  rfl

end Traversal

/-! ## adding and removing -/

section Updates
variable {s s' : EndpointFilters Func Arg} {entries : List (Entry Func Arg)}

/-- The new node goes between the last one and the sentinel. -/
theorem Holds.insert (h : Holds s entries) (filter : Filter Func Arg) :
    ∃ s', s.dlInsertB filter = .ok s' ∧ Holds s' (entries ++ [(s.fresh, filter)]) := by
  have hnew : s.fresh ∉ s.filterList :: entries.map Prod.fst := fun hmem =>
    Nat.lt_irrefl _ (h.fresh _ hmem)
  have hlast : s.links.left s.filterList ∈ s.filterList :: entries.map Prod.fst :=
    h.circle.2.left_mem
  have hnodes : s.filterList :: (entries ++ [(s.fresh, filter)]).map Prod.fst =
      (s.filterList :: entries.map Prod.fst) ++ [s.fresh] := by
    rw [map_append]
    rfl
  unfold dlInsertB blink
  rw [deref_live (h.live _ mem_cons_self), ok_bind, pure_eq_ok, ok_bind,
    deref_live (h.live _ hlast), ok_bind]
  refine ⟨_, rfl, ?_, fun n hn => ?_, fun n hn => ?_, fun e he => ?_⟩
  · rw [hnodes]
    exact Links.circle_insertLast h.circle hnew
  · rw [hnodes] at hn
    show Function.update s.live s.fresh true n = true
    rcases mem_append.mp hn with hn | hn
    · have hne : n ≠ s.fresh := fun heq => hnew (heq ▸ hn)
      rw [Function.update_of_ne hne]
      exact h.live n hn
    · rw [mem_singleton.mp hn, Function.update_self]
  · rw [hnodes] at hn
    rcases mem_append.mp hn with hn | hn
    · exact Nat.lt_succ_of_lt (h.fresh n hn)
    · rw [mem_singleton.mp hn]
      exact Nat.lt_succ_self _
  · show Function.update s.val s.fresh (some filter) e.1 = some e.2
    rcases mem_append.mp he with he | he
    · have hmem : e.1 ∈ s.filterList :: entries.map Prod.fst :=
        mem_cons_of_mem _ (mem_map_of_mem he)
      have hne : e.1 ≠ s.fresh := fun heq => hnew (heq ▸ hmem)
      rw [Function.update_of_ne hne]
      exact h.val e he
    · rw [mem_singleton.mp he, Function.update_self]

/-- `dl_delete_node` on a node of the list. -/
theorem Holds.dlDeleteNode_eq (h : Holds s entries) {n : Nat}
    (hn : n ∈ s.filterList :: entries.map Prod.fst) :
    s.dlDeleteNode n = .ok { s with
      links :=
        { left := Function.update s.links.left (s.links.right n) (s.links.left n)
          right := Function.update s.links.right (s.links.left n) (s.links.right n) }
      live := Function.update s.live n false } := by
  obtain ⟨hleft, hright⟩ := h.circle.mem hn
  have hsame : Function.update s.links.left (s.links.right n) (s.links.left n) n =
      s.links.left n := by
    by_cases heq : n = s.links.right n
    · rw [← heq, Function.update_self]
    · rw [Function.update_of_ne heq]
  unfold dlDeleteNode
  rw [flink_live (h.live n hn), ok_bind, deref_live (h.live _ hright), ok_bind]
  dsimp only
  rw [hsame, deref_live (h.live _ hleft)]
  rfl

/-- An entry that is taken out leaves the others. -/
theorem Holds.delete {u v : List (Entry Func Arg)} {e : Entry Func Arg}
    (h : Holds s (u ++ e :: v)) : ∃ s', s.dlDeleteNode e.1 = .ok s' ∧ Holds s' (u ++ v) := by
  have hnodes : s.filterList :: (u ++ e :: v).map Prod.fst =
      s.filterList :: u.map Prod.fst ++ e.1 :: v.map Prod.fst := by
    rw [map_append]
    rfl
  have hmem : e.1 ∈ s.filterList :: (u ++ e :: v).map Prod.fst :=
    mem_cons_of_mem _ (mem_map_of_mem (mem_append_right _ mem_cons_self))
  have hcircle := h.circle
  have hnodup := h.nodup
  rw [hnodes] at hcircle hnodup
  have hrest : s.filterList :: (u ++ v).map Prod.fst =
      s.filterList :: u.map Prod.fst ++ v.map Prod.fst := by
    rw [map_append]
    rfl
  have hsub : ∀ n ∈ s.filterList :: (u ++ v).map Prod.fst,
      n ∈ s.filterList :: (u ++ e :: v).map Prod.fst ∧ n ≠ e.1 := by
    intro n hn
    rw [hrest] at hn
    rw [hnodes]
    refine ⟨?_, ?_⟩
    · rcases mem_append.mp hn with hn | hn
      · exact mem_append_left _ hn
      · exact mem_append_right _ (mem_cons_of_mem _ hn)
    · rintro rfl
      obtain ⟨-, hright, hdisjoint⟩ := nodup_append.mp hnodup
      rcases mem_append.mp hn with hn | hn
      · exact hdisjoint _ hn _ mem_cons_self rfl
      · exact (nodup_cons.mp hright).1 hn
  refine ⟨_, h.dlDeleteNode_eq hmem, ?_, fun n hn => ?_, fun n hn => ?_, fun d hd => ?_⟩
  · show Links.Circle _ (s.filterList :: (u ++ v).map Prod.fst)
    rw [hrest, ← hcircle.remove_links]
    exact (Links.circle_remove hcircle).1
  · show Function.update s.live e.1 false n = true
    rw [Function.update_of_ne (hsub n hn).2]
    exact h.live n (hsub n hn).1
  · exact h.fresh n (hsub n hn).1
  · refine h.val d ?_
    rcases mem_append.mp hd with hd | hd
    · exact mem_append_left _ hd
    · exact mem_append_right _ (mem_cons_of_mem _ hd)

/-- Without an entry to take out, the sentinel goes. -/
theorem Holds.delete_sentinel (h : Holds s entries) :
    ∃ s', s.dlDeleteNode s.filterList = .ok s' ∧ s'.live s'.filterList = false :=
  ⟨_, h.dlDeleteNode_eq mem_cons_self, Function.update_self ..⟩

/-- `remove_filter` takes out the first filter of the function. -/
theorem through_find [DecidableEq Func] (entries : List (Entry Func Arg)) (f : Func)
    (sentinel : Nat) :
    (∃ u e v, entries = u ++ e :: v ∧ (∀ d ∈ u, d.2.func ≠ f) ∧ e.2.func = f ∧
      through (fun _ filter () => .ok (!decide (filter.func = f), ())) sentinel entries () =
        .ok (e.1, ())) ∨
    ((∀ d ∈ entries, d.2.func ≠ f) ∧
      through (fun _ filter () => .ok (!decide (filter.func = f), ())) sentinel entries () =
        .ok (sentinel, ())) := by
  induction entries with
  | nil => exact .inr ⟨fun d hd => absurd hd not_mem_nil, rfl⟩
  | cons e entries ih =>
    by_cases hf : e.2.func = f
    · refine .inl ⟨[], e, entries, rfl, fun d hd => absurd hd not_mem_nil, hf, ?_⟩
      unfold through
      rw [decide_eq_true hf]
      rfl
    · have hskip : through (fun _ filter () => .ok (!decide (filter.func = f), ())) sentinel
          (e :: entries) () = through (fun _ filter () => .ok (!decide (filter.func = f), ()))
          sentinel entries () := by
        rw [through, decide_eq_false hf]
        rfl
      rw [hskip]
      rcases ih with ⟨u, d, v, rfl, hu, hd, hrun⟩ | ⟨hnone, hrun⟩
      · refine .inl ⟨e :: u, d, v, rfl, fun c hc => ?_, hd, hrun⟩
        rcases mem_cons.mp hc with rfl | hc
        · exact hf
        · exact hu c hc
      · refine .inr ⟨fun c hc => ?_, hrun⟩
        rcases mem_cons.mp hc with rfl | hc
        · exact hf
        · exact hnone c hc

end Updates

/-! ## messages -/

section Messages
variable (call : Func → Arg → List MessageElement → Bool × List MessageElement)
variable {s : EndpointFilters Func Arg} {entries : List (Entry Func Arg)}
variable (string : Nat → Option CString)

/-- The calls that the loop makes, and what becomes of the message. -/
def passed (string : Nat → Option CString) :
    List (Entry Func Arg) → List MessageElement → Exec (List (Call Func Arg) × Outcome)
  | [], msg => .ok ([], .delivered msg)
  | e :: rest, msg => do
    let _ ← applies string msg e.2.str
    match call e.2.func e.2.arg msg with
    | (false, _) => return ([e.call], .discarded)
    | (true, msg) =>
      let (calls, outcome) ← passed string rest msg
      return (e.call :: calls, outcome)

/-- A filter gets the message where its pointer can be read, whatever it points to. -/
theorem applies_cases (msg : List MessageElement) (str : Nat) :
    (msg ≠ [] ∧ string str = none ∧ applies string msg str = .error .danglingPointer) ∨
      ((msg ≠ [] → (string str).isSome = true) ∧ applies string msg str = .ok true) := by
  unfold applies getElementsOfNamespace
  by_cases hmsg : msg = []
  · rw [if_pos hmsg]
    exact .inr ⟨fun h => absurd hmsg h, rfl⟩
  · rw [if_neg hmsg]
    cases hstring : string str with
    | none => exact .inl ⟨hmsg, rfl, rfl⟩
    | some ns => exact .inr ⟨fun _ => rfl, rfl⟩

theorem passTo_ok {string : Nat → Option CString} {msg : List MessageElement} {e : Entry Func Arg}
    (happlies : applies string msg e.2.str = .ok true) (calls : List (Call Func Arg)) :
    passTo call string e.1 e.2 (calls, msg) =
      .ok ((call e.2.func e.2.arg msg).1, calls ++ [e.call], (call e.2.func e.2.arg msg).2) := by
  unfold passTo
  rw [happlies]
  rfl

theorem passTo_error {string : Nat → Option CString} {msg : List MessageElement}
    {e : Entry Func Arg} {fault : Fault} (happlies : applies string msg e.2.str = .error fault)
    (calls : List (Call Func Arg)) : passTo call string e.1 e.2 (calls, msg) = .error fault := by
  unfold passTo
  rw [happlies]
  rfl

/-- What the loop comes to, after the calls that are done. -/
theorem through_passTo {sentinel : Nat} (hne : ∀ e ∈ entries, e.1 ≠ sentinel)
    (calls : List (Call Func Arg)) (msg : List MessageElement) :
    (through (passTo call string) sentinel entries (calls, msg) >>= fun q =>
      Except.ok (q.2.1, if q.1 = sentinel then Outcome.delivered q.2.2 else .discarded)) =
    passed call string entries msg >>= fun p => Except.ok (calls ++ p.1, p.2) := by
  induction entries generalizing calls msg with
  | nil =>
    unfold through passed
    rw [ok_bind, ok_bind, if_pos rfl, append_nil]
  | cons e entries ih =>
    unfold through passed
    rcases applies_cases string msg e.2.str with ⟨-, -, happlies⟩ | ⟨-, happlies⟩
    · rw [happlies, passTo_error call happlies]
      rfl
    · rw [happlies, passTo_ok call happlies]
      simp only [ok_bind]
      rcases call e.2.func e.2.arg msg with ⟨pass, msg'⟩
      cases pass with
      | false =>
        show Except.ok (calls ++ [e.call], if e.1 = sentinel then _ else Outcome.discarded) = _
        rw [if_neg (hne e mem_cons_self)]
        rfl
      | true =>
        have hrest := ih (fun d hd => hne d (mem_cons_of_mem _ hd)) (calls ++ [e.call]) msg'
        refine hrest.trans ?_
        dsimp only
        cases passed call string entries msg' with
        | error e => rfl
        | ok p =>
          show Except.ok (calls ++ [e.call] ++ p.1, p.2) = Except.ok (calls ++ e.call :: p.1, p.2)
          rw [append_assoc]
          rfl

theorem demuxAddr_eq (h : Holds s entries) {started : Bool} {dest : Option EndpointAddress}
    (hstarted : started = true) (hdest : dest ≠ none) (string : Nat → Option CString)
    (msg : List MessageElement) :
    demuxAddr call s started dest string msg = passed call string entries msg := by
  unfold demuxAddr
  rw [if_neg (by rw [hstarted]; exact Bool.false_ne_true.symm), if_neg hdest, h.traverse_eq]
  refine (through_passTo call string h.ne_sentinel [] msg).trans ?_
  cases passed call string entries msg with
  | error e => rfl
  | ok p => rfl

theorem filtered_subset (registered : List (Registration Func Arg)) (msg : List MessageElement) :
    (filtered call registered msg).1 ⊆ registered.map Registration.toCall := by
  induction registered generalizing msg with
  | nil => exact fun c hc => hc
  | cons r rest ih =>
    unfold filtered
    split
    · rcases call r.func r.arg msg with ⟨pass, msg'⟩
      cases pass with
      | false => exact cons_subset_cons _ (nil_subset _)
      | true => exact cons_subset_cons _ (ih msg')
    · exact subset_cons_of_subset _ (ih msg)

/-- The loop makes the right calls if every string down to the first refusal is there. -/
theorem passed_iff (hval : ∀ e ∈ entries, s.val e.1 = some e.2)
    (hnodup : (entries.map Prod.fst).Nodup) (registered : List (Registration Func Arg))
    (hsame : entries.map Entry.call = registered.map Registration.toCall)
    (msg : List MessageElement) :
    AllPresent call s string registered msg ↔
      passed call string entries msg = .ok (filtered call registered msg) := by
  induction entries generalizing registered msg with
  | nil =>
    obtain rfl : registered = [] := map_eq_nil_iff.mp hsame.symm
    exact iff_of_true trivial rfl
  | cons e entries ih =>
    match registered, hsame with
    | [], hsame => exact absurd hsame (cons_ne_nil _ _)
    | r :: rest, hsame =>
      obtain ⟨hhead, htail⟩ := List.cons.inj hsame
      obtain ⟨he, hnodup⟩ := nodup_cons.mp hnodup
      have hnode : r.node = e.1 := congrArg Call.node hhead.symm
      have hfunc : r.func = e.2.func := congrArg Call.func hhead.symm
      have harg : r.arg = e.2.arg := congrArg Call.arg hhead.symm
      have hreadable : readable s string r.node = (string e.2.str).isSome := by
        unfold readable
        rw [hnode, hval e mem_cons_self]
      have hskipped : ∀ msg, e.call ∉ (filtered call rest msg).1 := by
        intro msg hmem
        have hmem' := filtered_subset call rest msg hmem
        rw [← htail] at hmem'
        obtain ⟨d, hd, heq⟩ := mem_map.mp hmem'
        have hnodes : d.1 = e.1 := congrArg Call.node heq
        exact he (hnodes ▸ mem_map_of_mem hd)
      have hih := ih (fun d hd => hval d (mem_cons_of_mem _ hd)) hnodup rest htail
      unfold AllPresent passed filtered
      rw [hreadable, hfunc, harg]
      by_cases hpresent : Present r.str msg
      · obtain ⟨el, hel, -⟩ := id hpresent
        have hmsg : msg ≠ [] := ne_nil_of_mem hel
        rw [if_pos hpresent]
        rcases applies_cases string msg e.2.str with ⟨-, hnone, happlies⟩ | ⟨hsome, happlies⟩
        · rw [happlies, hnone]
          exact iff_of_false (fun h => Bool.false_ne_true h.2.1) (fun h => nomatch h)
        · rw [happlies, ok_bind, hsome hmsg]
          rcases call e.2.func e.2.arg msg with ⟨pass, msg'⟩
          cases pass with
          | false =>
            refine iff_of_true ⟨hpresent, rfl, trivial⟩ ?_
            rw [← hhead]
            rfl
          | true =>
            dsimp only
            rw [hih msg', ← hhead]
            constructor
            · intro h
              rw [h.2.2]
              rfl
            · intro h
              refine ⟨hpresent, rfl, ?_⟩
              obtain ⟨p, hp, heq⟩ := bind_eq_ok.mp h
              obtain ⟨hcalls, houtcome⟩ := Prod.mk.inj (Except.ok.inj heq)
              rw [hp]
              exact congrArg Except.ok (Prod.ext (List.cons.inj hcalls).2 houtcome)
      · rw [if_neg hpresent]
        refine iff_of_false (fun h => hpresent h.1) fun h => ?_
        obtain ⟨-, -, h⟩ := bind_eq_ok.mp h
        rcases hcall : call e.2.func e.2.arg msg with ⟨pass, msg'⟩
        rw [hcall] at h
        cases pass with
        | false =>
          have hcalls := congrArg Prod.fst (Except.ok.inj h)
          exact hskipped msg (hcalls ▸ mem_cons_self)
        | true =>
          obtain ⟨p, -, heq⟩ := bind_eq_ok.mp h
          have hcalls := congrArg Prod.fst (Except.ok.inj heq)
          exact hskipped msg (hcalls ▸ mem_cons_self)

theorem filtered_ne (registered : List (Registration Func Arg)) (msg : List MessageElement) :
    (filtered call registered msg).2 ≠ .notStarted ∧
      (filtered call registered msg).2 ≠ .noDestination := by
  induction registered generalizing msg with
  | nil => exact ⟨by simp [filtered], by simp [filtered]⟩
  | cons r rest ih =>
    unfold filtered
    split
    · rcases call r.func r.arg msg with ⟨pass, msg'⟩
      cases pass with
      | false => exact ⟨by simp, by simp⟩
      | true => exact ih msg'
    · exact ih msg

end Messages

/-! ## runs -/

section Runs
variable (call : Func → Arg → List MessageElement → Bool × List MessageElement)
variable [DecidableEq Func] {s s' : Service Func Arg}
variable {entries : List (Entry Func Arg)}

/-- The list is whole while its sentinel is there. -/
def Whole (s : Service Func Arg) : Prop :=
  s.list.live s.list.filterList = true →
    ∃ entries, Holds s.list entries ∧
      entries.map Entry.call = s.registered.map Registration.toCall

theorem Holds.listed (h : Holds s.list entries)
    (hsame : entries.map Entry.call = s.registered.map Registration.toCall) : Listed s :=
  h.contents_eq.trans (congrArg Except.ok hsame)

theorem Listed.live (h : Listed s) : s.list.live s.list.filterList = true := by
  cases hlive : s.list.live s.list.filterList with
  | true => rfl
  | false =>
    have hdead := contents_dead hlive
    unfold Listed at h
    rw [h] at hdead
    cases hdead

theorem step_addFilter (h : Holds s.list entries)
    (hsame : entries.map Entry.call = s.registered.map Registration.toCall) (str : CString)
    (f : Func) (arg : Arg) (block : Nat) :
    ∃ s', step call s (.addFilter str f arg block) = .ok (s', none) ∧
      ∃ entries, Holds s'.list entries ∧
        entries.map Entry.call = s'.registered.map Registration.toCall := by
  obtain ⟨list, hlist, hholds⟩ := h.insert ⟨block, f, arg⟩
  refine ⟨⟨list, s.registered ++ [⟨⟨s.list.fresh, f, arg⟩, str⟩]⟩, ?_, _, hholds, ?_⟩
  · show (s.list.dlInsertB ⟨block, f, arg⟩ >>= _) = _
    rw [hlist]
    rfl
  · rw [map_append, map_append, hsame]
    rfl

/-- The registration that `remove_filter` takes out is the first one of the function. -/
theorem step_removeFilter (h : Holds s.list entries)
    (hsame : entries.map Entry.call = s.registered.map Registration.toCall) (f : Func) :
    ∃ s', step call s (.removeFilter f) = .ok (s', none) ∧
      (if ∃ r ∈ s.registered, r.func = f then ∃ entries, Holds s'.list entries ∧
        entries.map Entry.call = s'.registered.map Registration.toCall
      else s'.list.live s'.list.filterList = false) := by
  have hfuncs : entries.map (fun e => e.2.func) = s.registered.map fun r => r.func := by
    have hmap := congrArg (List.map Call.func) hsame
    rw [map_map, map_map] at hmap
    exact hmap
  rcases through_find entries f s.list.filterList with
    ⟨u, e, v, rfl, hu, he, hrun⟩ | ⟨hnone, hrun⟩
  · obtain ⟨list, hlist, hholds⟩ := h.delete
    refine ⟨⟨list, s.registered.eraseP fun r => decide (r.func = f)⟩, ?_, ?_⟩
    · show (s.list.removeFilter f >>= _) = _
      unfold removeFilter
      rw [h.traverse_eq, hrun, ok_bind]
      show (s.list.dlDeleteNode e.1 >>= _) = _
      rw [hlist]
      rfl
    · have hregistered : ∃ r ∈ s.registered, r.func = f := by
        have hmem : f ∈ s.registered.map fun r => r.func := by
          rw [← hfuncs, ← he]
          exact mem_map_of_mem (mem_append_right _ mem_cons_self)
        obtain ⟨r, hr, hf⟩ := mem_map.mp hmem
        exact ⟨r, hr, hf⟩
      rw [if_pos hregistered]
      refine ⟨u ++ v, hholds, ?_⟩
      have hcalls : (s.registered.eraseP fun r => decide (r.func = f)).map Registration.toCall =
          (s.registered.map Registration.toCall).eraseP fun c => decide (c.func = f) := by
        rw [eraseP_map]
        rfl
      have hrest : ((u ++ e :: v).map Entry.call).eraseP (fun c => decide (c.func = f)) =
          (u ++ v).map Entry.call := by
        rw [map_append, eraseP_append_right, map_cons, eraseP_cons_of_pos,
          ← map_append]
        · exact decide_eq_true he
        · intro c hc
          obtain ⟨d, hd, rfl⟩ := mem_map.mp hc
          have hne : d.call.func ≠ f := hu d hd
          simpa using hne
      rw [hcalls, ← hsame, hrest]
  · obtain ⟨list, hlist, hdead⟩ := h.delete_sentinel
    refine ⟨⟨list, s.registered.eraseP fun r => decide (r.func = f)⟩, ?_, ?_⟩
    · show (s.list.removeFilter f >>= _) = _
      unfold removeFilter
      rw [h.traverse_eq, hrun, ok_bind]
      show (s.list.dlDeleteNode s.list.filterList >>= _) = _
      rw [hlist]
      rfl
    · have hregistered : ¬∃ r ∈ s.registered, r.func = f := by
        rintro ⟨r, hr, hf⟩
        have hmem : f ∈ entries.map fun e => e.2.func := by
          rw [hfuncs, ← hf]
          exact mem_map_of_mem hr
        obtain ⟨e, he, heq⟩ := mem_map.mp hmem
        exact hnone e he heq
      rw [if_neg hregistered]
      exact hdead

theorem step_demuxAddr (started : Bool) (dest : Option EndpointAddress)
    (string : Nat → Option CString) (msg : List MessageElement) {s' : Service Func Arg}
    {answer : Option (List (Call Func Arg) × Outcome)}
    (h : step call s (.demuxAddr started dest string msg) = .ok (s', answer)) :
    s' = s ∧ ∃ a, demuxAddr call s.list started dest string msg = .ok a ∧ answer = some a := by
  obtain ⟨a, ha, heq⟩ := bind_eq_ok.mp h
  cases heq
  exact ⟨rfl, a, ha, rfl⟩

omit [DecidableEq Func] in
/-- A message goes through the filters as it should if the strings of all that it reaches are
    there. -/
theorem demuxAddr_iff (h : Holds s.list entries)
    (hsame : entries.map Entry.call = s.registered.map Registration.toCall) (started : Bool)
    (dest : Option EndpointAddress) (string : Nat → Option CString) (msg : List MessageElement) :
    Careful call s (.demuxAddr started dest string msg) ↔
      demuxAddr call s.list started dest string msg = .ok (filtered call s.registered msg) := by
  have hnodup : (entries.map Prod.fst).Nodup := (nodup_cons.mp h.nodup).2
  obtain ⟨hstopped, hnowhere⟩ := filtered_ne call s.registered msg
  by_cases hstarted : started = true
  · by_cases hdest : dest = none
    · refine iff_of_false (fun h => h.2.1 hdest) fun hrun => ?_
      unfold demuxAddr at hrun
      rw [if_neg (by rw [hstarted]; exact Bool.false_ne_true.symm), if_pos hdest] at hrun
      exact hnowhere (congrArg Prod.snd (Except.ok.inj hrun)).symm
    · rw [demuxAddr_eq call h hstarted hdest, ← passed_iff call string h.val hnodup _ hsame]
      exact ⟨fun h => h.2.2, fun h => ⟨hstarted, hdest, h⟩⟩
  · refine iff_of_false (fun h => hstarted h.1) fun hrun => ?_
    unfold demuxAddr at hrun
    rw [if_pos (Bool.eq_false_iff.mpr hstarted)] at hrun
    exact hstopped (congrArg Prod.snd (Except.ok.inj hrun)).symm

theorem Whole.step {s s' : Service Func Arg} {a : Action Func Arg}
    {answer : Option (List (Call Func Arg) × Outcome)} (h : Whole s)
    (hstep : EndpointFilters.step call s a = .ok (s', answer)) : Whole s' := by
  match a with
  | .demuxAddr started dest string msg =>
    obtain ⟨rfl, -⟩ := step_demuxAddr call started dest string msg hstep
    exact h
  | .addFilter str f arg block =>
    cases hlive : s.list.live s.list.filterList with
    | true =>
      obtain ⟨entries, hholds, hsame⟩ := h hlive
      obtain ⟨t, ht, hentries⟩ := step_addFilter call hholds hsame str f arg block
      obtain ⟨rfl, -⟩ := Prod.mk.inj (Except.ok.inj (hstep.symm.trans ht))
      exact fun _ => hentries
    | false =>
      obtain ⟨list, hlist, -⟩ := bind_eq_ok.mp hstep
      unfold addFilter dlInsertB blink at hlist
      rw [deref_dead hlive] at hlist
      cases hlist
  | .removeFilter f =>
    cases hlive : s.list.live s.list.filterList with
    | true =>
      obtain ⟨entries, hholds, hsame⟩ := h hlive
      obtain ⟨t, ht, hentries⟩ := step_removeFilter call hholds hsame f
      obtain ⟨rfl, -⟩ := Prod.mk.inj (Except.ok.inj (hstep.symm.trans ht))
      intro hlive'
      split at hentries
      · exact hentries
      · rw [hlive'] at hentries
        cases hentries
    | false =>
      obtain ⟨list, hlist, -⟩ := bind_eq_ok.mp hstep
      unfold removeFilter dlTraverse flink at hlist
      rw [deref_dead hlive] at hlist
      cases hlist

theorem careful_iff {s : Service Func Arg} (a : Action Func Arg) (hwhole : Whole s)
    (hlisted : Listed s) : Careful call s a ↔ ∃ s' answer,
      EndpointFilters.step call s a = .ok (s', answer) ∧ Heard call s a answer s' ∧ Listed s' := by
  obtain ⟨entries, hholds, hsame⟩ := hwhole hlisted.live
  match a with
  | .addFilter str f arg block =>
    obtain ⟨s', hs', entries', hholds', hsame'⟩ := step_addFilter call hholds hsame str f arg block
    exact iff_of_true trivial ⟨s', none, hs', trivial, hholds'.listed hsame'⟩
  | .removeFilter f =>
    obtain ⟨s', hs', hentries⟩ := step_removeFilter call hholds hsame f
    show (∃ r ∈ s.registered, r.func = f) ↔ _
    constructor
    · intro hregistered
      rw [if_pos hregistered] at hentries
      obtain ⟨entries', hholds', hsame'⟩ := hentries
      exact ⟨s', none, hs', trivial, hholds'.listed hsame'⟩
    · rintro ⟨t, answer, ht, -, hlisted'⟩
      obtain ⟨rfl, -⟩ := Prod.mk.inj (Except.ok.inj (hs'.symm.trans ht))
      by_contra hregistered
      rw [if_neg hregistered, hlisted'.live] at hentries
      cases hentries
  | .demuxAddr started dest string msg =>
    rw [demuxAddr_iff call hholds hsame]
    constructor
    · intro hrun
      refine ⟨s, some (filtered call s.registered msg), ?_, rfl, hlisted⟩
      show (demuxAddr call s.list started dest string msg >>= _) = _
      rw [hrun]
      rfl
    · rintro ⟨t, answer, ht, hheard, -⟩
      obtain ⟨-, a, ha, rfl⟩ := step_demuxAddr call started dest string msg ht
      rw [ha, Option.some.inj hheard]

/-- The service at its start. -/
def start : Service Func Arg := ⟨dlMake, []⟩

/-- In a run of the service every message goes through the filters that are registered for it, and
    the list holds the registered filters, if and only if no function is removed that no filter has,
    and every message finds the service started and is addressed, has a string of each filter that
    comes to see it, and the block of that filter points to a string. -/
theorem filters_iff (actions : List (Action Func Arg)) :
    Along (EndpointFilters.step call) Listed (Heard call) start actions ↔
      SafeRun (EndpointFilters.step call) (Careful call) start actions := by
  have hsame : ([] : List (Entry Func Arg)).map Entry.call =
      (start : Service Func Arg).registered.map Registration.toCall := rfl
  have hkeep : ∀ (s : Service Func Arg) a s' answer, Whole s →
      EndpointFilters.step call s a = .ok (s', answer) → Whole s' :=
    fun s a s' answer hs h => hs.step call h
  apply along_iff_safeRun hkeep (fun s a hs hp => careful_iff call a hs hp)
  · exact fun _ => ⟨[], holds_dlMake, hsame⟩
  · exact holds_dlMake.listed hsame

end Runs

/-! ## a filter that is called without its string -/

/-- A message with an element of the namespace `jxta`. -/
def jxtaMessage : List MessageElement := [⟨⟨messageJxtaNs, textXml, none, []⟩, []⟩]

/-- Filters that let a message pass, or not, and leave it as it is. -/
def answerOf (f : Bool) (_ : Unit) (msg : List MessageElement) : Bool × List MessageElement :=
  (f, msg)

/-- An address of the endpoint service. -/
def somewhere : EndpointAddress := ⟨messageJxtaNs, textXml, some textXml, none⟩

instance [DecidableEq Func] [DecidableEq Arg] :
    DecidablePred (Listed : Service Func Arg → Prop) := fun s =>
  inferInstanceAs (Decidable (s.list.contents = .ok (s.registered.map Registration.toCall)))

instance [DecidableEq Func] [DecidableEq Arg]
    (call : Func → Arg → List MessageElement → Bool × List MessageElement) (s : Service Func Arg) :
    (a : Action Func Arg) → (answer : Option (List (Call Func Arg) × Outcome)) →
      (s' : Service Func Arg) → Decidable (Heard call s a answer s')
  | .demuxAddr _ _ _ msg, answer, _ =>
    inferInstanceAs (Decidable (answer = some (filtered call s.registered msg)))
  | .addFilter .., _, _ => isTrue trivial
  | .removeFilter _, _, _ => isTrue trivial

/-- A filter for a namespace that the message does not have discards it, and the removal of a
    function without a filter takes the list away. -/
theorem not_filters :
    ¬Along (step answerOf) Listed (Heard answerOf) start
        [.addFilter octetStream false () 0,
          .demuxAddr true (some somewhere) (fun _ => some messageEmptyNs) jxtaMessage] ∧
      ¬Along (step answerOf) Listed (Heard answerOf) start [.removeFilter false] :=
  ⟨by decide +kernel, by decide +kernel⟩

end JxtaC.EndpointFilters
