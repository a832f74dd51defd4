import JxtaC.Base.Status
import JxtaC.Jdlist

/-
  The blocking queue (queue.c) over its list (jdlist.c). What is done under the mutex, from taking
  it to waiting for the condition or to leaving, is one step; a thread that waits is woken by a
  signal or without one, or its wait ends with a timeout, at any moment. Times are microseconds in
  64 bits.
-/

namespace JxtaC

open Lib List

/-- `struct _Queue`, with the times at which those who wait for the condition want to be up. -/
structure Queue where
  nodes : Dlists
  list : Nat
  size : Int
  waiting : List Int

namespace Queue

/-- The sum of signed numbers of so many bits. -/
def signed (bits : Nat) (n : Int) : Exec Int :=
  if -2 ^ (bits - 1) ≤ n ∧ n < 2 ^ (bits - 1) then .ok n else .error .signedOverflow

inductive Action where
  | enqueue (item : Nat)
  | dequeue (maxTimeout now : Int)
  /-- The one that waits at this place is woken. -/
  | wake (i : Nat) (now : Int)
  | timeout (i : Nat)

inductive Response where
  | size (n : Int)
  | waits
  | returns (status : Status) (obj : Nat)
  /-- Nobody waits at this place. -/
  | nothing

/-- `queue_new`. -/
def new : Queue :=
  let (nodes, list) := Dlists.empty.dlMake
  ⟨nodes, list, 0, []⟩

/-- `queue_enqueue`. -/
def enqueue (q : Queue) (item : Nat) : Exec (Queue × Response) := do
  let nodes ← q.nodes.dlInsertB q.list item
  let size ← signed 32 (q.size + 1)
  return ({ q with nodes, size }, .size size)

/-- The loop of `queue_dequeue_1`, up to the wait or to the return. -/
def await (q : Queue) (wakeupTime maxTimeout : Int) : Exec (Queue × Response) := do
  let head ← q.nodes.dlFirst q.list
  if 0 < maxTimeout ∧ head = q.list then
    return ({ q with waiting := q.waiting ++ [wakeupTime] }, .waits)
  else
    let obj ← q.nodes.valueAt head
    let nodes ← q.nodes.dlDeleteNode head
    let size ← signed 32 (q.size - 1)
    return ({ q with nodes, size }, .returns .success obj)

/-- One step of a thread. -/
def step (q : Queue) : Action → Exec (Queue × Response)
  | .enqueue item => q.enqueue item
  | .dequeue maxTimeout now => do
    let wakeupTime ← signed 64 (now + maxTimeout)
    q.await wakeupTime maxTimeout
  | .wake i now =>
    match q.waiting[i]? with
    | none => .ok (q, .nothing)
    | some wakeupTime => do
      let maxTimeout ← signed 64 (wakeupTime - now)
      { q with waiting := q.waiting.eraseIdx i }.await wakeupTime maxTimeout
  | .timeout i =>
    match q.waiting[i]? with
    | none => .ok (q, .nothing)
    | some _ => .ok ({ q with waiting := q.waiting.eraseIdx i }, .returns .timeout 0)

/-- The items of the queue, in order. -/
def items (q : Queue) : Exec (List Nat) := q.nodes.contents q.list

/-! ## the claim of the queue -/

/-- What an action puts in. -/
def Action.item : Action → Option Nat
  | .enqueue item => some item
  | _ => none

/-- What a response brings out. -/
def Response.obj : Response → Option Nat
  | .returns .success obj => some obj
  | _ => none

/-- The queue, and the items that were put in and that came out so far. -/
structure Observed where
  queue : Queue
  enqueued : List Nat
  dequeued : List Nat

def Observed.new : Observed := ⟨Queue.new, [], []⟩

def Observed.step (s : Observed) (a : Action) : Exec (Observed × Response) := do
  let (queue, r) ← s.queue.step a
  return (⟨queue, s.enqueued ++ a.item.toList, s.dequeued ++ r.obj.toList⟩, r)

/-- The items come out in the order in which they are put in, and the others are in the queue, which
has their number. -/
structure Fifo (s : Observed) : Prop where
  queued : ∃ items, s.queue.items = .ok items ∧ s.enqueued = s.dequeued ++ items ∧
    s.queue.size = items.length

/-- A success brings an item that was put in; and whoever leaves an empty queue has waited too long,
and leaves it as it is. -/
structure Dequeues (s : Observed) (r : Response) (s' : Observed) : Prop where
  enqueued : ∀ obj, r = .returns .success obj → obj ∈ s.enqueued
  empty : ∀ status obj, s.queue.items = .ok [] → r = .returns status obj →
    status = .timeout ∧ s'.queue.nodes = s.queue.nodes ∧ s'.queue.size = s.queue.size

/-- No sum is out of range, and nobody stops to wait with no time left in front of an empty queue.
-/
def Safe (s : Observed) : Action → Prop
  | .enqueue _ => s.queue.size + 1 < 2 ^ 31
  | .dequeue maxTimeout now => (-2 ^ 63 ≤ now + maxTimeout ∧ now + maxTimeout < 2 ^ 63) ∧
    (s.queue.items ≠ .ok [] ∨ 0 < maxTimeout)
  | .wake i now => ∀ wakeupTime, s.queue.waiting[i]? = some wakeupTime →
    (-2 ^ 63 ≤ wakeupTime - now ∧ wakeupTime - now < 2 ^ 63) ∧
      (s.queue.items ≠ .ok [] ∨ 0 < wakeupTime - now)
  | .timeout _ => True

/-! ### the list of the queue -/

/-- The list is freed, or its pointers are as they should be; and the size is in range. -/
structure Linked (q : Queue) : Prop where
  chain : q.nodes.live q.list = true → ∃ nodes, q.nodes.Chain q.list nodes
  range : -2 ^ 31 ≤ q.size ∧ q.size < 2 ^ 31

section Steps
variable {s : Observed} {q q' : Queue} {nodes : List Nat} {wakeupTime maxTimeout : Int}
  {r : Response}

theorem signed_ok {bits : Nat} {n : Int} (h : -2 ^ (bits - 1) ≤ n ∧ n < 2 ^ (bits - 1)) :
    signed bits n = .ok n := if_pos h

theorem range_of_signed {bits : Nat} {n m : Int} (h : signed bits n = .ok m) :
    -2 ^ (bits - 1) ≤ n ∧ n < 2 ^ (bits - 1) := by
  by_contra hno
  rw [signed, if_neg hno] at h
  cases h

/-- A queue that can be read has its list. -/
theorem Fifo.chain (h : Fifo s) (hlinked : Linked s.queue) :
    ∃ nodes, s.queue.nodes.Chain s.queue.list nodes ∧
      s.queue.items = .ok (nodes.map s.queue.nodes.val) ∧
      s.enqueued = s.dequeued ++ nodes.map s.queue.nodes.val ∧ s.queue.size = nodes.length := by
  obtain ⟨items, hitems, hseq, hsize⟩ := h.queued
  have hlive : s.queue.nodes.live s.queue.list = true := by
    by_contra hdead
    unfold Queue.items at hitems
    rw [Dlists.contents_dead (Bool.eq_false_iff.mpr hdead)] at hitems
    cases hitems
  obtain ⟨nodes, hchain⟩ := hlinked.chain hlive
  obtain rfl := Except.ok.inj (hitems.symm.trans hchain.contents_eq)
  exact ⟨nodes, hchain, hitems, hseq, hsize.trans (by rw [length_map])⟩

theorem fifo_of_chain (h : s.queue.nodes.Chain s.queue.list nodes)
    (hseq : s.enqueued = s.dequeued ++ nodes.map s.queue.nodes.val)
    (hsize : s.queue.size = nodes.length) : Fifo s :=
  ⟨_, h.contents_eq, hseq, hsize.trans (by rw [length_map])⟩

/-- An empty queue is waited at if there is time left. -/
theorem await_wait (h : q.nodes.Chain q.list []) (htime : 0 < maxTimeout) :
    q.await wakeupTime maxTimeout =
      .ok ({ q with waiting := q.waiting ++ [wakeupTime] }, .waits) := by
  unfold await
  rw [h.dlFirst_eq, ok_bind, if_pos ⟨htime, rfl⟩]
  rfl

variable (wakeupTime) in
/-- Without any time left the sentinel of its list is taken for an item, and is freed. -/
theorem await_late (h : q.nodes.Chain q.list []) (htime : maxTimeout ≤ 0) (hsize : q.size = 0) :
    ∃ q', q.await wakeupTime maxTimeout = .ok (q', .returns .success (q.nodes.val q.list)) ∧
      q'.nodes.live q'.list = false := by
  obtain ⟨nodes, hdelete, hdead⟩ := h.delete_list
  refine ⟨{ q with nodes, size := -1 }, ?_, hdead⟩
  unfold await
  rw [h.dlFirst_eq, ok_bind, if_neg fun hno => absurd hno.1 (Int.not_lt.mpr htime), headD_nil,
    Dlists.valueAt_live h.live_list, ok_bind, hdelete, ok_bind, hsize, signed_ok (by decide)]
  rfl

variable (wakeupTime maxTimeout) in
/-- The first item is taken. -/
theorem await_take {node : Nat} (h : q.nodes.Chain q.list (node :: nodes))
    (hsize : q.size = (node :: nodes).length) (hrange : q.size < 2 ^ 31) :
    ∃ q', q.await wakeupTime maxTimeout = .ok (q', .returns .success (q.nodes.val node)) ∧
      q'.nodes.Chain q'.list nodes ∧ q'.nodes.val = q.nodes.val ∧ q'.size = nodes.length := by
  obtain ⟨nodes', hdelete, hchain, hval⟩ := h.delete_first
  have hne : node ≠ q.list := fun heq => h.not_mem (heq ▸ mem_cons_self)
  have hpred : q.size - 1 = nodes.length := by
    rw [hsize, length_cons]
    omega
  refine ⟨{ q with nodes := nodes', size := q.size - 1 }, ?_, hchain, hval, hpred⟩
  unfold await
  rw [h.dlFirst_eq, ok_bind, if_neg fun hno => hne hno.2, headD_cons,
    Dlists.valueAt_live (h.live _ (mem_cons_of_mem _ mem_cons_self)), ok_bind, hdelete,
    ok_bind, signed_ok (by omega)]
  rfl

theorem linked_of_chain (h : q.nodes.Chain q.list nodes)
    (hrange : -2 ^ 31 ≤ q.size ∧ q.size < 2 ^ 31) : Linked q := ⟨fun _ => ⟨nodes, h⟩, hrange⟩

theorem Linked.waiting (h : Linked q) (waiting : List Int) : Linked { q with waiting } :=
  ⟨h.chain, h.range⟩

theorem linked_enqueue {item : Nat} (h : Linked q) (hstep : q.enqueue item = .ok (q', r)) :
    Linked q' := by
  unfold enqueue at hstep
  obtain ⟨nodes, hnodes, hrest⟩ := bind_eq_ok.mp hstep
  obtain ⟨size, hsize, hdone⟩ := bind_eq_ok.mp hrest
  cases hdone
  have hlive : q.nodes.live q.list = true := by
    by_contra hdead
    unfold Dlists.dlInsertB at hnodes
    rw [Dlists.blink_dead (Bool.eq_false_iff.mpr hdead), error_bind] at hnodes
    cases hnodes
  obtain ⟨old, hchain⟩ := h.chain hlive
  obtain ⟨nodes', hnodes', hchain', -⟩ := hchain.insert item
  obtain rfl := Except.ok.inj (hnodes'.symm.trans hnodes)
  have hrange := range_of_signed hsize
  rw [signed_ok hrange] at hsize
  cases hsize
  exact linked_of_chain hchain' hrange

theorem linked_await (h : Linked q) (hstep : q.await wakeupTime maxTimeout = .ok (q', r)) :
    Linked q' := by
  have hlive : q.nodes.live q.list = true := by
    by_contra hdead
    unfold await Dlists.dlFirst at hstep
    rw [Dlists.flink_dead (Bool.eq_false_iff.mpr hdead), error_bind] at hstep
    cases hstep
  obtain ⟨nodes, hchain⟩ := h.chain hlive
  unfold await at hstep
  rw [hchain.dlFirst_eq, ok_bind] at hstep
  split at hstep
  · cases hstep
    exact h.waiting _
  · obtain ⟨obj, -, hstep⟩ := bind_eq_ok.mp hstep
    obtain ⟨nodes', hdelete, hstep⟩ := bind_eq_ok.mp hstep
    obtain ⟨size, hsize, hdone⟩ := bind_eq_ok.mp hstep
    cases hdone
    have hrange := range_of_signed hsize
    rw [signed_ok hrange] at hsize
    cases hsize
    refine ⟨fun hlive' => ?_, hrange⟩
    cases nodes with
    | nil =>
      obtain ⟨dead, hdead, hgone⟩ := hchain.delete_list
      obtain rfl := Except.ok.inj (hdead.symm.trans hdelete)
      exact absurd (hgone.symm.trans hlive') (by decide)
    | cons node nodes =>
      obtain ⟨left, hleft, hrest, -⟩ := hchain.delete_first
      obtain rfl := Except.ok.inj (hleft.symm.trans hdelete)
      exact ⟨nodes, hrest⟩

theorem step_wake_none {i : Nat} {now : Int} (h : q.waiting[i]? = none) :
    q.step (.wake i now) = .ok (q, .nothing) := by simp only [step, h]

theorem step_wake_some {i : Nat} {now : Int} (h : q.waiting[i]? = some wakeupTime) :
    q.step (.wake i now) = (signed 64 (wakeupTime - now) >>= fun maxTimeout =>
      { q with waiting := q.waiting.eraseIdx i }.await wakeupTime maxTimeout) := by
  simp only [step, h]

theorem step_timeout_none {i : Nat} (h : q.waiting[i]? = none) :
    q.step (.timeout i) = .ok (q, .nothing) := by simp only [step, h]

theorem step_timeout_some {i : Nat} (h : q.waiting[i]? = some wakeupTime) :
    q.step (.timeout i) =
      .ok ({ q with waiting := q.waiting.eraseIdx i }, .returns .timeout 0) := by
  simp only [step, h]

theorem linked_step {a : Action} (h : Linked q) (hstep : q.step a = .ok (q', r)) : Linked q' := by
  cases a with
  | enqueue item => exact linked_enqueue h hstep
  | dequeue maxTimeout now =>
    obtain ⟨wakeupTime, -, hawait⟩ := bind_eq_ok.mp hstep
    exact linked_await h hawait
  | wake i now =>
    cases hi : q.waiting[i]? with
    | none =>
      rw [step_wake_none hi] at hstep
      cases hstep
      exact h
    | some wakeupTime =>
      rw [step_wake_some hi] at hstep
      obtain ⟨maxTimeout, -, hawait⟩ := bind_eq_ok.mp hstep
      exact linked_await (h.waiting _) hawait
  | timeout i =>
    cases hi : q.waiting[i]? with
    | none =>
      rw [step_timeout_none hi] at hstep
      cases hstep
      exact h
    | some wakeupTime =>
      rw [step_timeout_some hi] at hstep
      cases hstep
      exact h.waiting _

/-! ### one step -/

/-- The loop takes the first item, or waits at an empty queue, if and only if it is not at an empty
queue with no time left. -/
theorem await_iff (hq : Linked s.queue) (h : Fifo s) (waiting : List Int) :
    (s.queue.items ≠ .ok [] ∨ 0 < maxTimeout) ↔
      ∃ q' r, { s.queue with waiting }.await wakeupTime maxTimeout = .ok (q', r) ∧
        Dequeues s r ⟨q', s.enqueued, s.dequeued ++ r.obj.toList⟩ ∧
        Fifo ⟨q', s.enqueued, s.dequeued ++ r.obj.toList⟩ := by
  obtain ⟨nodes, hchain, hitems, hseq, hsize⟩ := h.chain hq
  cases nodes with
  | nil =>
    by_cases htime : 0 < maxTimeout
    · refine iff_of_true (.inr htime) ⟨_, _, await_wait hchain htime, ⟨?_, ?_⟩, ?_⟩
      · exact fun obj hr => absurd hr (by simp)
      · exact fun status obj _ hr => absurd hr (by simp)
      · refine fifo_of_chain hchain ?_ hsize
        rw [hseq]
        exact (append_nil _).symm
    · refine iff_of_false (fun hno => hno.elim (fun hne => hne hitems) htime) fun hno => ?_
      obtain ⟨q', r, hawait, -, hfifo⟩ := hno
      obtain ⟨dead, hlate, hgone⟩ := await_late (q := { s.queue with waiting })
        wakeupTime hchain (Int.not_lt.mp htime) hsize
      obtain ⟨rfl, rfl⟩ := Prod.mk.inj (Except.ok.inj (hlate.symm.trans hawait))
      obtain ⟨items, hitems', -⟩ := hfifo.queued
      have hfault : dead.nodes.contents dead.list = .error .danglingPointer :=
        Dlists.contents_dead hgone
      exact absurd (hfault.symm.trans hitems') (by simp)
  | cons node nodes =>
    have hne : s.queue.items ≠ .ok [] := by
      rw [hitems]
      simp
    obtain ⟨q', htake, hchain', hval, hsize'⟩ := await_take (q := { s.queue with waiting })
      wakeupTime maxTimeout hchain hsize hq.range.2
    refine iff_of_true (.inl hne) ⟨q', _, htake, ⟨?_, ?_⟩, ?_⟩
    · intro obj hr
      cases hr
      rw [hseq]
      simp
    · exact fun status obj hempty => absurd hempty hne
    · refine fifo_of_chain hchain' ?_ hsize'
      rw [hval, hseq]
      simp [Response.obj]

/-- A step that leaves the items as they are, and brings none out. -/
theorem fifo_waiting (h : Fifo s) (waiting : List Int) (hr : r.obj = none) :
    Fifo ⟨{ s.queue with waiting }, s.enqueued, s.dequeued ++ r.obj.toList⟩ := by
  obtain ⟨items, hitems, hseq, hsize⟩ := h.queued
  refine ⟨items, hitems, ?_, hsize⟩
  rw [hr, hseq]
  simp

theorem enqueue_iff {item : Nat} (hq : Linked s.queue) (h : Fifo s) :
    s.queue.size + 1 < 2 ^ 31 ↔ ∃ q' r, s.queue.enqueue item = .ok (q', r) ∧
      Dequeues s r ⟨q', s.enqueued ++ [item], s.dequeued ++ r.obj.toList⟩ ∧
      Fifo ⟨q', s.enqueued ++ [item], s.dequeued ++ r.obj.toList⟩ := by
  obtain ⟨nodes, hchain, hitems, hseq, hsize⟩ := h.chain hq
  obtain ⟨nodes', hinsert, hchain', hval⟩ := hchain.insert item
  unfold enqueue
  rw [hinsert, ok_bind]
  constructor
  · intro hroom
    have hrange : -2 ^ 31 ≤ s.queue.size + 1 ∧ s.queue.size + 1 < 2 ^ 31 := ⟨by omega, hroom⟩
    refine ⟨_, _, by rw [signed_ok hrange, ok_bind]; rfl, ⟨?_, ?_⟩, ?_⟩
    · exact fun obj hr => absurd hr (by simp)
    · exact fun status obj _ hr => absurd hr (by simp)
    · refine fifo_of_chain hchain' ?_ ?_
      · rw [hval, hseq]
        simp [Response.obj]
      · rw [hsize, length_append]
        rfl
  · intro hno
    obtain ⟨q', r, hrun, -⟩ := hno
    obtain ⟨size, hsigned, -⟩ := bind_eq_ok.mp hrun
    exact (range_of_signed hsigned).2

/-- Behind a sum that is in range the loop goes on. -/
theorem signed_await_iff (hq : Linked s.queue) (h : Fifo s) (waiting : List Int) (n : Int)
    (wakeup left : Int → Int) :
    ((-2 ^ 63 ≤ n ∧ n < 2 ^ 63) ∧ (s.queue.items ≠ .ok [] ∨ 0 < left n)) ↔
      ∃ q' r, (signed 64 n >>= fun m => { s.queue with waiting }.await (wakeup m) (left m)) =
          .ok (q', r) ∧
        Dequeues s r ⟨q', s.enqueued ++ [], s.dequeued ++ r.obj.toList⟩ ∧
        Fifo ⟨q', s.enqueued ++ [], s.dequeued ++ r.obj.toList⟩ := by
  rw [append_nil]
  constructor
  · intro hsafe
    rw [signed_ok hsafe.1, ok_bind]
    exact (await_iff hq h waiting).mp hsafe.2
  · intro hno
    obtain ⟨q', r, hrun, hrest⟩ := hno
    obtain ⟨m, hsigned, hawait⟩ := bind_eq_ok.mp hrun
    have hrange := range_of_signed hsigned
    rw [signed_ok hrange] at hsigned
    cases hsigned
    exact ⟨hrange, (await_iff hq h waiting).mpr ⟨q', r, hawait, hrest⟩⟩

/-- A safe step, and no other, keeps the queue in order and answers as it should. -/
theorem step_iff {a : Action} (hq : Linked s.queue) (h : Fifo s) :
    Safe s a ↔ ∃ s' r, s.step a = .ok (s', r) ∧ Dequeues s r s' ∧ Fifo s' := by
  have hstep : (∃ s' r, s.step a = .ok (s', r) ∧ Dequeues s r s' ∧ Fifo s') ↔
      ∃ q' r, s.queue.step a = .ok (q', r) ∧
        Dequeues s r ⟨q', s.enqueued ++ a.item.toList, s.dequeued ++ r.obj.toList⟩ ∧
        Fifo ⟨q', s.enqueued ++ a.item.toList, s.dequeued ++ r.obj.toList⟩ := by
    constructor
    · intro hs
      obtain ⟨s', r, hrun, hs⟩ := hs
      obtain ⟨⟨q', r'⟩, hq', hdone⟩ := bind_eq_ok.mp hrun
      obtain ⟨rfl, rfl⟩ := Prod.mk.inj (Except.ok.inj hdone)
      exact ⟨q', r', hq', hs⟩
    · intro hs
      obtain ⟨q', r, hrun, hs⟩ := hs
      refine ⟨_, r, ?_, hs⟩
      unfold Observed.step
      rw [hrun]
      rfl
  rw [hstep]
  cases a with
  | enqueue item => exact enqueue_iff hq h
  | dequeue maxTimeout now =>
    exact signed_await_iff hq h s.queue.waiting (now + maxTimeout) id fun _ => maxTimeout
  | wake i now =>
    cases hi : s.queue.waiting[i]? with
    | none =>
      rw [step_wake_none hi]
      refine iff_of_true (fun wakeupTime hno => absurd (hi.symm.trans hno) (by simp))
        ⟨_, _, rfl, ⟨fun obj hr => absurd hr (by simp), fun status obj _ hr => absurd hr (by simp)⟩,
          ?_⟩
      simp only [Action.item, Option.toList_none, append_nil]
      exact fifo_waiting h s.queue.waiting rfl
    | some wakeupTime =>
      rw [step_wake_some hi]
      refine Iff.trans ?_ (signed_await_iff hq h (s.queue.waiting.eraseIdx i) (wakeupTime - now)
        (fun _ => wakeupTime) id)
      constructor
      · exact fun hsafe => hsafe wakeupTime hi
      · intro hsafe wakeupTime' hi'
        obtain rfl := Option.some.inj (hi.symm.trans hi')
        exact hsafe
  | timeout i =>
    refine iff_of_true trivial ?_
    simp only [Action.item, Option.toList_none, append_nil]
    cases hi : s.queue.waiting[i]? with
    | none =>
      rw [step_timeout_none hi]
      exact ⟨_, _, rfl, ⟨fun obj hr => absurd hr (by simp),
        fun status obj _ hr => absurd hr (by simp)⟩, fifo_waiting h s.queue.waiting rfl⟩
    | some wakeupTime =>
      rw [step_timeout_some hi]
      refine ⟨_, _, rfl, ⟨fun obj hr => absurd hr (by simp), fun status obj _ hr => ?_⟩,
        fifo_waiting h (s.queue.waiting.eraseIdx i) rfl⟩
      cases hr
      exact ⟨rfl, rfl, rfl⟩

theorem linked_observed {s' : Observed} {a : Action} (h : Linked s.queue)
    (hstep : s.step a = .ok (s', r)) : Linked s'.queue := by
  obtain ⟨⟨q', r'⟩, hq', hdone⟩ := bind_eq_ok.mp hstep
  cases hdone
  exact linked_step h hq'

end Steps

/-- Items come out of the queue in their order and each once, along the runs in which no sum is out
of range and nobody stops to wait with no time left in front of an empty queue, and along no
others. -/
theorem fifo_along_iff (actions : List Action) :
    Along Observed.step Fifo (fun s _ r s' => Dequeues s r s') Observed.new actions ↔
      SafeRun Observed.step Safe Observed.new actions := by
  have hchain : Observed.new.queue.nodes.Chain Observed.new.queue.list [] :=
    Dlists.chain_dlMake Dlists.empty
  refine along_iff_safeRun (fun s a s' r => linked_observed) (fun s a => step_iff) actions ?_ ?_
  · exact linked_of_chain hchain ⟨by decide, by decide⟩
  · exact fifo_of_chain hchain rfl rfl

/-- Who does not want to wait in front of an empty queue is told of a success. -/
theorem not_fifo_along : ¬∀ actions : List Action,
    Along Observed.step Fifo (fun s _ r s' => Dequeues s r s') Observed.new actions := by
  intro h
  obtain ⟨-, s', r, hstep, hdequeues, -⟩ := h [.dequeue 0 0]
  have hlate : Observed.new.step (.dequeue 0 0) = .ok (_, .returns .success 0) := rfl
  obtain ⟨rfl, rfl⟩ := Prod.mk.inj (Except.ok.inj (hlate.symm.trans hstep))
  exact absurd (hdequeues.enqueued 0 rfl) not_mem_nil

end Queue

end JxtaC
