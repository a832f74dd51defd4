import Mathlib.Data.List.Perm.Subperm
import Mathlib.Data.List.Nodup
import JxtaC.Lib.Transition
import JxtaC.Listener

/-
  The worker pool keeps its law in every run whose steps are careful (`pool_lawful`). The objects
  that a listener has taken are in one place each: the section that queues them, the queue, the hands
  of a worker, or the function (`tokens`).
-/

namespace JxtaC

open Lib List

namespace Listener
variable {s s' : State} {config : Config}

/-! ## the objects -/

/-- The object in the hands of a worker, which has not invoked the function yet. -/
def Point.hand : Point → List Nat
  | .dequeued (some number) => [number]
  | _ => []

/-- The object that a section still has to queue. -/
def Task.pending : Task → List Nat
  | .enqueue (some number) => [number]
  | _ => []

/-- The objects of the items. -/
def numbers (items : List Item) : List Nat := items.filterMap id

theorem map_numbers {items : List Item} (h : ∀ item ∈ items, item.isSome = true) :
    (numbers items).map some = items := by
  induction items with
  | nil => rfl
  | cons item items ih =>
    obtain ⟨number, rfl⟩ := Option.isSome_iff_exists.mp (h item mem_cons_self)
    exact congrArg (some number :: ·) (ih fun i hi => h i (mem_cons_of_mem _ hi))

namespace State

/-- Where the objects are, those that were scheduled first in front. -/
def tokens (s : State) : List Nat :=
  numbers s.invoked ++ (s.workers.flatMap Point.hand ++ (numbers (s.queue.getD []) ++
    s.mutex.flatMap Task.pending))

end State

/-- The objects of a step come from those before it, and from what was taken in it; a single worker
keeps their order. -/
structure Flows (s s' : State) (fresh : List Nat) : Prop where
  subperm : s'.tokens.Subperm (s.tokens ++ fresh)
  sublist : s.workers.length ≤ 1 → s'.tokens.Sublist (s.tokens ++ fresh)

theorem Flows.of_sublist {fresh : List Nat} (h : s'.tokens.Sublist (s.tokens ++ fresh)) :
    Flows s s' fresh :=
  ⟨h.subperm, fun _ => h⟩

theorem Flows.of_eq (h : s'.tokens = s.tokens) : Flows s s' [] := by
  refine .of_sublist ?_
  rw [h, append_nil]

/-- The objects are in one place each, and were taken. -/
structure Ordered (config : Config) (s : State) : Prop where
  nodup : s.tokens.Nodup
  taken : ∀ number ∈ s.tokens, number < s.scheduled
  sorted : config.maxNbOfInvoke = 1 → s.tokens.Pairwise (· < ·)

theorem Ordered.flows (h : Ordered config s) (hroom : s.workers.length ≤ config.maxNbOfInvoke)
    (hflows : Flows s s' []) (hscheduled : s'.scheduled = s.scheduled) : Ordered config s' := by
  obtain ⟨hperm, hsub⟩ := hflows
  rw [append_nil] at hperm
  refine ⟨?_, fun number hnumber => ?_, fun hone => ?_⟩
  · obtain ⟨l, hl, hsub⟩ := hperm
    exact hl.nodup_iff.mp (hsub.nodup h.nodup)
  · rw [hscheduled]
    exact h.taken number (hperm.subset hnumber)
  · have hsub := hsub (hone ▸ hroom)
    rw [append_nil] at hsub
    exact (h.sorted hone).sublist hsub

theorem Ordered.fresh (h : Ordered config s) (hroom : s.workers.length ≤ config.maxNbOfInvoke)
    (hflows : Flows s s' [s.scheduled]) (hscheduled : s'.scheduled = s.scheduled + 1) :
    Ordered config s' := by
  obtain ⟨hperm, hsub⟩ := hflows
  have hlast : ∀ number ∈ s.tokens ++ [s.scheduled], number < s.scheduled + 1 := by
    intro number hnumber
    rcases mem_append.mp hnumber with hmem | hmem
    · exact Nat.lt_succ_of_lt (h.taken number hmem)
    · rw [mem_singleton.mp hmem]
      exact Nat.lt_succ_self _
  refine ⟨?_, fun number hnumber => ?_, fun hone => ?_⟩
  · have hnodup : (s.tokens ++ [s.scheduled]).Nodup := by
      rw [nodup_append]
      refine ⟨h.nodup, nodup_singleton _, fun a ha b hb => ?_⟩
      rw [mem_singleton.mp hb]
      exact Nat.ne_of_lt (h.taken a ha)
    obtain ⟨l, hl, hsub⟩ := hperm
    exact hl.nodup_iff.mp (hsub.nodup hnodup)
  · rw [hscheduled]
    exact hlast number (hperm.subset hnumber)
  · refine List.Pairwise.sublist (hsub (hone ▸ hroom)) (pairwise_append.mpr
      ⟨h.sorted hone, pairwise_singleton _ _, fun a ha b hb => ?_⟩)
    rw [mem_singleton.mp hb]
    exact h.taken a ha

/-! ## the condition -/

/-- The steps on which the pool relies. An object is queued, and a listener started with objects in
its queue, only while some worker has not decided to go; a wait does not end by its time while it is
the last one for an object in the queue, nor behind its time on an empty queue; a worker does not find
the listener started again with the marker in its hands; and the function, invoked by those who
schedule, is not entered again too often. -/
def Careful (config : Config) (s : State) : Action → Prop
  | .start => s.HoldsObject → s.HasWorker
  | .schedule => config.maxQueueSize ≤ 0 → s.mutex.length < config.maxNbOfInvoke
  | .proceed => (∃ task ∈ s.mutex.head?, task.pending ≠ []) → s.HasWorker
  | .wakeLate _ => s.queue ≠ some []
  | .timeout i => s.started = true → s.HoldsObject → (s.setWorker i .leaving).HasWorker
  | .take i => s.started = true → s.workers[i]? ≠ some (.dequeued none)
  | _ => True

/-- What holds in every state of such a run. -/
structure Inv (config : Config) (s : State) : Prop where
  threads : s.nbOfThreads = s.workers.length
  busy : s.nbOfBusyThreads = s.workers.countP Point.isInvoking
  room : s.workers.length ≤ config.maxNbOfInvoke
  list : ∃ queue, s.queue = some queue
  direct : config.maxQueueSize ≤ 0 → s.workers = [] ∧ s.queue = some [] ∧
    s.mutex.length ≤ config.maxNbOfInvoke ∧ ∀ task ∈ s.mutex, task.isInvoke = true
  queued : 0 < config.maxQueueSize → s.mutex = [] ∨ ∃ item, s.mutex = [.enqueue item]
  invoked : ∀ item ∈ s.invoked, item.isSome = true
  ordered : Ordered config s
  served : s.started = true → s.HoldsObject → s.HasWorker

theorem inv_initial (config : Config) : Inv config initial where
  threads := rfl
  busy := rfl
  room := Nat.zero_le _
  list := ⟨[], rfl⟩
  direct _ := ⟨rfl, rfl, Nat.zero_le _, by simp [initial]⟩
  queued _ := .inl rfl
  invoked := by simp [initial]
  ordered := ⟨nodup_nil, by simp [State.tokens, initial, numbers], fun _ => List.Pairwise.nil⟩
  served h := absurd h (by decide)

theorem Inv.lawful (h : Inv config s) : s.Lawful config where
  bounded := by
    unfold State.inProgress
    rcases Int.lt_or_le 0 config.maxQueueSize with hmode | hmode
    · have hworkers : s.workers.countP Point.isInvoking ≤ config.maxNbOfInvoke :=
        Nat.le_trans countP_le_length h.room
      rcases h.queued hmode with hmutex | ⟨item, hmutex⟩
      · simpa [hmutex] using hworkers
      · simpa [hmutex, Task.isInvoke] using hworkers
    · obtain ⟨hworkers, -, hmutex, -⟩ := h.direct hmode
      have hcount := countP_le_length (p := Task.isInvoke) (l := s.mutex)
      simp only [hworkers, countP_nil]
      omega
  scheduled item hitem := by
    obtain ⟨number, rfl⟩ := Option.isSome_iff_exists.mp (h.invoked item hitem)
    refine ⟨number, h.ordered.taken number ?_, rfl⟩
    exact mem_append_left _ (mem_filterMap.mpr ⟨_, hitem, rfl⟩)
  once := by
    rw [← map_numbers h.invoked]
    exact (nodup_append.mp h.ordered.nodup).1.map fun _ _ => Option.some.inj
  ordered hmax := (pairwise_append.mp (h.ordered.sorted hmax)).1
  served := h.served

/-! ## the steps -/

section Steps

variable {config : Config} {s : State}
variable {i : Nat} {p : Point} {s' : State}

/-- A step of a worker that touches neither the counters nor the objects. -/
theorem Inv.move (h : Inv config s) {p' : Point} (hp : s.workers[i]? = some p)
    (hinvoking : p'.isInvoking = p.isInvoking) (hhand : p'.hand.Sublist p.hand)
    (hserved : s.started = true → s.HoldsObject → (s.setWorker i p').HasWorker) :
    Inv config (s.setWorker i p') := by
  obtain ⟨pre, post, hworkers, hset, -⟩ := exists_split hp
  have hset : (s.setWorker i p').workers = pre ++ p' :: post := hset p'
  have hlength : (s.setWorker i p').workers.length = s.workers.length := by
    rw [hset, hworkers]
    simp
  refine ⟨by rw [hlength]; exact h.threads, ?_, by rw [hlength]; exact h.room, h.list,
    fun hmode => absurd (h.direct hmode).1 (by rw [hworkers]; simp), h.queued, h.invoked, ?_, hserved⟩
  · have hcount : s.workers.countP Point.isInvoking =
        (s.setWorker i p').workers.countP Point.isInvoking := by
      rw [hset, hworkers]
      simp [countP_cons, hinvoking]
    exact h.busy.trans hcount
  · refine h.ordered.flows h.room (.of_sublist ?_) rfl
    unfold State.tokens
    rw [hset, hworkers, append_nil]
    simp only [flatMap_append, flatMap_cons]
    exact (List.Sublist.refl _).append ((((List.Sublist.refl _).append
      (hhand.append (List.Sublist.refl _)))).append (List.Sublist.refl _))

/-- A worker that stays is one that will take an object. -/
theorem hasWorker_setWorker {p' : Point} (hp : s.workers[i]? = some p) (hstays : p'.stays = true) :
    (s.setWorker i p').HasWorker := by
  obtain ⟨pre, post, -, hset, -⟩ := exists_split hp
  exact ⟨p', by show p' ∈ s.workers.set i p'; rw [hset]; simp, hstays⟩

section
variable (h : Inv config s)
include h

theorem Inv.start (hcare : s.HoldsObject → s.HasWorker) : Inv config s.start :=
  ⟨h.threads, h.busy, h.room, h.list, h.direct, h.queued, h.invoked,
    ⟨h.ordered.nodup, h.ordered.taken, h.ordered.sorted⟩, fun _ => hcare⟩

/-- A marker is no object. -/
theorem Inv.stop (havailable : s.available = true) : Inv config s.stop := by
  unfold State.stop
  split
  next hlt =>
    have hne : s.workers ≠ [] := by
      intro hnil
      have hthreads := h.threads
      rw [hnil] at hthreads
      simp only [length_nil] at hthreads
      omega
    have hmode : 0 < config.maxQueueSize := by
      by_contra hmode
      exact hne (h.direct (by omega)).1
    have hmutex : s.mutex = [] := by
      rcases h.queued hmode with hmutex | ⟨item, hmutex⟩
      · exact hmutex
      · simp [State.available, hmutex] at havailable
    refine ⟨h.threads, h.busy, h.room, h.list, fun hmode' => by omega, fun _ => .inr ⟨none, ?_⟩,
      h.invoked, h.ordered.flows h.room (.of_sublist ?_) rfl, fun hstarted => by simp at hstarted⟩
    · exact congrArg (Task.enqueue none :: ·) hmutex
    · simp [State.tokens, Task.pending]
  next =>
    exact ⟨h.threads, h.busy, h.room, h.list, h.direct, h.queued, h.invoked,
      ⟨h.ordered.nodup, h.ordered.taken, h.ordered.sorted⟩, fun hstarted => by simp at hstarted⟩

theorem Inv.schedule (havailable : s.available = true)
    (hcare : config.maxQueueSize ≤ 0 → s.mutex.length < config.maxNbOfInvoke) :
    Inv config (s.schedule config) := by
  unfold State.schedule
  split
  next => exact h
  next hstarted =>
    split
    next hmode =>
      obtain ⟨hworkers, hqueue, -, htasks⟩ := h.direct hmode
      have hpending : s.mutex.flatMap Task.pending = [] := by
        refine flatMap_eq_nil_iff.mpr fun task htask => ?_
        cases task with
        | enqueue item => exact absurd (htasks _ htask) (by simp [Task.isInvoke])
        | invoke number => rfl
      refine ⟨h.threads, h.busy, h.room, h.list, fun _ => ⟨hworkers, hqueue, hcare hmode, ?_⟩,
        fun hmode' => by omega, ?_, h.ordered.fresh h.room (.of_sublist ?_) rfl, h.served⟩
      · exact forall_mem_cons.mpr ⟨rfl, htasks⟩
      · intro item hitem
        rcases mem_append.mp hitem with hitem | hitem
        · exact h.invoked item hitem
        · rw [mem_singleton.mp hitem]
          rfl
      · simp [State.tokens, numbers, hworkers, hqueue, Task.pending, hpending]
    next hmode =>
      have hmutex : s.mutex = [] := by
        rcases h.queued (by omega) with hmutex | ⟨item, hmutex⟩
        · exact hmutex
        · simp [State.available, hmutex] at havailable
      unfold State.createThread
      split
      next hnew =>
        have hthreads := h.threads
        refine ⟨by simp [hthreads], by simpa [Point.isInvoking] using h.busy, ?_, h.list,
          fun hmode' => absurd hmode' hmode, fun _ => .inr ⟨some s.scheduled, by rw [hmutex]⟩,
          h.invoked, h.ordered.fresh h.room (.of_sublist ?_) rfl, fun _ _ => ?_⟩
        · rw [length_append, length_singleton, ← hthreads]
          exact hnew.2
        · simp [State.tokens, Point.hand, Task.pending, hmutex]
        · exact ⟨.looping, by simp, rfl⟩
      next =>
        refine ⟨h.threads, h.busy, h.room, h.list, fun hmode' => absurd hmode' hmode,
          fun _ => .inr ⟨some s.scheduled, by rw [hmutex]⟩, h.invoked,
          h.ordered.fresh h.room (.of_sublist ?_) rfl, h.served⟩
        simp [State.tokens, Task.pending, hmutex]

theorem Inv.proceed (hstep : s.proceed = some (.ok s'))
    (hcare : (∃ task ∈ s.mutex.head?, task.pending ≠ []) → s.HasWorker) : Inv config s' := by
  obtain ⟨queue, hqueue⟩ := h.list
  unfold State.proceed at hstep
  cases hmutex : s.mutex with
  | nil => simp [hmutex] at hstep
  | cons task mutex =>
    cases task with
    | enqueue item =>
      rw [hmutex, hqueue] at hstep
      simp only [Option.some.injEq, Except.ok.injEq] at hstep
      subst hstep
      have hmode : 0 < config.maxQueueSize := by
        by_contra hmode
        have htask := (h.direct (by omega)).2.2.2 (.enqueue item) (by simp [hmutex])
        simp [Task.isInvoke] at htask
      obtain rfl : mutex = [] := by
        rcases h.queued hmode with hnil | ⟨item', hone⟩
        · simp [hmutex] at hnil
        · rw [hmutex] at hone
          exact (List.cons.inj hone).2
      refine ⟨h.threads, h.busy, h.room, ⟨_, rfl⟩, fun hmode' => by omega, fun _ => .inl rfl,
        h.invoked, h.ordered.flows h.room (.of_sublist ?_) rfl, fun hstarted hobject => ?_⟩
      · cases item <;> simp [State.tokens, numbers, hqueue, hmutex, Task.pending]
      · cases item with
        | some number =>
          exact hcare ⟨.enqueue (some number), by rw [hmutex]; rfl, cons_ne_nil _ _⟩
        | none =>
          refine h.served hstarted ?_
          obtain ⟨item, hitem, hsome⟩ := hobject
          refine ⟨item, ?_, hsome⟩
          rcases mem_append.mp hitem with hmem | hmem
          · rw [hqueue]
            exact hmem
          · obtain rfl := mem_singleton.mp hmem
            cases hsome
    | invoke number =>
      rw [hmutex] at hstep
      simp only [Option.some.injEq, Except.ok.injEq] at hstep
      subst hstep
      have hmode : config.maxQueueSize ≤ 0 := by
        by_contra hmode
        rcases h.queued (by omega) with hnil | ⟨item, hone⟩
        · simp [hmutex] at hnil
        · simp [hmutex] at hone
      obtain ⟨hworkers, hqueue', hlength, htasks⟩ := h.direct hmode
      rw [hmutex] at hlength htasks
      refine ⟨h.threads, h.busy, h.room, h.list, fun _ => ⟨hworkers, hqueue', ?_, ?_⟩,
        fun hmode' => by omega, h.invoked, h.ordered.flows h.room (.of_sublist ?_) rfl, h.served⟩
      · exact Nat.le_of_succ_le hlength
      · exact fun task htask => htasks task (mem_cons_of_mem _ htask)
      · simp [State.tokens, hmutex, Task.pending]

/-- What a worker takes from the queue goes into its hands. -/
theorem Inv.dequeue (hp : s.workers[i]? = some p) (hinvoking : p.isInvoking = false)
    (hhand : p.hand = []) (hqueue : s.queue ≠ some []) (hstep : s.dequeue i = .ok s') :
    Inv config s' := by
  obtain ⟨queue, hsome⟩ := h.list
  obtain ⟨pre, post, hworkers, hset, -⟩ := exists_split hp
  unfold State.dequeue at hstep
  rw [hsome] at hstep hqueue
  cases queue with
  | nil => exact absurd rfl hqueue
  | cons item queue =>
    cases hstep
    have hset : (s.setWorker i (.dequeued item)).workers = pre ++ .dequeued item :: post :=
      hset (.dequeued item)
    have hlength : (s.setWorker i (.dequeued item)).workers.length = s.workers.length := by
      rw [hset, hworkers]
      simp
    have htokens : ∀ u : State, u.invoked = s.invoked → u.mutex = s.mutex →
        u.workers = pre ++ .dequeued item :: post → u.queue = some queue → Flows s u [] := by
      intro u hinvoked hmutex hwork hrest
      have hnumbers : numbers (item :: queue) = (Point.dequeued item).hand ++ numbers queue := by
        cases item <;> rfl
      refine ⟨?_, fun hone => ?_⟩
      · refine List.Perm.subperm (perm_iff_count.mpr fun a => ?_)
        simp only [State.tokens, hinvoked, hmutex, hwork, hrest, hworkers, hsome, Option.getD_some,
          hnumbers, hhand, flatMap_append, flatMap_cons, append_nil,
          count_append, nil_append]
        omega
      · rw [hworkers] at hone
        simp only [length_append, length_cons] at hone
        obtain rfl : pre = [] := length_eq_zero_iff.mp (by omega)
        obtain rfl : post = [] := length_eq_zero_iff.mp (by omega)
        simp [State.tokens, hinvoked, hmutex, hwork, hrest, hworkers, hsome, hnumbers, hhand]
    refine ⟨hlength ▸ h.threads, ?_, hlength ▸ h.room, ⟨queue, rfl⟩,
      fun hmode => absurd (h.direct hmode).1 (by rw [hworkers]; simp), h.queued, h.invoked,
      h.ordered.flows h.room (htokens _ rfl rfl hset rfl) rfl, fun _ _ => ?_⟩
    · have hdequeued : (Point.dequeued item).isInvoking = false := rfl
      have hcount : s.workers.countP Point.isInvoking =
          (s.setWorker i (.dequeued item)).workers.countP Point.isInvoking := by
        rw [hset, hworkers]
        simp [hinvoking, hdequeued]
      exact h.busy.trans hcount
    · exact hasWorker_setWorker hp rfl

theorem Inv.await (hp : s.workers[i]? = some p) (hinvoking : p.isInvoking = false)
    (hhand : p.hand = []) (hstep : s.await i = .ok s') : Inv config s' := by
  unfold State.await at hstep
  split at hstep
  next hempty =>
    cases hstep
    refine h.move hp (by rw [hinvoking]; rfl) (by rw [hhand]; exact List.Sublist.refl _) fun _ _ => ?_
    exact hasWorker_setWorker hp rfl
  next hempty => exact h.dequeue hp hinvoking hhand hempty hstep

theorem Inv.take {item : Item} (hp : s.workers[i]? = some (.dequeued item))
    (hcare : s.started = true → item ≠ none) : Inv config (s.take i item) := by
  unfold State.take
  split
  next hstopped =>
    refine h.move hp rfl (nil_sublist _) fun hstarted => ?_
    simp [hstarted] at hstopped
  next hstarted =>
    have hstarted : s.started = true := by simpa using hstarted
    obtain ⟨number, rfl⟩ := Option.ne_none_iff_exists'.mp (hcare hstarted)
    obtain ⟨pre, post, hworkers, hset, -⟩ := exists_split hp
    have hset : (s.setWorker i (.invoking (some number))).workers =
        pre ++ .invoking (some number) :: post := hset _
    have hlength : (s.setWorker i (.invoking (some number))).workers.length = s.workers.length := by
      rw [hset, hworkers]
      simp
    have htokens : ∀ u : State, u.invoked = s.invoked ++ [some number] → u.mutex = s.mutex →
        u.workers = pre ++ .invoking (some number) :: post → u.queue = s.queue → Flows s u [] := by
      intro u hinvoked hmutex hwork hqueue
      have hnumbers : numbers (s.invoked ++ [some number]) = numbers s.invoked ++ [number] := by
        simp [numbers]
      refine ⟨?_, fun hone => ?_⟩
      · refine List.Perm.subperm (perm_iff_count.mpr fun a => ?_)
        simp only [State.tokens, hinvoked, hmutex, hwork, hqueue, hworkers, hnumbers, Point.hand,
          flatMap_append, flatMap_cons, append_nil, count_append,
          nil_append]
        omega
      · rw [hworkers] at hone
        simp only [length_append, length_cons] at hone
        obtain rfl : pre = [] := length_eq_zero_iff.mp (by omega)
        obtain rfl : post = [] := length_eq_zero_iff.mp (by omega)
        simp [State.tokens, hinvoked, hmutex, hwork, hqueue, hworkers, hnumbers, Point.hand]
    refine ⟨hlength ▸ h.threads, ?_, hlength ▸ h.room, h.list,
      fun hmode => absurd (h.direct hmode).1 (by rw [hworkers]; simp), h.queued, ?_,
      h.ordered.flows h.room (htokens _ rfl rfl hset rfl) rfl, fun _ _ => ?_⟩
    · have hbusy := h.busy
      show s.nbOfBusyThreads + 1 =
        (s.setWorker i (.invoking (some number))).workers.countP Point.isInvoking
      rw [hbusy, hset, hworkers]
      simp [countP_cons, Point.isInvoking]
      omega
    · intro item hitem
      rcases mem_append.mp hitem with hitem | hitem
      · exact h.invoked item hitem
      · rw [mem_singleton.mp hitem]
        rfl
    · exact hasWorker_setWorker hp rfl

theorem Inv.finish {item : Item} (hp : s.workers[i]? = some (.invoking item)) :
    Inv config (s.finish i) := by
  obtain ⟨pre, post, hworkers, hset, -⟩ := exists_split hp
  have hset : (s.setWorker i .looping).workers = pre ++ .looping :: post := hset _
  have hlength : (s.setWorker i .looping).workers.length = s.workers.length := by
    rw [hset, hworkers]
    simp
  unfold State.finish
  refine ⟨hlength ▸ h.threads, ?_, hlength ▸ h.room, h.list,
    fun hmode => absurd (h.direct hmode).1 (by rw [hworkers]; simp), h.queued, h.invoked,
    h.ordered.flows h.room (.of_eq ?_) rfl, fun _ _ => ?_⟩
  · have hbusy := h.busy
    show s.nbOfBusyThreads - 1 = (s.setWorker i .looping).workers.countP Point.isInvoking
    rw [hbusy, hset, hworkers, countP_append, countP_append, countP_cons_of_pos rfl,
      countP_cons_of_neg (by decide)]
    omega
  · show numbers s.invoked ++ ((s.setWorker i .looping).workers.flatMap Point.hand ++ _) = s.tokens
    unfold State.tokens
    rw [hset, hworkers]
    simp [Point.hand, State.setWorker]
  · exact hasWorker_setWorker hp rfl

theorem Inv.leave (hp : s.workers[i]? = some .leaving) (hmutex : s.mutex = []) :
    Inv config (s.leave i) := by
  obtain ⟨pre, post, hworkers, -, herase⟩ := exists_split hp
  have hmode : 0 < config.maxQueueSize := by
    by_contra hmode
    have hnil := (h.direct (by omega)).1
    simp [hworkers] at hnil
  have hthreads : s.nbOfThreads - 1 = (pre ++ post).length := by
    rw [h.threads, hworkers]
    simp
  have hbusy : s.nbOfBusyThreads = (pre ++ post).countP Point.isInvoking := by
    rw [h.busy, hworkers]
    simp [Point.isInvoking]
  have hroom : (pre ++ post).length ≤ config.maxNbOfInvoke := by
    have hroom := h.room
    rw [hworkers] at hroom
    simp only [length_append, length_cons] at hroom ⊢
    omega
  have htokens : ∀ u : State, u.invoked = s.invoked → u.mutex.flatMap Task.pending = [] →
      u.workers = pre ++ post → u.queue = s.queue → Flows s u [] := by
    intro u hinvoked hpending hwork hqueue
    refine .of_eq ?_
    simp [State.tokens, hinvoked, hpending, hwork, hqueue, hworkers, hmutex, Point.hand]
  have hserved : s.started = true → s.HoldsObject → ∃ p ∈ pre ++ post, p.stays = true := by
    intro hstarted hobject
    obtain ⟨p, hmem, hstays⟩ := h.served hstarted hobject
    refine ⟨p, ?_, hstays⟩
    rw [hworkers] at hmem
    simp only [mem_append, mem_cons] at hmem ⊢
    rcases hmem with hmem | rfl | hmem
    · exact .inl hmem
    · cases hstays
    · exact .inr hmem
  unfold State.leave
  dsimp only
  rw [herase]
  split
  next hstopped =>
    refine ⟨hthreads, hbusy, hroom, h.list, fun hmode' => by omega,
      fun _ => .inr ⟨none, by rw [hmutex]⟩, h.invoked,
      h.ordered.flows h.room (htokens _ rfl ?_ rfl rfl) rfl, fun hstarted => ?_⟩
    · simp [hmutex, Task.pending]
    · simp [show s.started = true from hstarted] at hstopped
  next =>
    refine ⟨hthreads, hbusy, hroom, h.list, fun hmode' => by omega, fun _ => .inl hmutex, h.invoked,
      h.ordered.flows h.room (htokens _ rfl ?_ rfl rfl) rfl, hserved⟩
    simp [hmutex]

/-- A careful step keeps the invariant. -/
theorem Inv.next {a : Action} (hcare : Careful config s a) (hnext : Next config s a s') :
    Inv config s' := by
  unfold Next step at hnext
  cases a with
  | start =>
    dsimp only at hnext
    split at hnext
    next => exact Except.ok.inj (Option.some.inj hnext) ▸ h.start hcare
    next => cases hnext
  | stop =>
    dsimp only at hnext
    split at hnext
    next havailable => exact Except.ok.inj (Option.some.inj hnext) ▸ h.stop havailable
    next => cases hnext
  | schedule =>
    dsimp only at hnext
    split at hnext
    next havailable => exact Except.ok.inj (Option.some.inj hnext) ▸ h.schedule havailable hcare
    next => cases hnext
  | proceed => exact h.proceed hnext hcare
  | loop i =>
    dsimp only at hnext
    split at hnext
    next hp =>
      cases hnext
      refine h.move hp (by split <;> rfl) (by split <;> exact List.Sublist.refl _) fun hstarted _ => ?_
      have hstarted : s.started = true := hstarted
      rw [hstarted]
      exact hasWorker_setWorker hp rfl
    next => cases hnext
  | enter i =>
    dsimp only at hnext
    split at hnext
    next hp => exact h.await hp rfl rfl (Option.some.inj hnext)
    next => cases hnext
  | wake i =>
    dsimp only at hnext
    split at hnext
    next hp => exact h.await hp rfl rfl (Option.some.inj hnext)
    next => cases hnext
  | wakeLate i =>
    dsimp only at hnext
    split at hnext
    next hp => exact h.dequeue hp rfl rfl hcare (Option.some.inj hnext)
    next => cases hnext
  | timeout i =>
    dsimp only at hnext
    split at hnext
    next hp =>
      cases hnext
      exact h.move hp rfl (List.Sublist.refl _) hcare
    next => cases hnext
  | take i =>
    dsimp only at hnext
    split at hnext
    next item hp _ =>
      cases hnext
      refine h.take hp fun hstarted hitem => hcare hstarted ?_
      rw [hp, hitem]
    next => cases hnext
  | finish i =>
    dsimp only at hnext
    split at hnext
    next hp _ => exact Except.ok.inj (Option.some.inj hnext) ▸ h.finish hp
    next => cases hnext
  | leave i =>
    dsimp only at hnext
    split at hnext
    next hp hmutex => exact Except.ok.inj (Option.some.inj hnext) ▸ h.leave hp hmutex
    next => cases hnext

/-- No step that is careful fails. -/
theorem Inv.faultless {a : Action} {f : Fault} : step config s a ≠ some (.error f) := by
  obtain ⟨queue, hqueue⟩ := h.list
  have hdequeue : ∀ i, s.dequeue i ≠ .error f := by
    intro i
    unfold State.dequeue
    rw [hqueue]
    cases queue <;> simp
  have hawait : ∀ i, s.await i ≠ .error f := by
    intro i
    unfold State.await
    split
    next => simp
    next => exact hdequeue i
  intro hstep
  unfold step at hstep
  cases a with
  | proceed =>
    dsimp only at hstep
    unfold State.proceed at hstep
    rw [hqueue] at hstep
    split at hstep <;> simp at hstep
  | enter i | wake i =>
    dsimp only at hstep
    split at hstep
    next => exact hawait i (Option.some.inj hstep)
    next => simp at hstep
  | wakeLate i =>
    dsimp only at hstep
    split at hstep
    next => exact hdequeue i (Option.some.inj hstep)
    next => simp at hstep
  | start | stop | schedule | loop i | timeout i | take i | finish i | leave i =>
    dsimp only at hstep
    split at hstep <;> simp at hstep

end

/-- In every run of careful steps the law of the pool holds, and nothing fails. -/
theorem pool_lawful (hreaches : Reaches (Next config) (Careful config) initial s) :
    s.Lawful config ∧ ∀ a f, step config s a ≠ some (.error f) := by
  have hinv : Inv config s :=
    hreaches.invariant (inv_initial config) fun h hcare hnext => h.next hcare hnext
  exact ⟨hinv.lawful, fun a f => hinv.faultless⟩

end Steps

/-! ## runs -/

instance (config : Config) (s : State) (a : Action) : Decidable (Careful config s a) := by
  unfold Careful
  split <;> infer_instance

/-- A step that goes on, under a condition. -/
def goOn (config : Config) (ok : State → Action → Bool) (s : State) (a : Action) : Option State :=
  match step config s a with
  | some (.ok s') => if ok s a then some s' else none
  | _ => none

theorem next_of_goOn {ok : State → Action → Bool} {a : Action} (h : goOn config ok s a = some s') :
    ok s a = true ∧ Next config s a s' := by
  unfold goOn at h
  unfold Next
  split at h
  next u hstep =>
    split at h
    next hok => exact ⟨hok, Option.some.inj h ▸ hstep⟩
    next => cases h
  next => cases h

/-- A single worker, and a queue of ten. -/
def singleConfig : Config := ⟨1, 10⟩

/-- An object is scheduled, and the worker invokes the function with it. -/
def oneObject : List Action :=
  [.start, .schedule, .proceed, .loop 0, .enter 0, .take 0]

theorem pool_lawful_single :
    State.Lawful singleConfig ⟨true, 1, 1, some [], [.invoking (some 0)], [], 1, [some 0]⟩ ∧
      ∀ a f, step singleConfig ⟨true, 1, 1, some [], [.invoking (some 0)], [], 1, [some 0]⟩ a ≠
        some (.error f) := by
  refine pool_lawful (reaches_of_foldlM
    (f := goOn singleConfig fun s a => decide (Careful singleConfig s a)) (fun h => ?_)
    (l := oneObject) (by decide))
  exact ⟨of_decide_eq_true (next_of_goOn h).1, (next_of_goOn h).2⟩

/-- The worker has invoked the function, waits, and gives up when the next object is scheduled. -/
def twoObjects : List Action :=
  oneObject ++ [.finish 0, .loop 0, .enter 0, .timeout 0, .schedule, .proceed]

/-- The second object is left in the queue. -/
theorem not_pool_lawful : ¬ ∀ s, Reaches (Next singleConfig) (fun _ _ => True) initial s →
    s.Lawful singleConfig := by
  intro h
  have hrun : Reaches (Next singleConfig) (fun _ _ => True) initial
      ⟨true, 1, 0, some [some 1], [.leaving], [], 2, [some 0]⟩ :=
    reaches_of_foldlM (f := goOn singleConfig fun _ _ => true)
      (fun h => ⟨trivial, (next_of_goOn h).2⟩) (l := twoObjects) (by decide)
  exact absurd ((h _ hrun).served rfl (by decide)) (by decide)

end Listener

end JxtaC
