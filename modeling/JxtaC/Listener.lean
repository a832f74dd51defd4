import JxtaC.Lib.Exec

/-
  The worker pool of a listener (jxta_listener.c) over its queue (queue.c), at the granularity of the
  sections under the mutex and of the operations of the queue, which has a mutex of its own. A listener
  with a function is modelled; threads are created without failing, the reference counts of the
  objects are left out.
-/

namespace JxtaC

open Lib

namespace Listener

/-- What the queue holds: the object of a call of `jxta_listener_schedule_object`, with the number of
the call, or the marker that `_listener_stop` leaves. -/
abbrev Item := Option Nat

/-- Where a worker is in `listener_thread_main`. -/
inductive Point where
  /-- at the head of the loop -/
  | looping
  /-- in front of the mutex in `queue_dequeue_1` -/
  | entering
  /-- in `apr_thread_cond_timedwait` -/
  | waiting
  | dequeued (item : Item)
  | invoking (item : Item)
  /-- behind the loop -/
  | leaving
  deriving DecidableEq

/-- What the thread that has the mutex still does in its section. -/
inductive Task where
  | enqueue (item : Item)
  /-- the function, invoked by `jxta_listener_process_object` -/
  | invoke (number : Nat)
  deriving DecidableEq

/-- What never changes of a listener. -/
structure Config where
  maxNbOfInvoke : Nat
  maxQueueSize : Int
  deriving DecidableEq

/-- `_jxta_listener`, with its workers. The list of the queue may have been freed. `mutex` is what the
owner of the mutex still does, `scheduled` counts the objects that were taken and `invoked` is what the
function was invoked with. -/
structure State where
  started : Bool
  nbOfThreads : Nat
  nbOfBusyThreads : Nat
  queue : Option (List Item)
  workers : List Point
  mutex : List Task
  scheduled : Nat
  invoked : List Item
  deriving DecidableEq

inductive Action where
  | start
  | stop
  | schedule
  /-- the owner of the mutex goes on -/
  | proceed
  | loop (i : Nat)
  | enter (i : Nat)
  /-- a waiting worker is woken in time, or too late -/
  | wake (i : Nat)
  | wakeLate (i : Nat)
  | timeout (i : Nat)
  | take (i : Nat)
  | finish (i : Nat)
  | leave (i : Nat)
  deriving DecidableEq

/-- `jxta_listener_new`. -/
def initial : State := ⟨false, 0, 0, some [], [], [], 0, []⟩

namespace State

/-- The mutex can be had: nobody has it, or its owner calls the listener from the function. -/
def available (s : State) : Bool :=
  match s.mutex with
  | [] => true
  | .invoke _ :: _ => true
  | .enqueue _ :: _ => false

def setWorker (s : State) (i : Nat) (p : Point) : State := { s with workers := s.workers.set i p }

/-- `jxta_listener_start`. -/
def start (s : State) : State := { s with started := true }

/-- `_listener_stop` up to its waiting. -/
def stop (s : State) : State :=
  if s.nbOfBusyThreads < s.nbOfThreads then
    { s with started := false, mutex := .enqueue none :: s.mutex }
  else { s with started := false }

/-- `create_listener_thread`, where there may be another one and all are busy. -/
def createThread (config : Config) (s : State) : State :=
  if s.nbOfBusyThreads = s.nbOfThreads ∧ s.nbOfThreads < config.maxNbOfInvoke then
    { s with nbOfThreads := s.nbOfThreads + 1, workers := s.workers ++ [.looping] }
  else s

/-- `jxta_listener_schedule_object` up to the queue, or to the function. -/
def schedule (config : Config) (s : State) : State :=
  if !s.started then s
  else if config.maxQueueSize ≤ 0 then
    { s with
      mutex := .invoke s.scheduled :: s.mutex
      scheduled := s.scheduled + 1
      invoked := s.invoked ++ [some s.scheduled] }
  else
    let s' := createThread config s
    { s' with mutex := .enqueue (some s.scheduled) :: s.mutex, scheduled := s.scheduled + 1 }

/-- The next task of the owner of the mutex: `queue_enqueue`, or the return of the function. -/
def proceed (s : State) : Option (Exec State) :=
  match s.mutex with
  | [] => none
  | .enqueue item :: mutex =>
    match s.queue with
    | none => some (.error .danglingPointer)
    | some queue => some (.ok { s with queue := some (queue ++ [item]), mutex })
  | .invoke _ :: mutex => some (.ok { s with mutex })

/-- The part of `queue_dequeue_1` behind its loop: the first of the queue, or, where it is empty, the
head of the list itself, which is freed. -/
def dequeue (s : State) (i : Nat) : Exec State :=
  match s.queue with
  | none => .error .danglingPointer
  | some [] => .ok { s.setWorker i (.dequeued none) with queue := none }
  | some (item :: queue) => .ok { s.setWorker i (.dequeued item) with queue := some queue }

/-- The loop of `queue_dequeue_1` while there is time left: an empty queue is waited for. -/
def await (s : State) (i : Nat) : Exec State :=
  if s.queue = some [] then .ok (s.setWorker i .waiting) else s.dequeue i

/-- The section of a worker that has an item. -/
def take (s : State) (i : Nat) (item : Item) : State :=
  if !s.started then s.setWorker i .leaving
  else
    { s.setWorker i (.invoking item) with
      nbOfBusyThreads := s.nbOfBusyThreads + 1
      invoked := s.invoked ++ [item] }

/-- The section behind the function. -/
def finish (s : State) (i : Nat) : State :=
  { s.setWorker i .looping with nbOfBusyThreads := s.nbOfBusyThreads - 1 }

/-- The last section of a worker. -/
def leave (s : State) (i : Nat) : State :=
  let s := { s with nbOfThreads := s.nbOfThreads - 1, workers := s.workers.eraseIdx i }
  if !s.started ∧ s.nbOfBusyThreads < s.nbOfThreads then
    { s with mutex := .enqueue none :: s.mutex }
  else s

end State

/-- A step: none if it cannot be taken. -/
def step (config : Config) (s : State) (a : Action) : Option (Exec State) :=
  match a with
  | .start => if s.available then some (.ok s.start) else none
  | .stop => if s.available then some (.ok s.stop) else none
  | .schedule => if s.available then some (.ok (s.schedule config)) else none
  | .proceed => s.proceed
  | .loop i =>
    match s.workers[i]? with
    | some .looping => some (.ok (s.setWorker i (if s.started then .entering else .leaving)))
    | _ => none
  | .enter i =>
    match s.workers[i]? with
    | some .entering => some (s.await i)
    | _ => none
  | .wake i =>
    match s.workers[i]? with
    | some .waiting => some (s.await i)
    | _ => none
  | .wakeLate i =>
    match s.workers[i]? with
    | some .waiting => some (s.dequeue i)
    | _ => none
  | .timeout i =>
    match s.workers[i]? with
    | some .waiting => some (.ok (s.setWorker i .leaving))
    | _ => none
  | .take i =>
    match s.workers[i]?, s.mutex with
    | some (.dequeued item), [] => some (.ok (s.take i item))
    | _, _ => none
  | .finish i =>
    match s.workers[i]?, s.mutex with
    | some (.invoking _), [] => some (.ok (s.finish i))
    | _, _ => none
  | .leave i =>
    match s.workers[i]?, s.mutex with
    | some .leaving, [] => some (.ok (s.leave i))
    | _, _ => none

/-- A step that goes on. -/
def Next (config : Config) (s : State) (a : Action) (s' : State) : Prop :=
  step config s a = some (.ok s')

/-! ## what is wanted -/

/-- The worker has not decided to go. -/
def Point.stays : Point → Bool
  | .leaving => false
  | _ => true

def Point.isInvoking : Point → Bool
  | .invoking _ => true
  | _ => false

/-- The invocations by the thread that has the mutex. -/
def Task.isInvoke : Task → Bool
  | .invoke _ => true
  | .enqueue _ => false

namespace State

/-- The invocations of the function that are under way. -/
def inProgress (s : State) : Nat := s.workers.countP Point.isInvoking + s.mutex.countP Task.isInvoke

/-- There is an object in the queue. -/
def HoldsObject (s : State) : Prop := ∃ item ∈ s.queue.getD [], item.isSome = true

def HasWorker (s : State) : Prop := ∃ p ∈ s.workers, p.stays = true

instance (s : State) : Decidable s.HoldsObject := inferInstanceAs (Decidable (∃ _ ∈ _, _))

instance (s : State) : Decidable s.HasWorker := inferInstanceAs (Decidable (∃ _ ∈ _, _))

/-- The law of the pool. -/
structure Lawful (config : Config) (s : State) : Prop where
  bounded : s.inProgress ≤ config.maxNbOfInvoke
  scheduled : ∀ item ∈ s.invoked, ∃ number < s.scheduled, item = some number
  once : s.invoked.Nodup
  ordered : config.maxNbOfInvoke = 1 → (s.invoked.filterMap id).Pairwise (· < ·)
  served : s.started = true → s.HoldsObject → s.HasWorker

end State

end Listener

end JxtaC
