import Ccos.Sync.MutexSteps

/-! The condition variable of `sync/condvar.c`: its calls step by step, and what a broadcast does to
the tasks that sleep. -/

namespace Ccos.Sync

open Lib

/-- How many wait queues `condvar_broadcast` has room for. -/
def wqListSize : Nat := 32

/-- The calls on a condition variable and on its mutex. -/
inductive CondCall
  | wait
  | signal
  | broadcast
  | mutex (call : LockCall)
  deriving DecidableEq, Repr

/-- The points of the calls at which a task can stand between two steps. -/
inductive CondPoint (Task : Type*)
  -- Outside the calls on the condition variable; a call on the mutex has its own point.
  | outside
  -- `condvar_wait` calls `mutex_unlock`, is inside it, and goes to sleep.
  | release
  | releasing
  | enterQueue
  | sleep (point : SleepPoint)
  -- `condvar_wait` calls `mutex_lock`, is inside it, and leaves the list of waiters.
  | reacquire
  | reacquiring
  | leave
  -- `condvar_signal` or `condvar_broadcast` has wait queues left to wake.
  | waking (queues : List Task)
  deriving DecidableEq, Repr

/-- The mutex and the condition variable; a waiter and its wait queue are named by its task. -/
structure CondShared (Task : Type*) where
  lock : LockShared Task
  waiters : List Task
  queue : Task → List (WaitEntry Task)

/-- Where a task stands, and where it stands in the calls on the mutex. -/
structure CondOwn (Task : Type*) where
  point : CondPoint Task
  lock : LockOwn
  deriving DecidableEq, Repr

/-- Go on to wake the queues that are left. -/
def CondPoint.wakeRest {Task : Type*} : List Task → CondPoint Task
  | [] => .outside
  | queue :: rest => .waking (queue :: rest)

variable {Task : Type*}

/-- The loop of `condvar_broadcast` over the waiters, which remembers as many as there is room. -/
def collectQueues (waiters : List Task) : List Task :=
  waiters.foldl (fun queues waiter =>
    if queues.length < wqListSize then queues ++ [waiter] else queues) []

theorem collectQueues_eq (waiters : List Task) : collectQueues waiters = waiters.take wqListSize := by
  -- The last waiter is remembered if fewer than that many came before it.
  induction waiters using List.reverseRecOn with
  | nil => rfl
  | append_singleton front last ih =>
    rw [collectQueues, List.foldl_append, ← collectQueues, ih, List.foldl_cons, List.foldl_nil,
      List.length_take, List.take_append]
    split
    · rename_i room
      have room : front.length < wqListSize := by omega
      rw [List.take_of_length_le (l := [last]) (by simp; omega)]
    · rename_i full
      have full : wqListSize - front.length = 0 := by omega
      simp [full]

variable [DecidableEq Task]

def wakeWaiter (waiter : Task) (shared : CondShared Task) : CondShared Task :=
  let (queue, tasks) := wakeUp (shared.queue waiter) shared.lock.tasks
  { shared with lock.tasks := tasks, queue := Function.update shared.queue waiter queue }

/-- `condvar_broadcast` while no other task takes a step. -/
def condvarBroadcast (shared : CondShared Task) : CondShared Task :=
  (collectQueues shared.waiters).foldl (fun shared waiter => wakeWaiter waiter shared)
    { shared with waiters := [] }

/-- A step of the calls on the mutex, and where `condvar_wait` stands when they go on or return. -/
def lockWithin (task : Task) (move : Move LockCall) (inside returned : CondPoint Task)
    (shared : CondShared Task) (own : CondOwn Task) : Option (CondShared Task × CondOwn Task) :=
  (lockStep task move shared.lock own.lock).map fun (lock, after) =>
    ({ shared with lock }, ⟨if after.point = .outside then returned else inside, after⟩)

/-- The first step of a call on the condition variable. -/
def condCall (task : Task) (shared : CondShared Task) (own : CondOwn Task) :
    CondCall → Option (CondShared Task × CondOwn Task)
  | .wait =>
    -- The caller has the mutex.
    if own.lock.holds then
      some ({ shared with
          waiters := shared.waiters ++ [task], queue := Function.update shared.queue task [] },
        { own with point := .release })
    else none
  | .signal =>
    match shared.waiters with
    | [] => some (shared, own)
    | first :: rest => some ({ shared with waiters := rest }, { own with point := .waking [first] })
  | .broadcast =>
    some ({ shared with waiters := [] },
      { own with point := .wakeRest (collectQueues shared.waiters) })
  | .mutex call => lockWithin task (.call call) .outside .outside shared own

/-- The next step inside a call; `back` is the choice of a `schedule` that returns at once. -/
def condNext (task : Task) (back : Bool) (shared : CondShared Task) (own : CondOwn Task) :
    Option (CondShared Task × CondOwn Task) :=
  let onward : Move LockCall := if back then .back else .next
  match own.point with
  | .outside => lockWithin task onward .outside .outside shared own
  | .release => lockWithin task (.call .unlock) .releasing .enterQueue shared own
  | .releasing => lockWithin task onward .releasing .enterQueue shared own
  | .enterQueue =>
    let entries := shared.queue task ++ [⟨some task, false⟩]
    some ({ shared with queue := Function.update shared.queue task entries },
      { own with point := .sleep .block })
  | .sleep point =>
    (sleepOnStep task back shared.lock.tasks point).map fun (tasks, next) =>
      ({ shared with lock.tasks := tasks }, { own with point := (next.map .sleep).getD .reacquire })
  | .reacquire => lockWithin task (.call .lock) .reacquiring .leave shared own
  | .reacquiring => lockWithin task onward .reacquiring .leave shared own
  | .leave =>
    some ({ shared with waiters := shared.waiters.erase task }, { own with point := .outside })
  | .waking [] => some (shared, { own with point := .outside })
  | .waking (queue :: rest) =>
    some (wakeWaiter queue shared, { own with point := .wakeRest rest })

/-- One step of a task that uses the condition variable or its mutex. -/
def condStep (task : Task) (move : Move CondCall) (shared : CondShared Task)
    (own : CondOwn Task) : Option (CondShared Task × CondOwn Task) :=
  match move with
  | .call call =>
    if own.point = .outside ∧ own.lock.point = .outside then condCall task shared own call
    else none
  | .next => condNext task false shared own
  | .back => condNext task true shared own

/-- A new condition variable and a new mutex, which no task uses yet. -/
def condStart (tasks : Tasks Task) : Threads Task (CondShared Task) (CondOwn Task) :=
  ⟨⟨⟨mutexInit, tasks⟩, [], fun _ => []⟩, fun _ => ⟨.outside, ⟨.outside, false⟩⟩⟩

/-- Every waiter sleeps on its own wait queue. -/
structure AllAsleep (shared : CondShared Task) : Prop where
  distinct : shared.waiters.Nodup
  queued : ∀ task ∈ shared.waiters, shared.queue task = [⟨some task, false⟩]
  blocked : ∀ task ∈ shared.waiters, shared.lock.tasks.state task = .blocked
  switched : ∀ task ∈ shared.waiters, task ∉ shared.lock.tasks.runQueue

theorem wakeWaiters_eq {woken : List Task} {shared : CondShared Task} (distinct : woken.Nodup)
    (queued : ∀ task ∈ woken, shared.queue task = [⟨some task, false⟩]) :
    woken.foldl (fun shared waiter => wakeWaiter waiter shared) shared =
      { shared with
        lock.tasks := shared.lock.tasks.wakeAll woken
        queue := fun task => if task ∈ woken then [] else shared.queue task } := by
  -- The waiters are woken from the front, each on a wait queue of its own.
  induction woken generalizing shared with
  | nil => simp [Tasks.wakeAll]
  | cons first rest ih =>
    obtain ⟨absent, distinct⟩ := List.nodup_cons.mp distinct
    -- Waking the first sleeper leaves the wait queues of the others.
    have woken : wakeWaiter first shared =
        { shared with
          lock.tasks := shared.lock.tasks.wake first
          queue := Function.update shared.queue first [] } := by
      simp [wakeWaiter, queued first List.mem_cons_self, wakeUp_plain]
    have others (task : Task) (member : task ∈ rest) :
        (wakeWaiter first shared).queue task = [⟨some task, false⟩] := by
      have apart : task ≠ first := fun same => absent (same ▸ member)
      rw [woken, ← queued task (List.mem_cons_of_mem _ member)]
      exact Function.update_of_ne apart _ _
    rw [List.foldl_cons, ih distinct others, woken]
    congr 1
    funext task
    by_cases same : task = first <;> simp [same]

/-- A broadcast to sleeping tasks empties the list of waiters and wakes all of them exactly if
there is room for all of them. -/
theorem condvarBroadcast_wakes_iff {shared : CondShared Task} (asleep : AllAsleep shared) :
    ((condvarBroadcast shared).waiters = [] ∧ ∀ task ∈ shared.waiters,
      (condvarBroadcast shared).lock.tasks.state task = .ready ∧
      task ∈ (condvarBroadcast shared).lock.tasks.runQueue) ↔
      shared.waiters.length ≤ wqListSize := by
  -- The broadcast wakes the waiters it has remembered, which are the first ones.
  have first : collectQueues shared.waiters = shared.waiters.take wqListSize :=
    collectQueues_eq shared.waiters
  have distinct : (shared.waiters.take wqListSize).Nodup :=
    asleep.distinct.sublist (List.take_sublist _ _)
  have queued (task : Task) (member : task ∈ shared.waiters.take wqListSize) :
      { shared with waiters := [] }.queue task = [⟨some task, false⟩] :=
    asleep.queued task (List.mem_of_mem_take member)
  rw [condvarBroadcast, first, wakeWaiters_eq distinct queued]
  simp only [Tasks.wakeAll_state, Tasks.wakeAll_runQueue, true_and]
  constructor
  · -- The first waiter beyond the room stays blocked.
    intro all
    by_contra many
    have inside : wqListSize < shared.waiters.length := by omega
    have member := List.getElem_mem inside
    have beyond : shared.waiters[wqListSize] ∉ shared.waiters.take wqListSize := fun early =>
      List.disjoint_take_drop asleep.distinct (Nat.le_refl _) early
        (List.drop_eq_getElem_cons inside ▸ List.mem_cons_self)
    have ready := (all _ member).1
    rw [if_neg beyond, asleep.blocked _ member] at ready
    cases ready
  · intro room task member
    rw [List.take_of_length_le room, if_pos member]
    exact ⟨rfl, List.mem_append_right _ member⟩

/-- Tasks that all sleep on one condition variable. -/
def sleepers (count : Nat) : CondShared (Fin count) :=
  ⟨⟨mutexInit, ⟨fun _ => .blocked, []⟩⟩, List.finRange count, fun task => [⟨some task, false⟩]⟩

theorem sleepers_asleep (count : Nat) : AllAsleep (sleepers count) :=
  ⟨List.nodup_finRange count, fun _ _ => rfl, fun _ _ => rfl, fun _ _ => List.not_mem_nil⟩

/-- A broadcast wakes three sleepers. -/
theorem condvarBroadcast_wakes_three :
    (condvarBroadcast (sleepers 3)).waiters = [] ∧ ∀ task ∈ (sleepers 3).waiters,
      (condvarBroadcast (sleepers 3)).lock.tasks.state task = .ready ∧
      task ∈ (condvarBroadcast (sleepers 3)).lock.tasks.runQueue :=
  (condvarBroadcast_wakes_iff (sleepers_asleep 3)).mpr (by decide)

/-- The last of 33 sleepers leaves the list of waiters and stays blocked. -/
theorem condvarBroadcast_leaves_blocked :
    AllAsleep (sleepers 33) ∧ (condvarBroadcast (sleepers 33)).waiters = [] ∧
      (condvarBroadcast (sleepers 33)).lock.tasks.state 32 = .blocked ∧
      32 ∉ (condvarBroadcast (sleepers 33)).lock.tasks.runQueue :=
  ⟨sleepers_asleep 33, by decide +kernel⟩

end Ccos.Sync
