import Ccos.Process.Schedule

/-! The mutex of `sync/mutex.c` and the sleeping of `sync/waitqueue.c`, among tasks whose control
changes hands only inside `schedule`. -/

namespace Ccos.Sync

/-- Which call a task has not returned from: none, `mutex_lock`, or a sleep on another queue. -/
inductive Place
  | outside
  | inLock
  | asleep
  deriving DecidableEq, Repr

/-- A mutex; each waiter is named by the task that waits. -/
structure Mutex (Task : Type*) where
  locked : Bool
  owner : Option Task
  count : Nat
  waitList : List Task

/-- The tasks, the run queue and the one mutex they share. -/
structure SyncWorld (Task : Type*) where
  mutex : Mutex Task
  runQueue : List Task
  current : Task
  state : Task → ProcState
  place : Task → Place

variable {Task : Type*}

def mutexInit : Mutex Task :=
  ⟨false, none, 0, []⟩

def schedEnqueueTask (task : Task) (world : SyncWorld Task) : SyncWorld Task :=
  { world with runQueue := world.runQueue ++ [task] }

variable [DecidableEq Task]

/-- A task goes on after `schedule`, so a sleep on another queue is over. -/
def SyncWorld.continueTask (task : Task) (world : SyncWorld Task) : SyncWorld Task :=
  if world.place task = .asleep then
    { world with place := Function.update world.place task .outside }
  else world

/-- What `schedule` sees of these tasks; none of them is the idle task. -/
def syncView : SchedView (SyncWorld Task) Task where
  current world := some world.current
  idle _ := none
  state := SyncWorld.state
  setState task state world := { world with state := Function.update world.state task state }
  enqueue := schedEnqueueTask
  dequeue task world := { world with runQueue := world.runQueue.erase task }
  arrive next world := { world with current := next }

/-- Schedule the task that the scheduling classes pick, which goes on. -/
def schedule (next : Option Task) (world : SyncWorld Task) : Option (SyncWorld Task) :=
  -- The classes pick only tasks that are queued.
  if ∀ task ∈ next, task = world.current ∨ task ∈ world.runQueue then
    let world := syncView.schedule next world
    some (world.continueTask world.current)
  else none

/-- Block the current task on a wait queue and schedule. -/
def sleepOn (next : Option Task) (world : SyncWorld Task) : Option (SyncWorld Task) :=
  schedule next { world with state := Function.update world.state world.current .blocked }

/-- One round of the waiting loop: sleep again, or take the lock and leave the wait list. -/
def mutexLockLoop (next : Option Task) (world : SyncWorld Task) : Option (SyncWorld Task) :=
  if world.mutex.locked || world.mutex.owner.isSome then sleepOn next world
  else
    some { world with
      mutex := ⟨true, some world.current, 1, world.mutex.waitList.erase world.current⟩
      place := Function.update world.place world.current .outside }

/-- Lock the mutex, or join the wait list and enter the waiting loop. -/
def mutexLock (next : Option Task) (world : SyncWorld Task) : Option (SyncWorld Task) :=
  -- Nothing happens between the two attempts to swap, so they have the same outcome.
  if !world.mutex.locked then
    some { world with
      mutex := { world.mutex with locked := true, owner := some world.current, count := 1 } }
  else
    mutexLockLoop next { world with
      mutex := { world.mutex with waitList := world.mutex.waitList ++ [world.current] }
      place := Function.update world.place world.current .inLock }

/-- Unlock the mutex if the current task owns it, and make the first waiter ready. -/
def mutexUnlock (world : SyncWorld Task) : SyncWorld Task :=
  if world.mutex.owner ≠ some world.current then world
  else
    match world.mutex.waitList with
    | [] => { world with mutex := ⟨false, none, 0, []⟩ }
    | first :: rest =>
      schedEnqueueTask first { world with
        mutex := ⟨false, none, 0, rest⟩
        state := Function.update world.state first .ready }

/-- One thing that can happen next; `next` is the task that `schedule` picks. -/
inductive SyncAction (Task : Type*)
  | lock (next : Option Task)
  | retry (next : Option Task)
  | unlock
  | sleep (next : Option Task)
  | yield (next : Option Task)
  | wake (task : Task)

/-- Perform an action, which must fit the call that the current task is in. -/
def SyncWorld.perform (world : SyncWorld Task) : SyncAction Task → Option (SyncWorld Task)
  | .lock next =>
    if world.place world.current = .outside then mutexLock next world else none
  | .retry next =>
    -- A task that returns from `schedule` inside `mutex_lock` goes round the loop again.
    if world.place world.current = .inLock then mutexLockLoop next world else none
  | .unlock =>
    if world.place world.current = .outside then some (mutexUnlock world) else none
  | .sleep next =>
    if world.place world.current = .outside then
      sleepOn next
        { world with place := Function.update world.place world.current .asleep }
    else none
  | .yield next =>
    if world.place world.current = .outside then schedule next world else none
  | .wake task =>
    -- A wake-up on another queue, from a task or from an interrupt.
    if world.place task = .asleep ∧ world.state task = .blocked then
      some (schedEnqueueTask task
        { world with state := Function.update world.state task .ready })
    else none

end Ccos.Sync
