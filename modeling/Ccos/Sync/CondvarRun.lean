import Mathlib.Data.Fin.VecNotation
import Ccos.Sync.Condvar

/-! Runs of tasks that wait on a condition variable and signal it, and when no wake-up is lost. -/

namespace Ccos.Sync

open Lib

section Safe

variable {Task : Type*}

/-- The wait queues that a task is still about to wake. -/
def CondPoint.pending : CondPoint Task → List Task
  | .waking queues => queues
  | _ => []

/-- The points of `condvar_wait` between the list of waiters and the wait queue. -/
def CondPoint.Entering : CondPoint Task → Prop
  | .release | .releasing | .enterQueue => True
  | _ => False

theorem CondPoint.pending_wakeRest (queues : List Task) :
    (CondPoint.wakeRest queues).pending = queues := by
  cases queues <;> rfl

theorem CondPoint.wakeRest_awake (queues : List Task) :
    ¬(CondPoint.wakeRest queues).Entering ∧ ∀ point, CondPoint.wakeRest queues ≠ .sleep point := by
  cases queues <;> exact ⟨id, nofun⟩

/-- A wake-up finds its task on its wait queue, and a broadcast has room for all waiters. -/
@[grind =] def WakesQueued (threads : Threads Task (CondShared Task) (CondOwn Task))
    (action : Task × Move CondCall) : Prop :=
  (∀ task ∈ (threads.own action.1).point.pending.head?, threads.shared.queue task ≠ []) ∧
    (action.2 = .call .broadcast → threads.shared.waiters.length ≤ wqListSize)

instance [DecidableEq Task] (threads : Threads Task (CondShared Task) (CondOwn Task))
    (action : Task × Move CondCall) : Decidable (WakesQueued threads action) := by
  unfold WakesQueued
  infer_instance

/-- A task is on the list of waiters, or one that took it off is still about to wake it. -/
@[grind =]
def Awaited (threads : Threads Task (CondShared Task) (CondOwn Task)) (task : Task) : Prop :=
  task ∈ threads.shared.waiters ∨ ∃ other, task ∈ (threads.own other).point.pending

/-- Every task in `condvar_wait` is awaited, or it is woken already. -/
@[grind] structure NoneLost (threads : Threads Task (CondShared Task) (CondOwn Task)) : Prop where
  entries : ∀ task, ∀ entry ∈ threads.shared.queue task, entry = ⟨some task, false⟩
  entering : ∀ task, (threads.own task).point.Entering →
    threads.shared.queue task = [] ∧ Awaited threads task
  sleeping : ∀ task point, (threads.own task).point = .sleep point →
    Awaited threads task ∨ task ∈ threads.shared.lock.tasks.runQueue

end Safe

section Queues

variable {Task : Type*} [DecidableEq Task] {task other : Task} {tasks' tasks : Tasks Task}

theorem Tasks.scheduleAway_runQueue (done : tasks.scheduleAway task = some tasks')
    (queued : other ∈ tasks.runQueue) : other ∈ tasks'.runQueue := by
  simp only [Tasks.scheduleAway] at done
  split at done <;> cases done
  -- The caller is put on the run queue or it is not.
  split <;> split <;> simp [Tasks.schedEnqueueTask, Tasks.setState, queued]

variable {back : Bool}

/-- A step of `sleep_on` takes no other task off the run queue, nor its own while it goes on. -/
theorem sleepOnStep_runQueue {point : SleepPoint} {next : Option SleepPoint}
    (done : sleepOnStep task back tasks point = some (tasks', next))
    (stays : other ≠ task ∨ next ≠ none) (queued : other ∈ tasks.runQueue) :
    other ∈ tasks'.runQueue := by
  -- Only the switch back to the task takes it off the run queue, and then `sleep_on` returns.
  cases point with
  | block =>
    cases done
    exact queued
  | schedule =>
    simp only [sleepOnStep] at done
    split at done
    · obtain ⟨after, back, done⟩ := Option.map_eq_some_iff.mp done
      cases done
      simp only [Tasks.scheduleBack] at back
      split at back <;> cases back
      exact queued
    · obtain ⟨after, away, done⟩ := Option.map_eq_some_iff.mp done
      cases done
      exact Tasks.scheduleAway_runQueue away queued
  | asleep =>
    obtain ⟨after, switched, done⟩ := Option.map_eq_some_iff.mp done
    cases done
    have apart := stays.resolve_right fun continues => continues rfl
    simp only [Tasks.switchTo] at switched
    grind

variable {shared shared' : LockShared Task} {own' own : LockOwn}

theorem mutexStep_runQueue (done : mutexStep task back shared own = some (shared', own'))
    (apart : other ≠ task) (queued : other ∈ shared.tasks.runQueue) :
    other ∈ shared'.tasks.runQueue := by
  -- Apart from sleeping and waking, the steps leave the tasks alone.
  obtain ⟨point, holds⟩ := own
  cases point with
  | outside => cases done
  | ownFast | countFast | readLocked | readOwner | takeLocked | takeOwner | takeCount | leaveQueue
  | clearOwner | clearCount | clearLocked =>
    cases done
    exact queued
  | queue =>
    simp only [mutexStep] at done
    split at done <;> cases done <;> exact queued
  | sleep point =>
    obtain ⟨⟨tasks, next⟩, slept, done⟩ := Option.map_eq_some_iff.mp done
    cases done
    exact sleepOnStep_runQueue slept (.inl apart) queued
  | wakeWaiter =>
    simp only [mutexStep] at done
    split at done <;> cases done
    · exact queued
    · exact List.mem_append_left _ queued

theorem lockStep_runQueue {move : Move LockCall}
    (done : lockStep task move shared own = some (shared', own')) (apart : other ≠ task)
    (queued : other ∈ shared.tasks.runQueue) : other ∈ shared'.tasks.runQueue := by
  cases move with
  | call call =>
    simp only [lockStep] at done
    split at done
    · -- The first access of a call leaves the tasks alone.
      cases call <;> simp only [mutexCall] at done <;> (repeat split at done) <;> cases done <;>
        exact queued
    · cases done
  | next => exact mutexStep_runQueue done apart queued
  | back => exact mutexStep_runQueue done apart queued

end Queues

namespace NoneLost

variable {Task : Type*} [DecidableEq Task]
  {threads : Threads Task (CondShared Task) (CondOwn Task)} {task : Task}
  {shared : CondShared Task} {own : CondOwn Task}

theorem awaited {waiter : Task} (before : Awaited threads waiter)
    (waiters : waiter ∈ threads.shared.waiters →
      waiter ∈ shared.waiters ∨ waiter ∈ own.point.pending)
    (pending : waiter ∈ (threads.own task).point.pending → waiter ∈ own.point.pending) :
    Awaited ⟨shared, Function.update threads.own task own⟩ waiter := by
  -- What the moving task is about to wake, it is about to wake in its new state.
  have mine (member : waiter ∈ own.point.pending) :
      Awaited ⟨shared, Function.update threads.own task own⟩ waiter :=
    .inr ⟨task, by simpa using member⟩
  rcases before with listed | ⟨other, member⟩
  · exact (waiters listed).elim .inl mine
  · by_cases same : other = task
    · subst same
      exact mine (pending member)
    · exact .inr ⟨other, by simpa [Function.update_of_ne same] using member⟩

section

variable (inv : NoneLost threads)
include inv

/-- One task moves: the others stay awaited or are woken, and it answers for itself. -/
theorem update (entries : ∀ waiter, ∀ entry ∈ shared.queue waiter, entry = ⟨some waiter, false⟩)
    (queue : ∀ waiter ≠ task, threads.shared.queue waiter = [] → shared.queue waiter = [])
    (runQueue : ∀ waiter ≠ task, waiter ∈ threads.shared.lock.tasks.runQueue →
      waiter ∈ shared.lock.tasks.runQueue)
    (others : ∀ waiter ≠ task, Awaited threads waiter →
      Awaited ⟨shared, Function.update threads.own task own⟩ waiter ∨
      threads.shared.queue waiter ≠ [] ∧ waiter ∈ shared.lock.tasks.runQueue)
    (entering : own.point.Entering → shared.queue task = [] ∧
      Awaited ⟨shared, Function.update threads.own task own⟩ task)
    (sleeping : ∀ point, own.point = .sleep point →
      Awaited ⟨shared, Function.update threads.own task own⟩ task ∨
      task ∈ shared.lock.tasks.runQueue) :
    NoneLost ⟨shared, Function.update threads.own task own⟩ := by
  -- Tasks on their way in need the list, and tasks asleep need the list or the run queue.
  refine ⟨entries, fun waiter => ?_, fun waiter point => ?_⟩
  all_goals grind

/-- A step away from the condition variable, by a task that is not about to wake others. -/
theorem quiet (calm : (threads.own task).point.pending = []) {lock : LockShared Task}
    (runQueue : ∀ waiter ≠ task, waiter ∈ threads.shared.lock.tasks.runQueue →
      waiter ∈ lock.tasks.runQueue)
    (entering : own.point.Entering → (threads.own task).point.Entering)
    (sleeping : ∀ point, own.point = .sleep point →
      (∃ before, (threads.own task).point = .sleep before) ∧
      (task ∈ threads.shared.lock.tasks.runQueue → task ∈ lock.tasks.runQueue)) :
    NoneLost ⟨{ threads.shared with lock }, Function.update threads.own task own⟩ := by
  -- Neither the list of waiters nor any wait queue changes.
  have kept (waiter : Task) (before : Awaited threads waiter) :
      Awaited ⟨{ threads.shared with lock }, Function.update threads.own task own⟩ waiter :=
    awaited before .inl fun member => by simp [calm] at member
  refine inv.update inv.entries (fun _ _ => id) runQueue (fun waiter _ before =>
    .inl (kept waiter before)) (fun enters => ?_) fun point sleeps => ?_
  all_goals grind

/-- A step of the calls on the mutex inside or outside `condvar_wait`. -/
theorem lockWithin {move : Move LockCall} {inside returned : CondPoint Task}
    (done : lockWithin task move inside returned threads.shared (threads.own task) = some (shared, own))
    (calm : (threads.own task).point.pending = [])
    (entering : inside.Entering ∨ returned.Entering → (threads.own task).point.Entering)
    (awake : ∀ point, inside ≠ .sleep point ∧ returned ≠ .sleep point) :
    NoneLost ⟨shared, Function.update threads.own task own⟩ := by
  -- The mutex has its own lists, and `condvar_wait` does not sleep inside it.
  obtain ⟨⟨lock, after⟩, taken, done⟩ := Option.map_eq_some_iff.mp done
  cases done
  refine inv.quiet calm (fun waiter apart => lockStep_runQueue taken apart) ?_ ?_
  all_goals grind

theorem condCall {call : CondCall} (outside : (threads.own task).point = .outside)
    (room : call = .broadcast → threads.shared.waiters.length ≤ wqListSize)
    (done : condCall task threads.shared (threads.own task) call = some (shared, own)) :
    NoneLost ⟨shared, Function.update threads.own task own⟩ := by
  -- A task outside is not about to wake anybody, so only the list matters.
  have calm : (threads.own task).point.pending = [] := by rw [outside]; rfl
  cases call with
  | mutex call =>
    exact inv.lockWithin done calm (fun enters => (enters.elim id id : False).elim)
      fun _ => ⟨nofun, nofun⟩
  | wait =>
    -- The caller is listed before it gives up the mutex.
    simp only [Sync.condCall] at done
    split at done <;> cases done
    refine inv.update (fun waiter => ?_) (fun waiter apart => ?_) (fun _ _ => id)
      (fun waiter _ before => .inl (awaited before ?_ ?_)) (fun _ => ⟨by simp, .inl (by simp)⟩) nofun
    all_goals grind
  | signal =>
    simp only [Sync.condCall] at done
    split at done <;> cases done
    · simpa using inv
    · -- The first waiter leaves the list and is about to be woken.
      rename_i first rest listed
      refine inv.update inv.entries (fun _ _ => id) (fun _ _ => id)
        (fun waiter _ before => .inl (awaited before ?_ ?_)) False.elim nofun
      · rw [listed]
        exact fun member => (List.mem_cons.mp member).elim
          (fun same => .inr (by simp [CondPoint.pending, same])) .inl
      · simp [calm]
  | broadcast =>
    -- All waiters leave the list and are about to be woken, since there is room for them.
    cases done
    have all : collectQueues threads.shared.waiters = threads.shared.waiters := by
      rw [collectQueues_eq, List.take_of_length_le (room rfl)]
    obtain ⟨enters, sleeps⟩ := CondPoint.wakeRest_awake (collectQueues threads.shared.waiters)
    refine inv.update inv.entries (fun _ _ => id) (fun _ _ => id)
      (fun waiter _ before => .inl (awaited before ?_ ?_)) (fun enter => (enters enter).elim)
      fun point sleep => (sleeps point sleep).elim
    · intro listed
      right
      simpa only [CondPoint.pending_wakeRest, all] using listed
    · simp [calm]

theorem wakeWaiter {waiter : Task} {rest : List Task}
    (standing : (threads.own task).point = .waking (waiter :: rest))
    (queued : threads.shared.queue waiter ≠ []) :
    NoneLost ⟨wakeWaiter waiter threads.shared, Function.update threads.own task
      { threads.own task with point := .wakeRest rest }⟩ := by
  obtain ⟨entry, entries, found⟩ := List.exists_cons_of_ne_nil queued
  -- The entry at the front belongs to the waiter, so the wake-up makes it ready.
  have mine := inv.entries waiter
  rw [found] at mine
  obtain rfl := mine entry List.mem_cons_self
  have plain (entry : WaitEntry Task) (member : entry ∈ entries) : entry.exclusive = false := by
    rw [mine entry (List.mem_cons_of_mem _ member)]
  have woken : Sync.wakeWaiter waiter threads.shared =
      { threads.shared with
        lock.tasks := threads.shared.lock.tasks.wake waiter
        queue := Function.update threads.shared.queue waiter entries } := by
    simp [Sync.wakeWaiter, found, wakeUp_plain waiter plain]
  rw [woken]
  obtain ⟨enters, sleeps⟩ := CondPoint.wakeRest_awake rest
  refine inv.update (fun other => ?_) (fun other _ empty => ?_)
    (fun other _ member => List.mem_append_left _ member) (fun other _ before => ?_)
    (fun enter => (enters enter).elim) fun point sleep => (sleeps point sleep).elim
  · grind
  · -- A task with an empty wait queue is not the one that is woken.
    grind
  · by_cases same : other = waiter
    · subst same
      exact .inr ⟨queued, List.mem_append_right _ List.mem_cons_self⟩
    · refine .inl (awaited before .inl fun member => ?_)
      rw [standing] at member
      rw [CondPoint.pending_wakeRest]
      exact (List.mem_cons.mp member).resolve_left same

theorem condNext {back : Bool}
    (queued : ∀ waiter ∈ (threads.own task).point.pending.head?, threads.shared.queue waiter ≠ [])
    (done : condNext task back threads.shared (threads.own task) = some (shared, own)) :
    NoneLost ⟨shared, Function.update threads.own task own⟩ := by
  -- One case for each point; only a wake-up could lose a task.
  cases standing : (threads.own task).point
  all_goals simp only [Sync.condNext, standing, Option.map_eq_some_iff] at done
  case outside =>
    exact inv.lockWithin done (by rw [standing]; rfl)
      (fun enters => (enters.elim id id : False).elim) fun _ => ⟨nofun, nofun⟩
  case release | releasing =>
    exact inv.lockWithin done (by rw [standing]; rfl) (fun _ => by rw [standing]; trivial)
      fun _ => ⟨nofun, nofun⟩
  case reacquire | reacquiring =>
    exact inv.lockWithin done (by rw [standing]; rfl)
      (fun enters => (enters.elim id id : False).elim) fun _ => ⟨nofun, nofun⟩
  case enterQueue =>
    -- The task is awaited, and from now on a wake-up finds it.
    cases done
    obtain ⟨empty, before⟩ := inv.entering task (by rw [standing]; trivial)
    have kept (queue : Task → List (WaitEntry Task)) (waiter : Task)
        (before : Awaited threads waiter) : Awaited ⟨{ threads.shared with queue },
          Function.update threads.own task { threads.own task with point := .sleep .block }⟩
            waiter :=
      awaited before .inl (by simp [standing, CondPoint.pending])
    refine inv.update (fun waiter => ?_) (fun waiter apart => ?_) (fun _ _ => id)
      (fun waiter _ before => .inl (kept _ waiter before)) False.elim fun _ _ =>
        .inl (kept _ task before)
    all_goals grind
  case sleep point =>
    -- A task that still sleeps was asleep before, and stays where it was.
    obtain ⟨⟨tasks, next⟩, slept, done⟩ := done
    cases done
    refine inv.quiet (by rw [standing]; rfl)
      (fun waiter apart => sleepOnStep_runQueue slept (.inl apart)) ?_ fun point sleeps => ?_
    · cases next <;> exact False.elim
    · cases next with
      | none => cases sleeps
      | some later => exact ⟨⟨_, standing⟩, sleepOnStep_runQueue slept (.inr nofun)⟩
  case leave =>
    -- The task takes only itself off the list.
    cases done
    refine inv.update inv.entries (fun _ _ => id) (fun _ _ => id) (fun waiter apart before =>
      .inl (awaited before (fun listed => .inl ((List.mem_erase_of_ne apart).mpr listed)) ?_))
      False.elim nofun
    simp [standing, CondPoint.pending]
  case waking queues =>
    cases queues with
    | nil =>
      cases done
      exact inv.quiet (by rw [standing]; rfl) (fun _ _ => id) False.elim nofun
    | cons waiter rest =>
      cases done
      exact inv.wakeWaiter standing (queued waiter (by simp [standing, CondPoint.pending]))

theorem step {action : Task × Move CondCall} {after : Threads Task (CondShared Task) (CondOwn Task)}
    (safe : WakesQueued threads action) (done : threads.perform condStep action = some after) :
    NoneLost after := by
  -- The first step of a call and the later ones are different code.
  obtain ⟨task, move⟩ := action
  obtain ⟨shared, own, taken, rfl⟩ := Threads.perform_eq_some done
  cases move with
  | call call =>
    simp only [condStep] at taken
    split at taken
    · rename_i outside
      exact inv.condCall outside.1 (fun same => safe.2 (by rw [same])) taken
    · cases taken
  | next => exact inv.condNext safe.1 taken
  | back => exact inv.condNext safe.1 taken

end

end NoneLost

theorem NoneLost.start {Task : Type*} (tasks : Tasks Task) : NoneLost (condStart tasks) :=
  ⟨fun _ => nofun, fun _ => False.elim, fun _ => nofun⟩

/-- A task takes the mutex, calls `condvar_wait` and goes some steps further. -/
def waitSteps {Task : Type} (task : Task) (steps : Nat) : List (Task × Move CondCall) :=
  [(task, .call (.mutex .lock)), (task, .next), (task, .next), (task, .call .wait)] ++
    List.replicate steps (task, .next)

end Ccos.Sync
