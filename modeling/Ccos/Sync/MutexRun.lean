import Mathlib.Data.Fintype.Basic
import Mathlib.Data.List.Nodup
import Ccos.Lib.Run
import Ccos.Sync.Mutex

/-! What holds of the tasks that wait for a mutex, along every run of the tasks that share it. -/

namespace Ccos.Sync

open Lib

variable {Task : Type*}

/-- A task that has not returned from `mutex_lock` and is not running. -/
@[grind =] def SyncWorld.BlockedInLock (world : SyncWorld Task) (task : Task) : Prop :=
  world.place task = .inLock ∧ world.state task ≠ .running

/-- A waiter that `mutex_unlock` took off the wait list and that has not left `mutex_lock`. -/
@[grind =] def SyncWorld.Woken (world : SyncWorld Task) (task : Task) : Prop :=
  world.place task = .inLock ∧ task ∉ world.mutex.waitList

/-- The queues of the tasks: the run queue holds ready tasks other than the current one, the wait
list blocked tasks inside `mutex_lock`. -/
@[grind] structure Queues (world : SyncWorld Task) : Prop where
  nodup : world.runQueue.Nodup
  absent : world.current ∉ world.runQueue
  ready : ∀ task ∈ world.runQueue, world.state task = .ready
  waiting : ∀ task ∈ world.mutex.waitList,
    world.place task = .inLock ∧ world.state task = .blocked
  waiters : world.mutex.waitList.Nodup

/-- The mutex: it is locked exactly while it has an owner, it is free while a woken waiter has not
taken it, and there is one such waiter at most. -/
@[grind] structure Handover (world : SyncWorld Task) : Prop where
  held : world.mutex.locked = world.mutex.owner.isSome
  free : ∀ task, world.Woken task → world.mutex.locked = false
  single : ∀ first second, world.Woken first → world.Woken second → first = second

/-- What every state of a run satisfies in which nobody takes the mutex from a woken waiter. -/
@[grind] structure Invariant (world : SyncWorld Task) : Prop where
  queues : Queues world
  handover : Handover world
  /-- A woken waiter is on the run queue, or it is the task that runs. -/
  found : ∀ task, world.Woken task →
    task ∈ world.runQueue ∨ task = world.current ∧ world.state task = .running
  /-- The current task is on the wait list only while the mutex is locked. -/
  locked : world.current ∈ world.mutex.waitList → world.mutex.locked = true
  awake : world.place world.current ≠ .asleep

variable {world after : SyncWorld Task} {next : Option Task}

theorem Handover.none_woken (handover : Handover world) (locked : world.mutex.locked = true)
    (task : Task) : ¬world.Woken task := by
  grind

/-- While no waiter is woken, only the owner matters. -/
theorem Handover.of_none (held : world.mutex.locked = world.mutex.owner.isSome)
    (none : ∀ task, ¬world.Woken task) : Handover world :=
  ⟨held, fun task woken => absurd woken (none task), fun task _ woken => absurd woken (none task)⟩

theorem Queues.not_waiting (queues : Queues world) {task : Task}
    (outside : world.place task = .outside) : task ∉ world.mutex.waitList := by
  grind

/-- A start: the mutex is new, no task is inside `mutex_lock`, and the run queue holds ready tasks
other than the current one. -/
@[grind] structure SyncWorld.Fresh (world : SyncWorld Task) : Prop where
  mutex : world.mutex = mutexInit
  outside : ∀ task, world.place task ≠ .inLock
  nodup : world.runQueue.Nodup
  absent : world.current ∉ world.runQueue
  ready : ∀ task ∈ world.runQueue, world.state task = .ready
  awake : world.place world.current ≠ .asleep

theorem SyncWorld.Fresh.invariant (fresh : world.Fresh) : Invariant world := by
  have none (task : Task) : ¬world.Woken task := fun woken => fresh.outside task woken.1
  have empty : world.mutex.waitList = [] := by rw [fresh.mutex]; rfl
  refine ⟨⟨fresh.nodup, fresh.absent, fresh.ready, by simp [empty], by simp [empty]⟩,
    .of_none (by rw [fresh.mutex]; rfl) none,
    fun task woken => absurd woken (none task), by simp [empty], fresh.awake⟩

variable [DecidableEq Task]

/-- Going on changes nothing but the place of a task, which was not inside `mutex_lock` and is not
asleep any more. -/
theorem continueTask_eq (world : SyncWorld Task) (task : Task) :
    ∃ place, world.continueTask task = { world with place := place } ∧
      (∀ other, place other = .inLock ↔ world.place other = .inLock) ∧ place task ≠ .asleep := by
  unfold SyncWorld.continueTask
  split
  · exact ⟨_, rfl, by grind, by simp⟩
  · exact ⟨_, rfl, fun _ => Iff.rfl, by assumption⟩

theorem Invariant.continueTask (world : SyncWorld Task) (queues : Queues world)
    (handover : Handover world)
    (found : ∀ task, world.Woken task →
      task ∈ world.runQueue ∨ task = world.current ∧ world.state task = .running)
    (locked : world.current ∈ world.mutex.waitList → world.mutex.locked = true) :
    Invariant (world.continueTask world.current) := by
  -- The same tasks are inside `mutex_lock`, so the same ones are woken.
  obtain ⟨place, same, inside, awake⟩ := continueTask_eq world world.current
  rw [same]
  have woken (task : Task) :
      SyncWorld.Woken { world with place := place } task → world.Woken task :=
    fun now => ⟨(inside task).mp now.1, now.2⟩
  exact ⟨⟨queues.nodup, queues.absent, queues.ready, fun task waits =>
      ⟨(inside task).mpr (queues.waiting task waits).1, (queues.waiting task waits).2⟩,
      queues.waiters⟩,
    ⟨handover.held, fun task now => handover.free task (woken task now), fun first second now now' =>
      handover.single first second (woken first now) (woken second now')⟩,
    fun task now => found task (woken task now), locked, awake⟩

/-- What must hold when a task calls `schedule`: it is not itself a woken waiter. -/
@[grind] structure Settled (world : SyncWorld Task) : Prop where
  queues : Queues world
  handover : Handover world
  found : ∀ task, world.Woken task → task ∈ world.runQueue
  locked : world.current ∈ world.mutex.waitList → world.mutex.locked = true

/-- The queues after the current task is put back and another one is taken off. -/
theorem Queues.switch (queues : Queues world) {next : Task} (member : next ∈ world.runQueue)
    {queue : List Task} {state : Task → ProcState}
    (requeued : queue = world.runQueue ∧ state = world.state ∨
      queue = world.runQueue ++ [world.current] ∧ world.current ∉ world.mutex.waitList ∧
        state = Function.update world.state world.current .ready) :
    Queues ⟨world.mutex, queue.erase next, next, Function.update state next .running,
      world.place⟩ := by
  have others : ∀ task ∈ world.mutex.waitList, task ≠ next := by
    grind
  have nodup : queue.Nodup := by
    grind
  refine ⟨nodup.erase next, ?_, fun task queued => ?_, fun task waits => ?_, queues.waiters⟩
  · simp [nodup.mem_erase_iff]
  · obtain ⟨different, inside⟩ := nodup.mem_erase_iff.mp queued
    simp only [Function.update_of_ne different]
    rcases requeued with ⟨rfl, rfl⟩ | ⟨rfl, _, rfl⟩
    all_goals grind
  · simp only [Function.update_of_ne (others task waits)]
    refine ⟨(queues.waiting task waits).1, ?_⟩
    rcases requeued with ⟨_, rfl⟩ | ⟨_, outside, rfl⟩
    all_goals grind

theorem Settled.schedule {after : SyncWorld Task} (settled : Settled world) {next : Option Task}
    (done : schedule next world = some after) : Invariant after := by
  have stays : Invariant (world.continueTask world.current) :=
    .continueTask world settled.queues settled.handover
      (fun task woken => .inl (settled.found task woken)) settled.locked
  unfold Sync.schedule at done
  split at done
  case isFalse => cases done
  case isTrue picked =>
  obtain rfl := Option.some.inj done
  by_cases same : next = none ∨ next = some world.current
  · rw [SchedView.schedule_stays same]
    exact stays
  obtain ⟨picks, apart⟩ := not_or.mp same
  obtain ⟨next, rfl⟩ := Option.ne_none_iff_exists'.mp picks
  have different : world.current ≠ next := fun equal => apart (congrArg some equal.symm)
  have queued : next ∈ world.runQueue := (picked next rfl).resolve_left different.symm
  rw [SchedView.schedule_prev rfl different, SchedView.switchTo_queued (Option.some_ne_none _).symm]
  -- The current task is put back on the queue unless it is blocked.
  have switched {queue : List Task} {state : Task → ProcState}
      (requeued : queue = world.runQueue ∧ state = world.state ∨
        queue = world.runQueue ++ [world.current] ∧ world.current ∉ world.mutex.waitList ∧
          state = Function.update world.state world.current .ready) :
      Invariant (SyncWorld.continueTask next ⟨world.mutex, queue.erase next, next,
        Function.update state next .running, world.place⟩) := by
    have queues := settled.queues.switch queued requeued
    refine .continueTask ⟨world.mutex, queue.erase next, next,
        Function.update state next .running, world.place⟩ queues
      ⟨settled.handover.held, settled.handover.free, settled.handover.single⟩
      (fun task woken => ?_) fun waits => ?_
    all_goals grind
  have outside (state : world.state world.current ≠ .blocked) :
      world.current ∉ world.mutex.waitList :=
    fun waits => state (settled.queues.waiting _ waits).2
  cases state : world.state world.current with
  | blocked =>
    rw [SchedView.requeuePrev_stays (by simp [syncView, state]) (by simp [syncView, state])]
    exact switched (.inl ⟨rfl, rfl⟩)
  | zombie =>
    rw [SchedView.requeuePrev_stays (by simp [syncView, state]) (by simp [syncView, state])]
    exact switched (.inl ⟨rfl, rfl⟩)
  | running =>
    rw [SchedView.requeuePrev_running (Option.some_ne_none _).symm state (Function.update_self ..)]
    exact switched (.inr ⟨rfl, outside (by simp [state]), rfl⟩)
  | ready =>
    rw [SchedView.requeuePrev_ready (Option.some_ne_none _).symm state]
    have same : world.state = Function.update world.state world.current .ready := by
      rw [← state, Function.update_eq_self]
    exact switched (.inr ⟨rfl, outside (by simp [state]), same⟩)

theorem Queues.block (queues : Queues world) {place : Task → Place}
    (kept : ∀ task ∈ world.mutex.waitList, place task = .inLock) :
    Queues { world with
      state := Function.update world.state world.current .blocked
      place := place } := by
  refine ⟨queues.nodup, queues.absent, fun task queued => ?_, fun task waits => ⟨kept task waits, ?_⟩,
    queues.waiters⟩
  all_goals grind

theorem Queues.enqueue (queues : Queues world) {task : Task}
    (blocked : world.state task = .blocked) (other : task ≠ world.current) {waitList : List Task}
    (fewer : waitList.Sublist world.mutex.waitList) (gone : task ∉ waitList) (locked : Bool)
    (owner : Option Task) (count : Nat) :
    Queues (schedEnqueueTask task { world with
      mutex := ⟨locked, owner, count, waitList⟩
      state := Function.update world.state task .ready }) := by
  have unqueued : task ∉ world.runQueue := by
    grind
  refine ⟨?_, ?_, fun another queued => ?_, fun another waits => ?_,
    queues.waiters.sublist fewer⟩
  · exact List.Nodup.append queues.nodup (List.nodup_singleton _) (by simpa using unqueued)
  · simpa [schedEnqueueTask, queues.absent] using Ne.symm other
  · simp only [schedEnqueueTask, List.mem_append, List.mem_singleton] at queued ⊢
    grind
  · have apart : another ≠ task := by
      rintro rfl
      exact gone waits
    simp only [schedEnqueueTask, Function.update_of_ne apart]
    exact queues.waiting another (fewer.subset waits)

theorem Invariant.loop (inv : Invariant world) (inside : world.place world.current = .inLock)
    (done : mutexLockLoop next world = some after) : Invariant after := by
  have held := inv.handover.held
  cases locked : world.mutex.locked with
  | true =>
    -- The loop sleeps again, and the task is still on the wait list.
    simp only [mutexLockLoop, locked, Bool.true_or, if_true, sleepOn] at done
    refine Settled.schedule ⟨inv.queues.block fun task waits => (inv.queues.waiting task waits).1,
      ⟨held, inv.handover.free, inv.handover.single⟩, fun task woken => ?_, fun _ => locked⟩ done
    exact absurd woken (inv.handover.none_woken locked task)
  | false =>
    -- The task is the woken waiter, and it takes the mutex.
    rw [locked] at held
    simp only [mutexLockLoop, locked, ← held, Bool.or_self, Bool.false_eq_true, if_false,
      Option.some.injEq] at done
    subst done
    have gone : world.current ∉ world.mutex.waitList := by
      grind
    have alone (task : Task) (other : task ≠ world.current) : ¬world.Woken task := fun woken =>
      other (inv.handover.single task world.current woken ⟨inside, gone⟩)
    rw [List.erase_of_not_mem gone]
    have none (task : Task) : ¬SyncWorld.Woken { world with
        mutex := ⟨true, some world.current, 1, world.mutex.waitList⟩
        place := Function.update world.place world.current .outside } task := by
      grind
    refine ⟨⟨inv.queues.nodup, inv.queues.absent, inv.queues.ready, fun task waits => ?_,
      inv.queues.waiters⟩, .of_none rfl none, fun task woken => absurd woken (none task),
      fun waits => absurd waits gone, by simp⟩
    grind

section

variable (inv : Invariant world) (outside : world.place world.current = .outside)
include inv outside

/-- Locking keeps the invariant unless it takes a free mutex from a woken waiter. -/
theorem Invariant.lock (fair : world.mutex.locked = false → ∀ task, ¬world.Woken task)
    (done : mutexLock next world = some after) : Invariant after := by
  have unlisted := inv.queues.not_waiting outside
  cases locked : world.mutex.locked with
  | false =>
    simp only [mutexLock, locked, Bool.not_false, if_true, Option.some.injEq] at done
    subst done
    grind
  | true =>
    -- The task joins the wait list and sleeps while the mutex stays locked.
    simp only [mutexLock, locked, Bool.not_true, Bool.false_eq_true, if_false, mutexLockLoop,
      Bool.true_or, if_true, sleepOn] at done
    have held := inv.handover.held
    rw [locked] at held
    have none (task : Task) : ¬SyncWorld.Woken { world with
        mutex := { world.mutex with locked := true, waitList := world.mutex.waitList ++
          [world.current] }
        state := Function.update world.state world.current .blocked
        place := Function.update world.place world.current .inLock } task := by
      grind
    refine Settled.schedule ?_ done
    refine ⟨⟨inv.queues.nodup, inv.queues.absent, fun task queued => ?_,
      fun task waits => ?_, ?_⟩, .of_none held none, fun task woken => absurd woken (none task),
      fun _ => rfl⟩
    all_goals grind

theorem Invariant.unlock : Invariant (mutexUnlock world) := by
  have held := inv.handover.held
  simp only [mutexUnlock]
  split
  · exact inv
  rename_i owns
  simp only [not_not] at owns
  have locked : world.mutex.locked = true := by simp [held, owns]
  have before := inv.handover.none_woken locked
  split
  · rename_i empty
    have none (task : Task) : ¬SyncWorld.Woken { world with mutex := ⟨false, none, 0, []⟩ } task :=
      fun woken => before task ⟨woken.1, by simp [empty]⟩
    exact ⟨⟨inv.queues.nodup, inv.queues.absent, inv.queues.ready, by simp, List.nodup_nil⟩,
      .of_none rfl none, fun task woken => absurd woken (none task), by simp, inv.awake⟩
  · rename_i first rest waiters
    have listed : first ∈ world.mutex.waitList := by simp [waiters]
    obtain ⟨waits, blocked⟩ := inv.queues.waiting first listed
    have unique := inv.queues.waiters
    rw [waiters, List.nodup_cons] at unique
    have other : first ≠ world.current := by
      grind
    -- Everyone else inside the call is still listed.
    have only (task : Task) (woken : SyncWorld.Woken (schedEnqueueTask first { world with
        mutex := ⟨false, none, 0, rest⟩
        state := Function.update world.state first .ready }) task) : task = first := by
      by_contra different
      exact before task ⟨woken.1, by
        simpa [waiters, different, schedEnqueueTask] using woken.2⟩
    refine ⟨inv.queues.enqueue blocked other (by simp [waiters]) unique.1 _ _ _,
      ⟨rfl, fun _ _ => rfl, fun a b woken woken' => (only a woken).trans (only b woken').symm⟩,
      fun task woken => .inl ?_, fun waiting => ?_, inv.awake⟩
    · simp [only task woken, schedEnqueueTask]
    · exact absurd (show world.current ∈ world.mutex.waitList by
        rw [waiters]
        exact List.mem_cons_of_mem _ waiting) (inv.queues.not_waiting outside)

theorem Invariant.sleep
    (done : sleepOn next
      { world with place := Function.update world.place world.current .asleep } = some after) :
    Invariant after := by
  have unlisted := inv.queues.not_waiting outside
  have woken (task : Task) : SyncWorld.Woken { world with
      state := Function.update world.state world.current .blocked
      place := Function.update world.place world.current .asleep } task → world.Woken task := by
    grind
  refine Settled.schedule ⟨inv.queues.block fun task waits => ?_,
    ⟨inv.handover.held, fun task now => inv.handover.free task (woken task now),
      fun first second now now' =>
        inv.handover.single first second (woken first now) (woken second now')⟩,
    fun task now => ?_, fun waits => absurd waits unlisted⟩ done
  all_goals grind

theorem Invariant.yield (done : schedule next world = some after) : Invariant after := by
  refine Settled.schedule ⟨inv.queues, inv.handover, fun task woken => ?_, inv.locked⟩ done
  grind

end

theorem Invariant.wake (inv : Invariant world) {task : Task} (asleep : world.place task = .asleep)
    (blocked : world.state task = .blocked) :
    Invariant (schedEnqueueTask task
      { world with state := Function.update world.state task .ready }) := by
  have other : task ≠ world.current := by
    rintro rfl
    exact inv.awake asleep
  have unlisted : task ∉ world.mutex.waitList := by
    grind
  refine ⟨inv.queues.enqueue blocked other (List.Sublist.refl _) unlisted _ _ _,
    ⟨inv.handover.held, inv.handover.free, inv.handover.single⟩, fun waiter woken => ?_, inv.locked,
    inv.awake⟩
  rcases inv.found waiter woken with queued | ⟨rfl, running⟩
  · exact .inl (by simp [schedEnqueueTask, queued])
  · refine .inr ⟨rfl, ?_⟩
    simpa [schedEnqueueTask, Function.update_of_ne (Ne.symm other)] using running

def SyncWorld.Step (before : SyncWorld Task) (action : SyncAction Task) (after : SyncWorld Task) :
    Prop :=
  before.perform action = some after

/-- The action takes a free mutex although a woken waiter has not taken it yet. -/
def SyncWorld.Barges (world : SyncWorld Task) : SyncAction Task → Prop
  | .lock _ => world.mutex.locked = false ∧ ∃ task, world.Woken task
  | _ => False

instance (world : SyncWorld Task) (task : Task) : Decidable (world.BlockedInLock task) :=
  inferInstanceAs (Decidable (_ ∧ _))

instance (world : SyncWorld Task) (task : Task) : Decidable (world.Woken task) :=
  inferInstanceAs (Decidable (_ ∧ _))

instance [Fintype Task] (world : SyncWorld Task) (action : SyncAction Task) :
    Decidable (world.Barges action) :=
  match action with
  | .lock _ => inferInstanceAs (Decidable (_ ∧ _))
  | .retry _ | .unlock | .sleep _ | .yield _ | .wake _ => .isFalse id

/-- One step in which nobody takes the mutex from a woken waiter. -/
@[grind =] def SyncWorld.FairStep (before : SyncWorld Task) (action : SyncAction Task)
    (after : SyncWorld Task) : Prop :=
  before.Step action after ∧ ¬before.Barges action

theorem Invariant.step {action : SyncAction Task} (taken : world.FairStep action after)
    (inv : Invariant world) : Invariant after := by
  obtain ⟨step, fair⟩ := taken
  simp only [SyncWorld.Step] at step
  cases action with
  | lock next =>
    obtain ⟨outside, done⟩ : world.place world.current = .outside ∧
        mutexLock next world = some after := by simpa [SyncWorld.perform] using step
    exact inv.lock outside (fun free task woken => fair ⟨free, task, woken⟩) done
  | retry next =>
    obtain ⟨inside, done⟩ : world.place world.current = .inLock ∧
        mutexLockLoop next world = some after := by simpa [SyncWorld.perform] using step
    exact inv.loop inside done
  | unlock =>
    obtain ⟨outside, rfl⟩ : world.place world.current = .outside ∧ mutexUnlock world = after := by
      simpa [SyncWorld.perform] using step
    exact inv.unlock outside
  | sleep next =>
    simp only [SyncWorld.perform] at step
    split at step
    · exact inv.sleep (by assumption) step
    · cases step
  | yield next =>
    obtain ⟨outside, done⟩ : world.place world.current = .outside ∧
        schedule next world = some after := by simpa [SyncWorld.perform] using step
    exact inv.yield outside done
  | wake task =>
    simp only [SyncWorld.perform] at step
    split at step
    · rename_i sleeping
      cases step
      exact inv.wake sleeping.1 sleeping.2
    · cases step

/-- In every run in which nobody takes the mutex from a woken waiter, every task blocked inside
`mutex_lock` is on the wait list or on the run queue, and an unlock by the owner leaves some
waiter on the run queue. -/
theorem mutex_waiters_kept {start last : SyncWorld Task} {actions : List (SyncAction Task)}
    (fresh : start.Fresh) (run : Run SyncWorld.FairStep start actions last) :
    (∀ task, last.BlockedInLock task →
      task ∈ last.mutex.waitList ∨ task ∈ last.runQueue) ∧
    (last.mutex.owner = some last.current → last.place last.current = .outside →
      (∃ task, last.BlockedInLock task) →
      ∃ task ∈ (mutexUnlock last).runQueue, last.place task = .inLock) := by
  have inv : Invariant last :=
    run.preserves Invariant (fun _ _ _ taken inv => inv.step taken) fresh.invariant
  have listed (task : Task) (blocked : last.BlockedInLock task) :
      task ∈ last.mutex.waitList ∨ task ∈ last.runQueue := by
    grind
  refine ⟨listed, fun owns outside some => ?_⟩
  obtain ⟨task, blocked⟩ := some
  simp only [mutexUnlock, owns, ne_eq, not_true, if_false]
  -- The first waiter is made ready; without one the blocked task is queued already.
  cases waiters : last.mutex.waitList with
  | cons first rest =>
    exact ⟨first, by simp [schedEnqueueTask],
      (inv.queues.waiting first (by simp [waiters])).1⟩
  | nil =>
    grind

/-- Tasks with a new mutex, one of them running. -/
def syncStart {Task : Type} [DecidableEq Task] (current : Task) (others : List Task) :
    SyncWorld Task :=
  ⟨mutexInit, others, current, fun task => if task = current then .running else .ready,
    fun _ => .outside⟩

theorem syncStart_fresh : (syncStart (0 : Fin 3) [1, 2]).Fresh :=
  ⟨rfl, by decide, by decide, by decide, by decide, by decide⟩

/-- The second task waits for the mutex of the first. -/
theorem mutex_waiters_kept_handover :
    ∃ last, Run SyncWorld.FairStep (syncStart (0 : Fin 3) [1, 2])
        [.lock none, .sleep (some 1), .lock (some 2), .wake 0, .sleep (some 0)] last ∧
      last.BlockedInLock 1 ∧ (1 ∈ last.mutex.waitList ∨ 1 ∈ last.runQueue) ∧
      ∃ task ∈ (mutexUnlock last).runQueue, last.place task = .inLock := by
  have run : Run SyncWorld.FairStep (syncStart (0 : Fin 3) [1, 2])
      [.lock none, .sleep (some 1), .lock (some 2), .wake 0, .sleep (some 0)] _ :=
    .cons ⟨rfl, by decide⟩ (.cons ⟨rfl, id⟩ (.cons ⟨rfl, by decide⟩ (.cons ⟨rfl, id⟩
      (.cons ⟨rfl, id⟩ (.nil _)))))
  obtain ⟨listed, wakes⟩ := mutex_waiters_kept syncStart_fresh run
  exact ⟨_, run, by decide, listed 1 (by decide), wakes rfl rfl ⟨1, by decide⟩⟩

/-- The first task unlocks and locks again before the woken second task has run. That task then
sleeps on no list, and the next unlock makes nobody runnable. -/
theorem mutex_waiter_lost :
    ∃ last, Run SyncWorld.Step (syncStart (0 : Fin 3) [1, 2])
        [.lock none, .sleep (some 1), .lock (some 2), .wake 0, .sleep (some 0), .unlock, .lock none,
          .wake 2, .sleep (some 1), .retry (some 2), .wake 0, .sleep (some 0)] last ∧
      last.BlockedInLock 1 ∧ 1 ∉ last.mutex.waitList ∧ 1 ∉ last.runQueue ∧
      last.mutex.owner = some last.current ∧ last.place last.current = .outside ∧
      (mutexUnlock last).runQueue = [] := by
  refine ⟨_, Run.of_foldlM (fun _ _ _ => id) rfl, ?_⟩
  decide

end Ccos.Sync
