import Ccos.Lib.Threads
import Ccos.Sync.Mutex
import Ccos.Sync.WaitQueue

/-! The calls of `sync/mutex.c` step by step, among tasks that interleave between any two atomic
operations, plain accesses and sections under `wait_lock`. -/

namespace Ccos.Sync

open Lib

inductive LockCall
  | lock
  | trylock
  | unlock
  deriving DecidableEq, Repr

/-- The points of the calls on a mutex at which a task can stand between two steps. -/
inductive LockPoint
  | outside
  -- The swap at the start of `mutex_lock` or `mutex_trylock` has succeeded.
  | ownFast
  | countFast
  -- The slow path of `mutex_lock`.
  | queue
  | readLocked
  | readOwner
  | sleep (point : SleepPoint)
  | takeLocked
  | takeOwner
  | takeCount
  | leaveQueue
  -- The owner test of `mutex_unlock` has succeeded.
  | clearOwner
  | clearCount
  | clearLocked
  | wakeWaiter
  deriving DecidableEq, Repr

/-- What the calls on a mutex share. -/
structure LockShared (Task : Type*) where
  mutex : Mutex Task
  tasks : Tasks Task

/-- Where a task stands, and whether it has got the mutex and not called `mutex_unlock` since. -/
structure LockOwn where
  point : LockPoint
  holds : Bool
  deriving DecidableEq, Repr

section Model

variable {Task : Type*} [DecidableEq Task]

def mutexCall (task : Task) (shared : LockShared Task) (own : LockOwn) :
    LockCall → Option (LockShared Task × LockOwn)
  | .lock =>
    if shared.mutex.locked then some (shared, { own with point := .queue })
    else some ({ shared with mutex.locked := true }, { own with point := .ownFast })
  | .trylock =>
    if shared.mutex.locked then some (shared, own)
    else some ({ shared with mutex.locked := true }, { own with point := .ownFast })
  | .unlock =>
    -- Only a task that got the mutex unlocks it.
    if own.holds then
      if shared.mutex.owner ≠ some task then some (shared, ⟨.outside, false⟩)
      else some (shared, ⟨.clearOwner, false⟩)
    else none

/-- The next access inside a call; `back` is the choice of a `schedule` that returns at once. -/
def mutexStep (task : Task) (back : Bool) (shared : LockShared Task) (own : LockOwn) :
    Option (LockShared Task × LockOwn) :=
  let mutex := shared.mutex
  match own.point with
  | .outside => none
  | .ownFast =>
    some ({ shared with mutex.owner := some task }, { own with point := .countFast })
  | .countFast => some ({ shared with mutex.count := 1 }, ⟨.outside, true⟩)
  | .queue =>
    -- The whole section under `wait_lock`, with the second attempt to swap.
    if mutex.locked then
      some ({ shared with mutex.waitList := mutex.waitList ++ [task] },
        { own with point := .readLocked })
    else
      some ({ shared with mutex := { mutex with locked := true, owner := some task, count := 1 } },
        ⟨.outside, true⟩)
  | .readLocked =>
    some (shared, { own with point := if mutex.locked then .sleep .block else .readOwner })
  | .readOwner =>
    some (shared, { own with point := if mutex.owner.isSome then .sleep .block else .takeLocked })
  | .sleep point =>
    -- Nobody wakes the private wait queue of a waiter, so its entry is left out.
    (sleepOnStep task back shared.tasks point).map fun (tasks, next) =>
      ({ shared with tasks }, { own with point := (next.map .sleep).getD .readLocked })
  | .takeLocked =>
    some ({ shared with mutex.locked := true }, { own with point := .takeOwner })
  | .takeOwner =>
    some ({ shared with mutex.owner := some task }, { own with point := .takeCount })
  | .takeCount => some ({ shared with mutex.count := 1 }, { own with point := .leaveQueue })
  | .leaveQueue =>
    some ({ shared with mutex.waitList := mutex.waitList.erase task }, ⟨.outside, true⟩)
  | .clearOwner => some ({ shared with mutex.owner := none }, { own with point := .clearCount })
  | .clearCount => some ({ shared with mutex.count := 0 }, { own with point := .clearLocked })
  | .clearLocked =>
    some ({ shared with mutex.locked := false }, { own with point := .wakeWaiter })
  | .wakeWaiter =>
    match mutex.waitList with
    | [] => some (shared, { own with point := .outside })
    | first :: rest =>
      some (⟨{ mutex with waitList := rest }, shared.tasks.wake first⟩,
        { own with point := .outside })

def lockStep (task : Task) (move : Move LockCall) (shared : LockShared Task) (own : LockOwn) :
    Option (LockShared Task × LockOwn) :=
  match move with
  | .call call => if own.point = .outside then mutexCall task shared own call else none
  | .next => mutexStep task false shared own
  | .back => mutexStep task true shared own

/-- A new mutex, which no task uses yet. -/
def lockStart (tasks : Tasks Task) : Threads Task (LockShared Task) LockOwn :=
  ⟨⟨mutexInit, tasks⟩, fun _ => ⟨.outside, false⟩⟩

/-- A waiter that has seen the mutex free and takes it finds it still free. -/
@[grind =] def TakesFree (threads : Threads Task (LockShared Task) LockOwn)
    (action : Task × Move LockCall) : Prop :=
  (threads.own action.1).point = .takeLocked → threads.shared.mutex.locked = false

instance (threads : Threads Task (LockShared Task) LockOwn) (action : Task × Move LockCall) :
    Decidable (TakesFree threads action) := by
  unfold TakesFree
  infer_instance

end Model

/-- Whether the task has locked the mutex and not yet released it at a point of a call. -/
@[simp]
def LockPoint.weight : LockPoint → Nat
  | .ownFast | .countFast | .takeOwner | .takeCount | .leaveQueue
  | .clearOwner | .clearCount | .clearLocked => 1
  | _ => 0

/-- How often the task has locked the mutex without releasing it. -/
def LockOwn.weight (own : LockOwn) : Nat :=
  own.holds.toNat + own.point.weight

/-- The task has written itself as the owner and not yet removed that. -/
@[grind =] def LockOwn.Named (own : LockOwn) : Prop :=
  own.holds = true ∨ own.point = .countFast ∨ own.point = .takeCount ∨ own.point = .leaveQueue ∨
    own.point = .clearOwner

theorem LockOwn.Named.weight_pos {own : LockOwn} (named : own.Named) : 0 < own.weight := by
  -- Each point at which a task is named lies between its swap and its release.
  obtain ⟨point, holds⟩ := own
  rcases named with held | at_ | at_ | at_ | at_ <;> simp_all [LockOwn.weight, LockPoint.weight]

section Invariant

variable {Task : Type*}

/-- The flag counts the tasks that have locked the mutex, and the owner is the one among them. -/
@[grind] structure Exclusive (threads : Threads Task (LockShared Task) LockOwn) : Prop where
  counted : Totals LockOwn.weight threads.own threads.shared.mutex.locked.toNat
  named : ∀ task, (threads.own task).Named → threads.shared.mutex.owner = some task

namespace Exclusive

theorem start (tasks : Tasks Task) : Exclusive (lockStart tasks) :=
  ⟨Totals.zero fun _ => rfl, fun _ named => by simp [lockStart, LockOwn.Named] at named⟩

variable {threads : Threads Task (LockShared Task) LockOwn} {task : Task}

theorem holds_eq_false (inv : Exclusive threads) (inside : (threads.own task).point.weight = 1) :
    (threads.own task).holds = false := by
  -- The point and a held mutex would count twice, but the flag counts to one.
  have most := inv.counted.le task
  have bit := Bool.toNat_le threads.shared.mutex.locked
  cases held : (threads.own task).holds with
  | false => rfl
  | true =>
    simp only [LockOwn.weight, held, Bool.toNat_true, inside] at most
    omega

theorem locked_of_pos (inv : Exclusive threads) (task : Task)
    (inside : 0 < (threads.own task).weight) : threads.shared.mutex.locked = true := by
  -- The weight of one task is at most the sum, which is the flag.
  have most := inv.counted.le task
  grind

variable [DecidableEq Task] {shared : LockShared Task} {own : LockOwn}

section

variable (inv : Exclusive threads)
include inv

/-- One task moves: the flag follows its weight, and only one that has locked writes the owner. -/
theorem update
    (counted : shared.mutex.locked.toNat + (threads.own task).weight =
      threads.shared.mutex.locked.toNat + own.weight)
    (named : own.Named → shared.mutex.owner = some task)
    (owner : shared.mutex.owner = threads.shared.mutex.owner ∨ 0 < own.weight) :
    Exclusive ⟨shared, Function.update threads.own task own⟩ := by
  -- The sum follows the moving task; the owner is checked for it and for the others.
  have sum := inv.counted.update counted
  refine ⟨sum, fun other => ?_⟩
  by_cases same : other = task
  · subst same
    simpa using named
  · -- Another task that is named has locked the mutex, so the moving one has not.
    simp only [Function.update_of_ne same]
    intro stays
    rcases owner with kept | locked
    · rw [kept]
      exact inv.named other stays
    · have both := sum.add_le same
      simp only [Function.update_of_ne same, Function.update_self] at both
      have bit := Bool.toNat_le shared.mutex.locked
      have := stays.weight_pos
      omega

theorem quiet (locked : shared.mutex.locked = threads.shared.mutex.locked)
    (owner : shared.mutex.owner = threads.shared.mutex.owner)
    (weight : own.weight = (threads.own task).weight) (named : own.Named → (threads.own task).Named) :
    Exclusive ⟨shared, Function.update threads.own task own⟩ :=
  inv.update (by rw [locked, weight]) (fun held => owner.trans (inv.named task (named held)))
    (.inl owner)

theorem swap (outside : (threads.own task).point = .outside)
    (free : ¬threads.shared.mutex.locked = true) :
    Exclusive ⟨{ threads.shared with mutex.locked := true },
      Function.update threads.own task { threads.own task with point := .ownFast }⟩ := by
  -- The flag grows from 0 to 1 together with the weight of the task.
  rw [Bool.not_eq_true] at free
  refine inv.update ?_ (fun held => ?_) (.inl rfl)
  · simp [LockOwn.weight, outside, free, Nat.add_comm]
  grind

theorem mutexCall {call : LockCall} (outside : (threads.own task).point = .outside)
    (done : mutexCall task threads.shared (threads.own task) call = some (shared, own)) :
    Exclusive ⟨shared, Function.update threads.own task own⟩ := by
  cases call
  all_goals simp only [Sync.mutexCall] at done
  case lock =>
    split at done <;> cases done
    · exact inv.quiet rfl rfl (by simp [LockOwn.weight, outside])
        (by simp [LockOwn.Named, outside])
    · exact inv.swap outside (by assumption)
  case trylock =>
    -- A failed attempt returns without a change.
    split at done <;> cases done
    · exact inv.quiet rfl rfl rfl id
    · exact inv.swap outside (by assumption)
  case unlock =>
    split at done
    · -- The task that unlocks holds the mutex, so the owner test cannot fail.
      rename_i held
      have owner := inv.named task (.inl held)
      rw [if_neg (by simpa using owner)] at done
      cases done
      refine inv.update ?_ (fun _ => owner) (.inl rfl)
      simp [LockOwn.weight, outside, held]
    · cases done

/-- A step inside a call keeps the mutex exclusive, if a waiter takes only a free mutex. -/
theorem mutexStep {back : Bool}
    (free : (threads.own task).point = .takeLocked → threads.shared.mutex.locked = false)
    (done : mutexStep task back threads.shared (threads.own task) = some (shared, own)) :
    Exclusive ⟨shared, Function.update threads.own task own⟩ := by
  have named := inv.named task
  cases standing : (threads.own task).point
  all_goals simp only [Sync.mutexStep, standing, Option.map_eq_some_iff, reduceCtorEq] at done
  case ownFast | takeOwner =>
    -- The task writes itself as the owner.
    cases done
    refine inv.update ?_ (fun _ => rfl) (.inr ?_) <;> simp [LockOwn.weight, standing]
  case countFast | leaveQueue =>
    -- The call returns, and what its point stood for is now held.
    have fresh := inv.holds_eq_false (by rw [standing]; rfl)
    cases done
    refine inv.update ?_ (fun _ => named ?_) (.inl rfl)
    · simp [LockOwn.weight, standing, fresh]
    · simp [LockOwn.Named, standing]
  case queue =>
    split at done <;> cases done
    · exact inv.quiet rfl rfl (by simp [LockOwn.weight, standing])
        (by simp [LockOwn.Named, standing])
    · -- The second attempt finds the mutex free, so nobody has locked it.
      rename_i unlocked
      have unheld : (threads.own task).holds = false := by
        by_contra held
        exact unlocked (inv.locked_of_pos task (by simp [LockOwn.weight, held]))
      refine inv.update ?_ (fun _ => rfl) (.inr (by simp [LockOwn.weight]))
      simp [LockOwn.weight, standing, unheld, unlocked]
  case readLocked | readOwner =>
    -- The waiter only looks, and goes to sleep or on to the next look.
    cases done
    refine inv.quiet rfl rfl ?_ ?_
    · split <;> simp [LockOwn.weight, standing]
    · split <;> simp [LockOwn.Named, standing]
  case sleep point =>
    obtain ⟨⟨tasks, next⟩, -, done⟩ := done
    cases done
    refine inv.quiet rfl rfl ?_ ?_
    · cases next <;> simp [LockOwn.weight, standing]
    · cases next <;> simp [LockOwn.Named, standing]
  case takeLocked =>
    -- The mutex is still free, so the write is as good as a swap.
    have unlocked := free standing
    cases done
    refine inv.update ?_ (fun held => named ?_) (.inl rfl)
    · simp [LockOwn.weight, standing, unlocked, Nat.add_comm]
    · simpa [LockOwn.Named, standing] using held
  case takeCount | clearCount =>
    -- The count of the mutex plays no part.
    cases done
    exact inv.quiet rfl rfl (by simp [LockOwn.weight, standing])
      (by simp [LockOwn.Named, standing])
  case clearOwner =>
    -- Without an owner nobody may be named, and the task has left that range.
    have fresh := inv.holds_eq_false (by rw [standing]; rfl)
    cases done
    refine inv.update ?_ (fun held => ?_) (.inr ?_)
    · simp [LockOwn.weight, standing]
    · simp [LockOwn.Named, fresh] at held
    · simp [LockOwn.weight]
  case clearLocked =>
    -- The flag and the weight of the task fall together.
    have fresh := inv.holds_eq_false (by rw [standing]; rfl)
    have locked := inv.locked_of_pos task (by simp [LockOwn.weight, standing])
    cases done
    refine inv.update ?_ (fun held => ?_) (.inl rfl)
    · simp [LockOwn.weight, standing, fresh, locked]
    · simp [LockOwn.Named, fresh] at held
  case wakeWaiter =>
    split at done <;> cases done <;>
      exact inv.quiet rfl rfl (by simp [LockOwn.weight, standing])
        (by simp [LockOwn.Named, standing])

/-- A step keeps the mutex exclusive, if a waiter takes only a free mutex. -/
theorem step {action : Task × Move LockCall} {after : Threads Task (LockShared Task) LockOwn}
    (free : TakesFree threads action) (done : threads.perform lockStep action = some after) :
    Exclusive after := by
  -- A task that starts a call stands outside; otherwise it goes on in one.
  obtain ⟨task, move⟩ := action
  obtain ⟨shared, own, taken, rfl⟩ := Threads.perform_eq_some done
  cases move with
  | call call =>
    simp only [lockStep] at taken
    split at taken
    · rename_i outside
      exact inv.mutexCall outside taken
    · cases taken
  | next => exact inv.mutexStep free taken
  | back => exact inv.mutexStep free taken

end

end Exclusive

end Invariant

/-- As long as every waiter that takes the mutex finds it still free, at most one task has the
mutex, and it is the owner. -/
theorem mutex_exclusive {Task : Type*} [DecidableEq Task] {tasks : Tasks Task}
    {actions : List (Task × Move LockCall)} {last : Threads Task (LockShared Task) LockOwn}
    (run : Run (fun before action after => TakesFree before action ∧
      before.perform lockStep action = some after) (lockStart tasks) actions last) :
    (∀ task other, (last.own task).holds = true → (last.own other).holds = true → task = other) ∧
      ∀ task, (last.own task).holds = true → last.shared.mutex.owner = some task := by
  -- The invariant holds in every state of the run, and a task that holds the mutex counts for it.
  have inv := run.preserves Exclusive (fun _ _ _ taken inv => inv.step taken.1 taken.2)
    (Exclusive.start tasks)
  grind

/-- Task `b` waits for task `a`, sees the mutex free and takes it. -/
def waiterTakes {Task : Type} (a b : Task) : List (Task × Move LockCall) :=
  [(a, .call .lock), (a, .next), (a, .next), (b, .call .lock), (b, .next), (a, .call .unlock),
    (a, .next), (a, .next), (a, .next), (a, .next), (b, .next), (b, .next), (b, .next), (b, .next),
    (b, .next), (b, .next)]

/-- A waiter that nobody overtakes gets the mutex alone. -/
theorem mutex_exclusive_waiter :
    ∃ last, Run (fun before action after => TakesFree before action ∧
        before.perform lockStep action = some after)
        (lockStart ⟨fun _ => .running, []⟩) (waiterTakes (0 : Fin 2) 1) last ∧
      (last.own 1).holds = true ∧ (last.own 0).holds = false ∧
      last.shared.mutex.owner = some 1 := by
  refine Run.exists_by_if (fun last => (last.own 1).holds = true ∧ (last.own 0).holds = false)
    (by decide +kernel) fun last run ⟨held, released⟩ => ?_
  exact ⟨held, released, (mutex_exclusive run).2 1 held⟩

/-- Task `a` locks again after task `b` has seen the mutex free and before it writes the flag. -/
def waiterOvertaken {Task : Type} (a b : Task) : List (Task × Move LockCall) :=
  [(a, .call .lock), (a, .next), (a, .next), (b, .call .lock), (b, .next), (a, .call .unlock),
    (a, .next), (a, .next), (a, .next), (a, .next), (b, .next), (b, .next),
    (a, .call .trylock), (a, .next), (a, .next), (b, .next), (b, .next), (b, .next), (b, .next)]

/-- Two tasks have the mutex, since the waiter takes it without a swap. -/
theorem mutex_held_twice :
    ∃ last, Run (fun before action after => before.perform lockStep action = some after)
        (lockStart ⟨fun _ => .running, []⟩) (waiterOvertaken (0 : Fin 2) 1) last ∧
      (last.own 0).holds = true ∧ (last.own 1).holds = true ∧
      last.shared.mutex.owner = some 1 :=
  Run.exists_of_any (by decide +kernel)

end Ccos.Sync
