import Ccos.Lib.Threads
import Ccos.Sync.Atomic
import Ccos.Sync.WaitQueue

/-! The semaphore of `sync/semaphore.c` step by step, and the acquisitions that its count leaves
room for. -/

namespace Ccos.Sync

open Lib

inductive SemCall
  | wait
  | trywait
  | post
  deriving DecidableEq, Repr

/-- The points of the calls on a semaphore at which a task can stand between two steps. -/
inductive SemPoint
  | outside
  -- The fast path of `sem_wait`.
  | read
  | swap (old : Int)
  -- The section under the lock, where the count is tried again.
  | lock
  | readAgain
  | swapAgain (old : Int)
  | unlock
  | enqueue
  -- The slow path behind that section.
  | readCount
  | sleep (point : SleepPoint)
  | retry
  | leave
  -- The swap of `sem_trywait` and the wake-up of `sem_post`.
  | trySwap (old : Int)
  | wakeWaiter
  deriving DecidableEq, Repr

/-- A semaphore; each waiter is named by the task that waits. -/
structure Semaphore (Task : Type*) where
  count : Int
  lock : Bool
  waitList : List Task

/-- The semaphore, the tasks, and how many swaps and increments have been executed. -/
structure SemShared (Task : Type*) where
  sem : Semaphore Task
  tasks : Tasks Task
  acquired : Nat
  increments : Nat

/-- Where a task stands, its call or last call with its result, and the swaps of that call. -/
structure SemOwn where
  point : SemPoint
  call : Option SemCall
  result : Bool
  swaps : Nat
  deriving DecidableEq, Repr

section Model

variable {Task : Type*}

def semInit (value : Int) : Semaphore Task :=
  ⟨value, false, []⟩

/-- Where `sem_wait` goes on after it has read the count. -/
def semRead (count : Int) : SemPoint :=
  if 0 < count then .swap count else .lock

/-- A compare-and-swap on the count, with the points behind its success and its failure. -/
def semSwap (shared : SemShared Task) (own : SemOwn) (old new : Int) (success failure : SemPoint) :
    SemShared Task × SemOwn :=
  match atomicCompareAndSwap shared.sem.count old new with
  | (true, count) =>
    ({ shared with sem.count := count, acquired := shared.acquired + 1 },
      { own with point := success, result := true, swaps := own.swaps + 1 })
  | (false, _) => (shared, { own with point := failure, result := false })

def semCall (shared : SemShared Task) : SemCall → SemShared Task × SemOwn
  | .wait => (shared, ⟨semRead shared.sem.count, some .wait, false, 0⟩)
  | .trywait =>
    (shared, ⟨if 0 < shared.sem.count then .trySwap shared.sem.count else .outside,
      some .trywait, false, 0⟩)
  | .post =>
    ({ shared with
        sem.count := atomicInc shared.sem.count
        increments := shared.increments + 1 },
      ⟨.wakeWaiter, some .post, false, 0⟩)

variable [DecidableEq Task]

/-- The next access inside a call; `back` is the choice of a `schedule` that returns at once. -/
def semNext (task : Task) (back : Bool) (shared : SemShared Task) (own : SemOwn) :
    Option (SemShared Task × SemOwn) :=
  let sem := shared.sem
  match own.point with
  | .outside => none
  | .read => some (shared, { own with point := semRead sem.count })
  | .swap old => some (semSwap shared own old (old - 1) .outside .read)
  | .lock =>
    -- The task spins while another one has the lock.
    if sem.lock then none
    else some ({ shared with sem.lock := true }, { own with point := .readAgain })
  | .readAgain =>
    some (shared, { own with point := if 0 < sem.count then .swapAgain sem.count else .enqueue })
  | .swapAgain old => some (semSwap shared own old (old - 1) .unlock .enqueue)
  | .unlock => some ({ shared with sem.lock := false }, { own with point := .outside })
  | .enqueue =>
    some ({ shared with sem := { sem with lock := false, waitList := sem.waitList ++ [task] } },
      { own with point := .readCount })
  | .readCount =>
    some (shared, { own with point := if sem.count = 0 then .sleep .block else .retry })
  | .sleep point =>
    -- Nobody wakes the private wait queue of a waiter, so its entry is left out.
    (sleepOnStep task back shared.tasks point).map fun (tasks, next) =>
      ({ shared with tasks }, { own with point := (next.map .sleep).getD .readCount })
  | .retry => some (semSwap shared own 1 0 .leave .retry)
  | .leave =>
    if sem.lock then none
    else
      some ({ shared with sem.waitList := sem.waitList.erase task }, { own with point := .outside })
  | .trySwap old => some (semSwap shared own old (old - 1) .outside .outside)
  | .wakeWaiter =>
    if sem.lock then none
    else
      match sem.waitList with
      | [] => some (shared, { own with point := .outside })
      | first :: rest =>
        some ({ shared with sem.waitList := rest, tasks := shared.tasks.wake first },
          { own with point := .outside })

def semStep (task : Task) (move : Move SemCall) (shared : SemShared Task) (own : SemOwn) :
    Option (SemShared Task × SemOwn) :=
  match move with
  | .call call => if own.point = .outside then some (semCall shared call) else none
  | .next => semNext task false shared own
  | .back => semNext task true shared own

/-- A new semaphore, which no task uses yet. -/
def semStart (value : Int) (tasks : Tasks Task) : Threads Task (SemShared Task) SemOwn :=
  ⟨⟨semInit value, tasks, 0, 0⟩, fun _ => ⟨.outside, none, false, 0⟩⟩

end Model

/-- The swaps a call has executed when it stands at a point, and the old values it swaps from. -/
@[grind =] def SemOwn.Sound (own : SemOwn) : Prop :=
  match own.point with
  | .outside =>
    own.swaps =
      match own.call with
      | some .wait => 1
      | some .trywait => own.result.toNat
      | _ => 0
  | .unlock | .leave => own.call = some .wait ∧ own.swaps = 1
  | .swap old | .swapAgain old => own.call = some .wait ∧ own.swaps = 0 ∧ 0 < old
  | .trySwap old => own.call = some .trywait ∧ own.swaps = 0 ∧ 0 < old
  | .wakeWaiter => own.call = some .post ∧ own.swaps = 0
  | _ => own.call = some .wait ∧ own.swaps = 0

theorem SemOwn.Sound.swaps_le {own : SemOwn} (sound : own.Sound) : own.swaps ≤ 1 := by
  -- Outside a call the record depends on the call that has returned.
  obtain ⟨point, call, result, swaps⟩ := own
  cases point <;> simp_all [SemOwn.Sound]
  split
  · exact Nat.le_refl 1
  · exact Bool.toNat_le result
  · exact Nat.zero_le 1

/-- What one step does to the count: nothing, an acquisition or an increment. -/
inductive SemChange {Task : Type*} (before after : SemShared Task) : Prop
  | keep (count : after.sem.count = before.sem.count) (acquired : after.acquired = before.acquired)
      (increments : after.increments = before.increments)
  | acquire (positive : 0 < before.sem.count) (count : after.sem.count = before.sem.count - 1)
      (acquired : after.acquired = before.acquired + 1)
      (increments : after.increments = before.increments)
  | post (count : after.sem.count = atomicInc before.sem.count)
      (acquired : after.acquired = before.acquired)
      (increments : after.increments = before.increments + 1)

section Invariant

variable {Task : Type*} {shared shared' : SemShared Task} {own own' : SemOwn}
  {new old : Int} {failure success : SemPoint}

section

variable (done : semSwap shared own old new success failure = (shared', own'))
include done

theorem semSwap_cases :
    (shared.sem.count = old ∧
      shared' = { shared with sem.count := new, acquired := shared.acquired + 1 } ∧
      own' = { own with point := success, result := true, swaps := own.swaps + 1 }) ∨
    (shared' = shared ∧ own' = { own with point := failure, result := false }) := by
  unfold semSwap atomicCompareAndSwap at done
  grind

theorem semSwap_keeps (positive : 0 < old) (one : new = old - 1)
    (swapped : SemOwn.Sound { own with point := success, result := true, swaps := own.swaps + 1 })
    (failed : SemOwn.Sound { own with point := failure, result := false }) :
    SemChange shared shared' ∧ own'.Sound := by
  -- The count is the old value at the moment of a successful swap.
  rcases semSwap_cases done with ⟨same, rfl, rfl⟩ | ⟨rfl, rfl⟩
  · exact ⟨.acquire (same ▸ positive) (same ▸ one) rfl rfl, swapped⟩
  · exact ⟨.keep rfl rfl rfl, failed⟩

end

theorem semCall_keeps {call : SemCall} (done : semCall shared call = (shared', own')) :
    SemChange shared shared' ∧ own'.Sound := by
  -- Only a post writes the count in its first access; what the others read is not a swap.
  cases call with
  | wait =>
    cases done
    refine ⟨.keep rfl rfl rfl, ?_⟩
    simp only [semRead]
    split <;> simp_all [SemOwn.Sound]
  | trywait =>
    cases done
    refine ⟨.keep rfl rfl rfl, ?_⟩
    split <;> simp_all [SemOwn.Sound]
  | post =>
    cases done
    exact ⟨.post rfl rfl rfl, rfl, rfl⟩

variable [DecidableEq Task] {task : Task}

theorem semNext_keeps {back : Bool} (sound : own.Sound)
    (done : semNext task back shared own = some (shared', own')) :
    SemChange shared shared' ∧ own'.Sound := by
  -- One case for each point: a swap happens once, right before the call can return, and all other
  -- steps keep the count.
  obtain ⟨point, call, result, swaps⟩ := own
  cases point with
  | outside => cases done
  | swap old | swapAgain old | trySwap old =>
    -- The record of the call says that the value it read was positive.
    refine semSwap_keeps (Option.some.inj done) sound.2.2 rfl ?_ ?_ <;> simp_all [SemOwn.Sound]
  | retry =>
    -- The slow path swaps from one to zero only.
    refine semSwap_keeps (Option.some.inj done) Int.one_pos rfl ?_ ?_ <;> simp_all [SemOwn.Sound]
  | read | readAgain | readCount =>
    cases done
    refine ⟨.keep rfl rfl rfl, ?_⟩
    simp only [semRead]
    split <;> simp_all [SemOwn.Sound]
  | unlock | enqueue =>
    cases done
    exact ⟨.keep rfl rfl rfl, by simp_all [SemOwn.Sound]⟩
  | sleep point =>
    simp only [semNext, Option.map_eq_some_iff] at done
    obtain ⟨⟨tasks, next⟩, -, done⟩ := done
    cases done
    refine ⟨.keep rfl rfl rfl, ?_⟩
    cases next <;> simp_all [SemOwn.Sound]
  | lock | leave =>
    simp only [semNext] at done
    split at done <;> cases done
    exact ⟨.keep rfl rfl rfl, by simp_all [SemOwn.Sound]⟩
  | wakeWaiter =>
    simp only [semNext] at done
    split at done
    · cases done
    · split at done <;> cases done <;> exact ⟨.keep rfl rfl rfl, by simp_all [SemOwn.Sound]⟩

variable {move : Move SemCall}

theorem semStep_cases (done : semStep task move shared own = some (shared', own')) :
    (own.point = .outside ∧ ∃ call, semCall shared call = (shared', own')) ∨
      ∃ back, semNext task back shared own = some (shared', own') := by
  cases move with
  | call call =>
    simp only [semStep] at done
    grind
  | next => exact .inr ⟨false, done⟩
  | back => exact .inr ⟨true, done⟩

theorem semStep_keeps (sound : own.Sound)
    (done : semStep task move shared own = some (shared', own')) :
    SemChange shared shared' ∧ own'.Sound := by
  rcases semStep_cases done with ⟨-, call, started⟩ | ⟨back, taken⟩
  · exact semCall_keeps started
  · exact semNext_keeps sound taken

end Invariant

/-- Below the range of the counter, what was put in is either there or acquired. -/
@[grind =] def Conserved {Task : Type*} (value : Int) (shared : SemShared Task) : Prop :=
  value + shared.increments < 2 ^ 31 →
    shared.sem.count + shared.acquired = value + shared.increments ∧ 0 ≤ shared.sem.count

theorem Conserved.change {Task : Type*} {value : Int} {before after : SemShared Task}
    (conserved : Conserved value before) (change : SemChange before after) :
    Conserved value after := by
  -- The bound on the increments after the step is one on those before it too.
  intro small
  cases change with
  | keep count acquired increments =>
    grind
  | acquire positive count acquired increments =>
    grind
  | post count acquired increments =>
    -- The increment stays below the range, so the counter does not wrap around.
    rw [increments] at small ⊢
    have earlier := conserved (by omega)
    have grown : atomicInc before.sem.count = before.sem.count + 1 :=
      atomicInc_of_lt (by omega) (by omega)
    rw [count, acquired, grown]
    omega

/-- In every state of every interleaving the count and the acquisitions add up to the value and
the increments, and each call has its one swap before it returns. -/
theorem semaphore_conserved {Task : Type*} [DecidableEq Task] {value : Int} {tasks : Tasks Task}
    {actions : List (Task × Move SemCall)} {last : Threads Task (SemShared Task) SemOwn}
    (nonnegative : 0 ≤ value)
    (run : Run (fun before action after => before.perform semStep action = some after)
      (semStart value tasks) actions last)
    (small : value + last.shared.increments < 2 ^ 31) :
    last.shared.sem.count + last.shared.acquired = value + last.shared.increments ∧
      0 ≤ last.shared.sem.count ∧
      ∀ task, (last.own task).swaps ≤ 1 ∧
        ((last.own task).point = .outside → (last.own task).call = some .wait →
          (last.own task).swaps = 1) ∧
        ((last.own task).point = .outside → (last.own task).call = some .trywait →
          (last.own task).swaps = (last.own task).result.toNat) := by
  -- The record of each call bounds what a step can do to the count.
  have inv := run.preserves
    (fun threads => Conserved value threads.shared ∧ ∀ task, (threads.own task).Sound)
    (fun before action after taken ⟨conserved, sound⟩ => by
      obtain ⟨shared, own, performed, rfl⟩ := Threads.perform_eq_some taken
      obtain ⟨changes, keeps⟩ := semStep_keeps (sound action.1) performed
      exact ⟨conserved.change changes, by grind⟩)
    ⟨fun _ => ⟨by simp [semStart, semInit], by simpa [semStart, semInit] using nonnegative⟩,
      fun _ => rfl⟩
  obtain ⟨conserved, sound⟩ := inv
  obtain ⟨equal, positive⟩ := conserved small
  refine ⟨equal, positive, fun task => ⟨(sound task).swaps_le, fun outside call => ?_,
    fun outside call => ?_⟩⟩ <;>
    have record := sound task <;> simpa [SemOwn.Sound, outside, call] using record

/-- Task `a` takes the only unit, task `b` queues up, and `a` posts before `b` goes to sleep. -/
def semHandover {Task : Type} (a b : Task) : List (Task × Move SemCall) :=
  [(a, .call .wait), (a, .next), (b, .call .wait), (b, .next), (b, .next), (b, .next),
    (a, .call .post), (a, .next), (b, .next), (b, .next), (b, .next)]

/-- Two acquisitions of a unit that was there and one that was posted leave nothing. -/
theorem semaphore_conserved_handover :
    ∃ last, Run (fun before action after => before.perform semStep action = some after)
        (semStart 1 ⟨fun _ => .running, []⟩) (semHandover (0 : Fin 2) 1) last ∧
      last.shared.acquired = 2 ∧ last.shared.increments = 1 ∧ last.shared.sem.count = 0 := by
  refine Run.exists_by (fun last => last.shared.acquired = 2 ∧ last.shared.increments = 1)
    (by decide +kernel) fun last run ⟨acquired, increments⟩ => ?_
  have conserved := (semaphore_conserved (by decide) run (by rw [increments]; decide)).1
  grind

end Ccos.Sync
