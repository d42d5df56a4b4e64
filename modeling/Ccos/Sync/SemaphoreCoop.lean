import Mathlib.Data.Fin.VecNotation
import Ccos.Sync.Semaphore

/-! The semaphore among tasks whose control changes hands only inside `schedule`, and when the slow
path of `sem_wait` comes to an end. -/

namespace Ccos.Sync

open Lib

/-- The tasks and the one that runs; while `schedule` chooses, none does. -/
structure SemCoop (Task : Type*) where
  threads : Threads Task (SemShared Task) SemOwn
  running : Option Task

/-- What can happen next: the running task takes a step or calls `schedule`, or a task is picked. -/
inductive CoopMove (Task : Type*)
  | step (move : Move SemCall)
  | yield
  | pick (task : Task)

/-- The points of the slow path of `sem_wait` at which a task that has slept can run. -/
@[grind =] def SemPoint.SlowPath (point : SemPoint) : Prop :=
  point = .readCount ∨ point = .retry ∨ point = .leave

/-- The points at which the task has the lock of the semaphore. -/
def SemPoint.Locked : SemPoint → Prop
  | .readAgain | .swapAgain _ | .unlock | .enqueue => True
  | _ => False

section Model

variable {Task : Type*} [DecidableEq Task]

def SemCoop.perform (world : SemCoop Task) : CoopMove Task → Option (SemCoop Task)
  | .step move => do
    let task ← world.running
    let threads ← world.threads.perform semStep (task, move)
    some ⟨threads, if (threads.own task).point = .sleep .asleep then none else some task⟩
  | .yield => do
    let task ← world.running
    if (world.threads.own task).point = .outside then
      let tasks ← world.threads.shared.tasks.scheduleAway task
      some ⟨{ world.threads with shared.tasks := tasks }, none⟩
    else none
  | .pick task =>
    if world.running = none then
      -- A task that slept goes on in `sleep_on`, any other one behind its own call of `schedule`.
      if (world.threads.own task).point = .sleep .asleep then do
        let threads ← world.threads.perform semStep (task, .next)
        some ⟨threads, some task⟩
      else do
        let tasks ← world.threads.shared.tasks.switchTo task
        some ⟨{ world.threads with shared.tasks := tasks }, some task⟩
    else none

/-- A new semaphore, with one task that runs. -/
def coopStart (value : Int) (tasks : Tasks Task) (task : Task) : SemCoop Task :=
  ⟨semStart value tasks, some task⟩

/-- The running task returns from its call after finitely many steps of its own. -/
@[grind =] def SemCoop.Returns (world : SemCoop Task) (task : Task) : Prop :=
  ∃ steps after, (List.replicate steps (CoopMove.step .next)).foldlM SemCoop.perform world =
    some after ∧ (after.threads.own task).point = .outside

end Model

/-- What holds of the running task: only it has the lock, and behind its last swap nothing is
left. -/
@[grind] structure Tidy {Task : Type*} (shared : SemShared Task) (own : SemOwn) : Prop where
  locked : shared.sem.lock = true → own.point.Locked
  drained : own.point = .leave → shared.sem.count = 0

/-- A task that does not run is outside its calls or asleep, and nobody else has the lock. -/
@[grind] structure Cooperative {Task : Type*} (world : SemCoop Task) : Prop where
  resting : ∀ task, world.running ≠ some task →
    (world.threads.own task).point = .outside ∨ (world.threads.own task).point = .sleep .asleep
  running : ∀ task, world.running = some task →
    Tidy world.threads.shared (world.threads.own task)
  chosen : world.running = none → world.threads.shared.sem.lock = false

section Invariant

variable {Task : Type*} {shared shared' : SemShared Task} {own own' : SemOwn}

theorem Tidy.unlocked (tidy : Tidy shared own) (outside : ¬own.point.Locked) :
    shared.sem.lock = false :=
  Bool.eq_false_iff.mpr fun held => outside (tidy.locked held)

theorem Tidy.of_unlocked (free : shared.sem.lock = false) (stays : own.point ≠ .leave) :
    Tidy shared own :=
  ⟨fun held => absurd held (by simp [free]), fun left => absurd left stays⟩

theorem Tidy.semSwap {old new : Int} {success failure : SemPoint}
    (done : semSwap shared own old new success failure = (shared', own'))
    (locked : shared.sem.lock = true → success.Locked ∧ failure.Locked)
    (drained : success = .leave → new = 0) (stays : failure ≠ .leave) : Tidy shared' own' := by
  rcases semSwap_cases done with ⟨-, rfl, rfl⟩ | ⟨rfl, rfl⟩
  all_goals grind

theorem Tidy.semCall {call : SemCall} (free : shared.sem.lock = false)
    (done : semCall shared call = (shared', own')) : Tidy shared' own' := by
  -- No call starts with the lock or behind the last swap.
  cases call with
  | wait =>
    cases done
    refine .of_unlocked free ?_
    simp only [semRead]
    split <;> simp
  | trywait =>
    cases done
    refine .of_unlocked free ?_
    split <;> simp
  | post =>
    cases done
    exact .of_unlocked free (by simp)

theorem Cooperative.start (value : Int) (tasks : Tasks Task) (task : Task) :
    Cooperative (coopStart value tasks task) :=
  ⟨fun _ _ => .inl rfl, fun _ _ => .of_unlocked rfl (by simp [coopStart, semStart]),
    fun _ => rfl⟩

variable [DecidableEq Task] {task : Task}

theorem Tidy.semNext {back : Bool} (tidy : Tidy shared own)
    (done : semNext task back shared own = some (shared', own')) : Tidy shared' own' := by
  -- One case for each point: without the lock only a free lock is to be shown.
  have unlocked := tidy.unlocked
  obtain ⟨point, call, result, swaps⟩ := own
  cases point with
  | outside => cases done
  | swap old | trySwap old =>
    refine Tidy.semSwap (Option.some.inj done) (fun held => ?_) (by simp) (by simp)
    simp [unlocked id] at held
  | swapAgain old =>
    exact Tidy.semSwap (Option.some.inj done) (fun _ => ⟨trivial, trivial⟩) (by simp) (by simp)
  | retry =>
    -- The swap of the slow path writes zero, and then the task leaves.
    refine Tidy.semSwap (Option.some.inj done) (fun held => ?_) (fun _ => rfl) (by simp)
    simp [unlocked id] at held
  | read =>
    cases done
    refine .of_unlocked (unlocked id) ?_
    simp only [semRead]
    split <;> simp
  | readCount =>
    cases done
    refine .of_unlocked (unlocked id) ?_
    dsimp only
    split <;> simp
  | readAgain =>
    cases done
    dsimp only
    split <;> exact ⟨fun _ => trivial, by simp⟩
  | unlock | enqueue =>
    cases done
    exact .of_unlocked rfl (by simp)
  | sleep point =>
    simp only [Sync.semNext, Option.map_eq_some_iff] at done
    obtain ⟨⟨tasks, next⟩, -, done⟩ := done
    cases done
    refine .of_unlocked (unlocked id) ?_
    cases next <;> simp
  | lock =>
    -- The task takes the lock and stands behind it.
    simp only [Sync.semNext] at done
    split at done <;> cases done
    exact ⟨fun _ => trivial, by simp⟩
  | leave =>
    simp only [Sync.semNext] at done
    grind
  | wakeWaiter =>
    simp only [Sync.semNext] at done
    grind

theorem Tidy.semStep {move : Move SemCall} (tidy : Tidy shared own)
    (done : semStep task move shared own = some (shared', own')) : Tidy shared' own' := by
  -- A task that starts a call is outside, so nobody has the lock.
  rcases semStep_cases done with ⟨outside, call, started⟩ | ⟨back, taken⟩
  · exact Tidy.semCall (tidy.unlocked (by simp [outside, SemPoint.Locked])) started
  · exact tidy.semNext taken

namespace Cooperative

variable {world after : SemCoop Task}

theorem step (inv : Cooperative world) {move : Move SemCall}
    (done : world.perform (.step move) = some after) : Cooperative after := by
  -- The task either still runs or has just fallen asleep inside `sleep_on`.
  simp only [SemCoop.perform, Option.bind_eq_bind, Option.bind_eq_some_iff] at done
  obtain ⟨task, running, threads, performed, done⟩ := done
  obtain ⟨shared, own, taken, rfl⟩ := Threads.perform_eq_some performed
  have tidy := (inv.running task running).semStep taken
  -- The other tasks rest as before.
  have resting : ∀ other, other ≠ task →
      (Function.update world.threads.own task own other).point = .outside ∨
      (Function.update world.threads.own task own other).point = .sleep .asleep :=
    fun other apart => by
      grind
  simp only [Function.update_self] at done
  split at done <;> cases done
  · -- The task has been switched away from, asleep and without the lock.
    rename_i asleep
    refine ⟨fun other _ => ?_, fun _ => nofun, fun _ => ?_⟩
    · grind
    · exact tidy.unlocked (by simp [asleep, SemPoint.Locked])
  grind

theorem yield (inv : Cooperative world) (done : world.perform .yield = some after) :
    Cooperative after := by
  -- The task that gives up the processor stands outside the semaphore.
  simp only [SemCoop.perform, Option.bind_eq_bind, Option.bind_eq_some_iff] at done
  obtain ⟨task, running, done⟩ := done
  split at done
  · rename_i outside
    simp only [Option.bind_eq_some_iff] at done
    obtain ⟨tasks, -, done⟩ := done
    cases done
    refine ⟨fun other _ => ?_, fun _ => nofun, fun _ => ?_⟩
    · grind
    · exact (inv.running task running).unlocked (by simp [outside, SemPoint.Locked])
  · cases done

theorem pick (inv : Cooperative world) {task : Task}
    (done : world.perform (.pick task) = some after) : Cooperative after := by
  -- While the scheduler chooses, every task rests and the lock is free.
  simp only [SemCoop.perform] at done
  split at done
  · rename_i chosen
    have free := inv.chosen chosen
    have resting (other : Task) := inv.resting other (by simp [chosen])
    split at done
    · -- The picked task leaves `sleep_on`.
      rename_i asleep
      simp only [Option.bind_eq_bind, Option.bind_eq_some_iff] at done
      obtain ⟨threads, performed, done⟩ := done
      cases done
      obtain ⟨shared, own, taken, rfl⟩ := Threads.perform_eq_some performed
      have tidy : Tidy world.threads.shared (world.threads.own task) :=
        .of_unlocked free (by simp [asleep])
      refine ⟨fun other apart => ?_, fun other same => ?_, nofun⟩
      · grind
      · obtain rfl := Option.some.inj same
        simpa using tidy.semStep taken
    · -- The picked task is outside its calls.
      rename_i awake
      simp only [Option.bind_eq_bind, Option.bind_eq_some_iff] at done
      obtain ⟨tasks, -, done⟩ := done
      cases done
      grind
  · cases done

theorem perform (inv : Cooperative world) {move : CoopMove Task}
    (done : world.perform move = some after) : Cooperative after := by
  cases move with
  | step move => exact inv.step done
  | yield => exact inv.yield done
  | pick task => exact inv.pick done

end Cooperative

variable {world after : SemCoop Task}

theorem SemCoop.perform_next (running : world.running = some task)
    (taken : semNext task false world.threads.shared (world.threads.own task) =
      some (shared, own)) (awake : own.point ≠ .sleep .asleep) :
    world.perform (.step .next) =
      some ⟨⟨shared, Function.update world.threads.own task own⟩, some task⟩ := by
  simp [SemCoop.perform, running, Threads.perform, semStep, taken, awake]

section

variable (running : world.running = some task)
  (slow : (world.threads.own task).point = .readCount ∨ (world.threads.own task).point = .retry)
  (many : 1 < world.threads.shared.sem.count)
include running slow many

theorem SemCoop.spin_step :
    ∃ after, world.perform (.step .next) = some after ∧ after.running = some task ∧
      (after.threads.own task).point = .retry ∧
      after.threads.shared.sem.count = world.threads.shared.sem.count := by
  -- Neither the test for zero nor the swap from one lets the task out.
  rcases slow with point | point
  · have nonzero : world.threads.shared.sem.count ≠ 0 := by omega
    have taken : semNext task false world.threads.shared (world.threads.own task) =
        some (world.threads.shared, { world.threads.own task with point := .retry }) := by
      simp [semNext, point, nonzero]
    exact ⟨_, SemCoop.perform_next running taken (by simp), rfl, by simp, rfl⟩
  · have unequal : world.threads.shared.sem.count ≠ 1 := by omega
    have taken : semNext task false world.threads.shared (world.threads.own task) =
        some (world.threads.shared,
          { world.threads.own task with point := .retry, result := false }) := by
      simp [semNext, point, semSwap, atomicCompareAndSwap, unequal]
    exact ⟨_, SemCoop.perform_next running taken (by simp), rfl, by simp, rfl⟩

/-- With more than one unit the waiter never returns by its own steps. -/
theorem SemCoop.spins : ¬world.Returns task := by
  rintro ⟨steps, after, done, returned⟩
  -- Each step leads back to the same comparison, which fails again.
  induction steps generalizing world with
  | zero =>
    grind
  | succ steps ih =>
    obtain ⟨second, taken, still, point, same⟩ := SemCoop.spin_step running slow many
    grind

end

theorem SemCoop.Returns.step (taken : world.perform (.step .next) = some after)
    (returns : after.Returns task) : world.Returns task := by
  obtain ⟨steps, last, done, outside⟩ := returns
  refine ⟨steps + 1, last, ?_, outside⟩
  grind

variable (running : world.running = some task) (free : world.threads.shared.sem.lock = false)
include running free

theorem SemCoop.returns_of_leave (point : (world.threads.own task).point = .leave) :
    world.Returns task := by
  -- One step is left, which only waits for the lock.
  have taken : semNext task false world.threads.shared (world.threads.own task) =
      some ({ world.threads.shared with
          sem.waitList := world.threads.shared.sem.waitList.erase task },
        { world.threads.own task with point := .outside }) := by
    simp [semNext, point, free]
  exact .step (SemCoop.perform_next running taken (by simp)) ⟨0, _, rfl, by simp⟩

theorem SemCoop.returns_of_retry (point : (world.threads.own task).point = .retry)
    (one : world.threads.shared.sem.count = 1) : world.Returns task := by
  -- The swap from one to zero succeeds, and the task leaves.
  have taken : semNext task false world.threads.shared (world.threads.own task) =
      some ({ world.threads.shared with
          sem.count := 0, acquired := world.threads.shared.acquired + 1 },
        { world.threads.own task with
          point := .leave, result := true, swaps := (world.threads.own task).swaps + 1 }) := by
    simp [semNext, point, semSwap, atomicCompareAndSwap, one]
  exact .step (SemCoop.perform_next running taken (by simp))
    (SemCoop.returns_of_leave rfl free (by simp))

theorem SemCoop.returns_of_readCount (point : (world.threads.own task).point = .readCount)
    (one : world.threads.shared.sem.count = 1) : world.Returns task := by
  -- The count is not zero, so the task does not sleep again.
  have taken : semNext task false world.threads.shared (world.threads.own task) =
      some (world.threads.shared, { world.threads.own task with point := .retry }) := by
    simp [semNext, point, one]
  exact .step (SemCoop.perform_next running taken (by simp))
    (SemCoop.returns_of_retry rfl free (by simp) one)

end Invariant

/-- In a cooperative run, a task that runs in the slow path with a positive count returns by its
own steps exactly if the count is one. -/
theorem semWait_returns_iff {Task : Type*} [DecidableEq Task] {value : Int} {tasks : Tasks Task}
    {first task : Task} {moves : List (CoopMove Task)} {last : SemCoop Task}
    (run : Run (fun before move after => before.perform move = some after)
      (coopStart value tasks first) moves last)
    (running : last.running = some task) (slow : (last.threads.own task).point.SlowPath)
    (positive : 0 < last.threads.shared.sem.count) :
    last.Returns task ↔ last.threads.shared.sem.count = 1 := by
  have inv := run.preserves Cooperative (fun _ _ _ taken inv => inv.perform taken)
    (Cooperative.start value tasks first)
  have tidy := inv.running task running
  -- The two points before the last swap return with one unit and spin with more.
  rcases slow with point | point | point
  · have free := tidy.unlocked (by simp [point, SemPoint.Locked])
    refine ⟨fun returns => ?_, fun one => SemCoop.returns_of_readCount running free point one⟩
    by_contra unequal
    exact SemCoop.spins running (.inl point) (by omega) returns
  · have free := tidy.unlocked (by simp [point, SemPoint.Locked])
    refine ⟨fun returns => ?_, fun one => SemCoop.returns_of_retry running free point one⟩
    by_contra unequal
    exact SemCoop.spins running (.inr point) (by omega) returns
  · -- Behind the last swap of the slow path nothing is left.
    have := tidy.drained point
    omega

/-- Task `b` finds nothing and sleeps; task `a` posts some units and calls `schedule`. -/
def semSlowPath {Task : Type} (a b : Task) (posts : Nat) : List (CoopMove Task) :=
  .step (.call .wait) :: List.replicate 6 (.step .next) ++ .pick a ::
    (List.replicate posts [.step (.call .post), .step .next]).flatten ++ [.yield, .pick b]

/-- A waiter for whom one unit was posted returns. -/
theorem semWait_returns_one :
    ∃ last, Run (fun before move after => before.perform move = some after)
        (coopStart 0 ⟨![.ready, .running], [0]⟩ (1 : Fin 2))
        (semSlowPath 0 1 1) last ∧ last.Returns 1 := by
  refine Run.exists_by (fun last => last.running = some 1 ∧
      (last.threads.own 1).point = .readCount ∧ last.threads.shared.sem.count = 1)
    (by decide +kernel) fun last run ⟨running, point, count⟩ => ?_
  exact (semWait_returns_iff run running (.inl point) (by omega)).mpr count

/-- A waiter for whom two units were posted before it ran never returns. -/
theorem semWait_spins_two :
    ∃ last, Run (fun before move after => before.perform move = some after)
        (coopStart 0 ⟨![.ready, .running], [0]⟩ (1 : Fin 2))
        (semSlowPath 0 1 2) last ∧
      last.running = some 1 ∧ last.threads.shared.sem.count = 2 ∧ ¬last.Returns 1 := by
  refine Run.exists_by (fun last => last.running = some 1 ∧
      (last.threads.own 1).point = .readCount ∧ last.threads.shared.sem.count = 2)
    (by decide +kernel) fun last run ⟨running, point, count⟩ => ?_
  exact ⟨running, count, SemCoop.spins running (.inl point) (by omega)⟩

end Ccos.Sync
