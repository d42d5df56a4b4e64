import Ccos.Lib.Run
import Ccos.Process.SchedPrio

/-! The counters and the choice of the priority class, along every run of ticks, schedules, blocks
and wake-ups. -/

namespace Ccos

open Lib

variable {Task : Type*}

/-- A task is on the active or on the expired queues. -/
@[grind =] def PrioRq.Queued (rq : PrioRq Task) (task : Task) : Prop :=
  rq.active.Queued task ∨ rq.expired.Queued task

/-- The counters are the total lengths of queues on which every task stands once, at its level. -/
@[grind] structure PrioRq.Counted (rq : PrioRq Task) (levelOf : Task → Fin prioLevels) : Prop where
  active : rq.active.Sorted levelOf
  expired : rq.expired.Sorted levelOf
  apart : ∀ task, rq.active.Queued task → ¬rq.expired.Queued task
  nrActive : rq.nrActive = rq.active.size
  nrExpired : rq.nrExpired = rq.expired.size
  nrRunning : rq.nrRunning = rq.active.size + rq.expired.size

/-- The first task of the active queues, or of the expired queues when none is active. -/
def PrioRq.front? (rq : PrioRq Task) : Option Task :=
  rq.active.first?.or rq.expired.first?

variable {rq : PrioRq Task} {levelOf : Task → Fin prioLevels} {task other : Task}

theorem queued_push {levels : Levels prioLevels Task} {level : Fin prioLevels} {front : Bool} :
    (levels.push level task front).Queued other ↔ levels.Queued other ∨ other = task := by
  constructor
  · rintro ⟨place, member⟩
    rcases Levels.mem_push.mp member with old | ⟨_, same⟩
    · exact .inl ⟨place, old⟩
    · exact .inr same
  · rintro (⟨place, member⟩ | rfl)
    · exact ⟨place, Levels.mem_push.mpr (.inl member)⟩
    · exact ⟨level, Levels.mem_push.mpr (.inr ⟨rfl, rfl⟩)⟩

variable {entity : SchedEntity}

theorem PrioRq.Counted.enqueue (counted : rq.Counted levelOf) (fresh : ¬rq.Queued task)
    (level : prioLevel entity.priority = levelOf task) (head : Bool) :
    (prioEnqueueTask task entity head rq).Counted levelOf := by
  have inactive : ¬rq.active.Queued task := fun queued => fresh (.inl queued)
  have unexpired : ¬rq.expired.Queued task := fun queued => fresh (.inr queued)
  simp only [prioEnqueueTask, level]
  split
  · refine ⟨counted.active, counted.expired.push unexpired head, fun other now => ?_,
      counted.nrActive, ?_, ?_⟩
    · rw [queued_push]
      grind
    · simp [Levels.size_push, counted.nrExpired]
    · simp only [Levels.size_push, counted.nrRunning]
      omega
  · refine ⟨counted.active.push inactive head, counted.expired, fun other now => ?_, ?_,
      counted.nrExpired, ?_⟩
    · rcases queued_push.mp now with old | rfl
      · exact counted.apart other old
      · exact unexpired
    · simp [Levels.size_push, counted.nrActive]
    · simp only [Levels.size_push, counted.nrRunning]
      omega

theorem queued_enqueue {head : Bool} :
    (prioEnqueueTask task entity head rq).Queued other ↔ rq.Queued other ∨ other = task := by
  simp only [prioEnqueueTask, PrioRq.Queued]
  split
  · rw [queued_push]
    exact or_assoc.symm
  · rw [queued_push]
    exact or_right_comm

theorem active_enqueue {head : Bool} (active : rq.active.Queued other) :
    (prioEnqueueTask task entity head rq).active.Queued other := by
  simp only [prioEnqueueTask]
  split
  · exact active
  · exact queued_push.mpr (.inl active)

theorem PrioRq.Counted.swap (counted : rq.Counted levelOf) :
    (prioSwapActiveExpired rq).Counted levelOf :=
  ⟨counted.expired, counted.active, fun task now before => counted.apart task before now,
    counted.nrExpired, counted.nrActive, counted.nrRunning.trans (Nat.add_comm _ _)⟩

/-- What a pick does when the counters are right and something is queued: it returns the front
task, which is active after the swap and has the lowest level there. -/
@[grind] structure Picked (rq : PrioRq Task) (levelOf : Task → Fin prioLevels) (task : Task)
    (after : PrioRq Task) : Prop where
  returned : prioPickNextTask rq = (some task, after)
  counted : after.Counted levelOf
  front : rq.front? = some task
  active : after.active.Queued task
  lowest : ∀ other, after.active.Queued other → levelOf task ≤ levelOf other
  same : ∀ other, after.Queued other ↔ rq.Queued other
  swapped : after = if rq.active.size = 0 then prioSwapActiveExpired rq else rq

theorem PrioRq.Counted.pick (counted : rq.Counted levelOf)
    (nonempty : rq.active.size + rq.expired.size ≠ 0) :
    ∃ task after, Picked rq levelOf task after := by
  by_cases empty : rq.active.size = 0
  · -- Nothing is active, so the expired queues become the active ones.
    obtain ⟨level, task, rest, found, queue, first, lowest⟩ :=
      counted.expired.first? (by omega : rq.expired.size ≠ 0)
    have noneActive : rq.active.first? = none := by
      simp [Levels.first?, Levels.firstLevel?_eq_none.mpr empty]
    refine ⟨task, prioSwapActiveExpired rq, ?_, counted.swap, ?_, ⟨level, ?_⟩, lowest,
      fun other => or_comm, by rw [if_pos empty]⟩
    · have expired : 0 < rq.nrExpired := by
        rw [counted.nrExpired]
        omega
      simp [prioPickNextTask, counted.nrActive, empty, expired, prioSwapActiveExpired,
        findHighestPrio, found, queue]
    · simp [PrioRq.front?, noneActive, first]
    · simp [prioSwapActiveExpired, queue]
  · obtain ⟨level, task, rest, found, queue, first, lowest⟩ := counted.active.first? empty
    refine ⟨task, rq, ?_, counted, ?_, ⟨level, by simp [queue]⟩, lowest, fun _ => Iff.rfl,
      by rw [if_neg empty]⟩
    · simp [prioPickNextTask, counted.nrActive, empty, findHighestPrio, found, queue]
    · simp [PrioRq.front?, first]

/-- What holds in every state of a run whose steps are safe. -/
structure Scheduler.Invariant (levelOf : Task → Fin prioLevels) (sched : Scheduler Task) :
    Prop where
  counted : sched.rq.Counted levelOf
  /-- A task is queued at the level of its priority, which is in the range. -/
  level : ∀ task, prioLevel (sched.entity task).priority = levelOf task
  range : ∀ task, clampPrio (sched.entity task).priority = (sched.entity task).priority
  ready : ∀ task, sched.rq.Queued task → sched.state task = .ready
  current : ∀ task, sched.current = some task → ¬sched.rq.Queued task ∧ sched.state task ≠ .ready

/-- The current task goes on running, because it has time left and the queued task does not
preempt it. -/
@[grind =] def Scheduler.Keeps (sched : Scheduler Task) (task : Task) : Prop :=
  ∃ prev, sched.current = some prev ∧ sched.state prev = .running ∧
    0 < (sched.entity prev).timeSlice ∧
    prioShouldPreempt (sched.entity task) (sched.entity prev) = false

/-- A switch to a task whose time slice is used up while another such task stays on the expired
queues or is put back on them. -/
@[grind =] def Scheduler.Miscounts (sched : Scheduler Task) : Prop :=
  ∃ task, sched.rq.front? = some task ∧ (sched.entity task).timeSlice = 0 ∧ ¬sched.Keeps task ∧
    (sched.rq.active.size ≠ 0 ∧ sched.rq.expired.size ≠ 0 ∨
      ∃ prev, sched.current = some prev ∧ sched.state prev = .running ∧
        (sched.entity prev).timeSlice = 0)

variable {sched : Scheduler Task}

theorem Scheduler.Invariant.pick (inv : sched.Invariant levelOf) :
    (∃ next, schedPickNextTask sched = (next, sched) ∧ (next = none ∨ next = sched.current)) ∨
    ∃ task after, Picked sched.rq levelOf task after ∧
      (schedPickNextTask sched = (sched.current, { sched with rq := after }) ∨
        ¬sched.Keeps task ∧ schedPickNextTask sched = (some task, { sched with rq := after })) := by
  by_cases empty : sched.rq.active.size + sched.rq.expired.size = 0
  · -- Without a queued task the current one goes on or nothing is picked.
    have idle : sched.rq.nrRunning = 0 := by rw [inv.counted.nrRunning, empty]
    refine .inl ?_
    simp only [schedPickNextTask, idle, Nat.lt_irrefl, if_false]
    grind
  · obtain ⟨task, after, picked⟩ := inv.counted.pick empty
    have busy : 0 < sched.rq.nrRunning := by
      rw [inv.counted.nrRunning]
      omega
    refine .inr ⟨task, after, picked, ?_⟩
    simp only [schedPickNextTask, busy, if_true, picked.returned, Scheduler.Keeps]
    grind

theorem Scheduler.Invariant.picked (inv : sched.Invariant levelOf) {after : PrioRq Task}
    (picked : Picked sched.rq levelOf task after) :
    Scheduler.Invariant levelOf { sched with rq := after } :=
  ⟨picked.counted, inv.level, inv.range,
    fun other queued => inv.ready other ((picked.same other).mp queued),
    fun other now => ⟨fun queued => (inv.current other now).1 ((picked.same other).mp queued),
      (inv.current other now).2⟩⟩

/-- The scheduler before the first task is queued. -/
@[grind] structure Scheduler.Fresh (sched : Scheduler Task) : Prop where
  active : ∀ level, sched.rq.active level = []
  expired : ∀ level, sched.rq.expired level = []
  nrActive : sched.rq.nrActive = 0
  nrExpired : sched.rq.nrExpired = 0
  nrRunning : sched.rq.nrRunning = 0
  current : sched.current = none
  entity : ∀ task, ∃ nice, sched.entity task = prioTaskFork nice

theorem Scheduler.Fresh.invariant (fresh : sched.Fresh) :
    sched.Invariant fun task => prioLevel (sched.entity task).priority := by
  have absent (task : Task) : ¬sched.rq.Queued task := by
    rintro (⟨level, member⟩ | ⟨level, member⟩)
    all_goals grind
  have active := (Levels.size_eq_zero_iff _).mpr fresh.active
  have expired := (Levels.size_eq_zero_iff _).mpr fresh.expired
  refine ⟨⟨⟨?_, ?_⟩, ⟨?_, ?_⟩, ?_, ?_, ?_, ?_⟩, fun _ => rfl, fun task => ?_, ?_, ?_⟩
  · simp [fresh.active]
  · simp [fresh.active]
  · simp [fresh.expired]
  · simp [fresh.expired]
  · exact fun task queued => absurd (.inl queued) (absent task)
  · rw [fresh.nrActive, active]
  · rw [fresh.nrExpired, expired]
  · rw [fresh.nrRunning, active, expired]
  · obtain ⟨nice, entity⟩ := fresh.entity task
    rw [entity]
    exact clampPrio_idem _
  all_goals grind

variable [DecidableEq Task]

/-- Unlinking an active task keeps the counters right, unless its time slice is used up while
something is expired. -/
theorem PrioRq.Counted.dequeue (counted : rq.Counted levelOf) (active : rq.active.Queued task)
    (right : ¬(entity.timeSlice = 0 ∧ 0 < rq.nrExpired)) :
    (prioDequeueTask task entity rq).Counted levelOf := by
  have total := counted.active.size_remove active
  have unexpired := Levels.remove_of_not_queued (counted.apart task active)
  have positive : 0 < rq.nrActive := by
    rw [counted.nrActive]
    omega
  simp only [prioDequeueTask, right, positive, if_false, if_true, unexpired]
  refine ⟨counted.active.remove task, counted.expired, fun other now => ?_, ?_, counted.nrExpired,
    ?_⟩
  · obtain ⟨level, member⟩ := now
    exact counted.apart other ⟨level, (counted.active.mem_remove.mp member).2⟩
  all_goals grind

theorem PrioRq.Counted.queued_dequeue (counted : rq.Counted levelOf) :
    (prioDequeueTask task entity rq).Queued other ↔ other ≠ task ∧ rq.Queued other := by
  have lists : (prioDequeueTask task entity rq).active = rq.active.remove task ∧
      (prioDequeueTask task entity rq).expired = rq.expired.remove task := by
    simp only [prioDequeueTask]
    grind
  simp only [PrioRq.Queued, lists.1, lists.2, Levels.Queued, counted.active.mem_remove,
    counted.expired.mem_remove, exists_and_left]
  exact and_or_left.symm

/-- A state in which the scheduler may switch to an active task. -/
@[grind] structure Scheduler.Switchable (levelOf : Task → Fin prioLevels) (sched : Scheduler Task)
    (task : Task) : Prop where
  counted : sched.rq.Counted levelOf
  level : ∀ other, prioLevel (sched.entity other).priority = levelOf other
  range : ∀ other, clampPrio (sched.entity other).priority = (sched.entity other).priority
  ready : ∀ other, sched.rq.Queued other → sched.state other = .ready
  active : sched.rq.active.Queued task
  right : ¬((sched.entity task).timeSlice = 0 ∧ 0 < sched.rq.nrExpired)

theorem resetTimeSlice_priority (sched : Scheduler Task) (task other : Task) :
    ((schedResetTimeSlice task sched).entity other).priority = (sched.entity other).priority := by
  simp only [schedResetTimeSlice]
  grind

theorem Scheduler.Switchable.switch (able : sched.Switchable levelOf task) :
    Scheduler.Invariant levelOf (schedResetTimeSlice task
      { schedDequeueTask task sched with
        state := Function.update (schedDequeueTask task sched).state task .running
        current := some task }) := by
  have counted := able.counted.dequeue able.active able.right
  refine ⟨counted, fun other => ?_, fun other => ?_, fun other queued => ?_, ?_⟩
  · rw [resetTimeSlice_priority]
    exact able.level other
  · rw [resetTimeSlice_priority]
    exact able.range other
  · obtain ⟨different, before⟩ := able.counted.queued_dequeue.mp queued
    simp only [schedResetTimeSlice, Function.update_of_ne different]
    exact able.ready other before
  · rintro _ ⟨⟩
    refine ⟨fun queued => (able.counted.queued_dequeue.mp queued).1 rfl, ?_⟩
    simp [schedResetTimeSlice]

theorem Scheduler.Invariant.requeue (inv : sched.Invariant levelOf) {prev : Task}
    (current : sched.current = some prev) (active : sched.rq.active.Queued task)
    (right : (sched.entity task).timeSlice = 0 → sched.rq.nrExpired = 0 ∧
      ¬(sched.state prev = .running ∧ (sched.entity prev).timeSlice = 0)) :
    (prioView.requeuePrev prev sched).Switchable levelOf task := by
  obtain ⟨absent, notReady⟩ := inv.current prev current
  -- Only a running task goes back to the queues.
  by_cases state : sched.state prev = .running
  case neg =>
    rw [SchedView.requeuePrev_stays state notReady]
    refine ⟨inv.counted, inv.level, inv.range, inv.ready, active, ?_⟩
    rintro ⟨used, more⟩
    have none := (right used).1
    omega
  case pos =>
    have unidle : prioView.idle sched ≠ some prev := Option.some_ne_none prev |>.symm
    rw [SchedView.requeuePrev_running unidle state (Function.update_self ..)]
    simp only [prioView, schedEnqueueTask]
    refine ⟨inv.counted.enqueue absent (inv.level prev) false, inv.level, inv.range,
      fun other queued => ?_, active_enqueue active, ?_⟩
    · by_cases same : other = prev
      · simp [same]
      · simp only [Function.update_of_ne same]
        exact inv.ready other ((queued_enqueue.mp queued).resolve_right same)
    · -- The expired counter grows only when the previous task has no time left.
      rintro ⟨used, more⟩
      obtain ⟨none, time⟩ := right used
      simp only [prioEnqueueTask] at more
      split at more
      · rename_i spent
        exact time ⟨state, spent⟩
      · simp only at more
        omega

theorem Scheduler.Invariant.schedule (inv : sched.Invariant levelOf)
    (safe : ¬sched.Miscounts) : (Ccos.schedule sched).Invariant levelOf := by
  have start : Scheduler.Invariant levelOf { sched with needResched := false } :=
    ⟨inv.counted, inv.level, inv.range, inv.ready, inv.current⟩
  simp only [Ccos.schedule]
  rcases start.pick with ⟨next, picked, which⟩ | ⟨task, after, picked, kept | ⟨switches, done⟩⟩
  · rw [picked, SchedView.schedule_stays which]
    exact start
  · rw [kept]
    have stays := @SchedView.schedule_stays _ _ _ prioView
      { sched with needResched := false, rq := after } sched.current (.inr rfl)
    exact stays.symm ▸ start.picked picked
  · rw [done]
    have inside := (picked.same task).mp (.inl picked.active)
    have other (prev : Task) (now : sched.current = some prev) : prev ≠ task := fun same =>
      (inv.current prev now).1 (same ▸ inside)
    -- A used-up task is switched to only when nothing is expired then.
    have right (used : (sched.entity task).timeSlice = 0) : after.nrExpired = 0 ∧
        ∀ prev, sched.current = some prev →
          ¬(sched.state prev = .running ∧ (sched.entity prev).timeSlice = 0) := by
      refine ⟨?_, fun prev current spent => safe ⟨task, picked.front, used, switches,
        .inr ⟨prev, current, spent.1, spent.2⟩⟩⟩
      rw [picked.counted.nrExpired, picked.swapped]
      split
      · assumption
      grind
    have middle := start.picked picked
    obtain current | ⟨prev, current⟩ := Option.eq_none_or_eq_some sched.current
    · rw [SchedView.schedule_first current]
      refine Scheduler.Switchable.switch ⟨middle.counted, middle.level, middle.range, middle.ready,
        picked.active, ?_⟩
      rintro ⟨used, more⟩
      have none := (right used).1
      simp only at more
      omega
    · have able := middle.requeue current picked.active fun used =>
        ⟨(right used).1, (right used).2 prev current⟩
      rw [SchedView.schedule_prev current (other prev current)]
      exact able.switch

/-- What the kernel does to the scheduler. -/
inductive SchedAction (Task : Type*)
  /-- A timer tick on the current task. -/
  | tick
  | schedule
  /-- The current task gives up its running state, as a wait does before it calls `schedule`. -/
  | block
  /-- A blocked task, or one just created, is made ready and queued. -/
  | wake (task : Task)

/-- One action; an action that its caller cannot take yields nothing. -/
def Scheduler.perform (sched : Scheduler Task) : SchedAction Task → Option (Scheduler Task)
  | .tick => match sched.current with
    | none => some sched
    | some task => some { sched with
        entity := Function.update sched.entity task (prioTaskTick (sched.entity task)) }
  | .schedule => some (Ccos.schedule sched)
  | .block => sched.current.map fun task =>
      { sched with state := Function.update sched.state task .blocked }
  | .wake task =>
    if sched.state task = .blocked then
      some (schedEnqueueTask task false
        { sched with state := Function.update sched.state task .ready })
    else none

@[grind =] def Scheduler.Step (before : Scheduler Task) (action : SchedAction Task)
    (after : Scheduler Task) : Prop :=
  before.perform action = some after

/-- The actions that keep the counters right: a switch that guesses the counter rightly, and a
wake of a task that has left the processor. -/
def Scheduler.Safe (sched : Scheduler Task) : SchedAction Task → Prop
  | .schedule => ¬sched.Miscounts
  | .wake task => sched.current ≠ some task
  | _ => True

/-- One action of a run that is safe where it is taken. -/
@[grind =] def Scheduler.SafeStep (before : Scheduler Task) (action : SchedAction Task)
    (after : Scheduler Task) : Prop :=
  before.Step action after ∧ before.Safe action

theorem Scheduler.Invariant.tick (inv : sched.Invariant levelOf) (task : Task) :
    Scheduler.Invariant levelOf { sched with
      entity := Function.update sched.entity task (prioTaskTick (sched.entity task)) } := by
  have priority (other : Task) : (Function.update sched.entity task
      (prioTaskTick (sched.entity task)) other).priority = (sched.entity other).priority := by
    by_cases same : other = task
    · simp [same, prioTaskTick_priority]
    · simp [same]
  refine ⟨inv.counted, fun other => ?_, fun other => ?_, inv.ready, inv.current⟩
  · rw [priority]
    exact inv.level other
  · rw [priority]
    exact inv.range other

theorem Scheduler.Invariant.block (inv : sched.Invariant levelOf)
    (current : sched.current = some task) :
    Scheduler.Invariant levelOf
      { sched with state := Function.update sched.state task .blocked } := by
  obtain ⟨absent, _⟩ := inv.current task current
  refine ⟨inv.counted, inv.level, inv.range, fun other queued => ?_, fun other now => ?_⟩
  · have different : other ≠ task := fun same => absent (same ▸ queued)
    simp only [Function.update_of_ne different]
    exact inv.ready other queued
  grind

/-- A blocked task is not queued, so that a wake queues it once. -/
theorem Scheduler.Invariant.wake (inv : sched.Invariant levelOf)
    (blocked : sched.state task = .blocked) (away : sched.current ≠ some task) :
    Scheduler.Invariant levelOf (schedEnqueueTask task false
      { sched with state := Function.update sched.state task .ready }) := by
  have absent : ¬sched.rq.Queued task := fun queued => by
    have := inv.ready task queued
    rw [blocked] at this
    cases this
  refine ⟨inv.counted.enqueue absent (inv.level task) false, inv.level, inv.range,
    fun other queued => ?_, fun other now => ?_⟩
  · by_cases same : other = task
    · simp [schedEnqueueTask, same]
    · simp only [schedEnqueueTask, Function.update_of_ne same]
      exact inv.ready other ((queued_enqueue.mp queued).resolve_right same)
  · have different : other ≠ task := fun same => away (same ▸ now)
    obtain ⟨outside, notReady⟩ := inv.current other now
    refine ⟨fun queued => outside ((queued_enqueue.mp queued).resolve_right different), ?_⟩
    simpa only [schedEnqueueTask, Function.update_of_ne different] using notReady

theorem Scheduler.Invariant.step {after : Scheduler Task} {action : SchedAction Task}
    (taken : sched.SafeStep action after) (inv : sched.Invariant levelOf) :
    after.Invariant levelOf := by
  obtain ⟨done, safe⟩ := taken
  cases action with
  | tick =>
    simp only [Scheduler.Step, Scheduler.perform] at done
    split at done
    · exact Option.some.inj done ▸ inv
    · rename_i task _
      exact Option.some.inj done ▸ inv.tick task
  | schedule => exact Option.some.inj done ▸ inv.schedule safe
  | block =>
    obtain ⟨task, current, rfl⟩ := Option.map_eq_some_iff.mp done
    exact inv.block current
  | wake task =>
    simp only [Scheduler.Step, Scheduler.perform, Option.ite_none_right_eq_some] at done
    exact Option.some.inj done.2 ▸ inv.wake done.1 safe

theorem priority_le_of_level_le {first second : Int} (range : clampPrio first = first)
    (other : clampPrio second = second) (le : prioLevel first ≤ prioLevel second) :
    first ≤ second := by
  have := clampPrio_range first
  have := clampPrio_range second
  simp only [prioLevel, Fin.mk_le_mk, range, other] at le
  omega

/-- In every state that safe actions reach, the counters are the total lengths of the queues, and
with a task queued the pick returns a queued task of the smallest priority number among the active
ones, after the swap when none was active. -/
theorem prio_runs_counted {start last : Scheduler Task} {actions : List (SchedAction Task)}
    (fresh : start.Fresh) (run : Run Scheduler.SafeStep start actions last) :
    last.rq.nrActive = last.rq.active.size ∧ last.rq.nrExpired = last.rq.expired.size ∧
    ((∃ task, last.rq.Queued task) → ∃ task after, prioPickNextTask last.rq = (some task, after) ∧
      after = (if last.rq.active.size = 0 then prioSwapActiveExpired last.rq else last.rq) ∧
      last.rq.Queued task ∧ after.active.Queued task ∧
      ∀ other, after.active.Queued other →
        (last.entity task).priority ≤ (last.entity other).priority) := by
  have inv := run.preserves _ (fun _ _ _ taken inv => Scheduler.Invariant.step taken inv)
    fresh.invariant
  refine ⟨inv.counted.nrActive, inv.counted.nrExpired, ?_⟩
  rintro ⟨some, queued⟩
  obtain ⟨task, after, picked⟩ := inv.counted.pick fun empty => by
    obtain ⟨active, expired⟩ := Nat.add_eq_zero_iff.mp empty
    rw [Levels.size_eq_zero_iff] at active expired
    rcases queued with ⟨level, member⟩ | ⟨level, member⟩
    · simp [active] at member
    · simp [expired] at member
  refine ⟨task, after, picked.returned, picked.swapped,
    (picked.same task).mp (.inl picked.active), picked.active, fun other active => ?_⟩
  refine priority_le_of_level_le (inv.range task) (inv.range other) ?_
  rw [inv.level, inv.level]
  exact picked.lowest other active

theorem lastLevel_lt : 127 < prioLevels := by decide

/-- Two new tasks of the default priority. -/
def twoTasks : Scheduler (Fin 2) where
  rq := ⟨fun _ => [], fun _ => [], 0, 0, ⟨127, lastLevel_lt⟩, false, 0⟩
  current := none
  entity := fun _ => prioTaskFork 0
  state := fun _ => .blocked
  runQueue := []
  nrRunning := 0
  needResched := false

theorem twoTasks_fresh : twoTasks.Fresh :=
  ⟨fun _ => rfl, fun _ => rfl, rfl, rfl, rfl, rfl, fun _ => ⟨0, rfl⟩⟩

/-- Both tasks are queued and the first one is switched to; the other is picked then. -/
theorem prio_runs_counted_switch :
    ∃ last, Run Scheduler.SafeStep twoTasks [.wake 0, .wake 1, .schedule] last ∧
      last.current = some 0 ∧ last.rq.nrActive = last.rq.active.size ∧
      ∃ task after, prioPickNextTask last.rq = (some task, after) ∧ last.rq.Queued task := by
  have run : Run Scheduler.SafeStep twoTasks [.wake 0, .wake 1, .schedule] _ :=
    .cons ⟨rfl, by simp [Scheduler.Safe, twoTasks]⟩ <|
    .cons ⟨rfl, by simp [Scheduler.Safe, schedEnqueueTask, twoTasks]⟩ <|
    .cons ⟨rfl, by
      -- Both tasks have their full time slice.
      rintro ⟨task, _, used, _⟩
      exact absurd used (by decide : (prioTaskFork 0).timeSlice ≠ 0)⟩ <| .nil _
  obtain ⟨active, _, pick⟩ := prio_runs_counted twoTasks_fresh run
  obtain ⟨task, after, returned, _, queued, _⟩ :=
    pick ⟨1, .inl ⟨⟨64, by decide⟩, by decide +kernel⟩⟩
  exact ⟨_, run, by decide +kernel, active, task, after, returned, queued⟩

/-- Both tasks are queued, and each of them uses up its time slice. -/
def twoSlices : List (SchedAction (Fin 2)) :=
  [.wake 0, .wake 1, .schedule] ++ List.replicate 20 .tick ++ [.schedule] ++
    List.replicate 20 .tick ++ [.schedule]

/-- After two used-up time slices the second task waits on the expired queues while both counters
say otherwise, and the pick returns nothing. -/
theorem prio_task_lost :
    ∃ actions last, twoTasks.Fresh ∧ Run Scheduler.Step twoTasks actions last ∧
      last.rq.expired.Queued 1 ∧ last.rq.nrExpired = 0 ∧ last.rq.expired.size = 1 ∧
      last.rq.nrActive = 1 ∧ last.rq.active.size = 0 ∧ (prioPickNextTask last.rq).1 = none := by
  obtain ⟨last, run, member, counters⟩ : ∃ last,
      Run (fun before action after => Scheduler.perform before action = some after) twoTasks
        twoSlices last ∧
      1 ∈ last.rq.expired ⟨64, by decide⟩ ∧ last.rq.nrExpired = 0 ∧ last.rq.expired.size = 1 ∧
      last.rq.nrActive = 1 ∧ last.rq.active.size = 0 ∧ (prioPickNextTask last.rq).1 = none :=
    Run.exists_of_any (by decide +kernel)
  exact ⟨twoSlices, last, twoTasks_fresh, run, ⟨_, member⟩, counters⟩

end Ccos
