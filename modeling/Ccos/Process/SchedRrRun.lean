import Ccos.Process.Pid
import Ccos.Process.SchedRr

/-! Runs in which tasks of the round-robin class are created, sleep, are woken and exit, and when
the two queues and their counters agree with the states of the tasks. -/

namespace Ccos.Rr

open Lib

/-- The scheduler and the tasks whose PCBs exist. -/
structure System (Task : Type*) where
  sched : Sched Task
  pcbs : List Task

/-- The calls a run is made of. -/
inductive SysCall (Task : Type*)
  | fork (child : Task)
  | kernelThread (thread : Task)
  | userThread (thread : Task)
  | schedule
  | tick
  -- The current task goes to sleep, and somebody wakes a task.
  | sleep
  | wake (task : Task)
  | exit
  -- The tasks that sleep on the join queue of the current thread are woken.
  | threadExit (detached : Bool) (joiners : List Task)

section Model

variable {Task : Type*} [DecidableEq Task]

def wakeTask (task : Task) (sched : Sched Task) : Sched Task :=
  schedEnqueueTask task false (setState task .ready sched)

/-- A new task is ready and queued; without a PID for it none is created. -/
def System.create (task : Task) (system : System Task) : Option (System Task) :=
  if task ∈ system.pcbs ∨ pidMax ≤ system.pcbs.length + 1 then none
  else
    some ⟨wakeTask task { system.sched with
      entity := Function.update system.sched.entity task rrTaskFork }, system.pcbs ++ [task]⟩

/-- `schedule` called by a task that must not come back. -/
def scheduleForever (task : Task) (sched : Sched Task) : Option (Sched Task) :=
  let sched := schedule sched
  if sched.current = some task then none else some sched

/-- The current task becomes a zombie and one is taken off the counter of queued tasks. -/
def procExit (task : Task) (system : System Task) : Option (System Task) := do
  let sched := setState task .zombie system.sched
  let sched ← scheduleForever task
    { sched with runQueue := sched.runQueue.erase task, nrRunning := sched.nrRunning - 1 }
  some { system with sched }

/-- The current thread becomes a zombie; it wakes those who join it, or its PCB is freed. -/
def procThreadExit (task : Task) (detached : Bool) (joiners : List Task) (system : System Task) :
    Option (System Task) := do
  let sched := setState task .zombie system.sched
  if detached then
    -- The freed PCB still reads as a zombie when `schedule` looks at it.
    let sched ← scheduleForever task sched
    some ⟨sched, system.pcbs.erase task⟩
  else if joiners.Nodup ∧ ∀ joiner ∈ joiners, joiner ∈ system.pcbs ∧
      sched.state joiner = .blocked then
    let sched ← scheduleForever task (joiners.foldl (fun sched joiner => wakeTask joiner sched) sched)
    some { system with sched }
  else none

def System.perform (system : System Task) : SysCall Task → Option (System Task)
  | .fork child => if system.sched.current = none then none else system.create child
  | .kernelThread thread => system.create thread
  | .userThread thread => if system.sched.current = none then none else system.create thread
  | .schedule => some { system with sched := schedule system.sched }
  | .tick => some { system with sched := schedTimerTick system.sched }
  | .sleep => do
    let task ← system.sched.current
    some { system with sched := schedule (setState task .blocked system.sched) }
  | .wake task =>
    if task ∈ system.pcbs ∧ system.sched.state task = .blocked then
      some { system with sched := wakeTask task system.sched }
    else none
  | .exit => do
    let task ← system.sched.current
    procExit task system
  | .threadExit detached joiners => do
    let task ← system.sched.current
    procThreadExit task detached joiners system

def procInit (state : Task → ProcState) (entity : Task → SchedEntity) : System Task :=
  ⟨⟨⟨[], 0⟩, [], 0, none, none, state, entity, false⟩, []⟩

/-- A process exits only when at most one task is queued, and a wake-up is not for the current
task. -/
def Careful (system : System Task) : SysCall Task → Prop
  | .exit => system.sched.runQueue.length ≤ 1
  | .wake task => system.sched.current ≠ some task
  | _ => True

instance (system : System Task) (call : SysCall Task) : Decidable (Careful system call) := by
  unfold Careful
  cases call <;> infer_instance

end Model

/-- The queues hold the ready tasks, each once, and the class counts them. -/
@[grind] structure Queued {Task : Type*} (sched : Sched Task) (pcbs : List Task) : Prop where
  same : sched.runQueue = sched.rq.queue
  distinct : sched.rq.queue.Nodup
  ready : ∀ task, task ∈ sched.rq.queue ↔ task ∈ pcbs ∧ sched.state task = .ready
  counted : sched.rq.nrRunning.toNat = sched.rq.queue.length
  few : pcbs.length < pidMax
  unidle : sched.idle = none

/-- The queues are right, the common counter counts them, and the current task is not ready. -/
@[grind] structure Balanced {Task : Type*} (system : System Task) : Prop where
  queued : Queued system.sched system.pcbs
  total : system.sched.nrRunning.toNat = system.sched.runQueue.length
  current : ∀ task, system.sched.current = some task →
    task ∈ system.pcbs ∧ system.sched.state task ≠ .ready
  single : system.pcbs.Nodup

/-- What a call of `schedule` does to the counter and the length of the common run queue. -/
inductive Outcome {Task : Type*} (before after : Sched Task) : Prop
  | stays (current : after.current = before.current) (counter : after.nrRunning = before.nrRunning)
      (queue : after.runQueue = before.runQueue)
  | swaps {prev : Task} (current : before.current = some prev)
      (running : before.state prev = .running)
      (counter : after.nrRunning = if 0 < before.nrRunning + 1 then before.nrRunning + 1 - 1
        else before.nrRunning + 1)
      (length : after.runQueue.length = before.runQueue.length)
  | leaves
      (counter : after.nrRunning = if 0 < before.nrRunning then before.nrRunning - 1
        else before.nrRunning)
      (length : after.runQueue.length + 1 = before.runQueue.length)

/-- What a call of `schedule` keeps and does. -/
@[grind]
structure Scheduled {Task : Type*} (before after : Sched Task) (pcbs : List Task) : Prop where
  queued : Queued after pcbs
  current : ∀ task, after.current = some task → task ∈ pcbs ∧ after.state task ≠ .ready
  zombies : ∀ task, before.state task = .zombie → after.state task = .zombie
  outcome : Outcome before after

section Invariant

variable {Task : Type*} {sched : Sched Task} {pcbs : List Task} {task : Task}

theorem Queued.length_le (queued : Queued sched pcbs) : sched.rq.queue.length ≤ pcbs.length :=
  (queued.distinct.subperm fun task member => ((queued.ready task).mp member).1).length_le

variable {next : Task}

theorem pick_mem (picked : schedPickNextTask sched = some next) :
    sched.current = some next ∨ next ∈ sched.rq.queue := by
  -- The current task is picked again only while it runs and has time left.
  have first (found : (if 0 < sched.rq.nrRunning then rrPickNextTask sched.rq else none) =
      some next) : next ∈ sched.rq.queue := by
    split at found
    · exact List.mem_of_head? found
    · cases found
  unfold schedPickNextTask at picked
  grind

variable {system : System Task}

theorem Balanced.counter_small (balanced : Balanced system) :
    system.sched.nrRunning.toNat + 1 < 2 ^ 32 := by
  -- The queue holds tasks with a PCB, and there are fewer of those than PIDs.
  have length := balanced.queued.length_le
  have few := balanced.queued.few
  rw [balanced.total, balanced.queued.same]
  unfold pidMax at few
  omega

theorem Balanced.total_schedule (balanced : Balanced system)
    (outcome : Outcome system.sched sched) : sched.nrRunning.toNat = sched.runQueue.length := by
  -- The counter is decremented only when it is positive, as it is where a task leaves.
  have small := balanced.counter_small
  have total := balanced.total
  cases outcome with
  | stays current counter queue => rw [counter, queue, total]
  | swaps current running counter length =>
    have grown := toNat_add_one small
    have positive : 0 < system.sched.nrRunning + 1 := by
      rw [UInt32.lt_iff_toNat_lt, grown]
      exact Nat.succ_pos _
    rw [counter, if_pos positive, length, UInt32.add_sub_cancel, total]
  | leaves counter length =>
    have positive : 0 < system.sched.nrRunning := by
      rw [UInt32.lt_iff_toNat_lt, total, ← length]
      exact Nat.succ_pos _
    rw [counter, if_pos positive, toNat_sub_one (UInt32.lt_iff_toNat_lt.mp positive), total,
      ← length]
    rfl

theorem Queued.entity (queued : Queued sched pcbs) (entity : Task → SchedEntity) :
    Queued { sched with entity } pcbs :=
  ⟨queued.same, queued.distinct, queued.ready, queued.counted, queued.few, queued.unidle⟩

variable {after : Sched Task}

theorem Scheduled.of_cleared
    (scheduled : Scheduled { sched with needResched := false } after pcbs) :
    Scheduled sched after pcbs := by
  obtain ⟨queued, current, zombies, outcome⟩ := scheduled
  refine ⟨queued, current, zombies, ?_⟩
  cases outcome with
  | stays current counter queue => exact .stays current counter queue
  | swaps current running counter length => exact .swaps current running counter length
  | leaves counter length => exact .leaves counter length

variable [DecidableEq Task]

theorem Queued.setState (queued : Queued sched pcbs) {state : ProcState}
    (before : sched.state task ≠ .ready) (after : state ≠ .ready) :
    Queued (setState task state sched) pcbs := by
  -- The task was not queued and is not queued afterwards.
  obtain ⟨same, distinct, ready, counted, few, unidle⟩ := queued
  refine ⟨same, distinct, fun other => ?_, counted, few, unidle⟩
  by_cases equal : other = task
  · subst equal
    simpa [Rr.setState, after, before] using ready other
  · simpa [Rr.setState, equal] using ready other

theorem Queued.enqueue (queued : Queued sched pcbs) {pcbs' : List Task}
    (absent : task ∉ sched.rq.queue) (present : task ∈ pcbs')
    (others : ∀ other, other ≠ task → (other ∈ pcbs' ↔ other ∈ pcbs))
    (few : pcbs'.length < pidMax) : Queued (wakeTask task sched) pcbs' := by
  -- The task is appended to both queues and to the tasks that are ready.
  have distinct : (sched.rq.queue ++ [task]).Nodup :=
    (List.perm_append_singleton task _).nodup_iff.mpr (List.nodup_cons.mpr ⟨absent, queued.distinct⟩)
  have ready (other : Task) : other ∈ sched.rq.queue ++ [task] ↔
      other ∈ pcbs' ∧ Function.update sched.state task .ready other = .ready := by
    grind
  -- The longer queue still holds only tasks with a PCB, so the counter does not overflow.
  have room : (sched.rq.queue ++ [task]).length ≤ pcbs'.length :=
    (distinct.subperm fun other member => ((ready other).mp member).1).length_le
  have counted : (sched.rq.nrRunning + 1).toNat = (sched.rq.queue ++ [task]).length := by
    rw [List.length_append, List.length_singleton] at room ⊢
    rw [toNat_add_one (by rw [queued.counted]; unfold pidMax at few; omega), queued.counted]
  exact ⟨congrArg (· ++ [task]) queued.same, distinct, ready, counted, few, queued.unidle⟩

theorem Queued.wakeTask (queued : Queued sched pcbs) (present : task ∈ pcbs)
    (unready : sched.state task ≠ .ready) : Queued (wakeTask task sched) pcbs :=
  queued.enqueue (fun member => unready ((queued.ready task).mp member).2) present
    (fun _ _ => Iff.rfl) queued.few

theorem Queued.switchTo (queued : Queued sched pcbs) (member : task ∈ sched.rq.queue) :
    Queued (rrView.switchTo task sched) pcbs := by
  -- The task leaves both queues and is running, so it is not ready any more.
  have plain : ¬sched.idle = some task := by simp [queued.unidle]
  rw [SchedView.switchTo_queued plain]
  refine ⟨congrArg (·.erase task) queued.same, queued.distinct.erase task, fun other => ?_, ?_,
    queued.few, queued.unidle⟩
  · have off := queued.distinct.mem_erase_iff (a := other) (b := task)
    by_cases equal : other = task
    · subst equal
      simp [rrView, schedResetTimeSlice, Rr.setState, schedDequeueTask, rrDequeueTask, off]
    · simp [rrView, schedResetTimeSlice, Rr.setState, schedDequeueTask, rrDequeueTask, off, equal,
        queued.ready]
  · have positive := List.length_pos_of_mem member
    change (sched.rq.nrRunning - 1).toNat = (sched.rq.queue.erase task).length
    rw [toNat_sub_one (by rw [queued.counted]; exact positive), queued.counted,
      List.length_erase_of_mem member]

theorem switchTo_state (sched : Sched Task) {other : Task} (apart : other ≠ next) :
    (rrView.switchTo next sched).state other = sched.state other := by
  by_cases idle : sched.idle = some next
  · simp [SchedView.switchTo, rrView, schedResetTimeSlice, Rr.setState, apart, idle]
  · simp [SchedView.switchTo, rrView, schedResetTimeSlice, Rr.setState, apart, idle,
      schedDequeueTask]

theorem Queued.switchTo_counts (queued : Queued sched pcbs) (member : task ∈ sched.rq.queue) :
    (rrView.switchTo task sched).nrRunning =
        (if 0 < sched.nrRunning then sched.nrRunning - 1 else sched.nrRunning) ∧
      (rrView.switchTo task sched).runQueue.length + 1 = sched.runQueue.length := by
  -- The counter is decremented only when it is positive.
  have plain : ¬sched.idle = some task := by simp [queued.unidle]
  rw [← queued.same] at member
  rw [SchedView.switchTo_queued plain]
  refine ⟨rfl, ?_⟩
  change (sched.runQueue.erase task).length + 1 = _
  grind

theorem Queued.leave (queued : Queued sched pcbs) (member : next ∈ sched.rq.queue) :
    Scheduled sched (rrView.switchTo next sched) pcbs := by
  -- The queue gets shorter by the task, which was ready and so is no zombie.
  obtain ⟨present, ready⟩ := (queued.ready next).mp member
  obtain ⟨counter, length⟩ := queued.switchTo_counts member
  refine ⟨queued.switchTo member, fun task now => ?_, fun task dead => ?_,
    .leaves counter length⟩
  · obtain rfl := Option.some.inj (now : some next = some task)
    refine ⟨present, ?_⟩
    simp [SchedView.switchTo, rrView, schedResetTimeSlice, Rr.setState]
  have alive : task ≠ next := fun same => by
    rw [same, ready] at dead
    cases dead
  exact (switchTo_state _ alive).trans dead

theorem Queued.swap (queued : Queued sched pcbs) {prev : Task} (now : sched.current = some prev)
    (existing : prev ∈ pcbs) (running : sched.state prev = .running)
    (member : next ∈ sched.rq.queue) :
    Scheduled sched (rrView.switchTo next (Rr.wakeTask prev sched)) pcbs := by
  -- The previous task joins the queue before the next one leaves it.
  have joined : Queued (Rr.wakeTask prev sched) pcbs :=
    queued.wakeTask existing (by rw [running]; decide)
  obtain ⟨shorter, current, zombies, -⟩ := joined.leave (List.mem_append_left [prev] member)
  obtain ⟨counter, length⟩ := joined.switchTo_counts (List.mem_append_left [prev] member)
  refine ⟨shorter, current, fun task dead => zombies task ?_, .swaps now running counter ?_⟩
  · have apart : task ≠ prev := fun same => by
      rw [same, running] at dead
      cases dead
    simpa [Rr.wakeTask, schedEnqueueTask, Rr.setState, apart] using dead
  · simpa [Rr.wakeTask, schedEnqueueTask, Rr.setState] using length

theorem Queued.schedule (queued : Queued sched pcbs)
    (current : ∀ task, sched.current = some task → task ∈ pcbs ∧ sched.state task ≠ .ready) :
    Scheduled sched (schedule sched) pcbs := by
  -- It returns at once, or it switches and does something to the previous task before that.
  have cleared : Queued { sched with needResched := false } pcbs :=
    ⟨queued.same, queued.distinct, queued.ready, queued.counted, queued.few, queued.unidle⟩
  have returns : Scheduled sched { sched with needResched := false } pcbs :=
    ⟨cleared, current, fun _ => id, .stays rfl rfl rfl⟩
  cases picked : schedPickNextTask sched with
  | none =>
    have idle : (schedPickNextTask sched).or sched.idle = none := by simp [picked, queued.unidle]
    change Scheduled sched (rrView.schedule ((schedPickNextTask sched).or sched.idle) _) pcbs
    rw [idle]
    exact returns
  | some next =>
    rw [schedule_of_picked picked]
    by_cases here : sched.current = some next
    · rw [SchedView.schedule_stays (.inr here.symm)]
      exact returns
    · have member : next ∈ sched.rq.queue := (pick_mem picked).resolve_left here
      obtain now | ⟨prev, now⟩ := Option.eq_none_or_eq_some sched.current
      · rw [SchedView.schedule_first now]
        exact (cleared.leave member).of_cleared
      · rw [SchedView.schedule_prev now fun same => here (by rw [now, same])]
        obtain ⟨existing, unready⟩ := current prev now
        have awake : ¬sched.idle = some prev := by simp [queued.unidle]
        by_cases running : sched.state prev = .running
        · rw [SchedView.requeuePrev_running awake running (Function.update_self ..)]
          exact (cleared.swap now existing running member).of_cleared
        · -- A blocked or dead task stays off the queue.
          rw [SchedView.requeuePrev_stays running unready]
          exact (cleared.leave member).of_cleared

theorem scheduleForever_eq_some (done : scheduleForever task sched = some after) :
    after = Rr.schedule sched ∧ (Rr.schedule sched).current ≠ some task := by
  simp only [scheduleForever] at done
  grind

namespace Balanced

variable {system after : System Task}

section

variable (balanced : Balanced system)
include balanced

theorem schedule :
    Balanced { system with sched := schedule system.sched } := by
  have scheduled := balanced.queued.schedule balanced.current
  exact ⟨scheduled.queued, balanced.total_schedule scheduled.outcome, scheduled.current,
    balanced.single⟩

theorem setState {state : ProcState} (now : system.sched.current = some task)
    (unready : state ≠ .ready) :
    Balanced { system with sched := setState task state system.sched } := by
  -- The current task is not queued, so only its own state matters.
  have before := (balanced.current task now).2
  refine ⟨balanced.queued.setState before unready, balanced.total, fun other here => ?_,
    balanced.single⟩
  obtain rfl : task = other := Option.some.inj (now.symm.trans here)
  exact ⟨(balanced.current task now).1, by simpa [Rr.setState] using unready⟩

theorem wakeTask {pcbs : List Task} {entity : Task → SchedEntity}
    (queued : Queued (wakeTask task { system.sched with entity }) pcbs)
    (other : system.sched.current ≠ some task) (kept : ∀ task ∈ system.pcbs, task ∈ pcbs)
    (single : pcbs.Nodup) : Balanced ⟨wakeTask task { system.sched with entity }, pcbs⟩ := by
  refine ⟨queued, ?_, fun current now => ?_, single⟩
  · change (system.sched.nrRunning + 1).toNat = (system.sched.runQueue ++ [task]).length
    rw [toNat_add_one balanced.counter_small, balanced.total, List.length_append,
      List.length_singleton]
  · have apart : current ≠ task := fun same => other (same ▸ now)
    obtain ⟨present, unready⟩ := balanced.current current now
    exact ⟨kept current present, by simpa [Rr.wakeTask, schedEnqueueTask, Rr.setState, apart]
      using unready⟩

theorem create (done : system.create task = some after) : Balanced after := by
  -- A new task goes through the same steps as one that is woken.
  simp only [System.create] at done
  split at done <;> cases done
  rename_i free
  obtain ⟨fresh, few⟩ := not_or.mp free
  -- A task without a PCB is neither queued nor current.
  have absent : task ∉ system.sched.rq.queue := fun member =>
    fresh ((balanced.queued.ready task).mp member).1
  have few : (system.pcbs ++ [task]).length < pidMax := by
    rw [List.length_append, List.length_singleton]
    omega
  have others (other : Task) (apart : other ≠ task) :
      other ∈ system.pcbs ++ [task] ↔ other ∈ system.pcbs := by
    simp [apart]
  exact balanced.wakeTask ((balanced.queued.entity _).enqueue absent (by simp) others few)
    (fun now => fresh (balanced.current task now).1) (fun _ => List.mem_append_left _)
    ((List.perm_append_singleton task _).nodup_iff.mpr
      (List.nodup_cons.mpr ⟨fresh, balanced.single⟩))

variable {joiners : List Task}

theorem wakeAll (distinct : joiners.Nodup)
    (asleep : ∀ joiner ∈ joiners, joiner ∈ system.pcbs ∧ system.sched.state joiner = .blocked)
    (others : ∀ joiner ∈ joiners, system.sched.current ≠ some joiner) :
    Balanced { system with
      sched := joiners.foldl (fun sched joiner => Rr.wakeTask joiner sched) system.sched } := by
  -- A joiner that has not been woken yet is still blocked.
  induction joiners generalizing system with
  | nil => exact balanced
  | cons first rest ih =>
    obtain ⟨absent, distinct⟩ := List.nodup_cons.mp distinct
    obtain ⟨present, blocked⟩ := asleep first List.mem_cons_self
    have woken : Balanced { system with sched := Rr.wakeTask first system.sched } :=
      balanced.wakeTask (balanced.queued.wakeTask present (by rw [blocked]; decide))
        (others first List.mem_cons_self) (fun _ => id) balanced.single
    refine ih woken distinct (fun joiner member => ?_) fun joiner member =>
      others joiner (List.mem_cons_of_mem _ member)
    have apart : joiner ≠ first := fun same => absent (same ▸ member)
    obtain ⟨present, blocked⟩ := asleep joiner (List.mem_cons_of_mem _ member)
    exact ⟨present, by simpa [Rr.wakeTask, schedEnqueueTask, Rr.setState, apart] using blocked⟩

theorem exit (now : system.sched.current = some task)
    (careful : system.sched.runQueue.length ≤ 1) (done : procExit task system = some after) :
    Balanced after := by
  -- The counter is decremented by the exit and again by `schedule`.
  simp only [procExit, Option.bind_eq_bind, Option.bind_eq_some_iff] at done
  obtain ⟨sched, switched, done⟩ := done
  cases done
  obtain ⟨rfl, away⟩ := scheduleForever_eq_some switched
  have dead : Balanced { system with sched := Rr.setState task .zombie system.sched } :=
    balanced.setState now (by decide)
  -- The exiting task is not queued, so taking it off the run queue does nothing.
  have absent : task ∉ system.sched.runQueue := by
    grind
  have queued : Queued { Rr.setState task .zombie system.sched with
      runQueue := (Rr.setState task .zombie system.sched).runQueue.erase task
      nrRunning := (Rr.setState task .zombie system.sched).nrRunning - 1 } system.pcbs := by
    obtain ⟨same, distinct, ready, counted, few, unidle⟩ := dead.queued
    exact ⟨(List.erase_of_not_mem absent).trans same, distinct, ready, counted, few, unidle⟩
  have scheduled := queued.schedule dead.current
  refine ⟨scheduled.queued, ?_, scheduled.current, balanced.single⟩
  cases scheduled.outcome with
  | stays current counter queue => exact absurd (current.trans now) away
  | swaps current running counter length =>
    obtain rfl := Option.some.inj (now.symm.trans current)
    simp [Rr.setState] at running
  | leaves counter length =>
    -- The only queued task is taken off twice, and the second time the counter is 0 already.
    have before : system.sched.nrRunning.toNat = 1 := by
      have total := balanced.total
      simp only [Rr.setState, List.erase_of_not_mem absent] at length
      omega
    have zero : system.sched.nrRunning - 1 = 0 :=
      UInt32.toNat_inj.mp (by rw [toNat_sub_one (by omega), before]; rfl)
    simp only [Rr.setState, List.erase_of_not_mem absent, zero] at counter length ⊢
    rw [counter, if_neg (by decide), UInt32.toNat_zero]
    omega

theorem reap (zombie : system.sched.state task = .zombie)
    (away : system.sched.current ≠ some task) :
    Balanced { system with pcbs := system.pcbs.erase task } := by
  -- A zombie is on no queue and is not the current task.
  obtain ⟨⟨same, distinct, ready, counted, few, unidle⟩, total, current, single⟩ := balanced
  grind

theorem threadExit {detached : Bool} (now : system.sched.current = some task)
    (done : procThreadExit task detached joiners system = some after) : Balanced after := by
  -- The thread is a zombie before it is switched away from.
  have dead : Balanced { system with sched := Rr.setState task .zombie system.sched } :=
    balanced.setState now (by decide)
  simp only [procThreadExit] at done
  cases detached with
  | true =>
    simp only [if_true, Option.bind_eq_bind, Option.bind_eq_some_iff] at done
    obtain ⟨sched, switched, done⟩ := done
    cases done
    obtain ⟨rfl, away⟩ := scheduleForever_eq_some switched
    have scheduled := dead.queued.schedule dead.current
    exact dead.schedule.reap (scheduled.zombies task (by simp [Rr.setState])) away
  | false =>
    simp only [Bool.false_eq_true, if_false] at done
    split at done
    · rename_i asleep
      simp only [Option.bind_eq_bind, Option.bind_eq_some_iff] at done
      obtain ⟨sched, switched, done⟩ := done
      cases done
      obtain ⟨rfl, -⟩ := scheduleForever_eq_some switched
      refine (dead.wakeAll asleep.1 asleep.2 fun joiner member here => ?_).schedule
      -- The exiting thread is a zombie and does not join itself.
      obtain rfl := Option.some.inj (now.symm.trans here)
      have blocked := (asleep.2 task member).2
      simp [Rr.setState] at blocked
    · cases done

theorem perform {call : SysCall Task} (careful : Careful system call)
    (done : system.perform call = some after) : Balanced after := by
  -- One case for each call.
  cases call with
  | fork child | userThread child =>
    simp only [System.perform] at done
    split at done
    · cases done
    · exact balanced.create done
  | kernelThread thread => exact balanced.create done
  | schedule =>
    cases done
    exact balanced.schedule
  | tick =>
    cases done
    unfold schedTimerTick
    split
    all_goals grind
  | sleep =>
    simp only [System.perform, Option.bind_eq_bind, Option.bind_eq_some_iff] at done
    obtain ⟨task, now, done⟩ := done
    cases done
    exact (balanced.setState now (by decide)).schedule
  | wake task =>
    simp only [System.perform] at done
    split at done <;> cases done
    rename_i asleep
    exact balanced.wakeTask (balanced.queued.wakeTask asleep.1 (by rw [asleep.2]; decide)) careful
      (fun _ => id) balanced.single
  | exit =>
    simp only [System.perform, Option.bind_eq_bind, Option.bind_eq_some_iff] at done
    obtain ⟨task, now, done⟩ := done
    exact balanced.exit now careful done
  | threadExit detached joiners =>
    simp only [System.perform, Option.bind_eq_bind, Option.bind_eq_some_iff] at done
    obtain ⟨task, now, done⟩ := done
    exact balanced.threadExit now done

end

end Balanced

end Invariant

theorem Balanced.start {Task : Type*} (state : Task → ProcState) (entity : Task → SchedEntity) :
    Balanced (procInit state entity) :=
  ⟨⟨rfl, List.nodup_nil, fun _ => by simp [procInit], rfl, by simp [procInit, pidMax], rfl⟩, rfl,
    fun _ => nofun, List.nodup_nil⟩

/-- As long as a process exits only when at most one task is queued, and no wake-up is for the
current task, the queues hold each ready task once and no other one, and the counters are the
lengths of the queues. -/
theorem rr_runs_counted {Task : Type*} [DecidableEq Task] {state : Task → ProcState}
    {entity : Task → SchedEntity} {calls : List (SysCall Task)} {last : System Task}
    (run : Run (fun before call after => Careful before call ∧ before.perform call = some after)
      (procInit state entity) calls last) :
    (∀ task ∈ last.pcbs, last.sched.state task = .ready →
      last.sched.rq.queue.count task = 1 ∧ last.sched.runQueue.count task = 1) ∧
    (∀ task, last.sched.current = some task ∨ last.sched.state task = .blocked ∨
      last.sched.state task = .zombie →
      task ∉ last.sched.rq.queue ∧ task ∉ last.sched.runQueue) ∧
    last.sched.rq.nrRunning.toNat = last.sched.rq.queue.length ∧
    last.sched.nrRunning.toNat = last.sched.runQueue.length := by
  -- The invariant at the end of the run says all of it.
  have balanced := run.preserves Balanced (fun _ _ _ taken inv => inv.perform taken.1 taken.2)
    (Balanced.start state entity)
  grind

/-- Three kernel threads, of which the first runs. -/
def startThree {Task : Type} (a b c : Task) : List (SysCall Task) :=
  [.kernelThread a, .kernelThread b, .kernelThread c, .schedule]

/-- One thread sleeps and another exits while one is queued. -/
theorem rr_runs_counted_exit :
    ∃ last, Run (fun before call after => Careful before call ∧
        before.perform call = some after)
        (procInit (fun _ => .ready) fun _ => rrTaskFork)
        (startThree (0 : Fin 3) 1 2 ++ [.sleep, .exit]) last ∧
      last.sched.current = some 2 ∧ last.sched.nrRunning.toNat = last.sched.runQueue.length := by
  refine Run.exists_by_if (·.sched.current = some 2) (by decide +kernel) fun last run now => ?_
  exact ⟨now, (rr_runs_counted run).2.2.2⟩

/-- An exit while two tasks are queued takes the counter below the length of the run queue. -/
theorem rr_exit_miscounted :
    ∃ last, Run (fun before call after => before.perform call = some after)
        (procInit (fun _ => .ready) fun _ => rrTaskFork) (startThree (0 : Fin 3) 1 2 ++ [.exit]) last ∧
      last.sched.runQueue = [2] ∧ last.sched.nrRunning = 0 :=
  Run.exists_of_any (by decide +kernel)

end Ccos.Rr
