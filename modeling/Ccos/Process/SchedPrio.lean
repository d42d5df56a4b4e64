import Ccos.Lib.Levels
import Ccos.Process.Schedule

/-! The priority scheduling class of `process/sched_prio.c` and the scheduler of `process/sched.c`
and `process/process.c` that drives it. The counters are natural numbers, since fewer than 2^32
tasks exist. -/

namespace Ccos

open Lib

def prioLevels : Nat := 128

def prioMax : Int := 0

def prioMin : Int := 127

/-- Priority of a task without a nice value. -/
def prioDefault : Int := 64

def prioTimeslice (prio : Int) : Nat :=
  if prio = 0 then 100 else if prio < 64 then 50 else 20

structure SchedEntity where
  timeSlice : Nat
  timeSliceTotal : Nat
  priority : Int
  nice : Int

structure PrioRq (Task : Type*) where
  active : Levels prioLevels Task
  expired : Levels prioLevels Task
  nrActive : Nat
  nrExpired : Nat
  highestPrio : Fin prioLevels
  activeExpired : Bool
  nrRunning : Nat

/-- The scheduler with its tasks; there is no idle task. -/
structure Scheduler (Task : Type*) where
  rq : PrioRq Task
  current : Option Task
  entity : Task → SchedEntity
  state : Task → ProcState
  runQueue : List Task
  nrRunning : Nat
  needResched : Bool

/-- Keep a priority inside the range of the levels. -/
def clampPrio (prio : Int) : Int :=
  if prio < prioMax then prioMax else if prioMin < prio then prioMin else prio

theorem clampPrio_range (prio : Int) : 0 ≤ clampPrio prio ∧ clampPrio prio ≤ 127 := by
  unfold clampPrio prioMax prioMin
  split
  · omega
  · split <;> omega

theorem clampPrio_idem (prio : Int) : clampPrio (clampPrio prio) = clampPrio prio := by
  have := clampPrio_range prio
  rw [clampPrio, if_neg (by unfold prioMax; omega), if_neg (by unfold prioMin; omega)]

def prioLevel (prio : Int) : Fin prioLevels :=
  ⟨(clampPrio prio).toNat, by
    have := clampPrio_range prio
    simp only [prioLevels]
    omega⟩

def prioTaskFork (nice : Int) : SchedEntity :=
  let priority := clampPrio (if nice < 0 then prioDefault + nice else prioDefault)
  ⟨prioTimeslice priority, prioTimeslice priority, priority, nice⟩

variable {Task : Type*}

/-- The lowest non-empty active level, or the last level when all are empty. -/
def findHighestPrio (active : Levels prioLevels Task) : Fin prioLevels :=
  active.firstLevel?.getD ⟨127, by decide⟩

/-- Swap the active and the expired queues with their counters. -/
def prioSwapActiveExpired (rq : PrioRq Task) : PrioRq Task :=
  { rq with
    active := rq.expired
    expired := rq.active
    nrActive := rq.nrExpired
    nrExpired := rq.nrActive
    highestPrio := findHighestPrio rq.expired
    activeExpired := false }

/-- Queue a task, on the expired queues when its time slice is used up. -/
def prioEnqueueTask (task : Task) (entity : SchedEntity) (head : Bool) (rq : PrioRq Task) :
    PrioRq Task :=
  let prio := prioLevel entity.priority
  if entity.timeSlice = 0 then
    { rq with
      expired := rq.expired.push prio task head
      nrExpired := rq.nrExpired + 1
      nrRunning := rq.nrRunning + 1 }
  else
    { rq with
      active := rq.active.push prio task head
      nrActive := rq.nrActive + 1
      highestPrio := if prio < rq.highestPrio then prio else rq.highestPrio
      nrRunning := rq.nrRunning + 1 }

/-- Pick the first task of the highest active priority, after a swap if none is active. -/
def prioPickNextTask (rq : PrioRq Task) : Option Task × PrioRq Task :=
  if rq.nrActive = 0 then
    if 0 < rq.nrExpired then
      let rq := prioSwapActiveExpired rq
      ((rq.active (findHighestPrio rq.active)).head?, rq)
    else (none, rq)
  else ((rq.active (findHighestPrio rq.active)).head?, rq)

/-- Whether a task may take the processor from the current one. -/
def prioShouldPreempt (entity curr : SchedEntity) : Bool :=
  if entity.priority < curr.priority then true
  else if entity.priority = curr.priority then curr.timeSlice = 0
  else false

def prioTaskTick (entity : SchedEntity) : SchedEntity :=
  if 0 < entity.timeSlice then { entity with timeSlice := entity.timeSlice - 1 } else entity

theorem prioTaskTick_priority (entity : SchedEntity) :
    (prioTaskTick entity).priority = entity.priority := by
  unfold prioTaskTick
  split <;> rfl

/-- Queue a task in its class and on the common run queue. -/
def schedEnqueueTask (task : Task) (head : Bool) (sched : Scheduler Task) : Scheduler Task :=
  { sched with
    rq := prioEnqueueTask task (sched.entity task) head sched.rq
    nrRunning := sched.nrRunning + 1
    runQueue := sched.runQueue ++ [task] }

/-- Pick the next task: keep a running task that has time left unless a queued one preempts it. -/
def schedPickNextTask (sched : Scheduler Task) : Option Task × Scheduler Task :=
  let fromQueue : Option Task × Scheduler Task :=
    -- No task of the round-robin class exists, so its queue is empty.
    if 0 < sched.rq.nrRunning then
      let (next, rq) := prioPickNextTask sched.rq
      (next, { sched with rq := rq })
    else (none, sched)
  match sched.current with
  | none => fromQueue
  | some prev =>
    if sched.state prev = .running ∧ 0 < (sched.entity prev).timeSlice then
      if 0 < sched.rq.nrRunning then
        let (candidate, rq) := prioPickNextTask sched.rq
        match candidate with
        | some task =>
          if prioShouldPreempt (sched.entity task) (sched.entity prev) then
            (some task, { sched with rq := rq })
          else (some prev, { sched with rq := rq })
        | none => (some prev, { sched with rq := rq })
      else (some prev, sched)
    else fromQueue

variable [DecidableEq Task]

/-- Unlink a task, and guess from its time slice which counter it belonged to. -/
def prioDequeueTask (task : Task) (entity : SchedEntity) (rq : PrioRq Task) : PrioRq Task :=
  let unlinked := { rq with
    active := rq.active.remove task
    expired := rq.expired.remove task }
  let counted :=
    if entity.timeSlice = 0 ∧ 0 < rq.nrExpired then
      { unlinked with nrExpired := rq.nrExpired - 1 }
    else if 0 < rq.nrActive then { unlinked with nrActive := rq.nrActive - 1 }
    else unlinked
  { counted with
    nrRunning := rq.nrRunning - 1
    highestPrio := findHighestPrio counted.active }

/-- Take a task off its class and off the common run queue. -/
def schedDequeueTask (task : Task) (sched : Scheduler Task) : Scheduler Task :=
  { sched with
    rq := prioDequeueTask task (sched.entity task) sched.rq
    nrRunning := if 0 < sched.nrRunning then sched.nrRunning - 1 else sched.nrRunning
    runQueue := sched.runQueue.erase task }

def schedResetTimeSlice (task : Task) (sched : Scheduler Task) : Scheduler Task :=
  { sched with
    entity := Function.update sched.entity task
      { sched.entity task with timeSlice := (sched.entity task).timeSliceTotal } }

/-- The scheduler as `schedule` sees it. -/
def prioView : SchedView (Scheduler Task) Task where
  current := Scheduler.current
  idle _ := none
  state := Scheduler.state
  setState task state sched := { sched with state := Function.update sched.state task state }
  enqueue task := schedEnqueueTask task false
  dequeue := schedDequeueTask
  arrive next sched := schedResetTimeSlice next { sched with current := some next }

/-- Schedule the next task; without one the call returns. -/
def schedule (sched : Scheduler Task) : Scheduler Task :=
  let (next, sched) := schedPickNextTask { sched with needResched := false }
  prioView.schedule next sched

end Ccos
