import Mathlib.Logic.Function.Basic

/-! `schedule` of `process/process.c`, from the task that the scheduling classes pick to the switch,
over any state that holds the tasks and their queues. -/

namespace Ccos

inductive ProcState
  | ready
  | running
  | blocked
  | zombie
  deriving DecidableEq, Repr

/-- What `schedule` reads and changes of a state. -/
structure SchedView (State Task : Type*) where
  current : State → Option Task
  idle : State → Option Task
  state : State → Task → ProcState
  setState : Task → ProcState → State → State
  /-- `sched_enqueue_task` behind the tasks that wait already. -/
  enqueue : Task → State → State
  /-- `sched_dequeue_task`. -/
  dequeue : Task → State → State
  /-- The task becomes the current one, with a new time slice. -/
  arrive : Task → State → State

namespace SchedView

variable {State Task : Type*} [DecidableEq Task] (view : SchedView State Task)

/-- Put the previous task back on the queues unless it is blocked, dead or idle. -/
def requeuePrev (prev : Task) (st : State) : State :=
  if view.idle st = some prev then st
  else
    let st := if view.state st prev = .running then view.setState prev .ready st else st
    if view.state st prev = .ready then view.enqueue prev st else st

/-- Take the next task off the queues and make it the current one. -/
def switchTo (next : Task) (st : State) : State :=
  let st := if view.idle st = some next then st else view.dequeue next st
  view.arrive next (view.setState next .running st)

/-- Switch to the task that was picked; without one, or with the current one, the call returns. -/
def schedule (picked : Option Task) (st : State) : State :=
  match picked with
  | none => st
  | some next =>
    if view.current st = some next then st
    else
      view.switchTo next (match view.current st with
        | some prev => view.requeuePrev prev st
        | none => st)

variable {view} {next prev : Task} {st : State}

/-- A task that was running is ready from now on and waits behind the others. -/
theorem requeuePrev_running (awake : view.idle st ≠ some prev)
    (running : view.state st prev = .running)
    (ready : view.state (view.setState prev .ready st) prev = .ready) :
    view.requeuePrev prev st = view.enqueue prev (view.setState prev .ready st) := by
  simp [requeuePrev, awake, running, ready]

/-- A task that is ready already waits behind the others. -/
theorem requeuePrev_ready (awake : view.idle st ≠ some prev)
    (ready : view.state st prev = .ready) :
    view.requeuePrev prev st = view.enqueue prev st := by
  simp [requeuePrev, awake, ready]

/-- A task that is blocked or dead stays off the queues. -/
theorem requeuePrev_stays (stopped : view.state st prev ≠ .running)
    (unready : view.state st prev ≠ .ready) : view.requeuePrev prev st = st := by
  simp [requeuePrev, stopped, unready]

/-- A task other than the idle one leaves the queues. -/
theorem switchTo_queued (queued : view.idle st ≠ some next) :
    view.switchTo next st = view.arrive next (view.setState next .running (view.dequeue next st)) := by
  rw [switchTo, if_neg queued]

/-- The call returns when nothing or the current task is picked. -/
theorem schedule_stays {picked : Option Task} (stays : picked = none ∨ picked = view.current st) :
    view.schedule picked st = st := by
  cases picked with
  | none => rfl
  | some next => exact if_pos (stays.resolve_left nofun).symm

/-- Without a current task nothing is put back. -/
theorem schedule_first (now : view.current st = none) :
    view.schedule (some next) st = view.switchTo next st := by
  simp [schedule, now]

/-- The current task is put back before the switch. -/
theorem schedule_prev (now : view.current st = some prev) (apart : prev ≠ next) :
    view.schedule (some next) st = view.switchTo next (view.requeuePrev prev st) := by
  simp [schedule, now, apart]

/-- What the parts of `schedule` leave alone the whole call leaves alone. -/
theorem schedule_keeps {Kept : Type*} (kept : State → Kept)
    (states : ∀ task state st, kept (view.setState task state st) = kept st)
    (enqueues : ∀ task st, kept (view.enqueue task st) = kept st)
    (dequeues : ∀ task st, kept (view.dequeue task st) = kept st)
    (arrives : ∀ task st, kept (view.arrive task st) = kept st) (picked : Option Task) (st : State) :
    kept (view.schedule picked st) = kept st := by
  have requeued (prev : Task) : kept (view.requeuePrev prev st) = kept st := by
    simp only [requeuePrev, apply_ite kept, states, enqueues, ite_self]
  have switched (next : Task) (st : State) : kept (view.switchTo next st) = kept st := by
    simp only [switchTo, apply_ite kept, states, dequeues, arrives, ite_self]
  unfold schedule
  cases picked with
  | none => rfl
  | some next =>
    rw [apply_ite kept, switched]
    cases view.current st with
    | none => exact ite_self _
    | some prev => rw [requeued, ite_self]

end SchedView

end Ccos
