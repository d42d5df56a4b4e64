import Ccos.Lib.Run
import Ccos.Lib.Word
import Ccos.Process.SchedPrio
import Mathlib.Data.List.Rotate

/-! The round-robin class of `process/sched_rr.c` with the scheduler of `process/sched.c` and
`process/process.c`, when every task is of that class, and the order in which tasks get to run. -/

namespace Ccos.Rr

open Lib

/-- Time slice of a task of the round-robin class, in ticks. -/
def rrTimesliceDefault : Nat := 10

structure RrRq (Task : Type*) where
  queue : List Task
  nrRunning : UInt32

/-- The scheduler with its tasks; no task of the priority class exists. -/
structure Sched (Task : Type*) where
  rq : RrRq Task
  runQueue : List Task
  nrRunning : UInt32
  current : Option Task
  idle : Option Task
  state : Task → ProcState
  entity : Task → SchedEntity
  needResched : Bool

def rrTaskFork : SchedEntity :=
  ⟨rrTimesliceDefault, rrTimesliceDefault, 0, 0⟩

def rrTaskTick (entity : SchedEntity) : SchedEntity :=
  if 0 < entity.timeSlice then { entity with timeSlice := entity.timeSlice - 1 } else entity

section Model

variable {Task : Type*}

def rrEnqueueTask (task : Task) (head : Bool) (rq : RrRq Task) : RrRq Task :=
  ⟨if head then task :: rq.queue else rq.queue ++ [task], rq.nrRunning + 1⟩

def rrPickNextTask (rq : RrRq Task) : Option Task :=
  rq.queue.head?

/-- Queue a task in its class and on the common run queue. -/
def schedEnqueueTask (task : Task) (head : Bool) (sched : Sched Task) : Sched Task :=
  { sched with
    rq := rrEnqueueTask task head sched.rq
    nrRunning := sched.nrRunning + 1
    runQueue := sched.runQueue ++ [task] }

/-- Pick the next task: keep a running task that has time left. -/
def schedPickNextTask (sched : Sched Task) : Option Task :=
  let fromQueue := if 0 < sched.rq.nrRunning then rrPickNextTask sched.rq else none
  match sched.current with
  | none => fromQueue
  | some prev =>
    if sched.state prev = .running ∧ 0 < (sched.entity prev).timeSlice then some prev
    else fromQueue

variable [DecidableEq Task]

def rrDequeueTask (task : Task) (rq : RrRq Task) : RrRq Task :=
  ⟨rq.queue.erase task, rq.nrRunning - 1⟩

/-- Take a task off its class and off the common run queue. -/
def schedDequeueTask (task : Task) (sched : Sched Task) : Sched Task :=
  { sched with
    rq := rrDequeueTask task sched.rq
    nrRunning := if 0 < sched.nrRunning then sched.nrRunning - 1 else sched.nrRunning
    runQueue := sched.runQueue.erase task }

def setState (task : Task) (state : ProcState) (sched : Sched Task) : Sched Task :=
  { sched with state := Function.update sched.state task state }

def schedResetTimeSlice (task : Task) (sched : Sched Task) : Sched Task :=
  { sched with
    entity := Function.update sched.entity task
      { sched.entity task with timeSlice := (sched.entity task).timeSliceTotal } }

/-- The scheduler as `schedule` sees it. -/
def rrView : SchedView (Sched Task) Task where
  current := Sched.current
  idle := Sched.idle
  state := Sched.state
  setState := setState
  enqueue task := schedEnqueueTask task false
  dequeue := schedDequeueTask
  arrive next sched := schedResetTimeSlice next { sched with current := some next }

/-- Schedule the next task or the idle one; without either the call returns. -/
def schedule (sched : Sched Task) : Sched Task :=
  let sched := { sched with needResched := false }
  rrView.schedule ((schedPickNextTask sched).or sched.idle) sched

variable {sched : Sched Task}

/-- A task that is picked is the one that `schedule` goes on with. -/
theorem schedule_of_picked {next : Task} (picked : schedPickNextTask sched = some next) :
    schedule sched = rrView.schedule (some next) { sched with needResched := false } := by
  change rrView.schedule ((schedPickNextTask sched).or sched.idle) _ = _
  rw [picked, Option.some_or]

def schedTimerTick (sched : Sched Task) : Sched Task :=
  match sched.current with
  | none => sched
  | some task =>
    { sched with entity := Function.update sched.entity task (rrTaskTick (sched.entity task)) }

end Model

/-- What happens while tasks only run: timer ticks and calls of `schedule`. -/
inductive Turn
  | tick
  | schedule
  deriving DecidableEq, Repr

section Rotation

variable {Task : Type*} [DecidableEq Task]

/-- Whether the current task has used up its time slice. -/
@[grind =] def Expired (sched : Sched Task) : Prop :=
  ∀ task ∈ sched.current, (sched.entity task).timeSlice = 0

instance (sched : Sched Task) : Decidable (Expired sched) := by
  unfold Expired
  infer_instance

/-- Perform a turn; `schedule` is called only when the time slice is used up. -/
def turn (sched : Sched Task) : Turn → Option (Sched Task)
  | .tick => some (schedTimerTick sched)
  | .schedule => if Expired sched then some (schedule sched) else none

/-- A task runs, the others wait in the queue in order, and the idle task is none of them. -/
@[grind] structure Turning (sched : Sched Task) (current : Task) (waiting : List Task) : Prop where
  now : sched.current = some current
  queue : sched.rq.queue = waiting
  counted : sched.rq.nrRunning.toNat = waiting.length
  distinct : (current :: waiting).Nodup
  running : sched.state current = .running
  ready : ∀ task ∈ waiting, sched.state task = .ready
  idle : ∀ task ∈ current :: waiting, sched.idle ≠ some task

variable {current : Task} {sched : Sched Task}

theorem Turning.tick {waiting : List Task} (turning : Turning sched current waiting) :
    Turning (schedTimerTick sched) current waiting := by
  -- Only the time slice of the current task changes.
  obtain ⟨now, queue, counted, distinct, running, ready, idle⟩ := turning
  simp only [schedTimerTick, now]
  grind

theorem Turning.schedule {next : Task} {rest : List Task}
    (turning : Turning sched current (next :: rest)) (expired : Expired sched) :
    Turning (schedule sched) next (rest ++ [current]) := by
  obtain ⟨now, queue, counted, distinct, running, ready, idle⟩ := turning
  have apart : current ≠ next := fun same => (List.nodup_cons.mp distinct).1 (by simp [same])
  -- The queue is not empty, so its first task is picked.
  have slice : (sched.entity current).timeSlice = 0 := expired current now
  have picked : schedPickNextTask sched = some next := by
    have some : 0 < sched.rq.nrRunning := by
      rw [UInt32.lt_iff_toNat_lt, counted]
      simp
    simp [schedPickNextTask, now, running, slice, some, rrPickNextTask, queue]
  have awake := idle current List.mem_cons_self
  have other := idle next (by simp)
  -- The current task joins the queue before the next one leaves it.
  have switched : Rr.schedule sched = rrView.switchTo next (schedEnqueueTask current false
      (setState current .ready { sched with needResched := false })) := by
    rw [schedule_of_picked picked, SchedView.schedule_prev now apart]
    exact congrArg _ (SchedView.requeuePrev_running awake running (Function.update_self ..))
  have order : (next :: (rest ++ [current])).Nodup :=
    List.perm_append_singleton current (next :: rest) |>.nodup_iff.mpr distinct
  have among (task : Task) (member : task ∈ next :: (rest ++ [current])) :
      task ∈ current :: next :: rest :=
    (List.perm_append_singleton current (next :: rest)).mem_iff.mp member
  rw [switched, SchedView.switchTo_queued]
  swap
  · exact other
  refine ⟨rfl, ?_, ?_, order, ?_, fun task member => ?_, fun task member => ?_⟩
  · simp [rrView, schedResetTimeSlice, setState, schedDequeueTask, schedEnqueueTask, rrDequeueTask,
      rrEnqueueTask, queue]
  · simp [rrView, schedResetTimeSlice, setState, schedDequeueTask, schedEnqueueTask, rrDequeueTask,
      rrEnqueueTask, counted]
  · simp [rrView, schedResetTimeSlice, setState]
  · have later : task ≠ next := fun same => (List.nodup_cons.mp order).1 (same ▸ member)
    rcases List.mem_append.mp member with queued | last
    · have earlier : task ≠ current := fun same =>
        (List.nodup_cons.mp distinct).1 (List.mem_cons_of_mem _ (same ▸ queued))
      simpa [rrView, schedResetTimeSlice, setState, schedDequeueTask, schedEnqueueTask, later, earlier]
        using ready task (List.mem_cons_of_mem _ queued)
    · obtain rfl := List.mem_singleton.mp last
      simp [rrView, schedResetTimeSlice, setState, schedDequeueTask, schedEnqueueTask, later]
  · exact idle task (among task member)

theorem Turning.run {last : Sched Task} {waiting : List Task} {turns : List Turn}
    (turning : Turning sched current waiting) (nonempty : waiting ≠ [])
    (run : Run (fun before action after => turn before action = some after) sched turns last) :
    ∃ running queue, Turning last running queue ∧
      running :: queue = (current :: waiting).rotate (turns.count .schedule) := by
  -- Each call brings the front of the queue to the front of the rotation.
  induction run generalizing current waiting with
  | nil => exact ⟨current, waiting, turning, by simp⟩
  | @cons first second last action rest taken remaining ih =>
    cases action with
    | tick =>
      obtain rfl := Option.some.inj taken
      simpa using ih turning.tick nonempty
    | schedule =>
      simp only [turn] at taken
      split at taken
      · rename_i expired
        obtain rfl := Option.some.inj taken
        obtain ⟨next, others, rfl⟩ := List.exists_cons_of_ne_nil nonempty
        obtain ⟨running, queue, later, rotated⟩ := ih (turning.schedule expired) (by simp)
        refine ⟨running, queue, later, ?_⟩
        rw [rotated, List.count_cons_self, List.rotate_cons_succ]
        rfl
      · cases taken

end Rotation

/-- With the queue t1, ..., tk behind the current task, the next calls of `schedule`, each at the
end of a time slice, make t1, ..., tk current in order, and the one after that restores the start. -/
theorem schedule_round_robin {Task : Type*} [DecidableEq Task] {sched last : Sched Task}
    {current : Task} {waiting : List Task} {turns : List Turn}
    (turning : Turning sched current waiting) (nonempty : waiting ≠ [])
    (run : Run (fun before action after => turn before action = some after) sched turns last) :
    (turns.count .schedule ≤ waiting.length →
      last.current = (current :: waiting)[turns.count .schedule]?) ∧
    (turns.count .schedule = waiting.length + 1 →
      last.current = some current ∧ last.rq.queue = waiting) := by
  -- The run has rotated the tasks once for each call.
  obtain ⟨running, queue, later, rotated⟩ := turning.run nonempty run
  constructor
  · intro early
    rw [later.now, ← List.head?_cons (l := queue), rotated]
    exact List.head?_rotate (by simpa using Nat.lt_succ_of_le early)
  · intro full
    rw [full, ← List.length_cons, List.rotate_length] at rotated
    grind

/-- Three tasks, of which the current one has used up its time slice. -/
def threeTasks : Sched (Fin 3) :=
  ⟨⟨[1, 2], 2⟩, [1, 2], 2, some 0, none, ![.running, .ready, .ready],
    fun task => if task = 0 then { rrTaskFork with timeSlice := 0 } else rrTaskFork, false⟩

theorem threeTasks_turning : Turning threeTasks 0 [1, 2] :=
  ⟨rfl, rfl, rfl, by decide, rfl, by decide, by decide⟩

/-- Three calls, with two whole time slices in between, come back to the start. -/
theorem schedule_round_robin_three :
    ∃ last, Run (fun before action after => turn before action = some after) threeTasks
        (.schedule :: (List.replicate 10 .tick ++ .schedule ::
          (List.replicate 10 .tick ++ [.schedule]))) last ∧
      last.current = some 0 ∧ last.rq.queue = [1, 2] := by
  refine Run.exists_by (fun _ => True) (by decide +kernel) fun last run _ => ?_
  exact (schedule_round_robin threeTasks_turning (by simp) run).2 (by decide)

end Ccos.Rr
