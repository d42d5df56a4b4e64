import Mathlib.Data.List.Nodup
import Ccos.Lib.Run
import Ccos.Process.Schedule

/-! The wait queues of `sync/waitqueue.c`, and the tasks that sleep on them and are woken. -/

namespace Ccos.Sync

/-- The state of each task, and the tasks that wait for a processor. -/
structure Tasks (Task : Type*) where
  state : Task → ProcState
  runQueue : List Task

/-- An entry of a wait queue: the task that sleeps, and whether it sleeps exclusively. -/
structure WaitEntry (Task : Type*) where
  task : Option Task
  exclusive : Bool
  deriving DecidableEq, Repr

/-- The points of `sleep_on` behind the insertion of the entry. -/
inductive SleepPoint
  | block
  | schedule
  | asleep
  deriving DecidableEq, Repr

variable {Task : Type*} [DecidableEq Task]

namespace Tasks

variable (task : Task) (tasks : Tasks Task)

def schedEnqueueTask : Tasks Task :=
  { tasks with runQueue := tasks.runQueue ++ [task] }

def setState (task : Task) (state : ProcState) (tasks : Tasks Task) : Tasks Task :=
  { tasks with state := Function.update tasks.state task state }

/-- Wake a task: it is ready and on the run queue. -/
def wake : Tasks Task :=
  schedEnqueueTask task (tasks.setState task .ready)

def wakeAll (woken : List Task) (tasks : Tasks Task) : Tasks Task :=
  woken.foldl (fun tasks task => tasks.wake task) tasks

/-- Call `schedule`, which switches to another task of the run queue. -/
def scheduleAway : Option (Tasks Task) :=
  if tasks.runQueue.any (· ≠ task) then
    let tasks := if tasks.state task = .running then tasks.setState task .ready else tasks
    some (if tasks.state task = .ready then schedEnqueueTask task tasks else tasks)
  else none

/-- Call `schedule`, which returns at once: no task is queued, or the caller itself is picked. -/
def scheduleBack : Option (Tasks Task) :=
  if tasks.runQueue = [] ∨ task ∈ tasks.runQueue then some tasks else none

/-- The scheduler of some processor picks the task and switches to it. -/
def switchTo : Option (Tasks Task) :=
  if task ∈ tasks.runQueue then
    some { tasks.setState task .running with runQueue := tasks.runQueue.erase task }
  else none

end Tasks

/-- A step of `sleep_on` behind the insertion of the entry; without a next point it returns. -/
def sleepOnStep (task : Task) (back : Bool) (tasks : Tasks Task) :
    SleepPoint → Option (Tasks Task × Option SleepPoint)
  | .block => some (tasks.setState task .blocked, some .schedule)
  | .schedule =>
    if back then (tasks.scheduleBack task).map (·, none)
    else (tasks.scheduleAway task).map (·, some .asleep)
  | .asleep => (tasks.switchTo task).map (·, none)

/-- Wake the task of an entry that has left its queue, and count it. -/
def wakeEntry (entry : WaitEntry Task) (woken : Nat) (tasks : Tasks Task) : Nat × Tasks Task :=
  match entry.task with
  | some task => (woken + 1, tasks.wake task)
  | none => (woken, tasks)

/-- The first pass of a wake-up: exclusive entries, and only one of them unless no others count. -/
def wakeUpFirstPass (exclusiveOnly : Bool) (nrToWake : Nat) :
    List (WaitEntry Task) → Nat → Tasks Task → List (WaitEntry Task) × Nat × Tasks Task
  | [], woken, tasks => ([], woken, tasks)
  | entry :: rest, woken, tasks =>
    if 0 < nrToWake ∧ nrToWake ≤ woken then (entry :: rest, woken, tasks)
    else if entry.exclusive then
      let (woken, tasks) := wakeEntry entry woken tasks
      if !exclusiveOnly then (rest, woken, tasks)
      else wakeUpFirstPass exclusiveOnly nrToWake rest woken tasks
    else
      -- An entry that is not exclusive stays, whether or not only exclusive ones are wanted.
      let (kept, after) := wakeUpFirstPass exclusiveOnly nrToWake rest woken tasks
      (entry :: kept, after)

/-- The second pass of a wake-up: the entries that are not exclusive. -/
def wakeUpSecondPass (nrToWake : Nat) :
    List (WaitEntry Task) → Nat → Tasks Task → List (WaitEntry Task) × Nat × Tasks Task
  | [], woken, tasks => ([], woken, tasks)
  | entry :: rest, woken, tasks =>
    if 0 < nrToWake ∧ nrToWake ≤ woken then (entry :: rest, woken, tasks)
    else if entry.exclusive then
      let (kept, after) := wakeUpSecondPass nrToWake rest woken tasks
      (entry :: kept, after)
    else
      let (woken, tasks) := wakeEntry entry woken tasks
      wakeUpSecondPass nrToWake rest woken tasks

/-- Wake tasks of a queue; the number to wake is 0 for all of them. -/
def wakeUpCommon (exclusiveOnly : Bool) (nrToWake : Nat) (queue : List (WaitEntry Task))
    (tasks : Tasks Task) : List (WaitEntry Task) × Nat × Tasks Task :=
  -- An inactive queue has nothing to pass over.
  if queue = [] then (queue, 0, tasks)
  else
    let (queue, woken, tasks) := wakeUpFirstPass exclusiveOnly nrToWake queue 0 tasks
    if woken < nrToWake ∨ nrToWake = 0 then wakeUpSecondPass nrToWake queue woken tasks
    else (queue, woken, tasks)

variable (queue : List (WaitEntry Task)) (tasks : Tasks Task)

/-- Wake one task, an exclusive one if there is one. -/
def wakeUp : List (WaitEntry Task) × Tasks Task :=
  let (queue, _, tasks) := wakeUpCommon false 1 queue tasks
  (queue, tasks)

def wakeUpAll : List (WaitEntry Task) × Tasks Task :=
  let (queue, _, tasks) := wakeUpCommon false 0 queue tasks
  (queue, tasks)

namespace Tasks

theorem wakeAll_runQueue (woken : List Task) (tasks : Tasks Task) :
    (tasks.wakeAll woken).runQueue = tasks.runQueue ++ woken := by
  -- Each task goes to the end of the run queue.
  induction woken generalizing tasks with
  | nil => simp [wakeAll]
  | cons task rest ih =>
    rw [wakeAll, List.foldl_cons, ← wakeAll, ih]
    simp [wake, schedEnqueueTask, setState]

theorem wakeAll_state (woken : List Task) (tasks : Tasks Task) (task : Task) :
    (tasks.wakeAll woken).state task = if task ∈ woken then .ready else tasks.state task := by
  -- A task that is woken twice is ready all the same.
  induction woken generalizing tasks with
  | nil => simp [wakeAll]
  | cons first rest ih =>
    rw [wakeAll, List.foldl_cons, ← wakeAll, ih]
    by_cases same : task = first <;>
      simp [same, wake, schedEnqueueTask, setState]

theorem wakeAll_append (woken more : List Task) (tasks : Tasks Task) :
    tasks.wakeAll (woken ++ more) = (tasks.wakeAll woken).wakeAll more :=
  List.foldl_append

end Tasks

theorem wakeEntry_tasks (entry : WaitEntry Task) (woken : Nat) (tasks : Tasks Task) :
    (wakeEntry entry woken tasks).2 = tasks.wakeAll entry.task.toList := by
  -- An entry without a task only leaves the queue.
  unfold wakeEntry
  cases entry.task <;> rfl

theorem wakeUpFirstPass_mixed (nrToWake : Nat) (queue : List (WaitEntry Task))
    (tasks : Tasks Task) :
    let after := wakeUpFirstPass false nrToWake queue 0 tasks
    after.1.filter (·.exclusive) = (queue.filter (·.exclusive)).tail ∧
      after.1.filter (!·.exclusive) = queue.filter (!·.exclusive) ∧
      after.2.2 =
        tasks.wakeAll (((queue.filter (·.exclusive)).take 1).filterMap (·.task)) := by
  -- Nothing is woken before the first exclusive entry, so the limit never stops the pass.
  induction queue with
  | nil => simp [wakeUpFirstPass, Tasks.wakeAll]
  | cons entry rest ih =>
    have unlimited : ¬(0 < nrToWake ∧ nrToWake ≤ 0) := by omega
    simp only [wakeUpFirstPass, if_neg unlimited]
    cases kind : entry.exclusive with
    | true =>
      have attached : [entry].filterMap (·.task) = entry.task.toList := by
        cases found : entry.task <;> simp [found]
      simp [kind, wakeEntry_tasks, attached]
    | false => simpa [kind] using ih

/-- The first pass over a queue without exclusive entries does nothing. -/
theorem wakeUpFirstPass_plain {queue : List (WaitEntry Task)} (nrToWake : Nat)
    (plain : ∀ entry ∈ queue, entry.exclusive = false) (tasks : Tasks Task) :
    wakeUpFirstPass false nrToWake queue 0 tasks = (queue, 0, tasks) := by
  -- Entry by entry, each one stays and nothing is counted.
  induction queue with
  | nil => rfl
  | cons entry rest ih =>
    have unlimited : ¬(0 < nrToWake ∧ nrToWake ≤ 0) := by omega
    rw [wakeUpFirstPass, if_neg unlimited, plain entry List.mem_cons_self,
      ih fun entry member => plain entry (List.mem_cons_of_mem _ member)]
    rfl

/-- A single wake-up without exclusive entries wakes the task at the front. -/
theorem wakeUp_plain (task : Task) {rest : List (WaitEntry Task)}
    (plain : ∀ entry ∈ rest, entry.exclusive = false) (tasks : Tasks Task) :
    wakeUp (⟨some task, false⟩ :: rest) tasks = (rest, tasks.wake task) := by
  -- The first pass finds no exclusive entry, and the second one stops at its limit.
  have first : wakeUpFirstPass false 1 (⟨some task, false⟩ :: rest) 0 tasks =
      (⟨some task, false⟩ :: rest, 0, tasks) :=
    wakeUpFirstPass_plain 1 (by simpa using plain) tasks
  -- One task is woken, and that is the limit.
  have stop : wakeUpSecondPass 1 rest 1 (tasks.wake task) = (rest, 1, tasks.wake task) := by
    cases rest <;> simp [wakeUpSecondPass]
  simp [wakeUp, wakeUpCommon, first, wakeUpSecondPass, wakeEntry, stop]

theorem wakeUpSecondPass_all (queue : List (WaitEntry Task)) (woken : Nat) (tasks : Tasks Task) :
    let after := wakeUpSecondPass 0 queue woken tasks
    after.1 = queue.filter (·.exclusive) ∧
      after.2.2 = tasks.wakeAll ((queue.filter (!·.exclusive)).filterMap (·.task)) := by
  -- A limit of zero is none, so the pass goes through the whole queue.
  induction queue generalizing woken tasks with
  | nil => exact ⟨rfl, rfl⟩
  | cons entry rest ih =>
    cases kind : entry.exclusive with
    | true => simpa [wakeUpSecondPass, kind] using ih woken tasks
    | false =>
      have step := ih (wakeEntry entry woken tasks).1 (wakeEntry entry woken tasks).2
      rw [wakeEntry_tasks] at step
      cases attached : entry.task with
      | none => simpa [wakeUpSecondPass, kind, attached, wakeEntry, Tasks.wakeAll] using step
      | some task =>
        simpa [wakeUpSecondPass, kind, attached, wakeEntry, Tasks.wakeAll] using step

/-- What `wake_up_all` does: all exclusive entries but the first stay in the queue. -/
theorem wakeUpAll_eq : wakeUpAll queue tasks = ((queue.filter (·.exclusive)).tail,
      tasks.wakeAll (((queue.filter (·.exclusive)).take 1 ++
        queue.filter (!·.exclusive)).filterMap (·.task))) := by
  -- The second pass runs over what the first one has left.
  by_cases empty : queue = []
  · simp [wakeUpAll, wakeUpCommon, empty, Tasks.wakeAll]
  · obtain ⟨kept, normal, first⟩ := wakeUpFirstPass_mixed 0 queue tasks
    obtain ⟨left, second⟩ := wakeUpSecondPass_all (wakeUpFirstPass false 0 queue 0 tasks).1
      (wakeUpFirstPass false 0 queue 0 tasks).2.1 (wakeUpFirstPass false 0 queue 0 tasks).2.2
    simp only [wakeUpAll, wakeUpCommon, empty, if_false, or_true, if_true, Prod.mk.injEq]
    rw [List.filterMap_append, Tasks.wakeAll_append, left, second, kept, normal, first]
    exact ⟨rfl, rfl⟩

/-- `wake_up_all` empties a queue and wakes each attached task once exactly if at most one entry
is exclusive and no task is attached twice. -/
theorem wakeUpAll_wakes_iff (queue : List (WaitEntry Task)) (tasks : Tasks Task) :
    ((wakeUpAll queue tasks).1 = [] ∧
      ∀ entry ∈ queue, ∀ task ∈ entry.task,
        (wakeUpAll queue tasks).2.state task = .ready ∧
        (wakeUpAll queue tasks).2.runQueue.count task = tasks.runQueue.count task + 1) ↔
      queue.countP (·.exclusive) ≤ 1 ∧ (queue.filterMap (·.task)).Nodup := by
  -- The queue is empty afterwards exactly if the first pass met the only exclusive entry.
  have emptied : (wakeUpAll queue tasks).1 = [] ↔ queue.countP (·.exclusive) ≤ 1 := by
    rw [wakeUpAll_eq, List.countP_eq_length_filter, ← List.length_eq_zero_iff, List.length_tail]
    omega
  rw [emptied]
  refine and_congr_right fun single => ?_
  -- With one exclusive entry at most, the entries woken are those of the queue in another order.
  have woken : (((queue.filter (·.exclusive)).take 1 ++ queue.filter (!·.exclusive)).filterMap
      (·.task)).Perm (queue.filterMap (·.task)) := by
    rw [List.take_of_length_le (List.countP_eq_length_filter ▸ single)]
    exact (List.filter_append_perm _ queue).filterMap _
  rw [wakeUpAll_eq, List.nodup_iff_count_eq_one]
  simp only [Tasks.wakeAll_state, Tasks.wakeAll_runQueue, List.count_append, woken.mem_iff,
    woken.count_eq]
  constructor
  · intro wakes task attached
    obtain ⟨entry, member, found⟩ := List.mem_filterMap.mp attached
    have counted := (wakes entry member task found).2
    omega
  · intro once entry member task found
    have attached := List.mem_filterMap.mpr ⟨entry, member, found⟩
    exact ⟨if_pos attached, by rw [once task attached]⟩

/-- A second exclusive sleeper stays in the queue and stays blocked. -/
theorem wakeUpAll_leaves_exclusive :
    (wakeUpAll [⟨some 0, true⟩, ⟨some 1, true⟩]
      ⟨fun _ : Fin 2 => ProcState.blocked, []⟩).1 = [⟨some 1, true⟩] ∧
    (wakeUpAll [⟨some 0, true⟩, ⟨some 1, true⟩]
      ⟨fun _ : Fin 2 => ProcState.blocked, []⟩).2.state 1 = .blocked := by
  -- The first pass stops behind its first exclusive entry, and the second skips the other.
  decide

end Ccos.Sync
