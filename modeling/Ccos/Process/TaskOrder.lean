import Ccos.Process.TaskStep

/-! The tasks that run or wait for a processor exist and have not exited, and how the steps of the
kernel keep that. -/

namespace Ccos

open Lib

variable {Frames : Type} {ops : FrameOps Frames} {kernelPml4 : Nat}
  {kernel after : TaskKernel Frames}

/-- Whether a call can be made: a task that waits in a join makes no other call, a task that exits
has another one to switch to, and a user thread is made in a task that exists. -/
def TaskCall.inOrder (grants : Grants) (kernel : TaskKernel Frames) (call : TaskCall) : Bool :=
  let idle := !kernel.table.joining.any fun joiner => kernel.current = some joiner.task
  match call with
  | .joined | .schedule => true
  | .exit _ | .threadExit _ => idle && grants.next.isSome
  | .userThread parent _ _ _ _ => idle && decide (parent ∈ kernel.table.pcbs)
  | _ => idle

/-- A step of the kernel: a call that can be made is performed. -/
@[grind =] def Kernel.Steps (ops : FrameOps Frames) (kernelPml4 : Nat) (before : TaskKernel Frames)
    (action : TaskCall × Grants) (after : TaskKernel Frames) : Prop :=
  action.1.inOrder action.2 before = true ∧
    action.1.perform ops kernelPml4 action.2 before = some after

/-- Perform calls that can be made and that meet a condition, one after the other. -/
def Kernel.performAll (ops : FrameOps Frames) (kernelPml4 : Nat)
    (ok : TaskKernel Frames → TaskCall × Grants → Prop) [∀ state action, Decidable (ok state action)]
    (actions : List (TaskCall × Grants)) (kernel : TaskKernel Frames) : Option (TaskKernel Frames) :=
  actions.foldlM (fun state action =>
    if ok state action ∧ action.1.inOrder action.2 state = true then
      action.1.perform ops kernelPml4 action.2 state
    else none) kernel

theorem Kernel.Steps.of_any {ok : TaskKernel Frames → TaskCall × Grants → Prop}
    [∀ state action, Decidable (ok state action)] {goal : TaskKernel Frames → Prop}
    [DecidablePred goal] {actions : List (TaskCall × Grants)}
    (reached : (kernel.performAll ops kernelPml4 ok actions).any fun last => goal last) :
    ∃ last, Run (fun before action after => ok before action ∧
      Kernel.Steps ops kernelPml4 before action after) kernel actions last ∧ goal last := by
  obtain ⟨last, run, holds⟩ := Run.exists_of_any_if reached
  exact ⟨last, run.imp fun _ _ _ ⟨⟨met, allowed⟩, done⟩ => ⟨met, allowed, done⟩, holds⟩

namespace TaskView

/-- The run queue holds tasks that exist and are ready, each of them once. -/
@[grind] structure Queued (view : TaskView) : Prop where
  sized : view.pids.nbits = pidMax
  zero : 0 ∈ pidMarks view.pids
  blocks : view.pcbs.Nodup
  queue : view.runQueue.Nodup
  live : ∀ task ∈ view.runQueue, task ∈ view.pcbs
  ready : ∀ task ∈ view.runQueue, (view.pcb task).state = .ready

/-- The tasks that wait in a join exist and have not exited, and each waits in one join. -/
@[grind] structure Waiting (view : TaskView) : Prop where
  joiners : ∀ joiner ∈ view.joining, joiner.task ∈ view.pcbs ∧
    (view.pcb joiner.task).state ≠ .zombie
  single : (view.joining.map Joiner.task).Nodup

/-- The task that runs exists, has not exited and is not on the run queue. -/
@[grind] structure Orderly (view : TaskView) : Prop extends Queued view, Waiting view where
  runs : ∀ current, view.current = some current → current ∈ view.pcbs ∧
    current ∉ view.runQueue ∧ (view.pcb current).state ≠ .zombie

variable {view last : TaskView} {addr pid task next pml4 : Nat} {pcb : Pcb} {pids : Bitmap}

namespace Queued

section

variable (queued : view.Queued)
include queued

theorem set (kept : addr ∈ view.runQueue → pcb.state = .ready) :
    (view.set addr pcb).Queued := by
  grind

theorem add (fresh : addr ∉ view.pcbs) (taken : PidTaken view.pids pids pid) :
    (view.add addr pcb pids).Queued := by
  have unqueued : addr ∉ view.runQueue := fun member => fresh (queued.live addr member)
  have stored : (view.set addr pcb).Queued := queued.set fun member => absurd member unqueued
  exact ⟨taken.sized, (taken.marks 0).mpr (.inl queued.zero),
    List.nodup_cons.mpr ⟨fresh, queued.blocks⟩, queued.queue,
    fun task member => List.mem_cons_of_mem _ (queued.live task member), stored.ready⟩

theorem drop (unqueued : addr ∉ view.runQueue) : (view.drop addr).Queued := by
  grind

theorem undone (back : view.Undone pml4 last) : last.Queued := by
  obtain ⟨_, queue, _⟩ := back.rest
  refine ⟨back.sized, (back.marks 0).mpr queued.zero, back.blocks ▸ queued.blocks,
    queue ▸ queued.queue, fun task member => ?_, fun task member => ?_⟩
  all_goals grind

theorem enqueue (live : task ∈ view.pcbs) (unqueued : task ∉ view.runQueue)
    (ready : (view.pcb task).state = .ready) : (view.enqueue task).Queued := by
  grind

theorem wake (live : task ∈ view.pcbs) (unqueued : task ∉ view.runQueue) :
    (view.wake task).Queued := by
  have stored : (view.set task { view.pcb task with state := .ready }).Queued :=
    queued.set fun _ => rfl
  exact stored.enqueue live unqueued (by simp [TaskView.set])

variable (stops : ∀ current, view.current = some current → (view.pcb current).state ≠ .zombie →
  current ∈ view.pcbs ∧ current ∉ view.runQueue)
include stops

theorem requeue :
    view.requeue.Queued := by
  unfold TaskView.requeue
  grind

theorem switchTo (member : next ∈ view.runQueue) :
    (view.switchTo next).Queued ∧ ∀ current, (view.switchTo next).current = some current →
      current ∈ (view.switchTo next).pcbs ∧ current ∉ (view.switchTo next).runQueue ∧
      ((view.switchTo next).pcb current).state ≠ .zombie := by
  have requeued := queued.requeue stops
  -- The others on the queue keep their states.
  grind

end

end Queued

theorem Waiting.mono (waiting : view.Waiting) (fewer : last.joining.Sublist view.joining)
    (kept : ∀ joiner ∈ view.joining, joiner.task ∈ last.pcbs ∧
      (last.pcb joiner.task).state ≠ .zombie) : last.Waiting :=
  ⟨fun joiner member => kept joiner (fewer.subset member), waiting.single.sublist (fewer.map _)⟩

/-- The tasks differ in the states of tasks that have not exited, and in which of them runs or is
queued. -/
@[grind] structure Restated (view last : TaskView) : Prop where
  pids : last.pids = view.pids
  pcbs : last.pcbs = view.pcbs
  joining : last.joining = view.joining
  left : last.left = view.left
  content : ∀ addr, ∃ state, last.pcb addr = { view.pcb addr with state := state }
  zombie : ∀ addr, (last.pcb addr).state = .zombie ↔ (view.pcb addr).state = .zombie

theorem Restated.refl (view : TaskView) : view.Restated view :=
  ⟨rfl, rfl, rfl, rfl, fun _ => ⟨_, rfl⟩, fun _ => Iff.rfl⟩

theorem Restated.set_state {state : ProcState}
    (alive : state = .zombie ↔ (view.pcb addr).state = .zombie) :
    view.Restated (view.set addr { view.pcb addr with state := state }) := by
  refine ⟨rfl, rfl, rfl, rfl, fun other => ?_, fun other => ?_⟩
  · by_cases here : other = addr
    · subst here
      exact ⟨state, Function.update_self ..⟩
    · exact ⟨_, Function.update_of_ne here ..⟩
  grind

theorem Restated.trans {middle : TaskView} (first : view.Restated middle)
    (second : middle.Restated last) : view.Restated last := by
  refine ⟨second.pids.trans first.pids, second.pcbs.trans first.pcbs,
    second.joining.trans first.joining, second.left.trans first.left, fun addr => ?_,
    fun addr => (second.zombie addr).trans (first.zombie addr)⟩
  obtain ⟨_, one⟩ := first.content addr
  obtain ⟨state, two⟩ := second.content addr
  exact ⟨state, by rw [two, one]⟩

theorem Scheduled.restated {chosen : Option Nat} (switched : view.Scheduled chosen last)
    (queued : view.Queued) : view.Restated last := by
  cases chosen with
  | none =>
    obtain rfl : last = view := switched
    exact .refl _
  | some next =>
    obtain ⟨member, rfl⟩ := switched
    have requeued : view.Restated view.requeue := by
      unfold TaskView.requeue
      split
      · exact .refl _
      · rename_i prev _
        split
        · rename_i runs
          have woken : view.Restated (view.set prev { view.pcb prev with state := .ready }) := by
            refine .set_state ?_
            rcases runs with runs | runs <;> simp [runs]
          exact ⟨woken.pids, woken.pcbs, woken.joining, woken.left, woken.content, woken.zombie⟩
        · exact .refl _
    have alive : (view.requeue.pcb next).state ≠ .zombie := fun zombie => by
      grind
    have running : view.requeue.Restated (view.requeue.set next
        { view.requeue.pcb next with state := .running }) :=
      .set_state (by simpa using alive)
    have both := requeued.trans running
    exact ⟨both.pids, both.pcbs, both.joining, both.left, both.content, both.zombie⟩

theorem Waiting.restated (waiting : view.Waiting) (changed : view.Restated last) :
    last.Waiting := by
  refine waiting.mono (changed.joining ▸ List.Sublist.refl _) fun joiner member => ?_
  grind

theorem Scheduled.orderly {chosen : Option Nat} (switched : view.Scheduled chosen last)
    (queued : view.Queued) (waiting : view.Waiting)
    (stops : ∀ current, view.current = some current → (view.pcb current).state ≠ .zombie →
      current ∈ view.pcbs ∧ current ∉ view.runQueue)
    (stays : chosen = none → view.Orderly) : last.Orderly := by
  cases chosen with
  | none =>
    obtain rfl : last = view := switched
    exact stays rfl
  | some next =>
    have waits : last.Waiting := waiting.restated (switched.restated queued)
    obtain ⟨member, rfl⟩ := switched
    exact ⟨(queued.switchTo stops member).1, waits, (queued.switchTo stops member).2⟩

namespace Orderly

variable (orderly : view.Orderly)
include orderly

theorem stops (current : Nat) (now : view.current = some current)
    (_ : (view.pcb current).state ≠ .zombie) : current ∈ view.pcbs ∧ current ∉ view.runQueue :=
  ⟨(orderly.runs current now).1, (orderly.runs current now).2.1⟩

theorem scheduled {chosen : Option Nat} (switched : view.Scheduled chosen last) : last.Orderly :=
  switched.orderly orderly.toQueued orderly.toWaiting orderly.stops fun _ => orderly

theorem set (kept : addr ∈ view.runQueue → pcb.state = .ready)
    (alive : pcb.state = .zombie → (view.pcb addr).state = .zombie) :
    (view.set addr pcb).Orderly := by
  have state (task : Nat) (old : (view.pcb task).state ≠ .zombie) :
      ((view.set addr pcb).pcb task).state ≠ .zombie := by
    grind
  refine ⟨orderly.toQueued.set kept, orderly.toWaiting.mono (List.Sublist.refl _)
    fun joiner member => ?_, fun current now => ?_⟩
  all_goals grind

theorem set_state (same : pcb.state = (view.pcb addr).state) :
    (view.set addr pcb).Orderly :=
  orderly.set (fun member => same.trans (orderly.ready addr member)) fun zombie => same ▸ zombie

theorem onPcbs {change : (Nat → Pcb) → Nat → Pcb}
    (same : ∀ addr, (change view.pcb addr).state = (view.pcb addr).state) :
    (view.onPcbs change).Orderly := by
  refine ⟨⟨orderly.sized, orderly.zero, orderly.blocks, orderly.queue, orderly.live,
    fun task member => (same task).trans (orderly.ready task member)⟩,
    orderly.toWaiting.mono (List.Sublist.refl _) fun joiner member => ?_, fun current now => ?_⟩
  all_goals grind

theorem add (fresh : addr ∉ view.pcbs) (taken : PidTaken view.pids pids pid)
    (ready : pcb.state = .ready) :
    ((view.add addr pcb pids).enqueue addr).Orderly := by
  have unqueued : addr ∉ view.runQueue := fun member => fresh (orderly.live addr member)
  have queued : (view.add addr pcb pids).Queued := orderly.toQueued.add fresh taken
  have state {task : Nat} (live : task ∈ view.pcbs) (old : (view.pcb task).state ≠ .zombie) :
      ((view.add addr pcb pids).pcb task).state ≠ .zombie := by
    grind
  refine ⟨queued.enqueue List.mem_cons_self unqueued
    ((congrArg Pcb.state add_pcb_self).trans ready),
    orderly.toWaiting.mono (List.Sublist.refl _) fun joiner member => ?_, fun current now => ?_⟩
  all_goals grind

theorem undone (back : view.Undone pml4 last) : last.Orderly := by
  obtain ⟨same, queue, joining⟩ := back.rest
  refine ⟨orderly.toQueued.undone back, orderly.toWaiting.mono (joining ▸ List.Sublist.refl _)
    fun joiner member => ?_, fun current now => ?_⟩
  all_goals grind

theorem drop (zombie : (view.pcb addr).state = .zombie) :
    (view.drop addr).Orderly := by
  have unqueued : addr ∉ view.runQueue := fun member => by
    grind
  have apart {task : Nat} (alive : (view.pcb task).state ≠ .zombie) : task ≠ addr :=
    fun equal => alive (equal ▸ zombie)
  refine ⟨orderly.toQueued.drop unqueued, orderly.toWaiting.mono (List.Sublist.refl _)
    fun joiner member => ?_, fun current now => ?_⟩
  all_goals grind

theorem joined {joining : List Joiner} (fewer : joining.Sublist view.joining) :
    Orderly { view with joining := joining } :=
  ⟨⟨orderly.sized, orderly.zero, orderly.blocks, orderly.queue, orderly.live, orderly.ready⟩,
    orderly.toWaiting.mono fewer orderly.joiners, orderly.runs⟩

variable {current : Nat} (now : view.current = some current)
include now

theorem block :
    (view.set current { view.pcb current with state := .blocked }).Orderly :=
  orderly.set (fun queued => absurd queued (orderly.runs current now).2.1) nofun

/-- The current task goes to sleep and another one runs: only states change. -/
theorem sleep {next : Option Nat}
    (switched : (view.set current { view.pcb current with state := .blocked }).Scheduled next last) :
    view.Restated last :=
  (Restated.set_state (by simpa using (orderly.runs current now).2.2)).trans
    (switched.restated (orderly.block now).toQueued)

theorem wait (idle : ∀ joiner ∈ view.joining, joiner.task ≠ current) (target retval : Nat) :
    Orderly { view.set current { view.pcb current with state := .blocked } with
      joining := view.joining ++ [⟨current, target, retval⟩] } := by
  have asleep := orderly.block now
  -- The new joiner waits nowhere else.
  grind

variable (idle : ∀ joiner ∈ view.joining, joiner.task ≠ current)
include idle

/-- A change of the blocks that makes no other task but the current one a zombie. -/
theorem leaves (pids : last.pids = view.pids) (pcbs : last.pcbs = view.pcbs)
    (joining : last.joining = view.joining) (queue : last.runQueue = view.runQueue)
    (state : ∀ task ≠ current, (last.pcb task).state = (view.pcb task).state) :
    last.Queued ∧ last.Waiting := by
  grind

theorem exited (exitCode : Int) :
    (view.exited current exitCode).Queued ∧ (view.exited current exitCode).Waiting := by
  refine orderly.leaves now idle (by rw [exited_eq]) (by rw [exited_eq]) (by rw [exited_eq]) ?_
    fun task apart => by rw [exited_pcb_of_ne _ _ apart]
  rw [exited_eq]
  exact List.erase_of_not_mem (orderly.runs current now).2.1

theorem threadExited (retval : Nat) :
    (view.threadExited current retval).Queued ∧ (view.threadExited current retval).Waiting := by
  refine orderly.leaves now idle (by rw [threadExited_eq]) (by rw [threadExited_eq])
    (by rw [threadExited_eq]) (by rw [threadExited_eq]) fun task apart => ?_
  obtain ⟨threadList, content⟩ := view.threadExited_pcb_of_ne retval apart
  rw [content]

end Orderly

theorem Queued.wakeAll (queued : view.Queued) {tasks : List Nat} (nodup : tasks.Nodup)
    (asleep : ∀ task ∈ tasks, task ∈ view.pcbs ∧ task ∉ view.runQueue) :
    (tasks.foldl TaskView.wake view).Queued := by
  induction tasks generalizing view with
  | nil => exact queued
  | cons task rest ih =>
    obtain ⟨apart, nodup⟩ := List.nodup_cons.mp nodup
    obtain ⟨live, unqueued⟩ := asleep task List.mem_cons_self
    refine ih (queued.wake live unqueued) nodup fun other member => ?_
    -- The queue has grown by the task that was woken first.
    grind

theorem Restated.wakeAll {tasks : List Nat} (alive : ∀ task ∈ tasks, (view.pcb task).state ≠ .zombie) :
    view.Restated (tasks.foldl TaskView.wake view) := by
  induction tasks generalizing view with
  | nil => exact .refl view
  | cons task rest ih =>
    have woken : view.Restated (view.wake task) := by
      have set : view.Restated (view.set task { view.pcb task with state := .ready }) :=
        .set_state (by simpa using alive task List.mem_cons_self)
      exact ⟨set.pids, set.pcbs, set.joining, set.left, set.content, set.zombie⟩
    refine woken.trans (ih fun other member => ?_)
    grind

theorem wakeJoiners_current (view : TaskView) (target : Nat) :
    (view.wakeJoiners target).current = view.current := by
  unfold wakeJoiners
  generalize sleepingJoiners target view.pcb view.joining = sleepers
  induction sleepers generalizing view with
  | nil => rfl
  | cons task rest ih => exact ih (view.wake task)

/-- A task that sleeps until a thread exits waits in a join and is blocked. -/
theorem of_mem_sleepingJoiners {target : Nat}
    (member : task ∈ sleepingJoiners target view.pcb view.joining) :
    (∃ joiner ∈ view.joining, joiner.task = task ∧ joiner.target = target) ∧
      (view.pcb task).state = .blocked := by
  obtain ⟨joiner, inside, rfl⟩ := List.mem_map.mp member
  grind

theorem wakeJoiners_restated (view : TaskView) (target : Nat) :
    view.Restated (view.wakeJoiners target) :=
  .wakeAll fun task member => by simp [(of_mem_sleepingJoiners member).2]

theorem Queued.wakeJoiners (queued : view.Queued) (waiting : view.Waiting) (target : Nat) :
    (view.wakeJoiners target).Queued := by
  refine queued.wakeAll (waiting.single.sublist (List.filter_sublist.map _)) fun task member => ?_
  -- A blocked task is not on the queue.
  obtain ⟨⟨joiner, inside, same, _⟩, blocked⟩ := of_mem_sleepingJoiners member
  grind

end TaskView

theorem procInit_orderly {buffer : Nat → Byte} {pids : Bitmap} (boot : TaskKernel Frames)
    (started : pidAllocInit buffer = some pids) : (boot.procInit pids).tasks.Orderly := by
  obtain ⟨first, done, sized, marks⟩ := pidAllocInit_spec buffer
  obtain rfl := Option.some.inj (done.symm.trans started)
  refine ⟨⟨sized, ?_, List.nodup_nil, List.nodup_nil, nofun, nofun⟩, ⟨nofun, List.nodup_nil⟩, nofun⟩
  change (0 : Int) ∈ pidMarks first
  rw [marks]
  exact Set.mem_singleton _

theorem Kernel.Steps.tasks {action : TaskCall × Grants}
    (step : Kernel.Steps ops kernelPml4 kernel action after) (orderly : kernel.tasks.Orderly) :
    TaskStep kernelPml4 action.2 kernel action.1 after.tasks :=
  TaskCall.perform_tasks orderly.sized orderly.zero step.2

theorem TaskView.Orderly.currentLive (orderly : kernel.tasks.Orderly) : kernel.CurrentLive :=
  fun current now => (orderly.runs current now).1

variable {call : TaskCall} {grants : Grants}

theorem TaskCall.inOrder_idle (allowed : call.inOrder grants kernel = true)
    (calls : call ≠ .joined ∧ call ≠ .schedule) {current : Nat}
    (now : kernel.current = some current) :
    ∀ joiner ∈ kernel.table.joining, joiner.task ≠ current := by
  have idle : (!kernel.table.joining.any fun joiner => kernel.current = some joiner.task) = true := by
    cases call <;> simp_all [TaskCall.inOrder]
  grind

theorem TaskCall.inOrder_parent {parent entry arg stackAddr stackSize : Nat}
    (allowed : TaskCall.inOrder grants kernel
      (.userThread parent entry arg stackAddr stackSize) = true) :
    parent ∈ kernel.table.pcbs := by
  simp only [TaskCall.inOrder, Bool.and_eq_true, decide_eq_true_eq] at allowed
  exact allowed.2

/-- The task other than the current one that a call frees. -/
def TaskCall.frees (kernel : TaskKernel Frames) : TaskCall → Option Nat
  | .wait4 pid _ _ => kernel.current.bind fun current => (findZombie pid current kernel).join
  | .join tid _ => (joinTarget tid kernel).bind fun (target, waits) =>
      if waits then none else some target
  | .joined => (endedJoin kernel).map Joiner.target
  | .detach tid => (detachTarget tid kernel).filter fun target => (kernel.pcb target).state = .zombie
  | _ => none

/-- A call frees no other task but a zombie. -/
@[grind =] def TaskCall.FreesZombies (kernel : TaskKernel Frames) (call : TaskCall) : Prop :=
  ∀ target ∈ call.frees kernel, (kernel.pcb target).state = .zombie

instance (kernel : TaskKernel Frames) (call : TaskCall) : Decidable (call.FreesZombies kernel) :=
  inferInstanceAs (Decidable (∀ target ∈ call.frees kernel, (kernel.pcb target).state = .zombie))

theorem endedJoin_zombie {joiner : Joiner} (ended : endedJoin kernel = some joiner) :
    (kernel.pcb joiner.target).state = .zombie := by
  obtain ⟨current, _, found⟩ := Option.bind_eq_some_iff.mp ended
  grind

theorem TaskCall.freesZombies_of_unreaped (unreaped : call.reaps kernel = false) :
    call.FreesZombies kernel := by
  have none : call.frees kernel = none := by
    cases call with
    | wait4 pid _ _ =>
      cases now : kernel.current with
      | none => simp [TaskCall.frees, now]
      | some current =>
        simp only [TaskCall.reaps, now, Option.any_some] at unreaped
        match found : findZombie pid current kernel with
        | none => simp [TaskCall.frees, now, found]
        | some none => simp [TaskCall.frees, now, found]
        | some (some target) => simp [found] at unreaped
    | join tid _ =>
      match chosen : joinTarget tid kernel with
      | none => simp [TaskCall.frees, chosen]
      | some (target, true) => simp [TaskCall.frees, chosen]
      | some (target, false) => simp [TaskCall.reaps, chosen] at unreaped
    | joined => simp [TaskCall.reaps] at unreaped
    | detach tid =>
      match chosen : detachTarget tid kernel with
      | none => simp [TaskCall.frees, chosen]
      | some target => simpa [TaskCall.reaps, TaskCall.frees, chosen, Option.filter] using unreaped
    | _ => rfl
  intro target member
  rw [none] at member
  cases member

theorem TaskView.Scheduled.orderly_exit {gone last : TaskView} {next : Option Nat}
    {current : Nat} (switched : gone.Scheduled next last) (elsewhere : next.isSome = true)
    (queued : gone.Queued) (waiting : gone.Waiting) (now : gone.current = some current)
    (zombie : (gone.pcb current).state = .zombie) : last.Orderly := by
  refine switched.orderly queued waiting (fun other same alive => ?_) fun none => ?_
  all_goals grind

/-- A step in which nothing but zombies is freed leaves the tasks in order. -/
theorem TaskStep.orderly {last : TaskView} (step : TaskStep kernelPml4 grants kernel call last)
    (orderly : kernel.tasks.Orderly) (allowed : call.inOrder grants kernel = true)
    (frees : call.FreesZombies kernel) : last.Orderly := by
  cases step with
  | refused => exact orderly
  | undone undone => exact orderly.undone undone
  | @forked parent child pid pids content now fresh taken own exact =>
    obtain ⟨pml4, rfl⟩ := exact orderly.currentLive
    let added := (kernel.tasks.add child (forkedPcb (kernel.pcb parent) parent child pid pml4)
      pids).enqueue child
    have queued : added.Orderly := orderly.add fresh taken rfl
    have linked : (added.onPcbs
        (onFamily (listAddTail (.siblings child) (.children parent)))).Orderly :=
      queued.onPcbs fun _ => rfl
    exact linked
  | kernelThread fresh taken _ => exact orderly.add fresh taken rfl
  | kernelThreadUndone _ undone => exact orderly.undone undone
  | userThread fresh taken own kept exact =>
    obtain ⟨rfl, top, size, rfl⟩ := exact (TaskCall.inOrder_parent allowed)
    exact (orderly.set_state (by rfl)).add fresh taken rfl
  | userThreadUndone kept exact undone =>
    obtain rfl := exact (TaskCall.inOrder_parent allowed)
    exact (orderly.set_state (by rfl)).undone undone
  | @exit exitCode current _ now switched =>
    obtain ⟨queued, waiting⟩ := orderly.exited now
      (TaskCall.inOrder_idle allowed ⟨nofun, nofun⟩ now) exitCode
    exact switched.orderly_exit (Bool.and_eq_true_iff.mp allowed).2 queued waiting
      (by rw [TaskView.exited_eq]; exact now) (by rw [TaskView.exited_pcb_self])
  | @threadExit retval current _ now attached switched =>
    obtain ⟨queued, waiting⟩ := orderly.threadExited now
      (TaskCall.inOrder_idle allowed ⟨nofun, nofun⟩ now) retval
    obtain ⟨gone, zombie⟩ := kernel.tasks.threadExited_current now retval
    have elsewhere := (Bool.and_eq_true_iff.mp allowed).2
    split at switched
    · -- The joiners are woken before the switch.
      have changed := (kernel.tasks.threadExited current retval).wakeJoiners_restated current
      exact switched.orderly_exit elsewhere (queued.wakeJoiners waiting current)
        (waiting.restated changed)
        ((TaskView.wakeJoiners_current _ _).trans gone) ((changed.zombie current).mpr zombie)
    · exact switched.orderly_exit elsewhere queued waiting gone zombie
  | @detachedExit retval current _ now detached switched =>
    have idle := TaskCall.inOrder_idle allowed ⟨nofun, nofun⟩ now
    obtain ⟨queued, waiting⟩ := orderly.threadExited now idle retval
    obtain ⟨gone, zombie⟩ := kernel.tasks.threadExited_current now retval
    refine switched.orderly_exit (Bool.and_eq_true_iff.mp allowed).2 (queued.drop ?_)
      (waiting.mono (List.Sublist.refl _) fun joiner member => ?_) gone zombie
    all_goals grind
  | @reaped _ _ _ current target now found =>
    have linked : (kernel.tasks.onPcbs (onZombies (listDel target))).Orderly :=
      orderly.onPcbs fun _ => rfl
    exact linked.drop (frees target (by simp [TaskCall.frees, now, found]))
  | blocked now missing switched => exact (orderly.block now).scheduled switched
  | waits now chosen switched =>
    have idle := TaskCall.inOrder_idle allowed ⟨nofun, nofun⟩ now
    exact (orderly.wait now idle _ _).scheduled switched
  | joins chosen => exact orderly.drop (frees _ (by simp [TaskCall.frees, chosen]))
  | joined ended =>
    exact (orderly.joined List.erase_sublist).drop (endedJoin_zombie ended)
  | detached chosen alive => exact orderly.set_state (by rfl)
  | detachedZombie chosen zombie =>
    exact (orderly.set_state (by rfl)).drop (by simpa [TaskView.set] using zombie)
  | schedule switched => exact orderly.scheduled switched

end Ccos
