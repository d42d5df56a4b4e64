import Ccos.Process.PidRun
import Ccos.Process.TaskOrder

/-! Joining a thread: the task that waits is woken when its target exits, and the join then brings
back the value that the target left. -/

namespace Ccos

open Lib

variable {Frames : Type} {ops : FrameOps Frames} {kernelPml4 : Nat} {grants : Grants}
  {kernel after : TaskKernel Frames}

def TaskCall.ends (kernel : TaskKernel Frames) : TaskCall → Option Nat
  | .exit _ | .threadExit _ => kernel.current
  | _ => none

/-- Whether a call leaves a thread to the one that joins it: nobody else frees the thread, and it
ends with the given value and not detached. -/
def TaskCall.joinedOnce (target value : Nat) (kernel : TaskKernel Frames) (call : TaskCall) : Bool :=
  call.frees kernel ≠ some target ∧ (call.ends kernel = some target →
    call = .threadExit value ∧ (kernel.pcb target).detached = false)

namespace TaskView

variable {view last : TaskView} {task : Nat} {joiner : Joiner} {value : Nat}

/-- A task is on the run queue, or it runs and does not sleep. -/
@[grind =] def Awake (view : TaskView) (task : Nat) : Prop :=
  task ∈ view.runQueue ∨ view.current = some task ∧
    ((view.pcb task).state = .running ∨ (view.pcb task).state = .ready)

/-- A task waits in a join: it sleeps until its target exits, and then it is awake. -/
@[grind] structure Pending (view : TaskView) (joiner : Joiner) (value : Nat) : Prop where
  waits : joiner ∈ view.joining
  live : joiner.target ∈ view.pcbs
  queue : (view.pcb joiner.target).joinWaiters = true
  asleep : (view.pcb joiner.target).state ≠ .zombie → (view.pcb joiner.task).state = .blocked
  awake : (view.pcb joiner.target).state = .zombie →
    (view.pcb joiner.target).returnValue = value ∧ view.Awake joiner.task

/-- What a join depends on in a control block. -/
@[grind] structure SameTask (before after : Pcb) : Prop where
  state : after.state = before.state
  queue : after.joinWaiters = before.joinWaiters
  value : after.returnValue = before.returnValue

theorem Awake.congr (awake : view.Awake task) (state : (last.pcb task).state = (view.pcb task).state)
    (queue : task ∈ view.runQueue → task ∈ last.runQueue) (current : last.current = view.current) :
    last.Awake task := by
  grind

theorem wakeAll_pcb (view : TaskView) (tasks : List Nat) (addr : Nat) :
    (tasks.foldl wake view).pcb addr =
      if addr ∈ tasks then { view.pcb addr with state := .ready } else view.pcb addr := by
  induction tasks generalizing view with
  | nil => rfl
  | cons task rest ih =>
    rw [List.foldl_cons, ih]
    by_cases here : addr = task
    · subst here
      simp [wake, enqueue, set]
    · simp [wake, enqueue, set, here]

theorem wakeAll_queue (view : TaskView) (tasks : List Nat) :
    (tasks.foldl wake view).runQueue = view.runQueue ++ tasks := by
  induction tasks generalizing view with
  | nil => exact (List.append_nil _).symm
  | cons task rest ih =>
    rw [List.foldl_cons, ih]
    exact List.append_assoc view.runQueue [task] rest

variable {chosen : Option Nat}

theorem Scheduled.asleep (switched : view.Scheduled chosen last) (queued : view.Queued)
    (asleep : (view.pcb task).state = .blocked) : (last.pcb task).state = .blocked := by
  cases chosen with
  | none =>
    obtain rfl : last = view := switched
    exact asleep
  | some next =>
    obtain ⟨member, rfl⟩ := switched
    -- Neither the task that starts nor the one that stops is asleep.
    have started : task ≠ next := by
      grind
    have requeued : (view.requeue.pcb task).state = .blocked := by
      unfold requeue
      split
      · exact asleep
      · rename_i prev _
        split
        · rename_i runs
          have stopped : task ≠ prev := by
            rintro rfl
            simp [asleep] at runs
          simpa [wake, enqueue, set, stopped] using asleep
        · exact asleep
    simpa [switchTo, set, started] using requeued

theorem Scheduled.awake (switched : view.Scheduled chosen last) (awake : view.Awake task) :
    last.Awake task := by
  cases chosen with
  | none =>
    obtain rfl : last = view := switched
    exact awake
  | some next =>
    obtain ⟨member, rfl⟩ := switched
    grind

namespace Pending

theorem wakes (waits : joiner ∈ view.joining) (live : joiner.target ∈ view.pcbs)
    (queue : (view.pcb joiner.target).joinWaiters = true)
    (zombie : (view.pcb joiner.target).state = .zombie)
    (stored : (view.pcb joiner.target).returnValue = value)
    (blocked : (view.pcb joiner.task).state = .blocked) :
    (view.wakeJoiners joiner.target).Pending joiner value := by
  have changed := view.wakeJoiners_restated joiner.target
  have sleeps : joiner.task ∈ sleepingJoiners joiner.target view.pcb view.joining :=
    List.mem_map.mpr ⟨joiner, List.mem_filter.mpr ⟨waits, by simp [blocked]⟩, rfl⟩
  -- The thread itself has exited and is not woken.
  have dead : joiner.target ∉ sleepingJoiners joiner.target view.pcb view.joining := by
    intro member
    rw [(of_mem_sleepingJoiners member).2] at zombie
    cases zombie
  have content : (view.wakeJoiners joiner.target).pcb joiner.target = view.pcb joiner.target := by
    rw [wakeJoiners, wakeAll_pcb, if_neg dead]
  refine ⟨changed.joining ▸ waits, changed.pcbs ▸ live, by rw [content, queue],
    fun living => absurd (by rw [content, zombie]) living, fun _ => ⟨by rw [content, stored], ?_⟩⟩
  rw [Awake, wakeJoiners, wakeAll_queue]
  exact .inl (List.mem_append_right _ sleeps)

variable (pending : view.Pending joiner value)
include pending

theorem congr (waits : joiner ∈ last.joining) (live : joiner.target ∈ last.pcbs)
    (target : SameTask (view.pcb joiner.target) (last.pcb joiner.target))
    (task : SameTask (view.pcb joiner.task) (last.pcb joiner.task))
    (queue : joiner.task ∈ view.runQueue → joiner.task ∈ last.runQueue)
    (current : last.current = view.current) : last.Pending joiner value := by
  refine ⟨waits, live, target.queue.trans pending.queue, fun alive => ?_, fun zombie => ?_⟩
  all_goals grind

theorem scheduled (queued : view.Queued) {chosen : Option Nat}
    (switched : view.Scheduled chosen last) : last.Pending joiner value := by
  have changed := switched.restated queued
  obtain ⟨state, content⟩ := changed.content joiner.target
  have zombie := changed.zombie joiner.target
  refine ⟨changed.joining ▸ pending.waits, changed.pcbs ▸ pending.live, ?_, fun alive => ?_,
    fun dead => ?_⟩
  · rw [content]
    exact pending.queue
  · exact switched.asleep queued (pending.asleep fun dead => alive (zombie.mpr dead))
  · obtain ⟨stored, awake⟩ := pending.awake (zombie.mp dead)
    refine ⟨?_, switched.awake awake⟩
    rw [content]
    exact stored

theorem undone (waiting : view.Waiting) {pml4 : Nat} (back : view.Undone pml4 last) :
    last.Pending joiner value := by
  obtain ⟨current, queue, joining⟩ := back.rest
  grind

variable {addr : Nat} {content : Pcb}

theorem add (waiting : view.Waiting) {pids : Bitmap} (fresh : addr ∉ view.pcbs) :
    ((view.add addr content pids).enqueue addr).Pending joiner value := by
  have same {other : Nat} (live : other ∈ view.pcbs) :
      SameTask (view.pcb other) ((view.add addr content pids).pcb other) := by
    grind
  grind

theorem set (kept : SameTask (view.pcb addr) content) :
    (view.set addr content).Pending joiner value := by
  have same (other : Nat) : SameTask (view.pcb other) ((view.set addr content).pcb other) := by
    grind
  grind

theorem drop (apart : addr ≠ joiner.target) :
    (view.drop addr).Pending joiner value :=
  pending.congr pending.waits ((List.mem_erase_of_ne apart.symm).mpr pending.live)
    ⟨rfl, rfl, rfl⟩ ⟨rfl, rfl, rfl⟩ id rfl

theorem rejoin {joining : List Joiner} (waits : joiner ∈ joining) :
    Pending { view with joining := joining } joiner value :=
  ⟨waits, pending.live, pending.queue, pending.asleep, pending.awake⟩

variable {current : Nat}

theorem block (alive : (view.pcb current).state ≠ .zombie) (apart : joiner.task ≠ current) :
    (view.set current { view.pcb current with state := .blocked }).Pending joiner value := by
  have task : (view.set current { view.pcb current with state := .blocked }).pcb joiner.task =
      view.pcb joiner.task := by simp [TaskView.set, apart]
  -- The target itself may sleep before it exits.
  grind

theorem exited (target : joiner.target ≠ current) (task : joiner.task ≠ current) (exitCode : Int) :
    (view.exited current exitCode).Pending joiner value := by
  have same {other : Nat} (apart : other ≠ current) :
      SameTask (view.pcb other) ((view.exited current exitCode).pcb other) := by
    grind
  refine pending.congr ?_ ?_ (same target) (same task) ?_ ?_
  all_goals rw [exited_eq]
  all_goals grind

theorem threadExited (target : joiner.target ≠ current) (task : joiner.task ≠ current)
    (retval : Nat) :
    (view.threadExited current retval).Pending joiner value := by
  have same {other : Nat} (apart : other ≠ current) :
      SameTask (view.pcb other) ((view.threadExited current retval).pcb other) := by
    obtain ⟨threadList, content⟩ := view.threadExited_pcb_of_ne retval apart
    rw [content]
    exact ⟨rfl, rfl, rfl⟩
  refine pending.congr ?_ ?_ (same target) (same task) ?_ ?_
  all_goals rw [threadExited_eq]
  all_goals grind

theorem wakeOthers (waiting : view.Waiting) (apart : joiner.target ≠ current) :
    (view.wakeJoiners current).Pending joiner value := by
  have changed := view.wakeJoiners_restated current
  obtain ⟨state, content⟩ := changed.content joiner.target
  have zombie := changed.zombie joiner.target
  -- A task waits in one join only, so this one is not among those that are woken.
  have sleeps : joiner.task ∉ sleepingJoiners current view.pcb view.joining := by
    intro member
    obtain ⟨⟨other, inside, task, target⟩, _⟩ := of_mem_sleepingJoiners member
    have same := List.inj_on_of_nodup_map waiting.single inside pending.waits task
    exact apart (same ▸ target)
  have task : (view.wakeJoiners current).pcb joiner.task = view.pcb joiner.task := by
    rw [wakeJoiners, wakeAll_pcb, if_neg sleeps]
  refine ⟨changed.joining ▸ pending.waits, changed.pcbs ▸ pending.live, ?_, fun alive => ?_,
    fun dead => ?_⟩
  · rw [content]
    exact pending.queue
  · grind
  · obtain ⟨stored, awake⟩ := pending.awake (zombie.mp dead)
    refine ⟨by rw [content]; exact stored, awake.congr (by rw [task]) (fun queued => ?_)
      (wakeJoiners_current view current)⟩
    rw [wakeJoiners, wakeAll_queue]
    exact List.mem_append_left _ queued

theorem targetExited (alive : (view.pcb joiner.target).state ≠ .zombie)
    (apart : joiner.task ≠ joiner.target) :
    ((view.threadExited joiner.target value).wakeJoiners joiner.target).Pending joiner value := by
  obtain ⟨_, target⟩ := view.threadExited_pcb_self joiner.target value
  obtain ⟨_, task⟩ := view.threadExited_pcb_of_ne value apart
  refine wakes ?_ ?_ ?_ ?_ ?_ ?_
  · rw [threadExited_eq]
    exact pending.waits
  · rw [threadExited_eq]
    exact pending.live
  all_goals grind

end Pending

end TaskView

variable {value : Nat} {joiner : Joiner}

theorem TaskStep.pending {call : TaskCall} {last : TaskView}
    (step : TaskStep kernelPml4 grants kernel call last) (orderly : kernel.tasks.Orderly)
    (allowed : call.inOrder grants kernel = true) (pending : kernel.tasks.Pending joiner value)
    (once : call.joinedOnce joiner.target value kernel = true) : last.Pending joiner value := by
  obtain ⟨spared, ends⟩ := of_decide_eq_true once
  cases step with
  | refused => exact pending
  | undone back | kernelThreadUndone _ back => exact pending.undone orderly.toWaiting back
  | @forked parent child pid pids content now fresh taken own exact =>
    have added : ((kernel.tasks.add child content pids).enqueue child).Pending joiner value :=
      pending.add orderly.toWaiting fresh
    exact added.congr added.waits added.live ⟨rfl, rfl, rfl⟩ ⟨rfl, rfl, rfl⟩ id rfl
  | kernelThread fresh taken _ => exact pending.add orderly.toWaiting fresh
  | userThread fresh taken own kept exact =>
    obtain ⟨rfl, _⟩ := exact (TaskCall.inOrder_parent allowed)
    exact (pending.set ⟨by rfl, by rfl, by rfl⟩).add (orderly.set_state (by rfl)).toWaiting fresh
  | userThreadUndone kept exact undone =>
    obtain rfl := exact (TaskCall.inOrder_parent allowed)
    exact (pending.set ⟨by rfl, by rfl, by rfl⟩).undone (orderly.set_state (by rfl)).toWaiting undone
  | @exit exitCode current _ now switched =>
    have idle := TaskCall.inOrder_idle allowed ⟨by simp, by simp⟩ now
    have target : joiner.target ≠ current := by
      rintro rfl
      have called := (ends now).1
      cases called
    exact (pending.exited target (idle joiner pending.waits) exitCode).scheduled
      (orderly.exited now idle exitCode).1 switched
  | @threadExit retval current _ now attached switched =>
    have idle := TaskCall.inOrder_idle allowed ⟨by simp, by simp⟩ now
    obtain ⟨queued, waiting⟩ := orderly.threadExited now idle retval
    have alive := (orderly.runs current now).2.2
    by_cases target : joiner.target = current
    · subst target
      obtain ⟨called, _⟩ := ends now
      cases called
      have queue : (kernel.pcb joiner.target).joinWaiters = true := pending.queue
      rw [if_pos queue] at switched
      exact (pending.targetExited alive (idle joiner pending.waits)).scheduled
        (queued.wakeJoiners waiting _) switched
    · have left := pending.threadExited target (idle joiner pending.waits) retval
      split at switched
      · exact (left.wakeOthers waiting target).scheduled (queued.wakeJoiners waiting _) switched
      · exact left.scheduled queued switched
  | @detachedExit retval current _ now detached switched =>
    have idle := TaskCall.inOrder_idle allowed ⟨by simp, by simp⟩ now
    have target : joiner.target ≠ current := by
      rintro rfl
      rw [(ends now).2] at detached
      cases detached
    have unqueued : current ∉ (kernel.tasks.threadExited current retval).runQueue := by
      rw [TaskView.threadExited_eq]
      exact (orderly.runs current now).2.1
    have left := (pending.threadExited target (idle joiner pending.waits) retval).drop target.symm
    exact left.scheduled ((orderly.threadExited now idle retval).1.drop unqueued) switched
  | @reaped _ _ _ current target now found =>
    have apart : target ≠ joiner.target := by
      rintro rfl
      exact spared (by simp [TaskCall.frees, now, found])
    have linked : (kernel.tasks.onPcbs (onZombies (listDel target))).Pending joiner value :=
      pending.congr pending.waits pending.live ⟨rfl, rfl, rfl⟩ ⟨rfl, rfl, rfl⟩ id rfl
    exact linked.drop apart
  | @blocked _ _ _ current _ now missing switched =>
    have idle := TaskCall.inOrder_idle allowed ⟨by simp, by simp⟩ now
    exact (pending.block (orderly.runs current now).2.2 (idle joiner pending.waits)).scheduled
      (orderly.block now).toQueued switched
  | @waits _ retval current target _ now chosen switched =>
    have idle := TaskCall.inOrder_idle allowed ⟨by simp, by simp⟩ now
    have asleep := pending.block (orderly.runs current now).2.2 (idle joiner pending.waits)
    have more : joiner ∈ kernel.table.joining ++ [⟨current, target, retval⟩] :=
      List.mem_append_left _ pending.waits
    exact (asleep.rejoin more).scheduled (orderly.wait now idle target retval).toQueued switched
  | joins chosen =>
    refine pending.drop ?_
    rintro rfl
    exact spared (by simp [TaskCall.frees, chosen])
  | @joined other ended =>
    have apart : other.target ≠ joiner.target := fun same =>
      spared (by simp [TaskCall.frees, ended, same])
    have differs : joiner ≠ other := by
      rintro rfl
      exact apart rfl
    have fewer : joiner ∈ kernel.table.joining.erase other :=
      (List.mem_erase_of_ne differs).mpr pending.waits
    exact (pending.rejoin fewer).drop apart
  | detached chosen alive => exact pending.set ⟨by rfl, by rfl, by rfl⟩
  | detachedZombie chosen zombie =>
    refine (pending.set ⟨by rfl, by rfl, by rfl⟩).drop ?_
    rintro rfl
    exact spared (by simp [TaskCall.frees, chosen, zombie])
  | schedule switched => exact pending.scheduled orderly.toQueued switched

variable {target : Nat} {tid : Int}

theorem joinTarget_waits (found : joinTarget tid kernel = some (target, true)) :
    (kernel.pcb target).state ≠ .zombie ∧ (kernel.pcb target).joinWaiters = true := by
  obtain ⟨current, _, found⟩ := Option.bind_eq_some_iff.mp found
  obtain ⟨other, _, found⟩ := Option.bind_eq_some_iff.mp found
  grind

theorem pending_join (orderly : kernel.tasks.Orderly) {current retval : Nat}
    (now : kernel.current = some current) (found : joinTarget tid kernel = some (target, true))
    (live : target ∈ kernel.table.pcbs)
    (step : Kernel.Steps ops kernelPml4 kernel (.join tid retval, grants) after) (value : Nat) :
    after.tasks.Pending ⟨current, target, retval⟩ value := by
  obtain ⟨_, now', switched⟩ := TaskCall.join_tasks found step.2
  obtain rfl := Option.some.inj (now.symm.trans now')
  have idle := TaskCall.inOrder_idle step.1 ⟨nofun, nofun⟩ now
  obtain ⟨alive, queue⟩ := joinTarget_waits found
  -- Only the caller has another state now, and it sleeps.
  have content : ∃ state, (kernel.tasks.set current { kernel.pcb current with state := .blocked }).pcb
      target = { kernel.pcb target with state := state } ∧ state ≠ .zombie := by
    by_cases here : target = current
    · grind
    · exact ⟨_, by simp [TaskView.set, here, Kernel.tasks], alive⟩
  obtain ⟨state, content, living⟩ := content
  refine TaskView.Pending.scheduled ⟨?_, live, ?_, fun _ => ?_, fun zombie => ?_⟩
    (orderly.wait now idle target retval).toQueued switched
  · exact List.mem_append_right _ (List.mem_singleton_self _)
  · exact (congrArg Pcb.joinWaiters content).trans queue
  all_goals grind

theorem collectThread_returns (total : ops.Total) (target retval : Nat) :
    ∃ after, collectThread (taskServices ops kernelPml4 grants) target retval kernel =
      (if retval ≠ 0 then [⟨retval, leBytes 8 (kernel.pcb target).returnValue⟩] else [], after,
        some 0) := by
  obtain ⟨pages, unmapped⟩ := (tableFrames_total total).freeUserStack (kernel.pcb target).pml4Phys
    (kernel.pcb target).isUserMode (kernel.pcb target).userStack (kernel.pcb target).userStackSize
    kernel.pages
  obtain ⟨after, freed⟩ := procFreePcb_returns total target { kernel with pages := pages }
  have stack : freeUserStack (taskServices ops kernelPml4 grants) target kernel =
      ([], { kernel with pages := pages }, some ()) := by
    simp only [freeUserStack, Logged.read_bind, onPages, Logged.act, taskServices, unmapped,
      Option.map_some]
  have frees : (taskServices ops kernelPml4 grants).procFreePcb target
    { kernel with pages := pages } = some ((), after) := freed
  refine ⟨after, ?_⟩
  unfold collectThread
  simp only [Logged.read_bind]
  by_cases stores : retval ≠ 0
  · simp only [Logged.onlyIf, if_pos stores]
    simp only [Bind.bind, Logged.andThen, Logged.record, stack, Logged.act, frees]
    rfl
  · simp only [Logged.onlyIf, if_neg stores]
    change (freeUserStack (taskServices ops kernelPml4 grants) target >>= fun _ =>
      Logged.act ((taskServices ops kernelPml4 grants).procFreePcb target) >>= fun _ => pure 0)
      kernel = _
    simp only [Bind.bind, Logged.andThen, stack, Logged.act, frees]
    rfl

/-- A step in which no other task but a zombie is freed. -/
@[grind =]
def Kernel.SafeSteps (ops : FrameOps Frames) (kernelPml4 : Nat) (before : TaskKernel Frames)
    (action : TaskCall × Grants) (after : TaskKernel Frames) : Prop :=
  action.1.FreesZombies before ∧ Kernel.Steps ops kernelPml4 before action after

theorem Kernel.SafeSteps.orderly {action : TaskCall × Grants}
    (step : Kernel.SafeSteps ops kernelPml4 kernel action after) (orderly : kernel.tasks.Orderly) :
    after.tasks.Orderly :=
  (Kernel.Steps.tasks step.2 orderly).orderly orderly step.2.1 step.1

theorem TaskView.Pending.endedJoin (pending : kernel.tasks.Pending joiner value)
    (waiting : kernel.tasks.Waiting) (now : kernel.current = some joiner.task)
    (exited : (kernel.pcb joiner.target).state = .zombie) : endedJoin kernel = some joiner := by
  unfold Ccos.endedJoin
  rw [now]
  change kernel.table.joining.find? (fun other => decide
    (other.task = joiner.task ∧ (kernel.pcb other.target).state = .zombie)) = some joiner
  cases first : kernel.table.joining.find? (fun other => decide
      (other.task = joiner.task ∧ (kernel.pcb other.target).state = .zombie)) with
  | none =>
    have missed := List.find?_eq_none.mp first joiner pending.waits
    simp [exited] at missed
  | some other =>
    -- The task waits in no other join.
    have met := List.find?_some first
    simp only [decide_eq_true_eq] at met
    rw [List.inj_on_of_nodup_map waiting.single (List.mem_of_find?_eq_some first) pending.waits
      met.1]

/-- A join that finds its target before the target exits comes back with zero and the value that
the target left: the joiner is woken, and once it runs the rest of the join succeeds. -/
theorem join_brings_value {ops : TotalFrameOps Frames} {buffer : Nat → Byte} {pids : Bitmap}
    {boot first second last : TaskKernel Frames} {early late : List (TaskCall × Grants)}
    {tid : Int} {joiner target retval value : Nat} (started : pidAllocInit buffer = some pids)
    (before : Run (Kernel.SafeSteps ops.toFrameOps kernelPml4) (boot.procInit pids) early first)
    (now : first.current = some joiner) (found : joinTarget tid first = some (target, true))
    (live : target ∈ first.table.pcbs)
    (join : Kernel.SafeSteps ops.toFrameOps kernelPml4 first (.join tid retval, grants) second)
    (rest : Run (fun before action after => action.1.joinedOnce target value before = true ∧
      Kernel.SafeSteps ops.toFrameOps kernelPml4 before action after) second late last)
    (exited : (last.pcb target).state = .zombie) :
    (joiner ∈ last.runQueue ∨ last.current = some joiner) ∧
    (last.current = some joiner → ∀ (grants : Grants), grants.pcb = none → ∃ after,
      procThreadJoin { taskServices ops.toFrameOps kernelPml4 grants with
          waitForZombie := fun _ _ => some ((), last.updateTable fun table =>
            { table with joining := table.joining.erase ⟨joiner, target, retval⟩ }) } tid retval first =
        (if retval ≠ 0 then [⟨retval, leBytes 8 value⟩] else [], after, some 0) ∧
      TaskCall.perform ops.toFrameOps kernelPml4 grants last .joined = some after) := by
  have reached := before.preserves (fun kernel => kernel.tasks.Orderly)
    (fun _ _ _ taken orderly => taken.orderly orderly) (procInit_orderly boot started)
  -- The join stays pending until its task collects the target.
  obtain ⟨orderly, pending⟩ : last.tasks.Orderly ∧
      last.tasks.Pending ⟨joiner, target, retval⟩ value := by
    refine rest.preserves (fun kernel => kernel.tasks.Orderly ∧
      kernel.tasks.Pending ⟨joiner, target, retval⟩ value) (fun _ _ _ taken inv => ?_)
      ⟨join.orderly reached, pending_join reached now found live join.2 value⟩
    obtain ⟨once, step⟩ := taken
    exact ⟨step.orderly inv.1, (Kernel.Steps.tasks step.2 inv.1).pending inv.1 step.2.1 inv.2 once⟩
  obtain ⟨stored, awake⟩ := pending.awake exited
  refine ⟨awake.imp_right And.left, fun runs grants unused => ?_⟩
  have ended := pending.endedJoin orderly.toWaiting runs exited
  obtain ⟨after, collects⟩ := @collectThread_returns _ _ kernelPml4 grants
    (last.updateTable fun table =>
      { table with joining := table.joining.erase ⟨joiner, target, retval⟩ }) ops.total target retval
  have value : ((last.updateTable fun table => { table with
      joining := table.joining.erase ⟨joiner, target, retval⟩ }).pcb target).returnValue = value :=
    stored
  rw [value] at collects
  refine ⟨after, ?_, ?_⟩
  · rw [procThreadJoin_eq, found]
    simp only [Logged.onlyIf, if_true, Bind.bind, Logged.andThen, Logged.act]
    exact (congrArg (fun outcome => ([] ++ outcome.1, outcome.2.1, outcome.2.2)) collects)
  · have fresh : ¬∃ addr ∈ grants.pcb, addr ∈ last.table.pcbs := by simp [unused]
    unfold TaskCall.perform
    simp only [if_neg fresh, ended, Option.bind_eq_bind, Option.bind_some, Logged.finish]
    simp [collects]

/-- A kernel thread starts and forks a process, which runs and makes a thread. -/
def threadStarts : List (TaskCall × Grants) :=
  forkAndExit.take 4 ++
  [(.userThread 0x2000 0x400000 0 0x700000 0x1000, ⟨some 0x3000, true, none⟩)]

/-- The process joins its thread, which then exits with 5. -/
theorem join_brings_value_five :
    ∃ first last after : TaskKernel ReadyPframe,
      Run (Kernel.SafeSteps pframeTotalOps.toFrameOps 0x5000) (bootKernel.procInit bootPids)
        threadStarts first ∧
      joinTarget 3 first = some (0x3000, true) ∧ (last.pcb 0x3000).state = .zombie ∧
      procThreadJoin { taskServices pframeTotalOps.toFrameOps 0x5000 ⟨none, true, none⟩ with
        waitForZombie := fun _ _ => some ((), last.updateTable fun table =>
          { table with joining := table.joining.erase ⟨0x2000, 0x3000, 0x8000⟩ }) } 3 0x8000 first =
        ([⟨0x8000, leBytes 8 5⟩], after, some 0) := by
  obtain ⟨first, before, now, found, live, rest⟩ : ∃ first,
      Run (Kernel.SafeSteps pframeTotalOps.toFrameOps 0x5000) (bootKernel.procInit bootPids)
        threadStarts first ∧
      first.current = some 0x2000 ∧ joinTarget 3 first = some (0x3000, true) ∧
      0x3000 ∈ first.table.pcbs ∧
      (first.performAll pframeTotalOps.toFrameOps 0x5000 (fun state action =>
          action.1.FreesZombies state) [(.join 3 0x8000, ⟨none, true, some 0x3000⟩)]).any fun second =>
        decide ((second.performAll pframeTotalOps.toFrameOps 0x5000 (fun state action =>
            action.1.joinedOnce 0x3000 5 state = true ∧ action.1.FreesZombies state)
            [(.threadExit 5, ⟨none, true, some 0x2000⟩)]).any (fun last =>
          decide ((last.pcb 0x3000).state = .zombie ∧ last.current = some 0x2000)) = true) :=
    Kernel.Steps.of_any (by decide +kernel)
  obtain ⟨second, join, rest⟩ := Kernel.Steps.of_any rest
  obtain ⟨last, exit, exited, runs⟩ := Kernel.Steps.of_any rest
  cases join with
  | cons step stop =>
    cases stop with
    | nil =>
      have late := exit.imp fun _ _ _ ⟨⟨once, safe⟩, taken⟩ =>
        (⟨once, safe, taken⟩ : _ ∧ Kernel.SafeSteps pframeTotalOps.toFrameOps 0x5000 _ _ _)
      obtain ⟨after, returns, _⟩ := (join_brings_value (Option.some_get _).symm before now found live
        step late exited).2 runs ⟨none, true, none⟩ rfl
      grind

/-- A thread that has exited is on no list that a join looks through. -/
theorem join_misses_exited :
    ∃ last, Run (Kernel.SafeSteps pframeTotalOps.toFrameOps 0x5000) (bootKernel.procInit bootPids)
        (threadStarts ++ [(.schedule, ⟨none, true, some 0x3000⟩),
          (.threadExit 5, ⟨none, true, some 0x2000⟩)]) last ∧
      last.current = some 0x2000 ∧ 0x3000 ∈ last.table.pcbs ∧ (last.pcb 0x3000).pid = 3 ∧
      (last.pcb 0x3000).detached = false ∧ (last.pcb 0x3000).tgid = (last.pcb 0x2000).tgid ∧
      (procThreadJoin (taskServices pframeTotalOps.toFrameOps 0x5000 ⟨none, true, none⟩) 3 0x8000
        last).2.2 = some (-1) :=
  Kernel.Steps.of_any (by decide +kernel)

end Ccos
