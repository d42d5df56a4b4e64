import Ccos.Process.TaskView

/-! What each call of a run can do to the tasks of the kernel. -/

namespace Ccos

open Lib Lib.Logged

variable {Frames : Type} {ops : FrameOps Frames} {kernelPml4 : Nat} {grants : Grants}
  {kernel after : TaskKernel Frames}

namespace TaskView

/-- A task becomes ready and enters the run queue. -/
@[grind =] def wake (view : TaskView) (task : Nat) : TaskView :=
  (view.set task { view.pcb task with state := .ready }).enqueue task

/-- The tasks that sleep until a thread exits become ready. -/
def wakeJoiners (view : TaskView) (target : Nat) : TaskView :=
  (sleepingJoiners target view.pcb view.joining).foldl wake view

/-- The task that stops running becomes ready unless it sleeps or has exited. -/
@[grind =] def requeue (view : TaskView) : TaskView :=
  match view.current with
  | none => view
  | some prev =>
    if (view.pcb prev).state = .running ∨ (view.pcb prev).state = .ready then view.wake prev
    else view

@[grind =] def switchTo (view : TaskView) (next : Nat) : TaskView :=
  { view.requeue.set next { view.requeue.pcb next with state := .running } with
    runQueue := view.requeue.runQueue.erase next
    current := some next }

/-- What `schedule` does: it goes on with the current task or switches to a ready one. -/
def Scheduled (view : TaskView) (next : Option Nat) (after : TaskView) : Prop :=
  match next with
  | none => after = view
  | some next => next ∈ view.runQueue ∧ after = view.switchTo next

/-- The current process becomes a zombie on the list of its parent. -/
def exited (view : TaskView) (current : Nat) (exitCode : Int) : TaskView :=
  let dead := { view.set current { view.pcb current with state := .zombie, exitCode := exitCode } with
    runQueue := view.runQueue.erase current }
  match (view.pcb current).parent with
  | some parent => dead.onPcbs (onZombies (listAddTail current parent))
  | none => dead

def leaveGroup (view : TaskView) (thread : Nat) : TaskView :=
  match (view.pcb thread).parent with
  | some parent => view.set parent
      { view.pcb parent with threadList := (view.pcb parent).threadList.erase thread }
  | none => view

/-- The current thread stores its return value, leaves its group and becomes a zombie. -/
def threadExited (view : TaskView) (current retval : Nat) : TaskView :=
  let left := (view.set current { view.pcb current with returnValue := retval }).leaveGroup current
  left.set current { left.pcb current with state := .zombie }

def exitLinks (view : TaskView) (current : Nat) : RingLinks Nat :=
  match (view.pcb current).parent with
  | some parent => listAddTail current parent (zombieLinks view.pcb)
  | none => zombieLinks view.pcb

section

variable (view : TaskView)
include view

@[grind =] theorem switchTo_pcb (next other : Nat) :
    (view.switchTo next).pcb other = if other = next then
      { view.requeue.pcb next with state := .running } else view.requeue.pcb other :=
  Function.update_apply ..

theorem exited_eq (current : Nat) (exitCode : Int) :
    view.exited current exitCode =
      { view with
        pcb := fun addr => { Function.update view.pcb current { view.pcb current with
          state := .zombie, exitCode := exitCode } addr with
            zombieChildren := view.exitLinks current addr }
        runQueue := view.runQueue.erase current } := by
  have links : zombieLinks (Function.update view.pcb current { view.pcb current with
      state := .zombie, exitCode := exitCode }) = zombieLinks view.pcb := by
    funext addr
    by_cases here : addr = current
    · subst here
      simp [zombieLinks]
    · simp [zombieLinks, here]
  unfold exited exitLinks
  rw [← links]
  cases (view.pcb current).parent with
  | some parent => rfl
  | none => rfl

theorem exited_pcb_self (current : Nat) (exitCode : Int) :
    (view.exited current exitCode).pcb current = { view.pcb current with
      state := .zombie
      exitCode := exitCode
      zombieChildren := view.exitLinks current current } := by
  simp [exited_eq]

variable {current addr : Nat}

theorem exited_pcb_of_ne (exitCode : Int) (apart : addr ≠ current) :
    (view.exited current exitCode).pcb addr =
      { view.pcb addr with zombieChildren := view.exitLinks current addr } := by
  simp [exited_eq, apart]

@[grind =] theorem exited_pcb (current : Nat) (exitCode : Int) (addr : Nat) :
    (view.exited current exitCode).pcb addr =
      { (if addr = current then { view.pcb current with state := .zombie, exitCode := exitCode }
        else view.pcb addr) with zombieChildren := view.exitLinks current addr } := by
  rw [exited_eq]
  simp only [Function.update_apply]

@[grind =] theorem exited_pcbs (current : Nat) (exitCode : Int) :
    (view.exited current exitCode).pcbs = view.pcbs := by rw [exited_eq]

@[grind =] theorem exited_pids (current : Nat) (exitCode : Int) :
    (view.exited current exitCode).pids = view.pids := by rw [exited_eq]

theorem leaveGroup_pcb (thread addr : Nat) :
    ∃ threadList, (view.leaveGroup thread).pcb addr =
      { view.pcb addr with threadList := threadList } := by
  unfold leaveGroup
  split
  · rename_i parent _
    by_cases here : addr = parent
    · subst here
      exact ⟨_, Function.update_self ..⟩
    · exact ⟨_, Function.update_of_ne here ..⟩
  · exact ⟨_, rfl⟩

theorem threadExited_eq (current retval : Nat) :
    view.threadExited current retval =
      { view with pcb := (view.threadExited current retval).pcb } := by
  unfold threadExited leaveGroup
  cases ((view.set current { view.pcb current with returnValue := retval }).pcb current).parent with
  | some parent => rfl
  | none => rfl

theorem threadExited_pcb_self (current retval : Nat) :
    ∃ threadList, (view.threadExited current retval).pcb current = { view.pcb current with
      threadList := threadList
      returnValue := retval
      state := .zombie } := by
  obtain ⟨threadList, left⟩ := (view.set current
    { view.pcb current with returnValue := retval }).leaveGroup_pcb current current
  refine ⟨threadList, (Function.update_self ..).trans ?_⟩
  rw [left]
  simp [set]

/-- The thread that exits is still the current one, and a zombie. -/
theorem threadExited_current (now : view.current = some current) (retval : Nat) :
    (view.threadExited current retval).current = some current ∧
      ((view.threadExited current retval).pcb current).state = .zombie := by
  refine ⟨by rw [threadExited_eq]; exact now, ?_⟩
  obtain ⟨_, content⟩ := view.threadExited_pcb_self current retval
  rw [content]

theorem threadExited_pcb_of_ne (retval : Nat) (apart : addr ≠ current) :
    ∃ threadList, (view.threadExited current retval).pcb addr =
      { view.pcb addr with threadList := threadList } := by
  obtain ⟨threadList, left⟩ := (view.set current
    { view.pcb current with returnValue := retval }).leaveGroup_pcb current addr
  refine ⟨threadList, (Function.update_of_ne apart ..).trans ?_⟩
  rw [left]
  simp [set, apart]

end

end TaskView

def forkedPcb (owner : Pcb) (parent child : Nat) (pid : Int) (pml4 : Nat) : Pcb :=
  { clearedPcb child with
    pid := pid
    ppid := owner.pid
    parent := some parent
    tgid := pid
    pml4Phys := pml4
    brk := owner.brk }

def kernelThreadPcb (thread : Nat) (pid : Int) (pml4 fn arg : Nat) : Pcb :=
  { clearedPcb thread with
    pid := pid
    tgid := pid
    isThread := true
    threadEntry := fn
    threadArg := arg
    pml4Phys := pml4
    joinWaiters := true }

def userThreadPcb (owner : Pcb) (parent thread : Nat) (pid : Int)
    (entry arg userStack userStackSize : Nat) : Pcb :=
  { clearedPcb thread with
    pid := pid
    ppid := owner.pid
    parent := some parent
    tgid := if owner.tgid ≠ 0 then owner.tgid else owner.pid
    isThread := true
    isUserMode := true
    threadEntry := entry
    threadArg := arg
    pml4Phys := owner.pml4Phys
    brk := owner.brk
    mmRefcount := Sync.atomicInc owner.mmRefcount
    userStack := userStack
    userStackSize := userStackSize
    joinWaiters := true }

/-- A task that exists runs, or none. -/
def Kernel.CurrentLive (kernel : TaskKernel Frames) : Prop :=
  ∀ current, kernel.current = some current → current ∈ kernel.table.pcbs

/-- The address space that a new kernel thread uses. -/
def Kernel.threadSpace (kernelPml4 : Nat) (kernel : TaskKernel Frames) : Nat :=
  match kernel.current with
  | some current => (kernel.pcb current).pml4Phys
  | none => kernelPml4

section

variable (kernelPml4 : Nat) (grants : Grants) (kernel : TaskKernel Frames)

/-- What a call can do to the tasks. The blocks of new tasks are known as far as they depend on
blocks that exist. -/
inductive TaskStep : TaskCall → TaskView → Prop
  | refused (call : TaskCall) : TaskStep call kernel.tasks
  | undone {call : TaskCall} {after : TaskView} (undone : kernel.tasks.Undone 0 after) :
      TaskStep call after
  | forked {parent child pid : Nat} {pids : Bitmap} {content : Pcb}
      (now : kernel.current = some parent) (fresh : child ∉ kernel.table.pcbs)
      (taken : PidTaken kernel.table.pids pids pid) (own : content.pid = pid)
      (exact : kernel.CurrentLive →
        ∃ pml4, content = forkedPcb (kernel.pcb parent) parent child pid pml4) :
      TaskStep .fork (((kernel.tasks.add child content pids).onPcbs
        (onFamily (listAddTail (.siblings child) (.children parent)))).enqueue child)
  | kernelThread {fn arg thread pid pml4 : Nat} {pids : Bitmap}
      (fresh : thread ∉ kernel.table.pcbs) (taken : PidTaken kernel.table.pids pids pid)
      (space : kernel.CurrentLive → pml4 = kernel.threadSpace kernelPml4) :
      TaskStep (.kernelThread fn arg)
        ((kernel.tasks.add thread (kernelThreadPcb thread pid pml4 fn arg) pids).enqueue thread)
  | kernelThreadUndone {fn arg pml4 : Nat} {after : TaskView}
      (queueless : grants.joinWaiters = false) (undone : kernel.tasks.Undone pml4 after) :
      TaskStep (.kernelThread fn arg) after
  | userThread {parent entry arg stackAddr stackSize thread pid : Nat} {pids : Bitmap}
      {owner content : Pcb} (fresh : thread ∉ kernel.table.pcbs)
      (taken : PidTaken kernel.table.pids pids pid) (own : content.pid = pid)
      (kept : owner.pid = (kernel.pcb parent).pid)
      (exact : parent ∈ kernel.table.pcbs →
        owner = { kernel.pcb parent with
          mmRefcount := Sync.atomicInc (kernel.pcb parent).mmRefcount
          threadList := (kernel.pcb parent).threadList ++ [thread] } ∧
        ∃ top size, content = userThreadPcb (kernel.pcb parent) parent thread pid entry arg top size) :
      TaskStep (.userThread parent entry arg stackAddr stackSize)
        (((kernel.tasks.set parent owner).add thread content pids).enqueue thread)
  | userThreadUndone {parent entry arg stackAddr stackSize pml4 : Nat} {owner : Pcb}
      {after : TaskView} (kept : owner.pid = (kernel.pcb parent).pid)
      (exact : parent ∈ kernel.table.pcbs → owner = { kernel.pcb parent with
        mmRefcount := Sync.atomicInc (kernel.pcb parent).mmRefcount })
      (undone : (kernel.tasks.set parent owner).Undone pml4 after) :
      TaskStep (.userThread parent entry arg stackAddr stackSize) after
  | exit {exitCode : Int} {current : Nat} {after : TaskView} (now : kernel.current = some current)
      (switched : (kernel.tasks.exited current exitCode).Scheduled grants.next after) :
      TaskStep (.exit exitCode) after
  | threadExit {retval current : Nat} {after : TaskView} (now : kernel.current = some current)
      (attached : (kernel.pcb current).detached = false)
      (switched : TaskView.Scheduled (if (kernel.pcb current).joinWaiters then
          (kernel.tasks.threadExited current retval).wakeJoiners current
        else kernel.tasks.threadExited current retval) grants.next after) :
      TaskStep (.threadExit retval) after
  | detachedExit {retval current : Nat} {after : TaskView} (now : kernel.current = some current)
      (detached : (kernel.pcb current).detached = true)
      (switched : ((kernel.tasks.threadExited current retval).drop current).Scheduled grants.next
        after) :
      TaskStep (.threadExit retval) after
  | reaped {pid options : Int} {wstatus current target : Nat} (now : kernel.current = some current)
      (found : findZombie pid current kernel = some (some target)) :
      TaskStep (.wait4 pid wstatus options)
        ((kernel.tasks.onPcbs (onZombies (listDel target))).drop target)
  | blocked {pid options : Int} {wstatus current : Nat} {after : TaskView}
      (now : kernel.current = some current) (missing : findZombie pid current kernel = some none)
      (switched : (kernel.tasks.set current
        { kernel.pcb current with state := .blocked }).Scheduled grants.next after) :
      TaskStep (.wait4 pid wstatus options) after
  | waits {tid : Int} {retval current target : Nat} {after : TaskView}
      (now : kernel.current = some current) (chosen : joinTarget tid kernel = some (target, true))
      (switched : TaskView.Scheduled
        { kernel.tasks.set current { kernel.pcb current with state := .blocked } with
          joining := kernel.table.joining ++ [⟨current, target, retval⟩] } grants.next after) :
      TaskStep (.join tid retval) after
  | joins {tid : Int} {retval target : Nat} (chosen : joinTarget tid kernel = some (target, false)) :
      TaskStep (.join tid retval) (kernel.tasks.drop target)
  | joined {joiner : Joiner} (ended : endedJoin kernel = some joiner) :
      TaskStep .joined (TaskView.drop
        { kernel.tasks with joining := kernel.table.joining.erase joiner } joiner.target)
  | detached {tid : Int} {target : Nat} (chosen : detachTarget tid kernel = some target)
      (alive : (kernel.pcb target).state ≠ .zombie) :
      TaskStep (.detach tid)
        (kernel.tasks.set target { kernel.pcb target with detached := true })
  | detachedZombie {tid : Int} {target : Nat} (chosen : detachTarget tid kernel = some target)
      (zombie : (kernel.pcb target).state = .zombie) :
      TaskStep (.detach tid) ((kernel.tasks.set target
        { kernel.pcb target with detached := true }).drop target)
  | schedule {after : TaskView} (switched : kernel.tasks.Scheduled grants.next after) :
      TaskStep .schedule after

end

theorem TaskStep.of_eq {call : TaskCall} {view last : TaskView} (same : last = view)
    (step : TaskStep kernelPml4 grants kernel call view) :
    TaskStep kernelPml4 grants kernel call last :=
  same ▸ step

section Creation

variable {base : TaskView} {addr other : Nat} {pcb : Pcb} {pids : Bitmap}

theorem updatePcb_added (added : kernel.tasks = base.add addr pcb pids) (change : Pcb → Pcb) :
    (kernel.updatePcb addr change).tasks = base.add addr (change pcb) pids := by
  have content : kernel.pcb addr = pcb :=
    (congrFun (congrArg TaskView.pcb added) addr).trans TaskView.add_pcb_self
  rw [tasks_updatePcb, content, added, TaskView.add_set_self]

theorem pcb_beside (added : kernel.tasks = base.add addr pcb pids) (apart : other ≠ addr) :
    kernel.pcb other = base.pcb other :=
  (congrFun (congrArg TaskView.pcb added) other).trans (TaskView.add_pcb_of_ne apart)

theorem updatePcb_parent {parent : Nat} {owner : Pcb}
    (added : kernel.tasks = (base.set parent owner).add addr pcb pids) (change : Pcb → Pcb) :
    (kernel.updatePcb parent change).tasks =
      (base.set parent (if parent = addr then owner else change owner)).add addr
        (if parent = addr then change pcb else pcb) pids := by
  by_cases same : parent = addr
  · subst same
    rw [updatePcb_added added, if_pos rfl, if_pos rfl]
  · have content : kernel.pcb parent = owner :=
      (pcb_beside added same).trans (Function.update_self ..)
    rw [tasks_updatePcb, content, added, TaskView.add_set_of_ne same, if_neg same, if_neg same]
    simp [TaskView.set, Function.update_idem]

/-- The task that creates a thread keeps its block, and so its address space. -/
theorem threadSpace_added {first : TaskKernel Frames}
    (added : first.tasks = kernel.tasks.add addr pcb pids) (fresh : addr ∉ kernel.table.pcbs)
    (live : kernel.CurrentLive) : first.threadSpace kernelPml4 = kernel.threadSpace kernelPml4 := by
  unfold Kernel.threadSpace
  rw [show first.current = kernel.current from congrArg TaskView.current added]
  cases now : kernel.current with
  | none => rfl
  | some current =>
    have apart : current ≠ addr := fun equal => fresh (equal ▸ live current now)
    exact congrArg Pcb.pml4Phys (pcb_beside added apart)

section

variable (sized : kernel.table.pids.nbits = pidMax) (zero : 0 ∈ pidMarks kernel.table.pids)
  (unused : ¬∃ addr ∈ grants.pcb, addr ∈ kernel.table.pcbs)
include sized zero unused

theorem procFork_tasks :
    Gives (procFork (taskServices ops kernelPml4 grants)) kernel
      fun _ last => TaskStep kernelPml4 grants kernel .fork last.tasks := by
  refine .bind (.bind (.read (.pure ?_)))
  cases now : kernel.current with
  | none => exact .pure (.refused _)
  | some parent =>
    refine newTask_gives sized zero unused (.refused _) (fun last undone _ => .undone undone)
      fun child pid pids first _ _ fresh taken added _ => .bind (.change ?_)
    refine .bind_keeps createUserSpace_keeps fun space second same => ?_
    have added' := same.trans (updatePcb_added added _)
    cases space with
    | none =>
      -- Without an address space the child is taken back.
      exact undo_gives fresh taken added' fun last undone _ => .undone undone
    | some pml4 =>
      refine .bind (.change (.bind (.change (.bind (.change ?_)))))
      refine .bind (.bind (.read (.pure (.pure ?_))))
      have linked := congrArg (fun view => (view.onPcbs
        (onFamily (listAddTail (.siblings child) (.children parent)))).enqueue child)
        (updatePcb_added added' fun pcb =>
          { pcb with pml4Phys := pml4, brk := (second.pcb parent).brk })
      refine .of_eq linked (.forked now fresh taken rfl fun live => ⟨pml4, ?_⟩)
      -- A parent that exists is not the new block.
      have apart : parent ≠ child := fun equal => fresh (equal ▸ live parent now)
      rw [pcb_beside added apart, pcb_beside added' apart]
      rfl

theorem procCreateKernelThread_tasks (fn arg : Nat) :
    Gives (procCreateKernelThread (taskServices ops kernelPml4 grants) kernelPml4 fn arg) kernel
      fun _ last => TaskStep kernelPml4 grants kernel (.kernelThread fn arg) last.tasks := by
  unfold procCreateKernelThread
  split
  · exact .pure (.refused _)
  refine newTask_gives sized zero unused (.refused _) (fun last undone _ => .undone undone)
    fun thread pid pids first _ _ fresh taken added _ => .bind (.change ?_)
  have added' := updatePcb_added added fun pcb => { pcb with
    ppid := 0
    parent := none
    tgid := pid
    isThread := true
    isUserMode := false
    state := .ready
    threadEntry := fn
    threadArg := arg
    pml4Phys := first.threadSpace kernelPml4 }
  refine .bind (.act fun allocated second given => ?_)
  obtain ⟨rfl, rfl⟩ := Prod.mk.inj (Option.some.inj given)
  split
  · -- Without a join queue the thread is taken back.
    rename_i queueless
    exact undo_gives fresh taken added' fun last undone _ =>
      .kernelThreadUndone (by simpa using queueless) undone
  · refine .bind (.change (.bind (.change (.pure ?_))))
    refine .of_eq (congrArg (TaskView.enqueue · thread)
      (updatePcb_added added' fun pcb => { pcb with joinWaiters := true }))
      (.kernelThread fresh taken (threadSpace_added added fresh))

theorem procCreateUserThread_tasks (parent entry arg stackAddr stackSize : Nat) :
    Gives (procCreateUserThread (taskServices ops kernelPml4 grants) parent entry arg stackAddr
      stackSize) kernel fun _ last => TaskStep kernelPml4 grants kernel
        (.userThread parent entry arg stackAddr stackSize) last.tasks := by
  unfold procCreateUserThread
  split
  · exact .pure (.refused _)
  refine newTask_gives sized zero unused (.refused _) (fun last undone _ => .undone undone)
    fun thread pid pids first _ _ fresh taken added _ => .bind (.change ?_)
  rw [← @TaskView.set_self kernel.tasks parent] at added
  have filled := updatePcb_added added fun pcb =>
    let owner := first.pcb parent
    { pcb with
      ppid := owner.pid
      parent := some parent
      tgid := if owner.tgid ≠ 0 then owner.tgid else owner.pid
      isThread := true
      isUserMode := true
      state := .ready
      threadEntry := entry
      threadArg := arg
      pml4Phys := owner.pml4Phys
      brk := owner.brk }
  have counted := updatePcb_parent filled fun pcb =>
    { pcb with mmRefcount := Sync.atomicInc pcb.mmRefcount }
  refine .bind (.change (.bind (.change ?_)))
  generalize Kernel.updatePcb (Kernel.updatePcb first thread _) parent _ = second at counted ⊢
  have shared := updatePcb_added counted fun pcb =>
    { pcb with mmRefcount := (second.pcb parent).mmRefcount }
  generalize Kernel.updatePcb second thread _ = third at shared ⊢
  -- What is known of the two blocks when the address space is shared.
  obtain ⟨owner, content, known, own, kept, exact⟩ : ∃ owner content,
      third.tasks = (kernel.tasks.set parent owner).add thread content pids ∧
      content.pid = pid ∧ owner.pid = (kernel.pcb parent).pid ∧
      (parent ∈ kernel.table.pcbs →
        owner = { kernel.pcb parent with
          mmRefcount := Sync.atomicInc (kernel.pcb parent).mmRefcount } ∧
        content = { userThreadPcb (kernel.pcb parent) parent thread pid entry arg 0 0 with
          joinWaiters := false }) := by
    refine ⟨_, _, shared, ?_, ?_, fun live => ?_⟩
    · split <;> rfl
    · split <;> rfl
    · have apart : parent ≠ thread := fun equal => fresh (equal ▸ live)
      have before := (pcb_beside added apart).trans (Function.update_self ..)
      have between := (pcb_beside counted apart).trans (Function.update_self ..)
      rw [between, before]
      simp only [if_neg apart]
      exact ⟨rfl, rfl⟩
  refine .bind ((giveThreadStack_gives parent thread stackAddr stackSize).mono
    fun given fourth stacked => ?_)
  split
  · -- Without a stack the thread is taken back, but the parent has counted it.
    rename_i stackless
    rw [if_neg (by simpa using stackless)] at stacked
    exact undo_gives fresh taken (stacked.trans known) fun last undone _ =>
      .userThreadUndone kept (fun live => (exact live).1) undone
  rename_i given
  rw [if_pos (by simpa using given)] at stacked
  obtain ⟨top, size, stored⟩ := stacked
  have stacked : fourth.tasks = (kernel.tasks.set parent owner).add thread
      { content with userStack := top, userStackSize := size } pids :=
    stored.trans (updatePcb_added known fun pcb =>
      { pcb with userStack := top, userStackSize := size })
  refine .bind (.act fun allocated fifth given => ?_)
  obtain ⟨rfl, rfl⟩ := Prod.mk.inj (Option.some.inj given)
  split
  · -- Without a join queue the stack is unmapped before that.
    refine .bind_keeps (freeUserStack_keeps thread) fun _ sixth same => ?_
    exact undo_gives fresh taken (same.trans stacked) fun last undone _ =>
      .userThreadUndone kept (fun live => (exact live).1) undone
  · refine .bind (.change (.bind (.change (.bind (.change (.pure ?_))))))
    have queued := updatePcb_added stacked fun pcb => { pcb with joinWaiters := true }
    have grouped := updatePcb_parent queued fun pcb =>
      { pcb with threadList := pcb.threadList ++ [thread] }
    refine .of_eq (congrArg (TaskView.enqueue · thread) grouped)
      (.userThread fresh taken ?_ ?_ fun live => ?_)
    · split <;> exact own
    · split <;> exact kept
    · have apart : parent ≠ thread := fun equal => fresh (equal ▸ live)
      obtain ⟨rfl, rfl⟩ := exact live
      exact ⟨if_neg apart, top, size, if_neg apart⟩

end

end Creation

section Calls

theorem tasks_wakeJoiners (target : Nat) (kernel : TaskKernel Frames) :
    (wakeJoiners target kernel).tasks = kernel.tasks.wakeJoiners target := by
  -- The tasks are woken one after the other.
  unfold wakeJoiners TaskView.wakeJoiners
  change _ = (sleepingJoiners target kernel.pcb kernel.table.joining).foldl _ _
  generalize sleepingJoiners target kernel.pcb kernel.table.joining = sleepers
  induction sleepers generalizing kernel with
  | nil => rfl
  | cons task rest ih => exact ih (wakeTask task kernel)

theorem tasks_scheduleTo {next : Option Nat} {result : Unit}
    (done : scheduleTo next kernel = some (result, after)) :
    kernel.tasks.Scheduled next after.tasks := by
  unfold scheduleTo at done
  split at done
  case isFalse => cases done
  case isTrue picked =>
  cases done
  cases next with
  | none => exact rfl
  | some next =>
    obtain ⟨queued, apart⟩ := picked next rfl
    refine ⟨queued, ?_⟩
    have switched (before : TaskKernel Frames) (requeued : before.tasks = kernel.tasks.requeue) :
        (kernelView.switchTo next before).tasks = kernel.tasks.switchTo next :=
      congrArg (fun view : TaskView =>
        { view.set next { view.pcb next with state := .running } with
          runQueue := view.runQueue.erase next
          current := some next }) requeued
    obtain now | ⟨prev, now⟩ := Option.eq_none_or_eq_some kernel.current
    · rw [SchedView.schedule_first now]
      exact switched kernel (by simp [TaskView.requeue, Kernel.tasks, now])
    · have different : prev ≠ next := fun equal => apart (equal ▸ now)
      rw [SchedView.schedule_prev now different]
      refine switched _ ?_
      have queue : kernel.tasks.requeue =
          if (kernel.pcb prev).state = .running ∨ (kernel.pcb prev).state = .ready then
            kernel.tasks.wake prev
          else kernel.tasks := by
        simp only [TaskView.requeue, Kernel.tasks, now]
      cases state : (kernel.pcb prev).state with
      | running =>
        rw [SchedView.requeuePrev_running (Option.some_ne_none _).symm state
          (by simp [kernelView, Kernel.updatePcb]), queue, if_pos (.inl state)]
        rfl
      | ready =>
        rw [SchedView.requeuePrev_ready (Option.some_ne_none _).symm state, queue,
          if_pos (.inr state)]
        have same : Function.update kernel.pcb prev { kernel.pcb prev with state := .ready } =
            kernel.pcb := by
          rw [← state, Function.update_eq_self]
        exact congrArg (fun pcb => TaskView.enqueue { kernel.tasks with pcb := pcb } prev) same.symm
      | blocked =>
        rw [SchedView.requeuePrev_stays (by simp [kernelView, state]) (by simp [kernelView, state]),
          queue, if_neg (by simp [state])]
      | zombie =>
        rw [SchedView.requeuePrev_stays (by simp [kernelView, state]) (by simp [kernelView, state]),
          queue, if_neg (by simp [state])]

theorem schedule_tasks {view : TaskView} (start : kernel.tasks = view)
    {post : Unit → TaskKernel Frames → Prop}
    (holds : ∀ last, view.Scheduled grants.next last.tasks → post () last) :
    Gives (Logged.act (taskServices ops kernelPml4 grants).schedule :
      KernelCall (PidTable Frames) Unit) kernel post :=
  .act fun _ last done => holds last (start ▸ tasks_scheduleTo done)

theorem exitCurrent_tasks (exitCode : Int) :
    Gives (exitCurrent exitCode : KernelCall (PidTable Frames) Unit) kernel fun _ last =>
      ∃ current, kernel.current = some current ∧
        last.tasks = kernel.tasks.exited current exitCode := by
  refine .bind (.bind (.read (.pure ?_)))
  cases now : kernel.current with
  | none => exact .stop
  | some current =>
    refine .bind (.change (.bind (.change (.change ⟨current, rfl, ?_⟩))))
    -- The parent is read after the state is written, which does not change it.
    have parent : ((kernel.updatePcb current fun pcb =>
        { pcb with state := .zombie, exitCode := exitCode }).pcb current).parent =
        (kernel.pcb current).parent := by simp [Kernel.updatePcb]
    unfold TaskView.exited
    simp only [parent]
    change _ = match (kernel.pcb current).parent with | some parent => _ | none => _
    cases (kernel.pcb current).parent with
    | none => rfl
    | some parent => rfl

theorem tasks_leaveGroup (kernel : TaskKernel Frames) (thread : Nat) :
    Kernel.tasks (match (kernel.pcb thread).parent with
      | some parent => kernel.updatePcb parent fun pcb =>
          { pcb with threadList := pcb.threadList.erase thread }
      | none => kernel) = kernel.tasks.leaveGroup thread := by
  unfold TaskView.leaveGroup
  change _ = match (kernel.pcb thread).parent with | some parent => _ | none => _
  cases (kernel.pcb thread).parent with
  | none => rfl
  | some parent => rfl

theorem exitThread_tasks (retval : Nat) :
    Gives (exitThread (taskServices ops kernelPml4 grants) retval) kernel fun _ last =>
      ∃ current, kernel.current = some current ∧ last.tasks =
        if (kernel.pcb current).detached then (kernel.tasks.threadExited current retval).drop current
        else if (kernel.pcb current).joinWaiters then
          (kernel.tasks.threadExited current retval).wakeJoiners current
        else kernel.tasks.threadExited current retval := by
  refine .bind (.bind (.read (.pure ?_)))
  cases now : kernel.current with
  | none => exact .stop
  | some current =>
    refine .bind (.change (.bind (.change (.bind (.change (.bind (.read ?_)))))))
    generalize gone : Kernel.updatePcb _ current (fun pcb => { pcb with state := .zombie }) = dead
    have exited : dead.tasks = kernel.tasks.threadExited current retval := by
      rw [← gone]
      exact congrArg (fun view : TaskView =>
        view.set current { view.pcb current with state := .zombie })
        (tasks_leaveGroup (kernel.updatePcb current fun pcb =>
          { pcb with returnValue := retval }) current)
    -- The three writes do not touch the two flags that are read next.
    obtain ⟨threadList, content⟩ := kernel.tasks.threadExited_pcb_self current retval
    have flags := congrArg (fun pcb => (pcb.detached, pcb.joinWaiters))
      ((congrFun (congrArg TaskView.pcb exited) current).trans content)
    obtain ⟨detached, waiters⟩ := Prod.mk.inj flags
    change (dead.pcb current).detached = (kernel.pcb current).detached at detached
    change (dead.pcb current).joinWaiters = (kernel.pcb current).joinWaiters at waiters
    rw [detached, waiters]
    refine Gives.mono ?_ fun _ _ same => ⟨current, rfl, same⟩
    rw [← exited]
    cases (kernel.pcb current).detached with
    | true =>
      refine .bind (.onlyIf (fun _ => ?_) fun attached => absurd rfl attached)
      refine .bind_keeps (freeUserStack_keeps current) fun _ unmapped same => ?_
      refine .act fun _ freed done => .onlyIf (fun wakes => ?_) fun _ => ?_
      · exact absurd wakes.1 (by simp)
      · rw [tasks_procFreePcb done, same]
        rfl
    | false =>
      refine .bind (.onlyIf nofun fun _ => .onlyIf (fun wakes => .change ?_) fun sleeps => ?_)
      · exact (tasks_wakeJoiners current dead).trans (by rw [if_neg (by simp), if_pos wakes.2])
      · rw [if_neg (by simp), if_neg (by simpa using sleeps)]

theorem procWait4_tasks (pid : Int) (wstatus : Nat) (options : Int) :
    Gives (procWait4 (taskServices ops kernelPml4 grants) pid wstatus options) kernel
      fun _ last => TaskStep kernelPml4 grants kernel (.wait4 pid wstatus options) last.tasks := by
  refine .bind (.bind (.read (.pure ?_)))
  cases now : kernel.current with
  | none => exact .pure (.refused _)
  | some current =>
    refine .bind (.read ?_)
    match found : findZombie pid current kernel with
    | none => exact .stop
    | some (some target) =>
      refine .bind_keeps (Keeps.onlyIf (Keeps.record _) _) fun _ stored (same : id stored = kernel) => ?_
      obtain rfl : stored = kernel := same
      refine .bind (.change (.bind (.act fun _ last freed => .pure ?_)))
      exact .of_eq (tasks_procFreePcb freed) (.reaped now found)
    | some none =>
      refine .bind (.change (.bind (schedule_tasks rfl fun last switched => .pure ?_)))
      exact .blocked now found switched

theorem collectThread_tasks (target retval : Nat) :
    Gives (collectThread (taskServices ops kernelPml4 grants) target retval) kernel
      fun _ last => last.tasks = kernel.tasks.drop target := by
  refine .bind (.read ?_)
  refine .bind_keeps (Keeps.onlyIf (Keeps.record _) _) fun _ stored (same : id stored = kernel) => ?_
  obtain rfl : stored = kernel := same
  refine .bind_keeps (freeUserStack_keeps target) fun _ unmapped same => ?_
  refine .bind (.act fun _ last freed => .pure ?_)
  rw [tasks_procFreePcb freed, same]

variable {tid : Int} {retval : Nat}

theorem procThreadJoin_tasks (ready : ∀ target, joinTarget tid kernel ≠ some (target, true)) :
    Gives (procThreadJoin (taskServices ops kernelPml4 grants) tid retval) kernel
      fun _ last => TaskStep kernelPml4 grants kernel (.join tid retval) last.tasks := by
  unfold Gives
  rw [procThreadJoin_eq]
  match chosen : joinTarget tid kernel with
  | none =>
    have fails : Gives (pure (-1) : KernelCall (PidTable Frames) Int) kernel fun _ last =>
        TaskStep kernelPml4 grants kernel (.join tid retval) last.tasks := .pure (.refused _)
    exact fails
  | some (target, true) => exact absurd chosen (ready target)
  | some (target, false) =>
    have collects : Gives (collectThread (taskServices ops kernelPml4 grants) target retval) kernel
        fun _ last => TaskStep kernelPml4 grants kernel (.join tid retval) last.tasks :=
      (collectThread_tasks target retval).mono fun _ last same => .of_eq same (.joins chosen)
    exact collects

theorem procThreadDetach_tasks (tid : Int) :
    Gives (procThreadDetach (taskServices ops kernelPml4 grants) tid) kernel
      fun _ last => TaskStep kernelPml4 grants kernel (.detach tid) last.tasks := by
  refine .bind (.bind (.read (.pure ?_)))
  cases now : kernel.current with
  | none => exact .pure (.refused _)
  | some current =>
    refine .bind (.read ?_)
    cases found : procFindByTid tid kernel with
    | none => exact .pure (.refused _)
    | some target =>
      simp only
      split
      · exact .pure (.refused _)
      · rename_i grouped
        have chosen : detachTarget tid kernel = some target := by
          simp only [detachTarget, now, found, Option.bind_eq_bind, Option.bind_some, if_neg grouped]
        refine .bind (.change (.bind (.onlyIf (fun zombie => ?_) fun alive => .pure ?_)))
        · refine .bind_keeps (freeUserStack_keeps target) fun _ unmapped same => ?_
          refine .act fun _ last freed => .pure ?_
          refine .of_eq ?_ (.detachedZombie chosen zombie)
          rw [tasks_procFreePcb freed, same]
          rfl
        · exact .detached chosen alive

/-- A call that leaves the current task in some way and then schedules. -/
theorem leaves_tasks {leave : KernelCall (PidTable Frames) Unit} {left : Nat → TaskView}
    (leaves : Gives leave kernel fun _ last =>
      ∃ current, kernel.current = some current ∧ last.tasks = left current)
    (done : (leave >>= fun _ => Logged.act (taskServices ops kernelPml4 grants).schedule).finish
      kernel = some after) :
    ∃ current, kernel.current = some current ∧
      (left current).Scheduled grants.next after.tasks := by
  have switches : Gives (leave >>= fun _ =>
      Logged.act (taskServices ops kernelPml4 grants).schedule) kernel fun _ last =>
        ∃ current, kernel.current = some current ∧
          (left current).Scheduled grants.next last.tasks := by
    refine .bind (leaves.mono fun _ middle exited => ?_)
    obtain ⟨current, now, same⟩ := exited
    exact schedule_tasks same fun last switched => ⟨current, now, switched⟩
  exact switches.finishes done

theorem TaskCall.exit_tasks {exitCode : Int}
    (done : TaskCall.perform ops kernelPml4 grants kernel (.exit exitCode) = some after) :
    ∃ current, kernel.current = some current ∧
      (kernel.tasks.exited current exitCode).Scheduled grants.next after.tasks := by
  unfold TaskCall.perform at done
  split at done
  · cases done
  exact leaves_tasks (exitCurrent_tasks exitCode) done

theorem TaskCall.join_tasks {target : Nat} (chosen : joinTarget tid kernel = some (target, true))
    (done : TaskCall.perform ops kernelPml4 grants kernel (.join tid retval) = some after) :
    ∃ current, kernel.current = some current ∧ TaskView.Scheduled
      { kernel.tasks.set current { kernel.pcb current with state := .blocked } with
        joining := kernel.table.joining ++ [⟨current, target, retval⟩] } grants.next after.tasks := by
  unfold TaskCall.perform at done
  split at done
  · cases done
  simp only [chosen, waitToJoin, Option.bind_eq_bind, Option.bind_eq_some_iff] at done
  obtain ⟨current, now, ⟨_, last⟩, switched, done⟩ := done
  cases done
  exact ⟨current, now, tasks_scheduleTo switched⟩

theorem TaskCall.perform_tasks {call : TaskCall} (sized : kernel.table.pids.nbits = pidMax)
    (zero : 0 ∈ pidMarks kernel.table.pids)
    (done : call.perform ops kernelPml4 grants kernel = some after) :
    TaskStep kernelPml4 grants kernel call after.tasks := by
  -- One case for each call; the unfolded form is for those that a lemma above covers.
  have kept := done
  unfold TaskCall.perform at done
  split at done
  · cases done
  rename_i unused
  cases call with
  | fork => exact (procFork_tasks sized zero unused).finishes done
  | kernelThread fn arg =>
    exact (procCreateKernelThread_tasks sized zero unused fn arg).finishes done
  | userThread parent entry arg stackAddr stackSize =>
    exact (procCreateUserThread_tasks sized zero unused parent entry arg stackAddr
      stackSize).finishes done
  | exit exitCode =>
    obtain ⟨current, now, switched⟩ := TaskCall.exit_tasks kept
    exact .exit now switched
  | threadExit retval =>
    -- A thread that exits is a zombie, or freed if it is detached, when another task runs.
    obtain ⟨current, now, switched⟩ := leaves_tasks (exitThread_tasks retval) done
    cases flag : (kernel.pcb current).detached with
    | true => exact .detachedExit now flag (by simpa [flag] using switched)
    | false => exact .threadExit now flag (by simpa [flag] using switched)
  | wait4 pid wstatus options => exact (procWait4_tasks pid wstatus options).finishes done
  | join tid retval =>
    match chosen : joinTarget tid kernel with
    | some (target, true) =>
      obtain ⟨current, now, switched⟩ := TaskCall.join_tasks chosen kept
      exact .waits now chosen switched
    | some (target, false) =>
      simp only [chosen] at done
      exact (procThreadJoin_tasks (by simp [chosen])).finishes done
    | none =>
      simp only [chosen] at done
      exact (procThreadJoin_tasks (by simp [chosen])).finishes done
  | joined =>
    obtain ⟨joiner, ended, done⟩ := Option.bind_eq_some_iff.mp done
    exact .of_eq ((collectThread_tasks joiner.target joiner.retval).finishes done) (.joined ended)
  | detach tid => exact (procThreadDetach_tasks tid).finishes done
  | schedule =>
    obtain ⟨⟨_, last⟩, switched, rfl⟩ := Option.map_eq_some_iff.mp done
    exact .schedule (tasks_scheduleTo switched)

end Calls

end Ccos
