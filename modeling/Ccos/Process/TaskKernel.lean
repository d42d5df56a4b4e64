import Ccos.Process.Pid
import Ccos.Process.Process
import Ccos.User.UserSpace

/-! The kernel of `process/process.c` and `process/thread.c` with its PID allocator and the control
blocks that exist, and the calls that runs of it are made of. -/

namespace Ccos

open Lib

structure Joiner where
  task : Nat
  target : Nat
  retval : Nat
  deriving DecidableEq, Repr

/-- What became of the address space of a task that was freed. -/
structure SpaceExit where
  pml4 : Nat
  /-- Whether another control block that is not freed has the same address space. -/
  shared : Bool
  /-- Whether the address space was passed to `vmm_destroy_user_space`. -/
  destroyed : Bool
  deriving DecidableEq, Repr

/-- The frame allocator beside the PID bitmap, the control blocks that are not freed, the tasks
that wait in `proc_thread_join`, and the address spaces that freed tasks left, the latest first. -/
structure PidTable (Frames : Type) where
  frames : Frames
  pids : Bitmap
  pcbs : List Nat
  joining : List Joiner
  left : List SpaceExit

abbrev TaskKernel (Frames : Type) := Kernel (PidTable Frames)

/-- What a call gets from the kernel heap and from the scheduler. -/
structure Grants where
  /-- The address of a new control block; nothing means that the heap is exhausted. -/
  pcb : Option Nat
  joinWaiters : Bool
  /-- The task that `schedule` switches to, if it switches. -/
  next : Option Nat

variable {Frames : Type}

def Kernel.table (kernel : TaskKernel Frames) : PidTable Frames := kernel.pages.frames

def Kernel.updateTable (kernel : TaskKernel Frames)
    (change : PidTable Frames → PidTable Frames) : TaskKernel Frames :=
  { kernel with pages := { kernel.pages with frames := change kernel.pages.frames } }

def tableFrames (ops : FrameOps Frames) : FrameOps (PidTable Frames) where
  source := ops.source.within PidTable.frames (fun table _ frames => { table with frames := frames })
    fun _ _ _ => rfl
  free table addr := (ops.free table.frames addr).map fun frames => { table with frames := frames }

/-- A control block as `proc_alloc_pcb` sets it up: cleared, and with empty lists. -/
def clearedPcb (addr : Nat) : Pcb where
  pid := 0
  ppid := 0
  state := .ready
  exitCode := 0
  zombieChildren := ⟨addr, addr⟩
  children := ⟨.children addr, .children addr⟩
  siblings := ⟨.siblings addr, .siblings addr⟩
  pml4Phys := 0
  mmRefcount := 1
  brk := 0
  isUserMode := false
  userStack := 0
  userStackSize := 0
  parent := none
  tgid := 0
  isThread := false
  threadList := []
  joinWaiters := false
  detached := false
  returnValue := 0
  threadEntry := 0
  threadArg := 0

def procAllocPcb (granted : Option Nat) (kernel : TaskKernel Frames) :
    Option Nat × TaskKernel Frames :=
  match granted with
  | none => (none, kernel)
  | some addr =>
    (some addr, (kernel.updatePcb addr fun _ => clearedPcb addr).updateTable fun table =>
      { table with pcbs := addr :: table.pcbs })

/-- Unmap the user stack of a task that is freed; the top of the stack is taken for its base. -/
def freeTaskStack (ops : FrameOps Frames) (pcb : Pcb) (st : PageState (PidTable Frames)) :
    Option (PageState (PidTable Frames)) :=
  if pcb.isUserMode ∧ pcb.userStack ≠ 0 ∧ 0 < pcb.userStackSize then
    userMunmapPages (tableFrames ops).free pcb.pml4Phys pcb.userStack 0
      (pcb.userStackSize / pageSize) st
  else some st

/-- Whether freeing a task destroys its address space: its own count of users becomes zero. -/
def Pcb.destroysSpace (pcb : Pcb) : Bool :=
  pcb.pml4Phys ≠ 0 ∧ Sync.atomicDec pcb.mmRefcount = 0

/-- Leave the address space of a task that is freed, and destroy it if the count says so. -/
def leaveUserSpace (ops : FrameOps Frames) (pcb : Pcb) (st : PageState (PidTable Frames)) :
    Option (PageState (PidTable Frames)) :=
  if pcb.destroysSpace then vmmDestroyUserSpace (tableFrames ops) pcb.pml4Phys st else some st

/-- How a task that is freed leaves its address space. -/
def spaceExit (pcb : Nat → Pcb) (pcbs : List Nat) (addr : Nat) : SpaceExit where
  pml4 := (pcb addr).pml4Phys
  shared := (pcbs.erase addr).any fun other => (pcb other).pml4Phys = (pcb addr).pml4Phys
  destroyed := (pcb addr).destroysSpace

/-- Free a control block with its user stack and its address space; its PID is not given back. -/
def procFreePcb (ops : FrameOps Frames) (addr : Nat) (kernel : TaskKernel Frames) :
    Option (Unit × TaskKernel Frames) := do
  let pages ← freeTaskStack ops (kernel.pcb addr) kernel.pages
  let pages ← leaveUserSpace ops (kernel.pcb addr) pages
  some ((), Kernel.updateTable { kernel with pages := pages } fun table =>
    { table with
      pcbs := table.pcbs.erase addr
      left := spaceExit kernel.pcb table.pcbs addr :: table.left })

def enqueueTask (task : Nat) (kernel : TaskKernel Frames) : TaskKernel Frames :=
  { kernel with runQueue := kernel.runQueue ++ [task], nrRunning := kernel.nrRunning + 1 }

def wakeTask (task : Nat) (kernel : TaskKernel Frames) : TaskKernel Frames :=
  enqueueTask task (kernel.updatePcb task fun pcb => { pcb with state := .ready })

/-- The tasks that sleep until a thread exits; one that has been woken left the queue. -/
def sleepingJoiners (target : Nat) (pcb : Nat → Pcb) (joining : List Joiner) : List Nat :=
  (joining.filter fun joiner =>
    joiner.target = target ∧ (pcb joiner.task).state = .blocked).map Joiner.task

/-- Wake the tasks that sleep until a thread exits. -/
def wakeJoiners (target : Nat) (kernel : TaskKernel Frames) : TaskKernel Frames :=
  (sleepingJoiners target kernel.pcb kernel.table.joining).foldl
    (fun kernel task => wakeTask task kernel) kernel

/-- What `schedule` sees of the kernel; the tasks of a run are those that are not idle. -/
def kernelView : SchedView (TaskKernel Frames) Nat where
  current := Kernel.current
  idle _ := none
  state kernel task := (kernel.pcb task).state
  setState task state kernel := kernel.updatePcb task fun pcb => { pcb with state := state }
  enqueue := enqueueTask
  dequeue task kernel := { kernel with
    runQueue := kernel.runQueue.erase task
    nrRunning := if 0 < kernel.nrRunning then kernel.nrRunning - 1 else kernel.nrRunning }
  arrive next kernel := { kernel with current := some next }

/-- Schedule another task of the run queue, or nothing when the current task goes on. -/
def scheduleTo (next : Option Nat) (kernel : TaskKernel Frames) :
    Option (Unit × TaskKernel Frames) :=
  if ∀ task ∈ next, task ∈ kernel.runQueue ∧ kernel.current ≠ some task then
    some ((), kernelView.schedule next kernel)
  else none

/-- The parts of the kernel that the calls use. -/
def taskServices (ops : FrameOps Frames) (kernelPml4 : Nat) (grants : Grants) :
    Services (PidTable Frames) where
  frames := tableFrames ops
  procAllocPcb kernel := some (procAllocPcb grants.pcb kernel)
  procFreePcb := procFreePcb ops
  -- The assertions of the bitmap never fail here.
  pidAlloc kernel :=
    match pidAlloc kernel.table.pids with
    | some (pid, pids) => (pid, kernel.updateTable fun table => { table with pids := pids })
    | none => (-1, kernel)
  pidFree pid kernel :=
    match pidFree kernel.table.pids pid with
    | some pids => kernel.updateTable fun table => { table with pids := pids }
    | none => kernel
  vmmCreateUserSpace kernel :=
    let (space, pages) := vmmCreateUserSpace (tableFrames ops).source kernelPml4 kernel.pages
    (space, { kernel with pages := pages })
  allocJoinWaiters kernel := (grants.joinWaiters, kernel)
  wakeUpAll := wakeJoiners
  enqueue := enqueueTask
  schedule := scheduleTo grants.next
  waitForZombie _ _ := none

section Parts

variable {Alloc : Type} (services : Services Alloc)

/-- The thread that a join is for, and whether it has to be waited for. -/
def joinTarget (tid : Int) (kernel : Kernel Alloc) : Option (Nat × Bool) := do
  let current ← kernel.current
  let target ← procFindByTid tid kernel
  if (kernel.pcb target).tgid ≠ (kernel.pcb current).tgid then none
  else if (kernel.pcb target).detached then none
  else some (target, (kernel.pcb target).state ≠ .zombie ∧ (kernel.pcb target).joinWaiters)

def detachTarget (tid : Int) (kernel : Kernel Alloc) : Option Nat := do
  let current ← kernel.current
  let target ← procFindByTid tid kernel
  if (kernel.pcb target).tgid ≠ (kernel.pcb current).tgid then none else some target

theorem procThreadJoin_eq (tid : Int) (retval : Nat) (kernel : Kernel Alloc) :
    procThreadJoin services tid retval kernel =
      match joinTarget tid kernel with
      | none => (pure (-1) : KernelCall Alloc Int) kernel
      | some (target, waits) =>
        (Logged.onlyIf waits (Logged.act (services.waitForZombie target)) >>= fun _ =>
          collectThread services target retval) kernel := by
  -- Both sides make the same checks in the same order.
  unfold procThreadJoin joinTarget
  rw [procCurrent_bind]
  cases now : kernel.current with
  | none => rfl
  | some current =>
    simp only [Logged.read_bind, Option.bind_eq_bind, Option.bind_some]
    cases found : procFindByTid tid kernel with
    | none => rfl
    | some target =>
      simp only [Option.bind_some]
      split
      · rfl
      split
      · rfl
      split
      · rename_i zombie
        simp [zombie, Logged.onlyIf]
      · rename_i alive
        have waits : decide ((kernel.pcb target).state ≠ .zombie ∧ (kernel.pcb target).joinWaiters) =
            (kernel.pcb target).joinWaiters := by simp [alive]
        rw [waits]

end Parts

/-- The calls that a run is made of. -/
inductive TaskCall
  | fork
  | kernelThread (fn arg : Nat)
  | userThread (parent entry arg stackAddr stackSize : Nat)
  | exit (exitCode : Int)
  | threadExit (retval : Nat)
  | wait4 (pid : Int) (wstatus : Nat) (options : Int)
  | join (tid : Int) (retval : Nat)
  -- A join that waited comes back after its target has exited.
  | joined
  | detach (tid : Int)
  | schedule
  deriving DecidableEq, Repr

/-- Let the current task wait for a thread it joins. -/
def waitToJoin (grants : Grants) (target retval : Nat) (kernel : TaskKernel Frames) :
    Option (TaskKernel Frames) := do
  let current ← kernel.current
  let kernel := kernel.updatePcb current fun pcb => { pcb with state := .blocked }
  let ((), kernel) ← scheduleTo grants.next (kernel.updateTable fun table =>
    { table with joining := table.joining ++ [⟨current, target, retval⟩] })
  some kernel

/-- The join of the current task that can come back. -/
def endedJoin (kernel : TaskKernel Frames) : Option Joiner := do
  let current ← kernel.current
  kernel.table.joining.find? fun joiner =>
    joiner.task = current ∧ (kernel.pcb joiner.target).state = .zombie

/-- Perform a call. The heap grants no address that is in use. -/
def TaskCall.perform (ops : FrameOps Frames) (kernelPml4 : Nat) (grants : Grants)
    (kernel : TaskKernel Frames) (call : TaskCall) : Option (TaskKernel Frames) :=
  let services := taskServices ops kernelPml4 grants
  if ∃ addr ∈ grants.pcb, addr ∈ kernel.table.pcbs then none
  else
    match call with
    | .fork => (procFork services).finish kernel
    | .kernelThread fn arg => (procCreateKernelThread services kernelPml4 fn arg).finish kernel
    | .userThread parent entry arg stackAddr stackSize =>
      (procCreateUserThread services parent entry arg stackAddr stackSize).finish kernel
    | .exit exitCode =>
      (exitCurrent exitCode >>= fun _ => Logged.act services.schedule).finish kernel
    | .threadExit retval =>
      (exitThread services retval >>= fun _ => Logged.act services.schedule).finish kernel
    | .wait4 pid wstatus options => (procWait4 services pid wstatus options).finish kernel
    | .join tid retval =>
      match joinTarget tid kernel with
      | some (target, true) => waitToJoin grants target retval kernel
      | _ => (procThreadJoin services tid retval).finish kernel
    | .joined => do
      let joiner ← endedJoin kernel
      (collectThread services joiner.target joiner.retval).finish (kernel.updateTable fun table =>
        { table with joining := table.joining.erase joiner })
    | .detach tid => (procThreadDetach services tid).finish kernel
    | .schedule => (scheduleTo grants.next kernel).map Prod.snd

/-- Whether a call frees the control block of a task. -/
def TaskCall.reaps (kernel : TaskKernel Frames) : TaskCall → Bool
  | .wait4 pid _ _ => kernel.current.any fun current =>
      (findZombie pid current kernel).any Option.isSome
  | .threadExit _ => kernel.current.any fun current => (kernel.pcb current).detached
  | .join tid _ => (joinTarget tid kernel).any fun (_, waits) => !waits
  | .joined => true
  | .detach tid => (detachTarget tid kernel).any fun target => (kernel.pcb target).state = .zombie
  | _ => false

def Kernel.procInit (kernel : TaskKernel Frames) (pids : Bitmap) : TaskKernel Frames :=
  Kernel.updateTable { kernel with current := none, runQueue := [], nrRunning := 0 } fun table =>
    ⟨table.frames, pids, [], [], []⟩

end Ccos
