import Ccos.Lib.ByteMem
import Ccos.Lib.Logged
import Ccos.Lib.Ring
import Ccos.Process.Schedule
import Ccos.Sync.Atomic
import Ccos.User.Mmap

/-! The processes and threads of `process/process.c` and `process/thread.c` behind the system
calls, with each store through a pointer that a caller handed in recorded as an event. -/

namespace Ccos

open Lib

/-- A node of the lists that tie processes to their children: the list head in a parent, or the
node in a child. -/
inductive FamilyNode
  | children (pcb : Nat)
  | siblings (pcb : Nat)
  deriving DecidableEq, Repr

/-- The parts of a process control block that the system calls read or set. -/
structure Pcb where
  pid : Int
  ppid : Int
  state : ProcState
  exitCode : Int
  /-- The head of the list of a process's own zombies and also its node in the list of its parent;
  the links name control blocks. -/
  zombieChildren : ListHead Nat
  children : ListHead FamilyNode
  siblings : ListHead FamilyNode
  pml4Phys : Nat
  /-- The users of the address space, as far as this control block knows. -/
  mmRefcount : Int
  brk : Nat
  isUserMode : Bool
  userStack : Nat
  userStackSize : Nat
  parent : Option Nat
  tgid : Int
  isThread : Bool
  threadList : List Nat
  /-- Whether the queue of joining threads is allocated. -/
  joinWaiters : Bool
  detached : Bool
  returnValue : Nat
  threadEntry : Nat
  threadArg : Nat

structure SyscallStats where
  totalCalls : Nat
  syscallCalls : Nat → Nat
  errors : Nat
  notImplCount : Nat

/-- The kernel behind the system calls; a control block is named by its address. -/
structure Kernel (Alloc : Type) where
  pcb : Nat → Pcb
  current : Option Nat
  runQueue : List Nat
  nrRunning : UInt32
  pages : PageState Alloc
  nextThreadStack : Nat
  stats : SyscallStats

/-- A store of consecutive bytes through a virtual address that the caller handed in. -/
structure UserStore where
  addr : Nat
  bytes : List UInt8
  deriving DecidableEq, Repr

/-- What the system calls use of other parts of the kernel. Nothing means that a call never comes
back, and no part receives a pointer of the caller. -/
structure Services (Alloc : Type) where
  frames : FrameOps Alloc
  procAllocPcb : Kernel Alloc → Option (Option Nat × Kernel Alloc)
  procFreePcb : Nat → Kernel Alloc → Option (Unit × Kernel Alloc)
  pidAlloc : Kernel Alloc → Int × Kernel Alloc
  pidFree : Int → Kernel Alloc → Kernel Alloc
  vmmCreateUserSpace : Kernel Alloc → Option Nat × Kernel Alloc
  /-- The allocation of a queue for joining threads. -/
  allocJoinWaiters : Kernel Alloc → Bool × Kernel Alloc
  /-- The wake-up of all threads that wait to join this one. -/
  wakeUpAll : Nat → Kernel Alloc → Kernel Alloc
  /-- The choice of the round-robin class and `sched_enqueue_task`. -/
  enqueue : Nat → Kernel Alloc → Kernel Alloc
  /-- Other tasks run until the caller is switched to again. -/
  schedule : Kernel Alloc → Option (Unit × Kernel Alloc)
  /-- Other tasks run until the given thread is a zombie. -/
  waitForZombie : Nat → Kernel Alloc → Option (Unit × Kernel Alloc)

/-- A kernel call with the stores it makes through pointers of the caller. -/
abbrev KernelCall (Alloc : Type) := Logged (Kernel Alloc) UserStore

variable {Alloc : Type} (services : Services Alloc)

def Kernel.updatePcb (kernel : Kernel Alloc) (addr : Nat) (change : Pcb → Pcb) : Kernel Alloc :=
  { kernel with pcb := Function.update kernel.pcb addr (change (kernel.pcb addr)) }

def zombieLinks (pcb : Nat → Pcb) : RingLinks Nat :=
  fun addr => (pcb addr).zombieChildren

def onZombies (change : RingLinks Nat → RingLinks Nat) (pcb : Nat → Pcb) : Nat → Pcb :=
  fun addr => { pcb addr with zombieChildren := change (zombieLinks pcb) addr }

def familyLinks (pcb : Nat → Pcb) : RingLinks FamilyNode
  | .children addr => (pcb addr).children
  | .siblings addr => (pcb addr).siblings

def onFamily (change : RingLinks FamilyNode → RingLinks FamilyNode) (pcb : Nat → Pcb) :
    Nat → Pcb :=
  fun addr => { pcb addr with
    children := change (familyLinks pcb) (.children addr)
    siblings := change (familyLinks pcb) (.siblings addr) }

/-- No list of control blocks is longer than this; a walk that takes more steps never ends. -/
def listWalkLimit : Nat := 2 ^ 64

/-- Run an action on the page tables and the frames. -/
def onPages {Result : Type}
    (action : PageState Alloc → Option (Result × PageState Alloc)) : KernelCall Alloc Result :=
  Logged.act fun kernel => (action kernel.pages).map fun (result, pages) =>
    (result, { kernel with pages := pages })

/-- Call a service that always comes back. -/
def service {Result : Type} (action : Kernel Alloc → Result × Kernel Alloc) :
    KernelCall Alloc Result :=
  Logged.act fun kernel => some (action kernel)

def procCurrent : KernelCall Alloc (Option Nat) := do
  let kernel ← Logged.read
  return kernel.current

theorem procCurrent_bind {Result : Type} (next : Option Nat → KernelCall Alloc Result)
    (kernel : Kernel Alloc) : (procCurrent >>= next) kernel = next kernel.current kernel := rfl

/-- Find a thread: the current one, one on the run queue, or one in a thread list of those. -/
def procFindByTid (tid : Int) (kernel : Kernel Alloc) : Option Nat :=
  let matching (addr : Nat) : Bool := (kernel.pcb addr).pid = tid
  kernel.current.filter matching <|> kernel.runQueue.find? matching <|>
    (kernel.runQueue.flatMap fun addr => (kernel.pcb addr).threadList).find? matching

def freeUserStack (thread : Nat) : KernelCall Alloc Unit := do
  let kernel ← Logged.read
  let pcb := kernel.pcb thread
  onPages fun st => (threadFreeUserStack services.frames pcb.pml4Phys pcb.isUserMode pcb.userStack
    pcb.userStackSize st).map fun st => ((), st)

/-- Create a child process with an empty address space. -/
def procFork : KernelCall Alloc Int := do
  let some parent ← procCurrent | return -1
  let some child ← Logged.act services.procAllocPcb | return -1
  let pid ← service services.pidAlloc
  Logged.change fun kernel => kernel.updatePcb child fun pcb => { pcb with pid := pid }
  if pid < 0 then
    Logged.act (services.procFreePcb child)
    return -1
  Logged.change fun kernel => kernel.updatePcb child fun pcb => { pcb with
    ppid := (kernel.pcb parent).pid
    parent := some parent
    state := .ready
    tgid := pid
    isThread := false
    mmRefcount := 1 }
  let some pml4 ← service services.vmmCreateUserSpace
    | do
      Logged.change (services.pidFree pid)
      Logged.act (services.procFreePcb child)
      return -1
  Logged.change fun kernel => kernel.updatePcb child fun pcb => { pcb with
    pml4Phys := pml4
    brk := (kernel.pcb parent).brk }
  Logged.change fun kernel =>
    { kernel with pcb := onFamily (listAddTail (.siblings child) (.children parent)) kernel.pcb }
  Logged.change (services.enqueue child)
  let now ← procCurrent
  return if now = some child then 0 else pid

/-- Make the current process a zombie; without one the processor halts. -/
def exitCurrent (exitCode : Int) : KernelCall Alloc Unit := do
  let some current ← procCurrent | Logged.stop
  Logged.change fun kernel => kernel.updatePcb current fun pcb => { pcb with
    state := .zombie
    exitCode := exitCode }
  Logged.change fun kernel =>
    let kernel := { kernel with runQueue := kernel.runQueue.erase current }
    match (kernel.pcb current).parent with
    -- The same field of the exiting process may be the head of a list of its own.
    | some parent => { kernel with pcb := onZombies (listAddTail current parent) kernel.pcb }
    | none => kernel
  Logged.change fun kernel => { kernel with nrRunning := kernel.nrRunning - 1 }

/-- End the current process; it is never scheduled again. -/
def procExit (exitCode : Int) : KernelCall Alloc Int := do
  exitCurrent exitCode
  Logged.act services.schedule
  Logged.stop

/-- The first process on the zombie list that a wait is for; the walk may never end. -/
def findZombie (pid : Int) (current : Nat) (kernel : Kernel Alloc) : Option (Option Nat) :=
  listFind (zombieLinks kernel.pcb) listWalkLimit current fun child =>
    pid = -1 ∨ (kernel.pcb child).pid = pid

/-- Reap a zombie child, or block; the options are ignored. -/
def procWait4 (pid : Int) (wstatus : Nat) (_options : Int) : KernelCall Alloc Int := do
  let some current ← procCurrent | return -1
  let kernel ← Logged.read
  match findZombie pid current kernel with
  | none => Logged.stop
  | some (some target) =>
    let child := kernel.pcb target
    -- The status pointer is only compared with zero.
    Logged.onlyIf (wstatus ≠ 0)
      (Logged.record ⟨wstatus, leBytes 4 (child.exitCode % 2 ^ 32).toNat⟩)
    Logged.change fun kernel => { kernel with pcb := onZombies (listDel target) kernel.pcb }
    Logged.act (services.procFreePcb target)
    return child.pid
  | some none =>
    Logged.change fun kernel => kernel.updatePcb current fun pcb => { pcb with state := .blocked }
    Logged.act services.schedule
    return -1

/-- Give a thread the stack that its creator names, or a new one for stack address zero. -/
def giveThreadStack (parent thread stackAddr stackSize : Nat) : KernelCall Alloc Bool := do
  if stackAddr = 0 then
    let stackSize := if stackSize = 0 then threadStackSize else stackSize
    let kernel ← Logged.read
    let (top, next) ← onPages fun st => threadAllocUserStack services.frames
      (kernel.pcb parent).pml4Phys kernel.nextThreadStack stackSize st
    Logged.change fun kernel => { kernel with nextThreadStack := next }
    let some top := top | return false
    Logged.change fun kernel => kernel.updatePcb thread fun pcb =>
      { pcb with userStack := top, userStackSize := stackSize }
    return true
  else
    Logged.change fun kernel => kernel.updatePcb thread fun pcb =>
      { pcb with userStack := stackAddr, userStackSize := stackSize }
    return true

def procCreateUserThread (parent entry arg stackAddr stackSize : Nat) : KernelCall Alloc Int := do
  if entry = 0 then return -1
  let some thread ← Logged.act services.procAllocPcb | return -1
  let pid ← service services.pidAlloc
  Logged.change fun kernel => kernel.updatePcb thread fun pcb => { pcb with pid := pid }
  if pid < 0 then
    Logged.act (services.procFreePcb thread)
    return -1
  Logged.change fun kernel => kernel.updatePcb thread fun pcb =>
    let owner := kernel.pcb parent
    { pcb with
      ppid := owner.pid
      parent := some parent
      tgid := if owner.tgid ≠ 0 then owner.tgid else owner.pid
      isThread := true
      isUserMode := true
      state := .ready
      threadEntry := entry
      threadArg := arg
      pml4Phys := owner.pml4Phys
      brk := owner.brk }
  -- Each control block has a count of its own, and the thread starts with a copy.
  Logged.change fun kernel => kernel.updatePcb parent fun pcb =>
    { pcb with mmRefcount := Sync.atomicInc pcb.mmRefcount }
  Logged.change fun kernel => kernel.updatePcb thread fun pcb =>
    { pcb with mmRefcount := (kernel.pcb parent).mmRefcount }
  let stacked ← giveThreadStack services parent thread stackAddr stackSize
  if !stacked then
    Logged.change (services.pidFree pid)
    Logged.act (services.procFreePcb thread)
    return -1
  let allocated ← service services.allocJoinWaiters
  if !allocated then
    freeUserStack services thread
    Logged.change (services.pidFree pid)
    Logged.act (services.procFreePcb thread)
    return -1
  Logged.change fun kernel => kernel.updatePcb thread fun pcb => { pcb with joinWaiters := true }
  Logged.change fun kernel => kernel.updatePcb parent fun pcb =>
    { pcb with threadList := pcb.threadList ++ [thread] }
  Logged.change (services.enqueue thread)
  return pid

/-- Create a kernel thread, which uses the address space of the current task or the kernel's. -/
def procCreateKernelThread (kernelPml4 fn arg : Nat) : KernelCall Alloc (Option Nat) := do
  if fn = 0 then return none
  let some thread ← Logged.act services.procAllocPcb | return none
  let pid ← service services.pidAlloc
  Logged.change fun kernel => kernel.updatePcb thread fun pcb => { pcb with pid := pid }
  if pid < 0 then
    Logged.act (services.procFreePcb thread)
    return none
  Logged.change fun kernel => kernel.updatePcb thread fun pcb => { pcb with
    ppid := 0
    parent := none
    tgid := pid
    isThread := true
    isUserMode := false
    state := .ready
    threadEntry := fn
    threadArg := arg
    pml4Phys := match kernel.current with
      | some current => (kernel.pcb current).pml4Phys
      | none => kernelPml4 }
  let allocated ← service services.allocJoinWaiters
  if !allocated then
    Logged.change (services.pidFree pid)
    Logged.act (services.procFreePcb thread)
    return none
  Logged.change fun kernel => kernel.updatePcb thread fun pcb => { pcb with joinWaiters := true }
  Logged.change (services.enqueue thread)
  return some thread

/-- Make the current thread a zombie and wake the tasks that join it, or free it when detached. -/
def exitThread (retval : Nat) : KernelCall Alloc Unit := do
  let some current ← procCurrent | Logged.stop
  Logged.change fun kernel => kernel.updatePcb current fun pcb => { pcb with returnValue := retval }
  Logged.change fun kernel =>
    match (kernel.pcb current).parent with
    | some parent => kernel.updatePcb parent fun pcb =>
        { pcb with threadList := pcb.threadList.erase current }
    | none => kernel
  Logged.change fun kernel => kernel.updatePcb current fun pcb => { pcb with state := .zombie }
  let kernel ← Logged.read
  Logged.onlyIf (kernel.pcb current).detached do
    freeUserStack services current
    Logged.act (services.procFreePcb current)
  Logged.onlyIf (!(kernel.pcb current).detached ∧ (kernel.pcb current).joinWaiters)
    (Logged.change (services.wakeUpAll current))

/-- End the current thread; it is never scheduled again. -/
def procThreadExit (retval : Nat) : KernelCall Alloc Int := do
  exitThread services retval
  Logged.act services.schedule
  Logged.stop

/-- Store the return value of an ended thread and free the thread. -/
def collectThread (target retval : Nat) : KernelCall Alloc Int := do
  let kernel ← Logged.read
  Logged.onlyIf (retval ≠ 0)
    (Logged.record ⟨retval, leBytes 8 (kernel.pcb target).returnValue⟩)
  freeUserStack services target
  Logged.act (services.procFreePcb target)
  return 0

/-- Wait for a thread of the same group to end. -/
def procThreadJoin (tid : Int) (retval : Nat) : KernelCall Alloc Int := do
  let some current ← procCurrent | return -1
  let kernel ← Logged.read
  let some target := procFindByTid tid kernel | return -1
  if (kernel.pcb target).tgid ≠ (kernel.pcb current).tgid then return -1
  if (kernel.pcb target).detached then return -1
  if (kernel.pcb target).state = .zombie then collectThread services target retval
  else
    Logged.onlyIf (kernel.pcb target).joinWaiters (Logged.act (services.waitForZombie target))
    collectThread services target retval

def procThreadDetach (tid : Int) : KernelCall Alloc Int := do
  let some current ← procCurrent | return -1
  let kernel ← Logged.read
  let some target := procFindByTid tid kernel | return -1
  if (kernel.pcb target).tgid ≠ (kernel.pcb current).tgid then return -1
  Logged.change fun kernel => kernel.updatePcb target fun pcb => { pcb with detached := true }
  Logged.onlyIf ((kernel.pcb target).state = .zombie) do
    freeUserStack services target
    Logged.act (services.procFreePcb target)
  return 0

end Ccos
