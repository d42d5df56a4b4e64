import Ccos.Process.PidRun
import Ccos.Process.ThreadJoin

/-! Which freed tasks take their address space with them: the count of users is kept in each control
block, so it is right as long as no two tasks share an address space. -/

namespace Ccos

open Lib Lib.Logged

variable {Frames : Type} {kernelPml4 : Nat} {grants : Grants}

/-- An address space was destroyed exactly when it was a user's and no task that is not freed had
it any more. -/
@[grind =] def SpaceExit.Right (kernelPml4 : Nat) (exit : SpaceExit) : Prop :=
  exit.destroyed = true ↔ exit.pml4 ≠ 0 ∧ exit.pml4 ≠ kernelPml4 ∧ exit.shared = false

/-- A task has an address space of its own, without user pages. -/
structure Pcb.OwnSpace (source : FrameSource Frames) (memory : PhysMem × Frames) (pcb : Pcb) :
    Prop where
  nonzero : pcb.pml4Phys ≠ 0
  aligned : pcb.pml4Phys % pageSize = 0
  used : source.inUse memory.2 pcb.pml4Phys
  empty : ∀ i < 256, memory.1 (pcb.pml4Phys + 8 * i) = 0
  single : pcb.mmRefcount = 1

/-- What the address spaces depend on in a control block. -/
@[grind] structure Pcb.SameSpace (before after : Pcb) : Prop where
  pml4 : after.pml4Phys = before.pml4Phys
  users : after.mmRefcount = before.mmRefcount
  mode : after.isUserMode = before.isUserMode

/-- Every task uses the kernel's address space or has one of its own, and every address space that
was left was treated right. -/
@[grind] structure TaskView.Spaces (source : FrameSource Frames) (kernelPml4 : Nat)
    (memory : PhysMem × Frames) (view : TaskView) : Prop where
  sized : view.pids.nbits = pidMax
  zero : 0 ∈ pidMarks view.pids
  blocks : view.pcbs.Nodup
  reserved : source.inUse memory.2 kernelPml4
  kernelMode : ∀ task ∈ view.pcbs, (view.pcb task).isUserMode = false
  own : ∀ task ∈ view.pcbs, (view.pcb task).pml4Phys ≠ kernelPml4 →
    (view.pcb task).OwnSpace source memory
  apart : ∀ task ∈ view.pcbs, ∀ other ∈ view.pcbs, (view.pcb task).pml4Phys ≠ kernelPml4 →
    (view.pcb other).pml4Phys = (view.pcb task).pml4Phys → other = task
  log : ∀ exit ∈ view.left, exit.Right kernelPml4

variable {source : FrameSource Frames} {memory after : PhysMem × Frames} {view last : TaskView}
  {pcb : Pcb}

theorem Pcb.OwnSpace.mono (own : pcb.OwnSpace source memory)
    (used : source.inUse after.2 pcb.pml4Phys)
    (same : ∀ addr, addr / pageSize = pcb.pml4Phys / pageSize → after.1 addr = memory.1 addr) :
    pcb.OwnSpace source after := by
  refine ⟨own.nonzero, own.aligned, used, fun i low => ?_, own.single⟩
  rw [same]
  · exact own.empty i low
  · have aligned := own.aligned
    simp only [pageSize, pageShift] at aligned ⊢
    omega

theorem Pcb.OwnSpace.congr {content : Pcb} (own : pcb.OwnSpace source memory)
    (same : pcb.SameSpace content) : content.OwnSpace source memory :=
  ⟨same.pml4 ▸ own.nonzero, same.pml4 ▸ own.aligned, same.pml4 ▸ own.used, same.pml4 ▸ own.empty,
    same.users.trans own.single⟩

namespace TaskView.Spaces

section

variable (spaces : view.Spaces source kernelPml4 memory)
include spaces

theorem congr (sized : last.pids.nbits = pidMax) (zero : 0 ∈ pidMarks last.pids)
    (pcbs : last.pcbs = view.pcbs)
    (same : ∀ task ∈ view.pcbs, (view.pcb task).SameSpace (last.pcb task))
    (log : ∀ exit ∈ last.left, exit.Right kernelPml4) : last.Spaces source kernelPml4 memory := by
  refine ⟨sized, zero, pcbs ▸ spaces.blocks, spaces.reserved, fun task live => ?_,
    fun task live user => ?_, fun task live other live' user equal => ?_, log⟩
  all_goals rw [pcbs] at live
  · grind
  · rw [(same task live).pml4] at user
    exact (spaces.own task live user).congr (same task live)
  grind

theorem refused (same : after.1 = memory.1)
    (used : ∀ other, source.inUse after.2 other ↔ source.inUse memory.2 other) :
    view.Spaces source kernelPml4 after :=
  ⟨spaces.sized, spaces.zero, spaces.blocks, (used _).mpr spaces.reserved, spaces.kernelMode,
    fun task live user => (spaces.own task live user).mono
      ((used _).mpr (spaces.own task live user).used) fun addr _ => congrFun same addr,
    spaces.apart, spaces.log⟩

theorem undone (back : view.Undone 0 last) :
    last.Spaces source kernelPml4 memory := by
  refine spaces.congr back.sized ((back.marks 0).mpr spaces.zero) back.blocks
    (fun task live => ?_) fun exit member => ?_
  · rw [back.content live]
    exact ⟨rfl, rfl, rfl⟩
  · obtain ⟨addr, pcb, _, spaceless, same⟩ := back.same
    rw [same] at member
    rcases List.mem_cons.mp member with rfl | old
    · -- There was nothing to destroy.
      simp [SpaceExit.Right, spaceExit, Pcb.destroysSpace, spaceless]
    · exact spaces.log exit old

theorem granted {pml4 : Nat} (unused : ¬source.inUse memory.2 pml4) (aligned : pml4 % pageSize = 0)
    (used : ∀ other, source.inUse after.2 other ↔ source.inUse memory.2 other ∨ other = pml4)
    (same : ∀ addr, addr / pageSize ≠ pml4 / pageSize → after.1 addr = memory.1 addr) :
    view.Spaces source kernelPml4 after := by
  refine ⟨spaces.sized, spaces.zero, spaces.blocks, (used _).mpr (.inl spaces.reserved),
    spaces.kernelMode, fun task live user => ?_, spaces.apart, spaces.log⟩
  have own := spaces.own task live user
  refine own.mono ((used _).mpr (.inl own.used)) fun addr inside => same addr fun equal => ?_
  -- Two aligned frames with the same number are the same frame.
  refine unused ?_
  have number := own.aligned
  simp only [pageSize, pageShift] at aligned number inside equal
  rw [show pml4 = (view.pcb task).pml4Phys by omega]
  exact own.used

theorem add {addr pid : Nat} {pids : Bitmap} (fresh : addr ∉ view.pcbs)
    (taken : PidTaken view.pids pids pid) (mode : pcb.isUserMode = false)
    (space : pcb.pml4Phys ≠ kernelPml4 → pcb.OwnSpace source memory ∧
      ∀ task ∈ view.pcbs, (view.pcb task).pml4Phys ≠ pcb.pml4Phys) :
    (view.add addr pcb pids).Spaces source kernelPml4 memory := by
  have old {task : Nat} (live : task ∈ view.pcbs) :
      (view.add addr pcb pids).pcb task = view.pcb task :=
    add_pcb_of_ne fun equal => fresh (equal ▸ live)
  refine ⟨taken.sized, (taken.marks 0).mpr (.inl spaces.zero),
    List.nodup_cons.mpr ⟨fresh, spaces.blocks⟩, spaces.reserved, fun task live => ?_,
    fun task live user => ?_, fun task live other live' user equal => ?_, spaces.log⟩
  -- The new task does not have the address space of another one.
  all_goals grind

theorem drop {addr : Nat} (live : addr ∈ view.pcbs) (user : (view.pcb addr).pml4Phys ≠ kernelPml4)
    (same : after.1 = memory.1)
    (used : ∀ other, source.inUse after.2 other ↔
      source.inUse memory.2 other ∧ other ≠ (view.pcb addr).pml4Phys) :
    (view.drop addr).Spaces source kernelPml4 after := by
  have left {task : Nat} (member : task ∈ view.pcbs.erase addr) : task ∈ view.pcbs ∧ task ≠ addr :=
    (spaces.blocks.mem_erase_iff.mp member).symm
  refine ⟨spaces.sized, spaces.zero, spaces.blocks.erase addr,
    (used _).mpr ⟨spaces.reserved, user.symm⟩,
    fun task member => spaces.kernelMode task (left member).1, fun task member space => ?_,
    fun task member other member' => spaces.apart task (left member).1 other (left member').1,
    fun exit member => ?_⟩
  · obtain ⟨inside, differs⟩ := left member
    have own := spaces.own task inside space
    refine own.mono ((used _).mpr ⟨own.used, fun equal => differs ?_⟩) fun other _ =>
      congrFun same other
    exact spaces.apart addr live task inside user equal
  · rcases List.mem_cons.mp member with rfl | old
    · -- Nobody else has the address space, and the count of its only user says so.
      have own := spaces.own addr live user
      have last : Sync.atomicDec 1 = 0 := by decide
      have destroys : (view.pcb addr).destroysSpace = true := by
        simp [Pcb.destroysSpace, own.nonzero, own.single, last]
      have unshared : (view.pcbs.erase addr).any (fun other =>
          (view.pcb other).pml4Phys = (view.pcb addr).pml4Phys) = false := by
        grind
      exact ⟨fun _ => ⟨own.nonzero, user, unshared⟩, fun _ => destroys⟩
    · exact spaces.log exit old

end

end TaskView.Spaces

section Steps

variable {ops : LawfulFrameOps Frames} {kernel next : TaskKernel Frames}

/-- The address spaces of a kernel are in order. -/
def Kernel.Spaces (ops : LawfulFrameOps Frames) (kernelPml4 : Nat) (kernel : TaskKernel Frames) :
    Prop :=
  kernel.tasks.Spaces ops.source kernelPml4 kernel.memory

/-- Creating an address space is refused or takes a frame that was not in use. -/
theorem createUserSpace_gives :
    Gives (service (taskServices ops.toFrameOps kernelPml4 grants).vmmCreateUserSpace) kernel
      fun space last => last.tasks = kernel.tasks ∧
        match space with
        | none => last.memory.1 = kernel.memory.1 ∧
            ∀ other, ops.source.inUse last.memory.2 other ↔ ops.source.inUse kernel.memory.2 other
        | some pml4 => NewSpace (ops.source.inUse kernel.memory.2) (ops.source.inUse last.memory.2)
            kernel.memory.1 last.memory.1 pml4 := by
  intro space returned
  refine ⟨createUserSpace_keeps kernel space returned, ?_⟩
  rcases made : vmmCreateUserSpace (tableFrames ops.toFrameOps).source kernelPml4 kernel.pages with
    ⟨given, pages⟩
  have ran : service (taskServices ops.toFrameOps kernelPml4 grants).vmmCreateUserSpace kernel =
      ([], { kernel with pages := pages }, some given) := by
    simp only [service, Logged.act, taskServices, made]
  rw [ran] at returned ⊢
  obtain rfl := Option.some.inj returned
  cases given with
  | none =>
    obtain ⟨frames, rfl, used⟩ := vmmCreateUserSpace_refused made
    exact ⟨rfl, used⟩
  | some pml4 => exact vmmCreateUserSpace_new made

theorem procFork_spaces (spaces : kernel.Spaces ops kernelPml4)
    (unused : ¬∃ addr ∈ grants.pcb, addr ∈ kernel.table.pcbs) :
    Gives (procFork (taskServices ops.toFrameOps kernelPml4 grants)) kernel
      fun _ last => last.Spaces ops kernelPml4 := by
  refine .bind (.bind (.read (.pure ?_)))
  cases now : kernel.current with
  | none => exact .pure spaces
  | some parent =>
    refine newTask_gives spaces.sized spaces.zero unused spaces (fun last undone same => ?_)
      fun child pid pids first _ _ fresh taken added memory => .bind (.change ?_)
    · unfold Kernel.Spaces
      rw [same]
      exact TaskView.Spaces.undone spaces undone
    refine .bind (createUserSpace_gives.mono fun space second made => ?_)
    obtain ⟨same, made⟩ := made
    have added' := same.trans (updatePcb_added added _)
    cases space with
    | none =>
      -- Without an address space the child is taken back.
      refine undo_gives fresh taken added' fun last undone cleaned => ?_
      unfold Kernel.Spaces
      rw [cleaned rfl rfl]
      refine (TaskView.Spaces.undone spaces undone).refused (made.1.trans ?_)
        fun other => (made.2 other).trans ?_
      · exact congrArg Prod.fst memory
      · exact iff_of_eq (congrArg (fun memory => ops.source.inUse memory.2 other) memory)
    | some pml4 =>
      refine .bind (.change (.bind (.change (.bind (.change ?_)))))
      refine .bind (.bind (.read (.pure (.pure ?_))))
      have filled := updatePcb_added added' fun pcb =>
        { pcb with pml4Phys := pml4, brk := (second.pcb parent).brk }
      change NewSpace (ops.source.inUse first.memory.2) _ first.memory.1 _ pml4 at made
      rw [memory] at made
      obtain ⟨unusedFrame, nonzero, aligned, _, used, empty, kept⟩ := made
      -- The child has a frame that no other task has.
      have grown := TaskView.Spaces.granted spaces unusedFrame aligned used kept
      have known : TaskView.Spaces ops.source kernelPml4 second.memory (Kernel.tasks
          (second.updatePcb child fun pcb =>
            { pcb with pml4Phys := pml4, brk := (second.pcb parent).brk })) := by
        rw [filled]
        refine grown.add fresh taken rfl fun _ => ⟨⟨nonzero, aligned, (used pml4).mpr (.inr rfl),
          empty, rfl⟩, fun task live equal => unusedFrame ?_⟩
        change (kernel.tasks.pcb task).pml4Phys = pml4 at equal
        by_cases user : (kernel.tasks.pcb task).pml4Phys = kernelPml4
        · rw [← equal, user]
          exact spaces.reserved
        · rw [← equal]
          exact (spaces.own task live user).used
      exact known.congr known.sized known.zero rfl (fun _ _ => ⟨rfl, rfl, rfl⟩) known.log

/-- Whether a creation gets a control block and a PID. -/
def Grants.giveTask (grants : Grants) (kernel : TaskKernel Frames) (entry : Nat) : Bool :=
  entry ≠ 0 ∧ grants.pcb.isSome ∧ (pidAlloc kernel.table.pids).any fun (pid, _) => 0 ≤ pid

theorem procCreateKernelThread_spaces (spaces : kernel.Spaces ops kernelPml4)
    (unused : ¬∃ addr ∈ grants.pcb, addr ∈ kernel.table.pcbs) {fn : Nat} (arg : Nat)
    (within : grants.giveTask kernel fn = true → grants.joinWaiters = true ∧
      kernel.CurrentLive ∧ kernel.threadSpace kernelPml4 = kernelPml4) :
    Gives (procCreateKernelThread (taskServices ops.toFrameOps kernelPml4 grants) kernelPml4 fn arg)
      kernel fun _ last => last.Spaces ops kernelPml4 := by
  unfold procCreateKernelThread
  split
  · exact .pure spaces
  rename_i starts
  refine newTask_gives spaces.sized spaces.zero unused spaces (fun last undone same => ?_)
    fun thread pid pids first granted numbered fresh taken added memory => .bind (.change ?_)
  · unfold Kernel.Spaces
    rw [same]
    exact TaskView.Spaces.undone spaces undone
  obtain ⟨queue, live, space⟩ := within (by simp [Grants.giveTask, starts, granted, numbered])
  refine .bind (.act fun allocated second given => ?_)
  obtain ⟨rfl, rfl⟩ := Prod.mk.inj (Option.some.inj given)
  rw [if_neg (by simp [queue])]
  refine .bind (.change (.bind (.change (.pure ?_))))
  have filled := updatePcb_added (updatePcb_added added fun pcb => { pcb with
    ppid := 0
    parent := none
    tgid := pid
    isThread := true
    isUserMode := false
    state := .ready
    threadEntry := fn
    threadArg := arg
    pml4Phys := first.threadSpace kernelPml4 }) fun pcb => { pcb with joinWaiters := true }
  have kernels : first.threadSpace kernelPml4 = kernelPml4 :=
    (threadSpace_added added fresh live).trans space
  have known : TaskView.Spaces ops.source kernelPml4 first.memory
      (kernel.tasks.add thread (kernelThreadPcb thread pid (first.threadSpace kernelPml4) fn arg)
        pids) := by
    rw [memory]
    exact TaskView.Spaces.add spaces fresh taken rfl fun user => absurd kernels user
  have same := filled.symm ▸ known
  exact same.congr same.sized same.zero rfl (fun _ _ => ⟨rfl, rfl, rfl⟩) same.log

theorem procCreateUserThread_spaces (spaces : kernel.Spaces ops kernelPml4)
    (unused : ¬∃ addr ∈ grants.pcb, addr ∈ kernel.table.pcbs) {entry : Nat}
    (parent arg stackAddr stackSize : Nat) (without : grants.giveTask kernel entry = false) :
    Gives (procCreateUserThread (taskServices ops.toFrameOps kernelPml4 grants) parent entry arg
      stackAddr stackSize) kernel fun _ last => last.Spaces ops kernelPml4 := by
  unfold procCreateUserThread
  split
  · exact .pure spaces
  rename_i starts
  refine newTask_gives spaces.sized spaces.zero unused spaces (fun last undone same => ?_)
    fun thread pid pids _ granted numbered _ _ _ _ => ?_
  · unfold Kernel.Spaces
    rw [same]
    exact TaskView.Spaces.undone spaces undone
  · simp [Grants.giveTask, starts, granted, numbered] at without

theorem procFreePcb_spaces (spaces : kernel.Spaces ops kernelPml4) {addr : Nat}
    (live : addr ∈ kernel.table.pcbs) (user : (kernel.pcb addr).pml4Phys ≠ kernelPml4)
    (done : procFreePcb ops.toFrameOps addr kernel = some ((), next)) :
    next.Spaces ops kernelPml4 := by
  have own := spaces.own addr live user
  have mode : (kernel.pcb addr).isUserMode = false := spaces.kernelMode addr live
  have count : (kernel.pcb addr).mmRefcount = 1 := own.single
  have nonzero : (kernel.pcb addr).pml4Phys ≠ 0 := own.nonzero
  have last : Sync.atomicDec 1 = 0 := by decide
  have destroys : (kernel.pcb addr).destroysSpace = true := by
    simp [Pcb.destroysSpace, nonzero, count, last]
  have tasks := tasks_procFreePcb done
  have empty : ∀ i < 256, kernel.pages.mem ((kernel.pcb addr).pml4Phys + 8 * i) = 0 := own.empty
  -- There is no user stack, and the address space has no user pages.
  simp only [procFreePcb, freeTaskStack, mode, leaveUserSpace, destroys, Bool.false_eq_true,
    false_and, if_false, if_true, Option.bind_eq_bind, Option.bind_some,
    vmmDestroyUserSpace_empty empty, Option.bind_eq_some_iff] at done
  obtain ⟨pages, freed, done⟩ := done
  cases done
  obtain ⟨table, taken, rfl⟩ := Option.map_eq_some_iff.mp freed
  obtain ⟨frames, given, rfl⟩ := Option.map_eq_some_iff.mp taken
  unfold Kernel.Spaces
  rw [tasks]
  exact TaskView.Spaces.drop spaces live user rfl (ops.frees _ _ _ given nonzero)

theorem TaskView.Scheduled.sameSpaces {chosen : Option Nat} (switched : view.Scheduled chosen last) :
    last.pids = view.pids ∧ last.pcbs = view.pcbs ∧ last.left = view.left ∧
      ∀ task, (view.pcb task).SameSpace (last.pcb task) := by
  have state {view : TaskView} (addr task : Nat) (state : ProcState) : (view.pcb task).SameSpace
      ((view.set addr { view.pcb addr with state := state }).pcb task) := by
    grind
  cases chosen with
  | none =>
    obtain rfl : last = view := switched
    exact ⟨rfl, rfl, rfl, fun _ => ⟨rfl, rfl, rfl⟩⟩
  | some next =>
    obtain ⟨_, rfl⟩ := switched
    -- The task that stops and the one that starts get another state.
    grind

theorem scheduleTo_spaces (spaces : kernel.Spaces ops kernelPml4) {chosen : Option Nat}
    (done : scheduleTo chosen kernel = some ((), next)) : next.Spaces ops kernelPml4 := by
  obtain ⟨pids, pcbs, left, same⟩ := (tasks_scheduleTo done).sameSpaces
  have memory : next.memory = kernel.memory := by
    unfold scheduleTo at done
    split at done
    · cases done
      exact SchedView.schedule_keeps Kernel.memory (fun _ _ _ => rfl) (fun _ _ => rfl)
        (fun _ _ => rfl) (fun _ _ => rfl) chosen kernel
    · cases done
  unfold Kernel.Spaces
  rw [memory]
  exact TaskView.Spaces.congr spaces (pids ▸ spaces.sized) (pids ▸ spaces.zero) pcbs
    (fun task _ => same task) (left ▸ spaces.log)

/-- What a run of address spaces is made of: creations and switches, and frees of tasks. -/
inductive SpaceAction
  | task (call : TaskCall) (grants : Grants)
  | free (addr : Nat)

/-- Whether a call creates a task or switches tasks. -/
def TaskCall.creates : TaskCall → Bool
  | .fork | .kernelThread .. | .userThread .. | .schedule => true
  | _ => false

def SpaceAction.perform (ops : FrameOps Frames) (kernelPml4 : Nat) (kernel : TaskKernel Frames) :
    SpaceAction → Option (TaskKernel Frames)
  | .task call grants => if call.creates then call.perform ops kernelPml4 grants kernel else none
  | .free addr => if addr ∈ kernel.table.pcbs then (procFreePcb ops addr kernel).map Prod.snd else none

/-- Whether an action leaves no two tasks with one address space of a user and frees no task in the
kernel's: a user thread is not begun, and a kernel thread is completed in the kernel's space. -/
def SpaceAction.unshared (kernelPml4 : Nat) (kernel : TaskKernel Frames) : SpaceAction → Bool
  | .task (.userThread _ entry _ _ _) grants => !grants.giveTask kernel entry
  | .task (.kernelThread fn _) grants => grants.giveTask kernel fn → grants.joinWaiters ∧
      kernel.current.all fun current => current ∈ kernel.table.pcbs ∧
        (kernel.pcb current).pml4Phys = kernelPml4
  | .task _ _ => true
  | .free addr => (kernel.pcb addr).pml4Phys ≠ kernelPml4

/-- An action without sharing keeps the address spaces in order. -/
theorem SpaceAction.perform_spaces {action : SpaceAction} (spaces : kernel.Spaces ops kernelPml4)
    (unshared : action.unshared kernelPml4 kernel = true)
    (done : action.perform ops.toFrameOps kernelPml4 kernel = some next) :
    next.Spaces ops kernelPml4 := by
  cases action with
  | free addr =>
    simp only [SpaceAction.perform] at done
    split at done
    · rename_i live
      obtain ⟨⟨_, last⟩, freed, rfl⟩ := Option.map_eq_some_iff.mp done
      exact procFreePcb_spaces spaces live (of_decide_eq_true unshared) freed
    · cases done
  | task call grants =>
    simp only [SpaceAction.perform] at done
    split at done
    swap
    · cases done
    rename_i creates
    unfold TaskCall.perform at done
    split at done
    · cases done
    rename_i unused
    cases call with
    | fork => exact (procFork_spaces spaces unused).finishes done
    | kernelThread fn arg =>
      refine (procCreateKernelThread_spaces spaces unused arg fun given => ?_).finishes done
      obtain ⟨queue, current⟩ := of_decide_eq_true unshared given
      refine ⟨queue, fun task now => ?_, ?_⟩
      · grind
      · unfold Kernel.threadSpace
        grind
    | userThread parent entry arg stackAddr stackSize =>
      refine (procCreateUserThread_spaces spaces unused parent arg stackAddr stackSize ?_).finishes
        done
      simpa [SpaceAction.unshared] using unshared
    | schedule =>
      obtain ⟨⟨_, last⟩, switched, rfl⟩ := Option.map_eq_some_iff.mp done
      exact scheduleTo_spaces spaces switched
    | _ => cases creates

/-- In every run of creations, switches and frees in which no address space is shared and no task in
the kernel's is freed, an address space is destroyed exactly when the last task that has it is
freed, and the kernel's never is. -/
theorem spaces_left_right {buffer : Nat → Byte} {pids : Bitmap} {boot last : TaskKernel Frames}
    {actions : List SpaceAction} (started : pidAllocInit buffer = some pids)
    (reserved : ops.source.inUse boot.table.frames kernelPml4)
    (run : Run (fun before action after => action.unshared kernelPml4 before = true ∧
      action.perform ops.toFrameOps kernelPml4 before = some after) (boot.procInit pids) actions
      last) :
    ∀ exit ∈ last.table.left, exit.Right kernelPml4 := by
  have orderly := procInit_orderly boot started
  have kept := run.preserves (fun kernel => kernel.Spaces ops kernelPml4)
    (fun before action after taken spaces => SpaceAction.perform_spaces spaces taken.1 taken.2)
    ⟨orderly.sized, orderly.zero, List.nodup_nil, reserved, nofun, nofun, nofun, nofun⟩
  exact kept.log

end Steps

/-- A kernel thread starts and forks a process. -/
def processStarts : List SpaceAction :=
  (forkAndExit.take 3).map fun (call, grants) => .task call grants

/-- The process is freed, and its address space is destroyed. -/
theorem spaces_left_right_process :
    ∃ last, Run (fun before action after => action.unshared 0x5000 before = true ∧
        action.perform pframeLawfulOps.toFrameOps 0x5000 before = some after)
        (bootKernel.procInit bootPids) (processStarts ++ [.free 0x2000]) last ∧
      ∃ exit ∈ last.table.left, exit.destroyed = true ∧ exit.Right 0x5000 := by
  refine Run.exists_by_if (fun last => ∃ exit ∈ last.table.left, exit.destroyed = true)
    (by decide +kernel) fun last run ⟨exit, member, destroyed⟩ => ?_
  have reserved : bootKernel.table.frames.InUse 0x5000 := ⟨5, by decide, by decide, by decide⟩
  exact ⟨exit, member, destroyed,
    spaces_left_right (Option.some_get _).symm reserved run exit member⟩

/-- A process and its thread are freed one after the other, and the address space that both had is
never destroyed. -/
theorem spaces_left_wrong :
    ∃ last, Run (fun before (action : SpaceAction) after =>
        action.perform pframeLawfulOps.toFrameOps 0x5000 before = some after)
        (bootKernel.procInit bootPids) (processStarts ++
          [.task (.userThread 0x2000 0x400000 0 0x700000 0x1000) ⟨some 0x3000, true, none⟩,
            .free 0x3000, .free 0x2000]) last ∧
      ∃ exit ∈ last.table.left, exit.pml4 ≠ 0 ∧ exit.pml4 ≠ 0x5000 ∧ exit.shared = false ∧
        exit.destroyed = false :=
  Run.exists_of_any (by decide +kernel)

end Ccos
