import Ccos.Lib.Ledger
import Ccos.Lib.Run
import Ccos.Process.TaskStep

/-! Runs in which tasks are created, exit and are waited for, and when the taken PIDs are exactly
those of the control blocks that are not freed. -/

namespace Ccos

open Lib

variable {Frames : Type} {ops : FrameOps Frames} {kernelPml4 : Nat} {grants : Grants}
  {kernel after : TaskKernel Frames}

/-- What the PIDs of a kernel depend on. -/
structure PidView where
  pids : Bitmap
  pcbs : List Nat
  pid : Nat → Int

/-- The bitmap, the control blocks that are not freed, and the PID in each. -/
def Kernel.pidView (kernel : TaskKernel Frames) : PidView :=
  ⟨kernel.table.pids, kernel.table.pcbs, fun addr => (kernel.pcb addr).pid⟩

namespace PidView

/-- The taken PIDs, and the PID that each control block holds. -/
def ledger (view : PidView) : Ledger Int :=
  ⟨pidMarks view.pids, view.pcbs.map fun addr => [view.pid addr]⟩

/-- The taken PIDs are 0 and those of the control blocks, each held once. -/
structure Sound (view : PidView) : Prop where
  sized : view.pids.nbits = pidMax
  exact : view.ledger.Sound {0}

/-- The PIDs change by a move of the ledger. -/
structure Step (before after : PidView) : Prop where
  sized : after.pids.nbits = before.pids.nbits
  move : Ledger.Move before.ledger after.ledger

/-- A view with one task more: its control block is new and its PID was free. -/
structure Adds (before after : PidView) (addr : Nat) (pid : Nat) : Prop where
  fresh : addr ∉ before.pcbs
  positive : 0 < pid
  small : pid < pidMax
  free : (pid : Int) ∉ pidMarks before.pids
  full : before.pids.nbits = pidMax
  sized : after.pids.nbits = pidMax
  marks : ∀ other, other ∈ pidMarks after.pids ↔ other ∈ pidMarks before.pids ∨ other = pid
  pcbs : after.pcbs = addr :: before.pcbs
  here : after.pid addr = pid
  others : ∀ other ∈ before.pcbs, after.pid other = before.pid other

variable {before view : PidView} {addr pid : Nat}

theorem Step.refl (view : PidView) : view.Step view := ⟨rfl, .refuse _⟩

theorem Step.sound (step : before.Step view) (sound : before.Sound) : view.Sound :=
  ⟨step.sized.trans sound.sized, step.move.sound sound.exact⟩

theorem Adds.step (adds : before.Adds view addr pid) : before.Step view := by
  -- The bitmap grows by the PID, and the ledger by a block that holds it.
  refine ⟨adds.sized.trans adds.full.symm, ?_⟩
  have grown : view.ledger =
      ⟨before.ledger.marked ∪ {item | item ∈ [(pid : Int)]}, [(pid : Int)] :: before.ledger.held⟩ := by
    have marked : pidMarks view.pids = pidMarks before.pids ∪ {item | item ∈ [(pid : Int)]} := by
      ext other
      simp [adds.marks, or_comm]
    have held : view.pcbs.map (fun addr => [view.pid addr]) =
        [(pid : Int)] :: before.pcbs.map fun addr => [before.pid addr] := by
      rw [adds.pcbs, List.map_cons, adds.here]
      exact congrArg _ (List.map_congr_left fun other member => by rw [adds.others other member])
    simp only [ledger, marked, held]
  rw [grown]
  refine .grant _ _ fun item member => ?_
  rw [List.mem_singleton.mp member]
  exact adds.free

theorem Sound.zero_taken (sound : view.Sound) : 0 ∈ pidMarks view.pids :=
  (sound.exact.marked_iff 0).mpr (.inl rfl)

theorem Sound.taken_iff (sound : view.Sound) (pid : Int) :
    pid ∈ pidMarks view.pids ↔ pid = 0 ∨ ∃ addr ∈ view.pcbs, view.pid addr = pid := by
  rw [show pidMarks view.pids = view.ledger.marked from rfl, sound.exact.marked_iff]
  simp [Ledger.Holds, ledger, eq_comm]

theorem Sound.distinct (sound : view.Sound) : (view.pcbs.map view.pid).Nodup := by
  -- Different blocks of the ledger hold different items.
  have disjoint := sound.exact.disjoint
  simp only [ledger, List.pairwise_map] at disjoint
  refine List.pairwise_map.mpr (disjoint.imp fun apart => ?_)
  simpa [eq_comm] using apart

end PidView

section Steps

variable {view : TaskView} {addr pid : Nat} {pcb : Pcb} {pids : Bitmap}

/-- What the PIDs of some tasks depend on. -/
def TaskView.pidView (view : TaskView) : PidView :=
  ⟨view.pids, view.pcbs, fun addr => (view.pcb addr).pid⟩

namespace TaskView

theorem pidView_set (kept : pcb.pid = (view.pcb addr).pid) :
    (view.set addr pcb).pidView = view.pidView := by
  simp only [pidView, field_set Pcb.pid kept]
  rfl

theorem pidView_wake (task : Nat) : (view.wake task).pidView = view.pidView := by
  change (view.set task { view.pcb task with state := .ready }).pidView = _
  exact pidView_set (by rfl)

theorem pidView_wakeJoiners (target : Nat) : (view.wakeJoiners target).pidView = view.pidView := by
  -- The joiners are woken one after the other.
  unfold wakeJoiners
  generalize sleepingJoiners target view.pcb view.joining = sleepers
  induction sleepers generalizing view with
  | nil => rfl
  | cons task rest ih => rw [List.foldl_cons, ih, pidView_wake]

theorem Scheduled.pidView {next : Option Nat} {last : TaskView}
    (switched : view.Scheduled next last) : last.pidView = view.pidView := by
  cases next with
  | none => exact congrArg TaskView.pidView switched
  | some next =>
    obtain ⟨_, rfl⟩ := switched
    change (view.requeue.set next { view.requeue.pcb next with state := .running }).pidView = _
    refine (pidView_set (by rfl)).trans ?_
    unfold requeue
    split
    · rfl
    · split
      · exact pidView_wake _
      · rfl

theorem pidView_exited (current : Nat) (exitCode : Int) :
    (view.exited current exitCode).pidView = view.pidView := by
  have dead : (view.set current { view.pcb current with
      state := .zombie, exitCode := exitCode }).pidView = view.pidView := pidView_set (by rfl)
  unfold exited
  split <;> exact dead

theorem pidView_threadExited (current retval : Nat) :
    (view.threadExited current retval).pidView = view.pidView := by
  have stored : (view.set current { view.pcb current with returnValue := retval }).pidView =
      view.pidView := pidView_set (by rfl)
  refine (pidView_set (by rfl)).trans (Eq.trans ?_ stored)
  unfold leaveGroup
  split
  · exact pidView_set (by rfl)
  · rfl

theorem step_add (full : view.pids.nbits = pidMax) (fresh : addr ∉ view.pcbs)
    (taken : PidTaken view.pids pids pid) (own : pcb.pid = pid) :
    view.pidView.Step (view.add addr pcb pids).pidView := by
  refine PidView.Adds.step ⟨fresh, taken.positive, taken.small, taken.free, full, taken.sized,
    taken.marks, rfl, ?_, fun other member => ?_⟩
  · exact (congrArg Pcb.pid add_pcb_self).trans own
  · exact congrArg Pcb.pid (add_pcb_of_ne fun equal => fresh (equal ▸ member))

theorem Undone.step {pml4 : Nat} {last : TaskView} (undone : view.Undone pml4 last)
    (full : view.pids.nbits = pidMax) : view.pidView.Step last.pidView := by
  -- Both sides of the ledger are those of before.
  obtain ⟨addr, content, fresh, _, same⟩ := undone.same
  refine ⟨undone.sized.trans full.symm, ?_⟩
  have marked : pidMarks last.pids = pidMarks view.pids := Set.ext undone.marks
  have held : last.pcbs.map (fun other => [(last.pcb other).pid]) =
      view.pcbs.map fun other => [(view.pcb other).pid] := by
    rw [same]
    change (List.erase (addr :: view.pcbs) addr).map _ = _
    rw [List.erase_cons_head]
    refine List.map_congr_left fun other member => ?_
    have apart : other ≠ addr := fun equal => fresh (equal ▸ member)
    change [((view.add addr content last.pids).pcb other).pid] = _
    rw [add_pcb_of_ne apart]
  have unchanged : last.pidView.ledger = view.pidView.ledger := by
    simp only [PidView.ledger, pidView, marked, held]
  rw [unchanged]
  exact .refuse _

end TaskView

theorem TaskStep.pidStep {call : TaskCall} {last : TaskView}
    (step : TaskStep kernelPml4 grants kernel call last) (sound : kernel.pidView.Sound)
    (unreaped : call.reaps kernel = false) : kernel.pidView.Step last.pidView := by
  -- The steps that free a task are excluded, and most others keep the PIDs.
  have full : kernel.tasks.pids.nbits = pidMax := sound.sized
  have keeps {last : TaskView} (same : last.pidView = kernel.tasks.pidView) :
      kernel.pidView.Step last.pidView := same ▸ .refl _
  cases step with
  | refused => exact .refl _
  | undone undone => exact undone.step full
  | forked now fresh taken own _ => exact TaskView.step_add full fresh taken own
  | kernelThread fresh taken _ => exact TaskView.step_add full fresh taken rfl
  | kernelThreadUndone _ undone => exact undone.step full
  | @userThread parent _ _ _ _ thread _ pids owner content fresh taken own kept _ =>
    have added : (kernel.tasks.set parent owner).pidView.Step
        ((kernel.tasks.set parent owner).add thread content pids).pidView :=
      TaskView.step_add full fresh taken own
    rw [TaskView.pidView_set kept] at added
    exact added
  | userThreadUndone kept _ undone =>
    have step := undone.step full
    rw [TaskView.pidView_set kept] at step
    exact step
  | exit _ switched => exact keeps (switched.pidView.trans (TaskView.pidView_exited _ _))
  | threadExit _ _ switched =>
    refine keeps (switched.pidView.trans ?_)
    split
    · exact (TaskView.pidView_wakeJoiners _).trans (TaskView.pidView_threadExited _ _)
    · exact TaskView.pidView_threadExited _ _
  | detachedExit now detached _ => simp [TaskCall.reaps, now, detached] at unreaped
  | reaped now found => simp [TaskCall.reaps, now, found] at unreaped
  | blocked _ _ switched => exact keeps (switched.pidView.trans (TaskView.pidView_set (by rfl)))
  | @waits _ _ current _ _ _ _ switched =>
    have asleep : (kernel.tasks.set current { kernel.pcb current with state := .blocked }).pidView =
        kernel.tasks.pidView := TaskView.pidView_set (by rfl)
    exact keeps (switched.pidView.trans asleep)
  | joins chosen => simp [TaskCall.reaps, chosen] at unreaped
  | joined => cases unreaped
  | detached => exact keeps (TaskView.pidView_set (by rfl))
  | detachedZombie chosen zombie => simp [TaskCall.reaps, chosen, zombie] at unreaped
  | schedule switched => exact keeps switched.pidView

end Steps

theorem procInit_sound {buffer : Nat → Byte} {pids : Bitmap} (boot : TaskKernel Frames)
    (started : pidAllocInit buffer = some pids) : (boot.procInit pids).pidView.Sound := by
  -- The ledger starts with the reserved PID and nothing held.
  obtain ⟨first, done, sized, marks⟩ := pidAllocInit_spec buffer
  obtain rfl := Option.some.inj (done.symm.trans started)
  refine ⟨sized, ?_⟩
  have empty : (boot.procInit first).pidView.ledger = ⟨{0}, []⟩ := by
    simp only [PidView.ledger, Kernel.pidView, Kernel.procInit, Kernel.updateTable, Kernel.table,
      marks, List.map_nil]
  rw [empty]
  exact Ledger.sound_start _

/-- In every run in which no call frees the control block of a task, the set bits of the bitmap are
0 and the PIDs of the control blocks, which are distinct, and an allocation fails only when each
PID belongs to a control block. -/
theorem pids_exact {buffer : Nat → Byte} {pids : Bitmap} {boot last : TaskKernel Frames}
    {actions : List (TaskCall × Grants)} (started : pidAllocInit buffer = some pids)
    (run : Run (fun before action after => action.1.reaps before = false ∧
      action.1.perform ops kernelPml4 action.2 before = some after) (boot.procInit pids) actions
      last) :
    (∀ i < pidMax, last.table.pids.marked i = true ↔
      i = 0 ∨ ∃ addr ∈ last.table.pcbs, (last.pcb addr).pid = i) ∧
    (last.table.pcbs.map fun addr => (last.pcb addr).pid).Nodup ∧
    (∀ pid after, pidAlloc last.table.pids = some (pid, after) → pid < 0 →
      ∀ i : Nat, 0 < i → i < pidMax → ∃ addr ∈ last.table.pcbs, (last.pcb addr).pid = i) := by
  -- The taken PIDs are right at the end of the run, and the other parts follow.
  have sound : last.pidView.Sound := run.preserves (fun kernel => kernel.pidView.Sound)
    (fun _ _ _ taken inv => ((TaskCall.perform_tasks inv.sized inv.zero_taken taken.2).pidStep inv
      taken.1).sound inv)
    (procInit_sound boot started)
  have taken (i : Nat) (small : i < pidMax) : last.table.pids.marked i = true ↔
      i = 0 ∨ ∃ addr ∈ last.table.pcbs, (last.pcb addr).pid = i := by
    have marked := sound.taken_iff i
    rw [natCast_mem_pidMarks, and_iff_right small, Int.natCast_eq_zero] at marked
    exact marked
  refine ⟨taken, sound.distinct, fun pid after done negative i positive small => ?_⟩
  rcases pidAlloc_cases sound.sized with ⟨_, full⟩ | ⟨found, pids, granted, _⟩
  · have marked := natCast_mem_pidMarks.mp (full i (by omega) (by omega))
    exact ((taken i small).mp marked.2).resolve_left (by omega)
  · -- A granted PID is not negative.
    obtain ⟨rfl, _⟩ := Prod.mk.inj (Option.some.inj (granted.symm.trans done))
    omega

/-- A kernel at boot, with zeroed memory and the small frame allocator. -/
def bootKernel : TaskKernel ReadyPframe where
  pcb := clearedPcb
  current := none
  runQueue := []
  nrRunning := 0
  pages := ⟨fun _ => 0, ⟨smallPframe, ⟨fun _ => 0, 0⟩, [], [], []⟩, []⟩
  nextThreadStack := threadStackBase
  stats := ⟨0, fun _ => 0, 0, 0⟩

def bootPids : Bitmap := (pidAllocInit fun _ => 0).get (by decide +kernel)

/-- A kernel thread starts and forks a process, which runs and exits. -/
def forkAndExit : List (TaskCall × Grants) :=
  [(.kernelThread 0x100000 0, ⟨some 0x1000, true, none⟩),
   (.schedule, ⟨none, true, some 0x1000⟩),
   (.fork, ⟨some 0x2000, true, none⟩),
   (.schedule, ⟨none, true, some 0x2000⟩),
   (.exit 0, ⟨none, true, some 0x1000⟩)]

/-- The exited process is a zombie and still has its PID. -/
theorem pids_exact_zombie :
    ∃ last, Run (fun before action after => action.1.reaps before = false ∧
        action.1.perform pframeOps 0x5000 action.2 before = some after)
        (bootKernel.procInit bootPids) forkAndExit last ∧
      last.table.pcbs = [0x2000, 0x1000] ∧
      (last.table.pcbs.map fun addr => (last.pcb addr).pid).Nodup := by
  refine Run.exists_by_if (·.table.pcbs = [0x2000, 0x1000]) (by decide +kernel)
    fun last run pcbs => ?_
  exact ⟨pcbs, (pids_exact (Option.some_get _).symm run).2.1⟩

/-- After the parent has waited for the process, PID 2 is taken but no control block has it. -/
theorem pid_leaked_by_wait4 :
    ∃ last, Run (fun before (action : TaskCall × Grants) after =>
        action.1.perform pframeOps 0x5000 action.2 before = some after)
        (bootKernel.procInit bootPids)
        (forkAndExit ++ [(.wait4 (-1) 0 0, ⟨none, true, none⟩)]) last ∧
      last.table.pids.marked 2 = true ∧ last.table.pcbs = [0x1000] ∧ (last.pcb 0x1000).pid = 1 :=
  Run.exists_of_any (by decide +kernel)

end Ccos
