import Ccos.Process.PidRun
import Ccos.Process.TaskOrder

/-! The lists of children: what they lead to while no process is reaped, and what they lead to
after that. -/

namespace Ccos

open Lib

variable {Frames : Type} {ops : FrameOps Frames} {kernelPml4 : Nat} {grants : Grants}
  {kernel after : TaskKernel Frames}

/-- The calls that processes are made of. -/
def TaskCall.ofProcess : TaskCall → Bool
  | .fork | .kernelThread _ _ | .exit _ | .wait4 _ _ _ | .schedule => true
  | _ => false

theorem familyLinks_onFamily (change : RingLinks FamilyNode → RingLinks FamilyNode)
    (pcb : Nat → Pcb) : familyLinks (onFamily change pcb) = change (familyLinks pcb) := by
  funext node
  cases node <;> rfl

namespace TaskView

variable {view last : TaskView} {parent child pid : Nat} {content : Pcb} {pids : Bitmap}

/-- A node that belongs to a child of a process. -/
@[grind =] def ChildNode (view : TaskView) (parent : Nat) (node : FamilyNode) : Prop :=
  ∃ child ∈ view.pcbs, node = .siblings child ∧ (view.pcb child).parent = some parent

/-- The list of children of each process holds nodes of its children. -/
@[grind =] def FamilyRings (view : TaskView) : Prop :=
  ∀ parent ∈ view.pcbs, ∃ nodes, Ring (familyLinks view.pcb) (.children parent) nodes ∧
    ∀ node ∈ nodes, view.ChildNode parent node

namespace FamilyRings

variable (rings : view.FamilyRings)
include rings

theorem congr (pcbs : ∀ addr, addr ∈ last.pcbs ↔ addr ∈ view.pcbs)
    (same : ∀ addr ∈ view.pcbs, (last.pcb addr).children = (view.pcb addr).children ∧
      (last.pcb addr).siblings = (view.pcb addr).siblings ∧
      (last.pcb addr).parent = (view.pcb addr).parent) :
    last.FamilyRings := by
  intro parent live
  have old := (pcbs parent).mp live
  obtain ⟨nodes, ring, children⟩ := rings parent old
  refine ⟨nodes, ring.congr fun node member => ?_, fun node member => ?_⟩
  · rcases List.mem_cons.mp member with rfl | inside
    · exact (same parent old).1
    · obtain ⟨child, used, rfl, _⟩ := children node inside
      exact (same child used).2.1
  grind

theorem add (fresh : child ∉ view.pcbs)
    (empty : content.children = ⟨.children child, .children child⟩) :
    (view.add child content pids).FamilyRings := by
  intro parent live
  rcases List.mem_cons.mp live with rfl | old
  · exact ⟨[], .empty (by grind [familyLinks]), nofun⟩
  · obtain ⟨nodes, ring, children⟩ := rings parent old
    refine ⟨nodes, ring.congr fun node member => ?_, fun node member => ?_⟩
    · rcases List.mem_cons.mp member with rfl | inside
      · grind [familyLinks]
      · obtain ⟨other, used, rfl, _⟩ := children node inside
        grind [familyLinks]
    grind

theorem fork (used : parent ∈ view.pcbs) (fresh : child ∉ view.pcbs)
    (empty : content.children = ⟨.children child, .children child⟩)
    (own : content.parent = some parent) :
    ((view.add child content pids).onPcbs
      (onFamily (listAddTail (.siblings child) (.children parent)))).FamilyRings := by
  -- The nodes in the lists of the others are neither new nor in the list of the parent.
  have outside {head : Nat} {nodes : List FamilyNode} (used : head ∈ view.pcbs)
      (children : ∀ node ∈ nodes, view.ChildNode head node) :
      FamilyNode.siblings child ∉ FamilyNode.children head :: nodes := by
    grind
  have kept {head : Nat} {nodes : List FamilyNode} (used : head ∈ view.pcbs)
      (ring : Ring (familyLinks view.pcb) (.children head) nodes)
      (children : ∀ node ∈ nodes, view.ChildNode head node) :
      Ring (familyLinks (view.add child content pids).pcb) (.children head) nodes := by
    refine ring.congr fun node member => ?_
    rcases List.mem_cons.mp member with rfl | inside
    · grind [familyLinks]
    · obtain ⟨other, used, rfl, _⟩ := children node inside
      grind [familyLinks]
  have stays {head : Nat} {node : FamilyNode} (belongs : view.ChildNode head node) :
      ((view.add child content pids).onPcbs
        (onFamily (listAddTail (.siblings child) (.children parent)))).ChildNode head node := by
    obtain ⟨other, used, rfl, own⟩ := belongs
    refine ⟨other, List.mem_cons_of_mem _ used, rfl, ?_⟩
    show ((view.add child content pids).pcb other).parent = _
    grind
  obtain ⟨nodes, ring, children⟩ := rings parent used
  have before := kept used ring children
  intro head live
  change ∃ nodes, Ring (familyLinks (onFamily _ (view.add child content pids).pcb)) _ nodes ∧ _
  rw [familyLinks_onFamily]
  rcases List.mem_cons.mp live with rfl | old
  · -- The new process has no children.
    refine ⟨[], .empty ?_, nofun⟩
    rw [before.listAddTail_outside (by simp) fun member => ?_]
    · exact (congrArg Pcb.children add_pcb_self).trans empty
    grind
  by_cases same : head = parent
  · subst same
    refine ⟨_, before.addTail (outside used children), fun node member => ?_⟩
    rcases List.mem_append.mp member with inside | new
    · exact stays (children node inside)
    · rw [List.mem_singleton.mp new]
      refine ⟨child, List.mem_cons_self, rfl, ?_⟩
      exact (congrArg Pcb.parent add_pcb_self).trans own
  · obtain ⟨others, ring', children'⟩ := rings head old
    refine ⟨others, (kept old ring' children').congr fun node member => ?_,
      fun node member => stays (children' node member)⟩
    refine before.listAddTail_outside (fun equal => outside old children' (equal ▸ member)) ?_
    -- A node in both lists would have two parents.
    grind

theorem restated (changed : view.Restated last) : last.FamilyRings := by
  refine rings.congr (fun addr => by rw [changed.pcbs]) fun addr _ => ?_
  obtain ⟨state, content⟩ := changed.content addr
  rw [content]
  exact ⟨rfl, rfl, rfl⟩

theorem undone {pml4 : Nat} (back : view.Undone pml4 last) :
    last.FamilyRings := by
  refine rings.congr (fun addr => by rw [back.blocks]) fun addr used => ?_
  rw [back.content used]
  exact ⟨rfl, rfl, rfl⟩

theorem exited (current : Nat) (exitCode : Int) :
    (view.exited current exitCode).FamilyRings := by
  refine rings.congr (fun addr => by rw [exited_eq]) fun addr _ => ?_
  grind

end FamilyRings

end TaskView

theorem TaskStep.familyRings {call : TaskCall} {last : TaskView}
    (step : TaskStep kernelPml4 grants kernel call last) (orderly : kernel.tasks.Orderly)
    (rings : kernel.tasks.FamilyRings) (process : call.ofProcess = true)
    (unreaped : call.reaps kernel = false) (allowed : call.inOrder grants kernel = true) :
    last.FamilyRings := by
  cases step with
  | refused => exact rings
  | undone undone => exact rings.undone undone
  | @forked parent child _ _ _ now fresh taken own exact =>
    obtain ⟨pml4, rfl⟩ := exact orderly.currentLive
    change ((kernel.tasks.add child _ _).onPcbs
      (onFamily (listAddTail (.siblings child) (.children parent)))).FamilyRings
    exact rings.fork (orderly.currentLive parent now) fresh rfl rfl
  | @kernelThread _ _ thread _ _ pids fresh taken _ =>
    change (kernel.tasks.add thread _ pids).FamilyRings
    exact rings.add fresh rfl
  | kernelThreadUndone _ undone => exact rings.undone undone
  | @exit exitCode current _ now switched =>
    have queued := (orderly.exited now (TaskCall.inOrder_idle allowed ⟨nofun, nofun⟩ now) exitCode).1
    exact (rings.exited current exitCode).restated (switched.restated queued)
  | reaped now found => simp [TaskCall.reaps, now, found] at unreaped
  | @blocked _ _ _ current _ now missing switched =>
    exact rings.restated (orderly.sleep now switched)
  | schedule switched => exact rings.restated (switched.restated orderly.toQueued)
  | _ => cases process

/-- In every run of forks, exits and waits in which no wait reaps a process, whatever the list of
children of a process leads to belongs to a child of it that is not freed. -/
theorem children_list_reaches {buffer : Nat → Byte} {pids : Bitmap} {boot last : TaskKernel Frames}
    {actions : List (TaskCall × Grants)} (started : pidAllocInit buffer = some pids)
    (run : Run (fun before action after => (action.1.ofProcess = true ∧
      action.1.reaps before = false) ∧ Kernel.Steps ops kernelPml4 before action after)
      (boot.procInit pids) actions last)
    {parent : Nat} (live : parent ∈ last.table.pcbs) {node : FamilyNode}
    (leads : Reaches (familyLinks last.pcb) (.children parent) node)
    (behind : node ≠ .children parent) :
    ∃ child ∈ last.table.pcbs, node = .siblings child ∧ (last.pcb child).parent = some parent := by
  -- Each step keeps the tasks in order and the lists of children right.
  have kept : last.tasks.Orderly ∧ last.tasks.FamilyRings := by
    refine run.preserves (fun kernel => kernel.tasks.Orderly ∧ kernel.tasks.FamilyRings)
      (fun before action after taken inv => ?_)
      ⟨procInit_orderly boot started, nofun⟩
    obtain ⟨⟨process, unreaped⟩, step⟩ := taken
    have tasks := Kernel.Steps.tasks step inv.1
    exact ⟨tasks.orderly inv.1 step.1 (TaskCall.freesZombies_of_unreaped unreaped),
      tasks.familyRings inv.1 inv.2 process unreaped step.1⟩
  obtain ⟨nodes, ring, children⟩ := kept.2 parent live
  have member := ring.reaches leads
  exact children node ((List.mem_cons.mp member).resolve_left behind)

/-- A kernel thread forks a process that exits and is still a child of the thread. -/
theorem children_list_reaches_zombie :
    ∃ last, Run (fun before action after => (action.1.ofProcess = true ∧
        action.1.reaps before = false) ∧ Kernel.Steps pframeOps 0x5000 before action after)
        (bootKernel.procInit bootPids) forkAndExit last ∧
      ∃ child ∈ last.table.pcbs, FamilyNode.siblings 0x2000 = .siblings child ∧
        (last.pcb child).parent = some 0x1000 := by
  obtain ⟨last, run, pcbs, next⟩ : ∃ last, Run (fun before action after =>
      (action.1.ofProcess = true ∧ action.1.reaps before = false) ∧
        Kernel.Steps pframeOps 0x5000 before action after)
        (bootKernel.procInit bootPids) forkAndExit last ∧ 0x1000 ∈ last.table.pcbs ∧
        (familyLinks last.pcb (.children 0x1000)).next = .siblings 0x2000 :=
    Kernel.Steps.of_any (by decide +kernel)
  exact ⟨last, run, children_list_reaches (Option.some_get _).symm run pcbs
    (.single (.inl next.symm)) (by decide)⟩

/-- After the parent has waited for the process, its list of children still leads to the node in
the freed control block. -/
theorem children_list_reaches_freed :
    ∃ last, Run (Kernel.Steps pframeOps 0x5000) (bootKernel.procInit bootPids)
        (forkAndExit ++ [(.wait4 (-1) 0 0, ⟨none, true, none⟩)]) last ∧
      Reaches (familyLinks last.pcb) (.children 0x1000) (.siblings 0x2000) ∧
      0x1000 ∈ last.table.pcbs ∧ 0x2000 ∉ last.table.pcbs := by
  refine Run.exists_by_if (fun last =>
    (familyLinks last.pcb (.children 0x1000)).next = .siblings 0x2000 ∧
      0x1000 ∈ last.table.pcbs ∧ 0x2000 ∉ last.table.pcbs)
    (by decide +kernel) fun last _ ⟨next, live, freed⟩ => ?_
  exact ⟨.single (.inl next.symm), live, freed⟩

end Ccos
