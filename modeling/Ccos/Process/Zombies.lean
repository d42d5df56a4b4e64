import Mathlib.Data.List.Perm.Subperm
import Ccos.Process.Family

/-! The lists of zombies: which processes a wait finds and collects while every process exits before
its parent, and what happens when a process exits after its parent. -/

namespace Ccos

open Lib

variable {Frames : Type} {ops : FrameOps Frames} {kernelPml4 : Nat} {grants : Grants}
  {kernel after : TaskKernel Frames} {current : Nat}

namespace TaskView

variable {view last : TaskView} {addr parent child pid : Nat} {content : Pcb} {pids : Bitmap}

/-- A process that has exited and whose parent is the given one. -/
@[grind] structure ZombieChild (view : TaskView) (parent child : Nat) : Prop where
  live : child ∈ view.pcbs
  zombie : (view.pcb child).state = .zombie
  born : (view.pcb child).parent = some parent
  ppid : (view.pcb child).ppid = (view.pcb parent).pid

/-- The PIDs of the control blocks are taken and distinct, and so are those of their parents. -/
@[grind] structure Numbered (view : TaskView) : Prop where
  taken : ∀ addr ∈ view.pcbs, (view.pcb addr).pid ∈ pidMarks view.pids
  parents : ∀ addr ∈ view.pcbs, (view.pcb addr).ppid ∈ pidMarks view.pids
  distinct : ∀ addr ∈ view.pcbs, ∀ other ∈ view.pcbs,
    (view.pcb addr).pid = (view.pcb other).pid → addr = other
  apart : ∀ addr ∈ view.pcbs, (view.pcb addr).ppid ≠ (view.pcb addr).pid

/-- The list of zombies of each process that has not exited holds its zombie children. -/
@[grind =] def ZombieRings (view : TaskView) : Prop :=
  ∀ parent ∈ view.pcbs, (view.pcb parent).state ≠ .zombie →
    ∃ nodes, Ring (zombieLinks view.pcb) parent nodes ∧
      ∀ child, child ∈ nodes ↔ view.ZombieChild parent child

namespace Numbered

theorem congr (numbered : view.Numbered) (fewer : ∀ addr ∈ last.pcbs, addr ∈ view.pcbs)
    (marks : ∀ pid, pid ∈ pidMarks last.pids ↔ pid ∈ pidMarks view.pids)
    (same : ∀ addr ∈ last.pcbs, (last.pcb addr).pid = (view.pcb addr).pid ∧
      (last.pcb addr).ppid = (view.pcb addr).ppid) : last.Numbered := by
  grind

theorem restated (numbered : view.Numbered) (changed : view.Restated last) : last.Numbered := by
  refine numbered.congr (fun addr live => changed.pcbs ▸ live) (fun pid => by rw [changed.pids])
    fun addr _ => ?_
  obtain ⟨state, content⟩ := changed.content addr
  rw [content]
  exact ⟨rfl, rfl⟩

theorem add (numbered : view.Numbered)
    (taken : PidTaken view.pids pids pid) (own : content.pid = pid)
    (parent : content.ppid ∈ pidMarks view.pids) : (view.add addr content pids).Numbered := by
  obtain ⟨marked, parents, distinct, apart⟩ := numbered
  have free := taken.free
  have marks := taken.marks
  -- The new number is neither that of a task nor that of a parent, since those are taken.
  constructor <;> grind

theorem length_le (numbered : view.Numbered) {tasks : List Nat} (nodup : tasks.Nodup)
    (used : ∀ task ∈ tasks, task ∈ view.pcbs) : tasks.length ≤ pidMax := by
  -- Different tasks have different PIDs below the limit.
  have numbers : (tasks.map fun task => (view.pcb task).pid.toNat).Nodup := by
    refine nodup.map_on fun task member other member' equal => ?_
    have low := (numbered.taken task (used task member)).1
    have low' := (numbered.taken other (used other member')).1
    grind
  have bounded : (tasks.map fun task => (view.pcb task).pid.toNat) ⊆ List.range pidMax := by
    intro number member
    obtain ⟨task, inside, rfl⟩ := List.mem_map.mp member
    have marked := numbered.taken task (used task inside)
    have low := marked.1
    have high := marked.2.1
    rw [List.mem_range]
    omega
  have short := (List.subperm_of_subset numbers bounded).length_le
  rwa [List.length_map, List.length_range] at short

end Numbered

/-- What the zombie lists depend on in a control block. -/
@[grind] structure SameFamily (before after : Pcb) : Prop where
  links : after.zombieChildren = before.zombieChildren
  pid : after.pid = before.pid
  ppid : after.ppid = before.ppid
  parent : after.parent = before.parent
  zombie : after.state = .zombie ↔ before.state = .zombie

namespace ZombieRings

theorem congr (rings : view.ZombieRings) (pcbs : ∀ addr, addr ∈ last.pcbs ↔ addr ∈ view.pcbs)
    (same : ∀ addr ∈ view.pcbs, SameFamily (view.pcb addr) (last.pcb addr)) : last.ZombieRings := by
  intro parent live alive
  have old := (pcbs parent).mp live
  obtain ⟨nodes, ring, children⟩ := rings parent old fun zombie =>
    alive ((same parent old).zombie.mpr zombie)
  refine ⟨nodes, ring.congr fun node member => ?_, fun child => ?_⟩
  · have used : node ∈ view.pcbs :=
      (List.mem_cons.mp member).elim (· ▸ old) fun inside => ((children node).mp inside).live
    exact (same node used).links
  grind

theorem restated (rings : view.ZombieRings) (changed : view.Restated last) : last.ZombieRings := by
  refine rings.congr (fun addr => by rw [changed.pcbs]) fun addr _ => ?_
  obtain ⟨state, content⟩ := changed.content addr
  have zombie := changed.zombie addr
  grind

theorem add (rings : view.ZombieRings) (numbered : view.Numbered) (fresh : addr ∉ view.pcbs)
    (taken : PidTaken view.pids pids pid) (own : content.pid = pid)
    (alive : content.state ≠ .zombie) (empty : content.zombieChildren = ⟨addr, addr⟩) :
    (view.add addr content pids).ZombieRings := by
  have parents := numbered.parents
  have free := taken.free
  intro parent live living
  rcases List.mem_cons.mp live with rfl | old
  · -- The PID of a new task is nobody's parent.
    refine ⟨[], .empty (by grind [zombieLinks]), fun child => ⟨nofun, ?_⟩⟩
    rintro ⟨used, zombie, born, ppid⟩
    grind
  · obtain ⟨nodes, ring, children⟩ := rings parent old (by grind)
    refine ⟨nodes, ring.congr fun node member => ?_, fun child => ?_⟩
    · have used : node ∈ view.pcbs :=
        (List.mem_cons.mp member).elim (· ▸ old) fun inside => ((children node).mp inside).live
      grind [zombieLinks]
    grind

theorem disjoint {nodes others : List Nat} {other node : Nat}
    (children : ∀ child, child ∈ nodes ↔ view.ZombieChild parent child)
    (children' : ∀ child, child ∈ others ↔ view.ZombieChild other child)
    (alive : (view.pcb parent).state ≠ .zombie) (alive' : (view.pcb other).state ≠ .zombie)
    (differs : other ≠ parent) (member : node ∈ other :: others) : node ∉ parent :: nodes := by
  intro inside
  -- A head has not exited.
  grind

theorem exited (rings : view.ZombieRings) (used : current ∈ view.pcbs)
    (alive : (view.pcb current).state ≠ .zombie)
    (parentAlive : ∀ parent, (view.pcb current).parent = some parent → parent ≠ current ∧
      parent ∈ view.pcbs ∧ (view.pcb parent).pid = (view.pcb current).ppid ∧
      (view.pcb parent).state ≠ .zombie) (exitCode : Int) :
    (view.exited current exitCode).ZombieRings := by
  intro head live living
  have apart : head ≠ current := by grind
  rw [exited_pcbs] at live
  rw [exited_pcb_of_ne _ _ apart] at living
  obtain ⟨nodes, ring, children⟩ := rings head live living
  have links : zombieLinks (view.exited current exitCode).pcb = view.exitLinks current := by
    rw [exited_eq]
    rfl
  rw [links]
  unfold exitLinks
  cases born : (view.pcb current).parent with
  | none =>
    -- Without a parent the process joins no list.
    grind
  | some parent =>
    obtain ⟨differs, used', numbered, alive'⟩ := parentAlive parent born
    obtain ⟨others, ring', children'⟩ := rings parent used' alive'
    have outside : current ∉ parent :: others := by
      grind
    by_cases same : head = parent
    · subst same
      refine ⟨_, ring'.addTail outside, fun child => ?_⟩
      grind
    · refine ⟨nodes, ring.congr fun node member => ?_, fun child => ?_⟩
      · refine ring'.listAddTail_outside ?_ (ZombieRings.disjoint children' children alive' living
          same member)
        grind
      grind

theorem reaped (rings : view.ZombieRings) (blocks : view.pcbs.Nodup) (used : parent ∈ view.pcbs)
    (alive : (view.pcb parent).state ≠ .zombie) (zombie : view.ZombieChild parent child) :
    ((view.onPcbs (onZombies (listDel child))).drop child).ZombieRings := by
  obtain ⟨nodes, ring, children⟩ := rings parent used alive
  have inside := (children child).mpr zombie
  intro head live living
  have live : head ∈ view.pcbs := List.mem_of_mem_erase live
  have fewer (other node : Nat) : ((view.onPcbs (onZombies (listDel child))).drop child).ZombieChild
      other node ↔ view.ZombieChild other node ∧ node ≠ child := by
    constructor
    · rintro ⟨live, zombie, born, ppid⟩
      obtain ⟨apart, live⟩ := blocks.mem_erase_iff.mp live
      exact ⟨⟨live, zombie, born, ppid⟩, apart⟩
    · rintro ⟨⟨live, zombie, born, ppid⟩, apart⟩
      exact ⟨blocks.mem_erase_iff.mpr ⟨apart, live⟩, zombie, born, ppid⟩
  change ∃ nodes, Ring (listDel child (zombieLinks view.pcb)) head nodes ∧ _
  by_cases same : head = parent
  · subst same
    refine ⟨_, ring.del inside, fun node => ?_⟩
    rw [fewer, (List.nodup_cons.mp ring.nodup).2.mem_erase_iff, children, and_comm]
  · obtain ⟨others, ring', children'⟩ := rings head live living
    refine ⟨others, ring'.congr fun node member => ring.listDel_outside inside
      (ZombieRings.disjoint children children' alive living same member), fun node => ?_⟩
    -- The process that is reaped has another parent.
    grind

end ZombieRings

end TaskView

/-- Whether a process that exits has a parent that has not exited, or none. -/
def TaskCall.parentAlive (kernel : TaskKernel Frames) : TaskCall → Bool
  | .exit _ => kernel.current.all fun current => (kernel.pcb current).parent.all fun parent =>
      parent ∈ kernel.table.pcbs ∧ (kernel.pcb parent).pid = (kernel.pcb current).ppid ∧
        (kernel.pcb parent).state ≠ .zombie
  | _ => true

section

variable (orderly : kernel.tasks.Orderly) (numbered : kernel.tasks.Numbered)
  (rings : kernel.tasks.ZombieRings)
include orderly numbered rings

theorem findZombie_eq (now : kernel.current = some current) (pid : Int) :
    ∃ nodes : List Nat, (∀ child, child ∈ nodes ↔ kernel.tasks.ZombieChild current child) ∧
      findZombie pid current kernel =
        some (nodes.find? fun child => decide (pid = -1 ∨ (kernel.pcb child).pid = pid)) := by
  obtain ⟨live, _, alive⟩ := orderly.runs current now
  obtain ⟨nodes, ring, children⟩ := rings current live alive
  refine ⟨nodes, children, Ring.listFindFrom_eq ring.chain (List.nodup_cons.mp ring.nodup).1 ?_⟩
  -- There are fewer processes than a walk can take steps.
  have short := numbered.length_le (List.nodup_cons.mp ring.nodup).2
    fun task member => ((children task).mp member).live
  have many : pidMax < listWalkLimit := by decide
  omega

theorem findZombie_child {target : Nat} {pid : Int} (now : kernel.current = some current)
    (found : findZombie pid current kernel = some (some target)) :
    kernel.tasks.ZombieChild current target := by
  obtain ⟨nodes, children, searched⟩ := findZombie_eq orderly numbered rings now pid
  grind

theorem findZombie_pid {child : Nat} (now : kernel.current = some current)
    (zombie : kernel.tasks.ZombieChild current child) :
    findZombie (kernel.pcb child).pid current kernel = some (some child) := by
  obtain ⟨nodes, children, searched⟩ := findZombie_eq orderly numbered rings now
    (kernel.pcb child).pid
  rw [searched]
  have marked := numbered.taken child zombie.live
  -- A PID is not -1, and no other process has it.
  cases first : nodes.find? fun other =>
      decide ((kernel.pcb child).pid = -1 ∨ (kernel.pcb other).pid = (kernel.pcb child).pid) with
  | none =>
    grind
  | some other =>
    have met := List.find?_some first
    simp only [decide_eq_true_eq] at met
    have low : 0 ≤ (kernel.pcb child).pid := marked.1
    have same := met.resolve_left (by omega)
    have live := ((children other).mp (List.mem_of_find?_eq_some first)).live
    rw [numbered.distinct other live child zombie.live same]

end

theorem TaskStep.zombieRings {call : TaskCall} {last : TaskView}
    (step : TaskStep kernelPml4 grants kernel call last) (orderly : kernel.tasks.Orderly)
    (numbered : kernel.tasks.Numbered) (rings : kernel.tasks.ZombieRings)
    (process : call.ofProcess = true) (parents : call.parentAlive kernel = true)
    (allowed : call.inOrder grants kernel = true) : last.Numbered ∧ last.ZombieRings := by
  cases step with
  | refused => exact ⟨numbered, rings⟩
  | undone back | kernelThreadUndone _ back =>
    have blocks := back.blocks
    exact ⟨numbered.congr (by grind) back.marks (by grind [back.content]),
      rings.congr (by grind) fun addr live => back.content live ▸ ⟨rfl, rfl, rfl, rfl, Iff.rfl⟩⟩
  | @forked parent child pid pids content now fresh taken own exact =>
    obtain ⟨pml4, rfl⟩ := exact orderly.currentLive
    have known := numbered.taken parent (orderly.currentLive parent now)
    have counted : (kernel.tasks.add child _ pids).Numbered := numbered.add taken own known
    have listed : (kernel.tasks.add child _ pids).ZombieRings :=
      rings.add numbered fresh taken own nofun rfl
    exact ⟨counted.congr (fun _ live => live) (fun _ => Iff.rfl) fun _ _ => ⟨rfl, rfl⟩,
      listed.congr (fun _ => Iff.rfl) fun _ _ => ⟨rfl, rfl, rfl, rfl, Iff.rfl⟩⟩
  | @kernelThread fn arg thread pid pml4 pids fresh taken _ =>
    let content := kernelThreadPcb thread pid pml4 fn arg
    have counted : (kernel.tasks.add thread content pids).Numbered :=
      numbered.add taken rfl orderly.zero
    have listed : (kernel.tasks.add thread content pids).ZombieRings :=
      rings.add numbered fresh taken rfl nofun rfl
    exact ⟨counted.congr (fun _ live => live) (fun _ => Iff.rfl) fun _ _ => ⟨rfl, rfl⟩,
      listed.congr (fun _ => Iff.rfl) fun _ _ => ⟨rfl, rfl, rfl, rfl, Iff.rfl⟩⟩
  | @exit exitCode current _ now switched =>
    obtain ⟨live, _, alive⟩ := orderly.runs current now
    have queued := (orderly.exited now (TaskCall.inOrder_idle allowed ⟨nofun, nofun⟩ now) exitCode).1
    have changed := switched.restated queued
    have counted : (kernel.tasks.exited current exitCode).Numbered :=
      numbered.congr (by grind) (by grind) (by grind)
    refine ⟨counted.restated changed, (rings.exited live alive (fun parent born => ?_)
      exitCode).restated changed⟩
    -- A process is not its own parent, since the PIDs differ.
    have met : parent ∈ kernel.table.pcbs ∧ (kernel.pcb parent).pid = (kernel.pcb current).ppid ∧
        (kernel.pcb parent).state ≠ .zombie := by
      have born : (kernel.pcb current).parent = some parent := born
      simpa [TaskCall.parentAlive, now, born] using parents
    refine ⟨?_, met⟩
    rintro rfl
    exact numbered.apart parent live met.2.1.symm
  | @reaped _ _ _ current target now found =>
    obtain ⟨live, _, alive⟩ := orderly.runs current now
    refine ⟨numbered.congr (fun addr live => List.mem_of_mem_erase live) (fun _ => Iff.rfl)
      fun _ _ => ⟨rfl, rfl⟩, ?_⟩
    exact rings.reaped orderly.blocks live alive (findZombie_child orderly numbered rings now found)
  | @blocked _ _ _ current _ now missing switched =>
    have changed := orderly.sleep now switched
    exact ⟨numbered.restated changed, rings.restated changed⟩
  | schedule switched =>
    have changed := switched.restated orderly.toQueued
    exact ⟨numbered.restated changed, rings.restated changed⟩
  | _ => cases process

/-- A wait that finds a zombie stores its exit code, frees it and returns its PID. -/
theorem procWait4_reaps (total : ops.Total) {target : Nat} {pid : Int}
    (now : kernel.current = some current)
    (found : findZombie pid current kernel = some (some target)) (wstatus : Nat) (options : Int) :
    ∃ after, procWait4 (taskServices ops kernelPml4 grants) pid wstatus options kernel =
        (if wstatus ≠ 0 then [⟨wstatus, leBytes 4 ((kernel.pcb target).exitCode % 2 ^ 32).toNat⟩]
          else [], after, some (kernel.pcb target).pid) ∧
      after.tasks = (kernel.tasks.onPcbs (onZombies (listDel target))).drop target := by
  obtain ⟨after, freed⟩ := procFreePcb_returns total target
    { kernel with pcb := onZombies (listDel target) kernel.pcb }
  refine ⟨after, ?_, tasks_procFreePcb freed⟩
  have frees : (taskServices ops kernelPml4 grants).procFreePcb target
    { kernel with pcb := onZombies (listDel target) kernel.pcb } = some ((), after) := freed
  unfold procWait4
  rw [procCurrent_bind, now]
  simp only [Logged.read_bind, found]
  -- What is left are four steps, the first of them only with a status pointer.
  by_cases stores : wstatus ≠ 0
  · simp only [Logged.onlyIf, if_pos stores]
    simp only [Bind.bind, Logged.andThen, Logged.record, Logged.change, Logged.act, frees]
    rfl
  · simp only [Logged.onlyIf, if_neg stores]
    change (Logged.act ((taskServices ops kernelPml4 grants).procFreePcb target) >>= fun _ =>
      pure (kernel.pcb target).pid) { kernel with pcb := onZombies (listDel target) kernel.pcb } = _
    simp only [Bind.bind, Logged.andThen, Logged.act, frees]
    rfl

namespace TaskView

variable {view last : TaskView} {child : Nat} {gone : Pcb}

/-- A process that exited is still as it was then, unless its block is freed or used again. -/
@[grind] structure Remembers (view : TaskView) (child : Nat) (gone : Pcb) : Prop where
  marked : gone.pid ∈ pidMarks view.pids
  kept : child ∈ view.pcbs → (view.pcb child).pid = gone.pid →
    (view.pcb child).state = .zombie ∧ (view.pcb child).parent = gone.parent ∧
      (view.pcb child).ppid = gone.ppid ∧ (view.pcb child).exitCode = gone.exitCode

/-- What is known of a process that exited depends on its block alone. -/
theorem Remembers.congr (remembers : view.Remembers child gone)
    (marks : gone.pid ∈ pidMarks view.pids → gone.pid ∈ pidMarks last.pids)
    (same : child ∈ last.pcbs → (last.pcb child).pid = gone.pid → child ∈ view.pcbs ∧
      (last.pcb child).pid = (view.pcb child).pid ∧
      ((view.pcb child).state = .zombie → (last.pcb child).state = .zombie) ∧
      (last.pcb child).parent = (view.pcb child).parent ∧
      (last.pcb child).ppid = (view.pcb child).ppid ∧
      (last.pcb child).exitCode = (view.pcb child).exitCode) : last.Remembers child gone := by
  refine ⟨marks remembers.marked, fun live equal => ?_⟩
  grind

theorem Remembers.restated (remembers : view.Remembers child gone) (changed : view.Restated last) :
    last.Remembers child gone := by
  refine remembers.congr (fun marked => changed.pids ▸ marked) fun live _ => ?_
  obtain ⟨state, content⟩ := changed.content child
  have zombie := (changed.zombie child).mpr
  rw [content] at zombie ⊢
  exact ⟨changed.pcbs ▸ live, rfl, zombie, rfl, rfl, rfl⟩

theorem Remembers.add (remembers : view.Remembers child gone) {addr pid : Nat} {content : Pcb}
    {pids : Bitmap} (taken : PidTaken view.pids pids pid) (own : content.pid = pid) :
    (view.add addr content pids).Remembers child gone := by
  have free := taken.free
  have marked := remembers.marked
  exact remembers.congr (fun marked => (taken.marks _).mpr (.inl marked)) (by grind)

end TaskView

theorem TaskStep.remembers {call : TaskCall} {last : TaskView}
    (step : TaskStep kernelPml4 grants kernel call last) (orderly : kernel.tasks.Orderly)
    (process : call.ofProcess = true) (allowed : call.inOrder grants kernel = true)
    {child : Nat} {gone : Pcb} (remembers : kernel.tasks.Remembers child gone) :
    last.Remembers child gone := by
  cases step with
  | refused => exact remembers
  | undone back | kernelThreadUndone _ back =>
    have blocks := back.blocks
    exact remembers.congr (back.marks _).mpr (by grind [back.content])
  | @forked parent new pid pids content now fresh taken own exact =>
    have added : (kernel.tasks.add new content pids).Remembers child gone := remembers.add taken own
    exact added.congr id fun live _ => ⟨live, rfl, id, rfl, rfl, rfl⟩
  | @kernelThread fn arg thread pid pml4 pids fresh taken _ =>
    have added : (kernel.tasks.add thread (kernelThreadPcb thread pid pml4 fn arg) pids).Remembers
      child gone := remembers.add taken rfl
    grind
  | @exit exitCode current _ now switched =>
    have queued := (orderly.exited now (TaskCall.inOrder_idle allowed ⟨by simp, by simp⟩ now) exitCode).1
    have left : (kernel.tasks.exited current exitCode).Remembers child gone := by
      -- The task that exits now has not exited before.
      have alive := (orderly.runs current now).2.2
      grind
    exact left.restated (switched.restated queued)
  | reaped now found =>
    exact remembers.congr id fun live _ => ⟨List.mem_of_mem_erase live, rfl, id, rfl, rfl, rfl⟩
  | @blocked _ _ _ current _ now missing switched =>
    exact remembers.restated (orderly.sleep now switched)
  | schedule switched => exact remembers.restated (switched.restated orderly.toQueued)
  | _ => cases process

theorem remembers_exit {exitCode : Int} (orderly : kernel.tasks.Orderly)
    (numbered : kernel.tasks.Numbered) (now : kernel.current = some current)
    (step : Kernel.Steps ops kernelPml4 kernel (.exit exitCode, grants) after) :
    after.tasks.Remembers current { kernel.pcb current with exitCode := exitCode } := by
  have known : (kernel.pcb current).pid ∈ pidMarks kernel.table.pids :=
    numbered.taken current (orderly.runs current now).1
  obtain ⟨_, now', switched⟩ := TaskCall.exit_tasks step.2
  obtain rfl := Option.some.inj (now.symm.trans now')
  have queued := (orderly.exited now (TaskCall.inOrder_idle step.1 ⟨nofun, nofun⟩ now) exitCode).1
  refine TaskView.Remembers.restated ⟨?_, fun _ _ => ?_⟩ (switched.restated queued)
  · rw [TaskView.exited_eq]
    exact known
  · rw [TaskView.exited_pcb_self]
    exact ⟨rfl, rfl, rfl, rfl⟩

theorem procWait4_result (pid : Int) (wstatus : Nat) (options : Int) :
    Logged.Gives (procWait4 (taskServices ops kernelPml4 grants) pid wstatus options) kernel
      fun result _ => result = -1 ∨ ∃ current target, kernel.current = some current ∧
        findZombie pid current kernel = some (some target) ∧
        result = (kernel.pcb target).pid := by
  refine .bind (.bind (.read (.pure ?_)))
  cases now : kernel.current with
  | none => exact .pure (.inl rfl)
  | some current =>
    refine .bind (.read ?_)
    match found : findZombie pid current kernel with
    | none => exact .stop
    | some (some target) =>
      refine .bind (.onlyIf (fun _ => .record ?_) fun _ => ?_)
      all_goals exact .bind (.change (.bind (.act fun _ last freed =>
        .pure (.inr ⟨current, target, rfl, found, rfl⟩))))
    | some none =>
      exact .bind (.change (.bind (.act fun _ last switched => .pure (.inl rfl))))

/-- A step of processes in which no process exits after its parent. -/
@[grind =]
def Kernel.FamilySteps (ops : FrameOps Frames) (kernelPml4 : Nat) (before : TaskKernel Frames)
    (action : TaskCall × Grants) (after : TaskKernel Frames) : Prop :=
  (action.1.ofProcess = true ∧ action.1.parentAlive before = true) ∧
    Kernel.Steps ops kernelPml4 before action after

/-- The tasks are in order, they have different numbers and the lists of zombies are right. -/
@[grind] structure TaskView.Families (view : TaskView) : Prop where
  orderly : view.Orderly
  numbered : view.Numbered
  rings : view.ZombieRings

theorem TaskView.Families.freesZombies (families : kernel.tasks.Families) {call : TaskCall}
    (process : call.ofProcess = true) : call.FreesZombies kernel := by
  intro target freed
  cases call with
  | wait4 pid wstatus options =>
    obtain ⟨current, now, found⟩ := Option.bind_eq_some_iff.mp freed
    have found := Option.join_eq_some_iff.mp found
    exact (findZombie_child families.orderly families.numbered families.rings now found).zombie
  | fork | kernelThread | exit | schedule => cases freed
  | _ => cases process

theorem Kernel.FamilySteps.families {action : TaskCall × Grants}
    (step : Kernel.FamilySteps ops kernelPml4 kernel action after)
    (families : kernel.tasks.Families) : after.tasks.Families := by
  obtain ⟨⟨process, parents⟩, steps⟩ := step
  obtain ⟨orderly, numbered, rings⟩ := families
  have tasks := Kernel.Steps.tasks steps orderly
  obtain ⟨counted, listed⟩ := tasks.zombieRings orderly numbered rings process parents steps.1
  exact ⟨tasks.orderly orderly steps.1
    (TaskView.Families.freesZombies ⟨orderly, numbered, rings⟩ process), counted, listed⟩

theorem procInit_families {buffer : Nat → Byte} {pids : Bitmap} (boot : TaskKernel Frames)
    (started : pidAllocInit buffer = some pids) : (boot.procInit pids).tasks.Families :=
  ⟨procInit_orderly boot started, ⟨nofun, nofun, nofun, nofun⟩, nofun⟩

/-- The parent of a process that exited collects it, as long as it is not freed. -/
theorem TaskView.Families.collects (families : kernel.tasks.Families) (total : ops.Total)
    {parent child : Nat} {gone : Pcb} (remembers : kernel.tasks.Remembers child gone)
    (caller : kernel.current = some parent) (born : gone.parent = some parent)
    (same : (kernel.pcb parent).pid = gone.ppid) (live : child ∈ kernel.table.pcbs)
    (own : (kernel.pcb child).pid = gone.pid) (wstatus : Nat) (options : Int) :
    ∃ after, procWait4 (taskServices ops kernelPml4 grants) gone.pid wstatus options kernel =
        (if wstatus ≠ 0 then [⟨wstatus, leBytes 4 (gone.exitCode % 2 ^ 32).toNat⟩] else [], after,
          some gone.pid) ∧
      child ∉ after.table.pcbs := by
  obtain ⟨orderly, numbered, rings⟩ := families
  obtain ⟨zombie, parent', ppid, code⟩ := remembers.kept live own
  have found := findZombie_pid orderly numbered rings caller
    ⟨live, zombie, parent'.trans born, ppid.trans same.symm⟩
  obtain ⟨after, waited, freed⟩ := @procWait4_reaps _ _ kernelPml4 grants _ _ total _ _ caller found
    wstatus options
  change (kernel.pcb child).exitCode = gone.exitCode at code
  rw [code, own] at waited
  refine ⟨after, waited, fun member => ?_⟩
  have member : child ∈ after.tasks.pcbs := member
  grind

theorem TaskView.Families.returns (families : kernel.tasks.Families) {parent : Nat}
    (caller : kernel.current = some parent) {pid result : Int} {wstatus : Nat} {options : Int}
    (waited : (procWait4 (taskServices ops kernelPml4 grants) pid wstatus options kernel).2.2 =
      some result) (returned : result ≠ -1) :
    ∃ child, kernel.tasks.ZombieChild parent child ∧ (kernel.pcb child).pid = result := by
  rcases procWait4_result pid wstatus options result waited with none | ⟨_, child, now, found, rfl⟩
  · exact absurd none returned
  · obtain rfl := Option.some.inj (caller.symm.trans now)
    exact ⟨child, findZombie_child families.orderly families.numbered families.rings caller found,
      rfl⟩

/-- In every run in which no process exits after its parent, a wait of the parent for a child that
has exited and is not reaped returns its PID, stores its exit code and frees it, and no wait returns
anything but the PID of a zombie child of its caller. -/
theorem wait4_collects_child {ops : TotalFrameOps Frames} {buffer : Nat → Byte} {pids : Bitmap}
    {boot last : TaskKernel Frames} {actions : List (TaskCall × Grants)} {parent : Nat}
    (started : pidAllocInit buffer = some pids)
    (run : Run (Kernel.FamilySteps ops.toFrameOps kernelPml4) (boot.procInit pids) actions last)
    (caller : last.current = some parent) :
    (∀ (early late : List (TaskCall × Grants)) (first second : TaskKernel Frames) (child : Nat)
        (exitCode : Int) (exitGrants : Grants),
      Run (Kernel.FamilySteps ops.toFrameOps kernelPml4) (boot.procInit pids) early first →
      first.current = some child → (first.pcb child).parent = some parent →
      Kernel.FamilySteps ops.toFrameOps kernelPml4 first (.exit exitCode, exitGrants) second →
      Run (Kernel.FamilySteps ops.toFrameOps kernelPml4) second late last →
      (last.pcb parent).pid = (first.pcb child).ppid →
      child ∈ last.table.pcbs → (last.pcb child).pid = (first.pcb child).pid →
      ∀ (grants : Grants) (wstatus : Nat) (options : Int), ∃ after,
        procWait4 (taskServices ops.toFrameOps kernelPml4 grants) (first.pcb child).pid wstatus
            options last =
          (if wstatus ≠ 0 then [⟨wstatus, leBytes 4 (exitCode % 2 ^ 32).toNat⟩] else [], after,
            some (first.pcb child).pid) ∧
        child ∉ after.table.pcbs) ∧
    ∀ (grants : Grants) (pid result : Int) (wstatus : Nat) (options : Int),
      (procWait4 (taskServices ops.toFrameOps kernelPml4 grants) pid wstatus options last).2.2 =
        some result → result ≠ -1 →
      ∃ child, last.tasks.ZombieChild parent child ∧ (last.pcb child).pid = result := by
  have step : ∀ before action after, Kernel.FamilySteps ops.toFrameOps kernelPml4 before action after →
      before.tasks.Families → after.tasks.Families :=
    fun _ _ _ taken families => taken.families families
  have reached := run.preserves (fun kernel => kernel.tasks.Families) step
    (procInit_families boot started)
  constructor
  · intro early late first second child exitCode exitGrants before now born exits later same live own
    have families := before.preserves (fun kernel => kernel.tasks.Families) step
      (procInit_families boot started)
    let gone : Pcb := { first.pcb child with exitCode := exitCode }
    -- The child stays as it was when it exited.
    have kept : last.tasks.Families ∧ last.tasks.Remembers child gone := by
      refine later.preserves (fun kernel => kernel.tasks.Families ∧ kernel.tasks.Remembers child gone)
        (fun middle action next taken inv => ⟨taken.families inv.1, ?_⟩)
        ⟨exits.families families, remembers_exit families.orderly families.numbered now exits.2⟩
      exact (Kernel.Steps.tasks taken.2 inv.1.orderly).remembers inv.1.orderly taken.1.1 taken.2.1
        inv.2
    intro grants wstatus options
    exact reached.collects ops.total kept.2 caller born same live own wstatus options
  · intro grants pid result wstatus options waited returned
    exact reached.returns caller waited returned

/-- A kernel thread collects the process that it forked, with the exit code. -/
theorem wait4_collects_child_seven :
    ∃ last after, Run (Kernel.FamilySteps pframeTotalOps.toFrameOps 0x5000)
        (bootKernel.procInit bootPids)
        (forkAndExit.take 4 ++ [(.exit 7, ⟨none, true, some 0x1000⟩)]) last ∧
      procWait4 (taskServices pframeTotalOps.toFrameOps 0x5000 ⟨none, true, none⟩) 2 0x8000 0 last =
        ([⟨0x8000, leBytes 4 7⟩], after, some 2) ∧ 0x2000 ∉ after.table.pcbs := by
  obtain ⟨first, before, now, born, pid, exits⟩ : ∃ first,
      Run (Kernel.FamilySteps pframeTotalOps.toFrameOps 0x5000) (bootKernel.procInit bootPids)
        (forkAndExit.take 4) first ∧
      first.current = some 0x2000 ∧ (first.pcb 0x2000).parent = some 0x1000 ∧
      (first.pcb 0x2000).pid = 2 ∧
      (first.performAll pframeTotalOps.toFrameOps 0x5000 (fun state action =>
          action.1.ofProcess = true ∧ action.1.parentAlive state = true)
          [(.exit 7, ⟨none, true, some 0x1000⟩)]).any fun last =>
        last.current = some 0x1000 ∧ (last.pcb 0x1000).pid = (first.pcb 0x2000).ppid ∧
          0x2000 ∈ last.table.pcbs ∧ (last.pcb 0x2000).pid = (first.pcb 0x2000).pid :=
    Kernel.Steps.of_any (by decide +kernel)
  obtain ⟨last, after, caller, same, live, own⟩ := Kernel.Steps.of_any exits
  have run := before.append after
  cases after with
  | cons step rest =>
    cases rest with
    | nil =>
      obtain ⟨after, waited, freed⟩ := (wait4_collects_child (Option.some_get _).symm run caller).1
        _ _ first last 0x2000 7 _ before now born step (.nil last) same live own
        ⟨none, true, none⟩ 0x8000 0
      grind

/-- A process forks one of its own and exits, and then the grandchild exits. -/
def orphanExits : List (TaskCall × Grants) :=
  forkAndExit.take 4 ++
  [(.fork, ⟨some 0x3000, true, none⟩),
   (.exit 7, ⟨none, true, some 0x3000⟩),
   (.exit 8, ⟨none, true, some 0x1000⟩)]

/-- The grandchild enters the list that its parent is on, and the grandparent collects a process
that is not its child. -/
theorem wait4_collects_grandchild :
    ∃ last, Run (Kernel.Steps pframeTotalOps.toFrameOps 0x5000) (bootKernel.procInit bootPids)
        orphanExits last ∧
      last.current = some 0x1000 ∧
      (procWait4 (taskServices pframeTotalOps.toFrameOps 0x5000 ⟨none, true, none⟩) (-1) 0 0
        last).2.2 = some 3 ∧
      (last.pcb 0x3000).pid = 3 ∧ (last.pcb 0x3000).parent = some 0x2000 ∧
      ∀ child ∈ last.table.pcbs, (last.pcb child).parent = some 0x1000 → (last.pcb child).pid ≠ 3 :=
  Run.exists_of_any_if (by decide +kernel)

end Ccos
