import Ccos.Process.TaskKernel

/-! The tasks of the kernel without their memory, and what work on the memory and the creation of a
task do to them. -/

namespace Ccos

open Lib Lib.Logged

/-- The tasks of a kernel without their memory. -/
structure TaskView where
  pcb : Nat → Pcb
  current : Option Nat
  runQueue : List Nat
  pids : Bitmap
  pcbs : List Nat
  joining : List Joiner
  left : List SpaceExit

variable {Frames Result : Type} {ops : FrameOps Frames} {kernelPml4 : Nat} {grants : Grants}
  {kernel after : TaskKernel Frames} {view : TaskView} {addr other pid : Nat} {pcb : Pcb}
  {pids : Bitmap}

def Kernel.tasks (kernel : TaskKernel Frames) : TaskView :=
  ⟨kernel.pcb, kernel.current, kernel.runQueue, kernel.table.pids, kernel.table.pcbs,
    kernel.table.joining, kernel.table.left⟩

/-- The memory of a kernel and its frame allocator. -/
def Kernel.memory (kernel : TaskKernel Frames) : PhysMem × Frames :=
  (kernel.pages.mem, kernel.table.frames)

/-- A PID that was free and has been taken. -/
@[grind] structure PidTaken (before after : Bitmap) (pid : Nat) : Prop where
  positive : 0 < pid
  small : pid < pidMax
  free : (pid : Int) ∉ pidMarks before
  sized : after.nbits = pidMax
  marks : ∀ other, other ∈ pidMarks after ↔ other ∈ pidMarks before ∨ other = pid

namespace TaskView

/-- The tasks with other contents of the control blocks. -/
@[grind =] def onPcbs (view : TaskView) (change : (Nat → Pcb) → Nat → Pcb) : TaskView :=
  { view with pcb := change view.pcb }

/-- The tasks with another content of one control block. -/
@[grind =] def set (view : TaskView) (addr : Nat) (pcb : Pcb) : TaskView :=
  { view with pcb := Function.update view.pcb addr pcb }

/-- The tasks with a new control block, and the bitmap in which its PID is taken. -/
def add (view : TaskView) (addr : Nat) (pcb : Pcb) (pids : Bitmap) : TaskView :=
  { view.set addr pcb with pids := pids, pcbs := addr :: view.pcbs }

/-- The tasks without one control block, which leaves its address space. -/
@[grind =] def drop (view : TaskView) (addr : Nat) : TaskView :=
  { view with
    pcbs := view.pcbs.erase addr
    left := spaceExit view.pcb view.pcbs addr :: view.left }

/-- The tasks with one more at the end of the run queue. -/
@[grind =] def enqueue (view : TaskView) (task : Nat) : TaskView :=
  { view with runQueue := view.runQueue ++ [task] }

/-- A creation was taken back: the same PIDs are taken, and a block that was not in use got this
address space and was freed again. -/
@[grind] structure Undone (before : TaskView) (pml4 : Nat) (after : TaskView) : Prop where
  sized : after.pids.nbits = pidMax
  marks : ∀ other, other ∈ pidMarks after.pids ↔ other ∈ pidMarks before.pids
  same : ∃ addr pcb, addr ∉ before.pcbs ∧ pcb.pml4Phys = pml4 ∧
    after = (before.add addr pcb after.pids).drop addr

theorem set_self : view.set addr (view.pcb addr) = view := by
  simp [set]

theorem field_set {Value : Type} (field : Pcb → Value) (kept : field pcb = field (view.pcb addr))
    (other : Nat) : field ((view.set addr pcb).pcb other) = field (view.pcb other) := by
  by_cases here : other = addr
  · subst here
    simp [set, kept]
  · simp [set, here]

theorem add_set_self (again : Pcb) : (view.add addr pcb pids).set addr again =
    view.add addr again pids := by
  simp [add, set, Function.update_idem]

theorem add_set_of_ne (apart : other ≠ addr) (again : Pcb) :
    (view.add addr pcb pids).set other again = (view.set other again).add addr pcb pids := by
  simp [add, set, Function.update_comm apart]

@[simp] theorem add_pcb_self : (view.add addr pcb pids).pcb addr = pcb :=
  Function.update_self ..

theorem add_pcb_of_ne (apart : other ≠ addr) : (view.add addr pcb pids).pcb other = view.pcb other :=
  Function.update_of_ne apart ..

@[grind =] theorem set_pcb (other : Nat) :
    (view.set addr pcb).pcb other = if other = addr then pcb else view.pcb other :=
  Function.update_apply ..

@[grind =] theorem drop_pcb (other : Nat) : (view.drop addr).pcb other = view.pcb other := rfl

@[grind =] theorem enqueue_pcb (other : Nat) : (view.enqueue addr).pcb other = view.pcb other := rfl

@[grind =] theorem add_pcb (other : Nat) :
    (view.add addr pcb pids).pcb other = if other = addr then pcb else view.pcb other :=
  Function.update_apply ..

@[grind =] theorem mem_add_pcbs (other : Nat) :
    other ∈ (view.add addr pcb pids).pcbs ↔ other = addr ∨ other ∈ view.pcbs :=
  List.mem_cons

@[grind =] theorem add_pids : (view.add addr pcb pids).pids = pids := rfl

@[grind =] theorem add_runQueue : (view.add addr pcb pids).runQueue = view.runQueue := rfl

@[grind =] theorem add_joining : (view.add addr pcb pids).joining = view.joining := rfl

@[grind =] theorem add_current : (view.add addr pcb pids).current = view.current := rfl

namespace Undone

variable {last : TaskView} {pml4 : Nat}

@[grind →] theorem blocks (undone : view.Undone pml4 last) : last.pcbs = view.pcbs := by
  obtain ⟨addr, _, _, _, same⟩ := undone.same
  rw [same]
  exact List.erase_cons_head ..

@[grind →] theorem content (undone : view.Undone pml4 last) (used : other ∈ view.pcbs) :
    last.pcb other = view.pcb other := by
  obtain ⟨addr, pcb, fresh, _, same⟩ := undone.same
  rw [same]
  change (view.add addr pcb last.pids).pcb other = _
  exact add_pcb_of_ne fun equal => fresh (equal ▸ used)

@[grind →] theorem rest (undone : view.Undone pml4 last) : last.current = view.current ∧
    last.runQueue = view.runQueue ∧ last.joining = view.joining := by
  grind

end Undone

end TaskView

theorem tasks_updatePcb (kernel : TaskKernel Frames) (addr : Nat) (change : Pcb → Pcb) :
    (kernel.updatePcb addr change).tasks = kernel.tasks.set addr (change (kernel.pcb addr)) := rfl

section Memory

theorem tableFrames_stable (ops : FrameOps Frames) (kept : PidTable Frames) :
    (tableFrames ops).Stable fun table => table = { kept with frames := table.frames } where
  alloc table same := congrArg (fun kept : PidTable Frames =>
    { kept with frames := (ops.source.alloc table.frames).2 }) same
  free table addr last same freed := by
    obtain ⟨frames, _, rfl⟩ := Option.map_eq_some_iff.mp freed
    exact congrArg (fun table : PidTable Frames => { table with frames := frames }) same

theorem tasks_of_table {pages : PageState (PidTable Frames)}
    (same : pages.frames = { kernel.table with frames := pages.frames.frames }) :
    Kernel.tasks { kernel with pages := pages } = kernel.tasks := by
  simp only [Kernel.tasks, Kernel.table]
  rw [same]
  rfl

theorem onPages_keeps (ops : FrameOps Frames)
    {action : PageState (PidTable Frames) → Option (Result × PageState (PidTable Frames))}
    (kept : ∀ inv, (tableFrames ops).Stable inv → ∀ st result last, inv st.frames →
      action st = some (result, last) → inv last.frames) :
    (onPages action).Keeps Kernel.tasks := by
  -- The allocator inside the page state carries the rest of the table along.
  refine .act fun kernel result last done => ?_
  obtain ⟨⟨_, pages⟩, ran, same⟩ := Option.map_eq_some_iff.mp done
  obtain ⟨rfl, rfl⟩ := Prod.mk.inj same
  exact tasks_of_table (kept _ (tableFrames_stable ops kernel.table) _ _ _ rfl ran)

theorem freeUserStack_keeps (thread : Nat) :
    (freeUserStack (taskServices ops kernelPml4 grants) thread).Keeps Kernel.tasks := by
  -- The stack is unmapped, or the thread has none.
  refine Keeps.read.bind fun kernel => onPages_keeps ops fun inv stable st _ last holds done => ?_
  obtain ⟨pages, freed, same⟩ := Option.map_eq_some_iff.mp done
  obtain ⟨_, rfl⟩ := Prod.mk.inj same
  exact stable.freeUserStack holds freed

theorem createUserSpace_keeps :
    (service (taskServices ops kernelPml4 grants).vmmCreateUserSpace).Keeps Kernel.tasks := by
  -- The address space takes frames for its tables and nothing else.
  refine .act fun kernel result last done => ?_
  have start : kernel.pages.frames = { kernel.table with frames := kernel.pages.frames.frames } := rfl
  have same := (tableFrames_stable ops kernel.table).createUserSpace start kernelPml4
  rcases made : vmmCreateUserSpace (tableFrames ops).source kernelPml4 kernel.pages with
    ⟨space, pages⟩
  rw [made] at same
  simp only [taskServices, made, Option.some.injEq, Prod.mk.injEq] at done
  obtain ⟨rfl, rfl⟩ := done
  exact tasks_of_table same

theorem giveThreadStack_gives (parent thread stackAddr stackSize : Nat) :
    Gives (giveThreadStack (taskServices ops kernelPml4 grants) parent thread stackAddr stackSize)
      kernel fun given last =>
        if given then ∃ top size, last.tasks = kernel.tasks.set thread
          { kernel.pcb thread with userStack := top, userStackSize := size }
        else last.tasks = kernel.tasks := by
  -- A given stack is only noted; otherwise one is allocated and mapped.
  unfold giveThreadStack
  split
  · refine .bind (.read ?_)
    refine .bind_keeps (onPages_keeps ops fun inv stable st result last holds done =>
      stable.allocUserStack holds done) fun ⟨top, next⟩ mapped same => ?_
    have stored : ({ mapped with nextThreadStack := next } : TaskKernel Frames).tasks =
        kernel.tasks := same
    refine .bind (.change ?_)
    cases top with
    | none => exact .pure (by simpa using stored)
    | some top =>
      refine .bind (.change (.pure ?_))
      have content : mapped.pcb thread = kernel.pcb thread :=
        congrFun (congrArg TaskView.pcb same) thread
      simp only [if_true]
      refine ⟨top, if stackSize = 0 then threadStackSize else stackSize, ?_⟩
      rw [tasks_updatePcb, stored, ← content]
  · exact .bind (.change (.pure (by simpa using ⟨stackAddr, stackSize, rfl⟩)))

variable {result : Unit}

theorem procFreePcb_pages {inv : PidTable Frames → Prop} (stable : (tableFrames ops).Stable inv)
    (holds : inv kernel.table) (done : procFreePcb ops addr kernel = some (result, after)) :
    ∃ pages : PageState (PidTable Frames), inv pages.frames ∧
      after = Kernel.updateTable { kernel with pages := pages } fun table => { table with
        pcbs := table.pcbs.erase addr
        left := spaceExit kernel.pcb table.pcbs addr :: table.left } := by
  simp only [procFreePcb, Option.bind_eq_bind, Option.bind_eq_some_iff] at done
  obtain ⟨middle, unmapped, pages, destroyed, done⟩ := done
  cases done
  have first : inv middle.frames := by
    unfold freeTaskStack at unmapped
    split at unmapped
    · exact stable.munmapPages holds unmapped
    · cases unmapped
      exact holds
  refine ⟨pages, ?_, rfl⟩
  unfold leaveUserSpace at destroyed
  split at destroyed
  · exact stable.destroyUserSpace first destroyed
  · cases destroyed
    exact first

theorem tasks_procFreePcb (done : procFreePcb ops addr kernel = some (result, after)) :
    after.tasks = kernel.tasks.drop addr := by
  -- The stack and the address space go first, and neither is part of the table.
  obtain ⟨pages, same, rfl⟩ := procFreePcb_pages (tableFrames_stable ops kernel.table) rfl done
  exact congrArg (TaskView.drop · addr) (tasks_of_table same)

/-- A task without a user stack and without an address space is freed without work on memory. -/
theorem memory_procFreePcb (kernelMode : (kernel.pcb addr).isUserMode = false)
    (spaceless : (kernel.pcb addr).pml4Phys = 0)
    (done : procFreePcb ops addr kernel = some (result, after)) : after.memory = kernel.memory := by
  simp only [procFreePcb, freeTaskStack, leaveUserSpace, Pcb.destroysSpace, kernelMode, spaceless,
    Option.bind_eq_bind] at done
  cases done
  rfl

theorem tableFrames_total (total : ops.Total) : (tableFrames ops).Total := by
  intro table addr
  obtain ⟨frames, freed⟩ := total table.frames addr
  exact ⟨{ table with frames := frames }, by simp [tableFrames, freed]⟩

theorem procFreePcb_returns (total : ops.Total) (addr : Nat) (kernel : TaskKernel Frames) :
    ∃ after, procFreePcb ops addr kernel = some ((), after) := by
  have inner := tableFrames_total total
  have unmapped : ∃ middle, freeTaskStack ops (kernel.pcb addr) kernel.pages = some middle := by
    unfold freeTaskStack
    split
    · exact inner.munmapPages ..
    · exact ⟨_, rfl⟩
  obtain ⟨middle, unmapped⟩ := unmapped
  have left : ∃ pages, leaveUserSpace ops (kernel.pcb addr) middle = some pages := by
    unfold leaveUserSpace
    split
    · exact inner.destroyUserSpace ..
    · exact ⟨_, rfl⟩
  obtain ⟨pages, left⟩ := left
  exact ⟨_, Option.bind_eq_some_iff.mpr ⟨middle, unmapped,
    Option.bind_eq_some_iff.mpr ⟨pages, left, rfl⟩⟩⟩

end Memory

section Creation

def Kernel.newTask (kernel : TaskKernel Frames) (addr : Nat) (pcb : Pcb) (pids : Bitmap) :
    TaskKernel Frames :=
  (kernel.updatePcb addr fun _ => pcb).updateTable fun table =>
    { table with pids := pids, pcbs := addr :: table.pcbs }

theorem newTask_pcb_self (kernel : TaskKernel Frames) (addr : Nat) (pcb : Pcb) (pids : Bitmap) :
    (kernel.newTask addr pcb pids).pcb addr = pcb :=
  Function.update_self ..

theorem newTask_updatePcb (kernel : TaskKernel Frames) (addr : Nat) (pcb : Pcb) (pids : Bitmap)
    (change : Pcb → Pcb) : (kernel.newTask addr pcb pids).updatePcb addr change =
      kernel.newTask addr (change pcb) pids := by
  simp [Kernel.newTask, Kernel.updateTable, Kernel.updatePcb, Function.update_idem]

theorem pidAlloc_service {pid : Int} (sized : kernel.table.pids.nbits = pidMax)
    (zero : 0 ∈ pidMarks kernel.table.pids)
    (taken : (taskServices ops kernelPml4 grants).pidAlloc kernel = (pid, after)) :
    (pid = -1 ∧ after = kernel) ∨
    ∃ (found : Nat) (pids : Bitmap), pid = found ∧
      Ccos.pidAlloc kernel.table.pids = some ((found : Int), pids) ∧
      PidTaken kernel.table.pids pids found ∧
      after = kernel.updateTable fun table => { table with pids := pids } := by
  -- The two outcomes of the allocator, seen through the table.
  simp only [taskServices] at taken
  rcases pidAlloc_cases sized with ⟨failed, _⟩ | ⟨found, pids, done, small, free, size, marks⟩
  · rw [failed] at taken
    obtain ⟨rfl, rfl⟩ := Prod.mk.inj taken
    exact .inl ⟨rfl, rfl⟩
  grind

variable {post : Result → TaskKernel Frames → Prop} {fail : Result}

/-- Giving back the PID and the control block of a task that could not be completed. -/
theorem undo_gives {base : TaskView} (fresh : addr ∉ base.pcbs)
    (taken : PidTaken base.pids pids pid) (added : after.tasks = base.add addr pcb pids)
    (undone : ∀ last, base.Undone pcb.pml4Phys last.tasks →
      (pcb.isUserMode = false → pcb.pml4Phys = 0 → last.memory = after.memory) → post fail last) :
    Gives (do
      Logged.change ((taskServices ops kernelPml4 grants).pidFree pid)
      Logged.act ((taskServices ops kernelPml4 grants).procFreePcb addr)
      return fail : KernelCall (PidTable Frames) Result) after post := by
  -- The PID is given back first, and the block is freed after that.
  obtain ⟨cleared, freed, sized, marks⟩ := pidFree_spec taken.sized taken.positive taken.small
  refine .bind (.change (.bind (.act fun _ last done => .pure (undone _ ?_ ?_))))
  all_goals
    have bitmap : after.table.pids = pids := congrArg TaskView.pids added
    have given : (taskServices ops kernelPml4 grants).pidFree pid after =
        after.updateTable fun table => { table with pids := cleared } := by
      simp only [taskServices, bitmap, freed]
    rw [given] at done
  · have tasks : last.tasks = (base.add addr pcb cleared).drop addr := by
      refine (tasks_procFreePcb done).trans ?_
      change TaskView.drop { after.tasks with pids := cleared } addr = _
      rw [added]
      rfl
    rw [tasks]
    refine ⟨sized, fun other => ?_, addr, pcb, fresh, rfl, rfl⟩
    -- The PID was free before, so taking it and giving it back changes nothing.
    grind
  · intro kernelMode spaceless
    have content : after.pcb addr = pcb :=
      (congrFun (congrArg TaskView.pcb added) addr).trans TaskView.add_pcb_self
    have cleaned := memory_procFreePcb (content ▸ kernelMode) (content ▸ spaceless) done
    exact cleaned

/-- What the creations of tasks start with: a control block and a PID for it. -/
def creating (services : Services (PidTable Frames)) (fail : Result)
    (rest : Nat → Int → KernelCall (PidTable Frames) Result) : KernelCall (PidTable Frames) Result := do
  let some child ← Logged.act services.procAllocPcb | return fail
  let pid ← service services.pidAlloc
  Logged.change fun kernel => kernel.updatePcb child fun pcb => { pcb with pid := pid }
  if pid < 0 then
    Logged.act (services.procFreePcb child)
    return fail
  rest child pid

theorem newTask_gives {rest : Nat → Int → KernelCall (PidTable Frames) Result}
    (sized : kernel.table.pids.nbits = pidMax) (zero : 0 ∈ pidMarks kernel.table.pids)
    (unused : ¬∃ addr ∈ grants.pcb, addr ∈ kernel.table.pcbs) (refused : post fail kernel)
    (undone : ∀ last, kernel.tasks.Undone 0 last.tasks → last.memory = kernel.memory →
      post fail last)
    (next : ∀ (addr pid : Nat) (pids : Bitmap) (first : TaskKernel Frames), grants.pcb = some addr →
      pidAlloc kernel.table.pids = some ((pid : Int), pids) → addr ∉ kernel.table.pcbs →
      PidTaken kernel.table.pids pids pid →
      first.tasks = kernel.tasks.add addr { clearedPcb addr with pid := pid } pids →
      first.memory = kernel.memory → Gives (rest addr pid) first post) :
    Gives (creating (taskServices ops kernelPml4 grants) fail rest) kernel post := by
  -- Three outcomes: no block, a block without a PID, or both.
  refine .bind (.act fun granted first given => ?_)
  cases requested : grants.pcb with
  | none =>
    obtain ⟨rfl, rfl⟩ : granted = none ∧ first = kernel := by
      simpa [taskServices, procAllocPcb, requested, eq_comm] using given
    exact .pure refused
  | some addr =>
    obtain ⟨rfl, rfl⟩ : granted = some addr ∧
        first = kernel.newTask addr (clearedPcb addr) kernel.table.pids := by
      have found : granted = some addr ∧ (kernel.updatePcb addr fun _ => clearedPcb addr).updateTable
          (fun table => { table with pcbs := addr :: table.pcbs }) = first := by
        simpa [taskServices, procAllocPcb, requested, eq_comm] using given
      exact ⟨found.1, found.2.symm⟩
    have fresh : addr ∉ kernel.table.pcbs := fun used => unused ⟨addr, requested, used⟩
    let blocked := kernel.newTask addr (clearedPcb addr) kernel.table.pids
    have size : blocked.table.pids.nbits = pidMax := sized
    have first : 0 ∈ pidMarks blocked.table.pids := zero
    refine .bind (.act fun pid second numbered => .bind (.change ?_))
    rcases pidAlloc_service size first (Option.some.inj numbered) with
      ⟨rfl, rfl⟩ | ⟨found, pids, rfl, allocated, taken, rfl⟩
    · -- Without a free PID the block is freed again.
      rw [if_pos (by decide), newTask_updatePcb]
      refine .bind (.act fun _ last freed => .pure (undone _ ?_ ?_))
      · rw [tasks_procFreePcb freed]
        exact ⟨sized, fun _ => Iff.rfl, addr, _, fresh, rfl, rfl⟩
      · have cleaned := memory_procFreePcb (by rw [newTask_pcb_self]; rfl)
          (by rw [newTask_pcb_self]; rfl) freed
        exact cleaned
    · rw [if_neg (by omega)]
      have made : Kernel.updatePcb ((kernel.newTask addr (clearedPcb addr) kernel.table.pids).updateTable
          fun table => { table with pids := pids }) addr (fun pcb => { pcb with pid := found }) =
          kernel.newTask addr { clearedPcb addr with pid := found } pids :=
        newTask_updatePcb kernel addr (clearedPcb addr) pids _
      rw [made]
      exact next addr found pids _ requested allocated fresh taken rfl rfl

end Creation

end Ccos
