import Ccos.Process.PidRun
import Ccos.User.UserPages

/-! The user stacks of threads: when `proc_create_user_thread` gets one from its stack area, and what
joining a thread does to its stack and to those of the others. -/

namespace Ccos

open Lib
open Lib.Logged

variable {Frames : Type}

/-- An allocator obeys its laws inside the PID table as well. -/
def tableLawfulOps (ops : LawfulFrameOps Frames) : LawfulFrameOps (PidTable Frames) where
  toFrameOps := tableFrames ops.toFrameOps
  total := tableFrames_total ops.total
  frees := by
    intro before addr after freed nonzero other
    obtain ⟨frames, done, rfl⟩ := Option.map_eq_some_iff.mp freed
    exact ops.frees before.frames addr frames done nonzero other

theorem tableFrames_stable_of {ops : FrameOps Frames} {inv : Frames → Prop} (stable : ops.Stable inv) :
    (tableFrames ops).Stable fun table => inv table.frames where
  alloc table held := stable.alloc table.frames held
  free table addr after held freed := by
    obtain ⟨frames, done, rfl⟩ := Option.map_eq_some_iff.mp freed
    exact stable.free table.frames addr frames held done

theorem tableFrames_marks {ops : FrameOps Frames} {mark : Frames → Prop} (marks : ops.Marks mark) :
    (tableFrames ops).Marks fun table => mark table.frames where
  stable := tableFrames_stable_of marks.stable
  refused table after refused := by
    obtain ⟨none, rfl⟩ := Prod.mk.inj refused
    exact marks.refused table.frames _ (Prod.ext none rfl)

section Growth

variable {Alloc : Type}

/-- A stack of the requested size fits between the next top and the end of the stack area. -/
@[grind =] def StackRoom (next stackSize : Nat) : Prop :=
  threadStackBase - 64 * 1024 * 1024 + roundUpPages stackSize ≤ next ∧ next ≤ threadStackBase

instance (next stackSize : Nat) : Decidable (StackRoom next stackSize) :=
  inferInstanceAs (Decidable (_ ∧ _))

/-- Every page of a stack is mapped writable and for the user. -/
@[grind =] def StackMapped (root top size : Nat) (mem : PhysMem) : Prop :=
  ∀ vaddr, top - size ≤ vaddr → vaddr < top →
    ∃ mapping, translation root vaddr mem = some mapping ∧ mapping.write ∧ mapping.user

/-- Nothing is mapped where a stack is to be. -/
@[grind =] def StackUnmapped (root top size : Nat) (mem : PhysMem) : Prop :=
  ∀ vaddr, top - size ≤ vaddr → vaddr < top → hardwareWalk root vaddr mem = none

/-- The growth by the pages of a stack, which takes the pages back when one of them fails. -/
def stackGrowth (ops : FrameOps Alloc) (root base : Nat) : Growth Alloc where
  flags := vmapFlagWrite ||| vmapFlagUser
  clears := false
  noFrame page st := userMunmapPages ops.free root base 0 page st
  noMapping page st := userMunmapPages ops.free root base 0 page st

theorem stackGrowth_flags (ops : FrameOps Alloc) (root base : Nat) :
    (stackGrowth ops root base).flags ||| vmapFlagUser = vmapFlagWrite ||| vmapFlagUser := by
  change (vmapFlagWrite ||| vmapFlagUser) ||| vmapFlagUser = _
  decide

variable {ops : LawfulFrameOps Alloc} {mark : Alloc → Prop} {root next stackSize : Nat}
  {st : PageState Alloc}

variable (positive : 0 < stackSize) (most : stackSize ≤ threadStackSize)
include positive most

theorem roundUpPages_stack :
    0 < roundUpPages stackSize ∧ roundUpPages stackSize ≤ threadStackSize ∧
      roundUpPages stackSize % pageSize = 0 := by
  rw [roundUpPages_eq]
  simp only [threadStackSize, wrap64, pageSize, pageShift] at *
  omega

variable (room : StackRoom next stackSize)
include room

theorem threadAllocUserStack_room {ops : FrameOps Alloc} :
    threadAllocUserStack ops root next stackSize st =
      (growPages ops (stackGrowth ops root (next - roundUpPages stackSize)) root
        (next - roundUpPages stackSize) 0 (roundUpPages stackSize / pageSize) st).map fun grown =>
          ((if grown.1 then some next else none, next - roundUpPages stackSize), grown.2) := by
  obtain ⟨_, capped, _⟩ := roundUpPages_stack positive most
  obtain ⟨above, below⟩ := room
  have base : wrap64 (next + 2 ^ 64 - roundUpPages stackSize) = next - roundUpPages stackSize := by
    have limit : threadStackBase < 2 ^ 48 := by decide
    simp only [wrap64, threadStackSize] at *
    omega
  have fits : ¬next - roundUpPages stackSize < threadStackBase - 64 * 1024 * 1024 := by omega
  simp only [threadAllocUserStack, if_neg (Nat.ne_of_gt positive), if_neg (Nat.not_lt.mpr capped),
    base, if_neg fits]
  exact Option.map_eq_bind.symm

/-- A page of a stack in the stack area is only blocked by the alignment of the top and by
mappings. -/
theorem Blocked.stack {page : Nat} {mem : PhysMem} (aligned : next % pageSize = 0)
    (small : page < roundUpPages stackSize / pageSize)
    (blocked : Blocked root (next - roundUpPages stackSize) mem page) :
    ¬StackUnmapped root next (roundUpPages stackSize) mem := by
  obtain ⟨_, capped, rounded⟩ := roundUpPages_stack positive most
  obtain ⟨above, below⟩ := room
  have limits : userBase ≤ threadStackBase - 64 * 1024 * 1024 ∧ threadStackBase < userEnd := by
    decide
  have whole : roundUpPages stackSize / pageSize * pageSize = roundUpPages stackSize :=
    Nat.div_mul_cancel (Nat.dvd_of_mod_eq_zero rounded)
  have base : (next - roundUpPages stackSize) % pageSize = 0 := by
    simp only [pageSize, pageShift] at *
    omega
  have present := blocked.mapped (by omega) base (by omega) small
  refine fun unmapped => present (unmapped _ (by omega) ?_)
  have inside : (page + 1) * pageSize ≤ roundUpPages stackSize / pageSize * pageSize :=
    Nat.mul_le_mul_right _ small
  rw [whole] at inside
  simp only [pageSize, pageShift] at *
  omega

/-- A growth by all pages of a stack: the top is a page boundary, nothing was mapped below it, and now
the stack is. -/
theorem Raised.stack {pages : UserPages} {after : PageState Alloc}
    (raised : Raised ops.source (stackGrowth ops.toFrameOps root (next - roundUpPages stackSize)) root
      (next - roundUpPages stackSize) st (roundUpPages stackSize / pageSize) pages after) :
    next % pageSize = 0 ∧ StackUnmapped root next (roundUpPages stackSize) st.mem ∧
      StackMapped root next (roundUpPages stackSize) after.mem := by
  obtain ⟨nonempty, capped, rounded⟩ := roundUpPages_stack positive most
  have first := (raised.user 0 (Nat.div_pos (Nat.le_of_dvd nonempty
    (Nat.dvd_of_mod_eq_zero rounded)) (by decide))).2
  have limit : threadStackBase < 2 ^ 48 := by decide
  obtain ⟨above, below⟩ := room
  simp only [pageAt, wrap64, threadStackSize, pageSize, pageShift] at first capped rounded
  -- Each address of the stack lies in a page of the growth.
  have inside (vaddr : Nat) (low : next - roundUpPages stackSize ≤ vaddr) (high : vaddr < next) :
      ∃ frame flags, pages (pageNumber vaddr) = some (frame, flags) := by
    have owned := (raised.domain (pageNumber vaddr)).mpr
      ⟨(vaddr - (next - roundUpPages stackSize)) / pageSize, ?_, ?_⟩
    · obtain ⟨⟨frame, flags⟩, owned⟩ := Option.ne_none_iff_exists'.mp owned
      exact ⟨frame, flags, owned⟩
    · simp only [pageSize, pageShift]
      omega
    · simp only [pageNumber, pageAt, wrap64, pageSize, pageShift, Nat.shiftRight_eq_div_pow]
      omega
  refine ⟨?_, fun vaddr low high => ?_, fun vaddr low high => ?_⟩
  · simp only [pageSize, pageShift]
    omega
  · obtain ⟨frame, flags, owned⟩ := inside vaddr low high
    exact raised.memory.alone vaddr (by simp [owned])
  · obtain ⟨frame, flags, owned⟩ := inside vaddr low high
    exact ⟨_, raised.writable_page (stackGrowth_flags ..) owned, rfl, rfl⟩

/-- A stack is mapped below the next top, or no stack is made: a frame was refused, the top is not a
page boundary or there is something mapped below it. -/
theorem threadAllocUserStack_cases (marks : ops.toFrameOps.Marks mark)
    (tables : UserTables ops.source root st) :
    ∃ top after, threadAllocUserStack ops.toFrameOps root next stackSize st =
        some ((top, next - roundUpPages stackSize), after) ∧
      ((top = some next ∧ ∃ pages, Raised ops.source
          (stackGrowth ops.toFrameOps root (next - roundUpPages stackSize)) root
          (next - roundUpPages stackSize) st (roundUpPages stackSize / pageSize) pages after) ∨
        top = none ∧ (mark after.frames ∨ next % pageSize ≠ 0 ∨
          ¬StackUnmapped root next (roundUpPages stackSize) st.mem)) := by
  rw [threadAllocUserStack_room positive most room]
  have raised : Raised ops.source (stackGrowth ops.toFrameOps root (next - roundUpPages stackSize))
      root (next - roundUpPages stackSize) st 0 (fun _ => none) st := .start tables
  rcases growPages_cases marks (by rw [stackGrowth_flags]; decide)
      (roundUpPages stackSize / pageSize) 0 _ st raised with
    ⟨pages, after, done, raised⟩ | ⟨mapped, pages, middle, frames, small, raised, grew, refused, done⟩ |
    ⟨mapped, pages, middle, small, raised, reason, done⟩
  · grind
  · -- The pages are taken back, and the refusal stays on record.
    rw [Nat.zero_add] at done
    obtain ⟨after, back⟩ := ops.total.munmapPages root (next - roundUpPages stackSize) mapped
      { middle with frames := frames }
    rw [done.trans (congrArg (Option.map _) back)]
    exact ⟨_, _, rfl, .inr ⟨rfl, .inl (marks.stable.munmapPages (marks.refused _ _ refused) back)⟩⟩
  · rw [Nat.zero_add] at raised reason done
    obtain ⟨after, back, _⟩ := raised.takeBack
    rw [done.trans (congrArg (Option.map _) back)]
    refine ⟨_, _, rfl, .inr ⟨rfl, ?_⟩⟩
    rcases reason with blocked | marked
    · by_cases aligned : next % pageSize = 0
      · exact .inr (.inr (blocked.stack positive most room aligned small))
      · exact .inr (.inl aligned)
    · exact .inl (marks.stable.munmapPages marked back)

end Growth

section Creation

variable {ops : LawfulFrameOps Frames} {kernelPml4 : Nat} {grants : Grants}
  {kernel : TaskKernel (Watched Frames)} {parent thread entry arg stackSize root next : Nat}

/-- A thread is given a new stack, or none: a frame was refused, the next top is not a page boundary
or there is something mapped below it. -/
theorem giveThreadStack_yields (space : (kernel.pcb parent).pml4Phys = root)
    (top : kernel.nextThreadStack = next)
    (tables : UserTables (tableLawfulOps (watchedOps ops)).source root kernel.pages)
    (positive : 0 < stackSize) (most : stackSize ≤ threadStackSize) (room : StackRoom next stackSize) :
    Yields (giveThreadStack (taskServices (watchedOps ops).toFrameOps kernelPml4 grants) parent thread
      0 stackSize) kernel fun given last =>
        given = true ∧ last.pcb = Function.update kernel.pcb thread
            { kernel.pcb thread with userStack := next, userStackSize := stackSize } ∧
          (∃ pages, Raised (tableLawfulOps (watchedOps ops)).source
            (stackGrowth (tableLawfulOps (watchedOps ops)).toFrameOps root
              (next - roundUpPages stackSize)) root (next - roundUpPages stackSize) kernel.pages
            (roundUpPages stackSize / pageSize) pages last.pages) ∨
        given = false ∧ (last.table.frames.refused = true ∨ next % pageSize ≠ 0 ∨
          ¬StackUnmapped root next (roundUpPages stackSize) kernel.pages.mem) := by
  subst space top
  obtain ⟨top, after, made, outcome⟩ := threadAllocUserStack_cases positive most room
    (tableFrames_marks (watchedOps_marks ops)) tables
  unfold giveThreadStack
  rw [if_pos rfl, if_neg (Nat.ne_of_gt positive)]
  refine .bind (.read (.bind (.act (congrArg (Option.map _) made) (.bind (.change ?_)))))
  -- The next top is stored in both cases.
  obtain ⟨rfl, pages, raised⟩ | ⟨rfl, reason⟩ := outcome
  · exact .bind (.change (.pure (.inl ⟨rfl, rfl, pages, raised⟩)))
  · exact .pure (.inr ⟨rfl, reason⟩)

/-- What the creation of a thread needs beside its stack: an entry, a control block, a PID and a
join queue. -/
@[grind] structure ThreadGranted (grants : Grants) (pids : Bitmap) (entry : Nat) : Prop where
  entry : entry ≠ 0
  block : grants.pcb ≠ none
  pid : ∃ pid after, pidAlloc pids = some (pid, after) ∧ 0 ≤ pid
  queue : grants.joinWaiters = true

/-- The creation of a task gets a control block and a PID, or it fails for the lack of one. -/
theorem newTask_yields {Result : Type} {inner : FrameOps Frames} {start : TaskKernel Frames}
    {fail : Result} {rest : Nat → Int → KernelCall (PidTable Frames) Result}
    {post : Result → TaskKernel Frames → Prop} (total : inner.Total)
    (refused : ∀ last, (grants.pcb ≠ none →
      ¬∃ pid after, pidAlloc start.table.pids = some (pid, after) ∧ 0 ≤ pid) → post fail last)
    (next : ∀ (addr : Nat) (pid : Int) (pids : Bitmap), grants.pcb = some addr →
      pidAlloc start.table.pids = some (pid, pids) → 0 ≤ pid →
      Yields (rest addr pid) (start.newTask addr { clearedPcb addr with pid := pid } pids) post) :
    Yields (creating (taskServices inner kernelPml4 grants) fail rest) start post := by
  cases requested : grants.pcb with
  | none =>
    have given : (taskServices inner kernelPml4 grants).procAllocPcb start =
        some (none, start) := by
      simp [taskServices, procAllocPcb, requested]
    exact .bind (.act given (.pure (refused _ fun granted => absurd requested granted)))
  | some addr =>
    let first := start.newTask addr (clearedPcb addr) start.table.pids
    have given : (taskServices inner kernelPml4 grants).procAllocPcb start =
        some (some addr, first) := by
      simp only [taskServices, procAllocPcb, requested]
      rfl
    -- Without a PID the block is freed again.
    have undo (last : TaskKernel Frames)
        (lacks : ¬∃ pid after, pidAlloc start.table.pids = some (pid, after) ∧ 0 ≤ pid) :
        Yields (do
          Logged.act ((taskServices inner kernelPml4 grants).procFreePcb addr)
          return fail : KernelCall (PidTable Frames) Result) last post := by
      obtain ⟨after, freed⟩ := procFreePcb_returns total addr last
      exact .bind (.act freed (.pure (refused _ fun _ => lacks)))
    refine .bind (.act given ?_)
    rcases taken : pidAlloc start.table.pids with _ | ⟨pid, pids⟩
    · have reply : (taskServices inner kernelPml4 grants).pidAlloc first = (-1, first) := by
        change pidAlloc first.table.pids = _ at taken
        simp only [taskServices, taken]
      rw [taken] at undo
      exact .bind (.act (congrArg some reply) (.bind (.change (undo _ (by simp)))))
    · have reply : (taskServices inner kernelPml4 grants).pidAlloc first =
          (pid, first.updateTable fun table => { table with pids := pids }) := by
        change pidAlloc first.table.pids = _ at taken
        simp only [taskServices, taken]
      rw [taken] at undo
      refine .bind (.act (congrArg some reply) (.bind (.change ?_)))
      split
      · grind
      · rw [show Kernel.updatePcb (first.updateTable fun table => { table with pids := pids }) addr
            (fun pcb => { pcb with pid := pid }) =
              start.newTask addr { clearedPcb addr with pid := pid } pids from
          newTask_updatePcb start addr (clearedPcb addr) pids _]
        exact next addr pid pids requested taken (by omega)

theorem takenBack_refused {fourth last : TaskKernel (Watched Frames)} {thread : Nat} {pid : Int}
    {result : Unit} (refused : fourth.table.frames.refused = true)
    (freed : procFreePcb (watchedOps ops).toFrameOps thread
      ((taskServices (watchedOps ops).toFrameOps kernelPml4 grants).pidFree pid fourth) =
        some (result, last)) : last.table.frames.refused = true := by
  have marked : ((taskServices (watchedOps ops).toFrameOps kernelPml4 grants).pidFree pid
      fourth).table.frames.refused = true := by
    simp only [taskServices]
    split
    · exact refused
    · exact refused
  obtain ⟨pages, held, becomes⟩ := procFreePcb_pages
    (tableFrames_stable_of (watchedOps_marks ops).stable) marked freed
  subst becomes
  exact held

/-- Giving the stack of a thread back returns, and works on the page tables and the frames only. -/
theorem freeUserStack_yields (kernel : TaskKernel (Watched Frames)) (thread : Nat) :
    ∃ pages, (freeUserStack (taskServices (watchedOps ops).toFrameOps kernelPml4 grants)
      thread).Yields kernel fun _ state => state = { kernel with pages := pages } := by
  obtain ⟨pages, back⟩ := (tableFrames_total (watchedOps ops).total).freeUserStack
    (kernel.pcb thread).pml4Phys (kernel.pcb thread).isUserMode (kernel.pcb thread).userStack
    (kernel.pcb thread).userStackSize kernel.pages
  exact ⟨pages,
    .bind (.read (.act (congrArg (Option.map _) (congrArg (Option.map _) back)) rfl))⟩

/-- A user thread gets a new stack that is mapped in full exactly when everything else is granted,
the next top is a page boundary and nothing is mapped below it. -/
theorem procCreateUserThread_stack (ops : LawfulFrameOps Frames) (kernelPml4 entry arg : Nat)
    (grants : Grants) (tables : UserTables (tableLawfulOps (watchedOps ops)).source
      (kernel.pcb parent).pml4Phys kernel.pages)
    (apart : grants.pcb ≠ some parent) (positive : 0 < stackSize)
    (most : stackSize ≤ threadStackSize) (room : StackRoom kernel.nextThreadStack stackSize) :
    Yields (procCreateUserThread (taskServices (watchedOps ops).toFrameOps kernelPml4 grants) parent
      entry arg 0 stackSize) kernel fun result last => last.table.frames.refused = false →
        ((0 ≤ result ∧ ∃ thread, grants.pcb = some thread ∧
            StackMapped (kernel.pcb parent).pml4Phys (last.pcb thread).userStack
              (roundUpPages stackSize) last.pages.mem) ↔
          ThreadGranted grants kernel.table.pids entry ∧ kernel.nextThreadStack % pageSize = 0 ∧
            StackUnmapped (kernel.pcb parent).pml4Phys kernel.nextThreadStack
              (roundUpPages stackSize) kernel.pages.mem) := by
  have total := (watchedOps ops).total
  have failed {condition : Prop} {mapped : Prop} (unmet : ¬condition) :
      ((0 : Int) ≤ -1 ∧ mapped) ↔ condition :=
    iff_of_false (fun both => absurd both.1 (by decide)) unmet
  unfold procCreateUserThread
  split
  · rename_i missing
    exact .pure fun _ => failed fun met => met.1.entry missing
  rename_i entered
  refine newTask_yields total (fun last lacks _ => failed fun met => lacks met.1.block met.1.pid)
    fun thread pid pids requested taken nonneg => .bind (.change (.bind (.change (.bind (.change ?_)))))
  have differs : parent ≠ thread := fun equal => apart (equal ▸ requested)
  generalize named : Kernel.updatePcb (Kernel.updatePcb (Kernel.updatePcb _ _ _) _ _) _ _ = third
  -- So far nothing happened to the memory.
  have space : (third.pcb parent).pml4Phys = (kernel.pcb parent).pml4Phys := by
    rw [← named]
    simp [Kernel.updatePcb, Kernel.newTask, Kernel.updateTable, Function.update_of_ne differs]
  have memory : third.pages = { kernel.pages with frames := third.pages.frames } := by
    rw [← named]
    rfl
  have frames : third.table.frames = kernel.table.frames := by
    rw [← named]
    rfl
  have top : third.nextThreadStack = kernel.nextThreadStack := by
    rw [← named]
    rfl
  have later : UserTables (tableLawfulOps (watchedOps ops)).source (kernel.pcb parent).pml4Phys
      third.pages := by
    rw [memory]
    refine tables.withFrames fun table is => ?_
    change (watchedOps ops).source.inUse third.table.frames table
    rw [frames]
    exact (tables.inUse is).1
  have same : third.pages.mem = kernel.pages.mem := by rw [memory]
  refine .bind ((giveThreadStack_yields space top later positive most room).mono
    fun given fourth outcome => ?_)
  rw [← same]
  obtain ⟨rfl, blocks, pages, raised⟩ | ⟨rfl, reason⟩ := outcome
  · obtain ⟨aligned, unmapped, mapped⟩ := raised.stack positive most room
    have stored : (fourth.pcb thread).userStack = kernel.nextThreadStack := by
      rw [blocks, Function.update_self]
    refine .bind (.act (by rfl) ?_)
    cases queue : grants.joinWaiters with
    | false =>
      obtain ⟨after, returns⟩ := freeUserStack_yields fourth thread
      obtain ⟨last, freed⟩ := procFreePcb_returns total thread
        ((taskServices (watchedOps ops).toFrameOps kernelPml4 grants).pidFree pid
          { fourth with pages := after })
      refine .bind (returns.mono fun _ state same => ?_)
      rw [same]
      exact .bind (.change (.bind (.act freed (.pure fun _ =>
        failed fun met => by cases queue.symm.trans met.1.queue))))
    | true =>
      refine .bind (.change (.bind (.change (.bind (.change (.pure fun _ => iff_of_true
        ⟨nonneg, thread, requested, ?_⟩ ⟨⟨entered, by simp [requested], ⟨pid, pids, taken, nonneg⟩,
          queue⟩, aligned, unmapped⟩))))))
      have noted : ((Kernel.updatePcb (Kernel.updatePcb fourth thread fun pcb =>
          { pcb with joinWaiters := true }) parent fun pcb =>
          { pcb with threadList := pcb.threadList ++ [thread] }).pcb thread).userStack =
          kernel.nextThreadStack := by
        simp [Kernel.updatePcb, Function.update_of_ne differs.symm, stored]
      exact noted ▸ mapped
  · -- The thread is taken back, and a refusal stays on record.
    obtain ⟨last, freed⟩ := procFreePcb_returns total thread
      ((taskServices (watchedOps ops).toFrameOps kernelPml4 grants).pidFree pid fourth)
    refine .bind (.change (.bind (.act freed (.pure fun enough => failed fun met => ?_))))
    rcases reason with refused | unaligned | present
    · cases (takenBack_refused refused freed).symm.trans enough
    · exact unaligned met.2.1
    · exact present met.2.2

end Creation

/-- The PID table with one process, which has PID 1. -/
def stackTable : PidTable (Watched ReadyPframe) :=
  ⟨⟨smallPframe, false, []⟩, ((pidAlloc bootPids).get (by decide +kernel)).2, [0x2000], [], []⟩

/-- A process without pages in a kernel whose next thread stack starts at an address. -/
def stackKernel (next : Nat) : TaskKernel (Watched ReadyPframe) where
  pcb := Function.update clearedPcb 0x2000
    { clearedPcb 0x2000 with
      pid := 1
      tgid := 1
      state := .running
      pml4Phys := 0x100000
      isUserMode := true }
  current := some 0x2000
  runQueue := []
  nrRunning := 1
  pages := newProcess (tableLawfulOps (watchedOps pframeLawfulOps)).source stackTable
  nextThreadStack := next
  stats := ⟨0, fun _ => 0, 0, 0⟩

theorem stackKernel_created :
    (vmmCreateUserSpace (tableLawfulOps (watchedOps pframeLawfulOps)).source 0x5000
      ⟨fun _ => 0, stackTable, []⟩).1 = some 0x100000 := by
  decide +kernel

theorem stackKernel_tables (next : Nat) :
    UserTables (tableLawfulOps (watchedOps pframeLawfulOps)).source 0x100000
      (stackKernel next).pages := by
  have used : (tableLawfulOps (watchedOps pframeLawfulOps)).source.inUse stackTable 0x5000 :=
    ⟨5, by decide, by decide, by decide⟩
  simp only [stackKernel]
  exact newProcess_tables used stackKernel_created

theorem stackKernel_walk {next vaddr : Nat} (user : (pml4Index vaddr).val < 256) :
    hardwareWalk 0x100000 vaddr (stackKernel next).pages.mem = none := by
  unfold stackKernel
  exact newProcess_walk user stackKernel_created

/-- With a next top that is a page boundary the thread gets its stack. -/
theorem procCreateUserThread_stack_aligned :
    Yields (procCreateUserThread (taskServices (watchedOps pframeLawfulOps).toFrameOps 0x5000
      ⟨some 0x3000, true, none⟩) 0x2000 0x400000 0 0 5000) (stackKernel 0x7FFFFBFFF000)
      fun result last => 0 ≤ result ∧ ∃ thread, some 0x3000 = some thread ∧
        StackMapped 0x100000 (last.pcb thread).userStack (roundUpPages 5000) last.pages.mem := by
  have space : ((stackKernel 0x7FFFFBFFF000).pcb 0x2000).pml4Phys = 0x100000 := by
    simp [stackKernel]
  obtain ⟨result, returned, holds⟩ := @procCreateUserThread_stack _ (stackKernel 0x7FFFFBFFF000)
    0x2000 5000 pframeLawfulOps 0x5000 0x400000 0 ⟨some 0x3000, true, none⟩
    (space ▸ stackKernel_tables 0x7FFFFBFFF000) (by decide) (by decide) (by decide)
    ⟨by decide, by decide⟩
  rw [space] at holds
  refine ⟨result, returned, (holds (by decide +kernel)).mpr ⟨⟨by decide, by decide, ?_, rfl⟩,
    by decide, fun vaddr above below => ?_⟩⟩
  · have found : (pidAlloc (stackKernel 0x7FFFFBFFF000).table.pids).any fun reply => 0 ≤ reply.1 := by
      decide +kernel
    obtain ⟨⟨pid, after⟩, taken, nonneg⟩ := (Option.any_eq_true _ _).mp found
    exact ⟨pid, after, taken, of_decide_eq_true nonneg⟩
  · refine stackKernel_walk ?_
    have next : (stackKernel 0x7FFFFBFFF000).nextThreadStack = 0x7FFFFBFFF000 := rfl
    rw [next] at below
    rw [pml4Index, tableIndex_val]
    omega

/-- A kernel at boot over an allocator that keeps a record. -/
def watchedBoot : TaskKernel (Watched ReadyPframe) where
  pcb := clearedPcb
  current := none
  runQueue := []
  nrRunning := 0
  pages := ⟨fun _ => 0, ⟨⟨smallPframe, false, []⟩, ⟨fun _ => 0, 0⟩, [], [], []⟩, []⟩
  nextThreadStack := threadStackBase
  stats := ⟨0, fun _ => 0, 0, 0⟩

/-- After boot the next top is the last byte before a page boundary, and the first process that asks
for a thread with a new stack gets none although nothing was refused. -/
theorem procCreateUserThread_fails_after_boot :
    ∃ kernel, Run (fun before (action : TaskCall × Grants) after =>
        action.1.perform (watchedOps pframeLawfulOps).toFrameOps 0x5000 action.2 before = some after)
        (watchedBoot.procInit bootPids)
        [(.kernelThread 0x100000 0, ⟨some 0x1000, true, none⟩),
         (.schedule, ⟨none, true, some 0x1000⟩),
         (.fork, ⟨some 0x2000, true, none⟩)] kernel ∧
      (kernel.pcb 0x2000).pml4Phys = 0x100000 ∧
      (threadStackBase - 64 * 1024 * 1024 + roundUpPages 4096 ≤ kernel.nextThreadStack ∧
        kernel.nextThreadStack ≤ threadStackBase) ∧
      (procCreateUserThread (taskServices (watchedOps pframeLawfulOps).toFrameOps 0x5000
        ⟨some 0x3000, true, none⟩) 0x2000 0x400000 0 0 4096 kernel).2.2 = some (-1) ∧
      (procCreateUserThread (taskServices (watchedOps pframeLawfulOps).toFrameOps 0x5000
        ⟨some 0x3000, true, none⟩) 0x2000 0x400000 0 0 4096 kernel).2.1.table.frames.refused =
          false :=
  Run.exists_of_any (by decide +kernel)

end Ccos
