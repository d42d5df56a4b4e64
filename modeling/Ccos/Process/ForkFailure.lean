import Ccos.Heap.Live
import Ccos.Process.TaskView
import Ccos.Vmm.PageWalk

/-! A fork that fails, over the kernel heap itself and with every allocation of `proc_alloc_pcb` on
its own: what was taken is given back, but for blocks that end beyond the heap region. -/

namespace Ccos

open Lib Lib.Logged

/-- How the kernel heap grows: what `vmm_alloc_pages_at` does with the frames that there are, and
which frames an allocation takes for the heap. -/
structure HeapGrowth {Frames : Type} (source : FrameSource Frames) where
  vmm : Frames → Vmm
  take : (size : Nat) → Heap → Frames → Frames × List Nat
  used : ∀ size heap frames frame, source.inUse (take size heap frames).1 frame ↔
    source.inUse frames frame ∨ frame ∈ (take size heap frames).2
  unused : ∀ size heap frames, ∀ frame ∈ (take size heap frames).2, ¬source.inUse frames frame

/-- A PID bitmap as `pid_alloc_init` leaves it and the allocator keeps it: PID 0 is reserved. -/
structure PidBitmap where
  bits : Bitmap
  sized : bits.nbits = pidMax
  zero : 0 ∈ pidMarks bits

namespace PidBitmap

theorem alloc_keeps (pids : PidBitmap) {pid : Int} {bits : Bitmap}
    (taken : pidAlloc pids.bits = some (pid, bits)) : bits.nbits = pidMax ∧ 0 ∈ pidMarks bits := by
  rcases pidAlloc_cases pids.sized with ⟨failed, _⟩ | ⟨found, after, done, _, _, size, marks⟩
  · obtain ⟨rfl, rfl⟩ := Prod.mk.inj (Option.some.inj (failed.symm.trans taken))
    exact ⟨pids.sized, pids.zero⟩
  · obtain ⟨rfl, rfl⟩ := Prod.mk.inj (Option.some.inj (done.symm.trans taken))
    exact ⟨size, (marks 0).mpr (.inl pids.zero)⟩

/-- Take a PID; the assertions of the bitmap never fail here. -/
def alloc (pids : PidBitmap) : Int × PidBitmap :=
  match taken : pidAlloc pids.bits with
  | some (pid, bits) => (pid, ⟨bits, (pids.alloc_keeps taken).1, (pids.alloc_keeps taken).2⟩)
  | none => (-1, pids)

theorem free_keeps (pids : PidBitmap) {pid : Int} {bits : Bitmap}
    (given : pidFree pids.bits pid = some bits) : bits.nbits = pidMax ∧ 0 ∈ pidMarks bits := by
  by_cases inside : 0 < pid ∧ pid < pidMax
  · obtain ⟨number, rfl⟩ := Int.eq_ofNat_of_zero_le inside.1.le
    obtain ⟨after, done, size, marks⟩ := pidFree_spec pids.sized
      (Int.natCast_pos.mp inside.1) (Int.ofNat_lt.mp inside.2)
    obtain rfl := Option.some.inj (done.symm.trans given)
    exact ⟨size, (marks 0).mpr ⟨pids.zero, inside.1.ne⟩⟩
  · rw [pidFree, if_neg inside] at given
    obtain rfl := Option.some.inj given
    exact ⟨pids.sized, pids.zero⟩

/-- Give a PID back; the assertions of the bitmap never fail here. -/
def free (pids : PidBitmap) (pid : Int) : PidBitmap :=
  match given : pidFree pids.bits pid with
  | some bits => ⟨bits, (pids.free_keeps given).1, (pids.free_keeps given).2⟩
  | none => pids

theorem alloc_cases (pids : PidBitmap) :
    pids.alloc = (-1, pids) ∨
    ∃ (pid : Nat) (after : PidBitmap), pids.alloc = ((pid : Int), after) ∧
      PidTaken pids.bits after.bits pid := by
  rcases pidAlloc_cases pids.sized with ⟨failed, _⟩ | ⟨pid, bits, done, small, free, size, marks⟩
  · refine .inl ?_
    unfold alloc
    split
    · rename_i taken
      obtain ⟨rfl, rfl⟩ := Prod.mk.inj (Option.some.inj (failed.symm.trans taken))
      rfl
    · rfl
  · have positive : 0 < pid := by
      rcases Nat.eq_zero_or_pos pid with rfl | positive
      · exact absurd pids.zero free
      · exact positive
    refine .inr ⟨pid, ⟨bits, size, (marks 0).mpr (.inl pids.zero)⟩, ?_,
      positive, small, free, size, marks⟩
    unfold alloc
    grind

theorem free_taken {before after : PidBitmap} {pid : Nat}
    (taken : PidTaken before.bits after.bits pid) :
    pidMarks (after.free pid).bits = pidMarks before.bits := by
  obtain ⟨bits, done, _, marks⟩ := pidFree_spec after.sized taken.positive taken.small
  have bits : pidMarks (after.free pid).bits = pidMarks bits := by
    unfold free
    grind
  rw [bits]
  ext other
  rw [marks, taken.marks]
  constructor
  · grind
  · exact fun old => ⟨.inl old, fun equal => taken.free (equal ▸ old)⟩

end PidBitmap

/-- The other allocations that a control block points to; zero is a null pointer. -/
structure PcbParts where
  cpuCtx : Nat
  kernelStackBase : Nat
  trapFrame : Nat
  joinWaiters : Nat

/-- The frame allocator beside the kernel heap with the frames it took, the PID bitmap and the parts
of control blocks. What callers keep in payloads is not in the heap's memory here. -/
structure ForkTable (Frames : Type) where
  frames : Frames
  heapFrames : List Nat
  heap : Heap
  pids : PidBitmap
  parts : Nat → PcbParts

def kernelStackSize : Nat := 16 * 1024

variable {Frames : Type} {ops : FrameOps Frames} (growth : HeapGrowth ops.source)
  (pcbBytes ctxBytes kernelPml4 : Nat)

namespace ForkTable

/-- Allocate from the kernel heap, which may take frames to grow. -/
def kmalloc (size : Nat) (table : ForkTable Frames) : Option (Nat × ForkTable Frames) := do
  let (ptr, heap) ← table.heap.kmalloc (growth.vmm table.frames) size
  let (frames, taken) := growth.take size table.heap table.frames
  some (ptr, { table with heap, frames, heapFrames := taken ++ table.heapFrames })

def kfree (ptr : Nat) (table : ForkTable Frames) : Option (ForkTable Frames) := do
  let heap ← table.heap.kfree ptr
  some { table with heap }

/-- Free what a pointer leads to, unless it is null. -/
def kfreePart (ptr : Nat) (table : ForkTable Frames) : Option (ForkTable Frames) :=
  if ptr ≠ 0 then table.kfree ptr else some table

end ForkTable

/-- The kernel with its heap. -/
abbrev ForkKernel (Frames : Type) := Kernel (ForkTable Frames)

def Kernel.forkTable (kernel : ForkKernel Frames) : ForkTable Frames :=
  kernel.pages.frames

def Kernel.withForkTable (kernel : ForkKernel Frames) (table : ForkTable Frames) :
    ForkKernel Frames :=
  { kernel with pages := { kernel.pages with frames := table } }

def forkFrames (ops : FrameOps Frames) : FrameOps (ForkTable Frames) where
  source := ops.source.within ForkTable.frames
    (fun table _ frames => { table with frames := frames }) fun _ _ _ => rfl
  free table addr := (ops.free table.frames addr).map fun frames => { table with frames := frames }

/-- Allocate a control block, its processor context and its kernel stack. -/
def allocPcbParts (kernel : ForkKernel Frames) : Option (Option Nat × ForkKernel Frames) := do
  let (pcb, table) ← kernel.forkTable.kmalloc growth pcbBytes
  if pcb = 0 then some (none, kernel.withForkTable table)
  else
    let (cpuCtx, table) ← table.kmalloc growth ctxBytes
    if cpuCtx = 0 then
      let table ← table.kfree pcb
      some (none, kernel.withForkTable table)
    else
      let (stack, table) ← table.kmalloc growth kernelStackSize
      if stack = 0 then
        let table ← table.kfree cpuCtx
        let table ← table.kfree pcb
        some (none, kernel.withForkTable table)
      else
        let table := { table with
          parts := Function.update table.parts pcb ⟨cpuCtx, stack, 0, 0⟩ }
        some (some pcb, (kernel.withForkTable table).updatePcb pcb fun _ => clearedPcb pcb)

/-- Free a control block with all that it points to, its user stack and its address space. -/
def freePcbParts (ops : FrameOps Frames) (addr : Nat) (kernel : ForkKernel Frames) :
    Option (Unit × ForkKernel Frames) := do
  let pcb := kernel.pcb addr
  let parts := kernel.forkTable.parts addr
  let table ← kernel.forkTable.kfreePart parts.cpuCtx
  let table ← table.kfreePart parts.kernelStackBase
  let table ← table.kfreePart parts.trapFrame
  let kernel := kernel.withForkTable table
  let pages ← if pcb.isUserMode ∧ pcb.userStack ≠ 0 ∧ 0 < pcb.userStackSize then
      userMunmapPages (forkFrames ops).free pcb.pml4Phys pcb.userStack 0
        (pcb.userStackSize / pageSize) kernel.pages
    else some kernel.pages
  let pages ← if pcb.destroysSpace then vmmDestroyUserSpace (forkFrames ops) pcb.pml4Phys pages
    else some pages
  let kernel : ForkKernel Frames := { kernel with pages := pages }
  let table ← kernel.forkTable.kfreePart parts.joinWaiters
  let table ← table.kfree addr
  some ((), kernel.withForkTable table)

/-- The parts of the kernel that a fork uses, beside a scheduler. -/
def forkServices (scheduler : Services (ForkTable Frames)) : Services (ForkTable Frames) :=
  { scheduler with
    frames := forkFrames ops
    procAllocPcb := allocPcbParts growth pcbBytes ctxBytes
    procFreePcb := freePcbParts ops
    pidAlloc := fun kernel =>
      (kernel.forkTable.pids.alloc.1, kernel.withForkTable
        { kernel.forkTable with pids := kernel.forkTable.pids.alloc.2 })
    pidFree := fun pid kernel => kernel.withForkTable
      { kernel.forkTable with pids := kernel.forkTable.pids.free pid }
    vmmCreateUserSpace := fun kernel =>
      let (space, pages) := vmmCreateUserSpace (forkFrames ops).source kernelPml4 kernel.pages
      (space, { kernel with pages := pages }) }

namespace ForkTable

/-- Allocations one after the other, until one of them fails. -/
def kmallocs : List Nat → ForkTable Frames → Option (List Nat × ForkTable Frames)
  | [], table => some ([], table)
  | size :: sizes, table => do
    let (ptr, table) ← table.kmalloc growth size
    if ptr = 0 then some ([], table)
    else
      let (ptrs, table) ← table.kmallocs sizes
      some (ptr :: ptrs, table)

/-- Allocations one after the other that the heap can serve, and that yield pointers with clear
notes. -/
def Served : List Nat → ForkTable Frames → Prop
  | [], _ => True
  | size :: sizes, table => Rounds size ∧ table.heap.AllocSafe (growth.vmm table.frames) size ∧
    ∀ made ∈ table.kmalloc growth size, made.1 ≠ 0 →
      made.2.heap.NoteClear ⟨made.1, size, made.1 - headerSize⟩ ∧ made.2.Served sizes

/-- The blocks behind some pointers that cannot be freed, because they end beyond the heap region. -/
def lost (ptrs : List Nat) (table : ForkTable Frames) : Set Block :=
  {block | block ∈ table.heap.liveBlocks ∧ block.addr + headerSize ∈ ptrs ∧
    table.heap.heapEnd < block.addr + block.size}

/-- Every block that some allocations yield ends inside the heap region. -/
def Inside (sizes : List Nat) (table : ForkTable Frames) : Prop :=
  ∀ made ∈ table.kmallocs growth sizes, ∀ ptr ∈ made.1,
    ptr - headerSize + made.2.heap.get (ptr - headerSize) .size ≤ made.2.heap.heapEnd

instance decidableServed : (sizes : List Nat) → (table : ForkTable Frames) →
    Decidable (table.Served growth sizes)
  | [], _ => inferInstanceAs (Decidable True)
  | _ :: sizes, _ =>
    have := decidableServed sizes
    inferInstanceAs (Decidable (_ ∧ _ ∧ _))

instance (sizes : List Nat) (table : ForkTable Frames) : Decidable (table.Inside growth sizes) :=
  inferInstanceAs (Decidable (∀ made ∈ table.kmallocs growth sizes, _))

/-- What stays whatever happens in the heap: the frames that it does not use, and the rest. -/
structure Same (source : FrameSource Frames) (before after : ForkTable Frames) : Prop where
  frames : ∀ frame, source.inUse after.frames frame ∧ frame ∉ after.heapFrames ↔
    source.inUse before.frames frame ∧ frame ∉ before.heapFrames
  pids : after.pids = before.pids
  parts : after.parts = before.parts

variable {growth} {table middle after : ForkTable Frames} {size ptr : Nat} {live : List Allocation}
  {sizes ptrs : List Nat} {source : FrameSource Frames}

theorem Same.refl (source : FrameSource Frames) (table : ForkTable Frames) :
    Same source table table :=
  ⟨fun _ => Iff.rfl, rfl, rfl⟩

theorem Same.trans (early : Same source table middle)
    (late : Same source middle after) : Same source table after :=
  ⟨fun frame => (late.frames frame).trans (early.frames frame), late.pids.trans early.pids,
    late.parts.trans early.parts⟩

theorem kmalloc_eq_some (done : table.kmalloc growth size = some (ptr, after)) :
    table.heap.kmalloc (growth.vmm table.frames) size = some (ptr, after.heap) ∧
      Same ops.source table after := by
  unfold kmalloc at done
  obtain ⟨⟨given, heap⟩, made, rest⟩ := Option.bind_eq_some_iff.mp done
  obtain ⟨rfl, rfl⟩ := Prod.mk.inj (Option.some.inj rest)
  refine ⟨made, fun frame => ?_, rfl, rfl⟩
  have used := growth.used size table.heap table.frames frame
  have unused := growth.unused size table.heap table.frames frame
  -- The frames that the heap took were not in use.
  simp only [List.mem_append, used]
  grind

/-- Pointers were handed out between two tables: each one is directly behind the header of a live
block, and the other live blocks are the old ones. -/
structure HandsOut (source : FrameSource Frames) (before after : ForkTable Frames)
    (ptrs : List Nat) (live : List Allocation) : Prop where
  same : Same source before after
  inv : HeapSession.Inv after.heap live
  clear : ∀ a ∈ live, after.heap.NoteClear a
  distinct : ptrs.Nodup
  held : ∀ ptr ∈ ptrs, ∃ a ∈ live, a.ptr = ptr ∧ a.block + headerSize = ptr
  blocks : ∀ block, block ∈ before.heap.liveBlocks ↔
    block ∈ after.heap.liveBlocks ∧ block.addr + headerSize ∉ ptrs

/-- Allocations that can be served hand out the pointers they yield. -/
theorem kmallocs_handsOut (inv : HeapSession.Inv table.heap live)
    (clear : ∀ a ∈ live, table.heap.NoteClear a) (served : table.Served growth sizes) :
    ∃ ptrs after now, table.kmallocs growth sizes = some (ptrs, after) ∧
      HandsOut ops.source table after ptrs now ∧ ∀ a ∈ live, a ∈ now := by
  induction sizes generalizing table live with
  | nil =>
    exact ⟨[], table, live, rfl, ⟨.refl _ table, inv, clear, .nil, by simp, by simp⟩,
      fun _ member => member⟩
  | cons size sizes ih =>
    obtain ⟨rounds, safe, rest⟩ := served
    obtain ⟨ptr, heap, made, invAfter, clearAfter, fewer, given⟩ :=
      inv.kmalloc_live clear (growth.vmm table.frames) rounds safe
    obtain ⟨middle, done, rfl⟩ : ∃ after, table.kmalloc growth size = some (ptr, after) ∧
        after.heap = heap := by
      simp [kmalloc, made]
    have same := (kmalloc_eq_some done).2
    rw [kmallocs, done]
    by_cases null : ptr = 0
    · -- The first allocation that fails is the last one.
      rw [adoptPtr, if_pos null] at invAfter
      refine ⟨[], middle, live, by simp [null], ⟨same, invAfter, clearAfter, .nil, by simp, ?_⟩,
        fun _ member => member⟩
      intro block
      rw [fewer, null]
      simp [headerSize]
    · rw [adoptPtr, if_neg null] at invAfter
      obtain ⟨clearNew, served⟩ := rest _ done null
      obtain ⟨block, isLive, pointer⟩ := given null
      have clearAll : ∀ a ∈ (⟨ptr, size, ptr - headerSize⟩ :: live : List Allocation),
          middle.heap.NoteClear a := by
        intro a member
        rcases List.mem_cons.mp member with rfl | old
        · exact clearNew
        · exact clearAfter a old
      obtain ⟨ptrs, after, now, rests, handed, kept⟩ := ih invAfter clearAll served
      -- The block of this pointer was live before the later ones were handed out.
      have new : ptr ∉ ptrs := by
        rw [← pointer]
        exact ((handed.blocks block).mp isLive).2
      refine ⟨ptr :: ptrs, after, now, by simp [null, rests], ⟨same.trans handed.same, handed.inv,
        handed.clear, List.nodup_cons.mpr ⟨new, handed.distinct⟩, ?_, fun block => ?_⟩,
        fun a member => kept a (List.mem_cons_of_mem _ member)⟩
      · intro other member
        rcases List.mem_cons.mp member with rfl | later
        · exact ⟨_, kept _ List.mem_cons_self, rfl, Nat.sub_add_cancel (by omega)⟩
        · exact handed.held other later
      · rw [fewer, handed.blocks]
        simp only [List.mem_cons, not_or]
        rw [and_right_comm, and_assoc]

/-- Frees one after the other. -/
def kfrees : List Nat → ForkTable Frames → Option (ForkTable Frames)
  | [], table => some table
  | ptr :: ptrs, table => do
    let table ← table.kfree ptr
    table.kfrees ptrs

/-- Freeing pointers takes their blocks away, but for those that end beyond the heap region. -/
theorem kfrees_live (inv : HeapSession.Inv table.heap live)
    (clear : ∀ a ∈ live, table.heap.NoteClear a) (distinct : ptrs.Nodup)
    (held : ∀ ptr ∈ ptrs, ∃ a ∈ live, a.ptr = ptr ∧ a.block + headerSize = ptr) :
    ∃ heap, table.kfrees ptrs = some { table with heap } ∧
      ∀ block, block ∈ heap.liveBlocks ↔ block ∈ table.heap.liveBlocks ∧
        (block.addr + headerSize ∈ ptrs → table.heap.heapEnd < block.addr + block.size) := by
  induction ptrs generalizing table live with
  | nil => exact ⟨table.heap, rfl, by simp⟩
  | cons ptr ptrs ih =>
    obtain ⟨a, member, rfl, home⟩ := held ptr List.mem_cons_self
    obtain ⟨new, unique⟩ := List.nodup_cons.mp distinct
    obtain ⟨freed, done, invAfter, clearAfter, sameEnd, fewer⟩ := inv.kfree_live clear member
    have still : ∀ ptr ∈ ptrs, ∃ b ∈ dropPtr a.ptr live, b.ptr = ptr ∧ b.block + headerSize = ptr := by
      intro ptr later
      obtain ⟨b, isLive, pointer, block⟩ := held ptr (List.mem_cons_of_mem _ later)
      refine ⟨b, List.mem_filter.mpr ⟨isLive, decide_eq_true ?_⟩, pointer, block⟩
      rw [pointer]
      exact fun same => new (same ▸ later)
    obtain ⟨heap, rests, others⟩ :=
      @ih { table with heap := freed } _ invAfter clearAfter unique still
    refine ⟨heap, ?_, fun block => ?_⟩
    · simp only [kfrees, kfree, done, Option.bind_eq_bind, Option.bind_some, rests]
    · rw [others, fewer, sameEnd, List.mem_cons, ← home, Nat.add_right_cancel_iff]
      constructor
      · rintro ⟨⟨isLive, first⟩, later⟩
        exact ⟨isLive, fun freed => freed.elim first later⟩
      · rintro ⟨isLive, beyond⟩
        exact ⟨⟨isLive, fun first => beyond (.inl first)⟩, fun later => beyond (.inr later)⟩

/-- Whatever is handed out is freed again in any order, but for the blocks that are lost. -/
theorem HandsOut.freed {order : List Nat} (handed : HandsOut source table after ptrs live)
    (perm : order.Perm ptrs) (heap : middle.heap = after.heap) :
    ∃ freed, middle.kfrees order = some { middle with heap := freed } ∧
      ∀ block, block ∈ freed.liveBlocks ↔
        block ∈ table.heap.liveBlocks ∨ block ∈ after.lost ptrs := by
  obtain ⟨freed, done, fewer⟩ := @kfrees_live _ middle live order (heap ▸ handed.inv)
    (heap ▸ handed.clear) (perm.nodup_iff.mpr handed.distinct)
    fun ptr member => handed.held ptr (perm.mem_iff.mp member)
  refine ⟨freed, done, fun block => ?_⟩
  rw [fewer, heap, handed.blocks, perm.mem_iff]
  by_cases new : block.addr + headerSize ∈ ptrs
  · simp [lost, new]
  · simp [lost, new]

/-- What is lost was not live before. -/
theorem HandsOut.lost_new (handed : HandsOut source table after ptrs live) :
    ∀ block ∈ after.lost ptrs, block ∉ table.heap.liveBlocks := by
  rintro block ⟨_, given, _⟩ old
  exact ((handed.blocks block).mp old).2 given

/-- Nothing is lost exactly if every block that is handed out ends inside the heap region. -/
theorem HandsOut.lost_eq_empty_iff (made : table.kmallocs growth sizes = some (ptrs, after))
    (handed : HandsOut ops.source table after ptrs live) :
    after.lost ptrs = ∅ ↔ table.Inside growth sizes := by
  obtain ⟨blocks, holds, lives⟩ := handed.inv.placed
  constructor
  · rintro none ⟨ptrs', after'⟩ yielded ptr member
    obtain ⟨rfl, rfl⟩ := Prod.mk.inj (Option.some.inj (made.symm.trans yielded))
    obtain ⟨a, isLive, rfl, home⟩ := handed.held ptr member
    obtain ⟨block, used, inBlock⟩ := lives a isLive
    have size := holds.shape.size block (mem_usedBlocks.mp used).1
    by_contra beyond
    refine Set.eq_empty_iff_forall_notMem.mp none block ⟨holds.mem_liveBlocks.mpr used, ?_⟩
    rw [← inBlock.addr, home]
    refine ⟨member, ?_⟩
    rw [← size, ← inBlock.addr]
    rw [← home, Nat.add_sub_cancel] at beyond
    exact Nat.lt_of_not_le beyond
  · intro inside
    refine Set.eq_empty_of_forall_notMem ?_
    rintro block ⟨isLive, given, beyond⟩
    have low := inside _ made _ given
    rw [Nat.add_sub_cancel, holds.shape.size block (mem_usedBlocks.mp
      (holds.mem_liveBlocks.mp isLive)).1] at low
    exact absurd beyond (Nat.not_lt.mpr low)

end ForkTable

variable (source : FrameSource Frames)

/-- A kernel in which the frames in use outside the heap, the page tables in them and the run queue
are as before. -/
structure Kernel.Around (before after : ForkKernel Frames) : Prop where
  frames : ∀ frame, source.inUse after.forkTable.frames frame ∧ frame ∉ after.forkTable.heapFrames ↔
    source.inUse before.forkTable.frames frame ∧ frame ∉ before.forkTable.heapFrames
  mem : after.pages.mem = before.pages.mem
  queue : after.runQueue = before.runQueue ∧ after.nrRunning = before.nrRunning
  current : after.current = before.current

/-- A kernel in which everything that a fork touches is as before, but for some further live heap
blocks: beside all this the PIDs and the live blocks with what is in control blocks. -/
structure Kernel.RestoredBut (lost : Set Block) (before after : ForkKernel Frames) : Prop extends
    Kernel.Around source before after where
  pids : pidMarks after.forkTable.pids.bits = pidMarks before.forkTable.pids.bits
  live : ∀ block, block ∈ after.forkTable.heap.liveBlocks ↔
    block ∈ before.forkTable.heap.liveBlocks ∨ block ∈ lost
  blocks : ∀ block ∈ before.forkTable.heap.liveBlocks,
    after.pcb (block.addr + headerSize) = before.pcb (block.addr + headerSize) ∧
      after.forkTable.parts (block.addr + headerSize) =
        before.forkTable.parts (block.addr + headerSize)

/-- A kernel in which everything that a fork touches is as before. -/
def Kernel.Restored (before after : ForkKernel Frames) : Prop :=
  Kernel.RestoredBut source ∅ before after

/-- What `proc_alloc_pcb` asks of the heap. -/
def pcbSizes : List Nat := [pcbBytes, ctxBytes, kernelStackSize]

/-- A kernel in which a new control block is held, which can be freed with all its parts: those of
the pointers that some table was left with. -/
structure Kernel.Held (given : ForkTable Frames) (ptrs : List Nat) (before after : ForkKernel Frames)
    (addr : Nat) : Prop extends Kernel.Around source before after where
  parts : ∃ cpuCtx stack, ptrs = [addr, cpuCtx, stack] ∧ after.forkTable.heap = given.heap ∧
    after.forkTable.parts addr = ⟨cpuCtx, stack, 0, 0⟩
  kernelMode : (after.pcb addr).isUserMode = false
  spaceless : (after.pcb addr).pml4Phys = 0
  blocks : ∀ other ≠ addr, after.pcb other = before.pcb other ∧
    after.forkTable.parts other = before.forkTable.parts other

variable {growth pcbBytes ctxBytes kernelPml4} {kernel after last : ForkKernel Frames}
  {table : ForkTable Frames} {ptrs : List Nat} {live : List Allocation} {addr : Nat}

theorem Kernel.RestoredBut.refl (kernel : ForkKernel Frames) :
    Kernel.RestoredBut source ∅ kernel kernel :=
  ⟨⟨fun _ => Iff.rfl, rfl, ⟨rfl, rfl⟩, rfl⟩, rfl, by simp, fun _ _ => ⟨rfl, rfl⟩⟩

variable {source}

/-- The state is restored exactly if nothing is lost that was not live before. -/
theorem Kernel.RestoredBut.restored_iff {lost : Set Block}
    (restored : Kernel.RestoredBut source lost kernel last)
    (new : ∀ block ∈ lost, block ∉ kernel.forkTable.heap.liveBlocks) :
    Kernel.Restored source kernel last ↔ lost = ∅ := by
  constructor
  · intro all
    refine Set.eq_empty_of_forall_notMem fun block member => new block member ?_
    simpa using (all.live block).mp ((restored.live block).mpr (.inr member))
  · rintro rfl
    exact restored

/-- Freeing a control block of kernel mode without an address space frees its parts. -/
theorem freePcbParts_eq {cpuCtx stack : Nat} (context : cpuCtx ≠ 0) (kernelStack : stack ≠ 0)
    (parts : after.forkTable.parts addr = ⟨cpuCtx, stack, 0, 0⟩)
    (kernelMode : (after.pcb addr).isUserMode = false)
    (spared : (after.pcb addr).destroysSpace = false) :
    freePcbParts ops addr after = (after.forkTable.kfrees [cpuCtx, stack, addr]).map
      fun table => ((), after.withForkTable table) := by
  simp only [freePcbParts, parts, kernelMode, spared, ForkTable.kfreePart, context, kernelStack,
    ne_eq, not_true_eq_false, not_false_eq_true, if_true, if_false, Bool.false_eq_true, false_and,
    Option.bind_eq_bind, Option.bind_some, ForkTable.kfrees]
  rcases after.forkTable.kfree cpuCtx with _ | first
  · rfl
  simp only [Option.bind_some]
  rcases first.kfree stack with _ | second
  · rfl
  simp only [Option.bind_some, Kernel.withForkTable, Kernel.forkTable]
  rcases second.kfree addr with _ | third
  · rfl
  · rfl

/-- `proc_alloc_pcb` fails and frees what it was given, or it was given all three blocks. -/
theorem allocPcbParts_eq
    (made : kernel.forkTable.kmallocs growth (pcbSizes pcbBytes ctxBytes) = some (ptrs, table)) :
    (ptrs.length < 3 ∧ allocPcbParts growth pcbBytes ctxBytes kernel =
      (table.kfrees ptrs.reverse).map fun table => (none, kernel.withForkTable table)) ∨
    ∃ pcb cpuCtx stack, ptrs = [pcb, cpuCtx, stack] ∧
      allocPcbParts growth pcbBytes ctxBytes kernel =
        some (some pcb, (kernel.withForkTable { table with
          parts := Function.update table.parts pcb ⟨cpuCtx, stack, 0, 0⟩ }).updatePcb pcb
            fun _ => clearedPcb pcb) := by
  simp only [pcbSizes, ForkTable.kmallocs] at made
  unfold allocPcbParts
  obtain ⟨⟨pcb, first⟩, given, made⟩ := Option.bind_eq_some_iff.mp made
  simp only [given, Option.bind_eq_bind, Option.bind_some] at made ⊢
  by_cases null : pcb = 0
  · rw [if_pos null] at made ⊢
    obtain ⟨rfl, rfl⟩ := Prod.mk.inj (Option.some.inj made)
    exact .inl ⟨by decide, rfl⟩
  rw [if_neg null] at made ⊢
  obtain ⟨⟨rest, last⟩, more, made⟩ := Option.bind_eq_some_iff.mp made
  obtain ⟨rfl, rfl⟩ := Prod.mk.inj (Option.some.inj made)
  obtain ⟨⟨cpuCtx, second⟩, given, made⟩ := Option.bind_eq_some_iff.mp more
  simp only [given, Option.bind_some] at made ⊢
  by_cases null : cpuCtx = 0
  · -- The control block is given back.
    rw [if_pos null] at made ⊢
    obtain ⟨rfl, rfl⟩ := Prod.mk.inj (Option.some.inj made)
    refine .inl ⟨by simp, ?_⟩
    simp only [List.reverse_singleton, ForkTable.kfrees, Option.bind_eq_bind]
    rcases second.kfree pcb with _ | freed
    · rfl
    · rfl
  rw [if_neg null] at made ⊢
  obtain ⟨⟨rest, last⟩, tail, made⟩ := Option.bind_eq_some_iff.mp made
  obtain ⟨rfl, rfl⟩ := Prod.mk.inj (Option.some.inj made)
  obtain ⟨⟨stack, third⟩, given, made⟩ := Option.bind_eq_some_iff.mp tail
  simp only [given, Option.bind_some] at made ⊢
  by_cases null : stack = 0
  · -- The context is given back first, and then the control block.
    rw [if_pos null] at made ⊢
    obtain ⟨rfl, rfl⟩ := Prod.mk.inj (Option.some.inj made)
    refine .inl ⟨by simp, ?_⟩
    simp only [List.reverse_cons, List.reverse_nil, List.nil_append, List.cons_append,
      ForkTable.kfrees, Option.bind_eq_bind]
    rcases third.kfree cpuCtx with _ | freed
    · rfl
    simp only [Option.bind_some]
    rcases freed.kfree pcb with _ | empty
    · rfl
    · rfl
  · rw [if_neg null] at made ⊢
    obtain ⟨rfl, rfl⟩ := Prod.mk.inj (Option.some.inj made)
    exact .inr ⟨pcb, cpuCtx, stack, rfl, rfl⟩

section Handed

variable (handed : ForkTable.HandsOut ops.source kernel.forkTable table ptrs live)
include handed

/-- Freeing a control block that is held gives everything back but the PID and what is lost. -/
theorem Kernel.Held.freed (held : Kernel.Held ops.source table ptrs kernel after addr)
    (pids : pidMarks after.forkTable.pids.bits = pidMarks kernel.forkTable.pids.bits) :
    ∃ last, freePcbParts ops addr after = some ((), last) ∧
      Kernel.RestoredBut ops.source (table.lost ptrs) kernel last := by
  obtain ⟨cpuCtx, stack, rfl, heap, parts⟩ := held.parts
  have nonzero : ∀ ptr ∈ [addr, cpuCtx, stack], ptr ≠ 0 := by
    intro ptr member
    obtain ⟨a, isLive, rfl, _⟩ := handed.held ptr member
    exact handed.inv.ptr_ne_zero isLive
  have spared : (after.pcb addr).destroysSpace = false := by
    simp [Pcb.destroysSpace, held.spaceless]
  -- The context is freed before the stack, and the block itself last.
  have perm : ([cpuCtx, stack] ++ [addr]).Perm ([addr] ++ [cpuCtx, stack]) := List.perm_append_comm
  obtain ⟨freed, done, live⟩ := handed.freed perm heap
  refine ⟨after.withForkTable { after.forkTable with heap := freed }, ?_,
    ⟨held.frames, held.mem, held.queue, held.current⟩, pids, live, ?_⟩
  · -- There is neither a user stack nor an address space, a trap frame or a queue of joiners.
    rw [freePcbParts_eq (nonzero cpuCtx (by simp)) (nonzero stack (by simp)) parts held.kernelMode
      spared]
    exact congrArg (Option.map fun table => ((), after.withForkTable table)) done
  · intro block old
    refine held.blocks _ fun same => ((handed.blocks block).mp old).2 ?_
    rw [same]
    exact List.mem_cons_self

/-- An allocation of a control block fails and gives everything back but what is lost, or the block
is held. -/
theorem allocPcbParts_cases
    (made : kernel.forkTable.kmallocs growth (pcbSizes pcbBytes ctxBytes) = some (ptrs, table)) :
    (∃ after, allocPcbParts growth pcbBytes ctxBytes kernel = some (none, after) ∧
      Kernel.RestoredBut ops.source (table.lost ptrs) kernel after) ∨
    ∃ addr after, allocPcbParts growth pcbBytes ctxBytes kernel = some (some addr, after) ∧
      Kernel.Held ops.source table ptrs kernel after addr ∧
      after.forkTable.pids = kernel.forkTable.pids ∧ after.forkTable.frames = table.frames := by
  rcases allocPcbParts_eq made with ⟨failed, done⟩ | ⟨addr, cpuCtx, stack, rfl, done⟩
  · obtain ⟨freed, undone, blocks⟩ := handed.freed (List.reverse_perm ptrs) rfl
    rw [undone] at done
    refine .inl ⟨_, done, ⟨handed.same.frames, rfl, ⟨rfl, rfl⟩, rfl⟩, ?_, blocks,
      fun _ _ => ⟨rfl, ?_⟩⟩
    · exact congrArg (fun pids => pidMarks pids.bits) handed.same.pids
    · exact congrFun handed.same.parts _
  · refine .inr ⟨addr, _, done, ⟨⟨handed.same.frames, rfl, ⟨rfl, rfl⟩, rfl⟩,
      ⟨cpuCtx, stack, rfl, rfl, ?_⟩, ?_, ?_, fun other apart => ⟨?_, ?_⟩⟩, handed.same.pids, rfl⟩
    · exact Function.update_self ..
    · simp [Kernel.updatePcb, clearedPcb]
    · simp [Kernel.updatePcb, clearedPcb]
    · exact Function.update_of_ne apart ..
    · exact (Function.update_of_ne apart ..).trans (congrFun handed.same.parts other)

variable (held : Kernel.Held ops.source table ptrs kernel after addr)
include held

omit handed in
/-- Writing the control block that is held, but for its address space. -/
theorem Kernel.Held.updatePcb {change : Pcb → Pcb}
    (mode : ∀ pcb, (change pcb).isUserMode = pcb.isUserMode)
    (space : ∀ pcb, (change pcb).pml4Phys = pcb.pml4Phys) :
    Kernel.Held ops.source table ptrs kernel (after.updatePcb addr change) addr := by
  have content : (after.updatePcb addr change).pcb addr = change (after.pcb addr) :=
    Function.update_self ..
  refine { held with kernelMode := ?_, spaceless := ?_, blocks := fun other apart => ⟨?_, ?_⟩ }
  · rw [content, mode, held.kernelMode]
  · rw [content, space, held.spaceless]
  · exact (Function.update_of_ne apart ..).trans (held.blocks other apart).1
  · exact (held.blocks other apart).2

omit handed in
/-- A control block stays held whatever happens to the PIDs. -/
theorem Kernel.Held.onPids (pids : PidBitmap) :
    Kernel.Held ops.source table ptrs kernel
      (after.withForkTable { after.forkTable with pids }) addr :=
  { held with }

omit handed in
/-- A control block stays held when there is no frame for a page table. -/
theorem Kernel.Held.refusedSpace {scheduler : Services (ForkTable Frames)}
    (refused : (forkServices growth pcbBytes ctxBytes kernelPml4 scheduler).vmmCreateUserSpace
      after = (none, last)) :
    Kernel.Held ops.source table ptrs kernel last addr ∧
      last.forkTable.pids = after.forkTable.pids := by
  simp only [forkServices, vmmCreateUserSpace, pageCreateTable, forkFrames,
    FrameSource.within] at refused
  rcases given : ops.source.alloc after.pages.frames.frames with ⟨_ | pml4, frames⟩
  · simp only [given, Prod.mk.injEq, true_and] at refused
    subst refused
    refine ⟨{ held with frames := fun frame => ?_ }, rfl⟩
    -- The allocator refused the frame, so the same ones are in use.
    exact (and_congr_left fun _ => ops.source.refused _ _ given frame).trans (held.frames frame)
  · simp [given] at refused

/-- Every way out of a fork that fails frees the block that is held. -/
theorem Kernel.Held.giveUp
    (pids : pidMarks after.forkTable.pids.bits = pidMarks kernel.forkTable.pids.bits) :
    Yields (do
      Logged.act (freePcbParts ops addr)
      return -1 : KernelCall (ForkTable Frames) Int) after
      fun result last => result = -1 ∧
        Kernel.RestoredBut ops.source (table.lost ptrs) kernel last := by
  obtain ⟨last, done, restored⟩ := held.freed handed pids
  exact .bind (.act done (.pure ⟨rfl, restored⟩))

omit held in
/-- A fork of the current process fails and leaves everything as it was but for the blocks that are
lost, whichever allocation was refused, or there was a frame for its page table. -/
theorem procFork_failed (scheduler : Services (ForkTable Frames))
    (made : kernel.forkTable.kmallocs growth (pcbSizes pcbBytes ctxBytes) = some (ptrs, table))
    {parent : Nat} (current : kernel.current = some parent) :
    Yields (procFork (forkServices growth pcbBytes ctxBytes kernelPml4 scheduler)) kernel
      fun result last =>
        (result = -1 ∧ Kernel.RestoredBut ops.source (table.lost ptrs) kernel last) ∨
        (result ≠ -1 ∧ (ops.source.alloc table.frames).1 ≠ none) := by
  refine .bind (.bind (.read (.pure ?_)))
  rw [current]
  rcases allocPcbParts_cases handed made with
    ⟨after, failed, restored⟩ | ⟨addr, after, given, held, samePids, sameFrames⟩
  · exact .bind (.act failed (.pure (.inl ⟨rfl, restored⟩)))
  refine .bind (.act given (.bind (.act (by rfl) (.bind (.change ?_)))))
  -- The child keeps its block through the allocation of a PID.
  generalize named : Kernel.updatePcb _ addr _ = second
  have held : Kernel.Held ops.source table ptrs kernel second addr :=
    named ▸ (held.onPids _).updatePcb (fun _ => rfl) fun _ => rfl
  have numbers : second.forkTable.pids = kernel.forkTable.pids.alloc.2 := by
    rw [← named, ← samePids]
    rfl
  have stock : second.forkTable.frames = table.frames := by
    rw [← named, ← sameFrames]
    rfl
  rw [samePids]
  rcases kernel.forkTable.pids.alloc_cases with full | ⟨pid, pids, taken, new⟩
  · rw [if_pos (by simp [full])]
    exact (held.giveUp handed (by rw [numbers, full])).mono fun _ _ => .inl
  rw [if_neg (by simp [taken])]
  refine .bind (.change ?_)
  generalize described : Kernel.updatePcb second addr _ = third
  have held : Kernel.Held ops.source table ptrs kernel third addr :=
    described ▸ held.updatePcb (fun _ => rfl) fun _ => rfl
  have numbers : third.forkTable.pids = pids := by
    rw [← described]
    exact numbers.trans (congrArg Prod.snd taken)
  have stock : third.forkTable.frames = table.frames := by
    rw [← described]
    exact stock
  rcases created : (forkServices growth pcbBytes ctxBytes kernelPml4
    scheduler).vmmCreateUserSpace third with ⟨_ | pml4, fourth⟩
  · -- The PID is given back before the block.
    obtain ⟨held, same⟩ := held.refusedSpace created
    refine .bind (.act (congrArg some created) (.bind (.change ?_)))
    refine ((held.onPids _).giveUp handed ?_).mono fun _ _ => .inl
    change pidMarks (fourth.forkTable.pids.free kernel.forkTable.pids.alloc.1).bits = _
    rw [same, numbers, taken]
    exact PidBitmap.free_taken new
  · refine .bind (.act (congrArg some created) (.bind (.change (.bind (.change ?_)))))
    refine .bind (.change (.bind (.bind (.read (.pure (.pure (.inr ⟨?_, ?_⟩)))))))
    · -- A child is made, and neither zero nor its PID is negative.
      grind
    · rw [← stock]
      intro refused
      simp only [forkServices, vmmCreateUserSpace, pageCreateTable, forkFrames,
        FrameSource.within] at created
      rcases given : ops.source.alloc third.pages.frames.frames with ⟨_ | frame, frames⟩
      · simp [given] at created
      · exact absurd ((congrArg Prod.fst given).symm.trans refused) (by simp)

end Handed

/-- Take some frames, until one of them is refused. -/
def FrameSource.takeFrames (source : FrameSource Frames) : Nat → Frames → Frames × List Nat
  | 0, frames => (frames, [])
  | count + 1, frames =>
    match source.alloc frames with
    | (none, rest) => (rest, [])
    | (some frame, rest) => ((source.takeFrames count rest).1, frame :: (source.takeFrames count rest).2)

theorem FrameSource.takeFrames_spec (source : FrameSource Frames) (count : Nat) (frames : Frames) :
    (∀ frame, source.inUse (source.takeFrames count frames).1 frame ↔
      source.inUse frames frame ∨ frame ∈ (source.takeFrames count frames).2) ∧
    ∀ frame ∈ (source.takeFrames count frames).2, ¬source.inUse frames frame := by
  induction count generalizing frames with
  | zero => simp [takeFrames]
  | succ count ih =>
    unfold takeFrames
    rcases given : source.alloc frames with ⟨_ | frame, rest⟩
    · simpa using source.refused frames rest given
    · obtain ⟨new, _, _, _, used⟩ := source.fresh frames frame rest given
      obtain ⟨all, unused⟩ := ih rest
      constructor
      · intro other
        rw [all, used, List.mem_cons, or_assoc]
      · intro other member
        rcases List.mem_cons.mp member with rfl | later
        · exact new
        · exact fun old => unused other later ((used other).mpr (.inl old))

/-- The frames that an allocation takes for the heap: those of all pages that it maps, or none. -/
def FrameSource.takeForHeap (source : FrameSource Frames) (size : Nat) (heap : Heap)
    (frames : Frames) : Frames × List Nat :=
  let count := expandPages (totalBlockSize size)
  if heap.findBestFit (totalBlockSize size) = some 0 ∧ source.grants count frames then
    source.takeFrames count frames
  else (frames, [])

theorem FrameSource.takeForHeap_spec (source : FrameSource Frames) (size : Nat) (heap : Heap)
    (frames : Frames) :
    (∀ frame, source.inUse (source.takeForHeap size heap frames).1 frame ↔
      source.inUse frames frame ∨ frame ∈ (source.takeForHeap size heap frames).2) ∧
    ∀ frame ∈ (source.takeForHeap size heap frames).2, ¬source.inUse frames frame := by
  simp only [takeForHeap]
  split
  · exact source.takeFrames_spec _ frames
  · simp

/-- Zeroed pages, as long as there are frames for all of them. -/
def FrameSource.heapVmm (source : FrameSource Frames) (frames : Frames) : Vmm where
  allocPagesAt vaddr count mem :=
    if source.grants count frames then zeroVmm.allocPagesAt vaddr count mem else none
  fresh {vaddr count mem after} mapped := by
    split at mapped
    · exact zeroVmm.fresh mapped
    · cases mapped

/-- The heap grows by zeroed pages, in a region whose page tables are there. -/
def FrameSource.heapGrowth (source : FrameSource Frames) : HeapGrowth source where
  vmm := source.heapVmm
  take := source.takeForHeap
  used size heap frames := (source.takeForHeap_spec size heap frames).1
  unused size heap frames := (source.takeForHeap_spec size heap frames).2

theorem FrameSource.takeForHeap_dry {source : FrameSource Frames} {frames : Frames}
    (dry : (source.alloc frames).1 = none) (size : Nat) (heap : Heap) :
    (source.takeForHeap size heap frames).1 = frames := by
  -- An expansion maps at least four pages.
  obtain ⟨count, several⟩ : ∃ count, expandPages (totalBlockSize size) = count + 1 := by
    refine Nat.exists_eq_add_one.mpr ?_
    unfold expandPages
    grind
  have refused : source.grants (count + 1) frames = false := by
    rcases given : source.alloc frames with ⟨_ | frame, rest⟩
    · simp [grants, given]
    · simp [given] at dry
  simp [takeForHeap, several, refused]

/-- Without a free frame no allocation takes one. -/
theorem ForkTable.kmallocs_frames {table : ForkTable Frames}
    (dry : (ops.source.alloc table.frames).1 = none) {sizes : List Nat}
    {made : List Nat × ForkTable Frames}
    (yielded : made ∈ table.kmallocs ops.source.heapGrowth sizes) :
    made.2.frames = table.frames := by
  induction sizes generalizing table made with
  | nil =>
    obtain rfl := Option.some.inj yielded
    rfl
  | cons size sizes ih =>
    obtain ⟨⟨ptr, middle⟩, given, rest⟩ := Option.bind_eq_some_iff.mp yielded
    have same : middle.frames = table.frames := by
      obtain ⟨_, _, rest⟩ := Option.bind_eq_some_iff.mp given
      obtain ⟨_, rfl⟩ := Prod.mk.inj (Option.some.inj rest)
      exact FrameSource.takeForHeap_dry dry size table.heap
    by_cases null : ptr = 0
    · obtain rfl := Option.some.inj ((if_pos null).symm.trans rest)
      exact same
    · obtain ⟨later, more, rest⟩ := Option.bind_eq_some_iff.mp ((if_neg null).symm.trans rest)
      obtain rfl := Option.some.inj rest
      exact (ih (same ▸ dry) more).trans same

/-- An allocator of 160 MB of memory in which every frame is in use. -/
def fullPframe : ReadyPframe where
  st := ⟨⟨fun _ => 0xFF, 40960⟩, 40960, pframeMinAllocBase, 40960 * 4096, 256, true⟩
  ready := ⟨rfl, rfl, by decide⟩
  first := by decide

theorem fullPframe_dry : (pframeOps.source.alloc fullPframe).1 = none := by
  rcases fullPframe.alloc_cases with refused | ⟨frame, after, _, _, _, free, _⟩
  · exact congrArg Prod.fst refused
  · -- Every bit of every byte is set.
    have ones : ∀ bit : Fin 8, (0xFF : BitVec 8).getLsbD bit = true := by decide
    cases (ones ⟨frame % 8, Nat.mod_lt _ (by decide)⟩).symm.trans free

/-- The control block of process 1 is the first block of the heap, and that process is about to fork
without a frame left; as many frames are in use for the heap as it has pages. -/
def forkingKernel (heap : Heap) : ForkKernel ReadyPframe where
  pcb addr := { clearedPcb addr with pid := 1 }
  current := some (kernelHeapBase + headerSize)
  runQueue := []
  nrRunning := 0
  pages :=
    { mem := fun _ => 0
      frames :=
        { frames := fullPframe
          heapFrames :=
            (List.range' 0x1000 ((heap.heapBrk - kernelHeapBase) / pageSize)).map (· * pageSize)
          heap
          pids := ⟨⟨fun byte => if byte = 0 then 3 else 0, pidMax⟩, rfl, by decide, by decide, rfl⟩
          parts := fun _ => ⟨0, 0, 0, 0⟩ }
      stores := [] }
  nextThreadStack := threadStackBase
  stats := ⟨0, fun _ => 0, 0, 0⟩

/-- Such a fork fails, and all that is not restored are the blocks that are lost. -/
theorem forkingKernel_fails {heap : Heap} {live : List Allocation}
    (inv : HeapSession.Inv heap live)
    (served : (forkingKernel heap).forkTable.Served pframeOps.source.heapGrowth (pcbSizes 512 256))
    (scheduler : Services (ForkTable ReadyPframe)) :
    HeapSession.Inv (forkingKernel heap).forkTable.heap [] ∧
    ∃ lost, (∀ block ∈ lost, block ∉ (forkingKernel heap).forkTable.heap.liveBlocks) ∧
      (lost = ∅ ↔ (forkingKernel heap).forkTable.Inside pframeOps.source.heapGrowth
        (pcbSizes 512 256)) ∧
      Yields (procFork (forkServices pframeOps.source.heapGrowth 512 256 0x5000 scheduler))
        (forkingKernel heap) fun result last => result = -1 ∧
          Kernel.RestoredBut pframeOps.source lost (forkingKernel heap) last := by
  obtain ⟨blocks, holds, _⟩ := inv.placed
  have sound : HeapSession.Inv (forkingKernel heap).forkTable.heap [] :=
    ⟨inv.ready, ⟨blocks, holds, by simp⟩, .nil⟩
  obtain ⟨ptrs, table, live, made, handed, _⟩ :=
    ForkTable.kmallocs_handsOut sound (by simp) served
  refine ⟨sound, table.lost ptrs, handed.lost_new, handed.lost_eq_empty_iff made,
    (procFork_failed handed scheduler made rfl).mono fun result last outcome => ?_⟩
  rcases outcome with failed | ⟨_, granted⟩
  · exact failed
  · have dry : (pframeOps.source.alloc (forkingKernel heap).forkTable.frames).1 = none :=
      fullPframe_dry
    have same : table.frames = _ := ForkTable.kmallocs_frames dry made
    rw [same] at granted
    exact absurd dry granted

end Ccos
