import Ccos.Heap.AllocSize

/-! What a resize of a live pointer promises, and for which pointers and sizes it keeps the
promise. -/

namespace Ccos

open Lib

namespace Heap

variable {heap : Heap} {ptr newPtr newSize : Nat}

/-- Bytes that a resize reads from the old pointer on: none if it stays in place, and otherwise what
the old payload and the new size both have. -/
def bytesRead (heap : Heap) (ptr newSize : Nat) : Nat :=
  let oldSize := heap.get (heap.ptrToBlock ptr) .size
  if totalBlockSize newSize ≤ oldSize then 0
  -- The old size is that of the whole payload, wherever the pointer is in it.
  else if sub64 oldSize headerSize < newSize then sub64 oldSize headerSize else newSize

/-- What a resize promises: the new bytes are inside the payload of one used block, the old content
is there as far as both sizes go, and nothing beyond the old block was read. -/
structure Resized (heap after : Heap) (a : Allocation) (newPtr newSize : Nat) : Prop where
  placed : ∃ blocks, after.Holds blocks ∧ ∃ block ∈ usedBlocks blocks,
    block.addr + headerSize ≤ newPtr ∧ newPtr + newSize ≤ block.addr + block.size
  copied : ∀ i < newSize, a.ptr + i < a.block + heap.get a.block .size →
    after.mem (newPtr + i) = heap.mem (a.ptr + i)
  confined : a.ptr + heap.bytesRead a.ptr newSize ≤ a.block + heap.get a.block .size

theorem copyPayload_read {middle : Heap} {i : Nat} (below : i < heap.bytesRead ptr newSize) :
    (middle.copyPayload newPtr ptr (sub64 (heap.get (heap.ptrToBlock ptr) .size) headerSize)
      newSize).mem (newPtr + i) = middle.mem (ptr + i) := by
  apply ByteMem.copy_inside
  unfold bytesRead at below
  dsimp only at below
  split at below
  · omega
  · exact below

theorem headerSize_le_of_valid {block : Nat} (valid : heap.validateBlock block = true) :
    headerSize ≤ heap.get block .size := by
  by_contra small
  have short : heap.get block .size < headerSize ∨
      heap.heapEnd < wrap64 (block + heap.get block .size) := .inl (Nat.not_le.mp small)
  simp [validateBlock, short] at valid

theorem totalBlockSize_of_wraps (word : newSize < 2 ^ 64) (wraps : ¬SizeFits newSize) :
    totalBlockSize newSize ≤ headerSize := by
  simp only [SizeFits, heapAlign, headerSize] at wraps
  by_cases small : newSize + 16 - 1 < 2 ^ 64
  · -- The sum with the header wraps.
    have aligned : alignSize newSize = (newSize + 16 - 1) / 16 * 16 := by
      rw [alignSize, heapAlign, wrap64_of_lt small]
      exact land_not64_low (k := 4) small (by omega)
    rw [totalBlockSize, aligned, wrap64, headerSize]
    omega
  · -- The rounding wraps to less than the alignment, and so to zero.
    have rest : wrap64 (newSize + 16 - 1) < 16 := by
      rw [wrap64]
      omega
    have aligned : alignSize newSize = wrap64 (newSize + 16 - 1) / 16 * 16 :=
      land_not64_low (x := wrap64 (newSize + 16 - 1)) (k := 4) (by omega) (by omega)
    rw [totalBlockSize, aligned, Nat.div_eq_of_lt rest]
    exact Nat.mod_le _ _

end Heap

namespace HeapSession

variable {heap after : Heap} {live : List Allocation} {a : Allocation} {vmm : Vmm}
  {newPtr newSize : Nat}

/-- A live pointer may be resized: if the block that the code finds for it is large enough, its own
block has room for the new size from the pointer on; and otherwise it is directly behind its
header, leads to its block and can be moved by a copy. -/
def Resizable (heap : Heap) (vmm : Vmm) (newSize : Nat) (a : Allocation) : Prop :=
  if totalBlockSize newSize ≤ heap.get (heap.ptrToBlock a.ptr) .size then
    a.ptr + newSize ≤ a.block + heap.get a.block .size
  else a.ptr = a.block + headerSize ∧ heap.Found a ∧ MoveReady heap vmm newSize a

section

variable (inv : Inv heap live) (member : a ∈ live)
include inv member

theorem Inv.resized_inPlace_iff
    (fits : totalBlockSize newSize ≤ heap.get (heap.ptrToBlock a.ptr) .size) :
    heap.Resized heap a a.ptr newSize ↔ a.ptr + newSize ≤ a.block + heap.get a.block .size := by
  obtain ⟨blocks, block, holds, inside, isUsed, inBlock⟩ := inv.home member
  have size := holds.shape.size block inside
  rw [inBlock.addr, size]
  constructor
  · intro resized
    obtain ⟨others, another, other, otherUsed, low, high⟩ := resized.placed
    have same := another.unique holds
    subst same
    -- The pointer is in one block only.
    have := inBlock.positive
    have := inBlock.low
    have := inBlock.high
    rcases holds.shape.tiles.apart (mem_usedBlocks.mp otherUsed).1 inside with equal | apart
    · subst equal
      exact high
    · omega
  · intro room
    refine ⟨⟨blocks, holds, block, mem_usedBlocks.mpr ⟨inside, isUsed⟩, inBlock.low, room⟩,
      fun _ _ _ => rfl, ?_⟩
    rw [Heap.bytesRead, if_pos fits, inBlock.addr, size]
    omega

variable (found : heap.Found a)
include found

theorem Inv.bytesRead_moved (fits : SizeFits newSize)
    (larger : ¬totalBlockSize newSize ≤ heap.get a.block .size) :
    heap.bytesRead a.ptr newSize + headerSize = heap.get a.block .size ∧
      heap.bytesRead a.ptr newSize < newSize := by
  have back := (inv.leadsBack member found).1
  obtain ⟨blocks, block, holds, inside, _, inBlock⟩ := inv.home member
  have size := holds.shape.size block inside
  have large := block.large
  have granular := block.granular
  have bounds := holds.shape.bounds inside
  rw [Heap.bytesRead, back, if_neg larger]
  rw [inBlock.addr, size] at larger ⊢
  rw [totalBlockSize_of_fits fits] at larger
  have payload : sub64 block.size headerSize = block.size - headerSize :=
    sub64_of_le (by omega) large
  -- The size of a block is a multiple of the alignment, so that rounding does not matter.
  have shorter : block.size - headerSize < newSize := by
    simp only [heapAlign, headerSize] at larger large granular ⊢
    omega
  rw [payload, if_pos shorter]
  omega

variable (positive : newSize ≠ 0) (fits : SizeFits newSize)
  (larger : ¬totalBlockSize newSize ≤ heap.get a.block .size)
  (valid : heap.validateBlock a.block = true)
  (ready : MoveReady heap vmm newSize a)
  (done : heap.krealloc vmm a.ptr newSize = some (newPtr, after)) (nonnull : newPtr ≠ 0)
include positive fits larger valid ready done nonnull

/-- A resize by a copy: the new allocation is in a block of its own, and has the bytes of the old
one as far as they were read. -/
theorem Inv.krealloc_copies :
    (∃ blocks, after.Holds blocks ∧ ∃ block ∈ usedBlocks blocks,
      block.addr + headerSize ≤ newPtr ∧ newPtr + newSize ≤ block.addr + block.size) ∧
    ∀ i < heap.bytesRead a.ptr newSize, a.ptr + i < a.block + heap.get a.block .size →
      after.mem (newPtr + i) = heap.mem (a.ptr + i) := by
  obtain ⟨safe, foundLater⟩ := ready
  obtain ⟨back, used⟩ := inv.leadsBack member found
  rw [Heap.krealloc_moves (inv.ptr_ne_zero member) positive inv.ready back valid used larger]
    at done
  obtain ⟨⟨given, middle⟩, made, rest⟩ := Option.bind_eq_some_iff.mp done
  dsimp only at rest
  by_cases null : given = 0
  · rw [if_pos null] at rest
    exact absurd (congrArg Prod.fst (Option.some.inj rest)).symm nonnull
  rw [if_neg null] at rest
  have rounds : Rounds newSize := by
    obtain ⟨blocks, holds, _⟩ := inv.placed
    exact holds.rounds_of_served fits safe.2 made null
  -- The new allocation is made and filled, and then the old one is freed.
  obtain ⟨ptr, allocated, again, invMiddle, homes⟩ := inv.kmalloc vmm rounds fun _ => safe
  obtain ⟨samePtr, sameHeap⟩ := Prod.mk.inj (Option.some.inj (again.symm.trans made))
  subst samePtr
  subst sameHeap
  rw [adoptPtr, if_neg null] at invMiddle
  have invCopied := (invMiddle.copyPayload List.mem_cons_self a.ptr
    (sub64 (heap.get a.block .size) headerSize)).1
  obtain ⟨freed, freeing, invAfter, kept⟩ := invCopied.kfree (List.mem_cons_of_mem _ member)
    (foundLater _ (Option.mem_def.mpr made) null)
  rw [freeing, Option.bind_some] at rest
  obtain ⟨samePtr, sameHeap⟩ := Prod.mk.inj (Option.some.inj rest)
  subst samePtr
  subst sameHeap
  have stays : (⟨ptr, newSize, ptr - headerSize⟩ : Allocation) ∈
      dropPtr a.ptr (⟨ptr, newSize, ptr - headerSize⟩ :: live) :=
    List.mem_filter.mpr
      ⟨List.mem_cons_self, decide_eq_true (invMiddle.ptr_ne_of_cons member)⟩
  constructor
  · obtain ⟨blocks, holds, lives⟩ := invAfter.placed
    obtain ⟨block, isUsed, inBlock⟩ := lives _ stays
    exact ⟨blocks, holds, block, isUsed, inBlock.low, inBlock.high⟩
  · intro i below inside
    have fewer := (inv.bytesRead_moved member found fits larger).2
    -- The free leaves the new block alone, the copy fills it, and the allocation left the old one.
    obtain ⟨blocks, block, holds, isBlock, _, inBlock⟩ := invCopied.home List.mem_cons_self
    have high := inBlock.high
    have addr := inBlock.addr
    have size := holds.shape.size block isBlock
    rw [← addr] at high size
    rw [← size] at high
    rw [(kept _ stays).2 (ptr + i) (Nat.le_add_right _ _) (by simp only at high ⊢; omega)]
    rw [← back, Heap.copyPayload_read below]
    exact (homes a member).2 (a.ptr + i) (Nat.le_add_right _ _) inside

theorem Inv.resized_moved (direct : a.ptr = a.block + headerSize) :
    heap.Resized after a newPtr newSize := by
  obtain ⟨reads, fewer⟩ := inv.bytesRead_moved member found fits larger
  obtain ⟨placed, copied⟩ :=
    inv.krealloc_copies member found positive fits larger valid ready done nonnull
  refine ⟨placed, ?_, by omega⟩
  intro i _ inside
  exact copied i (by omega) inside

end

/-- A copy from a pointer behind the start of its payload reads beyond the block. -/
theorem Inv.direct_of_resized (inv : Inv heap live) (member : a ∈ live) (fits : SizeFits newSize)
    (larger : ¬totalBlockSize newSize ≤ heap.get (heap.ptrToBlock a.ptr) .size)
    (resized : heap.Resized after a newPtr newSize) : a.ptr = a.block + headerSize := by
  by_contra behind
  have found : heap.Found a := fun direct => absurd direct behind
  rw [(inv.leadsBack member found).1] at larger
  have reads := (inv.bytesRead_moved member found fits larger).1
  have confined := resized.confined
  obtain ⟨_, block, _, _, _, inBlock⟩ := inv.home member
  have low := inBlock.low
  rw [← inBlock.addr] at low
  omega

end HeapSession

open HeapSession

/-- A resize that yields a pointer keeps its promise for every pointer that may be resized, and for
no other one, except perhaps for a pointer directly behind its header that has to be copied and does
not lead to its block or meets an allocation that cannot be served safely. -/
theorem krealloc_resizes_iff {session : HeapSession} {blocks : List Block} {a : Allocation}
    {vmm : Vmm} {newSize newPtr : Nat} {after : Heap} (ready : session.heap.initialized = true)
    (wellFormed : session.WellFormed blocks) (member : a ∈ session.live) (positive : newSize ≠ 0)
    (word : newSize < 2 ^ 64) (done : session.heap.krealloc vmm a.ptr newSize = some (newPtr, after))
    (nonnull : newPtr ≠ 0) :
    (Resizable session.heap vmm newSize a → session.heap.Resized after a newPtr newSize) ∧
      (session.heap.Resized after a newPtr newSize →
        (¬totalBlockSize newSize ≤ session.heap.get (session.heap.ptrToBlock a.ptr) .size →
          a.ptr = a.block + headerSize →
          session.heap.Found a ∧ MoveReady session.heap vmm newSize a) →
        Resizable session.heap vmm newSize a) := by
  have inv : Inv session.heap session.live :=
    ⟨ready, ⟨blocks, wellFormed.holds, wellFormed.lives⟩, wellFormed.own⟩
  have pointer := inv.ptr_ne_zero member
  -- A block that is not valid or not used is refused.
  obtain ⟨valid, used⟩ : session.heap.validateBlock (session.heap.ptrToBlock a.ptr) = true ∧
      session.heap.isUsed (session.heap.ptrToBlock a.ptr) = true := by
    rw [← Bool.and_eq_true_iff]
    by_contra invalid
    rw [Heap.krealloc_invalid pointer positive ready rfl (Bool.not_eq_true _ ▸ invalid)] at done
    exact nonnull (congrArg Prod.fst (Option.some.inj done)).symm
  unfold Resizable
  by_cases fits : totalBlockSize newSize ≤ session.heap.get (session.heap.ptrToBlock a.ptr) .size
  · -- In place, whichever block was found.
    rw [Heap.krealloc_inPlace pointer positive ready rfl valid used fits] at done
    obtain ⟨samePtr, sameHeap⟩ := Prod.mk.inj (Option.some.inj done)
    subst samePtr
    subst sameHeap
    rw [if_pos fits, inv.resized_inPlace_iff member fits]
    exact ⟨fun room => room, fun room _ => room⟩
  · -- By a copy, which a size that wraps never needs.
    have sizeFits : SizeFits newSize := by
      by_contra wraps
      exact fits ((Heap.totalBlockSize_of_wraps word wraps).trans
        (Heap.headerSize_le_of_valid valid))
    rw [if_neg fits]
    constructor
    · intro condition
      obtain ⟨direct, found, movable⟩ := condition
      rw [(inv.leadsBack member found).1] at fits valid
      exact inv.resized_moved member found positive sizeFits fits valid movable done nonnull direct
    · intro resized servable
      have direct := inv.direct_of_resized member sizeFits fits resized
      exact ⟨direct, servable fits direct⟩

/-- A plain pointer is resized from 48 to 200 bytes, by a copy. -/
theorem krealloc_resizes_plain :
    ∃ heap last newPtr after, blankHeap.init zeroVmm = some (true, heap) ∧
      Run SafeStep ⟨heap, []⟩ [.kmalloc zeroVmm 48, .write (kernelHeapBase + 50) 7] last ∧
      last.heap.krealloc zeroVmm (kernelHeapBase + 48) 200 = some (newPtr, after) ∧
      newPtr ≠ kernelHeapBase + 48 ∧
      last.heap.Resized after ⟨kernelHeapBase + 48, 48, kernelHeapBase⟩ newPtr 200 := by
  obtain ⟨heap, last, booted, run, live, found, movable, larger, resized⟩ := booted_safeRun
    [.kmalloc zeroVmm 48, .write (kernelHeapBase + 50) 7]
    (fun last => last.live = [⟨kernelHeapBase + 48, 48, kernelHeapBase⟩] ∧
      last.heap.Found ⟨kernelHeapBase + 48, 48, kernelHeapBase⟩ ∧
      MoveReady last.heap zeroVmm 200 ⟨kernelHeapBase + 48, 48, kernelHeapBase⟩ ∧
      ¬totalBlockSize 200 ≤
        last.heap.get (last.heap.ptrToBlock (kernelHeapBase + 48)) .size ∧
      (last.heap.krealloc zeroVmm (kernelHeapBase + 48) 200).any fun result =>
        result.1 ≠ 0 ∧ result.1 ≠ kernelHeapBase + 48)
    (by decide +kernel) fun _ _ _ _ facts => facts
  obtain ⟨⟨newPtr, after⟩, done, facts⟩ := (Option.any_eq_true _ _).mp resized
  simp only [decide_eq_true_eq] at facts
  have inv := SafeStep.inv run (.booted rfl booted)
  obtain ⟨blocks, wellFormed⟩ := inv.wellFormed
  refine ⟨heap, last, newPtr, after, booted, run, done, facts.2, ?_⟩
  apply (krealloc_resizes_iff inv.ready wellFormed (by rw [live]; exact List.mem_cons_self)
    (by decide) (by decide) done facts.1).1
  rw [Resizable, if_neg larger]
  exact ⟨rfl, found, movable⟩

/-- An aligned pointer to 64 bytes is behind the start of its payload. With 192 bytes it is resized
in place, and its bytes reach 16 bytes beyond the block; with 200 bytes it is resized by a copy, and
the copy reads as far. -/
theorem krealloc_beyond_block :
    ∃ heap last, blankHeap.init zeroVmm = some (true, heap) ∧
      Run SafeStep ⟨heap, []⟩ [.kmallocAligned zeroVmm 64 64] last ∧
      last.live = [⟨kernelHeapBase + 64, 64, kernelHeapBase⟩] ∧
      last.heap.get kernelHeapBase .size = 240 ∧
      last.heap.krealloc zeroVmm (kernelHeapBase + 64) 192 =
        some (kernelHeapBase + 64, last.heap) ∧
      ¬last.heap.Resized last.heap ⟨kernelHeapBase + 64, 64, kernelHeapBase⟩
        (kernelHeapBase + 64) 192 ∧
      (∃ newPtr after, newPtr ≠ 0 ∧
        last.heap.krealloc zeroVmm (kernelHeapBase + 64) 200 = some (newPtr, after)) ∧
      last.heap.bytesRead (kernelHeapBase + 64) 200 = 192 := by
  apply booted_safeRun _
    (fun last => last.live = [⟨kernelHeapBase + 64, 64, kernelHeapBase⟩] ∧
      last.heap.get kernelHeapBase .size = 240 ∧
      last.heap.ptrToBlock (kernelHeapBase + 64) = kernelHeapBase ∧
      last.heap.validateBlock kernelHeapBase = true ∧
      last.heap.isUsed kernelHeapBase = true ∧
      ((last.heap.krealloc zeroVmm (kernelHeapBase + 64) 200).any fun result => result.1 ≠ 0) ∧
      last.heap.bytesRead (kernelHeapBase + 64) 200 = 192)
    (by decide +kernel)
  intro heap last booted run ⟨live, size, back, valid, used, moved, reads⟩
  have inv := SafeStep.inv run (.booted rfl booted)
  have small : totalBlockSize 192 ≤ last.heap.get kernelHeapBase .size := by
    rw [size]
    decide
  have stays : last.heap.krealloc zeroVmm (kernelHeapBase + 64) 192 =
      some (kernelHeapBase + 64, last.heap) :=
    Heap.krealloc_inPlace (by decide) (by decide) inv.ready back valid used small
  refine ⟨live, size, stays, ?_, ?_, reads⟩
  · intro resized
    have member : (⟨kernelHeapBase + 64, 64, kernelHeapBase⟩ : Allocation) ∈ last.live := by
      rw [live]
      exact List.mem_cons_self
    have room := (inv.resized_inPlace_iff member (by rw [back]; exact small)).mp resized
    simp only [size] at room
    omega
  · obtain ⟨⟨newPtr, after⟩, done, nonnull⟩ := (Option.any_eq_true _ _).mp moved
    simp only [decide_eq_true_eq] at nonnull
    exact ⟨newPtr, after, nonnull, done⟩

end Ccos
