import Ccos.Heap.Notes
import Ccos.Heap.Release

/-! The set of live blocks of a heap, and what an allocation and a free do to it. -/

namespace Ccos

open Lib

namespace Heap

variable {heap : Heap} {blocks : List Block} {block : Block}

/-- The used blocks of a heap that is in shape. -/
def liveBlocks (heap : Heap) : Set Block :=
  {block | ∃ blocks, heap.Holds blocks ∧ block ∈ usedBlocks blocks}

theorem Holds.mem_liveBlocks (holds : heap.Holds blocks) :
    block ∈ heap.liveBlocks ↔ block ∈ usedBlocks blocks := by
  constructor
  · rintro ⟨others, another, used⟩
    rwa [holds.unique another]
  · intro used
    exact ⟨blocks, holds, used⟩

end Heap

namespace HeapSession

variable {heap : Heap} {live : List Allocation} (inv : Inv heap live)
  (clear : ∀ a ∈ live, heap.NoteClear a)
include inv clear

/-- An allocation adds the block of the pointer it yields, and nothing if that is null. -/
theorem Inv.kmalloc_live (vmm : Vmm) {size : Nat} (rounds : Rounds size)
    (safe : heap.AllocSafe vmm size) :
    ∃ ptr after, heap.kmalloc vmm size = some (ptr, after) ∧
      Inv after (adoptPtr ⟨ptr, size, ptr - headerSize⟩ live) ∧
      (∀ a ∈ live, after.NoteClear a) ∧
      (∀ block, block ∈ heap.liveBlocks ↔
        block ∈ after.liveBlocks ∧ block.addr + headerSize ≠ ptr) ∧
      (ptr ≠ 0 → ∃ block ∈ after.liveBlocks, block.addr + headerSize = ptr) := by
  obtain ⟨blocks, holds, lives⟩ := inv.placed
  obtain ⟨ptr, after, blocks', done, afterHolds, keeps, handsOut⟩ :=
    holds.kmalloc_handsOut inv.ready vmm rounds fun _ => safe
  obtain ⟨invAfter, homes⟩ := inv.adopt holds afterHolds lives keeps handsOut
  refine ⟨ptr, after, done, invAfter,
    fun a member => (clear a member).carried (homes a member).1 rfl rfl, ?_⟩
  simp only [holds.mem_liveBlocks, afterHolds.mem_liveBlocks]
  cases handsOut with
  | nothing null same =>
    have zero : ptr = 0 := null
    refine ⟨fun block => ?_, fun nonnull => absurd zero nonnull⟩
    rw [same, zero]
    exact ⟨fun used => ⟨used, by simp [headerSize]⟩, And.left⟩
  | block taken left right nonnull inTaken was becomes =>
    have home : ptr - headerSize = taken.addr := inTaken.addr
    have low : taken.addr + headerSize ≤ ptr := inTaken.low
    have pointer : taken.addr + headerSize = ptr := by omega
    refine ⟨fun block => ?_, fun _ => ⟨taken, by simp [becomes], pointer⟩⟩
    rw [was, becomes]
    constructor
    · -- The new block is apart from the old ones.
      intro used
      have apart := afterHolds.used_apart becomes used
      have large := block.large
      have takenLarge := taken.large
      have header : headerSize = 48 := rfl
      refine ⟨by grind, fun same => ?_⟩
      have equal : block.addr + headerSize = taken.addr + headerSize := same.trans pointer.symm
      omega
    · rintro ⟨used, other⟩
      grind

/-- A free takes the block of its pointer away, unless that ends beyond the heap region. -/
theorem Inv.kfree_live {a : Allocation} (member : a ∈ live) :
    ∃ after, heap.kfree a.ptr = some after ∧ Inv after (dropPtr a.ptr live) ∧
      (∀ b ∈ dropPtr a.ptr live, after.NoteClear b) ∧ after.heapEnd = heap.heapEnd ∧
      ∀ block, block ∈ after.liveBlocks ↔ block ∈ heap.liveBlocks ∧
        (block.addr = a.block → heap.heapEnd < block.addr + block.size) := by
  have found := inv.found member (clear a member)
  obtain ⟨after, done, invAfter, homes⟩ := inv.kfree member found
  have clearAfter (b : Allocation) (stays : b ∈ dropPtr a.ptr live) : after.NoteClear b :=
    (clear b (List.mem_filter.mp stays).1).carried (homes b stays).1 rfl rfl
  obtain ⟨blocks, holds, lives⟩ := inv.placed
  obtain ⟨home, used, inBlock⟩ := lives a member
  obtain ⟨inside, isUsed⟩ := mem_usedBlocks.mp used
  have back := holds.ptrToBlock inside inBlock found
  have region := holds.shape.validateBlock_iff inside
  obtain ⟨before, behind, rfl⟩ := List.append_of_mem inside
  have split : usedBlocks (before ++ home :: behind) =
      usedBlocks before ++ home :: usedBlocks behind := by
    rw [usedBlocks_append, usedBlocks_cons_used isUsed]
  -- No other block starts where this one does.
  have other (block : Block) (isOther : block ∈ usedBlocks before ++ usedBlocks behind) :
      block.addr ≠ a.block := by
    have apart := holds.used_apart split isOther
    have large := block.large
    have homeLarge := home.large
    rw [inBlock.addr]
    simp only [headerSize] at large homeLarge
    omega
  have either (block : Block) : block ∈ heap.liveBlocks ↔
      block ∈ usedBlocks before ++ usedBlocks behind ∨ block = home := by
    rw [holds.mem_liveBlocks, split]
    grind
  rcases holds.kfree inv.ready isUsed (inv.ptr_ne_zero member) back with
    ⟨invalid, unchanged⟩ | ⟨freed, blocks', freeing, freedHolds, fewer, keeps⟩
  · -- Nothing happens, because the block ends beyond the region.
    obtain rfl : heap = after := Option.some.inj (unchanged.symm.trans done)
    rw [invalid] at region
    refine ⟨heap, done, invAfter, clearAfter, rfl,
      fun block => ⟨fun isLive => ⟨isLive, fun same => ?_⟩, And.left⟩⟩
    rcases (either block).mp isLive with isOther | rfl
    · exact absurd same (other block isOther)
    · simpa using region
  · obtain rfl : freed = after := Option.some.inj (freeing.symm.trans done)
    have ends : home.addr + home.size ≤ heap.heapEnd :=
      (holds.releases_iff inv.ready isUsed back).mp ⟨freed, blocks', freeing, freedHolds, fewer, keeps⟩
    refine ⟨freed, done, invAfter, clearAfter, keeps.heapEnd, fun block => ?_⟩
    rw [freedHolds.mem_liveBlocks, fewer, either]
    constructor
    · intro isOther
      exact ⟨.inl isOther, fun same => absurd same (other block isOther)⟩
    · rintro ⟨isOther | rfl, beyond⟩
      · exact isOther
      · have := beyond inBlock.addr.symm
        omega

end HeapSession

end Ccos
