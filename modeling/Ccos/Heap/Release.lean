import Ccos.Heap.HeapRun
import Mathlib.Data.List.Chain

/-! What freeing a block does exactly: it becomes one unused block together with its unused
neighbours, and everything else stays. -/

namespace Ccos

open Lib

/-- The blocks after one of them was freed: it grows over an unused block behind it, and an unused
block before it grows over the result. -/
def released (before : List Block) (block : Block) (behind : List Block) : List Block :=
  let freed : Block := { block with used := false }
  match behind with
  | [] => joined before freed
  | next :: rest =>
    if next.used then joined before freed ++ next :: rest
    else joined before (freed.merge next) ++ rest

/-- No two neighbours are both unused. -/
@[grind =] def Coalesced (blocks : List Block) : Prop :=
  blocks.IsChain fun first second => first.used = true ∨ second.used = true

section Lists

variable {block : Block} {before behind : List Block}

theorem Coalesced.joined (left : Coalesced before) (right : Coalesced behind)
    (follows : ∀ next ∈ behind.head?, next.used = true) :
    Coalesced (joined before block ++ behind) := by
  -- Only the block directly before the new one decides how they are joined.
  have seam (last : Block) : ∀ next ∈ behind.head?, last.used = true ∨ next.used = true :=
    fun next isNext => .inr (follows next isNext)
  rcases List.eq_nil_or_concat' before with empty | ⟨rest, prev, split⟩
  · subst empty
    exact List.isChain_cons.mpr ⟨seam block, right⟩
  subst split
  rw [joined_concat]
  obtain ⟨restChain, _, meets⟩ := List.isChain_append.mp left
  cases prevUsed : prev.used with
  | true =>
    rw [if_pos rfl, List.append_assoc]
    apply List.isChain_append.mpr
    refine ⟨left, List.isChain_cons.mpr ⟨seam block, right⟩, ?_⟩
    grind
  | false =>
    rw [if_neg (by simp), List.append_assoc]
    apply List.isChain_append.mpr
    refine ⟨restChain, List.isChain_cons.mpr ⟨seam _, right⟩, ?_⟩
    -- The block before an unused one was used already.
    grind

theorem Coalesced.released (coalesced : Coalesced (before ++ block :: behind)) :
    Coalesced (released before block behind) := by
  obtain ⟨left, rightWhole, _⟩ := List.isChain_append.mp coalesced
  have right := (List.isChain_cons.mp rightWhole).2
  cases behind with
  | nil =>
    have closed : Coalesced (Ccos.joined before { block with used := false } ++ []) :=
      Coalesced.joined left right (by simp)
    rwa [List.append_nil] at closed
  | cons next rest =>
    cases nextUsed : next.used with
    | true =>
      simp only [Ccos.released, nextUsed, if_true]
      apply Coalesced.joined left right
      grind
    | false =>
      simp only [Ccos.released, nextUsed, Bool.false_eq_true, if_false]
      obtain ⟨meets, later⟩ := List.isChain_cons.mp right
      apply Coalesced.joined left later
      grind

end Lists

namespace Heap

variable {heap : Heap} {stop ptr : Nat} {blocks before behind : List Block} {free : List Nat}
  {block : Block}

/-- The blocks cover the heap up to its break, the free list is the unused ones in order, no two of
them are neighbours, and the break is inside the heap region. -/
@[grind] structure Settled (heap : Heap) (blocks : List Block) : Prop where
  shape : heap.Shape heap.heapBrk blocks (unusedAddrs blocks)
  coalesced : Coalesced blocks
  inside : heap.heapBrk ≤ heap.heapEnd

instance (heap : Heap) (blocks : List Block) : Decidable (heap.Settled blocks) :=
  have : Decidable (Coalesced blocks) := inferInstanceAs (Decidable (List.IsChain _ blocks))
  decidable_of_iff (heap.Shape heap.heapBrk blocks (unusedAddrs blocks) ∧ Coalesced blocks ∧
      heap.heapBrk ≤ heap.heapEnd)
    ⟨fun ⟨shape, coalesced, inside⟩ => ⟨shape, coalesced, inside⟩,
      fun settled => ⟨settled.shape, settled.coalesced, settled.inside⟩⟩

theorem Shape.validateBlock_iff (shape : heap.Shape stop blocks free) (member : block ∈ blocks) :
    heap.validateBlock block.addr = true ↔ block.addr + block.size ≤ heap.heapEnd := by
  obtain ⟨positive, start, _, small⟩ := shape.bounds member
  have large := block.large
  have aligned : block.addr &&& (heapAlign - 1) = 0 := by
    have low : block.addr &&& (heapAlign - 1) = block.addr % 16 :=
      Nat.and_two_pow_sub_one_eq_mod _ 4
    rw [low]
    exact shape.addr_aligned member
  have nonempty : 0 < headerSize := by decide
  rw [validateBlock, if_neg (Nat.ne_of_gt positive), shape.magic block member,
    shape.size block member, wrap64_of_lt small, if_neg (by simp)]
  grind

theorem Shape.ptr_ne_zero (shape : heap.Shape stop blocks free) (member : block ∈ blocks)
    (found : heap.ptrToBlock ptr = block.addr) : ptr ≠ 0 := by
  -- The header before null would end at the end of the address space, and a note would be null.
  intro null
  obtain ⟨_, _, _, small⟩ := shape.bounds member
  have large := block.large
  have positive := shape.positive
  have direct : sub64 0 headerSize ≠ block.addr := by
    intro same
    have : sub64 0 headerSize + headerSize = 2 ^ 64 := by decide
    omega
  rw [null, ptrToBlock] at found
  grind

theorem Frame.parts {after : Heap} {next : Block} {rest : List Block}
    (frame : Frame heap after (before ++ block.merge next :: rest))
    (follows : next.addr = block.addr + block.size) :
    Frame heap after (before ++ block :: next :: rest) := by
  refine { frame with payload := fun other member place low high => ?_ }
  have merged := frame.payload (block.merge next) (by simp) place
  simp only [Block.merge_addr, Block.merge_size] at merged
  simp only [List.mem_append, List.mem_cons] at member
  rcases member with inBefore | same | same | inRest
  · exact frame.payload other (List.mem_append_left _ inBefore) place low high
  · subst same
    exact merged low (by omega)
  · subst same
    exact merged (by omega) (by omega)
  · exact frame.payload other (mem_of_around (List.mem_append_right _ inRest)) place low high

theorem Shape.coalesceBlock (shape : heap.Shape heap.heapBrk (before ++ block :: behind)
    (unusedAddrs (before ++ block :: behind))) (unused : block.used = false)
    (inside : heap.heapBrk ≤ heap.heapEnd) :
    ∃ after, heap.coalesceBlock block.addr = some after ∧
      after.Shape after.heapBrk (released before block behind)
        (unusedAddrs (released before block behind)) ∧
      Frame heap after (before ++ block :: behind) := by
  have same : { block with used := false } = block := by rw [← unused]
  have notUsed : heap.isUsed block.addr = false := by
    simp [shape.isUsed mem_here, unused]
  unfold Heap.coalesceBlock
  rw [notUsed, if_neg Bool.false_ne_true]
  rcases shape.follows with ⟨empty, ends⟩ | ⟨next, rest, split, follows⟩
  · -- Behind the last block there is nothing to merge.
    subst empty
    have last : heap.isLastBlock block.addr = true := by
      simp [isLastBlock, shape.nextBlock mem_here, ends]
    rw [coalesceNext_eq_self (.inl last)]
    obtain ⟨after, merged, afterShape, frame⟩ := shape.coalescePrev unused
    rw [List.append_nil, ← same] at afterShape
    exact ⟨after, merged, afterShape, frame⟩
  subst split
  have nextIn : next ∈ before ++ block :: next :: rest := by simp
  have nextBounds := shape.bounds nextIn
  cases nextUsed : next.used with
  | true =>
    have apart : (!heap.isUsed (heap.nextBlock block.addr) &&
        heap.validateBlock (heap.nextBlock block.addr)) = false := by
      rw [shape.nextBlock mem_here, ← follows]
      simp [shape.isUsed nextIn, nextUsed]
    rw [coalesceNext_eq_self (.inr apart)]
    simp only [released, nextUsed, if_true, same]
    exact shape.coalescePrev unused
  | false =>
    -- The block behind is inside the region, so that it is valid and not beyond the end.
    have valid : heap.validateBlock next.addr = true :=
      (shape.validateBlock_iff nextIn).mpr (by omega)
    have inner : ¬heap.isLastBlock block.addr = true := by
      have large := next.large
      have nonempty : 0 < headerSize := by decide
      simp only [isLastBlock, shape.nextBlock mem_here, Bool.or_eq_true, decide_eq_true_eq]
      omega
    obtain ⟨middle, first, middleShape, frame⟩ :=
      shape.coalesceNext unused nextUsed inner valid
    rw [first]
    simp only [released, nextUsed, Bool.false_eq_true, if_false, same]
    obtain ⟨after, second, afterShape, later⟩ := middleShape.coalescePrev unused
    exact ⟨after, second, afterShape, frame.trans (later.parts follows) fun _ => id⟩

/-- Freeing a used block inside the heap region releases exactly it. -/
theorem Shape.kfree (shape : heap.Shape heap.heapBrk (before ++ block :: behind)
    (unusedAddrs (before ++ block :: behind))) (ready : heap.initialized = true)
    (inside : heap.heapBrk ≤ heap.heapEnd) (used : block.used = true)
    (found : heap.ptrToBlock ptr = block.addr) :
    ∃ after, heap.kfree ptr = some after ∧
      after.Shape after.heapBrk (released before block behind)
        (unusedAddrs (released before block behind)) ∧
      Frame heap after (before ++ block :: behind) := by
  have bounds := shape.bounds mem_here
  have nonnull := shape.ptr_ne_zero mem_here found
  have isUsed : heap.isUsed block.addr = true := by simp [shape.isUsed mem_here, used]
  have valid : heap.validateBlock block.addr = true :=
    (shape.validateBlock_iff mem_here).mpr (by omega)
  obtain ⟨listed, inserted, listedShape, frame⟩ := shape.listed used
  have within : listed.heapBrk ≤ listed.heapEnd := by
    rw [frame.heapBrk, frame.heapEnd]
    exact inside
  obtain ⟨after, merged, afterShape, later⟩ := listedShape.coalesceBlock rfl within
  refine ⟨after, ?_, afterShape, frame.trans later.unmark fun _ => id⟩
  rw [Heap.kfree, ready, if_neg (by simp), if_neg nonnull]
  simp only [found, valid, isUsed, inserted]
  exact merged

/-- Freeing a pointer takes one block from the used ones, between those before and those behind it,
and keeps their payloads. -/
def Releases (heap : Heap) (ptr : Nat) (before behind : List Block) : Prop :=
  ∃ freed blocks, heap.kfree ptr = some freed ∧ freed.Holds blocks ∧
    usedBlocks blocks = usedBlocks before ++ usedBlocks behind ∧
    Keeps heap freed (usedBlocks before ++ usedBlocks behind)

/-- Freeing a pointer to a used block releases it exactly if it ends inside the heap region. -/
theorem Holds.releases_iff (holds : heap.Holds (before ++ block :: behind))
    (ready : heap.initialized = true) (used : block.used = true)
    (found : heap.ptrToBlock ptr = block.addr) :
    heap.Releases ptr before behind ↔ block.addr + block.size ≤ heap.heapEnd := by
  rw [← holds.shape.validateBlock_iff mem_here]
  have nonnull := holds.shape.ptr_ne_zero mem_here found
  have outcome := holds.kfree ready used nonnull found
  cases valid : heap.validateBlock block.addr with
  | true =>
    have released : heap.Releases ptr before behind := by
      rcases outcome with ⟨invalid, _⟩ | released
      · rw [valid] at invalid
        cases invalid
      · exact released
    exact iff_of_true released rfl
  | false =>
    -- The heap stays as it was, and still has the block among its used ones.
    have unchanged : heap.kfree ptr = some heap := by
      simp [Heap.kfree, ready, nonnull, found, valid]
    refine iff_of_false ?_ (by simp)
    rintro ⟨freed, blocks, done, after, fewer, _⟩
    obtain rfl : heap = freed := Option.some.inj (unchanged.symm.trans done)
    rw [after.unique holds, usedBlocks_append, usedBlocks_cons_used used] at fewer
    simp at fewer

end Heap

open Heap

/-- Freeing a used block of a settled heap leaves a settled heap, in which the block and its unused
neighbours are one unused block; the other blocks, all payloads and the bounds of the heap stay. -/
theorem kfree_releases {heap : Heap} {before behind : List Block} {block : Block} {ptr : Nat}
    (ready : heap.initialized = true) (settled : heap.Settled (before ++ block :: behind))
    (used : block.used = true) (found : heap.ptrToBlock ptr = block.addr) :
    ∃ after, heap.kfree ptr = some after ∧ after.Settled (released before block behind) ∧
      Frame heap after (before ++ block :: behind) := by
  obtain ⟨after, freed, shape, frame⟩ := settled.shape.kfree ready settled.inside used found
  refine ⟨after, freed, ⟨shape, settled.coalesced.released, ?_⟩, frame⟩
  rw [frame.heapBrk, frame.heapEnd]
  exact settled.inside

/-- A heap in which the only used block stands between two unused ones. -/
def betweenUnused : Option Heap := do
  let (_, heap) ← blankHeap.init zeroVmm
  let (_, heap) ← heap.kmalloc zeroVmm 16
  let (_, heap) ← heap.kmalloc zeroVmm 16
  heap.kfree (kernelHeapBase + 48)

/-- Freeing the block between them makes all three one unused block. -/
theorem kfree_releases_between :
    ∃ heap after, betweenUnused = some heap ∧ heap.kfree (kernelHeapBase + 112) = some after ∧
      after.Settled [⟨kernelHeapBase, 65536, false, by decide, by decide⟩] := by
  have reached : betweenUnused.any fun heap => heap.initialized = true ∧
      heap.Settled ([⟨kernelHeapBase, 64, false, by decide, by decide⟩] ++
        ⟨kernelHeapBase + 64, 64, true, by decide, by decide⟩ ::
          [⟨kernelHeapBase + 128, 65408, false, by decide, by decide⟩]) ∧
      heap.ptrToBlock (kernelHeapBase + 112) = kernelHeapBase + 64 := by
    decide +kernel
  obtain ⟨heap, ran, facts⟩ := (Option.any_eq_true _ _).mp reached
  simp only [decide_eq_true_eq] at facts
  obtain ⟨ready, settled, found⟩ := facts
  obtain ⟨after, freed, afterSettled, _⟩ := kfree_releases ready settled rfl found
  simp only [released, joined, Block.merge] at afterSettled
  exact ⟨heap, after, ran, freed, afterSettled⟩

end Ccos
