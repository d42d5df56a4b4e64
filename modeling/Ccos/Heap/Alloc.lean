import Ccos.Heap.Expand

/-! What the calls of the allocator do to the blocks of the heap, when no split leaves a remainder
that is too small for a header. -/

namespace Ccos

open Lib

namespace Heap

variable {heap : Heap} {stop size : Nat} {blocks before behind : List Block}
  {free pending : List Nat} {block : Block}

section Split

theorem Shape.frame_cutBlock (shape : heap.Shape stop (before ++ block :: behind) free pending)
    {needed : Nat} (room : needed + headerSize ≤ block.size) :
    Frame heap (heap.cutBlock block.addr needed (block.addr + needed) (block.size - needed))
      (before ++ behind) := by
  refine ⟨⟨fun other member place low high => ?_, rfl, rfl, rfl⟩, rfl⟩
  have outside : place < block.addr ∨ block.addr + block.size ≤ place := by
    rcases shape.tiles.apart mem_here (mem_of_around member) with rfl | apart
    · exact absurd rfl (shape.addr_ne member)
    · omega
  have := noteOffset_le
  rw [cutBlock, set_outside (by omega), initBlock_outside (by omega)]

/-- Nothing is split off a block that is hardly larger than needed. -/
theorem Shape.splitBlock_eq {needed : Nat}
    (shape : heap.Shape stop (before ++ block :: behind) free pending) (fits : needed ≤ block.size) :
    heap.splitBlock block.addr needed = if heapMinBlock ≤ block.size - needed then
      (heap.cutBlock block.addr needed (block.addr + needed)
        (block.size - needed)).insertToFreeList (block.addr + needed) else some heap := by
  have bounds := shape.bounds mem_here
  rw [Heap.splitBlock, shape.size block mem_here, sub64_of_le (by omega) fits]
  split
  · rename_i cuts
    simp only [heapMinBlock] at cuts
    rw [wrap64_of_lt (by omega)]
  · rfl

/-- A split leaves a block that is large enough, and an unused one behind it if there is room for
a header. -/
theorem Shape.splitBlock {needed : Nat}
    (shape : heap.Shape stop (before ++ block :: behind) (unusedAddrs before ++ unusedAddrs behind)
      pending) (large : headerSize ≤ needed) (granular : needed % heapAlign = 0)
    (fits : needed ≤ block.size)
    (whole : ¬(needed + heapMinBlock ≤ block.size ∧ block.size < needed + headerSize)) :
    ∃ after taken cut, heap.splitBlock block.addr needed = some after ∧
      after.Shape stop (before ++ taken :: (cut ++ behind))
        (unusedAddrs before ++ unusedAddrs (cut ++ behind)) pending ∧
      taken.addr = block.addr ∧ needed ≤ taken.size ∧ usedBlocks cut = [] ∧
      Frame heap after (before ++ behind) := by
  rw [shape.splitBlock_eq fits]
  -- A block that is not large enough is left whole; otherwise the rest of it is split off.
  by_cases cuts : heapMinBlock ≤ block.size - needed
  swap
  · exact ⟨heap, block, [], if_neg cuts, shape, rfl, fits, rfl, .refl _ _⟩
  rw [if_pos cuts]
  have room : needed + headerSize ≤ block.size := by
    grind
  have above := shape.unused_above
  have below := shape.unused_below
  have absent : block.addr ∉ unusedAddrs before ++ unusedAddrs behind := fun member => by
    grind
  have rest : headerSize ≤ block.size - needed := by omega
  have shapeCut := shape.split absent large granular rest
  have frameCut := shape.frame_cutBlock room
  generalize heap.cutBlock block.addr needed (block.addr + needed) (block.size - needed) = middle
    at shapeCut frameCut ⊢
  generalize takenIs : Block.mk block.addr needed block.used large granular = taken at shapeCut
  generalize cutIs : Block.mk (block.addr + needed) (block.size - needed) false rest _ = cut
    at shapeCut
  have cutAddr : cut.addr = block.addr + needed := cutIs ▸ rfl
  have cutUnused : cut.used = false := cutIs ▸ rfl
  have cutIn : cut ∈ before ++ taken :: cut :: behind := by simp
  have aboveCut : ∀ node ∈ unusedAddrs behind, cut.addr < node := by
    have around : middle.Shape stop ((before ++ [taken]) ++ cut :: behind)
        (unusedAddrs before ++ unusedAddrs behind) pending := by simpa using shapeCut
    exact around.unused_above
  -- The split-off rest is linked into the free list as a new unused block.
  obtain ⟨after, inserted, afterShape, frame⟩ := shapeCut.insert cutIn cutUnused
    (fun node member => by have := below node member; omega) aboveCut
  refine ⟨after, taken, [cut], cutAddr ▸ inserted, ?_, takenIs ▸ rfl, takenIs ▸ Nat.le_refl _,
    usedBlocks_cons_unused cutUnused, frameCut.trans frame fun other member => ?_⟩
  · rw [List.singleton_append, unusedAddrs_cons_unused cutUnused]
    exact afterShape
  grind

end Split

/-- Taking an unused block for an allocation: it is unlinked, cut to size and marked as used. -/
theorem Holds.take {needed : Nat} (holds : heap.Holds (before ++ block :: behind) pending)
    (unused : block.used = false) (clear : block.addr ∉ pending) (large : headerSize ≤ needed)
    (granular : needed % heapAlign = 0) (fits : needed ≤ block.size)
    (whole : ¬(needed + heapMinBlock ≤ block.size ∧ block.size < needed + headerSize)) :
    ∃ unlinked split taken rest, heap.removeFromFreeList block.addr = some unlinked ∧
      unlinked.splitBlock block.addr needed = some split ∧
      (split.set block.addr .used 1).Holds (before ++ taken :: rest) pending ∧
      taken.used = true ∧ taken.addr = block.addr ∧ needed ≤ taken.size ∧
      usedBlocks rest = usedBlocks behind ∧
      Frame heap (split.set block.addr .used 1) (before ++ behind) := by
  obtain ⟨shape, paged⟩ := holds
  -- An unused block is first taken off the free list.
  have listed : unusedAddrs (before ++ block :: behind) =
      unusedAddrs before ++ block.addr :: unusedAddrs behind := by
    simp [unusedAddrs_cons_unused unused]
  have removed := shape.removed mem_here unused
  rw [listed] at shape
  obtain ⟨prevBlock, nextBlock⟩ := shape.neighbour_blocks
  have frame := shape.frame_unlink mem_here prevBlock nextBlock
  -- Then it is split, and what is left over is marked as used.
  obtain ⟨split, taken, cut, cuts, splitShape, sameAddr, enough, cutUnused, later⟩ :=
    (shape.unlink mem_here).splitBlock large granular fits whole
  have marked := splitShape.setUsed true fun _ _ => Iff.rfl
  rw [if_pos ⟨rfl, by rwa [sameAddr]⟩] at marked
  have takenIn : taken ∈ before ++ taken :: (cut ++ behind) := by simp
  have kept := (frame.mono fun other member => mem_of_around member).trans later fun _ => id
  have setFrame := splitShape.frame_set takenIn split .used 1
  rw [sameAddr] at setFrame
  have whole := kept.trans setFrame fun other member => by
    grind
  refine ⟨_, split, { taken with used := true }, cut ++ behind, removed, cuts, ⟨?_, ?_⟩, rfl,
    sameAddr, enough, ?_, whole⟩
  · have brk : (split.set block.addr .used 1).heapBrk = heap.heapBrk := whole.heapBrk
    rw [brk, unusedAddrs_append, unusedAddrs_cons_used rfl, ← sameAddr]
    exact marked
  · rw [whole.heapBrk]
    exact paged
  · rw [usedBlocks_append, cutUnused, List.nil_append]

/-- The allocation of some bytes can be served: the block that it takes is not larger than needed
by an amount that is split off but too small for a header, and the heap does not come to end at
the end of the address space. -/
@[grind =] def AllocSafe (heap : Heap) (vmm : Vmm) (size : Nat) : Prop :=
  let total := totalBlockSize size
  (∀ room ∈ heap.roomTaken vmm total,
    ¬(total + heapMinBlock ≤ room ∧ room < total + headerSize)) ∧
  (heap.findBestFit total = some 0 →
    (vmm.allocPagesAt heap.heapBrk (expandPages total) heap.mem).isSome →
    heap.heapBrk + expandPages total * pageSize ≠ 2 ^ 64)

instance (heap : Heap) (vmm : Vmm) (size : Nat) : Decidable (heap.AllocSafe vmm size) :=
  inferInstanceAs (Decidable (_ ∧ _))

/-- What an allocation does to the blocks: nothing if it yields null, and otherwise one more block
is used, which holds the bytes behind the pointer. -/
inductive Allocates (size ptr : Nat) (blocks after : List Block) : Prop
  | nothing (null : ptr = 0) (same : usedBlocks after = usedBlocks blocks)
  | block (taken : Block) (left right : List Block) (pointer : ptr = taken.addr + headerSize)
      (enough : size + headerSize ≤ taken.size) (was : usedBlocks blocks = left ++ right)
      (becomes : usedBlocks after = left ++ taken :: right)

theorem totalBlockSize_granular (size : Nat) : totalBlockSize size % heapAlign = 0 := by
  have small : wrap64 (size + 16 - 1) < 2 ^ 64 := Nat.mod_lt _ (by decide)
  have aligned : alignSize size = wrap64 (size + 16 - 1) / 16 * 16 :=
    land_not64_low (k := 4) small (by omega)
  rw [totalBlockSize, aligned]
  simp only [wrap64, headerSize, heapAlign]
  omega

/-- An allocation after its choice of a block. -/
theorem kmalloc_chosen {vmm : Vmm} {addr : Nat} {middle : Heap} (ready : heap.initialized = true)
    (nonempty : size ≠ 0)
    (chosen : heap.chooseBlock vmm (totalBlockSize size) = some (addr, middle)) :
    heap.kmalloc vmm size = if addr = 0 then some (0, middle) else
      (middle.removeFromFreeList addr).bind fun unlinked =>
        (unlinked.splitBlock addr (totalBlockSize size)).bind fun split =>
          some (addr + headerSize, split.set addr .used 1) := by
  rw [Heap.kmalloc, ready, if_neg (by simp), if_neg nonempty]
  simp only [chosen, Option.bind_eq_bind, Option.bind_some]

/-- An allocation returns, and takes an unused block for the pointer that it yields. -/
theorem Holds.kmalloc (holds : heap.Holds blocks pending) (ready : heap.initialized = true)
    (vmm : Vmm) {bytes : Nat} (large : bytes + headerSize ≤ totalBlockSize size)
    (safe : size ≠ 0 → heap.AllocSafe vmm size)
    (kept : ∀ node ∈ pending, ∃ block ∈ usedBlocks blocks, block.addr = node) :
    ∃ ptr after blocks', heap.kmalloc vmm size = some (ptr, after) ∧ after.Holds blocks' pending ∧
      Keeps heap after (usedBlocks blocks) ∧ Allocates bytes ptr blocks blocks' := by
  by_cases zero : size = 0
  · exact ⟨0, heap, blocks, by simp [Heap.kmalloc, ready, zero], holds, (Frame.refl _ _).toKeeps,
      .nothing rfl rfl⟩
  obtain ⟨whole, below⟩ := safe zero
  obtain ⟨addr, middle, blocks', chosen, middleHolds, used, keeps, _, outcome, _⟩ :=
    holds.chooseBlock vmm _ below
  rw [kmalloc_chosen ready zero chosen]
  rcases outcome with rfl | ⟨before, block, behind, rfl, rfl, unused, fits, room⟩
  · exact ⟨0, middle, blocks', if_pos rfl, middleHolds, keeps, .nothing rfl used⟩
  have nonzero : block.addr ≠ 0 := Nat.ne_of_gt (middleHolds.shape.bounds mem_here).1
  -- A pending block counts as used, and so it is not the one that is taken.
  have clear : block.addr ∉ pending := fun member => by
    obtain ⟨other, isUsed, same⟩ := kept _ member
    obtain ⟨inside, marked⟩ := mem_usedBlocks.mp (used ▸ isUsed)
    have large := block.large
    have otherLarge := other.large
    simp only [headerSize] at large otherLarge
    rcases middleHolds.shape.tiles.apart inside mem_here with rfl | apart
    · cases unused.symm.trans marked
    · omega
  obtain ⟨unlinked, split, taken, rest, removed, cut, afterHolds, takenUsed, sameAddr, large, kept,
    frame⟩ := middleHolds.take unused clear (by omega) (totalBlockSize_granular size) fits
      (whole block.size (Option.mem_def.mpr room))
  rw [usedBlocks_append, usedBlocks_cons_unused unused] at used
  refine ⟨block.addr + headerSize, split.set block.addr .used 1, _, ?_, afterHolds,
    keeps.trans frame.toKeeps fun other member => ?_,
    .block taken (usedBlocks before) (usedBlocks behind) (by rw [sameAddr]) (by omega) used.symm ?_⟩
  · grind
  · rw [← used, ← usedBlocks_append] at member
    exact (mem_usedBlocks.mp member).1
  · rw [usedBlocks_append, usedBlocks_cons_used takenUsed, kept]

section Free

theorem mem_of_used_around {other : Block}
    (member : other ∈ usedBlocks before ++ usedBlocks behind) : other ∈ before ++ block :: behind := by
  rw [← usedBlocks_append] at member
  exact mem_of_around (mem_usedBlocks.mp member).1

theorem Holds.write (holds : heap.Holds blocks) (inside : block ∈ blocks) {mem : ByteMem}
    (same : ∀ place, place < block.addr + headerSize ∨ block.addr + block.size ≤ place →
      mem place = heap.mem place) :
    ({ heap with mem := mem } : Heap).Holds blocks := by
  obtain ⟨shape, paged⟩ := holds
  have kept (other : Block) (member : other ∈ blocks) (field : HeaderField) :
      ({ heap with mem := mem } : Heap).get other.addr field = heap.get other.addr field := by
    refine get_congr fun place low high => same place ?_
    have large := other.large
    rcases shape.tiles.apart inside member with rfl | apart
    · exact .inl high
    · omega
  have whole : heap.Shape heap.heapBrk (blocks ++ [] ++ []) (unusedAddrs blocks) := by
    simpa using shape
  have replaced := whole.replace { heap with mem := mem } [] [] (fun _ _ => id) rfl rfl
    fun other member => ⟨kept other (by simpa using member), Iff.rfl⟩
  exact ⟨by simpa using replaced, paged⟩

theorem Frame.unmark {after : Heap} {used : Bool}
    (frame : Frame heap after (before ++ { block with used := used } :: behind)) :
    Frame heap after (before ++ block :: behind) := by
  refine { frame with payload := fun other member place low high => ?_ }
  simp only [List.mem_append, List.mem_cons] at member
  rcases member with inBefore | same | inBehind
  · exact frame.payload other (List.mem_append_left _ inBefore) place low high
  · subst same
    exact frame.payload { other with used := used } (by simp) place low high
  · exact frame.payload other (mem_of_around (List.mem_append_right _ inBehind)) place low high

theorem Shape.half (shape : heap.Shape stop (before ++ block :: behind) free pending)
    (used : block.used = true) : (heap.set block.addr .used 0).Shape stop
      (before ++ block :: behind) free (block.addr :: pending) := by
  have same : { block with used := true } = block := Block.eq_of_fields rfl rfl used.symm
  have marked := @Shape.setUsed _ _ _ _ _ _ _ (block.addr :: pending) shape true fun other member =>
    by simp [shape.addr_ne member]
  rwa [if_neg (by simp), same] at marked

theorem Shape.list (shape : heap.Shape heap.heapBrk (before ++ block :: behind)
    (unusedAddrs (before ++ block :: behind)) pending) (used : block.used = true)
    (half : block.addr ∈ pending) :
    ∃ after, heap.insertToFreeList block.addr = some after ∧
      after.Shape after.heapBrk (before ++ { block with used := false } :: behind)
        (unusedAddrs (before ++ { block with used := false } :: behind))
        (pending.filter (· ≠ block.addr)) ∧ Frame heap after (before ++ block :: behind) := by
  let freed : Block := { block with used := false }
  -- The mark in memory is right already.
  have marked : heap.Shape heap.heapBrk (before ++ freed :: behind)
      (unusedAddrs before ++ unusedAddrs behind) (pending.filter (· ≠ block.addr)) := by
    have unmarked : heap.get block.addr .used = 0 := by simp [(shape.headers block mem_here).used, half]
    have := @Shape.setUsed _ _ _ _ _ _ _ (pending.filter (· ≠ block.addr)) shape false
      fun other member => by simp [shape.addr_ne member]
    rwa [if_neg (by simp), ← unmarked, set_get_used, unusedAddrs_append,
      unusedAddrs_cons_used used] at this
  have freedIn : freed ∈ before ++ freed :: behind := by simp
  obtain ⟨after, inserted, afterShape, frame⟩ := marked.insert freedIn rfl
    marked.unused_below marked.unused_above
  have relisted : unusedAddrs (before ++ freed :: behind) =
      unusedAddrs before ++ freed.addr :: unusedAddrs behind := by
    rw [unusedAddrs_append, unusedAddrs_cons_unused rfl]
  refine ⟨after, inserted, ?_, frame.unmark⟩
  rw [frame.heapBrk, relisted]
  exact afterShape

theorem Shape.listed (shape : heap.Shape heap.heapBrk (before ++ block :: behind)
    (unusedAddrs (before ++ block :: behind))) (used : block.used = true) :
    ∃ after, (heap.set block.addr .used 0).insertToFreeList block.addr = some after ∧
      after.Shape after.heapBrk (before ++ { block with used := false } :: behind)
        (unusedAddrs (before ++ { block with used := false } :: behind)) ∧
      Frame heap after (before ++ block :: behind) := by
  obtain ⟨after, inserted, listed, frame⟩ := (shape.half used).list used List.mem_cons_self
  rw [List.filter_cons_of_neg (by simp)] at listed
  exact ⟨after, inserted, listed, (shape.frame_set mem_here heap .used 0).trans frame fun _ => id⟩

theorem Holds.kfreeInsert (holds : heap.Holds (before ++ block :: behind) pending)
    (used : block.used = true) (half : block.addr ∈ pending)
    (clear : heap.nextBlock block.addr ∉ pending) :
    ∃ after blocks, heap.kfreeInsert block.addr = some after ∧
      after.Holds blocks (pending.filter (· ≠ block.addr)) ∧
      usedBlocks blocks = usedBlocks before ++ usedBlocks behind ∧
      Frame heap after (usedBlocks before ++ usedBlocks behind) := by
  obtain ⟨shape, paged⟩ := holds
  let freed : Block := { block with used := false }
  have freedIn : freed ∈ before ++ freed :: behind := by simp
  obtain ⟨listed, inserted, listedShape, frame⟩ := shape.list used half
  have listedHolds : listed.Holds (before ++ freed :: behind) (pending.filter (· ≠ block.addr)) :=
    ⟨listedShape, frame.heapBrk ▸ paged⟩
  -- The block is as large as before, and so the same block is behind it.
  have stillClear : listed.nextBlock freed.addr ∉ pending.filter (· ≠ block.addr) := by
    rw [listedShape.nextBlock freedIn]
    rw [shape.nextBlock mem_here] at clear
    exact fun member => clear (List.mem_filter.mp member).1
  obtain ⟨after, blocks, merged, afterHolds, same, later⟩ :=
    listedHolds.coalesceBlock rfl stillClear
  rw [usedBlocks_append, usedBlocks_cons_unused rfl] at same later
  refine ⟨after, blocks, ?_, afterHolds, same,
    (frame.mono fun _ => mem_of_used_around).trans later fun _ => id⟩
  rw [Heap.kfreeInsert, inserted]
  exact merged

/-- The first part of freeing a used block that the pointer leads to makes it pending, unless it is
pending already or not valid. -/
theorem Holds.kfreeMark (holds : heap.Holds (before ++ block :: behind) pending)
    (ready : heap.initialized = true) (used : block.used = true) {ptr : Nat} (nonnull : ptr ≠ 0)
    (found : heap.ptrToBlock ptr = block.addr) :
    (heap.validateBlock block.addr = false ∨ block.addr ∈ pending) ∧
        heap.kfreeMark ptr = (heap, none) ∨
      ∃ marked, block.addr ∉ pending ∧
      heap.kfreeMark ptr = (marked, some block.addr) ∧
      marked.Holds (before ++ block :: behind) (block.addr :: pending) ∧
      Frame heap marked (before ++ block :: behind) := by
  have isUsed := holds.shape.isUsed mem_here
  by_cases early : heap.validateBlock block.addr = false ∨ block.addr ∈ pending
  · refine .inl ⟨early, ?_⟩
    rcases early with invalid | half
    · simp [Heap.kfreeMark, ready, nonnull, found, invalid]
    · simp [Heap.kfreeMark, ready, nonnull, found, isUsed, half]
  · obtain ⟨valid, clear⟩ := not_or.mp early
    refine .inr ⟨_, clear, ?_, ⟨holds.shape.half used, holds.paged⟩,
      holds.shape.frame_set mem_here heap .used 0⟩
    simp [Heap.kfreeMark, ready, nonnull, found, valid, isUsed, used, clear]

/-- Freeing a pointer that leads to a used block takes that block alone from the used ones, unless
the block is not valid and nothing happens. -/
theorem Holds.kfree (holds : heap.Holds (before ++ block :: behind))
    (ready : heap.initialized = true) (used : block.used = true) {ptr : Nat} (nonnull : ptr ≠ 0)
    (found : heap.ptrToBlock ptr = block.addr) :
    heap.validateBlock block.addr = false ∧ heap.kfree ptr = some heap ∨
      ∃ after blocks, heap.kfree ptr = some after ∧ after.Holds blocks ∧
        usedBlocks blocks = usedBlocks before ++ usedBlocks behind ∧
        Keeps heap after (usedBlocks before ++ usedBlocks behind) := by
  rw [kfree_eq_parts]
  rcases holds.kfreeMark ready used nonnull found with
    ⟨invalid, early⟩ | ⟨marked, _, done, half, frame⟩
  · exact .inl ⟨invalid.resolve_right List.not_mem_nil, by rw [early]⟩
  -- The block behind does not start where the block itself does.
  have clear : marked.nextBlock block.addr ∉ [block.addr] := by
    have large := block.large
    rw [half.shape.nextBlock mem_here, List.mem_singleton]
    simp only [headerSize] at large
    omega
  obtain ⟨after, blocks, inserted, afterHolds, same, later⟩ :=
    half.kfreeInsert used List.mem_cons_self clear
  rw [List.filter_cons_of_neg (by simp)] at afterHolds
  exact .inr ⟨after, blocks, by rw [done]; exact inserted, afterHolds, same,
    ((frame.mono fun _ => mem_of_used_around).trans later fun _ => id).toKeeps⟩

end Free

end Heap

end Ccos
