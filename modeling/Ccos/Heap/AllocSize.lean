import Ccos.Heap.HeapRun

/-! The size of the block that an allocation hands out, for every size of 64 bits and also when the
split leaves a remainder that is too small for a header. -/

namespace Ccos

open Lib

theorem totalBlockSize_enough {size : Nat} (fits : SizeFits size) :
    size + headerSize ≤ totalBlockSize size := by
  rw [totalBlockSize_of_fits fits]
  simp only [heapAlign]
  omega

namespace Heap

variable {heap : Heap} {stop : Nat} {blocks before behind : List Block} {free : List Nat}
  {block : Block}

section Overlap

variable {node addr : Nat}

theorem size_set_link {value : Nat} {link : HeaderField} (isLink : 8 ≤ link.offset)
    (apart : node + noteOffset ≤ addr ∨ addr ≤ node) :
    (heap.set node link value).get addr .size = heap.get addr .size := by
  have inside := field_le_note link
  apply ByteMem.load_store_apart
  simp only [HeaderField.offset, HeaderField.width] at *
  omega

theorem size_link {prev next : Nat} (here : addr ≤ node)
    (below : prev ≠ 0 → prev + noteOffset ≤ addr) (above : next ≠ 0 → addr ≤ next) :
    (heap.link node prev next).get addr .size = heap.get addr .size := by
  have forth (middle : Heap) :
      (middle.linkNext prev node).get addr .size = middle.get addr .size := by
    unfold linkNext
    split
    · exact size_set_link (by decide) (.inl (below ‹_›))
    · rfl
  have back (middle : Heap) :
      (middle.linkPrev next node).get addr .size = middle.get addr .size := by
    unfold linkPrev
    split
    · exact size_set_link (by decide) (.inr (above ‹_›))
    · rfl
  rw [link, forth, size_set_link (by decide) (.inr here), back,
    size_set_link (by decide) (.inr here)]

variable {remaining needed : Nat}

/-- The new header is as it was initialised, also if it overlaps the header of the block. -/
theorem get_cutBlock_new (small : remaining < 2 ^ 64) {field : HeaderField}
    (other : field ≠ .size) :
    (heap.cutBlock addr needed (addr + needed) remaining).get (addr + needed) field =
      freshField remaining field := by
  -- The size of the block is written before every other field of the new header.
  have behind : 8 ≤ field.offset := by
    cases field with
    | size => exact absurd rfl other
    | used => decide
    | prev => decide
    | next => decide
    | magic => decide
  rw [← get_initBlock_same small]
  apply ByteMem.load_store_apart
  simp only [HeaderField.width, HeaderField.offset] at *
  omega

theorem frame_link_bounds (node prev next : Nat) : Frame heap (heap.link node prev next) [] := by
  unfold link linkNext linkPrev
  refine ⟨⟨by simp, ?_, ?_, ?_⟩, ?_⟩
  all_goals split <;> split <;> rfl

/-- In a heap that differs only from the start of a block to shortly behind it, and not in the links
of unused blocks, the walk for an address inside the block finds the unused blocks around it. -/
theorem Shape.walkBefore_inside {middle : Heap}
    (shape : heap.Shape stop (before ++ block :: behind) (unusedAddrs before ++ unusedAddrs behind))
    (outside : ∀ place, place < block.addr ∨ block.addr + block.size + 16 ≤ place →
      middle.mem place = heap.mem place) (head : middle.freeList = heap.freeList)
    (low : block.addr ≤ addr) (high : addr < block.addr + block.size) :
    ∃ prev next, middle.walkBefore addr walkLimit 0 middle.freeList = some (prev, next) ∧
      (prev ≠ 0 → prev + headerSize ≤ block.addr) ∧
      (next ≠ 0 → block.addr + block.size ≤ next) := by
  have ends := shape.unused_ends
  have starts := shape.unused_starts
  -- The links are behind the first two fields of a header.
  have kept {node : Nat} (isNode : node ∈ unusedAddrs before ++ unusedAddrs behind)
      {link : HeaderField} (isLink : 16 ≤ link.offset) :
      middle.get node link = heap.get node link := by
    have inside := field_le_note link
    have := noteOffset_le
    apply ByteMem.load_congr
    grind
  obtain ⟨last, linked⟩ := shape.linked
  have relinked : Linked (middle.get · .prev) (middle.get · .next) 0 middle.freeList
      (unusedAddrs before ++ unusedAddrs behind) last 0 := by
    rw [head]
    exact linked.congr fun node isNode => ⟨kept isNode (by decide), kept isNode (by decide)⟩
  obtain ⟨prev, next, left, right⟩ := Linked.append.mp relinked
  have above : next ≠ 0 → block.addr + block.size ≤ next := by
    intro nonzero
    exact starts next (right.first_mem.resolve_left fun empty => nonzero empty.2)
  refine ⟨prev, next, ?_, ?_, above⟩
  · apply walkBefore_linked left
    · intro node isNode
      have := ends node isNode
      simp only [headerSize] at this
      omega
    · grind
    · have := shape.free_length
      rw [List.length_append] at this
      omega
  · intro nonzero
    exact ends prev (left.last_mem.resolve_left fun empty => nonzero empty.2)

theorem Shape.splitBlock_size
    (shape : heap.Shape stop (before ++ block :: behind) (unusedAddrs before ++ unusedAddrs behind))
    (fits : needed ≤ block.size) :
    ∃ after, heap.splitBlock block.addr needed = some after ∧ Frame heap after [] ∧
      needed ≤ after.get block.addr .size ∧ after.get block.addr .size ≤ block.size := by
  have bounds := shape.bounds mem_here
  rw [shape.splitBlock_eq fits]
  by_cases cuts : heapMinBlock ≤ block.size - needed
  swap
  · refine ⟨heap, if_neg cuts, .refl _ _, ?_⟩
    rw [shape.size block mem_here]
    exact ⟨fits, Nat.le_refl _⟩
  rw [if_pos cuts]
  have room : needed + 32 ≤ block.size := by
    simp only [heapMinBlock] at cuts
    omega
  have fresh {field : HeaderField} (other : field ≠ .size) :
      (heap.cutBlock block.addr needed (block.addr + needed) (block.size - needed)).get
        (block.addr + needed) field = freshField (block.size - needed) field :=
    get_cutBlock_new (by omega) other
  have size : (heap.cutBlock block.addr needed (block.addr + needed) (block.size - needed)).get
      block.addr .size = needed := by
    rw [cutBlock, get_set (.inl rfl), if_pos ⟨rfl, rfl⟩]
    exact Nat.mod_eq_of_lt (show needed < 2 ^ 64 by omega)
  have same : Frame heap
      (heap.cutBlock block.addr needed (block.addr + needed) (block.size - needed)) [] :=
    ⟨⟨by simp, rfl, rfl, rfl⟩, rfl⟩
  -- The new header may reach over the first bytes of the block behind, but not over its links.
  have outside (place : Nat) (away : place < block.addr ∨ block.addr + block.size + 16 ≤ place) :
      (heap.cutBlock block.addr needed (block.addr + needed) (block.size - needed)).mem place =
        heap.mem place := by
    have note : noteOffset = 40 := rfl
    rw [cutBlock, set_outside (by omega), initBlock_outside (by omega)]
  obtain ⟨prev, next, walked, below, above⟩ := shape.walkBefore_inside outside rfl
    (Nat.le_add_right block.addr needed) (by omega)
  generalize heap.cutBlock block.addr needed (block.addr + needed) (block.size - needed) = middle
    at fresh size same outside walked ⊢
  refine ⟨middle.link (block.addr + needed) prev next, ?_,
    same.trans (frame_link_bounds _ _ _) fun _ => id, ?_⟩
  · have unmarked : middle.get (block.addr + needed) .used = 0 := fresh (by decide)
    have notUsed : middle.isUsed (block.addr + needed) = false := by
      simp [Heap.isUsed, unmarked]
    have noPrev : middle.get (block.addr + needed) .prev = 0 := fresh (by decide)
    have noNext : middle.get (block.addr + needed) .next = 0 := fresh (by decide)
    rw [insertToFreeList, if_neg (by simp [notUsed, noPrev, noNext]), walked]
    rfl
  · have read : (middle.link (block.addr + needed) prev next).get block.addr .size = needed := by
      rw [size_link (by omega) _ _, size]
      · intro nonzero
        exact (Nat.add_le_add_left noteOffset_le prev).trans (below nonzero)
      grind
    rw [read]
    omega

end Overlap

variable {after : Heap} {vmm : Vmm} {ptr size : Nat}

/-- For every size, an allocation returns, keeps the limit of the heap and moves the break by the
mapped pages at most. It yields null, or a pointer behind the header of a block that has at least the
computed size, and less than the address space by a page; this is the best block, if one fits. -/
theorem Holds.kmalloc_outcome (holds : heap.Holds blocks)
    (below : heap.ExpandsTo vmm (totalBlockSize size) (· ≠ 2 ^ 64)) :
    ∃ ptr after, heap.kmalloc vmm size = some (ptr, after) ∧
      (∀ p : Nat → Prop, p heap.heapBrk → heap.ExpandsTo vmm (totalBlockSize size) p →
        p after.heapBrk) ∧ after.heapEnd = heap.heapEnd ∧
      (ptr = 0 ∨ headerSize ≤ ptr ∧ totalBlockSize size ≤ after.get (ptr - headerSize) .size ∧
        after.get (ptr - headerSize) .size + pageSize ≤ 2 ^ 64) ∧
      (heap.initialized = true → size ≠ 0 → (∃ block, BestBlock blocks (totalBlockSize size) block ∧
          ptr = block.addr + headerSize ∧ after.heapBrk = heap.heapBrk) ∨
        (∀ block ∈ blocks, block.used = false → block.size < totalBlockSize size) ∧
        (ptr = 0 → totalBlockSize size ≤ expandPages (totalBlockSize size) * pageSize →
          vmm.allocPagesAt heap.heapBrk (expandPages (totalBlockSize size)) heap.mem = none)) := by
  by_cases idle : heap.initialized = false ∨ size = 0
  · refine ⟨0, heap, ?_, fun p here _ => here, rfl, .inl rfl, fun ready nonempty => ?_⟩
    · rcases idle with off | empty
      · rw [Heap.kmalloc, off, if_pos (by simp)]
      · simp [Heap.kmalloc, empty]
    · simp [ready, nonempty] at idle
  obtain ⟨off, nonempty⟩ := not_or.mp idle
  have ready : heap.initialized = true := Bool.not_eq_false _ ▸ off
  obtain ⟨addr, middle, _, chosen, middleHolds, _, keeps, grown, outcome, best⟩ :=
    holds.chooseBlock vmm _ below
  have served := kmalloc_chosen ready nonempty chosen
  by_cases zero : addr = 0
  · refine ⟨0, middle, served.trans (if_pos zero), grown, keeps.heapEnd, .inl rfl, fun _ _ => ?_⟩
    refine .inr ((best.resolve_left ?_).imp_right fun least _ => least zero)
    rintro ⟨block, isBest, rfl, _⟩
    exact (Nat.ne_of_gt (holds.shape.bounds isBest.inside).1) zero
  obtain ⟨before, block, behind, rfl, rfl, unused, fits, _⟩ := outcome.resolve_left zero
  -- The block is unlinked, cut and marked; none of this makes it larger than it was.
  have shape := middleHolds.shape
  have here : block ∈ before ++ block :: behind := by simp
  have removed := shape.removed here unused
  rw [unusedAddrs_append, unusedAddrs_cons_unused unused] at shape
  obtain ⟨prevBlock, nextBlock⟩ := shape.neighbour_blocks
  have unlinked := shape.frame_unlink here prevBlock nextBlock
  obtain ⟨split, cut, later, enough, most⟩ := (shape.unlink here).splitBlock_size fits
  rw [if_neg zero, removed, Option.bind_some, cut, Option.bind_some] at served
  have read : (split.set block.addr .used 1).get block.addr .size = split.get block.addr .size := by
    rw [get_set (.inl rfl), if_neg (by simp)]
  have brk : (split.set block.addr .used 1).heapBrk = middle.heapBrk :=
    later.heapBrk.trans unlinked.heapBrk
  have limit : (split.set block.addr .used 1).heapEnd = middle.heapEnd :=
    later.heapEnd.trans unlinked.heapEnd
  refine ⟨_, _, served, fun p first expands => brk ▸ grown p first expands,
    limit.trans keeps.heapEnd, .inr ?_, fun _ _ => ?_⟩
  · have bounds := shape.bounds here
    have paged := middleHolds.paged
    have small := shape.stop_lt
    rw [Nat.add_sub_cancel, read]
    simp only [pageSize, pageShift] at paged ⊢
    omega
  · rcases best with ⟨isBest, best, same, rfl⟩ | ⟨less, _⟩
    · exact .inl ⟨isBest, best, by rw [same], brk⟩
    · exact .inr ⟨less, fun null => absurd null (by simp [headerSize])⟩

/-- A size that fits and was served also rounds to pages. -/
theorem Holds.rounds_of_served (holds : heap.Holds blocks) (fits : SizeFits size)
    (below : heap.ExpandsTo vmm (totalBlockSize size) (· ≠ 2 ^ 64))
    (done : heap.kmalloc vmm size = some (ptr, after)) (nonnull : ptr ≠ 0) : Rounds size := by
  obtain ⟨_, _, made, _, _, outcome, _⟩ := holds.kmalloc_outcome below
  cases done.symm.trans made
  obtain ⟨_, enough, bounded⟩ := outcome.resolve_left nonnull
  rw [totalBlockSize_of_fits fits] at enough
  unfold Rounds
  omega

end Heap

open Heap

/-- For every size of 64 bits, a block that was handed out has room for it exactly if rounding the
size up and adding the header did not wrap. -/
theorem kmalloc_serves_iff {heap after : Heap} {blocks : List Block} {vmm : Vmm} {size ptr : Nat}
    (holds : heap.Holds blocks) (word : size < 2 ^ 64)
    (below : heap.ExpandsTo vmm (totalBlockSize size) (· ≠ 2 ^ 64))
    (done : heap.kmalloc vmm size = some (ptr, after)) (nonnull : ptr ≠ 0) :
    ptr + size ≤ (ptr - headerSize) + after.get (ptr - headerSize) .size ↔ SizeFits size := by
  obtain ⟨_, _, made, _, _, outcome, _⟩ := holds.kmalloc_outcome below
  cases done.symm.trans made
  obtain ⟨header, enough, bounded⟩ := outcome.resolve_left nonnull
  constructor
  · intro serves
    by_contra wraps
    -- A size that wraps is larger than any block can be.
    simp only [SizeFits, heapAlign, headerSize, pageSize, pageShift] at *
    omega
  · intro fits
    have := totalBlockSize_enough fits
    omega

/-- A request for all but one byte of the address space gets a block that is all header. -/
theorem kmalloc_serves_nothing :
    ∃ heap after block, blankHeap.init zeroVmm = some (true, heap) ∧ heap.Holds [block] ∧
      heap.kmalloc zeroVmm (2 ^ 64 - 1) = some (kernelHeapBase + 48, after) ∧
      after.get kernelHeapBase .size = headerSize ∧
      ¬kernelHeapBase + 48 + (2 ^ 64 - 1) ≤ kernelHeapBase + after.get kernelHeapBase .size := by
  obtain ⟨heap, ptr, after, booted, given, pointer, size⟩ := booted_call
    (·.kmalloc zeroVmm (2 ^ 64 - 1))
    (fun _ ptr after => ptr = kernelHeapBase + 48 ∧ after.get kernelHeapBase .size = headerSize)
    (by decide +kernel)
  obtain ⟨_, _, block, holds, _⟩ := init_holds rfl booted
  subst pointer
  refine ⟨heap, after, block, booted, holds, given, size, ?_⟩
  rw [size]
  simp only [kernelHeapBase, headerSize]
  omega

/-- What a best-fit allocation is for: it yields null only if no unused block fits and no more pages
can be mapped, and while a block fits it takes the best one and leaves the break alone. -/
structure BestFit (heap after : Heap) (vmm : Vmm) (blocks : List Block) (size ptr : Nat) : Prop where
  null : ptr = 0 → (∀ block ∈ blocks, block.used = false → block.size < totalBlockSize size) ∧
    vmm.allocPagesAt heap.heapBrk (expandPages (totalBlockSize size)) heap.mem = none
  best : (∃ block ∈ blocks, block.used = false ∧ totalBlockSize size ≤ block.size) →
    ∃ block, BestBlock blocks (totalBlockSize size) block ∧ ptr = block.addr + headerSize ∧
      after.heapBrk = heap.heapBrk

theorem Rounds.enough_pages {size : Nat} (rounds : Rounds size) :
    totalBlockSize size ≤ expandPages (totalBlockSize size) * pageSize := by
  obtain ⟨_, _, small⟩ := totalBlockSize_bounds rounds
  generalize totalBlockSize size = total at small ⊢
  have word : total + pageSize - 1 < 2 ^ 64 := by
    simp only [pageSize, pageShift] at small ⊢
    omega
  rw [expandPages, wrap64_of_lt word]
  split
  all_goals
    simp only [pageSize, pageShift] at *
    omega

/-- An allocation whose block size does not wrap is a best-fit one exactly if rounding the block size
to pages does not wrap either or no pages can be mapped. -/
theorem kmalloc_bestFit_iff {heap : Heap} {blocks : List Block} {vmm : Vmm} {size : Nat}
    (holds : heap.Holds blocks) (ready : heap.initialized = true) (positive : 0 < size)
    (fits : SizeFits size) (below : heap.ExpandsTo vmm (totalBlockSize size) (· ≠ 2 ^ 64)) :
    (∃ ptr after, heap.kmalloc vmm size = some (ptr, after) ∧
      BestFit heap after vmm blocks size ptr) ↔
      Rounds size ∨
        vmm.allocPagesAt heap.heapBrk (expandPages (totalBlockSize size)) heap.mem = none := by
  constructor
  · rintro ⟨ptr, after, done, fit⟩
    by_cases null : ptr = 0
    · exact .inr (fit.null null).2
    · exact .inl (holds.rounds_of_served fits below done null)
  · intro met
    obtain ⟨ptr, after, done, _, _, _, outcome⟩ := holds.kmalloc_outcome below
    refine ⟨ptr, after, done, ?_⟩
    rcases outcome ready (Nat.ne_of_gt positive) with ⟨block, best, pointer, brk⟩ | ⟨less, refused⟩
    · refine ⟨fun null => ?_, fun _ => ⟨block, best, pointer, brk⟩⟩
      simp only [headerSize] at pointer
      omega
    · refine ⟨fun null => ⟨less, ?_⟩, ?_⟩
      · rcases met with rounds | none
        · exact refused null rounds.enough_pages
        · exact none
      · -- A block that fits would be smaller than needed.
        rintro ⟨block, inside, unused, large⟩
        exact absurd large (Nat.not_le_of_lt (less block inside unused))

/-- After the boot, a hundred bytes come from the only block. -/
theorem kmalloc_bestFit_boot :
    ∃ heap block, blankHeap.init zeroVmm = some (true, heap) ∧ heap.Holds [block] ∧
      ∃ ptr after, heap.kmalloc zeroVmm 100 = some (ptr, after) ∧
        BestFit heap after zeroVmm [block] 100 ptr := by
  obtain ⟨heap, _, _, booted, _, below⟩ := booted_call (·.kmalloc zeroVmm 100)
    (fun heap _ _ => heap.ExpandsTo zeroVmm (totalBlockSize 100) (· ≠ 2 ^ 64)) (by decide +kernel)
  obtain ⟨ready, _, block, holds, _⟩ := init_holds rfl booted
  exact ⟨heap, block, booted, holds,
    (kmalloc_bestFit_iff holds ready (by decide) (by decide) below).mpr (.inl (by decide))⟩

/-- A request whose block size is a multiple of pages short of the address space maps four pages and
yields null. -/
theorem kmalloc_bestFit_wraps :
    ∃ heap after, blankHeap.init zeroVmm = some (true, heap) ∧ SizeFits (2 ^ 64 - 64) ∧
      heap.kmalloc zeroVmm (2 ^ 64 - 64) = some (0, after) ∧
      (zeroVmm.allocPagesAt heap.heapBrk (expandPages (totalBlockSize (2 ^ 64 - 64)))
        heap.mem).isSome ∧ after.heapBrk = heap.heapBrk + 4 * pageSize := by
  obtain ⟨heap, ptr, after, booted, given, rfl, mapped, moved⟩ := booted_call
    (·.kmalloc zeroVmm (2 ^ 64 - 64))
    (fun heap ptr after => ptr = 0 ∧ (zeroVmm.allocPagesAt heap.heapBrk
      (expandPages (totalBlockSize (2 ^ 64 - 64))) heap.mem).isSome ∧
      after.heapBrk = heap.heapBrk + 4 * pageSize) (by decide +kernel)
  exact ⟨heap, after, booted, by decide, given, mapped, moved⟩

/-- A request for a hundred bytes is served. -/
theorem kmalloc_serves_hundred :
    ∃ heap after block, blankHeap.init zeroVmm = some (true, heap) ∧ heap.Holds [block] ∧
      heap.kmalloc zeroVmm 100 = some (kernelHeapBase + 48, after) ∧ SizeFits 100 ∧
      kernelHeapBase + 48 + 100 ≤ kernelHeapBase + 48 - headerSize +
        after.get (kernelHeapBase + 48 - headerSize) .size := by
  obtain ⟨heap, ptr, after, booted, given, pointer, below⟩ := booted_call
    (·.kmalloc zeroVmm 100)
    (fun heap ptr _ => ptr = kernelHeapBase + 48 ∧
      heap.ExpandsTo zeroVmm (totalBlockSize 100) (· ≠ 2 ^ 64))
    (by decide +kernel)
  obtain ⟨_, _, block, holds, _⟩ := init_holds rfl booted
  subst pointer
  have fits : SizeFits 100 := by decide
  exact ⟨heap, after, block, booted, holds, given, fits,
    (kmalloc_serves_iff holds (by decide) below given (by decide)).mpr fits⟩

end Ccos
