import Ccos.Heap.AllocSize
import Ccos.Heap.Release

/-! The heap region: how far the break may move, and that what was handed out inside the region is
really freed later. -/

namespace Ccos

open Lib

theorem dvd_usedAlignment {alignment : Nat} (nonzero : alignment ≠ 0)
    (power : alignment &&& (alignment - 1) = 0) : alignment ∣ usedAlignment alignment := by
  obtain ⟨k, rfl⟩ := (Nat.and_sub_one_eq_zero_iff_isPowerOfTwo nonzero).mp power
  unfold usedAlignment
  split
  · rename_i less
    -- A smaller power of two divides sixteen.
    have few : k ≤ 4 := by
      have below : 2 ^ k < 2 ^ 4 := less
      exact Nat.le_of_lt ((Nat.pow_lt_pow_iff_right (by decide)).mp below)
    exact Nat.pow_dvd_pow 2 few
  · exact Nat.dvd_refl _

namespace Heap

variable {heap after : Heap} {blocks : List Block} {vmm : Vmm} {size alignment ptr : Nat}

theorem Holds.kmallocAligned_rounds (holds : heap.Holds blocks) (ready : heap.initialized = true)
    (fits : SizeFits size) (fitsTotal : SizeFits (alignedTotal size alignment))
    (safe : heap.AllocSafe vmm (alignedTotal size alignment))
    (done : heap.kmallocAligned vmm size alignment = some (ptr, after)) (nonnull : ptr ≠ 0) :
    alignment ≠ 0 ∧ alignment &&& (alignment - 1) = 0 ∧ Rounds size ∧
      Rounds (alignedTotal size alignment) := by
  have null {result : Heap}
      (returned : heap.kmallocAligned vmm size alignment = some (0, result)) : False := by
    grind
  have nonempty : size ≠ 0 := by
    intro empty
    have returned : heap.kmallocAligned vmm size alignment = some (0, heap) := by
      simp [Heap.kmallocAligned, ready, empty]
    exact null returned
  have valid : ¬(alignment = 0 ∨ alignment &&& (alignment - 1) ≠ 0) := by
    intro odd
    have returned : heap.kmallocAligned vmm size alignment = some (0, heap) := by
      simp only [Heap.kmallocAligned, ready, Bool.not_true, Bool.false_eq_true, if_false,
        if_neg nonempty, if_pos odd]
    exact null returned
  obtain ⟨nonzero, power⟩ := not_or.mp valid
  have small : alignedTotal size alignment < 2 ^ 64 := by
    simp only [SizeFits, heapAlign, headerSize] at fitsTotal
    omega
  have noWrap : wrap64 (totalBlockSize size + usedAlignment alignment + 8) =
      alignedTotal size alignment := wrap64_of_lt small
  -- The padded size was served.
  have roundsTotal : Rounds (alignedTotal size alignment) := by
    cases made : heap.kmalloc vmm (alignedTotal size alignment) with
    | none =>
      have failed : heap.kmallocAligned vmm size alignment = none := by
        rw [Heap.kmallocAligned, ready, if_neg (by simp), if_neg nonempty, if_neg valid]
        simp only [noWrap]
        rw [made]
        rfl
      rw [done] at failed
      cases failed
    | some given =>
      obtain ⟨raw, middle⟩ := given
      have rawNonnull : raw ≠ 0 := by
        intro isNull
        have returned : heap.kmallocAligned vmm size alignment = some (0, middle) := by
          rw [Heap.kmallocAligned, ready, if_neg (by simp), if_neg nonempty, if_neg valid]
          grind
        exact null returned
      exact holds.rounds_of_served fitsTotal safe.2 made rawNonnull
  refine ⟨nonzero, not_not.mp power, ?_, roundsTotal⟩
  -- The padded size holds the block size.
  simp only [Rounds, alignedTotal, totalBlockSize_of_fits fits, heapAlign, headerSize]
    at roundsTotal ⊢
  omega

end Heap

namespace HeapSession

variable {session after : HeapSession} {action : HeapAction} {a : Allocation}

section Inside

/-- An allocation, a free or a write, where an allocation that expands the heap stays inside the
heap region. -/
def InRegion (session : HeapSession) : HeapAction → Prop
  | .kmalloc vmm size => size ≠ 0 →
    session.heap.ExpandsTo vmm (totalBlockSize size) (· ≤ session.heap.heapEnd)
  | .kfree _ => True
  | .write _ _ => True
  | _ => False

instance (session : HeapSession) (action : HeapAction) : Decidable (session.InRegion action) :=
  match action with
  | .kmalloc .. => inferInstanceAs (Decidable (_ → _))
  | .kfree _ | .write .. => inferInstanceAs (Decidable True)
  | .krealloc .. | .kmallocAligned .. => inferInstanceAs (Decidable False)

/-- A safe action that stays inside the heap region. -/
@[grind =]
def RegionStep (session : HeapSession) (action : HeapAction) (after : HeapSession) : Prop :=
  SafeStep session action after ∧ session.InRegion action

/-- A live pointer that leads to its block frees exactly that block, while the break is inside the
heap region. -/
theorem Inv.frees {heap : Heap} {live : List Allocation} (inv : Inv heap live)
    (inside : heap.heapBrk ≤ heap.heapEnd) (member : a ∈ live) (found : heap.Found a) :
    heap.validateBlock (heap.ptrToBlock a.ptr) = true ∧
      ∃ before block behind freed, block.addr = a.block ∧ block.used = true ∧
        heap.Holds (before ++ block :: behind) ∧ heap.kfree a.ptr = some freed ∧
        freed.Holds (released before block behind) ∧
        heap.Frame freed (before ++ block :: behind) := by
  obtain ⟨blocks, block, holds, isBlock, isUsed, inBlock⟩ := inv.home member
  have back := holds.ptrToBlock isBlock inBlock found
  have bounds := holds.shape.bounds isBlock
  constructor
  · rw [back]
    apply (holds.shape.validateBlock_iff isBlock).mpr
    omega
  · obtain ⟨before, behind, split⟩ := List.append_of_mem isBlock
    subst split
    obtain ⟨freed, done, shape, frame⟩ := holds.shape.kfree inv.ready inside isUsed back
    exact ⟨before, block, behind, freed, inBlock.addr.symm, isUsed, holds, done,
      ⟨shape, frame.heapBrk ▸ holds.paged⟩, frame⟩

theorem RegionStep.inside (step : RegionStep session action after)
    (inv : Inv session.heap session.live) (inside : session.heap.heapBrk ≤ session.heap.heapEnd) :
    after.heap.heapBrk ≤ after.heap.heapEnd := by
  obtain ⟨⟨⟨allowed, safe⟩, done⟩, region⟩ := step
  cases action with
  | kmalloc vmm size =>
    obtain ⟨⟨ptr, heap⟩, made, result⟩ := Option.bind_eq_some_iff.mp done
    have same := Option.some.inj result
    subst same
    by_cases empty : size = 0
    · -- Nothing is asked for, so that nothing changes.
      have null : session.heap.kmalloc vmm size = some (0, session.heap) := by
        simp [Heap.kmalloc, inv.ready, empty]
      grind
    · obtain ⟨blocks, holds, _⟩ := inv.placed
      obtain ⟨_, _, returned, grown, limit, _⟩ := holds.kmalloc_outcome (safe empty).2
      cases made.symm.trans returned
      show heap.heapBrk ≤ heap.heapEnd
      rw [limit]
      exact grown (· ≤ session.heap.heapEnd) inside (region empty)
  | kfree ptr =>
    obtain ⟨heap, made, result⟩ := Option.bind_eq_some_iff.mp done
    have same := Option.some.inj result
    subst same
    rcases allowed with null | ⟨a, member, pointer⟩
    · have unchanged : session.heap.kfree ptr = some session.heap := by
        simp [Heap.kfree, null]
      grind
    · subst pointer
      obtain ⟨_, _, _, _, freed, _, _, _, freeing, _, frame⟩ :=
        inv.frees inside member (safe a member rfl)
      rw [← Option.some.inj (freeing.symm.trans made)]
      show freed.heapBrk ≤ freed.heapEnd
      rw [frame.heapBrk, frame.heapEnd]
      exact inside
  | write addr byte =>
    have same := Option.some.inj done
    subst same
    exact inside
  | krealloc vmm ptr newSize => exact region.elim
  | kmallocAligned vmm size alignment => exact region.elim

end Inside

section Spared

/-- An action that neither frees nor resizes a pointer. -/
def Spares (ptr : Nat) : HeapAction → Prop
  | .kfree other => other ≠ ptr
  | .krealloc _ other _ => other ≠ ptr
  | _ => True

/-- A safe action that neither frees nor resizes a pointer. -/
@[grind =] def SparingStep (ptr : Nat) (session : HeapSession) (action : HeapAction)
    (after : HeapSession) : Prop :=
  SafeStep session action after ∧ Spares ptr action

theorem Spares.live (spared : Spares a.ptr action) (member : a ∈ session.live)
    (done : session.perform action = some after) : a ∈ after.live := by
  have adopted (new : Allocation) : a ∈ adoptPtr new session.live := by
    unfold adoptPtr
    grind
  have dropped {ptr : Nat} (other : ptr ≠ a.ptr) : a ∈ dropPtr ptr session.live :=
    List.mem_filter.mpr ⟨member, decide_eq_true other.symm⟩
  cases action with
  | kmalloc vmm size =>
    obtain ⟨_, _, result⟩ := Option.bind_eq_some_iff.mp done
    rw [← Option.some.inj result]
    exact adopted _
  | kmallocAligned vmm size alignment =>
    obtain ⟨_, _, result⟩ := Option.bind_eq_some_iff.mp done
    rw [← Option.some.inj result]
    exact adopted _
  | kfree ptr =>
    obtain ⟨_, _, result⟩ := Option.bind_eq_some_iff.mp done
    rw [← Option.some.inj result]
    exact dropped spared
  | write addr byte =>
    rw [← Option.some.inj done]
    exact member
  | krealloc vmm ptr newSize =>
    obtain ⟨⟨newPtr, heap⟩, _, result⟩ := Option.bind_eq_some_iff.mp done
    rw [← Option.some.inj result]
    show a ∈ resizePtr ptr newPtr newSize session.live
    unfold resizePtr
    split
    · exact dropped spared
    split
    · exact member
    split
    · -- The allocation at another pointer is not resized.
      apply List.mem_map.mpr
      exact ⟨a, member, if_neg (Ne.symm spared)⟩
    · exact List.mem_cons_of_mem _ (dropped spared)

theorem SparingStep.run {actions : List HeapAction} {last : HeapSession}
    (run : Run (SparingStep a.ptr) session actions last) (inv : Inv session.heap session.live)
    (member : a ∈ session.live) :
    Inv last.heap last.live ∧ a ∈ last.live ∧
      last.heap.get a.block .size = session.heap.get a.block .size := by
  apply run.preserves (fun current => Inv current.heap current.live ∧ a ∈ current.live ∧
    current.heap.get a.block .size = session.heap.get a.block .size)
  · intro current action next step kept
    obtain ⟨⟨⟨allowed, safe⟩, done⟩, spared⟩ := step
    obtain ⟨invCurrent, isLive, size⟩ := kept
    obtain ⟨invNext, carried⟩ := invCurrent.step allowed safe done
    have stays := spared.live isLive done
    exact ⟨invNext, stays, (carried a isLive a stays rfl).2.size.trans size⟩
  · exact ⟨inv, member, rfl⟩

end Spared

end HeapSession

open HeapSession

/-- While every expansion stays inside the heap region, the break never leaves it, and every live
pointer that leads to its block is valid and frees exactly that block. -/
theorem heap_runs_inside {start heap : Heap} {vmm : Vmm} {actions : List HeapAction}
    {last : HeapSession} (fresh : start.initialized = false)
    (booted : start.init vmm = some (true, heap))
    (run : Run RegionStep ⟨heap, []⟩ actions last) :
    last.heap.heapBrk ≤ last.heap.heapEnd ∧
      ∀ a ∈ last.live, last.heap.Found a →
        last.heap.validateBlock (last.heap.ptrToBlock a.ptr) = true ∧
        ∃ before block behind freed, block.addr = a.block ∧ block.used = true ∧
          last.heap.Holds (before ++ block :: behind) ∧ last.heap.kfree a.ptr = some freed ∧
          freed.Holds (released before block behind) ∧
          last.heap.Frame freed (before ++ block :: behind) := by
  -- Every step keeps the invariant and the break inside.
  have kept : Inv last.heap last.live ∧ last.heap.heapBrk ≤ last.heap.heapEnd := by
    apply run.preserves (fun current => Inv current.heap current.live ∧
      current.heap.heapBrk ≤ current.heap.heapEnd)
    · intro current action next step both
      obtain ⟨inv, currentInside⟩ := both
      have nextInside := step.inside inv currentInside
      obtain ⟨⟨⟨allowed, safe⟩, done⟩, _⟩ := step
      exact ⟨(inv.step allowed safe done).1, nextInside⟩
    · exact ⟨.booted fresh booted, (Heap.init_holds fresh booted).2.1⟩
  exact ⟨kept.2, fun a member found => kept.1.frees kept.2 member found⟩

/-- A plain allocation in the initial heap frees exactly its block. -/
theorem heap_runs_inside_plain :
    ∃ heap last, blankHeap.init zeroVmm = some (true, heap) ∧
      Run RegionStep ⟨heap, []⟩
        [.kmalloc zeroVmm 100, .kmalloc zeroVmm 100000, .kfree (kernelHeapBase + 48)] last ∧
      ∃ a ∈ last.live, last.heap.heapBrk ≤ last.heap.heapEnd ∧
        last.heap.validateBlock (last.heap.ptrToBlock a.ptr) = true := by
  apply booted_run _ (fun last => ∃ a ∈ last.live, last.heap.Found a)
    (fun session action => (session.Allowed action ∧ session.Safe action) ∧
      session.InRegion action)
    (fun _ _ _ met done => ⟨⟨met.1, done⟩, met.2⟩) (by decide +kernel)
  intro heap last booted run ⟨a, member, found⟩
  obtain ⟨inside, frees⟩ := heap_runs_inside rfl booted run
  grind

/-- A single allocation of the size of the heap region moves the break beyond it, and what was
handed out cannot be freed. -/
theorem heap_runs_beyond :
    ∃ heap last, blankHeap.init zeroVmm = some (true, heap) ∧
      Run SafeStep ⟨heap, []⟩ [.kmalloc zeroVmm (128 * 1024 * 1024)] last ∧
      last.live = [⟨kernelHeapBase + 48, 128 * 1024 * 1024, kernelHeapBase⟩] ∧
      last.heap.heapEnd < last.heap.heapBrk ∧
      last.heap.ptrToBlock (kernelHeapBase + 48) = kernelHeapBase ∧
      last.heap.validateBlock kernelHeapBase = false ∧
      last.heap.kfree (kernelHeapBase + 48) = some last.heap := by
  apply booted_safeRun _
    (fun last => last.live = [⟨kernelHeapBase + 48, 128 * 1024 * 1024, kernelHeapBase⟩] ∧
      last.heap.heapEnd < last.heap.heapBrk ∧
      last.heap.ptrToBlock (kernelHeapBase + 48) = kernelHeapBase ∧
      last.heap.validateBlock kernelHeapBase = false)
    (by decide +kernel)
  intro heap last _ _ ⟨live, beyond, back, invalid⟩
  refine ⟨live, beyond, back, invalid, ?_⟩
  unfold Heap.kfree
  simp [back, invalid]

/-- A pointer from an aligned allocation is a multiple of the alignment and has its bytes inside the
one block that was allocated for it. Whatever other calls and writes follow, freeing it releases
exactly that block if and only if the block ends inside the heap region. -/
theorem kmallocAligned_released {session : HeapSession} {blocks : List Block} {vmm : Vmm}
    {size alignment ptr : Nat} {after : Heap} (ready : session.heap.initialized = true)
    (wellFormed : session.WellFormed blocks) (fits : SizeFits size)
    (fitsTotal : SizeFits (alignedTotal size alignment))
    (safe : session.heap.AllocSafe vmm (alignedTotal size alignment))
    (done : session.heap.kmallocAligned vmm size alignment = some (ptr, after))
    (nonnull : ptr ≠ 0) :
    ptr % alignment = 0 ∧ ∃ block blocks', after.Holds blocks' ∧
      (∃ left right, usedBlocks blocks = left ++ right ∧
        usedBlocks blocks' = left ++ block :: right) ∧
      block.addr + headerSize ≤ ptr ∧ ptr + size ≤ block.addr + block.size ∧
      ∀ actions last,
        Run (SparingStep ptr) ⟨after, ⟨ptr, size, block.addr⟩ :: session.live⟩ actions last →
        ∃ before behind, last.heap.Holds (before ++ block :: behind) ∧
          (last.heap.Releases ptr before behind ↔
            block.addr + block.size ≤ last.heap.heapEnd) := by
  obtain ⟨holds, lives, own, _⟩ := wellFormed
  have inv : Inv session.heap session.live := ⟨ready, ⟨blocks, holds, lives⟩, own⟩
  obtain ⟨nonzero, power, rounds, roundsTotal⟩ :=
    holds.kmallocAligned_rounds ready fits fitsTotal safe done nonnull
  obtain ⟨result, heap, blocks', made, afterHolds, keeps, handsOut, placed⟩ :=
    holds.kmallocAligned_handsOut ready vmm rounds roundsTotal fun _ _ _ => safe
  obtain ⟨samePtr, sameHeap⟩ := Prod.mk.inj (Option.some.inj (made.symm.trans done))
  subst samePtr
  subst sameHeap
  obtain ⟨multiple, above⟩ := placed nonnull
  have invAfter := (inv.adopt holds afterHolds lives keeps handsOut).1
  cases handsOut with
  | nothing null _ => exact absurd null nonnull
  | block taken left right _ inTaken was becomes =>
    have home : heap.mem.load (result - 8) 8 - headerSize = taken.addr := inTaken.addr
    rw [home, adoptPtr, if_neg nonnull] at invAfter
    rw [home] at above
    refine ⟨Nat.mod_eq_zero_of_dvd ((dvd_usedAlignment nonzero power).trans
      (Nat.dvd_of_mod_eq_zero multiple)), taken, blocks', afterHolds, ⟨left, right, was, becomes⟩,
      inTaken.low, inTaken.high, ?_⟩
    intro actions last run
    obtain ⟨invLast, isLive, kept⟩ :=
      SparingStep.run (a := ⟨result, size, taken.addr⟩) run invAfter List.mem_cons_self
    have found : last.heap.Found ⟨result, size, taken.addr⟩ := by
      intro direct
      simp only at direct
      omega
    obtain ⟨blocksLast, block, holdsLast, isBlock, isUsed, inBlock⟩ := invLast.home isLive
    have back := holdsLast.ptrToBlock isBlock inBlock found
    -- The block that the pointer is in is the one that was allocated, since its size was kept.
    have takenUsed : taken ∈ usedBlocks blocks' := by simp [becomes]
    obtain ⟨takenIn, takenIsUsed⟩ := mem_usedBlocks.mp takenUsed
    have sameAddr : block.addr = taken.addr := inBlock.addr.symm
    have sameSize : block.size = taken.size := by
      rw [← holdsLast.shape.size block isBlock, sameAddr, kept]
      exact afterHolds.shape.size taken takenIn
    obtain rfl : block = taken :=
      Block.eq_of_fields sameAddr sameSize (isUsed.trans takenIsUsed.symm)
    obtain ⟨before, behind, rfl⟩ := List.append_of_mem isBlock
    exact ⟨before, behind, holdsLast, holdsLast.releases_iff invLast.ready isUsed back⟩

/-- A hundred bytes at a page of the initial heap are freed again. -/
theorem kmallocAligned_released_page :
    ∃ heap after block before behind, blankHeap.init zeroVmm = some (true, heap) ∧
      heap.kmallocAligned zeroVmm 100 4096 = some (kernelHeapBase + 4096, after) ∧
      (kernelHeapBase + 4096) % 4096 = 0 ∧ after.Holds (before ++ block :: behind) ∧
      after.Releases (kernelHeapBase + 4096) before behind := by
  obtain ⟨heap, ptr, after, booted, given, pointer, inside, safe⟩ := booted_call
    (·.kmallocAligned zeroVmm 100 4096)
    (fun heap ptr after => ptr = kernelHeapBase + 4096 ∧ after.heapBrk ≤ after.heapEnd ∧
      heap.AllocSafe zeroVmm (alignedTotal 100 4096))
    (by decide +kernel)
  rw [pointer] at given
  obtain ⟨ready, _, first, holds, _⟩ := Heap.init_holds rfl booted
  have wellFormed : HeapSession.WellFormed ⟨heap, []⟩ [first] :=
    ⟨holds, fun _ member => absurd member List.not_mem_nil, .nil, .nil⟩
  obtain ⟨multiple, block, _, _, _, _, _, frees⟩ := kmallocAligned_released ready wellFormed
    (by decide) (by decide) safe given (by decide)
  obtain ⟨before, behind, afterHolds, releases⟩ := frees [] ⟨after, _⟩ (.nil _)
  have bounds := afterHolds.shape.bounds Heap.mem_here
  refine ⟨heap, after, block, before, behind, booted, given, multiple, afterHolds, ?_⟩
  apply releases.mpr
  exact Nat.le_trans bounds.2.2.1 inside

/-- An aligned allocation of the size of the heap region is handed out and cannot be freed. -/
theorem kmallocAligned_kept :
    ∃ heap after, blankHeap.init zeroVmm = some (true, heap) ∧
      heap.AllocSafe zeroVmm (alignedTotal (128 * 1024 * 1024) 4096) ∧
      heap.kmallocAligned zeroVmm (128 * 1024 * 1024) 4096 =
        some (kernelHeapBase + 4096, after) ∧
      after.ptrToBlock (kernelHeapBase + 4096) = kernelHeapBase ∧
      after.isUsed kernelHeapBase = true ∧
      after.kfree (kernelHeapBase + 4096) = some after := by
  obtain ⟨heap, ptr, after, booted, given, pointer, safe, back, used, invalid⟩ := booted_call
    (·.kmallocAligned zeroVmm (128 * 1024 * 1024) 4096)
    (fun heap ptr after => ptr = kernelHeapBase + 4096 ∧
      heap.AllocSafe zeroVmm (alignedTotal (128 * 1024 * 1024) 4096) ∧
      after.ptrToBlock (kernelHeapBase + 4096) = kernelHeapBase ∧
      after.isUsed kernelHeapBase = true ∧ after.validateBlock kernelHeapBase = false)
    (by decide +kernel)
  rw [pointer] at given
  have refused : after.kfree (kernelHeapBase + 4096) = some after := by
    unfold Heap.kfree
    simp [back, invalid]
  exact ⟨heap, after, booted, safe, given, back, used, refused⟩

end Ccos
