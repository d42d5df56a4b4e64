import Ccos.Heap.HeapRun

/-! The last eight bytes of a header, which are read as a note of where an aligned payload starts. No
call clears them for a plain allocation, so that what earlier allocations left there decides where a
plain pointer leads. -/

namespace Ccos

open Lib

namespace Heap

variable {heap after : Heap} {a b : Allocation}

/-- What is noted before a plain pointer cannot be taken for the start of an earlier payload: it is
below the heap, not below the pointer, or not at a multiple of the alignment. -/
@[grind =] def NoteClear (heap : Heap) (a : Allocation) : Prop :=
  -- A pointer behind a note of its own is not affected.
  a.ptr = a.block + headerSize →
    heap.mem.load (a.ptr - 8) 8 < heap.heapStart ∨ a.ptr ≤ heap.mem.load (a.ptr - 8) 8 ∨
      heap.mem.load (a.ptr - 8) 8 % heapAlign ≠ 0

instance (heap : Heap) (a : Allocation) : Decidable (heap.NoteClear a) :=
  inferInstanceAs (Decidable (_ → _))

theorem Holds.found_of_clear {blocks : List Block} {block : Block} (holds : heap.Holds blocks)
    (inside : block ∈ blocks) (lives : a.LivesIn heap block) (clear : heap.NoteClear a) :
    heap.Found a := by
  intro direct
  have clear := clear direct
  have bounds := holds.shape.bounds inside
  have high := lives.high
  have home := lives.addr
  have header : headerSize = 48 := rfl
  have before : sub64 a.ptr 8 = a.ptr - 8 := sub64_of_le (by omega) (by omega)
  have back : sub64 a.ptr headerSize = a.block := by
    rw [sub64_of_le (by omega) (by omega)]
    omega
  unfold Heap.ptrToBlock
  rw [before, back]
  generalize heap.mem.load (a.ptr - 8) 8 = note at clear
  dsimp only
  split
  · rename_i looks
    obtain ⟨start, _, hint⟩ := looks
    have aligned : note % heapAlign = 0 := by
      rw [← hint]
      exact (Nat.and_two_pow_sub_one_eq_mod note 4).symm
    -- Only a note of the pointer itself passes the checks, and it leads to the same header.
    grind
  · rfl

theorem NoteClear.carried (clear : heap.NoteClear a) (home : HeapSession.SameHome heap after a)
    (samePtr : a.ptr = b.ptr) (sameBlock : a.block = b.block) : after.NoteClear b := by
  intro direct
  have plain : a.ptr = a.block + headerSize := by omega
  have kept : after.mem.load (a.ptr - 8) 8 = heap.mem.load (a.ptr - 8) 8 := by
    apply ByteMem.load_congr
    intro place low high
    apply home.note place
    all_goals simp only [noteOffset, headerSize] at *; omega
  rw [← samePtr, kept, home.heapStart]
  exact clear plain

end Heap

namespace HeapSession

variable {session after : HeapSession} {action : HeapAction} {a : Allocation}

/-- The condition on the state before an action under which the allocator is right, apart from where
plain pointers lead. -/
def Served (session : HeapSession) : HeapAction → Prop
  | .kmalloc vmm size => size ≠ 0 → session.heap.AllocSafe vmm size
  | .kfree _ => True
  | .krealloc vmm ptr newSize =>
    (ptr = 0 → newSize ≠ 0 → session.heap.AllocSafe vmm newSize) ∧
    ∀ a ∈ session.live, a.ptr = ptr → newSize ≠ 0 → session.heap.validateBlock a.block = true →
      -- In place, the new size has room from the pointer on; otherwise it can be allocated.
      if totalBlockSize newSize ≤ session.heap.get a.block .size then
        a.ptr + newSize ≤ a.block + session.heap.get a.block .size
      else session.heap.AllocSafe vmm newSize
  | .kmallocAligned vmm size alignment =>
    size ≠ 0 → alignment ≠ 0 → alignment &&& (alignment - 1) = 0 →
      session.heap.AllocSafe vmm (alignedTotal size alignment)
  | .write _ _ => True

instance (session : HeapSession) (action : HeapAction) : Decidable (session.Served action) :=
  match action with
  | .kmalloc .. | .kmallocAligned .. => inferInstanceAs (Decidable (_ → _))
  | .kfree _ | .write .. => inferInstanceAs (Decidable True)
  | .krealloc .. => inferInstanceAs (Decidable (_ ∧ _))

/-- Every pointer that an action hands out has a clear note. -/
@[grind =] def HandsOutClear (session after : HeapSession) : Prop :=
  ∀ b ∈ after.live, (∀ a ∈ session.live, a.ptr ≠ b.ptr) → after.heap.NoteClear b

instance (session after : HeapSession) : Decidable (session.HandsOutClear after) :=
  inferInstanceAs (Decidable (∀ b ∈ after.live, _))

/-- An action that callers may take and that is served, and that hands out clear pointers only. -/
@[grind =]
def ClearStep (session : HeapSession) (action : HeapAction) (after : HeapSession) : Prop :=
  ((session.Allowed action ∧ session.Served action) ∧ session.perform action = some after) ∧
    session.HandsOutClear after

theorem Inv.found {heap : Heap} {live : List Allocation} (inv : Inv heap live) (member : a ∈ live)
    (clear : heap.NoteClear a) : heap.Found a := by
  obtain ⟨blocks, block, holds, inside, _, inBlock⟩ := inv.home member
  exact holds.found_of_clear inside inBlock clear

theorem Inv.safe_of_clear (inv : Inv session.heap session.live)
    (clear : ∀ a ∈ session.live, session.heap.NoteClear a) (allowed : session.Allowed action)
    (served : session.Served action) : session.Safe action := by
  cases action with
  | kmalloc vmm size => exact served
  | kmallocAligned vmm size alignment => exact served
  | write addr byte => exact served
  | kfree ptr =>
    intro a member _
    exact inv.found member (clear a member)
  | krealloc vmm ptr newSize =>
    refine ⟨served.1, fun a member pointer => ⟨inv.found member (clear a member), ?_⟩⟩
    intro positive valid
    have served := served.2 a member pointer positive valid
    split at served
    · rw [if_pos ‹_›]
      exact served
    · rw [if_neg ‹_›]
      refine ⟨served, fun moved given nonnull => ?_⟩
      -- Neither the allocation nor the copy touches the note of the old block.
      obtain ⟨newPtr, middle, done, invMiddle, homes⟩ := inv.kmalloc vmm allowed.2 fun _ => served
      have same : moved = (newPtr, middle) :=
        Option.some.inj ((Option.mem_def.mp given).symm.trans done)
      subst same
      rw [adoptPtr, if_neg nonnull] at invMiddle
      obtain ⟨invCopied, copiedHomes⟩ := invMiddle.copyPayload List.mem_cons_self a.ptr
        (sub64 (session.heap.get a.block .size) headerSize)
      have stays : a ∈ (⟨newPtr, newSize, newPtr - headerSize⟩ :: session.live : List Allocation) :=
        List.mem_cons_of_mem _ member
      exact invCopied.found stays ((clear a member).carried
        ((homes a member).1.trans (copiedHomes a stays)) rfl rfl)

theorem ClearStep.kept (step : ClearStep session action after)
    (inv : Inv session.heap session.live)
    (clear : ∀ a ∈ session.live, session.heap.NoteClear a) :
    Inv after.heap after.live ∧ ∀ a ∈ after.live, after.heap.NoteClear a := by
  obtain ⟨⟨⟨allowed, served⟩, done⟩, handsOut⟩ := step
  obtain ⟨invAfter, carried⟩ := inv.step allowed (inv.safe_of_clear clear allowed served) done
  refine ⟨invAfter, fun b isLive => ?_⟩
  -- A live pointer was live before, or it was just handed out.
  by_cases old : ∃ a ∈ session.live, a.ptr = b.ptr
  · obtain ⟨a, wasLive, samePtr⟩ := old
    obtain ⟨sameBlock, home⟩ := carried a wasLive b isLive samePtr
    exact (clear a wasLive).carried home samePtr sameBlock
  grind

end HeapSession

open HeapSession

/-- If every pointer is handed out with a clear note, then at every time, whatever was written into
payloads, each plain pointer that is live leads to the header directly before it. -/
theorem plain_pointers_found {start heap : Heap} {vmm : Vmm} {actions : List HeapAction}
    {last : HeapSession} (fresh : start.initialized = false)
    (booted : start.init vmm = some (true, heap))
    (run : Run ClearStep ⟨heap, []⟩ actions last) :
    ∀ a ∈ last.live, a.ptr = a.block + headerSize → last.heap.ptrToBlock a.ptr = a.block := by
  have kept : Inv last.heap last.live ∧ ∀ a ∈ last.live, last.heap.NoteClear a := by
    apply run.preserves (fun current => Inv current.heap current.live ∧
      ∀ a ∈ current.live, current.heap.NoteClear a)
    · intro current action next step both
      exact step.kept both.1 both.2
    · exact ⟨.booted fresh booted, by simp⟩
  intro a member direct
  exact kept.1.found member (kept.2 a member) direct

/-- A plain pointer next to an aligned one leads to its header. -/
theorem plain_pointers_found_beside :
    ∃ heap last, blankHeap.init zeroVmm = some (true, heap) ∧
      Run ClearStep ⟨heap, []⟩
        [.kmalloc zeroVmm 48, .kmallocAligned zeroVmm 64 64, .write (kernelHeapBase + 95) 7,
          .kfree (kernelHeapBase + 192)] last ∧
      last.live = [⟨kernelHeapBase + 48, 48, kernelHeapBase⟩] ∧
      last.heap.ptrToBlock (kernelHeapBase + 48) = kernelHeapBase := by
  apply booted_run _ (fun last => last.live = [⟨kernelHeapBase + 48, 48, kernelHeapBase⟩])
    (fun session action => (session.Allowed action ∧ session.Served action) ∧
      ∀ after ∈ session.perform action, session.HandsOutClear after)
    (fun before action after met done => ⟨⟨met.1, done⟩, met.2 after done⟩) (by decide +kernel)
  intro heap last booted clear live
  refine ⟨live, ?_⟩
  exact plain_pointers_found rfl booted clear ⟨kernelHeapBase + 48, 48, kernelHeapBase⟩
    (by rw [live]; exact List.mem_cons_self) rfl

/-- After an aligned allocation was freed, two plain allocations reuse its bytes: the second one
finds the old note before its pointer, which leads into the first one, and cannot be freed. -/
theorem plain_pointer_misled :
    ∃ heap last, blankHeap.init zeroVmm = some (true, heap) ∧
      Run SafeStep ⟨heap, []⟩
        [.kmalloc zeroVmm 48, .kmallocAligned zeroVmm 64 64, .kfree (kernelHeapBase + 192),
          .kfree (kernelHeapBase + 48), .kmalloc zeroVmm 96, .kmalloc zeroVmm 16] last ∧
      last.live = [⟨kernelHeapBase + 192, 16, kernelHeapBase + 144⟩,
        ⟨kernelHeapBase + 48, 96, kernelHeapBase⟩] ∧
      last.heap.ptrToBlock (kernelHeapBase + 192) = kernelHeapBase + 96 ∧
      last.heap.isUsed (kernelHeapBase + 144) = true ∧
      last.heap.kfree (kernelHeapBase + 192) = some last.heap := by
  apply booted_safeRun _
    (fun last => last.live = [⟨kernelHeapBase + 192, 16, kernelHeapBase + 144⟩,
        ⟨kernelHeapBase + 48, 96, kernelHeapBase⟩] ∧
      last.heap.ptrToBlock (kernelHeapBase + 192) = kernelHeapBase + 96 ∧
      last.heap.isUsed (kernelHeapBase + 144) = true ∧
      last.heap.validateBlock (kernelHeapBase + 96) = true ∧
      last.heap.isUsed (kernelHeapBase + 96) = false)
    (by decide +kernel)
  intro heap last _ _ ⟨live, back, used, valid, unused⟩
  refine ⟨live, back, used, ?_⟩
  unfold Heap.kfree
  simp [back, valid, unused]

end Ccos
