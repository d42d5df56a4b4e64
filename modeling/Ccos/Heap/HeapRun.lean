import Ccos.Heap.Pointer
import Ccos.Lib.Run

/-! Sequences of allocator calls from one thread, and of writes into what it allocated. -/

namespace Ccos

open Lib

/-- The state between two calls: the heap and the allocations that are live. -/
structure HeapSession where
  heap : Heap
  live : List Allocation

/-- A call, with what `vmm_alloc_pages_at` does in it, or a write by a caller. -/
inductive HeapAction
  | kmalloc (vmm : Vmm) (size : Nat)
  | kfree (ptr : Nat)
  | krealloc (vmm : Vmm) (ptr newSize : Nat)
  | kmallocAligned (vmm : Vmm) (size alignment : Nat)
  | write (addr : Nat) (byte : UInt8)

/-- The live allocations once a pointer was handed out, unless it is null. -/
def adoptPtr (a : Allocation) (live : List Allocation) : List Allocation :=
  if a.ptr = 0 then live else a :: live

/-- The live allocations once a pointer was given back. -/
def dropPtr (ptr : Nat) (live : List Allocation) : List Allocation :=
  live.filter fun a => a.ptr ≠ ptr

/-- The live allocations once a pointer was resized: with size zero it was given back, with a null
result nothing happened, and otherwise it was resized in place or replaced. -/
def resizePtr (ptr newPtr newSize : Nat) (live : List Allocation) : List Allocation :=
  if newSize = 0 then dropPtr ptr live
  else if newPtr = 0 then live
  else if newPtr = ptr then
    live.map fun a => if a.ptr = ptr then { a with size := newSize } else a
  else ⟨newPtr, newSize, newPtr - headerSize⟩ :: dropPtr ptr live

namespace HeapSession

/-- Perform an action; nothing if an assertion of the allocator fails. -/
def perform (session : HeapSession) : HeapAction → Option HeapSession
  | .kmalloc vmm size => do
    let (ptr, heap) ← session.heap.kmalloc vmm size
    some ⟨heap, adoptPtr ⟨ptr, size, ptr - headerSize⟩ session.live⟩
  | .kfree ptr => do
    let heap ← session.heap.kfree ptr
    some ⟨heap, dropPtr ptr session.live⟩
  | .krealloc vmm ptr newSize => do
    let (newPtr, heap) ← session.heap.krealloc vmm ptr newSize
    some ⟨heap, resizePtr ptr newPtr newSize session.live⟩
  | .kmallocAligned vmm size alignment => do
    let (ptr, heap) ← session.heap.kmallocAligned vmm size alignment
    -- The raw pointer is noted before the aligned one.
    some ⟨heap, adoptPtr ⟨ptr, size, heap.mem.load (ptr - 8) 8 - headerSize⟩ session.live⟩
  | .write addr byte =>
    some ⟨{ session.heap with mem := session.heap.mem.fill addr 1 byte }, session.live⟩

/-- What callers keep to: sizes whose rounding does not wrap, live or null pointers only, and
writes inside the bytes that they asked for. -/
def Allowed (session : HeapSession) : HeapAction → Prop
  | .kmalloc _ size => Rounds size
  | .kfree ptr => ptr = 0 ∨ ∃ a ∈ session.live, a.ptr = ptr
  | .krealloc _ ptr newSize => (ptr = 0 ∨ ∃ a ∈ session.live, a.ptr = ptr) ∧ Rounds newSize
  | .kmallocAligned _ size alignment => Rounds size ∧ Rounds (alignedTotal size alignment)
  | .write addr _ => ∃ a ∈ session.live, a.ptr ≤ addr ∧ addr < a.ptr + a.size

/-- A live pointer can be resized by a copy: the new allocation can be served, and the pointer still
leads to its block after the copy. -/
@[grind =] def MoveReady (heap : Heap) (vmm : Vmm) (newSize : Nat) (a : Allocation) : Prop :=
  heap.AllocSafe vmm newSize ∧ ∀ moved ∈ heap.kmalloc vmm newSize, moved.1 ≠ 0 →
    (moved.2.copyPayload moved.1 a.ptr (sub64 (heap.get a.block .size) headerSize) newSize).Found a

instance (heap : Heap) (vmm : Vmm) (newSize : Nat) (a : Allocation) :
    Decidable (MoveReady heap vmm newSize a) :=
  inferInstanceAs (Decidable (_ ∧ _))

/-- A live pointer can be resized: it leads to its block; if the block is large enough for the new
size, it is so from the pointer on; and if not, it can be moved by a copy. -/
@[grind =] def ResizeSafe (heap : Heap) (vmm : Vmm) (newSize : Nat) (a : Allocation) : Prop :=
  heap.Found a ∧
  (newSize ≠ 0 → heap.validateBlock a.block = true →
    if totalBlockSize newSize ≤ heap.get a.block .size then
      a.ptr + newSize ≤ a.block + heap.get a.block .size
    else MoveReady heap vmm newSize a)

/-- The condition on the state before an action under which the allocator is right. -/
def Safe (session : HeapSession) : HeapAction → Prop
  | .kmalloc vmm size => size ≠ 0 → session.heap.AllocSafe vmm size
  | .kfree ptr => ∀ a ∈ session.live, a.ptr = ptr → session.heap.Found a
  | .krealloc vmm ptr newSize =>
    (ptr = 0 → newSize ≠ 0 → session.heap.AllocSafe vmm newSize) ∧
    ∀ a ∈ session.live, a.ptr = ptr → ResizeSafe session.heap vmm newSize a
  | .kmallocAligned vmm size alignment =>
    size ≠ 0 → alignment ≠ 0 → alignment &&& (alignment - 1) = 0 →
      session.heap.AllocSafe vmm (alignedTotal size alignment)
  | .write _ _ => True

instance (session : HeapSession) (action : HeapAction) : Decidable (session.Allowed action) :=
  match action with
  | .kmalloc _ size => inferInstanceAs (Decidable (Rounds size))
  | .kfree _ => inferInstanceAs (Decidable (_ ∨ _))
  | .krealloc .. | .kmallocAligned .. => inferInstanceAs (Decidable (_ ∧ _))
  | .write .. => inferInstanceAs (Decidable (∃ a ∈ session.live, _))

instance (heap : Heap) (vmm : Vmm) (newSize : Nat) (a : Allocation) :
    Decidable (ResizeSafe heap vmm newSize a) :=
  inferInstanceAs (Decidable (_ ∧ _))

instance (session : HeapSession) (action : HeapAction) : Decidable (session.Safe action) :=
  match action with
  | .kmalloc .. | .kmallocAligned .. => inferInstanceAs (Decidable (_ → _))
  | .kfree _ => inferInstanceAs (Decidable (∀ a ∈ session.live, _))
  | .krealloc .. => inferInstanceAs (Decidable (_ ∧ _))
  | .write .. => inferInstanceAs (Decidable True)

/-- The blocks tile the heap and the free list holds the unused ones, and every live allocation is
in the payload of a used block of its own. -/
@[grind] structure WellFormed (session : HeapSession) (blocks : List Block) : Prop where
  holds : session.heap.Holds blocks
  lives : ∀ a ∈ session.live, ∃ block ∈ usedBlocks blocks, a.LivesIn session.heap block
  own : session.live.Pairwise fun a b => a.block ≠ b.block
  /-- The payloads are disjoint. -/
  apart : session.live.Pairwise fun a b => a.ptr + a.size ≤ b.ptr ∨ b.ptr + b.size ≤ a.ptr

@[grind] structure Inv (heap : Heap) (live : List Allocation) : Prop where
  ready : heap.initialized = true
  placed : ∃ blocks, heap.Holds blocks ∧
    ∀ a ∈ live, ∃ block ∈ usedBlocks blocks, a.LivesIn heap block
  own : live.Pairwise fun a b => a.block ≠ b.block

/-- The block of an allocation keeps its size and the note before its payload. -/
@[grind] structure SameHome (heap after : Heap) (a : Allocation) : Prop where
  size : after.get a.block .size = heap.get a.block .size
  note : ∀ place, a.block + noteOffset ≤ place → place < a.block + headerSize →
    after.mem place = heap.mem place
  heapStart : after.heapStart = heap.heapStart

/-- The bytes from the pointer of an allocation to the end of its block stay. -/
@[grind =] def SameContent (heap after : Heap) (a : Allocation) : Prop :=
  ∀ place, a.ptr ≤ place → place < a.block + heap.get a.block .size →
    after.mem place = heap.mem place

section Steps

variable {heap after : Heap} {live : List Allocation} {a b : Allocation}

theorem SameHome.refl (heap : Heap) (a : Allocation) : SameHome heap heap a :=
  ⟨rfl, fun _ _ _ => rfl, rfl⟩

theorem SameHome.trans {middle : Heap} (first : SameHome heap middle a)
    (second : SameHome middle after a) : SameHome heap after a :=
  ⟨second.size.trans first.size,
    fun place low high => (second.note place low high).trans (first.note place low high),
    second.heapStart.trans first.heapStart⟩

variable {blocks' blocks : List Block}

theorem home_stays {others : List Block} {block : Block} (lives : a.LivesIn heap block)
    (holds : heap.Holds blocks) (afterHolds : after.Holds blocks')
    (was : block ∈ usedBlocks blocks) (stays : block ∈ usedBlocks blocks')
    (keeps : heap.Keeps after others) (kept : block ∈ others) :
    SameHome heap after a ∧ SameContent heap after a := by
  have large := block.large
  have size := holds.shape.size block (mem_usedBlocks.mp was).1
  refine ⟨⟨?_, fun place low high => ?_, keeps.heapStart⟩, fun place low high => ?_⟩
  · rw [lives.addr, afterHolds.shape.size block (mem_usedBlocks.mp stays).1, size]
  · rw [lives.addr] at low high
    exact keeps.payload block kept place low (by omega)
  · have above := lives.low
    have := Heap.noteOffset_le
    rw [lives.addr, size] at high
    exact keeps.payload block kept place (by omega) high

/-- A live allocation is in a used block. -/
theorem Inv.home (inv : Inv heap live) (member : a ∈ live) :
    ∃ blocks block, heap.Holds blocks ∧ block ∈ blocks ∧ block.used = true ∧
      a.LivesIn heap block := by
  obtain ⟨blocks, holds, lives⟩ := inv.placed
  obtain ⟨block, used, inBlock⟩ := lives a member
  obtain ⟨inside, isUsed⟩ := mem_usedBlocks.mp used
  exact ⟨blocks, block, holds, inside, isUsed, inBlock⟩

theorem Inv.eq_of_block (inv : Inv heap live) (member : a ∈ live) (another : b ∈ live)
    (same : a.block = b.block) : a = b := by
  by_contra different
  have symmetric : Std.Symm fun a b : Allocation => a.block ≠ b.block := ⟨fun _ _ => Ne.symm⟩
  exact inv.own.forall member another different same

theorem Inv.apart (inv : Inv heap live) (member : a ∈ live) (another : b ∈ live)
    (different : a.block ≠ b.block) : a.ptr + a.size ≤ b.ptr ∨ b.ptr + b.size ≤ a.ptr := by
  obtain ⟨blocks, holds, lives⟩ := inv.placed
  obtain ⟨first, firstUsed, inFirst⟩ := lives a member
  obtain ⟨second, secondUsed, inSecond⟩ := lives b another
  have := inFirst.low
  have := inFirst.high
  have := inSecond.low
  have := inSecond.high
  rcases holds.shape.tiles.apart (mem_usedBlocks.mp firstUsed).1 (mem_usedBlocks.mp secondUsed).1
    with rfl | apart
  · exact absurd (inFirst.addr.trans inSecond.addr.symm) different
  · omega

theorem Inv.eq_of_ptr (inv : Inv heap live) (member : a ∈ live) (another : b ∈ live)
    (same : a.ptr = b.ptr) : a = b := by
  by_contra different
  obtain ⟨_, _, _, _, _, inFirst⟩ := inv.home member
  obtain ⟨_, _, _, _, _, inSecond⟩ := inv.home another
  have := inFirst.positive
  have := inSecond.positive
  have := inv.apart member another fun equal => different (inv.eq_of_block member another equal)
  omega

theorem Inv.ptr_ne_of_cons (inv : Inv heap (a :: live)) (member : b ∈ live) : a.ptr ≠ b.ptr := by
  intro same
  have equal := inv.eq_of_ptr List.mem_cons_self (List.mem_cons_of_mem _ member) same
  exact (List.pairwise_cons.mp inv.own).1 b member (congrArg Allocation.block equal)

theorem Inv.ptr_ne_zero (inv : Inv heap live) (member : a ∈ live) : a.ptr ≠ 0 := by
  obtain ⟨_, _, _, _, _, inBlock⟩ := inv.home member
  have := inBlock.low
  simp only [headerSize] at this
  omega

theorem HandsOut.used_stays {block : Block} (handsOut : Heap.HandsOut a after blocks blocks')
    (was : block ∈ usedBlocks blocks) : block ∈ usedBlocks blocks' := by
  cases handsOut with
  | nothing null same => rwa [same]
  | block taken left right nonnull inTaken split becomes =>
    grind

section

variable (inv : Inv heap live)
include inv

theorem Inv.adopt (before : heap.Holds blocks) (holds : after.Holds blocks')
    (lives : ∀ a ∈ live, ∃ block ∈ usedBlocks blocks, a.LivesIn heap block)
    (keeps : heap.Keeps after (usedBlocks blocks)) (handsOut : Heap.HandsOut a after blocks blocks') :
    Inv after (adoptPtr a live) ∧ ∀ b ∈ live, SameHome heap after b ∧ SameContent heap after b := by
  refine ⟨?_, fun b member => ?_⟩
  swap
  · obtain ⟨block, used, inBlock⟩ := lives b member
    exact home_stays inBlock before holds used (HandsOut.used_stays handsOut used) keeps used
  have ready : after.initialized = true := keeps.initialized.trans inv.ready
  have livesOn (b : Allocation) (member : b ∈ live) :
      ∃ block ∈ usedBlocks blocks, b.LivesIn after block := by
    obtain ⟨block, used, inBlock⟩ := lives b member
    exact ⟨block, used, inBlock.kept (keeps.payload block used)⟩
  unfold adoptPtr
  cases handsOut with
  | nothing null same =>
    grind
  | block taken left right nonnull inTaken was becomes =>
    rw [if_neg nonnull]
    refine ⟨ready, ⟨blocks', holds, ?_⟩, List.pairwise_cons.mpr ⟨fun b member same => ?_, inv.own⟩⟩
    · grind
    · -- The new block is apart from those that were used before.
      obtain ⟨block, used, inBlock⟩ := livesOn b member
      rw [was] at used
      have large := block.large
      have takenLarge := taken.large
      have := inTaken.addr
      have := inBlock.addr
      have := holds.used_apart becomes used
      simp only [headerSize] at large takenLarge
      omega

theorem Inv.kmalloc (vmm : Vmm) {size : Nat} (rounds : Rounds size)
    (safe : size ≠ 0 → heap.AllocSafe vmm size) :
    ∃ ptr after, heap.kmalloc vmm size = some (ptr, after) ∧
      Inv after (adoptPtr ⟨ptr, size, ptr - headerSize⟩ live) ∧
      ∀ a ∈ live, SameHome heap after a ∧ SameContent heap after a := by
  obtain ⟨blocks, holds, lives⟩ := inv.placed
  obtain ⟨ptr, after, blocks', done, afterHolds, keeps, handsOut⟩ :=
    holds.kmalloc_handsOut inv.ready vmm rounds safe
  exact ⟨ptr, after, done, inv.adopt holds afterHolds lives keeps handsOut⟩

/-- An aligned allocation keeps the invariant. -/
theorem Inv.kmallocAligned (vmm : Vmm) {size alignment : Nat} (rounds : Rounds size)
    (roundsTotal : Rounds (alignedTotal size alignment))
    (safe : size ≠ 0 → alignment ≠ 0 → alignment &&& (alignment - 1) = 0 →
      heap.AllocSafe vmm (alignedTotal size alignment)) :
    ∃ ptr after, heap.kmallocAligned vmm size alignment = some (ptr, after) ∧
      Inv after (adoptPtr ⟨ptr, size, after.mem.load (ptr - 8) 8 - headerSize⟩ live) ∧
      ∀ a ∈ live, SameHome heap after a ∧ SameContent heap after a := by
  obtain ⟨blocks, holds, lives⟩ := inv.placed
  obtain ⟨ptr, after, blocks', done, afterHolds, keeps, handsOut, _⟩ :=
    holds.kmallocAligned_handsOut inv.ready vmm rounds roundsTotal safe
  exact ⟨ptr, after, done, inv.adopt holds afterHolds lives keeps handsOut⟩

theorem Inv.kfree (member : a ∈ live) (found : heap.Found a) :
    ∃ after, heap.kfree a.ptr = some after ∧ Inv after (dropPtr a.ptr live) ∧
      ∀ b ∈ dropPtr a.ptr live, SameHome heap after b ∧ SameContent heap after b := by
  obtain ⟨blocks, holds, lives⟩ := inv.placed
  obtain ⟨block, used, inBlock⟩ := lives a member
  obtain ⟨inside, isUsed⟩ := mem_usedBlocks.mp used
  have back := holds.ptrToBlock inside inBlock found
  obtain ⟨before, behind, rfl⟩ := List.append_of_mem inside
  have own := inv.own.sublist (List.filter_sublist : (dropPtr a.ptr live).Sublist live)
  have old {b : Allocation} (kept : b ∈ dropPtr a.ptr live) : b ∈ live ∧ b.ptr ≠ a.ptr := by
    simpa [dropPtr] using kept
  -- Another allocation is in another block.
  have beside {b : Allocation} (kept : b ∈ dropPtr a.ptr live) : ∃ other,
      other ∈ usedBlocks (before ++ block :: behind) ∧
      other ∈ usedBlocks before ++ usedBlocks behind ∧ b.LivesIn heap other := by
    obtain ⟨isLive, different⟩ := old kept
    obtain ⟨other, otherUsed, inOther⟩ := lives b isLive
    refine ⟨other, otherUsed, ?_, inOther⟩
    rw [usedBlocks_append, usedBlocks_cons_used isUsed] at otherUsed
    rcases List.mem_append.mp otherUsed with inBefore | inRest
    · exact List.mem_append_left _ inBefore
    · rcases List.mem_cons.mp inRest with rfl | inBehind
      · exact absurd (congrArg Allocation.ptr (inv.eq_of_block isLive member
          (inOther.addr.trans inBlock.addr.symm))) different
      · exact List.mem_append_right _ inBehind
  rcases holds.kfree inv.ready isUsed (inv.ptr_ne_zero member) back with
    ⟨_, unchanged⟩ | ⟨after, blocks', done, afterHolds, same, keeps⟩
  · exact ⟨heap, unchanged, ⟨inv.ready, ⟨_, holds, fun b kept => lives b (old kept).1⟩, own⟩,
      fun b _ => ⟨.refl heap b, fun _ _ _ => rfl⟩⟩
  refine ⟨after, done, ⟨keeps.initialized.trans inv.ready, ⟨blocks', afterHolds, ?_⟩, own⟩, ?_⟩
  · intro b kept
    obtain ⟨other, _, remains, inOther⟩ := beside kept
    exact ⟨other, same ▸ remains, inOther.kept (keeps.payload other remains)⟩
  · intro b kept
    obtain ⟨other, was, remains, inOther⟩ := beside kept
    exact home_stays inOther holds afterHolds was (same ▸ remains) keeps remains

theorem Inv.write (member : a ∈ live) {mem : ByteMem}
    (same : ∀ place, place < a.ptr ∨ a.ptr + a.size ≤ place → mem place = heap.mem place) :
    Inv { heap with mem := mem } live ∧ ∀ b ∈ live, SameHome heap { heap with mem := mem } b := by
  obtain ⟨blocks, holds, lives⟩ := inv.placed
  obtain ⟨block, used, inBlock⟩ := lives a member
  have inside := (mem_usedBlocks.mp used).1
  have low := inBlock.low
  have high := inBlock.high
  have written : ({ heap with mem := mem } : Heap).Holds blocks :=
    holds.write inside fun place away => same place (by omega)
  refine ⟨⟨inv.ready, ⟨blocks, written, fun b isLive => ?_⟩, inv.own⟩, fun b isLive => ?_⟩
  swap
  · -- The header of every block stays, since payloads are behind headers.
    obtain ⟨other, otherUsed, inOther⟩ := lives b isLive
    have otherIn := (mem_usedBlocks.mp otherUsed).1
    have large := other.large
    refine ⟨?_, fun place above below => same place ?_, rfl⟩
    · rw [inOther.addr, written.shape.size other otherIn, holds.shape.size other otherIn]
    · rw [inOther.addr] at above below
      rcases holds.shape.tiles.apart inside otherIn with rfl | apart <;> omega
  obtain ⟨other, otherUsed, inOther⟩ := lives b isLive
  refine ⟨other, otherUsed, ?_⟩
  rcases holds.shape.tiles.apart inside (mem_usedBlocks.mp otherUsed).1 with rfl | apart
  · -- The note before an aligned pointer is not among its bytes.
    obtain rfl := inv.eq_of_block isLive member (inOther.addr.trans inBlock.addr.symm)
    refine ⟨inBlock.addr, inBlock.positive, low, high, inBlock.noted.imp id ?_⟩
    rintro ⟨behind, note⟩
    refine ⟨behind, ?_⟩
    rw [← note]
    exact ByteMem.load_congr fun place _ below => same place (by omega)
  · exact inOther.kept fun place low high => same place (by omega)

theorem Inv.copyPayload (member : a ∈ live) (src oldUserSize : Nat) :
    Inv (heap.copyPayload a.ptr src oldUserSize a.size) live ∧
      ∀ b ∈ live, SameHome heap (heap.copyPayload a.ptr src oldUserSize a.size) b := by
  refine inv.write member fun place away => if_neg ?_
  split <;> omega

theorem Inv.resize (member : a ∈ live) {newSize : Nat} (positive : 0 < newSize)
    (fits : a.ptr + newSize ≤ a.block + heap.get a.block .size) :
    Inv heap (live.map fun b => if b.ptr = a.ptr then { b with size := newSize } else b) := by
  obtain ⟨blocks, holds, lives⟩ := inv.placed
  refine ⟨inv.ready, ⟨blocks, holds, fun resized isLive => ?_⟩, ?_⟩
  · obtain ⟨b, old, rfl⟩ := List.mem_map.mp isLive
    obtain ⟨block, used, inBlock⟩ := lives b old
    refine ⟨block, used, ?_⟩
    by_cases same : b.ptr = a.ptr
    · obtain rfl := inv.eq_of_ptr old member same
      rw [if_pos rfl]
      rw [inBlock.addr, holds.shape.size block (mem_usedBlocks.mp used).1] at fits
      exact ⟨inBlock.addr, positive, inBlock.low, fits, inBlock.noted⟩
    · rw [if_neg same]
      exact inBlock
  grind

theorem Inv.leadsBack (member : a ∈ live) (found : heap.Found a) :
    heap.ptrToBlock a.ptr = a.block ∧ heap.isUsed a.block = true := by
  obtain ⟨blocks, block, holds, inside, isUsed, inBlock⟩ := inv.home member
  rw [inBlock.addr]
  exact ⟨holds.ptrToBlock inside inBlock found,
    by simp [holds.shape.isUsed inside, isUsed]⟩

theorem Inv.krealloc (vmm : Vmm) (member : a ∈ live) {newSize : Nat} (rounds : Rounds newSize)
    (positive : newSize ≠ 0) (safe : ResizeSafe heap vmm newSize a) :
    ∃ newPtr after, heap.krealloc vmm a.ptr newSize = some (newPtr, after) ∧
      Inv after (resizePtr a.ptr newPtr newSize live) ∧
      ∀ b ∈ live, newPtr = 0 ∨ newPtr = a.ptr ∨ b.ptr ≠ a.ptr → SameHome heap after b := by
  obtain ⟨found, served⟩ := safe
  have nonnull := inv.ptr_ne_zero member
  obtain ⟨back, used⟩ := inv.leadsBack member found
  cases valid : heap.validateBlock a.block with
  | false =>
    refine ⟨0, heap, Heap.krealloc_invalid nonnull positive inv.ready back (by simp [valid]), ?_,
      fun b _ _ => .refl heap b⟩
    rw [resizePtr, if_neg positive, if_pos rfl]
    exact inv
  | true =>
    have served := served positive valid
    by_cases fits : totalBlockSize newSize ≤ heap.get a.block .size
    · rw [if_pos fits] at served
      refine ⟨a.ptr, heap, Heap.krealloc_inPlace nonnull positive inv.ready back valid used fits, ?_,
        fun b _ _ => .refl heap b⟩
      rw [resizePtr, if_neg positive, if_neg nonnull, if_pos rfl]
      exact inv.resize member (Nat.pos_of_ne_zero positive) served
    · rw [if_neg fits] at served
      obtain ⟨allocSafe, foundLater⟩ := served
      obtain ⟨newPtr, middle, done, invMiddle, homes⟩ := inv.kmalloc vmm rounds fun _ => allocSafe
      rw [Heap.krealloc_moves nonnull positive inv.ready back valid used fits, done,
        Option.bind_some]
      unfold adoptPtr at invMiddle
      by_cases null : newPtr = 0
      · refine ⟨0, middle, if_pos null, ?_, fun b isLive _ => (homes b isLive).1⟩
        rw [resizePtr, if_neg positive, if_pos rfl]
        rwa [if_pos null] at invMiddle
      -- The copy writes into the new allocation, and then the old one is freed.
      rw [if_neg null] at invMiddle ⊢
      obtain ⟨invCopied, copiedHomes⟩ := invMiddle.copyPayload List.mem_cons_self a.ptr
        (sub64 (heap.get a.block .size) headerSize)
      obtain ⟨after, freed, invAfter, freedHomes⟩ := invCopied.kfree (List.mem_cons_of_mem _ member)
        (foundLater (newPtr, middle) (Option.mem_def.mpr done) null)
      have different : newPtr ≠ a.ptr := invMiddle.ptr_ne_of_cons member
      refine ⟨newPtr, after, ?_, ?_, fun b isLive spared => ?_⟩
      · rw [freed, Option.bind_some]
      · rw [resizePtr, if_neg positive, if_neg null, if_neg different]
        rwa [dropPtr, List.filter_cons_of_pos (by simpa using different), ← dropPtr] at invAfter
      · have other := (spared.resolve_left null).resolve_left different
        have old : b ∈ (⟨newPtr, newSize, newPtr - headerSize⟩ :: live : List Allocation) :=
          List.mem_cons_of_mem _ isLive
        exact ((homes b isLive).1.trans (copiedHomes b old)).trans
          (freedHomes b (List.mem_filter.mpr ⟨old, decide_eq_true other⟩)).1

end

end Steps

section Runs

variable {session after : HeapSession} {action : HeapAction}

@[grind =]
def AllowedStep (session : HeapSession) (action : HeapAction) (after : HeapSession) : Prop :=
  session.Allowed action ∧ session.perform action = some after

/-- An action that callers may take, in a state that meets the condition. -/
@[grind =]
def SafeStep (session : HeapSession) (action : HeapAction) (after : HeapSession) : Prop :=
  (session.Allowed action ∧ session.Safe action) ∧ session.perform action = some after

/-- A pointer that is live before and after an action is in the same block, which keeps its size and
its note. -/
@[grind =] def Carried (session after : HeapSession) : Prop :=
  ∀ a ∈ session.live, ∀ b ∈ after.live, a.ptr = b.ptr →
    a.block = b.block ∧ SameHome session.heap after.heap a

variable {heap : Heap}

theorem Inv.carried_adopt {new : Allocation} (kept : Inv heap (adoptPtr new session.live))
    (homes : ∀ a ∈ session.live, SameHome session.heap heap a) :
    Carried session ⟨heap, adoptPtr new session.live⟩ := by
  intro a wasLive b isLive same
  have stays : a ∈ adoptPtr new session.live := by
    unfold adoptPtr
    grind
  exact ⟨congrArg Allocation.block (kept.eq_of_ptr stays isLive same), homes a wasLive⟩

theorem Inv.carried_drop (inv : Inv session.heap session.live) {ptr : Nat}
    (homes : ∀ b ∈ dropPtr ptr session.live, SameHome session.heap heap b) :
    Carried session ⟨heap, dropPtr ptr session.live⟩ := by
  intro a wasLive b isLive same
  have equal := inv.eq_of_ptr wasLive (List.mem_of_mem_filter isLive) same
  subst equal
  exact ⟨rfl, homes a isLive⟩

theorem Inv.carried_resize (inv : Inv session.heap session.live) {ptr newPtr newSize : Nat}
    (positive : newSize ≠ 0) (kept : Inv heap (resizePtr ptr newPtr newSize session.live))
    (homes : ∀ b ∈ session.live, newPtr = 0 ∨ newPtr = ptr ∨ b.ptr ≠ ptr →
      SameHome session.heap heap b) :
    Carried session ⟨heap, resizePtr ptr newPtr newSize session.live⟩ := by
  intro a wasLive b isLive same
  simp only [resizePtr, if_neg positive] at kept isLive
  by_cases null : newPtr = 0
  · rw [if_pos null] at isLive
    exact ⟨congrArg Allocation.block (inv.eq_of_ptr wasLive isLive same),
      homes a wasLive (.inl null)⟩
  rw [if_neg null] at kept isLive
  by_cases inPlace : newPtr = ptr
  · -- The resized allocation keeps its pointer and its block.
    rw [if_pos inPlace] at isLive
    obtain ⟨old, oldLive, becomes⟩ := List.mem_map.mp isLive
    have samePtr : b.ptr = old.ptr := by
      rw [← becomes]
      split <;> rfl
    have sameBlock : b.block = old.block := by
      rw [← becomes]
      split <;> rfl
    have equal := inv.eq_of_ptr wasLive oldLive (same.trans samePtr)
    grind
  · -- The pointer that is given up is not live any more.
    rw [if_neg inPlace] at kept isLive
    have other : b.ptr ≠ ptr := by
      rcases List.mem_cons.mp isLive with new | old
      · rw [new]
        exact inPlace
      · simpa using (List.mem_filter.mp old).2
    have stays : a ∈ dropPtr ptr session.live := by
      apply List.mem_filter.mpr
      exact ⟨wasLive, by simpa [same] using other⟩
    exact ⟨congrArg Allocation.block (kept.eq_of_ptr (List.mem_cons_of_mem _ stays) isLive same),
      homes a wasLive (.inr (.inr (same ▸ other)))⟩

theorem Inv.perform (inv : Inv session.heap session.live) (allowed : session.Allowed action)
    (safe : session.Safe action) :
    ∃ after, session.perform action = some after ∧ Inv after.heap after.live ∧
      Carried session after := by
  -- No live pointer is null, so that giving null back drops none.
  have nullKept : dropPtr 0 session.live = session.live :=
    List.filter_eq_self.mpr fun a member => by simpa using inv.ptr_ne_zero member
  cases action with
  | kmalloc vmm size =>
    obtain ⟨ptr, heap, done, kept, homes⟩ := inv.kmalloc vmm allowed safe
    exact ⟨_, by simp only [HeapSession.perform, done]; rfl, kept,
      kept.carried_adopt fun b isLive => (homes b isLive).1⟩
  | kmallocAligned vmm size alignment =>
    obtain ⟨ptr, heap, done, kept, homes⟩ := inv.kmallocAligned vmm allowed.1 allowed.2 safe
    exact ⟨_, by simp only [HeapSession.perform, done]; rfl, kept,
      kept.carried_adopt fun b isLive => (homes b isLive).1⟩
  | write addr byte =>
    obtain ⟨a, member, low, high⟩ := allowed
    obtain ⟨kept, homes⟩ := inv.write member fun place away =>
      show session.heap.mem.fill addr 1 byte place = session.heap.mem place from
        ByteMem.fill_of_outside (by omega)
    refine ⟨_, rfl, kept, fun b wasLive c isLive same => ⟨?_, homes b wasLive⟩⟩
    exact congrArg Allocation.block (inv.eq_of_ptr wasLive isLive same)
  | kfree ptr =>
    rcases allowed with null | ⟨a, member, pointer⟩
    · subst null
      refine ⟨⟨session.heap, dropPtr 0 session.live⟩, by simp [HeapSession.perform, Heap.kfree], ?_,
        inv.carried_drop fun b _ => .refl _ b⟩
      rw [nullKept]
      exact inv
    · subst pointer
      obtain ⟨heap, done, kept, homes⟩ := inv.kfree member (safe a member rfl)
      exact ⟨_, by simp only [HeapSession.perform, done]; rfl, kept,
        inv.carried_drop fun b isLive => (homes b isLive).1⟩
  | krealloc vmm ptr newSize =>
    obtain ⟨pointer, rounds⟩ := allowed
    rcases pointer with null | ⟨a, member, pointer⟩
    · subst null
      obtain ⟨ptr, heap, done, kept, homes⟩ := inv.kmalloc vmm rounds (safe.1 rfl)
      have adopts : resizePtr 0 ptr newSize session.live =
          adoptPtr ⟨ptr, newSize, ptr - headerSize⟩ session.live := by
        have null : newSize = 0 → session.heap.kmalloc vmm newSize = some (0, session.heap) := by
          simp +contextual [Heap.kmalloc, inv.ready]
        unfold resizePtr adoptPtr
        grind
      refine ⟨⟨heap, resizePtr 0 ptr newSize session.live⟩, ?_, ?_, ?_⟩
      · simp only [HeapSession.perform, Heap.krealloc, if_pos, done]
        rfl
      · rw [adopts]
        exact kept
      · rw [adopts]
        exact kept.carried_adopt fun b isLive => (homes b isLive).1
    · subst pointer
      by_cases zero : newSize = 0
      · obtain ⟨heap, done, kept, homes⟩ := inv.kfree member (safe.2 a member rfl).1
        refine ⟨⟨heap, dropPtr a.ptr session.live⟩, ?_, kept,
          inv.carried_drop fun b isLive => (homes b isLive).1⟩
        simp only [HeapSession.perform, Heap.krealloc, if_neg (inv.ptr_ne_zero member),
          if_pos zero, done, Option.map_some, Option.bind_eq_bind, Option.bind_some, resizePtr]
      · obtain ⟨newPtr, heap, done, kept, homes⟩ :=
          inv.krealloc vmm member rounds zero (safe.2 a member rfl)
        exact ⟨_, by simp only [HeapSession.perform, done]; rfl, kept,
          inv.carried_resize zero kept homes⟩

theorem Inv.wellFormed (inv : Inv session.heap session.live) :
    ∃ blocks, session.WellFormed blocks := by
  obtain ⟨blocks, holds, lives⟩ := inv.placed
  exact ⟨blocks, holds, lives, inv.own,
    inv.own.imp_of_mem fun member another different => inv.apart member another different⟩

theorem Inv.booted {start : Heap} {vmm : Vmm} (fresh : start.initialized = false)
    (booted : start.init vmm = some (true, heap)) : Inv heap [] := by
  obtain ⟨ready, _, block, holds, _⟩ := Heap.init_holds fresh booted
  exact ⟨ready, ⟨[block], holds, by simp⟩, .nil⟩

theorem Inv.step (inv : Inv session.heap session.live) (allowed : session.Allowed action)
    (safe : session.Safe action) (done : session.perform action = some after) :
    Inv after.heap after.live ∧ Carried session after := by
  obtain ⟨reached, performed, kept⟩ := inv.perform allowed safe
  grind

theorem SafeStep.inv {actions : List HeapAction} (run : Run SafeStep session actions after)
    (inv : Inv session.heap session.live) : Inv after.heap after.live := by
  apply run.preserves (fun current => Inv current.heap current.live) _ inv
  intro current action next step kept
  exact (kept.step step.1.1 step.1.2 step.2).1

end Runs

end HeapSession

open HeapSession

/-- After every run of allowed and safe calls, the blocks tile the heap, the free list holds exactly
the unused ones in order, and live allocations are disjoint; and every such call returns. -/
theorem heap_runs_tiled {start heap : Heap} {vmm : Vmm} {actions : List HeapAction}
    {last : HeapSession} (fresh : start.initialized = false)
    (booted : start.init vmm = some (true, heap))
    (run : Run SafeStep ⟨heap, []⟩ actions last) :
    (∃ blocks, last.WellFormed blocks) ∧
      ∀ action, last.Allowed action → last.Safe action → (last.perform action).isSome := by
  have inv := SafeStep.inv run (.booted fresh booted)
  refine ⟨inv.wellFormed, fun action allowed safe => ?_⟩
  obtain ⟨next, performed, _⟩ := inv.perform allowed safe
  exact Option.isSome_iff_exists.mpr ⟨next, performed⟩

/-- A supply of pages that are zero already, while addresses last. -/
def zeroVmm : Vmm where
  allocPagesAt vaddr count mem := if vaddr + count * pageSize < 2 ^ 64 then some mem else none
  fresh {vaddr count mem after} mapped := by
    split at mapped
    · rename_i below
      exact ⟨Nat.le_of_lt below, fun place _ => by rw [Option.some.inj mapped]⟩
    · cases mapped

/-- The heap before it is set up, in memory that is zero. -/
def blankHeap : Heap := ⟨fun _ => 0, 0, 0, 0, 0, false⟩

theorem booted_call (call : Heap → Option (Nat × Heap)) (goal : Heap → Nat → Heap → Prop)
    [∀ heap ptr after, Decidable (goal heap ptr after)]
    (reached : (blankHeap.init zeroVmm).any fun booted => booted.1 &&
      (call booted.2).any fun result => goal booted.2 result.1 result.2) :
    ∃ heap ptr after, blankHeap.init zeroVmm = some (true, heap) ∧
      call heap = some (ptr, after) ∧ goal heap ptr after := by
  obtain ⟨⟨done, heap⟩, booted, facts⟩ := (Option.any_eq_true _ _).mp reached
  obtain ⟨isDone, served⟩ := Bool.and_eq_true_iff.mp facts
  subst isDone
  obtain ⟨⟨ptr, after⟩, given, meets⟩ := (Option.any_eq_true _ _).mp served
  grind

/-- The end of a run from the boot, if every step is taken in a state that is right for it, has a
property. -/
def bootedReaches (ok : HeapSession → HeapAction → Prop)
    [∀ session action, Decidable (ok session action)] (actions : List HeapAction)
    (goal : HeapSession → Prop) [DecidablePred goal] : Bool :=
  (blankHeap.init zeroVmm).any fun booted => booted.1 &&
    (actions.foldlM (fun (session : HeapSession) action =>
      if ok session action then session.perform action else none)
      (⟨booted.2, []⟩ : HeapSession)).any fun last => goal last

section

variable {shown : Heap → HeapSession → Prop} (actions : List HeapAction)
  (goal : HeapSession → Prop) [DecidablePred goal]

/-- What the decided property of the end of a run implies holds of such a run. -/
theorem booted_run {step : HeapSession → HeapAction → HeapSession → Prop}
    (ok : HeapSession → HeapAction → Prop) [∀ session action, Decidable (ok session action)]
    (sound : ∀ before action after, ok before action → before.perform action = some after →
      step before action after)
    (reached : bootedReaches ok actions goal)
    (follows : ∀ heap last, blankHeap.init zeroVmm = some (true, heap) →
      Run step ⟨heap, []⟩ actions last → goal last → shown heap last) :
    ∃ heap last, blankHeap.init zeroVmm = some (true, heap) ∧
      Run step ⟨heap, []⟩ actions last ∧ shown heap last := by
  obtain ⟨⟨done, heap⟩, booted, facts⟩ := (Option.any_eq_true _ _).mp reached
  obtain ⟨isDone, performed⟩ := Bool.and_eq_true_iff.mp facts
  subst isDone
  obtain ⟨last, ran, meets⟩ := Run.exists_of_any_if performed
  have run := ran.imp fun before action after taken => sound before action after taken.1 taken.2
  exact ⟨heap, last, booted, run, follows heap last booted run meets⟩

/-- The same for runs of safe actions. -/
theorem booted_safeRun
    (reached : bootedReaches (fun session action => session.Allowed action ∧ session.Safe action)
      actions goal)
    (follows : ∀ heap last, blankHeap.init zeroVmm = some (true, heap) →
      Run SafeStep ⟨heap, []⟩ actions last → goal last → shown heap last) :
    ∃ heap last, blankHeap.init zeroVmm = some (true, heap) ∧
      Run SafeStep ⟨heap, []⟩ actions last ∧ shown heap last :=
  booted_run actions goal _ (fun _ _ _ => And.intro) reached follows

end

/-- A plain and an aligned allocation, of which one is moved by a resize and the other freed. -/
theorem heap_runs_tiled_moved :
    ∃ heap last, blankHeap.init zeroVmm = some (true, heap) ∧
      Run SafeStep ⟨heap, []⟩
        [.kmalloc zeroVmm 100, .kmallocAligned zeroVmm 64 64, .write (kernelHeapBase + 48) 7,
          .krealloc zeroVmm (kernelHeapBase + 48) 200, .kfree (kernelHeapBase + 256)] last ∧
      last.live = [⟨kernelHeapBase + 448, 200, kernelHeapBase + 400⟩] ∧
      ∃ blocks, last.WellFormed blocks := by
  apply booted_safeRun _
    (fun last => last.live = [⟨kernelHeapBase + 448, 200, kernelHeapBase + 400⟩]) (by decide +kernel)
  intro heap last booted run live
  exact ⟨live, (heap_runs_tiled rfl booted run).1⟩

theorem Heap.Holds.second_large {heap : Heap} {blocks : List Block} (holds : heap.Holds blocks)
    (more : heap.heapStart + heap.get heap.heapStart .size < heap.heapBrk) :
    headerSize ≤ heap.get (heap.heapStart + heap.get heap.heapStart .size) .size := by
  obtain ⟨shape, _⟩ := holds
  have tiles := shape.tiles
  cases blocks with
  | nil =>
    have : heap.heapStart = heap.heapBrk := tiles
    omega
  | cons first rest =>
    have firstSize := shape.size first List.mem_cons_self
    rw [tiles.1] at firstSize
    rw [firstSize] at more ⊢
    cases rest with
    | nil =>
      have : heap.heapStart + first.size = heap.heapBrk := tiles.2
      omega
    | cons second rest =>
      rw [← tiles.2.1, shape.size second (by simp)]
      exact second.large

/-- A freed block of 128 bytes is split for 96 bytes, and the rest of 32 bytes becomes a block that
its own header does not fit in. -/
theorem heap_split_undersized :
    ∃ heap last, blankHeap.init zeroVmm = some (true, heap) ∧
      Run AllowedStep ⟨heap, []⟩
        [.kmalloc zeroVmm 80, .kmalloc zeroVmm 16, .kfree (kernelHeapBase + 48),
          .kmalloc zeroVmm 48] last ∧
      ¬∃ blocks, last.WellFormed blocks := by
  apply booted_run _
    (fun last =>
      last.heap.heapStart + last.heap.get last.heap.heapStart .size < last.heap.heapBrk ∧
      last.heap.get (last.heap.heapStart + last.heap.get last.heap.heapStart .size) .size = 32)
    (fun session action => session.Allowed action) (fun _ _ _ => And.intro) (by decide +kernel)
  intro heap last _ _ ⟨more, small⟩ ⟨blocks, wellFormed⟩
  have large := wellFormed.holds.second_large more
  rw [small] at large
  exact absurd large (by decide)

end Ccos
