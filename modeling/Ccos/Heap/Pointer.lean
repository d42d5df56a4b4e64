import Ccos.Heap.Alloc

/-! The pointers that the allocator hands out, the way back from a pointer to its block, and the
calls that hand out aligned pointers and that resize. -/

namespace Ccos

open Lib

/-- A pointer that was handed out, the bytes that were asked for, and the block that they are in. -/
structure Allocation where
  ptr : Nat
  size : Nat
  block : Nat
  deriving DecidableEq, Repr

/-- The bytes of an allocation are in the payload of a block: at its start, or behind a note of
where it starts. -/
@[grind] structure Allocation.LivesIn (a : Allocation) (heap : Heap) (block : Block) : Prop where
  addr : a.block = block.addr
  positive : 0 < a.size
  low : block.addr + headerSize ≤ a.ptr
  high : a.ptr + a.size ≤ block.addr + block.size
  noted : a.ptr = block.addr + headerSize ∨
    block.addr + headerSize + 8 ≤ a.ptr ∧
      heap.mem.load (a.ptr - 8) 8 = block.addr + headerSize

/-- Bytes that an aligned allocation asks for: room for moving the pointer and for a note. -/
def alignedTotal (size alignment : Nat) : Nat :=
  totalBlockSize size + usedAlignment alignment + 8

theorem usedAlignment_power {alignment : Nat} (nonzero : alignment ≠ 0)
    (power : alignment &&& (alignment - 1) = 0) :
    usedAlignment alignment ≠ 0 ∧ usedAlignment alignment &&& (usedAlignment alignment - 1) = 0 := by
  unfold usedAlignment
  by_cases less : alignment < heapAlign
  · rw [if_pos less]
    decide
  · rw [if_neg less]
    exact ⟨nonzero, power⟩

/-- Rounding an address up to a power of two, where that does not wrap. -/
theorem roundUp_bounds {addr alignment : Nat} (nonzero : alignment ≠ 0)
    (power : alignment &&& (alignment - 1) = 0) (small : addr + alignment < 2 ^ 64) :
    addr ≤ (wrap64 (addr + alignment - 1) &&& not64 (alignment - 1)) ∧
      (wrap64 (addr + alignment - 1) &&& not64 (alignment - 1)) < addr + alignment ∧
      (wrap64 (addr + alignment - 1) &&& not64 (alignment - 1)) % alignment = 0 := by
  obtain ⟨k, rfl⟩ := (Nat.and_sub_one_eq_zero_iff_isPowerOfTwo nonzero).mp power
  have noWrap : addr + 2 ^ k - 1 < 2 ^ 64 := by omega
  have fits : k ≤ 64 := by
    have : 2 ^ k < 2 ^ 64 := by omega
    exact Nat.le_of_lt ((Nat.pow_lt_pow_iff_right (by decide)).mp this)
  rw [wrap64_of_lt noWrap, land_not64_low noWrap fits]
  have below := Nat.div_mul_le_self (addr + 2 ^ k - 1) (2 ^ k)
  have above := Nat.lt_div_mul_add (a := addr + 2 ^ k - 1) (Nat.two_pow_pos k)
  exact ⟨by omega, by omega, Nat.mul_mod_left _ _⟩

variable {heap after : Heap} {size : Nat} {blocks before behind : List Block} {pending : List Nat}
  {block : Block}
  {a : Allocation}

theorem Allocation.LivesIn.kept (lives : a.LivesIn heap block)
    (kept : ∀ place, block.addr + noteOffset ≤ place → place < block.addr + block.size →
      after.mem place = heap.mem place) : a.LivesIn after block := by
  refine ⟨lives.addr, lives.positive, lives.low, lives.high, lives.noted.imp id ?_⟩
  rintro ⟨behind, note⟩
  refine ⟨behind, ?_⟩
  rw [← note]
  have := lives.high
  have := Heap.noteOffset_le
  exact ByteMem.load_congr fun place low high => kept place (by omega) (by omega)

namespace Heap

/-- The pointer of an allocation that starts its payload leads to its block; what is noted before
such a pointer are bytes of the header that are never written. -/
@[grind =] def Found (heap : Heap) (a : Allocation) : Prop :=
  a.ptr = a.block + headerSize → heap.ptrToBlock a.ptr = a.block

instance (heap : Heap) (a : Allocation) : Decidable (heap.Found a) :=
  inferInstanceAs (Decidable (_ → _))

theorem Holds.ptrToBlock_noted (holds : heap.Holds blocks) (inside : block ∈ blocks)
    (lives : a.LivesIn heap block) (behind : block.addr + headerSize + 8 ≤ a.ptr)
    (note : heap.mem.load (a.ptr - 8) 8 = block.addr + headerSize) :
    heap.ptrToBlock a.ptr = block.addr := by
  obtain ⟨positive, start, stop, small⟩ := holds.shape.bounds inside
  have high := lives.high
  have nonempty := lives.positive
  have aligned := holds.shape.addr_aligned inside
  have read : heap.mem.load (sub64 a.ptr 8) 8 = block.addr + headerSize := by
    rw [sub64_of_le (by omega) (by omega)]
    exact note
  have back : sub64 (block.addr + headerSize) headerSize = block.addr := by
    rw [sub64_of_le (by omega) (by omega)]
    omega
  have ends : sub64 (wrap64 (block.addr + headerSize + block.size)) headerSize =
      block.addr + block.size := by
    simp only [sub64, wrap64, headerSize]
    omega
  have hint : (block.addr + headerSize) &&& 0xF = 0 := by
    have low : (block.addr + headerSize) &&& 0xF = (block.addr + headerSize) % 16 :=
      Nat.and_two_pow_sub_one_eq_mod _ 4
    rw [low]
    simp only [heapAlign, headerSize] at aligned ⊢
    omega
  rw [ptrToBlock, read]
  simp only [back, holds.shape.magic block inside, holds.shape.size block inside, ends]
  grind

theorem Holds.ptrToBlock (holds : heap.Holds blocks) (inside : block ∈ blocks)
    (lives : a.LivesIn heap block) (found : heap.Found a) : heap.ptrToBlock a.ptr = block.addr := by
  rcases lives.noted with direct | ⟨behind, note⟩
  · rw [found (by rw [direct, lives.addr]), lives.addr]
  · exact holds.ptrToBlock_noted inside lives behind note

/-- What handing out a pointer does to the blocks: nothing for null, and otherwise one more block
is used, and the allocation lives in it. -/
inductive HandsOut (a : Allocation) (after : Heap) (blocks blocks' : List Block) : Prop
  | nothing (null : a.ptr = 0) (same : usedBlocks blocks' = usedBlocks blocks)
  | block (taken : Block) (left right : List Block) (nonnull : a.ptr ≠ 0)
      (lives : a.LivesIn after taken) (was : usedBlocks blocks = left ++ right)
      (becomes : usedBlocks blocks' = left ++ taken :: right)

theorem Holds.kmalloc_handsOut (holds : heap.Holds blocks) (ready : heap.initialized = true)
    (vmm : Vmm) (rounds : Rounds size) (safe : size ≠ 0 → heap.AllocSafe vmm size) :
    ∃ ptr after blocks', heap.kmalloc vmm size = some (ptr, after) ∧ after.Holds blocks' ∧
      Keeps heap after (usedBlocks blocks) ∧
      HandsOut ⟨ptr, size, ptr - headerSize⟩ after blocks blocks' := by
  obtain ⟨ptr, after, blocks', done, afterHolds, keeps, allocates⟩ :=
    holds.kmalloc ready vmm (totalBlockSize_bounds rounds).1 safe nofun
  refine ⟨ptr, after, blocks', done, afterHolds, keeps, ?_⟩
  cases allocates with
  | nothing null same => exact .nothing null same
  | block taken left right pointer enough was becomes =>
    have nonnull : ptr ≠ 0 := by
      simp only [headerSize] at pointer
      omega
    have positive : 0 < size := by
      by_contra zero
      have null : heap.kmalloc vmm size = some (0, heap) := by
        simp [Heap.kmalloc, ready, Nat.eq_zero_of_not_pos zero]
      grind
    refine .block taken left right nonnull ⟨?_, positive, ?_, ?_, .inl pointer⟩ was becomes
    all_goals simp only [pointer]; omega

theorem Holds.used_apart (holds : heap.Holds blocks pending) {taken other : Block}
    {left right : List Block}
    (among : usedBlocks blocks = left ++ taken :: right) (member : other ∈ left ++ right) :
    other.addr + other.size ≤ taken.addr ∨ taken.addr + taken.size ≤ other.addr := by
  have pairwise : (usedBlocks blocks).Pairwise fun first second =>
      first.addr + first.size ≤ second.addr :=
    holds.shape.tiles.pairwise.sublist List.filter_sublist
  rw [among, List.pairwise_append, List.pairwise_cons] at pairwise
  rcases List.mem_append.mp member with inLeft | inRight
  · exact .inl (pairwise.2.2 other inLeft taken List.mem_cons_self)
  · exact .inr (pairwise.2.1.1 other inRight)

theorem Holds.note (holds : heap.Holds blocks) {taken : Block} {left right : List Block}
    (among : usedBlocks blocks = left ++ taken :: right) {align ptr : Nat} (nonzero : align ≠ 0)
    (power : align &&& (align - 1) = 0) (positive : 0 < size)
    (enough : size + headerSize + align + 8 ≤ taken.size)
    (aligned : ptr = wrap64 (taken.addr + headerSize + 8 + align - 1) &&& not64 (align - 1))
    (noted : after =
      { heap with mem := heap.mem.store (sub64 ptr 8) 8 (taken.addr + headerSize) }) :
    after.Holds blocks ∧ Keeps heap after (left ++ right) ∧ ptr ≠ 0 ∧
      Allocation.LivesIn ⟨ptr, size, after.mem.load (ptr - 8) 8 - headerSize⟩ after taken ∧
      ptr % align = 0 ∧ taken.addr + headerSize + 8 ≤ ptr := by
  have inside : taken ∈ blocks := by
    have member : taken ∈ usedBlocks blocks := by simp [among]
    exact (mem_usedBlocks.mp member).1
  have bounds := holds.shape.bounds inside
  obtain ⟨low, high, multiple⟩ := roundUp_bounds nonzero power
    (show taken.addr + headerSize + 8 + align < 2 ^ 64 by omega)
  rw [← aligned] at low high multiple
  rw [sub64_of_le (by omega) (by omega)] at noted
  -- The note is written inside the payload.
  have outside (place : Nat) (away : place < taken.addr + headerSize ∨
      taken.addr + taken.size ≤ place) : after.mem place = heap.mem place := by
    rw [noted]
    exact ByteMem.store_of_outside (by omega)
  have read : after.mem.load (ptr - 8) 8 = taken.addr + headerSize := by
    rw [noted]
    refine ByteMem.load_store_same.trans (Nat.mod_eq_of_lt ?_)
    have : (256 : Nat) ^ 8 = 2 ^ 64 := by decide
    omega
  refine ⟨?_, ⟨fun other member place low high => outside place ?_, ?_, ?_, ?_⟩, by omega,
    ⟨?_, positive, by simp only; omega, by simp only; omega, .inr ⟨low, read⟩⟩, multiple, low⟩
  · have kept := holds.write inside outside
    rw [noted] at kept ⊢
    exact kept
  · rcases holds.used_apart among member with before | behind <;> omega
  all_goals grind

/-- An aligned allocation hands out a pointer behind a note of where the payload starts. -/
theorem Holds.kmallocAligned_handsOut (holds : heap.Holds blocks)
    (ready : heap.initialized = true) (vmm : Vmm) {alignment : Nat} (rounds : Rounds size)
    (roundsTotal : Rounds (alignedTotal size alignment))
    (safe : size ≠ 0 → alignment ≠ 0 → alignment &&& (alignment - 1) = 0 →
      heap.AllocSafe vmm (alignedTotal size alignment)) :
    ∃ ptr after blocks', heap.kmallocAligned vmm size alignment = some (ptr, after) ∧
      after.Holds blocks' ∧ Keeps heap after (usedBlocks blocks) ∧
      HandsOut ⟨ptr, size, after.mem.load (ptr - 8) 8 - headerSize⟩ after blocks blocks' ∧
      (ptr ≠ 0 → ptr % usedAlignment alignment = 0 ∧
        after.mem.load (ptr - 8) 8 - headerSize + headerSize + 8 ≤ ptr) := by
  by_cases refused : size = 0 ∨ alignment = 0 ∨ alignment &&& (alignment - 1) ≠ 0
  · refine ⟨0, heap, blocks, ?_, holds, (Frame.refl _ _).toKeeps, .nothing rfl rfl,
      fun nonnull => absurd rfl nonnull⟩
    rw [Heap.kmallocAligned, ready, if_neg (by simp)]
    by_cases zero : size = 0
    · rw [if_pos zero]
    · rw [if_neg zero, if_pos (refused.resolve_left zero)]
  obtain ⟨zero, odd⟩ := not_or.mp refused
  obtain ⟨nonzero, power⟩ : alignment ≠ 0 ∧ alignment &&& (alignment - 1) = 0 := by
    simpa using odd
  obtain ⟨sizeFits, _, _⟩ := totalBlockSize_bounds rounds
  obtain ⟨totalFits, _, totalSmall⟩ := totalBlockSize_bounds roundsTotal
  have small : alignedTotal size alignment < 2 ^ 64 := by
    simp only [headerSize] at totalFits
    omega
  have noWrap : wrap64 (totalBlockSize size + usedAlignment alignment + 8) =
      alignedTotal size alignment := wrap64_of_lt small
  obtain ⟨raw, middle, blocks', done, middleHolds, keeps, allocates⟩ :=
    holds.kmalloc ready vmm totalFits (fun _ => safe zero nonzero power) (by simp)
  rw [Heap.kmallocAligned, ready, if_neg (by simp), if_neg zero, if_neg odd]
  simp only [noWrap]
  rw [done]
  simp only [Option.bind_eq_bind, Option.bind_some]
  cases allocates with
  | nothing null same =>
    exact ⟨0, middle, blocks', if_pos null, middleHolds, keeps, .nothing rfl same,
      fun nonnull => absurd rfl nonnull⟩
  | block taken left right pointer enough was becomes =>
    have nonnull : raw ≠ 0 := by
      simp only [headerSize] at pointer
      omega
    rw [if_neg nonnull, pointer]
    obtain ⟨nonzero, power⟩ := usedAlignment_power nonzero power
    obtain ⟨afterHolds, later, ptrNonnull, lives, multiple, behind⟩ :=
      middleHolds.note becomes nonzero power (Nat.pos_of_ne_zero zero)
        (by unfold alignedTotal at enough; omega) rfl rfl
    refine ⟨_, _, blocks', rfl, afterHolds, keeps.trans later fun other member => was ▸ member,
      .block taken left right ptrNonnull lives was becomes, fun _ => ⟨multiple, ?_⟩⟩
    grind

section Outcomes

variable {vmm : Vmm} {ptr newSize home : Nat} (nonnull : ptr ≠ 0) (positive : newSize ≠ 0)
  (ready : heap.initialized = true) (back : heap.ptrToBlock ptr = home)

include nonnull positive ready back

theorem krealloc_invalid (invalid : (heap.validateBlock home && heap.isUsed home) = false) :
    heap.krealloc vmm ptr newSize = some (0, heap) := by
  rw [Heap.krealloc, if_neg nonnull, if_neg positive, ready, if_neg (by simp)]
  rw [← Bool.not_eq_true', Bool.not_and] at invalid
  simp only [back, invalid, if_true]

variable (valid : heap.validateBlock home = true) (used : heap.isUsed home = true)

include valid used

theorem krealloc_inPlace (fits : totalBlockSize newSize ≤ heap.get home .size) :
    heap.krealloc vmm ptr newSize = some (ptr, heap) := by
  rw [Heap.krealloc, if_neg nonnull, if_neg positive, ready, if_neg (by simp)]
  grind

theorem krealloc_moves (larger : ¬totalBlockSize newSize ≤ heap.get home .size) :
    heap.krealloc vmm ptr newSize = (heap.kmalloc vmm newSize).bind fun moved =>
      if moved.1 = 0 then some (0, moved.2) else
        ((moved.2.copyPayload moved.1 ptr (sub64 (heap.get home .size) headerSize)
          newSize).kfree ptr).bind fun freed => some (moved.1, freed) := by
  rw [Heap.krealloc, if_neg nonnull, if_neg positive, ready, if_neg (by simp)]
  simp only [back, valid, used]
  rw [if_neg (by simp), if_neg larger]
  rfl

end Outcomes

end Heap

end Ccos
