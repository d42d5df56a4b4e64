import Ccos.Heap.FreeList

/-! A heap whose free list holds exactly the unused blocks, and the merging of such blocks. -/

namespace Ccos

open Lib

def unusedAddrs (blocks : List Block) : List Nat :=
  (blocks.filter fun block => !block.used).map Block.addr

def usedBlocks (blocks : List Block) : List Block :=
  blocks.filter Block.used

/-- The blocks up to a new unused block, which the block before it absorbs if it is unused too. -/
def joined (before : List Block) (block : Block) : List Block :=
  match before.getLast? with
  | some prev => if prev.used then before ++ [block] else before.dropLast ++ [prev.merge block]
  | none => [block]

section Lists

variable {block : Block} {before behind : List Block}

@[simp] theorem unusedAddrs_nil : unusedAddrs [] = [] := rfl

@[simp] theorem unusedAddrs_append :
    unusedAddrs (before ++ behind) = unusedAddrs before ++ unusedAddrs behind := by
  simp [unusedAddrs]

theorem unusedAddrs_cons_unused (unused : block.used = false) :
    unusedAddrs (block :: behind) = block.addr :: unusedAddrs behind := by
  simp [unusedAddrs, unused]

theorem unusedAddrs_cons_used (used : block.used = true) :
    unusedAddrs (block :: behind) = unusedAddrs behind := by
  simp [unusedAddrs, used]

theorem mem_unusedAddrs {node : Nat} :
    node ∈ unusedAddrs before ↔ ∃ block ∈ before, block.used = false ∧ block.addr = node := by
  simp [unusedAddrs, and_assoc]

@[simp] theorem usedBlocks_append :
    usedBlocks (before ++ behind) = usedBlocks before ++ usedBlocks behind := by
  simp [usedBlocks]

theorem usedBlocks_cons_unused (unused : block.used = false) :
    usedBlocks (block :: behind) = usedBlocks behind := by
  simp [usedBlocks, unused]

theorem usedBlocks_cons_used (used : block.used = true) :
    usedBlocks (block :: behind) = block :: usedBlocks behind := by
  simp [usedBlocks, used]

theorem mem_usedBlocks : block ∈ usedBlocks before ↔ block ∈ before ∧ block.used = true := by
  simp [usedBlocks]

theorem joined_concat {prev : Block} : joined (before ++ [prev]) block =
    if prev.used then before ++ [prev] ++ [block] else before ++ [prev.merge block] := by
  simp [joined]

theorem usedBlocks_joined (unused : block.used = false) :
    usedBlocks (joined before block) = usedBlocks before := by
  rcases List.eq_nil_or_concat' before with rfl | ⟨rest, prev, rfl⟩
  · exact usedBlocks_cons_unused unused
  · rw [joined_concat]
    cases prevUsed : prev.used with
    | true => simp [usedBlocks_cons_used prevUsed, usedBlocks_cons_unused unused]
    | false =>
      simp [usedBlocks_cons_unused prevUsed,
        usedBlocks_cons_unused (show (prev.merge block).used = false from prevUsed)]

end Lists

namespace Heap

variable {heap : Heap} {stop : Nat} {blocks before behind : List Block}
  {free pending : List Nat} {block : Block}

/-- The heap consists of these blocks up to its break, and its free list of the unused ones. -/
@[grind]
structure Holds (heap : Heap) (blocks : List Block) (pending : List Nat := []) : Prop where
  shape : heap.Shape heap.heapBrk blocks (unusedAddrs blocks) pending
  paged : heap.heapBrk % pageSize = 0

section Order

variable (shape : heap.Shape stop (before ++ block :: behind) free pending)

include shape

theorem Shape.unused_ends : ∀ node ∈ unusedAddrs before, node + headerSize ≤ block.addr := by
  intro node member
  obtain ⟨other, inside, _, rfl⟩ := mem_unusedAddrs.mp member
  have large := other.large
  have := (List.pairwise_append.mp shape.tiles.pairwise).2.2 other inside block List.mem_cons_self
  omega

theorem Shape.unused_starts : ∀ node ∈ unusedAddrs behind, block.addr + block.size ≤ node := by
  intro node member
  obtain ⟨other, inside, _, rfl⟩ := mem_unusedAddrs.mp member
  exact (List.pairwise_cons.mp (List.pairwise_append.mp shape.tiles.pairwise).2.1).1 other inside

theorem Shape.unused_below : ∀ node ∈ unusedAddrs before, node < block.addr := by
  intro node member
  have ends := shape.unused_ends node member
  simp only [headerSize] at ends
  omega

theorem Shape.unused_above : ∀ node ∈ unusedAddrs behind, block.addr < node := by
  intro node member
  have large := block.large
  have starts := shape.unused_starts node member
  simp only [headerSize] at large
  omega

theorem Shape.follows : behind = [] ∧ block.addr + block.size = stop ∨
    ∃ next rest, behind = next :: rest ∧ next.addr = block.addr + block.size := by
  obtain ⟨low, _, here, later⟩ := Tiles.append.mp shape.tiles
  cases behind with
  | nil => exact .inl ⟨rfl, by rw [here]; exact later⟩
  | cons next rest => exact .inr ⟨next, rest, rfl, by rw [here]; exact later.1⟩

end Order

theorem Shape.nextBlock (shape : heap.Shape stop blocks free pending) (member : block ∈ blocks) :
    heap.nextBlock block.addr = block.addr + block.size := by
  rw [Heap.nextBlock, shape.size block member, wrap64_of_lt (shape.bounds member).2.2.2]

theorem coalesceNext_eq_self {addr : Nat} (apart : heap.isLastBlock addr = true ∨
    (!heap.isUsed (heap.nextBlock addr) && heap.validateBlock (heap.nextBlock addr)) = false) :
    heap.coalesceNext addr = some heap := by
  unfold Heap.coalesceNext
  grind

/-- An unused block that is valid and not beyond the region is merged into the one before it. -/
theorem Shape.coalesceNext {next : Block} {rest : List Block}
    (shape : heap.Shape heap.heapBrk (before ++ block :: next :: rest)
      (unusedAddrs (before ++ block :: next :: rest)) pending)
    (unused : block.used = false) (nextUnused : next.used = false)
    (inner : ¬heap.isLastBlock block.addr = true) (valid : heap.validateBlock next.addr = true) :
    ∃ after, heap.coalesceNext block.addr = some after ∧
      after.Shape after.heapBrk (before ++ block.merge next :: rest)
        (unusedAddrs (before ++ block.merge next :: rest)) pending ∧
      Frame heap after (before ++ block :: next :: rest) := by
  have here : block ∈ before ++ block :: next :: rest := by simp
  have nextIn : next ∈ before ++ block :: next :: rest := by simp
  have follows : next.addr = block.addr + block.size := by
    rcases shape.follows with ⟨empty, _⟩ | ⟨other, _, same, follows⟩
    · cases empty
    · rw [(List.cons.inj same).1, follows]
  have free : (!heap.isUsed next.addr && heap.validateBlock next.addr) = true := by
    simp [shape.isUsed nextIn, nextUnused, valid]
  have listed : unusedAddrs (before ++ block :: next :: rest) =
      (unusedAddrs before ++ [block.addr]) ++ next.addr :: unusedAddrs rest := by
    simp [unusedAddrs_cons_unused unused, unusedAddrs_cons_unused nextUnused]
  have removed := shape.removed nextIn nextUnused
  have apart : next.addr ∉ (unusedAddrs before ++ [block.addr]) ++ unusedAddrs rest := by
    have nodup : (unusedAddrs (before ++ block :: next :: rest)).Nodup :=
      shape.sorted.imp Nat.ne_of_lt
    grind
  rw [listed] at shape
  -- The block behind is unlinked, and then the block grows over it.
  have unlinked := shape.unlink nextIn
  obtain ⟨prevBlock, nextBlock⟩ := shape.neighbour_blocks
  have frame := shape.frame_unlink nextIn prevBlock nextBlock
  generalize heap.unlink next.addr (heap.get next.addr .prev) (heap.get next.addr .next) = middle
    at removed unlinked frame
  have small : block.size + next.size < 2 ^ 64 := by
    have := shape.bounds nextIn
    omega
  refine ⟨middle.set block.addr .size (block.size + next.size), ?_, ?_,
    frame.trans (unlinked.frame_set here _ _ _) fun _ => id⟩
  · rw [Heap.coalesceNext, if_neg inner]
    simp only [shape.nextBlock here, ← follows, free, if_true, removed, Option.bind_eq_bind,
      Option.bind_some, unlinked.size block here, unlinked.size next nextIn, wrap64_of_lt small]
  · have brk : (middle.set block.addr .size (block.size + next.size)).heapBrk = heap.heapBrk :=
      frame.heapBrk
    have relisted : unusedAddrs (before ++ block.merge next :: rest) =
        (unusedAddrs before ++ [block.addr]) ++ unusedAddrs rest := by
      simp [unusedAddrs_cons_unused (show (block.merge next).used = false from unused)]
    rw [brk, relisted]
    exact unlinked.merge apart

theorem Holds.coalesceNext (holds : heap.Holds (before ++ block :: behind) pending)
    (unused : block.used = false) (clear : heap.nextBlock block.addr ∉ pending) :
    ∃ after grown rest, heap.coalesceNext block.addr = some after ∧
      after.Holds (before ++ grown :: rest) pending ∧ grown.addr = block.addr ∧ grown.used = false ∧
      usedBlocks rest = usedBlocks behind ∧ Frame heap after (before ++ block :: behind) := by
  obtain ⟨shape, paged⟩ := holds
  by_cases apart : heap.isLastBlock block.addr = true ∨
      (!heap.isUsed (heap.nextBlock block.addr) &&
        heap.validateBlock (heap.nextBlock block.addr)) = false
  · exact ⟨heap, block, behind, coalesceNext_eq_self apart, ⟨shape, paged⟩, rfl, unused, rfl,
      .refl _ _⟩
  obtain ⟨inner, free⟩ := not_or.mp apart
  have within : block.addr + block.size < heap.heapBrk := by
    simp only [isLastBlock, shape.nextBlock mem_here, Bool.or_eq_true, decide_eq_true_eq] at inner
    omega
  rcases shape.follows with ⟨_, ends⟩ | ⟨next, rest, rfl, follows⟩
  · omega
  have nextIn : next ∈ before ++ block :: next :: rest := by simp
  rw [shape.nextBlock mem_here, ← follows] at free clear
  obtain ⟨notUsed, valid⟩ := Bool.and_eq_true_iff.mp (Bool.not_eq_false _ ▸ free)
  have nextUnused : next.used = false := by
    simpa [shape.isUsed nextIn, clear] using notUsed
  obtain ⟨after, merged, afterShape, frame⟩ := shape.coalesceNext unused nextUnused inner valid
  exact ⟨after, block.merge next, rest, merged, ⟨afterShape, frame.heapBrk ▸ paged⟩, rfl, unused,
    (usedBlocks_cons_unused nextUnused).symm, frame⟩

theorem set_comm {first second value other : Nat} {field another : HeaderField}
    (separate : first = second ∨ first + headerSize ≤ second ∨ second + headerSize ≤ first)
    (different : field ≠ another) :
    (heap.set first field value).set second another other =
      (heap.set second another other).set first field value := by
  have inside := field_le field
  have otherInside := field_le another
  have apart := fields_apart different
  simp only [set, Heap.mk.injEq, and_true]
  funext place
  simp only [ByteMem.store]
  grind

/-- Unlinking does not touch sizes, so that a size may be written before or after it. -/
theorem Shape.unlink_set_size (shape : heap.Shape stop blocks free pending) (member : block ∈ blocks)
    {prev next value : Nat} {other : Block} (inside : other ∈ blocks)
    (prevBlock : NodeIn blocks prev) (nextBlock : NodeIn blocks next) :
    (heap.set other.addr .size value).unlink block.addr prev next =
      (heap.unlink block.addr prev next).set other.addr .size value := by
  have forth (middle : Heap) : (middle.set other.addr .size value).linkNext prev next =
      (middle.linkNext prev next).set other.addr .size value := by
    unfold linkNext
    split
    · rename_i given
      obtain ⟨node, isNode, rfl⟩ := prevBlock given
      exact set_comm (shape.separate inside isNode) (by simp)
    · rfl
  have back (middle : Heap) : (middle.set other.addr .size value).linkPrev next prev =
      (middle.linkPrev next prev).set other.addr .size value := by
    unfold linkPrev
    split
    · rename_i given
      obtain ⟨node, isNode, rfl⟩ := nextBlock given
      exact set_comm (shape.separate inside isNode) (by simp)
    · rfl
  rw [Heap.unlink, forth, back, set_comm (shape.separate inside member) (by simp),
    set_comm (shape.separate inside member) (by simp), ← Heap.unlink]

theorem Shape.directly_before (shape : heap.Shape stop (before ++ block :: behind) free pending)
    {prev : Block} (member : prev ∈ before) (meets : prev.addr + prev.size = block.addr) :
    ∃ rest, before = rest ++ [prev] := by
  obtain ⟨rest, between, rfl⟩ := List.append_of_mem member
  rw [List.append_assoc, List.cons_append] at shape
  cases between with
  | nil => exact ⟨rest, rfl⟩
  | cons other others =>
    -- A block in between would start where the later one starts.
    rcases shape.follows with ⟨empty, _⟩ | ⟨next, _, same, follows⟩
    · cases empty
    · obtain ⟨rfl, _⟩ := List.cons.inj same
      have around : heap.Shape stop ((rest ++ prev :: other :: others) ++ block :: behind) free
          pending := by
        simpa using shape
      exact absurd (follows.trans meets) (around.addr_ne (by simp))

theorem Shape.joined_of_apart {last : Nat}
    (shape : heap.Shape stop (before ++ block :: behind) free pending)
    (listed : Linked (heap.get · .prev) (heap.get · .next) 0 heap.freeList (unusedAddrs before) last
      block.addr)
    (apart : ¬(last ≠ 0 ∧ wrap64 (last + heap.get last .size) = block.addr)) :
    joined before block = before ++ [block] := by
  rcases List.eq_nil_or_concat' before with empty | ⟨rest, prev, split⟩
  · rw [empty]
    rfl
  subst split
  rw [joined_concat]
  cases prevUsed : prev.used with
  | true => rw [if_pos rfl]
  | false =>
    -- An unused block right before would be the last node, and end here.
    have prevIn : prev ∈ (rest ++ [prev]) ++ block :: behind := by simp
    have bounds := shape.bounds prevIn
    rw [unusedAddrs_append, unusedAddrs_cons_unused prevUsed] at listed
    refine absurd ⟨?_, ?_⟩ apart
    · rw [listed.last_concat]
      exact Nat.ne_of_gt bounds.1
    · rw [listed.last_concat, shape.size prev prevIn, wrap64_of_lt bounds.2.2.2]
      obtain ⟨_, early, start, _⟩ := Tiles.append.mp shape.tiles
      obtain ⟨_, _, here, ends⟩ := Tiles.append.mp early
      rw [here, start]
      exact ends

/-- A block that is merged into the unused block right before it. -/
theorem Shape.mergeIntoPrev {rest : List Block} {prev : Block}
    (shape : heap.Shape stop ((rest ++ [prev]) ++ block :: behind)
      (unusedAddrs (rest ++ [prev]) ++ block.addr :: unusedAddrs behind) pending)
    (unused : block.used = false) (prevUnused : prev.used = false) :
    ∃ after, (heap.set prev.addr .size (prev.size + block.size)).removeFromFreeList block.addr =
        some after ∧
      after.Shape stop (rest ++ prev.merge block :: behind)
        (unusedAddrs (rest ++ prev.merge block :: behind)) pending ∧
      Frame heap after ((rest ++ [prev]) ++ block :: behind) := by
  have here : block ∈ (rest ++ [prev]) ++ block :: behind := by simp
  have prevIn : prev ∈ (rest ++ [prev]) ++ block :: behind := by simp
  have different : block.addr ≠ prev.addr := by
    have := shape.unused_below prev.addr
      (mem_unusedAddrs.mpr ⟨prev, by simp, prevUnused, rfl⟩)
    omega
  have absent : block.addr ∉ unusedAddrs (rest ++ [prev]) ++ unusedAddrs behind :=
    (List.nodup_cons.mp (List.nodup_middle.mp (shape.sorted.imp Nat.ne_of_lt))).1
  obtain ⟨prevBlock, nextBlock⟩ := shape.neighbour_blocks
  -- The source grows the block before and then unlinks; the order does not matter.
  have unlinked := shape.unlink here
  have frame := shape.frame_unlink here prevBlock nextBlock
  have swapped : ∀ value, (heap.set prev.addr .size value).unlink block.addr
      (heap.get block.addr .prev) (heap.get block.addr .next) = _ :=
    fun value => shape.unlink_set_size here prevIn prevBlock nextBlock
  have done : (heap.set prev.addr .size (prev.size + block.size)).removeFromFreeList block.addr =
      some ((heap.unlink block.addr (heap.get block.addr .prev) (heap.get block.addr .next)).set
        prev.addr .size (prev.size + block.size)) := by
    have notUsed : ¬(heap.set prev.addr .size (prev.size + block.size)).isUsed block.addr = true := by
      have unmarked := shape.isUsed here
      simpa [Heap.isUsed, shape.get_set_other prevIn here different, unused] using unmarked
    rw [removeFromFreeList, if_neg notUsed, shape.get_set_other prevIn here different,
      shape.get_set_other prevIn here different, swapped]
  refine ⟨_, done, ?_, frame.trans (unlinked.frame_set prevIn _ _ _) fun _ => id⟩
  have relisted : unusedAddrs (rest ++ prev.merge block :: behind) =
      unusedAddrs (rest ++ [prev]) ++ unusedAddrs behind := by
    simp [unusedAddrs_cons_unused (show (prev.merge block).used = false from prevUnused),
      unusedAddrs_cons_unused prevUnused]
  rw [relisted]
  simp only [List.append_assoc, List.cons_append, List.nil_append] at unlinked absent ⊢
  exact unlinked.merge absent

theorem Shape.coalescePrev (shape : heap.Shape heap.heapBrk (before ++ block :: behind)
    (unusedAddrs (before ++ block :: behind)) pending) (unused : block.used = false) :
    ∃ after, heap.coalescePrev block.addr = some after ∧
      after.Shape after.heapBrk (joined before block ++ behind)
        (unusedAddrs (joined before block ++ behind)) pending ∧
      Frame heap after (before ++ block :: behind) := by
  have listed : unusedAddrs (before ++ block :: behind) =
      unusedAddrs before ++ block.addr :: unusedAddrs behind := by
    simp [unusedAddrs_cons_unused unused]
  rw [listed] at shape
  obtain ⟨_, smaller, _, prevIs, _⟩ := shape.neighbours
  have walked : heap.walkBefore block.addr walkLimit 0 heap.freeList =
      some (heap.get block.addr .prev, block.addr) := by
    apply walkBefore_linked smaller shape.unused_below (.inr (Nat.le_refl _))
    have := shape.free_length
    rw [List.length_append] at this
    omega
  by_cases joins : heap.get block.addr .prev ≠ 0 ∧
      wrap64 (heap.get block.addr .prev + heap.get (heap.get block.addr .prev) .size) = block.addr
  swap
  · refine ⟨heap, ?_, ?_, .refl _ _⟩
    · simp only [Heap.coalescePrev, walked, Option.bind_eq_bind, Option.bind_some, if_neg joins]
    · rw [shape.joined_of_apart smaller joins, List.append_assoc, List.singleton_append]
      exact listed ▸ shape
  -- The node before ends at the block, and so it is the block right before.
  obtain ⟨prev, inBefore, prevUnused, prevAddr⟩ :=
    mem_unusedAddrs.mp (prevIs.resolve_left joins.1)
  have prevIn : prev ∈ before ++ block :: behind := List.mem_append_left _ inBefore
  have bounds := shape.bounds prevIn
  rw [← prevAddr, shape.size prev prevIn, wrap64_of_lt bounds.2.2.2] at joins
  obtain ⟨rest, rfl⟩ := shape.directly_before inBefore joins.2
  have small : prev.size + block.size < 2 ^ 64 := by
    have := shape.bounds mem_here
    omega
  obtain ⟨after, done, merged, frame⟩ := shape.mergeIntoPrev unused prevUnused
  have absorbed : joined (rest ++ [prev]) block ++ behind = rest ++ prev.merge block :: behind := by
    simp [joined_concat, prevUnused]
  refine ⟨after, ?_, ?_, frame⟩
  · rw [Heap.coalescePrev, walked]
    simp only [Option.bind_eq_bind, Option.bind_some, ← prevAddr, shape.size prev prevIn,
      shape.size block mem_here, wrap64_of_lt bounds.2.2.2, wrap64_of_lt small, if_pos joins, done]
  · rw [absorbed, frame.heapBrk]
    exact merged

theorem Holds.coalescePrev (holds : heap.Holds (before ++ block :: behind) pending)
    (unused : block.used = false) :
    ∃ after, heap.coalescePrev block.addr = some after ∧
      after.Holds (joined before block ++ behind) pending ∧
      Frame heap after (before ++ block :: behind) := by
  obtain ⟨after, merged, shape, frame⟩ := holds.shape.coalescePrev unused
  exact ⟨after, merged, ⟨shape, frame.heapBrk ▸ holds.paged⟩, frame⟩

theorem Holds.coalesceBlock (holds : heap.Holds (before ++ block :: behind) pending)
    (unused : block.used = false) (clear : heap.nextBlock block.addr ∉ pending) :
    ∃ after blocks, heap.coalesceBlock block.addr = some after ∧ after.Holds blocks pending ∧
      usedBlocks blocks = usedBlocks (before ++ block :: behind) ∧
      Frame heap after (usedBlocks (before ++ block :: behind)) := by
  have notUsed : heap.isUsed block.addr = false := by
    simp [holds.shape.isUsed mem_here, unused]
  obtain ⟨middle, grown, rest, first, middleHolds, sameAddr, grownUnused, kept, frame⟩ :=
    holds.coalesceNext unused clear
  obtain ⟨after, second, afterHolds, later⟩ := middleHolds.coalescePrev grownUnused
  have same : usedBlocks (before ++ grown :: rest) = usedBlocks (before ++ block :: behind) := by
    simp [usedBlocks_cons_unused unused, usedBlocks_cons_unused grownUnused, kept]
  refine ⟨after, joined before grown ++ rest, ?_, afterHolds, ?_, ?_⟩
  · rw [Heap.coalesceBlock, notUsed, if_neg Bool.false_ne_true, first]
    simpa [sameAddr] using second
  · simp [usedBlocks_joined grownUnused, usedBlocks_cons_unused unused, kept]
  · refine (frame.mono fun other member => (mem_usedBlocks.mp member).1).trans later
      fun other member => ?_
    rw [← same] at member
    exact (mem_usedBlocks.mp member).1

section Unique

variable {others : List Block}

theorem tiles_unique {start : Nat} (tiles : Tiles Block.addr Block.size start blocks stop)
    (another : Tiles Block.addr Block.size start others stop)
    (read : ∀ block ∈ blocks, heap.get block.addr .size = block.size ∧
      heap.isUsed block.addr = block.used)
    (alsoRead : ∀ block ∈ others, heap.get block.addr .size = block.size ∧
      heap.isUsed block.addr = block.used) : blocks = others := by
  -- A block is never empty, so that neither list can end before the other.
  have nonempty (block : Block) : 0 < block.size :=
    Nat.lt_of_lt_of_le (by decide) block.large
  induction blocks generalizing start others with
  | nil =>
    cases others with
    | nil => rfl
    | cons other rest =>
      have ends : start = stop := tiles
      have := another.2.le
      have := nonempty other
      omega
  | cons block rest ih =>
    cases others with
    | nil =>
      have ends : start = stop := another
      have := tiles.2.le
      have := nonempty block
      omega
    | cons other more =>
      have sameAddr : block.addr = other.addr := tiles.1.trans another.1.symm
      obtain ⟨size, used⟩ := read block List.mem_cons_self
      obtain ⟨otherSize, otherUsed⟩ := alsoRead other List.mem_cons_self
      have sameSize : block.size = other.size := by rw [← size, sameAddr, otherSize]
      have sameUsed : block.used = other.used := by rw [← used, sameAddr, otherUsed]
      have same := Block.eq_of_fields sameAddr sameSize sameUsed
      subst same
      rw [ih tiles.2 another.2 (fun other member => read other (List.mem_cons_of_mem _ member))
        fun other member => alsoRead other (List.mem_cons_of_mem _ member)]

/-- A heap consists of one list of blocks only. -/
theorem Holds.unique (holds : heap.Holds blocks) (another : heap.Holds others) : blocks = others :=
  tiles_unique holds.shape.tiles another.shape.tiles
    (fun block member => ⟨holds.shape.size block member, by simp [holds.shape.isUsed member]⟩)
    fun block member => ⟨another.shape.size block member, by simp [another.shape.isUsed member]⟩

end Unique

end Heap

end Ccos
