import Ccos.Heap.Coalesce

/-! The choice of a block for an allocation: best fit on the free list, and the expansion of the
heap when nothing fits. -/

namespace Ccos

open Lib

/-- A size whose roundings to blocks and to pages stay within 64 bits. -/
@[grind =] def Rounds (size : Nat) : Prop :=
  (size + heapAlign - 1) / heapAlign * heapAlign + headerSize + pageSize ≤ 2 ^ 64

instance (size : Nat) : Decidable (Rounds size) :=
  inferInstanceAs (Decidable (_ ≤ _))

/-- A size whose block size stays within 64 bits. -/
@[grind =] def SizeFits (size : Nat) : Prop :=
  (size + heapAlign - 1) / heapAlign * heapAlign + headerSize < 2 ^ 64

instance (size : Nat) : Decidable (SizeFits size) :=
  inferInstanceAs (Decidable (_ < _))

variable {size : Nat}

theorem Rounds.sizeFits (rounds : Rounds size) : SizeFits size := by
  simp only [Rounds, pageSize, pageShift] at rounds
  unfold SizeFits
  omega

theorem totalBlockSize_of_fits (fits : SizeFits size) :
    totalBlockSize size = (size + heapAlign - 1) / heapAlign * heapAlign + headerSize := by
  simp only [SizeFits, heapAlign, headerSize] at fits
  have small : size + 16 - 1 < 2 ^ 64 := by omega
  have aligned : alignSize size = (size + 16 - 1) / 16 * 16 := by
    rw [alignSize, heapAlign, wrap64_of_lt small]
    exact land_not64_low (k := 4) small (by omega)
  rw [totalBlockSize, aligned]
  exact wrap64_of_lt fits

/-- A block for a payload is large enough for it, is a multiple of the alignment, and its rounding
to pages does not wrap. -/
theorem totalBlockSize_bounds (rounds : Rounds size) :
    size + headerSize ≤ totalBlockSize size ∧ totalBlockSize size % heapAlign = 0 ∧
      totalBlockSize size + pageSize ≤ 2 ^ 64 := by
  rw [totalBlockSize_of_fits rounds.sizeFits]
  simp only [Rounds, heapAlign, headerSize, pageSize, pageShift] at rounds ⊢
  omega

theorem four_le_expandPages (needed : Nat) : 4 ≤ expandPages needed := by
  unfold expandPages
  dsimp only
  split <;> omega

namespace Heap

variable {heap : Heap} {stop size : Nat} {blocks before behind : List Block}
  {free pending : List Nat} {block : Block}

/-- A best-fit walk finds a smallest node that is large enough, among the best one so far and the
nodes ahead, and the first of these. -/
theorem walkBestFit_linked {limit best back first last : Nat} {nodes : List Nat}
    (linked : Linked (heap.get · .prev) (heap.get · .next) back first nodes last 0)
    (sorted : nodes.Pairwise (· < ·)) (ahead : ∀ node ∈ nodes, best < node)
    (enough : nodes.length < limit) (fits : best = 0 ∨ size ≤ heap.get best .size) :
    ∃ found, heap.walkBestFit size limit best first = some found ∧
      (found = best ∨ found ∈ nodes) ∧ (found = 0 ∨ size ≤ heap.get found .size) ∧
      ∀ node, node = best ∧ best ≠ 0 ∨ node ∈ nodes → size ≤ heap.get node .size → found ≠ 0 ∧
        (heap.get found .size < heap.get node .size ∨
          heap.get found .size = heap.get node .size ∧ found ≤ node) := by
  -- The induction follows the nodes, and the best one so far carries over.
  induction nodes generalizing best back first limit with
  | nil =>
    obtain ⟨_, rfl⟩ := linked
    cases limit with
    | zero => simp at enough
    | succ limit =>
      refine ⟨best, if_pos rfl, .inl rfl, fits, ?_⟩
      grind
  | cons node rest ih =>
    obtain ⟨rfl, nonzero, _, later⟩ := linked
    cases limit with
    | zero => simp at enough
    | succ limit =>
      have shorter : rest.length < limit := by simpa using enough
      obtain ⟨next, increasing⟩ := List.pairwise_cons.mp sorted
      rw [walkBestFit, if_neg nonzero]
      by_cases better : size ≤ heap.get first .size ∧
          (best = 0 ∨ heap.get first .size < heap.get best .size)
      · rw [if_pos better]
        by_cases same : heap.get first .size = size
        · -- A node of just this size ends the walk.
          rw [if_pos same]
          refine ⟨first, rfl, .inr List.mem_cons_self, .inr better.1, fun node among large => ?_⟩
          grind
        · rw [if_neg same]
          obtain ⟨found, walked, _, large, least⟩ := ih later increasing next shorter (.inr better.1)
          refine ⟨found, walked, by grind, large, ?_⟩
          grind
      · -- A node that is large enough was passed over for one that is not larger.
        rw [if_neg better]
        obtain ⟨found, walked, _, large, least⟩ := ih later increasing
          (fun node member => ahead node (List.mem_cons_of_mem _ member)) shorter fits
        refine ⟨found, walked, by grind, large, ?_⟩
        grind

/-- The unused block that fits a size best: a smallest one that is large enough, and the first of
these. -/
structure BestBlock (blocks : List Block) (size : Nat) (block : Block) : Prop where
  inside : block ∈ blocks
  unused : block.used = false
  large : size ≤ block.size
  first : ∀ other ∈ blocks, other.used = false → size ≤ other.size →
    block.size < other.size ∨ block.size = other.size ∧ block.addr ≤ other.addr

theorem Shape.findBestFit (shape : heap.Shape stop blocks (unusedAddrs blocks) pending) (size : Nat) :
    heap.findBestFit size = some 0 ∧
        (∀ block ∈ blocks, block.used = false → block.size < size) ∨
      ∃ block, BestBlock blocks size block ∧ heap.findBestFit size = some block.addr := by
  obtain ⟨last, linked⟩ := shape.linked
  have ahead (node : Nat) (member : node ∈ unusedAddrs blocks) : 0 < node := by
    obtain ⟨block, inside, _, rfl⟩ := mem_unusedAddrs.mp member
    exact (shape.bounds inside).1
  obtain ⟨found, walked, among, large, least⟩ :=
    walkBestFit_linked linked shape.sorted ahead shape.free_length (.inl rfl)
  have seen (other : Block) (inside : other ∈ blocks) (unused : other.used = false)
      (otherLarge : size ≤ other.size) : found ≠ 0 ∧ (heap.get found .size < other.size ∨
        heap.get found .size = other.size ∧ found ≤ other.addr) := by
    have := least other.addr (.inr (mem_unusedAddrs.mpr ⟨other, inside, unused, rfl⟩))
      (by rwa [shape.size other inside])
    rwa [shape.size other inside] at this
  rcases among with rfl | member
  · refine .inl ⟨walked, fun block inside unused => ?_⟩
    grind
  · obtain ⟨block, inside, unused, rfl⟩ := mem_unusedAddrs.mp member
    rw [shape.size block inside] at large seen
    exact .inr ⟨block, ⟨inside, unused, large.resolve_left (Nat.ne_of_gt (shape.bounds inside).1),
      fun other otherIn otherUnused otherLarge => (seen other otherIn otherUnused otherLarge).2⟩,
      walked⟩

variable {after : Heap}

section Expansion

theorem Shape.setBrk (shape : heap.Shape stop blocks free pending) (brk : Nat) :
    ({ heap with heapBrk := brk } : Heap).Shape stop blocks free pending :=
  ⟨shape.tiles, shape.positive, shape.aligned, shape.stop_lt, fun block member =>
    (shape.headers block member).congr (fun _ => rfl) Iff.rfl, shape.linked, shape.inside,
    shape.sorted⟩

variable {mem : ByteMem} {addr : Nat}

theorem newMemory_below {place : Nat} (below : place < addr) :
    (heap.newMemory mem addr size).mem place = mem place := by
  have cleared : (heap.newMemory mem addr size).mem place =
      (initBlock { heap with mem := mem } addr size).mem place :=
    ByteMem.fill_of_outside (.inl (by omega))
  exact cleared.trans (initBlock_outside (.inl below))

theorem get_newMemory (small : size < 2 ^ 64) (field : HeaderField) :
    (heap.newMemory mem addr size).get addr field = freshField size field := by
  have kept : (heap.newMemory mem addr size).get addr field =
      (initBlock { heap with mem := mem } addr size).get addr field :=
    get_congr fun place _ high => ByteMem.fill_of_outside (.inl high)
  exact kept.trans (get_initBlock_same small)

/-- Merging the last block only looks at the block before. -/
theorem Holds.coalesceBlock_last (holds : heap.Holds (blocks ++ [block]) pending)
    (unused : block.used = false) :
    ∃ after, heap.coalesceBlock block.addr = some after ∧ after.Holds (joined blocks block) pending ∧
      Frame heap after (blocks ++ [block]) := by
  have here : block ∈ blocks ++ [block] := by simp
  have notUsed : heap.isUsed block.addr = false := by
    simp [holds.shape.isUsed here, unused]
  have last : heap.coalesceNext block.addr = some heap := by
    refine if_pos ?_
    rcases holds.shape.follows with ⟨_, ends⟩ | ⟨_, _, more, _⟩
    · simp [isLastBlock, holds.shape.nextBlock here, ends]
    · cases more
  obtain ⟨after, merged, afterHolds, frame⟩ := holds.coalescePrev unused
  refine ⟨after, ?_, by simpa using afterHolds, frame⟩
  rw [Heap.coalesceBlock, notUsed, if_neg Bool.false_ne_true, last]
  exact merged

theorem page_aligned (small : addr < 2 ^ 64) (paged : addr % pageSize = 0) :
    wrap64 (addr + pageSize - 1) &&& not64 (pageSize - 1) = addr := by
  have noWrap : addr + pageSize - 1 < 2 ^ 64 := by
    simp only [pageSize, pageShift] at paged ⊢
    omega
  have low : wrap64 (addr + pageSize - 1) &&& not64 (pageSize - 1) =
      (addr + pageSize - 1) / pageSize * pageSize := by
    rw [wrap64_of_lt noWrap]
    exact land_not64_low (k := 12) noWrap (by omega)
  rw [low]
  simp only [pageSize, pageShift] at paged ⊢
  omega

/-- An expansion fails and changes nothing, or it adds an unused block at the end, which the last
block absorbs if it is unused. -/
theorem Shape.expandHeapLocked (shape : heap.Shape stop blocks (unusedAddrs blocks) pending)
    (vmm : Vmm) (needed : Nat)
    (brk : (if heap.heapBrk = 0 then kernelHeapBase else heap.heapBrk) = stop)
    (paged : stop % pageSize = 0)
    (below : (vmm.allocPagesAt stop (expandPages needed) heap.mem).isSome →
      stop + expandPages needed * pageSize ≠ 2 ^ 64) :
    vmm.allocPagesAt stop (expandPages needed) heap.mem = none ∧
        heap.expandHeapLocked vmm needed = some (false, heap) ∨
      ∃ after new, (vmm.allocPagesAt stop (expandPages needed) heap.mem).isSome ∧
        heap.expandHeapLocked vmm needed = some (true, after) ∧
        after.Holds (joined blocks new) pending ∧ new.used = false ∧
        new.size = expandPages needed * pageSize ∧
        after.heapBrk = stop + expandPages needed * pageSize ∧ Keeps heap after blocks := by
  have target := page_aligned shape.stop_lt paged
  have many := four_le_expandPages needed
  have positive : 0 < stop := Nat.lt_of_lt_of_le shape.positive shape.tiles.le
  generalize pages : expandPages needed = count at many below ⊢
  cases mapped : vmm.allocPagesAt stop count heap.mem with
  | none =>
    refine .inl ⟨rfl, ?_⟩
    simp only [Heap.expandHeapLocked, brk, target, pages, mapped]
  | some mem =>
    obtain ⟨inside, outside⟩ := vmm.fresh mapped
    have below := below (by rw [mapped]; rfl)
    -- The new block takes up the pages.
    let new : Block := ⟨stop, count * pageSize, false, by
      simp only [headerSize, pageSize, pageShift]; omega, by
      simp only [heapAlign, pageSize, pageShift]; omega⟩
    have fits : count * pageSize < 2 ^ 64 := by omega
    have added : (heap.newMemory mem stop (count * pageSize)).Shape (stop + count * pageSize)
        (blocks ++ [new]) (unusedAddrs blocks ++ []) pending := by
      rw [List.append_nil]
      have placed : new.addr = stop := rfl
      refine shape.append _ placed (show stop + count * pageSize < 2 ^ 64 by omega) rfl rfl rfl
        (fun place low => ?_) (get_newMemory fits)
      rw [newMemory_below low, outside place (.inl low)]
    have last : new ∈ blocks ++ [new] := by simp
    obtain ⟨listed, inserted, listedShape, frame⟩ := added.insert last rfl
      (fun node member => added.unused_below node member) (by simp)
    have readSize : listed.get stop .size = count * pageSize := listedShape.size new last
    have end_lt : stop + count * pageSize < 2 ^ 64 := by omega
    have holds : ({ listed with heapBrk := stop + count * pageSize } : Heap).Holds
        (blocks ++ [new]) pending := by
      refine ⟨?_, ?_⟩
      · have relisted : unusedAddrs (blocks ++ [new]) = unusedAddrs blocks ++ [new.addr] := by
          rw [unusedAddrs_append, unusedAddrs_cons_unused rfl, unusedAddrs_nil]
        rw [relisted]
        exact listedShape.setBrk _
      · show (stop + count * pageSize) % pageSize = 0
        rw [Nat.add_mul_mod_self_right]
        exact paged
    obtain ⟨after, merged, afterHolds, later⟩ := holds.coalesceBlock_last rfl
    refine .inr ⟨after, new, rfl, ?_, afterHolds, rfl, rfl, later.heapBrk, ?_⟩
    · have put : (heap.newMemory mem stop (count * pageSize)).insertToFreeList stop = some listed :=
        inserted
      have joins : Heap.coalesceBlock { listed with heapBrk := stop + count * pageSize } stop =
          some after := merged
      simp only [Heap.expandHeapLocked, brk, target, pages, mapped, wrap64_of_lt fits,
        Option.bind_eq_bind, put, Option.bind_some, readSize, wrap64_of_lt end_lt, joins]
    · refine ⟨fun block member place low high => ?_, later.heapStart.trans frame.heapStart,
        later.heapEnd.trans frame.heapEnd, later.initialized.trans frame.initialized⟩
      have old : block ∈ blocks ++ [new] := List.mem_append_left _ member
      have inOld : place < stop := by
        have := (shape.bounds member).2.2.1
        omega
      rw [later.payload block old place low high]
      exact (frame.payload block old place low high).trans
        ((newMemory_below inOld).trans (outside place (.inl inOld)))

end Expansion

theorem init_holds {vmm : Vmm} (fresh : heap.initialized = false)
    (booted : heap.init vmm = some (true, after)) :
    after.initialized = true ∧ after.heapBrk ≤ after.heapEnd ∧
      ∃ block, after.Holds [block] ∧ block.used = false := by
  have empty : Shape ⟨heap.mem, kernelHeapBase, kernelHeapMax, 0, 0, false⟩ kernelHeapBase []
      (unusedAddrs []) :=
    ⟨rfl, show 0 < kernelHeapBase by decide, show kernelHeapBase % heapAlign = 0 by decide,
      by decide, by simp, ⟨0, rfl, rfl⟩, by simp, .nil⟩
  rw [Heap.init, fresh, if_neg (by simp)] at booted
  rcases empty.expandHeapLocked vmm (heapInitPages * pageSize) (if_pos rfl) (by decide)
    (fun _ => by decide) with
    ⟨_, failed⟩ | ⟨grown, block, _, expanded, holds, unused, _, brk, keeps⟩
  · rw [failed] at booted
    cases booted
  rw [expanded] at booted
  obtain rfl : { grown with heapStart := grown.freeList, initialized := true } = after := by
    simpa using booted
  -- The only block is the head of the free list.
  have shape := holds.shape
  have listed : unusedAddrs [block] = [block.addr] := unusedAddrs_cons_unused unused
  obtain ⟨_, linked⟩ := shape.linked
  rw [show joined [] block = [block] from rfl, listed] at linked shape
  have start : grown.freeList = grown.heapStart := linked.1.trans shape.tiles.1
  have inside : grown.heapBrk ≤ grown.heapEnd := by
    rw [brk, keeps.heapEnd]
    show kernelHeapBase + expandPages (heapInitPages * pageSize) * pageSize ≤ kernelHeapMax
    decide
  refine ⟨rfl, inside, block, ⟨?_, holds.paged⟩, unused⟩
  rw [listed, start]
  exact ⟨shape.tiles, shape.positive, shape.aligned, shape.stop_lt, fun other member =>
    (shape.headers other member).congr (fun _ => rfl) Iff.rfl, start ▸ shape.linked, shape.inside,
    shape.sorted⟩

section Choice

/-- Bytes of the free block that ends at the break, if there is one. -/
def trailingRoom (heap : Heap) : Nat :=
  match heap.walkBefore heap.heapBrk walkLimit 0 heap.freeList with
  | some (last, _) =>
    if last ≠ 0 ∧ last + heap.get last .size = heap.heapBrk then heap.get last .size else 0
  | none => 0

/-- Size of the block that an allocation takes, told from the state before it: that of the best
fit, or that of the mapped pages together with the free block before them. -/
def roomTaken (heap : Heap) (vmm : Vmm) (total : Nat) : Option Nat :=
  if heap.findBestFit total = some 0 then
    (vmm.allocPagesAt heap.heapBrk (expandPages total) heap.mem).map fun _ =>
      expandPages total * pageSize + heap.trailingRoom
  else (heap.findBestFit total).map (heap.get · .size)

theorem Holds.trailingRoom_eq (holds : heap.Holds blocks pending) {last : Nat}
    (linked : Linked (heap.get · .prev) (heap.get · .next) 0 heap.freeList (unusedAddrs blocks)
      last 0) :
    heap.trailingRoom = if last ≠ 0 ∧ last + heap.get last .size = heap.heapBrk then
      heap.get last .size else 0 := by
  have below : ∀ node ∈ unusedAddrs blocks, node < heap.heapBrk := fun node member => by
    obtain ⟨block, inside, _, rfl⟩ := mem_unusedAddrs.mp member
    have := holds.shape.bounds inside
    have := block.large
    simp only [headerSize] at this
    omega
  rw [trailingRoom, walkBefore_linked linked below (.inl rfl) holds.shape.free_length]

theorem Holds.joined_last (holds : heap.Holds blocks pending) {new : Block} (unused : new.used = false) :
    ∃ rest last, joined blocks new = rest ++ [last] ∧ last.used = false ∧
      last.size = new.size + heap.trailingRoom ∧ ∀ block ∈ rest, block ∈ blocks := by
  obtain ⟨node, linked⟩ := holds.shape.linked
  have room := holds.trailingRoom_eq linked
  rcases List.eq_nil_or_concat' blocks with rfl | ⟨rest, prev, rfl⟩
  · -- Without any block there is no free one.
    rw [if_neg fun both => both.1 linked.1] at room
    exact ⟨[], new, rfl, unused, room ▸ rfl, by simp⟩
  have here : prev ∈ rest ++ [prev] := by simp
  have ends : prev.addr + prev.size = heap.heapBrk := by
    rcases holds.shape.follows with ⟨_, ends⟩ | ⟨_, _, more, _⟩
    · exact ends
    · cases more
  rw [joined_concat]
  cases prevUsed : prev.used with
  | true =>
    -- A free block ends before the last block does.
    have apart : ¬(node ≠ 0 ∧ node + heap.get node .size = heap.heapBrk) := by
      rintro ⟨nonzero, meets⟩
      rw [unusedAddrs_append, unusedAddrs_cons_used prevUsed, unusedAddrs_nil,
        List.append_nil] at linked
      rcases linked.last_mem with ⟨_, zero⟩ | member
      · exact nonzero zero
      · obtain ⟨other, inside, _, rfl⟩ := mem_unusedAddrs.mp member
        rw [holds.shape.size other (List.mem_append_left _ inside)] at meets
        have := (List.pairwise_append.mp holds.shape.tiles.pairwise).2.2 other inside prev
          List.mem_cons_self
        have := prev.large
        simp only [headerSize] at this
        omega
    grind
  | false =>
    rw [unusedAddrs_append, unusedAddrs_cons_unused prevUsed, unusedAddrs_nil] at linked
    obtain rfl := linked.last_concat
    rw [holds.shape.size prev here, if_pos ⟨Nat.ne_of_gt (holds.shape.bounds here).1, ends⟩] at room
    exact ⟨rest, prev.merge new, if_neg (by simp), prevUsed, by
      rw [room, Nat.add_comm]; rfl, fun block member => List.mem_append_left _ member⟩

/-- What holds of the break that an allocation moves the heap to, if it has to expand it. -/
@[grind =] def ExpandsTo (heap : Heap) (vmm : Vmm) (total : Nat) (p : Nat → Prop) : Prop :=
  heap.findBestFit total = some 0 →
    (vmm.allocPagesAt heap.heapBrk (expandPages total) heap.mem).isSome →
    p (heap.heapBrk + expandPages total * pageSize)

instance (heap : Heap) (vmm : Vmm) (total : Nat) (p : Nat → Prop) [DecidablePred p] :
    Decidable (heap.ExpandsTo vmm total p) :=
  inferInstanceAs (Decidable (_ → _))

/-- For every block size, the choice of a block yields null or an unused block that is large enough,
which is the best one before if there is any. The used blocks stay, and the break stays or moves by
the mapped pages. -/
theorem Holds.chooseBlock (holds : heap.Holds blocks pending) (vmm : Vmm) (total : Nat)
    (below : heap.ExpandsTo vmm total (· ≠ 2 ^ 64)) :
    ∃ addr after blocks', heap.chooseBlock vmm total = some (addr, after) ∧
      after.Holds blocks' pending ∧ usedBlocks blocks' = usedBlocks blocks ∧
      Keeps heap after (usedBlocks blocks) ∧
      (∀ p : Nat → Prop, p heap.heapBrk → heap.ExpandsTo vmm total p → p after.heapBrk) ∧
      (addr = 0 ∨ ∃ before block behind, blocks' = before ++ block :: behind ∧ addr = block.addr ∧
        block.used = false ∧ total ≤ block.size ∧ heap.roomTaken vmm total = some block.size) ∧
      ((∃ block, BestBlock blocks total block ∧ addr = block.addr ∧ after = heap) ∨
        (∀ block ∈ blocks, block.used = false → block.size < total) ∧
        (addr = 0 → total ≤ expandPages total * pageSize →
          vmm.allocPagesAt heap.heapBrk (expandPages total) heap.mem = none)) := by
  rcases holds.shape.findBestFit total with ⟨nothing, less⟩ | ⟨block, best, found⟩
  swap
  · have nonzero : block.addr ≠ 0 := Nat.ne_of_gt (holds.shape.bounds best.inside).1
    obtain ⟨before, behind, split⟩ := List.append_of_mem best.inside
    refine ⟨block.addr, heap, blocks, ?_, holds, rfl, (Frame.refl _ _).toKeeps, fun p here _ => here,
      .inr ⟨before, block, behind, split, rfl, best.unused, best.large, ?_⟩,
      .inl ⟨block, best, rfl, rfl⟩⟩
    · simp only [Heap.chooseBlock, found, Option.bind_eq_bind, Option.bind_some, ne_eq, nonzero,
        not_false_eq_true, if_true]
    · rw [roomTaken, found, if_neg (by simpa using nonzero), Option.map_some,
        holds.shape.size block best.inside]
  -- Nothing fits, so that the heap is expanded.
  have brk : (if heap.heapBrk = 0 then kernelHeapBase else heap.heapBrk) = heap.heapBrk :=
    if_neg (Nat.ne_of_gt (Nat.lt_of_lt_of_le holds.shape.positive holds.shape.tiles.le))
  rcases holds.shape.expandHeapLocked vmm total brk holds.paged (below nothing) with
    ⟨refused, failed⟩ | ⟨after, new, mapped, expanded, afterHolds, newUnused, newSize, moved, keeps⟩
  · refine ⟨0, heap, blocks, ?_, holds, rfl, (Frame.refl _ _).toKeeps, fun p here _ => here, .inl rfl,
      .inr ⟨less, fun _ _ => refused⟩⟩
    simp only [Heap.chooseBlock, nothing, failed, Option.bind_eq_bind, Option.bind_some]
    rfl
  obtain ⟨rest, last, joins, lastUnused, lastSize, old⟩ := holds.joined_last newUnused
  have used : usedBlocks (joined blocks new) = usedBlocks blocks := usedBlocks_joined newUnused
  rw [joins] at afterHolds used
  have again : heap.chooseBlock vmm total =
      (after.findBestFit total).bind fun block => some (block, after) := by
    simp only [Heap.chooseBlock, nothing, expanded, Option.bind_eq_bind, Option.bind_some]
    rfl
  have kept : Keeps heap after (usedBlocks blocks) :=
    ⟨fun block member => keeps.payload block (mem_usedBlocks.mp member).1, keeps.heapStart,
      keeps.heapEnd, keeps.initialized⟩
  have grown (p : Nat → Prop) (_ : p heap.heapBrk) (expands : heap.ExpandsTo vmm total p) :
      p after.heapBrk := by
    rw [moved]
    exact expands nothing mapped
  -- The search is repeated, and only the block at the end can be large enough.
  rcases afterHolds.shape.findBestFit total with ⟨none, small⟩ | ⟨block, best, found⟩
  · refine ⟨0, after, _, by rw [again, none]; rfl, afterHolds, used, kept, grown, .inl rfl,
      .inr ⟨less, fun _ enough => ?_⟩⟩
    have := small last (by simp) lastUnused
    omega
  · have inside := best.inside
    have large := best.large
    have unused := best.unused
    obtain rfl : block = last := by
      grind
    obtain ⟨mem, mapped⟩ := Option.isSome_iff_exists.mp mapped
    refine ⟨block.addr, after, _, by rw [again, found]; rfl, afterHolds, used, kept, grown,
      .inr ⟨rest, block, [], rfl, rfl, unused, large, ?_⟩, .inr ⟨less, fun null _ => ?_⟩⟩
    · rw [roomTaken, if_pos nothing, mapped, Option.map_some, lastSize, newSize]
    · exact absurd null (Nat.ne_of_gt (afterHolds.shape.bounds inside).1)

end Choice

end Heap

end Ccos
