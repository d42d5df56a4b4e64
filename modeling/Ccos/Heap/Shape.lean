import Ccos.Heap.Heap
import Ccos.Lib.Links
import Ccos.Lib.Tiling

/-! The blocks and the free list that are in the heap's memory, and the edits of single headers. -/

namespace Ccos

open Lib

structure Block where
  addr : Nat
  size : Nat
  used : Bool
  large : headerSize ≤ size
  granular : size % heapAlign = 0

/-- A block grown over the block behind it. -/
def Block.merge (block next : Block) : Block where
  addr := block.addr
  size := block.size + next.size
  used := block.used
  large := Nat.le_add_right_of_le block.large
  granular := by rw [Nat.add_mod, block.granular, next.granular]; rfl

@[simp] theorem Block.merge_addr (block next : Block) : (block.merge next).addr = block.addr := rfl

@[simp] theorem Block.merge_size (block next : Block) :
    (block.merge next).size = block.size + next.size := rfl

theorem Block.eq_of_fields {block other : Block} (addr : block.addr = other.addr)
    (size : block.size = other.size) (used : block.used = other.used) : block = other := by
  cases block
  cases other
  simp_all

/-- Place in a header of its last eight bytes: no field covers them, but they are read as the note
before the payload. -/
def noteOffset : Nat := 40

namespace Heap

variable {heap after : Heap} {field : HeaderField}

section Header

theorem field_le (field : HeaderField) : field.offset + field.width ≤ headerSize := by
  cases field <;> decide

theorem field_le_note (field : HeaderField) : field.offset + field.width ≤ noteOffset := by
  cases field <;> decide

theorem noteOffset_le : noteOffset ≤ headerSize := by
  decide

variable {another : HeaderField}

theorem fields_apart (different : field ≠ another) :
    another.offset + another.width ≤ field.offset ∨
      field.offset + field.width ≤ another.offset := by
  cases field <;> cases another <;> first | exact absurd rfl different | decide

variable {other value block : Nat}

theorem get_set
    (separate : block = other ∨ block + headerSize ≤ other ∨ other + headerSize ≤ block) :
    (heap.set block field value).get other another =
      if other = block ∧ another = field then value % 256 ^ field.width
      else heap.get other another := by
  have inside := field_le field
  have otherInside := field_le another
  split
  · rename_i same
    rw [same.1, same.2]
    exact ByteMem.load_store_same
  · rename_i different
    refine ByteMem.load_store_apart ?_
    rcases separate with rfl | apart
    · have := fields_apart fun same => different ⟨rfl, same.symm⟩
      omega
    · omega

variable {place : Nat}

theorem set_outside (outside : place < block ∨ block + noteOffset ≤ place) :
    (heap.set block field value).mem place = heap.mem place := by
  have inside := field_le_note field
  exact ByteMem.store_of_outside (by omega)

theorem set_get_used (block : Nat) : heap.set block .used (heap.get block .used) = heap := by
  have same : heap.mem.store (block + 8) 1 (heap.mem.load (block + 8) 1) = heap.mem := by
    funext place
    unfold ByteMem.store
    split
    · obtain rfl : place = block + 8 := by omega
      simp [byteOf, ByteMem.load]
    · rfl
  simp only [set, get, HeaderField.offset, HeaderField.width, same]

theorem get_congr (same : ∀ place, block ≤ place → place < block + headerSize →
    after.mem place = heap.mem place) : after.get block field = heap.get block field := by
  have inside := field_le field
  exact ByteMem.load_congr fun place low high => same place (by omega) (by omega)

/-- The fields of a block header that was just written. -/
def freshField (size : Nat) : HeaderField → Nat
  | .size => size
  | .magic => heapBlockMagic
  | _ => 0

variable {size : Nat}

theorem get_initBlock_same (small : size < 2 ^ 64) :
    (heap.initBlock block size).get block field = freshField size field := by
  have fits : size < 18446744073709551616 := small
  cases field <;>
    simp [initBlock, get_set (.inl rfl), freshField, HeaderField.width, fits, heapBlockMagic]

theorem get_initBlock_apart (apart : block + headerSize ≤ other ∨ other + headerSize ≤ block) :
    (heap.initBlock block size).get other field = heap.get other field := by
  have different : other ≠ block := by
    simp only [headerSize] at apart
    omega
  simp [initBlock, get_set (.inr apart), different]

theorem initBlock_outside (outside : place < block ∨ block + noteOffset ≤ place) :
    (heap.initBlock block size).mem place = heap.mem place := by
  simp [initBlock, set_outside outside]

end Header

/-- The header of a block, as it is in memory. A pending block is marked as unused already, although it
counts as used until it is on the free list. -/
@[grind] structure Header (heap : Heap) (free pending : List Nat) (block : Block) : Prop where
  size : heap.get block.addr .size = block.size
  used : heap.get block.addr .used = if block.used ∧ block.addr ∉ pending then 1 else 0
  magic : heap.get block.addr .magic = heapBlockMagic
  /-- The links of a block that is not on the free list are null. -/
  unlinked : block.addr ∉ free → heap.get block.addr .prev = 0 ∧ heap.get block.addr .next = 0

instance (heap : Heap) (free pending : List Nat) (block : Block) :
    Decidable (heap.Header free pending block) :=
  decidable_of_iff (heap.get block.addr .size = block.size ∧
      heap.get block.addr .used = (if block.used ∧ block.addr ∉ pending then 1 else 0) ∧
      heap.get block.addr .magic = heapBlockMagic ∧
      (block.addr ∉ free → heap.get block.addr .prev = 0 ∧ heap.get block.addr .next = 0))
    ⟨fun ⟨size, used, magic, unlinked⟩ => ⟨size, used, magic, unlinked⟩,
      fun header => ⟨header.size, header.used, header.magic, header.unlinked⟩⟩

/-- The blocks up to some address and the free list, as they are in memory. -/
@[grind] structure Shape (heap : Heap) (stop : Nat) (blocks : List Block) (free : List Nat)
    (pending : List Nat := []) : Prop where
  tiles : Tiles Block.addr Block.size heap.heapStart blocks stop
  positive : 0 < heap.heapStart
  aligned : heap.heapStart % heapAlign = 0
  stop_lt : stop < 2 ^ 64
  headers : ∀ block ∈ blocks, heap.Header free pending block
  linked : ∃ last, Linked (heap.get · .prev) (heap.get · .next) 0 heap.freeList free last 0
  inside : ∀ node ∈ free, ∃ block ∈ blocks, block.addr = node
  sorted : free.Pairwise (· < ·)

instance (heap : Heap) (stop : Nat) (blocks : List Block) (free pending : List Nat) :
    Decidable (heap.Shape stop blocks free pending) :=
  decidable_of_iff
    ((Tiles Block.addr Block.size heap.heapStart blocks stop ∧ 0 < heap.heapStart ∧
        heap.heapStart % heapAlign = 0 ∧ stop < 2 ^ 64) ∧
      (∀ block ∈ blocks, heap.Header free pending block) ∧
      Linked (heap.get · .prev) (heap.get · .next) 0 heap.freeList free (free.getLastD 0) 0 ∧
      (∀ node ∈ free, ∃ block ∈ blocks, block.addr = node) ∧ free.Pairwise (· < ·))
    ⟨fun ⟨⟨tiles, positive, aligned, small⟩, headers, linked, inside, sorted⟩ =>
      ⟨tiles, positive, aligned, small, headers, ⟨_, linked⟩, inside, sorted⟩,
      fun shape => ⟨⟨shape.tiles, shape.positive, shape.aligned, shape.stop_lt⟩, shape.headers,
        shape.linked.elim fun _ linked => linked.last_eq ▸ linked, shape.inside, shape.sorted⟩⟩

/-- An operation that keeps the payloads of some blocks, with the notes before them, and the limits
of the heap, but may move its break. -/
@[grind] structure Keeps (heap after : Heap) (blocks : List Block) : Prop where
  payload : ∀ block ∈ blocks, ∀ place, block.addr + noteOffset ≤ place →
    place < block.addr + block.size → after.mem place = heap.mem place
  heapStart : after.heapStart = heap.heapStart
  heapEnd : after.heapEnd = heap.heapEnd
  initialized : after.initialized = heap.initialized

/-- An edit that also leaves the break where it is. -/
@[grind] structure Frame (heap after : Heap) (blocks : List Block) : Prop
    extends Keeps heap after blocks where
  heapBrk : after.heapBrk = heap.heapBrk

variable {stop : Nat} {blocks : List Block} {free pending : List Nat} {block : Block}

theorem Frame.refl (heap : Heap) (blocks : List Block) : Frame heap heap blocks :=
  ⟨⟨fun _ _ _ _ _ => rfl, rfl, rfl, rfl⟩, rfl⟩

variable {others : List Block}

/-- What two operations keep one after the other both of them keep. -/
theorem Keeps.trans {middle : Heap} (first : Keeps heap middle blocks)
    (second : Keeps middle after others) (kept : ∀ block ∈ blocks, block ∈ others) :
    Keeps heap after blocks :=
  ⟨fun block member place low high =>
    (second.payload block (kept block member) place low high).trans
      (first.payload block member place low high),
    second.heapStart.trans first.heapStart, second.heapEnd.trans first.heapEnd,
    second.initialized.trans first.initialized⟩

/-- Two edits one after the other are one edit. -/
theorem Frame.trans {middle : Heap} (first : Frame heap middle blocks)
    (second : Frame middle after others) (kept : ∀ block ∈ blocks, block ∈ others) :
    Frame heap after blocks :=
  ⟨first.toKeeps.trans second.toKeeps kept, second.heapBrk.trans first.heapBrk⟩

theorem Frame.mono (frame : Frame heap after others) (kept : ∀ block ∈ blocks, block ∈ others) :
    Frame heap after blocks :=
  (Frame.refl heap blocks).trans frame kept

section Separation

variable (shape : heap.Shape stop blocks free pending)

include shape

theorem Shape.size (block : Block) (member : block ∈ blocks) :
    heap.get block.addr .size = block.size :=
  (shape.headers block member).size

theorem Shape.magic (block : Block) (member : block ∈ blocks) :
    heap.get block.addr .magic = heapBlockMagic :=
  (shape.headers block member).magic

theorem Shape.isUsed (member : block ∈ blocks) :
    heap.isUsed block.addr = decide (block.used ∧ block.addr ∉ pending) := by
  unfold Heap.isUsed
  grind

theorem Shape.separate {other : Block} (member : block ∈ blocks) (another : other ∈ blocks) :
    block.addr = other.addr ∨ block.addr + headerSize ≤ other.addr ∨
      other.addr + headerSize ≤ block.addr := by
  have large := block.large
  have otherLarge := other.large
  rcases shape.tiles.apart member another with rfl | apart
  · exact .inl rfl
  · omega

theorem Shape.bounds (member : block ∈ blocks) :
    0 < block.addr ∧ heap.heapStart ≤ block.addr ∧ block.addr + block.size ≤ stop ∧
      block.addr + block.size < 2 ^ 64 := by
  have := shape.tiles.bounds member
  have := shape.positive
  have := shape.stop_lt
  omega

theorem Shape.addr_aligned (member : block ∈ blocks) : block.addr % heapAlign = 0 := by
  have tiles := shape.tiles
  have aligned := shape.aligned
  generalize heap.heapStart = start at tiles aligned
  clear shape
  induction blocks generalizing start with
  | nil => cases member
  | cons head rest ih =>
    obtain ⟨here, later⟩ := tiles
    rcases List.mem_cons.mp member with rfl | inRest
    · rw [here]
      exact aligned
    · refine ih inRest _ later ?_
      rw [Nat.add_mod, aligned, head.granular]
      rfl

theorem Shape.free_length : free.length < walkLimit := by
  -- The nodes increase strictly, from a positive address to one below 2^64.
  have bounded : ∀ node ∈ free, 1 ≤ node ∧ node < 2 ^ 64 := fun node member => by
    obtain ⟨block, inBlocks, rfl⟩ := shape.inside node member
    have := shape.bounds inBlocks
    omega
  have := length_le_of_sorted shape.sorted bounded
  simp only [walkLimit]
  omega

end Separation

section Edits

variable {before behind : List Block} {pending' : List Nat}

/-- A header depends on its fields only, and on whether the block is pending. -/
theorem Header.congr (header : heap.Header free pending block)
    (same : ∀ field, after.get block.addr field = heap.get block.addr field)
    (still : block.addr ∈ pending' ↔ block.addr ∈ pending) : after.Header free pending' block := by
  obtain ⟨size, used, magic, unlinked⟩ := header
  grind

/-- Some blocks may be replaced by others on the same bytes, if the new headers are right and the
links of free blocks stay. -/
theorem Shape.replace (after : Heap) (old new : List Block)
    (shape : heap.Shape stop (before ++ old ++ behind) free pending)
    (cover : ∀ low high, Tiles Block.addr Block.size low old high →
      Tiles Block.addr Block.size low new high)
    (start : after.heapStart = heap.heapStart) (first : after.freeList = heap.freeList)
    (kept : ∀ block ∈ before ++ behind, (∀ field,
      after.get block.addr field = heap.get block.addr field) ∧
      (block.addr ∈ pending' ↔ block.addr ∈ pending))
    (headers : ∀ block ∈ new, after.Header free pending' block)
    (nodes : ∀ block ∈ old, block.addr ∈ free →
      (after.get block.addr .prev = heap.get block.addr .prev ∧
        after.get block.addr .next = heap.get block.addr .next) ∧
      ∃ other ∈ new, other.addr = block.addr) :
    after.Shape stop (before ++ new ++ behind) free pending' := by
  -- A free block is outside the replaced part, or one of the new ones stands in for it.
  have node (block : Block) (member : block ∈ before ++ old ++ behind)
      (isFree : block.addr ∈ free) :
      (after.get block.addr .prev = heap.get block.addr .prev ∧
        after.get block.addr .next = heap.get block.addr .next) ∧
      ∃ other ∈ before ++ new ++ behind, other.addr = block.addr := by
    grind
  refine ⟨?_, start ▸ shape.positive, start ▸ shape.aligned, shape.stop_lt, ?_, ?_, ?_,
    shape.sorted⟩
  · rw [start]
    exact shape.tiles.replace cover
  · grind
  · obtain ⟨last, linked⟩ := shape.linked
    refine ⟨last, first ▸ linked.congr fun address isFree => ?_⟩
    grind
  grind

theorem Shape.frame_set (shape : heap.Shape stop blocks free pending) (member : block ∈ blocks)
    (middle : Heap) (field : HeaderField) (value : Nat) :
    Frame middle (middle.set block.addr field value) blocks := by
  refine ⟨⟨fun other another place low high => set_outside ?_, rfl, rfl, rfl⟩, rfl⟩
  have large := block.large
  have := noteOffset_le
  rcases shape.tiles.apart member another with rfl | apart
  · exact .inr low
  · omega

variable {other : Block}

theorem Shape.get_set_other (shape : heap.Shape stop blocks free pending)
    (member : block ∈ blocks) (another : other ∈ blocks) (different : other.addr ≠ block.addr)
    (value : Nat) (seen : HeaderField) :
    (heap.set block.addr field value).get other.addr seen = heap.get other.addr seen := by
  rw [get_set (shape.separate member another), if_neg fun same => different same.1]

theorem Shape.addr_ne (shape : heap.Shape stop (before ++ block :: behind) free pending)
    (member : other ∈ before ++ behind) : other.addr ≠ block.addr := by
  have large := block.large
  have otherLarge := other.large
  have pairwise := shape.tiles.pairwise
  rw [List.pairwise_append, List.pairwise_cons] at pairwise
  simp only [headerSize] at large otherLarge
  grind

theorem mem_here : block ∈ before ++ block :: behind :=
  List.mem_append_right _ List.mem_cons_self

theorem mem_of_around (member : other ∈ before ++ behind) : other ∈ before ++ block :: behind := by
  grind

theorem Shape.setUsed (shape : heap.Shape stop (before ++ block :: behind) free pending)
    (used : Bool) (others : ∀ other ∈ before ++ behind,
      other.addr ∈ pending' ↔ other.addr ∈ pending) :
    (heap.set block.addr .used (if used ∧ block.addr ∉ pending' then 1 else 0)).Shape stop
      (before ++ { block with used := used } :: behind) free pending' := by
  have whole : heap.Shape stop (before ++ [block] ++ behind) free pending := by simpa using shape
  have header := shape.headers block mem_here
  -- The other fields of the header stay.
  have same {value : Nat} {field : HeaderField} (other : field ≠ .used) :
      (heap.set block.addr .used value).get block.addr field = heap.get block.addr field := by
    rw [get_set (.inl rfl), if_neg fun both => other both.2]
  have replaced := whole.replace
    (heap.set block.addr .used (if used ∧ block.addr ∉ pending' then 1 else 0)) [block]
    [{ block with used := used }] (fun low high covered => covered) rfl rfl fun other member =>
      ⟨shape.get_set_other mem_here (mem_of_around member) (shape.addr_ne member) _, others other member⟩
  simp only [List.mem_singleton, forall_eq, List.append_assoc, List.cons_append,
    List.nil_append, exists_eq_left] at replaced
  refine replaced ⟨?_, ?_, ?_, fun absent => ?_⟩ fun isFree =>
    ⟨⟨same (by simp), same (by simp)⟩, trivial⟩
  · rw [same (by simp), header.size]
  · rw [get_set (.inl rfl), if_pos ⟨rfl, rfl⟩]
    split <;> rfl
  all_goals grind

theorem Shape.merge {next : Block}
    (shape : heap.Shape stop (before ++ block :: next :: behind) free pending)
    (absent : next.addr ∉ free) :
    (heap.set block.addr .size (block.size + next.size)).Shape stop
      (before ++ block.merge next :: behind) free pending := by
  have here : block ∈ before ++ block :: next :: behind := by simp
  have small : block.size + next.size < 2 ^ 64 := by
    have inside : next ∈ before ++ block :: next :: behind := by simp
    have := shape.bounds inside
    have follows : next.addr = block.addr + block.size := by
      obtain ⟨low, _, covered⟩ := Tiles.append.mp shape.tiles
      rw [covered.2.1, covered.1]
    omega
  have header := shape.headers block here
  have same {value : Nat} {field : HeaderField} (other : field ≠ .size) :
      (heap.set block.addr .size value).get block.addr field = heap.get block.addr field := by
    rw [get_set (.inl rfl), if_neg fun both => other both.2]
  have whole : heap.Shape stop (before ++ [block, next] ++ behind) free pending := by
    simpa using shape
  have replaced := whole.replace (heap.set block.addr .size (block.size + next.size)) [block, next]
    [block.merge next] (fun low high covered => ⟨covered.1, by
      have := covered.2.2
      rwa [Nat.add_assoc] at this⟩) rfl rfl
    fun other member => ⟨shape.get_set_other here
      (by simp only [List.mem_append, List.mem_cons] at member ⊢; tauto)
      (shape.addr_ne (by simp only [List.mem_append, List.mem_cons] at member ⊢; tauto)) _, Iff.rfl⟩
  simp only [List.mem_cons, List.not_mem_nil, or_false, forall_eq, forall_eq_or_imp,
    List.append_assoc, List.cons_append, List.nil_append, exists_eq_left, Block.merge_addr] at replaced
  refine replaced ⟨?_, ?_, ?_, fun absent => ?_⟩
    ⟨fun _ => ⟨⟨same (by simp), same (by simp)⟩, trivial⟩, fun isFree => absurd isFree absent⟩
  · simp only [Block.merge_addr]
    rw [get_set (.inl rfl), if_pos ⟨rfl, rfl⟩]
    exact Nat.mod_eq_of_lt small
  · exact (same (by simp)).trans header.used
  · exact (same (by simp)).trans header.magic
  · exact ⟨(same (by simp)).trans (header.unlinked absent).1,
      (same (by simp)).trans (header.unlinked absent).2⟩

/-- A block on no list may be cut in two, by a new header inside it. -/
theorem Shape.split (shape : heap.Shape stop (before ++ block :: behind) free pending)
    (absent : block.addr ∉ free) {needed : Nat} (large : headerSize ≤ needed)
    (granular : needed % heapAlign = 0) (rest : headerSize ≤ block.size - needed) :
    (heap.cutBlock block.addr needed (block.addr + needed) (block.size - needed)).Shape stop
      (before ++ ⟨block.addr, needed, block.used, large, granular⟩ ::
        ⟨block.addr + needed, block.size - needed, false, rest, by
          have := block.granular
          simp only [heapAlign] at this granular ⊢
          omega⟩ :: behind) free pending := by
  have bounds := shape.bounds mem_here
  have room : needed + headerSize ≤ block.size := by
    simp only [headerSize] at rest ⊢
    omega
  have small : block.size - needed < 2 ^ 64 := by omega
  have header := shape.headers block mem_here
  generalize made : heap.cutBlock block.addr needed (block.addr + needed) (block.size - needed) = after
  -- The new header is inside the block, behind its own header and away from the other blocks.
  have outer {other : Block} (member : other ∈ before ++ behind) (field : HeaderField) :
      after.get other.addr field = heap.get other.addr field := by
    have inside : other ∈ before ++ block :: behind := mem_of_around member
    have different := shape.addr_ne member
    rw [← made, cutBlock, get_set (shape.separate mem_here inside), if_neg fun same => different same.1,
      get_initBlock_apart]
    have otherLarge := other.large
    rcases shape.tiles.apart mem_here inside with rfl | apart
    · exact absurd rfl different
    · omega
  have own {field : HeaderField} (other : field ≠ .size) :
      after.get block.addr field = heap.get block.addr field := by
    rw [← made, cutBlock, get_set (.inl rfl), if_neg fun both => other both.2,
      get_initBlock_apart (by omega)]
  have fresh (field : HeaderField) :
      after.get (block.addr + needed) field = freshField (block.size - needed) field := by
    have positive : block.addr + needed ≠ block.addr := by
      simp only [headerSize] at large
      omega
    rw [← made, cutBlock, get_set (by omega), if_neg fun same => positive same.1,
      get_initBlock_same small]
  have whole : heap.Shape stop (before ++ [block] ++ behind) free pending := by simpa using shape
  have replaced := whole.replace after [block]
    [⟨block.addr, needed, block.used, large, granular⟩,
      ⟨block.addr + needed, block.size - needed, false, rest, by
        have := block.granular
        simp only [heapAlign] at this granular ⊢
        omega⟩]
    (fun low high covered => by
      obtain ⟨first, last⟩ := covered
      simp only [Tiles] at last ⊢
      omega) (made ▸ rfl) (made ▸ rfl) fun other member => ⟨outer member, Iff.rfl⟩
  simp only [List.mem_cons, List.not_mem_nil, or_false, forall_eq, forall_eq_or_imp,
    List.append_assoc, List.cons_append, List.nil_append] at replaced
  refine replaced ⟨⟨?_, ?_, ?_, fun _ => ?_⟩, fresh .size, ?_, fresh .magic,
    fun _ => ⟨fresh .prev, fresh .next⟩⟩ fun isFree => absurd isFree absent
  · rw [← made, cutBlock, get_set (.inl rfl), if_pos ⟨rfl, rfl⟩]
    exact Nat.mod_eq_of_lt (by simp only [HeaderField.width]; omega)
  · rw [own (by simp), header.used]
  · rw [own (by simp), header.magic]
  · grind
  · rw [fresh]
    rfl

theorem Shape.append (shape : heap.Shape stop blocks free pending) (after : Heap)
    (place : block.addr = stop) (fits : block.addr + block.size < 2 ^ 64)
    (unused : block.used = false) (start : after.heapStart = heap.heapStart)
    (first : after.freeList = heap.freeList)
    (kept : ∀ place < stop, after.mem place = heap.mem place)
    (fresh : ∀ field, after.get block.addr field = freshField block.size field) :
    after.Shape (stop + block.size) (blocks ++ [block]) free pending := by
  have old (other : Block) (member : other ∈ blocks) (field : HeaderField) :
      after.get other.addr field = heap.get other.addr field := by
    have large := other.large
    have := (shape.bounds member).2.2.1
    exact get_congr fun place low high => kept place (by omega)
  refine ⟨?_, start ▸ shape.positive, start ▸ shape.aligned, by omega, ?_, ?_, ?_, shape.sorted⟩
  · rw [start]
    exact Tiles.append.mpr ⟨stop, shape.tiles, place, rfl⟩
  · intro other member
    rcases List.mem_append.mp member with inside | new
    · grind
    · rw [List.mem_singleton.mp new]
      exact ⟨fresh .size, by rw [fresh, unused]; rfl, fresh .magic,
        fun _ => ⟨fresh .prev, fresh .next⟩⟩
  · obtain ⟨last, linked⟩ := shape.linked
    refine ⟨last, first ▸ linked.congr fun node isFree => ?_⟩
    grind
  grind

end Edits

end Heap

end Ccos
