import Ccos.Heap.Shape

/-! The operations on the free list: unlinking, sorted insertion and the search for a block. -/

namespace Ccos

open Lib

namespace Heap

variable {heap : Heap} {stop : Nat} {blocks : List Block} {free pending : List Nat} {block : Block}

/-- A node, if it is one, has a header apart from that of a block. -/
@[grind =] def NodeApart (node seen : Nat) : Prop :=
  node ≠ 0 → node = seen ∨ node + headerSize ≤ seen ∨ seen + headerSize ≤ node

variable {node value seen : Nat} {field : HeaderField}

theorem get_linkNext (small : value < 2 ^ 64) (positive : seen ≠ 0) (apart : NodeApart node seen) :
    (heap.linkNext node value).get seen field =
      if seen = node ∧ field = .next then value else heap.get seen field := by
  unfold linkNext
  split
  · rename_i nonzero
    rw [get_set (apart nonzero), show value % 256 ^ HeaderField.next.width = value from
      Nat.mod_eq_of_lt small]
  · rw [if_neg (by omega)]
    rfl

theorem get_linkPrev (small : value < 2 ^ 64) (positive : seen ≠ 0) (apart : NodeApart node seen) :
    (heap.linkPrev node value).get seen field =
      if seen = node ∧ field = .prev then value else heap.get seen field := by
  unfold linkPrev
  split
  · rename_i nonzero
    rw [get_set (apart nonzero), show value % 256 ^ HeaderField.prev.width = value from
      Nat.mod_eq_of_lt small]
  · rw [if_neg (by omega)]

theorem freeList_set (node value : Nat) (field : HeaderField) :
    (heap.set node field value).freeList = heap.freeList := rfl

theorem freeList_linkNext (node value : Nat) :
    (heap.linkNext node value).freeList = if node = 0 then value else heap.freeList := by
  unfold linkNext
  split <;> simp_all [set]

theorem freeList_linkPrev (node value : Nat) :
    (heap.linkPrev node value).freeList = heap.freeList := by
  unfold linkPrev
  split <;> rfl

theorem walkBefore_linked {limit before first last link target : Nat} {nodes : List Nat}
    (linked : Linked (heap.get · .prev) (heap.get · .next) before first nodes last link)
    (below : ∀ node ∈ nodes, node < target) (ends : link = 0 ∨ target ≤ link)
    (enough : nodes.length < limit) :
    heap.walkBefore target limit before first = some (last, link) := by
  -- The induction follows the nodes, one step of the walk each.
  induction nodes generalizing before first limit with
  | nil =>
    obtain ⟨rfl, rfl⟩ := linked
    cases limit with
    | zero => simp at enough
    | succ limit => exact if_neg (by omega)
  | cons node rest ih =>
    obtain ⟨rfl, nonzero, _, later⟩ := linked
    cases limit with
    | zero => simp at enough
    | succ limit =>
      rw [walkBefore, if_pos ⟨nonzero, below _ List.mem_cons_self⟩]
      grind

/-- A node is a block, or null. -/
@[grind =] def NodeIn (blocks : List Block) (node : Nat) : Prop :=
  node ≠ 0 → ∃ other ∈ blocks, other.addr = node

section Edits

variable (shape : heap.Shape stop blocks free pending)

include shape

/-- The shape after an edit of links only. -/
theorem Shape.relinked {after : Heap} {nodes : List Nat} (start : after.heapStart = heap.heapStart)
    (kept : ∀ block ∈ blocks, ∀ field, field ≠ .prev → field ≠ .next →
      after.get block.addr field = heap.get block.addr field)
    (unlinked : ∀ block ∈ blocks, block.addr ∉ nodes →
      after.get block.addr .prev = 0 ∧ after.get block.addr .next = 0)
    (linked : ∃ last, Linked (after.get · .prev) (after.get · .next) 0 after.freeList nodes last 0)
    (inside : ∀ node ∈ nodes, ∃ block ∈ blocks, block.addr = node)
    (sorted : nodes.Pairwise (· < ·)) : after.Shape stop blocks nodes pending := by
  refine ⟨start ▸ shape.tiles, start ▸ shape.positive, start ▸ shape.aligned, shape.stop_lt,
    fun block member => ?_, linked, inside, sorted⟩
  have header := shape.headers block member
  refine ⟨?_, ?_, ?_, unlinked block member⟩
  · rw [kept block member .size (by simp) (by simp), header.size]
  · rw [kept block member .used (by simp) (by simp), header.used]
  · rw [kept block member .magic (by simp) (by simp), header.magic]

theorem Shape.frame_linkNext (middle : Heap) (value : Nat) (among : NodeIn blocks node) :
    Frame middle (middle.linkNext node value) blocks := by
  unfold linkNext
  split
  · rename_i nonzero
    obtain ⟨other, member, rfl⟩ := among nonzero
    exact shape.frame_set member middle .next value
  · exact ⟨⟨fun _ _ _ _ _ => rfl, rfl, rfl, rfl⟩, rfl⟩

theorem Shape.frame_linkPrev (middle : Heap) (value : Nat) (among : NodeIn blocks node) :
    Frame middle (middle.linkPrev node value) blocks := by
  unfold linkPrev
  split
  · rename_i nonzero
    obtain ⟨other, member, rfl⟩ := among nonzero
    exact shape.frame_set member middle .prev value
  · exact ⟨⟨fun _ _ _ _ _ => rfl, rfl, rfl, rfl⟩, rfl⟩

theorem Shape.nodeApart (among : NodeIn blocks node) (member : block ∈ blocks) :
    NodeApart node block.addr := by
  intro nonzero
  obtain ⟨other, inside, rfl⟩ := among nonzero
  exact shape.separate inside member

theorem Shape.node_lt (among : NodeIn blocks node) : node < 2 ^ 64 := by
  by_cases zero : node = 0
  · rw [zero]
    decide
  · obtain ⟨other, inside, rfl⟩ := among zero
    have := shape.bounds inside
    omega

variable {prev next : Nat} (member : block ∈ blocks) (prevBlock : NodeIn blocks prev)
  (nextBlock : NodeIn blocks next)

include member prevBlock nextBlock

variable {other : Block}

theorem Shape.get_unlink (inside : other ∈ blocks) (field : HeaderField) :
    (heap.unlink block.addr prev next).get other.addr field =
      if other.addr = block.addr ∧ field = .next then 0
      else if other.addr = block.addr ∧ field = .prev then 0
      else if other.addr = next ∧ field = .prev then prev
      else if other.addr = prev ∧ field = .next then next
      else heap.get other.addr field := by
  have positive : other.addr ≠ 0 := Nat.ne_of_gt (shape.bounds inside).1
  rw [unlink, get_set (shape.separate member inside), get_set (shape.separate member inside),
    get_linkPrev (shape.node_lt prevBlock) positive (shape.nodeApart nextBlock inside),
    get_linkNext (shape.node_lt nextBlock) positive (shape.nodeApart prevBlock inside),
    Nat.zero_mod, Nat.zero_mod]

theorem Shape.frame_unlink : Frame heap (heap.unlink block.addr prev next) blocks :=
  ((shape.frame_linkNext heap next prevBlock).trans
    (shape.frame_linkPrev _ prev nextBlock) fun _ => id).trans
    ((shape.frame_set member _ .prev 0).trans (shape.frame_set member _ .next 0) fun _ => id)
    fun _ => id

theorem Shape.get_link (inside : other ∈ blocks) (field : HeaderField) :
    (heap.link block.addr prev next).get other.addr field =
      if other.addr = prev ∧ field = .next then block.addr
      else if other.addr = block.addr ∧ field = .prev then prev
      else if other.addr = next ∧ field = .prev then block.addr
      else if other.addr = block.addr ∧ field = .next then next
      else heap.get other.addr field := by
  have positive : other.addr ≠ 0 := Nat.ne_of_gt (shape.bounds inside).1
  have small : block.addr < 2 ^ 64 := by
    have := shape.bounds member
    omega
  rw [link, get_linkNext small positive (shape.nodeApart prevBlock inside),
    get_set (shape.separate member inside),
    get_linkPrev small positive (shape.nodeApart nextBlock inside),
    get_set (shape.separate member inside),
    show prev % 256 ^ HeaderField.prev.width = prev from Nat.mod_eq_of_lt (shape.node_lt prevBlock),
    show next % 256 ^ HeaderField.next.width = next from Nat.mod_eq_of_lt (shape.node_lt nextBlock)]

theorem Shape.frame_link : Frame heap (heap.link block.addr prev next) blocks :=
  ((shape.frame_set member heap .next next).trans
    (shape.frame_linkPrev _ block.addr nextBlock) fun _ => id).trans
    ((shape.frame_set member _ .prev prev).trans
      (shape.frame_linkNext _ block.addr prevBlock) fun _ => id) fun _ => id

end Edits

section Remove

variable {left right : List Nat} (shape : heap.Shape stop blocks (left ++ block.addr :: right) pending)

include shape

theorem Shape.neighbours :
    ∃ last, Linked (heap.get · .prev) (heap.get · .next) 0 heap.freeList left
        (heap.get block.addr .prev) block.addr ∧
      Linked (heap.get · .prev) (heap.get · .next) block.addr (heap.get block.addr .next) right
        last 0 ∧
      (heap.get block.addr .prev = 0 ∨ heap.get block.addr .prev ∈ left) ∧
      (heap.get block.addr .next = 0 ∨ heap.get block.addr .next ∈ right) := by
  obtain ⟨last, linked⟩ := shape.linked
  obtain ⟨middle, link, before, here, nonzero, back, behind⟩ := Linked.append.mp linked
  subst link
  subst middle
  refine ⟨last, before, behind, ?_, ?_⟩
  · exact before.last_mem.imp And.right id
  · exact behind.first_mem.imp And.right id

theorem Shape.neighbour_blocks :
    NodeIn blocks (heap.get block.addr .prev) ∧ NodeIn blocks (heap.get block.addr .next) := by
  obtain ⟨_, _, _, prevIs, nextIs⟩ := shape.neighbours
  refine ⟨fun given => shape.inside _ ?_, fun given => shape.inside _ ?_⟩
  all_goals grind

theorem Shape.unlink (member : block ∈ blocks) :
    (heap.unlink block.addr (heap.get block.addr .prev) (heap.get block.addr .next)).Shape stop
      blocks (left ++ right) pending := by
  have nodup : (left ++ block.addr :: right).Nodup := shape.sorted.imp Nat.ne_of_lt
  obtain ⟨last, before, behind, prevIs, nextIs⟩ := shape.neighbours
  obtain ⟨prevBlock, nextBlock⟩ := shape.neighbour_blocks
  have seen (other : Block) (inside : other ∈ blocks) :=
    shape.get_unlink member prevBlock nextBlock inside
  have sublist : (left ++ right).Sublist (left ++ block.addr :: right) :=
    (List.sublist_cons_self _ _).append_left _
  have apart : ∀ node ∈ left ++ right, node ≠ block.addr := by
    grind
  refine shape.relinked (shape.frame_unlink member prevBlock nextBlock).heapStart
    (fun other inside field notPrev notNext => ?_) (fun other inside absent => ?_) ?_
    (fun node inside => shape.inside node (sublist.subset inside)) (shape.sorted.sublist sublist)
  · simp [seen other inside field, notPrev, notNext]
  · -- A block on no list is the removed one, or was on no list before.
    rw [seen other inside, seen other inside]
    by_cases same : other.addr = block.addr
    · simp [same]
    · have positive : other.addr ≠ 0 := Nat.ne_of_gt (shape.bounds inside).1
      simp only [List.mem_append, not_or] at absent
      have notPrev : other.addr ≠ heap.get block.addr .prev := fun equal =>
        prevIs.elim (fun zero => positive (equal.trans zero)) fun inLeft =>
          absent.1 (equal ▸ inLeft)
      have notNext : other.addr ≠ heap.get block.addr .next := fun equal =>
        nextIs.elim (fun zero => positive (equal.trans zero)) fun inRight =>
          absent.2 (equal ▸ inRight)
      simpa [same, notPrev, notNext] using
        (shape.headers other inside).unlinked (by simp [absent, same])
  · obtain ⟨_, linked⟩ := shape.linked
    rw [Heap.unlink, freeList_set, freeList_set, freeList_linkPrev, freeList_linkNext, ← Heap.unlink]
    refine linked.remove nodup (fun node inside => ?_) fun node inside => ?_
    · obtain ⟨other, otherIn, rfl⟩ := shape.inside node (sublist.subset inside)
      simp [seen other otherIn, apart _ inside]
    · obtain ⟨other, otherIn, rfl⟩ := shape.inside node (sublist.subset inside)
      simp [seen other otherIn, apart _ inside]

end Remove

theorem Shape.removed (shape : heap.Shape stop blocks free pending) (member : block ∈ blocks)
    (unused : block.used = false) : heap.removeFromFreeList block.addr =
      some (heap.unlink block.addr (heap.get block.addr .prev) (heap.get block.addr .next)) := by
  rw [removeFromFreeList, if_neg (by simp [shape.isUsed member, unused])]

theorem Shape.insert {left right : List Nat}
    (shape : heap.Shape stop blocks (left ++ right) pending) (member : block ∈ blocks)
    (unused : block.used = false) (below : ∀ node ∈ left, node < block.addr)
    (above : ∀ node ∈ right, block.addr < node) :
    ∃ after, heap.insertToFreeList block.addr = some after ∧
      after.Shape stop blocks (left ++ block.addr :: right) pending ∧ Frame heap after blocks := by
  obtain ⟨last, linked⟩ := shape.linked
  obtain ⟨prev, next, before, behind⟩ := Linked.append.mp linked
  -- The new node stands between all smaller and all larger ones.
  have sorted : (left ++ block.addr :: right).Pairwise (· < ·) := by
    obtain ⟨leftSorted, rightSorted, across⟩ := List.pairwise_append.mp shape.sorted
    refine List.pairwise_append.mpr ⟨leftSorted, List.pairwise_cons.mpr ⟨above, rightSorted⟩,
      fun first inLeft second inRight => ?_⟩
    grind
  have nextIs : next = 0 ∨ next ∈ right := behind.first_mem.imp And.right id
  have prevIs : prev = 0 ∨ prev ∈ left := before.last_mem.imp And.right id
  have prevBlock : NodeIn blocks prev := fun given =>
    shape.inside prev (List.mem_append_left _ (prevIs.resolve_left given))
  have nextBlock : NodeIn blocks next := fun given =>
    shape.inside next (List.mem_append_right _ (nextIs.resolve_left given))
  have inserted : heap.insertToFreeList block.addr = some (heap.link block.addr prev next) := by
    have absent : block.addr ∉ left ++ right := fun inside => by
      grind
    obtain ⟨noPrev, noNext⟩ := (shape.headers block member).unlinked absent
    have walked : heap.walkBefore block.addr walkLimit 0 heap.freeList = some (prev, next) := by
      refine walkBefore_linked before below
        (nextIs.imp id fun inRight => Nat.le_of_lt (above next inRight)) ?_
      have := shape.free_length
      rw [List.length_append] at this
      omega
    rw [insertToFreeList, if_neg (by simp [shape.isUsed member, unused, noPrev, noNext]), walked]
    rfl
  have frame := shape.frame_link member prevBlock nextBlock
  have seen (other : Block) (inside : other ∈ blocks) :=
    shape.get_link member prevBlock nextBlock inside
  have inside (node : Nat) (isNode : node ∈ left ++ block.addr :: right) :
      ∃ other ∈ blocks, other.addr = node := by
    rcases List.mem_append.mp isNode with inLeft | isHere
    · exact shape.inside node (List.mem_append_left _ inLeft)
    · rcases List.mem_cons.mp isHere with rfl | inRight
      · exact ⟨block, member, rfl⟩
      · exact shape.inside node (List.mem_append_right _ inRight)
  have prevBelow : prev ≠ block.addr := by
    rcases prevIs with rfl | inLeft
    · exact (Nat.ne_of_gt (shape.bounds member).1).symm
    · exact Nat.ne_of_lt (below prev inLeft)
  refine ⟨_, inserted, shape.relinked frame.heapStart
    (fun other otherIn field notPrev notNext => ?_) (fun other otherIn outside => ?_) ?_ inside
    sorted, frame⟩
  · simp [seen other otherIn field, notPrev, notNext]
  · -- A block on no list is neither the new node nor one of its neighbours.
    simp only [List.mem_append, List.mem_cons, not_or] at outside
    have positive := (shape.bounds otherIn).1
    have notPrev : other.addr ≠ prev := by
      grind
    have notNext : other.addr ≠ next := by
      grind
    simpa [seen other otherIn, outside.2.1, notPrev, notNext] using
      (shape.headers other otherIn).unlinked (by simp [outside])
  · rw [link, freeList_linkNext, freeList_set, freeList_linkPrev, freeList_set, ← link]
    refine before.insert behind (sorted.imp Nat.ne_of_lt) (Nat.ne_of_gt (shape.bounds member).1)
      (fun node isNode => ?_) fun node isNode => ?_
    all_goals grind

end Heap

end Ccos
