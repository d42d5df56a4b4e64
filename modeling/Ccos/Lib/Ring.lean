import Mathlib.Data.List.Basic
import Mathlib.Data.List.Nodup
import Mathlib.Logic.Function.Basic
import Mathlib.Logic.Relation

/-! Circular doubly linked lists whose links lie inside the nodes; one node of a ring is its head. -/

namespace Ccos.Lib

structure ListHead (Node : Type*) where
  next : Node
  prev : Node
  deriving DecidableEq, Repr

abbrev RingLinks (Node : Type*) := Node → ListHead Node

section Operations

variable {Node : Type*} [DecidableEq Node]

def setNext (node next : Node) (links : RingLinks Node) : RingLinks Node :=
  Function.update links node { links node with next := next }

def setPrev (node prev : Node) (links : RingLinks Node) : RingLinks Node :=
  Function.update links node { links node with prev := prev }

/-- Link a new node between two others. -/
def listInsert (newNode prev next : Node) (links : RingLinks Node) : RingLinks Node :=
  -- The four stores are made in this order, whichever of the nodes coincide.
  setNext prev newNode (setPrev newNode prev (setNext newNode next (setPrev next newNode links)))

/-- Link a new node in front of the head, which is the end of the list. -/
def listAddTail (newNode head : Node) (links : RingLinks Node) : RingLinks Node :=
  listInsert newNode (links head).prev head links

def listAdd (newNode head : Node) (links : RingLinks Node) : RingLinks Node :=
  listInsert newNode head (links head).next links

/-- Join the neighbours of a node; the links of the node itself stay. -/
def listDel (entry : Node) (links : RingLinks Node) : RingLinks Node :=
  setNext (links entry).prev (links entry).next (setPrev (links entry).next (links entry).prev links)

/-- Make two nodes neighbours: a removal does it once and an insertion twice. -/
def relink (before behind : Node) (links : RingLinks Node) : RingLinks Node :=
  setNext before behind (setPrev behind before links)

/-- Go on from a node until one fits or the head comes again. Nothing means that neither happens
within the limit. -/
def listFindFrom (links : RingLinks Node) (head : Node) (fits : Node → Bool) :
    (limit : Nat) → (node : Node) → Option (Option Node)
  | 0, _ => none
  | limit + 1, node =>
    if node = head then some none
    else if fits node then some (some node)
    else listFindFrom links head fits limit (links node).next

/-- The first node behind the head that fits. -/
def listFind (links : RingLinks Node) (limit : Nat) (head : Node) (fits : Node → Bool) :
    Option (Option Node) :=
  listFindFrom links head fits limit (links head).next

/-- The nodes from one on until the head comes again. Nothing means that it does not come within the
limit. -/
def listWalk (links : RingLinks Node) (head : Node) : (limit : Nat) → (node : Node) →
    Option (List Node)
  | 0, _ => none
  | limit + 1, node =>
    if node = head then some []
    else (listWalk links head limit (links node).next).map (node :: ·)

variable {before behind first second node : Node} {links : RingLinks Node}

@[simp] theorem relink_next : (relink before behind links node).next =
    if node = before then behind else (links node).next := by
  simp only [relink, setNext, setPrev, Function.update_apply]
  grind

@[simp] theorem relink_prev : (relink before behind links node).prev =
    if node = behind then before else (links node).prev := by
  simp only [relink, setNext, setPrev, Function.update_apply]
  grind

theorem relink_apart (left : node ≠ before) (right : node ≠ behind) :
    relink before behind links node = links node := by
  simp [relink, setNext, setPrev, left, right]

/-- The order in which two pairs become neighbours does not matter. -/
theorem relink_comm (left : before ≠ first) (right : behind ≠ second) :
    relink before behind (relink first second links) =
      relink first second (relink before behind links) := by
  funext node
  simp only [relink, setNext, setPrev, Function.update_apply]
  grind

end Operations

variable {Node : Type*} {links other : RingLinks Node} {first last head node : Node}
  {nodes left right : List Node}

/-- From one node through a list of nodes to another, the links lead forth and back. -/
def Chain (links : RingLinks Node) : (first : Node) → List Node → (last : Node) → Prop
  | first, [], last => (links first).next = last ∧ (links last).prev = first
  | first, node :: rest, last =>
    (links first).next = node ∧ (links node).prev = first ∧ Chain links node rest last

/-- The nodes behind a head, in order, each of them once. -/
@[grind] structure Ring (links : RingLinks Node) (head : Node) (nodes : List Node) : Prop where
  chain : Chain links head nodes head
  nodup : (head :: nodes).Nodup

/-- A node that links of other nodes lead to, in any number of steps in either direction. -/
def Reaches (links : RingLinks Node) : Node → Node → Prop :=
  Relation.ReflTransGen fun here there => there = (links here).next ∨ there = (links here).prev

namespace Chain

/-- A chain is cut at any of its nodes. -/
theorem append : Chain links first (left ++ node :: right) last ↔
    Chain links first left node ∧ Chain links node right last := by
  induction left generalizing first with
  | nil => exact and_assoc.symm
  | cons second rest ih =>
    -- The first link stays with the left part.
    simp only [List.cons_append, Chain, ih, and_assoc]

/-- The links forth of all nodes but the last and the links back of all but the first matter. -/
theorem congr (chain : Chain links first nodes last)
    (forth : ∀ node ∈ first :: nodes, (other node).next = (links node).next)
    (back : ∀ node ∈ nodes ++ [last], (other node).prev = (links node).prev) :
    Chain other first nodes last := by
  induction nodes generalizing first with
  | nil =>
    obtain ⟨next, prev⟩ := chain
    exact ⟨(forth first List.mem_cons_self).trans next, (back last (by simp)).trans prev⟩
  | cons node rest ih =>
    obtain ⟨next, prev, later⟩ := chain
    refine ⟨(forth first List.mem_cons_self).trans next, (back node (by simp)).trans prev, ?_⟩
    -- The rest of the chain starts one node later.
    grind

variable (chain : Chain links first nodes last)
include chain

/-- The link forth of a node of the chain leads to a node or to the end. -/
theorem next_mem (member : node ∈ first :: nodes) :
    (links node).next ∈ nodes ++ [last] := by
  induction nodes generalizing first with
  | nil =>
    obtain rfl : node = first := by simpa using member
    simp [chain.1]
  | cons second rest ih =>
    obtain ⟨next, _, later⟩ := chain
    grind

/-- The link back of a node of the chain or of its end leads to a node or to the start. -/
theorem prev_mem (member : node ∈ nodes ++ [last]) :
    (links node).prev ∈ first :: nodes := by
  induction nodes generalizing first with
  | nil =>
    obtain rfl : node = last := by simpa using member
    simp [chain.2]
  | cons second rest ih =>
    obtain ⟨_, prev, later⟩ := chain
    grind

/-- Making two nodes neighbours keeps the chains that lead on neither from the first nor to the
second. -/
theorem relink [DecidableEq Node] {before behind : Node} (forth : before ∉ first :: nodes)
    (back : behind ∉ nodes ++ [last]) :
    Chain (Lib.relink before behind links) first nodes last :=
  chain.congr (fun node member => by rw [relink_next, if_neg (ne_of_mem_of_not_mem member forth)])
    fun node member => by rw [relink_prev, if_neg (ne_of_mem_of_not_mem member back)]

/-- A chain is led to another end when its last node and the new end become neighbours. -/
theorem lead [DecidableEq Node] {target : Node} (nodup : (first :: nodes).Nodup)
    (apart : target ∉ nodes) :
    Chain (Lib.relink (links last).prev target links) first nodes target := by
  -- The last node is the first one, or it is the end of a chain that stays.
  rcases nodes.eq_nil_or_concat' with rfl | ⟨init, final, rfl⟩
  · simp [Chain, chain.2]
  · obtain ⟨front, _, back⟩ := append.mp chain
    rw [back]
    refine append.mpr ⟨front.relink ?_ apart, by simp [Chain]⟩
    grind

end Chain

namespace Ring

/-- A ring seen from another of its nodes. -/
theorem turn (ring : Ring links head (left ++ node :: right)) :
    Ring links node (right ++ head :: left) := by
  obtain ⟨before, behind⟩ := Chain.append.mp ring.chain
  have nodup := ring.nodup
  exact ⟨Chain.append.mpr ⟨behind, before⟩, by grind⟩

theorem empty (own : links head = ⟨head, head⟩) : Ring links head [] :=
  ⟨by simp [Chain, own], by simp⟩

/-- A walk along a chain finds the first node that fits. -/
theorem listFindFrom_eq [DecidableEq Node] {limit : Nat} {fits : Node → Bool}
    (chain : Chain links first nodes head) (apart : head ∉ nodes) (enough : nodes.length < limit) :
    listFindFrom links head fits limit (links first).next = some (nodes.find? fits) := by
  induction nodes generalizing first limit with
  | nil =>
    obtain ⟨limit, rfl⟩ := Nat.exists_eq_add_one_of_ne_zero (by omega : limit ≠ 0)
    rw [listFindFrom, if_pos chain.1, List.find?_nil]
  | cons node rest ih =>
    obtain ⟨limit, rfl⟩ := Nat.exists_eq_add_one_of_ne_zero (by omega : limit ≠ 0)
    obtain ⟨next, _, later⟩ := chain
    rw [List.mem_cons, not_or] at apart
    rw [next, listFindFrom, if_neg (Ne.symm apart.1), List.find?_cons]
    -- The walk ends at this node or goes on behind it.
    grind

/-- A walk along a chain to the head comes to its nodes. -/
theorem listWalk_eq [DecidableEq Node] {limit : Nat} (chain : Chain links first nodes head)
    (apart : head ∉ nodes) :
    listWalk links head limit (links first).next =
      if nodes.length < limit then some nodes else none := by
  induction nodes generalizing first limit with
  | nil => cases limit <;> simp [listWalk, chain.1]
  | cons node rest ih =>
    obtain ⟨next, _, later⟩ := chain
    cases limit with
    | zero => rfl
    | succ limit =>
      rw [List.mem_cons, not_or] at apart
      rw [next, listWalk, if_neg (Ne.symm apart.1), ih later apart.2]
      grind

/-- The ring without its head, seen from the node behind it. -/
theorem drop [DecidableEq Node] (ring : Ring links node (first :: nodes)) :
    Ring (listDel node links) first nodes := by
  obtain ⟨next, _, chain⟩ := ring.chain
  have nodup := (List.nodup_cons.mp ring.nodup).2
  have led := chain.lead nodup (List.nodup_cons.mp nodup).1
  exact ⟨by rwa [← next] at led ⊢, nodup⟩

variable (ring : Ring links head nodes)
include ring

/-- A ring depends on the links of its own nodes. -/
theorem congr (same : ∀ node ∈ head :: nodes, other node = links node) :
    Ring other head nodes := by
  refine ⟨ring.chain.congr (fun node member => by rw [same node member]) fun node member => ?_,
    ring.nodup⟩
  rw [same node (by simpa [or_comm] using member)]

/-- What the links of a ring lead to is in the ring. -/
theorem reaches (leads : Reaches links head node) :
    node ∈ head :: nodes := by
  induction leads with
  | refl => exact List.mem_cons_self
  | tail _ step ih =>
    -- Either link of a node of the ring stays inside.
    rcases step with rfl | rfl
    · simpa [or_comm] using ring.chain.next_mem ih
    · exact ring.chain.prev_mem (by simpa [or_comm] using ih)

theorem prev_head : (links head).prev ∈ head :: nodes :=
  ring.chain.prev_mem (by simp)

/-- Every node of a ring can be taken for its head. -/
theorem rotate (member : node ∈ head :: nodes) :
    ∃ others, Ring links node others ∧ ∀ seen, seen ∈ node :: others ↔ seen ∈ head :: nodes := by
  rcases List.mem_cons.mp member with rfl | inside
  · exact ⟨nodes, ring, fun _ => Iff.rfl⟩
  · obtain ⟨left, right, rfl⟩ := List.append_of_mem inside
    exact ⟨right ++ head :: left, ring.turn, by grind⟩

variable [DecidableEq Node] {limit : Nat} {newNode : Node}

/-- An insertion into a ring leaves alone what is in neither. -/
theorem listAddTail_outside (fresh : node ≠ newNode) (outside : node ∉ head :: nodes) :
    listAddTail newNode head links node = links node := by
  have before := (ne_of_mem_of_not_mem ring.prev_head outside).symm
  have behind := (ne_of_mem_of_not_mem List.mem_cons_self outside).symm
  exact (relink_apart before fresh).trans (relink_apart fresh behind)

/-- A removal from a ring leaves alone what is not in it. -/
theorem listDel_outside {entry : Node} (member : entry ∈ nodes) (outside : node ∉ head :: nodes) :
    listDel entry links node = links node := by
  have before := ring.chain.prev_mem (List.mem_append_left [head] member)
  have behind : (links entry).next ∈ head :: nodes := by
    simpa [or_comm] using ring.chain.next_mem (List.mem_cons_of_mem _ member)
  exact relink_apart (ne_of_mem_of_not_mem before outside).symm
    (ne_of_mem_of_not_mem behind outside).symm

/-- An insertion in front of the head puts the new node at the end. -/
theorem addTail (fresh : newNode ∉ head :: nodes) :
    Ring (listAddTail newNode head links) head (nodes ++ [newNode]) := by
  obtain ⟨apart, nodup⟩ := List.nodup_cons.mp ring.nodup
  have before : (links head).prev ≠ newNode := ne_of_mem_of_not_mem ring.prev_head fresh
  rw [List.mem_cons, not_or] at fresh
  -- The last node leads to the new one, and then the new one to the head.
  have swapped : listAddTail newNode head links =
      relink newNode head (relink (links head).prev newNode links) :=
    relink_comm before fresh.1
  have led := ring.chain.lead ring.nodup fresh.2
  rw [swapped]
  exact ⟨Chain.append.mpr ⟨led.relink (by grind) (by grind), by simp [Chain]⟩, by grind⟩

/-- An insertion behind the head puts the new node at the start. -/
theorem cons (fresh : newNode ∉ head :: nodes) :
    Ring (listAdd newNode head links) head (newNode :: nodes) := by
  cases nodes with
  | nil =>
    have tail : listAdd newNode head links = listAddTail newNode head links := by
      rw [listAdd, listAddTail, ring.chain.1, ring.chain.2]
    exact tail ▸ ring.addTail fresh
  | cons first rest =>
    -- The new node stands before the node that came first.
    have tail : listAdd newNode head links = listAddTail newNode first links := by
      rw [listAdd, listAddTail, ring.chain.1, ring.chain.2.1]
    have turned : Ring links first (rest ++ [head]) := @turn _ links head first [] rest ring
    have added := turned.addTail (show newNode ∉ first :: (rest ++ [head]) by grind)
    rw [List.append_assoc] at added
    exact tail ▸ added.turn

/-- An insertion behind any node of a ring makes the new node a node of the ring. -/
theorem add (member : node ∈ head :: nodes) (fresh : newNode ∉ head :: nodes) :
    ∃ others, Ring (listAdd newNode node links) newNode others ∧
      (∀ seen, seen ∈ others ↔ seen ∈ head :: nodes) ∧
      ∀ seen, seen ≠ newNode → seen ∉ head :: nodes →
        listAdd newNode node links seen = links seen := by
  obtain ⟨others, here, same⟩ := ring.rotate member
  have next : (links node).next ∈ node :: others := by
    simpa [or_comm] using here.chain.next_mem List.mem_cons_self
  have added := here.cons (show newNode ∉ node :: others by grind)
  refine ⟨others ++ [node], @turn _ _ node newNode [] others added, by grind,
    fun seen apart outside => ?_⟩
  exact (relink_apart (by grind) apart).trans (relink_apart apart (by grind))

/-- A removal takes the node out of the ring. -/
theorem del (member : node ∈ nodes) :
    Ring (listDel node links) head (nodes.erase node) := by
  obtain ⟨left, right, rfl⟩ := List.append_of_mem member
  have notLeft : node ∉ left := by have := ring.nodup; grind
  rw [List.erase_append_right _ notLeft, List.erase_cons_head]
  cases right with
  | nil => simpa using ring.turn.drop
  | cons second rest => exact ring.turn.drop.turn

end Ring

end Ccos.Lib
