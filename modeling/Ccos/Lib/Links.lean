import Mathlib.Data.List.Basic
import Mathlib.Data.List.Nodup

/-! Doubly linked lists over numbered nodes, where zero is no node. -/

namespace Ccos.Lib

/-- Consecutive nodes linked both ways: from `first`, whose predecessor is `before`, to `last`,
whose successor is `after`. -/
def Linked (prev next : Nat → Nat) : (before first : Nat) → List Nat → (last after : Nat) → Prop
  | before, first, [], last, after => last = before ∧ first = after
  | before, first, node :: rest, last, after =>
    first = node ∧ node ≠ 0 ∧ prev node = before ∧ Linked prev next node (next node) rest last after

instance decidableLinked (prev next : Nat → Nat) : (before first : Nat) → (nodes : List Nat) →
    (last after : Nat) → Decidable (Linked prev next before first nodes last after)
  | before, first, [], last, after => inferInstanceAs (Decidable (last = before ∧ first = after))
  | before, first, node :: rest, last, after =>
    have := decidableLinked prev next node (next node) rest last after
    inferInstanceAs (Decidable (first = node ∧ node ≠ 0 ∧ prev node = before ∧ _))

/-- A strictly increasing list has at most as many nodes as its range. -/
theorem length_le_of_sorted {nodes : List Nat} {low high : Nat} (sorted : nodes.Pairwise (· < ·))
    (bounded : ∀ node ∈ nodes, low ≤ node ∧ node < high) : nodes.length ≤ high - low := by
  induction nodes generalizing low with
  | nil => exact Nat.zero_le _
  | cons node rest ih =>
    obtain ⟨above, sorted⟩ := List.pairwise_cons.mp sorted
    have here := bounded node List.mem_cons_self
    have later : rest.length ≤ high - (node + 1) := ih sorted fun other member =>
      ⟨above other member, (bounded other (List.mem_cons_of_mem _ member)).2⟩
    rw [List.length_cons]
    omega

namespace Linked

variable {prev next prev' next' : Nat → Nat} {before first last after : Nat}
  {nodes left right : List Nat}

/-- A concatenation is linked exactly if its parts meet at some link. -/
theorem append : Linked prev next before first (left ++ right) last after ↔
    ∃ middle link, Linked prev next before first left middle link ∧
      Linked prev next middle link right last after := by
  induction left generalizing before first with
  | nil =>
    constructor
    · exact fun linked => ⟨before, first, ⟨rfl, rfl⟩, linked⟩
    · rintro ⟨_, _, ⟨rfl, rfl⟩, linked⟩
      exact linked
  | cons node rest ih =>
    simp only [List.cons_append, Linked, ih]
    grind

section

variable (linked : Linked prev next before first nodes last after)
include linked

/-- Links may change at other nodes. -/
theorem congr (same : ∀ node ∈ nodes, prev' node = prev node ∧ next' node = next node) :
    Linked prev' next' before first nodes last after := by
  induction nodes generalizing before first with
  | nil => exact linked
  | cons node rest ih =>
    obtain ⟨here, nonzero, back, later⟩ := linked
    obtain ⟨samePrev, sameNext⟩ := same node List.mem_cons_self
    refine ⟨here, nonzero, samePrev.trans back, ?_⟩
    grind

/-- No node is zero. -/
theorem ne_zero {node : Nat} (member : node ∈ nodes) : node ≠ 0 := by
  induction nodes generalizing before first with
  | nil => cases member
  | cons head rest ih =>
    obtain ⟨_, nonzero, _, later⟩ := linked
    grind

/-- The last node is the predecessor of an empty list, and a node otherwise. -/
theorem last_mem :
    nodes = [] ∧ last = before ∨ last ∈ nodes := by
  induction nodes generalizing before first with
  | nil => exact .inl ⟨rfl, linked.1⟩
  | cons node rest ih =>
    obtain ⟨_, _, _, later⟩ := linked
    grind

/-- The first link leads to the successor for an empty list, and to a node otherwise. -/
theorem first_mem :
    nodes = [] ∧ first = after ∨ first ∈ nodes := by
  cases nodes with
  | nil => exact .inl ⟨rfl, linked.2⟩
  | cons node rest => exact .inr (linked.1 ▸ List.mem_cons_self)

end

theorem last_concat {node : Nat} (linked : Linked prev next before first (left ++ [node]) last after) :
    last = node := by
  obtain ⟨_, _, _, _, _, _, same, _⟩ := append.mp linked
  exact same

/-- The last node is the last of the list, or what comes before an empty list. -/
theorem last_eq (linked : Linked prev next before first nodes last after) :
    last = nodes.getLastD before := by
  rcases List.eq_nil_or_concat' nodes with rfl | ⟨rest, node, rfl⟩
  · exact linked.1
  · rw [linked.last_concat, List.getLastD_concat]

/-- Giving the last node another successor. -/
theorem relink_after (linked : Linked prev next before first nodes last after)
    (nodup : nodes.Nodup) (link : Nat)
    (back : ∀ node ∈ nodes, prev' node = prev node)
    (forth : ∀ node ∈ nodes, next' node = if node = last then link else next node) :
    Linked prev' next' before (if nodes = [] then link else first) nodes last link := by
  induction nodes generalizing before first with
  | nil => exact ⟨linked.1, if_pos rfl⟩
  | cons node rest ih =>
    obtain ⟨here, nonzero, behind, later⟩ := linked
    obtain ⟨fresh, nodup⟩ := List.nodup_cons.mp nodup
    refine ⟨by simpa using here, nonzero, (back node List.mem_cons_self).trans behind, ?_⟩
    have rest' := ih later nodup (fun other member => back other (List.mem_cons_of_mem _ member))
      fun other member => forth other (List.mem_cons_of_mem _ member)
    -- The last node is this one exactly if nothing follows.
    rw [forth node List.mem_cons_self]
    rcases later.last_mem with ⟨empty, same⟩ | member
    all_goals grind

/-- Giving the first node another predecessor. -/
theorem relink_before (linked : Linked prev next before first nodes last after)
    (nodup : nodes.Nodup) (link : Nat)
    (back : ∀ node ∈ nodes, prev' node = if node = first then link else prev node)
    (forth : ∀ node ∈ nodes, next' node = next node) :
    ∃ final, Linked prev' next' link first nodes final after := by
  cases nodes with
  | nil => exact ⟨link, rfl, linked.2⟩
  | cons node rest =>
    obtain ⟨here, nonzero, _, later⟩ := linked
    obtain ⟨fresh, _⟩ := List.nodup_cons.mp nodup
    refine ⟨last, here, nonzero, ?_, ?_⟩
    · rw [back node List.mem_cons_self, if_pos here.symm]
    · rw [forth node List.mem_cons_self]
      refine later.congr fun other member => ?_
      grind

/-- A list from a null predecessor is empty exactly if its last node is null. -/
theorem last_eq_zero_iff (linked : Linked prev next 0 first nodes last after) :
    last = 0 ↔ nodes = [] := by
  rcases linked.last_mem with ⟨empty, zero⟩ | member
  · exact iff_of_true zero empty
  · exact iff_of_false (linked.ne_zero member) (List.ne_nil_of_mem member)

/-- The neighbours of two parts of a list are on the other side or null. -/
theorem ends_apart {middle link back forth : Nat} (before : Linked prev next 0 first left middle forth)
    (behind : Linked prev next back link right last 0)
    (apart : ∀ one ∈ left, ∀ other ∈ right, one ≠ other) :
    (∀ other ∈ left, other ≠ link) ∧ ∀ other ∈ right, other ≠ middle := by
  constructor
  · rintro other member rfl
    rcases behind.first_mem with ⟨_, zero⟩ | inRight
    · exact before.ne_zero member zero
    · exact apart _ member _ inRight rfl
  · rintro other member rfl
    rcases before.last_mem with ⟨_, zero⟩ | inLeft
    · exact behind.ne_zero member zero
    · exact apart _ inLeft _ member rfl

/-- Unlinking a node joins its neighbours. -/
theorem remove {node : Nat} (linked : Linked prev next 0 first (left ++ node :: right) last 0)
    (nodup : (left ++ node :: right).Nodup)
    (back : ∀ other ∈ left ++ right,
      prev' other = if other = next node then prev node else prev other)
    (forth : ∀ other ∈ left ++ right,
      next' other = if other = prev node then next node else next other) :
    ∃ final, Linked prev' next' 0 (if prev node = 0 then next node else first) (left ++ right)
      final 0 := by
  obtain ⟨middle, link, before, here, nonzero, rfl, behind⟩ := append.mp linked
  subst link
  obtain ⟨leftNodup, rightNodup, apart⟩ := List.nodup_append.mp nodup
  obtain ⟨_, rightNodup⟩ := List.nodup_cons.mp rightNodup
  -- Each side changes at its end only.
  obtain ⟨leftKept, rightKept⟩ := before.ends_apart behind fun one inLeft other inRight =>
    apart one inLeft other (List.mem_cons_of_mem _ inRight)
  have leftLinked : Linked prev' next' _ _ left _ _ := before.relink_after leftNodup (next node)
    (fun other member => by
      rw [back other (List.mem_append_left _ member), if_neg (leftKept other member)])
    fun other member => forth other (List.mem_append_left _ member)
  obtain ⟨final, rightLinked⟩ : ∃ final, Linked prev' next' _ _ right final 0 :=
    behind.relink_before rightNodup (prev node)
    (fun other member => back other (List.mem_append_right _ member))
    fun other member => by
      grind
  refine ⟨final, append.mpr ⟨_, _, ?_, rightLinked⟩⟩
  simpa only [before.last_eq_zero_iff] using leftLinked

/-- Linking a node in between two parts of a list. -/
theorem insert {node middle link : Nat} (before : Linked prev next 0 first left middle link)
    (behind : Linked prev next middle link right last 0)
    (nodup : (left ++ node :: right).Nodup) (nonzero : node ≠ 0)
    (back : ∀ other ∈ left ++ node :: right, prev' other =
      if other = node then middle else if other = link then node else prev other)
    (forth : ∀ other ∈ left ++ node :: right, next' other =
      if other = node then link else if other = middle then node else next other) :
    ∃ final, Linked prev' next' 0 (if middle = 0 then node else first) (left ++ node :: right)
      final 0 := by
  obtain ⟨leftNodup, rightNodup, apart⟩ := List.nodup_append.mp nodup
  obtain ⟨absent, rightNodup⟩ := List.nodup_cons.mp rightNodup
  obtain ⟨notLink, notMiddle⟩ := before.ends_apart behind fun one inLeft other inRight =>
    apart one inLeft other (List.mem_cons_of_mem _ inRight)
  have leftKept (other : Nat) (member : other ∈ left) : other ≠ node ∧ other ≠ link :=
    ⟨apart other member node List.mem_cons_self, notLink other member⟩
  have rightKept (other : Nat) (member : other ∈ right) : other ≠ node ∧ other ≠ middle :=
    ⟨by rintro rfl; exact absent member, notMiddle other member⟩
  have leftLinked : Linked prev' next' _ _ left _ _ := before.relink_after leftNodup node
    (fun other member => by
      rw [back other (List.mem_append_left _ member), if_neg (leftKept other member).1,
        if_neg (leftKept other member).2])
    fun other member => by
      grind
  have inside : ∀ other ∈ right, other ∈ left ++ node :: right := fun other member =>
    List.mem_append_right _ (List.mem_cons_of_mem _ member)
  obtain ⟨final, rightLinked⟩ : ∃ final, Linked prev' next' _ _ right final 0 :=
    behind.relink_before rightNodup node
    (fun other member => by
      rw [back other (inside other member), if_neg (rightKept other member).1])
    fun other member => by
      grind
  have here : node ∈ left ++ node :: right := List.mem_append_right _ List.mem_cons_self
  refine ⟨final, append.mpr ⟨middle, node, ?_, rfl, nonzero, ?_, ?_⟩⟩
  · simpa only [before.last_eq_zero_iff] using leftLinked
  all_goals grind

end Linked

end Ccos.Lib
