import Mathlib.Data.List.Basic
import Mathlib.Data.List.Induction
import Mathlib.Logic.Function.Basic

/-! Radix trees whose nodes lie in a flat memory, and what a single store does to every descent. -/

namespace Ccos.Lib

variable {Node Index Entry Addr : Type*}

/-- Where a node keeps its entries, and which entries lead to a further node. -/
structure RadixLayout (Node Index Entry Addr : Type*) where
  slot : Node → Index → Addr
  child : Entry → Option Node

namespace RadixLayout

variable (layout : RadixLayout Node Index Entry Addr)

/-- Follow a path of indices through the entries stored in memory. -/
def descend (mem : Addr → Entry) (node : Node) : List Index → Option Node
  | [] => some node
  | index :: rest =>
    -- An entry that leads nowhere ends the descent.
    match layout.child (mem (layout.slot node index)) with
    | some next => descend mem next rest
    | none => none

/-- The entry at which following a path ends, with the indices it leaves unused. -/
def stop (mem : Addr → Entry) (node : Node) : List Index → Option (Entry × List Index)
  | [] => none
  | [index] => some (mem (layout.slot node index), [])
  | index :: second :: rest =>
    -- The walk goes on only through entries that lead to a further node.
    match layout.child (mem (layout.slot node index)) with
    | some next => stop mem next (second :: rest)
    | none => some (mem (layout.slot node index), second :: rest)

/-- No two entries within the given depth share an address. -/
@[grind =] def Separated (mem : Addr → Entry) (root : Node) (depth : Nat) : Prop :=
  ∀ first second firstNode secondNode firstIndex secondIndex,
    first.length ≤ depth → second.length ≤ depth →
    layout.descend mem root first = some firstNode →
    layout.descend mem root second = some secondNode →
    layout.slot firstNode firstIndex = layout.slot secondNode secondIndex →
    first = second ∧ firstIndex = secondIndex

/-- Within the given depth only the entry with this path and index lies at this address. -/
@[grind =]
def Owned (mem : Addr → Entry) (root : Node) (depth : Nat) (path : List Index) (index : Index)
    (addr : Addr) : Prop :=
  ∀ other node i, other.length ≤ depth → layout.descend mem root other = some node →
    layout.slot node i = addr → other = path ∧ i = index

variable {layout} {node root : Node} {depth : Nat} {path : List Index} {mem : Addr → Entry}

/-- Entries that are apart are each owned by their path and index. -/
theorem Separated.owned (separated : layout.Separated mem root depth)
    (within : path.length ≤ depth) (reached : layout.descend mem root path = some node)
    (index : Index) : layout.Owned mem root depth path index (layout.slot node index) :=
  fun other target i short reach same =>
    separated other path target node i index short within reach reached same

/-- A descent along two joined paths goes through the node between them. -/
theorem descend_append (mem : Addr → Entry) (node : Node) (front back : List Index) :
    layout.descend mem node (front ++ back) =
      (layout.descend mem node front).bind fun middle => layout.descend mem middle back := by
  induction front generalizing node with
  | nil => rfl
  | cons index rest ih =>
    simp only [List.cons_append, descend]
    -- The shared first entry decides both sides.
    cases layout.child (mem (layout.slot node index)) with
    | none => rfl
    | some next => exact ih next

/-- Extending a path by one index reads one more entry. -/
theorem descend_concat (reached : layout.descend mem root path = some node) (index : Index) :
    layout.descend mem root (path ++ [index]) = layout.child (mem (layout.slot node index)) := by
  rw [descend_append, reached, Option.bind_some, descend]
  cases layout.child (mem (layout.slot node index)) <;> rfl

variable {other : Addr → Entry}

section

variable (agree : ∀ front node index, front ++ [index] <+: path →
    layout.descend mem root front = some node →
    other (layout.slot node index) = mem (layout.slot node index))
include agree

/-- Memories that agree on the entries along a path have the same descent. -/
theorem descend_congr_along : layout.descend other root path = layout.descend mem root path := by
  -- The last index reads an entry of a node whose own path is already settled.
  induction path using List.reverseRecOn with
  | nil => rfl
  | append_singleton front index ih =>
    have settled := ih fun shorter node i early =>
      agree shorter node i (early.trans (List.prefix_append front [index]))
    rw [descend_append, descend_append, settled]
    cases reached : layout.descend mem root front with
    | none => rfl
    | some node =>
      simp only [Option.bind_some, descend, agree front node index (List.prefix_refl _) reached]

/-- Memories that agree on the entries along a path have the same walk. -/
theorem stop_congr_along : layout.stop other root path = layout.stop mem root path := by
  -- The induction is on the unread part of the path, below the node already reached.
  suffices walk : ∀ back front middle, front ++ back = path →
      layout.descend mem root front = some middle →
      layout.stop other middle back = layout.stop mem middle back from walk path [] root rfl rfl
  intro back
  induction back with
  | nil => exact fun _ _ _ _ => rfl
  | cons index rest ih =>
    intro front middle joined reached
    have same := agree front middle index ⟨rest, by simpa using joined⟩ reached
    cases rest with
    | nil => simp only [stop, same]
    | cons second tail =>
      simp only [stop, same]
      cases link : layout.child (mem (layout.slot middle index)) with
      | none => rfl
      | some next =>
        refine ih (front ++ [index]) next (by simpa using joined) ?_
        rw [descend_concat reached, link]

end

section

variable (agree : ∀ path node index, path.length ≤ depth → layout.descend mem root path = some node →
    other (layout.slot node index) = mem (layout.slot node index)) (short : path.length ≤ depth + 1)
include agree short

/-- Memories that agree on every reached entry have the same descents. -/
theorem descend_congr : layout.descend other root path = layout.descend mem root path := by
  refine descend_congr_along fun front node index early reached => agree front node index ?_ reached
  grind

/-- Memories that agree on every reached entry have the same walks. -/
theorem stop_congr : layout.stop other root path = layout.stop mem root path := by
  refine stop_congr_along fun front node index early reached => agree front node index ?_ reached
  grind

end

/-- A walk through a reached node is the walk from that node. -/
theorem stop_append {front back : List Index}
    (reached : layout.descend mem root front = some node) (remaining : back ≠ []) :
    layout.stop mem root (front ++ back) = layout.stop mem node back := by
  induction front generalizing root with
  | nil =>
    obtain rfl : root = node := by simpa [descend] using reached
    rfl
  | cons index rest ih =>
    -- The rest of the path is not empty, so the first entry is followed.
    obtain ⟨second, tail, split⟩ : ∃ second tail, rest ++ back = second :: tail := by
      cases joined : rest ++ back with
      | nil => simp_all
      | cons second tail => exact ⟨second, tail, rfl⟩
    simp only [descend] at reached
    rw [List.cons_append, split, stop, ← split]
    grind

section Store

variable [DecidableEq Addr]
variable {mem : Addr → Entry} {root node : Node} {depth : Nat} {path : List Index} {index : Index}
  {other : List Index}

section

variable (owned : layout.Owned mem root depth path index (layout.slot node index))
include owned

/-- A path that does not use the stored entry reads other entries. -/
theorem Owned.store_along (entry : Entry) (short : other.length ≤ depth + 1)
    (apart : ¬ path ++ [index] <+: other) (front : List Index) (middle : Node) (i : Index)
    (early : front ++ [i] <+: other) (reached : layout.descend mem root front = some middle) :
    Function.update mem (layout.slot node index) entry (layout.slot middle i) =
      mem (layout.slot middle i) := by
  apply Function.update_of_ne
  -- Sharing the stored address would make this path one through the stored entry.
  grind

/-- A store into one entry leaves alone every descent that is no longer than the path to its node. -/
theorem descend_store_short (within : path.length ≤ depth) (entry : Entry)
    (short : other.length ≤ path.length) :
    layout.descend (Function.update mem (layout.slot node index) entry) root other =
      layout.descend mem root other := by
  apply descend_congr_along (owned.store_along entry (by omega) fun through => ?_)
  -- A path through the entry is longer.
  have := through.length_le
  simp only [List.length_append, List.length_cons, List.length_nil] at this
  omega

end

end Store

end RadixLayout

end Ccos.Lib
