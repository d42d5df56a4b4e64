import Ccos.Lib.RadixTree
import Mathlib.Data.List.Nodup

/-! All nodes of a radix tree, each after the nodes below it. -/

namespace Ccos.Lib

namespace RadixLayout

variable {Node Index Entry Addr : Type*} {layout : RadixLayout Node Index Entry Addr}

/-- The paths with one index of each level, every path after those that go on from it. -/
def sweepPaths : List (List Index) → List (List Index)
  | [] => [[]]
  | level :: rest => level.flatMap (fun index => (sweepPaths rest).map (index :: ·)) ++ [[]]

variable {levels : List (List Index)}

/-- No path goes beyond the last level. -/
theorem length_le_of_mem_sweepPaths {path : List Index} (member : path ∈ sweepPaths levels) :
    path.length ≤ levels.length := by
  -- Both lists are taken apart together.
  induction levels generalizing path with
  | nil =>
    obtain rfl := List.mem_singleton.mp member
    exact Nat.le_refl 0
  | cons level rest ih =>
    cases path with
    | nil => exact Nat.zero_le _
    | cons index path =>
      have inside : index ∈ level ∧ path ∈ sweepPaths rest := by simpa [sweepPaths] using member
      exact Nat.succ_le_succ (ih inside.2)

/-- Levels without repetition give paths without repetition. -/
theorem nodup_sweepPaths (distinct : ∀ level ∈ levels, level.Nodup) :
    (sweepPaths levels).Nodup := by
  induction levels with
  | nil => exact List.nodup_singleton _
  | cons level rest ih =>
    have below := ih fun other listed => distinct other (List.mem_cons_of_mem _ listed)
    apply List.Nodup.append _ (List.nodup_singleton _)
    · -- The empty path has no first index.
      intro path first last
      obtain rfl := List.mem_singleton.mp last
      simp at first
    · rw [List.nodup_flatMap]
      constructor
      · intro index _
        exact below.map (List.cons_injective)
      · -- Paths with different first indices differ.
        apply (distinct level List.mem_cons_self).imp
        intro index other differ path mine yours
        obtain ⟨_, _, rfl⟩ := List.mem_map.mp mine
        obtain ⟨_, _, same⟩ := List.mem_map.mp yours
        exact differ (List.cons.inj same).1.symm

variable (layout)

/-- The nodes that paths through the levels lead to, every node after those below it. -/
def sweep (mem : Addr → Entry) (node : Node) (levels : List (List Index)) : List Node :=
  (sweepPaths levels).filterMap (layout.descend mem node)

/-- The nodes below an entry. -/
def sweepChild (mem : Addr → Entry) (levels : List (List Index)) (entry : Entry) : List Node :=
  match layout.child entry with
  | some next => layout.sweep mem next levels
  | none => []

variable {layout}

theorem sweep_nil (mem : Addr → Entry) (node : Node) : layout.sweep mem node [] = [node] := by
  simp [sweep, sweepPaths, descend]

variable {mem : Addr → Entry}

/-- Below an entry with a child lies the sweep of the child. -/
theorem sweepChild_of_child {entry : Entry} {next : Node} (child : layout.child entry = some next) :
    layout.sweepChild mem levels entry = layout.sweep mem next levels := by
  rw [sweepChild, child]

/-- The sweep of a node is that of its children, one after the other, and then the node. -/
theorem sweep_cons (mem : Addr → Entry) (node : Node) (level : List Index)
    (rest : List (List Index)) :
    layout.sweep mem node (level :: rest) =
      level.flatMap (fun index => layout.sweepChild mem rest (mem (layout.slot node index))) ++
        [node] := by
  have children (index : Index) :
      ((sweepPaths rest).map (index :: ·)).filterMap (layout.descend mem node) =
        layout.sweepChild mem rest (mem (layout.slot node index)) := by
    rw [List.filterMap_map, sweepChild]
    cases link : layout.child (mem (layout.slot node index)) with
    | none =>
      apply List.filterMap_eq_nil_iff.mpr
      intro path _
      simp [descend, link]
    | some next =>
      apply congrArg (List.filterMap · _)
      funext path
      simp [descend, link]
  rw [sweep, sweepPaths, List.filterMap_append, List.filterMap_flatMap]
  simp only [children]
  rfl

/-- Where entries are apart, the sweep meets no node twice. -/
theorem Separated.nodup_sweep [Nonempty Index] {root : Node} {depth : Nat}
    (separated : layout.Separated mem root depth) (short : levels.length ≤ depth)
    (distinct : ∀ level ∈ levels, level.Nodup) : (layout.sweep mem root levels).Nodup := by
  obtain ⟨index⟩ := ‹Nonempty Index›
  apply List.pairwise_filterMap.mpr
  apply (nodup_sweepPaths distinct).imp_of_mem
  intro path other listed also differ node reached target reaches same
  subst target
  -- A node with two paths would have each of its entries twice.
  have within := length_le_of_mem_sweepPaths listed
  have alike := length_le_of_mem_sweepPaths also
  exact differ (separated path other node node index index (by omega) (by omega) reached reaches
    rfl).1

end RadixLayout

end Ccos.Lib
