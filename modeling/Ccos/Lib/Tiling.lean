import Mathlib.Data.List.Basic

/-! Lists of segments that cover an interval without a gap and without an overlap. -/

namespace Ccos.Lib

variable {Segment : Type*} {first size : Segment → Nat}

/-- The segments follow each other from the start to the stop. -/
def Tiles (first size : Segment → Nat) : Nat → List Segment → Nat → Prop
  | start, [], stop => start = stop
  | start, segment :: rest, stop =>
    first segment = start ∧ Tiles first size (start + size segment) rest stop

instance decidableTiles (first size : Segment → Nat) :
    (start : Nat) → (segments : List Segment) → (stop : Nat) →
      Decidable (Tiles first size start segments stop)
  | start, [], stop => inferInstanceAs (Decidable (start = stop))
  | start, segment :: rest, stop =>
    have := decidableTiles first size (start + size segment) rest stop
    inferInstanceAs (Decidable (first segment = start ∧ _))

namespace Tiles

variable {start stop : Nat} {segments left right : List Segment} {segment : Segment}

/-- A concatenation covers an interval exactly if its parts meet somewhere inside. -/
theorem append : Tiles first size start (left ++ right) stop ↔
    ∃ middle, Tiles first size start left middle ∧ Tiles first size middle right stop := by
  induction left generalizing start with
  | nil =>
    constructor
    · exact fun tiles => ⟨start, rfl, tiles⟩
    · rintro ⟨_, rfl, tiles⟩
      exact tiles
  | cons segment rest ih =>
    simp only [List.cons_append, Tiles, ih, and_assoc, exists_and_left]

section

variable (tiles : Tiles first size start segments stop)
include tiles

theorem le : start ≤ stop := by
  induction segments generalizing start with
  | nil => exact Nat.le_of_eq tiles
  | cons segment rest ih =>
    have := ih tiles.2
    omega

/-- Every segment lies inside the interval. -/
theorem bounds (member : segment ∈ segments) :
    start ≤ first segment ∧ first segment + size segment ≤ stop := by
  induction segments generalizing start with
  | nil => cases member
  | cons head rest ih =>
    obtain ⟨here, later⟩ := tiles
    rcases List.mem_cons.mp member with rfl | inRest
    · have := later.le
      omega
    · have := ih later inRest
      omega

/-- An earlier segment ends before a later one starts. -/
theorem pairwise :
    segments.Pairwise fun before after => first before + size before ≤ first after := by
  induction segments generalizing start with
  | nil => exact .nil
  | cons head rest ih =>
    obtain ⟨here, later⟩ := tiles
    refine List.pairwise_cons.mpr ⟨fun after member => ?_, ih later⟩
    have := (later.bounds member).1
    omega

/-- Two segments are the same one, or one ends before the other starts. -/
theorem apart {other : Segment} (member : segment ∈ segments) (another : other ∈ segments) :
    segment = other ∨ first segment + size segment ≤ first other ∨
      first other + size other ≤ first segment := by
  induction segments generalizing start with
  | nil => cases member
  | cons head rest ih =>
    obtain ⟨here, later⟩ := tiles
    rcases List.mem_cons.mp member with rfl | inRest
    · rcases List.mem_cons.mp another with rfl | otherRest
      · exact .inl rfl
      · have := (later.bounds otherRest).1
        omega
    · rcases List.mem_cons.mp another with rfl | otherRest
      · have := (later.bounds inRest).1
        omega
      · exact ih later inRest otherRest

end

/-- A part of a tiling may be replaced by segments that cover the same interval. -/
theorem replace {old new : List Segment}
    (tiles : Tiles first size start (left ++ old ++ right) stop)
    (same : ∀ low high, Tiles first size low old high → Tiles first size low new high) :
    Tiles first size start (left ++ new ++ right) stop := by
  obtain ⟨high, both, after⟩ := append.mp tiles
  obtain ⟨low, before, covered⟩ := append.mp both
  exact append.mpr ⟨high, append.mpr ⟨low, before, same low high covered⟩, after⟩

end Tiles

end Ccos.Lib
