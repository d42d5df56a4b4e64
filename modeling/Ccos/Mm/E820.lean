import Ccos.Mm.Pframe

/-! The range check on the firmware memory map, from `mm/memory_detect/e820.c`. -/

namespace Ccos

open Lib

def rangesOverlap (start1 end1 start2 end2 : Nat) : Bool :=
  !(end1 ≤ start2 || end2 ≤ start1)

/-- The check of a range against the stored table, which is absent before `e820_init`. -/
def e820IsRangeUsable (table : Option (List E820Entry)) (base length : Nat) : Bool :=
  match table with
  | none => false
  | some entries =>
    length = 0 || entries.all fun entry =>
      -- The loop leaves with false at the first entry that overlaps and is not usable.
      !rangesOverlap base (wrap64 (base + length)) entry.base (wrap64 (entry.base + entry.length))
        || entry.type = e820TypeUsable

def E820Entry.Covers (entry : E820Entry) (byte : Nat) : Prop :=
  entry.base ≤ byte ∧ byte < entry.base + entry.length

/-- The entry and the range overlap as the code compares them: an empty entry can do so too. -/
def E820Entry.Meets (entry : E820Entry) (base length : Nat) : Prop :=
  entry.base < base + length ∧ base < entry.base + entry.length

/-- Every byte of a range is in a usable entry and in no entry of another type. -/
def RangeUsable (entries : List E820Entry) (base length : Nat) : Prop :=
  ∀ byte, base ≤ byte → byte < base + length →
    (∃ entry ∈ entries, entry.type = e820TypeUsable ∧ entry.Covers byte) ∧
      ∀ entry ∈ entries, entry.Covers byte → entry.type = e820TypeUsable

/-- Some byte of the range is in no usable entry. -/
def HasGap (entries : List E820Entry) (base length : Nat) : Prop :=
  ∃ byte, base ≤ byte ∧ byte < base + length ∧
    ∀ entry ∈ entries, entry.type = e820TypeUsable → ¬entry.Covers byte

/-- An entry of another type, with bytes of its own or without, overlaps the range. -/
def RangeBlocked (entries : List E820Entry) (base length : Nat) (isEmpty : Bool) : Prop :=
  ∃ entry ∈ entries, entry.type ≠ e820TypeUsable ∧ entry.Meets base length ∧
    decide (entry.length = 0) = isEmpty

section Table

variable {entries : List E820Entry} {base length : Nat}

theorem e820IsRangeUsable_eq (unwrapped : ∀ entry ∈ entries, entry.base + entry.length < 2 ^ 64)
    (range : base + length < 2 ^ 64) (some_byte : length ≠ 0) :
    e820IsRangeUsable (some entries) base length = true ↔
      ∀ isEmpty, ¬RangeBlocked entries base length isEmpty := by
  simp only [e820IsRangeUsable, some_byte, decide_false, Bool.false_or, List.all_eq_true,
    rangesOverlap, wrap64_of_lt range, RangeBlocked]
  constructor
  · rintro passed isEmpty ⟨entry, member, other, meets, -⟩
    have checked := passed entry member
    rw [wrap64_of_lt (unwrapped entry member)] at checked
    simp [other, Nat.not_le.mpr meets.1, Nat.not_le.mpr meets.2] at checked
  · intro free entry member
    rw [wrap64_of_lt (unwrapped entry member)]
    by_cases usable : entry.type = e820TypeUsable
    · simp [usable]
    · -- An entry of another type passes only by not overlapping.
      have apart : ¬entry.Meets base length :=
        fun meets => free _ ⟨entry, member, usable, meets, rfl⟩
      simp only [E820Entry.Meets] at apart
      simp [usable]
      omega

theorem rangeUsable_iff (some_byte : length ≠ 0) : RangeUsable entries base length ↔
    ¬HasGap entries base length ∧ ¬RangeBlocked entries base length false := by
  constructor
  · intro usable
    constructor
    · rintro ⟨byte, low, high, uncovered⟩
      obtain ⟨⟨entry, member, kind, covers⟩, -⟩ := usable byte low high
      exact uncovered entry member kind covers
    · rintro ⟨entry, member, other, meets, filled⟩
      -- The first byte that the entry shares with the range is the larger of the two starts.
      have nonempty : entry.length ≠ 0 := by simpa using filled
      have shared := usable (max base entry.base) (le_max_left _ _)
        (by simp only [E820Entry.Meets] at meets; omega)
      apply other (shared.2 entry member _)
      simp only [E820Entry.Meets, E820Entry.Covers] at meets ⊢
      omega
  · rintro ⟨full, unblocked⟩ byte low high
    constructor
    · by_contra uncovered
      exact full ⟨byte, low, high, fun entry member kind covers =>
        uncovered ⟨entry, member, kind, covers⟩⟩
    · intro entry member covers
      by_contra other
      simp only [E820Entry.Covers] at covers
      exact unblocked ⟨entry, member, other, ⟨by omega, by omega⟩, by simp; omega⟩

/-- The check is right exactly when the range is empty, when an entry of another type with bytes of
its own reaches into it, or when empty entries of another type stand inside it just where usable
memory leaves a gap: the check never asks for usable entries. -/
theorem e820IsRangeUsable_exact_iff
    (unwrapped : ∀ entry ∈ entries, entry.base + entry.length < 2 ^ 64)
    (range : base + length < 2 ^ 64) :
    (e820IsRangeUsable (some entries) base length = true ↔ RangeUsable entries base length) ↔
      length = 0 ∨ RangeBlocked entries base length false ∨
        (RangeBlocked entries base length true ↔ HasGap entries base length) := by
  by_cases empty : length = 0
  · -- Without a byte both sides hold.
    subst empty
    simp [e820IsRangeUsable, RangeUsable]
    omega
  · rw [e820IsRangeUsable_eq unwrapped range empty, rangeUsable_iff empty, Bool.forall_bool]
    tauto

end Table

def e820Sample : List E820Entry :=
  [⟨0, 0x9fc00, e820TypeUsable, zero_lt_word, by decide⟩,
    ⟨0x9fc00, 0x400, 2, by decide, by decide⟩]

theorem e820IsRangeUsable_exact_sample :
    e820IsRangeUsable (some e820Sample) 0x9f000 0x1000 = true ↔
      RangeUsable e820Sample 0x9f000 0x1000 := by
  apply (e820IsRangeUsable_exact_iff (by decide) (by decide)).mpr
  -- The reserved entry reaches into the range.
  refine .inr (.inl ⟨_, List.mem_cons_of_mem _ (List.mem_singleton_self _), ?_⟩)
  simp only [E820Entry.Meets]
  decide

/-- A range behind the last entry is in no usable entry and passes the check. -/
theorem e820IsRangeUsable_gap : e820IsRangeUsable (some e820Sample) 0x100000 1 = true ∧
    ¬RangeUsable e820Sample 0x100000 1 := by
  constructor
  · decide
  · intro usable
    have covered := (usable 0x100000 (by decide) (by decide)).1
    simp [e820Sample, E820Entry.Covers] at covered

end Ccos
