import Ccos.Lib.ByteMem
import Mathlib.Data.List.Basic

/-! Buffers of a fixed size whose accesses are checked, and C strings that are compared with what
they hold. -/

namespace Ccos.Lib

/-- A run of bytes; those behind its size do not belong to it. -/
structure Buffer where
  size : Nat
  bytes : ByteMem

/-- A C string: its characters without the NUL that ends it. -/
structure CString where
  chars : List UInt8
  noNul : 0 ∉ chars

def CString.take (n : Nat) (string : CString) : CString :=
  ⟨string.chars.take n, fun nul => string.noNul (List.mem_of_mem_take nul)⟩

def CString.push (string : CString) (char : UInt8) (plain : char ≠ 0) : CString :=
  ⟨string.chars ++ [char], fun nul => (List.mem_append.mp nul).elim string.noNul
    fun last => plain (List.mem_singleton.mp last).symm⟩

/-- `strncmp` of the characters that are read from an offset on with a string whose end reads as
NUL; a read may fail. -/
def strncmpAt {m : Type → Type} [Monad m] (read : Nat → m Nat) (offset : Nat)
    (string : List UInt8) : Nat → m Int
  | 0 => pure 0
  | n + 1 => do
    let char ← read offset
    let other := (string.headD 0).toNat
    -- Equal characters before the end of both strings are skipped.
    if char ≠ 0 ∧ char = other then strncmpAt read (offset + 1) string.tail n
    else pure (char - other)

/-- The bytes of a range, the first one first. -/
def ByteMem.slice (mem : ByteMem) (start count : Nat) : List UInt8 :=
  (List.range count).map fun i => mem (start + i)

@[simp] theorem ByteMem.slice_length (mem : ByteMem) (start count : Nat) :
    (mem.slice start count).length = count := by
  simp [ByteMem.slice]

/-- A range starts with its first byte. -/
theorem ByteMem.slice_succ (mem : ByteMem) (start count : Nat) :
    mem.slice start (count + 1) = mem start :: mem.slice (start + 1) count := by
  simp only [ByteMem.slice, List.range_succ_eq_map, List.map_cons, List.map_map, Nat.add_zero]
  congr 1
  apply List.map_congr_left
  grind

/-- Two ranges that meet are one range. -/
theorem ByteMem.slice_append (mem : ByteMem) (start first second : Nat) :
    mem.slice start (first + second) = mem.slice start first ++ mem.slice (start + first) second := by
  induction first generalizing start with
  | zero => simp [ByteMem.slice]
  | succ first ih =>
    rw [Nat.add_right_comm, ByteMem.slice_succ, ih, ByteMem.slice_succ, List.cons_append,
      Nat.add_right_comm start 1, Nat.add_assoc start]

/-- A range of bytes depends on the bytes in it only. -/
theorem ByteMem.slice_congr {mem other : ByteMem} {start place count : Nat}
    (same : ∀ i < count, mem (start + i) = other (place + i)) :
    mem.slice start count = other.slice place count :=
  List.map_congr_left fun i inside => same i (List.mem_range.mp inside)

namespace Buffer

/-- Read an integer, if all its bytes belong to the buffer. -/
def load (buffer : Buffer) (offset width : Nat) : Option Nat :=
  if offset + width ≤ buffer.size then some (buffer.bytes.load offset width) else none

/-- Read a range of bytes, if all of them belong to the buffer. -/
def read (buffer : Buffer) (offset count : Nat) : Option (List UInt8) :=
  if offset + count ≤ buffer.size then some (buffer.bytes.slice offset count) else none

/-- `strncmp` of the bytes at an offset with a string; it may leave the buffer. -/
def strncmp (buffer : Buffer) : (offset : Nat) → (string : List UInt8) → (n : Nat) → Option Int :=
  strncmpAt fun offset => buffer.load offset 1

variable {buffer : Buffer} {offset width count : Nat}

theorem load_inside (inside : offset + width ≤ buffer.size) :
    buffer.load offset width = some (buffer.bytes.load offset width) :=
  if_pos inside

theorem read_inside (inside : offset + count ≤ buffer.size) :
    buffer.read offset count = some (buffer.bytes.slice offset count) :=
  if_pos inside

theorem load_byte (inside : offset < buffer.size) :
    buffer.load offset 1 = some (buffer.bytes offset).toNat := by
  rw [load_inside (by omega)]
  simp [ByteMem.load]

variable {string : List UInt8}

/-- A comparison starts with one character. -/
theorem strncmp_succ (inside : offset < buffer.size) : buffer.strncmp offset string (count + 1) =
    if (buffer.bytes offset).toNat ≠ 0 ∧ (buffer.bytes offset).toNat = (string.headD 0).toNat then
      buffer.strncmp (offset + 1) string.tail count
    else some ((buffer.bytes offset).toNat - (string.headD 0).toNat) := by
  rw [strncmp, strncmpAt, load_byte inside]
  rfl

/-- A comparison inside the buffer: it tells whether a string of the compared length is what the
buffer holds. -/
theorem strncmp_inside (noNul : 0 ∉ string) (inside : offset + count ≤ buffer.size) :
    ∃ difference, buffer.strncmp offset string count = some difference ∧
      (difference = 0 ∧ string.length = count ↔ string = buffer.bytes.slice offset count) := by
  induction count generalizing offset string with
  | zero => exact ⟨0, rfl, by simp [ByteMem.slice, List.length_eq_zero_iff]⟩
  | succ count ih =>
    rw [strncmp_succ (by omega), ByteMem.slice_succ]
    cases string with
    | nil =>
      -- The end of the string differs from every character.
      refine ⟨_, if_neg ?_, by simp⟩
      rintro ⟨nonzero, same⟩
      exact nonzero same
    | cons first rest =>
      have positive : first.toNat ≠ 0 := by
        intro zero
        exact noNul (List.mem_cons.mpr (.inl (UInt8.toNat_inj.mp zero).symm))
      by_cases same : buffer.bytes offset = first
      · obtain ⟨difference, compared, equal⟩ :=
          @ih (offset + 1) rest (fun member => noNul (List.mem_cons_of_mem _ member))
            (by omega)
        grind
      · -- Two characters differ here, and so do the strings.
        have different : (buffer.bytes offset).toNat ≠ first.toNat :=
          fun equal => same (UInt8.toNat_inj.mp equal)
        refine ⟨_, if_neg fun both => different both.2, ?_⟩
        grind

/-- A comparison that is one byte longer than the rest of the buffer: it leaves the buffer if all
bytes before agree, and otherwise it finds a difference or the end of the string. -/
theorem strncmp_edge (noNul : 0 ∉ string) (edge : offset + count = buffer.size) :
    (buffer.bytes.slice offset count <+: string →
      buffer.strncmp offset string (count + 1) = none) ∧
    (¬buffer.bytes.slice offset count <+: string → ∃ difference,
      buffer.strncmp offset string (count + 1) = some difference ∧
      ¬(difference = 0 ∧ string.length = count + 1)) := by
  induction count generalizing offset string with
  | zero =>
    have outside : buffer.load offset 1 = none := if_neg (by omega)
    exact ⟨fun _ => by rw [strncmp, strncmpAt, outside]; rfl, fun other => absurd List.nil_prefix other⟩
  | succ count ih =>
    rw [strncmp_succ (by omega), ByteMem.slice_succ]
    cases string with
    | nil =>
      have stops : ¬((buffer.bytes offset).toNat ≠ 0 ∧
          (buffer.bytes offset).toNat = (List.headD ([] : List UInt8) 0).toNat) :=
        fun both => both.1 both.2
      grind
    | cons first rest =>
      have positive : first.toNat ≠ 0 := by
        intro zero
        exact noNul (List.mem_cons.mpr (.inl (UInt8.toNat_inj.mp zero).symm))
      rw [List.cons_prefix_cons, List.headD_cons, List.tail_cons]
      by_cases same : buffer.bytes offset = first
      · grind
      · have different : (buffer.bytes offset).toNat ≠ first.toNat :=
          fun equal => same (UInt8.toNat_inj.mp equal)
        grind

@[grind] structure Same (first second : Buffer) : Prop where
  size : first.size = second.size
  bytes : ∀ i < first.size, first.bytes i = second.bytes i

variable {other : Buffer}

/-- Buffers with the same bytes read the same integers. -/
theorem Same.load (same : Same buffer other) (offset width : Nat) :
    buffer.load offset width = other.load offset width := by
  unfold Buffer.load
  rw [← same.size]
  split
  · rename_i inside
    exact congrArg some (ByteMem.load_congr fun place _ below => same.bytes place (by omega))
  · rfl

/-- Buffers with the same bytes read the same ranges. -/
theorem Same.read (same : Same buffer other) (offset count : Nat) :
    buffer.read offset count = other.read offset count := by
  unfold Buffer.read
  rw [← same.size]
  split
  · rename_i inside
    exact congrArg some (ByteMem.slice_congr fun i small => same.bytes _ (by omega))
  · rfl

/-- Buffers with the same bytes compare alike. -/
theorem Same.strncmp (same : Same buffer other) (offset : Nat) (string : List UInt8) (n : Nat) :
    buffer.strncmp offset string n = other.strncmp offset string n := by
  unfold Buffer.strncmp
  simp only [same.load]

end Buffer

end Ccos.Lib
