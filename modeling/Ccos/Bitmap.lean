import Mathlib.Logic.Function.Basic
import Mathlib.Data.List.Range
import Ccos.Lib.Word

/-! The bitmap of `bitmap/bitmap.c` and the set of indices each operation leaves marked. -/

namespace Ccos

open Lib

abbrev Byte := BitVec 8

/-- A bitmap header over a byte buffer; a failed assertion is an absent result. -/
structure Bitmap where
  bits : Nat → Byte
  nbits : Nat

/-- Number of bytes that hold the given number of bits. -/
def bitCntToByteCnt (nbits : Nat) : Nat :=
  wrap64 (nbits + 7) >>> 3

def bitIndexValid (bm : Bitmap) (givenIndex : Nat) : Bool :=
  givenIndex < bm.nbits

/-- The single-bit mask of an index inside its byte. -/
def byteBitmask (bit : Nat) : Byte :=
  1#8 <<< (bit % 8)

def bitByte (bit : Nat) : Nat :=
  bit >>> 3

/-- Attach a buffer and clear the bytes that hold its bits. -/
def bitmapInit (buffer : Nat → Byte) (nbits : Nat) : Bitmap :=
  { bits := fun i => if i < bitCntToByteCnt nbits then 0 else buffer i, nbits := nbits }

/-- Replace the byte of one asserted index by its combination with the index's mask. -/
def bitmapUpdate (combine : Byte → Byte → Byte) (bm : Bitmap) (bit : Nat) : Option Bitmap :=
  -- The assertion halts the kernel, so an invalid index has no successor bitmap.
  if bitIndexValid bm bit then
    some { bm with
      bits := Function.update bm.bits (bitByte bit)
        (combine (bm.bits (bitByte bit)) (byteBitmask bit)) }
  else none

def bitmapSet : Bitmap → Nat → Option Bitmap :=
  bitmapUpdate (· ||| ·)

def bitmapClear : Bitmap → Nat → Option Bitmap :=
  bitmapUpdate fun byte mask => byte &&& ~~~mask

def bitmapTest (bm : Bitmap) (bit : Nat) : Option Bool :=
  if bitIndexValid bm bit then
    some (bm.bits (bitByte bit) &&& byteBitmask bit != 0)
  else none

/-- Apply an index operation to every index from a start up to a clamped end. -/
def bitmapRange (operation : Bitmap → Nat → Option Bitmap) (bm : Bitmap)
    (start count : Nat) : Option Bitmap :=
  -- The sum wraps before it is clamped to the size of the map.
  let stop := min (wrap64 (start + count)) bm.nbits
  (List.range' start (stop - start)).foldlM operation bm

def bitmapSetRange : Bitmap → Nat → Nat → Option Bitmap :=
  bitmapRange bitmapSet

def bitmapClearRange : Bitmap → Nat → Nat → Option Bitmap :=
  bitmapRange bitmapClear

/-- Scan upwards from a start for an unmarked index; an absent index is the source's `-1`. -/
def bitmapFindNextZero (bm : Bitmap) (start : Nat) : Option (Option Nat) :=
  (List.range' start (bm.nbits - start)).findM? fun i => (bitmapTest bm i).map (!·)

def bitmapFindFirstZero (bm : Bitmap) : Option (Option Nat) :=
  bitmapFindNextZero bm 0

/-- Whether the bit of an index is one in its byte. -/
def Bitmap.marked (bm : Bitmap) (i : Nat) : Bool :=
  (bm.bits (i / 8)).getLsbD (i % 8)

variable {bm : Bitmap} {bit : Nat}

theorem bitmapTest_eq (valid : bit < bm.nbits) : bitmapTest bm bit = some (bm.marked bit) := by
  -- The mask is a power of two, so the conjunction is nonzero exactly when that bit is set.
  have small : bit % 8 < 8 := Nat.mod_lt _ (by decide)
  have mask : byteBitmask bit = BitVec.twoPow 8 (bit % 8) := by
    rw [byteBitmask, BitVec.twoPow]
  simp only [bitmapTest, bitIndexValid, valid, decide_true, if_true, Bitmap.marked, bitByte,
    Nat.shiftRight_eq_div_pow, mask, BitVec.and_twoPow, Option.some.injEq]
  cases bm.bits (bit / 2 ^ 3) |>.getLsbD (bit % 8) with
  | false => simp
  | true =>
    have nonzero : BitVec.twoPow 8 (bit % 8) ≠ 0 := by
      intro zero
      have bitZero := congrArg (fun byte => BitVec.getLsbD byte (bit % 8)) zero
      simp [small] at bitZero
    simpa using nonzero

/-- An index operation that gives its own index one value and leaves the others alone. -/
def Assigns (value : Bool) (operation : Bitmap → Nat → Option Bitmap) : Prop :=
  ∀ bm bit, bit < bm.nbits → ∃ after, operation bm bit = some after ∧ after.nbits = bm.nbits ∧
    ∀ i, after.marked i = if i = bit then value else bm.marked i

variable {i : Nat}

theorem getLsbD_mask {position : Nat} (inside : i < 8) :
    (1#8 <<< position).getLsbD i = decide (i = position) := by
  simp only [BitVec.getLsbD_shiftLeft, BitVec.getLsbD_one, inside]
  by_cases low : i < position
  · simp [low, show i ≠ position by omega]
  · simp [low, show i - position = 0 ↔ i = position by omega]

theorem bitmapUpdate_changes (change : Bool → Bool) {combine : Byte → Byte → Byte}
    (acts : ∀ byte position i, i < 8 → (combine byte (1#8 <<< position)).getLsbD i =
      if i = position then change (byte.getLsbD i) else byte.getLsbD i) (valid : bit < bm.nbits) :
    ∃ after, bitmapUpdate combine bm bit = some after ∧ after.nbits = bm.nbits ∧
      ∀ i, after.marked i = if i = bit then change (bm.marked i) else bm.marked i := by
  have accepted : bitIndexValid bm bit = true := decide_eq_true valid
  refine ⟨_, if_pos accepted, rfl, ?_⟩
  intro i
  have inside : i % 8 < 8 := Nat.mod_lt _ (by decide)
  -- Two indices are equal exactly when they share both the byte and the position in it.
  by_cases sameByte : i / 8 = bit / 8
  · have target : bitByte bit = i / 8 := by rw [bitByte, Nat.shiftRight_eq_div_pow]; omega
    simp only [Bitmap.marked, target, Function.update_self, byteBitmask, acts _ _ _ inside]
    have same : i % 8 = bit % 8 ↔ i = bit := by omega
    simp only [same]
  · have apart : i / 8 ≠ bitByte bit := by rw [bitByte, Nat.shiftRight_eq_div_pow]; omega
    have different : i ≠ bit := by rintro rfl; exact sameByte rfl
    simp only [Bitmap.marked, Function.update_of_ne apart, if_neg different]

theorem bitmapSet_assigns : Assigns true bitmapSet := by
  intro bm bit valid
  refine bitmapUpdate_changes (fun _ => true) ?_ valid
  intro byte position i inside
  simp only [BitVec.getLsbD_or, getLsbD_mask inside]
  by_cases same : i = position <;> simp [same]

theorem bitmapClear_assigns : Assigns false bitmapClear := by
  intro bm bit valid
  refine bitmapUpdate_changes (fun _ => false) ?_ valid
  intro byte position i inside
  simp only [BitVec.getLsbD_and, BitVec.getLsbD_not, inside, getLsbD_mask inside]
  by_cases same : i = position <;> simp [same]

variable {operation : Bitmap → Nat → Option Bitmap} {value : Bool}

theorem foldlM_assigns (assigns : Assigns value operation) (indices : List Nat) (bm : Bitmap)
    (valid : ∀ i ∈ indices, i < bm.nbits) :
    ∃ after, indices.foldlM operation bm = some after ∧ after.nbits = bm.nbits ∧
      ∀ i, after.marked i = if i ∈ indices then value else bm.marked i := by
  -- Each step keeps the size, so the remaining indices stay valid for the next map.
  induction indices generalizing bm with
  | nil => exact ⟨bm, rfl, rfl, by simp⟩
  | cons bit rest ih =>
    obtain ⟨middle, stepped, size, marks⟩ := assigns bm bit (valid bit (by simp))
    obtain ⟨after, folded, sizeAfter, marksAfter⟩ :=
      ih middle fun i member => by rw [size]; exact valid i (by simp [member])
    refine ⟨after, by simp [stepped, folded], sizeAfter.trans size, ?_⟩
    intro i
    rw [marksAfter, marks]
    by_cases later : i ∈ rest
    · simp [later]
    · by_cases here : i = bit <;> simp [later, here]

theorem bitmapRange_assigns (assigns : Assigns value operation) (bm : Bitmap) (start count : Nat) :
    ∃ after, bitmapRange operation bm start count = some after ∧ after.nbits = bm.nbits ∧
      ∀ i, after.marked i =
        if start ≤ i ∧ i < min (wrap64 (start + count)) bm.nbits then value
        else bm.marked i := by
  obtain ⟨after, folded, size, marks⟩ :=
    foldlM_assigns assigns
      (List.range' start (min (wrap64 (start + count)) bm.nbits - start)) bm (by
        intro i member
        have bounds := List.mem_range'_1.mp member
        omega)
  refine ⟨after, folded, size, fun i => ?_⟩
  rw [marks]
  -- Membership in the enumerated range is the pair of bounds.
  have same : i ∈ List.range' start (min (wrap64 (start + count)) bm.nbits - start) ↔
      start ≤ i ∧ i < min (wrap64 (start + count)) bm.nbits := by
    rw [List.mem_range'_1]
    omega
  simp only [same]

/-- A monadic search whose test never fails is the plain search. -/
theorem findM?_of_some {α : Type} {test : α → Option Bool} {accept : α → Bool}
    {items : List α} (total : ∀ item ∈ items, test item = some (accept item)) :
    items.findM? test = some (items.find? accept) := by
  induction items with
  | nil => rfl
  | cons item rest ih =>
    have here := total item (by simp)
    have later := ih fun other member => total other (by simp [member])
    cases verdict : accept item <;> simp [List.findM?, here, later, verdict]

theorem bitmapFindNextZero_eq (bm : Bitmap) (start : Nat) :
    bitmapFindNextZero bm start =
      some ((List.range' start (bm.nbits - start)).find? fun i => !bm.marked i) := by
  apply findM?_of_some
  intro i member
  have bounds := List.mem_range'_1.mp member
  rw [bitmapTest_eq (by omega)]
  rfl

variable {start : Nat}

theorem bitmapFindNextZero_found (found : bitmapFindNextZero bm start = some (some i)) :
    start ≤ i ∧ i < bm.nbits ∧ bm.marked i = false := by
  rw [bitmapFindNextZero_eq, Option.some.injEq] at found
  have member := List.mem_range'_1.mp (List.mem_of_find?_eq_some found)
  have unmarked := List.find?_some found
  refine ⟨by omega, by omega, by simpa using unmarked⟩

theorem bitmapFindNextZero_missing (missing : bitmapFindNextZero bm start = some none)
    (low : start ≤ i) (high : i < bm.nbits) : bm.marked i = true := by
  rw [bitmapFindNextZero_eq, Option.some.injEq, List.find?_eq_none] at missing
  have member : i ∈ List.range' start (bm.nbits - start) := by
    rw [List.mem_range'_1]
    omega
  simpa using missing i member

end Ccos
