import Ccos.Bitmap

/-! The functions of `bitmap/bitmap.c` that go over the bytes of a map, and what the unused bits of
its last byte do to them. -/

namespace Ccos

open Lib

/-- Whether two bitmaps have one size and the same bytes. -/
def bitmapEqual (a b : Bitmap) : Bool :=
  a.nbits == b.nbits && (List.range (bitCntToByteCnt a.nbits)).all fun i => a.bits i == b.bits i

/-- Store the complement of every byte of a bitmap in another one. -/
def bitmapComplement (dst src : Bitmap) : Bitmap :=
  { dst with bits := fun i => if i < bitCntToByteCnt src.nbits then ~~~src.bits i else dst.bits i }

/-- Count the ones of a byte by clearing its lowest one until none is left. -/
def byteWeight (byte : Byte) : Nat :=
  if byte = 0 then 0 else byteWeight (byte &&& (byte - 1)) + 1
termination_by byte.toNat
decreasing_by
  rename_i nonzero
  revert byte
  decide

def bitmapWeight (bm : Bitmap) : Nat :=
  ((List.range (bitCntToByteCnt bm.nbits)).map fun i => byteWeight (bm.bits i)).sum

def bitmapFull (bm : Bitmap) : Bool :=
  bitmapWeight bm == bm.nbits

def bitmapEmpty (bm : Bitmap) : Bool :=
  bitmapWeight bm == 0

theorem byteWeight_eq (byte : Byte) : byteWeight byte = (List.range 8).countP byte.getLsbD := by
  -- Subtracting one borrows through the low zeros, so the conjunction drops the lowest one.
  have step : ∀ byte : Byte, byte ≠ 0 → (List.range 8).countP byte.getLsbD =
      (List.range 8).countP (byte &&& (byte - 1)).getLsbD + 1 := by decide
  induction byte using byteWeight.induct with
  | case1 => rw [byteWeight]; decide
  | case2 byte nonzero ih => rw [byteWeight, if_neg nonzero, ih, step byte nonzero]

theorem byteWeight_not (byte : Byte) : byteWeight (~~~byte) + byteWeight byte = 8 := by
  rw [byteWeight_eq, byteWeight_eq]
  revert byte
  decide

/-- What a complement should be: it counts the other bits, it is full and empty when the bitmap is
empty and full, and it equals every bitmap that has the other bits set one by one. -/
structure ComplementLaws (dst src : Bitmap) : Prop where
  weight : bitmapWeight (bitmapComplement dst src) + bitmapWeight src = src.nbits
  full : bitmapFull (bitmapComplement dst src) = bitmapEmpty src
  empty : bitmapEmpty (bitmapComplement dst src) = bitmapFull src
  equal : ∀ (buffer : Nat → Byte) (indices : List Nat) (other : Bitmap),
    (∀ i, i ∈ indices ↔ bitmapTest src i = some false) →
    indices.foldlM bitmapSet (bitmapInit buffer src.nbits) = some other →
    bitmapEqual (bitmapComplement dst src) other = true

section Complement

variable {dst src : Bitmap} (sized : dst.nbits = src.nbits)
include sized

/-- A bitmap and its complement share out the bits of all bytes, also those behind the last index. -/
theorem bitmapComplement_weight :
    bitmapWeight (bitmapComplement dst src) + bitmapWeight src =
      8 * bitCntToByteCnt src.nbits := by
  have share : ∀ count ≤ bitCntToByteCnt src.nbits,
      ((List.range count).map fun i => byteWeight ((bitmapComplement dst src).bits i)).sum +
        ((List.range count).map fun i => byteWeight (src.bits i)).sum = 8 * count := by
    intro count inside
    induction count with
    | zero => rfl
    | succ count ih =>
      have byte : (bitmapComplement dst src).bits count = ~~~src.bits count := if_pos inside
      have eight := byteWeight_not (src.bits count)
      have before := ih (Nat.le_of_succ_le inside)
      simp only [List.range_succ, List.map_append, List.sum_append, List.map_cons, List.map_nil,
        List.sum_singleton, byte]
      omega
  simp only [bitmapWeight, show (bitmapComplement dst src).nbits = src.nbits from sized]
  exact share _ le_rfl

/-- If all bits of the last byte are used, the complement has the bits set one by one where the bitmap
has none. -/
theorem bitmapComplement_equal (bytes : 8 * bitCntToByteCnt src.nbits = src.nbits)
    {buffer : Nat → Byte} {indices : List Nat} {other : Bitmap}
    (clear : ∀ i, i ∈ indices ↔ bitmapTest src i = some false)
    (built : indices.foldlM bitmapSet (bitmapInit buffer src.nbits) = some other) :
    bitmapEqual (bitmapComplement dst src) other = true := by
  have valid : ∀ i ∈ indices, i < src.nbits := by
    intro i member
    by_contra outside
    simp [clear, bitmapTest, bitIndexValid, outside] at member
  obtain ⟨after, done, size, marks⟩ :=
    foldlM_assigns bitmapSet_assigns indices (bitmapInit buffer src.nbits) valid
  obtain rfl : after = other := by simpa [done] using built
  replace size : after.nbits = src.nbits := size
  simp only [bitmapEqual, bitmapComplement, sized, size, beq_self_eq_true, Bool.true_and,
    List.all_eq_true, List.mem_range, beq_iff_eq]
  intro i inside
  rw [if_pos inside]
  apply BitVec.eq_of_getLsbD_eq
  intro position bounded
  -- The bit at this position is that of one index, which was set if the bitmap does not have it.
  have index : (8 * i + position) / 8 = i ∧ (8 * i + position) % 8 = position := by omega
  have here := marks (8 * i + position)
  have tested := clear (8 * i + position)
  rw [bitmapTest_eq (by omega), Option.some.injEq] at tested
  simp only [tested, Bitmap.marked, index, bitmapInit, inside, if_true] at here
  rw [here, BitVec.getLsbD_not]
  cases (src.bits i).getLsbD position <;> simp [bounded]

end Complement

/-- The complement obeys its laws exactly when the last byte is used up. -/
theorem complementLaws_iff {dst src : Bitmap} (sized : dst.nbits = src.nbits)
    (positive : 0 < src.nbits) (word : src.nbits < 2 ^ 64) :
    ComplementLaws dst src ↔ src.nbits % 8 = 0 := by
  have shared := bitmapComplement_weight sized
  have count : bitCntToByteCnt src.nbits = (src.nbits + 7) % 2 ^ 64 / 8 := by
    rw [bitCntToByteCnt, wrap64, Nat.shiftRight_eq_div_pow]
  constructor
  · intro laws
    have weights := laws.weight
    omega
  · intro whole
    have bytes : 8 * bitCntToByteCnt src.nbits = src.nbits := by omega
    have size : (bitmapComplement dst src).nbits = src.nbits := sized
    refine ⟨by omega, ?_, ?_, fun _ _ _ => bitmapComplement_equal sized bytes⟩
    · rw [bitmapFull, bitmapEmpty, size, Bool.beq_eq_decide_eq, Bool.beq_eq_decide_eq,
        decide_eq_decide]
      omega
    · rw [bitmapFull, bitmapEmpty, Bool.beq_eq_decide_eq, Bool.beq_eq_decide_eq, decide_eq_decide]
      omega

/-- The complement of a bitmap of sixteen bits, of which six are set, obeys its laws. -/
theorem complementLaws_sixteen :
    ComplementLaws ⟨fun _ => 0, 16⟩ ⟨fun byte => if byte = 0 then 0xA5 else 0x11, 16⟩ := by
  apply (complementLaws_iff _ _ _).mpr
  all_goals decide

/-- The complement of an empty bitmap of ten bits counts sixteen. -/
theorem complementLaws_fail :
    ¬ComplementLaws (bitmapInit (fun _ => 0) 10) (bitmapInit (fun _ => 0) 10) := by
  intro laws
  have weights := laws.weight
  rw [bitmapComplement_weight rfl] at weights
  exact absurd weights (by decide)

end Ccos
