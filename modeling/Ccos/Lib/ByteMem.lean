import Mathlib.Algebra.Order.Group.Nat
import Mathlib.Data.Nat.Basic

/-! Byte-addressed memory with little-endian integers. -/

namespace Ccos.Lib

/-- A byte at every address. -/
abbrev ByteMem := Nat → UInt8

/-- One byte of an integer, counted from the lowest. -/
def byteOf (value i : Nat) : UInt8 :=
  UInt8.ofNat (value / 256 ^ i)

/-- The bytes of an integer, the lowest first. -/
def leBytes (width value : Nat) : List UInt8 :=
  (List.range width).map (byteOf value)

@[simp] theorem leBytes_length (width value : Nat) : (leBytes width value).length = width := by
  simp [leBytes]

namespace ByteMem

def load (mem : ByteMem) (addr : Nat) : (width : Nat) → Nat
  | 0 => 0
  | width + 1 => (mem addr).toNat + 256 * load mem (addr + 1) width

def store (mem : ByteMem) (addr width value : Nat) : ByteMem := fun place =>
  if addr ≤ place ∧ place < addr + width then byteOf value (place - addr) else mem place

def fill (mem : ByteMem) (addr width : Nat) (byte : UInt8) : ByteMem := fun place =>
  if addr ≤ place ∧ place < addr + width then byte else mem place

/-- Copy a range; the source is read before anything is written. -/
def copy (mem : ByteMem) (dst src width : Nat) : ByteMem := fun place =>
  if dst ≤ place ∧ place < dst + width then mem (src + (place - dst)) else mem place

variable {mem other : ByteMem} {addr width value place : Nat}

/-- A loaded integer fits its width. -/
theorem load_lt : mem.load addr width < 256 ^ width := by
  induction width generalizing addr with
  | zero => simp [load]
  | succ width ih =>
    have low := (mem addr).toNat_lt
    have high : mem.load (addr + 1) width < 256 ^ width := ih
    rw [load, Nat.pow_succ]
    omega

/-- A load depends on the bytes of its range only. -/
theorem load_congr (same : ∀ place, addr ≤ place → place < addr + width →
    mem place = other place) : mem.load addr width = other.load addr width := by
  induction width generalizing addr with
  | zero => rfl
  | succ width ih =>
    rw [load, load, same addr (Nat.le_refl _) (by omega),
      ih fun place low high => same place (by omega) (by omega)]

/-- The same bytes at another address are the same integer. -/
theorem load_moved {start : Nat} (same : ∀ i < width, mem (addr + i) = other (start + i)) :
    mem.load addr width = other.load start width := by
  induction width generalizing addr start with
  | zero => rfl
  | succ width ih =>
    have rest : mem.load (addr + 1) width = other.load (start + 1) width := ih fun i inside => by
      have next := same (i + 1) (by omega)
      rwa [Nat.add_assoc addr, Nat.add_assoc start, Nat.add_comm 1 i]
    rw [load, load, rest, show mem addr = other start from same 0 (by omega)]

theorem store_of_outside (outside : place < addr ∨ addr + width ≤ place) :
    mem.store addr width value place = mem place :=
  if_neg (by omega)

theorem fill_of_outside {byte : UInt8} (outside : place < addr ∨ addr + width ≤ place) :
    mem.fill addr width byte place = mem place :=
  if_neg (by omega)

theorem copy_inside {src i : Nat} (inside : i < width) :
    mem.copy addr src width (addr + i) = mem (src + i) := by
  rw [copy, if_pos (by omega), Nat.add_sub_cancel_left]

theorem load_store_apart {start count : Nat}
    (apart : start + count ≤ addr ∨ addr + width ≤ start) :
    (mem.store addr width value).load start count = mem.load start count :=
  load_congr fun _ _ _ => store_of_outside (by omega)

/-- The bytes of an integer, read back from some byte on, are its quotient. -/
theorem load_bytes {start : Nat} (bytes : ∀ i < width, mem (addr + i) = byteOf value (start + i)) :
    mem.load addr width = value / 256 ^ start % 256 ^ width := by
  -- The start grows as the width shrinks.
  induction width generalizing addr start with
  | zero => simp [load, Nat.mod_one]
  | succ width ih =>
    have first := bytes 0 (by omega)
    have rest : mem.load (addr + 1) width = value / 256 ^ (start + 1) % 256 ^ width :=
      ih fun i small => by
        have := bytes (i + 1) (by omega)
        rwa [Nat.add_assoc addr, Nat.add_comm 1 i, Nat.add_assoc start, Nat.add_comm 1 i]
    simp only [Nat.add_zero] at first
    rw [load, first, rest, byteOf, UInt8.toNat_ofNat', Nat.pow_succ 256 start,
      ← Nat.div_div_eq_div_mul, Nat.pow_succ 256 width, Nat.mul_comm (256 ^ width), Nat.mod_mul]

/-- Loading back a stored integer. -/
theorem load_store_same : (mem.store addr width value).load addr width = value % 256 ^ width := by
  have bytes : ∀ i < width, mem.store addr width value (addr + i) = byteOf value (0 + i) :=
    fun i small => by
      rw [store, if_pos (by omega), Nat.add_sub_cancel_left, Nat.zero_add]
  rw [load_bytes bytes, Nat.pow_zero, Nat.div_one]

end ByteMem

end Ccos.Lib
