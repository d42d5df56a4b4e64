import Ccos.Vmm.Page

/-! The fields of the page table entries that the kernel builds, and the indices of an address. -/

namespace Ccos

open Lib

theorem land_bit_ne_zero (flags position : Nat) :
    flags &&& 1 <<< position ≠ 0 ↔ flags.testBit position = true := by
  rw [Nat.shiftLeft_eq, Nat.one_mul, Nat.and_two_pow]
  cases flags.testBit position with
  | false => simp
  | true => simp

theorem huge2mb_iff (flags : Nat) :
    flags &&& vmapFlagHuge2mb ≠ 0 ↔ flags.testBit 5 = true :=
  land_bit_ne_zero flags 5

theorem huge1gb_iff (flags : Nat) :
    flags &&& vmapFlagHuge1gb ≠ 0 ↔ flags.testBit 6 = true :=
  land_bit_ne_zero flags 6

/-- The flags of a 4 KiB page. -/
structure SmallFlags (flags : Nat) : Prop where
  no2mb : flags.testBit 5 = false
  no1gb : flags.testBit 6 = false

instance (flags : Nat) : Decidable (SmallFlags flags) :=
  decidable_of_iff (_ ∧ _) ⟨fun both => ⟨both.1, both.2⟩, fun small => ⟨small.no2mb, small.no1gb⟩⟩

theorem SmallFlags.not_huge {flags : Nat} (small : SmallFlags flags) :
    ¬flags &&& vmapFlagHuge2mb ≠ 0 ∧ ¬flags &&& vmapFlagHuge1gb ≠ 0 := by
  simp [huge2mb_iff, huge1gb_iff, small.no2mb, small.no1gb]

theorem SmallFlags.or {flags more : Nat} (small : SmallFlags flags) (smallToo : SmallFlags more) :
    SmallFlags (flags ||| more) := by
  constructor
  · rw [Nat.testBit_or, small.no2mb, smallToo.no2mb, Bool.or_self]
  · rw [Nat.testBit_or, small.no1gb, smallToo.no1gb, Bool.or_self]

theorem land_pageSize (addr : Nat) : addr &&& (pageSize - 1) = addr % pageSize :=
  land_low addr pageShift

/-- The physical address that the processor reads from an entry: bits 12 to 51. -/
def entryAddr (entry : Nat) : Nat := entry &&& pteAddrMask

theorem entryAddr_eq (entry : Nat) : entryAddr entry = entry / 2 ^ 12 % 2 ^ 40 * 2 ^ 12 := by
  -- The mask is forty ones above twelve zeros.
  have mask : pteAddrMask = (2 ^ 40 - 1) * 2 ^ 12 := by decide
  rw [entryAddr, mask, land_field]

theorem pteAddr_eq (entry : Nat) : pteAddr entry = entryAddr entry % 2 ^ 40 := by
  rw [entryAddr_eq, pteAddr, pteFrame, land_low, Nat.shiftRight_eq_div_pow, pageShift,
    Nat.shiftLeft_eq]

theorem pteAddr_of_low {entry : Nat} (low : entryAddr entry < 2 ^ 40) :
    pteAddr entry = entryAddr entry :=
  (pteAddr_eq entry).trans (Nat.mod_eq_of_lt low)

theorem pteAddr_aligned (entry : Nat) : pteAddr entry % pageSize = 0 := by
  rw [pteAddr_eq, entryAddr_eq, pageSize, pageShift]
  omega

theorem entryAddr_aligned (entry : Nat) : entryAddr entry % pageSize = 0 := by
  rw [entryAddr_eq, pageSize, pageShift]
  omega

theorem land_pteAddrMask {base : Nat} (aligned : base % pageSize = 0) (fits : base < 2 ^ 52) :
    base &&& pteAddrMask = base := by
  have whole := entryAddr_eq base
  simp only [pageSize, pageShift] at aligned
  rw [entryAddr] at whole
  omega

theorem entryAddr_lor {base bits : Nat} (aligned : base % pageSize = 0) (fits : base < 2 ^ 52)
    (outside : bits &&& pteAddrMask = 0) :
    entryAddr ((base &&& pteAddrMask) ||| bits) = base := by
  rw [entryAddr, Nat.and_or_distrib_right, outside, Nat.or_zero, Nat.and_assoc, Nat.and_self,
    land_pteAddrMask aligned fits]

theorem land_low_lor (base bits : Nat) :
    ((base &&& pteAddrMask) ||| bits) &&& 0xFFF = bits &&& 0xFFF := by
  have disjoint : pteAddrMask &&& 0xFFF = 0 := by decide
  rw [Nat.and_or_distrib_right, Nat.and_assoc, disjoint, Nat.and_zero, Nat.zero_or]

theorem testBit_lor_low (base bits : Nat) {position : Nat} (low : position < 12) :
    ((base &&& pteAddrMask) ||| bits).testBit position = bits.testBit position := by
  have mask : pteAddrMask = (2 ^ 40 - 1) * 2 ^ 12 := by decide
  rw [Nat.testBit_or, Nat.testBit_and, mask, Nat.testBit_mul_two_pow]
  simp [show ¬12 ≤ position by omega]

/-- The entry that links a table. -/
def linkEntry (phys : Nat) : Nat :=
  (phys &&& pteAddrMask) ||| pagePresent ||| pageWrite ||| pageUser

theorem linkEntry_eq (phys : Nat) : linkEntry phys = (phys &&& pteAddrMask) ||| 7 := by
  rw [linkEntry, Nat.or_assoc, Nat.or_assoc]
  rfl

/-- The entry bits as a function of the five requested properties. -/
def pteBits (write user noExec writeThru noCache : Bool) : Nat :=
  pagePresent ||| (if write then pageWrite else 0) ||| (if user then pageUser else 0) |||
    (if noExec then pageNoExec else 0) ||| (if writeThru then pageWriteThru else 0) |||
    (if noCache then pageNoCache else 0)

theorem vmapFlagsToPte_eq (flags : Nat) :
    vmapFlagsToPte flags = pteBits (flags.testBit 0) (flags.testBit 1) (flags.testBit 2)
      (flags.testBit 3) (flags.testBit 4) := by
  simp only [vmapFlagsToPte, pteBits, vmapFlagWrite, vmapFlagUser, vmapFlagNoExec,
    vmapFlagWriteThru, vmapFlagNoCache, land_bit_ne_zero]

theorem pteBits_fields : ∀ write user noExec writeThru noCache : Bool,
    (pteBits write user noExec writeThru noCache).testBit 0 = true ∧
    (pteBits write user noExec writeThru noCache).testBit 7 = false ∧
    pteBits write user noExec writeThru noCache &&& pteAddrMask = 0 := by
  decide

theorem vmapFlagsToPte_fields (flags : Nat) :
    (vmapFlagsToPte flags).testBit 0 = true ∧ (vmapFlagsToPte flags).testBit 7 = false ∧
      vmapFlagsToPte flags &&& pteAddrMask = 0 := by
  rw [vmapFlagsToPte_eq]
  exact pteBits_fields _ _ _ _ _

theorem tableIndex_val (shift vaddr : Nat) :
    (tableIndex shift vaddr).val = vaddr / 2 ^ shift % 512 := by
  have mask : 0x1FF = 2 ^ 9 - 1 := by decide
  simp only [tableIndex]
  rw [mask, land_low, Nat.shiftRight_eq_div_pow]
  rfl

/-- The number of the virtual page of an address: bits 12 to 47. -/
def pageNumber (vaddr : Nat) : Nat :=
  (vaddr >>> 12) % 2 ^ 36

/-- The three indices that lead to the last-level table of an address. -/
def upperPath (vaddr : Nat) : List (Fin 512) :=
  [pml4Index vaddr, pdptIndex vaddr, pdIndex vaddr]

/-- The four indices that a walk uses for an address. -/
def pagePath (vaddr : Nat) : List (Fin 512) :=
  [pml4Index vaddr, pdptIndex vaddr, pdIndex vaddr, ptIndex vaddr]

theorem pagePath_split (vaddr : Nat) : pagePath vaddr = upperPath vaddr ++ [ptIndex vaddr] :=
  rfl

@[simp] theorem upperPath_length (vaddr : Nat) : (upperPath vaddr).length = 3 :=
  rfl

theorem pagePath_eq_iff (first second : Nat) :
    pagePath first = pagePath second ↔ pageNumber first = pageNumber second := by
  simp only [pagePath, pml4Index, pdptIndex, pdIndex, ptIndex, List.cons.injEq, Fin.ext_iff,
    tableIndex_val, and_true, pageNumber, Nat.shiftRight_eq_div_pow]
  constructor
  · rintro ⟨top, pointer, directory, table⟩
    omega
  · intro same
    refine ⟨?_, ?_, ?_, ?_⟩ <;> omega

end Ccos
