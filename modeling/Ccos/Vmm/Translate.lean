import Ccos.Vmm.PageTree

/-! Address translation against the processor's walk, at the three page sizes. -/

namespace Ccos

open Lib

/-- Bits of an address that are an offset into a page mapped that many levels above the last. -/
def offsetBits (level : Nat) : Nat :=
  12 + 9 * level

/-- The physical address that the processor's walk gives: the page's base plus the offset. -/
def hardwareTranslate (root vaddr : Nat) (mem : PhysMem) : Option Nat :=
  (hardwareWalk root vaddr mem).map fun (entry, level) =>
    -- The base is made of the address bits above the offset.
    entryAddr entry / 2 ^ offsetBits level * 2 ^ offsetBits level + vaddr % 2 ^ offsetBits level

/-- A tree of 4 KiB, 2 MiB and 1 GiB entries: each maps a page at a multiple of its size, and
no top-level entry has the reserved page-size bit. -/
@[grind] structure PageSizes (mem : PhysMem) (root : Nat) : Prop where
  top : ∀ index, ptePat (mem (entryAt root index)) = false
  base : ∀ vaddr entry level, hardwareWalk root vaddr mem = some (entry, level) →
    entryAddr entry % 2 ^ offsetBits level = 0

variable {root : Nat} {mem : PhysMem}

/-- Below 2^40 the code's walk ends at the entry at which the processor's walk ends. -/
theorem pageQuery_hardwareWalk {vaddr : Nat} (low : LowTables mem root vaddr)
    (top : ptePresent (mem (entryAt root (pml4Index vaddr))) = true →
      ptePat (mem (entryAt root (pml4Index vaddr))) = false) :
    pageQuery root vaddr mem =
      match hardwareWalk root vaddr mem with
      | some (entry, level) => .ok (queryEntry entry (level != 0))
      | none => .error .notPresent := by
  simp only [pageQuery, hardwareWalk]
  -- Both test the same bits in the same order, and read the same table at each link.
  cases topPresent : ptePresent (mem (entryAt root (pml4Index vaddr))) with
  | false => rfl
  | true =>
    have topSize := top topPresent
    obtain ⟨pdpt, pointerRead⟩ := low.link [] ⟨_, rfl⟩ rfl topPresent topSize
    rw [topSize, pointerRead]
    generalize entryAddr (mem (entryAt root (pml4Index vaddr))) = pointer at *
    cases pointerPresent : ptePresent (mem (entryAt pointer (pdptIndex vaddr))) with
    | false => rfl
    | true =>
      cases pointerSize : ptePat (mem (entryAt pointer (pdptIndex vaddr))) with
      | true => rfl
      | false =>
        obtain ⟨pd, directoryRead⟩ :=
          low.link [_] ⟨[pdIndex vaddr], rfl⟩ pdpt pointerPresent pointerSize
        rw [directoryRead]
        generalize entryAddr (mem (entryAt pointer (pdptIndex vaddr))) = directory at *
        cases directoryPresent : ptePresent (mem (entryAt directory (pdIndex vaddr))) with
        | false => rfl
        | true =>
          cases directorySize : ptePat (mem (entryAt directory (pdIndex vaddr))) with
          | true => rfl
          | false =>
            obtain ⟨_, tableRead⟩ := low.link [_, _] List.prefix_rfl pd directoryPresent directorySize
            rw [tableRead]
            generalize entryAddr (mem (entryAt directory (pdIndex vaddr))) = table
            cases ptePresent (mem (entryAt table (ptIndex vaddr))) <;> rfl

/-- The translation function adds only the low twelve bits to the base that the code reads. -/
theorem pageVirtToPhys_eq {vaddr : Nat} (low : LowTables mem root vaddr)
    (top : ptePresent (mem (entryAt root (pml4Index vaddr))) = true →
      ptePat (mem (entryAt root (pml4Index vaddr))) = false) :
    pageVirtToPhys root vaddr mem =
      match hardwareWalk root vaddr mem with
      | some (entry, _) => .ok (pteAddr entry + vaddr % pageSize)
      | none => .error .notPresent := by
  rw [pageVirtToPhys, pageQuery_hardwareWalk low top]
  cases hardwareWalk root vaddr mem with
  | none => rfl
  | some walked =>
    -- The base is a multiple of the page size, so the disjunction is a sum.
    obtain ⟨quotient, split⟩ : ∃ quotient, pteAddr walked.1 = quotient * 2 ^ 12 := by
      refine ⟨pteAddr walked.1 / 2 ^ 12, ?_⟩
      have aligned := pteAddr_aligned walked.1
      simp only [pageSize, pageShift] at aligned
      omega
    simp only [queryEntry, land_pageSize, split, Except.ok.injEq]
    exact mul_two_pow_lor (Nat.mod_lt _ (by decide))

theorem mod_pageSize_eq_iff (vaddr level : Nat) :
    vaddr % pageSize = vaddr % 2 ^ offsetBits level ↔ vaddr / pageSize % 2 ^ (9 * level) = 0 := by
  have wide : 2 ^ offsetBits level = pageSize * 2 ^ (9 * level) := by
    rw [offsetBits, Nat.pow_add, pageSize, pageShift]
  rw [wide, Nat.mod_mul]
  have positive : 0 < pageSize := by decide
  constructor
  · intro same
    have zero : pageSize * (vaddr / pageSize % 2 ^ (9 * level)) = 0 := by omega
    exact (Nat.mul_eq_zero.mp zero).resolve_left (by omega)
  · intro zero
    rw [zero, Nat.mul_zero, Nat.add_zero]

/-- The sum of a page's base and an offset into it is right exactly if the code reads the base
right and keeps all bits of the offset. -/
theorem base_offset_agree (entry level vaddr : Nat) :
    pteAddr entry + vaddr % pageSize = entryAddr entry + vaddr % 2 ^ offsetBits level ↔
      entryAddr entry < 2 ^ 40 ∧ vaddr / pageSize % 2 ^ (9 * level) = 0 := by
  rw [← mod_pageSize_eq_iff]
  have wide : pageSize ∣ 2 ^ offsetBits level := by
    rw [offsetBits, Nat.pow_add]
    exact Nat.dvd_mul_right _ _
  have short : vaddr % pageSize ≤ vaddr % 2 ^ offsetBits level := by
    rw [← Nat.mod_mod_of_dvd vaddr wide]
    exact Nat.mod_le _ _
  have base : pteAddr entry ≤ entryAddr entry ∧
      (pteAddr entry = entryAddr entry ↔ entryAddr entry < 2 ^ 40) := by
    rw [pteAddr_eq]
    omega
  -- Neither summand is too large, so an equal sum has equal summands.
  rw [← base.2]
  omega

/-- Where the tables lie below 2^40, translation agrees with the processor's walk exactly for the
addresses that are not mapped, or whose page begins below 2^40 and whose offset into it is below
4 KiB. -/
theorem pageVirtToPhys_agrees_iff {mem : PhysMem} {root vaddr : Nat} (sizes : PageSizes mem root)
    (low : LowTables mem root vaddr) :
    (pageVirtToPhys root vaddr mem =
      match hardwareTranslate root vaddr mem with
      | some phys => .ok phys
      | none => .error .notPresent) ↔
    ∀ entry level, hardwareWalk root vaddr mem = some (entry, level) →
      entryAddr entry < 2 ^ 40 ∧ vaddr / pageSize % 2 ^ (9 * level) = 0 := by
  rw [pageVirtToPhys_eq low fun _ => sizes.top _, hardwareTranslate]
  cases walked : hardwareWalk root vaddr mem with
  | none => simp
  | some leaf =>
    obtain ⟨entry, level⟩ := leaf
    have whole := sizes.base vaddr entry level walked
    simp only [Option.map_some, Nat.div_mul_cancel (Nat.dvd_of_mod_eq_zero whole),
      Except.ok.injEq, base_offset_agree, Option.some.injEq, Prod.mk.injEq]
    constructor
    · rintro agrees _ _ ⟨rfl, rfl⟩
      exact agrees
    · intro all
      exact all entry level ⟨rfl, rfl⟩

/-- Above the last level a walk ends only at an entry with the page-size bit. -/
theorem hardwareWalk_huge {vaddr entry level : Nat}
    (walked : hardwareWalk root vaddr mem = some (entry, level)) :
    (∃ addr, mem addr = entry) ∧ (level = 0 ∨ level ≤ 2 ∧ ptePat entry = true) := by
  simp only [hardwareWalk] at walked
  -- The walk returns at one of three levels, or not at all.
  grind

/-- Where every link leads below 2^40, so do all tables. -/
theorem LowTables.of_links {vaddr : Nat} (rootLow : root < 2 ^ 40)
    (links : ∀ addr next, pageLayout.child (mem addr) = some next → next < 2 ^ 40) :
    LowTables mem root vaddr := by
  intro path table early some reached
  clear early some
  induction path generalizing root with
  | nil =>
    obtain rfl : root = table := Option.some.inj reached
    exact rootLow
  | cons index rest ih =>
    rw [tableAt, RadixLayout.descend] at reached
    cases link : pageLayout.child (mem (pageLayout.slot root index)) with
    | none => simp [link] at reached
    | some next =>
      rw [link] at reached
      exact ih (links _ next link) reached

/-- A memory in which the 2 MiB page at 0x200000 maps to the frame at 0x40000000. -/
def hugeMem : PhysMem := fun addr =>
  if addr = 0x1000 then 0x2003
  else if addr = 0x2000 then 0x3003
  else if addr = 0x3008 then 0x40000083
  else 0

theorem hugeMem_values (addr : Nat) : hugeMem addr = 0x2003 ∨ hugeMem addr = 0x3003 ∨
    hugeMem addr = 0x40000083 ∨ hugeMem addr = 0 := by
  simp only [hugeMem]
  split_ifs <;> simp

theorem hugeMem_sizes : PageSizes hugeMem 0x1000 := by
  refine ⟨by decide +kernel, fun vaddr entry level walked => ?_⟩
  obtain ⟨⟨addr, rfl⟩, last | ⟨upper, huge⟩⟩ := hardwareWalk_huge walked
  · subst last
    exact entryAddr_aligned _
  · -- The only entry with the page-size bit is aligned to 1 GiB.
    rcases hugeMem_values addr with same | same | same | same <;> rw [same] at huge ⊢
    · exact absurd huge (by decide)
    · exact absurd huge (by decide)
    · have cases : level = 0 ∨ level = 1 ∨ level = 2 := by omega
      rcases cases with rfl | rfl | rfl <;> decide
    · exact absurd huge (by decide)

/-- Inside a 2 MiB page, past its first 4 KiB, translation drops the offset bits above twelve. -/
theorem pageVirtToPhys_drops_offset :
    PageSizes hugeMem 0x1000 ∧ hardwareTranslate 0x1000 0x201000 hugeMem = some 0x40001000 ∧
      pageVirtToPhys 0x1000 0x201000 hugeMem = .ok 0x40000000 :=
  ⟨hugeMem_sizes, by decide, by rfl⟩

/-- At the first bytes of that page translation and walk agree. -/
theorem pageVirtToPhys_agrees_at_base :
    PageSizes hugeMem 0x1000 ∧ LowTables hugeMem 0x1000 0x200123 ∧
      pageVirtToPhys 0x1000 0x200123 hugeMem =
        match hardwareTranslate 0x1000 0x200123 hugeMem with
        | some phys => .ok phys
        | none => .error .notPresent := by
  have low : LowTables hugeMem 0x1000 0x200123 := by
    refine .of_links (by decide) fun addr next link => ?_
    obtain ⟨_, _, address⟩ := child_eq_some link
    rcases hugeMem_values addr with same | same | same | same <;>
      exact address ▸ same ▸ by decide
  refine ⟨hugeMem_sizes, low, (pageVirtToPhys_agrees_iff hugeMem_sizes low).mpr ?_⟩
  intro entry level walked
  have found : hardwareWalk 0x1000 0x200123 hugeMem = some (0x40000083, 1) := by decide
  rw [found] at walked
  obtain ⟨rfl, rfl⟩ := Prod.mk.inj (Option.some.inj walked)
  decide

end Ccos
