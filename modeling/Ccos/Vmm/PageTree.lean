import Ccos.Vmm.PageEntry

/-! The tree of page tables below one PML4, and the processor's walk through it. -/

namespace Ccos

open Lib

/-- Page tables as a radix tree: present entries without the page-size bit lead to a table. -/
def pageLayout : RadixLayout Nat (Fin 512) Nat Nat where
  slot := entryAt
  child entry := if ptePresent entry && !ptePat entry then some (entryAddr entry) else none

/-- The table reached from a PML4 along a path of indices. -/
abbrev tableAt (mem : PhysMem) (root : Nat) (path : List (Fin 512)) : Option Nat :=
  pageLayout.descend mem root path

/-- A well-formed tree: tables are apart from each other, own frames that are in use, and entries
of the upper levels that are not present hold no address. -/
@[grind] structure PageTree (inUse : Nat → Prop) (mem : PhysMem) (root : Nat) : Prop where
  separated : pageLayout.Separated mem root 3
  tables : ∀ path table, path.length ≤ 3 → tableAt mem root path = some table →
    table ≠ 0 ∧ table % pageSize = 0 ∧ table < 2 ^ 40 ∧ inUse table
  absent : ∀ path table index, path.length ≤ 2 → tableAt mem root path = some table →
    ptePresent (mem (entryAt table index)) = false → pteAddr (mem (entryAt table index)) = 0
  top : ∀ index, ptePresent (mem (entryAt root index)) = true →
    ptePat (mem (entryAt root index)) = false

variable {entry : Nat}

theorem child_of_link (present : ptePresent entry = true) (small : ptePat entry = false) :
    pageLayout.child entry = some (entryAddr entry) := by
  simp [pageLayout, present, small]

theorem child_of_absent (absent : ptePresent entry = false) : pageLayout.child entry = none := by
  simp [pageLayout, absent]

theorem child_of_huge (huge : ptePat entry = true) : pageLayout.child entry = none := by
  simp [pageLayout, huge]

variable {table : Nat}

theorem child_eq_some (child : pageLayout.child entry = some table) :
    ptePresent entry = true ∧ ptePat entry = false ∧ entryAddr entry = table := by
  simp only [pageLayout] at child
  grind

/-- The code reads the address of a table correctly while the table is below 2^40. -/
theorem pteAddr_of_child (child : pageLayout.child entry = some table) (low : table < 2 ^ 40) :
    pteAddr entry = table := by
  obtain ⟨_, _, rfl⟩ := child_eq_some child
  exact pteAddr_of_low low

theorem child_linkEntry {phys : Nat} (aligned : phys % pageSize = 0) (fits : phys < 2 ^ 40) :
    pageLayout.child (linkEntry phys) = some phys := by
  have outside : 7 &&& pteAddrMask = 0 := by decide
  rw [linkEntry_eq, child_of_link]
  · rw [entryAddr_lor aligned (by omega) outside]
  · rw [ptePresent, testBit_lor_low _ _ (by decide)]
    decide
  · rw [ptePat, testBit_lor_low _ _ (by decide)]
    decide

/-- Entries of page-aligned tables share an address only when they are the same entry. -/
theorem entryAt_inj {first second : Nat} (firstAligned : first % pageSize = 0)
    (secondAligned : second % pageSize = 0) {i j : Fin 512}
    (same : entryAt first i = entryAt second j) : first = second ∧ i = j := by
  simp only [pageSize, pageShift] at firstAligned secondAligned
  simp only [entryAt] at same
  refine ⟨by omega, Fin.ext (by omega)⟩

theorem entryAt_inside (table : Nat) (index : Fin 512) :
    table ≤ entryAt table index ∧ entryAt table index + 8 ≤ table + pageSize := by
  simp only [entryAt, pageSize, pageShift]
  omega

variable {Alloc : Type*}

/-- The state after a fresh frame was cleared and linked at an entry. -/
def linkTable (st : PageState Alloc) (frames : Alloc) (fresh entry : Nat) : PageState Alloc :=
  (PageState.clearPage { st with frames := frames } fresh).write entry (linkEntry fresh)

theorem PageTree.child_low {inUse : Nat → Prop} {mem : PhysMem} {root : Nat}
    (tree : PageTree inUse mem root) {path : List (Fin 512)} (within : path.length ≤ 2)
    (reached : tableAt mem root path = some table) {index : Fin 512} (next : Nat)
    (child : pageLayout.child (mem (entryAt table index)) = some next) : next < 2 ^ 40 := by
  have step := (RadixLayout.descend_concat reached index).trans child
  exact (tree.tables _ next (by simp; omega) step).2.2.1

/-- The tables on the way to an address are below 2^40, where the code reads their addresses
correctly. -/
def LowTables (mem : PhysMem) (root vaddr : Nat) : Prop :=
  ∀ path table, path <+: upperPath vaddr → path ≠ [] → tableAt mem root path = some table →
    table < 2 ^ 40

theorem PageTree.lowTables {inUse : Nat → Prop} {mem : PhysMem} {root : Nat}
    (tree : PageTree inUse mem root) (vaddr : Nat) : LowTables mem root vaddr := by
  intro path table early _ reached
  exact (tree.tables path table early.length_le reached).2.2.1

/-- A link on the way to an address leads to a table whose address the code reads correctly. -/
theorem LowTables.link {mem : PhysMem} {root vaddr : Nat} (low : LowTables mem root vaddr)
    (path : List (Fin 512)) {index : Fin 512} (early : path ++ [index] <+: upperPath vaddr)
    (reached : tableAt mem root path = some table)
    (present : ptePresent (mem (entryAt table index)) = true)
    (size : ptePat (mem (entryAt table index)) = false) :
    tableAt mem root (path ++ [index]) = some (entryAddr (mem (entryAt table index))) ∧
      pteAddr (mem (entryAt table index)) = entryAddr (mem (entryAt table index)) := by
  have next : tableAt mem root (path ++ [index]) = some (entryAddr (mem (entryAt table index))) :=
    (RadixLayout.descend_concat reached index).trans (child_of_link present size)
  exact ⟨next, pteAddr_of_low (low _ _ early (by simp) next)⟩

theorem FrameSource.fresh_apart (source : FrameSource Alloc) {frames after : Alloc} {fresh addr : Nat}
    (granted : source.alloc frames = (some fresh, after)) (aligned : table % pageSize = 0)
    (used : source.inUse frames table) (inside : table ≤ addr ∧ addr < table + pageSize) :
    ¬(fresh ≤ addr ∧ addr < fresh + pageSize) := by
  obtain ⟨unused, _, freshAligned, _⟩ := source.fresh _ _ _ granted
  intro shared
  -- Two aligned pages that share a byte are the same page.
  have same : table = fresh := by
    simp only [pageSize, pageShift] at *
    omega
  exact unused (same ▸ used)

theorem FrameSource.entry_apart (source : FrameSource Alloc) {frames after : Alloc} {fresh : Nat}
    (granted : source.alloc frames = (some fresh, after)) (aligned : table % pageSize = 0)
    (used : source.inUse frames table) (index : Fin 512) :
    ¬(fresh ≤ entryAt table index ∧ entryAt table index < fresh + pageSize) := by
  have bounds := entryAt_inside table index
  exact source.fresh_apart granted aligned used (by omega)

section Walk

variable {source : FrameSource Alloc} {st : PageState Alloc} {entry fresh : Nat} {frames : Alloc}

theorem walkOrCreate_old (address : pteAddr (st.mem entry) ≠ 0) (allocMissing : Bool) :
    walkOrCreate source entry allocMissing st = (.ok (pteAddr (st.mem entry)), st) := by
  simp [walkOrCreate, getOrCreateTable, address]

variable (empty : pteAddr (st.mem entry) = 0)
include empty

theorem walkOrCreate_missing : walkOrCreate source entry false st = (.error .notPresent, st) := by
  simp [walkOrCreate, getOrCreateTable, empty]

theorem walkOrCreate_refused (refused : source.alloc st.frames = (none, frames)) :
    walkOrCreate source entry true st = (.error .oom, { st with frames := frames }) := by
  simp [walkOrCreate, getOrCreateTable, empty, pageCreateTable, refused]

theorem walkOrCreate_new (granted : source.alloc st.frames = (some fresh, frames)) :
    walkOrCreate source entry true st = (.ok fresh, linkTable st frames fresh entry) := by
  obtain ⟨_, nonzero, _⟩ := source.fresh _ _ _ granted
  -- The entry has no address after the clearing either.
  have still : pteAddr ((PageState.clearPage { st with frames := frames } fresh).mem entry) = 0 := by
    simp only [PageState.clearPage]
    split
    · rfl
    · exact empty
  simp [walkOrCreate, getOrCreateTable, empty, pageCreateTable, granted, still, nonzero, linkTable,
    linkEntry]

end Walk

/-- The four outcomes of walking through an entry that maps no huge page. -/
theorem walkOrCreate_outcomes (source : FrameSource Alloc) {st : PageState Alloc} {entry : Nat}
    (absent : ptePresent (st.mem entry) = false → pteAddr (st.mem entry) = 0)
    (low : ∀ next, pageLayout.child (st.mem entry) = some next → next < 2 ^ 40)
    (allocMissing : Bool) (usable : ptePresent (st.mem entry) = true → pteAddr (st.mem entry) ≠ 0 →
      ptePat (st.mem entry) = false) :
    (∃ next, pageLayout.child (st.mem entry) = some next ∧
      walkOrCreate source entry allocMissing st = (.ok next, st)) ∨
    (pteAddr (st.mem entry) = 0 ∧ allocMissing = false ∧
      walkOrCreate source entry allocMissing st = (.error .notPresent, st)) ∨
    (pteAddr (st.mem entry) = 0 ∧ allocMissing = true ∧
      ∃ frames, source.alloc st.frames = (none, frames) ∧
      walkOrCreate source entry allocMissing st = (.error .oom, { st with frames := frames })) ∨
    (pteAddr (st.mem entry) = 0 ∧ allocMissing = true ∧
      ∃ fresh frames, source.alloc st.frames = (some fresh, frames) ∧
      walkOrCreate source entry allocMissing st = (.ok fresh, linkTable st frames fresh entry)) := by
  by_cases empty : pteAddr (st.mem entry) = 0
  · -- The code looks at the frame field alone, so an empty field means a missing table.
    refine .inr ?_
    cases allocMissing with
    | false => exact .inl ⟨empty, rfl, walkOrCreate_missing empty⟩
    | true =>
      refine .inr ?_
      rcases granted : source.alloc st.frames with ⟨_ | fresh, frames⟩
      · exact .inl ⟨empty, rfl, frames, rfl, walkOrCreate_refused empty granted⟩
      · exact .inr ⟨empty, rfl, fresh, frames, rfl, walkOrCreate_new empty granted⟩
  · -- A used frame field belongs to a present entry, hence to a link.
    have present : ptePresent (st.mem entry) = true := by
      grind
    have child := child_of_link present (usable present empty)
    rw [← pteAddr_of_low (low _ child)] at child
    exact .inl ⟨_, child, walkOrCreate_old empty allocMissing⟩

/-- The processor's four-level walk: the entry that maps an address, and the levels below it. -/
def hardwareWalk (root vaddr : Nat) (mem : PhysMem) : Option (Nat × Nat) :=
  let pml4e := mem (entryAt root (pml4Index vaddr))
  -- The page-size bit is reserved in a top-level entry, which then translates nothing.
  if !ptePresent pml4e || ptePat pml4e then none
  else
    let pdpte := mem (entryAt (entryAddr pml4e) (pdptIndex vaddr))
    if !ptePresent pdpte then none
    else if ptePat pdpte then some (pdpte, 2)
    else
      let pde := mem (entryAt (entryAddr pdpte) (pdIndex vaddr))
      if !ptePresent pde then none
      else if ptePat pde then some (pde, 1)
      else
        let pte := mem (entryAt (entryAddr pde) (ptIndex vaddr))
        if !ptePresent pte then none else some (pte, 0)

/-- What the entry at which a walk stopped says about the address. -/
def leafOf (stopped : Nat × List (Fin 512)) : Option (Nat × Nat) :=
  if ptePresent stopped.1 && (stopped.2.isEmpty || ptePat stopped.1 && stopped.2.length ≤ 2) then
    some (stopped.1, stopped.2.length)
  else none

theorem hardwareWalk_eq (root vaddr : Nat) (mem : PhysMem) :
    hardwareWalk root vaddr mem =
      (pageLayout.stop mem root (pagePath vaddr)).bind leafOf := by
  simp only [hardwareWalk, pagePath, RadixLayout.stop, pageLayout]
  -- Each level is decided by the present and the page-size bit of its entry.
  cases topPresent : ptePresent (mem (entryAt root (pml4Index vaddr))) with
  | false => simp [leafOf, topPresent]
  | true =>
    cases topSize : ptePat (mem (entryAt root (pml4Index vaddr))) with
    | true => simp [leafOf]
    | false =>
      generalize entryAddr (mem (entryAt root (pml4Index vaddr))) = pdpt
      cases pointerPresent : ptePresent (mem (entryAt pdpt (pdptIndex vaddr))) with
      | false => simp [leafOf, pointerPresent]
      | true =>
        cases pointerSize : ptePat (mem (entryAt pdpt (pdptIndex vaddr))) with
        | true => simp [leafOf, pointerPresent, pointerSize]
        | false =>
          simp only [pointerPresent, pointerSize, Bool.not_true, Bool.not_false, Bool.and_true,
            Bool.or_false, Bool.false_eq_true, if_false, if_true]
          generalize entryAddr (mem (entryAt pdpt (pdptIndex vaddr))) = pd
          cases directoryPresent : ptePresent (mem (entryAt pd (pdIndex vaddr))) with
          | false => simp [leafOf, directoryPresent]
          | true =>
            cases directorySize : ptePat (mem (entryAt pd (pdIndex vaddr))) with
            | true => simp [leafOf, directoryPresent, directorySize]
            | false =>
              cases leafPresent : ptePresent
                (mem (entryAt (entryAddr (mem (entryAt pd (pdIndex vaddr)))) (ptIndex vaddr))) <;>
                simp [leafOf, leafPresent]

/-- Another memory holds the same entries in every table of the tree. -/
def SameEntries (root : Nat) (mem other : PhysMem) : Prop :=
  ∀ path table index, path.length ≤ 3 → tableAt mem root path = some table →
    other (entryAt table index) = mem (entryAt table index)

namespace SameEntries

variable {mem other : PhysMem} {root : Nat} (same : SameEntries root mem other)
include same

theorem reach {path : List (Fin 512)} (short : path.length ≤ 4) :
    tableAt other root path = tableAt mem root path :=
  RadixLayout.descend_congr same short

theorem walk (vaddr : Nat) : hardwareWalk root vaddr other = hardwareWalk root vaddr mem := by
  rw [hardwareWalk_eq, hardwareWalk_eq]
  exact congrArg (Option.bind · leafOf) (RadixLayout.stop_congr same (by simp [pagePath]))

theorem tree {inUse : Nat → Prop} (tree : PageTree inUse mem root) : PageTree inUse other root := by
  refine ⟨fun path way table other i j short brief reached reaches => ?_,
    fun path table short reached => ?_, fun path table index short reached bit => ?_,
    fun index present => ?_⟩
  · exact tree.separated path way table other i j short brief
      ((same.reach (by omega)).symm.trans reached) ((same.reach (by omega)).symm.trans reaches)
  · exact tree.tables path table short ((same.reach (by omega)).symm.trans reached)
  · have old := (same.reach (by omega)).symm.trans reached
    rw [same path table index (by omega) old] at bit ⊢
    exact tree.absent path table index short old bit
  · rw [same [] root index (by simp) rfl] at present ⊢
    exact tree.top index present

end SameEntries

section Link

variable {source : FrameSource Alloc} {st : PageState Alloc}

theorem clearPage_fresh (st : PageState Alloc) (fresh : Nat) (i : Fin 512) :
    (PageState.clearPage st fresh).mem (entryAt fresh i) = 0 := by
  have bounds := entryAt_inside fresh i
  exact if_pos (by omega)

theorem linkTable_self (st : PageState Alloc) (frames : Alloc) (fresh entry : Nat) :
    (linkTable st frames fresh entry).mem entry = linkEntry fresh := by
  simp [linkTable, PageState.write]

theorem linkEntry_bits (phys : Nat) :
    ptePresent (linkEntry phys) = true ∧ ptePat (linkEntry phys) = false := by
  rw [linkEntry_eq, ptePresent, ptePat, testBit_lor_low _ _ (by decide),
    testBit_lor_low _ _ (by decide)]
  decide

end Link

section Write

variable {mem : PhysMem} {root : Nat} {path : List (Fin 512)} {index : Fin 512}

theorem hardwareWalk_write
    (owned : pageLayout.Owned mem root 3 path index (entryAt table index))
    (deepest : path.length = 3) (reached : tableAt mem root path = some table) (value vaddr : Nat) :
    hardwareWalk root vaddr (Function.update mem (entryAt table index) value) =
      if pagePath vaddr = path ++ [index] then
        if ptePresent value then some (value, 0) else none
      else hardwareWalk root vaddr mem := by
  rw [hardwareWalk_eq, hardwareWalk_eq]
  by_cases here : pagePath vaddr = path ++ [index]
  · have walked : pageLayout.stop (Function.update mem (entryAt table index) value) root
        (path ++ [index]) = some (value, []) := by
      have kept := (RadixLayout.descend_store_short owned (by omega) value le_rfl).trans reached
      refine (RadixLayout.stop_append kept (by simp)).trans ?_
      rw [RadixLayout.stop, Function.update_self]
    rw [if_pos here, here, walked]
    simp [leafOf]
  · rw [if_neg here]
    have apart : ¬path ++ [index] <+: pagePath vaddr := by
      intro early
      -- Both have four indices, so the one cannot be a proper part of the other.
      exact here (early.eq_of_length (by simp [pagePath, deepest])).symm
    exact congrArg (Option.bind · leafOf)
      (RadixLayout.stop_congr_along (owned.store_along value (by simp [pagePath]) apart))

theorem hardwareWalk_leaf {vaddr : Nat} (reached : tableAt mem root (upperPath vaddr) = some table) :
    hardwareWalk root vaddr mem =
      if ptePresent (mem (entryAt table (ptIndex vaddr))) then
        some (mem (entryAt table (ptIndex vaddr)), 0)
      else none := by
  rw [hardwareWalk_eq, pagePath_split, RadixLayout.stop_append reached (by simp),
    RadixLayout.stop]
  simp [leafOf, pageLayout]

theorem hardwareWalk_store {vaddr : Nat}
    (owned : pageLayout.Owned mem root 3 (upperPath vaddr) (ptIndex vaddr)
      (entryAt table (ptIndex vaddr)))
    (reached : tableAt mem root (upperPath vaddr) = some table) (value other : Nat) :
    hardwareWalk root other (Function.update mem (entryAt table (ptIndex vaddr)) value) =
      if pageNumber other = pageNumber vaddr then
        if ptePresent value then some (value, 0) else none
      else hardwareWalk root other mem := by
  rw [hardwareWalk_write owned (upperPath_length vaddr) reached]
  simp only [← pagePath_split, pagePath_eq_iff]

end Write

end Ccos
