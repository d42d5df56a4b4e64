import Ccos.Mm.Pframe
import Ccos.Lib.RadixTree

/-! The four-level page tables of `mm/vmm/page.c`, over physical memory read in 64-bit words. -/

namespace Ccos

open Lib

/-- Physical memory: the 64-bit word that starts at each word-aligned physical address. -/
abbrev PhysMem := Nat → Nat

/-- Where page tables get their frames: `pframe_alloc` and the frames it counts as in use. -/
structure FrameSource (Alloc : Type*) where
  /-- One allocation: the frame's address, or a failure, and the allocator after it. -/
  alloc : Alloc → Option Nat × Alloc
  inUse : Alloc → Nat → Prop
  fresh : ∀ before frame after, alloc before = (some frame, after) →
    ¬inUse before frame ∧ frame ≠ 0 ∧ frame % pageSize = 0 ∧ frame < 2 ^ 40 ∧
      ∀ other, inUse after other ↔ inUse before other ∨ other = frame
  refused : ∀ before after, alloc before = (none, after) →
    ∀ other, inUse after other ↔ inUse before other

/-- The same source as a part of a larger state, which may keep a record of what is granted. -/
def FrameSource.within {Alloc Outer : Type*} (source : FrameSource Alloc) (inner : Outer → Alloc)
    (update : Outer → Option Nat → Alloc → Outer)
    (kept : ∀ outer granted after, inner (update outer granted after) = after) :
    FrameSource Outer where
  alloc outer :=
    ((source.alloc (inner outer)).1,
      update outer (source.alloc (inner outer)).1 (source.alloc (inner outer)).2)
  inUse outer := source.inUse (inner outer)
  fresh := by
    intro before frame after granted
    obtain ⟨given, rfl⟩ := Prod.mk.inj granted
    rw [kept]
    exact source.fresh (inner before) frame _ (Prod.ext given rfl)
  refused := by
    intro before after refused
    obtain ⟨given, rfl⟩ := Prod.mk.inj refused
    rw [kept]
    exact source.refused (inner before) _ (Prod.ext given rfl)

inductive PageError
  | notInit
  | oom
  | invalid
  | notPresent
  | alreadyMapped
  | notMapped
  | alignment
  deriving DecidableEq, Repr

/-- One store into physical memory: the memory it met and the bytes it covered. -/
structure PageStore where
  before : PhysMem
  addr : Nat
  size : Nat

/-- Everything the page table functions read and change; the latest store comes first. -/
structure PageState (Alloc : Type*) where
  mem : PhysMem
  frames : Alloc
  stores : List PageStore

section Constants

def pagePresent : Nat := 1 <<< 0

def pageWrite : Nat := 1 <<< 1

def pageUser : Nat := 1 <<< 2

def pageWriteThru : Nat := 1 <<< 3

def pageNoCache : Nat := 1 <<< 4

def pageNoExec : Nat := 1 <<< 63

def pageHugePd : Nat := 1 <<< 7

def pageHugePdpt : Nat := 1 <<< 7

/-- The address bits 12 to 51 of an entry. -/
def pteAddrMask : Nat := 0x000FFFFFFFFFF000

def vmapFlagWrite : Nat := 1 <<< 0

def vmapFlagUser : Nat := 1 <<< 1

def vmapFlagNoExec : Nat := 1 <<< 2

def vmapFlagWriteThru : Nat := 1 <<< 3

def vmapFlagNoCache : Nat := 1 <<< 4

def vmapFlagHuge2mb : Nat := 1 <<< 5

def vmapFlagHuge1gb : Nat := 1 <<< 6

end Constants

def pageSize2mb : Nat := 2 * 1024 * 1024

def pageSize1gb : Nat := 1 * 1024 * 1024 * 1024

/-- The 9-bit table index of a virtual address at one level. -/
def tableIndex (shift vaddr : Nat) : Fin 512 :=
  ⟨(vaddr >>> shift) &&& 0x1FF, Nat.and_lt_two_pow _ (by decide : 0x1FF < 2 ^ 9)⟩

def pml4Index : Nat → Fin 512 := tableIndex 39

def pdptIndex : Nat → Fin 512 := tableIndex 30

def pdIndex : Nat → Fin 512 := tableIndex 21

def ptIndex : Nat → Fin 512 := tableIndex 12

def ptePresent (entry : Nat) : Bool := entry.testBit 0

/-- The `pat` bit-field, which is the page-size bit above the last level. -/
def ptePat (entry : Nat) : Bool := entry.testBit 7

def pteFrame (entry : Nat) : Nat := (entry >>> 12) &&& (2 ^ 40 - 1)

/-- The frame field as a physical address, `bits.frame << PAGE_SHIFT`.
The compiler shifts in the type of the field, which has 40 bits, so the upper 12 bits are lost. -/
def pteAddr (entry : Nat) : Nat := (pteFrame entry <<< pageShift) % 2 ^ 40

def entryAt (table : Nat) (index : Fin 512) : Nat := table + 8 * index.val

def vmapFlagsToPte (vmapFlags : Nat) : Nat :=
  -- Each requested property adds one bit to a present entry.
  pagePresent |||
  (if vmapFlags &&& vmapFlagWrite ≠ 0 then pageWrite else 0) |||
  (if vmapFlags &&& vmapFlagUser ≠ 0 then pageUser else 0) |||
  (if vmapFlags &&& vmapFlagNoExec ≠ 0 then pageNoExec else 0) |||
  (if vmapFlags &&& vmapFlagWriteThru ≠ 0 then pageWriteThru else 0) |||
  (if vmapFlags &&& vmapFlagNoCache ≠ 0 then pageNoCache else 0)

variable {Alloc : Type*}

def PageState.write (st : PageState Alloc) (addr value : Nat) : PageState Alloc :=
  { st with
    mem := Function.update st.mem addr value
    stores := ⟨st.mem, addr, 8⟩ :: st.stores }

def PageState.clearPage (st : PageState Alloc) (base : Nat) : PageState Alloc :=
  { st with
    mem := fun addr => if base ≤ addr ∧ addr < base + pageSize then 0 else st.mem addr
    stores := ⟨st.mem, base, pageSize⟩ :: st.stores }

def pageCreateTable (source : FrameSource Alloc) (st : PageState Alloc) :
    Except PageError Nat × PageState Alloc :=
  match source.alloc st.frames with
  | (none, frames) => (.error .oom, { st with frames := frames })
  | (some phys, frames) => (.ok phys, PageState.clearPage { st with frames := frames } phys)

/-- Use a nonzero table address as it is, and otherwise create a table if that is allowed. -/
def getOrCreateTable (source : FrameSource Alloc) (tablePhys : Nat) (allocMissing : Bool)
    (st : PageState Alloc) : Except PageError Nat × PageState Alloc :=
  if tablePhys ≠ 0 then (.ok tablePhys, st)
  else if !allocMissing then (.error .notPresent, st)
  else pageCreateTable source st

/-- Walk to or create the table below one entry, and link a created one. -/
def walkOrCreate (source : FrameSource Alloc) (entry : Nat) (allocMissing : Bool)
    (st : PageState Alloc) : Except PageError Nat × PageState Alloc :=
  match getOrCreateTable source (pteAddr (st.mem entry)) allocMissing st with
  | (.error code, st) => (.error code, st)
  | (.ok phys, st) =>
    -- The entry changes only when its table was created by this call.
    if phys ≠ pteAddr (st.mem entry) then
      (.ok phys,
        st.write entry ((phys &&& pteAddrMask) ||| pagePresent ||| pageWrite ||| pageUser))
    else (.ok phys, st)

/-- Map one page of the size that the flags ask for. -/
def pageMapPage (source : FrameSource Alloc) (pml4 vaddr paddr flags : Nat)
    (allocMissing : Bool) (st : PageState Alloc) : Except PageError Unit × PageState Alloc :=
  let use2mb := flags &&& vmapFlagHuge2mb ≠ 0
  let use1gb := flags &&& vmapFlagHuge1gb ≠ 0
  if use2mb ∧ use1gb then (.error .invalid, st)
  else
    let pageAlign :=
      if use1gb then pageSize1gb - 1 else if use2mb then pageSize2mb - 1 else pageSize - 1
    if vaddr &&& pageAlign ≠ 0 then (.error .alignment, st)
    else if paddr &&& pageAlign ≠ 0 then (.error .alignment, st)
    else
      let pteFlags := vmapFlagsToPte flags
      match walkOrCreate source (entryAt pml4 (pml4Index vaddr)) allocMissing st with
      | (.error code, st) => (.error code, st)
      | (.ok pdpt, st) =>
        let pdpte := entryAt pdpt (pdptIndex vaddr)
        if use1gb then
          if ptePresent (st.mem pdpte) then (.error .alreadyMapped, st)
          else (.ok (), st.write pdpte ((paddr &&& pteAddrMask) ||| pteFlags ||| pageHugePdpt))
        else
          match walkOrCreate source pdpte allocMissing st with
          | (.error code, st) => (.error code, st)
          | (.ok pd, st) =>
            let pde := entryAt pd (pdIndex vaddr)
            if use2mb then
              if ptePresent (st.mem pde) then (.error .alreadyMapped, st)
              else (.ok (), st.write pde ((paddr &&& pteAddrMask) ||| pteFlags ||| pageHugePd))
            else if ptePresent (st.mem pde) && ptePat (st.mem pde) then (.error .invalid, st)
            else
              match walkOrCreate source pde allocMissing st with
              | (.error code, st) => (.error code, st)
              | (.ok pt, st) =>
                let pte := entryAt pt (ptIndex vaddr)
                if ptePresent (st.mem pte) then (.error .alreadyMapped, st)
                else (.ok (), st.write pte ((paddr &&& pteAddrMask) ||| pteFlags))

/-- The last-level entry that a walk over present bits alone ends at. -/
def presentWalk (pml4 vaddr : Nat) (mem : PhysMem) : Option Nat :=
  -- This walk looks at no page-size bit.
  let pml4e := mem (entryAt pml4 (pml4Index vaddr))
  if !ptePresent pml4e then none
  else
    let pdpte := mem (entryAt (pteAddr pml4e) (pdptIndex vaddr))
    if !ptePresent pdpte then none
    else
      let pde := mem (entryAt (pteAddr pdpte) (pdIndex vaddr))
      if !ptePresent pde then none
      else some (entryAt (pteAddr pde) (ptIndex vaddr))

/-- Clear the last-level entry of a virtual page; the request to free tables is ignored. -/
def pageUnmapPage (pml4 vaddr : Nat) (_freeTable : Bool) (st : PageState Alloc) :
    Except PageError Unit × PageState Alloc :=
  if vaddr &&& (pageSize - 1) ≠ 0 then (.error .alignment, st)
  else
    match presentWalk pml4 vaddr st.mem with
    | none => (.error .notMapped, st)
    | some pte =>
      if !ptePresent (st.mem pte) then (.error .notMapped, st)
      else (.ok (), st.write pte 0)

structure PageQueryResult where
  physAddr : Nat
  flags : Nat
  isHuge : Bool
  deriving DecidableEq, Repr

/-- The report made from the entry that maps an address. -/
def queryEntry (entry : Nat) (isHuge : Bool) : PageQueryResult :=
  ⟨pteAddr entry, entry &&& 0xFFF, isHuge⟩

/-- Look up the entry that maps a virtual address, at any page size. -/
def pageQuery (pml4 vaddr : Nat) (mem : PhysMem) : Except PageError PageQueryResult :=
  let pml4e := mem (entryAt pml4 (pml4Index vaddr))
  if !ptePresent pml4e then .error .notPresent
  else
    let pdpte := mem (entryAt (pteAddr pml4e) (pdptIndex vaddr))
    if !ptePresent pdpte then .error .notPresent
    else if ptePat pdpte then .ok (queryEntry pdpte true)
    else
      let pde := mem (entryAt (pteAddr pdpte) (pdIndex vaddr))
      if !ptePresent pde then .error .notPresent
      else if ptePat pde then .ok (queryEntry pde true)
      else
        let pte := mem (entryAt (pteAddr pde) (ptIndex vaddr))
        if !ptePresent pte then .error .notPresent
        else .ok (queryEntry pte false)

def pageVirtToPhys (pml4 vaddr : Nat) (mem : PhysMem) : Except PageError Nat :=
  match pageQuery pml4 vaddr mem with
  | .ok result => .ok (result.physAddr ||| (vaddr &&& (pageSize - 1)))
  | .error _ => .error .notPresent

/-- A relation between two states that holds across every single step of a map call. -/
structure PageRelation (source : FrameSource Alloc) (rel : PageState Alloc → PageState Alloc → Prop) :
    Prop where
  refl : ∀ st, rel st st
  trans : ∀ {first second third}, rel first second → rel second third → rel first third
  write : ∀ st addr value, rel st (st.write addr value)
  refused : ∀ st frames, source.alloc st.frames = (none, frames) → rel st { st with frames := frames }
  cleared : ∀ st fresh frames, source.alloc st.frames = (some fresh, frames) →
    rel st (PageState.clearPage { st with frames := frames } fresh)

namespace PageRelation

variable {source : FrameSource Alloc} {rel : PageState Alloc → PageState Alloc → Prop}
  {st after : PageState Alloc} (kept : PageRelation source rel)
include kept

theorem createTable (st : PageState Alloc) : rel st (pageCreateTable source st).2 := by
  unfold pageCreateTable
  split
  · exact kept.refused _ _ ‹_›
  · exact kept.cleared _ _ _ ‹_›

theorem walk {entry : Nat} {allocMissing : Bool} {result : Except PageError Nat}
    (walked : walkOrCreate source entry allocMissing st = (result, after)) : rel st after := by
  -- A table that is there is used, and one that is missing is created.
  have got : rel st (getOrCreateTable source (pteAddr (st.mem entry)) allocMissing st).2 := by
    unfold getOrCreateTable
    split
    · exact kept.refl st
    · split
      · exact kept.refl st
      · exact kept.createTable st
  unfold walkOrCreate at walked
  split at walked
  all_goals
    rename_i found
    rw [found] at got
  · cases walked
    exact got
  · -- A created table is linked by one more store.
    split at walked
    · cases walked
      exact kept.trans got (kept.write _ _ _)
    · cases walked
      exact got

/-- Such a relation holds across a map call, whatever the page size and the result. -/
theorem mapPage (root vaddr paddr flags : Nat) (allocMissing : Bool) (st : PageState Alloc) :
    rel st (pageMapPage source root vaddr paddr flags allocMissing st).2 := by
  unfold pageMapPage
  extract_lets use2mb use1gb pageAlign pteFlags
  split
  · exact kept.refl st
  split
  · exact kept.refl st
  split
  · exact kept.refl st
  -- Each level is one walk, and the last step at most one store.
  rcases walked : walkOrCreate source (entryAt root (pml4Index vaddr)) allocMissing st with
    ⟨code | pdpt, first⟩
  · exact kept.walk walked
  have one := kept.walk walked
  simp only
  split
  · split
    · exact one
    · exact kept.trans one (kept.write _ _ _)
  rcases walked : walkOrCreate source (entryAt pdpt (pdptIndex vaddr)) allocMissing first with
    ⟨code | pd, second⟩
  · exact kept.trans one (kept.walk walked)
  have two := kept.trans one (kept.walk walked)
  simp only
  split
  · split
    · exact two
    · exact kept.trans two (kept.write _ _ _)
  split
  · exact two
  rcases walked : walkOrCreate source (entryAt pd (pdIndex vaddr)) allocMissing second with
    ⟨code | pt, third⟩
  · exact kept.trans two (kept.walk walked)
  have three := kept.trans two (kept.walk walked)
  simp only
  split
  · exact three
  · exact kept.trans three (kept.write _ _ _)

end PageRelation

end Ccos
