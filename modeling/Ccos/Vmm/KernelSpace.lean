import Ccos.Heap.Heap
import Ccos.Mm.PframeRanges
import Ccos.User.UserSpace

/-! The kernel's part of the virtual address space in `mm/vmm/vmm.c`: the table of regions, the search
for a free range, and the mapping and allocation of kernel pages. -/

namespace Ccos

open Lib

section Constants

def kernelVirtBase : Nat := 0xFFFF800000000000

def kernelTextBase : Nat := 0xFFFFFFFF80000000

def kernelTextSize : Nat := 2 * 1024 * 1024

def kernelDataBase : Nat := kernelTextBase + kernelTextSize

def kernelDataSize : Nat := 2 * 1024 * 1024

def kernelGeneralBase : Nat := 0xFFFFFFFF88000000

def kernelGeneralMax : Nat := kernelGeneralBase + 128 * 1024 * 1024

def maxRegions : Nat := 64

/-- A bound on the steps of a search: the number of pages among all 64-bit addresses. -/
def virtSearchLimit : Nat := 2 ^ 52

end Constants

inductive VmmError
  | notInit
  | oom
  | invalid
  | perm
  | notMapped
  | alreadyMapped
  deriving DecidableEq, Repr

structure MemoryRegion where
  start : Nat
  stop : Nat
  physStart : Nat
  flags : Nat
  deriving DecidableEq, Repr

structure VmmStats where
  totalPages : Nat
  mappedPages : Nat
  kernelPages : Nat
  userPages : Nat
  pageTables : Nat
  deriving DecidableEq, Repr

/-- The static state of the virtual memory manager, with the page tables and the frame allocator. -/
structure VmmState (Alloc : Type) where
  kernelPml4 : Nat
  stats : VmmStats
  regions : List MemoryRegion
  kernelVirtHint : Nat
  initialized : Bool
  pages : PageState Alloc

/-- Requests for consecutive frames; a failed assertion yields nothing. -/
structure RunOps (Alloc : Type) where
  allocN : Alloc → Nat → Option (Option Nat × Alloc)
  freeN : Alloc → Nat → Nat → Option Alloc

/-- The frame allocator as the virtual memory manager calls it. -/
structure VmmFrames (Alloc : Type) extends FrameOps Alloc, RunOps Alloc

variable {Alloc : Type}

/-- Whether a range collides with a tracked region. -/
def checkRegionCollision (regions : List MemoryRegion) (start stop : Nat) : Bool :=
  regions.any fun region => start < region.stop && region.start < stop

/-- Try the alignment boundaries from an address on, as long as the range ends inside the area. -/
def searchVirtRange (regions : List MemoryRegion) (size alignment : Nat) :
    (steps hint : Nat) → Option Nat
  | 0, _ => none
  | steps + 1, hint =>
    -- The end of the range wraps.
    if wrap64 (hint + size) ≤ kernelGeneralMax then
      if !checkRegionCollision regions hint (wrap64 (hint + size)) then some hint
      else searchVirtRange regions size alignment steps (wrap64 (hint + alignment))
    else none

def rangeAlignment (size : Nat) : Nat :=
  if pageSize2mb ≤ size then pageSize2mb else pageSize

/-- Round a hint up to the alignment of a range of some size. -/
def alignHint (hint size : Nat) : Nat :=
  wrap64 (hint + rangeAlignment size - 1) &&& not64 (rangeAlignment size - 1)

/-- Find a free range of virtual addresses and move the hint behind it. -/
def findFreeVirtRange (size : Nat) (st : VmmState Alloc) : Option Nat × VmmState Alloc :=
  match searchVirtRange st.regions size (rangeAlignment size) virtSearchLimit
      (alignHint st.kernelVirtHint size) with
  | none => (none, st)
  | some vaddr => (some vaddr, { st with kernelVirtHint := wrap64 (vaddr + size) })

/-- Track a region; a full table drops it. -/
def addRegion (region : MemoryRegion) (regions : List MemoryRegion) : List MemoryRegion :=
  if maxRegions ≤ regions.length then regions else regions ++ [region]

/-- The first tracked region that contains an address. -/
def findRegion (regions : List MemoryRegion) (addr : Nat) : Option MemoryRegion :=
  regions.find? fun region => region.start ≤ addr && addr < region.stop

/-- The regions that are registered at boot: code, data and heap. -/
def fixedRegions : List MemoryRegion :=
  [⟨kernelTextBase, kernelTextBase + kernelTextSize, 0, 0⟩,
    ⟨kernelDataBase, kernelDataBase + kernelDataSize, 0, vmapFlagWrite⟩,
    ⟨kernelHeapBase, kernelHeapMax, 0, 0⟩]

/-- Take over the kernel's tables and register the fixed regions. -/
def vmmInit (pml4 : Nat) (st : VmmState Alloc) : VmmState Alloc :=
  if st.initialized then st
  else
    { st with
      kernelPml4 := pml4
      regions := fixedRegions.foldl (fun regions region => addRegion region regions) st.regions
      initialized := true }

/-- Add to the counters of mapped pages and of kernel pages. -/
def VmmStats.mapped (stats : VmmStats) (count : Nat) : VmmStats :=
  { stats with
    mappedPages := wrap64 (stats.mappedPages + count)
    kernelPages := wrap64 (stats.kernelPages + count) }

/-- Take away from the counters of mapped pages and of kernel pages. -/
def VmmStats.unmapped (stats : VmmStats) (count : Nat) : VmmStats :=
  { stats with
    mappedPages := sub64 stats.mappedPages count
    kernelPages := sub64 stats.kernelPages count }

/-- Map a physical page at a free kernel address; the result is that address, or zero. -/
def vmmMapPhysical (ops : VmmFrames Alloc) (phys flags : Nat) (st : VmmState Alloc) :
    Option (Nat × VmmState Alloc) :=
  if !st.initialized then none
  else
    match findFreeVirtRange pageSize st with
    | (none, st) => some (0, st)
    | (some vaddr, st) =>
      match pageMapPage ops.source st.kernelPml4 vaddr phys (flags ||| vmapFlagWrite) true
          st.pages with
      | (.error _, pages) => some (0, { st with pages := pages })
      | (.ok (), pages) =>
        some (vaddr, { st with
          pages := pages
          regions := addRegion ⟨vaddr, wrap64 (vaddr + pageSize), phys, flags⟩ st.regions
          stats := st.stats.mapped 1 })

/-- Unmap a page of a tracked region; the region stays in the table. -/
def vmmUnmapPhysical (virt : Nat) (st : VmmState Alloc) :
    Option (Except VmmError Unit × VmmState Alloc) :=
  if !st.initialized then none
  else if (findRegion st.regions virt).isNone then some (.error .notMapped, st)
  else
    match pageUnmapPage st.kernelPml4 virt false st.pages with
    | (.error _, pages) => some (.error .invalid, { st with pages := pages })
    | (.ok (), pages) =>
      some (.ok (), { st with pages := pages, stats := st.stats.unmapped 1 })

/-- Unmap and free consecutive pages; the loop is that of `user_munmap`. -/
def vmmFreePages (ops : VmmFrames Alloc) (virt count : Nat) (st : VmmState Alloc) :
    Option (Except VmmError Unit × VmmState Alloc) :=
  if !st.initialized then none
  else if count = 0 then some (.error .invalid, st)
  else if virt &&& (pageSize - 1) ≠ 0 then some (.error .invalid, st)
  else do
    let pages ← userMunmapPages ops.free st.kernelPml4 virt 0 count st.pages
    some (.ok (), { st with pages := pages, stats := st.stats.unmapped count })

def vmapPageSize (flags : Nat) : Nat :=
  if flags &&& vmapFlagHuge1gb ≠ 0 then pageSize1gb
  else if flags &&& vmapFlagHuge2mb ≠ 0 then pageSize2mb
  else pageSize

/-- Get frames for a huge page: take twice as many frames as needed, or else only those that are
needed, and give back what lies around an aligned part. -/
def allocAligned (runs : RunOps Alloc) (size : Nat) :
    (retries : Nat) → Alloc → Option (Option Nat × Alloc)
  | 0, frames => some (none, frames)
  | retries + 1, frames => do
    let framesNeeded := size / pageSize
    let allocFrames := framesNeeded * 2
    let (twice, frames) ← runs.allocN frames allocFrames
    let (temp, frames) ←
      match twice with
      | some temp => some (some temp, frames)
      | none => runs.allocN frames framesNeeded
    match temp with
    | none => some (none, frames)
    | some temp =>
      let paddr := wrap64 (temp + size - 1) &&& not64 (size - 1)
      -- The number of frames is still the doubled one after the fallback.
      if wrap64 (paddr + size) ≤ wrap64 (temp + allocFrames * pageSize) then
        let unusedCount := sub64 paddr temp / pageSize
        let frames ← if 0 < unusedCount then runs.freeN frames temp unusedCount else some frames
        let unusedEndCount := sub64 (sub64 allocFrames unusedCount) framesNeeded
        let frames ←
          if 0 < unusedEndCount then runs.freeN frames (wrap64 (paddr + size)) unusedEndCount
          else some frames
        some (some paddr, frames)
      else
        let frames ← runs.freeN frames temp allocFrames
        allocAligned runs size retries frames

/-- Number of attempts to get an aligned run of frames. -/
def maxRetries : Nat := 10

def allocPageFrames (ops : VmmFrames Alloc) (size : Nat) (frames : Alloc) :
    Option (Option Nat × Alloc) :=
  if 1 < size / pageSize then allocAligned ops.toRunOps size maxRetries frames
  else some (ops.source.alloc frames)

/-- Allocate and map consecutive pages, from the given page on; the result is the page at which this
failed, if any. -/
def vmmAllocLoop (ops : VmmFrames Alloc) (pml4 vaddr size flags : Nat) :
    (page remaining : Nat) → PageState Alloc → Option (Option Nat × PageState Alloc)
  | _, 0, st => some (none, st)
  | page, remaining + 1, st => do
    let (granted, frames) ← allocPageFrames ops size st.frames
    match granted with
    | none => some (some page, { st with frames := frames })
    | some paddr =>
      match pageMapPage ops.source pml4 (wrap64 (vaddr + wrap64 (page * size))) paddr
          (flags ||| vmapFlagWrite) true { st with frames := frames } with
      | (.ok (), st) => vmmAllocLoop ops pml4 vaddr size flags (page + 1) remaining st
      | (.error _, st) =>
        let frames ←
          if 1 < size / pageSize then ops.freeN st.frames paddr (size / pageSize)
          else ops.free st.frames paddr
        some (some page, { st with frames := frames })

def VmmState.recordPages (st : VmmState Alloc) (vaddr count size flags : Nat)
    (pages : PageState Alloc) : VmmState Alloc :=
  let stats := st.stats.mapped count
  { st with
    pages := pages
    regions := addRegion ⟨vaddr, wrap64 (vaddr + wrap64 (count * size)), 0, flags⟩ st.regions
    stats := { stats with totalPages := wrap64 (stats.totalPages + count) } }

/-- Allocate pages at a free kernel address; the result is that address, or zero. -/
def vmmAllocPages (ops : VmmFrames Alloc) (count flags : Nat) (st : VmmState Alloc) :
    Option (Nat × VmmState Alloc) :=
  if !st.initialized then none
  else if count = 0 then some (0, st)
  else
    let size := vmapPageSize flags
    match findFreeVirtRange (wrap64 (count * size)) st with
    | (none, st) => some (0, st)
    | (some vaddr, st) => do
      let (failed, pages) ← vmmAllocLoop ops st.kernelPml4 vaddr size flags 0 count st.pages
      match failed with
      | some page =>
        let (_, st) ← vmmFreePages ops vaddr page { st with pages := pages }
        some (0, st)
      | none => some (vaddr, st.recordPages vaddr count size flags pages)

def vmmIsKernelAddr (addr : Nat) : Bool :=
  kernelVirtBase ≤ addr

def vmmAllocPagesAt (ops : VmmFrames Alloc) (vaddr count flags : Nat) (st : VmmState Alloc) :
    Option (Except VmmError Unit × VmmState Alloc) :=
  if !st.initialized then none
  else if count = 0 then some (.error .invalid, st)
  else
    let size := vmapPageSize flags
    if vaddr &&& (size - 1) ≠ 0 then some (.error .invalid, st)
    else if !vmmIsKernelAddr vaddr then some (.error .invalid, st)
    else do
      let (failed, pages) ← vmmAllocLoop ops st.kernelPml4 vaddr size flags 0 count st.pages
      match failed with
      | some page =>
        let (_, st) ← vmmFreePages ops vaddr page { st with pages := pages }
        some (.error .oom, st)
      | none =>
        let regionEnd := wrap64 (vaddr + wrap64 (count * size))
        let st := st.recordPages vaddr count size flags pages
        some (.ok (), { st with
          kernelVirtHint := if st.kernelVirtHint < regionEnd then regionEnd else st.kernelVirtHint })

def vmmGetStats (st : VmmState Alloc) : Option VmmStats :=
  if !st.initialized then none else some st.stats

section Pframe

/-- Allocate consecutive frames; a failed request leaves the allocator as it was. -/
def ReadyPframe.allocN (pframe : ReadyPframe) (frameCount : Nat) :
    Option (Option Nat × ReadyPframe) :=
  match done : pframeAllocN pframe.st frameCount with
  | none => none
  | some (.error _, _) => some (none, pframe)
  | some (.ok addr, st) =>
    some (some addr, ⟨st, by
      rcases pframeAllocN_cases pframe.ready frameCount with
        ⟨_, failed⟩ | ⟨_, _, granted, _, _, _, remarked⟩
      · cases failed.symm.trans done
      · cases granted.symm.trans done
        exact remarked.ready, by
      rcases pframeAllocN_cases pframe.ready frameCount with
        ⟨_, failed⟩ | ⟨_, _, granted, _, _, _, remarked⟩
      · cases failed.symm.trans done
      · cases granted.symm.trans done
        rw [remarked.marks]
        split
        · rfl
        · exact pframe.first⟩)

/-- Free consecutive frames; an allocator that would give up physical frame zero is left out. -/
def ReadyPframe.freeN (pframe : ReadyPframe) (addr frameCount : Nat) : Option ReadyPframe :=
  match done : pframeFreeN pframe.st addr frameCount with
  | none => none
  | some (_, st) =>
    if first : st.marked 0 = true then
      some ⟨st, pframeFreeN_ready pframe.ready done, first⟩
    else none

/-- The frame allocator of `mm/pframe` as the virtual memory manager calls it. -/
def pframeVmmFrames : VmmFrames ReadyPframe where
  toFrameOps := pframeOps
  allocN := ReadyPframe.allocN
  freeN := ReadyPframe.freeN

end Pframe

end Ccos
