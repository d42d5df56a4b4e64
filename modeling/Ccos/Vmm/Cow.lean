import Ccos.Vmm.Page

/-! Copy-on-write tracking, marking and fault handling of `mm/vmm/cow.c`. -/

namespace Ccos

open Lib

/-- The entry bit that marks a copy-on-write page. -/
def cowFlagMask : Nat := 1 <<< 9

def cowMaxRefcount : Int := 0xFFFF

def cowHashSize : Nat := 256

inductive CowError
  | notInit
  | oom
  | invalid
  | notCow
  | maxRefcount
  deriving DecidableEq, Repr

/-- A tracked shared page, with the heap address of its record. -/
structure CowBlock where
  ptr : Nat
  origPhys : Nat
  refcount : Int
  deriving DecidableEq, Repr

structure CowRegion where
  start : Nat
  pageCount : Nat
  pml4 : Nat

structure CowStats where
  faultsHandled : Nat
  pagesAllocated : Nat
  pagesFreed : Nat
  currentBlocks : Nat
  writeFaults : Nat
  coalesced : Nat

/-- The tracking state; each bucket lists its blocks from the head of the chain. -/
structure CowState where
  pageMap : Fin cowHashSize → List CowBlock
  regions : List CowRegion
  stats : CowStats
  initialized : Bool

structure KernelHeap (Heap : Type*) where
  kmalloc : Nat → Heap → Option Nat × Heap
  kfree : Nat → Heap → Heap

structure CowWorld (Alloc Heap : Type*) where
  page : PageState Alloc
  cow : CowState
  heap : Heap

/-- Bucket of a block address, `hash_ptr` masked to the table size. -/
def cowBucket (ptr : Nat) : Fin cowHashSize :=
  ⟨((ptr >>> 3) ^^^ wrap64 (ptr <<< 61)) &&& (cowHashSize - 1),
    Nat.and_lt_two_pow _ (by decide : cowHashSize - 1 < 2 ^ 8)⟩

def cowIsCowPage (pteFlags : Nat) : Bool :=
  pteFlags &&& cowFlagMask ≠ 0

def cowSetCowFlag (pteFlags : Nat) : Nat :=
  pteFlags ||| cowFlagMask

def cowClearCowFlag (pteFlags : Nat) : Nat :=
  pteFlags &&& not64 cowFlagMask

/-- Drop the offset of an address inside its page. -/
def cowAlign (phys : Nat) : Nat :=
  phys &&& not64 (pageSize - 1)

/-- Every tracked block, in the order of `hashmap_foreach`. -/
def CowState.blocks (cow : CowState) : List CowBlock :=
  (List.finRange cowHashSize).flatMap cow.pageMap

def cowLookupBlock (cow : CowState) (phys : Nat) : Option CowBlock :=
  if !cow.initialized then none
  else cow.blocks.find? fun block => block.origPhys == cowAlign phys

def CowState.setBlock (cow : CowState) (block : CowBlock) : CowState :=
  { cow with
    pageMap := Function.update cow.pageMap (cowBucket block.ptr)
      ((cow.pageMap (cowBucket block.ptr)).map fun other =>
        if other.ptr = block.ptr then block else other) }

def CowState.removeBlock (cow : CowState) (block : CowBlock) : CowState :=
  { cow with
    pageMap := Function.update cow.pageMap (cowBucket block.ptr)
      ((cow.pageMap (cowBucket block.ptr)).eraseP fun other => other.ptr = block.ptr) }

def cowIncRefcount (cow : CowState) (phys : Nat) : Except CowError Unit × CowState :=
  if !cow.initialized then (.error .notInit, cow)
  else
    match cowLookupBlock cow (cowAlign phys) with
    | none => (.error .notCow, cow)
    | some block =>
      if cowMaxRefcount ≤ block.refcount then (.error .maxRefcount, cow)
      else (.ok (), cow.setBlock { block with refcount := block.refcount + 1 })

variable {Alloc Heap : Type*}

/-- Count one reference less, and stop tracking at zero. -/
def cowDecRefcount (kernel : KernelHeap Heap) (cow : CowState) (heap : Heap) (phys : Nat) :
    Except CowError Unit × CowState × Heap :=
  if !cow.initialized then (.error .notInit, cow, heap)
  else
    match cowLookupBlock cow (cowAlign phys) with
    | none => (.error .notCow, cow, heap)
    | some block =>
      if block.refcount - 1 = 0 then
        let removed := cow.removeBlock block
        (.ok (), { removed with stats := { removed.stats with
            pagesFreed := wrap64 (removed.stats.pagesFreed + 1)
            currentBlocks := wrap64 (removed.stats.currentBlocks + (2 ^ 64 - 1)) } },
          kernel.kfree block.ptr heap)
      else (.ok (), cow.setBlock { block with refcount := block.refcount - 1 }, heap)

/-- Track a page, or count one more reference to it. -/
def cowAddPage (kernel : KernelHeap Heap) (cow : CowState) (heap : Heap) (phys : Nat) :
    Except CowError Unit × CowState × Heap :=
  if !cow.initialized then (.error .notInit, cow, heap)
  else
    match cowLookupBlock cow (cowAlign phys) with
    | some _ =>
      let (result, cow) := cowIncRefcount cow (cowAlign phys)
      (result, cow, heap)
    | none =>
      match kernel.kmalloc 16 heap with
      | (none, heap) => (.error .oom, cow, heap)
      | (some ptr, heap) =>
        -- The hash entry is a second allocation, whose failure gives the block back.
        match kernel.kmalloc 24 heap with
        | (none, heap) => (.error .oom, cow, kernel.kfree ptr heap)
        | (some _, heap) =>
          (.ok (), { cow with
            pageMap := Function.update cow.pageMap (cowBucket ptr)
              (⟨ptr, cowAlign phys, 1⟩ :: cow.pageMap (cowBucket ptr))
            stats := { cow.stats with
              pagesAllocated := wrap64 (cow.stats.pagesAllocated + 1)
              currentBlocks := wrap64 (cow.stats.currentBlocks + 1) } }, heap)

/-- Take write permission from a page and set its copy-on-write bit. -/
def cowMarkPageReadonly (pml4 vaddr : Nat) (st : PageState Alloc) :
    Except CowError Unit × PageState Alloc :=
  match pageQuery pml4 vaddr st.mem with
  | .error _ => (.error .invalid, st)
  | .ok _ =>
    match presentWalk pml4 vaddr st.mem with
    | none => (.error .invalid, st)
    | some pte =>
      let cleared := st.write pte (st.mem pte &&& not64 pageWrite)
      (.ok (), cleared.write pte (cowSetCowFlag (cleared.mem pte)))

/-- Register the mapped pages of one region, from the given page on. -/
def cowRegisterPages (kernel : KernelHeap Heap) (pml4 base : Nat) :
    (page remaining : Nat) → CowWorld Alloc Heap → CowWorld Alloc Heap
  | _, 0, world => world
  | page, remaining + 1, world =>
    let vaddr := wrap64 (base + wrap64 (page * pageSize))
    match pageQuery pml4 vaddr world.page.mem with
    | .error _ => cowRegisterPages kernel pml4 base (page + 1) remaining world
    | .ok query =>
      -- The results of the three calls are ignored.
      let (_, added, heap) := cowAddPage kernel world.cow world.heap query.physAddr
      let (_, counted) := cowIncRefcount added query.physAddr
      let (_, marked) := cowMarkPageReadonly pml4 vaddr world.page
      cowRegisterPages kernel pml4 base (page + 1) remaining ⟨marked, counted, heap⟩

def cowRegisterRegion (kernel : KernelHeap Heap) (pml4 base size : Nat)
    (world : CowWorld Alloc Heap) : Except CowError Unit × CowWorld Alloc Heap :=
  if !world.cow.initialized then (.error .notInit, world)
  else if base &&& (pageSize - 1) ≠ 0 then (.error .invalid, world)
  else if size &&& (pageSize - 1) ≠ 0 then (.error .invalid, world)
  else
    let pageCount := size / pageSize
    let marked := cowRegisterPages kernel pml4 base 0 pageCount world
    match kernel.kmalloc 32 marked.heap with
    | (none, heap) => (.error .oom, { marked with heap := heap })
    | (some _, heap) =>
      (.ok (), { marked with
        cow := { marked.cow with regions := ⟨base, pageCount, pml4⟩ :: marked.cow.regions }
        heap := heap })

/-- Give write permission to a page that nobody shares. -/
def cowMakeWritable (source : FrameSource Alloc) (pml4 vaddr phys : Nat) (st : PageState Alloc) :
    Except CowError Unit × PageState Alloc :=
  match pageQuery pml4 vaddr st.mem with
  | .error _ => (.error .invalid, st)
  | .ok query =>
    let newFlags := cowClearCowFlag (query.flags ||| pageWrite)
    match pageMapPage source pml4 vaddr phys newFlags false st with
    | (.ok (), st) => (.ok (), st)
    | (.error _, st) => (.error .invalid, st)

def PageState.copyPage (st : PageState Alloc) (target origin : Nat) : PageState Alloc :=
  { st with
    mem := fun addr =>
      if target ≤ addr ∧ addr < target + pageSize then st.mem (origin + (addr - target))
      else st.mem addr
    stores := ⟨st.mem, target, pageSize⟩ :: st.stores }

/-- Flags of the private copy; they are entry bits, read by the mapping call as request flags. -/
def cowCopyFlags (query : Except PageError PageQueryResult) : Nat :=
  let flags := pagePresent ||| pageWrite ||| pageUser
  match query with
  | .error _ => flags
  | .ok query =>
    flags ||| (if query.flags &&& pageUser ≠ 0 then pageUser else 0) |||
      (if query.flags &&& pageNoExec ≠ 0 then pageNoExec else 0)

def cowCopyOnWrite (source : FrameSource Alloc) (kernel : KernelHeap Heap)
    (pml4 vaddr origPhys : Nat) (world : CowWorld Alloc Heap) :
    Except CowError Unit × CowWorld Alloc Heap :=
  match source.alloc world.page.frames with
  | (none, frames) => (.error .oom, { world with page := { world.page with frames := frames } })
  | (some newPhys, frames) =>
    let copied := PageState.copyPage { world.page with frames := frames } newPhys origPhys
    let (_, counted, heap) := cowDecRefcount kernel world.cow world.heap origPhys
    let flags := cowCopyFlags (pageQuery pml4 vaddr copied.mem)
    -- The result of the mapping call is ignored.
    let (_, mapped) := pageMapPage source pml4 vaddr newPhys flags false copied
    (.ok (), ⟨mapped, { counted with stats := { counted.stats with
      faultsHandled := wrap64 (counted.stats.faultsHandled + 1) } }, heap⟩)

def cowHandleFault (source : FrameSource Alloc) (kernel : KernelHeap Heap) (pml4 faultAddr : Nat)
    (world : CowWorld Alloc Heap) : Except CowError Unit × CowWorld Alloc Heap :=
  if !world.cow.initialized then (.error .notInit, world)
  else
    let faulted := { world with cow := { world.cow with stats := { world.cow.stats with
      writeFaults := wrap64 (world.cow.stats.writeFaults + 1) } } }
    match pageQuery pml4 faultAddr faulted.page.mem with
    | .error _ => (.error .notCow, faulted)
    | .ok query =>
      if query.flags &&& pageWrite ≠ 0 ∨ !cowIsCowPage query.flags then (.error .notCow, faulted)
      else
        match cowLookupBlock faulted.cow query.physAddr with
        | none => (.error .invalid, faulted)
        | some block =>
          if block.refcount = 1 then
            let (result, page) := cowMakeWritable source pml4 faultAddr query.physAddr faulted.page
            (result, { faulted with
              page := page
              cow := { faulted.cow with stats := { faulted.cow.stats with
                coalesced := wrap64 (faulted.cow.stats.coalesced + 1) } } })
          else cowCopyOnWrite source kernel pml4 faultAddr query.physAddr faulted

end Ccos
