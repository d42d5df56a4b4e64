import Ccos.Lib.ByteMem
import Ccos.Lib.Word
import Ccos.Mm.Pframe

/-! The kernel heap allocator of `mm/heap/heap.c`, over byte-addressed memory. The null pointer is
address zero, and a failed assertion yields nothing. -/

namespace Ccos

open Lib

def heapBlockMagic : Nat := 0x00114514

def heapAlign : Nat := 16

/-- Smallest remainder that a split turns into a block. -/
def heapMinBlock : Nat := 32

def heapInitPages : Nat := 16

/-- Bytes of a block header, `sizeof(heap_block_t)`. -/
def headerSize : Nat := 48

def kernelHeapBase : Nat := 0xFFFFFFFF81000000

def kernelHeapMax : Nat := kernelHeapBase + 128 * 1024 * 1024

/-- The fields of a block header that are read or written. -/
inductive HeaderField
  | size
  | used
  | prev
  | next
  | magic
  deriving DecidableEq, Repr

def HeaderField.offset : HeaderField → Nat
  | .size => 0
  | .used => 8
  | .prev => 16
  | .next => 24
  | .magic => 32

def HeaderField.width : HeaderField → Nat
  | .used => 1
  | .magic => 4
  | _ => 8

/-- The heap state and the memory it is in; the counters of the statistics are left out. -/
structure Heap where
  mem : ByteMem
  heapStart : Nat
  heapEnd : Nat
  heapBrk : Nat
  freeList : Nat
  initialized : Bool

/-- What `vmm_alloc_pages_at` does: it fails, or it maps fresh pages of the address space with any
content. -/
structure Vmm where
  allocPagesAt : (vaddr count : Nat) → ByteMem → Option ByteMem
  fresh : ∀ {vaddr count : Nat} {mem after : ByteMem}, allocPagesAt vaddr count mem = some after →
    vaddr + count * pageSize ≤ 2 ^ 64 ∧
      ∀ place, place < vaddr ∨ vaddr + count * pageSize ≤ place → after place = mem place

def alignSize (size : Nat) : Nat :=
  wrap64 (size + heapAlign - 1) &&& not64 (heapAlign - 1)

def totalBlockSize (userSize : Nat) : Nat :=
  wrap64 (alignSize userSize + headerSize)

/-- Pages that an expansion maps: enough for some bytes, and at least four. -/
def expandPages (minNeeded : Nat) : Nat :=
  let pageCount := wrap64 (minNeeded + pageSize - 1) / pageSize
  if pageCount < 4 then 4 else pageCount

/-- The alignment that an aligned allocation uses, at least that of the payloads. -/
def usedAlignment (alignment : Nat) : Nat :=
  if alignment < heapAlign then heapAlign else alignment

/-- Steps after which a walk along 64-bit links has met some address twice and never ends. -/
def walkLimit : Nat := 2 ^ 64

namespace Heap

variable (heap : Heap)

def get (block : Nat) (field : HeaderField) : Nat :=
  heap.mem.load (block + field.offset) field.width

def set (block : Nat) (field : HeaderField) (value : Nat) : Heap :=
  { heap with mem := heap.mem.store (block + field.offset) field.width value }

def isUsed (block : Nat) : Bool :=
  heap.get block .used ≠ 0

/-- The block of a user pointer: the one of a pointer stored before it, if that looks like an
aligned allocation around it, and otherwise the header directly before it. -/
def ptrToBlock (ptr : Nat) : Nat :=
  let orig := heap.mem.load (sub64 ptr 8) 8
  let direct := sub64 ptr headerSize
  if heap.heapStart ≤ orig ∧ orig < heap.heapBrk ∧ orig &&& 0xF = 0 then
    let potential := sub64 orig headerSize
    if heap.get potential .magic = heapBlockMagic then
      let blockEnd := sub64 (wrap64 (orig + heap.get potential .size)) headerSize
      if orig ≤ ptr ∧ ptr < blockEnd then potential else direct
    else direct
  else direct

def nextBlock (block : Nat) : Nat :=
  wrap64 (block + heap.get block .size)

def isLastBlock (block : Nat) : Bool :=
  heap.heapBrk ≤ heap.nextBlock block || heap.heapEnd ≤ heap.nextBlock block

/-- Whether an address looks like a block of the heap. -/
def validateBlock (block : Nat) : Bool :=
  if block = 0 then false
  else if heap.get block .magic ≠ heapBlockMagic then false
  else if block < heap.heapStart ∨ heap.heapEnd ≤ block then false
  else if block &&& (heapAlign - 1) ≠ 0 then false
  else if heap.get block .size < headerSize ∨
      heap.heapEnd < wrap64 (block + heap.get block .size) then false
  else true

/-- Let a node, or the head of the list for no node, lead to another node. -/
def linkNext (node next : Nat) : Heap :=
  if node ≠ 0 then heap.set node .next next else { heap with freeList := next }

/-- Let a node, if there is one, lead back to another node. -/
def linkPrev (node prev : Nat) : Heap :=
  if node ≠ 0 then heap.set node .prev prev else heap

/-- Join the neighbours of a node, and clear its own links. -/
def unlink (node prev next : Nat) : Heap :=
  (((heap.linkNext prev next).linkPrev next prev).set node .prev 0).set node .next 0

def link (node prev next : Nat) : Heap :=
  (((heap.set node .next next).linkPrev next node).set node .prev prev).linkNext prev node

def removeFromFreeList (block : Nat) : Option Heap :=
  if heap.isUsed block then none
  else some (heap.unlink block (heap.get block .prev) (heap.get block .next))

/-- Walk the free list up to an address: the last node before it and the first one behind. -/
def walkBefore (block : Nat) : (limit prev curr : Nat) → Option (Nat × Nat)
  | 0, _, _ => none
  | limit + 1, prev, curr =>
    if curr ≠ 0 ∧ curr < block then walkBefore block limit curr (heap.get curr .next)
    else some (prev, curr)

/-- Put a block on the free list, in the order of addresses. -/
def insertToFreeList (block : Nat) : Option Heap :=
  if heap.isUsed block ∨ heap.get block .prev ≠ 0 ∨ heap.get block .next ≠ 0 then none
  else do
    let (prev, curr) ← heap.walkBefore block walkLimit 0 heap.freeList
    some (heap.link block prev curr)

/-- Walk the free list for the smallest block that is large enough, up to an exact match. -/
def walkBestFit (size : Nat) : (limit best curr : Nat) → Option Nat
  | 0, _, _ => none
  | limit + 1, best, curr =>
    if curr = 0 then some best
    else if size ≤ heap.get curr .size ∧
        (best = 0 ∨ heap.get curr .size < heap.get best .size) then
      if heap.get curr .size = size then some curr
      else walkBestFit size limit curr (heap.get curr .next)
    else walkBestFit size limit best (heap.get curr .next)

/-- The free block that fits a size best, or null. -/
def findBestFit (size : Nat) : Option Nat :=
  heap.walkBestFit size walkLimit 0 heap.freeList

def initBlock (block size : Nat) : Heap :=
  ((((heap.set block .size size).set block .used 0).set block .magic heapBlockMagic).set block
    .prev 0).set block .next 0

/-- Shorten a block and write the header of a new free block behind it. -/
def cutBlock (block neededSize newBlock remaining : Nat) : Heap :=
  (heap.initBlock newBlock remaining).set block .size neededSize

/-- Cut what a block has beyond the needed size off as a free block, if that is large enough. -/
def splitBlock (block neededSize : Nat) : Option Heap :=
  let remaining := sub64 (heap.get block .size) neededSize
  if heapMinBlock ≤ remaining then
    let newBlock := wrap64 (block + neededSize)
    (heap.cutBlock block neededSize newBlock remaining).insertToFreeList newBlock
  else some heap

/-- Merge the block behind a free block into it, if that one is free. -/
def coalesceNext (block : Nat) : Option Heap :=
  if heap.isLastBlock block then some heap
  else
    let next := heap.nextBlock block
    if !heap.isUsed next && heap.validateBlock next then do
      let heap ← heap.removeFromFreeList next
      some (heap.set block .size (wrap64 (heap.get block .size + heap.get next .size)))
    else some heap

/-- Merge a free block into the one before it, if that one is free. -/
def coalescePrev (block : Nat) : Option Heap := do
  let (prevInFree, _) ← heap.walkBefore block walkLimit 0 heap.freeList
  if prevInFree ≠ 0 ∧ wrap64 (prevInFree + heap.get prevInFree .size) = block then
    (heap.set prevInFree .size
      (wrap64 (heap.get prevInFree .size + heap.get block .size))).removeFromFreeList block
  else some heap

def coalesceBlock (block : Nat) : Option Heap :=
  if heap.isUsed block then none
  else do
    let heap ← heap.coalesceNext block
    heap.coalescePrev block

/-- Write the header of a free block that takes up newly mapped memory, and clear the rest. -/
def newMemory (mem : ByteMem) (block size : Nat) : Heap :=
  let heap := initBlock { heap with mem := mem } block size
  let cleared := heap.mem.fill (block + headerSize) (sub64 (heap.get block .size) headerSize) 0
  { heap with mem := cleared }

/-- Map pages at the end of the heap and make a free block of them; the result tells success. -/
def expandHeapLocked (vmm : Vmm) (minNeeded : Nat) : Option (Bool × Heap) :=
  let pageCount := expandPages minNeeded
  let origVaddr := if heap.heapBrk = 0 then kernelHeapBase else heap.heapBrk
  let targetVaddr := wrap64 (origVaddr + pageSize - 1) &&& not64 (pageSize - 1)
  match vmm.allocPagesAt targetVaddr pageCount heap.mem with
  | none => some (false, heap)
  | some mem => do
    let heap := heap.newMemory mem targetVaddr (wrap64 (pageCount * pageSize))
    let heap ← heap.insertToFreeList targetVaddr
    let heap := { heap with heapBrk := wrap64 (targetVaddr + heap.get targetVaddr .size) }
    let heap ← heap.coalesceBlock targetVaddr
    some (true, heap)

/-- Set the heap up; the result tells success. -/
def init (vmm : Vmm) : Option (Bool × Heap) :=
  if heap.initialized then some (true, heap)
  else do
    let (done, heap) ← expandHeapLocked ⟨heap.mem, kernelHeapBase, kernelHeapMax, 0, 0, false⟩ vmm
      (heapInitPages * pageSize)
    if !done then some (false, heap)
    else some (true, { heap with heapStart := heap.freeList, initialized := true })

/-- The free block that an allocation takes, or null: the best fit, after an expansion when
nothing fits. -/
def chooseBlock (vmm : Vmm) (totalSize : Nat) : Option (Nat × Heap) := do
  let block ← heap.findBestFit totalSize
  if block ≠ 0 then some (block, heap)
  else
    let (done, heap) ← heap.expandHeapLocked vmm totalSize
    if !done then some (0, heap)
    else
      let block ← heap.findBestFit totalSize
      some (block, heap)

def kmalloc (vmm : Vmm) (size : Nat) : Option (Nat × Heap) :=
  if !heap.initialized then some (0, heap)
  else if size = 0 then some (0, heap)
  else do
    let totalSize := totalBlockSize size
    let (block, heap) ← heap.chooseBlock vmm totalSize
    if block = 0 then some (0, heap)
    else
      let heap ← heap.removeFromFreeList block
      let heap ← heap.splitBlock block totalSize
      some (block + headerSize, heap.set block .used 1)

/-- Free memory; an invalid pointer and a second free are ignored. -/
def kfree (ptr : Nat) : Option Heap :=
  if !heap.initialized then some heap
  else if ptr = 0 then some heap
  else
    let block := heap.ptrToBlock ptr
    if !heap.validateBlock block then some heap
    else if !heap.isUsed block then some heap
    else do
      let heap ← (heap.set block .used 0).insertToFreeList block
      heap.coalesceBlock block

/-- What `kfree` does before it lets go of the lock for the first time: the block is marked as free,
and goes on to the second part unless the call returns. -/
def kfreeMark (ptr : Nat) : Heap × Option Nat :=
  if !heap.initialized then (heap, none)
  else if ptr = 0 then (heap, none)
  else
    let block := heap.ptrToBlock ptr
    if !heap.validateBlock block then (heap, none)
    else if !heap.isUsed block then (heap, none)
    else (heap.set block .used 0, some block)

/-- What `kfree` does after it took the lock again. -/
def kfreeInsert (block : Nat) : Option Heap := do
  let heap ← heap.insertToFreeList block
  heap.coalesceBlock block

theorem kfree_eq_parts (ptr : Nat) : heap.kfree ptr =
    match heap.kfreeMark ptr with
    | (marked, none) => some marked
    | (marked, some block) => marked.kfreeInsert block := by
  simp only [kfree, kfreeMark]
  by_cases ready : heap.initialized = true
  swap
  · simp [ready]
  by_cases null : ptr = 0
  · simp [null]
  cases valid : heap.validateBlock (heap.ptrToBlock ptr) with
  | false => simp [ready, null]
  | true =>
    cases used : heap.isUsed (heap.ptrToBlock ptr) with
    | false => simp [ready, null]
    | true => simp [ready, null, kfreeInsert]

/-- Copy what an old and a new payload both have room for. -/
def copyPayload (newPtr ptr oldUserSize newSize : Nat) : Heap :=
  let copySize := if oldUserSize < newSize then oldUserSize else newSize
  { heap with mem := heap.mem.copy newPtr ptr copySize }

/-- Resize memory: in place if the block is large enough, and otherwise by a copy. -/
def krealloc (vmm : Vmm) (ptr newSize : Nat) : Option (Nat × Heap) :=
  if ptr = 0 then heap.kmalloc vmm newSize
  else if newSize = 0 then (heap.kfree ptr).map fun heap => (0, heap)
  else if !heap.initialized then some (0, heap)
  else
    let oldBlock := heap.ptrToBlock ptr
    if !heap.validateBlock oldBlock || !heap.isUsed oldBlock then some (0, heap)
    else
      let oldUserSize := sub64 (heap.get oldBlock .size) headerSize
      if totalBlockSize newSize ≤ heap.get oldBlock .size then some (ptr, heap)
      else do
        let (newPtr, heap) ← heap.kmalloc vmm newSize
        if newPtr = 0 then some (0, heap)
        else
          let heap ← (heap.copyPayload newPtr ptr oldUserSize newSize).kfree ptr
          some (newPtr, heap)

/-- Allocate memory at a multiple of a power of two, and note the raw pointer before it. -/
def kmallocAligned (vmm : Vmm) (size alignment : Nat) : Option (Nat × Heap) :=
  if !heap.initialized then some (0, heap)
  else if size = 0 then some (0, heap)
  else if alignment = 0 ∨ alignment &&& (alignment - 1) ≠ 0 then some (0, heap)
  else do
    let alignment := usedAlignment alignment
    let totalSize := wrap64 (totalBlockSize size + alignment + 8)
    let (rawPtr, heap) ← heap.kmalloc vmm totalSize
    if rawPtr = 0 then some (0, heap)
    else
      let alignedAddr := wrap64 (rawPtr + 8 + alignment - 1) &&& not64 (alignment - 1)
      some (alignedAddr, { heap with mem := heap.mem.store (sub64 alignedAddr 8) 8 rawPtr })

end Heap

end Ccos
