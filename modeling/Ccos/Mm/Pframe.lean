import Ccos.Bitmap

/-! The physical frame allocator of `mm/pframe/pframe.c`, from the memory map to each request. -/

namespace Ccos

open Lib

def pageShift : Nat := 12

def pageSize : Nat := 2 ^ pageShift

/-- Round up to a multiple of a power of two, in wrapping arithmetic. -/
def alignUp (value alignment : Nat) : Nat :=
  wrap64 (value + (2 ^ alignment - 1)) &&& not64 (2 ^ alignment - 1)

def alignDown (value alignment : Nat) : Nat :=
  value &&& not64 (2 ^ alignment - 1)

def bytesToPages (bytes : Nat) : Nat :=
  wrap64 (bytes + pageSize - 1) >>> pageShift

/-- One entry of the firmware memory map, with every field inside its declared width. -/
structure E820Entry where
  base : Nat
  length : Nat
  type : Nat
  base_lt : base < 2 ^ 64
  length_lt : length < 2 ^ 64

def e820TypeUsable : Nat := 1

theorem zero_lt_word : 0 < 2 ^ 64 := by decide

/-- Sum of the usable lengths, as `e820_get_stats` accumulates it. -/
def e820UsableBytes (entries : List E820Entry) : Nat :=
  entries.foldl
    (fun bytes entry =>
      if entry.type = e820TypeUsable then wrap64 (bytes + entry.length) else bytes) 0

inductive PframeError
  | notInit
  | oom
  | invalid
  | align
  deriving DecidableEq, Repr

structure PframeState where
  frameMap : Bitmap
  totalFrames : Nat
  managedBase : Nat
  managedEnd : Nat
  lastAllocHint : Nat
  initialized : Bool

def pframeMaxBitmapSize : Nat := 2 * 1024 * 1024

/-- Lowest address handed out by preference. -/
def pframeMinAllocBase : Nat := 0x100000

def pframeBiosEnd : Nat := 0x100000

def pframeE820StorageAddr : Nat := 0x6000

def pframePageTableStart : Nat := 0x9000

def pframePageTableEnd : Nat := 0xBFFF

def pframeKernelLoadAddr : Nat := 0x10000

def pframeKernelMaxSize : Nat := 1 * 1024 * 1024

def addrToFrame (addr : Nat) : Nat :=
  addr >>> pageShift

def frameToAddr (frame : Nat) : Nat :=
  wrap64 (frame <<< pageShift)

/-- Whether an address is the first byte of a page. -/
def isPageAligned (addr : Nat) : Bool :=
  addr &&& (pageSize - 1) = 0

/-- Apply a bitmap range operation to the whole frames inside a region, clamped to the map. -/
def markRegion (operation : Bitmap → Nat → Nat → Option Bitmap) (st : PframeState)
    (base length : Nat) : Option PframeState :=
  if length = 0 then some st
  else
    let startFrame := addrToFrame (alignUp base pageShift)
    let endFrame := addrToFrame (alignDown (wrap64 (base + length)) pageShift)
    if startFrame < st.totalFrames then
      let clamped := min endFrame st.totalFrames
      -- The count wraps when the region holds no whole frame.
      let frameCount := wrap64 (clamped + 2 ^ 64 - startFrame)
      (operation st.frameMap startFrame frameCount).map fun bm => { st with frameMap := bm }
    else some st

def markRegionReserved : PframeState → Nat → Nat → Option PframeState :=
  markRegion bitmapSetRange

def markRegionFree : PframeState → Nat → Nat → Option PframeState :=
  markRegion bitmapClearRange

def maxUsableAddr (entries : List E820Entry) : Nat :=
  entries.foldl
    (fun maxAddr entry =>
      let entryEnd := wrap64 (entry.base + entry.length)
      if entry.type = e820TypeUsable ∧ maxAddr < entryEnd then entryEnd else maxAddr) 0

/-- The places that the boot configuration gives to the reserved areas. -/
structure PframeLayout where
  e820StorageAddr : Nat
  pageTableStart : Nat
  pageTableEnd : Nat
  kernelLoadAddr : Nat
  kernelMaxSize : Nat
  bitmapStorage : Nat

/-- Base and length of the reserved areas, in the order in which they are marked. -/
def PframeLayout.areas (layout : PframeLayout) : List (Nat × Nat) :=
  [(0, pframeBiosEnd),
    (layout.e820StorageAddr, pageSize),
    (layout.pageTableStart, wrap64 (sub64 layout.pageTableEnd layout.pageTableStart + 1)),
    (layout.kernelLoadAddr, layout.kernelMaxSize),
    (layout.bitmapStorage, pframeMaxBitmapSize)]

/-- The configuration of the source, with the bitmap bytes at some address. -/
def bootLayout (storage : Nat) : PframeLayout :=
  ⟨pframeE820StorageAddr, pframePageTableStart, pframePageTableEnd, pframeKernelLoadAddr,
    pframeKernelMaxSize, storage⟩

/-- Number of frames up to the highest usable address. -/
def managedFrames (entries : List E820Entry) : Nat :=
  bytesToPages (alignDown (maxUsableAddr entries) pageShift)

/-- `pframe_init` for any configuration of the reserved areas. -/
def pframeInitAt (layout : PframeLayout) (entries : List E820Entry) (st : PframeState) :
    Option (Except PframeError Unit × PframeState) :=
  if st.initialized then some (.ok (), st)
  else if e820UsableBytes entries = 0 then some (.error .invalid, st)
  else
    let sized := { st with
      totalFrames := managedFrames entries
      managedBase := pframeMinAllocBase
      managedEnd := alignDown (maxUsableAddr entries) pageShift
      lastAllocHint := addrToFrame pframeMinAllocBase
      initialized := false }
    if wrap64 (sized.totalFrames + 7) / 8 > pframeMaxBitmapSize then some (.error .invalid, sized)
    else do
      let cleared := { sized with
        frameMap := bitmapInit sized.frameMap.bits sized.totalFrames }
      let full ← bitmapSetRange cleared.frameMap 0 cleared.totalFrames
      -- Usable regions are freed first, so that the fixed reservations below win.
      let usable ← entries.foldlM
        (fun st entry =>
          if entry.type = e820TypeUsable then markRegionFree st entry.base entry.length
          else some st)
        { cleared with frameMap := full }
      let reserved ← layout.areas.foldlM
        (fun st area => markRegionReserved st area.1 area.2) usable
      some (.ok (), { reserved with initialized := true })

/-- Build the frame map from the memory map; `storage` is the address of the bitmap bytes. -/
def pframeInit (entries : List E820Entry) (storage : Nat) (st : PframeState) :
    Option (Except PframeError Unit × PframeState) :=
  pframeInitAt (bootLayout storage) entries st

/-- The next allocation hint after handing out frames up to an index. -/
def nextHint (st : PframeState) (next : Nat) : Nat :=
  if st.totalFrames ≤ next then addrToFrame pframeMinAllocBase else next

def pframeAlloc (st : PframeState) : Option (Except PframeError Nat × PframeState) :=
  if !st.initialized then some (.error .notInit, st)
  else do
    let fromHint ← bitmapFindNextZero st.frameMap st.lastAllocHint
    let frameIdx ←
      match fromHint with
      | some frame => some (some frame)
      | none => bitmapFindFirstZero st.frameMap
    match frameIdx with
    | none => some (.error .oom, st)
    | some frame =>
      let bm ← bitmapSet st.frameMap frame
      some (.ok (frameToAddr frame),
        { st with frameMap := bm, lastAllocHint := nextHint st (wrap64 (frame + 1)) })

/-- Search upwards for a run of unmarked frames; the result is the start of a long enough run. -/
def findRun (bm : Bitmap) (frameCount : Nat) :
    (runStart runLength i remaining : Nat) → Option (Option Nat)
  | _, _, _, 0 => some none
  | runStart, runLength, i, remaining + 1 => do
    let allocated ← bitmapTest bm i
    if !allocated then
      -- The run starts here when the previous frame was allocated.
      let start := if runLength = 0 then i else runStart
      if frameCount ≤ runLength + 1 then some (some start)
      else findRun bm frameCount start (runLength + 1) (i + 1) remaining
    else findRun bm frameCount runStart 0 (i + 1) remaining

/-- Allocate consecutive frames and return the address of the first. -/
def pframeAllocN (st : PframeState) (frameCount : Nat) :
    Option (Except PframeError Nat × PframeState) :=
  if !st.initialized then some (.error .notInit, st)
  else if frameCount = 0 then some (.error .invalid, st)
  else if st.totalFrames < frameCount then some (.error .oom, st)
  else do
    let startFrame := st.lastAllocHint
    let fromHint ← findRun st.frameMap frameCount 0 0 startFrame (st.totalFrames - startFrame)
    let found ←
      match fromHint with
      | some start => some (some start)
      | none =>
        -- The second pass restarts the run and stops at the hint.
        let first := addrToFrame pframeMinAllocBase
        findRun st.frameMap frameCount 0 0 first (min startFrame st.totalFrames - first)
    match found with
    | none => some (.error .oom, st)
    | some runStart =>
      let bm ← bitmapSetRange st.frameMap runStart frameCount
      some (.ok (frameToAddr runStart),
        { st with frameMap := bm, lastAllocHint := nextHint st (wrap64 (runStart + frameCount)) })

def pframeFree (st : PframeState) (addr : Nat) :
    Option (Except PframeError Unit × PframeState) :=
  if !st.initialized then some (.error .notInit, st)
  else if !isPageAligned addr then some (.error .invalid, st)
  else
    let frame := addrToFrame addr
    if st.totalFrames ≤ frame then some (.error .invalid, st)
    else do
      let allocated ← bitmapTest st.frameMap frame
      if !allocated then some (.error .invalid, st)
      else
        let bm ← bitmapClear st.frameMap frame
        some (.ok (), { st with frameMap := bm })

/-- Free consecutive frames, without looking at their bits. -/
def pframeFreeN (st : PframeState) (addr frameCount : Nat) :
    Option (Except PframeError Unit × PframeState) :=
  if !st.initialized then some (.error .notInit, st)
  else if frameCount = 0 then some (.error .invalid, st)
  else if !isPageAligned addr then some (.error .invalid, st)
  else
    let startFrame := addrToFrame addr
    if st.totalFrames ≤ startFrame then some (.error .invalid, st)
    else if st.totalFrames < wrap64 (startFrame + frameCount) then some (.error .invalid, st)
    else do
      let bm ← bitmapClearRange st.frameMap startFrame frameCount
      some (.ok (), { st with frameMap := bm })

end Ccos
