import Ccos.User.Memory

/-! The growth of user memory: `user_mmap` and `user_brk` of `user/user.c`, `vmm_map_to_user` of
`mm/vmm/vmm.c` and the thread stacks of `process/thread.c`. -/

namespace Ccos

open Lib

def userStackSize : Nat := 1 * 1024 * 1024

/-- End of the area of the thread stacks. -/
def threadStackBase : Nat := userEnd - 64 * 1024 * 1024

def threadStackSize : Nat := 256 * 1024

/-- The frame allocator as these functions call it; a failed assertion of it yields nothing. -/
structure FrameOps (Alloc : Type) where
  source : FrameSource Alloc
  free : Alloc → Nat → Option Alloc

variable {Alloc : Type}

/-- Clear the entries of consecutive pages. -/
def pageUnmapRange (pml4 vaddr : Nat) : (page remaining : Nat) → PageState Alloc → PageState Alloc
  | _, 0, st => st
  | page, remaining + 1, st =>
    pageUnmapRange pml4 vaddr (page + 1) remaining
      (pageUnmapPage pml4 (wrap64 (vaddr + wrap64 (page * pageSize))) false st).2

/-- Map consecutive pages, from the given page on, and take all of them back on a failure. -/
def vmmMapToUserPages (ops : FrameOps Alloc) (pml4 vaddr paddr flags : Nat) :
    (page remaining : Nat) → PageState Alloc → Bool × PageState Alloc
  | _, 0, st => (true, st)
  | page, remaining + 1, st =>
    match pageMapPage ops.source pml4 (wrap64 (vaddr + wrap64 (page * pageSize)))
        (wrap64 (paddr + wrap64 (page * pageSize))) flags true st with
    | (.ok (), st) => vmmMapToUserPages ops pml4 vaddr paddr flags (page + 1) remaining st
    | (.error _, st) => (false, pageUnmapRange pml4 vaddr 0 page st)

def vmmMapToUser (ops : FrameOps Alloc) (pml4 vaddr paddr count flags : Nat)
    (st : PageState Alloc) : Bool × PageState Alloc :=
  if !vmmIsUserAddr vaddr then (false, st)
  else vmmMapToUserPages ops pml4 vaddr paddr (flags ||| vmapFlagUser) 0 count st

/-- How a growth of user memory differs from the others. -/
structure Growth (Alloc : Type) where
  flags : Nat
  /-- New pages are cleared. -/
  clears : Bool
  /-- What a missing frame does to the pages mapped so far. -/
  noFrame : (pages : Nat) → PageState Alloc → Option (PageState Alloc)
  /-- What a failed mapping does to the pages mapped so far. -/
  noMapping : (pages : Nat) → PageState Alloc → Option (PageState Alloc)

/-- Give consecutive pages a frame each, from the given page on; the result tells success. -/
def growPages (ops : FrameOps Alloc) (growth : Growth Alloc) (pml4 base : Nat) :
    (page remaining : Nat) → PageState Alloc → Option (Bool × PageState Alloc)
  | _, 0, st => some (true, st)
  | page, remaining + 1, st =>
    match ops.source.alloc st.frames with
    | (none, frames) => do
      let st ← growth.noFrame page { st with frames := frames }
      some (false, st)
    | (some paddr, frames) =>
      match vmmMapToUser ops pml4 (wrap64 (base + wrap64 (page * pageSize))) paddr 1 growth.flags
          { st with frames := frames } with
      | (true, st) =>
        growPages ops growth pml4 base (page + 1) remaining
          (if growth.clears then st.clearPage paddr else st)
      | (false, st) => do
        let frames ← ops.free st.frames paddr
        let st ← growth.noMapping page { st with frames := frames }
        some (false, st)

def userMmapFlags (prot : Nat) : Nat :=
  vmapFlagUser ||| (if prot &&& 0x02 ≠ 0 then vmapFlagWrite else 0) |||
    (if prot &&& 0x04 = 0 then vmapFlagNoExec else 0)

/-- Map fresh memory at an address or, for address zero, at the end of the heap. -/
def userMmap (ops : FrameOps Alloc) (pml4 brk addr length prot : Nat) (st : PageState Alloc) :
    Option (Nat × PageState Alloc) := do
  let pages := roundUpPages length / pageSize
  let addr :=
    if addr = 0 then
      let first := userBase + 16 * 1024 * 1024
      roundUpPages (if first < brk then brk else first)
    else addr
  let rollback := fun page st =>
    (userMunmap ops.free (some pml4) addr (wrap64 (page * pageSize)) st).map Prod.snd
  let (mapped, st) ← growPages ops ⟨userMmapFlags prot, true, rollback, rollback⟩ pml4 addr 0 pages st
  some (if mapped then addr else 0, st)

/-- Move the end of the heap; the result is the end that holds afterwards, which is stored unless
the call failed. -/
def userBrk (ops : FrameOps Alloc) (pml4 brk newBrk : Nat) (st : PageState Alloc) :
    Option ((Nat × Option Nat) × PageState Alloc) :=
  if newBrk = 0 then some ((brk, none), st)
  else
    let newBrk := roundUpPages newBrk
    if newBrk < userBase ∨ userEnd - userStackSize ≤ newBrk then some ((brk, none), st)
    else if newBrk ≤ brk then some ((newBrk, some newBrk), st)
    else do
      let oldBrk := if brk = 0 then userBase + 16 * 1024 * 1024 else brk
      -- The difference wraps for a first end below the start of the heap.
      let pages := wrap64 (newBrk + 2 ^ 64 - oldBrk) / pageSize
      let (mapped, st) ← growPages ops
        ⟨vmapFlagWrite ||| vmapFlagUser, true, fun _ st => some st,
          fun page st => userMunmapPages ops.free pml4 oldBrk 0 page st⟩ pml4 oldBrk 0 pages st
      some (if mapped then (newBrk, some newBrk) else (if brk ≠ 0 then brk else oldBrk, none), st)

/-- Map a thread stack below the previous one; the result is its top and the next top. -/
def threadAllocUserStack (ops : FrameOps Alloc) (pml4 nextThreadStack stackSize : Nat)
    (st : PageState Alloc) : Option ((Option Nat × Nat) × PageState Alloc) :=
  if stackSize = 0 then some ((none, nextThreadStack), st)
  else do
    let rounded := roundUpPages stackSize
    let stackSize := if threadStackSize < rounded then threadStackSize else rounded
    let stackBase := wrap64 (nextThreadStack + 2 ^ 64 - stackSize)
    if stackBase < threadStackBase - 64 * 1024 * 1024 then some ((none, nextThreadStack), st)
    else
      let rollback := fun page st => userMunmapPages ops.free pml4 stackBase 0 page st
      let (mapped, st) ← growPages ops
        ⟨vmapFlagWrite ||| vmapFlagUser, false, rollback, rollback⟩ pml4 stackBase 0
        (stackSize / pageSize) st
      some ((if mapped then some nextThreadStack else none, stackBase), st)

def threadFreeUserStack (ops : FrameOps Alloc) (pml4 : Nat) (isUserMode : Bool)
    (userStack stackSize : Nat) (st : PageState Alloc) : Option (PageState Alloc) :=
  if !isUserMode ∨ userStack = 0 then some st
  else
    let rounded := roundUpPages (if stackSize = 0 then threadStackSize else stackSize)
    userMunmapPages ops.free pml4 (wrap64 (userStack + 2 ^ 64 - rounded)) 0 (rounded / pageSize) st

end Ccos
