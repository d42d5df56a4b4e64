import Ccos.Vmm.Page

/-! User addresses, pointer validation and the unmapping of user memory in `user/user.c`. -/

namespace Ccos

open Lib

def userBase : Nat := 0x0000000000400000

def userEnd : Nat := 0x00007FFFFFFFFFFF

def vmmIsUserAddr (addr : Nat) : Bool :=
  userBase ≤ addr && addr < userEnd

/-- Whether a range that starts at a pointer lies in user space; the access kind is ignored. -/
def userValidatePointer (addr size : Nat) (_write : Bool) : Bool :=
  if !vmmIsUserAddr addr then false
  else if wrap64 (addr + size) < addr then false
  else if userEnd < wrap64 (addr + size) then false
  else if addr < userBase then false
  else true

/-- Round a length up to whole pages, in 64 bits. -/
def roundUpPages (length : Nat) : Nat :=
  wrap64 (length + pageSize - 1) &&& not64 (pageSize - 1)

theorem roundUpPages_eq (length : Nat) :
    roundUpPages length = wrap64 (length + pageSize - 1) / pageSize * pageSize :=
  land_not64_low (wrap64_lt _) (by decide : pageShift ≤ 64)

theorem roundUpPages_aligned (length : Nat) :
    roundUpPages length % pageSize = 0 ∧ roundUpPages length < 2 ^ 64 := by
  have bound := wrap64_lt (length + pageSize - 1)
  rw [roundUpPages_eq]
  simp only [pageSize, pageShift] at *
  omega

variable {Alloc : Type*}

/-- Unmap one page: free the frame that translation reports, then clear the entry. -/
def userMunmapPage (free : Alloc → Nat → Option Alloc) (pml4 vaddr : Nat) (st : PageState Alloc) :
    Option (PageState Alloc) := do
  let frames ←
    match pageVirtToPhys pml4 vaddr st.mem with
    | .ok paddr => free st.frames paddr
    | .error _ => some st.frames
  -- The result of the unmapping call is ignored.
  some (pageUnmapPage pml4 vaddr false { st with frames := frames }).2

/-- Unmap consecutive pages, from the given page of the range on. -/
def userMunmapPages (free : Alloc → Nat → Option Alloc) (pml4 addr : Nat) :
    (page remaining : Nat) → PageState Alloc → Option (PageState Alloc)
  | _, 0, st => some st
  | page, remaining + 1, st => do
    let st ← userMunmapPage free pml4 (wrap64 (addr + wrap64 (page * pageSize))) st
    userMunmapPages free pml4 addr (page + 1) remaining st

/-- What each step of the loop keeps up to the next page holds behind the last one. -/
theorem userMunmapPages_rule {free : Alloc → Nat → Option Alloc} {pml4 addr count : Nat}
    {inv : Nat → PageState Alloc → Prop}
    (step : ∀ page st, page < count → inv page st →
      ∃ after, userMunmapPage free pml4 (wrap64 (addr + wrap64 (page * pageSize))) st = some after ∧
        inv (page + 1) after)
    {st : PageState Alloc} (start : inv 0 st) :
    ∃ after, userMunmapPages free pml4 addr 0 count st = some after ∧ inv count after := by
  have loop (remaining : Nat) : ∀ page st, page + remaining = count → inv page st →
      ∃ after, userMunmapPages free pml4 addr page remaining st = some after ∧ inv count after := by
    induction remaining with
    | zero =>
      rintro page st rfl holds
      exact ⟨st, rfl, holds⟩
    | succ remaining ih =>
      intro page st rest holds
      obtain ⟨middle, one, next⟩ := step page st (by omega) holds
      rw [userMunmapPages, one]
      exact ih (page + 1) middle (by omega) next
  exact loop count 0 st (Nat.zero_add count) start

/-- Unmap a range of the process whose PML4 is given. -/
def userMunmap (free : Alloc → Nat → Option Alloc) (pcb : Option Nat) (addr length : Nat)
    (st : PageState Alloc) : Option (Int × PageState Alloc) :=
  match pcb with
  | none => some (-1, st)
  | some pml4 =>
    if addr &&& (pageSize - 1) ≠ 0 then some (-1, st)
    else if !vmmIsUserAddr addr then some (-1, st)
    else
      let length := roundUpPages length
      (userMunmapPages free pml4 addr 0 (length / pageSize) st).map fun st => (0, st)

/-- Free a frame and ignore the result, as the unmapping calls do. -/
def pframeRelease (frames : PframeState) (addr : Nat) : Option PframeState :=
  (pframeFree frames addr).map Prod.snd

end Ccos
