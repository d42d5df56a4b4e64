import Ccos.Process.ThreadStack
import Ccos.Syscall.Table
import Ccos.User.Brk

/-! The user library's `sbrk` over the entry of system calls and the kernel's `brk`, against the
contract in `unistd.h`. -/

namespace Ccos

open Lib
open Lib.Logged

variable {Alloc : Type}

/-- The number under which the library calls `brk`. -/
def libSysBrk : UInt64 := 20

/-- The entry of the `syscall` instruction: registers go into a frame for the dispatcher. -/
def syscallHandler (services : Services Alloc) (registers : SyscallFrame) :
    KernelCall Alloc UInt64 := do
  -- The segment selector is loaded through the low half word of the number's register.
  let rax := (registers.syscallNumber &&& ~~~0xFFFF) ||| 0x10
  let _ ← syscallDispatch services { registers with syscallNumber := rax } registers.arg5
  -- The saved number is popped over the result.
  return registers.syscallNumber

/-- A system call with one argument; the other registers keep what they hold. -/
def syscall1 (services : Services Alloc) (registers : SyscallFrame) (num arg1 : UInt64) :
    KernelCall Alloc UInt64 :=
  syscallHandler services { registers with syscallNumber := num, arg0 := arg1 }

/-- The library's `sbrk`: the increment is handed on as the argument, and the result is a pointer. -/
def sbrk (services : Services Alloc) (registers : SyscallFrame) (incr : Int) :
    KernelCall Alloc Nat := do
  let result ← syscall1 services registers libSysBrk (UInt64.ofNat (incr % 2 ^ 64).toNat)
  return result.toNat

/-- The kernel can move the end of the heap to an address: it is valid, nothing is in the way and
there are enough frames. -/
def BrkMoves (ops : FrameOps Alloc) (root brk target : Nat) (st : PageState Alloc) : Prop :=
  ∃ after, userBrk ops root brk target st =
    some ((roundUpPages target, some (roundUpPages target)), after)

/-- The contract of `sbrk`: the end of the heap moves by the increment and the old one is returned,
or it stays and the result is the pointer of all ones. -/
def SbrkContract (ops : FrameOps Alloc) (root brk : Nat) (incr : Int) (st : PageState Alloc)
    (result last : Nat) : Prop :=
  (BrkMoves ops root brk ((brk + incr) % 2 ^ 64).toNat st →
    result = brk ∧ last = roundUpPages ((brk + incr) % 2 ^ 64).toNat) ∧
  (¬BrkMoves ops root brk ((brk + incr) % 2 ^ 64).toNat st → result = 2 ^ 64 - 1 ∧ last = brk)

section Calls

variable {kernel : Kernel Alloc}

theorem selector_of_small {number : UInt64} (small : number.toNat < 2 ^ 16) :
    (number &&& ~~~0xFFFF) ||| 0x10 = 16 := by
  apply UInt64.toNat_inj.mp
  have mask : (~~~0xFFFF : UInt64).toNat = (2 ^ 48 - 1) * 2 ^ 16 := by decide
  -- No bit of a small number survives the mask.
  rw [UInt64.toNat_or, UInt64.toNat_and, mask, land_field, Nat.div_eq_of_lt small]
  decide

/-- No system call with a small number reaches its handler: the frame always asks for number 16,
which has none, and the caller gets its own number back. -/
theorem syscallHandler_yields (services : Services Alloc) (registers : SyscallFrame)
    (small : registers.syscallNumber.toNat < 2 ^ 16) :
    Yields (syscallHandler services registers) kernel fun result last =>
      result = registers.syscallNumber ∧ last.pcb = kernel.pcb := by
  unfold syscallHandler
  rw [selector_of_small small]
  apply Yields.bind
  unfold syscallDispatch
  apply Yields.bind
  apply Yields.change
  apply Yields.bind
  apply Yields.change
  apply Yields.bind
  apply Yields.change
  apply Yields.pure
  apply Yields.pure
  exact ⟨rfl, rfl⟩

/-- The library call never meets its contract: it returns the number of `brk`, which is neither the
old end of the heap nor the pointer of all ones. -/
theorem sbrk_breaks_contract (services : Services Alloc) (registers : SyscallFrame)
    {current : Nat} (incr : Int) (aligned : (kernel.pcb current).brk % pageSize = 0) :
    Yields (sbrk services registers incr) kernel fun result last =>
      ¬SbrkContract services.frames (kernel.pcb current).pml4Phys (kernel.pcb current).brk incr
        kernel.pages result (last.pcb current).brk := by
  apply Yields.bind
  apply (syscallHandler_yields services _ (show libSysBrk.toNat < 2 ^ 16 by decide)).mono
  rintro _ last ⟨rfl, _⟩
  apply Yields.pure
  intro contract
  have number : libSysBrk.toNat = 20 := rfl
  by_cases moves : BrkMoves services.frames (kernel.pcb current).pml4Phys (kernel.pcb current).brk
      (((kernel.pcb current).brk + incr) % 2 ^ 64).toNat kernel.pages
  · obtain ⟨returned, _⟩ := contract.1 moves
    rw [← returned, number] at aligned
    exact absurd aligned (by decide)
  · obtain ⟨returned, _⟩ := contract.2 moves
    rw [number] at returned
    exact absurd returned (by decide)

end Calls

/-- A process whose heap ends at an address. -/
def heapKernel (brk : Nat) : TaskKernel (Watched ReadyPframe) :=
  (stackKernel 0).updatePcb 0x2000 fun pcb => { pcb with brk := brk }

def clearRegisters : SyscallFrame := ⟨0, 0, 0, 0, 0, 0, 0⟩

/-- The kernel could move the end of the heap by a page, and the call returns 20 and leaves it. -/
theorem sbrk_returns_number :
    BrkMoves (tableFrames (watchedOps pframeLawfulOps).toFrameOps) 0x100000 0x1401000 0x1402000
        (heapKernel 0x1401000).pages ∧
      Yields (sbrk (taskServices (watchedOps pframeLawfulOps).toFrameOps 0x5000 ⟨none, true, none⟩)
        clearRegisters 4096) (heapKernel 0x1401000) fun result last =>
          result = 20 ∧ (last.pcb 0x2000).brk = 0x1401000 := by
  have moves : (userBrk (tableFrames (watchedOps pframeLawfulOps).toFrameOps) 0x100000 0x1401000
      0x1402000 (heapKernel 0x1401000).pages).map Prod.fst = some (0x1402000, some 0x1402000) := by
    decide +kernel
  have stays : (sbrk (taskServices (watchedOps pframeLawfulOps).toFrameOps 0x5000
      ⟨none, true, none⟩) clearRegisters 4096 (heapKernel 0x1401000)).2.2 = some 20 ∧
      ((sbrk (taskServices (watchedOps pframeLawfulOps).toFrameOps 0x5000 ⟨none, true, none⟩)
        clearRegisters 4096 (heapKernel 0x1401000)).2.1.pcb 0x2000).brk = 0x1401000 := by
    decide +kernel
  obtain ⟨⟨_, after⟩, moved, rfl⟩ := Option.map_eq_some_iff.mp moves
  exact ⟨⟨after, moved⟩, 20, stays.1, rfl, stays.2⟩

/-- The contract is broken for that process also by an increment of zero. -/
theorem sbrk_breaks_contract_zero :
    Yields (sbrk (taskServices (watchedOps pframeLawfulOps).toFrameOps 0x5000 ⟨none, true, none⟩)
        clearRegisters 0) (heapKernel 0x1401000) fun result last =>
      ¬SbrkContract (tableFrames (watchedOps pframeLawfulOps).toFrameOps) 0x100000 0x1401000 0
        (heapKernel 0x1401000).pages result (last.pcb 0x2000).brk := by
  have brk : ((heapKernel 0x1401000).pcb 0x2000).brk = 0x1401000 := by
    simp [heapKernel, Kernel.updatePcb]
  have root : ((heapKernel 0x1401000).pcb 0x2000).pml4Phys = 0x100000 := by
    simp [heapKernel, Kernel.updatePcb, stackKernel]
  have broken := @sbrk_breaks_contract _ (heapKernel 0x1401000)
    (taskServices (watchedOps pframeLawfulOps).toFrameOps 0x5000 ⟨none, true, none⟩) clearRegisters
    0x2000 0 (by rw [brk]; decide)
  rw [brk, root] at broken
  exact broken

end Ccos
