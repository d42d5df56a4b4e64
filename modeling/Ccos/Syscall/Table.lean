import Ccos.Process.Process

/-! The dispatcher of `syscall/syscall.c` and the handlers of `syscall/syscall_table.c`. -/

namespace Ccos

open Lib

structure SyscallFrame where
  syscallNumber : UInt64
  arg0 : UInt64
  arg1 : UInt64
  arg2 : UInt64
  arg3 : UInt64
  arg4 : UInt64
  arg5 : UInt64

section Results

def sysOk : Int := 0

def sysErrInval : Int := -1

def sysErrNomem : Int := -3

def sysErrNfile : Int := -4

def sysErrNoent : Int := -5

def sysErrIo : Int := -6

def sysErrNotimpl : Int := -7

end Results

/-- A register read as a signed 32-bit integer. -/
def toInt32 (word : UInt64) : Int := Int.bmod word.toNat (2 ^ 32)

/-- A 64-bit value read as a signed integer. -/
def toInt64 (value : Nat) : Int := Int.bmod value (2 ^ 64)

/-- One field of `struct utsname`, filled up with zeros. -/
def utsField (text : String) : List UInt8 :=
  let bytes := text.toUTF8.toList
  bytes ++ List.replicate (65 - bytes.length) 0

/-- The kernel's answer to `uname`. -/
def kernelInfo : List UInt8 :=
  ["CCOS", "localhost", "0.1.0", "CCOS x86_64 v0.1.0", "x86_64", "(none current)"].flatMap utsField

def utsnameSize : Nat := 6 * 65

variable {Alloc : Type}

/-- Copy bytes to the address that the caller gave. -/
def userCopyToUser (dst : Nat) (src : List UInt8) (count : Nat) : KernelCall Alloc Int :=
  if count = 0 then return 0
  else if !userValidatePointer dst count true then return -1
  else do
    Logged.record ⟨dst, src.take count⟩
    return count

variable (services : Services Alloc) (frame : SyscallFrame)

/-- A system call handler reads its registers and yields the result. -/
abbrev Handler (Alloc : Type) := SyscallFrame → KernelCall Alloc Int

/-- Handler of `fork`, which ignores the frame. -/
def sysFork : KernelCall Alloc Int := procFork services

def sysExit : KernelCall Alloc Int := procExit services (toInt32 frame.arg0)

/-- Handler of `wait4`, which passes the status pointer on as it is. -/
def sysWait4 : KernelCall Alloc Int :=
  procWait4 services (toInt32 frame.arg0) frame.arg1.toNat (toInt32 frame.arg2)

def sysGetpid : KernelCall Alloc Int := do
  let kernel ← Logged.read
  match kernel.current with
  | some current => return (kernel.pcb current).pid
  | none => return -1

def sysGetppid : KernelCall Alloc Int := do
  let kernel ← Logged.read
  match kernel.current.bind fun current => (kernel.pcb current).parent with
  | some parent => return (kernel.pcb parent).pid
  | none => return 0

/-- Handler of `write`: only the two output descriptors exist, and the text goes to the log. -/
def sysWrite : KernelCall Alloc Int :=
  if toInt32 frame.arg0 = 1 ∨ toInt32 frame.arg0 = 2 then return toInt64 frame.arg2.toNat
  else return sysErrNfile

/-- Handler of `read`: the input is always at its end. -/
def sysRead : KernelCall Alloc Int :=
  if toInt32 frame.arg0 = 0 then return 0 else return sysErrNfile

/-- Handler of `open`: there is no file system. -/
def sysOpen : KernelCall Alloc Int := return sysErrNoent

def sysClose : KernelCall Alloc Int := return sysOk

def sysLseek : KernelCall Alloc Int :=
  let fd := toInt32 frame.arg0
  if fd = 0 ∨ fd = 1 ∨ fd = 2 then return sysErrInval else return sysErrNfile

def sysIoctl : KernelCall Alloc Int := return sysErrNotimpl

def sysBrk : KernelCall Alloc Int := do
  let some current ← procCurrent | return sysErrInval
  let kernel ← Logged.read
  let pcb := kernel.pcb current
  if frame.arg0 = 0 then return toInt64 pcb.brk
  let (result, stored) ← onPages
    (userBrk services.frames pcb.pml4Phys pcb.brk frame.arg0.toNat)
  Logged.change fun kernel => match stored with
    | some brk => kernel.updatePcb current fun pcb => { pcb with brk := brk }
    | none => kernel
  return toInt64 result

/-- Handler of `mmap`, for anonymous mappings only. -/
def sysMmap : KernelCall Alloc Int := do
  let some current ← procCurrent | return sysErrInval
  if frame.arg3.toNat &&& 0x20 = 0 then return sysErrNotimpl
  let kernel ← Logged.read
  let pcb := kernel.pcb current
  let addr ← onPages (userMmap services.frames pcb.pml4Phys pcb.brk frame.arg0.toNat
    frame.arg1.toNat frame.arg2.toNat)
  return toInt64 addr

def sysMunmap : KernelCall Alloc Int := do
  let some current ← procCurrent | return sysErrInval
  let kernel ← Logged.read
  onPages (userMunmap services.frames.free (some (kernel.pcb current).pml4Phys) frame.arg0.toNat
    frame.arg1.toNat)

def sysUname : KernelCall Alloc Int := do
  let current ← procCurrent
  if current.isNone ∨ !userValidatePointer frame.arg0.toNat utsnameSize true then
    return sysErrInval
  let result ← userCopyToUser frame.arg0.toNat kernelInfo utsnameSize
  if result < 0 then return sysErrIo
  return sysOk

def sysThreadCreate : KernelCall Alloc Int := do
  let some current ← procCurrent | return sysErrInval
  if frame.arg0 = 0 then return sysErrInval
  let tid ← procCreateUserThread services current frame.arg0.toNat frame.arg1.toNat
    frame.arg2.toNat frame.arg3.toNat
  if tid < 0 then return sysErrNomem
  return tid

def sysThreadExit : KernelCall Alloc Int := procThreadExit services frame.arg0.toNat

/-- Handler of `thread_join`, which validates the result pointer. -/
def sysThreadJoin : KernelCall Alloc Int := do
  let current ← procCurrent
  if current.isNone then return sysErrInval
  let retval := frame.arg1.toNat
  if retval ≠ 0 ∧ !userValidatePointer retval 8 true then return sysErrInval
  let result ← procThreadJoin services (toInt32 frame.arg0) retval
  if result < 0 then return sysErrInval
  return sysOk

def sysThreadDetach : KernelCall Alloc Int := do
  let current ← procCurrent
  if current.isNone then return sysErrInval
  let result ← procThreadDetach services (toInt32 frame.arg0)
  if result < 0 then return sysErrInval
  return sysOk

/-- Handler of `debug_log`; the text goes to the log. -/
def syscallDebugLog : KernelCall Alloc Int := return sysOk

def syscallTest : KernelCall Alloc Int := return toInt64 frame.arg0.toNat

/-- The answer to a number without a handler. -/
def syscallNotImpl : KernelCall Alloc Int := do
  Logged.change fun kernel => { kernel with stats := { kernel.stats with
    notImplCount := kernel.stats.notImplCount + 1
    errors := kernel.stats.errors + 1 } }
  return sysErrNotimpl

def sysMax : Nat := 256

def syscallTable : Nat → Option (Handler Alloc)
  | 0 => some (sysExit services)
  | 2 => some fun _ => sysFork services
  | 3 => some (sysWait4 services)
  | 4 => some fun _ => sysGetpid
  | 5 => some fun _ => sysGetppid
  | 6 => some (sysThreadCreate services)
  | 7 => some (sysThreadExit services)
  | 8 => some (sysThreadJoin services)
  | 9 => some (sysThreadDetach services)
  | 10 => some fun _ => sysOpen
  | 11 => some fun _ => sysClose
  | 12 => some sysRead
  | 13 => some sysWrite
  | 14 => some sysLseek
  | 15 => some fun _ => sysIoctl
  | 20 => some (sysBrk services)
  | 21 => some (sysMmap services)
  | 22 => some (sysMunmap services)
  | 30 => some sysUname
  | 100 => some fun _ => syscallDebugLog
  | 101 => some syscallTest
  | _ => none

def syscallDispatch (arg5 : UInt64) : KernelCall Alloc Int := do
  Logged.change fun kernel => { kernel with stats := { kernel.stats with
    totalCalls := kernel.stats.totalCalls + 1 } }
  let number := frame.syscallNumber.toNat
  if sysMax ≤ number then
    Logged.change fun kernel => { kernel with stats := { kernel.stats with
      errors := kernel.stats.errors + 1 } }
    return sysErrInval
  Logged.change fun kernel => { kernel with stats := { kernel.stats with
    syscallCalls := Function.update kernel.stats.syscallCalls number
      (kernel.stats.syscallCalls number + 1) } }
  match syscallTable services number with
  | some handler => handler { frame with arg5 := arg5 }
  | none => syscallNotImpl

end Ccos
