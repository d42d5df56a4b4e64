import Ccos.Fs.VfsInode
import Ccos.Lib.Buffer
import Mathlib.Data.Nat.Bitwise

/-! The state that the file system code works on: heap blocks, block devices (`fs/block/block.c`)
and the inode cache (`fs/vfs`). -/

namespace Ccos

open Lib

/-- What the code must never run into. -/
inductive FsFault
  | divideByZero
  | overrun
  | endless
  deriving DecidableEq, Repr

/-- A disk: its bytes, and the requests for sectors that end in an I/O error. -/
structure BlockDevice where
  image : ByteMem
  fails : Nat → Nat → Bool

/-- What the code does not decide itself: which requests for memory the heap grants, by their number
and size, what new memory holds, and the devices that are registered. -/
structure FsEnv where
  grants : Nat → Nat → Bool
  stale : ByteMem
  devices : Fin 4 → Option BlockDevice

/-- A heap block is taken or given back; blocks are named by the number of their request. -/
inductive HeapEvent
  | alloc (block : Nat)
  | free (block : Nat)
  deriving DecidableEq, Repr

structure HeapBuffer extends Buffer where
  block : Nat

section Ext2Objects

/-- The superblock as it lies on disk, `ext2_superblock_t`. -/
structure Ext2Superblock where
  bytes : ByteMem

namespace Ext2Superblock

variable (sb : Ext2Superblock)

/-- The number of inodes, `s_inodes_count`. -/
def inodesCount : Nat := sb.bytes.load 0 4

/-- The number of inodes in a block group, `s_inodes_per_group`. -/
def inodesPerGroup : Nat := sb.bytes.load 40 4

end Ext2Superblock

/-- `ext2_fs_info_t`: what the driver keeps about a mounted file system. -/
structure Ext2FsInfo where
  sb : Ext2Superblock
  bgDesc : HeapBuffer
  ngroups : Nat
  blockSize : Nat
  inodeSize : Nat
  device : Fin 4

/-- `ext2_inode_info_t`: what the driver keeps about an inode. -/
structure Ext2InodeInfo where
  block : Nat
  data : Fin 15 → UInt32
  flags : Nat
  fileAcl : Nat
  dirAcl : Nat
  dtime : Nat

/-- The block pointers of an inode are numbered from zero. -/
instance fifteen_neZero : NeZero 15 := ⟨by decide⟩

end Ext2Objects

/-- The fields of `vfs_inode_t` beside those that the inode cache keeps, and its number. The size is
filled from a 32-bit field by the only file system there is. -/
structure VfsInode where
  block : Nat
  ino : Nat
  nlink : Nat
  mode : Nat
  size : UInt32
  blocks : Nat
  info : Option Ext2InodeInfo

/-- `vfs_superblock_t`; its operations are those of the driver or none. -/
structure VfsSuperblock where
  block : Nat
  fsInfo : Option Ext2FsInfo
  hasOps : Bool

/-- The heap with all that was taken and given back, and the inode cache with the inodes in it. -/
structure FsWorld where
  requests : Nat
  log : List HeapEvent
  cache : InodeCache
  inodes : Nat → VfsInode

/-- Code that works on the state and may run into a fault. -/
abbrev FsM (Result : Type) := StateT FsWorld (Except FsFault) Result

namespace FsM

variable {Result Next : Type} {first : FsM Result} {second : Result → FsM Next}
  {world after : FsWorld} {result : Result}

theorem bind_ok (done : first world = .ok (result, after)) :
    (first >>= second) world = second result after := by
  simp only [bind, StateT.bind, done, Except.bind]

end FsM

def fault {Result : Type} (kind : FsFault) : FsM Result := fun _ => .error kind

/-- An access to a buffer, which must stay inside it. -/
def checked {Result : Type} (access : Option Result) : FsM Result :=
  match access with
  | some result => pure result
  | none => fault .overrun

def divide (number divisor : Nat) : FsM Nat :=
  if divisor = 0 then fault .divideByZero else pure (number / divisor)

/-- Take memory from the heap, which refuses a size of zero and may refuse any other. -/
def kmalloc (env : FsEnv) (size : Nat) : FsM (Option HeapBuffer) := fun world =>
  let block := world.requests
  if size = 0 ∨ env.grants block size = false then
    .ok (none, { world with requests := block + 1 })
  else
    .ok (some ⟨⟨size, env.stale⟩, block⟩,
      { world with requests := block + 1, log := world.log ++ [.alloc block] })

def kfree (block : Nat) : FsM Unit := fun world =>
  .ok ((), { world with log := world.log ++ [.free block] })

/-- A buffer after sectors of a disk were read into it. -/
def HeapBuffer.filled (buffer : HeapBuffer) (image : ByteMem) (sector count : Nat) : HeapBuffer :=
  { buffer with bytes := fun i =>
      if i < 512 * count then image (512 * sector + i) else buffer.bytes i }

/-- Read sectors into a buffer; nothing means that the device reports an error. -/
def blockReadSync (env : FsEnv) (id : Fin 4) (sector : Nat) (buffer : HeapBuffer) (count : Nat) :
    FsM (Option HeapBuffer) :=
  match env.devices id with
  | none => pure none
  | some device =>
    -- A buffer that is too small would be overrun.
    if buffer.size < 512 * count then fault .overrun
    else if device.fails sector count then pure none
    else pure (some (buffer.filled device.image sector count))

/-- The heap grants everything and the device reads every sector. -/
structure FsEnv.Quiet (env : FsEnv) (id : Fin 4) (image : ByteMem) : Prop where
  grants : ∀ number size, env.grants number size = true
  device : ∃ device, env.devices id = some device ∧ device.image = image ∧
    ∀ sector count, device.fails sector count = false

section Quiet

variable {env : FsEnv} {id : Fin 4} {image : ByteMem} {world : FsWorld}

theorem kmalloc_quiet (quiet : env.Quiet id image) {size : Nat} (positive : 0 < size) :
    ∃ buffer after, kmalloc env size world = .ok (some buffer, after) ∧ buffer.size = size := by
  refine ⟨⟨⟨size, env.stale⟩, world.requests⟩, _, if_neg ?_, rfl⟩
  rw [quiet.grants]
  simp only [Bool.true_eq_false, or_false]
  omega

theorem blockReadSync_quiet (quiet : env.Quiet id image) {sector count : Nat} {buffer : HeapBuffer}
    (fits : 512 * count ≤ buffer.size) :
    blockReadSync env id sector buffer count world =
      .ok (some (buffer.filled image sector count), world) := by
  obtain ⟨device, present, rfl, works⟩ := quiet.device
  unfold blockReadSync
  rw [present]
  dsimp only
  rw [if_neg (by omega), if_neg (by rw [works]; decide)]
  rfl

end Quiet

end Ccos
