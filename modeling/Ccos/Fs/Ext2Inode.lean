import Ccos.Fs.FsWorld

/-! Inodes: the block addressing and the reading of inodes in `fs/ext2/ext2_inode.c`, and `vfs_iget`
with the memory that it takes and the disk that it reads. -/

namespace Ccos

open Lib

inductive VfsType
  | unknown
  | fifo
  | chr
  | dir
  | blk
  | reg
  | lnk
  | sock
  deriving DecidableEq, Repr

def vfsModeToType (mode : Nat) : VfsType :=
  match mode &&& 0o170000 with
  | 0o010000 => .fifo
  | 0o020000 => .chr
  | 0o040000 => .dir
  | 0o060000 => .blk
  | 0o100000 => .reg
  | 0o120000 => .lnk
  | 0o140000 => .sock
  | _ => .unknown

def vfsIsDir (inode : VfsInode) : Bool :=
  vfsModeToType inode.mode = .dir

def vfsIsReg (inode : VfsInode) : Bool :=
  vfsModeToType inode.mode = .reg

def Ext2InodeInfo.pointer (info : Ext2InodeInfo) (k : Nat) : Nat :=
  if inside : k < 15 then (info.data ⟨k, inside⟩).toNat else 0

/-- Find the block of a file offset; zero stands for a hole, and nothing for an error. -/
def ext2GetBlock (env : FsEnv) (sb : VfsSuperblock) (inode : VfsInode) (offset : Nat) :
    FsM (Option Nat) :=
  match inode.info, sb.fsInfo with
  | some info, some fs =>
    let blockInFile := offset / fs.blockSize % 2 ^ 32
    if inode.size.toNat ≤ offset then pure none
    else if blockInFile < 12 then pure (some (info.pointer blockInFile))
    else if blockInFile - 12 < fs.blockSize / 4 then do
      match ← kmalloc env fs.blockSize with
      | none => pure none
      | some buffer =>
        let indBlock := info.pointer 12
        let sectorsPerBlock := fs.blockSize / 512
        if indBlock = 0 then do
          kfree buffer.block
          pure none
        else do
          match ← blockReadSync env fs.device (wrap64 (indBlock * sectorsPerBlock)) buffer
            sectorsPerBlock with
          | none => do
            kfree buffer.block
            pure none
          | some indirect => do
            let block ← checked (indirect.load (4 * (blockInFile - 12)) 4)
            kfree buffer.block
            pure (some block)
    -- Double and triple indirect blocks are not implemented.
    else pure none
  | _, _ => pure none

def loadPointers (buffer : Buffer) (offset : Nat) : Option (Fin 15 → UInt32) :=
  if offset + 60 ≤ buffer.size then
    some fun k => UInt32.ofNat (buffer.bytes.load (offset + 4 * k.val) 4)
  else none

/-- The last part of reading an inode: its fields are copied from the block that was read. -/
def fillInode (env : FsEnv) (data : HeapBuffer) (offset : Nat) (inode : VfsInode) :
    FsM (Bool × VfsInode) := do
  let mode ← checked (data.load offset 2)
  let size ← checked (data.load (offset + 4) 4)
  let blocks ← checked (data.load (offset + 28) 4)
  let nlink ← checked (data.load (offset + 26) 2)
  let inode := { inode with mode, size := UInt32.ofNat size, blocks, nlink }
  match ← kmalloc env 80 with
  | none => do
    kfree data.block
    pure (false, inode)
  | some ei => do
    let pointers ← checked (loadPointers data.toBuffer (offset + 40))
    let flags ← checked (data.load (offset + 32) 4)
    let fileAcl ← checked (data.load (offset + 104) 4)
    let dirAcl ← checked (data.load (offset + 108) 4)
    let dtime ← checked (data.load (offset + 20) 4)
    kfree data.block
    pure (true, { inode with info := some ⟨ei.block, pointers, flags, fileAcl, dirAcl, dtime⟩ })

/-- Read an inode from disk; a failure may leave the first fields filled in. -/
def ext2ReadInode (env : FsEnv) (sb : VfsSuperblock) (inode : VfsInode) :
    FsM (Bool × VfsInode) :=
  match sb.fsInfo with
  | none => pure (false, inode)
  | some fs =>
    if inode.ino = 0 ∨ fs.sb.inodesCount < inode.ino then pure (false, inode)
    else do
      let quotient ← divide (inode.ino - 1) fs.sb.inodesPerGroup
      let group := quotient % 2 ^ 32
      if fs.ngroups ≤ group then pure (false, inode)
      else do
        let tableBlock ← checked (fs.bgDesc.load (32 * group + 8) 4)
        let index := (inode.ino - 1) % fs.sb.inodesPerGroup % 2 ^ 32
        let inodeOffset := index * fs.inodeSize % 2 ^ 32
        match ← kmalloc env fs.blockSize with
        | none => pure (false, inode)
        | some buffer => do
          let tableBlockOffset ← divide inodeOffset fs.blockSize
          let inodeBlock := (tableBlock + tableBlockOffset) % 2 ^ 32
          let offset := inodeOffset % fs.blockSize
          let sectorsPerBlock := fs.blockSize / 512
          -- The buffer is cleared before the block is read into it.
          match ← blockReadSync env fs.device (inodeBlock * sectorsPerBlock)
            { buffer with bytes := fun _ => 0 } sectorsPerBlock with
          | none => do
            kfree buffer.block
            pure (false, inode)
          | some data => fillInode env data offset inode

/-- An inode with the fields of the record at a place, and its private data in a given block. -/
def inodeFrom (bytes : ByteMem) (place ei : Nat) (inode : VfsInode) : VfsInode :=
  { inode with
    mode := bytes.load place 2
    size := UInt32.ofNat (bytes.load (place + 4) 4)
    blocks := bytes.load (place + 28) 4
    nlink := bytes.load (place + 26) 2
    info := some ⟨ei, fun k => UInt32.ofNat (bytes.load (place + 40 + 4 * k.val) 4),
      bytes.load (place + 32) 4, bytes.load (place + 104) 4, bytes.load (place + 108) 4,
      bytes.load (place + 20) 4⟩ }

def ext2DestroyInode (inode : VfsInode) : FsM VfsInode :=
  match inode.info with
  | some info => do
    kfree info.block
    pure { inode with info := none }
  | none => pure inode

section Cache

/-- The address of a heap block, which is not null. -/
def blockAddr (block : Nat) : Nat := block + 1

def changeCache (change : InodeCache → InodeCache) : FsM Unit := fun world =>
  .ok ((), { world with cache := change world.cache })

/-- An inode as `vfs_alloc_inode` fills it, with its number. -/
def newInode (block ino : Nat) : VfsInode where
  block := block
  ino := ino
  nlink := 1
  mode := 0
  size := 0
  blocks := 0
  info := none

/-- The heap blocks that `vfs_free_inode` gives back. -/
def releaseInode (sb : VfsSuperblock) (inode : VfsInode) : FsM Unit := do
  let inode ← if sb.hasOps then ext2DestroyInode inode else pure inode
  match inode.info with
  | some info => kfree info.block
  | none => pure ()
  kfree inode.block

/-- Get an inode from the cache, or read it from disk. What becomes of the cache is said by
`InodeCache.vfsIget`. -/
def vfsIget (env : FsEnv) (sb : VfsSuperblock) (ino : Nat) : FsM (Option VfsInode) := do
  let world ← get
  let owner := blockAddr sb.block
  match world.cache.search owner ino with
  | some addr => do
    changeCache fun cache => (cache.vfsIget none false owner ino).2
    pure (some { world.inodes addr with ino := (world.cache.inode addr).ino })
  | none =>
    match ← kmalloc env 144 with
    | none => pure none
    | some buffer => do
      let inode := newInode buffer.block ino
      let (read, inode) ← if sb.hasOps then ext2ReadInode env sb inode else pure (true, inode)
      let addr := blockAddr buffer.block
      changeCache fun cache => (cache.vfsIget (some addr) read owner ino).2
      if !read then do
        releaseInode sb inode
        pure none
      else do
        modify fun world => { world with inodes := Function.update world.inodes addr inode }
        pure (some inode)

end Cache

/-- An inode number that the superblock and the descriptors have a place for. -/
structure Ext2FsInfo.Valid (fs : Ext2FsInfo) (ino : Nat) : Prop where
  positive : ino ≠ 0
  counted : ino ≤ fs.sb.inodesCount
  inodes : fs.sb.inodesPerGroup ≠ 0
  group : (ino - 1) / fs.sb.inodesPerGroup < fs.ngroups
  descriptors : 32 * fs.ngroups ≤ fs.bgDesc.size

/-- The first block of the inode table that an inode is in. -/
def Ext2FsInfo.inodeTable (fs : Ext2FsInfo) (ino : Nat) : Nat :=
  fs.bgDesc.bytes.load (32 * ((ino - 1) / fs.sb.inodesPerGroup) + 8) 4

/-- The distance of an inode from the start of its table. -/
def Ext2FsInfo.inodeOffset (fs : Ext2FsInfo) (ino : Nat) : Nat :=
  (ino - 1) % fs.sb.inodesPerGroup * fs.inodeSize

/-- What the superblock says about an inode number lets the inode be read inside all buffers. -/
structure Ext2FsInfo.Readable (fs : Ext2FsInfo) (ino : Nat) : Prop extends fs.Valid ino where
  record : (ino - 1) % fs.sb.inodesPerGroup * fs.inodeSize % 2 ^ 32 % fs.blockSize + 112 ≤
    fs.blockSize

/-- A block size that sectors fill exactly. -/
structure Ext2FsInfo.BlockSized (fs : Ext2FsInfo) : Prop where
  positive : 0 < fs.blockSize
  sectors : 512 ∣ fs.blockSize
  limit : fs.blockSize < 2 ^ 32

/-- The block that holds the data of the k-th block of a file, or zero for a hole. -/
def fileBlock (image : ByteMem) (fs : Ext2FsInfo) (info : Ext2InodeInfo) (k : Nat) : Nat :=
  if k < 12 then info.pointer k
  else if info.pointer 12 = 0 then 0
  else image.load (info.pointer 12 * fs.blockSize + 4 * (k - 12)) 4

theorem Ext2InodeInfo.pointer_lt (info : Ext2InodeInfo) (k : Nat) : info.pointer k < 2 ^ 32 := by
  unfold Ext2InodeInfo.pointer
  split
  · exact UInt32.toNat_lt _
  · decide

theorem fileBlock_lt (image : ByteMem) (fs : Ext2FsInfo) (info : Ext2InodeInfo) (k : Nat) :
    fileBlock image fs info k < 2 ^ 32 := by
  unfold fileBlock
  split
  · exact info.pointer_lt k
  · split
    · decide
    · have bound : image.load (info.pointer 12 * fs.blockSize + 4 * (k - 12)) 4 < 256 ^ 4 :=
        ByteMem.load_lt
      exact bound

section Quiet

variable {env : FsEnv} {image : ByteMem} {world : FsWorld} {sb : VfsSuperblock} {fs : Ext2FsInfo}

theorem Ext2FsInfo.BlockSized.sector (sized : fs.BlockSized) {block : Nat} (small : block < 2 ^ 32) :
    512 * wrap64 (block * (fs.blockSize / 512)) = block * fs.blockSize := by
  obtain ⟨count, scale⟩ := sized.sectors
  have whole : 512 * (fs.blockSize / 512) = fs.blockSize := by omega
  have limit := sized.limit
  rw [wrap64_of_lt]
  · rw [← Nat.mul_assoc, Nat.mul_comm 512, Nat.mul_assoc, whole]
  · calc block * (fs.blockSize / 512) < 2 ^ 32 * 2 ^ 32 := Nat.mul_lt_mul'' small (by omega)
      _ = 2 ^ 64 := by decide

theorem Ext2FsInfo.BlockSized.filled (sized : fs.BlockSized) {block : Nat} (small : block < 2 ^ 32)
    (buffer : HeapBuffer) {i : Nat} (inside : i < fs.blockSize) :
    (buffer.filled image (wrap64 (block * (fs.blockSize / 512))) (fs.blockSize / 512)).bytes i =
      image (block * fs.blockSize + i) := by
  obtain ⟨count, scale⟩ := sized.sectors
  rw [HeapBuffer.filled]
  dsimp only
  rw [if_pos (by omega), sized.sector small]

theorem checked_ok {Result : Type} {access : Option Result} {result : Result}
    (inside : access = some result) : checked access world = .ok (result, world) := by
  subst inside
  rfl

theorem divide_ok {number divisor : Nat} (positive : divisor ≠ 0) :
    divide number divisor world = .ok (number / divisor, world) := by
  rw [divide, if_neg positive]
  rfl

theorem Ext2Superblock.inodesCount_lt (sb : Ext2Superblock) : sb.inodesCount < 2 ^ 32 := by
  have bound : sb.bytes.load 0 4 < 256 ^ 4 := ByteMem.load_lt
  exact bound

/-- A block of the inode table is read, if nothing fails, and the inode is filled from it. -/
theorem ext2ReadInode_reads (mounted : sb.fsInfo = some fs) (quiet : env.Quiet fs.device image)
    {inode : VfsInode} (valid : fs.Valid inode.ino) (positive : 0 < fs.blockSize) :
    ∃ (data : HeapBuffer) (after : FsWorld), data.size = fs.blockSize ∧
      (∀ i < 512 * (fs.blockSize / 512), data.bytes i = image (512 * ((fs.inodeTable inode.ino +
        fs.inodeOffset inode.ino % 2 ^ 32 / fs.blockSize) % 2 ^ 32 * (fs.blockSize / 512)) + i)) ∧
      ext2ReadInode env sb inode world =
        fillInode env data (fs.inodeOffset inode.ino % 2 ^ 32 % fs.blockSize) inode after := by
  have small := fs.sb.inodesCount_lt
  have counted := valid.counted
  have few : (inode.ino - 1) / fs.sb.inodesPerGroup % 2 ^ 32 =
      (inode.ino - 1) / fs.sb.inodesPerGroup := by
    apply Nat.mod_eq_of_lt
    have := Nat.div_le_self (inode.ino - 1) fs.sb.inodesPerGroup
    omega
  have local32 : (inode.ino - 1) % fs.sb.inodesPerGroup % 2 ^ 32 =
      (inode.ino - 1) % fs.sb.inodesPerGroup := by
    apply Nat.mod_eq_of_lt
    have := Nat.mod_le (inode.ino - 1) fs.sb.inodesPerGroup
    omega
  have group := valid.group
  have descriptors := valid.descriptors
  obtain ⟨buffer, second, granted, size⟩ :=
    @kmalloc_quiet env fs.device image world quiet fs.blockSize positive
  unfold ext2ReadInode
  rw [mounted]
  dsimp only
  rw [if_neg (by have := valid.positive; omega),
    FsM.bind_ok (divide_ok valid.inodes), few, if_neg (by omega),
    FsM.bind_ok (checked_ok (Buffer.load_inside (by omega))), local32, FsM.bind_ok granted]
  dsimp only
  rw [FsM.bind_ok (divide_ok (by omega)), FsM.bind_ok (blockReadSync_quiet quiet (by
    show 512 * (fs.blockSize / 512) ≤ buffer.size
    omega))]
  dsimp only
  generalize read : HeapBuffer.filled _ image _ _ = data
  refine ⟨data, second, ?_, fun i inside => ?_, ?_⟩ <;> subst read
  · exact size
  · exact if_pos inside
  · rfl

theorem fillInode_ok (quiet : env.Quiet fs.device image) {data : HeapBuffer} {offset : Nat}
    {inode : VfsInode} (inside : offset + 112 ≤ data.size) :
    ∃ ei after, fillInode env data offset inode world =
      .ok ((true, inodeFrom data.bytes offset ei inode), after) := by
  have load {place width : Nat} (inside : place + width ≤ data.size) :
      data.load place width = some (data.bytes.load place width) := Buffer.load_inside inside
  have pointers : loadPointers data.toBuffer (offset + 40) =
      some fun k => UInt32.ofNat (data.bytes.load (offset + 40 + 4 * k.val) 4) :=
    if_pos (by show offset + 40 + 60 ≤ data.size; omega)
  obtain ⟨ei, third, other, _⟩ := @kmalloc_quiet env fs.device image world quiet 80 (by omega)
  unfold fillInode
  rw [FsM.bind_ok (checked_ok (load (by omega))), FsM.bind_ok (checked_ok (load (by omega))),
    FsM.bind_ok (checked_ok (load (by omega))), FsM.bind_ok (checked_ok (load (by omega))),
    FsM.bind_ok other]
  dsimp only
  rw [FsM.bind_ok (checked_ok pointers), FsM.bind_ok (checked_ok (load (by omega))),
    FsM.bind_ok (checked_ok (load (by omega))), FsM.bind_ok (checked_ok (load (by omega))),
    FsM.bind_ok (checked_ok (load (by omega)))]
  exact ⟨ei.block, _, rfl⟩

section

variable (mounted : sb.fsInfo = some fs) (quiet : env.Quiet fs.device image)
include mounted quiet

/-- An inode that can be read is filled in and keeps its number. -/
theorem ext2ReadInode_quiet {inode : VfsInode} (readable : fs.Readable inode.ino) :
    ∃ filled after, ext2ReadInode env sb inode world = .ok ((true, filled), after) ∧
      filled.ino = inode.ino := by
  obtain ⟨valid, record⟩ := readable
  obtain ⟨data, second, size, _, read⟩ :=
    @ext2ReadInode_reads env image world sb fs mounted quiet inode valid (by omega)
  obtain ⟨ei, after, filled⟩ := @fillInode_ok env image second fs quiet data
    (fs.inodeOffset inode.ino % 2 ^ 32 % fs.blockSize) inode (by rw [size]; exact record)
  exact ⟨_, after, read.trans filled, rfl⟩

/-- An inode that can be read is found in the cache or read. -/
theorem vfsIget_quiet {ino : Nat} (readable : fs.Readable ino) :
    ∃ inode after, vfsIget env sb ino world = .ok (some inode, after) ∧ inode.ino = ino := by
  unfold vfsIget
  rw [FsM.bind_ok (show (get : FsM FsWorld) world = .ok (world, world) from rfl)]
  dsimp only
  cases cached : world.cache.search (blockAddr sb.block) ino with
  | some addr =>
    -- A cached inode was found by its number.
    have found := List.find?_some cached
    simp only [decide_eq_true_eq] at found
    exact ⟨_, _, rfl, found.2⟩
  | none =>
    obtain ⟨buffer, first, granted, _⟩ :=
      @kmalloc_quiet env fs.device image world quiet 144 (by omega)
    dsimp only
    rw [FsM.bind_ok granted]
    dsimp only
    split
    · obtain ⟨filled, after, done, same⟩ := @ext2ReadInode_quiet env image first sb fs mounted quiet
        (newInode buffer.block ino) readable
      rw [FsM.bind_ok done]
      exact ⟨_, _, rfl, same⟩
    · exact ⟨_, _, rfl, rfl⟩

theorem ext2GetBlock_quiet {inode : VfsInode} {info : Ext2InodeInfo}
    (filled : inode.info = some info) {offset : Nat} (sized : fs.BlockSized)
    (inside : offset < inode.size.toNat) (near : offset / fs.blockSize < 12 + fs.blockSize / 4) :
    ∃ after, ext2GetBlock env sb inode offset world =
      .ok (if 12 ≤ offset / fs.blockSize ∧ info.pointer 12 = 0 then none
        else some (fileBlock image fs info (offset / fs.blockSize)), after) := by
  have small : offset / fs.blockSize % 2 ^ 32 = offset / fs.blockSize := by
    apply Nat.mod_eq_of_lt
    have := Nat.div_le_self offset fs.blockSize
    have := inode.size.toNat_lt
    omega
  unfold ext2GetBlock
  rw [filled, mounted]
  dsimp only
  rw [small, if_neg (by omega)]
  generalize offset / fs.blockSize = k at near
  by_cases direct : k < 12
  · exact ⟨world, by rw [if_pos direct, if_neg (by omega), fileBlock, if_pos direct]; rfl⟩
  rw [if_neg direct, if_pos (by omega)]
  obtain ⟨buffer, second, granted, size⟩ :=
    @kmalloc_quiet env fs.device image world quiet fs.blockSize sized.positive
  rw [FsM.bind_ok granted]
  dsimp only
  by_cases missing : info.pointer 12 = 0
  · rw [if_pos missing, if_pos ⟨by omega, missing⟩]
    exact ⟨_, rfl⟩
  · rw [if_neg missing, if_neg (by omega), FsM.bind_ok (blockReadSync_quiet quiet (by omega))]
    dsimp only
    -- The pointer lies inside the indirect block, whose bytes are those of the disk.
    have entry : (buffer.filled image (wrap64 (info.pointer 12 * (fs.blockSize / 512)))
        (fs.blockSize / 512)).load (4 * (k - 12)) 4 =
        some (image.load (info.pointer 12 * fs.blockSize + 4 * (k - 12)) 4) := by
      rw [Buffer.load_inside (by show _ ≤ buffer.size; omega)]
      refine congrArg some (ByteMem.load_moved fun i within => ?_)
      rw [sized.filled (info.pointer_lt 12) buffer (by omega), Nat.add_assoc]
    rw [FsM.bind_ok (checked_ok entry), fileBlock, if_neg direct, if_neg missing]
    exact ⟨_, rfl⟩

end

end Quiet

section Samples

/-- An environment in which nothing fails, with one disk. -/
def quietEnv (image : ByteMem) : FsEnv :=
  ⟨fun _ _ => true, fun _ => 0, fun _ => some ⟨image, fun _ _ => false⟩⟩

theorem quietEnv_quiet (image : ByteMem) (id : Fin 4) : (quietEnv image).Quiet id image :=
  ⟨fun _ _ => rfl, _, rfl, rfl, fun _ _ => rfl⟩

/-- A file system with blocks of 1024 bytes, one group and 32 inodes. -/
def kilobyteFs : Ext2FsInfo where
  sb := ⟨fun i => if i = 0 ∨ i = 40 then 32 else 0⟩
  bgDesc := ⟨⟨1024, fun _ => 0⟩, 2⟩
  ngroups := 1
  blockSize := 1024
  inodeSize := 128
  device := 0

theorem kilobyteFs_sized : kilobyteFs.BlockSized :=
  ⟨by decide, ⟨2, rfl⟩, by decide⟩

theorem kilobyteFs_readable {ino : Nat} (positive : ino ≠ 0) (counted : ino ≤ 32) :
    kilobyteFs.Readable ino := by
  have inodes : kilobyteFs.sb.inodesCount = 32 ∧ kilobyteFs.sb.inodesPerGroup = 32 := by decide
  refine ⟨⟨positive, inodes.1 ▸ counted, by decide, ?_, by decide⟩, ?_⟩
  · rw [inodes.2, show kilobyteFs.ngroups = 1 from rfl]
    omega
  · rw [inodes.2, show kilobyteFs.inodeSize = 128 from rfl,
      show kilobyteFs.blockSize = 1024 from rfl]
    omega

def kilobyteSb : VfsSuperblock :=
  ⟨3, some kilobyteFs, true⟩

def kilobyteInode (mode : Nat) (size : UInt32) (info : Ext2InodeInfo) : VfsInode :=
  ⟨4, 12, 1, mode, size, 0, some info⟩

/-- Private data of an inode with given block pointers. -/
def pointersOnly (data : Fin 15 → UInt32) : Ext2InodeInfo :=
  ⟨5, data, 0, 0, 0, 0⟩

def bootWorld : FsWorld :=
  ⟨0, [], CacheSession.boot.cache, fun _ => newInode 0 0⟩

end Samples

end Ccos
