import Ccos.Fs.Ext2Inode
import Ccos.Lib.Tiling

/-! Directories, `fs/ext2/ext2_dir.c`: looking up a name and listing the entries. -/

namespace Ccos

open Lib

section Entry

variable (bytes : ByteMem) (offset : Nat)

/-- The inode number in an `ext2_dir_entry_t`. -/
def entryInode : Nat := bytes.load offset 4

def entryRecLen : Nat := bytes.load (offset + 4) 2

/-- The length of a name, of two bytes in `ext2_dir_entry_t`. -/
def entryNameLen : Nat := bytes.load (offset + 6) 2

/-- The file type, behind the length of the name. -/
def entryFileType : Nat := bytes.load (offset + 8) 1

/-- The name, behind the file type. -/
def entryName : List UInt8 := bytes.slice (offset + 9) (entryNameLen bytes offset)

end Entry

/-- The loop of a lookup: the inode number of the first entry with the name. Nothing at all means
that an access left the block. -/
def lookupScan (data : Buffer) (blockSize : Nat) (name : CString) (offset : Nat) :
    Option (Option Nat) :=
  if _ : offset + 12 < blockSize then do
    let inode ← data.load offset 4
    -- An entry without an inode is taken for the end of the entries.
    if inode = 0 then some none
    else do
      let recLen ← data.load (offset + 4) 2
      if _ : recLen = 0 then some none
      else do
        let nameLen ← data.load (offset + 6) 2
        if nameLen = 0 ∨ 255 < nameLen then lookupScan data blockSize name (offset + recLen)
        else do
          let difference ← data.strncmp (offset + 9) name.chars nameLen
          if difference = 0 ∧ name.chars.length = nameLen then some (some inode)
          else lookupScan data blockSize name (offset + recLen)
  else some none
termination_by blockSize - offset

/-- Get the inode of the entry that a lookup found. -/
def getFound (env : FsEnv) (sb : VfsSuperblock) : Option Nat → FsM (Option VfsInode)
  | some ino => vfsIget env sb ino
  | none => pure none

/-- Look up a name in the first block of a directory and get the inode of its entry. -/
def ext2Lookup (env : FsEnv) (sb : VfsSuperblock) (dir : VfsInode) (name : CString) :
    FsM (Option VfsInode) :=
  if vfsIsDir dir = false then pure none
  else
    match sb.fsInfo, dir.info with
    | some fs, some _ => do
      match ← ext2GetBlock env sb dir 0 with
      | none => pure none
      | some dirBlock =>
        if dirBlock = 0 then pure none
        else
          match ← kmalloc env fs.blockSize with
          | none => pure none
          | some buffer =>
            let sectorsPerBlock := fs.blockSize / 512
            match ← blockReadSync env fs.device (wrap64 (dirBlock * sectorsPerBlock)) buffer
              sectorsPerBlock with
            | none => do
              kfree buffer.block
              pure none
            | some data => do
              let found ← checked (lookupScan data.toBuffer fs.blockSize name 0)
              let result ← getFound env sb found
              kfree buffer.block
              pure result
    | _, _ => pure none

/-- What the callback of a listing is told about an entry, with the place of the entry in its block,
which it is not told. -/
structure DirReport where
  place : Nat
  name : List UInt8
  namlen : Nat
  offset : Nat
  ino : Nat
  dType : Nat

/-- The loop of a listing: the position of the file and the caller's buffer after it. Nothing means
that an access left the block. -/
def readdirScan {Buf : Type} (data : Buffer) (blockSize : Nat)
    (filldir : DirReport → Buf → Int × Buf) (offset fPos : Nat) (buf : Buf) : Option (Nat × Buf) :=
  if _ : offset + 12 < blockSize then do
    let inode ← data.load offset 4
    if inode = 0 then some (fPos, buf)
    else do
      let recLen ← data.load (offset + 4) 2
      if _ : recLen = 0 then some (fPos, buf)
      else do
        let nameLen ← data.load (offset + 6) 2
        let name ← data.read (offset + 9) (min nameLen 255)
        let fileType ← data.load (offset + 8) 1
        let answer := filldir ⟨offset, name, min nameLen 255, fPos, inode, fileType⟩ buf
        if answer.1 < 0 then some (fPos, answer.2)
        else readdirScan data blockSize filldir (offset + recLen) (wrap64 (fPos + recLen)) answer.2
  else some (fPos, buf)
termination_by blockSize - offset

/-- List the first block of a directory: whether it could be done, the position of the file and the
caller's buffer. Every call starts at the first entry. -/
def ext2Readdir {Buf : Type} (env : FsEnv) (sb : VfsSuperblock) (dir : VfsInode)
    (filldir : DirReport → Buf → Int × Buf) (fPos : Nat) (buf : Buf) : FsM (Bool × Nat × Buf) :=
  if vfsIsDir dir = false then pure (false, fPos, buf)
  else
    match sb.fsInfo, dir.info with
    | some fs, some _ => do
      match ← ext2GetBlock env sb dir 0 with
      | none => pure (false, fPos, buf)
      | some dirBlock =>
        if dirBlock = 0 then pure (true, fPos, buf)
        else
          match ← kmalloc env fs.blockSize with
          | none => pure (false, fPos, buf)
          | some buffer =>
            let sectorsPerBlock := fs.blockSize / 512
            match ← blockReadSync env fs.device (wrap64 (dirBlock * sectorsPerBlock)) buffer
              sectorsPerBlock with
            | none => do
              kfree buffer.block
              pure (false, fPos, buf)
            | some data => do
              let done ← checked (readdirScan data.toBuffer fs.blockSize filldir 0 fPos buf)
              kfree buffer.block
              pure (true, done)
    | _, _ => pure (false, fPos, buf)

section Steps

variable {bytes : ByteMem} {blockSize offset : Nat}

theorem load_header (inside : offset + 12 < blockSize) :
    Buffer.load ⟨blockSize, bytes⟩ offset 4 = some (entryInode bytes offset) ∧
    Buffer.load ⟨blockSize, bytes⟩ (offset + 4) 2 = some (entryRecLen bytes offset) ∧
    Buffer.load ⟨blockSize, bytes⟩ (offset + 6) 2 = some (entryNameLen bytes offset) ∧
    Buffer.load ⟨blockSize, bytes⟩ (offset + 8) 1 = some (entryFileType bytes offset) := by
  have load {place width : Nat} (within : place + width ≤ blockSize) :
      Buffer.load ⟨blockSize, bytes⟩ place width = some (bytes.load place width) :=
    Buffer.load_inside within
  exact ⟨load (by omega), load (by omega), load (by omega), load (by omega)⟩

/-- One round of a lookup: the header lies inside the block. -/
theorem lookupScan_step (name : CString) (inside : offset + 12 < blockSize) :
    lookupScan ⟨blockSize, bytes⟩ blockSize name offset =
      if entryInode bytes offset = 0 ∨ entryRecLen bytes offset = 0 then some none
      else if entryNameLen bytes offset = 0 ∨ 255 < entryNameLen bytes offset then
        lookupScan ⟨blockSize, bytes⟩ blockSize name (offset + entryRecLen bytes offset)
      else
        (Buffer.strncmp ⟨blockSize, bytes⟩ (offset + 9) name.chars
          (entryNameLen bytes offset)).bind fun difference =>
        if difference = 0 ∧ name.chars.length = entryNameLen bytes offset then
          some (some (entryInode bytes offset))
        else lookupScan ⟨blockSize, bytes⟩ blockSize name (offset + entryRecLen bytes offset) := by
  obtain ⟨inode, recLen, nameLen, _⟩ := @load_header bytes blockSize offset inside
  rw [lookupScan, dif_pos inside, inode, recLen, nameLen]
  grind

theorem readdirScan_step {Buf : Type} (filldir : DirReport → Buf → Int × Buf) (fPos : Nat)
    (buf : Buf) (inside : offset + 12 < blockSize) :
    readdirScan ⟨blockSize, bytes⟩ blockSize filldir offset fPos buf =
      if entryInode bytes offset = 0 ∨ entryRecLen bytes offset = 0 then some (fPos, buf)
      else
        (Buffer.read ⟨blockSize, bytes⟩ (offset + 9) (min (entryNameLen bytes offset) 255)).bind
          fun name =>
        let answer := filldir ⟨offset, name, min (entryNameLen bytes offset) 255, fPos,
          entryInode bytes offset, entryFileType bytes offset⟩ buf
        if answer.1 < 0 then some (fPos, answer.2)
        else readdirScan ⟨blockSize, bytes⟩ blockSize filldir (offset + entryRecLen bytes offset)
          (wrap64 (fPos + entryRecLen bytes offset)) answer.2 := by
  obtain ⟨inode, recLen, nameLen, fileType⟩ := @load_header bytes blockSize offset inside
  rw [readdirScan, dif_pos inside, inode, recLen, nameLen, fileType]
  simp only [Option.bind_eq_bind, Option.bind_some]
  grind

theorem lookupScan_end (data : Buffer) (name : CString) (outside : ¬offset + 12 < blockSize) :
    lookupScan data blockSize name offset = some none := by
  rw [lookupScan, dif_neg outside]

theorem readdirScan_end {Buf : Type} (data : Buffer) (filldir : DirReport → Buf → Int × Buf)
    (fPos : Nat) (buf : Buf) (outside : ¬offset + 12 < blockSize) :
    readdirScan data blockSize filldir offset fPos buf = some (fPos, buf) := by
  rw [readdirScan, dif_neg outside]

end Steps

/-- A lookup depends on the bytes of the block only. -/
theorem lookupScan_congr {data other : Buffer} (same : data.Same other) (blockSize : Nat)
    (name : CString) (offset : Nat) :
    lookupScan data blockSize name offset = lookupScan other blockSize name offset := by
  rw [lookupScan, lookupScan]
  simp only [same.load, same.strncmp]
  split
  · rename_i inside
    -- Both loops go on at the same offset, which is the only difference left.
    have rest {recLen : Nat} (valid : recLen ≠ 0) :
        lookupScan data blockSize name (offset + recLen) =
          lookupScan other blockSize name (offset + recLen) :=
      lookupScan_congr same blockSize name (offset + recLen)
    grind
  · rfl
termination_by blockSize - offset

/-- A listing depends on the bytes of the block only. -/
theorem readdirScan_congr {Buf : Type} {data other : Buffer} (same : data.Same other)
    (blockSize : Nat) (filldir : DirReport → Buf → Int × Buf) (offset fPos : Nat) (buf : Buf) :
    readdirScan data blockSize filldir offset fPos buf =
      readdirScan other blockSize filldir offset fPos buf := by
  rw [readdirScan, readdirScan]
  simp only [same.load, same.read]
  split
  · rename_i inside
    have rest {recLen : Nat} (valid : recLen ≠ 0) (fPos : Nat) (buf : Buf) :
        readdirScan data blockSize filldir (offset + recLen) fPos buf =
          readdirScan other blockSize filldir (offset + recLen) fPos buf :=
      readdirScan_congr same blockSize filldir (offset + recLen) fPos buf
    grind
  · rfl
termination_by blockSize - offset

/-- One of the direct blocks of a directory as it lies on the disk. -/
def dirBlockBytes (image : ByteMem) (fs : Ext2FsInfo) (info : Ext2InodeInfo) (k : Nat) : ByteMem :=
  fun i => image (info.pointer k * fs.blockSize + i)

section Quiet

variable {env : FsEnv} {image : ByteMem} {sb : VfsSuperblock} {fs : Ext2FsInfo}
  {dir : VfsInode} {info : Ext2InodeInfo}

/-- A directory of a mounted file system whose first block is there. -/
@[grind] structure DirReady (env : FsEnv) (image : ByteMem) (sb : VfsSuperblock) (fs : Ext2FsInfo)
    (dir : VfsInode) (info : Ext2InodeInfo) : Prop where
  mounted : sb.fsInfo = some fs
  quiet : env.Quiet fs.device image
  isDir : vfsIsDir dir = true
  filled : dir.info = some info
  sized : fs.BlockSized
  nonempty : 0 < dir.size.toNat
  first : info.pointer 0 ≠ 0

theorem DirReady.block (ready : DirReady env image sb fs dir info) (world : FsWorld) :
    ∃ second buffer third data,
      ext2GetBlock env sb dir 0 world = .ok (some (info.pointer 0), second) ∧
      kmalloc env fs.blockSize second = .ok (some buffer, third) ∧
      blockReadSync env fs.device (wrap64 (info.pointer 0 * (fs.blockSize / 512))) buffer
        (fs.blockSize / 512) third = .ok (some data, third) ∧
      data.toBuffer.Same ⟨fs.blockSize, dirBlockBytes image fs info 0⟩ := by
  obtain ⟨second, found⟩ := @ext2GetBlock_quiet env image world sb fs ready.mounted ready.quiet dir
    info ready.filled 0 ready.sized ready.nonempty (by rw [Nat.zero_div]; omega)
  rw [Nat.zero_div, if_neg (by omega), fileBlock, if_pos (by omega)] at found
  obtain ⟨buffer, third, granted, size⟩ :=
    @kmalloc_quiet env fs.device image second ready.quiet fs.blockSize ready.sized.positive
  refine ⟨second, buffer, third, _, found, granted, blockReadSync_quiet ready.quiet (by omega),
    size, fun i inside => ?_⟩
  have small : i < fs.blockSize := by
    rw [← size]
    exact inside
  exact ready.sized.filled (info.pointer_lt 0) buffer small

/-- A lookup in a directory is the scan of its first block. -/
theorem ext2Lookup_quiet (ready : DirReady env image sb fs dir info) (name : CString)
    (world : FsWorld) :
    match lookupScan ⟨fs.blockSize, dirBlockBytes image fs info 0⟩ fs.blockSize name 0 with
    | none => ext2Lookup env sb dir name world = .error .overrun
    | some none => ∃ after, ext2Lookup env sb dir name world = .ok (none, after)
    | some (some ino) => fs.Readable ino → ∃ inode after,
        ext2Lookup env sb dir name world = .ok (some inode, after) ∧ inode.ino = ino := by
  obtain ⟨second, buffer, third, data, found, granted, read, same⟩ := ready.block world
  rw [← lookupScan_congr same]
  -- Up to the scan the call is the same in all cases.
  have start : ext2Lookup env sb dir name world =
      (do
        let found ← checked (lookupScan data.toBuffer fs.blockSize name 0)
        let result ← getFound env sb found
        kfree buffer.block
        pure result : FsM (Option VfsInode)) third := by
    unfold ext2Lookup
    rw [if_neg (by rw [ready.isDir]; decide), ready.mounted, ready.filled]
    dsimp only
    rw [FsM.bind_ok found]
    dsimp only
    rw [if_neg ready.first, FsM.bind_ok granted]
    dsimp only
    rw [FsM.bind_ok read]
  rw [start]
  cases lookupScan data.toBuffer fs.blockSize name 0 with
  | none => rfl
  | some result =>
    cases result with
    | none => exact ⟨_, rfl⟩
    | some ino =>
      intro readable
      obtain ⟨inode, after, got, number⟩ :=
        @vfsIget_quiet env image third sb fs ready.mounted ready.quiet ino readable
      rw [FsM.bind_ok (checked_ok rfl), FsM.bind_ok (show getFound env sb (some ino) third = _ from got)]
      exact ⟨inode, _, rfl, number⟩

theorem ext2Readdir_quiet (ready : DirReady env image sb fs dir info) {Buf : Type}
    (filldir : DirReport → Buf → Int × Buf) (fPos : Nat) (buf : Buf) {result : Nat × Buf}
    (scanned : readdirScan ⟨fs.blockSize, dirBlockBytes image fs info 0⟩ fs.blockSize filldir 0 fPos
      buf = some result) (world : FsWorld) :
    ∃ after, ext2Readdir env sb dir filldir fPos buf world = .ok ((true, result), after) := by
  obtain ⟨second, buffer, third, data, found, granted, read, same⟩ := ready.block world
  rw [← readdirScan_congr same] at scanned
  unfold ext2Readdir
  rw [if_neg (by rw [ready.isDir]; decide), ready.mounted, ready.filled]
  dsimp only
  rw [FsM.bind_ok found]
  dsimp only
  rw [if_neg ready.first, FsM.bind_ok granted]
  dsimp only
  rw [FsM.bind_ok read]
  dsimp only
  rw [FsM.bind_ok (checked_ok scanned)]
  exact ⟨_, rfl⟩

end Quiet

end Ccos
