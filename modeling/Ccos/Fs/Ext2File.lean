import Ccos.Fs.Ext2Inode

/-! Reading a regular file, `ext2_file_read` in `fs/ext2/ext2_file.c`. -/

namespace Ccos

open Lib

/-- The loop of a read: copy from block after block, until the count is reached or a block cannot be
had. -/
def fileReadLoop (env : FsEnv) (sb : VfsSuperblock) (fs : Ext2FsInfo) (inode : VfsInode)
    (pos count total : Nat) : FsM (List UInt8) :=
  if more : total < count then do
    match ← ext2GetBlock env sb inode (pos + total) with
    | none => pure []
    | some blockNum =>
      -- A hole ends the loop like an error.
      if blockNum = 0 then pure []
      else
        let blockOffset := (pos + total) % fs.blockSize
        let bytesInBlock := fs.blockSize - blockOffset
        let bytesToRead := min ((count - total) % 2 ^ 32) bytesInBlock
        match ← kmalloc env fs.blockSize with
        | none => pure []
        | some buffer =>
          let sectorsPerBlock := fs.blockSize / 512
          match ← blockReadSync env fs.device (wrap64 (blockNum * sectorsPerBlock)) buffer
            sectorsPerBlock with
          | none => do
            kfree buffer.block
            pure []
          | some blockData => do
            let part ← checked (blockData.read blockOffset bytesToRead)
            kfree buffer.block
            -- A round that copies nothing would be repeated forever.
            if _ : bytesToRead = 0 then fault .endless
            else do
              let rest ← fileReadLoop env sb fs inode pos count (total + bytesToRead)
              pure (part ++ rest)
  else pure []
termination_by count - total

/-- Read from a position: the bytes and the new position, or nothing for an error. -/
def ext2FileRead (env : FsEnv) (sb : VfsSuperblock) (inode : VfsInode) (count pos : Nat) :
    FsM (Option (List UInt8 × Nat)) :=
  if vfsIsReg inode = false then pure none
  else
    match sb.fsInfo with
    | none => pure none
    | some fs =>
      if inode.size.toNat ≤ pos then pure (some ([], pos))
      else do
        let remaining := inode.size.toNat - pos
        let data ← fileReadLoop env sb fs inode pos (if remaining < count then remaining else count) 0
        pure (some (data, wrap64 (pos + data.length)))

/-- The bytes of a file: those of its blocks in order, and zeros in the holes. -/
def fileContent (image : ByteMem) (fs : Ext2FsInfo) (info : Ext2InodeInfo) : ByteMem := fun i =>
  let block := fileBlock image fs info (i / fs.blockSize)
  if block = 0 then 0 else image (block * fs.blockSize + i % fs.blockSize)

/-- A byte of a file lies in a block and not in a hole. -/
@[grind =]
def Backed (image : ByteMem) (fs : Ext2FsInfo) (info : Ext2InodeInfo) (i : Nat) : Prop :=
  fileBlock image fs info (i / fs.blockSize) ≠ 0

theorem offset_in_block {start i size : Nat} (within : start % size + i < size) :
    (start + i) / size = start / size ∧ (start + i) % size = start % size + i := by
  have split : start + i = start % size + i + size * (start / size) := by
    have := Nat.div_add_mod start size
    omega
  rw [split]
  constructor
  · rw [Nat.add_mul_div_left _ _ (by omega), Nat.div_eq_of_lt within, Nat.zero_add]
  · rw [Nat.add_mul_mod_self_left, Nat.mod_eq_of_lt within]

section Quiet

variable {env : FsEnv} {image : ByteMem} {world : FsWorld} {sb : VfsSuperblock} {fs : Ext2FsInfo}
  {inode : VfsInode} {info : Ext2InodeInfo}

theorem fileContent_slice {start count : Nat} (backed : Backed image fs info start)
    (within : start % fs.blockSize + count ≤ fs.blockSize) :
    (fileContent image fs info).slice start count =
      image.slice (fileBlock image fs info (start / fs.blockSize) * fs.blockSize +
        start % fs.blockSize) count := by
  apply ByteMem.slice_congr
  intro i inside
  obtain ⟨block, offset⟩ := @offset_in_block start i fs.blockSize (by omega)
  rw [fileContent, block, offset, if_neg backed, Nat.add_assoc]

/-- A read returns what follows in the file up to the first hole, if nothing else fails. -/
theorem fileReadLoop_quiet (mounted : sb.fsInfo = some fs) (quiet : env.Quiet fs.device image)
    (filled : inode.info = some info) (sized : fs.BlockSized)
    (fits : inode.size.toNat ≤ (12 + fs.blockSize / 4) * fs.blockSize) {pos count : Nat}
    (inside : pos + count ≤ inode.size.toNat) (total : Nat) (world : FsWorld) :
    ∃ data after, fileReadLoop env sb fs inode pos count total world = .ok (data, after) ∧
      data = (fileContent image fs info).slice (pos + total) data.length ∧
      data.length ≤ count - total ∧
      (data.length = count - total ↔
        ∀ i, pos + total ≤ i → i < pos + count → Backed image fs info i) := by
  rw [fileReadLoop]
  by_cases more : total < count
  · have near : (pos + total) / fs.blockSize < 12 + fs.blockSize / 4 := by
      rw [Nat.div_lt_iff_lt_mul sized.positive]
      omega
    obtain ⟨second, found⟩ := @ext2GetBlock_quiet env image world sb fs mounted quiet inode info
      filled (pos + total) sized (by omega) near
    rw [dif_pos more, FsM.bind_ok found]
    by_cases hole : fileBlock image fs info ((pos + total) / fs.blockSize) = 0
    · -- The first byte lies in a hole, so nothing is read.
      refine ⟨[], second, ?_, by simp [ByteMem.slice], by simp, ?_⟩
      · split
        · rfl
        · dsimp only
          rw [if_pos hole]
          rfl
      · constructor
        · grind
        · intro all
          exact absurd hole (all (pos + total) (Nat.le_refl _) (by omega))
    · have direct : ¬(12 ≤ (pos + total) / fs.blockSize ∧ info.pointer 12 = 0) := by
        rintro ⟨far, missing⟩
        exact hole (by rw [fileBlock, if_neg (by omega), if_pos missing])
      rw [if_neg direct]
      dsimp only
      rw [if_neg hole]
      have size32 := inode.size.toNat_lt
      have offset := Nat.mod_lt (pos + total) sized.positive
      have plain : (count - total) % 2 ^ 32 = count - total := Nat.mod_eq_of_lt (by omega)
      obtain ⟨buffer, third, granted, size⟩ :=
        @kmalloc_quiet env fs.device image second quiet fs.blockSize sized.positive
      rw [plain, FsM.bind_ok granted]
      dsimp only
      rw [FsM.bind_ok (blockReadSync_quiet quiet (by omega))]
      dsimp only
      generalize step : min (count - total) (fs.blockSize - (pos + total) % fs.blockSize) = n
      have progress : 0 < n := by omega
      -- What is copied from the block is what the file holds there.
      have part : (buffer.filled image (wrap64 (fileBlock image fs info
          ((pos + total) / fs.blockSize) * (fs.blockSize / 512))) (fs.blockSize / 512)).read
          ((pos + total) % fs.blockSize) n =
          some ((fileContent image fs info).slice (pos + total) n) := by
        rw [Buffer.read_inside (by show _ ≤ buffer.size; omega), fileContent_slice hole (by omega)]
        refine congrArg some (ByteMem.slice_congr fun i small => ?_)
        rw [sized.filled (fileBlock_lt ..) buffer (by omega), Nat.add_assoc]
      obtain ⟨rest, after, done, same, short, complete⟩ :=
        fileReadLoop_quiet mounted quiet filled sized fits inside (total + n)
          { third with log := third.log ++ [.free buffer.block] }
      refine ⟨(fileContent image fs info).slice (pos + total) n ++ rest, after, ?_, ?_, ?_, ?_⟩
      · rw [FsM.bind_ok (checked_ok part), FsM.bind_ok (show kfree buffer.block third = _ from rfl),
          dif_neg (by omega), FsM.bind_ok done]
        rfl
      · rw [List.length_append, ByteMem.slice_length, ByteMem.slice_append, Nat.add_assoc pos,
          ← same]
      · rw [List.length_append, ByteMem.slice_length]
        omega
      · rw [List.length_append, ByteMem.slice_length,
          show n + rest.length = count - total ↔ rest.length = count - (total + n) by omega, complete]
        constructor
        · intro later i low high
          by_cases first : i < pos + (total + n)
          · -- The bytes copied in this round lie in the block that was found.
            have here := (@offset_in_block (pos + total) (i - (pos + total)) fs.blockSize
              (by omega)).1
            grind
          · exact later i (by omega) high
        grind
  · rw [dif_neg more]
    refine ⟨[], world, rfl, by simp [ByteMem.slice], by simp, ?_⟩
    grind
termination_by count - total

section Reads

variable (mounted : sb.fsInfo = some fs) (quiet : env.Quiet fs.device image)
  (regular : vfsIsReg inode = true) (filled : inode.info = some info) (sized : fs.BlockSized)
  (fits : inode.size.toNat ≤ (12 + fs.blockSize / 4) * fs.blockSize)
include mounted quiet regular filled sized fits

/-- A read of a regular file inside its size: what it returns, and that it is complete exactly if it
meets no hole. -/
theorem ext2FileRead_quiet {pos : Nat}
    (before : pos < inode.size.toNat) (count : Nat) (world : FsWorld) :
    ∃ length after, ext2FileRead env sb inode count pos world =
        .ok (some ((fileContent image fs info).slice pos length, pos + length), after) ∧
      length ≤ min count (inode.size.toNat - pos) ∧
      (length = min count (inode.size.toNat - pos) ↔
        ∀ i, pos ≤ i → i < pos + min count (inode.size.toNat - pos) → Backed image fs info i) := by
  have clipped : (if inode.size.toNat - pos < count then inode.size.toNat - pos else count) =
      min count (inode.size.toNat - pos) := by
    split <;> omega
  obtain ⟨data, after, done, same, short, complete⟩ :=
    @fileReadLoop_quiet env image sb fs inode info mounted quiet filled sized fits pos
      (min count (inode.size.toNat - pos)) (by omega) 0 world
  have small := inode.size.toNat_lt
  refine ⟨data.length, after, ?_, short, complete⟩
  unfold ext2FileRead
  rw [if_neg (by rw [regular]; decide), mounted]
  dsimp only
  rw [if_neg (by omega), clipped, FsM.bind_ok done, wrap64_of_lt (by omega)]
  rw [Nat.add_zero] at same
  rw [← same]
  rfl

/-- A read delivers the bytes of the file with its holes as zeros exactly if none of the bytes lies in
a hole. -/
theorem ext2FileRead_filled_iff {pos : Nat}
    (before : pos < inode.size.toNat) (count : Nat) (world : FsWorld) :
    (∃ after, ext2FileRead env sb inode count pos world =
        .ok (some ((fileContent image fs info).slice pos (min count (inode.size.toNat - pos)),
          pos + min count (inode.size.toNat - pos)), after)) ↔
      ∀ i, pos ≤ i → i < pos + min count (inode.size.toNat - pos) → Backed image fs info i := by
  obtain ⟨length, last, done, _, complete⟩ :=
    ext2FileRead_quiet mounted quiet regular filled sized fits before count world
  grind

/-- A file of two blocks, of which the first is a hole or the disk block 7. -/
def twoBlockFile (first : UInt32) : VfsInode :=
  kilobyteInode 0o100644 2048 (pointersOnly fun k => if k = 0 then first else if k = 1 then 8 else 0)

omit mounted quiet regular filled sized fits in
/-- A read of four bytes inside the second block of a file whose first block is a hole. -/
theorem ext2FileRead_filled_iff_second :
    (∃ after, ext2FileRead (quietEnv fun i => UInt8.ofNat i) kilobyteSb (twoBlockFile 0) 4 1024
        bootWorld = .ok (some ((fileContent (fun i => UInt8.ofNat i) kilobyteFs
          (pointersOnly fun k => if k = 0 then 0 else if k = 1 then 8 else 0)).slice 1024 4,
          1024 + 4), after)) := by
  have complete := @ext2FileRead_filled_iff _ _ kilobyteSb kilobyteFs (twoBlockFile 0) _ rfl
    (quietEnv_quiet (fun i => UInt8.ofNat i) 0) (by decide) rfl kilobyteFs_sized (by decide) 1024
    (by decide) 4 bootWorld
  have size : min 4 ((twoBlockFile 0).size.toNat - 1024) = 4 := by decide
  rw [size] at complete
  refine complete.mpr fun i low high => ?_
  rw [Backed, show i / kilobyteFs.blockSize = 1 by simp only [kilobyteFs]; omega]
  decide

omit mounted quiet regular filled sized fits in
/-- Four bytes of a hole are not read as zeros: the call returns no byte. -/
theorem ext2FileRead_hole :
    ¬∃ after, ext2FileRead (quietEnv fun i => UInt8.ofNat i) kilobyteSb (twoBlockFile 0) 4 0
        bootWorld = .ok (some ((fileContent (fun i => UInt8.ofNat i) kilobyteFs
          (pointersOnly fun k => if k = 0 then 0 else if k = 1 then 8 else 0)).slice 0 4, 0 + 4),
          after) := by
  rintro ⟨after, full⟩
  obtain ⟨length, last, done, _, complete⟩ := @ext2FileRead_quiet _ _ kilobyteSb kilobyteFs
    (twoBlockFile 0) _ rfl (quietEnv_quiet (fun i => UInt8.ofNat i) 0) (by decide) rfl
    kilobyteFs_sized (by decide) 0 (by decide) 4 bootWorld
  have position := congrArg Prod.snd
    (Option.some.inj (congrArg Prod.fst (Except.ok.inj (done.symm.trans full))))
  have size : min 4 ((twoBlockFile 0).size.toNat - 0) = 4 := by decide
  rw [size] at complete
  -- The first byte of the file lies in the hole.
  exact complete.mp (Nat.add_left_cancel position) 0 (by decide) (by decide) (by decide)

@[grind =]
def HoleFree (image : ByteMem) (fs : Ext2FsInfo) (inode : VfsInode) (info : Ext2InodeInfo) : Prop :=
  ∀ i < inode.size.toNat, Backed image fs info i

/-- A read of a file without holes, from any position. -/
theorem ext2FileRead_holeFree (whole : HoleFree image fs inode info) (pos count : Nat)
    (world : FsWorld) :
    ∃ after, ext2FileRead env sb inode count pos world =
      .ok (some ((fileContent image fs info).slice pos (min count (inode.size.toNat - pos)),
        pos + min count (inode.size.toNat - pos)), after) := by
  by_cases before : pos < inode.size.toNat
  · rw [ext2FileRead_filled_iff mounted quiet regular filled sized fits before count world]
    intro i _ high
    exact whole i (by omega)
  · -- Behind the end nothing is read.
    refine ⟨world, ?_⟩
    unfold ext2FileRead
    rw [if_neg (by rw [regular]; decide), mounted]
    dsimp only
    rw [if_pos (by omega), show min count (inode.size.toNat - pos) = 0 by omega]
    rfl

/-- Two reads in a row give what one read of both lengths gives, the bytes of the file's blocks in
order. -/
theorem ext2FileRead_split (whole : HoleFree image fs inode info) (pos a b : Nat)
    (world other : FsWorld) :
    ∃ first second middle last between after done,
      ext2FileRead env sb inode a pos world = .ok (some (first, middle), between) ∧
      ext2FileRead env sb inode b middle between = .ok (some (second, last), after) ∧
      ext2FileRead env sb inode (a + b) pos other = .ok (some (first ++ second, last), done) ∧
      first ++ second =
        (fileContent image fs info).slice pos (min (a + b) (inode.size.toNat - pos)) := by
  obtain ⟨between, early⟩ :=
    ext2FileRead_holeFree mounted quiet regular filled sized fits whole pos a world
  obtain ⟨after, late⟩ := ext2FileRead_holeFree mounted quiet regular filled sized fits whole
    (pos + min a (inode.size.toNat - pos)) b between
  obtain ⟨done, both⟩ :=
    ext2FileRead_holeFree mounted quiet regular filled sized fits whole pos (a + b) other
  -- The two clipped lengths add up to the clipped sum.
  have lengths : min (a + b) (inode.size.toNat - pos) = min a (inode.size.toNat - pos) +
      min b (inode.size.toNat - (pos + min a (inode.size.toNat - pos))) := by
    omega
  refine ⟨_, _, _, _, between, after, done, early, late, ?_, ?_⟩
  · rw [both, lengths, ByteMem.slice_append, Nat.add_assoc]
  · rw [lengths, ByteMem.slice_append]

end Reads

/-- Ten bytes and then 3000 of a file of two blocks, from the middle of the first one. -/
theorem ext2FileRead_split_two :
    ∃ first second middle last between after done,
      ext2FileRead (quietEnv fun i => UInt8.ofNat i) kilobyteSb (twoBlockFile 7) 10 500 bootWorld =
        .ok (some (first, middle), between) ∧
      ext2FileRead (quietEnv fun i => UInt8.ofNat i) kilobyteSb (twoBlockFile 7) 3000 middle
        between = .ok (some (second, last), after) ∧
      ext2FileRead (quietEnv fun i => UInt8.ofNat i) kilobyteSb (twoBlockFile 7) (10 + 3000) 500
        bootWorld = .ok (some (first ++ second, last), done) ∧
      first ++ second = (fileContent (fun i => UInt8.ofNat i) kilobyteFs
        (pointersOnly fun k => if k = 0 then 7 else if k = 1 then 8 else 0)).slice 500
          (min (10 + 3000) ((twoBlockFile 7).size.toNat - 500)) := by
  refine @ext2FileRead_split _ _ kilobyteSb kilobyteFs (twoBlockFile 7) _ rfl
    (quietEnv_quiet (fun i => UInt8.ofNat i) 0) (by decide) rfl kilobyteFs_sized (by decide) ?_ 500
    10 3000 bootWorld bootWorld
  intro i inside
  have small : i < 2048 := inside
  have block : i / kilobyteFs.blockSize = 0 ∨ i / kilobyteFs.blockSize = 1 := by
    simp only [kilobyteFs]
    omega
  rcases block with first | second
  · rw [Backed, first]
    decide
  · rw [Backed, second]
    decide

end Quiet

end Ccos
