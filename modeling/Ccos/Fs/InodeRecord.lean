import Ccos.Fs.Ext2Inode

/-! Which bytes of the disk `ext2_read_inode` fills an inode from. -/

namespace Ccos

open Lib

variable {env : FsEnv} {image : ByteMem} {fs : Ext2FsInfo} {ino : Nat}

/-- The byte address of an inode record on disk. -/
def Ext2FsInfo.recordAddr (fs : Ext2FsInfo) (ino : Nat) : Nat :=
  fs.inodeTable ino * fs.blockSize + fs.inodeOffset ino

/-- For every disk on which nothing fails, an inode is filled from its record, without an access
outside the block buffer. -/
def Ext2FsInfo.FillsRecord (fs : Ext2FsInfo) (ino : Nat) : Prop :=
  ∀ env image sb world inode, sb.fsInfo = some fs → env.Quiet fs.device image → inode.ino = ino →
    ∃ ei after, ext2ReadInode env sb inode world =
      .ok ((true, inodeFrom image (fs.recordAddr ino) ei inode), after)

/-- Code that never reports success. -/
def NeverReads {Result : Type} (code : FsM (Bool × Result)) : Prop :=
  ∀ world result after, code world = .ok (result, after) → result.1 = false

theorem NeverReads.bind {Result Value : Type} {first : FsM Value}
    {second : Value → FsM (Bool × Result)} (never : ∀ value, NeverReads (second value)) :
    NeverReads (first >>= second) := by
  intro world result after done
  cases started : first world with
  | error fault => simp [Bind.bind, StateT.bind, Except.bind, started] at done
  | ok pair => exact never pair.1 pair.2 result after (by rwa [FsM.bind_ok started] at done)

theorem fillInode_outside {data : HeapBuffer} {offset : Nat} {inode : VfsInode}
    (outside : data.size < offset + 112) : NeverReads (fillInode env data offset inode) := by
  -- The field that ends last is outside of the buffer.
  have last : data.load (offset + 108) 4 = none := if_neg (by omega)
  refine .bind fun _ => .bind fun _ => .bind fun _ => .bind fun _ => .bind fun granted => ?_
  cases granted with
  | none =>
    refine .bind fun _ world result after done => ?_
    cases done
    rfl
  | some ei =>
    refine .bind fun _ => .bind fun _ => .bind fun _ => ?_
    rw [last]
    intro world result after done
    cases done

/-- The address that the arithmetic of 32 bits leads to. -/
def Ext2FsInfo.readAddr (fs : Ext2FsInfo) (ino : Nat) : Nat :=
  (fs.inodeTable ino + fs.inodeOffset ino % 2 ^ 32 / fs.blockSize) % 2 ^ 32 * fs.blockSize +
    fs.inodeOffset ino % 2 ^ 32 % fs.blockSize

theorem inodeFrom_moved {bytes other : ByteMem} {place start ei : Nat} {inode : VfsInode}
    (same : ∀ i < 112, bytes (place + i) = other (start + i)) :
    inodeFrom bytes place ei inode = inodeFrom other start ei inode := by
  have moved (k width : Nat) (inside : k + width ≤ 112) :
      bytes.load (place + k) width = other.load (start + k) width :=
    ByteMem.load_moved fun i small => by simpa [Nat.add_assoc] using same (k + i) (by omega)
  simp only [inodeFrom, Nat.add_assoc]
  rw [moved 4 4 (by omega), moved 28 4 (by omega), moved 26 2 (by omega), moved 32 4 (by omega),
    moved 104 4 (by omega), moved 108 4 (by omega), moved 20 4 (by omega)]
  congr 1
  · exact moved 0 2 (by omega)
  · congr 2
    funext k
    rw [moved (40 + 4 * k.val) 4 (by omega)]

/-- An inode is filled from the address that was computed, if its fields lie in one block. -/
theorem ext2ReadInode_place {sb : VfsSuperblock} {world : FsWorld} {inode : VfsInode}
    (mounted : sb.fsInfo = some fs) (quiet : env.Quiet fs.device image) (valid : fs.Valid inode.ino)
    (sectors : 512 ∣ fs.blockSize) (positive : 0 < fs.blockSize) :
    (fs.inodeOffset inode.ino % 2 ^ 32 % fs.blockSize + 112 ≤ fs.blockSize →
      ∃ ei after, ext2ReadInode env sb inode world =
        .ok ((true, inodeFrom image (fs.readAddr inode.ino) ei inode), after)) ∧
    (fs.blockSize < fs.inodeOffset inode.ino % 2 ^ 32 % fs.blockSize + 112 →
      ∀ result after, ext2ReadInode env sb inode world = .ok (result, after) → result.1 = false) := by
  obtain ⟨data, second, size, bytes, read⟩ := @ext2ReadInode_reads env image world sb fs mounted quiet
    inode valid positive
  rw [read]
  constructor
  · intro inside
    obtain ⟨ei, after, filled⟩ := @fillInode_ok env image second fs quiet data
      (fs.inodeOffset inode.ino % 2 ^ 32 % fs.blockSize) inode (by rw [size]; exact inside)
    refine ⟨ei, after, filled.trans ?_⟩
    rw [inodeFrom_moved fun i small => ?_]
    obtain ⟨count, scale⟩ := sectors
    rw [bytes _ (by omega), Ext2FsInfo.readAddr]
    congr 1
    rw [show fs.blockSize / 512 = count by omega, Nat.mul_left_comm, ← scale, Nat.add_assoc]
  · exact fun outside => fillInode_outside (by rw [size]; exact outside) second

/-- Some inode with a number, in a superblock of a file system. -/
def inodeIn (fs : Ext2FsInfo) (ino : Nat) : VfsSuperblock × VfsInode :=
  ({ kilobyteSb with fsInfo := some fs },
    { kilobyteInode 0 0 (pointersOnly fun _ => 0) with ino })

theorem not_fillsRecord (valid : fs.Valid ino) (sectors : 512 ∣ fs.blockSize)
    (positive : 0 < fs.blockSize)
    (outside : fs.blockSize < fs.inodeOffset ino % 2 ^ 32 % fs.blockSize + 112) :
    ¬fs.FillsRecord ino := by
  intro fills
  obtain ⟨ei, after, filled⟩ := fills (quietEnv fun _ => 0) (fun _ => 0) (inodeIn fs ino).1 bootWorld
    (inodeIn fs ino).2 rfl (quietEnv_quiet _ _) rfl
  have place := @ext2ReadInode_place (quietEnv fun _ => 0) (fun _ => 0) fs (inodeIn fs ino).1
    bootWorld (inodeIn fs ino).2 rfl (quietEnv_quiet _ _) valid sectors positive
  exact absurd (place.2 outside _ _ filled) (by simp)

/-- The record is the right one exactly if neither its offset in the table nor its block number needs
more than 32 bits, and its fields lie in one block. -/
theorem ext2ReadInode_record_iff (sized : fs.blockSize = 1024 ∨ fs.blockSize = 2048 ∨
      fs.blockSize = 4096) (valid : fs.Valid ino) :
    fs.FillsRecord ino ↔ fs.inodeOffset ino < 2 ^ 32 ∧
      fs.inodeTable ino + fs.inodeOffset ino / fs.blockSize < 2 ^ 32 ∧
      fs.inodeOffset ino % fs.blockSize + 112 ≤ fs.blockSize := by
  have table : fs.inodeTable ino < 2 ^ 32 := ByteMem.load_lt
  constructor
  · intro fills
    have sectors : 512 ∣ fs.blockSize := by
      rcases sized with size | size | size <;> rw [size] <;> decide
    have inside : fs.inodeOffset ino % 2 ^ 32 % fs.blockSize + 112 ≤ fs.blockSize := by
      by_contra outside
      exact not_fillsRecord valid sectors (by omega) (by omega) fills
    -- A disk that is empty but for the first byte of the record.
    let image : ByteMem := fun i => if i = fs.recordAddr ino then 1 else 0
    obtain ⟨ei, after, filled⟩ := fills (quietEnv image) image (inodeIn fs ino).1 bootWorld
      (inodeIn fs ino).2 rfl (quietEnv_quiet image _) rfl
    have place := @ext2ReadInode_place (quietEnv image) image fs (inodeIn fs ino).1 bootWorld
      (inodeIn fs ino).2 rfl (quietEnv_quiet image _) valid sectors (by omega)
    obtain ⟨ei', after', read⟩ := place.1 inside
    rw [filled] at read
    have mode : image.load (fs.recordAddr ino) 2 = image.load (fs.readAddr ino) 2 := by
      injection read with same
      exact congrArg (fun result => result.1.2.mode) same
    have near : fs.recordAddr ino ≤ fs.readAddr ino + 1 := by
      by_contra far
      simp [ByteMem.load, image, show fs.readAddr ino ≠ fs.recordAddr ino by omega,
        show fs.readAddr ino + 1 ≠ fs.recordAddr ino by omega] at mode
    simp only [Ext2FsInfo.recordAddr, Ext2FsInfo.readAddr] at near
    rcases sized with size | size | size <;> rw [size] at near inside ⊢ <;> omega
  · rintro ⟨offset, block, inside⟩ env image sb world inode mounted quiet rfl
    have place := @ext2ReadInode_place env image fs sb world inode mounted quiet valid
      (by rcases sized with size | size | size <;> rw [size] <;> decide) (by omega)
    have same : fs.readAddr inode.ino = fs.recordAddr inode.ino := by
      simp only [Ext2FsInfo.recordAddr, Ext2FsInfo.readAddr]
      rcases sized with size | size | size <;> rw [size] at block ⊢ <;> omega
    rw [Nat.mod_eq_of_lt offset, same] at place
    exact place.1 inside

/-- The first inode in a table of inodes of 128 bytes. -/
theorem ext2ReadInode_record_iff_first : kilobyteFs.FillsRecord 1 :=
  (ext2ReadInode_record_iff (.inl rfl) ⟨by decide, by decide, by decide, by decide, by decide⟩).mpr
    (by decide)

def wideInodes : Ext2FsInfo := { kilobyteFs with inodeSize := 160 }

/-- The seventh inode of 160 bytes lies on two blocks, and reading it leaves the buffer. -/
theorem ext2ReadInode_crosses : wideInodes.Valid 7 ∧ ¬wideInodes.FillsRecord 7 := by
  have valid : wideInodes.Valid 7 := ⟨by decide, by decide, by decide, by decide, by decide⟩
  exact ⟨valid, not_fillsRecord valid (by decide) (by decide) (by decide)⟩

end Ccos
