import Ccos.Fs.Ext2Dir
import Mathlib.Data.List.TakeWhile

/-! Which entries of a directory a lookup finds, in the layout of the driver and in the layout that
the disk format has. -/

namespace Ccos

open Lib

/-- A block tiled by records in the driver's own layout. -/
@[grind] structure DirRecords (bytes : ByteMem) (blockSize : Nat) (offsets : List Nat) : Prop where
  tiles : Tiles id (entryRecLen bytes) 0 offsets blockSize
  long : ∀ o ∈ offsets, 12 ≤ entryRecLen bytes o
  named : ∀ o ∈ offsets, 1 ≤ entryNameLen bytes o ∧ entryNameLen bytes o ≤ 255 ∧
    9 + entryNameLen bytes o ≤ entryRecLen bytes o

/-- The entries that a scan meets: those in front of the first deleted one, without an entry in the
last twelve bytes. -/
def seenEntries (bytes : ByteMem) (blockSize : Nat) (offsets : List Nat) : List Nat :=
  offsets.takeWhile fun o => entryInode bytes o ≠ 0 ∧ o + 12 < blockSize

section Scan

variable {bytes : ByteMem} {blockSize : Nat}

theorem mem_seenEntries {offsets : List Nat} {o : Nat}
    (member : o ∈ seenEntries bytes blockSize offsets) :
    o ∈ offsets ∧ entryInode bytes o ≠ 0 ∧ o + 12 < blockSize := by
  have live := List.mem_takeWhile_imp member
  exact ⟨(List.takeWhile_prefix _).subset member, by simpa using live⟩

theorem lookupScan_records (name : CString) {start : Nat} {offsets : List Nat}
    (tiles : Tiles id (entryRecLen bytes) start offsets blockSize)
    (formed : ∀ o ∈ offsets, 1 ≤ entryNameLen bytes o ∧ entryNameLen bytes o ≤ 255 ∧
      9 + entryNameLen bytes o ≤ entryRecLen bytes o) :
    lookupScan ⟨blockSize, bytes⟩ blockSize name start =
      some (((seenEntries bytes blockSize offsets).find? fun o => entryName bytes o = name.chars).map
        (entryInode bytes)) := by
  -- The induction is on the records from the current offset on.
  induction offsets generalizing start with
  | nil =>
    obtain rfl : start = blockSize := tiles
    exact lookupScan_end _ name (by omega)
  | cons o rest ih =>
    obtain ⟨here, later⟩ := tiles
    obtain rfl : o = start := here
    obtain ⟨positive, few, covers⟩ := formed o List.mem_cons_self
    have bound := later.le
    by_cases inside : o + 12 < blockSize
    · rw [lookupScan_step name inside]
      by_cases deleted : entryInode bytes o = 0
      · rw [if_pos (.inl deleted), seenEntries, List.takeWhile_cons_of_neg (by simp [deleted])]
        rfl
      · rw [if_neg (by omega), if_neg (by omega), seenEntries,
          List.takeWhile_cons_of_pos (by simp [deleted, inside])]
        obtain ⟨difference, compared, same⟩ := @Buffer.strncmp_inside ⟨blockSize, bytes⟩ (o + 9)
          (entryNameLen bytes o) name.chars name.noNul (by dsimp only; omega)
        have equal : _ ↔ entryName bytes o = name.chars := same.trans eq_comm
        rw [compared, Option.bind_some]
        by_cases alike : entryName bytes o = name.chars
        · grind
        · rw [if_neg fun both => alike (equal.mp both),
            List.find?_cons_of_neg (by simpa using alike)]
          exact ih later fun p member => formed p (List.mem_cons_of_mem _ member)
    · rw [lookupScan_end _ name inside, seenEntries, List.takeWhile_cons_of_neg (by simp [inside])]
      rfl

end Scan

section Driver

variable {env : FsEnv} {image : ByteMem} {sb : VfsSuperblock} {fs : Ext2FsInfo} {dir : VfsInode}
  {info : Ext2InodeInfo} {count : Nat} {records : Nat → List Nat}

/-- A directory of some direct blocks, each tiled by records in the driver's layout; the inode
numbers of its live entries can be read. -/
@[grind] structure DirBlocks (env : FsEnv) (image : ByteMem) (sb : VfsSuperblock) (fs : Ext2FsInfo)
    (dir : VfsInode) (info : Ext2InodeInfo) (count : Nat) (records : Nat → List Nat) : Prop where
  mounted : sb.fsInfo = some fs
  quiet : env.Quiet fs.device image
  isDir : vfsIsDir dir = true
  filled : dir.info = some info
  sized : fs.BlockSized
  direct : count ≤ 12
  size : dir.size.toNat = count * fs.blockSize
  present : ∀ k < count, info.pointer k ≠ 0
  formed : ∀ k < count, DirRecords (dirBlockBytes image fs info k) fs.blockSize (records k)
  readable : ∀ k < count, ∀ o ∈ records k, entryInode (dirBlockBytes image fs info k) o ≠ 0 →
    fs.Readable (entryInode (dirBlockBytes image fs info k) o)

/-- Some live record in some block of the directory has the name. -/
@[grind =] def LiveEntry (image : ByteMem) (fs : Ext2FsInfo) (info : Ext2InodeInfo) (count : Nat)
    (records : Nat → List Nat) (name : CString) : Prop :=
  ∃ k < count, ∃ o ∈ records k, entryInode (dirBlockBytes image fs info k) o ≠ 0 ∧
    entryName (dirBlockBytes image fs info k) o = name.chars

theorem DirBlocks.ready (blocks : DirBlocks env image sb fs dir info count records)
    (nonempty : 0 < count) : DirReady env image sb fs dir info :=
  ⟨blocks.mounted, blocks.quiet, blocks.isDir, blocks.filled, blocks.sized,
    by rw [blocks.size]; exact Nat.mul_pos nonempty blocks.sized.positive, blocks.present 0 nonempty⟩

theorem ext2Lookup_found_iff (blocks : DirBlocks env image sb fs dir info count records)
    (name : CString) (world : FsWorld) :
    (∃ inode after, ext2Lookup env sb dir name world = .ok (some inode, after)) ↔
      0 < count ∧ ∃ o ∈ seenEntries (dirBlockBytes image fs info 0) fs.blockSize (records 0),
        entryName (dirBlockBytes image fs info 0) o = name.chars := by
  by_cases nonempty : 0 < count
  · have whole := blocks.formed 0 nonempty
    have called := ext2Lookup_quiet (blocks.ready nonempty) name world
    rw [lookupScan_records name whole.tiles whole.named] at called
    cases found : (seenEntries (dirBlockBytes image fs info 0) fs.blockSize (records 0)).find?
        fun o => entryName (dirBlockBytes image fs info 0) o = name.chars with
    | none =>
      grind
    | some o =>
      rw [found] at called
      have member := List.mem_of_find?_eq_some found
      obtain ⟨inside, live, _⟩ := mem_seenEntries member
      grind
  · -- Without a block the first byte lies behind the end.
    have empty : dir.size.toNat = 0 := by
      rw [blocks.size, show count = 0 by omega, Nat.zero_mul]
    have failed : ext2Lookup env sb dir name world = .ok (none, world) := by
      unfold ext2Lookup
      rw [if_neg (by rw [blocks.isDir]; decide), blocks.mounted, blocks.filled]
      dsimp only
      have missing : ext2GetBlock env sb dir 0 world = .ok (none, world) := by
        unfold ext2GetBlock
        rw [blocks.filled, blocks.mounted]
        dsimp only
        rw [if_pos (by omega)]
        rfl
      rw [FsM.bind_ok missing]
      rfl
    grind

/-- A lookup succeeds exactly for the names of live entries, if and only if a live name stands in the
first block, in front of every deleted entry and of the last twelve bytes. -/
theorem ext2Lookup_complete_iff (blocks : DirBlocks env image sb fs dir info count records)
    (name : CString) (world : FsWorld) :
    ((∃ inode after, ext2Lookup env sb dir name world = .ok (some inode, after)) ↔
        LiveEntry image fs info count records name) ↔
      (LiveEntry image fs info count records name →
        ∃ o ∈ seenEntries (dirBlockBytes image fs info 0) fs.blockSize (records 0),
          entryName (dirBlockBytes image fs info 0) o = name.chars) := by
  rw [ext2Lookup_found_iff blocks name world]
  constructor
  · intro complete live
    exact (complete.mpr live).2
  · intro early
    constructor
    · rintro ⟨nonempty, o, member, named⟩
      obtain ⟨inside, live, _⟩ := mem_seenEntries member
      exact ⟨0, nonempty, o, inside, live, named⟩
    grind

/-- A disk whose fifth block of 1024 bytes starts with given bytes. -/
def blockFive (bytes : List UInt8) : ByteMem :=
  fun i => if i < 5120 then 0 else bytes.getD (i - 5120) 0

/-- Private data of a directory in that block. -/
def blockFiveInfo : Ext2InodeInfo :=
  pointersOnly fun k => if k = 0 then 5 else 0

/-- Two entries in the driver's layout: "a" with an inode number and "b" with inode 12. -/
def twoEntries (first : UInt8) : ByteMem :=
  blockFive [first, 0, 0, 0, 12, 0, 1, 0, 1, 97, 0, 0, 12, 0, 0, 0, 0xF4, 3, 1, 0, 1, 98]

theorem twoEntries_blocks {first : UInt8} (valid : first = 0 ∨ first = 11) :
    DirBlocks (quietEnv (twoEntries first)) (twoEntries first) kilobyteSb kilobyteFs
      (kilobyteInode 0o040000 1024 blockFiveInfo) blockFiveInfo 1 fun _ => [0, 12] where
  mounted := rfl
  quiet := quietEnv_quiet _ _
  isDir := by decide
  filled := rfl
  sized := kilobyteFs_sized
  direct := by decide
  size := by decide
  present := by decide
  formed := by
    intro k one
    obtain rfl : k = 0 := by omega
    rcases valid with rfl | rfl
    · exact ⟨by decide +kernel, by decide +kernel, by decide +kernel⟩
    · exact ⟨by decide +kernel, by decide +kernel, by decide +kernel⟩
  readable := by
    intro k one o member live
    obtain rfl : k = 0 := by omega
    obtain rfl | rfl : o = 0 ∨ o = 12 := by simpa using member
    · refine kilobyteFs_readable live ?_
      rcases valid with rfl | rfl
      · decide +kernel
      · decide +kernel
    · refine kilobyteFs_readable live ?_
      rcases valid with rfl | rfl
      · decide +kernel
      · decide +kernel

/-- With both entries live, "b" is found. -/
theorem ext2Lookup_complete_iff_two :
    (∃ inode after, ext2Lookup (quietEnv (twoEntries 11)) kilobyteSb
      (kilobyteInode 0o040000 1024 blockFiveInfo) ⟨[98], by decide⟩ bootWorld =
        .ok (some inode, after)) ↔
      LiveEntry (twoEntries 11) kilobyteFs blockFiveInfo 1 (fun _ => [0, 12]) ⟨[98], by decide⟩ :=
  (ext2Lookup_complete_iff (twoEntries_blocks (.inr rfl)) ⟨[98], by decide⟩ bootWorld).mpr
    fun _ => ⟨12, by decide +kernel, by decide +kernel⟩

/-- Behind a deleted entry "a", the live entry "b" is not found. -/
theorem ext2Lookup_behind_deleted :
    LiveEntry (twoEntries 0) kilobyteFs blockFiveInfo 1 (fun _ => [0, 12]) ⟨[98], by decide⟩ ∧
      ¬∃ inode after, ext2Lookup (quietEnv (twoEntries 0)) kilobyteSb
        (kilobyteInode 0o040000 1024 blockFiveInfo) ⟨[98], by decide⟩ bootWorld =
          .ok (some inode, after) := by
  refine ⟨⟨0, by decide, 12, by decide, by decide +kernel, by decide +kernel⟩, ?_⟩
  rw [ext2Lookup_found_iff (twoEntries_blocks (.inl rfl)) ⟨[98], by decide⟩ bootWorld]
  rintro ⟨_, o, member, _⟩
  have none : seenEntries (dirBlockBytes (twoEntries 0) kilobyteFs blockFiveInfo 0) 1024 [0, 12] =
      [] := by decide +kernel
  rw [show kilobyteFs.blockSize = 1024 from rfl, none] at member
  cases member

end Driver

section Disk

variable (bytes : ByteMem) (offset : Nat)

/-- The length of a name in the format of the disk, of one byte. -/
def diskNameLen : Nat := bytes.load (offset + 6) 1

def diskFileType : Nat := bytes.load (offset + 7) 1

def diskName : List UInt8 := bytes.slice (offset + 8) (diskNameLen bytes offset)

/-- A block tiled by live records in the format of the disk. -/
@[grind]
structure DiskRecords (bytes : ByteMem) (blockSize : Nat) (offsets : List Nat) : Prop where
  tiles : Tiles id (entryRecLen bytes) 0 offsets blockSize
  covers : ∀ o ∈ offsets, 8 + diskNameLen bytes o ≤ entryRecLen bytes o
  live : ∀ o ∈ offsets, entryInode bytes o ≠ 0
  last : ∀ o, offsets.getLast? = some o → 12 < entryRecLen bytes o

/-- The driver takes a record for one with the name: it has no file type, and the name stands in it
one byte too late. -/
@[grind =]
def ShiftedMatch (bytes : ByteMem) (blockSize : Nat) (name : CString) (o : Nat) : Prop :=
  diskFileType bytes o = 0 ∧ diskNameLen bytes o ≠ 0 ∧ o + 9 + diskNameLen bytes o ≤ blockSize ∧
    bytes.slice (o + 9) (diskNameLen bytes o) = name.chars

/-- The driver compares a name with the byte behind the block: the record has no file type, its name
fills it to the end of the block, and all of the name but its first byte starts the wanted one. -/
@[grind =] def RunsOut (bytes : ByteMem) (blockSize : Nat) (name : CString) (o : Nat) : Prop :=
  diskFileType bytes o = 0 ∧ diskNameLen bytes o ≠ 0 ∧ blockSize < o + 9 + diskNameLen bytes o ∧
    bytes.slice (o + 9) (diskNameLen bytes o - 1) <+: name.chars

instance (bytes : ByteMem) (blockSize : Nat) (name : CString) :
    DecidablePred (ShiftedMatch bytes blockSize name) :=
  fun _ => inferInstanceAs (Decidable (_ ∧ _))

instance (bytes : ByteMem) (blockSize : Nat) (name : CString) :
    DecidablePred (RunsOut bytes blockSize name) :=
  fun _ => inferInstanceAs (Decidable (_ ∧ _))

variable {bytes} {blockSize start : Nat} {offsets : List Nat}

theorem entryNameLen_disk (o : Nat) :
    entryNameLen bytes o = diskNameLen bytes o + 256 * diskFileType bytes o := by
  simp [entryNameLen, diskNameLen, diskFileType, ByteMem.load]

theorem header_inside (tiles : Tiles id (entryRecLen bytes) start offsets blockSize)
    (last : ∀ o, offsets.getLast? = some o → 12 < entryRecLen bytes o) :
    ∀ o ∈ offsets, o + 12 < blockSize := by
  induction offsets generalizing start with
  | nil => simp
  | cons o rest ih =>
    obtain ⟨here, later⟩ := tiles
    obtain rfl : o = start := here
    cases rest with
    | nil =>
      have ends : o + entryRecLen bytes o = blockSize := later
      grind
    | cons p more =>
      have inside := ih later last
      have next : p = o + entryRecLen bytes o := later.1
      have first := inside p List.mem_cons_self
      grind

/-- A lookup finds the first record that has the name one byte too late. Without one, it may leave
the block at the last record. -/
theorem lookupScan_disk (name : CString)
    (tiles : Tiles id (entryRecLen bytes) start offsets blockSize)
    (covers : ∀ o ∈ offsets, 8 + diskNameLen bytes o ≤ entryRecLen bytes o)
    (live : ∀ o ∈ offsets, entryInode bytes o ≠ 0) (inside : ∀ o ∈ offsets, o + 12 < blockSize) :
    lookupScan ⟨blockSize, bytes⟩ blockSize name start =
      match offsets.find? (ShiftedMatch bytes blockSize name) with
      | some o => some (some (entryInode bytes o))
      | none => if ∃ o ∈ offsets, RunsOut bytes blockSize name o then none else some none := by
  induction offsets generalizing start with
  | nil =>
    obtain rfl : start = blockSize := tiles
    rw [lookupScan_end _ name (by omega)]
    simp
  | cons o rest ih =>
    obtain ⟨here, later⟩ := tiles
    obtain rfl : o = start := here
    have covered := covers o List.mem_cons_self
    have rest_eq := ih later (fun p member => covers p (List.mem_cons_of_mem _ member))
      (fun p member => live p (List.mem_cons_of_mem _ member))
      (fun p member => inside p (List.mem_cons_of_mem _ member))
    have len := @entryNameLen_disk bytes o
    have byte : diskNameLen bytes o < 256 := ByteMem.load_lt
    rw [lookupScan_step name (inside o List.mem_cons_self),
      if_neg (not_or.mpr ⟨live o List.mem_cons_self, by omega⟩)]
    by_cases skipped : entryNameLen bytes o = 0 ∨ 255 < entryNameLen bytes o
    · -- A record with a file type or without a name is passed over.
      have other : ¬ShiftedMatch bytes blockSize name o := fun found => by
        obtain ⟨plain, named, _⟩ := found
        omega
      have stays : ¬RunsOut bytes blockSize name o := fun found => by
        obtain ⟨plain, named, _⟩ := found
        omega
      rw [if_pos skipped, rest_eq, List.find?_cons_of_neg (by simpa using other)]
      simp only [List.mem_cons, exists_eq_or_imp, stays, false_or]
    · have plain : diskFileType bytes o = 0 := by omega
      have named : diskNameLen bytes o ≠ 0 := by omega
      rw [if_neg skipped, show entryNameLen bytes o = diskNameLen bytes o by omega]
      by_cases fits : o + 9 + diskNameLen bytes o ≤ blockSize
      · obtain ⟨difference, compared, equal⟩ := @Buffer.strncmp_inside ⟨blockSize, bytes⟩ (o + 9)
          (diskNameLen bytes o) name.chars name.noNul fits
        rw [compared, Option.bind_some]
        by_cases alike : name.chars = bytes.slice (o + 9) (diskNameLen bytes o)
        · grind
        · have other : ¬ShiftedMatch bytes blockSize name o :=
            fun found => alike found.2.2.2.symm
          have stays : ¬RunsOut bytes blockSize name o := fun found => by
            have := found.2.2.1
            omega
          rw [if_neg fun both => alike (equal.mp both), rest_eq,
            List.find?_cons_of_neg (by simpa using other)]
          simp only [List.mem_cons, exists_eq_or_imp, stays, false_or]
      · -- Only the last record can end so close to the end of the block.
        have bound := later.le
        have nothing : rest = [] := by
          cases rest with
          | nil => rfl
          | cons p more =>
            have next : p = o + entryRecLen bytes o := later.1
            have := inside p (by simp)
            omega
        subst nothing
        obtain ⟨leaves, stays⟩ := @Buffer.strncmp_edge ⟨blockSize, bytes⟩ (o + 9)
          (diskNameLen bytes o - 1) name.chars name.noNul (by dsimp only; omega)
        rw [show diskNameLen bytes o - 1 + 1 = diskNameLen bytes o by omega] at leaves stays
        have other : ¬ShiftedMatch bytes blockSize name o := fun found => fits found.2.2.1
        rw [List.find?_cons_of_neg (by simpa using other), List.find?_nil]
        simp only [List.mem_singleton, exists_eq_left]
        grind

/-- A directory of one block in the format of the disk, with valid inode numbers. -/
@[grind] structure DiskDir (env : FsEnv) (image : ByteMem) (sb : VfsSuperblock) (fs : Ext2FsInfo)
    (dir : VfsInode) (info : Ext2InodeInfo) (offsets : List Nat) : Prop where
  ready : DirReady env image sb fs dir info
  size : dir.size.toNat = fs.blockSize
  records : DiskRecords (dirBlockBytes image fs info 0) fs.blockSize offsets
  readable : ∀ o ∈ offsets, fs.Readable (entryInode (dirBlockBytes image fs info 0) o)

/-- A lookup gives the inode of the first record with the name, if and only if the record that the
driver takes for it carries the same inode, and the driver does not leave the block before. -/
theorem ext2Lookup_disk_iff {env : FsEnv} {image : ByteMem} {sb : VfsSuperblock} {fs : Ext2FsInfo}
    {dir : VfsInode} {info : Ext2InodeInfo} {offsets : List Nat}
    (encoded : DiskDir env image sb fs dir info offsets) (name : CString) (world : FsWorld) :
    (∃ result after, ext2Lookup env sb dir name world = .ok (result, after) ∧
      result.map VfsInode.ino = (offsets.find? fun o =>
        diskName (dirBlockBytes image fs info 0) o = name.chars).map
          (entryInode (dirBlockBytes image fs info 0))) ↔
    ((∃ o ∈ offsets, RunsOut (dirBlockBytes image fs info 0) fs.blockSize name o) →
      ∃ o ∈ offsets, ShiftedMatch (dirBlockBytes image fs info 0) fs.blockSize name o) ∧
    (offsets.find? (ShiftedMatch (dirBlockBytes image fs info 0) fs.blockSize name)).map
        (entryInode (dirBlockBytes image fs info 0)) =
      (offsets.find? fun o => diskName (dirBlockBytes image fs info 0) o = name.chars).map
        (entryInode (dirBlockBytes image fs info 0)) := by
  have called := ext2Lookup_quiet encoded.ready name world
  have records := encoded.records
  have readable := encoded.readable
  rw [lookupScan_disk name records.tiles records.covers records.live
    (header_inside records.tiles records.last)] at called
  generalize dirBlockBytes image fs info 0 = bytes at *
  cases found : offsets.find? (ShiftedMatch bytes fs.blockSize name) with
  | some o =>
    grind
  | none =>
    have missing : ¬∃ o ∈ offsets, ShiftedMatch bytes fs.blockSize name o := by
      simpa using found
    simp only [found] at called
    by_cases leaves : ∃ o ∈ offsets, RunsOut bytes fs.blockSize name o
    all_goals grind

/-- Two records in the format of the disk: "a" with inode 11, without a file type and followed by
another "a", and a file "b" with inode 12. -/
def twoRecords : ByteMem :=
  blockFive [11, 0, 0, 0, 12, 0, 1, 0, 97, 97, 0, 0, 12, 0, 0, 0, 0xF4, 3, 1, 1, 98]

theorem twoRecords_dir :
    DiskDir (quietEnv twoRecords) twoRecords kilobyteSb kilobyteFs
      (kilobyteInode 0o040000 1024 blockFiveInfo) blockFiveInfo [0, 12] where
  ready := ⟨rfl, quietEnv_quiet _ _, by decide, rfl, kilobyteFs_sized, by decide, by decide⟩
  size := by decide
  records :=
    ⟨by decide +kernel, by decide +kernel, by decide +kernel, fun o last => by
      obtain rfl : 12 = o := by simpa using last
      decide +kernel⟩
  readable := by
    intro o member
    obtain rfl | rfl : o = 0 ∨ o = 12 := by simpa using member
    · exact kilobyteFs_readable (by decide +kernel) (by decide +kernel)
    · exact kilobyteFs_readable (by decide +kernel) (by decide +kernel)

/-- The first name is found, because the letter behind it is taken for it. -/
theorem ext2Lookup_disk_iff_found :
    ∃ result after, ext2Lookup (quietEnv twoRecords) kilobyteSb
        (kilobyteInode 0o040000 1024 blockFiveInfo) ⟨[97], by decide⟩ bootWorld =
          .ok (result, after) ∧ result.map VfsInode.ino = some 11 := by
  obtain ⟨result, after, called, number⟩ :=
    (ext2Lookup_disk_iff twoRecords_dir ⟨[97], by decide⟩ bootWorld).mpr
      ⟨fun out => absurd out (by decide +kernel), by decide +kernel⟩
  exact ⟨result, after, called, number.trans (by decide +kernel)⟩

/-- The file "b" is not found, although it has a record. -/
theorem ext2Lookup_misses_record :
    ([0, 12].find? fun o =>
        diskName (dirBlockBytes twoRecords kilobyteFs blockFiveInfo 0) o = [98]) = some 12 ∧
      ∃ after, ext2Lookup (quietEnv twoRecords) kilobyteSb
        (kilobyteInode 0o040000 1024 blockFiveInfo) ⟨[98], by decide⟩ bootWorld =
          .ok (none, after) := by
  have records := twoRecords_dir.records
  have called := ext2Lookup_quiet twoRecords_dir.ready ⟨[98], by decide⟩ bootWorld
  rw [lookupScan_disk _ records.tiles records.covers records.live
    (header_inside records.tiles records.last)] at called
  have missing : [0, 12].find? (ShiftedMatch (dirBlockBytes twoRecords kilobyteFs blockFiveInfo 0)
      kilobyteFs.blockSize ⟨[98], by decide⟩) = none := by decide +kernel
  have stays : ¬∃ o ∈ [0, 12], RunsOut (dirBlockBytes twoRecords kilobyteFs blockFiveInfo 0)
      kilobyteFs.blockSize ⟨[98], by decide⟩ o := by decide +kernel
  rw [missing] at called
  simp only [if_neg stays] at called
  exact ⟨by decide +kernel, called⟩

end Disk

end Ccos
