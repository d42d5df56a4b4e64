import Ccos.Fs.VfsPath

/-! File objects: opening and closing in `fs/vfs/vfs_open.c` and `fs/vfs/vfs_file.c`, which hold
references to inodes, and the position in a file. -/

namespace Ccos

open Lib

structure VfsFile where
  inode : Option Nat
  pos : Nat
  flags : UInt32
  mode : UInt32
  count : UInt32
  deriving DecidableEq, Repr

def oRdonly : UInt32 := 0x0000
def oWronly : UInt32 := 0x0001
def oRdwr : UInt32 := 0x0002
def oCreat : UInt32 := 0x0040
def oExcl : UInt32 := 0x0080
def fmodeRead : UInt32 := 1
def fmodeWrite : UInt32 := 2

def vfsAllocFile (memory : Bool) : Option VfsFile :=
  if memory then some ⟨none, 0, 0, 0, 1⟩ else none

/-- Free a file object with its reference to the inode. -/
def vfsFreeFile (file : VfsFile) (cache : InodeCache) : InodeCache :=
  match file.inode with
  | some inode => cache.vfsIput inode
  | none => cache

/-- Release a reference to a file object; the last one frees it. -/
def vfsFilePut (file : VfsFile) (cache : InodeCache) : Option VfsFile × InodeCache :=
  let count := if 0 < file.count then file.count - 1 else file.count
  if count = 0 then (none, vfsFreeFile file cache) else (some { file with count }, cache)

def vfsClose (file : VfsFile) (cache : InodeCache) : Option VfsFile × InodeCache :=
  vfsFilePut file cache

/-- The mode of a file that is opened with these flags. -/
def openMode (flags : UInt32) : UInt32 :=
  -- The mask is a single bit, so that files opened for writing only get the mode for reading.
  if flags &&& oRdwr = oRdonly then fmodeRead
  else if flags &&& oRdwr = oWronly then fmodeWrite
  else fmodeRead ||| fmodeWrite

/-- What opening depends on besides the inodes: the memory for the file object, and what the `open`
operation of an inode returns, where it has one. -/
structure OpenEnv where
  memory : Bool
  openHook : Nat → VfsFile → Option Int

def vfsOpenInode (env : OpenEnv) (inode : Nat) (flags : UInt32) (cache : InodeCache) :
    Except Int VfsFile × InodeCache :=
  match vfsAllocFile env.memory with
  | none => (.error (-1), cache)
  | some file =>
    let file := { file with inode := some inode, flags, pos := 0, mode := openMode flags }
    let result := (env.openHook inode file).getD 0
    -- Freeing the file object releases the reference of the caller.
    if result ≠ 0 then (.error result, (vfsFilePut file cache).2)
    else (.ok file, cache.hold inode)

def vfsOpen (env : OpenEnv) (fs : FileSystem) (root : Option Nat) (path : CString) (flags : UInt32)
    (cache : InodeCache) : Except Int VfsFile × InodeCache :=
  match vfsPathLookup fs root path cache with
  | (none, cache) => (.error (-1), cache)
  | (some inode, cache) =>
    if flags &&& oExcl ≠ 0 ∧ flags &&& oCreat ≠ 0 then (.error (-1), cache.vfsIput inode)
    else
      match vfsOpenInode env inode flags cache with
      | (.error result, cache) => (.error result, cache.vfsIput inode)
      | (.ok file, cache) => (.ok file, cache)

def openClose (env : OpenEnv) (fs : FileSystem) (root : Option Nat) (path : CString)
    (flags : UInt32) (cache : InodeCache) : InodeCache :=
  match vfsOpen env fs root path flags cache with
  | (.error _, cache) => cache
  | (.ok file, cache) => (vfsClose file cache).2

section Close

variable {cache start : InodeCache} {inode : Nat}

theorem vfsFilePut_last {pos : Nat} {flags mode : UInt32} :
    (vfsFilePut ⟨some inode, pos, flags, mode, 1⟩ cache).2 = cache.vfsIput inode := by
  simp [vfsFilePut, vfsFreeFile]

theorem InodeCache.Balanced.release (looked : start.Balanced cache (some inode)) :
    start.Balanced (cache.vfsIput inode) none :=
  .put (by simpa using looked.refs) looked.freed looked.misused

theorem InodeCache.Balanced.not_twice (looked : start.Balanced cache (some inode))
    (clean : start.misused = false) :
    ¬start.Balanced ((cache.vfsIput inode).vfsIput inode) none := by
  intro balanced
  have once := looked.release
  have same := balanced.refs inode
  have back := once.refs inode
  simp only [reduceCtorEq, if_false, Nat.add_zero] at same back
  by_cases held : 0 < start.refs inode
  · obtain ⟨released, _⟩ := @InodeCache.vfsIput_refs (cache.vfsIput inode) inode (by omega)
    have fewer := released inode
    rw [if_pos rfl] at fewer
    omega
  · -- The first release freed the inode.
    have last : cache.refs inode = 1 := by
      rw [looked.refs, if_pos rfl]
      omega
    have gone : inode ∉ (cache.vfsIput inode).inodes := by
      obtain ⟨member, count⟩ := @InodeCache.refs_pos cache inode (by omega)
      have one : (cache.inode inode).count = 1 := by
        rw [← UInt32.toNat_inj, count, last]
        rfl
      simp [InodeCache.vfsIput, member, one, InodeCache.vfsFreeInode]
    have misused := balanced.misused
    rw [InodeCache.vfsIput, if_pos gone, clean] at misused
    cases misused

theorem InodeCache.Balanced.not_held (looked : start.Balanced cache (some inode)) :
    ¬start.Balanced ((cache.hold inode).vfsIput inode) none := by
  intro balanced
  have same := balanced.refs inode
  have more := looked.refs inode
  simp only [reduceCtorEq, if_false, if_true, Nat.add_zero] at same more
  obtain ⟨member, count⟩ := @InodeCache.refs_pos cache inode (by omega)
  have small := (cache.inode inode).count.toNat_lt
  by_cases room : cache.refs inode + 1 < 2 ^ 32
  · have held := (InodeCache.Balanced.hold (by omega) room).refs inode
    rw [if_pos rfl] at held
    obtain ⟨released, _⟩ := @InodeCache.vfsIput_refs (cache.hold inode) inode (by omega)
    have fewer := released inode
    rw [if_pos rfl] at fewer
    omega
  · -- A count that runs over is zero, so that the inode is freed while others hold it.
    have wraps : (cache.inode inode).count + 1 = 0 := by
      rw [← UInt32.toNat_inj, UInt32.toNat_add, UInt32.toNat_one, UInt32.toNat_zero]
      omega
    have none : ((cache.hold inode).vfsIput inode).refs inode = 0 := by
      simp [InodeCache.vfsIput, InodeCache.hold, InodeCache.setInode, InodeCache.vfsFreeInode,
        InodeCache.refs, member, wraps]
    omega

variable {env : OpenEnv} {fs : FileSystem} {root : Option Nat} {path : CString} {flags : UInt32}

/-- Where a look-up takes one reference to what it finds, opening and closing a file leave the
references as they were exactly if there is nothing to open, or the flags or the lack of memory
forbid it. -/
theorem openClose_balanced_iff (clean : start.misused = false)
    (looked : start.Balanced (vfsPathLookup fs root path start).2
      (vfsPathLookup fs root path start).1) :
    start.Balanced (openClose env fs root path flags start) none ↔
      (vfsPathLookup fs root path start).1 = none ∨ flags &&& oExcl ≠ 0 ∧ flags &&& oCreat ≠ 0 ∨
        env.memory = false := by
  unfold openClose vfsOpen
  revert looked
  rcases vfsPathLookup fs root path start with ⟨_ | inode, cache⟩
  · exact fun looked => ⟨fun _ => .inl rfl, fun _ => looked⟩
  intro looked
  by_cases exclusive : flags &&& oExcl ≠ 0 ∧ flags &&& oCreat ≠ 0
  · simp only [if_pos exclusive]
    exact ⟨fun _ => .inr (.inl exclusive), fun _ => looked.release⟩
  simp only [reduceCtorEq, exclusive, false_or, vfsOpenInode, vfsAllocFile]
  cases memory : env.memory with
  | false => exact ⟨fun _ => rfl, fun _ => looked.release⟩
  | true =>
    simp only [if_true, Bool.true_eq_false, iff_false]
    by_cases opens : (env.openHook inode ⟨some inode, 0, flags, openMode flags, 1⟩).getD 0 = 0
    · simp only [opens, ne_eq, not_true, if_false, vfsClose, vfsFilePut_last]
      exact looked.not_held
    · simp only [opens, ne_eq, not_false_eq_true, if_true, if_false, vfsFilePut_last]
      exact looked.not_twice clean

def oneHeld : InodeCache :=
  { CacheSession.boot.cache with inode := fun _ => ⟨8, 2, 1⟩, inodes := [64], count := 1 }

theorem oneHeld_room (inode : Nat) : oneHeld.refs inode + 2 < 2 ^ 32 := by
  unfold InodeCache.refs
  split
  · show 1 + 2 < 2 ^ 32
    decide
  · decide

/-- A file that exists is to be created. -/
theorem openClose_balanced_iff_exists :
    oneHeld.Balanced (openClose ⟨true, fun _ _ => none⟩ (leadsTo 64) (some 64) ⟨[97], by decide⟩
      (oCreat ||| oExcl) oneHeld) none :=
  (openClose_balanced_iff rfl (walkPath_balanced (leadsTo_takes 64) oneHeld_room _
    (.hold (by decide) (by decide)))).mpr (.inr (.inl (by decide)))

/-- After a file was opened and closed, its inode has one more reference than before; after its
`open` operation failed, it has one less. -/
theorem openClose_unbalanced :
    oneHeld.refs 64 = 1 ∧
      (openClose ⟨true, fun _ _ => none⟩ (leadsTo 64) (some 64) ⟨[97], by decide⟩ 0
        oneHeld).refs 64 = 2 ∧
      (openClose ⟨true, fun _ _ => some (-1)⟩ (leadsTo 64) (some 64) ⟨[97], by decide⟩ 0
        oneHeld).refs 64 = 0 := by
  decide +kernel

end Close

section Seek

def seekSet : Int := 0
def seekCur : Int := 1
def seekEnd : Int := 2

/-- The position that an offset counts from; `size` is the `i_size` of the inode. -/
def seekBase (file : VfsFile) (size : Nat) (whence : Int) : Option Nat :=
  if whence = seekSet then some 0
  else if whence = seekCur then some file.pos
  else if whence = seekEnd then some size
  else none

def vfsLseek (file : VfsFile) (size : Nat) (offset whence : Int) : Int × VfsFile :=
  match file.inode, seekBase file size whence with
  | some _, some base =>
    -- The new position has 64 bits without a sign, and the result has a sign.
    let newPos := ((base + offset) % 2 ^ 64).toNat
    if offset < 0 ∧ file.pos < newPos then (-1, file)
    else (Int.bmod newPos (2 ^ 64), { file with pos := newPos })
  | _, _ => (-1, file)

/-- What seeking is meant to do: go to a position that is not negative and has a sign bit to spare. -/
def seekTo (file : VfsFile) (target : Int) : Int × VfsFile :=
  if 0 ≤ target ∧ target < 2 ^ 63 then (target, { file with pos := target.toNat }) else (-1, file)

/-- Seeking goes to its target exactly if the target has 63 bits, and a negative offset from the end
leads to a position that is not behind the old one. -/
theorem vfsLseek_target_iff {file : VfsFile} {inode size base : Nat} {offset whence : Int}
    (opened : file.inode = some inode) (near : file.pos < 2 ^ 62) (small : size < 2 ^ 62)
    (fits : -2 ^ 63 ≤ offset ∧ offset < 2 ^ 63) (counted : seekBase file size whence = some base) :
    vfsLseek file size offset whence = seekTo file (base + offset) ↔
      base + offset < 2 ^ 63 ∧ ¬(whence = seekEnd ∧ offset < 0 ∧ file.pos < base + offset) := by
  have start : base < 2 ^ 62 ∧ (whence = seekEnd ∨ base ≤ file.pos) := by
    unfold seekBase at counted
    split at counted
    · cases counted
      exact ⟨by decide, .inr (Nat.zero_le _)⟩
    split at counted
    · cases counted
      exact ⟨near, .inr (Nat.le_refl _)⟩
    split at counted
    · cases counted
      exact ⟨small, .inl ‹_›⟩
    · cases counted
  simp only [vfsLseek, opened, counted, seekTo]
  generalize target : (base : Int) + offset = goal
  rcases lt_or_ge goal 0 with negative | positive
  · -- The sum wraps to a position behind the old one, which the test finds.
    have wrapped : (goal % 2 ^ 64).toNat = goal + 2 ^ 64 := by omega
    rw [if_pos (by omega), if_neg (by omega)]
    exact ⟨fun _ => by omega, fun _ => rfl⟩
  have whole : (goal % 2 ^ 64).toNat = goal.toNat := by omega
  rw [whole]
  rcases lt_or_ge goal (2 ^ 63) with less | large
  · rw [if_pos (⟨positive, less⟩ : 0 ≤ goal ∧ goal < 2 ^ 63)]
    split
    · -- The test takes a position behind the old one for a wrapped sum.
      rename_i behind
      refine ⟨fun same => ?_, fun never => absurd ⟨?_, behind.1, by omega⟩ never.2⟩
      · have result := congrArg Prod.fst same
        simp only at result
        omega
      · exact start.2.resolve_right (by omega)
    · rw [Int.toNat_of_nonneg positive, Int.bmod_eq_of_le (by omega) (by omega)]
      exact ⟨fun _ => by omega, fun _ => rfl⟩
  · rw [if_neg (by omega), if_neg (by omega)]
    refine ⟨fun same => ?_, fun never => by omega⟩
    have moved := congrArg (fun result => result.2.pos) same
    simp only at moved
    omega

/-- From 20 in a file of 100 bytes back to 90 bytes before its end. -/
theorem vfsLseek_target_iff_back :
    vfsLseek ⟨some 64, 20, 0, 1, 1⟩ 100 (-90) seekEnd =
      seekTo ⟨some 64, 20, 0, 1, 1⟩ ((100 : Nat) + -90) :=
  (@vfsLseek_target_iff ⟨some 64, 20, 0, 1, 1⟩ 64 100 100 (-90) seekEnd rfl (by decide) (by decide)
    (by decide) rfl).mpr (by decide)

/-- From the start of a file of 100 bytes, 10 bytes before its end cannot be reached. -/
theorem vfsLseek_refuses :
    vfsLseek ⟨some 64, 0, 0, 1, 1⟩ 100 (-10) seekEnd = (-1, ⟨some 64, 0, 0, 1, 1⟩) ∧
      seekTo ⟨some 64, 0, 0, 1, 1⟩ (100 + -10) = (90, ⟨some 64, 90, 0, 1, 1⟩) := by
  decide

end Seek

end Ccos
