import Ccos.Fs.VfsMountTable
import Ccos.Fs.VfsPath

/-! Mounting and unmounting in `fs/vfs/vfs_mount.c`, and the inodes that file systems leave in the
inode cache. -/

namespace Ccos

open Lib

/-- What path look-ups find: which inodes are directories, the number of each entry of a directory,
and what the heap and the disk give for a new inode. -/
structure Directories where
  isDir : Nat → Bool
  entry : (sb ino : Nat) → List UInt8 → Option Nat
  place : InodeCache → Option Nat
  readable : (sb ino : Nat) → Bool
  fresh : ∀ cache inode, place cache = some inode → inode ∉ cache.inodes

/-- An entry is got from the inode cache by the superblock of its directory. -/
def Directories.fileSystem (dirs : Directories) : FileSystem where
  isDir := dirs.isDir
  lookup dir name cache :=
    let sb := (cache.inode dir).sb
    match dirs.entry sb (cache.inode dir).ino name with
    | none => (none, cache)
    | some ino => cache.vfsIget (dirs.place cache) (dirs.readable sb ino) sb ino

/-- The inode cache and the mounted file systems; `supers` are the superblocks that are allocated.
Each mount has a number, and `origin` is the number of the mount that an inode was read from. -/
structure MountSession where
  cache : InodeCache
  supers : List Nat
  mounts : List MountPoint
  rootSb : Option Nat
  rootInode : Option Nat
  serial : Nat → Nat
  next : Nat
  origin : Nat → Nat

/-- A request to mount, with the answers of the heap and the disk: places for the superblock and the
root inode, whether the file system can be read, its root inode can, and is a directory, and whether
there is memory for the mount. -/
structure MountRequest where
  path : CString
  sb : Option Nat
  valid : Bool
  root : Option Nat
  readable : Bool
  isDir : Bool
  memory : Bool

inductive MountCall
  | mount (request : MountRequest)
  | umount (path : CString)
  | iget (place : Option Nat) (readable : Bool) (sb ino : Nat)
  | iput (inode : Nat)
  | lookup (dirs : Directories) (path : CString)

/-- What `ext2_mount` does to the inode cache. -/
def ext2MountRoot (request : MountRequest) (sb : Nat) (cache : InodeCache) :
    Option Nat × InodeCache :=
  if request.valid = false then (none, cache)
  else
    match cache.vfsIget request.root request.readable sb 2 with
    | (none, cache) => (none, cache)
    | (some root, cache) =>
      if request.isDir = false then (none, cache.vfsIput root) else (some root, cache)

namespace MountSession

def boot : MountSession :=
  ⟨CacheSession.boot.cache, [], [], none, none, fun _ => 0, 0, fun _ => 0⟩

def vfsMount (request : MountRequest) (session : MountSession) : MountSession :=
  match request.sb with
  | none => session
  | some sb =>
    let session := { session with
      serial := Function.update session.serial sb session.next, next := session.next + 1 }
    match ext2MountRoot request sb session.cache with
    | (none, cache) => { session with cache }
    | (some root, cache) =>
      -- Without memory for the mount the superblock is freed, and its root inode stays.
      if request.memory = false then { session with cache }
      else
        let isRoot := request.path.chars = [47]
        { session with
          cache
          supers := sb :: session.supers
          -- The copy stores one character more than the 255 asked for; the flags behind are zero.
          mounts := session.mounts ++ [⟨sb, CString.take 256 request.path⟩]
          rootSb := if isRoot then some sb else session.rootSb
          rootInode := if isRoot then some root else session.rootInode }

def mountOn (session : MountSession) (path : CString) : Option MountPoint :=
  session.mounts.find? fun mount => mount.path.chars = path.chars

/-- Unmount a file system that is not the root; its inodes stay in the cache. -/
def vfsUmount (path : CString) (session : MountSession) : MountSession :=
  match session.mountOn path with
  | none => session
  | some mount =>
    if some mount.sb = session.rootSb then session
    else { session with
      mounts := session.mounts.eraseP fun mount => mount.path.chars = path.chars
      supers := session.supers.filter (· != mount.sb) }

/-- An inode that was not freed in between is still the one that was read before. -/
def track (before after : MountSession) : MountSession :=
  { after with origin := fun inode =>
      if inode ∈ before.cache.inodes ∧
        after.cache.freed.count inode = before.cache.freed.count inode then before.origin inode
      else after.serial (after.cache.inode inode).sb }

/-- The heap gives no block twice, inodes are got from superblocks that are allocated, and calls use
inodes that are allocated. -/
def perform (session : MountSession) : MountCall → Option MountSession
  | .mount request =>
    if request.sb.any (· ∈ session.supers) ∨ request.root.any (· ∈ session.cache.inodes) then none
    else some (session.track (session.vfsMount request))
  | .umount path => some (session.track (session.vfsUmount path))
  | .iget place readable sb ino =>
    if sb ∉ session.supers ∨ place.any (· ∈ session.cache.inodes) then none
    else some (session.track { session with
      cache := (session.cache.vfsIget place readable sb ino).2 })
  | .iput inode =>
    if inode ∉ session.cache.inodes then none
    else some (session.track { session with cache := session.cache.vfsIput inode })
  | .lookup dirs path =>
    if session.rootInode.any (· ∉ session.cache.inodes) then none
    else some (session.track { session with
      cache := (vfsPathLookup dirs.fileSystem session.rootInode path session.cache).2 })

/-- Whether a call that frees a superblock finds no inode of it in the cache: an unmount, or a mount
without memory for it at the end. -/
def evicted (session : MountSession) : MountCall → Bool
  | .mount request => request.memory
  | .umount path => (session.mountOn path).all fun mount =>
      some mount.sb = session.rootSb ∨
        ∀ inode ∈ session.cache.inodes, (session.cache.inode inode).sb ≠ mount.sb
  | _ => true

/-- Every cached inode has a superblock that is allocated, and was read from the file system that
this superblock stands for. -/
def Grounded (session : MountSession) : Prop :=
  ∀ inode ∈ session.cache.inodes, (session.cache.inode inode).sb ∈ session.supers ∧
    session.origin inode = session.serial (session.cache.inode inode).sb

/-- A cache after calls that get inodes of some superblocks only: an inode that was not freed keeps
its superblock, and a new one has one of these. -/
@[grind] structure Follows (supers : List Nat) (before after : InodeCache) : Prop where
  hashed : (∀ hash, ∀ inode ∈ before.hashTable hash, inode ∈ before.inodes) →
    ∀ hash, ∀ inode ∈ after.hashTable hash, inode ∈ after.inodes
  mono : ∀ inode, before.freed.count inode ≤ after.freed.count inode
  kept : ∀ inode ∈ before.inodes, after.freed.count inode = before.freed.count inode →
    inode ∈ after.inodes ∧ (after.inode inode).sb = (before.inode inode).sb
  fresh : ∀ inode ∈ after.inodes, inode ∈ before.inodes ∧
    after.freed.count inode = before.freed.count inode ∨ (after.inode inode).sb ∈ supers

variable {supers : List Nat} {cache start last : InodeCache} {sb ino inode : Nat}
  {place : Option Nat} {readable : Bool}

theorem vfsIput_cases (cache : InodeCache) (inode : Nat) :
    cache.vfsIput inode = { cache with misused := true } ∨
      ∃ count, cache.vfsIput inode = cache.setInode inode { cache.inode inode with count } ∨
        cache.vfsIput inode =
          (cache.setInode inode { cache.inode inode with count }).vfsFreeInode inode := by
  unfold InodeCache.vfsIput
  split
  · exact .inl rfl
  · exact .inr ⟨_, (ite_eq_or_eq ..).symm⟩

theorem vfsIput_sb (other : Nat) : ((cache.vfsIput inode).inode other).sb = (cache.inode other).sb := by
  obtain same | ⟨count, same | same⟩ := vfsIput_cases cache inode <;> rw [same]
  all_goals
    simp only [InodeCache.vfsFreeInode, InodeCache.setInode, Function.update_apply]
    grind

namespace Follows

theorem refl : Follows supers cache cache :=
  ⟨id, fun _ => Nat.le_refl _, fun _ member _ => ⟨member, rfl⟩, fun _ member => .inl ⟨member, rfl⟩⟩

theorem trans (first : Follows supers start cache) (second : Follows supers cache last) :
    Follows supers start last := by
  refine ⟨fun sound => second.hashed (first.hashed sound), fun inode =>
    (first.mono inode).trans (second.mono inode), fun inode member same => ?_, fun inode member => ?_⟩
  · have := first.mono inode
    have := second.mono inode
    grind
  · grind

theorem recount {value : CachedInode} (same : value.sb = (cache.inode inode).sb) :
    Follows supers cache (cache.setInode inode value) := by
  simp only [InodeCache.setInode]
  constructor <;> grind [Function.update_apply]

theorem free : Follows supers cache (cache.vfsFreeInode inode) := by
  simp only [InodeCache.vfsFreeInode]
  constructor <;> grind

theorem put : Follows supers cache (cache.vfsIput inode) := by
  obtain same | ⟨count, same | same⟩ := vfsIput_cases cache inode <;> rw [same]
  · exact ⟨id, fun _ => Nat.le_refl _, fun _ member _ => ⟨member, rfl⟩,
      fun _ member => .inl ⟨member, rfl⟩⟩
  · exact recount (by rfl)
  · exact (recount (by rfl)).trans free

theorem get (live : sb ∈ supers) (free : ¬place.any (· ∈ cache.inodes)) :
    Follows supers cache (cache.vfsIget place readable sb ino).2 := by
  unfold InodeCache.vfsIget
  split
  · exact .refl
  split
  · exact recount rfl
  cases place with
  | none => exact .refl
  | some new =>
    have absent : new ∉ cache.inodes := by simpa using free
    simp only [InodeCache.vfsAllocInode]
    split
    · simp only [InodeCache.inodeHashInsert, InodeCache.setInode]
      constructor <;> grind [Function.update_apply]
    · simp only [InodeCache.vfsFreeInode, InodeCache.setInode]
      constructor <;> grind [Function.update_apply]

end Follows

theorem vfsIget_sb (got : (cache.vfsIget place readable sb ino).1 = some inode) :
    ((cache.vfsIget place readable sb ino).2.inode inode).sb = sb := by
  unfold InodeCache.vfsIget at got ⊢
  split at got
  · cases got
  rename_i given
  rw [if_neg given]
  cases found : cache.search sb ino with
  | some other =>
    have met := List.find?_some found
    simp_all [InodeCache.hold, InodeCache.setInode]
  | none =>
    cases place with
    | none => simp [found, InodeCache.vfsAllocInode] at got
    | some new =>
      simp only [found, InodeCache.vfsAllocInode] at got ⊢
      split at got
      · rename_i read
        obtain rfl := Option.some.inj got
        simp [read, InodeCache.inodeHashInsert, InodeCache.setInode]
      · cases got

/-- A path look-up gets inodes of the superblocks of directories only. -/
theorem Follows.walk (dirs : Directories) (path : List UInt8) {current : Nat}
    (live : (cache.inode current).sb ∈ supers) (follows : Follows supers start cache) :
    Follows supers start (walkPath dirs.fileSystem path current cache).2 := by
  -- A look-up in a directory gives an inode of the same superblock.
  have looked {dir : Nat} {name : List UInt8} {cache after : InodeCache} {found : Option Nat}
      (live : (cache.inode dir).sb ∈ supers)
      (given : dirs.fileSystem.lookup dir name cache = (found, after)) :
      Follows supers cache after ∧ ∀ next, found = some next → (after.inode next).sb ∈ supers := by
    simp only [Directories.fileSystem] at given
    split at given
    · cases given
      exact ⟨.refl, by simp⟩
    · have free : ¬(dirs.place cache).any (· ∈ cache.inodes) := by
        cases given : dirs.place cache with
        | none => simp
        | some new => simpa using dirs.fresh cache new given
      obtain rfl := congrArg Prod.fst given
      obtain rfl := congrArg Prod.snd given
      exact ⟨.get live free, fun next got => by rwa [vfsIget_sb got]⟩
  fun_induction walkPath dirs.fileSystem path current cache with
  | case1 => exact follows
  | case2 path current cache more component empty ih => exact ih live follows
  | case3 path current cache more component some dots ih => exact ih live follows
  | case4 path current cache more component some named notDir => exact follows.trans .put
  | case5 path current cache more component some named dir after failed =>
    exact (follows.trans (looked live failed).1).trans .put
  | case6 path current cache more component some named dir next after found ih =>
    obtain ⟨more, alive⟩ := looked live found
    exact ih (by rw [vfsIput_sb]; exact alive next rfl) ((follows.trans more).trans .put)

variable {session after : MountSession}

/-- The invariant: every inode of the hash table is allocated, and all inodes are grounded. -/
structure Inv (session : MountSession) : Prop where
  hashed : ∀ hash, ∀ inode ∈ session.cache.hashTable hash, inode ∈ session.cache.inodes
  grounded : session.Grounded

theorem Inv.track (inv : session.Inv) (follows : Follows after.supers session.cache after.cache)
    (live : ∀ inode ∈ session.cache.inodes, (session.cache.inode inode).sb ∈ after.supers)
    (serial : ∀ sb ∈ session.supers, after.serial sb = session.serial sb) :
    (session.track after).Inv := by
  obtain ⟨hashed, grounded⟩ := inv
  refine ⟨follows.hashed hashed, fun inode member => ?_⟩
  simp only [MountSession.track, Grounded] at *
  grind

theorem ext2MountRoot_failed {request : MountRequest} (inv : session.Inv) (fresh : sb ∉ session.supers)
    (free : ¬request.root.any (· ∈ session.cache.inodes))
    (failed : (ext2MountRoot request sb session.cache).1 = none) :
    Follows session.supers session.cache (ext2MountRoot request sb session.cache).2 := by
  have missing : session.cache.search sb 2 = none := by
    rw [InodeCache.search, List.find?_eq_none]
    intro inode member
    have alive := (inv.grounded inode (inv.hashed _ inode member)).1
    grind
  unfold ext2MountRoot at failed ⊢
  split
  · exact .refl
  rename_i valid
  rw [if_neg valid] at failed
  simp only [InodeCache.vfsIget, missing] at failed ⊢
  by_cases zero : sb = 0
  · simp only [if_pos zero]
    exact .refl
  simp only [if_neg zero] at failed ⊢
  cases given : request.root with
  | none => exact .refl
  | some new =>
    have absent : new ∉ session.cache.inodes := by simpa [given] using free
    simp only [given, InodeCache.vfsAllocInode] at failed ⊢
    cases readable : request.readable with
    | false =>
      simp only [InodeCache.vfsFreeInode, InodeCache.setInode]
      constructor <;> grind [Function.update_apply]
    | true =>
      cases directory : request.isDir with
      | true => simp [directory, readable] at failed
      | false =>
        -- The only reference to the new inode is released.
        simp [InodeCache.vfsIput, InodeCache.inodeHashInsert, InodeCache.setInode,
          InodeCache.vfsFreeInode]
        constructor <;> grind [Function.update_apply]

/-- A mount that succeeds gets inodes of its own superblock only. -/
theorem ext2MountRoot_follows {request : MountRequest} (live : sb ∈ supers)
    (free : ¬request.root.any (· ∈ cache.inodes)) :
    Follows supers cache (ext2MountRoot request sb cache).2 := by
  unfold ext2MountRoot
  split
  · exact .refl
  have got := @Follows.get supers cache sb 2 request.root request.readable live free
  split <;> rename_i given <;> rw [given] at got
  · exact got
  · split
    · exact got.trans .put
    · exact got

theorem perform_inv {call : MountCall} (evicted : session.evicted call = true)
    (done : session.perform call = some after) (inv : session.Inv) : after.Inv := by
  have live (inode : Nat) (member : inode ∈ session.cache.inodes) :=
    (inv.grounded inode member).1
  cases call with
  | mount request =>
    simp only [perform] at done
    split at done
    · cases done
    rename_i allowed
    cases done
    rw [not_or] at allowed
    cases place : request.sb with
    | none =>
      simp only [vfsMount, place]
      exact inv.track .refl live fun _ _ => rfl
    | some sb =>
      have fresh : sb ∉ session.supers := by simpa [place] using allowed.1
      -- The number of the new mount is not one of an inode that is cached.
      have serial (other : Nat) (member : other ∈ session.supers) :
          Function.update session.serial sb session.next other = session.serial other :=
        Function.update_of_ne (ne_of_mem_of_not_mem member fresh) ..
      simp only [vfsMount, place]
      split
      · rename_i failed
        have follows := ext2MountRoot_failed inv fresh allowed.2 (by rw [failed])
        rw [failed] at follows
        exact inv.track follows live serial
      · rename_i mounted
        have follows := @ext2MountRoot_follows (sb :: session.supers) session.cache sb request
          List.mem_cons_self allowed.2
        rw [mounted] at follows
        rw [if_neg (by simpa [MountSession.evicted] using evicted)]
        exact inv.track follows (fun inode member => List.mem_cons_of_mem _ (live inode member)) serial
  | umount path =>
    cases done
    unfold vfsUmount
    cases found : session.mountOn path with
    | none => exact inv.track .refl live fun _ _ => rfl
    | some mount =>
      simp only
      split
      · exact inv.track .refl live fun _ _ => rfl
      · rename_i plain
        have apart : ∀ inode ∈ session.cache.inodes, (session.cache.inode inode).sb ≠ mount.sb := by
          simpa [MountSession.evicted, found, plain] using evicted
        refine inv.track .refl (fun inode member => ?_) fun _ _ => rfl
        exact List.mem_filter.mpr ⟨live inode member, by
          simpa using apart inode member⟩
  | iget place readable sb ino =>
    simp only [perform] at done
    split at done
    · cases done
    rename_i allowed
    cases done
    rw [not_or, not_not] at allowed
    exact inv.track (.get allowed.1 allowed.2) live fun _ _ => rfl
  | iput inode =>
    simp only [perform] at done
    split at done
    · cases done
    · cases done
      exact inv.track .put live fun _ _ => rfl
  | lookup dirs path =>
    simp only [perform] at done
    split at done
    · cases done
    rename_i allowed
    cases done
    refine inv.track ?_ live fun _ _ => rfl
    cases root : session.rootInode with
    | none => exact .refl
    | some root' =>
      have member : root' ∈ session.cache.inodes := by simpa [root] using allowed
      refine .walk dirs _ ?_ (.recount rfl)
      simpa [InodeCache.hold, InodeCache.setInode] using live root' member

/-- In every run in which no superblock is freed that cached inodes have, every cached inode has an
allocated superblock and was read from its file system. -/
theorem inodes_grounded {calls : List MountCall}
    (run : Run (fun before call after => before.evicted call = true ∧ before.perform call = some after)
      boot calls after) : after.Grounded :=
  (run.preserves Inv (fun _ _ _ ⟨evicted, done⟩ => perform_inv evicted done)
    ⟨by simp [boot, CacheSession.boot], by simp [boot, CacheSession.boot, Grounded]⟩).grounded

/-- A file system on a path of one or more characters, with places for its superblock and its root
inode, is mounted. -/
def mounting (chars : List UInt8) (plain : 0 ∉ chars) (sb root : Nat) : MountCall :=
  .mount ⟨⟨chars, plain⟩, some sb, true, some root, true, true, true⟩

/-- A second file system is unmounted after its root inode has left the cache. -/
theorem inodes_grounded_evicted :
    ∃ last, Run (fun before call after => before.evicted call = true ∧ before.perform call = some after)
      boot [mounting [47] (by decide) 8 64, mounting [47, 109] (by decide) 16 128, .iput 128,
        .umount ⟨[47, 109], by decide⟩] last ∧ last.supers = [8] ∧ last.Grounded := by
  refine Run.exists_by_if (·.supers = [8]) (by decide +kernel) fun last run unmounted => ?_
  exact ⟨unmounted, inodes_grounded run⟩

/-- After the second file system was unmounted, its root inode is still cached; when its superblock's
memory serves a third one, this inode is taken for the root of the new one. -/
theorem inodes_stale :
    (∃ last, Run (fun before call after => before.perform call = some after) boot
      [mounting [47] (by decide) 8 64, mounting [47, 109] (by decide) 16 128,
        .umount ⟨[47, 109], by decide⟩] last ∧
      128 ∈ last.cache.inodes ∧ (last.cache.inode 128).sb ∉ last.supers) ∧
    ∃ last, Run (fun before call after => before.perform call = some after) boot
      [mounting [47] (by decide) 8 64, mounting [47, 109] (by decide) 16 128,
        .umount ⟨[47, 109], by decide⟩, mounting [47, 110] (by decide) 16 192] last ∧
      (last.cache.vfsIget none true 16 2).1 = some 128 ∧ last.origin 128 ≠ last.serial 16 :=
  ⟨Run.exists_of_any (by decide +kernel), Run.exists_of_any (by decide +kernel)⟩

end MountSession

end Ccos
