import Ccos.Lib.Run
import Ccos.Lib.Word
import Mathlib.Data.List.Nodup
import Mathlib.Logic.Function.Basic

/-! The inode cache in `fs/vfs/vfs_inode.c`: a hash table, a list of all inodes, and reference counts
of 32 bits. -/

namespace Ccos

open Lib

/-- The fields of `vfs_inode_t` that decide where an inode is found and how long it stays. -/
structure CachedInode where
  sb : Nat
  ino : Nat
  count : UInt32
  deriving DecidableEq, Repr

/-- `inode_cache` with the inodes at their addresses. It also records which inodes were given back to
the heap, and whether a reference to one that is not allocated was released. -/
structure InodeCache where
  inode : Nat → CachedInode
  hashTable : Fin 256 → List Nat
  inodes : List Nat
  count : UInt32
  freed : List Nat
  misused : Bool

namespace InodeCache

/-- The bucket of an inode number in a file system. -/
def inodeHash (ino sb : Nat) : Fin 256 :=
  Fin.ofNat 256 ((ino ^^^ sb / 8) % 2 ^ 32)

def setInode (inode : Nat) (value : CachedInode) (cache : InodeCache) : InodeCache :=
  { cache with inode := Function.update cache.inode inode value }

def hold (inode : Nat) (cache : InodeCache) : InodeCache :=
  cache.setInode inode { cache.inode inode with count := (cache.inode inode).count + 1 }

/-- Put a new inode on the list of all inodes, if the heap has a place for it. -/
def vfsAllocInode (place : Option Nat) (sb : Nat) (cache : InodeCache) : Option Nat × InodeCache :=
  match place with
  | none => (none, cache)
  | some inode => (some inode, { cache.setInode inode ⟨sb, 0, 1⟩ with
      inodes := inode :: cache.inodes, count := cache.count + 1 })

/-- Take an inode out of the table and off the list, and free it. -/
def vfsFreeInode (inode : Nat) (cache : InodeCache) : InodeCache :=
  -- An inode that is in no bucket is linked to itself only.
  { cache with
    hashTable := fun hash => (cache.hashTable hash).filter (· != inode)
    inodes := cache.inodes.filter (· != inode)
    count := cache.count - 1
    freed := inode :: cache.freed }

def inodeHashInsert (inode : Nat) (cache : InodeCache) : InodeCache :=
  let hash := inodeHash (cache.inode inode).ino (cache.inode inode).sb
  { cache with
    hashTable := Function.update cache.hashTable hash (inode :: cache.hashTable hash) }

def search (sb ino : Nat) (cache : InodeCache) : Option Nat :=
  (cache.hashTable (inodeHash ino sb)).find? fun inode =>
    (cache.inode inode).sb = sb ∧ (cache.inode inode).ino = ino

/-- Get an inode from the cache, or read it by `read_inode`, which succeeds or not. -/
def vfsIget (place : Option Nat) (readable : Bool) (sb ino : Nat) (cache : InodeCache) :
    Option Nat × InodeCache :=
  if sb = 0 then (none, cache)
  else
    match cache.search sb ino with
    | some inode => (some inode, cache.hold inode)
    | none =>
      match cache.vfsAllocInode place sb with
      | (none, cache) => (none, cache)
      | (some inode, cache) =>
        let cache := cache.setInode inode { cache.inode inode with ino }
        if readable then (some inode, cache.inodeHashInsert inode)
        else (none, cache.vfsFreeInode inode)

/-- Release a reference to an inode; the last one frees it. -/
def vfsIput (inode : Nat) (cache : InodeCache) : InodeCache :=
  if inode ∉ cache.inodes then { cache with misused := true }
  else
    let count := (cache.inode inode).count
    let count := if 0 < count then count - 1 else count
    let cache := cache.setInode inode { cache.inode inode with count }
    if count = 0 then cache.vfsFreeInode inode else cache

end InodeCache

/-- The cache and the references to each inode that its users hold. -/
structure CacheSession where
  cache : InodeCache
  refs : Nat → Nat

/-- A call of one of the two functions; what the heap and the file system do is part of it. -/
inductive CacheCall
  | iget (place : Option Nat) (readable : Bool) (sb ino : Nat)
  | iput (inode : Nat)
  deriving DecidableEq, Repr

namespace CacheSession

def boot : CacheSession :=
  ⟨⟨fun _ => ⟨0, 0, 0⟩, fun _ => [], [], 0, [], false⟩, fun _ => 0⟩

/-- The heap gives no block twice, and only references that are held are released. -/
def perform (session : CacheSession) : CacheCall → Option CacheSession
  | .iget place readable sb ino =>
    if place.any (· ∈ session.cache.inodes) then none
    else
      let (got, cache) := session.cache.vfsIget place readable sb ino
      some ⟨cache, fun inode => session.refs inode + if got = some inode then 1 else 0⟩
  | .iput inode =>
    if session.refs inode = 0 then none
    else some ⟨session.cache.vfsIput inode,
      Function.update session.refs inode (session.refs inode - 1)⟩

/-- A call that does not run a counter over. -/
def Fits (session : CacheSession) : CacheCall → Prop
  | .iget .. => session.cache.inodes.length + 1 < 2 ^ 32 ∧
      ∀ inode ∈ session.cache.inodes, session.refs inode + 1 < 2 ^ 32
  | .iput _ => True

instance (session : CacheSession) (call : CacheCall) : Decidable (session.Fits call) := by
  cases call <;> unfold Fits <;> infer_instance

/-- The cache has each inode once, with the count of the references that are held, and counts its
inodes right. -/
structure Exact (session : CacheSession) : Prop where
  unique : ∀ first ∈ session.cache.inodes, ∀ second ∈ session.cache.inodes,
    (session.cache.inode first).sb = (session.cache.inode second).sb →
    (session.cache.inode first).ino = (session.cache.inode second).ino → first = second
  counted : ∀ inode ∈ session.cache.inodes,
    (session.cache.inode inode).count.toNat = session.refs inode ∧ 0 < session.refs inode
  listed : session.cache.count.toNat = session.cache.inodes.length

/-- What the calls keep: besides, each inode is in its own bucket, and none is held that is gone. -/
structure Inv (session : CacheSession) : Prop extends Exact session where
  nodup : session.cache.inodes.Nodup
  buckets : ∀ hash inode, inode ∈ session.cache.hashTable hash ↔ inode ∈ session.cache.inodes ∧
    InodeCache.inodeHash (session.cache.inode inode).ino (session.cache.inode inode).sb = hash
  gone : ∀ inode ∉ session.cache.inodes, session.refs inode = 0

variable {session next : CacheSession} {call : CacheCall}

theorem boot_inv : boot.Inv :=
  ⟨⟨by simp [boot], by simp [boot], rfl⟩, by simp [boot], by simp [boot], fun _ _ => rfl⟩

theorem Inv.search_eq (inv : session.Inv) {sb ino : Nat} {found : Option Nat}
    (searched : session.cache.search sb ino = found) (inode : Nat) :
    found = some inode ↔ inode ∈ session.cache.inodes ∧ (session.cache.inode inode).sb = sb ∧
      (session.cache.inode inode).ino = ino := by
  subst searched
  constructor
  · intro found
    have here := List.mem_of_find?_eq_some found
    exact ⟨((inv.buckets _ _).mp here).1, by simpa using List.find?_some found⟩
  · rintro ⟨member, same⟩
    have here := (inv.buckets (InodeCache.inodeHash ino sb) inode).mpr
      ⟨member, by rw [same.1, same.2]⟩
    cases found : session.cache.search sb ino with
    | none => exact absurd same (by simpa using List.find?_eq_none.mp found inode here)
    | some other =>
      have there := ((inv.buckets _ _).mp (List.mem_of_find?_eq_some found)).1
      have alike := List.find?_some found
      simp only [decide_eq_true_eq] at alike
      rw [inv.unique other there inode member (alike.1.trans same.1.symm)
        (alike.2.trans same.2.symm)]

/-- A call of `vfs_iget` keeps the invariant and frees no inode that was cached. -/
theorem Inv.iget (inv : session.Inv) {place : Option Nat} {readable : Bool} {sb ino : Nat}
    (fits : session.Fits (.iget place readable sb ino))
    (done : session.perform (.iget place readable sb ino) = some next) :
    next.Inv ∧ ∀ inode ∈ session.cache.inodes,
      next.cache.freed.count inode = session.cache.freed.count inode := by
  simp only [perform, InodeCache.vfsIget] at done
  split at done
  · cases done
  rename_i free
  cases done
  by_cases null : sb = 0
  · simpa [null] using inv
  rw [if_neg null]
  have search := @inv.search_eq _ sb ino _ rfl
  obtain ⟨⟨unique, counted, listed⟩, nodup, buckets, gone⟩ := inv
  obtain ⟨few, small⟩ := fits
  split
  · -- A reference to a cached inode is added.
    rename_i inode found
    have member := ((search inode).mp found).1
    have grown := toNat_add_one (x := (session.cache.inode inode).count)
      (by rw [(counted inode member).1]; exact small inode member)
    refine ⟨⟨⟨?_, ?_, listed⟩, nodup, ?_, ?_⟩, fun _ _ => rfl⟩ <;>
      simp only [InodeCache.hold, InodeCache.setInode, Function.update_apply] <;> grind
  · rename_i missing
    cases place with
    | none => exact ⟨⟨⟨unique, by simpa [InodeCache.vfsAllocInode] using counted, listed⟩, nodup,
        buckets, by simpa [InodeCache.vfsAllocInode] using gone⟩, fun _ _ => rfl⟩
    | some inode =>
      have fresh : inode ∉ session.cache.inodes := by simpa using free
      have absent (other : Nat) := (search other).not.mp (by simp [missing])
      have more := toNat_add_one (x := session.cache.count) (by omega)
      cases readable with
      | true =>
        -- The new inode has its first reference, and no other inode has its number.
        refine ⟨⟨⟨?_, ?_, ?_⟩, List.nodup_cons.mpr ⟨fresh, nodup⟩, ?_, ?_⟩, fun _ _ => rfl⟩
        case refine_3 => exact more.trans (congrArg (· + 1) listed)
        case refine_2 =>
          intro other inside
          by_cases same : other = inode
          · simp [InodeCache.vfsAllocInode, InodeCache.setInode, InodeCache.inodeHashInsert, same,
              gone inode fresh]
          · have old := List.mem_of_ne_of_mem same inside
            simpa [InodeCache.vfsAllocInode, InodeCache.setInode, InodeCache.inodeHashInsert, same,
              Ne.symm same] using counted other old
        all_goals
          simp only [InodeCache.vfsAllocInode, InodeCache.setInode, InodeCache.inodeHashInsert]
          grind [Function.update_apply]
      | false =>
        -- An inode that could not be read is given back as if it had never been there.
        have whole : session.cache.inodes.filter (· != inode) = session.cache.inodes :=
          List.filter_eq_self.mpr (by grind)
        simp only [InodeCache.vfsAllocInode, InodeCache.setInode, InodeCache.vfsFreeInode,
          Function.update_apply, List.filter_cons, whole, UInt32.add_sub_cancel]
        refine ⟨⟨⟨?_, ?_, ?_⟩, ?_, ?_, ?_⟩, ?_⟩ <;> grind

/-- A call of `vfs_iput` keeps the invariant, and frees the inode exactly with the last reference. -/
theorem Inv.iput (inv : session.Inv) {inode : Nat}
    (done : session.perform (.iput inode) = some next) :
    next.Inv ∧ next.cache.freed =
      if session.refs inode = 1 then inode :: session.cache.freed else session.cache.freed := by
  simp only [perform, InodeCache.vfsIput] at done
  split at done
  · cases done
  rename_i held
  cases done
  obtain ⟨⟨unique, counted, listed⟩, nodup, buckets, gone⟩ := inv
  have member : inode ∈ session.cache.inodes := not_not.mp (mt (gone inode) held)
  have count := (counted inode member).1
  have lowered := toNat_sub_one (x := (session.cache.inode inode).count) (by omega)
  have positive : 0 < (session.cache.inode inode).count :=
    UInt32.lt_iff_toNat_lt.mpr (by rw [count]; exact Nat.pos_of_ne_zero held)
  rw [if_neg (not_not.mpr member), if_pos positive]
  have zero : (session.cache.inode inode).count - 1 = 0 ↔ session.refs inode = 1 := by
    rw [← UInt32.toNat_inj, lowered, count, UInt32.toNat_zero]
    omega
  split
  · rename_i last
    refine ⟨⟨⟨?_, ?_, ?_⟩, nodup.filter _, ?_, ?_⟩, (if_pos (zero.mp last)).symm⟩
    case refine_3 =>
      have some := List.length_pos_of_mem member
      show (session.cache.count - 1).toNat = (session.cache.inodes.filter (· != inode)).length
      rw [toNat_sub_one (by omega), listed, ← nodup.erase_eq_filter,
        List.length_erase_of_mem member]
    all_goals
      simp only [InodeCache.setInode, InodeCache.vfsFreeInode, Function.update_apply]
      grind
  · rename_i others
    refine ⟨⟨⟨?_, ?_, listed⟩, nodup, ?_, ?_⟩, (if_neg (others ∘ zero.mpr)).symm⟩ <;>
      simp only [InodeCache.setInode, Function.update_apply] <;> grind

/-- In every run from the empty cache in which no counter runs over, the cache is exact, and the
next call frees a cached inode exactly if it releases the last reference to it. -/
theorem inode_cache_exact {calls : List CacheCall} {last : CacheSession}
    (run : Run (fun before call after => before.Fits call ∧ before.perform call = some after) boot
      calls last) :
    last.Exact ∧ ∀ call next, last.Fits call → last.perform call = some next →
      ∀ inode ∈ last.cache.inodes, next.cache.freed.count inode = last.cache.freed.count inode +
        if call = .iput inode ∧ last.refs inode = 1 then 1 else 0 := by
  have inv : last.Inv := run.preserves Inv (fun _ call _ step inv => by
    cases call with
    | iget => exact (inv.iget step.1 step.2).1
    | iput => exact (inv.iput step.2).1) boot_inv
  refine ⟨inv.toExact, fun call next fits done inode member => ?_⟩
  cases call with
  | iget => simpa using (inv.iget fits done).2 inode member
  | iput => grind [(inv.iput done).2]

/-- Two inodes in one bucket, of which one is got twice and released once. -/
theorem inode_cache_exact_collision :
    ∃ last, Run (fun before call after => before.Fits call ∧ before.perform call = some after) boot
      [.iget (some 64) true 8 2, .iget (some 96) true 8 258, .iget none false 8 2,
        .iget (some 128) false 8 3, .iput 64] last ∧
      (last.cache.inodes = [96, 64] ∧ last.cache.freed = [128]) ∧ last.Exact := by
  refine Run.exists_by_if (fun last => last.cache.inodes = [96, 64] ∧ last.cache.freed = [128])
    (by decide +kernel) fun last run ends => ?_
  exact ⟨ends, (inode_cache_exact run).1⟩

/-- A cached inode is got again and again. -/
theorem iget_repeated {inode sb ino : Nat} (named : sb ≠ 0)
    (found : session.cache.search sb ino = some inode) (n : Nat) :
    ∃ last, Run (fun before call after => before.perform call = some after) session
        (List.replicate n (.iget none true sb ino)) last ∧
      last.cache.inodes = session.cache.inodes ∧ last.refs inode = session.refs inode + n ∧
      (last.cache.inode inode).count = (session.cache.inode inode).count + UInt32.ofNat n := by
  induction n generalizing session with
  | zero => exact ⟨session, .nil _, rfl, rfl, by simp⟩
  | succ n ih =>
    -- The first call leaves the inode where it is found.
    obtain ⟨last, run, same, refs, counts⟩ := @ih ⟨session.cache.hold inode,
        fun other => session.refs other + if some inode = some other then 1 else 0⟩ (by
      rw [← found]
      refine congrArg (fun fits => List.find? fits _) (funext fun other => ?_)
      by_cases equal : other = inode <;> simp [InodeCache.hold, InodeCache.setInode, equal])
    refine ⟨last, .cons ?_ run, same, ?_, ?_⟩
    · simp [perform, InodeCache.vfsIget, named, found]
    · simp only [refs, if_true]
      omega
    · rw [counts, Nat.add_comm, UInt32.ofNat_add, ← UInt32.add_assoc]
      simp [InodeCache.hold, InodeCache.setInode]

/-- After 2^32 calls of `vfs_iget` for one inode its count is zero again. -/
theorem inode_cache_runs_over : ∃ last, Run (fun before call after =>
      before.perform call = some after) boot
      (.iget (some 64) true 8 2 :: List.replicate (2 ^ 32 - 1) (.iget none true 8 2)) last ∧
    64 ∈ last.cache.inodes ∧ last.refs 64 = 2 ^ 32 ∧ (last.cache.inode 64).count = 0 := by
  cases first : boot.perform (.iget (some 64) true 8 2) with
  | none => exact absurd first (by decide)
  | some second =>
    have here : second.cache.search 8 2 = some 64 ∧ second.cache.inodes = [64] ∧
        second.refs 64 = 1 ∧ (second.cache.inode 64).count = 1 := by
      cases first
      decide
    obtain ⟨last, run, same, refs, counts⟩ := iget_repeated (by decide) here.1 (2 ^ 32 - 1)
    refine ⟨last, .cons first run, by simp [same, here.2.1], ?_, ?_⟩
    · rw [refs, here.2.2.1]
      rfl
    · rw [counts, here.2.2.2]
      rfl

end CacheSession

end Ccos
