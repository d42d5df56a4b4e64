import Ccos.Fs.VfsInode
import Ccos.Lib.Buffer
import Mathlib.Data.List.Basic

/-! The walk along a path in `fs/vfs/vfs_path.c`: which inode it finds, and which references to inodes
it takes and releases on the way. -/

namespace Ccos

open Lib

/-- A file system as the walk sees it: which inodes are directories, and what `lookup` gives. An
inode without this operation is one whose `lookup` fails. -/
structure FileSystem where
  isDir : Nat → Bool
  lookup : Nat → List UInt8 → InodeCache → Option Nat × InodeCache

def skipSlash (path : List UInt8) : List UInt8 :=
  path.dropWhile (· = 47)

/-- The characters before the next slash; the buffer takes 255 of them. -/
def nextComponent (path : List UInt8) : List UInt8 :=
  (path.takeWhile (· ≠ 47)).take 255

theorem skipSlash_le (path : List UInt8) : (skipSlash path).length ≤ path.length :=
  (List.dropWhile_suffix _).length_le

theorem nextComponent_le (path : List UInt8) : (nextComponent path).length ≤ path.length :=
  (List.length_take_le' _ _).trans (List.takeWhile_prefix _).length_le

variable {path : List UInt8}

theorem skipSlash_drop_lt (some : nextComponent path ≠ []) :
    (skipSlash (path.drop (nextComponent path).length)).length < path.length := by
  have := skipSlash_le (path.drop (nextComponent path).length)
  have := nextComponent_le path
  have := List.length_pos_iff.mpr some
  rw [List.length_drop] at *
  omega

theorem nextComponent_nil (more : path ≠ []) (empty : nextComponent path = []) :
    ∃ rest, path = 47 :: rest := by
  cases path with
  | nil => contradiction
  | cons first rest =>
    by_cases slash : first = 47
    · exact ⟨rest, by rw [slash]⟩
    · simp [nextComponent, slash] at empty

/-- Go on from a directory; every directory that is left is released. -/
def walkPath (fs : FileSystem) (path : List UInt8) (current : Nat) (cache : InodeCache) :
    Option Nat × InodeCache :=
  if _more : path = [] then (some current, cache)
  else
    let component := nextComponent path
    if _empty : component = [] then walkPath fs (skipSlash path) current cache
    -- The parent directory is not implemented.
    else if component = [46] ∨ component = [46, 46] then
      walkPath fs (skipSlash (path.drop component.length)) current cache
    else if fs.isDir current = false then (none, cache.vfsIput current)
    else
      match fs.lookup current component cache with
      | (none, cache) => (none, cache.vfsIput current)
      | (some next, cache) =>
        walkPath fs (skipSlash (path.drop component.length)) next (cache.vfsIput current)
termination_by path.length
decreasing_by
  · obtain ⟨rest, rfl⟩ := nextComponent_nil _more _empty
    simpa [skipSlash] using Nat.lt_succ_of_le (skipSlash_le rest)
  · exact skipSlash_drop_lt _empty
  · exact skipSlash_drop_lt _empty

/-- Look up a path from the root inode of the mounted root, if there is one. -/
def vfsPathLookup (fs : FileSystem) (root : Option Nat) (path : CString) (cache : InodeCache) :
    Option Nat × InodeCache :=
  match root with
  | none => (none, cache)
  | some root => walkPath fs (skipSlash path.chars) root (cache.hold root)

section Resolve

/-- The parts of a path between its slashes that are not empty. -/
def parts (path : List UInt8) : List (List UInt8) :=
  (path.splitOn 47).filter (· ≠ [])

/-- Follow the parts of a path that are not a dot, each in the directory found before. -/
def resolve (isDir : Nat → Bool) (find : Nat → List UInt8 → Option Nat) (root : Nat)
    (path : List UInt8) : Option Nat :=
  ((parts path).filter (· ≠ [46])).foldlM
    (fun current part => if isDir current then find current part else none) root

theorem parts_slash (path : List UInt8) : parts (47 :: path) = parts path := by
  rw [parts, List.splitOn, List.splitOnP_cons_eq_if_modifyHead]
  rfl

theorem parts_skipSlash (path : List UInt8) : parts (skipSlash path) = parts path := by
  induction path with
  | nil => rfl
  | cons first rest ih =>
    by_cases slash : first = 47
    · rw [slash, parts_slash, ← ih]
      rfl
    · simp [skipSlash, slash]

theorem cut_path (path : List UInt8) : ∃ front back, path = front ++ back ∧
    path.takeWhile (· ≠ 47) = front ∧ (∀ c ∈ front, (c == 47) = false) ∧
    (back = [] ∨ ∃ rest, back = 47 :: rest) := by
  induction path with
  | nil => exact ⟨[], [], by simp⟩
  | cons first rest ih =>
    by_cases slash : first = 47
    · exact ⟨[], first :: rest, by simp [slash]⟩
    · obtain ⟨front, back, cut, taken, plain, tail⟩ := ih
      refine ⟨first :: front, back, by simp [cut], by simp [slash, ← taken], ?_, tail⟩
      simpa [slash] using plain

theorem parts_next (short : ∀ part ∈ parts path, part.length ≤ 255)
    (some : nextComponent path ≠ []) :
    parts path = nextComponent path ::
      parts (skipSlash (path.drop (nextComponent path).length)) := by
  obtain ⟨front, back, cut, taken, plain, tail⟩ := cut_path path
  rw [nextComponent, taken] at some ⊢
  have whole : front ≠ [] := fun none => some (by simp [none])
  have split : parts path = front :: parts back := by
    rw [cut]
    rcases tail with rfl | ⟨rest, rfl⟩
    · simp [parts, List.splitOn, List.splitOnP_eq_singleton plain, whole]
    · rw [parts_slash]
      simp [parts, List.splitOn, List.splitOnP_append_cons_of_forall_mem plain, whole]
  have fits : front.take 255 = front :=
    List.take_of_length_le (short front (by rw [split]; exact List.mem_cons_self))
  rw [fits, parts_skipSlash, split, cut, List.drop_left]

theorem walkPath_resolves {fs : FileSystem} {find : Nat → List UInt8 → Option Nat}
    (given : ∀ dir name cache, (fs.lookup dir name cache).1 = find dir name)
    (plain : [46, 46] ∉ parts path) (short : ∀ part ∈ parts path, part.length ≤ 255)
    (current : Nat) (cache : InodeCache) :
    (walkPath fs path current cache).1 = resolve fs.isDir find current path := by
  fun_induction walkPath fs path current cache with
  | case1 => rfl
  | case2 path current cache more component empty ih =>
    rw [parts_skipSlash] at ih
    rw [ih plain short, resolve, resolve, parts_skipSlash]
  | case3 path current cache more component some dots ih =>
    have next : parts path = component :: parts (skipSlash (path.drop component.length)) :=
      parts_next short some
    clear_value component
    rw [next] at plain short
    have dot : component = [46] := dots.resolve_right fun parent => plain (by simp [← parent])
    rw [ih (fun member => plain (.tail _ member)) fun part member => short part (.tail _ member),
      resolve, resolve, next, dot]
    rfl
  | case4 path current cache more component some named notDir =>
    have next : parts path = component :: _ := parts_next short some
    simp [resolve, next, show component ≠ [46] from fun dot => named (.inl dot), notDir]
  | case5 path current cache more component some named dir after failed =>
    have next : parts path = component :: _ := parts_next short some
    have missing := given current component cache
    rw [failed] at missing
    simp [resolve, next, show component ≠ [46] from fun dot => named (.inl dot), dir, ← missing]
  | case6 path current cache more component some named dir next after found ih =>
    have first : parts path = component :: parts (skipSlash (path.drop component.length)) :=
      parts_next short some
    have given := given current component cache
    rw [found] at given
    clear_value component
    rw [first] at plain short
    rw [ih (fun member => plain (.tail _ member)) fun part member => short part (.tail _ member)]
    simp [resolve, first, show component ≠ [46] from fun dot => named (.inl dot), dir, ← given]

/-- Look-up is the resolution of the path, for every file system and every root. -/
def Resolves (path : CString) : Prop :=
  ∀ fs find root cache, (∀ dir name cache, (fs.lookup dir name cache).1 = find dir name) →
    (vfsPathLookup fs (some root) path cache).1 = resolve fs.isDir find root path.chars

/-- One directory that contains itself under every name the buffer has room for. -/
def shortNames (dir : Nat) (name : List UInt8) : Option Nat :=
  if name.length ≤ 255 then some dir else none

theorem walkPath_shortNames (path : List UInt8) (current : Nat) (cache : InodeCache) :
    (walkPath ⟨fun _ => true, fun dir name cache => (shortNames dir name, cache)⟩ path current
      cache).1 = some current := by
  have short (path : List UInt8) (dir : Nat) : shortNames dir (nextComponent path) = some dir :=
    if_pos (List.length_take_le _ _)
  fun_induction walkPath _ path current cache with
  | case1 => rfl
  | case2 path current cache more component empty ih => exact ih
  | case3 path current cache more component some dots ih => exact ih
  | case4 path current cache more component some named notDir => cases notDir
  | case5 path current cache more component some named dir after failed =>
    simp [component, short] at failed
  | case6 path current cache more component some named dir next after found ih =>
    simp only [component, short, Prod.mk.injEq, Option.some.injEq] at found
    rw [ih, found.1]

theorem resolve_shortNames {part : List UInt8} (member : part ∈ parts path)
    (long : 255 < part.length) (root : Nat) :
    resolve (fun _ => true) shortNames root path = none := by
  have kept : part ∈ (parts path).filter (· ≠ [46]) := by
    refine List.mem_filter.mpr ⟨member, decide_eq_true ?_⟩
    rintro rfl
    exact absurd long (by decide)
  unfold resolve
  -- The fold stays at the root until it comes to the long part.
  generalize (parts path).filter (· ≠ [46]) = list at kept
  induction list with
  | nil => cases kept
  | cons first rest ih =>
    rw [List.foldlM_cons]
    by_cases fits : first.length ≤ 255
    · have later := (List.mem_cons.mp kept).resolve_left fun same => by
        rw [same] at long
        omega
      simpa [shortNames, fits] using ih later
    · simp [shortNames, fits]

theorem not_resolves {path : CString} {part : List UInt8} (member : part ∈ parts path.chars)
    (long : 255 < part.length) : ¬Resolves path := by
  intro resolves
  have same := resolves ⟨fun _ => true, fun dir name cache => (shortNames dir name, cache)⟩
    shortNames 1 CacheSession.boot.cache fun _ _ _ => rfl
  rw [vfsPathLookup, walkPath_shortNames, resolve_shortNames member long] at same
  cases same

/-- A path without `..` is resolved for every file system exactly if the buffer has room for each of
its parts. -/
theorem vfsPathLookup_resolves_iff {path : CString} (plain : [46, 46] ∉ parts path.chars) :
    Resolves path ↔ ∀ part ∈ parts path.chars, part.length ≤ 255 := by
  constructor
  · intro resolves part member
    by_contra long
    exact not_resolves member (by omega) resolves
  · intro short fs find root cache given
    rw [vfsPathLookup, walkPath_resolves given (by rwa [parts_skipSlash])
      (by rwa [parts_skipSlash]), resolve, resolve, parts_skipSlash]

/-- The path `//a/./b`. -/
theorem vfsPathLookup_resolves_dots :
    Resolves ⟨[47, 47, 97, 47, 46, 47, 98], by decide⟩ :=
  (vfsPathLookup_resolves_iff (by decide)).mpr (by decide)

/-- A name of 256 characters is looked up as one of 255 and one of one character. -/
theorem vfsPathLookup_cuts_name :
    [46, 46] ∉ parts (List.replicate 256 97) ∧
      ¬Resolves ⟨List.replicate 256 97, by decide +kernel⟩ := by
  have alone : parts (List.replicate 256 97) = [List.replicate 256 97] := by decide +kernel
  refine ⟨by rw [alone]; decide, ?_⟩
  exact @not_resolves _ (List.replicate 256 97) (alone ▸ List.mem_singleton_self _)
    (by decide +kernel)

end Resolve

section References

/-- The references to an inode that its count stands for. -/
def InodeCache.refs (cache : InodeCache) (inode : Nat) : Nat :=
  if inode ∈ cache.inodes then (cache.inode inode).count.toNat else 0

/-- Between two states one reference was taken or none, and no inode that was held was freed. -/
structure InodeCache.Balanced (before after : InodeCache) (taken : Option Nat) : Prop where
  refs : ∀ inode, after.refs inode = before.refs inode + if taken = some inode then 1 else 0
  freed : ∀ inode, 0 < before.refs inode → after.freed.count inode = before.freed.count inode
  misused : after.misused = before.misused

/-- A look-up in a directory takes a reference to the inode that it finds, in a counter of 32 bits. -/
structure FileSystem.Takes (fs : FileSystem) : Prop where
  refs : ∀ dir name cache inode, (fs.lookup dir name cache).2.refs inode =
    (cache.refs inode + if (fs.lookup dir name cache).1 = some inode then 1 else 0) % 2 ^ 32
  freed : ∀ dir name cache inode, 0 < cache.refs inode →
    (fs.lookup dir name cache).2.freed.count inode = cache.freed.count inode
  misused : ∀ dir name cache, (fs.lookup dir name cache).2.misused = cache.misused

variable {cache start : InodeCache} {inode : Nat} {fs : FileSystem}

theorem InodeCache.refs_pos (held : 0 < cache.refs inode) :
    inode ∈ cache.inodes ∧ (cache.inode inode).count.toNat = cache.refs inode := by
  unfold InodeCache.refs at held ⊢
  split <;> simp_all

/-- A reference is taken to an inode that is held already. -/
theorem InodeCache.Balanced.hold (held : 0 < cache.refs inode)
    (room : cache.refs inode + 1 < 2 ^ 32) : cache.Balanced (cache.hold inode) (some inode) := by
  obtain ⟨member, count⟩ := InodeCache.refs_pos held
  have grown := toNat_add_one (x := (cache.inode inode).count) (by omega)
  refine ⟨fun other => ?_, fun _ _ => rfl, rfl⟩
  simp only [InodeCache.refs, InodeCache.hold, InodeCache.setInode] at *
  grind

theorem InodeCache.vfsIput_refs (held : 0 < cache.refs inode) :
    (∀ other, (cache.vfsIput inode).refs other =
      cache.refs other - if inode = other then 1 else 0) ∧
    (cache.vfsIput inode).freed =
      (if cache.refs inode = 1 then [inode] else []) ++ cache.freed ∧
    (cache.vfsIput inode).misused = cache.misused := by
  obtain ⟨member, count⟩ := InodeCache.refs_pos held
  have lowered := toNat_sub_one (x := (cache.inode inode).count) (by omega)
  have positive : 0 < (cache.inode inode).count :=
    UInt32.lt_iff_toNat_lt.mpr (by rw [count]; exact held)
  have zero : (cache.inode inode).count - 1 = 0 ↔ cache.refs inode = 1 := by
    rw [← UInt32.toNat_inj, lowered, count, UInt32.toNat_zero]
    omega
  rw [InodeCache.vfsIput, if_neg (not_not.mpr member)]
  simp only [if_pos positive, zero]
  split
  · refine ⟨fun other => ?_, rfl, rfl⟩
    simp only [InodeCache.refs, InodeCache.vfsFreeInode, InodeCache.setInode] at *
    grind
  · refine ⟨fun other => ?_, rfl, rfl⟩
    simp only [InodeCache.refs, InodeCache.setInode] at *
    grind

theorem InodeCache.Balanced.put {current : Nat} {taken : Option Nat}
    (refs : ∀ inode, cache.refs inode = start.refs inode +
      (if taken = some inode then 1 else 0) + if current = inode then 1 else 0)
    (freed : ∀ inode, 0 < start.refs inode → cache.freed.count inode = start.freed.count inode)
    (misused : cache.misused = start.misused) :
    start.Balanced (cache.vfsIput current) taken := by
  obtain ⟨released, log, same⟩ := @InodeCache.vfsIput_refs cache current (by simp [refs])
  refine ⟨fun inode => ?_, fun inode held => ?_, same.trans misused⟩
  · rw [released, refs, Nat.add_sub_cancel]
  · -- An inode that was held at the start is not left with the last reference.
    rw [log, List.count_append, freed inode held, Nat.add_eq_right]
    refine List.count_eq_zero.mpr ?_
    split
    · rename_i last
      rintro member
      cases List.mem_singleton.mp member
      rw [refs, if_pos rfl] at last
      omega
    · simp

theorem walkPath_balanced (takes : fs.Takes) (room : ∀ inode, start.refs inode + 2 < 2 ^ 32)
    (path : List UInt8) {current : Nat} (balanced : start.Balanced cache (some current)) :
    start.Balanced (walkPath fs path current cache).2 (walkPath fs path current cache).1 := by
  -- What a look-up gives is held besides the directory, without running a count over.
  have looked {current : Nat} {component : List UInt8} {cache after : InodeCache}
      {found : Option Nat} (balanced : start.Balanced cache (some current))
      (given : fs.lookup current component cache = (found, after)) :
      start.Balanced (after.vfsIput current) found := by
    have refs := takes.refs current component cache
    have freed := takes.freed current component cache
    have misused := takes.misused current component cache
    rw [given] at refs freed misused
    refine .put (fun inode => ?_) (fun inode held => ?_) (misused.trans balanced.misused)
    · have := room inode
      rw [refs, balanced.refs, Nat.mod_eq_of_lt (by split <;> split <;> omega)]
      simp only [Option.some.injEq]
      omega
    · rw [freed inode (by rw [balanced.refs]; omega), balanced.freed inode held]
  fun_induction walkPath fs path current cache with
  | case1 => exact balanced
  | case2 path current cache more component empty ih => exact ih balanced
  | case3 path current cache more component some dots ih => exact ih balanced
  | case4 path current cache more component some named notDir =>
    exact .put (by simpa using balanced.refs) balanced.freed balanced.misused
  | case5 path current cache more component some named dir after failed =>
    exact looked balanced failed
  | case6 path current cache more component some named dir next after found ih =>
    exact ih (looked balanced found)

/-- Every name leads to one inode, if it is cached. -/
def leadsTo (target : Nat) : FileSystem where
  isDir _ := true
  lookup _ _ cache :=
    if target ∈ cache.inodes then (some target, cache.hold target) else (none, cache)

theorem leadsTo_takes (target : Nat) : (leadsTo target).Takes := by
  refine ⟨fun _ _ cache inode => ?_, fun _ _ cache inode _ => ?_, fun _ _ cache => ?_⟩ <;>
    by_cases member : target ∈ cache.inodes <;> simp only [leadsTo, member, if_true, if_false]
  · -- The count of the target is a word of 32 bits.
    have below (inode : Nat) := Nat.mod_eq_of_lt (cache.inode inode).count.toNat_lt
    have wrapped := UInt32.toNat_add (cache.inode target).count 1
    simp only [InodeCache.refs, InodeCache.hold, InodeCache.setInode]
    grind
  · have below := (cache.inode inode).count.toNat_lt
    simp only [InodeCache.refs, reduceCtorEq, if_false]
    grind
  · rfl
  · rfl

theorem leadsTo_frees (member : inode ∈ cache.inodes)
    (full : (cache.inode inode).count + 2 = 0 ∨ (cache.inode inode).count + 2 = 1) :
    (vfsPathLookup (leadsTo inode) (some inode) ⟨[120], by decide⟩ cache).2.freed =
      inode :: cache.freed := by
  have twice : (cache.inode inode).count + 1 + 1 = (cache.inode inode).count + 2 := by
    rw [UInt32.add_assoc]
    rfl
  unfold vfsPathLookup walkPath
  simp [skipSlash, nextComponent, leadsTo, InodeCache.hold, InodeCache.setInode, member, twice]
  rw [walkPath, dif_pos rfl]
  rcases full with full | full <;>
    simp [InodeCache.vfsIput, InodeCache.vfsFreeInode, InodeCache.setInode, member, full]

/-- A path look-up takes one reference to what it finds and releases the others, for every mounted
root, file system and path, exactly if no count runs over when the walk takes two references more. -/
theorem vfsPathLookup_balanced_iff :
    (∀ root, 0 < cache.refs root → ∀ fs : FileSystem, fs.Takes → ∀ path, cache.Balanced
      (vfsPathLookup fs (some root) path cache).2 (vfsPathLookup fs (some root) path cache).1) ↔
    ∀ inode, cache.refs inode + 2 < 2 ^ 32 := by
  constructor
  · intro balanced inode
    by_contra full
    obtain ⟨member, count⟩ := @InodeCache.refs_pos cache inode (by omega)
    have small := (cache.inode inode).count.toNat_lt
    have freed := (balanced inode (by omega) _ (leadsTo_takes inode) ⟨[120], by decide⟩).freed
      inode (by omega)
    rw [leadsTo_frees member (by
      simp only [← UInt32.toNat_inj, UInt32.toNat_add, UInt32.toNat_ofNat]
      omega), List.count_cons_self] at freed
    omega
  · intro room root mounted fs takes path
    have small := room root
    exact walkPath_balanced takes room _ (.hold mounted (by omega))

/-- An inode with 2^32 - 2 references, which its users lose when a name leads from it to itself. -/
theorem vfsPathLookup_frees_held :
    ∃ cache : InodeCache, cache.refs 64 = 2 ^ 32 - 2 ∧ (leadsTo 64).Takes ∧
      (vfsPathLookup (leadsTo 64) (some 64) ⟨[120], by decide⟩ cache).2.freed = [64] :=
  ⟨{ CacheSession.boot.cache with inode := fun _ => ⟨8, 2, 0xFFFFFFFE⟩, inodes := [64], count := 1 },
    by decide, leadsTo_takes 64, leadsTo_frees (by decide) (by decide)⟩

end References

end Ccos
