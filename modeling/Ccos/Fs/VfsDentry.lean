import Ccos.Lib.Buffer
import Ccos.Lib.Ring
import Ccos.Lib.Run

/-! Directory entries in `fs/vfs/vfs_dentry.c`: their lists of children, and their paths. -/

namespace Ccos

open Lib

/-- The fields of `vfs_dentry_t` that give it a place in the tree. -/
structure VfsDentry where
  parent : Option Nat
  name : CString

/-- The dentries at their addresses, the links of their `d_subdirs`, and those that are allocated. -/
structure DentryCache where
  dentry : Nat → VfsDentry
  subdirs : RingLinks Nat
  live : List Nat

section Children

/-- `DENTRY_FLAG_CACHED`, the lowest byte of `d_flags`. -/
def dentryFlagCached : UInt8 := 1

theorem dentryFlagCached_ne_zero : dentryFlagCached ≠ 0 := by decide

/-- The string that starts at `d_name`. -/
def dentryName (name : Option CString) : CString :=
  match name with
  | none => ⟨[], List.not_mem_nil⟩
  -- A copy of a longer name fills the field without a NUL, and the flags are behind it.
  | some name =>
    if name.chars.length < 256 then name
    else (CString.take 256 name).push dentryFlagCached dentryFlagCached_ne_zero

/-- Make a dentry below a parent or without one, if the heap has a place for it. -/
def vfsDAlloc (place parent : Option Nat) (name : Option CString) (cache : DentryCache) :
    DentryCache :=
  match place with
  | none => cache
  | some new =>
    let links := Function.update cache.subdirs new ⟨new, new⟩
    { dentry := Function.update cache.dentry new ⟨parent, dentryName name⟩
      -- The node of the new dentry among the children is also the head of its own list.
      subdirs := match parent with
        | some parent => listAdd new parent links
        | none => links
      live := new :: cache.live }

def vfsDFree (dentry : Nat) (cache : DentryCache) : DentryCache :=
  { cache with
    subdirs := match (cache.dentry dentry).parent with
      | some _ => listDel dentry cache.subdirs
      | none => cache.subdirs
    live := cache.live.filter (· != dentry) }

/-- A call of one of the two functions, with the answer of the heap. -/
inductive DentryCall
  | alloc (place parent : Option Nat) (name : Option CString)
  | free (dentry : Nat)

namespace DentryCache

def empty : DentryCache :=
  ⟨fun _ => ⟨none, dentryName none⟩, fun node => ⟨node, node⟩, []⟩

/-- The heap gives no block twice, parents are allocated, and only dentries without children are
freed. -/
def perform (cache : DentryCache) : DentryCall → Option DentryCache
  | .alloc place parent name =>
    if place.any (· ∈ cache.live) ∨ parent.any (· ∉ cache.live) then none
    else some (vfsDAlloc place parent name cache)
  | .free dentry =>
    if dentry ∉ cache.live ∨ cache.live.any fun child => (cache.dentry child).parent = some dentry
    then none else some (vfsDFree dentry cache)

/-- Walking the list of a dentry comes to its children, to each of them once. -/
def ListsChildren (cache : DentryCache) (dentry : Nat) : Prop :=
  ∃ limit visited, listWalk cache.subdirs dentry limit (cache.subdirs dentry).next = some visited ∧
    visited.Nodup ∧ ∀ node, node ∈ visited ↔ node ∈ cache.live ∧
      (cache.dentry node).parent = some dentry

/-- The dentries are trees, and the links of each tree are one ring of all its dentries. -/
@[grind] structure Forest (cache : DentryCache) (top depth : Nat → Nat) : Prop where
  tops : ∀ d ∈ cache.live, top d ∈ cache.live ∧ (cache.dentry (top d)).parent = none
  roots : ∀ d ∈ cache.live, (cache.dentry d).parent = none → top d = d
  parents : ∀ d ∈ cache.live, ∀ p, (cache.dentry d).parent = some p →
    p ∈ cache.live ∧ top p = top d ∧ depth p < depth d
  rings : ∀ d ∈ cache.live, ∃ nodes, Ring cache.subdirs d nodes ∧
    ∀ node, node ∈ d :: nodes ↔ node ∈ cache.live ∧ top node = top d

variable {cache last : DentryCache} {top depth : Nat → Nat} {dentry new : Nat}

namespace Forest

theorem exists_child (forest : cache.Forest top depth) (live : dentry ∈ cache.live)
    (below : top dentry ≠ dentry) :
    ∃ child ∈ cache.live, (cache.dentry child).parent = some (top dentry) := by
  -- Parents are less deep, so the way up ends.
  induction height : depth dentry using Nat.strong_induction_on generalizing dentry with
  | _ n ih =>
    cases up : (cache.dentry dentry).parent with
    | none => exact absurd (forest.roots dentry live up) below
    | some parent =>
      obtain ⟨alive, same, less⟩ := forest.parents dentry live parent up
      by_cases root : top parent = parent
      · exact ⟨dentry, live, by rw [up, ← same, root]⟩
      · rw [← same]
        exact ih (depth parent) (height ▸ less) alive root rfl

/-- A new dentry joins the tree of its parent, or is a tree of its own. -/
theorem alloc (forest : cache.Forest top depth) (fresh : new ∉ cache.live) {parent : Option Nat}
    (alive : ∀ up, parent = some up → up ∈ cache.live) (name : Option CString) :
    ∃ top depth, (vfsDAlloc (some new) parent name cache).Forest top depth := by
  obtain ⟨tops, roots, parents, rings⟩ := forest
  -- What is known of the other dentries stays.
  have apart {d : Nat} (live : d ∈ cache.live) : d ≠ new := fun same => fresh (same ▸ live)
  have kept {Value : Type} {f : Nat → Value} {value : Value} {d : Nat} (live : d ∈ cache.live) :
      Function.update f new value d = f d := Function.update_of_ne (apart live) ..
  refine ⟨Function.update top new (parent.elim new top),
    Function.update depth new (parent.elim 0 (depth · + 1)), ?_, ?_, ?_, ?_⟩
  all_goals simp only [vfsDAlloc, List.forall_mem_cons, Function.update_self]
  · refine ⟨?_, fun d live => ?_⟩
    · cases parent with
      | none => simp
      | some up =>
        obtain ⟨member, root⟩ := tops up (alive up rfl)
        rw [Option.elim, kept member]
        exact ⟨List.mem_cons_of_mem _ member, root⟩
    · obtain ⟨member, root⟩ := tops d live
      rw [kept live, kept member]
      exact ⟨List.mem_cons_of_mem _ member, root⟩
  · refine ⟨fun none => by rw [none, Option.elim], fun d live root => ?_⟩
    rw [kept live] at root ⊢
    exact roots d live root
  · constructor
    · rintro up rfl
      have old := alive up rfl
      rw [kept old, kept old]
      exact ⟨List.mem_cons_of_mem _ old, rfl, Nat.lt_succ_self _⟩
    · intro d live up below
      rw [kept live] at below
      obtain ⟨member, same, less⟩ := parents d live up below
      rw [kept live, kept live, kept member, kept member]
      exact ⟨List.mem_cons_of_mem _ member, same, less⟩
  · have members (node root : Nat) : (node ∈ new :: cache.live ∧
        Function.update top new (parent.elim new top) node = root) ↔
        node = new ∧ parent.elim new top = root ∨ node ∈ cache.live ∧ top node = root := by
      by_cases here : node = new
      · simp [here, fresh]
      · simp [here]
    simp only [members]
    cases parent with
    | none =>
      have foreign {d : Nat} (live : d ∈ cache.live) : top d ≠ new := apart (tops d live).1
      simp only [Option.elim]
      refine ⟨⟨[], .empty (Function.update_self ..), fun node => ?_⟩, fun d live => ?_⟩
      · simpa using fun live root => absurd root (foreign live)
      · obtain ⟨nodes, ring, whole⟩ := rings d live
        refine ⟨nodes, ring.congr fun node member => kept ((whole node).mp member).1, fun node => ?_⟩
        rw [whole, kept live]
        simp [(foreign live).symm]
    | some parent =>
      obtain ⟨tree, ring, whole⟩ := rings parent (alive parent rfl)
      obtain ⟨others, entered, inside, outside⟩ := (ring.congr fun node member =>
        kept ((whole node).mp member).1).add List.mem_cons_self
          (fun member => fresh ((whole new).mp member).1)
      have all (node : Nat) : node ∈ new :: others ↔ node = new ∧ True ∨
          node ∈ cache.live ∧ top node = top parent := by
        rw [List.mem_cons, inside, whole, and_true]
      refine ⟨⟨others, entered, all⟩, fun d live => ?_⟩
      rw [kept live]
      by_cases same : top d = top parent
      · obtain ⟨nodes, turned, also⟩ := entered.rotate ((all d).mpr (.inr ⟨live, same⟩))
        exact ⟨nodes, turned, fun node => by simpa [same] using (also node).trans (all node)⟩
      · -- The ring of another tree is not touched.
        obtain ⟨nodes, other, whole'⟩ := rings d live
        refine ⟨nodes, other.congr fun node member => ?_, fun node => ?_⟩
        · obtain ⟨old, root⟩ := (whole' node).mp member
          exact (outside node (apart old) fun inTree =>
            same (root.symm.trans ((whole node).mp inTree).2)).trans (kept old)
        · rw [whole']
          simp [Ne.symm same]

/-- A dentry without children leaves the ring of its tree, and a root leaves an empty tree. -/
theorem free (forest : cache.Forest top depth) (live : dentry ∈ cache.live)
    (childless : ∀ child ∈ cache.live, (cache.dentry child).parent ≠ some dentry) :
    (vfsDFree dentry cache).Forest top depth := by
  have alone {d : Nat} (other : d ∈ cache.live) (apart : d ≠ dentry) : top d ≠ dentry := by
    intro root
    obtain ⟨child, alive, up⟩ := forest.exists_child other (by rw [root]; exact Ne.symm apart)
    exact childless child alive (root ▸ up)
  obtain ⟨tops, roots, parents, rings⟩ := forest
  constructor <;> simp only [vfsDFree, List.mem_filter, bne_iff_ne]
  · grind
  · grind
  · grind
  · rintro d ⟨other, apart⟩
    obtain ⟨nodes, ring, whole⟩ := rings d other
    cases up : (cache.dentry dentry).parent with
    | none => exact ⟨nodes, ring, by grind⟩
    | some parent =>
      by_cases same : top dentry = top d
      · have member : dentry ∈ nodes := by grind
        exact ⟨nodes.erase dentry, ring.del member, by have := ring.nodup; grind⟩
      · obtain ⟨tree, own, members⟩ := rings parent (parents dentry live parent up).1
        refine ⟨nodes, ring.congr fun node member => ?_, by grind⟩
        exact own.listDel_outside (by grind) (by grind)

end Forest

theorem perform_forest {call : DentryCall} (done : cache.perform call = some last)
    (forest : ∃ top depth, cache.Forest top depth) : ∃ top depth, last.Forest top depth := by
  obtain ⟨top, depth, forest⟩ := forest
  cases call with
  | alloc place parent name =>
    simp only [perform] at done
    split at done
    · cases done
    · rename_i allowed
      cases done
      rw [not_or] at allowed
      cases place with
      | none => exact ⟨top, depth, forest⟩
      | some new =>
        have fresh : new ∉ cache.live := by simpa using allowed.1
        refine forest.alloc fresh (fun up is => ?_) name
        subst is
        simpa using allowed.2
  | free dentry =>
    simp only [perform] at done
    split at done
    · cases done
    · cases done
      exact ⟨top, depth, forest.free (by grind) (by grind)⟩

/-- In every state of every run, the lists of all dentries are right exactly if no dentry has a
parent. -/
theorem dentry_lists_iff {calls : List DentryCall}
    (run : Run (fun before call after => before.perform call = some after) empty calls last) :
    (∀ dentry ∈ last.live, last.ListsChildren dentry) ↔
      ∀ dentry ∈ last.live, (last.dentry dentry).parent = none := by
  obtain ⟨top, depth, tops, roots, parents, rings⟩ := run.preserves (∃ top depth, Forest · top depth)
    (fun _ _ _ done => perform_forest done) ⟨id, id, by simp [empty], by simp [empty],
      by simp [empty], by simp [empty]⟩
  constructor
  · intro lists dentry live
    -- A dentry with a parent comes to the root of its tree, which is no child.
    by_contra below
    obtain ⟨limit, visited, walked, _, children⟩ := lists dentry live
    obtain ⟨nodes, ring, whole⟩ := rings dentry live
    rw [Ring.listWalk_eq ring.chain (List.nodup_cons.mp ring.nodup).1] at walked
    grind
  · intro plain dentry live
    obtain ⟨nodes, ring, whole⟩ := rings dentry live
    have none : nodes = [] := by
      have := ring.nodup
      rw [List.eq_nil_iff_forall_not_mem]
      grind
    subst none
    refine ⟨1, [], ?_, List.nodup_nil, by grind⟩
    rw [Ring.listWalk_eq ring.chain (List.not_mem_nil)]
    rfl

/-- Two dentries without a parent. -/
theorem dentry_lists_iff_roots :
    ∃ last, Run (fun before call after => before.perform call = some after) empty
      [.alloc (some 64) none none, .alloc (some 128) none none] last ∧
      ∀ dentry ∈ last.live, last.ListsChildren dentry := by
  refine Run.exists_by (fun last => ∀ dentry ∈ last.live, (last.dentry dentry).parent = none)
    (by decide) fun last run plain => ?_
  exact (dentry_lists_iff run).mpr plain

/-- The list of a child leads to its parent. -/
theorem dentry_lists_parent :
    ∃ last, Run (fun before call after => before.perform call = some after) empty
      [.alloc (some 64) none none, .alloc (some 128) (some 64) none] last ∧
      listWalk last.subdirs 128 2 (last.subdirs 128).next = some [64] ∧
      (last.dentry 64).parent = none :=
  Run.exists_of_any (by decide)

end DentryCache

end Children

section Path

variable {dentry : Nat → VfsDentry} {current offset : Nat} {path built : List UInt8}

/-- Put the names on the way up in front of what was built, from `temp[offset]` on. Nothing means
that the buffer has no room for them. -/
def buildPath (dentry : Nat → VfsDentry) (current : Option Nat) (offset : Nat)
    (built : List UInt8) : Option (Nat × List UInt8) :=
  match current with
  | none => some (offset, built)
  | some current =>
    if (dentry current).parent = some current then some (offset, built)
    else
      let name := (dentry current).name.chars
      -- The offset would be negative behind the name, or behind the slash.
      if _long : offset < name.length then none
      else if _full : offset - name.length = 0 then none
      else buildPath dentry (dentry current).parent (offset - name.length - 1) (47 :: name ++ built)
termination_by offset

/-- The result, and the bytes that are written to the buffer. -/
def vfsDGetPath (dentry : Nat → VfsDentry) (current size : Nat) : Int × List UInt8 :=
  if size = 0 then (-1, [])
  else
    match buildPath dentry (some current) 511 [] with
    | none => (-1, [])
    | some (offset, built) => if size ≤ offset then (-1, []) else (0, built ++ [0])

/-- The path from a root, which is its own parent, down to a dentry. -/
inductive PathOf (dentry : Nat → VfsDentry) : Nat → List UInt8 → Prop
  | root {current : Nat} (own : (dentry current).parent = some current) : PathOf dentry current []
  | child {current parent : Nat} {path : List UInt8} (up : (dentry current).parent = some parent)
      (apart : parent ≠ current) (leads : PathOf dentry parent path) :
      PathOf dentry current (path ++ 47 :: (dentry current).name.chars)

theorem buildPath_eq (leads : PathOf dentry current path) :
    buildPath dentry (some current) offset built =
      if path.length ≤ offset then some (offset - path.length, path ++ built) else none := by
  induction leads generalizing offset built with
  | root own => simp [buildPath, own]
  | child up apart leads ih =>
    rw [buildPath, if_neg (by rw [up]; simpa using apart)]
    simp only [List.length_append, List.length_cons, up, ih]
    grind

/-- What the function is meant to do: give the path if it has at most 511 characters and fits, and
write nothing behind the buffer. -/
structure GivesPath (path : List UInt8) (size : Nat) (result : Int × List UInt8) : Prop where
  found : path.length ≤ 511 ∧ path.length < size → result = (0, path ++ [0])
  refused : ¬(path.length ≤ 511 ∧ path.length < size) → result.1 = -1
  inside : result.2.length ≤ size

/-- The path is given as it should be exactly if it is too long anyway, or the test of the offset
from the end of the temporary buffer agrees with a test of the length. -/
theorem vfsDGetPath_gives_iff {size : Nat} (leads : PathOf dentry current path) (positive : 0 < size) :
    GivesPath path size (vfsDGetPath dentry current size) ↔
      511 < path.length ∨ path.length < size ∧ 511 < path.length + size ∨
        size ≤ path.length ∧ path.length + size ≤ 511 := by
  have result : vfsDGetPath dentry current size =
      if path.length ≤ 511 ∧ 511 < path.length + size then (0, path ++ [0]) else (-1, []) := by
    rw [vfsDGetPath, if_neg (by omega), buildPath_eq leads]
    by_cases fits : path.length ≤ 511
    · simp only [if_pos fits, List.append_nil]
      split <;> grind
    · rw [if_neg fits, if_neg (by omega)]
  rw [result]
  by_cases given : path.length ≤ 511 ∧ 511 < path.length + size
  · rw [if_pos given]
    constructor
    · intro gives
      have inside := gives.inside
      simp only [List.length_append, List.length_singleton] at inside
      omega
    · exact fun agrees => ⟨fun _ => rfl, fun _ => by omega, by simp; omega⟩
  · rw [if_neg given]
    constructor
    · intro gives
      by_contra disagrees
      cases gives.found (by omega)
    · exact fun agrees => ⟨fun _ => by omega, fun _ => rfl, Nat.zero_le _⟩

/-- A root that stands at 64, and a dentry `a` in it at every other place. -/
def belowRoot : Nat → VfsDentry :=
  fun _ => ⟨some 64, ⟨[97], by decide⟩⟩

theorem belowRoot_path : PathOf belowRoot 128 [47, 97] :=
  .child rfl (by decide) (.root rfl)

/-- The path `/a` in a buffer of 512 bytes. -/
theorem vfsDGetPath_gives_iff_short : GivesPath [47, 97] 512 (vfsDGetPath belowRoot 128 512) :=
  (vfsDGetPath_gives_iff belowRoot_path (by decide)).mpr (.inr (.inl (by decide)))

/-- The path `/a` is refused for a buffer of 128 bytes. -/
theorem vfsDGetPath_refuses_short :
    ¬GivesPath [47, 97] 128 (vfsDGetPath belowRoot 128 128) := by
  intro gives
  have result := gives.found (by decide)
  rw [vfsDGetPath, if_neg (by decide), buildPath_eq belowRoot_path] at result
  cases result

end Path

end Ccos
