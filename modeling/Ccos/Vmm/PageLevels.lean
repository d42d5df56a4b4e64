import Ccos.Vmm.PageTree

/-! The page tables below several PML4s, which may share tables: every table keeps one depth, and a
call on one of the PML4s leaves the present entries of all of them. They are a tree where only one
path leads to each table. -/

namespace Ccos

open Lib

variable {Alloc : Type*}

/-- Page tables with one depth each, zero for a PML4: links lead to tables in use one level deeper,
and entries of the upper levels that are not present hold no address. -/
@[grind]
structure PageLevels (inUse : Nat → Prop) (mem : PhysMem) (depth : Nat → Nat → Prop) : Prop where
  single : ∀ table k l, depth table k → depth table l → k = l
  tables : ∀ table k, depth table k →
    table ≠ 0 ∧ table % pageSize = 0 ∧ table < 2 ^ 40 ∧ inUse table
  absent : ∀ table k index, depth table k → k ≤ 2 →
    ptePresent (mem (entryAt table index)) = false → pteAddr (mem (entryAt table index)) = 0
  child : ∀ table k index next, depth table k → k ≤ 2 →
    pageLayout.child (mem (entryAt table index)) = some next → depth next (k + 1)
  top : ∀ root index, depth root 0 → ptePresent (mem (entryAt root index)) = true →
    ptePat (mem (entryAt root index)) = false

/-- The tables of a tree have the lengths of their paths as depths. -/
theorem PageTree.levels {inUse : Nat → Prop} {mem : PhysMem} {root : Nat}
    (tree : PageTree inUse mem root) : PageLevels inUse mem fun table k =>
      k ≤ 3 ∧ ∃ path : List (Fin 512), path.length = k ∧ tableAt mem root path = some table where
  single := by
    rintro table _ _ ⟨short, path, rfl, reached⟩ ⟨brief, way, rfl, reaches⟩
    rw [(tree.separated path way table table 0 0 short brief reached reaches rfl).1]
  tables := by
    rintro table _ ⟨short, path, rfl, reached⟩
    exact tree.tables path table short reached
  absent := by
    rintro table _ index ⟨_, path, rfl, reached⟩ upper
    exact tree.absent path table index upper reached
  child := by
    rintro table _ index next ⟨_, path, rfl, reached⟩ upper link
    exact ⟨by omega, path ++ [index], by simp,
      (RadixLayout.descend_concat reached index).trans link⟩
  top := by
    rintro table index ⟨_, path, empty, reached⟩
    obtain rfl : path = [] := List.length_eq_zero_iff.mp empty
    obtain rfl : root = table := Option.some.inj reached
    exact tree.top index

variable {inUse : Nat → Prop} {mem : PhysMem} {depth : Nat → Nat → Prop}
  {root table k start l target : Nat} {index : Fin 512} {path : List (Fin 512)}

namespace PageLevels

section

variable (levels : PageLevels inUse mem depth)
include levels

theorem descend (is : depth start k) (short : k + path.length ≤ 3)
    (reached : tableAt mem start path = some target) : depth target (k + path.length) := by
  induction path generalizing start k with
  | nil =>
    obtain rfl : start = target := Option.some.inj reached
    exact is
  | cons index rest ih =>
    simp only [List.length_cons] at short ⊢
    rw [tableAt, RadixLayout.descend] at reached
    cases link : pageLayout.child (mem (pageLayout.slot start index)) with
    | none => simp [link] at reached
    | some next =>
      rw [link] at reached
      have below := levels.child start k index next is (by omega) link
      grind

theorem below (rooted : depth root 0) (short : path.length ≤ 3)
    (reached : tableAt mem root path = some table) : depth table path.length := by
  simpa using levels.descend rooted (by omega) reached

/-- Memories with the same links have the same paths. -/
theorem same_reach {other : PhysMem} (links : ∀ table k index, depth table k → k ≤ 2 →
      pageLayout.child (other (entryAt table index)) = pageLayout.child (mem (entryAt table index)))
    (is : depth start k) (short : k + path.length ≤ 3) :
    tableAt other start path = tableAt mem start path := by
  induction path generalizing start k with
  | nil => rfl
  | cons index rest ih =>
    simp only [List.length_cons] at short
    rw [tableAt, tableAt, RadixLayout.descend, RadixLayout.descend,
      show pageLayout.slot start index = entryAt start index from rfl,
      links start k index is (by omega)]
    cases link : pageLayout.child (mem (entryAt start index)) with
    | none => rfl
    | some next => exact ih (levels.child start k index next is (by omega) link) (by omega)

theorem child_none (is : depth table k) (upper : k ≤ 2)
    (empty : pteAddr (mem (entryAt table index)) = 0) :
    pageLayout.child (mem (entryAt table index)) = none := by
  cases child : pageLayout.child (mem (entryAt table index)) with
  | none => rfl
  | some next =>
    -- A child would be a table at address zero.
    obtain ⟨nonzero, _, low, _⟩ :=
      levels.tables next _ (levels.child table k index next is upper child)
    exact absurd ((pteAddr_of_child child low).symm.trans empty) nonzero

theorem lowTables (rooted : depth root 0) (vaddr : Nat) : LowTables mem root vaddr := by
  intro path table early _ reached
  exact (levels.tables table _ (levels.below rooted (by simpa using early.length_le) reached)).2.2.1

theorem frames {later : Nat → Prop} (used : ∀ frame, inUse frame → later frame) :
    PageLevels later mem depth := by
  refine ⟨levels.single, fun table k is => ?_, levels.absent, levels.child, levels.top⟩
  obtain ⟨nonzero, aligned, low, taken⟩ := levels.tables table k is
  exact ⟨nonzero, aligned, low, used table taken⟩

/-- Tables that one path each leads to are a tree. -/
theorem tree (rooted : depth root 0) (unique : ∀ path way table, path.length ≤ 3 → way.length ≤ 3 →
      tableAt mem root path = some table → tableAt mem root way = some table → path = way) :
    PageTree inUse mem root := by
  refine ⟨?_, fun path table short reached => levels.tables table _ (levels.below rooted short reached),
    fun path table index upper reached =>
      levels.absent table _ index (levels.below rooted (by omega) reached) upper,
    fun index => levels.top root index rooted⟩
  -- Entries at one address belong to one table.
  intro path way table other i j short brief reached reaches shared
  obtain ⟨rfl, rfl⟩ := entryAt_inj (levels.tables table _ (levels.below rooted short reached)).2.1
    (levels.tables other _ (levels.below rooted brief reaches)).2.1 shared
  exact ⟨unique path way table short brief reached reaches, rfl⟩

variable {value : Nat}

theorem write_entry (is : depth table k) (was : depth start l) (index i : Fin 512) (value : Nat) :
    (start = table ∧ i = index ∧ l = k) ∨
      Function.update mem (entryAt table index) value (entryAt start i) = mem (entryAt start i) := by
  by_cases here : entryAt start i = entryAt table index
  · obtain ⟨rfl, rfl⟩ :=
      entryAt_inj (levels.tables start l was).2.1 (levels.tables table k is).2.1 here
    exact .inl ⟨rfl, rfl, levels.single start l k was is⟩
  · exact .inr (Function.update_of_ne here ..)

section

variable (is : depth table k) (unlinked : k = 3 ∨
    pageLayout.child (mem (entryAt table index)) = none ∧ pageLayout.child value = none)
include is unlinked

theorem write_links (other l : Nat) (i : Fin 512) (was : depth other l) (upper : l ≤ 2) :
    pageLayout.child (Function.update mem (entryAt table index) value (entryAt other i)) =
      pageLayout.child (mem (entryAt other i)) := by
  rcases levels.write_entry is was index i value with ⟨rfl, rfl, rfl⟩ | same
  · obtain ⟨before, after⟩ := unlinked.resolve_left (by omega)
    rw [Function.update_self, before, after]
  · rw [same]

end

/-- An entry below the PML4 may be stored if it is one of the last level, or if neither the old nor
the new entry is a link. -/
theorem write (is : depth table k) (below : k ≠ 0) (unlinked : k = 3 ∨ ptePresent value = true ∧
      pageLayout.child (mem (entryAt table index)) = none ∧ pageLayout.child value = none) :
    PageLevels inUse (Function.update mem (entryAt table index) value) depth := by
  refine ⟨levels.single, levels.tables, fun other l i was upper bit => ?_,
    fun other l i next was upper link => ?_, fun other i was present => ?_⟩
  · rcases levels.write_entry is was index i value with ⟨rfl, rfl, rfl⟩ | same
    · rw [Function.update_self, (unlinked.resolve_left (by omega)).1] at bit
      cases bit
    · rw [same] at bit ⊢
      exact levels.absent other l i was upper bit
  · rw [levels.write_links is (unlinked.imp id And.right) other l i was upper] at link
    exact levels.child other l i next was upper link
  · rcases levels.write_entry is was index i value with ⟨_, _, top⟩ | same
    · exact absurd top.symm below
    · rw [same] at present ⊢
      exact levels.top other i was present

end

section Link

variable {source : FrameSource Alloc} {st : PageState Alloc} {fresh : Nat} {frames : Alloc}
  (levels : PageLevels (source.inUse st.frames) st.mem depth) (is : depth table k)
  (granted : source.alloc st.frames = (some fresh, frames))
include levels is granted

theorem link_zero (index i : Fin 512) :
    (linkTable st frames fresh (entryAt table index)).mem (entryAt fresh i) = 0 := by
  obtain ⟨_, tableAligned, _, used⟩ := levels.tables table k is
  obtain ⟨unused, _, aligned, _⟩ := source.fresh _ _ _ granted
  have apart : entryAt fresh i ≠ entryAt table index :=
    fun shared => unused ((entryAt_inj aligned tableAligned shared).1 ▸ used)
  exact (Function.update_of_ne apart ..).trans (clearPage_fresh _ fresh i)

/-- An entry of an old table is the linked one or keeps its value. -/
theorem link_entry (was : depth start l) (index i : Fin 512) :
    (start = table ∧ i = index) ∨ (linkTable st frames fresh (entryAt table index)).mem
      (entryAt start i) = st.mem (entryAt start i) := by
  obtain ⟨_, aligned, _, used⟩ := levels.tables start l was
  by_cases here : entryAt start i = entryAt table index
  · exact .inl (entryAt_inj aligned (levels.tables table k is).2.1 here)
  · refine .inr ((Function.update_of_ne here ..).trans (if_neg ?_))
    exact source.entry_apart granted aligned used i

/-- The only path that a link adds is the one to the fresh table. -/
theorem link_back (was : depth start l) (short : l + path.length ≤ 3)
    (reached : tableAt (linkTable st frames fresh (entryAt table index)).mem start path =
      some target) :
    tableAt st.mem start path = some target ∨ target = fresh ∧
      ∃ front, path = front ++ [index] ∧ tableAt st.mem start front = some table := by
  obtain ⟨_, _, aligned, fits, _⟩ := source.fresh _ _ _ granted
  induction path generalizing start l with
  | nil => exact .inl reached
  | cons i rest ih =>
    simp only [List.length_cons] at short
    rw [tableAt, RadixLayout.descend, show pageLayout.slot start i = entryAt start i from rfl]
      at reached ⊢
    rcases levels.link_entry is granted was index i with ⟨rfl, rfl⟩ | same
    · -- The fresh table is empty, so the path ends there.
      rw [linkTable_self, child_linkEntry aligned fits] at reached
      change pageLayout.descend _ fresh rest = some target at reached
      cases rest with
      | nil => exact .inr ⟨(Option.some.inj reached).symm, [], rfl, rfl⟩
      | cons second tail =>
        rw [RadixLayout.descend, show pageLayout.slot fresh second = entryAt fresh second from rfl,
          levels.link_zero is granted] at reached
        cases reached
    · rw [same] at reached
      cases link : pageLayout.child (st.mem (entryAt start i)) with
      | none =>
        rw [link] at reached
        cases reached
      | some next =>
        rw [link] at reached
        refine (ih (levels.child start l i next was (by omega) link) (by omega) reached).imp id ?_
        rintro ⟨rfl, front, rfl, parent⟩
        refine ⟨rfl, i :: front, rfl, ?_⟩
        rw [tableAt, RadixLayout.descend, show pageLayout.slot start i = entryAt start i from rfl, link]
        exact parent

/-- A link below an entry that is not present changes no translation. -/
theorem link_walk (absent : ptePresent (st.mem (entryAt table index)) = false) (upper : k ≤ 2)
    (was : depth start l) (whole : l + path.length = 4) :
    (pageLayout.stop (linkTable st frames fresh (entryAt table index)).mem start path).bind leafOf =
      (pageLayout.stop st.mem start path).bind leafOf := by
  obtain ⟨_, _, aligned, fits, _⟩ := source.fresh _ _ _ granted
  have slot (table : Nat) (i : Fin 512) : pageLayout.slot table i = entryAt table i := rfl
  have zero := levels.link_zero is granted index
  induction path generalizing start l with
  | nil => rfl
  | cons i rest ih =>
    simp only [List.length_cons] at whole
    rcases levels.link_entry is granted was index i with ⟨rfl, rfl⟩ | same
    · -- Before, the walk stops at the absent entry; after, at a zero entry of the fresh table.
      have level := levels.single start l k was is
      cases rest with
      | nil => simp only [List.length_nil] at whole; omega
      | cons second tail =>
        have stopped : leafOf (st.mem (entryAt start i), second :: tail) = none := by
          simp [leafOf, absent]
        rw [RadixLayout.stop, RadixLayout.stop, slot, linkTable_self, child_linkEntry aligned fits,
          child_of_absent absent, Option.bind_some, stopped]
        cases tail with
        | nil => simp [RadixLayout.stop, slot, zero, leafOf, ptePresent]
        | cons third last => simp [RadixLayout.stop, zero, leafOf, ptePresent, pageLayout]
    · cases rest with
      | nil => rw [RadixLayout.stop, RadixLayout.stop, slot, same]
      | cons second tail =>
        rw [RadixLayout.stop, RadixLayout.stop, slot, same]
        cases link : pageLayout.child (st.mem (entryAt start i)) with
        | none => rfl
        | some next =>
          simp only [List.length_cons] at whole
          exact ih (levels.child start l i next was (by omega) link)
            (by simp only [List.length_cons]; omega)

/-- Linking a fresh table where no link was adds that table one level deeper. -/
theorem link (upper : k ≤ 2) (unlinked : pageLayout.child (st.mem (entryAt table index)) = none) :
    PageLevels (source.inUse frames) (linkTable st frames fresh (entryAt table index)).mem
      fun other l => depth other l ∨ other = fresh ∧ l = k + 1 := by
  obtain ⟨unused, nonzero, aligned, fits, used⟩ := source.fresh _ _ _ granted
  have zero := levels.link_zero is granted index
  have old {l : Nat} : ¬depth fresh l := fun was => unused (levels.tables fresh l was).2.2.2
  have entry {other l : Nat} (was : depth other l) := levels.link_entry is granted was index
  refine ⟨?_, ?_, ?_, ?_, ?_⟩
  · grind
  · rintro other l (was | ⟨rfl, rfl⟩)
    · obtain ⟨positive, page, low, taken⟩ := levels.tables other l was
      exact ⟨positive, page, low, (used other).mpr (.inl taken)⟩
    · exact ⟨nonzero, aligned, fits, (used other).mpr (.inr rfl)⟩
  · rintro other l i (was | ⟨rfl, rfl⟩) high bit
    · rcases entry was i with ⟨rfl, rfl⟩ | same
      · -- The linked entry is present.
        rw [linkTable_self, (linkEntry_bits fresh).1] at bit
        cases bit
      · rw [same] at bit ⊢
        exact levels.absent other l i was high bit
    · rw [zero]
      rfl
  · rintro other l i next (was | ⟨rfl, rfl⟩) high link
    · rcases entry was i with ⟨rfl, rfl⟩ | same
      · rw [linkTable_self, child_linkEntry aligned fits] at link
        grind
      · rw [same] at link
        exact .inl (levels.child other l i next was high link)
    · rw [zero] at link
      cases link
  · rintro other i (was | ⟨_, impossible⟩) present
    · rcases entry was i with ⟨rfl, rfl⟩ | same
      · rw [linkTable_self]
        exact (linkEntry_bits fresh).2
      · rw [same] at present ⊢
        exact levels.top other i was present
    · omega
end Link

end PageLevels

/-- What a call leaves in place: every table keeps its depth, every link leads where it led, and every
PML4 keeps its present entries. -/
@[grind] structure LevelStep (source : FrameSource Alloc) (depth later : Nat → Nat → Prop)
    (before after : PageState Alloc) : Prop where
  levels : PageLevels (source.inUse after.frames) after.mem later
  grows : ∀ table k, depth table k → later table k
  links : ∀ table k index next, depth table k → k ≤ 2 →
    pageLayout.child (before.mem (entryAt table index)) = some next →
    pageLayout.child (after.mem (entryAt table index)) = some next
  kept : ∀ root index, depth root 0 → ptePresent (before.mem (entryAt root index)) = true →
    after.mem (entryAt root index) = before.mem (entryAt root index)

variable {source : FrameSource Alloc} {st : PageState Alloc}

namespace LevelStep

theorem refl (levels : PageLevels (source.inUse st.frames) st.mem depth) :
    LevelStep source depth depth st st :=
  ⟨levels, fun _ _ is => is, fun _ _ _ _ _ _ link => link, fun _ _ _ _ => rfl⟩

theorem trans {between later : Nat → Nat → Prop} {middle after : PageState Alloc}
    (early : LevelStep source depth between st middle)
    (late : LevelStep source between later middle after) :
    LevelStep source depth later st after := by
  refine ⟨late.levels, fun table k is => late.grows table k (early.grows table k is),
    fun table k index next is upper link => ?_, fun root index rooted present => ?_⟩
  · exact late.links table k index next (early.grows table k is) upper
      (early.links table k index next is upper link)
  · have first := early.kept root index rooted present
    -- The entry is still present in between.
    rw [late.kept root index (early.grows root 0 rooted) (by rwa [first]), first]

end LevelStep

/-- Where links stay, paths lead to the same tables. -/
theorem LevelStep.reach {later : Nat → Nat → Prop} {after : PageState Alloc}
    (step : LevelStep source depth later st after) (levels : PageLevels inUse st.mem depth)
    (is : depth table k) (short : k + path.length ≤ 3)
    (reached : tableAt st.mem table path = some target) :
    tableAt after.mem table path = some target := by
  induction path generalizing table k with
  | nil => exact reached
  | cons index rest ih =>
    simp only [List.length_cons] at short
    rw [tableAt, RadixLayout.descend] at reached ⊢
    cases link : pageLayout.child (st.mem (pageLayout.slot table index)) with
    | none => simp [link] at reached
    | some next =>
      rw [link] at reached
      have kept : pageLayout.child (after.mem (pageLayout.slot table index)) = some next :=
        step.links table k index next is (by omega) link
      rw [kept]
      exact ih (levels.child table k index next is (by omega) link) (by omega) reached

/-- A change of the frames in use alone. -/
theorem LevelStep.still {after : PageState Alloc}
    (levels : PageLevels (source.inUse st.frames) st.mem depth) (same : after.mem = st.mem)
    (used : ∀ frame, source.inUse st.frames frame → source.inUse after.frames frame) :
    LevelStep source depth depth st after := by
  refine ⟨?_, fun _ _ is => is, fun _ _ _ _ _ _ link => ?_, fun _ _ _ _ => ?_⟩
  · rw [same]
    exact levels.frames used
  · rwa [same]
  · rw [same]

theorem LevelStep.write (levels : PageLevels (source.inUse st.frames) st.mem depth)
    (is : depth table k) (below : k ≠ 0) {value : Nat} (unlinked : k = 3 ∨ ptePresent value = true ∧
      pageLayout.child (st.mem (entryAt table index)) = none ∧ pageLayout.child value = none) :
    LevelStep source depth depth st (st.write (entryAt table index) value) := by
  refine ⟨levels.write is below unlinked, fun _ _ was => was,
    fun other l i next was upper link => ?_, fun other i was _ => ?_⟩
  · exact (levels.write_links is (unlinked.imp id And.right) other l i was upper).trans link
  · exact (levels.write_entry is was index i value).resolve_left fun here => below here.2.2.symm

section

variable {fresh : Nat} {frames : Alloc}
  (levels : PageLevels (source.inUse st.frames) st.mem depth)
  (granted : source.alloc st.frames = (some fresh, frames))
include levels granted

theorem LevelStep.link (is : depth table k) (upper : k ≤ 2)
    (unlinked : pageLayout.child (st.mem (entryAt table index)) = none) :
    LevelStep source depth (fun other l => depth other l ∨ other = fresh ∧ l = k + 1) st
      (linkTable st frames fresh (entryAt table index)) := by
  have entry {other l : Nat} (was : depth other l) := levels.link_entry is granted was index
  refine ⟨levels.link is granted upper unlinked, fun _ _ => .inl,
    fun other l i next was high link => ?_, fun other i was present => ?_⟩
  · rcases entry was i with ⟨rfl, rfl⟩ | same
    · rw [unlinked] at link
      cases link
    · rw [same]
      exact link
  · rcases entry was i with ⟨rfl, rfl⟩ | same
    · -- A present entry of a PML4 would have been a link.
      rw [child_of_link present (levels.top other i was present)] at unlinked
      cases unlinked
    · exact same

/-- A table linked at the end of a path lengthens that path. -/
theorem LevelStep.linked (rooted : depth root 0) (within : path.length ≤ 2)
    (reached : tableAt st.mem root path = some table)
    (empty : pteAddr (st.mem (entryAt table index)) = 0) :
    LevelStep source depth (fun other l => depth other l ∨ other = fresh ∧ l = path.length + 1) st
        (linkTable st frames fresh (entryAt table index)) ∧
      tableAt (linkTable st frames fresh (entryAt table index)).mem root (path ++ [index]) =
        some fresh := by
  obtain ⟨_, _, aligned, fits, _⟩ := source.fresh _ _ _ granted
  have is := levels.below rooted (by omega) reached
  have step := LevelStep.link levels granted is within (levels.child_none is within empty)
  have parent := step.reach levels rooted (by omega) reached
  refine ⟨step, (RadixLayout.descend_concat parent index).trans ?_⟩
  rw [show pageLayout.slot table index = entryAt table index from rfl, linkTable_self,
    child_linkEntry aligned fits]

end

namespace PageTree

section

variable (tree : PageTree inUse mem root) (reached : tableAt mem root path = some table)
include tree reached

theorem child_none (within : path.length ≤ 2) (empty : pteAddr (mem (entryAt table index)) = 0) :
    pageLayout.child (mem (entryAt table index)) = none :=
  tree.levels.child_none ⟨by omega, path, rfl, reached⟩ within empty

variable {value : Nat}

theorem tableAt_write (within : path.length ≤ 3) (unlinked : path.length = 3 ∨
      pageLayout.child (mem (entryAt table index)) = none ∧ pageLayout.child value = none)
    {other : List (Fin 512)} (short : other.length ≤ 3) :
    tableAt (Function.update mem (entryAt table index) value) root other =
      tableAt mem root other :=
  tree.levels.same_reach (k := 0)
    (tree.levels.write_links ⟨within, path, rfl, reached⟩ unlinked) ⟨by omega, [], rfl, rfl⟩ (by omega)

theorem write (within : path.length ≤ 3) (below : path ≠ []) (unlinked : path.length = 3 ∨
      ptePresent value = true ∧ pageLayout.child (mem (entryAt table index)) = none ∧
        pageLayout.child value = none) :
    PageTree inUse (Function.update mem (entryAt table index) value) root := by
  have same {other : List (Fin 512)} (short : other.length ≤ 3) :=
    tree.tableAt_write reached within (unlinked.imp id And.right) short
  have after := tree.levels.write ⟨within, path, rfl, reached⟩ (by simpa using below) unlinked
  refine after.tree ⟨by omega, [], rfl, rfl⟩ fun front way target short brief reach reaches => ?_
  rw [same short] at reach
  rw [same brief] at reaches
  exact (tree.separated front way target target 0 0 short brief reach reaches rfl).1

end

section

variable {fresh : Nat} {frames : Alloc} (tree : PageTree (source.inUse st.frames) st.mem root)
  (within : path.length ≤ 2) (reached : tableAt st.mem root path = some table)
  (granted : source.alloc st.frames = (some fresh, frames))
include tree within reached granted

/-- Linking a fresh table adds that table to the tree and nothing else. -/
theorem tableAt_linkTable (empty : pteAddr (st.mem (entryAt table index)) = 0)
    (other : List (Fin 512)) (target : Nat) (short : other.length ≤ 3) :
    tableAt (linkTable st frames fresh (entryAt table index)).mem root other = some target ↔
      tableAt st.mem root other = some target ∨ other = path ++ [index] ∧ target = fresh := by
  have rooted : 0 ≤ 3 ∧ ∃ path : List (Fin 512), path.length = 0 ∧ tableAt st.mem root path = some root :=
    ⟨by omega, [], rfl, rfl⟩
  obtain ⟨step, linked⟩ := LevelStep.linked tree.levels granted rooted within reached empty
  constructor
  · intro reach
    refine (tree.levels.link_back ⟨by omega, path, rfl, reached⟩ granted rooted (by omega)
      reach).imp id ?_
    rintro ⟨rfl, front, rfl, parent⟩
    simp only [List.length_append, List.length_cons] at short
    rw [(tree.separated front path table table 0 0 (by omega) (by omega) parent reached rfl).1]
    exact ⟨rfl, rfl⟩
  · rintro (old | ⟨rfl, rfl⟩)
    · exact step.reach tree.levels rooted (by omega) old
    · exact linked

theorem link (empty : pteAddr (st.mem (entryAt table index)) = 0) :
    PageTree (source.inUse frames) (linkTable st frames fresh (entryAt table index)).mem root := by
  obtain ⟨unused, _⟩ := source.fresh _ _ _ granted
  have reaches := tree.tableAt_linkTable within reached granted empty
  have after := tree.levels.link ⟨by omega, path, rfl, reached⟩ granted within
    (tree.child_none reached within empty)
  refine after.tree (.inl ⟨by omega, [], rfl, rfl⟩) fun front way target short brief first second => ?_
  -- Two paths to one table both lead to an old table or both to the fresh one.
  have used {other : List (Fin 512)} (low : other.length ≤ 3) :
      tableAt st.mem root other ≠ some fresh :=
    fun old => unused (tree.tables other fresh low old).2.2.2
  rcases (reaches front target short).mp first with old | ⟨rfl, rfl⟩
  · rcases (reaches way target brief).mp second with also | ⟨_, rfl⟩
    · exact (tree.separated front way target target 0 0 short brief old also rfl).1
    · exact absurd old (used short)
  · rcases (reaches way target brief).mp second with also | ⟨rfl, _⟩
    · exact absurd also (used brief)
    · rfl

end

end PageTree

/-- Growth by new tables: every translation stays, and no huge page comes. -/
structure Grown (root : Nat) (before after : PhysMem) : Prop where
  same : ∀ vaddr, hardwareWalk root vaddr after = hardwareWalk root vaddr before
  huge : ∀ path table index, path.length ≤ 2 → tableAt after root path = some table →
    ptePresent (after (entryAt table index)) = true → ptePat (after (entryAt table index)) = true →
    tableAt before root path = some table ∧
      before (entryAt table index) = after (entryAt table index)

namespace Grown

theorem refl (root : Nat) (mem : PhysMem) : Grown root mem mem :=
  ⟨fun _ => rfl, fun _ _ _ _ reached _ _ => ⟨reached, rfl⟩⟩

theorem trans {middle after : PhysMem} (early : Grown root mem middle)
    (late : Grown root middle after) : Grown root mem after := by
  refine ⟨fun vaddr => (late.same vaddr).trans (early.same vaddr), ?_⟩
  intro path table index short reached present size
  obtain ⟨between, entry⟩ := late.huge path table index short reached present size
  rw [← entry] at present size ⊢
  exact early.huge path table index short between present size

theorem link {fresh : Nat} {frames : Alloc}
    (levels : PageLevels (source.inUse st.frames) st.mem depth) (rooted : depth root 0)
    (is : depth table k) (upper : k ≤ 2) (granted : source.alloc st.frames = (some fresh, frames))
    (absent : ptePresent (st.mem (entryAt table index)) = false) :
    Grown root st.mem (linkTable st frames fresh (entryAt table index)).mem := by
  refine ⟨fun vaddr => ?_, fun way target i short reach present size => ?_⟩
  · rw [hardwareWalk_eq, hardwareWalk_eq]
    exact levels.link_walk is granted absent upper rooted (by simp [pagePath])
  -- The new entries are the link itself and the zeros of the fresh table.
  rcases levels.link_back is granted rooted (by omega) reach with old | ⟨rfl, _⟩
  · rcases levels.link_entry is granted (levels.below rooted (by omega) old) index i with
      ⟨rfl, rfl⟩ | same
    · rw [linkTable_self, (linkEntry_bits fresh).2] at size
      cases size
    · exact ⟨old, same.symm⟩
  · rw [levels.link_zero is granted] at present
    cases present

end Grown

end Ccos
