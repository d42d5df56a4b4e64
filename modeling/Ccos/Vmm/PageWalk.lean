import Ccos.Vmm.PageLevels

/-! Creating the missing tables on the way to a 4 KiB page, in a tree without huge pages. -/

namespace Ccos

open Lib

variable {Alloc : Type*} {mem : PhysMem} {root table : Nat}
  {inUse : Nat → Prop} {index : Fin 512} {st : PageState Alloc} {frames : Alloc}

/-- No upper-level entry of the tree maps a huge page. -/
@[grind =] def SmallPages (mem : PhysMem) (root : Nat) : Prop :=
  ∀ path table index, path.length ≤ 2 → tableAt mem root path = some table →
    ptePresent (mem (entryAt table index)) = true → ptePat (mem (entryAt table index)) = false

/-- Walk to or create the tables along a list of indices. -/
def walkTables (source : FrameSource Alloc) (allocMissing : Bool) (table : Nat) :
    List (Fin 512) → PageState Alloc → Except PageError Nat × PageState Alloc
  | [], st => (.ok table, st)
  | index :: rest, st =>
    match walkOrCreate source (entryAt table index) allocMissing st with
    | (.error code, st) => (.error code, st)
    | (.ok next, st) => walkTables source allocMissing next rest st

/-- The number of tables that are missing on the way along a list of indices. -/
def missingBelow (mem : PhysMem) (table : Nat) : List (Fin 512) → Nat
  | [] => 0
  | index :: rest =>
    match pageLayout.child (mem (entryAt table index)) with
    | some next => missingBelow mem next rest
    | none => rest.length + 1

/-- Whether the allocator grants that many frames one after another. -/
def FrameSource.grants (source : FrameSource Alloc) : Nat → Alloc → Bool
  | 0, _ => true
  | count + 1, frames =>
    match source.alloc frames with
    | (some _, rest) => source.grants count rest
    | (none, _) => false

/-- No huge page lies on the way along a list of indices. -/
@[grind =] def SmallAlong (mem : PhysMem) (root : Nat) (path : List (Fin 512)) : Prop :=
  ∀ front table index, front ++ [index] <+: path → tableAt mem root front = some table →
    ptePresent (mem (entryAt table index)) = true → ptePat (mem (entryAt table index)) = false

theorem SmallPages.along (small : SmallPages mem root) {path : List (Fin 512)}
    (short : path.length ≤ 3) : SmallAlong mem root path := by
  intro front table index early
  grind

theorem SmallPages.of_along {after : PhysMem} (small : SmallPages mem root)
    (along : ∀ way : List (Fin 512), way.length ≤ 3 → SmallAlong mem root way →
      SmallAlong after root way) : SmallPages after root :=
  fun path table index short reached =>
    have within : (path ++ [index]).length ≤ 3 := by simp; omega
    along _ within (small.along within) path table index List.prefix_rfl reached

/-- A frame that holds a table of the tree. -/
@[grind =] def IsTable (root : Nat) (mem : PhysMem) (frame : Nat) : Prop :=
  ∃ path, path.length ≤ 3 ∧ tableAt mem root path = some frame

theorem PageTree.used (tree : PageTree inUse mem root) (is : IsTable root mem table) :
    inUse table := by
  obtain ⟨path, short, reached⟩ := is
  exact (tree.tables path table short reached).2.2.2

theorem PageTree.withUse {later : Nat → Prop} (tree : PageTree inUse mem root)
    (kept : ∀ table, IsTable root mem table → later table) : PageTree later mem root := by
  refine ⟨tree.separated, fun path table short reached => ?_, tree.absent, tree.top⟩
  obtain ⟨nonzero, aligned, fits, _⟩ := tree.tables path table short reached
  grind

section

variable {other : PhysMem} (same : SameEntries root mem other)
include same

theorem SameEntries.small (small : SmallPages mem root) : SmallPages other root := by
  intro path table index short reached present
  have old := (same.reach (by omega)).symm.trans reached
  rw [same path table index (by omega) old] at present ⊢
  exact small path table index short old present

theorem SameEntries.isTable_iff (frame : Nat) :
    IsTable root other frame ↔ IsTable root mem frame := by
  constructor
  · rintro ⟨path, short, reached⟩
    exact ⟨path, short, (same.reach (by omega)).symm.trans reached⟩
  · rintro ⟨path, short, reached⟩
    exact ⟨path, short, (same.reach (by omega)).trans reached⟩

end

/-- An address outside every table of the tree. -/
@[grind =] def OutsideTables (root : Nat) (mem : PhysMem) (addr : Nat) : Prop :=
  ∀ table, IsTable root mem table → ¬(table ≤ addr ∧ addr < table + pageSize)

/-- What the work on a tree may do elsewhere: frames are taken only for new tables, and memory
changes only inside tables. -/
structure Built (source : FrameSource Alloc) (root : Nat) (before after : PageState Alloc) :
    Prop where
  used : ∀ frame, source.inUse before.frames frame → source.inUse after.frames frame
  taken : ∀ frame, source.inUse after.frames frame →
    source.inUse before.frames frame ∨ IsTable root after.mem frame
  kept : ∀ frame, IsTable root before.mem frame → IsTable root after.mem frame
  new : ∀ frame, IsTable root after.mem frame →
    IsTable root before.mem frame ∨ ¬source.inUse before.frames frame
  mem : ∀ addr, OutsideTables root after.mem addr → after.mem addr = before.mem addr

/-- What the creation of tables may change: the tree grows, and its tables stay where they are. -/
structure Extends (source : FrameSource Alloc) (root : Nat) (before after : PageState Alloc) :
    Prop extends Grown root before.mem after.mem where
  tree : PageTree (source.inUse after.frames) after.mem root
  kept : ∀ path table, path.length ≤ 3 → tableAt before.mem root path = some table →
    tableAt after.mem root path = some table
  built : Built source root before after

variable {source : FrameSource Alloc}

/-- A way without huge pages stays one. -/
theorem Grown.along {after : PhysMem} (grown : Grown root mem after)
    {path : List (Fin 512)} (short : path.length ≤ 3) (small : SmallAlong mem root path) :
    SmallAlong after root path := by
  intro front table index early reached present
  have := early.length_le
  simp only [List.length_append, List.length_cons, List.length_nil] at this
  cases size : ptePat (after (entryAt table index)) with
  | false => rfl
  | true =>
    -- A huge page would have been there before.
    obtain ⟨old, entry⟩ := grown.huge front table index (by omega) reached present size
    grind

theorem Grown.small {after : PhysMem} (grown : Grown root mem after) (small : SmallPages mem root) :
    SmallPages after root :=
  small.of_along fun _ => grown.along

theorem Built.refl (st : PageState Alloc) : Built source root st st :=
  ⟨fun _ used => used, fun _ used => .inl used, fun _ table => table, fun _ table => .inl table,
    fun _ _ => rfl⟩

theorem Built.trans {middle after : PageState Alloc} (early : Built source root st middle)
    (late : Built source root middle after) : Built source root st after := by
  refine ⟨fun frame used => late.used frame (early.used frame used), fun frame used => ?_,
    fun frame table => late.kept frame (early.kept frame table), fun frame table => ?_,
    fun addr outside => ?_⟩
  · rcases late.taken frame used with between | table
    · exact (early.taken frame between).imp_right (late.kept frame)
    · exact .inr table
  · rcases late.new frame table with between | unused
    · exact early.new frame between
    · exact .inr fun used => unused (early.used frame used)
  · -- What lies outside the last tables lies outside the ones in between.
    rw [late.mem addr outside, early.mem addr fun table is => outside table (late.kept table is)]

namespace Extends

theorem trans {first second third : PageState Alloc} (early : Extends source root first second)
    (late : Extends source root second third) : Extends source root first third :=
  ⟨early.toGrown.trans late.toGrown, late.tree, fun path table short reached =>
    late.kept path table short (early.kept path table short reached), early.built.trans late.built⟩

section

variable (tree : PageTree (source.inUse st.frames) st.mem root)
include tree

theorem refl : Extends source root st st :=
  ⟨.refl root st.mem, tree, fun _ _ _ reached => reached, .refl st⟩

theorem refused (refused : source.alloc st.frames = (none, frames)) :
    Extends source root st { st with frames := frames } := by
  have same := source.refused _ _ refused
  exact ⟨.refl root st.mem, tree.withUse fun table is => (same table).mpr (tree.used is),
    fun _ _ _ reached => reached, fun frame => (same frame).mpr, fun frame used =>
      .inl ((same frame).mp used), fun _ table => table, fun _ table => .inl table, fun _ _ => rfl⟩

theorem link {path : List (Fin 512)} (within : path.length ≤ 2)
    (reached : tableAt st.mem root path = some table)
    (absent : ptePresent (st.mem (entryAt table index)) = false) {fresh : Nat}
    (granted : source.alloc st.frames = (some fresh, frames)) :
    Extends source root st (linkTable st frames fresh (entryAt table index)) := by
  have empty := tree.absent path table index within reached absent
  obtain ⟨unused, _, _, _, used⟩ := source.fresh _ _ _ granted
  have reaches := tree.tableAt_linkTable within reached granted empty
  have linked : IsTable root (linkTable st frames fresh (entryAt table index)).mem fresh :=
    ⟨path ++ [index], by simp; omega, (reaches _ _ (by simp; omega)).mpr (.inr ⟨rfl, rfl⟩)⟩
  refine ⟨.link tree.levels ⟨by omega, [], rfl, rfl⟩ ⟨by omega, path, rfl, reached⟩ within granted
      absent, tree.link within reached granted empty,
    fun other target short old => (reaches other target short).mpr (.inl old),
    fun frame old => (used frame).mpr (.inl old), fun frame now => ?_, ?_, ?_, fun addr outside => ?_⟩
  · rcases (used frame).mp now with old | rfl
    · exact .inl old
    · exact .inr linked
  · rintro frame ⟨other, short, reach⟩
    exact ⟨other, short, (reaches other frame short).mpr (.inl reach)⟩
  · rintro frame ⟨other, short, reach⟩
    rcases (reaches other frame short).mp reach with old | ⟨_, rfl⟩
    · exact .inl ⟨other, short, old⟩
    · exact .inr unused
  · -- The two stores are the clearing of the new table and one entry of its parent.
    have parent := outside table ⟨path, by omega, (reaches _ _ (by omega)).mpr (.inl reached)⟩
    have apart : addr ≠ entryAt table index := by
      rintro rfl
      exact parent (by have := entryAt_inside table index; omega)
    simp only [linkTable, PageState.write, PageState.clearPage, Function.update_of_ne apart,
      outside fresh linked, if_false]

end

end Extends

theorem missingBelow_cleared (cleared : ∀ i, mem (entryAt table i) = 0) (rest : List (Fin 512)) :
    missingBelow mem table rest = rest.length := by
  cases rest with
  | nil => rfl
  | cons index tail => simp [missingBelow, cleared, pageLayout, ptePresent]

/-- One step of a walk along a way without huge pages: the entry leads to a table, or nothing is
mapped below it and it names no table. -/
theorem SmallAlong.entry (tree : PageTree inUse mem root) {path rest : List (Fin 512)}
    (small : SmallAlong mem root (path ++ index :: rest)) (within : path.length ≤ 2)
    (reached : tableAt mem root path = some table) :
    (pteAddr (mem (entryAt table index)) ≠ 0 → ptePat (mem (entryAt table index)) = false) ∧
      (pteAddr (mem (entryAt table index)) = 0 →
        ptePresent (mem (entryAt table index)) = false) := by
  have size := small path table index ⟨rest, by simp⟩ reached
  constructor
  · intro used
    cases bit : ptePresent (mem (entryAt table index)) with
    | true => exact size bit
    | false => exact absurd (tree.absent path table index within reached bit) used
  · intro empty
    cases bit : ptePresent (mem (entryAt table index)) with
    | false => rfl
    | true =>
      have none := tree.child_none reached within empty
      rw [child_of_link bit (size bit)] at none
      cases none

variable (source) in
/-- Walking a list of indices without huge pages extends the tree, takes frames for the missing tables
only and ends at the table of the path. With permission to allocate it succeeds exactly when the
missing tables are granted, and fails only for lack of a frame. -/
theorem walkTables_extends (allocMissing : Bool) (rest : List (Fin 512)) :
    ∀ (st : PageState Alloc) (path : List (Fin 512)) (table : Nat),
      PageTree (source.inUse st.frames) st.mem root → SmallAlong st.mem root (path ++ rest) →
      tableAt st.mem root path = some table → path.length + rest.length ≤ 3 →
      ∃ result after, walkTables source allocMissing table rest st = (result, after) ∧
        Extends source root st after ∧
        (∀ last, result = .ok last → tableAt after.mem root (path ++ rest) = some last) ∧
        (allocMissing = true → ((∃ last, result = .ok last) ↔
          source.grants (missingBelow st.mem table rest) st.frames = true)) ∧
        (allocMissing = true → ∀ code, result = .error code → code = .oom) := by
  induction rest with
  | nil =>
    intro st path table tree small reached short
    refine ⟨.ok table, st, rfl, .refl tree, ?_, ?_, by simp⟩
    · rintro last ⟨⟩
      simpa using reached
    · simp [missingBelow, FrameSource.grants]
  | cons index rest ih =>
    intro st path table tree small reached short
    simp only [List.length_cons] at short
    have extend {mem : PhysMem} {next : Nat} (parent : tableAt mem root path = some table)
        (link : pageLayout.child (mem (entryAt table index)) = some next) :
        tableAt mem root (path ++ [index]) = some next := by
      rw [tableAt, RadixLayout.descend_concat parent]
      exact link
    obtain ⟨usable, absentOf⟩ := small.entry tree (by omega) reached
    have joined : path ++ [index] ++ rest = path ++ index :: rest := by simp
    have missing (empty : pteAddr (st.mem (entryAt table index)) = 0) :
        missingBelow st.mem table (index :: rest) = rest.length + 1 := by
      rw [missingBelow, tree.child_none reached (by omega) empty]
    rcases walkOrCreate_outcomes source (tree.absent path table index (by omega) reached)
        (tree.child_low (by omega) reached) allocMissing fun _ => usable with
      ⟨next, link, walked⟩ | ⟨empty, forbidden, walked⟩ | ⟨empty, _, frames, refused, walked⟩ |
      ⟨empty, _, fresh, frames, granted, walked⟩
    · -- The table exists, so the walk goes on in the same state.
      obtain ⟨result, after, done, grown, ends, succeeds, fails⟩ :=
        ih st (path ++ [index]) next tree (joined.symm ▸ small) (extend reached link)
          (by simp; omega)
      refine ⟨result, after, by simp [walkTables, walked, done], grown, ?_, ?_, fails⟩
      · simpa using ends
      · simpa [missingBelow, link] using succeeds
    · exact ⟨.error .notPresent, st, by simp [walkTables, walked], .refl tree, by simp,
        by simp [forbidden], by simp [forbidden]⟩
    · refine ⟨.error .oom, _, by simp [walkTables, walked], .refused tree refused,
        by simp, fun _ => ?_, by simp⟩
      simp [missing empty, FrameSource.grants, refused]
    · -- The fresh table is empty, so all further tables are missing below it.
      have grown := Extends.link tree (by omega) reached (absentOf empty) granted
      have parent := grown.kept path table (by omega) reached
      have link : pageLayout.child ((linkTable st frames fresh (entryAt table index)).mem
          (entryAt table index)) = some fresh := by
        obtain ⟨_, _, aligned, fits, _⟩ := source.fresh _ _ _ granted
        rw [linkTable_self, child_linkEntry aligned fits]
      have later := grown.along (by simp; omega) small
      obtain ⟨result, after, done, more, ends, succeeds, fails⟩ :=
        ih _ (path ++ [index]) fresh grown.tree (joined.symm ▸ later) (extend parent link)
          (by simp; omega)
      refine ⟨result, after, by simp [walkTables, walked, done], grown.trans more, ?_, ?_, fails⟩
      · simpa using ends
      · rw [missingBelow_cleared (tree.levels.link_zero ⟨by omega, path, rfl, reached⟩ granted index)]
          at succeeds
        simpa [missing empty, FrameSource.grants, granted, linkTable, PageState.write,
          PageState.clearPage] using succeeds

/-- No huge page lies on the path of an address. -/
@[grind] structure SmallPath (mem : PhysMem) (root vaddr : Nat) : Prop where
  pointer : ∀ table, tableAt mem root [pml4Index vaddr] = some table →
    ptePresent (mem (entryAt table (pdptIndex vaddr))) = true →
    ptePat (mem (entryAt table (pdptIndex vaddr))) = false
  directory : ∀ table, tableAt mem root [pml4Index vaddr, pdptIndex vaddr] = some table →
    ptePresent (mem (entryAt table (pdIndex vaddr))) = true →
    ptePat (mem (entryAt table (pdIndex vaddr))) = false

theorem SmallPages.path (small : SmallPages mem root) (vaddr : Nat) : SmallPath mem root vaddr :=
  ⟨fun table reached => small _ table _ (by simp) reached,
    fun table reached => small _ table _ (by simp) reached⟩

theorem SmallAlong.path {vaddr : Nat} (small : SmallAlong mem root (upperPath vaddr)) :
    SmallPath mem root vaddr :=
  ⟨fun table reached => small _ table _ ⟨[pdIndex vaddr], rfl⟩ reached,
    fun table reached => small _ table _ List.prefix_rfl reached⟩

/-- The last-level entry that the path of an address leads to. -/
def leafEntry (mem : PhysMem) (root vaddr : Nat) : Option Nat :=
  (tableAt mem root (upperPath vaddr)).map (entryAt · (ptIndex vaddr))

section

variable {vaddr : Nat} (low : LowTables mem root vaddr)
  (top : ptePresent (mem (entryAt root (pml4Index vaddr))) = true →
    ptePat (mem (entryAt root (pml4Index vaddr))) = false) (small : SmallPath mem root vaddr)
include low top small

/-- Where no huge page lies on the path, the two walkers agree: either the path ends early and
nothing is mapped, or both end at the same last-level table. -/
theorem walk_cases :
    (tableAt mem root (upperPath vaddr) = none ∧ presentWalk root vaddr mem = none ∧
      hardwareWalk root vaddr mem = none) ∨
    ∃ table, tableAt mem root (upperPath vaddr) = some table ∧
      presentWalk root vaddr mem = some (entryAt table (ptIndex vaddr)) := by
  have ends (front : List (Fin 512)) {rest : List (Fin 512)} {node : Nat} {index : Fin 512}
      (joined : upperPath vaddr = front ++ index :: rest)
      (reached : pageLayout.descend mem root front = some node)
      (absent : ptePresent (mem (entryAt node index)) = false) :
      pageLayout.descend mem root (upperPath vaddr) = none := by
    rw [joined, RadixLayout.descend_append, reached, Option.bind_some, RadixLayout.descend,
      show pageLayout.slot node index = entryAt node index from rfl, child_of_absent absent]
  simp only [presentWalk, hardwareWalk]
  -- Each level either ends the walk or leads to the table of the longer path.
  cases topPresent : ptePresent (mem (entryAt root (pml4Index vaddr))) with
  | false => exact .inl ⟨ends [] rfl rfl topPresent, by simp⟩
  | true =>
    have topSize := top topPresent
    obtain ⟨pdpt, pointerRead⟩ := low.link [] ⟨_, rfl⟩ rfl topPresent topSize
    rw [pointerRead]
    generalize entryAddr (mem (entryAt root (pml4Index vaddr))) = pointer at *
    cases pointerPresent : ptePresent (mem (entryAt pointer (pdptIndex vaddr))) with
    | false => exact .inl ⟨ends [_] rfl pdpt pointerPresent, by simp [topSize]⟩
    | true =>
      have pointerSize := small.pointer _ pdpt pointerPresent
      obtain ⟨pd, directoryRead⟩ := low.link [_] ⟨[pdIndex vaddr], rfl⟩ pdpt pointerPresent pointerSize
      rw [directoryRead]
      generalize entryAddr (mem (entryAt pointer (pdptIndex vaddr))) = directory at *
      cases directoryPresent : ptePresent (mem (entryAt directory (pdIndex vaddr))) with
      | false => exact .inl ⟨ends [_, _] rfl pd directoryPresent, by simp [topSize, pointerSize]⟩
      | true =>
        have directorySize := small.directory _ pd directoryPresent
        obtain ⟨pt, tableRead⟩ := low.link [_, _] List.prefix_rfl pd directoryPresent directorySize
        rw [tableRead]
        exact .inr ⟨_, pt, by simp⟩

theorem presentWalk_eq : presentWalk root vaddr mem = leafEntry mem root vaddr := by
  rcases walk_cases low top small with ⟨missing, ended, _⟩ | ⟨table, reached, walked⟩
  · rw [ended, leafEntry, missing]
    rfl
  · rw [walked, leafEntry, reached]
    rfl

end

theorem pageTree_of_empty (zero : ∀ i, mem (entryAt root i) = 0) (nonzero : root ≠ 0)
    (aligned : root % pageSize = 0) (fits : root < 2 ^ 40) (used : inUse root) :
    PageTree inUse mem root ∧ SmallPages mem root ∧
      (∀ vaddr, hardwareWalk root vaddr mem = none) ∧
      ∀ path table, tableAt mem root path = some table → table = root := by
  -- Only the root itself is reached, since all its entries are zero.
  have only {path : List (Fin 512)} {table : Nat} (reached : tableAt mem root path = some table) :
      path = [] ∧ table = root := by
    cases path with
    | nil => exact ⟨rfl, (Option.some.inj reached).symm⟩
    | cons index rest =>
      simp [RadixLayout.descend, pageLayout, zero, ptePresent] at reached
  refine ⟨⟨?_, fun path table _ reached => ?_, fun path table index _ reached _ => ?_,
    fun index present => ?_⟩, fun path table index _ reached present => ?_, fun vaddr => ?_,
    fun path table reached => (only reached).2⟩
  · intro first second firstNode secondNode i j _ _ reach reach' same
    obtain ⟨rfl, rfl⟩ := only reach
    obtain ⟨rfl, rfl⟩ := only reach'
    exact ⟨rfl, (entryAt_inj aligned aligned same).2⟩
  · grind
  · obtain ⟨_, rfl⟩ := only reached
    rw [zero]
    rfl
  · rw [zero]
    rfl
  · obtain ⟨_, rfl⟩ := only reached
    rw [zero]
    rfl
  · simp [hardwareWalk, zero, ptePresent]

theorem pageCreateTable_tree {created : PageState Alloc}
    (done : pageCreateTable source st = (.ok root, created)) :
    PageTree (source.inUse created.frames) created.mem root ∧ SmallPages created.mem root ∧
      ∀ vaddr, hardwareWalk root vaddr created.mem = none := by
  simp only [pageCreateTable] at done
  split at done
  · simp at done
  · rename_i fresh frames granted
    simp only [Prod.mk.injEq, Except.ok.injEq] at done
    obtain ⟨rfl, rfl⟩ := done
    obtain ⟨_, nonzero, aligned, fits, used⟩ := source.fresh _ _ _ granted
    obtain ⟨tree, small, walks, _⟩ := pageTree_of_empty
      (clearPage_fresh { st with frames := frames } fresh) nonzero aligned fits
      ((used fresh).mpr (.inr rfl))
    exact ⟨tree, small, walks⟩

end Ccos
