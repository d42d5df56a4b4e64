import Ccos.Vmm.PartView

/-! The page tables of a process, whose PML4 shares its upper half with the kernel: work on the
lower half behaves as if the upper half were empty. -/

namespace Ccos

open Lib

variable {Alloc : Type*} {source : FrameSource Alloc} {root : Nat} {st : PageState Alloc}

/-- An entry of the kernel half of a PML4. -/
@[grind =] def KernelSlot (root addr : Nat) : Prop :=
  root + 8 * 256 ≤ addr ∧ addr < root + pageSize

instance (root addr : Nat) : Decidable (KernelSlot root addr) :=
  inferInstanceAs (Decidable (_ ∧ _))

/-- Memory in which the kernel half of a PML4 is empty. -/
abbrev lowView (root : Nat) (mem : PhysMem) : PhysMem :=
  hideSlots (KernelSlot root) mem

/-- The state in whose memory the kernel half of a PML4 is empty. -/
abbrev PageState.low (root : Nat) (st : PageState Alloc) : PageState Alloc :=
  st.hide (KernelSlot root)

theorem kernelSlot_inside : HidesIn root (KernelSlot root) := by
  intro addr slot
  simp only [KernelSlot] at slot
  omega

variable {vaddr : Nat}

theorem visible_of_low (low : (pml4Index vaddr).val < 256) :
    Visible (KernelSlot root) root vaddr := by
  rintro ⟨above, _⟩
  simp only [entryAt] at above
  omega

theorem PageTree.apart_kernel {inUse : Nat → Prop} {mem : PhysMem} (tree : PageTree inUse mem root)
    {path : List (Fin 512)} {table : Nat} {index : Fin 512} (short : path.length ≤ 3)
    (reached : tableAt mem root path = some table)
    (low : path = [] → index.val < 256) : ¬KernelSlot root (entryAt table index) := by
  refine tree.apart_hidden kernelSlot_inside short reached fun top => ?_
  rintro ⟨above, _⟩
  have lower := low top
  simp only [entryAt] at above
  omega

/-- The page tables of a process: a tree of 4 KiB pages in the lower half, and kernel tables that
are in use and no tables of the lower half. -/
@[grind]
structure UserTables (source : FrameSource Alloc) (root : Nat) (st : PageState Alloc) : Prop where
  tree : PageTree (source.inUse st.frames) (lowView root st.mem) root
  small : SmallPages (lowView root st.mem) root
  kernel : ∀ first rest table, rest.length ≤ 2 → 256 ≤ first.val →
    tableAt st.mem root (first :: rest) = some table →
    source.inUse st.frames table ∧ table % pageSize = 0 ∧ ¬IsTable root (lowView root st.mem) table

section Walks

variable {inUse : Nat → Prop} {mem : PhysMem} {vaddr : Nat}

theorem hardwareWalk_low (tree : PageTree inUse (lowView root mem) root)
    (low : (pml4Index vaddr).val < 256) :
    hardwareWalk root vaddr (lowView root mem) = hardwareWalk root vaddr mem :=
  hardwareWalk_hide kernelSlot_inside tree (visible_of_low low)

end Walks

theorem UserTables.isTable_iff (tables : UserTables source root st) (frame : Nat) :
    IsTable root st.mem frame ↔ IsTable root (lowView root st.mem) frame ∨
      ∃ first rest, rest.length ≤ 2 ∧ 256 ≤ first.val ∧
        tableAt st.mem root (first :: rest) = some frame := by
  -- A path into the lower half reads the same entries in both memories.
  have same {first : Fin 512} {rest : List (Fin 512)} (short : rest.length ≤ 2)
      (low : first.val < 256) : tableAt st.mem root (first :: rest) =
        tableAt (lowView root st.mem) root (first :: rest) := by
    refine RadixLayout.descend_congr_along fun front node index early reached => ?_
    refine (hideSlots_apart (tables.tree.apart_kernel ?_ reached fun top => ?_)).symm
    · have := early.length_le
      grind
    grind
  constructor
  · rintro ⟨path, short, reached⟩
    cases path with
    | nil => exact .inl ⟨[], by simp, reached⟩
    | cons first rest =>
      rw [List.length_cons] at short
      by_cases low : first.val < 256
      · exact .inl ⟨_, by simp; omega, (same (by omega) low).symm.trans reached⟩
      grind
  · rintro (⟨path, short, reached⟩ | ⟨first, rest, short, _, reached⟩)
    · cases path with
      | nil => exact ⟨[], by simp, reached⟩
      | cons first rest =>
        rw [List.length_cons] at short
        by_cases low : first.val < 256
        · exact ⟨_, by simp; omega, (same (by omega) low).trans reached⟩
        · -- The kernel half of this memory is empty.
          have slot : KernelSlot root (entryAt root first) := by
            simp only [KernelSlot, entryAt, pageSize, pageShift]
            omega
          simp [RadixLayout.descend, pageLayout, hideSlots, slot, ptePresent] at reached
    · exact ⟨first :: rest, by simp; omega, reached⟩

theorem UserTables.inUse (tables : UserTables source root st) {frame : Nat}
    (table : IsTable root st.mem frame) :
    source.inUse st.frames frame ∧ frame % pageSize = 0 := by
  rcases (tables.isTable_iff frame).mp table with ⟨path, short, reached⟩ |
    ⟨first, rest, short, high, reached⟩
  · obtain ⟨_, aligned, _, used⟩ := tables.tree.tables path frame short reached
    exact ⟨used, aligned⟩
  grind

/-- A step of work on the lower half. -/
structure LowStep (source : FrameSource Alloc) (root : Nat) (before after : PageState Alloc) :
    Prop where
  tree : PageTree (source.inUse after.frames) (lowView root after.mem) root
  small : SmallPages (lowView root after.mem) root
  built : Built source root (before.low root) (after.low root)
  kernel : ∀ addr, KernelSlot root addr → after.mem addr = before.mem addr

section Step

variable {after : PageState Alloc}

section

variable (tables : UserTables source root st) (taken : LowStep source root st after)
include tables taken

theorem UserTables.kernel_entry {path front : List (Fin 512)} {node : Nat} {index : Fin 512}
    (short : path.length ≤ 4) (high : ∀ first ∈ path.head?, 256 ≤ first.val)
    (early : front ++ [index] <+: path) (reached : tableAt st.mem root front = some node) :
    after.mem (entryAt node index) = st.mem (entryAt node index) := by
  cases front with
  | nil =>
    obtain rfl : root = node := Option.some.inj reached
    obtain ⟨rest, rfl⟩ := early
    refine taken.kernel _ ?_
    have := high index (by simp)
    simp only [KernelSlot, entryAt, pageSize, pageShift]
    omega
  | cons first rest =>
    obtain ⟨tail, rfl⟩ := early
    have within : rest.length ≤ 2 := by
      grind
    obtain ⟨used, aligned, elsewhere⟩ :=
      tables.kernel first rest node within (high first (by simp)) reached
    have inside := entryAt_inside node index
    -- A kernel table is none of the lower half, neither before the taken nor after it.
    have outside : OutsideTables root (lowView root after.mem) (entryAt node index) := by
      rintro table ⟨path, deep, found⟩ bounds
      have tableAligned := (taken.tree.tables path table deep found).2.1
      obtain rfl : table = node := by
        simp only [pageSize, pageShift] at *
        omega
      exact taken.built.not_table used elsewhere ⟨path, deep, found⟩
    have apart : ¬KernelSlot root (entryAt node index) := by
      rintro ⟨above, below⟩
      have rootAligned := (tables.tree.tables [] root (by simp) rfl).2.1
      obtain rfl : node = root := by
        simp only [pageSize, pageShift] at *
        omega
      exact elsewhere ⟨[], by simp, rfl⟩
    have same := taken.built.mem _ outside
    exact (hideSlots_apart apart).symm.trans (same.trans (hideSlots_apart apart))

theorem UserTables.kernel_tables {first : Fin 512} {rest : List (Fin 512)} (short : rest.length ≤ 2)
    (high : 256 ≤ first.val) :
    tableAt after.mem root (first :: rest) = tableAt st.mem root (first :: rest) :=
  RadixLayout.descend_congr_along fun _ _ _ early reached =>
    tables.kernel_entry taken (by simp; omega) (by simpa using high) early reached

theorem UserTables.kernel_walk (high : 256 ≤ (pml4Index vaddr).val) :
    hardwareWalk root vaddr after.mem = hardwareWalk root vaddr st.mem := by
  rw [hardwareWalk_eq, hardwareWalk_eq]
  refine congrArg (Option.bind · leafOf) (RadixLayout.stop_congr_along fun _ _ _ early reached => ?_)
  exact tables.kernel_entry taken (by simp [pagePath]) (by simpa [pagePath] using high) early reached

theorem UserTables.step :
    UserTables source root after := by
  refine ⟨taken.tree, taken.small, fun first rest table short high reached => ?_⟩
  rw [tables.kernel_tables taken short high] at reached
  obtain ⟨used, aligned, elsewhere⟩ := tables.kernel first rest table short high reached
  exact ⟨taken.built.used table used, aligned, taken.built.not_table used elsewhere⟩

theorem UserTables.built : Built source root st after := by
  have later := tables.step taken
  refine ⟨taken.built.used, fun frame used => ?_, fun frame table => ?_, fun frame table => ?_,
    fun addr outside => ?_⟩
  · exact (taken.built.taken frame used).imp_right fun table =>
      (later.isTable_iff frame).mpr (.inl table)
  · refine (later.isTable_iff frame).mpr (((tables.isTable_iff frame).mp table).imp
      (taken.built.kept frame) ?_)
    rintro ⟨first, rest, short, high, reached⟩
    exact ⟨first, rest, short, high, (tables.kernel_tables taken short high).trans reached⟩
  · rcases (later.isTable_iff frame).mp table with low | ⟨first, rest, short, high, reached⟩
    · exact (taken.built.new frame low).imp_left fun old => (tables.isTable_iff frame).mpr (.inl old)
    · rw [tables.kernel_tables taken short high] at reached
      exact .inl ((tables.isTable_iff frame).mpr (.inr ⟨first, rest, short, high, reached⟩))
  · -- Outside all tables the two views show the same memory.
    have apart : ¬KernelSlot root addr := by
      rintro ⟨above, below⟩
      exact outside root ⟨[], by simp, rfl⟩ (by omega)
    have same := taken.built.mem addr fun table low =>
      outside table ((later.isTable_iff table).mpr (.inl low))
    exact (hideSlots_apart apart).symm.trans (same.trans (hideSlots_apart apart))

end

end Step

section Work

variable {vaddr paddr flags : Nat}

theorem LowStep.refl (tree : PageTree (source.inUse st.frames) (lowView root st.mem) root)
    (small : SmallPages (lowView root st.mem) root) : LowStep source root st st :=
  ⟨tree, small, .refl _, fun _ _ => rfl⟩

theorem LowStep.trans {middle after : PageState Alloc} (early : LowStep source root st middle)
    (late : LowStep source root middle after) : LowStep source root st after :=
  ⟨late.tree, late.small, early.built.trans late.built,
    fun addr slot => (late.kernel addr slot).trans (early.kernel addr slot)⟩

/-- A call on a page of the lower half is a step, also when it fails. -/
theorem LowStep.of_edit {entry : Option (Nat × Nat)}
    {full part : Except PageError Unit × PageState Alloc}
    (same : SameView (KernelSlot root) st.mem full part)
    (edit : PageEdit source root vaddr entry (st.low root) part)
    (small : SmallPages (lowView root st.mem) root) : LowStep source root st full.2 := by
  rw [same.eq] at edit
  exact ⟨edit.tree, edit.small small, edit.built, same.others⟩

section

variable (tree : PageTree (source.inUse st.frames) (lowView root st.mem) root)
  (small : SmallPages (lowView root st.mem) root) (low : (pml4Index vaddr).val < 256)
include tree small low

theorem LowStep.mapPage (ordinary : SmallFlags flags) :
    LowStep source root st (pageMapPage source root vaddr paddr flags true st).2 := by
  have upper := small.along (show [pml4Index vaddr, pdptIndex vaddr].length ≤ 3 by simp)
  exact .of_edit (pageMapPage_hide kernelSlot_inside tree upper (visible_of_low low) ordinary)
    (pageMapPage_edit tree upper ordinary rfl).1 small

theorem LowStep.unmapPage (freeTable : Bool) :
    LowStep source root st (pageUnmapPage root vaddr freeTable st).2 :=
  .of_edit (pageUnmapPage_hide kernelSlot_inside tree (small.path vaddr) (visible_of_low low) freeTable)
    (pageUnmapPage_edit tree (small.along (by simp)) rfl).1 small

end

end Work

theorem pageNumber_ne_of_half {other : Nat} (low : (pml4Index vaddr).val < 256)
    (high : ¬(pml4Index other).val < 256) : pageNumber other ≠ pageNumber vaddr := by
  intro same
  rw [(List.cons.inj ((pagePath_eq_iff other vaddr).mpr same)).1] at high
  exact high low

section

variable (tables : UserTables source root st)
include tables

theorem UserTables.walk {after : PageState Alloc} (step : LowStep source root st after)
    {other : Nat} {value : Option (Nat × Nat)}
    (lower : (pml4Index other).val < 256 → hardwareWalk root other (lowView root after.mem) = value)
    (upper : ¬(pml4Index other).val < 256 → value = hardwareWalk root other st.mem) :
    hardwareWalk root other after.mem = value := by
  by_cases low : (pml4Index other).val < 256
  · rw [← hardwareWalk_low step.tree low]
    exact lower low
  · rw [upper low]
    exact tables.kernel_walk step (by omega)

/-- Mapping a page of a process: a free page is refused only for lack of a frame, and no other
page is concerned. -/
theorem UserTables.mapPage {paddr flags : Nat} (low : (pml4Index vaddr).val < 256)
    (ordinary : SmallFlags flags)
    (vaddrAligned : vaddr % pageSize = 0) (paddrAligned : paddr % pageSize = 0) :
    ∃ result after, pageMapPage source root vaddr paddr flags true st = (result, after) ∧
      UserTables source root after ∧ Built source root st after ∧
      (∀ code, result = .error code →
        (code = .oom ∨ hardwareWalk root vaddr st.mem ≠ none) ∧
        ∀ other, hardwareWalk root other after.mem = hardwareWalk root other st.mem) ∧
      (result = .ok () → hardwareWalk root vaddr st.mem = none ∧
        ∀ other, hardwareWalk root other after.mem =
          if pageNumber other = pageNumber vaddr then some (smallEntry paddr flags, 0)
          else hardwareWalk root other st.mem) := by
  have upper := tables.small.along (show [pml4Index vaddr, pdptIndex vaddr].length ≤ 3 by simp)
  have same := @pageMapPage_hide _ source _ st _ _ kernelSlot_inside tables.tree _ paddr _ upper
    (visible_of_low low) ordinary
  obtain ⟨edit, success, _, fails⟩ := @pageMapPage_edit _ source root (st.low root) vaddr paddr flags _
    tables.tree upper ordinary same.eq
  have step := @LowStep.mapPage _ source root st vaddr paddr flags tables.tree tables.small low ordinary
  have before : hardwareWalk root vaddr (st.low root).mem = hardwareWalk root vaddr st.mem :=
    hardwareWalk_low tables.tree low
  rw [before] at success fails
  refine ⟨_, _, rfl, tables.step step, tables.built step, fun code error => ⟨?_, fun other => ?_⟩,
    fun done => ⟨(success.mp done).2.2.1, fun other => ?_⟩⟩
  · exact fails vaddrAligned paddrAligned code error
  · refine tables.walk step (fun lower => ?_) fun _ => rfl
    exact (edit.failed code error other).trans (hardwareWalk_low tables.tree lower)
  · refine tables.walk step (fun lower => ?_) fun high => if_neg (pageNumber_ne_of_half low high)
    rw [← hardwareWalk_low tables.tree lower]
    exact edit.stored done other

theorem UserTables.unmapPage (low : (pml4Index vaddr).val < 256) (aligned : vaddr % pageSize = 0)
    (freeTable : Bool) :
    ∃ result after, pageUnmapPage root vaddr freeTable st = (result, after) ∧
      UserTables source root after ∧ Built source root st after ∧
      ∀ other, hardwareWalk root other after.mem =
        if pageNumber other = pageNumber vaddr then none else hardwareWalk root other st.mem := by
  have same := pageUnmapPage_hide kernelSlot_inside tables.tree (tables.small.path vaddr)
    (visible_of_low low) freeTable
  obtain ⟨edit, success⟩ := @pageUnmapPage_edit _ source root (st.low root) vaddr _ tables.tree
    (tables.small.along (by simp)) freeTable same.eq
  have step := @LowStep.unmapPage _ source root st vaddr tables.tree tables.small low freeTable
  refine ⟨_, _, rfl, tables.step step, tables.built step, fun other => ?_⟩
  refine tables.walk step (fun lower => ?_) fun high => if_neg (pageNumber_ne_of_half low high)
  rw [← hardwareWalk_low tables.tree lower]
  exact edit.cleared success aligned other

theorem UserTables.withFrames {frames : Alloc}
    (used : ∀ table, IsTable root st.mem table → source.inUse frames table) :
    UserTables source root { st with frames := frames } := by
  refine ⟨tables.tree.withUse fun table low => ?_, tables.small,
    fun first rest table short high reached => ?_⟩
  · exact used table ((tables.isTable_iff table).mpr (.inl low))
  · obtain ⟨_, aligned, elsewhere⟩ := tables.kernel first rest table short high reached
    exact ⟨used table ((tables.isTable_iff table).mpr (.inr ⟨first, rest, short, high, reached⟩)),
      aligned, elsewhere⟩

end

theorem UserTables.clearPage (tables : UserTables source root st) {base : Nat}
    (aligned : base % pageSize = 0) (other : ¬IsTable root st.mem base) :
    UserTables source root (st.clearPage base) ∧
      (∀ frame, IsTable root (st.clearPage base).mem frame ↔ IsTable root st.mem frame) ∧
      ∀ vaddr, hardwareWalk root vaddr (st.clearPage base).mem = hardwareWalk root vaddr st.mem := by
  have kept {table : Nat} (index : Fin 512) (is : IsTable root st.mem table) :
      (st.clearPage base).mem (entryAt table index) = st.mem (entryAt table index) := by
    refine if_neg fun inside => other ?_
    have tableAligned := (tables.inUse is).2
    have bounds := entryAt_inside table index
    obtain rfl : base = table := by
      simp only [pageSize, pageShift] at *
      omega
    exact is
  have same : SameEntries root st.mem (st.clearPage base).mem :=
    fun path table index short reached => kept index ⟨path, short, reached⟩
  -- The same holds in the view without the kernel half.
  have lowSame : SameEntries root (lowView root st.mem) (lowView root (st.clearPage base).mem) := by
    intro path table index short reached
    unfold lowView hideSlots
    split
    · rfl
    · exact kept index ((tables.isTable_iff table).mpr (.inl ⟨path, short, reached⟩))
  refine ⟨⟨lowSame.tree tables.tree, lowSame.small tables.small,
    fun first rest table short high reached => ?_⟩, same.isTable_iff, same.walk⟩
  rw [same.reach (by simp; omega)] at reached
  obtain ⟨used, aligned, elsewhere⟩ := tables.kernel first rest table short high reached
  exact ⟨used, aligned, fun found => elsewhere ((lowSame.isTable_iff table).mp found)⟩

end Ccos
