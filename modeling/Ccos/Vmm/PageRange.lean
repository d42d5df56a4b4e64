import Ccos.User.UserPages
import Ccos.Vmm.PageStores

/-! Ranges of pages in `mm/vmm/page.c`: a range that cannot be mapped as a whole leaves every
translation as it was. -/

namespace Ccos

open Lib

variable {Alloc : Type} {source : FrameSource Alloc} {root : Nat} {st : PageState Alloc}
  {vaddr paddr flags : Nat}

/-- Map consecutive pages, from the given page on, and take all of them back on a failure. -/
def pageMapPages (source : FrameSource Alloc) (pml4 vaddr paddr flags : Nat) :
    (page remaining : Nat) → PageState Alloc → Except PageError Unit × PageState Alloc
  | _, 0, st => (.ok (), st)
  | page, remaining + 1, st =>
    match pageMapPage source pml4 (wrap64 (vaddr + wrap64 (page * pageSize)))
        (wrap64 (paddr + wrap64 (page * pageSize))) flags true st with
    | (.ok (), st) => pageMapPages source pml4 vaddr paddr flags (page + 1) remaining st
    | (.error code, st) => (.error code, pageUnmapRange pml4 vaddr 0 page st)

def pageMapRange (source : FrameSource Alloc) (pml4 vaddr paddr pageCount flags : Nat)
    (st : PageState Alloc) : Except PageError Unit × PageState Alloc :=
  pageMapPages source pml4 vaddr paddr flags 0 pageCount st

/-- `vmm_map_to_user` maps its pages in the same way and tells success only. -/
theorem vmmMapToUserPages_eq (ops : FrameOps Alloc) (page remaining : Nat) (st : PageState Alloc) :
    vmmMapToUserPages ops root vaddr paddr flags page remaining st =
      ((pageMapPages ops.source root vaddr paddr flags page remaining st).1.isOk,
        (pageMapPages ops.source root vaddr paddr flags page remaining st).2) := by
  -- The two loops take the same steps.
  induction remaining generalizing page st with
  | zero => rfl
  | succ remaining ih =>
    rw [vmmMapToUserPages, pageMapPages]
    rcases pageMapPage ops.source root (wrap64 (vaddr + wrap64 (page * pageSize)))
      (wrap64 (paddr + wrap64 (page * pageSize))) flags true st with ⟨_ | _, after⟩
    · rfl
    · exact ih (page + 1) after

variable {mem : PhysMem} {entry : Nat} {depth : Nat → Nat → Prop}

theorem leafEntry_eq_some {table : Nat} (reached : tableAt mem root (upperPath vaddr) = some table) :
    leafEntry mem root vaddr = some (entryAt table (ptIndex vaddr)) :=
  Option.map_eq_some_iff.mpr ⟨table, reached, rfl⟩

theorem hardwareWalk_leafEntry (leaf : leafEntry mem root vaddr = some entry) :
    hardwareWalk root vaddr mem =
      if ptePresent (mem entry) then some (mem entry, 0) else none := by
  obtain ⟨table, reached, rfl⟩ := Option.map_eq_some_iff.mp leaf
  exact hardwareWalk_leaf reached

/-- Tables below a PML4, some of them perhaps shared, without huge pages. -/
structure SmallTables (source : FrameSource Alloc) (root : Nat) (depth : Nat → Nat → Prop)
    (st : PageState Alloc) : Prop where
  levels : PageLevels (source.inUse st.frames) st.mem depth
  rooted : depth root 0
  small : SmallPages st.mem root

namespace SmallTables

variable (tables : SmallTables source root depth st)
include tables

/-- An address without an entry on the last level is not translated. -/
theorem walk_none (leaf : leafEntry st.mem root vaddr = none) :
    hardwareWalk root vaddr st.mem = none := by
  rcases walk_cases (tables.levels.lowTables tables.rooted vaddr)
    (tables.levels.top _ _ tables.rooted) (tables.small.path vaddr) with
    ⟨_, _, ended⟩ | ⟨table, reached, _⟩
  · exact ended
  · rw [leafEntry_eq_some reached] at leaf
    cases leaf

/-- Writing the entry of a page moves no entry and changes no other translation. -/
theorem write (leaf : leafEntry st.mem root vaddr = some entry) (value : Nat) :
    SmallTables source root depth (st.write entry value) ∧ ∀ other,
      leafEntry (st.write entry value).mem root other = leafEntry st.mem root other ∧
        (leafEntry st.mem root other ≠ some entry →
          hardwareWalk root other (st.write entry value).mem = hardwareWalk root other st.mem) := by
  obtain ⟨table, reached, rfl⟩ := Option.map_eq_some_iff.mp leaf
  have is : depth table 3 := tables.levels.below tables.rooted (by simp) reached
  have same {way : List (Fin 512)} (short : way.length ≤ 3) :
      tableAt (st.write (entryAt table (ptIndex vaddr)) value).mem root way =
        tableAt st.mem root way :=
    tables.levels.same_reach (tables.levels.write_links is (.inl rfl)) tables.rooted (by omega)
  have after : SmallTables source root depth (st.write (entryAt table (ptIndex vaddr)) value) := by
    refine ⟨tables.levels.write is (by omega) (.inl rfl), tables.rooted, ?_⟩
    exact tables.small.of_along fun way short small =>
      small.write tables.levels tables.rooted short is value
  refine ⟨after, fun other => ?_⟩
  have moved : leafEntry (st.write (entryAt table (ptIndex vaddr)) value).mem root other =
      leafEntry st.mem root other := by
    rw [leafEntry, same (by simp), leafEntry]
  refine ⟨moved, fun apart => ?_⟩
  cases found : leafEntry st.mem root other with
  | none => rw [tables.walk_none found, after.walk_none (moved.trans found)]
  | some target =>
    rw [found] at apart
    have unwritten : (st.write (entryAt table (ptIndex vaddr)) value).mem target = st.mem target :=
      Function.update_of_ne (fun here => apart (congrArg some here)) ..
    rw [hardwareWalk_leafEntry (moved.trans found), hardwareWalk_leafEntry found, unwritten]

/-- Unmapping a page ends the translation of all addresses that share its entry, and of no other. -/
theorem unmap (aligned : vaddr % pageSize = 0) :
    SmallTables source root depth (pageUnmapPage root vaddr false st).2 ∧ ∀ other,
      leafEntry (pageUnmapPage root vaddr false st).2.mem root other = leafEntry st.mem root other ∧
        (leafEntry st.mem root other = leafEntry st.mem root vaddr →
          hardwareWalk root other (pageUnmapPage root vaddr false st).2.mem = none) ∧
        (leafEntry st.mem root other ≠ leafEntry st.mem root vaddr →
          hardwareWalk root other (pageUnmapPage root vaddr false st).2.mem =
            hardwareWalk root other st.mem) := by
  -- An entry that is present is cleared, and otherwise the page was not translated.
  have done : (pageUnmapPage root vaddr false st).2 = st ∧ hardwareWalk root vaddr st.mem = none ∨
      ∃ entry, leafEntry st.mem root vaddr = some entry ∧
        (pageUnmapPage root vaddr false st).2 = st.write entry 0 := by
    simp only [pageUnmapPage, land_pageSize, aligned, ne_eq, not_true_eq_false, if_false]
    rcases walk_cases (tables.levels.lowTables tables.rooted vaddr)
      (tables.levels.top _ _ tables.rooted) (tables.small.path vaddr) with
      ⟨_, ended, none⟩ | ⟨table, reached, walked⟩
    · exact .inl ⟨by rw [ended], none⟩
    · cases present : ptePresent (st.mem (entryAt table (ptIndex vaddr))) with
      | false => exact .inl ⟨by simp [walked, present], by simp [hardwareWalk_leaf reached, present]⟩
      | true => exact .inr ⟨_, leafEntry_eq_some reached, by simp [walked, present]⟩
  rcases done with ⟨same, none⟩ | ⟨entry, leaf, same⟩
  · rw [same]
    refine ⟨tables, fun other => ⟨rfl, fun shared => ?_, fun _ => rfl⟩⟩
    cases leaf : leafEntry st.mem root vaddr with
    | none => exact tables.walk_none (shared.trans leaf)
    | some entry =>
      rwa [hardwareWalk_leafEntry (shared.trans leaf), ← hardwareWalk_leafEntry leaf]
  · rw [same]
    obtain ⟨written, effect⟩ := tables.write leaf 0
    refine ⟨written, fun other => ⟨(effect other).1, fun shared => ?_, fun apart => ?_⟩⟩
    · rw [hardwareWalk_leafEntry ((effect other).1.trans (shared.trans leaf))]
      simp [PageState.write, ptePresent]
    · exact (effect other).2 (leaf ▸ apart)

end SmallTables

variable {remaining low high : Nat} {first : PhysMem} {after : PageState Alloc}

/-- A range of which some pages are mapped, all of them new: an address that shares an entry with
such a page was not translated at first, and any other is translated as it was. -/
structure RangeStarted (source : FrameSource Alloc) (root : Nat) (depth : Nat → Nat → Prop)
    (vaddr : Nat) (first : PhysMem) (low high : Nat) (st : PageState Alloc) : Prop extends
    SmallTables source root depth st where
  aligned : low < high → vaddr % pageSize = 0
  new : ∀ other i, low ≤ i → i < high →
    leafEntry st.mem root other = leafEntry st.mem root (pageAt vaddr i) →
    hardwareWalk root other first = none
  others : ∀ other, (∀ i, low ≤ i → i < high →
      leafEntry st.mem root other ≠ leafEntry st.mem root (pageAt vaddr i)) →
    hardwareWalk root other first = hardwareWalk root other st.mem

namespace RangeStarted

variable (range : RangeStarted source root depth vaddr first low high st)
include range

theorem first_none {other : Nat} (none : hardwareWalk root other st.mem = none) :
    hardwareWalk root other first = .none := by
  by_contra translated
  exact translated ((range.others other fun i early late shared =>
    translated (range.new other i early late shared)).trans none)

/-- New tables change nothing. -/
theorem grown {later : Nat → Nat → Prop} (grew : Grew source root depth later st after) :
    RangeStarted source root later vaddr first low high after := by
  have growth := grew.grown range.small
  have tables : SmallTables source root later after :=
    ⟨grew.levels, grew.grows root 0 range.rooted, growth.small range.small⟩
  have kept {other entry : Nat} (leaf : leafEntry st.mem root other = some entry) :
      leafEntry after.mem root other = some entry := by
    obtain ⟨table, reached, rfl⟩ := Option.map_eq_some_iff.mp leaf
    exact leafEntry_eq_some (grew.reach range.levels range.rooted (by simp) reached)
  refine ⟨tables, range.aligned, fun other i early late shared => ?_, fun other apart => ?_⟩
  · cases leaf : leafEntry st.mem root other with
    | none => exact range.first_none (range.walk_none leaf)
    | some entry =>
      cases page : leafEntry st.mem root (pageAt vaddr i) with
      | some target =>
        refine range.new other i early late ?_
        rw [leaf, page, ← kept leaf, shared, kept page]
      | none =>
        -- The page leads to a new table, so the entry is not present.
        refine range.first_none ?_
        rw [← growth.same, hardwareWalk_leafEntry (kept leaf),
          ← hardwareWalk_leafEntry (shared.symm.trans (kept leaf)), growth.same, range.walk_none page]
  · rw [growth.same]
    cases leaf : leafEntry st.mem root other with
    | none => rw [range.first_none (range.walk_none leaf), range.walk_none leaf]
    | some entry =>
      refine range.others other fun i early late shared => apart i early late ?_
      rw [kept leaf, kept (shared.symm.trans leaf)]

/-- Writing a page that is not mapped adds it to the range. -/
theorem add (ordered : low ≤ high) (boundary : vaddr % pageSize = 0)
    (leaf : leafEntry st.mem root (pageAt vaddr high) = some entry)
    (absent : ptePresent (st.mem entry) = false) (value : Nat) :
    RangeStarted source root depth vaddr first low (high + 1) (st.write entry value) := by
  obtain ⟨written, effect⟩ := range.write leaf value
  refine ⟨written, fun _ => boundary, fun other i early late shared => ?_, fun other apart => ?_⟩
  · rw [(effect other).1, (effect _).1] at shared
    rcases Nat.lt_succ_iff_lt_or_eq.mp late with before | rfl
    · exact range.new other i early before shared
    · refine range.first_none ?_
      rw [hardwareWalk_leafEntry (shared.trans leaf), absent]
      rfl
  · simp only [(effect _).1] at apart
    rw [(effect other).2]
    · exact range.others other fun i early late => apart i early (by omega)
    · exact leaf ▸ apart high ordered (by omega)

/-- Unmapping the first page takes it out of the range. -/
theorem drop (more : low < high) :
    RangeStarted source root depth vaddr first (low + 1) high
      (pageUnmapPage root (pageAt vaddr low) false st).2 := by
  obtain ⟨tables, effect⟩ := range.unmap (pageAt_aligned (range.aligned more) low)
  refine ⟨tables, fun _ => range.aligned more, fun other i early late shared => ?_,
    fun other apart => ?_⟩
  · rw [(effect other).1, (effect _).1] at shared
    exact range.new other i (by omega) late shared
  · simp only [(effect _).1] at apart
    by_cases here : leafEntry st.mem root other = leafEntry st.mem root (pageAt vaddr low)
    · rw [(effect other).2.1 here, range.new other low le_rfl more here]
    · rw [(effect other).2.2 here]
      refine range.others other fun i early late => ?_
      rcases Nat.eq_or_lt_of_le early with rfl | later
      · exact here
      · exact apart i later late

end RangeStarted

/-- Unmapping all pages of a started range brings back the translations that were there at first. -/
theorem RangeStarted.undo (range : RangeStarted source root depth vaddr first low (low + remaining) st)
    (other : Nat) : hardwareWalk root other (pageUnmapRange root vaddr low remaining st).mem =
      hardwareWalk root other first := by
  induction remaining generalizing low st with
  | zero => exact (range.others other fun i early late => by omega).symm
  | succ remaining ih =>
    have rest := range.drop (by omega)
    rw [show low + (remaining + 1) = low + 1 + remaining by omega] at rest
    exact ih rest

variable {page : Nat} {code : PageError}

theorem RangeStarted.run (range : RangeStarted source root depth vaddr first 0 page st)
    (ordinary : SmallFlags flags)
    (failed : (pageMapPages source root vaddr paddr flags page remaining st).1 = .error code)
    (other : Nat) :
    hardwareWalk root other (pageMapPages source root vaddr paddr flags page remaining st).2.mem =
      hardwareWalk root other first := by
  -- Every page either joins the range or has all pages before it taken back.
  induction remaining generalizing page st depth with
  | zero => cases failed
  | succ remaining ih =>
    have outside : ¬InGiantPage st.mem root (pageAt vaddr page) := by
      rintro ⟨table, reached, present, huge, _⟩
      exact absurd (range.small _ table _ (by simp) reached present) (by simp [huge])
    obtain ⟨later, middle, grew, ⟨stopped, done⟩ |
        ⟨path, table, index, value, _, _, reached, absent, _, place, done⟩⟩ :=
      pageMapPage_builds range.levels range.rooted (pageAt paddr page) true (.inr outside)
    · rw [pageAt, pageAt] at done
      rw [pageMapPages, done]
      have whole := range.grown grew
      rw [← Nat.zero_add page] at whole
      exact whole.undo other
    · obtain ⟨rfl, rfl⟩ := place ordinary
      have aligned : vaddr % pageSize = 0 := by
        by_contra odd
        have odd : pageAt vaddr page % pageSize ≠ 0 := by
          simp only [pageAt, wrap64, pageSize, pageShift] at odd ⊢
          omega
        rw [pageMapPage_unaligned ordinary (.inl odd)] at done
        cases done
      rw [pageAt, pageAt] at done
      rw [pageMapPages, done] at failed ⊢
      exact ih ((range.grown grew).add (by omega) aligned (leafEntry_eq_some reached) absent value)
        failed

/-- A range that `page_map_range` or `vmm_map_to_user` does not map leaves every translation as it
was, also where slots of the PML4 share tables. -/
theorem pageMapRange_failed_kept (ops : FrameOps Alloc) {depth : Nat → Nat → Prop}
    (levels : PageLevels (ops.source.inUse st.frames) st.mem depth) (rooted : depth root 0)
    (small : SmallPages st.mem root)
    (vaddr paddr count : Nat) (no2mb : flags.testBit 5 = false) (no1gb : flags.testBit 6 = false) :
    (∀ code, (pageMapRange ops.source root vaddr paddr count flags st).1 = .error code →
      ∀ other, hardwareWalk root other (pageMapRange ops.source root vaddr paddr count flags st).2.mem =
        hardwareWalk root other st.mem) ∧
    ((vmmMapToUser ops root vaddr paddr count flags st).1 = false →
      ∀ other, hardwareWalk root other (vmmMapToUser ops root vaddr paddr count flags st).2.mem =
        hardwareWalk root other st.mem) := by
  have start : RangeStarted ops.source root depth vaddr st.mem 0 0 st := by
    refine ⟨⟨levels, rooted, small⟩, by omega, ?_, fun _ _ => rfl⟩
    intro other i _ late
    omega
  constructor
  · intro code failed
    exact start.run ⟨no2mb, no1gb⟩ failed
  · intro failed other
    unfold vmmMapToUser at failed ⊢
    split at failed
    · rename_i outside
      rw [if_pos outside]
    · rename_i inside
      rw [if_neg inside, vmmMapToUserPages_eq]
      rw [vmmMapToUserPages_eq] at failed
      -- The flag that is added concerns no page size.
      have ordinary : SmallFlags (flags ||| vmapFlagUser) := .or ⟨no2mb, no1gb⟩ (by decide)
      cases result :
          (pageMapPages ops.source root vaddr paddr (flags ||| vmapFlagUser) 0 count st).1 with
      | ok _ =>
        rw [result] at failed
        cases failed
      | error code => exact start.run ordinary result other

/-- An address space with one mapped page. -/
def onePageSpace : PageState ReadyPframe :=
  (pageMapPage pframeSource 0x100000 0x402000 0x200000 0 true emptyPml4).2

/-- A range of three pages that ends at the mapped page is taken back. -/
theorem pageMapRange_failed_kept_third :
    (pageMapRange pframeSource 0x100000 0x400000 0x300000 3 0 onePageSpace).1 =
        .error .alreadyMapped ∧
      ∀ other, hardwareWalk 0x100000 other
          (pageMapRange pframeSource 0x100000 0x400000 0x300000 3 0 onePageSpace).2.mem =
        hardwareWalk 0x100000 other onePageSpace.mem := by
  have failed : (pageMapRange pframeSource 0x100000 0x400000 0x300000 3 0 onePageSpace).1 =
      .error .alreadyMapped := by
    decide +kernel
  have created : (pageCreateTable pframeSource zeroedState).1 = .ok 0x100000 := by decide +kernel
  obtain ⟨tree, small, _⟩ := pageCreateTable_tree (Prod.ext created rfl)
  obtain ⟨edit, _⟩ := @pageMapPage_edit _ pframeSource 0x100000 emptyPml4 0x402000 0x200000 0 _ tree
    (small.along (by simp)) (by decide) rfl
  obtain ⟨kept, _⟩ := @pageMapRange_failed_kept _ 0x100000 onePageSpace 0 pframeOps _
    edit.tree.levels ⟨by omega, [], rfl, rfl⟩ (edit.small small) 0x400000 0x300000 3
    (by decide) (by decide)
  exact ⟨failed, kept _ failed⟩

end Ccos
