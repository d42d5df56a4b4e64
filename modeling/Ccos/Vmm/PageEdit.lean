import Ccos.Vmm.PageWalk

/-! The calls that write the entry of one 4 KiB page: what they do to the tables, the frames and the
translations. -/

namespace Ccos

open Lib

variable {Alloc : Type*} {source : FrameSource Alloc} {root : Nat} {st : PageState Alloc}

theorem hardwareWalk_page {mem : PhysMem} {first second : Nat}
    (same : pageNumber first = pageNumber second) :
    hardwareWalk root first mem = hardwareWalk root second mem := by
  rw [hardwareWalk_eq, hardwareWalk_eq, (pagePath_eq_iff first second).mpr same]

/-- The entry written for a 4 KiB page. -/
def smallEntry (paddr flags : Nat) : Nat :=
  (paddr &&& pteAddrMask) ||| vmapFlagsToPte flags

/-- An address lies in a 2 MiB page if the directory that its walk reaches says so. -/
theorem hardwareWalk_directory {mem : PhysMem} {vaddr pd : Nat}
    (reached : tableAt mem root [pml4Index vaddr, pdptIndex vaddr] = some pd) :
    (ptePresent (mem (entryAt pd (pdIndex vaddr))) &&
      ptePat (mem (entryAt pd (pdIndex vaddr)))) = true ↔
      ∃ entry, hardwareWalk root vaddr mem = some (entry, 1) := by
  have path : pagePath vaddr =
      [pml4Index vaddr, pdptIndex vaddr] ++ [pdIndex vaddr, ptIndex vaddr] := rfl
  have slot : pageLayout.slot pd (pdIndex vaddr) = entryAt pd (pdIndex vaddr) := rfl
  rw [hardwareWalk_eq, path, RadixLayout.stop_append reached (by simp), RadixLayout.stop, slot]
  cases present : ptePresent (mem (entryAt pd (pdIndex vaddr))) with
  | false => simp [child_of_absent present, leafOf, present]
  | true =>
    cases size : ptePat (mem (entryAt pd (pdIndex vaddr))) with
    | true => simp [child_of_huge size, leafOf, present, size]
    | false =>
      -- The entry leads to a last-level table, where the walk ends.
      simp only [child_of_link present size, RadixLayout.stop, Option.bind_some, leafOf,
        Bool.true_and, Bool.false_eq_true, false_iff, not_exists]
      intro entry
      split
      · simp
      · simp

section Requests

variable {vaddr paddr flags : Nat} (ordinary : SmallFlags flags)
include ordinary

theorem pageMapPage_unaligned (unaligned : vaddr % pageSize ≠ 0 ∨ paddr % pageSize ≠ 0)
    (allocMissing : Bool) :
    pageMapPage source root vaddr paddr flags allocMissing st = (.error .alignment, st) := by
  obtain ⟨not2mb, not1gb⟩ := ordinary.not_huge
  by_cases aligned : vaddr % pageSize = 0
  · have frame := unaligned.resolve_left (not_not.mpr aligned)
    simp [pageMapPage, not2mb, not1gb, land_pageSize, aligned, frame]
  · simp [pageMapPage, not2mb, not1gb, land_pageSize, aligned]

variable (vaddrAligned : vaddr % pageSize = 0) (paddrAligned : paddr % pageSize = 0)
include vaddrAligned paddrAligned

/-- Two levels are walked before a request looks at a page-size bit. -/
theorem pageMapPage_walks (allocMissing : Bool) :
    pageMapPage source root vaddr paddr flags allocMissing st =
      match walkTables source allocMissing root [pml4Index vaddr, pdptIndex vaddr] st with
      | (.error code, after) => (.error code, after)
      | (.ok pd, after) =>
        if ptePresent (after.mem (entryAt pd (pdIndex vaddr))) &&
            ptePat (after.mem (entryAt pd (pdIndex vaddr))) then (.error .invalid, after)
        else
          match walkTables source allocMissing pd [pdIndex vaddr] after with
          | (.error code, after) => (.error code, after)
          | (.ok table, after) =>
            if ptePresent (after.mem (entryAt table (ptIndex vaddr))) then
              (.error .alreadyMapped, after)
            else (.ok (), after.write (entryAt table (ptIndex vaddr)) (smallEntry paddr flags)) := by
  obtain ⟨not2mb, not1gb⟩ := ordinary.not_huge
  simp only [pageMapPage, not2mb, not1gb, land_pageSize, vaddrAligned, paddrAligned, ne_eq,
    not_true_eq_false, if_false, and_self, walkTables]
  rcases walkOrCreate source (entryAt root (pml4Index vaddr)) allocMissing st with ⟨_ | pdpt, first⟩
  · rfl
  simp only
  rcases walkOrCreate source (entryAt pdpt (pdptIndex vaddr)) allocMissing first with
    ⟨_ | pd, second⟩
  · rfl
  simp only
  split
  · rfl
  rcases walkOrCreate source (entryAt pd (pdIndex vaddr)) allocMissing second with ⟨_ | pt, third⟩
  · rfl
  · rfl

/-- A 4 KiB request for a page that no huge page covers walks three levels and then writes a free
entry. -/
theorem pageMapPage_small (tree : PageTree (source.inUse st.frames) st.mem root)
    (small : SmallAlong st.mem root (upperPath vaddr)) :
    pageMapPage source root vaddr paddr flags true st =
      match walkTables source true root (upperPath vaddr) st with
      | (.error code, after) => (.error code, after)
      | (.ok table, after) =>
        if ptePresent (after.mem (entryAt table (ptIndex vaddr))) then
          (.error .alreadyMapped, after)
        else (.ok (), after.write (entryAt table (ptIndex vaddr)) (smallEntry paddr flags)) := by
  have split (table : Nat) : walkTables source true table (upperPath vaddr) st =
      match walkTables source true table [pml4Index vaddr, pdptIndex vaddr] st with
      | (.error code, after) => (.error code, after)
      | (.ok pd, after) => walkTables source true pd [pdIndex vaddr] after := by
    simp only [upperPath, walkTables]
    rcases walkOrCreate source (entryAt table (pml4Index vaddr)) true st with ⟨_ | pdpt, first⟩
    · rfl
    simp only
    rcases walkOrCreate source (entryAt pdpt (pdptIndex vaddr)) true first with ⟨_ | pd, second⟩
    · rfl
    · rfl
  rw [pageMapPage_walks ordinary vaddrAligned paddrAligned, split]
  obtain ⟨result, middle, walked, grown, ends, _⟩ := walkTables_extends source true
    [pml4Index vaddr, pdptIndex vaddr] st [] root tree
    (fun front table index early => small front table index (early.trans ⟨[pdIndex vaddr], rfl⟩))
    rfl (by simp)
  rw [walked]
  cases result with
  | error code => rfl
  | ok pd =>
    -- The page-size test between the second and the third level does not fire.
    have noHuge : (ptePresent (middle.mem (entryAt pd (pdIndex vaddr))) &&
        ptePat (middle.mem (entryAt pd (pdIndex vaddr)))) = false := by
      cases bit : ptePresent (middle.mem (entryAt pd (pdIndex vaddr))) with
      | false => rfl
      | true =>
        rw [grown.along (by simp) small _ pd (pdIndex vaddr) List.prefix_rfl (ends pd rfl) bit]
        rfl
    simp only [noHuge, Bool.false_eq_true, if_false]

/-- A 4 KiB request inside a 2 MiB page fails behind the two upper levels. -/
theorem pageMapPage_in_huge (tree : PageTree (source.inUse st.frames) st.mem root)
    (upper : SmallAlong st.mem root [pml4Index vaddr, pdptIndex vaddr])
    (huge : ¬SmallAlong st.mem root (upperPath vaddr)) :
    hardwareWalk root vaddr st.mem ≠ none ∧
      ∃ code, pageMapPage source root vaddr paddr flags true st =
        (.error code, (walkTables source true root [pml4Index vaddr, pdptIndex vaddr] st).2) := by
  -- The huge page is the entry of the page directory.
  obtain ⟨entry, walked⟩ : ∃ entry, hardwareWalk root vaddr st.mem = some (entry, 1) := by
    simp only [SmallAlong, not_forall] at huge
    obtain ⟨front, table, index, early, reached, present, size⟩ := huge
    rw [Bool.not_eq_false] at size
    have shape : front ++ [index] <+: [pml4Index vaddr, pdptIndex vaddr] ++ [pdIndex vaddr] := early
    rcases List.prefix_concat_iff.mp shape with whole | short
    · obtain ⟨rfl, same⟩ := List.append_inj' whole rfl
      obtain rfl : index = pdIndex vaddr := by simpa using same
      exact (hardwareWalk_directory reached).mp (by simp [present, size])
    · exact absurd (upper front table index short reached present) (by simp [size])
  refine ⟨by simp [walked], ?_⟩
  rw [pageMapPage_walks ordinary vaddrAligned paddrAligned]
  obtain ⟨result, middle, stepped, grown, ends, _⟩ := walkTables_extends source true
    [pml4Index vaddr, pdptIndex vaddr] st [] root tree upper rfl (by simp)
  rw [stepped]
  cases result with
  | error code => exact ⟨code, rfl⟩
  | ok pd =>
    have later : ∃ entry, hardwareWalk root vaddr middle.mem = some (entry, 1) :=
      ⟨entry, (grown.same vaddr).trans walked⟩
    have fires := (hardwareWalk_directory (ends pd rfl)).mpr later
    exact ⟨.invalid, if_pos fires⟩

end Requests

variable {inUse : Nat → Prop} {path : List (Fin 512)} {table : Nat} {index : Fin 512}

/-- A store on the last level brings no huge page. -/
theorem SmallAlong.write {mem : PhysMem} {depth : Nat → Nat → Prop}
    (levels : PageLevels inUse mem depth) (rooted : depth root 0) {way : List (Fin 512)}
    (short : way.length ≤ 3) (small : SmallAlong mem root way) (is : depth table 3) (value : Nat) :
    SmallAlong (Function.update mem (entryAt table index) value) root way := by
  intro front target i early reach
  have := early.length_le
  simp only [List.length_append, List.length_cons, List.length_nil] at this
  rw [levels.same_reach (levels.write_links is (.inl rfl)) rooted (by omega)] at reach
  rcases levels.write_entry is (levels.below rooted (by omega) reach) index i value with
    ⟨_, _, level⟩ | same
  · -- Tables of the upper levels have other depths than the written one.
    omega
  · rw [same]
    exact small front target i early reach

section

variable {after : PageState Alloc} (built : Built source root st after) {frame : Nat}
  (used : source.inUse st.frames frame)
include built used

/-- Building makes no table of a frame that is in use already. -/
theorem Built.isTable_iff : IsTable root after.mem frame ↔ IsTable root st.mem frame :=
  ⟨fun now => (built.new frame now).resolve_right fun unused => unused used, built.kept frame⟩

theorem Built.not_table (apart : ¬IsTable root st.mem frame) : ¬IsTable root after.mem frame :=
  fun now => apart ((built.isTable_iff used).mp now)

end

theorem Built.entry (tree : PageTree (source.inUse st.frames) st.mem root)
    (deepest : path.length = 3) (reached : tableAt st.mem root path = some table) (value : Nat) :
    Built source root st (st.write (entryAt table index) value) := by
  have same {other : List (Fin 512)} (short : other.length ≤ 3) :
      tableAt (Function.update st.mem (entryAt table index) value) root other =
        tableAt st.mem root other :=
    tree.tableAt_write reached (by omega) (.inl deepest) short
  refine ⟨fun _ used => used, fun _ used => .inl used, ?_, ?_, fun addr outside => ?_⟩
  · rintro frame ⟨other, short, reach⟩
    exact ⟨other, short, (same short).trans reach⟩
  · rintro frame ⟨other, short, reach⟩
    exact .inl ⟨other, short, (same short).symm.trans reach⟩
  · refine Function.update_of_ne (fun shared => ?_) _ _
    have inside := entryAt_inside table index
    exact outside table ⟨path, by omega, (same (by omega)).trans reached⟩ (by omega)

/-- What a call does that writes the entry of one page: the tree stays one, frames are taken for new
tables only, and a success changes the translation of the page, a failure none. -/
@[grind]
structure PageEdit (source : FrameSource Alloc) (root vaddr : Nat) (entry : Option (Nat × Nat))
    (st : PageState Alloc) (call : Except PageError Unit × PageState Alloc) : Prop where
  tree : PageTree (source.inUse call.2.frames) call.2.mem root
  along : ∀ way : List (Fin 512), way.length ≤ 3 → SmallAlong st.mem root way →
    SmallAlong call.2.mem root way
  built : Built source root st call.2
  failed : ∀ code, call.1 = .error code →
    ∀ other, hardwareWalk root other call.2.mem = hardwareWalk root other st.mem
  stored : call.1 = .ok () → ∀ other, hardwareWalk root other call.2.mem =
    if pageNumber other = pageNumber vaddr then entry else hardwareWalk root other st.mem

section Edits

variable {vaddr paddr flags : Nat} {entry : Option (Nat × Nat)} {after : PageState Alloc}
  {call : Except PageError Unit × PageState Alloc}

theorem PageEdit.small (edit : PageEdit source root vaddr entry st call)
    (small : SmallPages st.mem root) : SmallPages call.2.mem root :=
  small.of_along edit.along

theorem PageEdit.refused (grown : Extends source root st after) (code : PageError) :
    PageEdit source root vaddr entry st (.error code, after) :=
  ⟨grown.tree, fun _ short small => grown.along short small, grown.built, fun _ _ => grown.same, by simp⟩

theorem PageEdit.store (grown : Extends source root st after)
    (reached : tableAt after.mem root (upperPath vaddr) = some table) (value : Nat) :
    PageEdit source root vaddr (if ptePresent value then some (value, 0) else none) st
      (.ok (), after.write (entryAt table (ptIndex vaddr)) value) := by
  refine ⟨grown.tree.write reached (by simp) (by simp [upperPath]) (.inl (by simp)),
    fun way short small => (grown.along short small).write grown.tree.levels
      ⟨by omega, [], rfl, rfl⟩ short ⟨by omega, _, by simp, reached⟩ _,
    grown.built.trans (.entry grown.tree (by simp) reached _), by simp, fun _ other => ?_⟩
  have stored := hardwareWalk_store (grown.tree.separated.owned (by simp) reached _) reached value other
  rwa [grown.same] at stored

/-- Mapping a 4 KiB page that no 1 GiB page covers: when it succeeds, why a free page is refused, and
what it does. -/
theorem pageMapPage_edit (tree : PageTree (source.inUse st.frames) st.mem root)
    (upper : SmallAlong st.mem root [pml4Index vaddr, pdptIndex vaddr])
    (ordinary : SmallFlags flags)
    (done : pageMapPage source root vaddr paddr flags true st = call) :
    PageEdit source root vaddr (some (smallEntry paddr flags, 0)) st call ∧
      (call.1 = .ok () ↔ vaddr % pageSize = 0 ∧ paddr % pageSize = 0 ∧
        hardwareWalk root vaddr st.mem = none ∧
        source.grants (missingBelow st.mem root (upperPath vaddr)) st.frames = true) ∧
      (call.1 = .ok () → SmallAlong call.2.mem root (upperPath vaddr)) ∧
      (vaddr % pageSize = 0 → paddr % pageSize = 0 → ∀ code, call.1 = .error code →
        code = .oom ∨ hardwareWalk root vaddr st.mem ≠ none) := by
  subst done
  by_cases unaligned : vaddr % pageSize ≠ 0 ∨ paddr % pageSize ≠ 0
  · rw [pageMapPage_unaligned ordinary unaligned]
    refine ⟨.refused (.refl tree) _, ?_, by simp, fun first second => ?_⟩
    all_goals grind
  rw [not_or, not_not, not_not] at unaligned
  obtain ⟨vaddrAligned, paddrAligned⟩ := unaligned
  by_cases small : SmallAlong st.mem root (upperPath vaddr)
  swap
  · -- A 2 MiB page covers the address, so it is mapped.
    obtain ⟨mapped, code, failed⟩ := pageMapPage_in_huge ordinary vaddrAligned paddrAligned tree
      upper small
    obtain ⟨_, middle, walked, grown, _⟩ := walkTables_extends source true
      [pml4Index vaddr, pdptIndex vaddr] st [] root tree upper rfl (by simp)
    rw [failed, walked]
    exact ⟨.refused grown code, by simp [mapped], by simp, fun _ _ _ _ => .inr mapped⟩
  rw [pageMapPage_small ordinary vaddrAligned paddrAligned tree small]
  obtain ⟨result, after, walked, grown, ends, succeeds, fails⟩ := walkTables_extends source
    true (upperPath vaddr) st [] root tree small rfl (by simp)
  have grants := succeeds rfl
  rw [walked]
  cases result with
  | error code =>
    refine ⟨.refused grown code, ?_, by simp, fun _ _ _ same => .inl ?_⟩
    all_goals grind
  | ok table =>
    have granted := grants.mp ⟨table, rfl⟩
    have reached : tableAt after.mem root (upperPath vaddr) = some table := ends table rfl
    -- The last table decides whether the page was mapped before the call.
    have leaf := hardwareWalk_leaf reached
    rw [grown.same] at leaf
    cases present : ptePresent (after.mem (entryAt table (ptIndex vaddr))) with
    | true =>
      simp only [present, if_true] at leaf ⊢
      exact ⟨.refused grown _, by simp [leaf], by simp, fun _ _ _ _ => .inr (by simp [leaf])⟩
    | false =>
      have edit := PageEdit.store grown reached (smallEntry paddr flags)
      have bit : ptePresent (smallEntry paddr flags) = true := by
        rw [smallEntry, ptePresent, testBit_lor_low _ _ (by decide)]
        exact (vmapFlagsToPte_fields flags).1
      simp only [present, Bool.false_eq_true, if_false] at leaf ⊢
      rw [bit, if_pos rfl] at edit
      exact ⟨edit, by simp [vaddrAligned, paddrAligned, leaf, granted],
        fun _ => edit.along _ (by simp) small, by simp⟩

theorem pageUnmapPage_edit (tree : PageTree (source.inUse st.frames) st.mem root)
    (small : SmallAlong st.mem root (upperPath vaddr)) {freeTable : Bool}
    (done : pageUnmapPage root vaddr freeTable st = call) :
    PageEdit source root vaddr none st call ∧
      (call.1 = .ok () ↔ vaddr % pageSize = 0 ∧ hardwareWalk root vaddr st.mem ≠ none) := by
  subst done
  have stays (code : PageError) : PageEdit source root vaddr none st (.error code, st) :=
    .refused (.refl tree) code
  by_cases aligned : vaddr % pageSize = 0
  swap
  · simp only [pageUnmapPage, land_pageSize, ne_eq, aligned, not_false_eq_true, if_true]
    exact ⟨stays _, by simp⟩
  simp only [pageUnmapPage, land_pageSize, ne_eq, aligned, not_true_eq_false, if_false]
  rcases walk_cases (tree.lowTables vaddr) (tree.top _) small.path with
    ⟨_, ended, unmapped⟩ | ⟨table, reached, walked⟩
  · grind
  · have leaf := hardwareWalk_leaf reached
    simp only [walked]
    cases present : ptePresent (st.mem (entryAt table (ptIndex vaddr))) with
    | false => exact ⟨stays _, by simp [leaf, present]⟩
    | true => exact ⟨.store (.refl tree) reached 0, by simp [leaf, present]⟩

/-- After the unmapping of an aligned page the page is not mapped, also when it was not before. -/
theorem PageEdit.cleared (edit : PageEdit source root vaddr none st call)
    (success : call.1 = .ok () ↔ vaddr % pageSize = 0 ∧ hardwareWalk root vaddr st.mem ≠ none)
    (aligned : vaddr % pageSize = 0) (other : Nat) : hardwareWalk root other call.2.mem =
      if pageNumber other = pageNumber vaddr then none else hardwareWalk root other st.mem := by
  obtain ⟨result, after⟩ := call
  cases result with
  | ok _ => exact edit.stored rfl other
  | error code =>
    -- A page that could not be unmapped was not mapped.
    have absent : hardwareWalk root vaddr st.mem = none := by
      grind
    rw [edit.failed code rfl]
    split
    · rename_i same
      exact (hardwareWalk_page same).trans absent
    · rfl

end Edits

end Ccos
