import Ccos.Vmm.KernelPages
import Ccos.Vmm.KernelRanges

/-! What `vmm_alloc_pages` and `vmm_alloc_pages_at` leave behind when they fail, and what
`vmm_free_pages` takes back after a success. -/

namespace Ccos

open Lib

variable {Alloc : Type} {hidden : Nat → Prop} [DecidablePred hidden] {ops : VmmFrames Alloc}
  {st : VmmState Alloc} {vaddr count flags : Nat}

/-- The kernel's tables form a tree when a part of the PML4 is hidden. -/
@[grind]
structure KernelTables (source : FrameSource Alloc) (hidden : Nat → Prop) [DecidablePred hidden]
    (st : VmmState Alloc) : Prop where
  inside : HidesIn st.kernelPml4 hidden
  tree : PageTree (source.inUse st.pages.frames) (hideSlots hidden st.pages.mem) st.kernelPml4

/-- An address lies in a 1 GiB page of the kernel. -/
@[grind =] def VmmState.InGigabytePage (st : VmmState Alloc) (vaddr : Nat) : Prop :=
  ∃ entry, hardwareWalk st.kernelPml4 vaddr st.pages.mem = some (entry, 2)

theorem hardwareWalk_gigabyte {root entry : Nat} {mem : PhysMem} :
    hardwareWalk root vaddr mem = some (entry, 2) ↔
      ptePresent (mem (entryAt root (pml4Index vaddr))) = true ∧
      ptePat (mem (entryAt root (pml4Index vaddr))) = false ∧
      mem (entryAt (entryAddr (mem (entryAt root (pml4Index vaddr)))) (pdptIndex vaddr)) = entry ∧
      ptePresent entry = true ∧ ptePat entry = true := by
  simp only [hardwareWalk]
  grind

theorem KernelTables.upper (tables : KernelTables ops.source hidden st)
    (visible : Visible hidden st.kernelPml4 vaddr) (plain : ¬st.InGigabytePage vaddr) :
    SmallAlong (hideSlots hidden st.pages.mem) st.kernelPml4 [pml4Index vaddr, pdptIndex vaddr] := by
  rintro front table index ⟨rest, whole⟩ reached present
  match front, whole with
  | [], whole =>
    obtain rfl := Option.some.inj reached
    exact tables.tree.top index present
  | [first], whole =>
    obtain ⟨rfl, others⟩ := List.cons.inj whole
    obtain rfl : index = pdptIndex vaddr := (List.cons.inj others).1
    by_contra wide
    apply plain
    -- The walk through the visible part ends at this entry.
    rw [VmmState.InGigabytePage, ← hardwareWalk_hide tables.inside tables.tree visible]
    simp only [tableAt, RadixLayout.descend] at reached
    split at reached
    · rename_i next link
      obtain ⟨top, small, leads⟩ := child_eq_some link
      obtain rfl := Option.some.inj reached
      exact ⟨_, hardwareWalk_gigabyte.mpr
        ⟨top, small, congrArg (fun table => hideSlots hidden _ (entryAt table _)) leads, present,
          by simpa using wide⟩⟩
    · cases reached
  | first :: second :: others, whole => simp at whole

/-- The pages of a range are visible and outside the 1 GiB pages. -/
@[grind =] def PlainRange (hidden : Nat → Prop) (st : VmmState Alloc) (vaddr count : Nat) : Prop :=
  ∀ i < count, Visible hidden st.kernelPml4 (pageAt vaddr i) ∧ ¬st.InGigabytePage (pageAt vaddr i)

theorem vmapPageSize_small (ordinary : SmallFlags flags) :
    vmapPageSize flags = pageSize := by
  obtain ⟨not2mb, not1gb⟩ := ordinary.not_huge
  rw [vmapPageSize, if_neg not1gb, if_neg not2mb]

variable {size : Nat}

theorem searchVirtRange_aligned {regions : List MemoryRegion} {steps hint : Nat}
    (aligned : hint % pageSize = 0) (word : hint < 2 ^ 64)
    (found : searchVirtRange regions size (rangeAlignment size) steps hint = some vaddr) :
    vaddr % pageSize = 0 ∧ vaddr < 2 ^ 64 := by
  induction steps generalizing hint with
  | zero => cases found
  | succ steps ih =>
    rw [searchVirtRange] at found
    split at found
    · split at found
      · grind
      · refine ih ?_ (wrap64_lt _) found
        have step : rangeAlignment size % pageSize = 0 := by
          rcases rangeAlignment_cases size with large | small
          · rw [large]
            decide
          · rw [small]
            decide
        simp only [wrap64, pageSize, pageShift] at *
        omega
    · cases found

theorem findFreeVirtRange_aligned (found : (findFreeVirtRange size st).1 = some vaddr) :
    vaddr % pageSize = 0 ∧ vaddr < 2 ^ 64 := by
  have rounded : alignHint st.kernelVirtHint size % pageSize = 0 := by
    unfold alignHint
    rcases rangeAlignment_cases size with large | small
    · rw [large, land_not64_low (wrap64_lt _) (by decide)]
      simp only [pageSize, pageShift]
      omega
    · rw [small, land_not64_low (wrap64_lt _) (by decide)]
      simp only [pageSize, pageShift]
      omega
  have word : alignHint st.kernelVirtHint size < 2 ^ 64 :=
    Nat.lt_of_le_of_lt Nat.and_le_left (wrap64_lt _)
  unfold findFreeVirtRange at found
  split at found
  · cases found
  · rename_i other searched
    obtain rfl := Option.some.inj found
    exact searchVirtRange_aligned rounded word searched

/-- The loop of an allocation, with the pages that it leaves mapped. -/
theorem vmmAllocLoop_outcome (returns : ops.toFrameOps.Returns)
    (tables : KernelTables ops.source hidden st) (range : PlainRange hidden st vaddr count)
    (ordinary : SmallFlags flags)
    (aligned : vaddr % pageSize = 0) (word : vaddr < 2 ^ 64) (positive : 0 < count) :
    ∃ failed mapped owned pages,
      vmmAllocLoop ops st.kernelPml4 vaddr pageSize flags 0 count st.pages = some (failed, pages) ∧
      KernelRaised ops.source hidden st.kernelPml4 vaddr st.pages mapped owned pages ∧
      (failed = none ∧ mapped = count ∨ failed = some mapped ∧ mapped < count) ∧
      (failed = some 0 ↔ PageBlocked ops.source st.kernelPml4 vaddr st.pages) := by
  have first := pageAt_zero word
  obtain ⟨failed, mapped, owned, pages, done, raised, outcome, blocked⟩ :=
    vmmAllocLoop_cases returns tables.inside ordinary aligned count 0 _ st.pages
      (.start tables.tree) fun j early => by
        obtain ⟨visible, plain⟩ := range j (by omega)
        exact ⟨visible, tables.upper visible plain⟩
  grind

variable {owned : UserPages}

/-- Freeing the mapped pages of a range restores translations and frames. -/
theorem vmmFreePages_takesBack (st : VmmState Alloc) {before : PageState Alloc}
    (returns : ops.toFrameOps.Returns) (inside : HidesIn st.kernelPml4 hidden)
    (tree : PageTree (ops.source.inUse before.frames) (hideSlots hidden before.mem) st.kernelPml4)
    (visible : ∀ j < count, Visible hidden st.kernelPml4 (pageAt vaddr j))
    (aligned : vaddr % pageSize = 0) (ready : st.initialized = true) (positive : 0 < count)
    (raised : KernelRaised ops.source hidden st.kernelPml4 vaddr before count owned st.pages) :
    ∃ pages, vmmFreePages ops vaddr count st =
        some (.ok (), { st with pages := pages, stats := st.stats.unmapped count }) ∧
      PagesRestored ops.source hidden st.kernelPml4 before pages ∧
      ∀ frame, IsTable st.kernelPml4 (hideSlots hidden pages.mem) frame ↔
        IsTable st.kernelPml4 (hideSlots hidden st.pages.mem) frame := by
  obtain ⟨pages, done, restored, sameTables⟩ :=
    raised.takeBack returns inside aligned tree visible
  have boundary : ¬vaddr &&& (pageSize - 1) ≠ 0 := by
    rw [not_not, land_pageSize]
    exact aligned
  refine ⟨pages, ?_, restored, sameTables⟩
  rw [vmmFreePages, ready, if_neg (by decide), if_neg (by omega), if_neg boundary, done]
  rfl

/-- What a failed call has to restore: translations, data frames and counters. -/
@[grind] structure VmmState.Restored (source : FrameSource Alloc) (hidden : Nat → Prop)
    [DecidablePred hidden] (before after : VmmState Alloc) : Prop where
  pages : PagesRestored source hidden before.kernelPml4 before.pages after.pages
  stats : vmmGetStats after = vmmGetStats before

variable {after : VmmState Alloc}

theorem VmmState.Restored.mappedPages (restored : VmmState.Restored ops.source hidden st after)
    (ready : st.initialized = true) (later : after.initialized = true) :
    after.stats.mappedPages = st.stats.mappedPages := by
  have same := restored.stats
  rw [vmmGetStats, vmmGetStats, ready, later] at same
  exact congrArg VmmStats.mappedPages (Option.some.inj same)

variable {pages : PageState Alloc}

/-- The rollback takes the mapped pages away from the counters, to which they were never added. -/
theorem vmmFreePages_rollback (hint : Nat) {mapped : Nat} (returns : ops.toFrameOps.Returns)
    (tables : KernelTables ops.source hidden st)
    (visible : ∀ j < mapped, Visible hidden st.kernelPml4 (pageAt vaddr j))
    (aligned : vaddr % pageSize = 0) (ready : st.initialized = true) (word : mapped < 2 ^ 64)
    (raised : KernelRaised ops.source hidden st.kernelPml4 vaddr st.pages mapped owned pages) :
    ∃ result after, vmmFreePages ops vaddr mapped
        { st with kernelVirtHint := hint, pages := pages } = some (result, after) ∧
      (VmmState.Restored ops.source hidden st after ↔ mapped = 0) := by
  rcases Nat.eq_zero_or_pos mapped with rfl | positive
  · obtain ⟨after, nothing, restored, _⟩ :=
      raised.takeBack returns tables.inside aligned tables.tree visible
    obtain rfl := Option.some.inj nothing
    refine ⟨.error .invalid, { st with kernelVirtHint := hint, pages := pages }, ?_,
      iff_of_true ⟨restored, rfl⟩ rfl⟩
    rw [vmmFreePages, ready, if_neg (by decide), if_pos rfl]
  · obtain ⟨freed, done, _⟩ := vmmFreePages_takesBack
      { st with kernelVirtHint := hint, pages := pages } returns tables.inside tables.tree visible
      aligned ready positive raised
    refine ⟨_, _, done, iff_of_false (fun restored => ?_) (by omega)⟩
    have same := restored.mappedPages ready ready
    simp only [VmmStats.unmapped, sub64, wrap64] at same
    omega

/-- A loop that stops restores everything exactly if it stops at its first page. -/
theorem vmmAllocLoop_restores (hint : Nat) (returns : ops.toFrameOps.Returns)
    (tables : KernelTables ops.source hidden st) (ready : st.initialized = true)
    (ordinary : SmallFlags flags) (word : count < 2 ^ 64)
    (positive : 0 < count) (aligned : vaddr % pageSize = 0) (address : vaddr < 2 ^ 64)
    (range : PlainRange hidden st vaddr count) :
    ∃ failed pages,
      vmmAllocLoop ops st.kernelPml4 vaddr pageSize flags 0 count st.pages = some (failed, pages) ∧
      (failed = none → ¬PageBlocked ops.source st.kernelPml4 vaddr st.pages) ∧
      ∀ page, failed = some page → ∃ result after,
        vmmFreePages ops vaddr page { st with kernelVirtHint := hint, pages := pages } =
          some (result, after) ∧
        (VmmState.Restored ops.source hidden st after ↔
          PageBlocked ops.source st.kernelPml4 vaddr st.pages) := by
  obtain ⟨failed, mapped, owned, pages, looped, raised, outcome, first⟩ :=
    vmmAllocLoop_outcome returns tables range ordinary aligned address positive
  refine ⟨failed, pages, looped, ?_, ?_⟩
  · rintro rfl
    rw [← first]
    simp
  · rintro page rfl
    rcases outcome with ⟨all, _⟩ | ⟨stopped, early⟩
    · cases all
    obtain rfl := Option.some.inj stopped
    obtain ⟨result, after, freed, restored⟩ := vmmFreePages_rollback hint returns tables
      (fun j before => (range j (by omega)).1) aligned ready (by omega) raised
    grind

/-- A failing allocation restores translations, data frames and counters exactly if it fails before
its second page: without pages, without a place for them, or at a first page that is blocked. -/
theorem vmmAlloc_restores_iff (returns : ops.toFrameOps.Returns)
    (tables : KernelTables ops.source hidden st) (ready : st.initialized = true)
    (no2mb : flags.testBit 5 = false) (no1gb : flags.testBit 6 = false) (word : count < 2 ^ 64)
    (address : vaddr < 2 ^ 64) :
    ((∀ found, (findFreeVirtRange (wrap64 (count * pageSize)) st).1 = some found →
        PlainRange hidden st found count) →
      ∃ answer after, vmmAllocPages ops count flags st = some (answer, after) ∧
        (answer = 0 → (VmmState.Restored ops.source hidden st after ↔
          count = 0 ∨ ∀ found, (findFreeVirtRange (wrap64 (count * pageSize)) st).1 = some found →
            PageBlocked ops.source st.kernelPml4 found st.pages))) ∧
    (PlainRange hidden st vaddr count →
      ∃ result after, vmmAllocPagesAt ops vaddr count flags st = some (result, after) ∧
        (result ≠ .ok () → (VmmState.Restored ops.source hidden st after ↔
          count = 0 ∨ vaddr % pageSize ≠ 0 ∨ vmmIsKernelAddr vaddr = false ∨
            PageBlocked ops.source st.kernelPml4 vaddr st.pages))) := by
  have size := vmapPageSize_small ⟨no2mb, no1gb⟩
  have unchanged : VmmState.Restored ops.source hidden st st :=
    ⟨⟨fun _ _ => rfl, fun _ => Iff.rfl⟩, rfl⟩
  constructor
  · intro ranges
    rcases Nat.eq_zero_or_pos count with rfl | positive
    · refine ⟨0, st, ?_, fun _ => iff_of_true unchanged (.inl rfl)⟩
      rw [vmmAllocPages, ready, if_neg (by decide), if_pos rfl]
    rw [vmmAllocPages, ready, if_neg (by decide), if_neg (by omega), size]
    dsimp only
    rcases findFreeVirtRange_cases (wrap64 (count * pageSize)) st with missing | ⟨found, located⟩
    · rw [missing]
      grind
    have here : (findFreeVirtRange (wrap64 (count * pageSize)) st).1 = some found :=
      congrArg Prod.fst located
    obtain ⟨aligned, address⟩ := findFreeVirtRange_aligned here
    obtain ⟨failed, pages, looped, mapped, stopped⟩ :=
      vmmAllocLoop_restores (wrap64 (found + wrap64 (count * pageSize))) returns tables ready
        ⟨no2mb, no1gb⟩ word positive aligned address (ranges found here)
    have blocked : (count = 0 ∨ ∀ other, (findFreeVirtRange (wrap64 (count * pageSize)) st).1 =
        some other → PageBlocked ops.source st.kernelPml4 other st.pages) ↔
        PageBlocked ops.source st.kernelPml4 found st.pages := by
      grind
    rw [blocked]
    simp only [located, looped, Option.bind_eq_bind, Option.bind_some]
    cases failed with
    | none =>
      refine ⟨found, _, rfl, fun _ => iff_of_false (fun restored => ?_) (mapped rfl)⟩
      have same := restored.mappedPages ready ready
      simp only [VmmState.recordPages, VmmStats.mapped, wrap64] at same
      omega
    | some page =>
      obtain ⟨result, after, freed, restored⟩ := stopped page rfl
      refine ⟨0, after, ?_, fun _ => restored⟩
      simp only [freed, Option.bind_some]
  · intro range
    rw [vmmAllocPagesAt, if_neg (by simp [ready])]
    rcases Nat.eq_zero_or_pos count with rfl | positive
    · grind
    rw [if_neg (by omega), size]
    dsimp only
    rw [land_pageSize]
    by_cases aligned : vaddr % pageSize = 0
    swap
    · rw [if_pos aligned]
      grind
    rw [if_neg (not_not.mpr aligned)]
    cases kernel : vmmIsKernelAddr vaddr with
    | false =>
      exact ⟨_, st, rfl, fun _ => iff_of_true unchanged (.inr (.inr (.inl rfl)))⟩
    | true =>
    obtain ⟨failed, pages, looped, mapped, stopped⟩ :=
      vmmAllocLoop_restores st.kernelVirtHint returns tables ready ⟨no2mb, no1gb⟩ word positive aligned
        address range
    have blocked : (count = 0 ∨ vaddr % pageSize ≠ 0 ∨ true = false ∨
        PageBlocked ops.source st.kernelPml4 vaddr st.pages) ↔
        PageBlocked ops.source st.kernelPml4 vaddr st.pages := by
      simp [aligned, Nat.pos_iff_ne_zero.mp positive]
    rw [blocked, if_neg (by decide)]
    simp only [looped, Option.bind_eq_bind, Option.bind_some]
    cases failed with
    | none => exact ⟨.ok (), _, rfl, fun differs => absurd rfl differs⟩
    | some page =>
      grind

theorem scantBoot_tables : KernelTables pframeSource (fun _ => False) (vmmInit 0x100000 scantBoot) ∧
    ∀ vaddr, hardwareWalk 0x100000 vaddr (vmmInit 0x100000 scantBoot).pages.mem = none := by
  have zero : ∀ i : Fin 512, (vmmInit 0x100000 scantBoot).pages.mem (entryAt 0x100000 i) = 0 := by
    decide +kernel
  have used : pframeSource.inUse (vmmInit 0x100000 scantBoot).pages.frames 0x100000 :=
    ⟨256, by decide +kernel, by decide, by decide +kernel⟩
  have seen : hideSlots (fun _ => False) (vmmInit 0x100000 scantBoot).pages.mem =
      (vmmInit 0x100000 scantBoot).pages.mem := funext fun _ => hideSlots_apart id
  obtain ⟨tree, _, walks, _⟩ := pageTree_of_empty zero (by decide) (by decide) (by decide) used
  exact ⟨⟨fun _ slot => slot.elim, seen.symm ▸ tree⟩, walks⟩

/-- Two pages for which there are frames for one are taken back, but the state is not restored. -/
theorem vmmAlloc_restores_iff_scant :
    ∃ after, vmmAllocPages pframeVmmFrames 2 0 (vmmInit 0x100000 scantBoot) = some (0, after) ∧
      ¬VmmState.Restored pframeSource (fun _ => False) (vmmInit 0x100000 scantBoot) after := by
  obtain ⟨tables, walks⟩ := scantBoot_tables
  have place : (findFreeVirtRange (wrap64 (2 * pageSize)) (vmmInit 0x100000 scantBoot)).1 =
      some 0xFFFFFFFF89000000 := by decide +kernel
  obtain ⟨answer, after, done, restored⟩ := (@vmmAlloc_restores_iff _ _ _ pframeVmmFrames _ 0 2 0
    pframeOps_returns tables rfl (by decide) (by decide) (by decide) (by decide)).1 (by
      intro found _ i _
      refine ⟨id, ?_⟩
      rintro ⟨entry, wide⟩
      cases (walks _).symm.trans wide)
  have failed : (vmmAllocPages pframeVmmFrames 2 0 (vmmInit 0x100000 scantBoot)).map Prod.fst =
      some 0 := by decide +kernel
  rw [done] at failed
  obtain rfl := Option.some.inj failed
  refine ⟨after, done, fun back => ?_⟩
  -- There are frames for the first page and its three tables.
  have enough : pframeSource.grants 4 (vmmInit 0x100000 scantBoot).pages.frames = true := by
    decide +kernel
  have missing : missingBelow (vmmInit 0x100000 scantBoot).pages.mem 0x100000
      (upperPath 0xFFFFFFFF89000000) = 3 := by decide +kernel
  rcases (restored rfl).mp back with none | blocked
  · cases none
  · rcases granted : pframeSource.alloc (vmmInit 0x100000 scantBoot).pages.frames with
      ⟨_ | fresh, frames⟩
    · rw [FrameSource.grants, granted] at enough
      cases enough
    · rw [FrameSource.grants, granted] at enough
      rcases blocked _ place fresh frames granted with mapped | short
      · exact mapped (walks _)
      · cases enough.symm.trans (missing ▸ short)

/-- Two pages for which there are frames for one: the rollback counts a page that was never added. -/
theorem vmmAlloc_uncounted :
    ∃ after, vmmAllocPages pframeVmmFrames 2 0 (vmmInit 0x100000 scantBoot) = some (0, after) ∧
      vmmGetStats (vmmInit 0x100000 scantBoot) = some ⟨0, 0, 0, 0, 0⟩ ∧
      vmmGetStats after = some ⟨0, 2 ^ 64 - 1, 2 ^ 64 - 1, 0, 0⟩ := by
  have run : (vmmAllocPages pframeVmmFrames 2 0 (vmmInit 0x100000 scantBoot)).any (fun result =>
      result.1 = 0 ∧ vmmGetStats result.2 = some ⟨0, 2 ^ 64 - 1, 2 ^ 64 - 1, 0, 0⟩) = true := by
    decide +kernel
  obtain ⟨⟨answer, after⟩, done, holds⟩ := (Option.any_eq_true _ _).mp run
  obtain ⟨rfl, stats⟩ := of_decide_eq_true holds
  exact ⟨after, done, by decide, stats⟩

/-- No huge page lies in the area for general allocations. -/
@[grind =] def VmmState.PlainArea (st : VmmState Alloc) : Prop :=
  ∀ vaddr, kernelGeneralBase ≤ vaddr → vaddr < kernelGeneralMax → ∀ entry level,
    hardwareWalk st.kernelPml4 vaddr st.pages.mem = some (entry, level) → level = 0

/-- What freeing pages right after their allocation has to bring back. -/
@[grind] structure Undone (source : FrameSource Alloc) (hidden : Nat → Prop) [DecidablePred hidden]
    (vaddr count : Nat) (before between after : VmmState Alloc) : Prop where
  unmapped : ∀ i < count, hardwareWalk before.kernelPml4 (pageAt vaddr i) after.pages.mem = none
  others : ∀ other, Visible hidden before.kernelPml4 other →
    (∀ i < count, pageNumber other ≠ pageNumber (pageAt vaddr i)) →
    hardwareWalk before.kernelPml4 other after.pages.mem =
      hardwareWalk before.kernelPml4 other before.pages.mem
  freed : ∀ frame, DataFrame source hidden before.kernelPml4 between.pages frame →
    ¬source.inUse before.pages.frames frame → ¬source.inUse after.pages.frames frame
  mappedPages : after.stats.mappedPages = before.stats.mappedPages
  kernelPages : after.stats.kernelPages = before.stats.kernelPages

theorem pageNumber_pageAt (vaddr page : Nat) :
    pageNumber (pageAt vaddr page) = (vaddr / 2 ^ 12 + page) % 2 ^ 36 := by
  simp only [pageNumber, pageAt, wrap64, Nat.shiftRight_eq_div_pow, pageSize, pageShift]
  omega

theorem exists_left_out (vaddr inner : Nat) (fewer : count < 2 ^ 18) :
    ∃ other, pml4Index other = pml4Index inner ∧ pdptIndex other = pdptIndex inner ∧
      ∀ j < count, pageNumber other ≠ pageNumber (pageAt vaddr j) := by
  have inside (page : Nat) (low : page < 2 ^ 18) :
      pml4Index (inner / 2 ^ 30 * 2 ^ 30 + page * 2 ^ 12) = pml4Index inner ∧
      pdptIndex (inner / 2 ^ 30 * 2 ^ 30 + page * 2 ^ 12) = pdptIndex inner := by
    constructor
    · apply Fin.ext
      simp only [pml4Index, tableIndex_val]
      omega
    · apply Fin.ext
      simp only [pdptIndex, tableIndex_val]
      omega
  have number (page : Nat) : pageNumber (inner / 2 ^ 30 * 2 ^ 30 + page * 2 ^ 12) =
      (inner / 2 ^ 30 * 2 ^ 18 + page) % 2 ^ 36 := by
    simp only [pageNumber, Nat.shiftRight_eq_div_pow]
    omega
  -- The first and the last page of the 1 GiB page are too far apart to be both in the range.
  by_cases first : ∀ j < count, pageNumber (inner / 2 ^ 30 * 2 ^ 30 + 0 * 2 ^ 12) ≠
      pageNumber (pageAt vaddr j)
  · have same := inside 0 (by omega)
    exact ⟨_, same.1, same.2, first⟩
  · push Not at first
    obtain ⟨j, early, same⟩ := first
    have last := inside (2 ^ 18 - 1) (by omega)
    refine ⟨_, last.1, last.2, fun k before equal => ?_⟩
    rw [number, pageNumber_pageAt] at same equal
    omega

variable {between : VmmState Alloc}

theorem Undone.outside (undone : Undone ops.source hidden vaddr count st between after)
    (fewer : count < 2 ^ 18)
    (visible : ∀ i < count, Visible hidden st.kernelPml4 (pageAt vaddr i)) :
    ∀ i < count, ¬st.InGigabytePage (pageAt vaddr i) := by
  rintro i early ⟨entry, wide⟩
  obtain ⟨other, top, next, apart⟩ := exists_left_out vaddr (pageAt vaddr i) fewer
  have seen : Visible hidden st.kernelPml4 other := by
    rw [Visible, top]
    exact visible i early
  -- The two addresses share their way to the entry.
  have shared (mem : PhysMem) : hardwareWalk st.kernelPml4 other mem = some (entry, 2) ↔
      hardwareWalk st.kernelPml4 (pageAt vaddr i) mem = some (entry, 2) := by
    rw [hardwareWalk_gigabyte, hardwareWalk_gigabyte, top, next]
  grind

/-- An allocation that succeeds has mapped all its pages and recorded them. -/
theorem vmmAllocPages_success
    (allocated : vmmAllocPages ops count flags st = some (vaddr, between)) (nonzero : vaddr ≠ 0)
    (size : vmapPageSize flags = pageSize) :
    st.initialized = true ∧ 0 < count ∧
      (findFreeVirtRange (wrap64 (count * pageSize)) st).1 = some vaddr ∧
      ∃ hint pages,
        vmmAllocLoop ops st.kernelPml4 vaddr pageSize flags 0 count st.pages = some (none, pages) ∧
        between = VmmState.recordPages { st with kernelVirtHint := hint } vaddr count pageSize flags
          pages := by
  unfold vmmAllocPages at allocated
  split at allocated
  · cases allocated
  rename_i ready
  split at allocated
  · cases allocated
    exact absurd rfl nonzero
  rename_i positive
  rw [size] at allocated
  simp only at allocated
  rcases findFreeVirtRange_cases (wrap64 (count * pageSize)) st with missing | ⟨found, located⟩
  · grind
  have answer := congrArg Prod.fst located
  rw [located] at allocated
  obtain ⟨⟨failed, pages⟩, looped, last⟩ := Option.bind_eq_some_iff.mp allocated
  cases failed with
  | none =>
    grind
  | some page =>
    obtain ⟨_, _, last⟩ := Option.bind_eq_some_iff.mp last
    cases last
    exact absurd rfl nonzero

/-- Freeing pages right after their allocation undoes it, as long as no page outside the area for
general allocations lies in a 1 GiB page; for less than 1 GiB only then. -/
theorem vmmAlloc_undone_iff {between : VmmState Alloc} (returns : ops.toFrameOps.Returns)
    (tables : KernelTables ops.source hidden st) (area : st.PlainArea)
    (no2mb : flags.testBit 5 = false) (no1gb : flags.testBit 6 = false) (word : count < 2 ^ 64)
    (mappedWord : st.stats.mappedPages < 2 ^ 64) (kernelWord : st.stats.kernelPages < 2 ^ 64)
    (allocated : vmmAllocPages ops count flags st = some (vaddr, between)) (nonzero : vaddr ≠ 0)
    (visible : ∀ i < count, Visible hidden st.kernelPml4 (pageAt vaddr i)) :
    ((∀ i < count, ¬(kernelGeneralBase ≤ pageAt vaddr i ∧ pageAt vaddr i < kernelGeneralMax) →
        ¬st.InGigabytePage (pageAt vaddr i)) →
      ∃ after, vmmFreePages ops vaddr count between = some (.ok (), after) ∧
        Undone ops.source hidden vaddr count st between after) ∧
    (count < 2 ^ 18 → ∀ result after,
      vmmFreePages ops vaddr count between = some (result, after) →
      Undone ops.source hidden vaddr count st between after →
      ∀ i < count, ¬st.InGigabytePage (pageAt vaddr i)) := by
  refine ⟨fun outside => ?_, fun fewer result after _ undone => undone.outside fewer visible⟩
  obtain ⟨ready, positive, found, hint, pages, looped, rfl⟩ :=
    vmmAllocPages_success allocated nonzero (vmapPageSize_small ⟨no2mb, no1gb⟩)
  obtain ⟨aligned, address⟩ := findFreeVirtRange_aligned found
  have range : PlainRange hidden st vaddr count := by
    grind
  obtain ⟨failed, mapped, owned, last, again, raised, outcome, _⟩ :=
    vmmAllocLoop_outcome returns tables range ⟨no2mb, no1gb⟩ aligned address positive
  obtain ⟨rfl, rfl⟩ := Prod.mk.inj (Option.some.inj (looped.symm.trans again))
  obtain rfl : mapped = count := by
    grind
  obtain ⟨freed, done, restored, sameTables⟩ := vmmFreePages_takesBack
    (VmmState.recordPages { st with kernelVirtHint := hint } vaddr mapped pageSize flags pages)
    returns tables.inside tables.tree visible aligned ready positive raised
  refine ⟨_, done, ⟨fun i early => ?_, fun other seen _ => restored.walks other seen,
    fun frame data unused used => ?_, ?_, ?_⟩⟩
  · -- A page that was mapped by the loop had no translation before.
    have absent := raised.memory.owned.alone _ ((raised.domain _).mpr ⟨i, early, rfl⟩)
    rw [hardwareWalk_hide tables.inside tables.tree (visible i early)] at absent
    exact (restored.walks _ (visible i early)).trans absent
  · exact unused ((restored.data frame).mp ⟨used, fun table =>
      data.2 ((sameTables frame).mp table)⟩).1
  · simp only [VmmState.recordPages, VmmStats.mapped, VmmStats.unmapped, sub64, wrap64]
    omega
  · simp only [VmmState.recordPages, VmmStats.mapped, VmmStats.unmapped, sub64, wrap64]
    omega

/-- One page is allocated at boot and freed again. -/
theorem vmmAlloc_undone_iff_once :
    ∃ between after,
      vmmAllocPages pframeVmmFrames 1 0 (vmmInit 0x100000 scantBoot) =
        some (0xFFFFFFFF89000000, between) ∧
      vmmFreePages pframeVmmFrames 0xFFFFFFFF89000000 1 between = some (.ok (), after) ∧
      Undone pframeSource (fun _ => False) 0xFFFFFFFF89000000 1 (vmmInit 0x100000 scantBoot) between
        after := by
  obtain ⟨tables, walks⟩ := scantBoot_tables
  have run : (vmmAllocPages pframeVmmFrames 1 0 (vmmInit 0x100000 scantBoot)).any
      (fun result => result.1 = 0xFFFFFFFF89000000) = true := by
    decide +kernel
  obtain ⟨⟨vaddr, between⟩, allocated, here⟩ := (Option.any_eq_true _ _).mp run
  obtain rfl : vaddr = 0xFFFFFFFF89000000 := of_decide_eq_true here
  obtain ⟨after, freed, undone⟩ := (@vmmAlloc_undone_iff _ (fun _ => False) _ pframeVmmFrames _ _ 1 0 _
    pframeOps_returns tables (fun vaddr _ _ entry level walked => by
      cases (walks vaddr).symm.trans walked)
    (by decide) (by decide) (by decide) (by decide) (by decide) allocated (by decide)
    (fun _ _ => id)).1 (by
      rintro i _ _ ⟨entry, wide⟩
      cases (walks _).symm.trans wide)
  exact ⟨between, after, allocated, freed, undone⟩

/-- The entry of the PDPT for the area for general allocations. -/
def VmmState.areaEntry (st : VmmState Alloc) : Nat :=
  st.pages.mem (entryAt (entryAddr (st.pages.mem (entryAt st.kernelPml4 511))) 510)

theorem VmmState.plainArea_of_entries (pointer : ptePat st.areaEntry = false)
    (directory : ∀ i : Fin 512, ptePat (st.pages.mem (entryAt (entryAddr st.areaEntry) i)) = false) :
    st.PlainArea := by
  intro vaddr above below entry level walked
  have top : pml4Index vaddr = 511 := by
    apply Fin.ext
    rw [pml4Index, tableIndex_val]
    change vaddr / 2 ^ 39 % 512 = 511
    have start : kernelGeneralBase = 0xFFFFFFFF88000000 := rfl
    have stop : kernelGeneralMax = 0xFFFFFFFF90000000 := rfl
    omega
  have next : pdptIndex vaddr = 510 := by
    apply Fin.ext
    rw [pdptIndex, tableIndex_val]
    change vaddr / 2 ^ 30 % 512 = 510
    have start : kernelGeneralBase = 0xFFFFFFFF88000000 := rfl
    have stop : kernelGeneralMax = 0xFFFFFFFF90000000 := rfl
    omega
  rw [VmmState.areaEntry] at pointer directory
  simp only [hardwareWalk, top, next, pointer, directory] at walked
  grind

/-- The virtual memory manager before the initialisation, with a 1 GiB page below the kernel's
regions. -/
def gigabyteBoot : VmmState ReadyPframe where
  kernelPml4 := 0
  stats := ⟨0, 0, 0, 0, 0⟩
  regions := []
  kernelVirtHint := kernelGeneralBase
  initialized := false
  pages := (pageMapPage pframeSource 0x100000 0xFFFFFFFF00000000 0x40000000 vmapFlagHuge1gb true
    (pageCreateTable pframeSource ⟨fun _ => 0, tightPframe, []⟩).2).2

/-- A failing request for almost 2^52 pages leaves the hint at the 1 GiB page, the next page is put
there, and freeing it leaves the address mapped. -/
theorem vmmAlloc_not_undone :
    ∃ st between after,
      vmmAllocPages pframeVmmFrames (2 ^ 52 - 557056) 0 (vmmInit 0x100000 gigabyteBoot) =
        some (0, st) ∧ st.PlainArea ∧
      vmmAllocPages pframeVmmFrames 1 0 st = some (0xFFFFFFFF00000000, between) ∧
      vmmFreePages pframeVmmFrames 0xFFFFFFFF00000000 1 between = some (.ok (), after) ∧
      ¬Undone pframeSource (fun _ => False) 0xFFFFFFFF00000000 1 st between after := by
  have run : (vmmAllocPages pframeVmmFrames (2 ^ 52 - 557056) 0 (vmmInit 0x100000 gigabyteBoot)).any
      (fun first => first.1 = 0 ∧ (ptePat first.2.areaEntry = false ∧
          ∀ i : Fin 512, ptePat (first.2.pages.mem (entryAt (entryAddr first.2.areaEntry) i)) = false) ∧
        (vmmAllocPages pframeVmmFrames 1 0 first.2).any fun second =>
          second.1 = 0xFFFFFFFF00000000 ∧
          (vmmFreePages pframeVmmFrames 0xFFFFFFFF00000000 1 second.2).any fun third =>
            third.1.isOk ∧ (hardwareWalk first.2.kernelPml4 0xFFFFFFFF00000000
              third.2.pages.mem).isSome) = true := by
    decide +kernel
  obtain ⟨⟨answer, st⟩, failed, holds⟩ := (Option.any_eq_true _ _).mp run
  obtain ⟨rfl, ⟨pointer, directory⟩, rest⟩ := of_decide_eq_true holds
  obtain ⟨⟨vaddr, between⟩, allocated, holds⟩ := (Option.any_eq_true _ _).mp rest
  obtain ⟨rfl, rest⟩ := of_decide_eq_true holds
  obtain ⟨⟨result, after⟩, freed, holds⟩ := (Option.any_eq_true _ _).mp rest
  obtain ⟨fine, mapped⟩ := of_decide_eq_true holds
  obtain rfl : result = .ok () := by
    cases result with
    | ok => rfl
    | error => cases fine
  refine ⟨st, between, after, failed, st.plainArea_of_entries pointer directory, allocated, freed,
    fun undone => ?_⟩
  have here : pageAt 0xFFFFFFFF00000000 0 = 0xFFFFFFFF00000000 := by decide
  grind

end Ccos
