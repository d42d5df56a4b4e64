import Ccos.Mm.PframeLaws
import Ccos.User.Memory
import Ccos.Vmm.PageRefine
import Ccos.Vmm.Translate

/-! Which translations and frames an unmapping request of a process can take away. -/

namespace Ccos

open Lib

/-- A path that starts below the kernel half of the PML4. -/
def LowPath (path : List (Fin 512)) : Prop :=
  ∀ first ∈ path.head?, first.val < 256

/-- The page tables of a process: the low half has no huge pages, no entry of its last-level tables
is an entry of any other table, and its tables and pages lie below 2^40, where the code reads their
addresses. The kernel half may share tables with itself. -/
structure UserSpace (mem : PhysMem) (root : Nat) : Prop where
  small : ∀ path table index, path.length ≤ 2 → LowPath path → tableAt mem root path = some table →
    ptePresent (mem (entryAt table index)) = true → ptePat (mem (entryAt table index)) = false
  owned : ∀ path table index, path.length = 3 → LowPath path → tableAt mem root path = some table →
    pageLayout.Owned mem root 3 path index (entryAt table index)
  tables : ∀ path table, path.length ≤ 3 → path ≠ [] → LowPath path →
    tableAt mem root path = some table → table < 2 ^ 40
  pages : ∀ vaddr entry, (pml4Index vaddr).val < 256 →
    hardwareWalk root vaddr mem = some (entry, 0) → entryAddr entry < 2 ^ 40

/-- What unmapping a set of addresses may do to a process: their pages lose their translation, all
other pages keep theirs, and the frames given back are frames of those pages. -/
structure Unmapped (root : Nat) (addrs : Set Nat) (before after : PageState PframeState) :
    Prop where
  space : UserSpace after.mem root
  ready : after.frames.Ready
  top : ∀ index, after.mem (entryAt root index) = before.mem (entryAt root index)
  gone : ∀ vaddr ∈ addrs, ∀ other, pageNumber other = pageNumber vaddr →
    hardwareWalk root other after.mem = none
  kept : ∀ other, (∀ vaddr ∈ addrs, pageNumber other ≠ pageNumber vaddr) →
    hardwareWalk root other after.mem = hardwareWalk root other before.mem
  freed : ∀ frame, before.frames.marked frame = true → after.frames.marked frame = false →
    ∃ vaddr ∈ addrs, ∃ entry, hardwareWalk root vaddr before.mem = some (entry, 0) ∧
      entryAddr entry / pageSize = frame

variable {root : Nat} {st : PageState PframeState}
  {vaddr : Nat} {before after : PageState PframeState}

/-- Unmapping can only take translations away. -/
theorem Unmapped.fewer {addrs : Set Nat} (unmapped : Unmapped root addrs before after)
    {leaf : Nat × Nat} (walked : hardwareWalk root vaddr after.mem = some leaf) :
    hardwareWalk root vaddr before.mem = some leaf := by
  by_cases hit : ∃ target ∈ addrs, pageNumber vaddr = pageNumber target
  · obtain ⟨target, member, same⟩ := hit
    rw [unmapped.gone target member vaddr same] at walked
    cases walked
  · rw [← unmapped.kept vaddr fun target member same => hit ⟨target, member, same⟩]
    exact walked

theorem Unmapped.refl (space : UserSpace st.mem root) (ready : st.frames.Ready) :
    Unmapped root ∅ st st :=
  ⟨space, ready, fun _ => rfl, by simp, fun _ _ => rfl, fun frame marked unmarked => by simp_all⟩

theorem Unmapped.trans {early late : Set Nat} {middle : PageState PframeState}
    (first : Unmapped root early before middle) (second : Unmapped root late middle after) :
    Unmapped root (early ∪ late) before after := by
  refine ⟨second.space, second.ready, fun index => (second.top index).trans (first.top index), ?_,
    fun other apart => ?_, fun frame marked unmarked => ?_⟩
  · rintro vaddr (member | member) other same
    · -- What is gone in the middle cannot come back.
      cases walked : hardwareWalk root other after.mem with
      | none => rfl
      | some leaf =>
        have earlier := second.fewer walked
        rw [first.gone vaddr member other same] at earlier
        cases earlier
    · exact second.gone vaddr member other same
  · rw [second.kept other fun vaddr member => apart vaddr (.inr member),
      first.kept other fun vaddr member => apart vaddr (.inl member)]
  · cases between : middle.frames.marked frame with
    | false =>
      obtain ⟨vaddr, member, entry, walked, same⟩ := first.freed frame marked between
      exact ⟨vaddr, .inl member, entry, walked, same⟩
    | true =>
      obtain ⟨vaddr, member, entry, walked, same⟩ := second.freed frame between unmarked
      exact ⟨vaddr, .inr member, entry, first.fewer walked, same⟩

variable {mem : PhysMem}

theorem lowPath_upperPath (low : (pml4Index vaddr).val < 256) : LowPath (upperPath vaddr) := by
  simpa [LowPath, upperPath] using low

/-- Clearing a low last-level entry keeps the shape of the tables. -/
theorem UserSpace.clear (space : UserSpace mem root) {table : Nat}
    (low : (pml4Index vaddr).val < 256)
    (reached : tableAt mem root (upperPath vaddr) = some table) :
    UserSpace (Function.update mem (entryAt table (ptIndex vaddr)) 0) root := by
  have deepest := upperPath_length vaddr
  have owned := space.owned _ table (ptIndex vaddr) deepest (lowPath_upperPath low) reached
  have same {other : List (Fin 512)} (short : other.length ≤ 3) :
      tableAt (Function.update mem (entryAt table (ptIndex vaddr)) 0) root other =
        tableAt mem root other :=
    RadixLayout.descend_store_short owned (by omega) 0 (by omega)
  refine ⟨fun other target i short lowOther reach present => ?_,
    fun other target i deep lowOther reach => ?_, fun other target short some lowOther reach => ?_,
    fun other entry lowOther walked => ?_⟩
  · -- Upper-level entries have shorter paths than the stored one.
    rw [same (by omega)] at reach
    have apart : entryAt target i ≠ entryAt table (ptIndex vaddr) := by
      intro shared
      obtain ⟨rfl, _⟩ := owned other target i (by omega) reach shared
      omega
    rw [Function.update_of_ne apart] at present ⊢
    exact space.small other target i short lowOther reach present
  · intro another node j short walked shared
    exact space.owned other target i deep lowOther ((same (by omega)).symm.trans reach) another node
      j short ((same short).symm.trans walked) shared
  · rw [same short] at reach
    exact space.tables other target short some lowOther reach
  · -- A page that is still mapped was mapped by the same entry.
    rw [hardwareWalk_store owned reached] at walked
    split at walked
    · cases walked
    · exact space.pages other entry lowOther walked

theorem UserSpace.path (space : UserSpace mem root) (low : (pml4Index vaddr).val < 256) :
    SmallPath mem root vaddr :=
  ⟨fun table reached => space.small _ table _ (by simp) (by simpa [LowPath] using low) reached,
    fun table reached => space.small _ table _ (by simp) (by simpa [LowPath] using low) reached⟩

theorem UserSpace.lowTables (space : UserSpace mem root) (low : (pml4Index vaddr).val < 256) :
    LowTables mem root vaddr := by
  intro path table early some reached
  refine space.tables path table early.length_le some ?_ reached
  -- A path on the way starts as the whole one does.
  obtain ⟨rest, split⟩ := early
  intro first head
  refine lowPath_upperPath low first ?_
  rw [← split, List.head?_append_of_ne_nil _ some]
  exact head

theorem Unmapped.untranslated (space : UserSpace st.mem root) (ready : st.frames.Ready)
    (walked : hardwareWalk root vaddr st.mem = none) : Unmapped root {vaddr} st st := by
  refine ⟨space, ready, fun _ => rfl, ?_, fun _ _ => rfl, fun frame marked unmarked => ?_⟩
  · rintro _ rfl other same
    rw [hardwareWalk_page same, walked]
  · rw [marked] at unmarked
    cases unmarked

/-- Unmapping a page that a low last-level table translates. -/
theorem Unmapped.translated (space : UserSpace st.mem root) {table : Nat}
    (low : (pml4Index vaddr).val < 256)
    (reached : tableAt st.mem root (upperPath vaddr) = some table)
    (present : ptePresent (st.mem (entryAt table (ptIndex vaddr))) = true) {frames : PframeState}
    (ready : frames.Ready)
    (freed : ∀ frame, st.frames.marked frame = true → frames.marked frame = false →
      pteAddr (st.mem (entryAt table (ptIndex vaddr))) / pageSize = frame) :
    Unmapped root {vaddr} st
      (PageState.write { st with frames := frames } (entryAt table (ptIndex vaddr)) 0) := by
  have owned := space.owned _ table (ptIndex vaddr) (upperPath_length vaddr)
    (lowPath_upperPath low) reached
  have walks := hardwareWalk_store owned reached 0
  have walked := hardwareWalk_leaf reached
  rw [if_pos present] at walked
  refine ⟨space.clear low reached, ready, fun index => ?_, ?_, fun other apart => ?_,
    fun frame marked unmarked => ?_⟩
  · -- The entry of a last-level table is no entry of the root.
    refine Function.update_of_ne (fun shared => ?_) _ _
    obtain ⟨empty, _⟩ := owned [] root index (by simp) rfl shared
    simp [upperPath] at empty
  · rintro _ rfl other same
    exact (walks other).trans (by simp [same, ptePresent])
  · exact (walks other).trans (by simp [apart vaddr rfl])
  · -- The page lies below 2^40, so the code frees the frame that the processor used.
    refine ⟨vaddr, rfl, _, walked, ?_⟩
    rw [← pteAddr_of_low (space.pages vaddr _ low walked)]
    exact freed frame marked unmarked

theorem userMunmapPage_unmapped (space : UserSpace st.mem root) (ready : st.frames.Ready)
    (aligned : vaddr % pageSize = 0) (reachable : (pml4Index vaddr).val < 256 ∨
      ptePresent (st.mem (entryAt root (pml4Index vaddr))) = false) :
    ∃ after, userMunmapPage pframeRelease root vaddr st = some after ∧
      Unmapped root {vaddr} st after := by
  -- A page that no walker finds is skipped by both calls.
  have skipped (ended : presentWalk root vaddr st.mem = none)
      (walked : hardwareWalk root vaddr st.mem = none)
      (phys : pageVirtToPhys root vaddr st.mem = .error .notPresent) :
      ∃ after, userMunmapPage pframeRelease root vaddr st = some after ∧
        Unmapped root {vaddr} st after := by
    refine ⟨st, ?_, .untranslated space ready walked⟩
    simp [userMunmapPage, phys, pageUnmapPage, land_pageSize, aligned, ended]
  rcases reachable with low | absent
  swap
  · exact skipped (by simp [presentWalk, absent]) (by simp [hardwareWalk, absent])
      (by simp [pageVirtToPhys, pageQuery, absent])
  have top := space.small [] root (pml4Index vaddr) (by simp) (by simp [LowPath]) rfl
  have phys := pageVirtToPhys_eq (space.lowTables low) top
  rcases walk_cases (space.lowTables low) top (space.path low) with
    ⟨_, ended, unmapped⟩ | ⟨table, reached, walked⟩
  · rw [unmapped] at phys
    exact skipped ended unmapped phys
  rw [hardwareWalk_leaf reached] at phys
  cases present : ptePresent (st.mem (entryAt table (ptIndex vaddr))) with
  | false =>
    rw [present] at phys
    refine ⟨st, ?_, .untranslated space ready (by rw [hardwareWalk_leaf reached]; simp [present])⟩
    simp [userMunmapPage, phys, pageUnmapPage, land_pageSize, aligned, walked, present]
  | true =>
    -- The frame of an aligned address is the address in its entry.
    simp only [present, if_true, aligned, Nat.add_zero] at phys
    have unmap (frames : PframeState) : (pageUnmapPage root vaddr false
        { st with frames := frames }).2 =
        PageState.write { st with frames := frames } (entryAt table (ptIndex vaddr)) 0 := by
      simp [pageUnmapPage, land_pageSize, aligned, walked, present]
    rcases pframeFree_cases ready (pteAddr (st.mem (entryAt table (ptIndex vaddr)))) with
      ⟨code, refused⟩ | ⟨frames, done, remarked⟩
    · refine ⟨_, by
        simp only [userMunmapPage, pframeRelease, phys, refused, Option.map_some]; rfl, ?_⟩
      rw [unmap]
      exact .translated space low reached present ready fun frame marked unmarked => by simp_all
    · refine ⟨_, by simp only [userMunmapPage, pframeRelease, phys, done, Option.map_some]; rfl, ?_⟩
      rw [unmap]
      refine .translated space low reached present remarked.ready fun frame marked unmarked => ?_
      -- Only the frame that was freed lost its mark.
      rw [remarked.marks, marked] at unmarked
      split at unmarked
      · rename_i inside
        simp only [addrToFrame, pageShift, Nat.shiftRight_eq_div_pow] at inside
        simp only [pageSize, pageShift]
        omega
      · cases unmarked

/-- Unmapping consecutive pages unmaps the set of their addresses. -/
theorem userMunmapPages_unmapped (addr : Nat) (alignedStart : addr % pageSize = 0)
    (remaining : Nat) :
    ∀ (page : Nat) (st : PageState PframeState), UserSpace st.mem root → st.frames.Ready →
      (∀ i < remaining, (pml4Index (wrap64 (addr + wrap64 ((page + i) * pageSize)))).val < 256 ∨
        ptePresent (st.mem (entryAt root
          (pml4Index (wrap64 (addr + wrap64 ((page + i) * pageSize)))))) = false) →
      ∃ after, userMunmapPages pframeRelease root addr page remaining st = some after ∧
        Unmapped root {vaddr | ∃ i < remaining,
          vaddr = wrap64 (addr + wrap64 ((page + i) * pageSize))} st after := by
  induction remaining with
  | zero =>
    intro page st space ready _
    refine ⟨st, rfl, ?_⟩
    simpa using Unmapped.refl space ready
  | succ remaining ih =>
    intro page st space ready reachable
    have aligned : wrap64 (addr + wrap64 (page * pageSize)) % pageSize = 0 := by
      simp only [wrap64, pageSize, pageShift] at alignedStart ⊢
      omega
    obtain ⟨middle, taken, first⟩ :=
      userMunmapPage_unmapped space ready aligned (reachable 0 (by omega))
    -- The root entries stay as they are, so the remaining pages are reachable as before.
    obtain ⟨after, rest, second⟩ := ih (page + 1) middle first.space first.ready fun i small => by
      have shifted : page + 1 + i = page + (i + 1) := by omega
      rw [shifted, first.top]
      exact reachable (i + 1) (by omega)
    refine ⟨after, by simp [userMunmapPages, taken, rest], ?_⟩
    have both := first.trans second
    have sets : ({wrap64 (addr + wrap64 (page * pageSize))} ∪
        {vaddr | ∃ i < remaining, vaddr = wrap64 (addr + wrap64 ((page + 1 + i) * pageSize))}) =
        {vaddr | ∃ i < remaining + 1, vaddr = wrap64 (addr + wrap64 ((page + i) * pageSize))} := by
      ext vaddr
      constructor
      · rintro (rfl | ⟨i, small, rfl⟩)
        · exact ⟨0, by omega, rfl⟩
        · exact ⟨i + 1, by omega, by rw [show page + 1 + i = page + (i + 1) by omega]⟩
      · rintro ⟨i, small, rfl⟩
        cases i with
        | zero => exact .inl rfl
        | succ i =>
          exact .inr ⟨i, by omega, by rw [show page + 1 + i = page + (i + 1) by omega]⟩
    rwa [← sets]

/-- A virtual address whose upper bits repeat bit 47. -/
def Canonical (vaddr : Nat) : Prop :=
  vaddr < 2 ^ 47 ∨ 2 ^ 64 - 2 ^ 47 ≤ vaddr ∧ vaddr < 2 ^ 64

/-- An address is translated into a frame. -/
def MapsFrame (root : Nat) (mem : PhysMem) (vaddr frame : Nat) : Prop :=
  ∃ phys, hardwareTranslate root vaddr mem = some phys ∧ phys / pageSize = frame

/-- A frame that kernel addresses map and no user address does. -/
def MappedOnlyOutside (root : Nat) (mem : PhysMem) (frame : Nat) : Prop :=
  (∃ vaddr, Canonical vaddr ∧ vmmIsUserAddr vaddr = false ∧ MapsFrame root mem vaddr frame) ∧
    ∀ vaddr, vmmIsUserAddr vaddr = true → ¬MapsFrame root mem vaddr frame

/-- Everything outside the user addresses is left alone. -/
structure Confined (root : Nat) (before after : PageState PframeState) : Prop where
  translations : ∀ vaddr, Canonical vaddr → vmmIsUserAddr vaddr = false →
    hardwareWalk root vaddr after.mem = hardwareWalk root vaddr before.mem
  frames : ∀ frame, before.frames.marked frame = true → after.frames.marked frame = false →
    ¬MappedOnlyOutside root before.mem frame

theorem vmmIsUserAddr_iff (addr : Nat) :
    vmmIsUserAddr addr = true ↔ userBase ≤ addr ∧ addr < userEnd := by
  simp [vmmIsUserAddr]

theorem Unmapped.confined {addrs : Set Nat} (unmapped : Unmapped root addrs before after)
    (user : ∀ vaddr ∈ addrs, userBase ≤ vaddr ∧ vaddr + pageSize ≤ userEnd ∧ vaddr % pageSize = 0) :
    Confined root before after := by
  refine ⟨fun vaddr canonical outside => ?_, fun frame marked unmarked only => ?_⟩
  · -- A canonical address in one of these pages would be a user address.
    refine unmapped.kept vaddr fun target member same => ?_
    obtain ⟨low, high, aligned⟩ := user target member
    have inside : vmmIsUserAddr vaddr = true := by
      rw [vmmIsUserAddr_iff]
      simp only [userBase, userEnd, pageSize, pageShift, pageNumber,
        Nat.shiftRight_eq_div_pow] at *
      rcases canonical with small | ⟨large, fits⟩ <;> omega
    rw [outside] at inside
    cases inside
  · obtain ⟨vaddr, member, entry, walked, same⟩ := unmapped.freed frame marked unmarked
    obtain ⟨low, high, aligned⟩ := user vaddr member
    have positive : 0 < pageSize := by decide
    refine only.2 vaddr ((vmmIsUserAddr_iff vaddr).mpr ⟨low, by omega⟩)
      ⟨entryAddr entry, ?_, same⟩
    have base := entryAddr_aligned entry
    simp only [hardwareTranslate, walked, Option.map_some, offsetBits, Option.some.injEq]
    simp only [pageSize, pageShift] at base aligned
    omega

theorem roundUpPages_count {length : Nat} (word : length < 2 ^ 64) :
    roundUpPages length / pageSize =
      if 2 ^ 64 - pageSize < length then 0 else (length + pageSize - 1) / pageSize := by
  rw [roundUpPages_eq, Nat.mul_div_cancel _ (by decide : 0 < pageSize)]
  split
  · rename_i top
    simp only [wrap64, pageSize, pageShift] at top ⊢
    omega
  · rename_i fits
    simp only [wrap64, pageSize, pageShift] at fits ⊢
    omega

/-- The page tables of a process whose last user page is mapped. -/
def lastPageTables : PageState ReadyPframe :=
  (pageMapPage pframeSource 0x100000 0x7FFFFFFFF000 0x7000 3 true emptyPml4).2

/-- That process with the frame allocator it uses. -/
def lastPageState : PageState PframeState :=
  ⟨lastPageTables.mem, lastPageTables.frames.st, []⟩

theorem lastPageState_space : UserSpace lastPageState.mem 0x100000 := by
  obtain ⟨tree, small, empty⟩ := pageCreateTable_tree (show pageCreateTable pframeSource
    zeroedState = (.ok 0x100000, emptyPml4) from rfl)
  obtain ⟨edit, _⟩ := @pageMapPage_edit _ pframeSource _ _ 0x7FFFFFFFF000 0x7000 3 _ tree
    (small.along (by simp)) (by decide) rfl
  have plain := edit.small small
  refine ⟨fun path table index short _ => plain path table index short,
    fun _ _ index deepest _ reached => edit.tree.separated.owned (by omega) reached index,
    fun path table short _ _ reached => (edit.tree.tables path table short reached).2.2.1,
    fun vaddr entry _ walked => ?_⟩
  -- Only the last user page is mapped.
  have mapped := (edit.stored (by decide +kernel) vaddr).symm.trans walked
  rw [empty] at mapped
  split at mapped
  · obtain ⟨rfl, _⟩ := Prod.mk.inj (Option.some.inj mapped)
    decide
  · cases mapped

theorem lastPageState_loses {addr length : Nat} (aligned : addr % pageSize = 0)
    (user : vmmIsUserAddr addr = true) (word : length < 2 ^ 64)
    (fits : length ≤ 2 ^ 64 - pageSize) (beyond : userEnd + 1 - pageSize < addr + length)
    (positive : 0 < length) :
    ∃ after, userMunmap pframeRelease (some 0x100000) addr length lastPageState = some (0, after) ∧
      hardwareWalk 0x100000 0x7FFFFFFFFFFF after.mem = none := by
  -- No entry of the kernel half is present, so every page of any range is skipped or low.
  have bare : ∀ index : Fin 512, 256 ≤ index.val →
      ptePresent (lastPageState.mem (entryAt 0x100000 index)) = false := by decide +kernel
  obtain ⟨after, done, unmapped⟩ := userMunmapPages_unmapped addr aligned
    (roundUpPages length / pageSize) 0 lastPageState lastPageState_space
    lastPageTables.frames.ready fun i _ => by
      by_cases low : (pml4Index (wrap64 (addr + wrap64 ((0 + i) * pageSize)))).val < 256
      · exact .inl low
      · exact .inr (bare _ (by omega))
  refine ⟨after, ?_, ?_⟩
  · simp [userMunmap, land_pageSize, aligned, user, done]
  · -- The last user page is one of the pages of the range.
    refine unmapped.gone 0x7FFFFFFFF000 ⟨(0x7FFFFFFFF000 - addr) / pageSize, ?_, ?_⟩ _ (by decide)
    · rw [roundUpPages_count word, if_neg (by omega)]
      rw [vmmIsUserAddr_iff] at user
      simp only [userBase, userEnd, pageSize, pageShift] at *
      omega
    · rw [vmmIsUserAddr_iff] at user
      simp only [wrap64, userBase, userEnd, pageSize, pageShift] at *
      omega

/-- Unmapping is confined for every process exactly when the length covers no page at all, or the
range ends before the page that holds the end of the user addresses. -/
theorem userMunmap_confined_iff {addr length : Nat} (aligned : addr % pageSize = 0)
    (user : vmmIsUserAddr addr = true) (word : length < 2 ^ 64) :
    (∀ root st, UserSpace st.mem root → st.frames.Ready →
      ∃ after, userMunmap pframeRelease (some root) addr length st = some (0, after) ∧
        Confined root st after) ↔
    length = 0 ∨ 2 ^ 64 - pageSize < length ∨ addr + length ≤ userEnd + 1 - pageSize := by
  constructor
  · intro confined
    by_contra outside
    obtain ⟨after, done, kept⟩ := confined 0x100000 lastPageState lastPageState_space
      lastPageTables.frames.ready
    obtain ⟨lost, same, gone⟩ := lastPageState_loses aligned user word (by omega) (by omega)
      (by omega)
    obtain rfl : after = lost := by simpa using done.symm.trans same
    have mapped : hardwareWalk 0x100000 0x7FFFFFFFFFFF lastPageState.mem = some (0x7007, 0) := by
      decide +kernel
    have still := kept.translations 0x7FFFFFFFFFFF (.inl (by decide)) (by decide)
    rw [gone, mapped] at still
    cases still
  · intro inside root st space ready
    -- Every page of the range is a whole page of user addresses.
    have pages : ∀ i < roundUpPages length / pageSize,
        wrap64 (addr + wrap64 ((0 + i) * pageSize)) = addr + i * pageSize ∧
          addr + i * pageSize + pageSize ≤ userEnd := by
      intro i small
      rw [roundUpPages_count word] at small
      split at small
      · omega
      · rename_i fits
        simp only [wrap64, userEnd, pageSize, pageShift] at *
        omega
    have low {vaddr : Nat} (below : vaddr + pageSize ≤ userEnd) : (pml4Index vaddr).val < 256 := by
      rw [pml4Index, tableIndex_val]
      simp only [userEnd, pageSize, pageShift] at below
      omega
    obtain ⟨after, done, unmapped⟩ := userMunmapPages_unmapped addr aligned
      (roundUpPages length / pageSize) 0 st space ready fun i small => by
        rw [(pages i small).1]
        exact .inl (low (pages i small).2)
    refine ⟨after, by simp [userMunmap, land_pageSize, aligned, user, done],
      unmapped.confined ?_⟩
    rintro vaddr ⟨i, small, rfl⟩
    rw [(pages i small).1]
    have lower := ((vmmIsUserAddr_iff addr).mp user).1
    refine ⟨by omega, (pages i small).2, ?_⟩
    simp only [pageSize, pageShift] at aligned ⊢
    omega

/-- Every process can unmap its first two user pages without touching anything else. -/
theorem userMunmap_confined_iff_low : 0x400000 % pageSize = 0 ∧
    ∀ root st, UserSpace st.mem root → st.frames.Ready →
      ∃ after, userMunmap pframeRelease (some root) 0x400000 0x2000 st = some (0, after) ∧
        Confined root st after :=
  ⟨by decide,
    (userMunmap_confined_iff (by decide) (by decide) (by decide)).mpr (.inr (.inr (by decide)))⟩

/-- A process whose kernel half is the direct map that `page_init` sets up. -/
def directMapState : PageState PframeState where
  mem := fun addr =>
    if addr = 0x100000 + 8 * 256 then 0xA003
    else if addr = 0xA000 then 0xB003
    else if addr = 0xB000 then 0xD003
    else if addr = 0xD000 then 0x3
    else lastPageState.mem addr
  frames := lastPageState.frames
  stores := []

/-- A request that starts two pages below the kernel half unmaps the first page of the direct map
and gives physical frame zero back to the allocator. -/
theorem userMunmap_reaches_kernel :
    ∃ after, userMunmap pframeRelease (some 0x100000) 0x7FFFFFFFE000 0x3000 directMapState =
        some (0, after) ∧
      hardwareWalk 0x100000 0xFFFF800000000000 directMapState.mem = some (3, 0) ∧
      hardwareWalk 0x100000 0xFFFF800000000000 after.mem = none ∧
      directMapState.frames.marked 0 = true ∧ after.frames.marked 0 = false ∧
      ¬Confined 0x100000 directMapState after := by
  have computed : (userMunmap pframeRelease (some 0x100000) 0x7FFFFFFFE000 0x3000
      directMapState).map
      (fun result => (result.1, hardwareWalk 0x100000 0xFFFF800000000000 result.2.mem,
        result.2.frames.marked 0)) = some (0, none, false) := by decide +kernel
  have mapped : hardwareWalk 0x100000 0xFFFF800000000000 directMapState.mem = some (3, 0) := by
    decide +kernel
  obtain ⟨⟨reply, after⟩, done, values⟩ := Option.map_eq_some_iff.mp computed
  simp only [Prod.mk.injEq] at values
  obtain ⟨rfl, gone, freed⟩ := values
  refine ⟨after, done, mapped, gone, by decide +kernel, freed, fun confined => ?_⟩
  have still := confined.translations 0xFFFF800000000000 (.inr (by decide)) (by decide)
  rw [gone, mapped] at still
  cases still

end Ccos
