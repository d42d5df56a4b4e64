import Ccos.Vmm.Cow
import Ccos.Vmm.PageLevels
import Ccos.Vmm.PageRefine
import Ccos.Vmm.Translate

/-! What a copy-on-write fault leaves behind when its handler reports success. -/

namespace Ccos

open Lib

section Mapped

variable {mem : PhysMem} {root vaddr entry : Nat}

theorem hardwareWalk_small (walked : hardwareWalk root vaddr mem = some (entry, 0)) :
    ∃ pdpt pd pt, pageLayout.child (mem (entryAt root (pml4Index vaddr))) = some pdpt ∧
      pageLayout.child (mem (entryAt pdpt (pdptIndex vaddr))) = some pd ∧
      pageLayout.child (mem (entryAt pd (pdIndex vaddr))) = some pt ∧
      mem (entryAt pt (ptIndex vaddr)) = entry ∧ ptePresent entry = true := by
  simp only [hardwareWalk] at walked
  -- Each level must be present and have no page-size bit for the walk to reach the last one.
  split at walked
  · cases walked
  rename_i top
  simp only [Bool.or_eq_true, Bool.not_eq_true', not_or, Bool.not_eq_true,
    Bool.not_eq_false] at top
  split at walked
  · cases walked
  rename_i pointerPresent
  split at walked
  · cases walked
  rename_i pointerSize
  split at walked
  · cases walked
  rename_i directoryPresent
  split at walked
  · cases walked
  rename_i directorySize
  split at walked
  · cases walked
  rename_i leafPresent
  simp only [Bool.not_eq_true', Bool.not_eq_false, Bool.not_eq_true, Option.some.injEq,
    Prod.mk.injEq, and_true] at *
  subst walked
  exact ⟨_, _, _, child_of_link top.1 top.2, child_of_link pointerPresent pointerSize,
    child_of_link directoryPresent directorySize, rfl, leafPresent⟩

end Mapped

variable {Alloc Heap : Type*} {source : FrameSource Alloc} {root : Nat} {st : PageState Alloc}
  {entry : Nat}

theorem walkOrCreate_link (source : FrameSource Alloc) {next : Nat}
    (link : pageLayout.child (st.mem entry) = some next) (low : next < 2 ^ 40) (nonzero : next ≠ 0)
    (allocMissing : Bool) : walkOrCreate source entry allocMissing st = (.ok next, st) := by
  have address := pteAddr_of_child link low
  rw [walkOrCreate_old (by rwa [address]), address]

variable {vaddr : Nat} {depth : Nat → Nat → Prop}

/-- No request maps an address that a 4 KiB page maps already, and the attempt changes nothing. -/
theorem pageMapPage_mapped (source : FrameSource Alloc) {inUse : Nat → Prop}
    (levels : PageLevels inUse st.mem depth) (rooted : depth root 0)
    (walked : hardwareWalk root vaddr st.mem = some (entry, 0)) (paddr flags : Nat)
    (allocMissing : Bool) :
    ∃ code, pageMapPage source root vaddr paddr flags allocMissing st = (.error code, st) := by
  obtain ⟨pdpt, pd, pt, first, second, third, rfl, leaf⟩ := hardwareWalk_small walked
  -- The three tables have their depths, so none of them is at address zero.
  have pdptIs := levels.child root 0 _ pdpt rooted (by omega) first
  have pdIs := levels.child pdpt 1 _ pd pdptIs (by omega) second
  have ptIs := levels.child pd 2 _ pt pdIs (by omega) third
  obtain ⟨pdptNonzero, _, pdptLow, _⟩ := levels.tables pdpt _ pdptIs
  obtain ⟨pdNonzero, _, pdLow, _⟩ := levels.tables pd _ pdIs
  obtain ⟨ptNonzero, _, ptLow, _⟩ := levels.tables pt _ ptIs
  have firstWalk := walkOrCreate_link source first pdptLow pdptNonzero allocMissing
  have secondWalk := walkOrCreate_link source second pdLow pdNonzero allocMissing
  have thirdWalk := walkOrCreate_link source third ptLow ptNonzero allocMissing
  obtain ⟨pointerPresent, _⟩ := child_eq_some second
  obtain ⟨directoryPresent, directorySize, _⟩ := child_eq_some third
  unfold pageMapPage
  extract_lets use2mb use1gb pageAlign pteFlags
  by_cases both : use2mb ∧ use1gb
  · exact ⟨_, if_pos both⟩
  rw [if_neg both]
  by_cases unaligned : vaddr &&& pageAlign ≠ 0
  · exact ⟨_, if_pos unaligned⟩
  rw [if_neg unaligned]
  by_cases unaligned : paddr &&& pageAlign ≠ 0
  · exact ⟨_, if_pos unaligned⟩
  rw [if_neg unaligned]
  -- At every page size the entry of the request is present.
  rw [firstWalk]
  simp only
  split
  · exact ⟨.alreadyMapped, rfl⟩
  · rw [secondWalk]
    simp only
    split
    · exact ⟨.alreadyMapped, rfl⟩
    · rw [if_neg (by simp [directorySize]), thirdWalk]
      exact ⟨.alreadyMapped, by simp only [leaf, if_true]⟩

variable {fresh : Nat} {frames : Alloc}

section

variable (levels : PageLevels (source.inUse st.frames) st.mem depth)
  (granted : source.alloc st.frames = (some fresh, frames))
include levels granted

theorem PageLevels.copyPage_entry {table k : Nat} (is : depth table k) (origin : Nat)
    (i : Fin 512) : (PageState.copyPage { st with frames := frames } fresh origin).mem
      (entryAt table i) = st.mem (entryAt table i) := by
  obtain ⟨_, aligned, _, used⟩ := levels.tables table k is
  exact if_neg (source.entry_apart granted aligned used i)

/-- A copy into a new frame changes no table. -/
theorem PageLevels.copyPage (origin : Nat) : PageLevels (source.inUse frames)
    (PageState.copyPage { st with frames := frames } fresh origin).mem depth := by
  obtain ⟨_, _, _, _, used⟩ := source.fresh _ _ _ granted
  refine ⟨levels.single, fun table k is => ?_, fun table k i is => ?_, fun table k i next is => ?_,
    fun table i is => ?_⟩
  · obtain ⟨nonzero, aligned, low, taken⟩ := levels.tables table k is
    exact ⟨nonzero, aligned, low, (used table).mpr (.inl taken)⟩
  · rw [levels.copyPage_entry granted is]
    exact levels.absent table k i is
  · rw [levels.copyPage_entry granted is]
    exact levels.child table k i next is
  · rw [levels.copyPage_entry granted is]
    exact levels.top table i is

end

/-- The reference count that the tracking table holds for a frame, zero when it is not tracked. -/
def CowState.trackedCount (cow : CowState) (phys : Nat) : Int :=
  (cowLookupBlock cow phys).elim 0 CowBlock.refcount

/-- What a handled fault should leave: the page of the address is mapped writable and private, with
its old permissions and contents, the count fell exactly if the page was copied, and every other
translation of every address space stays. -/
@[grind] structure CowResolved (spaces : List Nat) (root faultAddr entry : Nat)
    (before after : CowWorld Alloc Heap) (newEntry : Nat) : Prop where
  mapped : hardwareWalk root faultAddr after.page.mem = some (newEntry, 0)
  writable : newEntry.testBit 1 = true
  notCow : newEntry.testBit 9 = false
  user : newEntry.testBit 2 = entry.testBit 2
  noExec : newEntry.testBit 63 = entry.testBit 63
  contents : ∀ offset < pageSize, offset % 8 = 0 →
    after.page.mem (entryAddr newEntry + offset) = before.page.mem (entryAddr entry + offset)
  owned : ∀ space ∈ spaces, space ≠ root → ∀ vaddr phys,
    hardwareTranslate space vaddr after.page.mem = some phys →
    ¬(entryAddr newEntry ≤ phys ∧ phys < entryAddr newEntry + pageSize)
  counted : after.cow.trackedCount (entryAddr entry) =
      before.cow.trackedCount (entryAddr entry) - 1 ↔ entryAddr newEntry ≠ entryAddr entry
  others : ∀ space ∈ spaces, ∀ vaddr,
    (space = root → pageNumber vaddr ≠ pageNumber faultAddr) →
    hardwareWalk space vaddr after.page.mem = hardwareWalk space vaddr before.page.mem

/-- The fault reaches the code that copies the page: the subsystem runs, the frame is tracked with
a count other than one, and a frame is granted. -/
@[grind =]
def CopiesOnFault (source : FrameSource Alloc) (world : CowWorld Alloc Heap) (phys : Nat) : Prop :=
  world.cow.initialized = true ∧
    ∃ block, cowLookupBlock world.cow phys = some block ∧ block.refcount ≠ 1 ∧
      ∃ fresh frames, source.alloc world.page.frames = (some fresh, frames)

variable {world : CowWorld Alloc Heap}

theorem cowMakeWritable_fails {inUse : Nat → Prop} (levels : PageLevels inUse st.mem depth)
    (rooted : depth root 0) (walked : hardwareWalk root vaddr st.mem = some (entry, 0))
    (phys : Nat) :
    cowMakeWritable source root vaddr phys st = (.error .invalid, st) := by
  simp only [cowMakeWritable]
  cases pageQuery root vaddr st.mem with
  | error _ => rfl
  | ok query =>
    obtain ⟨code, refused⟩ := pageMapPage_mapped source levels rooted walked phys
      (cowClearCowFlag (query.flags ||| pageWrite)) false
    simp only [refused]

/-- A granted copy reports success, although the old entry still maps the page. -/
theorem cowCopyOnWrite_granted (kernel : KernelHeap Heap) (cow : CowState) (heap : Heap)
    (levels : PageLevels (source.inUse st.frames) st.mem depth) (rooted : depth root 0)
    (walked : hardwareWalk root vaddr st.mem = some (entry, 0)) (phys : Nat)
    (granted : source.alloc st.frames = (some fresh, frames)) :
    (cowCopyOnWrite source kernel root vaddr phys ⟨st, cow, heap⟩).1 = .ok () ∧
      hardwareWalk root vaddr
        (cowCopyOnWrite source kernel root vaddr phys ⟨st, cow, heap⟩).2.page.mem =
          some (entry, 0) := by
  have copied := SameEntries.walk (fun _ _ i short reached =>
    levels.copyPage_entry granted (levels.descend rooted (by omega) reached) phys i) vaddr
  -- The mapping call meets the present entry, so it fails and its result is dropped.
  obtain ⟨code, refused⟩ := pageMapPage_mapped source
    (levels.copyPage granted phys) rooted (copied.trans walked) fresh (cowCopyFlags (pageQuery root vaddr
      (PageState.copyPage { st with frames := frames } fresh phys).mem)) false
  simp only [cowCopyOnWrite, granted]
  grind

/-- A fault on a read-only 4 KiB page with the copy-on-write bit either copies the page or fails. -/
theorem cowHandleFault_cases (kernel : KernelHeap Heap)
    (levels : PageLevels (source.inUse world.page.frames) world.page.mem depth)
    (rooted : depth root 0) {faultAddr : Nat}
    (walked : hardwareWalk root faultAddr world.page.mem = some (entry, 0))
    (readonly : entry.testBit 1 = false) (marked : entry.testBit 9 = true) :
    (¬CopiesOnFault source world (pteAddr entry) ∧
      (cowHandleFault source kernel root faultAddr world).1 ≠ .ok ()) ∨
    CopiesOnFault source world (pteAddr entry) ∧
      (cowHandleFault source kernel root faultAddr world).1 = .ok () ∧
      hardwareWalk root faultAddr
        (cowHandleFault source kernel root faultAddr world).2.page.mem = some (entry, 0) := by
  obtain ⟨pdpt, _, _, first, _⟩ := hardwareWalk_small walked
  have asked : pageQuery root faultAddr world.page.mem = .ok (queryEntry entry false) := by
    rw [pageQuery_hardwareWalk (levels.lowTables rooted faultAddr) (levels.top _ _ rooted), walked]
    rfl
  have flags : ¬((entry &&& 0xFFF) &&& pageWrite ≠ 0 ∨
      !cowIsCowPage (entry &&& 0xFFF)) := by
    rw [show pageWrite = 1 <<< 1 from rfl, land_bit_ne_zero, cowIsCowPage]
    simp only [show cowFlagMask = 1 <<< 9 from rfl, land_bit_ne_zero, Nat.testBit_and, readonly,
      marked]
    decide
  simp only [cowHandleFault, CopiesOnFault]
  cases ready : world.cow.initialized with
  | false => exact .inl ⟨by simp, by simp⟩
  | true =>
    have untouched (stats : CowStats) :
        cowLookupBlock { world.cow with stats := stats, initialized := true } (pteAddr entry) =
          cowLookupBlock world.cow (pteAddr entry) := by
      rw [← ready]
      rfl
    simp only [asked, queryEntry, flags, if_false, untouched]
    cases tracked : cowLookupBlock world.cow (pteAddr entry) with
    | none => exact .inl ⟨by simp, by simp⟩
    | some block =>
      by_cases one : block.refcount = 1
      · -- A count of one asks for a mapping in place, which is refused.
        refine .inl ⟨by simp [one], ?_⟩
        simp only [one, if_true, cowMakeWritable_fails levels rooted walked]
        simp
      · cases granted : source.alloc world.page.frames with
        | mk result frames =>
          cases result with
          | none =>
            refine .inl ⟨by simp, ?_⟩
            simp [one, cowCopyOnWrite, granted]
          | some fresh =>
            refine .inr ⟨⟨trivial, block, rfl, one, fresh, frames, rfl⟩, ?_⟩
            simp only [one, if_false, Bool.not_true, Bool.false_eq_true]
            exact cowCopyOnWrite_granted kernel _ _ levels rooted walked (pteAddr entry) granted

/-- The handler keeps its promise exactly for the faults that it does not report as handled by a
copy, because the copy never replaces the entry that is still present. -/
theorem cowHandleFault_resolves_iff (kernel : KernelHeap Heap) (spaces : List Nat)
    (levels : PageLevels (source.inUse world.page.frames) world.page.mem depth)
    (rooted : depth root 0) {faultAddr entry : Nat}
    (walked : hardwareWalk root faultAddr world.page.mem = some (entry, 0))
    (readonly : entry.testBit 1 = false) (marked : entry.testBit 9 = true) :
    ((cowHandleFault source kernel root faultAddr world).1 = .ok () →
      ∃ newEntry, CowResolved spaces root faultAddr entry world
        (cowHandleFault source kernel root faultAddr world).2 newEntry) ↔
    ¬CopiesOnFault source world (pteAddr entry) := by
  rcases cowHandleFault_cases kernel levels rooted walked readonly marked with
    ⟨elsewhere, failed⟩ | ⟨copies, succeeded, kept⟩
  -- The page is still mapped by the old entry, which is not writable.
  all_goals grind

/-- Marking a page read-only keeps a well-formed tree without huge pages. -/
theorem cowMarkPageReadonly_tree (tree : PageTree (source.inUse st.frames) st.mem root)
    (small : SmallPages st.mem root) (vaddr : Nat) :
    PageTree (source.inUse (cowMarkPageReadonly root vaddr st).2.frames)
        (cowMarkPageReadonly root vaddr st).2.mem root ∧
      SmallPages (cowMarkPageReadonly root vaddr st).2.mem root := by
  simp only [cowMarkPageReadonly]
  cases pageQuery root vaddr st.mem with
  | error _ => exact ⟨tree, small⟩
  | ok _ =>
    rcases walk_cases (tree.lowTables vaddr) (tree.top _) (small.path vaddr) with
      ⟨_, ended, _⟩ | ⟨table, reached, walked⟩
    · rw [ended]
      exact ⟨tree, small⟩
    · rw [walked]
      -- Both stores go into the same last-level entry, whose table stays in place.
      have cleared := PageEdit.store (.refl tree) reached
        (st.mem (entryAt table (ptIndex vaddr)) &&& not64 pageWrite)
      have marked := PageEdit.store (.refl cleared.tree)
        ((tree.tableAt_write reached (by simp) (.inl (by simp)) (by simp)).trans reached)
      exact ⟨(marked _).tree, (marked _).small (cleared.small small)⟩

/-- Registering the pages of a region keeps a well-formed tree without huge pages. -/
theorem cowRegisterPages_tree (kernel : KernelHeap Heap) (base remaining : Nat) :
    ∀ (page : Nat) (world : CowWorld Alloc Heap),
      PageTree (source.inUse world.page.frames) world.page.mem root →
      SmallPages world.page.mem root →
      PageTree (source.inUse (cowRegisterPages kernel root base page remaining world).page.frames)
          (cowRegisterPages kernel root base page remaining world).page.mem root ∧
        SmallPages (cowRegisterPages kernel root base page remaining world).page.mem root := by
  induction remaining with
  | zero => exact fun _ _ tree small => ⟨tree, small⟩
  | succ remaining ih =>
    intro page world tree small
    simp only [cowRegisterPages]
    -- A page that is not mapped is skipped, and the others are marked.
    cases pageQuery root (wrap64 (base + wrap64 (page * pageSize))) world.page.mem with
    | error _ => exact ih _ _ tree small
    | ok _ =>
      obtain ⟨marked, markedSmall⟩ := cowMarkPageReadonly_tree tree small
        (wrap64 (base + wrap64 (page * pageSize)))
      exact ih _ _ marked markedSmall

/-- A heap that hands out consecutive records of 64 bytes. -/
def recordHeap : KernelHeap Nat where
  kmalloc := fun _ next => (some next, next + 64)
  kfree := fun _ next => next

/-- One address space that maps the page at 0x400000 and registers it as copy-on-write. -/
def registeredSpace (root : Nat) (world : CowWorld ReadyPframe Nat) : CowWorld ReadyPframe Nat :=
  let created := (pageCreateTable pframeSource world.page).2
  let mapped := (pageMapPage pframeSource root 0x400000 0x7000 3 true created).2
  (cowRegisterRegion recordHeap root 0x400000 0x1000 { world with page := mapped }).2

/-- The world after initialisation. -/
def startedCow : CowWorld ReadyPframe Nat where
  page := zeroedState
  cow := ⟨fun _ => [], [], ⟨0, 0, 0, 0, 0, 0⟩, true⟩
  heap := 0xFFFFFFFF81000030

/-- Two address spaces that share the page. -/
def sharedWorld : CowWorld ReadyPframe Nat :=
  registeredSpace 0x104000 (registeredSpace 0x100000 startedCow)

/-- A fault on the shared page is reported as handled, and the page is still read-only. -/
theorem cowHandleFault_unresolved :
    hardwareWalk 0x104000 0x400000 sharedWorld.page.mem = some (0x7205, 0) ∧
    (cowHandleFault pframeSource recordHeap 0x104000 0x400000 sharedWorld).1 = .ok () ∧
    ∀ newEntry, ¬CowResolved [0x100000, 0x104000] 0x104000 0x400000 0x7205 sharedWorld
      (cowHandleFault pframeSource recordHeap 0x104000 0x400000 sharedWorld).2 newEntry := by
  refine ⟨by decide +kernel, by decide +kernel, fun newEntry resolved => ?_⟩
  have kept : hardwareWalk 0x104000 0x400000
      (cowHandleFault pframeSource recordHeap 0x104000 0x400000 sharedWorld).2.page.mem =
        some (0x7205, 0) := by decide +kernel
  grind

theorem registeredSpace_tree {world : CowWorld ReadyPframe Nat}
    (granted : (pageCreateTable pframeSource world.page).1 = .ok root) :
    PageTree (pframeSource.inUse (registeredSpace root world).page.frames)
      (registeredSpace root world).page.mem root := by
  obtain ⟨tree, small, _⟩ := pageCreateTable_tree (Prod.fst_eq_iff.mp granted)
  -- Mapping and registering a 4 KiB page keep a tree without huge pages.
  generalize mapped : pageMapPage pframeSource root 0x400000 0x7000 3 true _ = call at *
  obtain ⟨edit, _⟩ := pageMapPage_edit tree (small.along (by simp)) (by decide) mapped
  have registered := cowRegisterPages_tree recordHeap 0x400000 (0x1000 / pageSize) 0
    { world with page := call.2 } edit.tree (edit.small small)
  simp only [registeredSpace, mapped, cowRegisterRegion]
  iterate 3
    split
    · exact edit.tree
  split
  · exact registered.1
  · exact registered.1

/-- The promise fails for a fault anywhere in the shared page. -/
theorem cowHandleFault_resolves_iff_shared :
    ¬((cowHandleFault pframeSource recordHeap 0x104000 0x400123 sharedWorld).1 = .ok () →
      ∃ newEntry, CowResolved [0x100000, 0x104000] 0x104000 0x400123 0x7205 sharedWorld
        (cowHandleFault pframeSource recordHeap 0x104000 0x400123 sharedWorld).2 newEntry) := by
  have tree : PageTree (pframeSource.inUse sharedWorld.page.frames) sharedWorld.page.mem
      0x104000 := by
    unfold sharedWorld
    exact registeredSpace_tree (by decide +kernel)
  rw [cowHandleFault_resolves_iff recordHeap [0x100000, 0x104000] tree.levels
    ⟨by omega, [], rfl, rfl⟩ (by decide +kernel) (by decide) (by decide), not_not]
  exact ⟨by decide +kernel, ⟨0xFFFFFFFF81000030, 0x7000, 4⟩, by decide +kernel, by decide,
    0x108000, _, Prod.fst_eq_iff.mp (by decide +kernel)⟩

end Ccos
