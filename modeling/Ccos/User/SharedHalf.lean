import Ccos.Lib.Run
import Ccos.User.UserSpace
import Ccos.Vmm.PageEdit
import Ccos.Vmm.PageStores

/-! The kernel half that every address space shares: spaces are made at any time, pages come and go
below the kernel's PML4 and in the user halves, and the shared slots keep one meaning. -/

namespace Ccos

open Lib

variable {Alloc : Type} {source : FrameSource Alloc} {depth : Nat → Nat → Prop}
  {st : PageState Alloc}

section Create

variable {kernel pml4 : Nat} {after : PageState Alloc}
  (levels : PageLevels (source.inUse st.frames) st.mem depth)
  (created : vmmCreateUserSpace source kernel st = (some pml4, after))
include levels created

theorem PageLevels.created_entry {target k : Nat} (is : depth target k) (i : Fin 512) :
    after.mem (entryAt target i) = st.mem (entryAt target i) := by
  obtain ⟨unused, _, aligned, _, _, _, others⟩ := vmmCreateUserSpace_new created
  obtain ⟨_, targetAligned, _, targetUsed⟩ := levels.tables target k is
  -- A table that was in use is not the new one, which was not.
  apply others
  intro page
  have inside := entryAt_inside target i
  obtain rfl : target = pml4 := by
    simp only [pageSize, pageShift] at *
    omega
  exact unused targetUsed

theorem PageLevels.created_walk {root : Nat} (rooted : depth root 0) (vaddr : Nat) :
    hardwareWalk root vaddr after.mem = hardwareWalk root vaddr st.mem :=
  SameEntries.walk (fun _ _ i _ reached =>
    levels.created_entry created (levels.descend rooted (by omega) reached) i) vaddr

theorem LevelStep.createUserSpace (rooted : depth kernel 0) :
    LevelStep source depth (fun table k => depth table k ∨ table = pml4 ∧ k = 0) st after ∧
      ∀ index : Fin 512, 256 ≤ index.val →
        after.mem (entryAt pml4 index) = st.mem (entryAt kernel index) := by
  obtain ⟨_, kernelAligned, _, kernelUsed⟩ := levels.tables kernel 0 rooted
  have entry {table k : Nat} (is : depth table k) := levels.created_entry created is
  obtain ⟨unused, nonzero, aligned, _, used, lower, _⟩ := vmmCreateUserSpace_new created
  have copied (index : Fin 512) (high : 256 ≤ index.val) :
      after.mem (entryAt pml4 index) = st.mem (entryAt kernel index) :=
    vmmCreateUserSpace_copied created kernelUsed kernelAligned index.val high index.isLt
  have old {k : Nat} : ¬depth pml4 k := fun was => unused (levels.tables pml4 k was).2.2.2
  -- An entry of the new PML4 is one of the kernel's, or zero.
  have either (index : Fin 512) : after.mem (entryAt pml4 index) = st.mem (entryAt kernel index) ∨
      after.mem (entryAt pml4 index) = 0 := by
    by_cases high : 256 ≤ index.val
    · exact .inl (copied index high)
    · exact .inr (lower index.val (by omega))
  refine ⟨⟨⟨?_, ?_, ?_, ?_, ?_⟩, fun _ _ => .inl,
    fun _ _ index _ is _ link => by rwa [entry is index], fun root index is _ => entry is index⟩,
    copied⟩
  · rintro table k l (was | ⟨rfl, rfl⟩) (also | ⟨same, rfl⟩)
    · exact levels.single table k l was also
    all_goals grind
  · rintro table k (was | ⟨rfl, _⟩)
    · obtain ⟨positive, page, low, taken⟩ := levels.tables table k was
      exact ⟨positive, page, low, (used table).mpr (.inl taken)⟩
    grind
  · rintro table k index (was | ⟨rfl, _⟩) high bit
    · rw [entry was] at bit ⊢
      exact levels.absent table k index was high bit
    · rcases either index with same | zero
      · rw [same] at bit ⊢
        exact levels.absent kernel 0 index rooted (by omega) bit
      · rw [zero]
        rfl
  · rintro table k index next (was | ⟨rfl, rfl⟩) high link
    · rw [entry was] at link
      exact .inl (levels.child table k index next was high link)
    · rcases either index with same | zero
      · rw [same] at link
        exact .inl (levels.child kernel 0 index next rooted (by omega) link)
      · rw [zero] at link
        cases link
  · rintro root index (was | ⟨rfl, _⟩) present
    · rw [entry was] at present ⊢
      exact levels.top root index was present
    · rcases either index with same | zero
      · rw [same] at present ⊢
        exact levels.top kernel index rooted present
      · rw [zero]
        rfl

end Create

/-- The physical memory with the PML4s of all address spaces made so far. -/
structure SpaceSession (Alloc : Type) where
  pages : PageState Alloc
  spaces : List Nat

/-- A call that makes an address space, or maps or unmaps a page below a PML4. -/
inductive SpaceCall
  | create
  | map (pml4 vaddr paddr flags : Nat) (allocMissing : Bool)
  | unmap (pml4 vaddr : Nat) (freeTable : Bool)

/-- The PML4s of a session: that of the kernel and those of the address spaces. -/
@[grind =]
def SpaceSession.Root (kernel : Nat) (session : SpaceSession Alloc) (pml4 : Nat) : Prop :=
  pml4 = kernel ∨ pml4 ∈ session.spaces

/-- No huge page covers an address. -/
@[grind =] def NoHugePage (root vaddr : Nat) (mem : PhysMem) : Prop :=
  ∀ entry level, hardwareWalk root vaddr mem = some (entry, level) → level = 0

theorem NoHugePage.path {root vaddr : Nat} {mem : PhysMem} (plain : NoHugePage root vaddr mem) :
    SmallPath mem root vaddr := by
  -- A huge page on the path would be where the processor's walk stops.
  have stops {front back : List (Fin 512)} {table : Nat} {index : Fin 512}
      (split : pagePath vaddr = front ++ index :: back) (more : back ≠ [])
      (near : back.length ≤ 2) (reached : tableAt mem root front = some table)
      (present : ptePresent (mem (entryAt table index)) = true) :
      ptePat (mem (entryAt table index)) = false := by
    cases size : ptePat (mem (entryAt table index)) with
    | false => rfl
    | true =>
      obtain ⟨second, tail, rfl⟩ := List.exists_cons_of_ne_nil more
      have walked : hardwareWalk root vaddr mem =
          some (mem (entryAt table index), (second :: tail).length) := by
        have slot : pageLayout.slot table index = entryAt table index := rfl
        rw [hardwareWalk_eq, split, RadixLayout.stop_append reached (by simp), RadixLayout.stop,
          slot, child_of_huge size]
        simp [leafOf, present, size, show tail.length + 1 ≤ 2 from near]
      have := plain _ _ walked
      cases this
  exact ⟨fun table reached => stops rfl (by simp) (by simp) reached,
    fun table reached => stops rfl (by simp) (by simp) reached⟩

instance (root vaddr : Nat) (mem : PhysMem) : Decidable (NoHugePage root vaddr mem) :=
  decidable_of_iff ((hardwareWalk root vaddr mem).all (·.2 = 0) = true) (by
    unfold NoHugePage
    cases hardwareWalk root vaddr mem with
    | none => simp
    | some found => simp [Prod.ext_iff])

/-- A page may be mapped or unmapped anywhere below the kernel's PML4 and in the user half of an
address space, where no huge page covers the address. -/
@[grind =]
def SpaceSession.MayTouch (kernel : Nat) (session : SpaceSession Alloc) (pml4 vaddr : Nat) : Prop :=
  (pml4 = kernel ∨ pml4 ∈ session.spaces ∧ (pml4Index vaddr).val < 256) ∧
    NoHugePage pml4 vaddr session.pages.mem

/-- Pages are of 4 KiB, at addresses that may be touched. -/
def SpaceCall.Plain (kernel : Nat) (session : SpaceSession Alloc) : SpaceCall → Prop
  | .create => True
  | .map pml4 vaddr _ flags _ =>
    session.MayTouch kernel pml4 vaddr ∧ flags.testBit 5 = false ∧ flags.testBit 6 = false
  | .unmap pml4 vaddr _ => session.MayTouch kernel pml4 vaddr

def SpaceCall.perform (source : FrameSource Alloc) (kernel : Nat) (session : SpaceSession Alloc) :
    SpaceCall → SpaceSession Alloc
  | .create =>
    match vmmCreateUserSpace source kernel session.pages with
    | (some pml4, pages) => ⟨pages, pml4 :: session.spaces⟩
    | (none, pages) => ⟨pages, session.spaces⟩
  | .map pml4 vaddr paddr flags allocMissing =>
    ⟨(pageMapPage source pml4 vaddr paddr flags allocMissing session.pages).2, session.spaces⟩
  | .unmap pml4 vaddr freeTable =>
    ⟨(pageUnmapPage pml4 vaddr freeTable session.pages).2, session.spaces⟩

@[grind =]
def SpaceSession.Step (source : FrameSource Alloc) (kernel : Nat) (before : SpaceSession Alloc)
    (call : SpaceCall) (after : SpaceSession Alloc) : Prop :=
  call.Plain kernel before ∧ call.perform source kernel before = after

/-- The tables of all PML4s of a session are in shape. -/
@[grind =] def SpaceSession.WellFormed (source : FrameSource Alloc) (kernel : Nat)
    (session : SpaceSession Alloc) : Prop :=
  ∃ depth, PageLevels (source.inUse session.pages.frames) session.pages.mem depth ∧
    ∀ pml4, session.Root kernel pml4 → depth pml4 0

variable {kernel : Nat} {before after : SpaceSession Alloc} {call : SpaceCall}

theorem SpaceSession.Step.keeps (taken : SpaceSession.Step source kernel before call after)
    (sound : before.WellFormed source kernel) :
    after.WellFormed source kernel ∧ (∀ pml4 ∈ before.spaces, pml4 ∈ after.spaces) ∧
      ∀ pml4 index, before.Root kernel pml4 →
        ptePresent (before.pages.mem (entryAt pml4 index)) = true →
        after.pages.mem (entryAt pml4 index) = before.pages.mem (entryAt pml4 index) := by
  obtain ⟨plain, rfl⟩ := taken
  obtain ⟨depth, levels, roots⟩ := sound
  -- An address that may be touched lies below one of the PML4s.
  have rooted {pml4 vaddr : Nat} (touch : before.MayTouch kernel pml4 vaddr) : depth pml4 0 :=
    roots pml4 (touch.1.imp id And.left)
  -- A step after which the same PML4s are there.
  have stays {later : Nat → Nat → Prop} {pages : PageState Alloc}
      (step : LevelStep source depth later before.pages pages) :
      SpaceSession.WellFormed source kernel ⟨pages, before.spaces⟩ ∧
        (∀ pml4 ∈ before.spaces, pml4 ∈ before.spaces) ∧
        ∀ pml4 index, before.Root kernel pml4 →
          ptePresent (before.pages.mem (entryAt pml4 index)) = true →
          pages.mem (entryAt pml4 index) = before.pages.mem (entryAt pml4 index) :=
    ⟨⟨later, step.levels, fun pml4 is => step.grows pml4 0 (roots pml4 is)⟩, fun _ is => is,
      fun pml4 index is => step.kept pml4 index (roots pml4 is)⟩
  cases call with
  | create =>
    unfold SpaceCall.perform
    rcases created : vmmCreateUserSpace source kernel before.pages with ⟨_ | pml4, pages⟩
    · obtain ⟨frames, rfl, used⟩ := vmmCreateUserSpace_refused created
      exact stays (.still levels rfl fun frame => (used frame).mpr)
    · obtain ⟨step, _⟩ := LevelStep.createUserSpace levels created (roots kernel (.inl rfl))
      refine ⟨⟨_, step.levels, ?_⟩, fun _ member => List.mem_cons_of_mem _ member,
        fun pml4 index is => step.kept pml4 index (roots pml4 is)⟩
      grind
  | map pml4 vaddr paddr flags allocMissing =>
    have outside : ¬InGiantPage before.pages.mem pml4 vaddr := by
      rintro ⟨table, reached, present, huge, _⟩
      exact absurd (plain.1.2.path.pointer table reached present) (by simp [huge])
    obtain ⟨later, step⟩ :=
      pageMapPage_wrote levels (rooted plain.1) paddr allocMissing (.inr outside)
    exact stays step.toLevelStep
  | unmap pml4 vaddr freeTable =>
    exact stays (pageUnmapPage_wrote levels (rooted plain) freeTable plain.2.path).toLevelStep

section

variable {calls : List SpaceCall} (run : Run (SpaceSession.Step source kernel) before calls after)
  (sound : before.WellFormed source kernel)
include run sound

theorem SpaceSession.run_wellFormed : after.WellFormed source kernel :=
  run.preserves (SpaceSession.WellFormed source kernel)
    (fun _ _ _ taken held => (taken.keeps held).1) sound

theorem SpaceSession.run_kept {pml4 : Nat} (rooted : before.Root kernel pml4) {index : Fin 512}
    (present : ptePresent (before.pages.mem (entryAt pml4 index)) = true) :
    after.pages.mem (entryAt pml4 index) = before.pages.mem (entryAt pml4 index) := by
  -- A present entry stays present, so the next call keeps it again.
  induction run with
  | nil => rfl
  | cons taken _ ih =>
    obtain ⟨still, spaces, kept⟩ := taken.keeps sound
    grind

end

/-- A slot of the kernel half that was present when an address space was made has one meaning in
that space and in the kernel's tables ever after. -/
theorem sharedSlot_translates {start first last : SpaceSession Alloc} {calls more : List SpaceCall}
    {pml4 : Nat} {created : PageState Alloc} (sound : start.WellFormed source kernel)
    (early : Run (SpaceSession.Step source kernel) start calls first)
    (made : vmmCreateUserSpace source kernel first.pages = (some pml4, created))
    (late : Run (SpaceSession.Step source kernel) ⟨created, pml4 :: first.spaces⟩ more last)
    {vaddr : Nat} (high : 256 ≤ (pml4Index vaddr).val)
    (present : ptePresent (first.pages.mem (entryAt kernel (pml4Index vaddr))) = true) :
    hardwareWalk pml4 vaddr last.pages.mem = hardwareWalk kernel vaddr last.pages.mem ∧
      pageVirtToPhys pml4 vaddr last.pages.mem = pageVirtToPhys kernel vaddr last.pages.mem := by
  have before := SpaceSession.run_wellFormed early sound
  have taken : SpaceSession.Step source kernel first .create ⟨created, pml4 :: first.spaces⟩ :=
    ⟨trivial, by simp only [SpaceCall.perform, made]⟩
  obtain ⟨joined, _, kept⟩ := taken.keeps before
  obtain ⟨depth, levels, roots⟩ := before
  obtain ⟨_, copied⟩ := LevelStep.createUserSpace levels made (roots kernel (.inl rfl))
  -- Both entries are the one that was present, and no later call changes either.
  have shared := copied _ high
  have kernels := kept kernel _ (.inl rfl) present
  have own := SpaceSession.run_kept late joined (.inr List.mem_cons_self) (by rwa [shared])
  have theirs := SpaceSession.run_kept late joined (.inl rfl) (by rwa [kernels])
  have same : last.pages.mem (entryAt pml4 (pml4Index vaddr)) =
      last.pages.mem (entryAt kernel (pml4Index vaddr)) := by
    rw [own, theirs, shared, kernels]
  simp only [hardwareWalk, pageVirtToPhys, pageQuery, same, and_self]

/-- The kernel's tables with one page at the start of its half. -/
def oneKernelPage : SpaceSession ReadyPframe :=
  ⟨(pageMapPage pframeSource 0x100000 0xFFFF800000000000 0x200000 1 true emptyPml4).2, []⟩

/-- A kernel page that is mapped after a space was made is seen in that space. -/
theorem sharedSlot_translates_later :
    ∃ pml4 created last, vmmCreateUserSpace pframeSource 0x100000 oneKernelPage.pages =
        (some pml4, created) ∧
      Run (SpaceSession.Step pframeSource 0x100000) ⟨created, [pml4]⟩
        [.map 0x100000 0xFFFF800000001000 0x201000 1 true] last ∧
      hardwareWalk pml4 0xFFFF800000001000 last.pages.mem =
        hardwareWalk 0x100000 0xFFFF800000001000 last.pages.mem := by
  have empty : (pageCreateTable pframeSource zeroedState).1 = .ok 0x100000 := by decide +kernel
  obtain ⟨tree, small, _⟩ := pageCreateTable_tree (Prod.ext empty rfl)
  obtain ⟨edit, _⟩ := @pageMapPage_edit _ pframeSource 0x100000 emptyPml4 0xFFFF800000000000 0x200000
    1 _ tree (small.along (by simp)) (by decide) rfl
  have sound : oneKernelPage.WellFormed pframeSource 0x100000 := by
    rw [SpaceSession.WellFormed, oneKernelPage]
    refine ⟨_, edit.tree.levels, fun root also => ?_⟩
    obtain rfl : root = 0x100000 := also.resolve_right (by simp)
    exact ⟨by omega, [], rfl, rfl⟩
  have granted : (vmmCreateUserSpace pframeSource 0x100000 oneKernelPage.pages).1.isSome := by
    decide +kernel
  rcases made : vmmCreateUserSpace pframeSource 0x100000 oneKernelPage.pages with ⟨answer, created⟩
  rw [made] at granted
  obtain ⟨pml4, rfl⟩ := Option.isSome_iff_exists.mp granted
  -- No huge page covers the address before the space is made, so none does afterwards.
  have plain : NoHugePage 0x100000 0xFFFF800000001000 created.mem := by
    have before : NoHugePage 0x100000 0xFFFF800000001000 oneKernelPage.pages.mem := by
      decide +kernel
    obtain ⟨depth, levels, roots⟩ := sound
    rwa [NoHugePage, levels.created_walk made (roots _ (.inl rfl))]
  have run : Run (SpaceSession.Step pframeSource 0x100000) ⟨created, [pml4]⟩
      [.map 0x100000 0xFFFF800000001000 0x201000 1 true] _ :=
    .cons ⟨⟨⟨.inl rfl, plain⟩, by decide, by decide⟩, rfl⟩ (.nil _)
  have present : ptePresent (oneKernelPage.pages.mem
      (entryAt 0x100000 (pml4Index 0xFFFF800000001000))) = true := by decide +kernel
  exact ⟨pml4, created, _, rfl, run,
    (sharedSlot_translates sound (.nil _) made run (by decide) present).1⟩

end Ccos
