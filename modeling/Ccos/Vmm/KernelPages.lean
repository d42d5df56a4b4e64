import Ccos.User.UserPages
import Ccos.Vmm.KernelSpace

/-! Pages of the kernel with a frame each, and the loops that map and unmap a range of them. -/

namespace Ccos

open Lib

/-- Giving back a frame other than frame zero succeeds, and then that frame is not in use. -/
@[grind =] def FrameOps.Returns {Alloc : Type} (ops : FrameOps Alloc) : Prop :=
  ∀ before addr, addr ≠ 0 → ∃ after, ops.free before addr = some after ∧
    ∀ other, ops.source.inUse after other ↔ ops.source.inUse before other ∧ other ≠ addr

theorem pframeOps_returns : pframeOps.Returns :=
  fun before _ nonzero => before.free_returns nonzero

section Pages

/-- Pages of the kernel that own a frame each, in tables that are seen without the hidden part of the
PML4. -/
@[grind] structure KernelMemory {Alloc : Type} (source : FrameSource Alloc) (hidden : Nat → Prop)
    [DecidablePred hidden] (root : Nat) (others : Nat → Option (Nat × Nat)) (outside : Nat → Prop)
    (pages : UserPages) (st : PageState Alloc) : Prop where
  tree : PageTree (source.inUse st.frames) (hideSlots hidden st.mem) root
  owned : OwnedPages source root others outside pages (st.hide hidden)

variable {Alloc : Type} {source : FrameSource Alloc} {hidden : Nat → Prop} [DecidablePred hidden]
  {root : Nat} {others : Nat → Option (Nat × Nat)} {outside : Nat → Prop} {pages : UserPages}
  {st : PageState Alloc} {vaddr : Nat}

/-- What every step keeps: paths without huge pages, and the tables among certain frames, which are
all frames for an unmapping and those in use before for a mapping. -/
@[grind]
structure PathsKept (hidden : Nat → Prop) [DecidablePred hidden] (root : Nat) (among : Nat → Prop)
    (before after : PageState Alloc) : Prop where
  small : ∀ way : List (Fin 512), way.length ≤ 3 → SmallAlong (hideSlots hidden before.mem) root way →
    SmallAlong (hideSlots hidden after.mem) root way
  tables : ∀ frame, among frame → (IsTable root (hideSlots hidden after.mem) frame ↔
    IsTable root (hideSlots hidden before.mem) frame)

variable {fresh : Nat} {before after : PageState Alloc}

theorem PathsKept.trans {early late : Nat → Prop} (first : PathsKept hidden root early before st)
    (second : PathsKept hidden root late st after) (held : ∀ frame, early frame → late frame) :
    PathsKept hidden root early before after :=
  ⟨fun way short small => second.small way short (first.small way short small), fun frame is =>
    (second.tables frame (held frame is)).trans (first.tables frame is)⟩

/-- Mapping a page with a frame that was granted for it: the page owns the frame afterwards, or the
frame can be given back. -/
theorem KernelMemory.mapPage (memory : KernelMemory source hidden root others outside pages st)
    (inside : HidesIn root hidden) {flags : Nat} {frames : Alloc}
    (visible : Visible hidden root vaddr)
    (upper : SmallAlong (hideSlots hidden st.mem) root [pml4Index vaddr, pdptIndex vaddr])
    (ordinary : SmallFlags flags)
    (aligned : vaddr % pageSize = 0) (granted : source.alloc st.frames = (some fresh, frames)) :
    ∃ result after, pageMapPage source root vaddr fresh flags true { st with frames := frames } =
        (result, after) ∧
      (result = .ok () ↔ hardwareWalk root vaddr st.mem = none ∧
        source.grants (missingBelow st.mem root (upperPath vaddr)) frames = true) ∧
      PathsKept hidden root (source.inUse st.frames) st after ∧
      (result = .ok () →
        SmallAlong (hideSlots hidden after.mem) root (upperPath vaddr) ∧
        KernelMemory source hidden root others outside
          (Function.update pages (pageNumber vaddr) (some (fresh, flags))) after) ∧
      ∀ code, result = .error code → ∀ freed : Alloc,
        (∀ other, source.inUse freed other ↔ source.inUse after.frames other ∧ other ≠ fresh) →
        KernelMemory source hidden root others outside pages { after with frames := freed } := by
  obtain ⟨_, nonzero, freshAligned, fits, used⟩ := source.fresh _ _ _ granted
  obtain ⟨held, free, apart⟩ := memory.owned.granted granted
  -- The call behaves in the same way without the hidden part.
  have tree : PageTree (source.inUse frames) (hideSlots hidden st.mem) root :=
    memory.tree.withUse fun table is => (used table).mpr (.inl (memory.tree.used is))
  have same := @pageMapPage_hide _ source root { st with frames := frames } hidden _ inside tree
    vaddr fresh flags upper visible ordinary
  obtain ⟨edit, success, small, _⟩ := @pageMapPage_edit _ source root
    (({ st with frames := frames } : PageState Alloc).hide hidden) vaddr fresh flags _ tree upper
    ordinary same.eq
  generalize pageMapPage source root vaddr fresh flags true { st with frames := frames } = full at *
  obtain ⟨answer, last⟩ := full
  have built := edit.built
  have missing := missingBelow_hide inside memory.tree (upperPath vaddr) [] root rfl (by simp)
    fun _ _ first => Option.some.inj first ▸ visible
  -- The frame became no table, so the tables stay in use without it.
  have other : ¬IsTable root (hideSlots hidden last.mem) fresh :=
    built.not_table ((used fresh).mpr (.inr rfl)) apart
  refine ⟨answer, last, rfl, ?_,
    ⟨edit.along, fun frame old => built.isTable_iff ((used frame).mpr (.inl old))⟩,
    fun done => ⟨small done, edit.tree, ?_⟩, fun code error freed returned => ⟨?_, ?_⟩⟩
  · rw [← hardwareWalk_hide inside memory.tree visible, ← missing]
    rw [success]
    exact ⟨fun facts => ⟨facts.2.2.1, facts.2.2.2⟩,
      fun facts => ⟨aligned, freshAligned, facts.1, facts.2⟩⟩
  · exact held.adopted free apart ⟨nonzero, freshAligned, fits⟩ (fun _ => edit.tree.used) built
      (success.mp done).2.2.1 (edit.stored done)
  · exact edit.tree.withUse fun table is => (returned table).mpr
      ⟨edit.tree.used is, fun equal => other (equal ▸ is)⟩
  · exact (held.built (fun _ => edit.tree.used) built (edit.failed code error)).released free other
      returned

/-- Unmapping a page of the kernel leaves all other translations and the frames alone. -/
theorem pageUnmapPage_part (inside : HidesIn root hidden)
    (tree : PageTree (source.inUse st.frames) (hideSlots hidden st.mem) root)
    (small : SmallAlong (hideSlots hidden st.mem) root (upperPath vaddr))
    (visible : Visible hidden root vaddr) (aligned : vaddr % pageSize = 0) :
    ∃ result after, pageUnmapPage root vaddr false st = (result, after) ∧
      PageTree (source.inUse after.frames) (hideSlots hidden after.mem) root ∧
      Built source root (st.hide hidden) (after.hide hidden) ∧ after.frames = st.frames ∧
      PathsKept hidden root (fun _ => True) st after ∧
      ∀ other, hardwareWalk root other (hideSlots hidden after.mem) =
        if pageNumber other = pageNumber vaddr then none
        else hardwareWalk root other (hideSlots hidden st.mem) := by
  have same := pageUnmapPage_hide inside tree small.path visible false
  obtain ⟨edit, success⟩ := @pageUnmapPage_edit _ source root (st.hide hidden) vaddr _ tree small false
    same.eq
  have frames := FrameOps.Stable.unmapPage root vaddr false st
  refine ⟨_, _, rfl, edit.tree, edit.built, frames, ⟨edit.along, fun frame _ => ⟨fun now => ?_,
    edit.built.kept frame⟩⟩, edit.cleared success aligned⟩
  -- A table now is in use, and it was in use before, since no frame was taken.
  exact (edit.built.isTable_iff (frames ▸ edit.tree.used now)).mp now

variable {ops : FrameOps Alloc}

/-- A page is unmapped, and its frame is given back. -/
theorem KernelMemory.unmapPage (returns : ops.Returns)
    (memory : KernelMemory ops.source hidden root others outside pages st)
    (inside : HidesIn root hidden) (visible : Visible hidden root vaddr)
    (small : SmallAlong (hideSlots hidden st.mem) root (upperPath vaddr))
    (aligned : vaddr % pageSize = 0) (absent : others vaddr = none) :
    ∃ after, userMunmapPage ops.free root vaddr st = some after ∧
      KernelMemory ops.source hidden root others outside
        (Function.update pages (pageNumber vaddr) none) after ∧
      PathsKept hidden root (fun _ => True) st after := by
  have found := pageVirtToPhys_hide inside memory.tree visible aligned
  have walk : hardwareWalk root vaddr (hideSlots hidden st.mem) = _ := memory.owned.walk vaddr
  rw [← hardwareWalk_hide inside memory.tree visible, walk] at found
  cases mine : pages (pageNumber vaddr) with
  | none =>
    simp only [mine, absent] at found walk
    obtain ⟨result, after, unmapped, tree, built, _, kept, walks⟩ :=
      pageUnmapPage_part inside memory.tree small visible aligned
    refine ⟨after, by simp [userMunmapPage, found, unmapped], ⟨tree, ?_⟩, kept⟩
    rw [Function.update_eq_self_iff.mpr mine.symm]
    refine memory.owned.built (fun _ is => tree.used is) built fun other => (walks other).trans ?_
    split
    · rename_i same
      exact (walk.symm.trans (hardwareWalk_page same).symm)
    · rfl
  | some entry =>
    obtain ⟨frame, flags⟩ := entry
    obtain ⟨nonzero, frameAligned, fits, _, apart⟩ := memory.owned.own _ frame flags mine
    simp only [mine, pteAddr_smallEntry frameAligned fits] at found
    obtain ⟨frames, freed, returned⟩ := returns st.frames frame nonzero
    -- The tables stay in use without the frame of the page.
    have spared : PageTree (ops.source.inUse frames) (hideSlots hidden st.mem) root :=
      memory.tree.withUse fun table is => (returned table).mpr
        ⟨memory.tree.used is, fun equal => apart (equal ▸ is)⟩
    obtain ⟨result, after, unmapped, tree, built, same, kept, walks⟩ :=
      @pageUnmapPage_part _ ops.source hidden _ root { st with frames := frames } vaddr inside spared
        small visible aligned
    exact ⟨after, by simp [userMunmapPage, found, freed, unmapped], ⟨tree, memory.owned.dropped mine
      returned same (fun _ is => tree.used is) built walks⟩, kept.small, kept.tables⟩

/-- Consecutive pages are unmapped, and their frames are given back. -/
theorem KernelMemory.munmapPages (returns : ops.Returns) (inside : HidesIn root hidden)
    {base count : Nat} (memory : KernelMemory ops.source hidden root others outside pages st)
    (fine : ∀ i < count, Visible hidden root (pageAt base i) ∧
      SmallAlong (hideSlots hidden st.mem) root (upperPath (pageAt base i)) ∧
      pageAt base i % pageSize = 0 ∧ others (pageAt base i) = none) :
    ∃ after, userMunmapPages ops.free root base 0 count st = some after ∧
      KernelMemory ops.source hidden root others outside (pages.without base count) after ∧
      PathsKept hidden root (fun _ => True) st after := by
  -- Each step drops one page; a page that is dropped already stays so.
  apply userMunmapPages_rule
  · rintro page now early ⟨current, so⟩
    obtain ⟨visible, small, aligned, absent⟩ := fine page early
    obtain ⟨after, unmapped, next, kept⟩ :=
      current.unmapPage returns inside visible (so.small _ (by simp) small) aligned absent
    exact ⟨after, unmapped, by rwa [UserPages.without_succ], so.trans kept fun _ => id⟩
  · rw [UserPages.without_zero]
    exact ⟨memory, fun _ _ along => along, fun _ _ => Iff.rfl⟩

/-- A range of pages of which a number is mapped, each with a frame of its own. -/
@[grind]
structure KernelRaised (source : FrameSource Alloc) (hidden : Nat → Prop) [DecidablePred hidden]
    (root base : Nat) (before : PageState Alloc) (count : Nat) (pages : UserPages)
    (st : PageState Alloc) : Prop where
  memory : KernelMemory source hidden root
    (fun vaddr => hardwareWalk root vaddr (hideSlots hidden before.mem))
    (source.inUse before.frames) pages st
  domain : ∀ number, pages number ≠ none ↔ ∃ j < count, number = pageNumber (pageAt base j)
  small : ∀ j < count, SmallAlong (hideSlots hidden st.mem) root (upperPath (pageAt base j))
  step : PathsKept hidden root (source.inUse before.frames) before st

variable {base count flags : Nat}

theorem KernelRaised.start
    (tree : PageTree (source.inUse before.frames) (hideSlots hidden before.mem) root) :
    KernelRaised source hidden root base before 0 (fun _ => none) before := by
  refine ⟨⟨tree, ?_⟩, by simp, by simp, ⟨fun _ _ small => small, fun _ _ => Iff.rfl⟩⟩
  exact @OwnedPages.start _ source root (before.hide hidden) fun _ is => tree.used is

/-- One step after the pages mapped so far. -/
theorem KernelRaised.andThen (raised : KernelRaised source hidden root base before count pages st)
    (step : PathsKept hidden root (source.inUse st.frames) st after) :
    PathsKept hidden root (source.inUse before.frames) before after :=
  raised.step.trans step fun frame used => (raised.memory.owned.frames frame).mpr (.inl used)

/-- The next page of the range cannot be mapped: there is no frame for it, or it is mapped already, or
its tables cannot be built. -/
@[grind =]
def PageBlocked (source : FrameSource Alloc) (root vaddr : Nat) (st : PageState Alloc) : Prop :=
  ∀ fresh frames, source.alloc st.frames = (some fresh, frames) →
    hardwareWalk root vaddr st.mem ≠ none ∨
      source.grants (missingBelow st.mem root (upperPath vaddr)) frames = false

/-- One more page of the range is mapped. -/
theorem KernelRaised.adopt (raised : KernelRaised source hidden root base before count pages st)
    (step : PathsKept hidden root (source.inUse st.frames) st after)
    (small : SmallAlong (hideSlots hidden after.mem) root (upperPath (pageAt base count)))
    (memory : KernelMemory source hidden root
      (fun vaddr => hardwareWalk root vaddr (hideSlots hidden before.mem))
      (source.inUse before.frames)
      (Function.update pages (pageNumber (pageAt base count)) (some (fresh, flags))) after) :
    KernelRaised source hidden root base before (count + 1)
      (Function.update pages (pageNumber (pageAt base count)) (some (fresh, flags))) after := by
  refine ⟨memory, fun number => ?_, fun j early => ?_, raised.andThen step⟩
  · exact mapped_succ raised.domain _ number
  · rcases Nat.lt_succ_iff_lt_or_eq.mp early with old | rfl
    · exact step.small _ (by simp) (raised.small j old)
    · exact small

theorem vmmAllocLoop_small (ops : VmmFrames Alloc) (page remaining : Nat) (st : PageState Alloc) :
    vmmAllocLoop ops root base pageSize flags page (remaining + 1) st =
      match ops.source.alloc st.frames with
      | (none, frames) => some (some page, { st with frames := frames })
      | (some paddr, frames) =>
        match pageMapPage ops.source root (pageAt base page) paddr (flags ||| vmapFlagWrite) true
            { st with frames := frames } with
        | (.ok (), st) => vmmAllocLoop ops root base pageSize flags (page + 1) remaining st
        | (.error _, st) =>
          (ops.free st.frames paddr).map fun frames => (some page, { st with frames := frames }) := by
  have single : ¬1 < pageSize / pageSize := by decide
  rw [vmmAllocLoop, allocPageFrames, if_neg single]
  rcases granted : ops.source.alloc st.frames with ⟨_ | paddr, frames⟩
  · rfl
  · simp only [Option.bind_eq_bind, Option.bind_some, if_neg single]
    change (match pageMapPage ops.source root (pageAt base page) paddr (flags ||| vmapFlagWrite) true
      { st with frames := frames } with
      | (.ok (), st) => vmmAllocLoop ops root base pageSize flags (page + 1) remaining st
      | (.error _, st) => (ops.free st.frames paddr).bind fun frames =>
          some (some page, { st with frames := frames })) = _
    rcases pageMapPage ops.source root (pageAt base page) paddr (flags ||| vmapFlagWrite) true
      { st with frames := frames } with ⟨_ | _, after⟩
    · exact Option.map_eq_bind.symm
    · rfl

/-- The loop maps all pages or stops at one of them, with those before it mapped; it stops at its
first page exactly if that page is blocked. -/
theorem vmmAllocLoop_cases {ops : VmmFrames Alloc} (returns : ops.toFrameOps.Returns)
    (inside : HidesIn root hidden) (ordinary : SmallFlags flags) (aligned : base % pageSize = 0)
    (remaining : Nat) :
    ∀ (count : Nat) (pages : UserPages) (st : PageState Alloc),
      KernelRaised ops.source hidden root base before count pages st →
      (∀ j < count + remaining, Visible hidden root (pageAt base j) ∧
        SmallAlong (hideSlots hidden before.mem) root
          [pml4Index (pageAt base j), pdptIndex (pageAt base j)]) →
      ∃ failed mapped pages' after,
        vmmAllocLoop ops root base pageSize flags count remaining st = some (failed, after) ∧
        KernelRaised ops.source hidden root base before mapped pages' after ∧
        (failed = none ∧ mapped = count + remaining ∨
          failed = some mapped ∧ count ≤ mapped ∧ mapped < count + remaining) ∧
        (0 < remaining → (failed = some count ↔
          PageBlocked ops.source root (pageAt base count) st)) := by
  have writable : SmallFlags (flags ||| vmapFlagWrite) := ordinary.or (by decide)
  induction remaining with
  | zero =>
    intro count pages st raised _
    exact ⟨none, count, pages, st, rfl, raised, .inl ⟨rfl, rfl⟩, by omega⟩
  | succ remaining ih =>
    intro count pages st raised plain
    rw [vmmAllocLoop_small]
    rcases granted : ops.source.alloc st.frames with ⟨_ | fresh, frames⟩
    · -- There is no frame for the page.
      have used := ops.source.refused _ _ granted
      have memory : KernelMemory ops.source hidden root _ _ pages { st with frames := frames } :=
        ⟨raised.memory.tree.withUse fun table is => (used table).mpr (raised.memory.tree.used is),
          raised.memory.owned.refused granted⟩
      refine ⟨some count, count, pages, _, rfl, ⟨memory, raised.domain, raised.small,
        raised.step.small, raised.step.tables⟩, .inr ⟨rfl, Nat.le_refl _, by omega⟩,
        fun _ => iff_of_true rfl ?_⟩
      grind
    obtain ⟨visible, upper⟩ := plain count (by omega)
    obtain ⟨result, after, mapping, success, step, adopted, kept⟩ :=
      raised.memory.mapPage inside visible (raised.step.small _ (by simp) upper) writable
        (pageAt_aligned aligned count) granted
    have blocked : PageBlocked ops.source root (pageAt base count) st ↔ result ≠ .ok () := by
      grind
    simp only [mapping]
    cases result with
    | ok _ =>
      obtain ⟨small, memory⟩ := adopted rfl
      obtain ⟨failed, mapped, pages', last, done, later, outcome, _⟩ :=
        ih (count + 1) _ after (raised.adopt step small memory) fun j early =>
          plain j (by omega)
      refine ⟨failed, mapped, pages', last, done, later, ?_, fun _ => ?_⟩
      · rcases outcome with ⟨all, length⟩ | ⟨stopped, later, before⟩
        · exact .inl ⟨all, by omega⟩
        · exact .inr ⟨stopped, by omega, by omega⟩
      · rw [blocked]
        refine iff_of_false (fun first => ?_) fun differs => differs rfl
        rcases outcome with ⟨all, _⟩ | ⟨stopped, later, _⟩
        · cases all.symm.trans first
        · have same := Option.some.inj (stopped.symm.trans first)
          omega
    | error code =>
      obtain ⟨_, nonzero, _⟩ := ops.source.fresh _ _ _ granted
      obtain ⟨freed, given, returned⟩ := returns after.frames fresh nonzero
      have memory := kept code rfl freed returned
      refine ⟨some count, count, pages, { after with frames := freed }, ?_,
        ⟨memory, raised.domain, fun j early => step.small _ (by simp) (raised.small j early),
          raised.andThen ⟨step.small, step.tables⟩⟩, .inr ⟨rfl, Nat.le_refl _, by omega⟩,
        fun _ => iff_of_true rfl (blocked.mpr fun done => by cases done)⟩
      exact (congrArg (Option.map _) given).trans rfl

/-- A frame in use that is no table. -/
@[grind =]
def DataFrame (source : FrameSource Alloc) (hidden : Nat → Prop) [DecidablePred hidden] (root : Nat)
    (st : PageState Alloc) (frame : Nat) : Prop :=
  source.inUse st.frames frame ∧ ¬IsTable root (hideSlots hidden st.mem) frame

/-- Translations and data frames are what they were. -/
@[grind]
structure PagesRestored (source : FrameSource Alloc) (hidden : Nat → Prop) [DecidablePred hidden]
    (root : Nat) (before after : PageState Alloc) : Prop where
  walks : ∀ vaddr, Visible hidden root vaddr →
    hardwareWalk root vaddr after.mem = hardwareWalk root vaddr before.mem
  data : ∀ frame, DataFrame source hidden root after frame ↔ DataFrame source hidden root before frame

/-- Without owned pages everything is what it was. -/
theorem KernelMemory.restored (inside : HidesIn root hidden)
    (tree : PageTree (source.inUse before.frames) (hideSlots hidden before.mem) root)
    (memory : KernelMemory source hidden root
      (fun vaddr => hardwareWalk root vaddr (hideSlots hidden before.mem))
      (source.inUse before.frames) pages st)
    (gone : ∀ number, pages number = none)
    (tables : ∀ frame, source.inUse before.frames frame →
      (IsTable root (hideSlots hidden st.mem) frame ↔
        IsTable root (hideSlots hidden before.mem) frame)) :
    PagesRestored source hidden root before st := by
  constructor
  · intro vaddr visible
    have walk : hardwareWalk root vaddr (hideSlots hidden st.mem) = _ := memory.owned.walk vaddr
    rw [gone] at walk
    rw [← hardwareWalk_hide inside memory.tree visible, walk,
      hardwareWalk_hide inside tree visible]
  · intro frame
    have used := memory.owned.frames frame
    constructor
    · rintro ⟨now, data⟩
      -- A frame in use is an old one, since none is owned and this one is no table.
      rcases used.mp now with old | ⟨page, flags, mine⟩ | table
      · grind
      · cases (gone page).symm.trans mine
      · exact absurd table data
    · rintro ⟨old, data⟩
      exact ⟨used.mpr (.inl old), fun now => data ((tables frame old).mp now)⟩

/-- The mapped pages of a range are taken back. -/
theorem KernelRaised.takeBack (returns : ops.Returns) (inside : HidesIn root hidden)
    (aligned : base % pageSize = 0)
    (tree : PageTree (ops.source.inUse before.frames) (hideSlots hidden before.mem) root)
    (visible : ∀ j < count, Visible hidden root (pageAt base j))
    (raised : KernelRaised ops.source hidden root base before count pages st) :
    ∃ after, userMunmapPages ops.free root base 0 count st = some after ∧
      PagesRestored ops.source hidden root before after ∧
      ∀ frame, IsTable root (hideSlots hidden after.mem) frame ↔
        IsTable root (hideSlots hidden st.mem) frame := by
  obtain ⟨after, done, memory, kept⟩ :=
    raised.memory.munmapPages returns inside fun j early => ⟨visible j early, raised.small j early,
      pageAt_aligned aligned j, raised.memory.owned.alone _ ((raised.domain _).mpr ⟨j, early, rfl⟩)⟩
  exact ⟨after, done, memory.restored inside tree (UserPages.without_all raised.domain)
    (raised.step.trans kept fun _ _ => trivial).tables, fun frame => kept.tables frame trivial⟩

end Pages

end Ccos
