import Ccos.User.UserSpace
import Ccos.Vmm.LowHalf
import Ccos.Vmm.OwnedPages

/-! The pages that a process owns, each with a frame of its own, under the calls that grow its memory
and take it back. -/

namespace Ccos

open Lib

/-- Pages by their number, each with its frame and the flags that it was mapped with. -/
abbrev UserPages := Nat → Option (Nat × Nat)

/-- A process owns some pages: each has a frame of its own beside the frames and the translations
that are there anyway. -/
@[grind] structure UserMemory {Alloc : Type*} (source : FrameSource Alloc) (root : Nat)
    (others : Nat → Option (Nat × Nat)) (outside : Nat → Prop) (pages : UserPages)
    (st : PageState Alloc) : Prop extends OwnedPages source root others outside pages st where
  tables : UserTables source root st

variable {Alloc : Type} {source : FrameSource Alloc} {root : Nat} {others : Nat → Option (Nat × Nat)}
  {outside : Nat → Prop} {pages : UserPages} {st : PageState Alloc} {vaddr : Nat}

/-- A new address space has one table. -/
theorem vmmCreateUserSpace_empty {kernelPml4 pml4 : Nat} {space : PageState Alloc}
    (created : vmmCreateUserSpace source kernelPml4 st = (some pml4, space)) :
    PageTree (source.inUse space.frames) (lowView pml4 space.mem) pml4 ∧
      SmallPages (lowView pml4 space.mem) pml4 ∧ ¬source.inUse st.frames pml4 ∧
      (∀ frame, source.inUse space.frames frame ↔ source.inUse st.frames frame ∨ frame = pml4) ∧
      ∀ frame, IsTable pml4 (lowView pml4 space.mem) frame → frame = pml4 := by
  obtain ⟨unused, nonzero, aligned, fits, taken, empty, _⟩ := vmmCreateUserSpace_new created
  -- Without the kernel half the new table is empty.
  have zero (i : Fin 512) : lowView pml4 space.mem (entryAt pml4 i) = 0 := by
    unfold lowView hideSlots
    split
    · rfl
    · rename_i apart
      refine empty i ?_
      simp only [KernelSlot, entryAt, pageSize, pageShift] at apart
      omega
  obtain ⟨tree, small, _, only⟩ := pageTree_of_empty zero nonzero aligned fits
    ((taken pml4).mpr (.inr rfl))
  refine ⟨tree, small, unused, taken, ?_⟩
  rintro frame ⟨path, _, reached⟩
  exact only path frame reached

variable {after : PageState Alloc}

theorem vmmCreateUserSpace_tables {kernelPml4 pml4 : Nat}
    (used : source.inUse st.frames kernelPml4) (aligned : kernelPml4 % pageSize = 0)
    (kernel : ∀ first rest table, rest.length ≤ 2 → 256 ≤ first.val →
      tableAt st.mem kernelPml4 (first :: rest) = some table →
      source.inUse st.frames table ∧ table % pageSize = 0)
    (created : vmmCreateUserSpace source kernelPml4 st = (some pml4, after)) :
    UserTables source pml4 after := by
  have copied := vmmCreateUserSpace_copied created used aligned
  obtain ⟨tree, small, unused, taken, only⟩ := vmmCreateUserSpace_empty created
  obtain ⟨_, _, freshAligned, _, _, _, elsewhere⟩ := vmmCreateUserSpace_new created
  refine ⟨tree, small, fun first rest table short high reached => ?_⟩
  have same : tableAt after.mem pml4 (first :: rest) = tableAt st.mem kernelPml4 (first :: rest) := by
    have top : after.mem (pageLayout.slot pml4 first) = st.mem (pageLayout.slot kernelPml4 first) :=
      copied first high first.isLt
    simp only [RadixLayout.descend, top]
    cases link : pageLayout.child (st.mem (pageLayout.slot kernelPml4 first)) with
    | none => rfl
    | some next =>
      refine RadixLayout.descend_congr_along fun front node index early reached => ?_
      -- The tables of the kernel are in use, so none of them is the new one.
      have shorter := early.length_le
      simp only [List.length_append, List.length_singleton] at shorter
      have found : tableAt st.mem kernelPml4 (first :: front) = some node := by
        simp only [RadixLayout.descend, link]
        exact reached
      obtain ⟨nodeUsed, nodeAligned⟩ := kernel first front node (by omega) high found
      have different : node ≠ pml4 := fun equal => unused (equal ▸ nodeUsed)
      refine elsewhere _ ?_
      simp only [pageLayout, entryAt, pageSize, pageShift] at *
      omega
  grind

theorem UserMemory.start (tables : UserTables source root st) :
    UserMemory source root (fun vaddr => hardwareWalk root vaddr st.mem) (source.inUse st.frames)
      (fun _ => none) st :=
  ⟨.start fun _ table => (tables.inUse table).1, tables⟩

variable {ops : LawfulFrameOps Alloc} {fresh frame flags : Nat} {frames : Alloc}

section

variable (memory : UserMemory source root others outside pages st)
include memory

theorem UserMemory.built (tables : UserTables source root after)
    (built : Built source root st after)
    (same : ∀ vaddr, hardwareWalk root vaddr after.mem = hardwareWalk root vaddr st.mem) :
    UserMemory source root others outside pages after :=
  ⟨memory.toOwnedPages.built (fun _ table => (tables.inUse table).1) built same, tables⟩

theorem UserMemory.granted (granted : source.alloc st.frames = (some fresh, frames)) :
    UserMemory source root others (fun frame => outside frame ∨ frame = fresh) pages
        { st with frames := frames } ∧
      ¬outside fresh ∧ ¬IsTable root st.mem fresh := by
  obtain ⟨_, _, _, _, used⟩ := source.fresh _ _ _ granted
  obtain ⟨owned, free, apart⟩ := memory.toOwnedPages.granted granted
  refine ⟨⟨owned, memory.tables.withFrames fun table is => ?_⟩, free, apart⟩
  exact (used table).mpr (.inl (memory.tables.inUse is).1)

theorem UserMemory.refused (refused : source.alloc st.frames = (none, frames)) :
    UserMemory source root others outside pages { st with frames := frames } := by
  refine ⟨memory.toOwnedPages.refused refused, memory.tables.withFrames fun table is => ?_⟩
  exact (source.refused _ _ refused table).mpr (memory.tables.inUse is).1

theorem UserMemory.outsideTables {page addr : Nat} (owned : pages page = some (frame, flags))
    (above : frame ≤ addr) (below : addr < frame + pageSize) : OutsideTables root st.mem addr := by
  intro table is inside
  obtain ⟨_, aligned, _, _, apart⟩ := memory.own page frame flags owned
  have tableAligned := (memory.tables.inUse is).2
  obtain rfl : table = frame := by
    simp only [pageSize, pageShift] at *
    omega
  exact apart is

theorem UserMemory.clearPage {page : Nat} (owned : pages page = some (frame, flags)) :
    UserMemory source root others outside pages (st.clearPage frame) := by
  obtain ⟨_, aligned, _, _, apart⟩ := memory.own page frame flags owned
  obtain ⟨tables, same, walks⟩ := memory.tables.clearPage aligned apart
  refine ⟨⟨fun vaddr => (walks vaddr).trans (memory.walk vaddr), memory.alone,
    fun frame => ?_, fun page frame flags owned => ?_, memory.distinct⟩, tables⟩
  · rw [same]
    exact memory.frames frame
  · rw [same]
    exact memory.own page frame flags owned

end

theorem entryMapping_writable (aligned : frame % pageSize = 0) (fits : frame < 2 ^ 40) :
    entryMapping (smallEntry frame (vmapFlagWrite ||| vmapFlagUser)) =
      ⟨frame, true, true, false, false⟩ := by
  rw [entryMapping_smallEntry aligned fits]
  have bits : (vmapFlagWrite ||| vmapFlagUser).testBit 0 = true ∧
      (vmapFlagWrite ||| vmapFlagUser).testBit 1 = true ∧
      (vmapFlagWrite ||| vmapFlagUser).testBit 3 = false ∧
      (vmapFlagWrite ||| vmapFlagUser).testBit 4 = false := by decide
  simp only [requestMapping, bits]

/-- A page is unmapped, and its frame is given back. -/
theorem UserMemory.unmapPage (memory : UserMemory ops.source root others outside pages st)
    (low : (pml4Index vaddr).val < 256) (aligned : vaddr % pageSize = 0)
    (absent : others vaddr = none) :
    ∃ after, userMunmapPage ops.free root vaddr st = some after ∧
      UserMemory ops.source root others outside
        (Function.update pages (pageNumber vaddr) none) after ∧
      (∀ frame flags, pages (pageNumber vaddr) = some (frame, flags) →
        ops.free st.frames frame = some after.frames) ∧
      (pages (pageNumber vaddr) = none → after.frames = st.frames) := by
  have found := pageVirtToPhys_hide kernelSlot_inside memory.tables.tree (visible_of_low low) aligned
  rw [memory.walk vaddr] at found
  cases owned : pages (pageNumber vaddr) with
  | none =>
    simp only [owned, absent] at found
    obtain ⟨result, after, unmapped, tables, built, walks⟩ :=
      memory.tables.unmapPage low aligned false
    have frames : after.frames = st.frames := by
      rw [← FrameOps.Stable.unmapPage root vaddr false st, unmapped]
    refine ⟨after, by simp [userMunmapPage, found, unmapped], ?_, by simp, fun _ => frames⟩
    rw [Function.update_eq_self_iff.mpr owned.symm]
    refine memory.built tables built fun other => ?_
    rw [walks]
    split
    · rename_i same
      rw [hardwareWalk_page same, memory.walk vaddr, owned, absent]
    · rfl
  | some entry =>
    obtain ⟨frame, flags⟩ := entry
    obtain ⟨nonzero, frameAligned, fits, free, apart⟩ := memory.own _ frame flags owned
    simp only [owned, pteAddr_smallEntry frameAligned fits] at found
    obtain ⟨frames, freed⟩ := ops.total st.frames frame
    have used := ops.frees _ _ _ freed nonzero
    have spared : UserTables ops.source root { st with frames := frames } :=
      memory.tables.withFrames fun table is => (used table).mpr
        ⟨(memory.tables.inUse is).1, fun equal => apart (equal ▸ is)⟩
    obtain ⟨result, after, unmapped, tables, built, walks⟩ := spared.unmapPage low aligned false
    have same : after.frames = frames := by
      rw [show frames = ({ st with frames := frames } : PageState Alloc).frames from rfl,
        ← FrameOps.Stable.unmapPage root vaddr false { st with frames := frames }, unmapped]
    refine ⟨after, by simp [userMunmapPage, found, freed, unmapped], ?_, ?_, by simp⟩
    · exact ⟨memory.toOwnedPages.dropped owned used same (fun _ table => (tables.inUse table).1) built
        walks, tables⟩
    · rintro _ _ ⟨⟩
      rw [same]
      exact freed

/-- The address of a page of a range, in 64 bits. -/
def pageAt (base page : Nat) : Nat :=
  wrap64 (base + wrap64 (page * pageSize))

theorem pageAt_aligned {base : Nat} (aligned : base % pageSize = 0) (page : Nat) :
    pageAt base page % pageSize = 0 := by
  simp only [pageAt, wrap64, pageSize, pageShift] at *
  omega

theorem pageAt_zero {base : Nat} (word : base < 2 ^ 64) : pageAt base 0 = base := by
  simp only [pageAt, wrap64]
  omega

theorem mapped_succ {base count : Nat}
    (domain : ∀ number, pages number ≠ none ↔ ∃ j < count, number = pageNumber (pageAt base j))
    (entry : Nat × Nat) (number : Nat) :
    Function.update pages (pageNumber (pageAt base count)) (some entry) number ≠ none ↔
      ∃ j < count + 1, number = pageNumber (pageAt base j) := by
  by_cases here : number = pageNumber (pageAt base count)
  all_goals grind

/-- The number of a page of a range. -/
@[grind =] def PageIn (first last number : Nat) : Prop :=
  ∃ page, page % pageSize = 0 ∧ first ≤ page ∧ page + pageSize ≤ last ∧ number = pageNumber page

/-- The address lies in a page of a range. -/
@[grind =] def InPages (first last vaddr : Nat) : Prop :=
  PageIn first last (pageNumber vaddr)

theorem pageIn_iff {start last number : Nat} (word : last < 2 ^ 64) (ordered : start ≤ last)
    (lastAligned : last % pageSize = 0)
    (aligned : 0 < (last - start) / pageSize → start % pageSize = 0) :
    PageIn start last number ↔
      ∃ j < (last - start) / pageSize, number = pageNumber (pageAt start j) := by
  simp only [pageSize, pageShift] at lastAligned aligned ⊢
  constructor
  · rintro ⟨page, pageAligned, above, below, rfl⟩
    simp only [pageSize, pageShift] at pageAligned below
    have first := aligned (by omega)
    refine ⟨(page - start) / 4096, by omega, ?_⟩
    rw [pageAt]
    simp only [wrap64, pageSize, pageShift]
    congr 1
    omega
  · rintro ⟨j, small, rfl⟩
    have first := aligned (by omega)
    refine ⟨start + j * 4096, ?_, by omega, ?_, ?_⟩
    · simp only [pageSize, pageShift]
      omega
    · simp only [pageSize, pageShift]
      omega
    · rw [pageAt]
      simp only [wrap64, pageSize, pageShift]
      congr 1
      omega

/-- A log of the allocator that notes every address given back, the latest first. -/
@[grind =] def FrameOps.Records (ops : FrameOps Alloc) (log : Alloc → List Nat) : Prop :=
  ∀ frames addr after, ops.free frames addr = some after → log after = addr :: log frames

/-- The pages that are left when the first ones of a range are dropped. -/
def UserPages.without (pages : UserPages) (base count : Nat) : UserPages :=
  fun number => if ∃ i < count, number = pageNumber (pageAt base i) then none else pages number

theorem UserPages.without_zero (pages : UserPages) (base : Nat) : pages.without base 0 = pages := by
  funext number
  simp [without]

theorem UserPages.without_all {pages : UserPages} {base count : Nat}
    (domain : ∀ number, pages number ≠ none ↔ ∃ j < count, number = pageNumber (pageAt base j))
    (number : Nat) : pages.without base count number = none := by
  by_cases owned : pages number = none
  · simp [without, owned]
  · exact if_pos ((domain number).mp owned)

theorem UserPages.without_succ (pages : UserPages) (base count : Nat) :
    pages.without base (count + 1) =
      Function.update (pages.without base count) (pageNumber (pageAt base count)) none := by
  funext number
  by_cases here : number = pageNumber (pageAt base count)
  · rw [here, Function.update_self]
    exact if_pos ⟨count, by omega, rfl⟩
  · rw [Function.update_of_ne here]
    refine if_congr ⟨?_, ?_⟩ rfl rfl
    · rintro ⟨i, small, rfl⟩
      exact ⟨i, by grind, rfl⟩
    · rintro ⟨i, small, rfl⟩
      exact ⟨i, by omega, rfl⟩

/-- Consecutive pages are unmapped, and their frames are given back, each of them once. -/
theorem UserMemory.munmapPages {base count : Nat}
    (memory : UserMemory ops.source root others outside pages st)
    (fine : ∀ i < count, (pml4Index (pageAt base i)).val < 256 ∧ pageAt base i % pageSize = 0 ∧
      others (pageAt base i) = none) :
    ∃ after, userMunmapPages ops.free root base 0 count st = some after ∧
      UserMemory ops.source root others outside (pages.without base count) after ∧
      ∀ log, ops.toFrameOps.Records log → ∃ frames, log after.frames = frames ++ log st.frames ∧
        frames.Nodup ∧ ∀ frame, frame ∈ frames ↔ ∃ number flags,
          pages number = some (frame, flags) ∧ pages.without base count number = none := by
  -- The frames given back so far are those of the pages that are dropped already.
  apply userMunmapPages_rule
  · rintro page now early ⟨current, logged⟩
    obtain ⟨low, aligned, absent⟩ := fine page early
    obtain ⟨after, unmapped, next, freed, kept⟩ := current.unmapPage low aligned absent
    refine ⟨after, unmapped, by rwa [UserPages.without_succ], fun log records => ?_⟩
    obtain ⟨frames, log', once, exactly⟩ := logged log records
    simp only [UserPages.without_succ, Function.update_apply, ite_eq_left_iff]
    cases owned : pages.without base page (pageNumber (pageAt base page)) with
    | none =>
      refine ⟨frames, by rw [kept owned, log'], once, fun frame => (exactly frame).trans ?_⟩
      grind
    | some entry =>
      obtain ⟨frame, flags⟩ := entry
      have held : pages (pageNumber (pageAt base page)) = some (frame, flags) := by
        simp only [UserPages.without, Option.ite_none_left_eq_some] at owned
        exact owned.2
      refine ⟨frame :: frames, by rw [records _ _ _ (freed _ _ owned), log', List.cons_append],
        List.nodup_cons.mpr ⟨fun again => ?_, once⟩, fun other => ?_⟩
      · -- No other page owns the frame.
        obtain ⟨number, flags', other, gone⟩ := (exactly frame).mp again
        rw [memory.distinct _ _ _ _ _ other held, owned] at gone
        cases gone
      · rw [List.mem_cons, exactly]
        grind
  · rw [UserPages.without_zero]
    refine ⟨memory, fun log _ => ⟨[], rfl, .nil, fun frame => iff_of_false (by simp) ?_⟩⟩
    rintro ⟨number, flags, owned, gone⟩
    cases owned.symm.trans gone

theorem vmmMapToUser_one {ops : FrameOps Alloc} {paddr : Nat} (word : vaddr < 2 ^ 64)
    (fits : paddr < 2 ^ 40) (user : vmmIsUserAddr vaddr = true) :
    vmmMapToUser ops root vaddr paddr 1 flags st =
      match pageMapPage ops.source root vaddr paddr (flags ||| vmapFlagUser) true st with
      | (.ok (), after) => (true, after)
      | (.error _, after) => (false, after) := by
  have first : wrap64 (vaddr + wrap64 (0 * pageSize)) = vaddr := by
    simp only [wrap64]
    omega
  have frame : wrap64 (paddr + wrap64 (0 * pageSize)) = paddr := by
    simp only [wrap64]
    omega
  rw [vmmMapToUser, user, vmmMapToUserPages, first, frame]
  rcases pageMapPage ops.source root vaddr paddr (flags ||| vmapFlagUser) true st with
    ⟨_ | _, after⟩
  · rfl
  · rfl

/-- A property of the allocator that holds once it has refused a frame, and from then on. -/
@[grind] structure FrameOps.Marks (ops : FrameOps Alloc) (mark : Alloc → Prop) : Prop where
  stable : ops.Stable mark
  refused : ∀ frames after, ops.source.alloc frames = (none, after) → mark after

theorem FrameOps.marks_true (ops : FrameOps Alloc) : ops.Marks fun _ => True :=
  ⟨⟨fun _ _ => trivial, fun _ _ _ _ _ => trivial⟩, fun _ _ _ => trivial⟩

section Growth

variable {ops : LawfulFrameOps Alloc} {mark : Alloc → Prop} {after : PageState Alloc}

/-- A walk fails for lack of a frame only after a refusal. -/
theorem FrameOps.Marks.walk {ops : FrameOps Alloc} (marks : ops.Marks mark) {entry : Nat}
    {code : PageError} (failed : walkOrCreate ops.source entry true st = (.error code, after)) :
    mark after.frames := by
  simp only [walkOrCreate, getOrCreateTable, pageCreateTable] at failed
  grind

theorem FrameOps.Marks.walkTables {ops : FrameOps Alloc} (marks : ops.Marks mark) {code : PageError}
    {table : Nat} {way : List (Fin 512)}
    (failed : walkTables ops.source true table way st = (.error code, after)) :
    mark after.frames := by
  induction way generalizing table st with
  | nil => cases failed
  | cons index rest ih =>
    rw [Ccos.walkTables] at failed
    rcases walked : walkOrCreate ops.source (entryAt table index) true st with ⟨_ | next, middle⟩
    · rw [walked] at failed
      cases failed
      exact marks.walk walked
    · rw [walked] at failed
      exact ih failed

/-- Mapping a 4 KiB page fails for lack of a frame only after a refusal. -/
theorem FrameOps.Marks.mapPage {ops : FrameOps Alloc} (marks : ops.Marks mark) {paddr : Nat}
    (ordinary : SmallFlags flags)
    (vaddrAligned : vaddr % pageSize = 0) (paddrAligned : paddr % pageSize = 0)
    (failed : pageMapPage ops.source root vaddr paddr flags true st = (.error .oom, after)) :
    mark after.frames := by
  -- Only the walks end with this code.
  rw [pageMapPage_walks ordinary vaddrAligned paddrAligned] at failed
  rcases walked : Ccos.walkTables ops.source true root [pml4Index vaddr, pdptIndex vaddr] st with
    ⟨_ | pd, middle⟩
  · rw [walked] at failed
    cases failed
    exact marks.walkTables walked
  simp only [walked] at failed
  split at failed
  · cases failed
  rcases walked : Ccos.walkTables ops.source true pd [pdIndex vaddr] middle with ⟨_ | table, last⟩
  · rw [walked] at failed
    cases failed
    exact marks.walkTables walked
  grind

/-- The memory of a process after a number of pages of a growth. -/
@[grind] structure Raised (source : FrameSource Alloc) (growth : Growth Alloc) (root base : Nat)
    (before : PageState Alloc) (count : Nat) (pages : UserPages) (st : PageState Alloc) : Prop where
  memory : UserMemory source root (fun vaddr => hardwareWalk root vaddr before.mem)
    (source.inUse before.frames) pages st
  domain : ∀ number, pages number ≠ none ↔ ∃ j < count, number = pageNumber (pageAt base j)
  flags : ∀ number frame flags, pages number = some (frame, flags) →
    flags = growth.flags ||| vmapFlagUser
  user : ∀ j < count, vmmIsUserAddr (pageAt base j) = true ∧ pageAt base j % pageSize = 0
  cleared : growth.clears = true → ∀ number frame flags, pages number = some (frame, flags) →
    ∀ addr, frame ≤ addr → addr < frame + pageSize → st.mem addr = 0
  tables : ∀ frame, source.inUse before.frames frame →
    (IsTable root st.mem frame ↔ IsTable root before.mem frame)

/-- A page that cannot be mapped, however many frames there are. -/
@[grind =] def Blocked (root base : Nat) (mem : PhysMem) (page : Nat) : Prop :=
  vmmIsUserAddr (pageAt base page) = false ∨ pageAt base page % pageSize ≠ 0 ∨
    hardwareWalk root (pageAt base page) mem ≠ none ∨
    ∃ earlier < page, pageNumber (pageAt base page) = pageNumber (pageAt base earlier)

theorem pml4Index_of_user (user : vmmIsUserAddr vaddr = true) : (pml4Index vaddr).val < 256 := by
  have bound : vaddr < userEnd := by
    simp only [vmmIsUserAddr, Bool.and_eq_true, decide_eq_true_eq] at user
    exact user.2
  rw [pml4Index, tableIndex_val]
  simp only [userEnd] at bound
  omega

variable {growth : Growth Alloc} {base count : Nat} {before : PageState Alloc}

/-- A page of a range of user addresses is only blocked by a mapping. -/
theorem Blocked.mapped {page : Nat} {mem : PhysMem} (low : userBase ≤ base)
    (aligned : base % pageSize = 0) (high : base + count * pageSize ≤ userEnd + 1)
    (small : page < count) (blocked : Blocked root base mem page) :
    hardwareWalk root (base + page * pageSize) mem ≠ none := by
  have limit : userEnd < 2 ^ 48 := by decide
  have place (j : Nat) (before : j ≤ page) : pageAt base j = base + j * pageSize := by
    simp only [pageAt, wrap64, pageSize, pageShift] at *
    omega
  rcases blocked with outside | unaligned | present | ⟨earlier, before, same⟩
  · rw [place page le_rfl] at outside
    simp only [vmmIsUserAddr, Bool.and_eq_false_iff, decide_eq_false_iff_not] at outside
    simp only [userEnd, pageSize, pageShift] at *
    omega
  · rw [place page le_rfl] at unaligned
    simp only [pageSize, pageShift] at *
    omega
  · rwa [place page le_rfl] at present
  · -- Two pages of the range have different numbers.
    rw [place page le_rfl, place earlier (by omega)] at same
    simp only [pageNumber, pageSize, pageShift, Nat.shiftRight_eq_div_pow] at *
    omega

theorem Raised.start (tables : UserTables source root before) :
    Raised source growth root base before 0 (fun _ => none) before :=
  ⟨.start tables, by simp, by simp, by simp, by simp, fun _ _ => .rfl⟩

variable {frames : Alloc}

/-- Building tables makes none of a frame that is in use already. -/
theorem Raised.built (raised : Raised source growth root base before count pages st)
    (kept : ∀ other, source.inUse st.frames other → source.inUse frames other)
    (built : Built source root { st with frames := frames } after)
    (used : source.inUse before.frames frame) :
    IsTable root after.mem frame ↔ IsTable root before.mem frame := by
  have held : source.inUse frames frame := kept frame ((raised.memory.frames frame).mpr (.inl used))
  exact (built.isTable_iff held).trans (raised.tables frame used)

theorem Raised.refused (raised : Raised source growth root base before count pages st)
    (refused : source.alloc st.frames = (none, frames)) :
    Raised source growth root base before count pages { st with frames := frames } :=
  ⟨raised.memory.refused refused, raised.domain, raised.flags, raised.user, raised.cleared,
    raised.tables⟩

variable {fresh : Nat}

theorem Raised.giveBack {freed : Alloc}
    (raised : Raised ops.source growth root base before count pages st)
    (granted : ops.source.alloc st.frames = (some fresh, frames))
    (tables : UserTables ops.source root after)
    (built : Built ops.source root { st with frames := frames } after)
    (walks : ∀ other, hardwareWalk root other after.mem = hardwareWalk root other st.mem)
    (back : ops.free after.frames fresh = some freed) :
    Raised ops.source growth root base before count pages { after with frames := freed } := by
  obtain ⟨held, free, apart⟩ := raised.memory.granted granted
  obtain ⟨_, nonzero, _, _, used⟩ := ops.source.fresh _ _ _ granted
  have later := held.built tables built walks
  have still := built.not_table ((used fresh).mpr (.inr rfl)) apart
  have freed := ops.frees _ _ _ back nonzero
  have spared := later.tables.withFrames fun table is =>
    (freed table).mpr ⟨(tables.inUse is).1, fun equal => still (equal ▸ is)⟩
  refine ⟨⟨later.toOwnedPages.released free still freed, spared⟩, raised.domain, raised.flags,
    raised.user, fun clears number frame flags owned addr above below => ?_, fun frame old => ?_⟩
  swap
  · change IsTable root after.mem frame ↔ _
    exact raised.built (fun other old => (used other).mpr (.inl old)) built old
  rw [built.mem addr (later.outsideTables owned above below)]
  exact raised.cleared clears number frame flags owned addr above below

theorem Raised.adopt (raised : Raised source growth root base before count pages st)
    (granted : source.alloc st.frames = (some fresh, frames))
    (user : vmmIsUserAddr (pageAt base count) = true) (aligned : pageAt base count % pageSize = 0)
    (tables : UserTables source root after)
    (built : Built source root { st with frames := frames } after)
    (absent : hardwareWalk root (pageAt base count) st.mem = none)
    (walks : ∀ other, hardwareWalk root other after.mem =
      if pageNumber other = pageNumber (pageAt base count) then
        some (smallEntry fresh (growth.flags ||| vmapFlagUser), 0)
      else hardwareWalk root other st.mem) :
    Raised source growth root base before (count + 1)
      (Function.update pages (pageNumber (pageAt base count))
        (some (fresh, growth.flags ||| vmapFlagUser)))
      (if growth.clears then after.clearPage fresh else after) := by
  obtain ⟨held, free, apart⟩ := raised.memory.granted granted
  obtain ⟨_, nonzero, freshAligned, fits, used⟩ := source.fresh _ _ _ granted
  have owned := held.toOwnedPages.adopted free apart ⟨nonzero, freshAligned, fits⟩
    (fun _ table => (tables.inUse table).1) built absent walks
  have later : UserMemory source root _ _ _ after := ⟨owned, tables⟩
  have here : Function.update pages (pageNumber (pageAt base count))
      (some (fresh, growth.flags ||| vmapFlagUser)) (pageNumber (pageAt base count)) =
      some (fresh, growth.flags ||| vmapFlagUser) := Function.update_self ..
  have tables (frame : Nat) (old : source.inUse before.frames frame) :
      IsTable root after.mem frame ↔ IsTable root before.mem frame :=
    raised.built (fun other old => (used other).mpr (.inl old)) built old
  refine ⟨?_, fun number => ?_, fun number frame flags owned => ?_, fun j small => ?_,
    fun clears number frame flags owned addr above below => ?_, fun frame old => ?_⟩
  · split
    · exact later.clearPage here
    · exact later
  · exact mapped_succ raised.domain _ number
  · by_cases same : number = pageNumber (pageAt base count)
    · subst same
      rw [here] at owned
      cases owned
      rfl
    · rw [Function.update_of_ne same] at owned
      exact raised.flags number frame flags owned
  · rcases Nat.lt_succ_iff_lt_or_eq.mp small with less | rfl
    · exact raised.user j less
    · exact ⟨user, aligned⟩
  · rw [if_pos clears]
    by_cases same : number = pageNumber (pageAt base count)
    · subst same
      rw [here] at owned
      cases owned
      exact if_pos ⟨above, below⟩
    · -- The frames of earlier pages are cleared already and are not the new one.
      have apart : ¬(fresh ≤ addr ∧ addr < fresh + pageSize) := by
        have frameAligned := (later.own number frame flags owned).2.1
        rintro inside
        obtain rfl : fresh = frame := by
          simp only [pageSize, pageShift] at *
          omega
        exact same (later.distinct _ _ _ _ _ owned here)
      refine (if_neg apart).trans ?_
      rw [built.mem addr (later.outsideTables owned above below)]
      rw [Function.update_of_ne same] at owned
      exact raised.cleared clears number frame flags owned addr above below
  · split
    · obtain ⟨_, frameAligned, _, _, other⟩ := later.own _ _ _ here
      exact ((later.tables.clearPage frameAligned other).2.1 frame).trans (tables frame old)
    · exact tables frame old

theorem Raised.mapped (raised : Raised source growth root base before count pages st)
    (present : hardwareWalk root vaddr st.mem ≠ none) :
    hardwareWalk root vaddr before.mem ≠ none ∨
      ∃ earlier < count, pageNumber vaddr = pageNumber (pageAt base earlier) := by
  rw [raised.memory.walk] at present
  grind

theorem Raised.step (marks : ops.toFrameOps.Marks mark)
    (raised : Raised ops.source growth root base before count pages st)
    (ordinary : SmallFlags (growth.flags ||| vmapFlagUser))
    (granted : ops.source.alloc st.frames = (some fresh, frames)) :
    (∃ pages' after, vmmMapToUser ops.toFrameOps root (pageAt base count) fresh 1 growth.flags
        { st with frames := frames } = (true, after) ∧
      Raised ops.source growth root base before (count + 1) pages'
        (if growth.clears then after.clearPage fresh else after)) ∨
    ∃ after, vmmMapToUser ops.toFrameOps root (pageAt base count) fresh 1 growth.flags
        { st with frames := frames } = (false, after) ∧
      (Blocked root base before.mem count ∨ mark after.frames) ∧
      ∀ freed, ops.free after.frames fresh = some freed →
        Raised ops.source growth root base before count pages { after with frames := freed } := by
  obtain ⟨held, free, apart⟩ := raised.memory.granted granted
  obtain ⟨_, _, freshAligned, fits, _⟩ := ops.source.fresh _ _ _ granted
  have word : pageAt base count < 2 ^ 64 := wrap64_lt _
  cases user : vmmIsUserAddr (pageAt base count) with
  | false =>
    refine .inr ⟨_, by rw [vmmMapToUser, user]; rfl, .inl (.inl user), fun freed back => ?_⟩
    exact raised.giveBack granted held.tables (.refl _) (fun _ => rfl) back
  | true =>
    rw [vmmMapToUser_one word fits user]
    by_cases aligned : pageAt base count % pageSize = 0
    swap
    · rw [pageMapPage_unaligned ordinary (.inl aligned)]
      refine .inr ⟨_, rfl, .inl (.inr (.inl aligned)), fun freed back => ?_⟩
      exact raised.giveBack granted held.tables (.refl _) (fun _ => rfl) back
    obtain ⟨result, after, mapped, tables, built, failed, stored⟩ :=
      held.tables.mapPage (pml4Index_of_user user) ordinary aligned freshAligned
    rw [mapped]
    cases result with
    | error code =>
      obtain ⟨reason, walks⟩ := failed code rfl
      refine .inr ⟨after, rfl, ?_, fun freed back =>
        raised.giveBack granted tables built walks back⟩
      rcases reason with rfl | present
      · exact .inr (marks.mapPage ordinary aligned freshAligned mapped)
      · exact .inl (.inr (.inr (raised.mapped present)))
    | ok _ =>
      obtain ⟨absent, walks⟩ := stored rfl
      exact .inl ⟨_, after, rfl, raised.adopt granted user aligned tables built absent walks⟩

theorem growPages_append {ops : FrameOps Alloc} (mapped rest : Nat) :
    ∀ (page : Nat) (st middle : PageState Alloc),
      growPages ops growth root base page mapped st = some (true, middle) →
      growPages ops growth root base page (mapped + rest) st =
        growPages ops growth root base (page + mapped) rest middle := by
  induction mapped with
  | zero =>
    intro page st middle grew
    cases grew
    rw [Nat.zero_add, Nat.add_zero]
  | succ mapped ih =>
    intro page st middle grew
    rw [Nat.add_right_comm, growPages]
    rw [growPages] at grew
    rcases granted : ops.source.alloc st.frames with ⟨_ | fresh, frames⟩
    · simp [granted, Option.bind_eq_some_iff] at grew
    · simp only [granted] at grew ⊢
      -- The first page was mapped, or the growth would have failed.
      split at grew
      · grind
      · simp [Option.bind_eq_some_iff] at grew

theorem Raised.writable_page (raised : Raised source growth root base before count pages st)
    (writable : growth.flags ||| vmapFlagUser = vmapFlagWrite ||| vmapFlagUser)
    (owned : pages (pageNumber vaddr) = some (frame, flags)) :
    translation root vaddr st.mem = some ⟨frame, true, true, false, false⟩ := by
  obtain ⟨_, aligned, fits, _⟩ := raised.memory.own _ frame flags owned
  obtain rfl := (raised.flags _ frame flags owned).trans writable
  rw [translation, raised.memory.walk, owned]
  exact congrArg some (entryMapping_writable aligned fits)

/-- A growth maps all its pages, or it fails at one of them: for lack of a frame for the page, or
because the page cannot be mapped. -/
theorem growPages_cases (marks : ops.toFrameOps.Marks mark)
    (ordinary : SmallFlags (growth.flags ||| vmapFlagUser)) (remaining : Nat) :
    ∀ (count : Nat) (pages : UserPages) (st : PageState Alloc),
      Raised ops.source growth root base before count pages st →
      (∃ pages' after, growPages ops.toFrameOps growth root base count remaining st =
          some (true, after) ∧
        Raised ops.source growth root base before (count + remaining) pages' after) ∨
      (∃ mapped pages' middle frames, mapped < remaining ∧
        Raised ops.source growth root base before (count + mapped) pages' middle ∧
        growPages ops.toFrameOps growth root base count mapped st = some (true, middle) ∧
        ops.source.alloc middle.frames = (none, frames) ∧
        growPages ops.toFrameOps growth root base count remaining st =
          (growth.noFrame (count + mapped) { middle with frames := frames }).map (false, ·)) ∨
      ∃ mapped pages' middle, mapped < remaining ∧
        Raised ops.source growth root base before (count + mapped) pages' middle ∧
        (Blocked root base before.mem (count + mapped) ∨ mark middle.frames) ∧
        growPages ops.toFrameOps growth root base count remaining st =
          (growth.noMapping (count + mapped) middle).map (false, ·) := by
  induction remaining with
  | zero => exact fun count pages st raised => .inl ⟨pages, st, rfl, raised⟩
  | succ remaining ih =>
    intro count pages st raised
    rcases granted : ops.source.alloc st.frames with ⟨_ | fresh, frames⟩
    · refine .inr (.inl ⟨0, pages, st, frames, by omega, raised, rfl, granted, ?_⟩)
      rw [growPages, granted]
      exact Option.map_eq_bind.symm
    rcases raised.step marks ordinary granted with
      ⟨pages', after, mapped, next⟩ | ⟨after, failed, reason, back⟩
    · -- The growth goes on with the next page.
      have goes (remaining : Nat) : growPages ops.toFrameOps growth root base count (remaining + 1) st =
          growPages ops.toFrameOps growth root base (count + 1) remaining
            (if growth.clears then after.clearPage fresh else after) := by
        rw [growPages, granted]
        simp only [show vmmMapToUser ops.toFrameOps root (wrap64 (base + wrap64 (count * pageSize)))
          fresh 1 growth.flags { st with frames := frames } = (true, after) from mapped]
      have shift (more : Nat) : count + 1 + more = count + (more + 1) := by omega
      rcases ih (count + 1) pages' _ next with ⟨pages', last, done, raised⟩ |
        ⟨more, pages', middle, frames, small, raised, grew, refused, done⟩ |
        ⟨more, pages', middle, small, raised, reason, done⟩
      · exact .inl ⟨pages', last, (goes _).trans done, shift remaining ▸ raised⟩
      · rw [shift] at raised done
        exact .inr (.inl ⟨more + 1, pages', middle, frames, by omega, raised,
          (goes _).trans grew, refused, (goes _).trans done⟩)
      · rw [shift] at raised reason done
        exact .inr (.inr ⟨more + 1, pages', middle, by omega, raised, reason,
          (goes _).trans done⟩)
    · obtain ⟨freed, freeing⟩ := ops.total after.frames fresh
      refine .inr (.inr ⟨0, pages, _, by omega, back freed freeing,
        reason.imp_right (marks.stable.free _ _ _ · freeing), ?_⟩)
      rw [growPages, granted]
      simp only [show vmmMapToUser ops.toFrameOps root (wrap64 (base + wrap64 (count * pageSize)))
        fresh 1 growth.flags { st with frames := frames } = (false, after) from failed]
      rw [freeing]
      exact Option.map_eq_bind.symm

/-- A page of a growth was not mapped before, so it is not one that was owned. -/
theorem UserMemory.unowned {fresh : UserPages} {number : Nat}
    (memory : UserMemory source root others outside pages st)
    (raised : Raised source growth root base st count fresh after) (new : fresh number ≠ none) :
    pages number = none := by
  obtain ⟨j, _, rfl⟩ := (raised.domain number).mp new
  have absent := raised.memory.alone (pageAt base j) new
  rw [memory.walk] at absent
  cases owned : pages (pageNumber (pageAt base j)) with
  | none => rfl
  | some entry => simp [owned] at absent

theorem UserMemory.raised {fresh : UserPages}
    (memory : UserMemory source root others outside pages st)
    (raised : Raised source growth root base st count fresh after) :
    UserMemory source root others outside (fun number => (fresh number).or (pages number)) after := by
  have unowned {number : Nat} := @UserMemory.unowned _ _ _ _ _ _ _ _ _ _ _ _ number memory raised
  have apart {number : Nat} {entry : Nat × Nat} (owned : pages number = some entry) :
      fresh number = none := by
    by_contra new
    cases (unowned new).symm.trans owned
  have used {number frame flags : Nat} (owned : pages number = some (frame, flags)) :
      source.inUse st.frames frame := (memory.frames frame).mpr (.inr (.inl ⟨_, _, owned⟩))
  have either {number : Nat} {entry : Nat × Nat}
      (owned : (fresh number).or (pages number) = some entry) :
      fresh number = some entry ∨ pages number = some entry := by
    grind
  refine ⟨⟨fun vaddr => ?_, fun vaddr owned => ?_, fun frame => ?_, fun number frame flags owned => ?_,
    fun number other frame flags flags' owned owned' => ?_⟩, raised.memory.tables⟩
  · grind
  · grind
  · rw [raised.memory.frames, memory.frames]
    constructor
    · rintro ((out | ⟨number, flags, owned⟩ | table) | ⟨number, flags, owned⟩ | table)
      · exact .inl out
      · exact .inr (.inl ⟨number, flags, by simp [apart owned, owned]⟩)
      · exact .inr (.inr ((raised.tables frame (memory.tables.inUse table).1).mpr table))
      · exact .inr (.inl ⟨number, flags, by simp [owned]⟩)
      · exact .inr (.inr table)
    · rintro (out | ⟨number, flags, owned⟩ | table)
      · exact .inl (.inl out)
      · rcases either owned with new | old
        · exact .inr (.inl ⟨number, flags, new⟩)
        · exact .inl (.inr (.inl ⟨number, flags, old⟩))
      · exact .inr (.inr table)
  · grind
  · -- A frame of the growth was free before, so it is not one of the others.
    grind

theorem Raised.takeBack (raised : Raised ops.source growth root base before count pages st) :
    ∃ after, userMunmapPages ops.free root base 0 count st = some after ∧
      UserTables ops.source root after ∧
      (∀ vaddr, hardwareWalk root vaddr after.mem = hardwareWalk root vaddr before.mem) ∧
      ∀ frame, ops.source.inUse after.frames frame ↔
        ops.source.inUse before.frames frame ∨ IsTable root after.mem frame := by
  obtain ⟨after, done, memory, _⟩ := raised.memory.munmapPages fun i small => by
    obtain ⟨user, aligned⟩ := raised.user i small
    exact ⟨pml4Index_of_user user, aligned,
      raised.memory.alone _ ((raised.domain _).mpr ⟨i, small, rfl⟩)⟩
  -- Every page of the growth was dropped.
  have empty := UserPages.without_all raised.domain
  refine ⟨after, done, memory.tables, fun vaddr => ?_, fun frame => ?_⟩
  · rw [memory.walk, empty]
  · rw [memory.frames]
    simp [empty]

end Growth

/-- A frame allocator that records whether it refused a frame and which frames were given back. -/
structure Watched (Alloc : Type) where
  frames : Alloc
  refused : Bool
  freed : List Nat

/-- An allocator with such a record. -/
def watchedOps (ops : LawfulFrameOps Alloc) : LawfulFrameOps (Watched Alloc) where
  source := ops.source.within Watched.frames (fun watched granted frames =>
    { watched with frames := frames, refused := watched.refused || granted.isNone }) fun _ _ _ => rfl
  free watched addr := (ops.free watched.frames addr).map fun frames =>
    { watched with frames := frames, freed := addr :: watched.freed }
  total watched addr := by
    obtain ⟨after, freed⟩ := ops.total watched.frames addr
    exact ⟨_, congrArg (Option.map _) freed⟩
  frees := by
    intro before addr after freed nonzero other
    obtain ⟨frames, done, rfl⟩ := Option.map_eq_some_iff.mp freed
    exact ops.frees before.frames addr frames done nonzero other

theorem watchedOps_marks (ops : LawfulFrameOps Alloc) :
    (watchedOps ops).toFrameOps.Marks fun watched => watched.refused = true := by
  refine ⟨⟨fun watched held => ?_, fun watched addr after held freed => ?_⟩,
    fun watched after refused => ?_⟩
  · simp [watchedOps, FrameSource.within, held]
  · obtain ⟨frames, _, rfl⟩ := Option.map_eq_some_iff.mp freed
    exact held
  · obtain ⟨given, rfl⟩ := Prod.mk.inj refused
    simp [given]

/-- A process without pages, whose page table is the only frame that was taken from an allocator. -/
def newProcess (source : FrameSource Alloc) (frames : Alloc) : PageState Alloc :=
  (vmmCreateUserSpace source 0x5000 ⟨fun _ => 0, frames, []⟩).2

theorem newProcess_tables (used : source.inUse frames 0x5000)
    (created : (vmmCreateUserSpace source 0x5000 ⟨fun _ => 0, frames, []⟩).1 = some root) :
    UserTables source root (newProcess source frames) := by
  refine vmmCreateUserSpace_tables used (by decide) (fun first rest table _ _ reached => ?_)
    (Prod.ext created rfl)
  simp [RadixLayout.descend, pageLayout, ptePresent] at reached

theorem newProcess_walk (user : (pml4Index vaddr).val < 256)
    (created : (vmmCreateUserSpace source 0x5000 ⟨fun _ => 0, frames, []⟩).1 = some root) :
    hardwareWalk root vaddr (newProcess source frames).mem = none := by
  have empty : (newProcess source frames).mem (entryAt root (pml4Index vaddr)) = 0 :=
    (vmmCreateUserSpace_new (Prod.ext created rfl)).empty _ user
  simp [hardwareWalk, empty, ptePresent]

end Ccos
