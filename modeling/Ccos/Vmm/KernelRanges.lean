import Ccos.Lib.Run
import Ccos.Vmm.KernelSpace

/-! Where the kernel's allocations and mappings lie: the hint, the table of regions and the ranges
that were handed out, over whole sequences of calls. -/

namespace Ccos

open Lib

variable {Alloc : Type} {ops : VmmFrames Alloc}

theorem rangeAlignment_cases (size : Nat) :
    rangeAlignment size = 2 ^ 21 ∨ rangeAlignment size = 2 ^ 12 := by
  unfold rangeAlignment
  split
  · exact .inl rfl
  · exact .inr rfl

theorem rangeAlignment_le (size : Nat) : 0 < rangeAlignment size ∧ rangeAlignment size ≤ 2 ^ 21 := by
  rcases rangeAlignment_cases size with large | small
  · rw [large]
    decide
  · rw [small]
    decide

theorem alignHint_bounds {hint : Nat} (size : Nat) (low : hint + 2 ^ 21 ≤ 2 ^ 64) :
    hint ≤ alignHint hint size ∧ alignHint hint size < hint + rangeAlignment size ∧
      alignHint hint size % rangeAlignment size = 0 := by
  have rounded (k : Nat) (fits : k ≤ 21) (here : rangeAlignment size = 2 ^ k) :
      alignHint hint size = (hint + 2 ^ k - 1) / 2 ^ k * 2 ^ k := by
    have step : 2 ^ k ≤ 2 ^ 21 := Nat.pow_le_pow_right (by decide) fits
    have positive := Nat.two_pow_pos k
    rw [alignHint, here, land_not64_low (wrap64_lt _) (by omega), wrap64_of_lt (by omega)]
  rcases rangeAlignment_cases size with large | small
  · rw [rounded 21 (by decide) large, large]
    omega
  · rw [rounded 12 (by decide) small, small]
    omega

variable {size vaddr : Nat} {regions : List MemoryRegion}

theorem searchVirtRange_found {alignment : Nat} (step : alignment ≤ 2 ^ 21) {steps hint : Nat}
    (fits : hint + size < 2 ^ 64)
    (found : searchVirtRange regions size alignment steps hint = some vaddr) :
    hint ≤ vaddr ∧ vaddr + size ≤ kernelGeneralMax ∧
      ∀ region ∈ regions, vaddr + size ≤ region.start ∨ region.stop ≤ vaddr := by
  -- Each collision moves the start by one alignment step, and no sum wraps on the way.
  have top : kernelGeneralMax + 2 ^ 21 < 2 ^ 64 := by decide
  induction steps generalizing hint with
  | zero => cases found
  | succ steps ih =>
    rw [searchVirtRange, wrap64_of_lt fits] at found
    by_cases inside : hint + size ≤ kernelGeneralMax
    swap
    · rw [if_neg inside] at found
      cases found
    rw [if_pos inside] at found
    cases collides : checkRegionCollision regions hint (hint + size) with
    | false =>
      rw [collides, if_pos (by decide)] at found
      obtain rfl := Option.some.inj found
      refine ⟨Nat.le_refl _, inside, fun region listed => ?_⟩
      have apart := List.any_eq_false.mp collides region listed
      grind
    | true =>
      rw [collides, if_neg (by decide), wrap64_of_lt (by omega)] at found
      grind

/-- What a request for a range does to the bookkeeping: tracked regions stay, and the hint stays or
moves behind the range that was found, which is the answer unless a later step failed. -/
@[grind =] def Claimed (before after : VmmState Alloc) (size vaddr : Nat) : Prop :=
  (∀ region ∈ before.regions, region ∈ after.regions) ∧
    (vaddr = 0 ∧ after.kernelVirtHint = before.kernelVirtHint ∨
      ∃ found, (findFreeVirtRange size before).1 = some found ∧ (vaddr = 0 ∨ vaddr = found) ∧
        after.kernelVirtHint = wrap64 (found + size))

theorem mem_addRegion {region other : MemoryRegion} (listed : other ∈ regions) :
    other ∈ addRegion region regions := by
  unfold addRegion
  grind

/-- Finding a range changes the hint only. -/
theorem findFreeVirtRange_cases (size : Nat) (st : VmmState Alloc) :
    findFreeVirtRange size st = (none, st) ∨
    ∃ found, findFreeVirtRange size st =
      (some found, { st with kernelVirtHint := wrap64 (found + size) }) := by
  unfold findFreeVirtRange
  grind

variable {st after : VmmState Alloc}

theorem vmmFreePages_ranges {virt count : Nat} {result : Except VmmError Unit}
    (done : vmmFreePages ops virt count st = some (result, after)) :
    after.regions = st.regions ∧ after.kernelVirtHint = st.kernelVirtHint := by
  unfold vmmFreePages at done
  split at done
  · cases done
  split at done
  · cases done
    exact ⟨rfl, rfl⟩
  split at done
  · cases done
    exact ⟨rfl, rfl⟩
  · obtain ⟨pages, _, last⟩ := Option.bind_eq_some_iff.mp done
    cases last
    exact ⟨rfl, rfl⟩

theorem vmmUnmapPhysical_ranges {virt : Nat} {result : Except VmmError Unit}
    (done : vmmUnmapPhysical virt st = some (result, after)) :
    after.regions = st.regions ∧ after.kernelVirtHint = st.kernelVirtHint := by
  unfold vmmUnmapPhysical at done
  grind

theorem vmmMapPhysical_claims {phys flags : Nat}
    (done : vmmMapPhysical ops phys flags st = some (vaddr, after)) :
    Claimed st after pageSize vaddr := by
  unfold vmmMapPhysical at done
  split at done
  · cases done
  rcases findFreeVirtRange_cases pageSize st with missing | ⟨found, located⟩
  · grind
  · have answer : (findFreeVirtRange pageSize st).1 = some found := congrArg Prod.fst located
    rw [located] at done
    simp only at done
    split at done
    · grind
    · obtain ⟨rfl, rfl⟩ := Prod.mk.inj (Option.some.inj done)
      exact ⟨fun _ listed => mem_addRegion listed, .inr ⟨_, answer, .inr rfl, rfl⟩⟩

theorem vmmAllocPages_claims {count flags : Nat}
    (done : vmmAllocPages ops count flags st = some (vaddr, after)) :
    Claimed st after (wrap64 (count * vmapPageSize flags)) vaddr := by
  unfold vmmAllocPages at done
  split at done
  · cases done
  split at done
  · grind
  simp only at done
  rcases findFreeVirtRange_cases (wrap64 (count * vmapPageSize flags)) st with
    missing | ⟨found, located⟩
  · grind
  · have answer : (findFreeVirtRange (wrap64 (count * vmapPageSize flags)) st).1 = some found :=
      congrArg Prod.fst located
    rw [located] at done
    obtain ⟨⟨failed, pages⟩, _, done⟩ := Option.bind_eq_some_iff.mp done
    cases failed with
    | none =>
      obtain ⟨rfl, rfl⟩ := Prod.mk.inj (Option.some.inj done)
      exact ⟨fun _ listed => mem_addRegion listed, .inr ⟨_, answer, .inr rfl, rfl⟩⟩
    | some page =>
      -- The pages are taken back, and the hint stays behind the range.
      obtain ⟨⟨result, last⟩, freed, done⟩ := Option.bind_eq_some_iff.mp done
      obtain ⟨rfl, rfl⟩ := Prod.mk.inj (Option.some.inj done)
      obtain ⟨regions, hint⟩ := vmmFreePages_ranges freed
      grind

/-- One call that hands out or takes back kernel pages. -/
inductive VmmCall
  | allocPages (count flags : Nat)
  | mapPhysical (phys flags : Nat)
  | freePages (virt count : Nat)
  | unmapPhysical (virt : Nat)

/-- The virtual memory manager together with the ranges that were returned and are still live, each
with its start and its length. -/
structure VmmSession (Alloc : Type) where
  st : VmmState Alloc
  live : List (Nat × Nat)

def recordRange (live : List (Nat × Nat)) (vaddr length : Nat) : List (Nat × Nat) :=
  if vaddr = 0 then live else (vaddr, length) :: live

/-- Forget the ranges inside the pages of a successful release. -/
def forgetRange (live : List (Nat × Nat)) (virt length : Nat) : Except VmmError Unit →
    List (Nat × Nat)
  | .ok () => live.filter fun range => !(virt ≤ range.1 && range.1 + range.2 ≤ virt + length)
  | .error _ => live

def VmmSession.perform (ops : VmmFrames Alloc) (session : VmmSession Alloc) :
    VmmCall → Option (VmmSession Alloc)
  | .allocPages count flags => do
    let (vaddr, st) ← vmmAllocPages ops count flags session.st
    some ⟨st, recordRange session.live vaddr (count * vmapPageSize flags)⟩
  | .mapPhysical phys flags => do
    let (vaddr, st) ← vmmMapPhysical ops phys flags session.st
    some ⟨st, recordRange session.live vaddr pageSize⟩
  | .freePages virt count => do
    let (result, st) ← vmmFreePages ops virt count session.st
    some ⟨st, forgetRange session.live virt (count * pageSize) result⟩
  | .unmapPhysical virt => do
    let (result, st) ← vmmUnmapPhysical virt session.st
    some ⟨st, forgetRange session.live virt pageSize result⟩

/-- The size of an allocation, from the aligned hint on, ends within the 64-bit numbers. -/
def VmmSession.Fits (session : VmmSession Alloc) : VmmCall → Prop
  | .allocPages count flags =>
    alignHint session.st.kernelVirtHint (count * vmapPageSize flags) +
      count * vmapPageSize flags < 2 ^ 64
  | _ => True

instance (session : VmmSession Alloc) (call : VmmCall) : Decidable (session.Fits call) := by
  cases call <;> unfold VmmSession.Fits <;> infer_instance

/-- Two ranges without a common address. -/
@[grind =] def Apart (first second : Nat × Nat) : Prop :=
  first.1 + first.2 ≤ second.1 ∨ second.1 + second.2 ≤ first.1

/-- Where live ranges have to lie: in the area for general allocations, apart from each other and
from the kernel's code, data and heap. -/
@[grind] structure VmmSession.Placed (session : VmmSession Alloc) : Prop where
  inside : ∀ range ∈ session.live,
    kernelGeneralBase ≤ range.1 ∧ range.1 + range.2 ≤ kernelGeneralMax
  apart : session.live.Pairwise Apart
  fixed : ∀ range ∈ session.live, ∀ region ∈ fixedRegions,
    range.1 + range.2 ≤ region.start ∨ region.stop ≤ range.1

/-- What holds after every call: live ranges are placed below the hint, which lies in the area, and
the fixed regions are tracked. -/
@[grind] structure VmmSession.Inv (session : VmmSession Alloc) : Prop extends session.Placed where
  above : kernelGeneralBase ≤ session.st.kernelVirtHint
  below : session.st.kernelVirtHint ≤ kernelGeneralMax
  passed : ∀ range ∈ session.live, range.1 + range.2 ≤ session.st.kernelVirtHint
  tracked : ∀ region ∈ fixedRegions, region ∈ session.st.regions

variable {session : VmmSession Alloc}

theorem VmmSession.Inv.claim (inv : session.Inv)
    (fits : alignHint session.st.kernelVirtHint size + size < 2 ^ 64)
    (claimed : Claimed session.st after size vaddr) :
    VmmSession.Inv ⟨after, recordRange session.live vaddr size⟩ := by
  obtain ⟨kept, ⟨rfl, same⟩ | ⟨found, located, answer, moved⟩⟩ := claimed
  · -- Nothing was found.
    refine ⟨⟨inv.inside, inv.apart, inv.fixed⟩, ?_, ?_, ?_,
      fun region listed => kept region (inv.tracked region listed)⟩
    · exact same.symm ▸ inv.above
    · exact same.symm ▸ inv.below
    · exact same.symm ▸ inv.passed
  have low : session.st.kernelVirtHint + 2 ^ 21 ≤ 2 ^ 64 := by
    have below := inv.below
    have top : kernelGeneralMax + 2 ^ 21 ≤ 2 ^ 64 := by decide
    omega
  have rounded := (alignHint_bounds size low).1
  have searched : searchVirtRange session.st.regions size (rangeAlignment size) virtSearchLimit
      (alignHint session.st.kernelVirtHint size) = some found := by
    unfold findFreeVirtRange at located
    grind
  obtain ⟨later, ends, free⟩ := searchVirtRange_found (rangeAlignment_le size).2 fits searched
  have above := inv.above
  have top : kernelGeneralMax < 2 ^ 64 := by decide
  have hint : after.kernelVirtHint = found + size := moved.trans (wrap64_of_lt (by omega))
  have passed (range : Nat × Nat) (listed : range ∈ session.live) :
      range.1 + range.2 ≤ found := by
    have before := inv.passed range listed
    omega
  have tracked (region : MemoryRegion) (listed : region ∈ fixedRegions) :=
    kept region (inv.tracked region listed)
  by_cases failed : vaddr = 0
  · rw [failed, recordRange, if_pos rfl]
    grind
  · -- The new range starts where the others have ended.
    obtain rfl : vaddr = found := answer.resolve_left failed
    rw [recordRange, if_neg failed]
    refine ⟨⟨?_, ?_, ?_⟩, ?_, ?_, ?_, tracked⟩
    · grind
    · exact List.pairwise_cons.mpr ⟨fun range listed => .inr (passed range listed), inv.apart⟩
    all_goals grind

theorem VmmSession.Inv.release (inv : session.Inv) (virt length : Nat)
    (result : Except VmmError Unit) (same : after.regions = session.st.regions ∧
      after.kernelVirtHint = session.st.kernelVirtHint) :
    VmmSession.Inv ⟨after, forgetRange session.live virt length result⟩ := by
  have sub : (forgetRange session.live virt length result).Sublist session.live := by
    cases result with
    | error => exact List.Sublist.refl _
    | ok => exact List.filter_sublist
  obtain ⟨regions, hint⟩ := same
  refine ⟨⟨fun range listed => inv.inside range (sub.mem listed), inv.apart.sublist sub,
    fun range listed => inv.fixed range (sub.mem listed)⟩, ?_, ?_, fun range listed => ?_, ?_⟩
  all_goals grind

theorem VmmSession.Inv.step {after : VmmSession Alloc} (inv : session.Inv) {call : VmmCall}
    (fits : session.Fits call) (done : session.perform ops call = some after) : after.Inv := by
  cases call with
  | allocPages count flags =>
    obtain ⟨⟨vaddr, st⟩, allocated, last⟩ := Option.bind_eq_some_iff.mp done
    obtain rfl := Option.some.inj last
    have claimed := vmmAllocPages_claims allocated
    have fits : alignHint session.st.kernelVirtHint (count * vmapPageSize flags) +
      count * vmapPageSize flags < 2 ^ 64 := fits
    rw [wrap64_of_lt (by omega)] at claimed
    exact inv.claim fits claimed
  | mapPhysical phys flags =>
    obtain ⟨⟨vaddr, st⟩, mapped, last⟩ := Option.bind_eq_some_iff.mp done
    obtain rfl := Option.some.inj last
    -- One page always fits behind a hint inside the area.
    have top : kernelGeneralMax + 2 ^ 22 ≤ 2 ^ 64 := by decide
    have below := inv.below
    have rounded := (alignHint_bounds pageSize (by omega : session.st.kernelVirtHint + 2 ^ 21 ≤
      2 ^ 64)).2.1
    have step := (rangeAlignment_le pageSize).2
    have page : pageSize ≤ 2 ^ 20 := by decide
    exact inv.claim (by omega) (vmmMapPhysical_claims mapped)
  | freePages virt count =>
    obtain ⟨⟨result, st⟩, freed, last⟩ := Option.bind_eq_some_iff.mp done
    obtain rfl := Option.some.inj last
    exact inv.release virt _ result (vmmFreePages_ranges freed)
  | unmapPhysical virt =>
    obtain ⟨⟨result, st⟩, unmapped, last⟩ := Option.bind_eq_some_iff.mp done
    obtain rfl := Option.some.inj last
    exact inv.release virt _ result (vmmUnmapPhysical_ranges unmapped)

/-- The static state before the initialisation. -/
@[grind] structure VmmState.AtBoot (st : VmmState Alloc) : Prop where
  fresh : st.initialized = false
  regions : st.regions = []
  hint : st.kernelVirtHint = kernelGeneralBase

theorem VmmSession.Inv.init {boot : VmmState Alloc} (atBoot : boot.AtBoot) (pml4 : Nat) :
    VmmSession.Inv ⟨vmmInit pml4 boot, []⟩ := by
  have made : (vmmInit pml4 boot).regions = fixedRegions ∧
      (vmmInit pml4 boot).kernelVirtHint = kernelGeneralBase := by
    unfold vmmInit
    rw [atBoot.fresh, atBoot.regions]
    exact ⟨rfl, atBoot.hint⟩
  refine ⟨⟨by simp, List.Pairwise.nil, by simp⟩, ?_, ?_, by simp, ?_⟩
  · exact Nat.le_of_eq made.2.symm
  · rw [made.2]
    decide
  · rw [made.1]
    exact fun _ listed => listed

@[grind =] def VmmSession.Step (ops : VmmFrames Alloc) (before : VmmSession Alloc) (call : VmmCall)
    (after : VmmSession Alloc) : Prop :=
  before.perform ops call = some after

@[grind =]
def VmmSession.FittingStep (ops : VmmFrames Alloc) (before : VmmSession Alloc) (call : VmmCall)
    (after : VmmSession Alloc) : Prop :=
  before.Fits call ∧ before.perform ops call = some after

/-- In every sequence of allocations, mappings, releases and unmappings after the initialisation,
also failing ones, in which no allocation's size runs over the 64-bit numbers, the live ranges lie in
the area for general allocations, apart from each other and from the kernel's own regions. -/
theorem vmm_ranges_placed {boot : VmmState Alloc} (atBoot : boot.AtBoot) {pml4 : Nat}
    {calls : List VmmCall} {session : VmmSession Alloc}
    (run : Run (VmmSession.FittingStep ops) ⟨vmmInit pml4 boot, []⟩ calls session) :
    session.Placed := by
  have inv : session.Inv := by
    refine run.preserves VmmSession.Inv (fun before call after taken held => ?_) (.init atBoot pml4)
    exact held.step taken.1 taken.2
  exact inv.toPlaced

section Boot

/-- An allocator with five free frames. -/
def scantPframe : ReadyPframe where
  st := ⟨⟨fun byte => if byte < 32 then 0xFF else 0, 261⟩, 261, pframeMinAllocBase, 261 * 4096, 256,
    true⟩
  ready := ⟨rfl, rfl, by decide⟩
  first := by decide

/-- The virtual memory manager before the initialisation, with an empty top-level table at 1 MiB and
four free frames. -/
def scantBoot : VmmState ReadyPframe where
  kernelPml4 := 0
  stats := ⟨0, 0, 0, 0, 0⟩
  regions := []
  kernelVirtHint := kernelGeneralBase
  initialized := false
  pages := (pageCreateTable pframeSource ⟨fun _ => 0, scantPframe, []⟩).2

theorem scantBoot_atBoot : scantBoot.AtBoot :=
  ⟨rfl, rfl, rfl⟩

/-- A page that is allocated lies behind the heap. -/
theorem vmm_ranges_placed_once :
    ∃ session, Run (VmmSession.FittingStep pframeVmmFrames)
      ⟨vmmInit 0x100000 scantBoot, []⟩ [.allocPages 1 0] session ∧
      session.live = [(0xFFFFFFFF89000000, 4096)] ∧ session.Placed := by
  refine @Run.exists_by_if _ _ _ _ (VmmSession.perform pframeVmmFrames) _ VmmSession.Fits _
    (·.live = [(0xFFFFFFFF89000000, 4096)]) _ (by decide +kernel) fun session run live => ?_
  exact ⟨live, vmm_ranges_placed scantBoot_atBoot run⟩

/-- A failing request for almost 2^52 pages moves the hint back below the area, and the next mapping
lands there. -/
theorem vmm_range_below_area :
    ∃ session, Run (VmmSession.Step pframeVmmFrames)
      ⟨vmmInit 0x100000 scantBoot, []⟩ [.allocPages (2 ^ 52 - 31744) 0, .mapPhysical 0 0] session ∧
      session.live = [(0xFFFFFFFF80400000, 4096)] ∧ ¬session.Placed := by
  refine @Run.exists_by _ _ _ _ (VmmSession.perform pframeVmmFrames) _
    (·.live = [(0xFFFFFFFF80400000, 4096)]) _ (by decide +kernel) fun session run live => ?_
  refine ⟨live, fun placed => ?_⟩
  have inside := placed.inside (0xFFFFFFFF80400000, 4096) (by rw [live]; exact List.mem_cons_self)
  exact absurd inside.1 (by decide)

end Boot

section Cycles

/-- Map a physical page and unmap it at once; nothing unless both calls succeed. -/
def vmmCycle (ops : VmmFrames Alloc) (phys flags : Nat) (st : VmmState Alloc) :
    Option (VmmState Alloc) :=
  match vmmMapPhysical ops phys flags st with
  | none => none
  | some (vaddr, st) =>
    if vaddr = 0 then none
    else
      match vmmUnmapPhysical vaddr st with
      | some (.ok (), st) => some st
      | _ => none

/-- A number of such cycles, one after the other. -/
def vmmCycles (ops : VmmFrames Alloc) (phys flags : Nat) :
    Nat → VmmState Alloc → Option (VmmState Alloc)
  | 0, st => some st
  | count + 1, st => (vmmCycle ops phys flags st).bind (vmmCycles ops phys flags count)

/-- The virtual addresses that are left for general allocations. -/
def VmmState.usableSpace (st : VmmState Alloc) : Nat :=
  kernelGeneralMax - st.kernelVirtHint

/-- What is expected of mapping and unmapping a page again and again: all calls succeed, and neither
the tracked regions nor the usable addresses become fewer. -/
@[grind =]
def CyclesKeep (ops : VmmFrames Alloc) (phys flags count : Nat) (st : VmmState Alloc) : Prop :=
  ∃ after, vmmCycles ops phys flags count st = some after ∧
    st.regions.length ≤ after.regions.length ∧ st.usableSpace ≤ after.usableSpace

variable {flags phys : Nat} {after st : VmmState Alloc}

theorem vmmMapPhysical_success {vaddr : Nat} (mapped : vaddr ≠ 0)
    (done : vmmMapPhysical ops phys flags st = some (vaddr, after)) :
    (findFreeVirtRange pageSize st).1 = some vaddr ∧
      after.kernelVirtHint = wrap64 (vaddr + pageSize) ∧
      after.regions = addRegion ⟨vaddr, wrap64 (vaddr + pageSize), phys, flags⟩ st.regions := by
  unfold vmmMapPhysical at done
  split at done
  · cases done
  rcases findFreeVirtRange_cases pageSize st with missing | ⟨found, located⟩
  all_goals grind

/-- What a cycle that succeeds went through: a free range was found, it was tracked if the table had
room, and a tracked region around its address was found again. -/
theorem vmmCycle_success (done : vmmCycle ops phys flags st = some after) :
    ∃ vaddr region, searchVirtRange st.regions pageSize (rangeAlignment pageSize) virtSearchLimit
        (alignHint st.kernelVirtHint pageSize) = some vaddr ∧
      after.kernelVirtHint = wrap64 (vaddr + pageSize) ∧
      after.regions = addRegion ⟨vaddr, wrap64 (vaddr + pageSize), phys, flags⟩ st.regions ∧
      region ∈ after.regions ∧ region.start ≤ vaddr ∧ vaddr < region.stop := by
  unfold vmmCycle at done
  rcases mapping : vmmMapPhysical ops phys flags st with _ | ⟨vaddr, middle⟩
  · rw [mapping] at done
    cases done
  rw [mapping] at done
  by_cases failed : vaddr = 0
  · simp only [failed, if_true] at done
    cases done
  simp only [failed, if_false] at done
  rcases unmapping : vmmUnmapPhysical vaddr middle with _ | ⟨_ | _, last⟩
  · rw [unmapping] at done
    cases done
  · rw [unmapping] at done
    cases done
  rw [unmapping] at done
  obtain rfl := Option.some.inj done
  obtain ⟨located, moved, tracked⟩ := vmmMapPhysical_success failed mapping
  obtain ⟨sameRegions, sameHint⟩ := vmmUnmapPhysical_ranges unmapping
  have searched : searchVirtRange st.regions pageSize (rangeAlignment pageSize) virtSearchLimit
      (alignHint st.kernelVirtHint pageSize) = some vaddr := by
    unfold findFreeVirtRange at located
    grind
  -- The unmapping looked the address up in the table.
  have known : (findRegion middle.regions vaddr).isNone ≠ true := by
    intro unknown
    unfold vmmUnmapPhysical at unmapping
    grind
  obtain ⟨region, found⟩ := Option.ne_none_iff_exists'.mp (mt Option.isNone_iff_eq_none.mpr known)
  have around := List.find?_some found
  simp only [Bool.and_eq_true, decide_eq_true_eq] at around
  exact ⟨vaddr, region, searched, sameHint.trans moved, sameRegions.trans tracked,
    sameRegions ▸ List.mem_of_find?_eq_some found, around⟩

/-- The hint and the ends of the tracked regions are page boundaries. -/
@[grind] structure VmmState.Paged (st : VmmState Alloc) : Prop where
  hint : st.kernelVirtHint % pageSize = 0 ∧ st.kernelVirtHint < 2 ^ 64
  stops : ∀ region ∈ st.regions, region.stop % pageSize = 0 ∧ region.stop < 2 ^ 64

theorem vmmCycle_below (paged : st.Paged) (done : vmmCycle ops phys flags st = some after) :
    st.kernelVirtHint ≤ kernelGeneralMax := by
  apply Nat.le_of_not_lt
  intro behind
  obtain ⟨vaddr, region, searched, -, tracked, listed, starts, stops⟩ := vmmCycle_success done
  have aligned : st.kernelVirtHint % 2 ^ 12 = 0 := paged.hint.1
  have word := paged.hint.2
  have page : pageSize = 2 ^ 12 := rfl
  have rounded : alignHint st.kernelVirtHint pageSize = st.kernelVirtHint := by
    have step : rangeAlignment pageSize = 2 ^ 12 := rfl
    rw [alignHint, step, land_not64_low (wrap64_lt _) (by decide), wrap64_of_lt (by omega)]
    omega
  rw [rounded] at searched
  have most : virtSearchLimit = 2 ^ 52 - 1 + 1 := rfl
  rw [most, searchVirtRange] at searched
  -- Behind the area only the last page passes the test, since its end wraps to zero.
  split at searched
  case isFalse => cases searched
  rename_i passes
  have last : st.kernelVirtHint = 2 ^ 64 - 2 ^ 12 := by
    apply Nat.le_antisymm (by omega)
    apply Nat.le_of_not_lt
    intro fits
    rw [wrap64_of_lt (by omega)] at passes
    omega
  have wraps : wrap64 (st.kernelVirtHint + pageSize) = 0 := by
    rw [last]
    rfl
  have free : checkRegionCollision st.regions st.kernelVirtHint 0 = false := by
    simp [checkRegionCollision]
  rw [wraps, free] at searched
  obtain rfl := Option.some.inj searched
  -- No region reaches into that page: all end at page boundaries.
  rw [tracked, addRegion] at listed
  grind

theorem vmmCycle_takes (below : st.kernelVirtHint ≤ kernelGeneralMax)
    (done : vmmCycle ops phys flags st = some after) :
    st.kernelVirtHint + pageSize ≤ after.kernelVirtHint ∧
      after.kernelVirtHint ≤ kernelGeneralMax ∧
      after.regions.length = st.regions.length + 1 ∧ after.regions.length ≤ maxRegions := by
  obtain ⟨vaddr, region, searched, moved, tracked, listed, around⟩ := vmmCycle_success done
  -- The range that was found is free, behind the hint and inside the area.
  have top : kernelGeneralMax + 2 ^ 22 ≤ 2 ^ 64 := by decide
  have page : pageSize ≤ 2 ^ 20 := by decide
  have rounded := alignHint_bounds pageSize (by omega : st.kernelVirtHint + 2 ^ 21 ≤ 2 ^ 64)
  have step := (rangeAlignment_le pageSize).2
  obtain ⟨later, ends, free⟩ := searchVirtRange_found step (by omega) searched
  rw [wrap64_of_lt (by omega)] at moved
  -- The region around the address can only be the new one.
  have room : st.regions.length < maxRegions := by
    apply Nat.lt_of_not_le
    intro full
    rw [addRegion, if_pos full] at tracked
    have positive : 0 < pageSize := by decide
    have apart := free region (tracked ▸ listed)
    omega
  rw [addRegion, if_neg (by omega)] at tracked
  grind

theorem vmmCycles_take {count : Nat} (below : st.kernelVirtHint ≤ kernelGeneralMax)
    (done : vmmCycles ops phys flags count st = some after) :
    st.kernelVirtHint + count * pageSize ≤ after.kernelVirtHint ∧
      after.kernelVirtHint ≤ kernelGeneralMax ∧
      after.regions.length = st.regions.length + count ∧
      (0 < count → after.regions.length ≤ maxRegions) := by
  induction count generalizing st with
  | zero =>
    obtain rfl := Option.some.inj done
    exact ⟨by omega, below, rfl, by omega⟩
  | succ count ih =>
    obtain ⟨middle, first, rest⟩ := Option.bind_eq_some_iff.mp done
    obtain ⟨moved, inside, longer, bounded⟩ := vmmCycle_takes below first
    grind

/-- When the first cycle succeeds, no number of cycles but zero keeps the bookkeeping: as many as
succeed are at most the free entries of the table, and each takes one entry and one page of addresses
for good. -/
theorem vmmCycles_keep_iff {phys flags count : Nat} {st : VmmState Alloc} (paged : st.Paged)
    (first : (vmmCycle ops phys flags st).isSome) :
    (CyclesKeep ops phys flags count st ↔ count = 0) ∧
      ∀ after, vmmCycles ops phys flags count st = some after →
        (count = 0 ∨ st.regions.length + count ≤ maxRegions) ∧
        after.regions.length = st.regions.length + count ∧
        after.usableSpace + count * pageSize ≤ st.usableSpace := by
  obtain ⟨next, succeeds⟩ := Option.isSome_iff_exists.mp first
  have below := vmmCycle_below paged succeeds
  refine ⟨⟨?_, ?_⟩, ?_⟩
  · rintro ⟨after, done, _, space⟩
    obtain ⟨moved, inside, _⟩ := vmmCycles_take below done
    have positive : 0 < pageSize := by decide
    unfold VmmState.usableSpace at space
    rcases Nat.eq_zero_or_pos count with none | some
    · exact none
    · have used : 0 < count * pageSize := Nat.mul_pos some positive
      omega
  · rintro rfl
    exact ⟨st, rfl, Nat.le_refl _, Nat.le_refl _⟩
  · intro after done
    obtain ⟨moved, inside, longer, bounded⟩ := vmmCycles_take below done
    unfold VmmState.usableSpace
    grind

theorem vmmCycles_booted :
    ∃ middle after, vmmCycle pframeVmmFrames 0 0 (vmmInit 0x100000 scantBoot) = some middle ∧
      vmmCycles pframeVmmFrames 0 0 2 (vmmInit 0x100000 scantBoot) = some after := by
  have twice : (vmmCycles pframeVmmFrames 0 0 2 (vmmInit 0x100000 scantBoot)).isSome := by
    decide +kernel
  obtain ⟨after, done⟩ := Option.isSome_iff_exists.mp twice
  obtain ⟨middle, first, _⟩ := Option.bind_eq_some_iff.mp done
  exact ⟨middle, after, first, done⟩

/-- Two cycles take two entries of the table and two pages of addresses. -/
theorem vmmCycles_keep_iff_twice :
    ∃ after, vmmCycles pframeVmmFrames 0 0 2 (vmmInit 0x100000 scantBoot) = some after ∧
      after.regions.length = 5 ∧
      after.usableSpace + 2 * pageSize ≤ (vmmInit 0x100000 scantBoot).usableSpace := by
  obtain ⟨middle, after, first, done⟩ := vmmCycles_booted
  have paged : (vmmInit 0x100000 scantBoot).Paged := ⟨by decide, by decide⟩
  obtain ⟨_, longer, space⟩ :=
    (vmmCycles_keep_iff paged (Option.isSome_iff_exists.mpr ⟨middle, first⟩)).2 after done
  exact ⟨after, done, longer, space⟩

/-- The first cycle succeeds, and 62 cycles do not, since the table has 61 free entries. -/
theorem vmmCycles_exhausted :
    (∃ after, vmmCycle pframeVmmFrames 0 0 (vmmInit 0x100000 scantBoot) = some after) ∧
      vmmCycles pframeVmmFrames 0 0 62 (vmmInit 0x100000 scantBoot) = none := by
  have below : (vmmInit 0x100000 scantBoot).kernelVirtHint ≤ kernelGeneralMax := by decide
  obtain ⟨middle, _, first, _⟩ := vmmCycles_booted
  refine ⟨⟨middle, first⟩, ?_⟩
  cases done : vmmCycles pframeVmmFrames 0 0 62 (vmmInit 0x100000 scantBoot) with
  | none => rfl
  | some after =>
    obtain ⟨_, _, longer, bounded⟩ := vmmCycles_take below done
    have tracked : (vmmInit 0x100000 scantBoot).regions.length = 3 := by decide
    have limit : maxRegions = 64 := rfl
    have full := bounded (by decide)
    omega

end Cycles

end Ccos
