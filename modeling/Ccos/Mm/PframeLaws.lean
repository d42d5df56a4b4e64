import Ccos.Mm.Pframe
import Ccos.Lib.Ledger
import Ccos.Lib.Run

/-! Every request to the frame allocator as a move of an exclusive-grant ledger. -/

namespace Ccos

open Lib

/-- An initialised allocator whose map covers exactly the managed frames. -/
@[grind] structure PframeState.Ready (st : PframeState) : Prop where
  initialized : st.initialized = true
  covers : st.frameMap.nbits = st.totalFrames
  bounded : st.totalFrames ≤ 8 * pframeMaxBitmapSize

def PframeState.marked (st : PframeState) (frame : Nat) : Bool :=
  st.frameMap.marked frame

/-- A later state of the same allocator, with the marks of a range of frames replaced. -/
@[grind] structure PframeState.Remarked (before after : PframeState) (value : Bool)
    (first count : Nat) : Prop where
  ready : after.Ready
  total : after.totalFrames = before.totalFrames
  marks : ∀ i, after.marked i =
    if first ≤ i ∧ i < first + count then value else before.marked i

theorem addrToFrame_frameToAddr {frame : Nat} (bounded : frame < 2 ^ 52) :
    addrToFrame (frameToAddr frame) = frame := by
  have fits : frame * 2 ^ 12 < 2 ^ 64 := by omega
  simp only [addrToFrame, frameToAddr, pageShift, Nat.shiftLeft_eq, wrap64_of_lt fits,
    Nat.shiftRight_eq_div_pow]
  omega

section

variable {value : Bool} {operation : Bitmap → Nat → Option Bitmap}
  (assigns : Assigns value operation) {st : PframeState} (ready : st.Ready)
include assigns ready

theorem assign_remarked {frame : Nat} (managed : frame < st.totalFrames) (hint : Nat) :
    ∃ bm, operation st.frameMap frame = some bm ∧
      st.Remarked { st with frameMap := bm, lastAllocHint := hint } value frame 1 := by
  obtain ⟨bm, done, size, marks⟩ := assigns st.frameMap frame (by rw [ready.covers]; exact managed)
  refine ⟨bm, done, ⟨ready.initialized, size.trans ready.covers, ready.bounded⟩, rfl, fun i => ?_⟩
  have only : frame ≤ i ∧ i < frame + 1 ↔ i = frame := by omega
  simp only [PframeState.marked, marks, only]

theorem range_remarked {first count : Nat} (managed : first + count ≤ st.totalFrames) (hint : Nat) :
    ∃ bm, bitmapRange operation st.frameMap first count = some bm ∧
      st.Remarked { st with frameMap := bm, lastAllocHint := hint } value first count := by
  obtain ⟨bm, done, size, marks⟩ := bitmapRange_assigns assigns st.frameMap first count
  refine ⟨bm, done, ⟨ready.initialized, size.trans ready.covers, ready.bounded⟩, rfl, fun i => ?_⟩
  -- The managed frames are few, so neither the wrap nor the clamp cuts the range.
  have small := ready.bounded
  simp only [pframeMaxBitmapSize] at small
  have stop : min (wrap64 (first + count)) st.frameMap.nbits = first + count := by
    rw [wrap64_of_lt (by omega), ready.covers]
    omega
  simp only [PframeState.marked, marks, stop]

end

/-- One frame is refused only when all are marked, and otherwise a free one becomes marked. -/
theorem pframeAlloc_cases {st : PframeState} (ready : st.Ready) :
    (pframeAlloc st = some (.error .oom, st) ∧
      ∀ frame < st.totalFrames, st.marked frame = true) ∨
    ∃ frame after, pframeAlloc st = some (.ok (frameToAddr frame), after) ∧
      frame < st.totalFrames ∧ st.marked frame = false ∧ st.Remarked after true frame 1 := by
  -- Whichever scan reports a frame, marking it is the same step.
  have found (frame : Nat) (start : Nat)
      (hit : bitmapFindNextZero st.frameMap start = some (some frame)) :
      frame < st.totalFrames ∧ st.marked frame = false := by
    have facts := bitmapFindNextZero_found hit
    exact ⟨ready.covers ▸ facts.2.1, facts.2.2⟩
  cases near : (List.range' st.lastAllocHint (st.frameMap.nbits - st.lastAllocHint)).find?
      fun i => !st.frameMap.marked i with
  | some frame =>
    have hit : bitmapFindNextZero st.frameMap st.lastAllocHint = some (some frame) := by
      rw [bitmapFindNextZero_eq, near]
    obtain ⟨managed, free⟩ := found frame _ hit
    obtain ⟨bm, marked, remarked⟩ :=
      assign_remarked bitmapSet_assigns ready managed (nextHint st (wrap64 (frame + 1)))
    exact .inr ⟨frame, _, by simp [pframeAlloc, ready.initialized, hit, marked], managed, free,
      remarked⟩
  | none =>
    have miss : bitmapFindNextZero st.frameMap st.lastAllocHint = some none := by
      rw [bitmapFindNextZero_eq, near]
    -- Past the hint everything is marked, so the whole map is scanned again.
    cases whole : (List.range' 0 (st.frameMap.nbits - 0)).find?
        fun i => !st.frameMap.marked i with
    | some frame =>
      have hit : bitmapFindNextZero st.frameMap 0 = some (some frame) := by
        rw [bitmapFindNextZero_eq, whole]
      obtain ⟨managed, free⟩ := found frame _ hit
      obtain ⟨bm, marked, remarked⟩ :=
        assign_remarked bitmapSet_assigns ready managed (nextHint st (wrap64 (frame + 1)))
      exact .inr ⟨frame, _,
        by simp [pframeAlloc, ready.initialized, miss, bitmapFindFirstZero, hit, marked],
        managed, free, remarked⟩
    | none =>
      have none : bitmapFindNextZero st.frameMap 0 = some none := by
        rw [bitmapFindNextZero_eq, whole]
      refine .inl ⟨by simp [pframeAlloc, ready.initialized, miss, bitmapFindFirstZero, none], ?_⟩
      intro frame managed
      exact bitmapFindNextZero_missing none (Nat.zero_le _) (by rw [ready.covers]; exact managed)

/-- Consecutive managed frames of which none is marked. -/
@[grind =] def PframeState.FreeRun (st : PframeState) (first count : Nat) : Prop :=
  first + count ≤ st.totalFrames ∧
    ∀ frame, first ≤ frame → frame < first + count → st.marked frame = false

/-- The search reports the first complete run of unmarked frames, or that there is none. -/
theorem findRun_exact (bm : Bitmap) {frameCount low : Nat} :
    ∀ remaining runStart runLength i : Nat, runLength < frameCount → i + remaining ≤ bm.nbits →
      low ≤ i → (0 < runLength → runStart + runLength = i ∧ low ≤ runStart) →
      (∀ frame, runStart ≤ frame → frame < runStart + runLength → bm.marked frame = false) →
      (∀ start, low ≤ start → start + frameCount ≤ i →
        ∃ frame, start ≤ frame ∧ frame < start + frameCount ∧ bm.marked frame = true) →
      (∀ start, low ≤ start → start + runLength < i →
        ∃ frame, start ≤ frame ∧ frame < i ∧ bm.marked frame = true) →
      ∃ result, findRun bm frameCount runStart runLength i remaining = some result ∧
        match result with
        | some first => low ≤ first ∧ first + frameCount ≤ i + remaining ∧
            (∀ frame, first ≤ frame → frame < first + frameCount → bm.marked frame = false) ∧
            ∀ start, low ≤ start → start < first →
              ∃ frame, start ≤ frame ∧ frame < start + frameCount ∧ bm.marked frame = true
        | none => ∀ start, low ≤ start → start + frameCount ≤ i + remaining →
            ∃ frame, start ≤ frame ∧ frame < start + frameCount ∧ bm.marked frame = true := by
  -- No complete run ends before the frame under inspection, and no run reaches it from further
  -- away than the run in hand.
  intro remaining
  induction remaining with
  | zero =>
    intro runStart runLength i _ _ _ _ _ noRun _
    exact ⟨none, rfl, noRun⟩
  | succ remaining ih =>
    intro runStart runLength i short inside above joined free noRun noReach
    have tested := @bitmapTest_eq bm i (by omega)
    rw [show i + (remaining + 1) = i + 1 + remaining by omega]
    cases mark : bm.marked i with
    | true =>
      -- The marked frame ends the run in hand and every run that reaches it.
      have ended (start : Nat) (fromLow : low ≤ start) (stop : start + frameCount ≤ i + 1) :
          ∃ frame, start ≤ frame ∧ frame < start + frameCount ∧ bm.marked frame = true := by
        grind
      obtain ⟨result, searched, facts⟩ := ih runStart 0 (i + 1) (by omega) (by omega) (by omega)
        (by omega) (by omega) ended fun start _ before => ⟨i, by omega, by omega, mark⟩
      exact ⟨result, by simpa [findRun, tested, mark] using searched, facts⟩
    | false =>
      have starts : (if runLength = 0 then i else runStart) + runLength = i ∧
          low ≤ if runLength = 0 then i else runStart := by
        split
        · omega
        · exact joined (by omega)
      -- Joining this frame extends the run, or starts one at it.
      have extended (frame : Nat) (reached : (if runLength = 0 then i else runStart) ≤ frame)
          (stop : frame < (if runLength = 0 then i else runStart) + (runLength + 1)) :
          bm.marked frame = false := by
        grind
      by_cases enough : frameCount ≤ runLength + 1
      · refine ⟨some (if runLength = 0 then i else runStart),
          by simp [findRun, tested, mark, enough], starts.2, by omega, ?_, ?_⟩
        all_goals grind
      · have noneYet (start : Nat) (fromLow : low ≤ start) (stop : start + frameCount ≤ i + 1) :
            ∃ frame, start ≤ frame ∧ frame < start + frameCount ∧ bm.marked frame = true := by
          -- A run that ends here is longer than the run in hand.
          grind
        have noneReaches (start : Nat) (fromLow : low ≤ start)
            (before : start + (runLength + 1) < i + 1) :
            ∃ frame, start ≤ frame ∧ frame < i + 1 ∧ bm.marked frame = true := by
          grind
        obtain ⟨result, searched, facts⟩ := ih (if runLength = 0 then i else runStart)
          (runLength + 1) (i + 1) (by omega) (by omega) (by omega) (by omega) extended noneYet
          noneReaches
        exact ⟨result, by simpa [findRun, tested, mark, enough] using searched, facts⟩

/-- The run that a search for free frames meets first: the lowest one from the hint on, or else the
lowest one between 1 MiB and the hint. -/
@[grind =] def PframeState.Meets (st : PframeState) (frameCount first : Nat) : Prop :=
  st.FreeRun first frameCount ∧
    ((st.lastAllocHint ≤ first ∧
        ∀ start, st.lastAllocHint ≤ start → start < first → ¬st.FreeRun start frameCount) ∨
      (∀ start, st.lastAllocHint ≤ start → ¬st.FreeRun start frameCount) ∧
        addrToFrame pframeMinAllocBase ≤ first ∧ first + frameCount ≤ st.lastAllocHint ∧
        ∀ start, addrToFrame pframeMinAllocBase ≤ start → start < first →
          ¬st.FreeRun start frameCount)

section

variable {st : PframeState} (ready : st.Ready)
include ready

/-- A pass over a segment of the managed frames reports its first free run, or that it has none. -/
theorem findRun_segment {frameCount low stop : Nat} (positive : 0 < frameCount)
    (managed : stop ≤ st.totalFrames) :
    ∃ result, findRun st.frameMap frameCount 0 0 low (stop - low) = some result ∧
      match result with
      | some first => low ≤ first ∧ first + frameCount ≤ stop ∧ st.FreeRun first frameCount ∧
          ∀ start, low ≤ start → start < first → ¬st.FreeRun start frameCount
      | none => ∀ start, low ≤ start → start + frameCount ≤ stop → ¬st.FreeRun start frameCount := by
  have broken {start : Nat} (marked : ∃ frame, start ≤ frame ∧ frame < start + frameCount ∧
      st.frameMap.marked frame = true) : ¬st.FreeRun start frameCount := by
    obtain ⟨frame, reached, before, mark⟩ := marked
    intro run
    have free : st.frameMap.marked frame = false := run.2 frame reached before
    rw [free] at mark
    cases mark
  by_cases nonempty : low ≤ stop
  swap
  · -- A pass that starts behind its end looks at nothing.
    rw [show stop - low = 0 by omega]
    exact ⟨none, rfl, fun start above before => by omega⟩
  obtain ⟨result, searched, facts⟩ := @findRun_exact st.frameMap frameCount low (stop - low) 0 0 low
    positive (by rw [ready.covers]; omega) (Nat.le_refl _) (by omega) (by omega)
    (fun start above before => by omega) (fun start above before => by omega)
  refine ⟨result, searched, ?_⟩
  rw [show low + (stop - low) = stop by omega] at facts
  cases result with
  | none => exact fun start above before => broken (facts start above before)
  | some first =>
    obtain ⟨above, before, free, least⟩ := facts
    exact ⟨above, before, ⟨by omega, free⟩, fun start reached earlier =>
      broken (least start reached earlier)⟩

/-- A request for managed frames gets the first free run from the hint on, or else the first one
between the lowest preferred frame and the hint, or it is refused. -/
theorem pframeAllocN_spec {frameCount : Nat} (positive : 0 < frameCount)
    (fits : frameCount ≤ st.totalFrames) :
    (∃ first after, pframeAllocN st frameCount = some (.ok (frameToAddr first), after) ∧
      st.Meets frameCount first ∧ st.Remarked after true first frameCount) ∨
    pframeAllocN st frameCount = some (.error .oom, st) ∧
      (∀ start, st.lastAllocHint ≤ start → ¬st.FreeRun start frameCount) ∧
      ∀ start, addrToFrame pframeMinAllocBase ≤ start → start + frameCount ≤ st.lastAllocHint →
        ¬st.FreeRun start frameCount := by
  have grant (first : Nat) (run : st.FreeRun first frameCount) :=
    range_remarked bitmapSet_assigns ready run.1 (nextHint st (wrap64 (first + frameCount)))
  have nonzero : frameCount ≠ 0 := by omega
  have enough : ¬st.totalFrames < frameCount := by omega
  obtain ⟨near, nearRun, nearFacts⟩ := @findRun_segment st ready frameCount st.lastAllocHint
    st.totalFrames positive (Nat.le_refl _)
  cases near with
  | some first =>
    obtain ⟨above, _, run, least⟩ := nearFacts
    obtain ⟨bm, marked, remarked⟩ := grant first run
    refine .inl ⟨first, _, ?_, ⟨run, .inl ⟨above, least⟩⟩, remarked⟩
    simp [pframeAllocN, ready.initialized, nonzero, enough, nearRun, bitmapSetRange, marked]
  | none =>
    have past (start : Nat) (above : st.lastAllocHint ≤ start) : ¬st.FreeRun start frameCount :=
      fun run => nearFacts start above run.1 run
    -- Nothing fits behind the hint, so the frames before it are searched.
    obtain ⟨below, belowRun, belowFacts⟩ := @findRun_segment st ready frameCount
      (addrToFrame pframeMinAllocBase) (min st.lastAllocHint st.totalFrames) positive
      (Nat.min_le_right ..)
    cases below with
    | some first =>
      obtain ⟨above, before, run, least⟩ := belowFacts
      obtain ⟨bm, marked, remarked⟩ := grant first run
      refine .inl ⟨first, _, ?_,
        ⟨run, .inr ⟨past, above, (Nat.le_min.mp before).1, least⟩⟩, remarked⟩
      simp [pframeAllocN, ready.initialized, nonzero, enough, nearRun, belowRun, bitmapSetRange,
        marked]
    | none =>
      refine .inr ⟨?_, past, fun start above before run => ?_⟩
      · simp [pframeAllocN, ready.initialized, nonzero, enough, nearRun, belowRun]
      grind

theorem pframeAllocN_cases (frameCount : Nat) :
    (∃ code, pframeAllocN st frameCount = some (.error code, st)) ∨
    ∃ first after, pframeAllocN st frameCount = some (.ok (frameToAddr first), after) ∧
      0 < frameCount ∧ first + frameCount ≤ st.totalFrames ∧
      (∀ frame, first ≤ frame → frame < first + frameCount → st.marked frame = false) ∧
      st.Remarked after true first frameCount := by
  by_cases empty : frameCount = 0
  · exact .inl ⟨.invalid, by simp [pframeAllocN, ready.initialized, empty]⟩
  by_cases large : st.totalFrames < frameCount
  · exact .inl ⟨.oom, by simp [pframeAllocN, ready.initialized, empty, large]⟩
  rcases pframeAllocN_spec ready (Nat.pos_of_ne_zero empty) (Nat.le_of_not_lt large) with
    ⟨first, after, done, met, remarked⟩ | ⟨refused, _, _⟩
  all_goals grind

theorem pframeFree_cases (addr : Nat) :
    (¬(isPageAligned addr = true ∧ addrToFrame addr < st.totalFrames ∧
        st.marked (addrToFrame addr) = true) ∧
      pframeFree st addr = some (.error .invalid, st)) ∨
    ∃ after, pframeFree st addr = some (.ok (), after) ∧
      st.Remarked after false (addrToFrame addr) 1 := by
  by_cases aligned : isPageAligned addr = true
  swap
  · exact .inl ⟨fun met => aligned met.1, by simp [pframeFree, ready.initialized, aligned]⟩
  by_cases outside : st.totalFrames ≤ addrToFrame addr
  · exact .inl ⟨fun met => absurd met.2.1 (by omega),
      by simp [pframeFree, ready.initialized, aligned, outside]⟩
  have tested := @bitmapTest_eq st.frameMap (addrToFrame addr)
    (by rw [ready.covers]; omega)
  cases mark : st.frameMap.marked (addrToFrame addr) with
  | false =>
    exact .inl ⟨fun met => absurd (mark.symm.trans met.2.2) (by decide),
      by simp [pframeFree, ready.initialized, aligned, outside, tested, mark]⟩
  | true =>
    obtain ⟨bm, cleared, remarked⟩ :=
      assign_remarked bitmapClear_assigns ready (Nat.lt_of_not_le outside) st.lastAllocHint
    exact .inr ⟨_,
      by simp [pframeFree, ready.initialized, aligned, outside, tested, mark, cleared], remarked⟩

theorem pframeFreeN_cases (addr frameCount : Nat)
    (managed : addrToFrame addr + frameCount ≤ st.totalFrames) :
    (∃ code, pframeFreeN st addr frameCount = some (.error code, st)) ∨
    ∃ after, pframeFreeN st addr frameCount = some (.ok (), after) ∧
      st.Remarked after false (addrToFrame addr) frameCount := by
  by_cases empty : frameCount = 0
  · exact .inl ⟨.invalid, by simp [pframeFreeN, ready.initialized, empty]⟩
  by_cases aligned : isPageAligned addr = true
  swap
  · exact .inl ⟨.invalid, by simp [pframeFreeN, ready.initialized, empty, aligned]⟩
  have small := ready.bounded
  simp only [pframeMaxBitmapSize] at small
  have exactSum : wrap64 (addrToFrame addr + frameCount) = addrToFrame addr + frameCount :=
    wrap64_of_lt (by omega)
  obtain ⟨bm, cleared, remarked⟩ :=
    range_remarked bitmapClear_assigns ready managed st.lastAllocHint
  have low : ¬st.totalFrames ≤ addrToFrame addr := by omega
  have high : ¬st.totalFrames < addrToFrame addr + frameCount := by omega
  refine .inr ⟨_, ?_, remarked⟩
  simp [pframeFreeN, ready.initialized, empty, aligned, low, exactSum, high, bitmapClearRange,
    cleared]

end

end Ccos
