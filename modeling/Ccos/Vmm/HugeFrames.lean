import Ccos.Vmm.KernelSpace

/-! The frames of a huge page: what `vmm_alloc_pages` and `vmm_alloc_pages_at` take from the frame
allocator, and what they give back around the aligned part. -/

namespace Ccos

open Lib

variable {Alloc : Type}

theorem frameToAddr_of_lt {frame : Nat} (bounded : frame < 2 ^ 52) :
    frameToAddr frame = frame * 2 ^ 12 := by
  rw [frameToAddr, pageShift, Nat.shiftLeft_eq, wrap64_of_lt (by omega)]

/-- The first frame from a given one on that starts a block of the given number of frames. -/
def alignedFrame (count first : Nat) : Nat :=
  (first + count - 1) / count * count

theorem alignedFrame_bounds {count : Nat} (positive : 0 < count) (first : Nat) :
    first ≤ alignedFrame count first ∧ alignedFrame count first < first + count := by
  have split := Nat.div_add_mod (first + count - 1) count
  have rest := Nat.mod_lt (first + count - 1) positive
  rw [Nat.mul_comm] at split
  unfold alignedFrame
  omega

theorem alignedFrame_mod (count first : Nat) : alignedFrame count first % count = 0 :=
  Nat.mul_mod_left ..

theorem alignedFrame_eq_iff {count : Nat} (positive : 0 < count) (first : Nat) :
    alignedFrame count first = first ↔ first % count = 0 := by
  constructor
  · intro same
    rw [← same]
    exact alignedFrame_mod count first
  · intro aligned
    obtain ⟨later, near⟩ := alignedFrame_bounds positive first
    -- Two multiples that are less than one block apart are equal.
    have apart : (alignedFrame count first - first) % count = 0 :=
      Nat.sub_mod_eq_zero_of_mod_eq ((alignedFrame_mod count first).trans aligned.symm)
    rw [Nat.mod_eq_of_lt (by omega)] at apart
    omega

theorem hugeFrames (k : Nat) : 2 ^ (k + 12) / pageSize = 2 ^ k := by
  rw [Nat.pow_add]
  exact Nat.mul_div_cancel _ (by decide)

theorem roundUp_frameToAddr {k first : Nat} (huge : k ≤ 18) (bounded : first ≤ 2 ^ 24) :
    wrap64 (frameToAddr first + 2 ^ (k + 12) - 1) &&& not64 (2 ^ (k + 12) - 1) =
      frameToAddr (alignedFrame (2 ^ k) first) := by
  have small : 2 ^ k ≤ 2 ^ 18 := Nat.pow_le_pow_right (by decide) huge
  have positive := Nat.two_pow_pos k
  obtain ⟨later, near⟩ := alignedFrame_bounds positive first
  have bytes : 2 ^ (k + 12) = 2 ^ 12 * 2 ^ k := by rw [Nat.pow_add, Nat.mul_comm]
  rw [land_not64_low (wrap64_lt _) (by omega), frameToAddr_of_lt (by omega),
    frameToAddr_of_lt (by omega), bytes, wrap64_of_lt (by omega), ← Nat.div_div_eq_div_mul]
  have divided : (first * 2 ^ 12 + 2 ^ 12 * 2 ^ k - 1) / 2 ^ 12 = first + 2 ^ k - 1 := by omega
  rw [divided, Nat.mul_comm (2 ^ 12), ← Nat.mul_assoc, alignedFrame]

/-- After either request was granted, the frames around the aligned part are given back. Their number
is that of the doubled request in both cases. -/
theorem allocAligned_of_granted {runs : RunOps Alloc} {frames middle left after : Alloc}
    {k first retries : Nat} (huge : k ≤ 18) (bounded : first ≤ 2 ^ 24)
    (granted : runs.allocN frames (2 ^ k * 2) = some (some (frameToAddr first), middle) ∨
      ∃ between, runs.allocN frames (2 ^ k * 2) = some (none, between) ∧
        runs.allocN between (2 ^ k) = some (some (frameToAddr first), middle))
    (lead : (if 0 < alignedFrame (2 ^ k) first - first then
      runs.freeN middle (frameToAddr first) (alignedFrame (2 ^ k) first - first)
      else some middle) = some left)
    (tail : runs.freeN left (frameToAddr (alignedFrame (2 ^ k) first + 2 ^ k))
      (first + 2 ^ k - alignedFrame (2 ^ k) first) = some after) :
    allocAligned runs (2 ^ (k + 12)) (retries + 1) frames =
      some (some (frameToAddr (alignedFrame (2 ^ k) first)), after) := by
  have needed := hugeFrames k
  have rounded := roundUp_frameToAddr huge bounded
  have bytes : 2 ^ (k + 12) = 2 ^ k * 2 ^ 12 := Nat.pow_add ..
  have small : 2 ^ k ≤ 2 ^ 18 := Nat.pow_le_pow_right (by decide) huge
  obtain ⟨later, near⟩ := alignedFrame_bounds (Nat.two_pow_pos k) first
  have page : pageSize = 2 ^ 12 := rfl
  -- All addresses stay far below the end of the address space.
  have temp := frameToAddr_of_lt (by omega : first < 2 ^ 52)
  have part := frameToAddr_of_lt (by omega : alignedFrame (2 ^ k) first < 2 ^ 52)
  have next := frameToAddr_of_lt (by omega : alignedFrame (2 ^ k) first + 2 ^ k < 2 ^ 52)
  have behind : wrap64 (frameToAddr (alignedFrame (2 ^ k) first) + 2 ^ (k + 12)) =
      frameToAddr (alignedFrame (2 ^ k) first + 2 ^ k) := by
    rw [part, next, bytes, wrap64_of_lt (by omega), Nat.add_mul]
  have fits : frameToAddr (alignedFrame (2 ^ k) first + 2 ^ k) ≤
      wrap64 (frameToAddr first + 2 ^ k * 2 * pageSize) := by
    rw [temp, next, page, wrap64_of_lt (by omega)]
    omega
  have before : sub64 (frameToAddr (alignedFrame (2 ^ k) first)) (frameToAddr first) / pageSize =
      alignedFrame (2 ^ k) first - first := by
    rw [temp, part, page, sub64_of_le (by omega) (by omega)]
    omega
  have rest : sub64 (sub64 (2 ^ k * 2) (alignedFrame (2 ^ k) first - first)) (2 ^ k) =
      first + 2 ^ k - alignedFrame (2 ^ k) first := by
    have doubled : sub64 (2 ^ k * 2) (alignedFrame (2 ^ k) first - first) =
        2 ^ k * 2 - (alignedFrame (2 ^ k) first - first) := sub64_of_le (by omega) (by omega)
    rw [doubled, sub64_of_le (by omega) (by omega)]
    omega
  have nonempty : 0 < first + 2 ^ k - alignedFrame (2 ^ k) first := by omega
  -- The powers stay closed for the rest of the proof.
  clear bytes small temp part next
  generalize 2 ^ (k + 12) = size at *
  generalize alignedFrame (2 ^ k) first = aligned at *
  generalize 2 ^ k = count at *
  rcases granted with twice | ⟨between, refused, once⟩
  on_goal 1 =>
    rw [allocAligned, needed, twice, Option.bind_eq_bind, Option.bind_some]
    dsimp only
    rw [Option.bind_some]
  on_goal 2 =>
    rw [allocAligned, needed, refused, Option.bind_eq_bind, Option.bind_some]
    dsimp only
    rw [once, Option.bind_some]
  all_goals
    dsimp only
    rw [rounded, behind, if_pos fits, before, rest]
    simp only [if_pos nonempty, Option.bind_eq_bind]
    split at lead
    · rw [if_pos ‹_›, lead, Option.bind_some, tail, Option.bind_some]
    · rw [if_neg ‹_›, lead, Option.bind_some, tail, Option.bind_some]

section Log

variable {st : PframeState} {log : RunLog} {k first needed frameCount : Nat}

/-- The allocator with a record of the runs that it handed out and that were given back with success,
each as its first frame and its length. -/
structure RunLog where
  pframe : PframeState
  taken : List (Nat × Nat)
  given : List (Nat × Nat)

def RunLog.grant (log : RunLog) (frameCount : Nat) :
    Except PframeError Nat × PframeState → Option Nat × RunLog
  | (.ok addr, st) =>
    (some addr, { log with pframe := st, taken := (addrToFrame addr, frameCount) :: log.taken })
  | (.error _, st) => (none, { log with pframe := st })

def RunLog.giveBack (log : RunLog) (addr frameCount : Nat) :
    Except PframeError Unit × PframeState → RunLog
  | (.ok (), st) =>
    { log with pframe := st, given := (addrToFrame addr, frameCount) :: log.given }
  | (.error _, st) => { log with pframe := st }

/-- The allocator of `mm/pframe` with such a record. -/
def loggedRuns : RunOps RunLog where
  allocN log frameCount := (pframeAllocN log.pframe frameCount).map (log.grant frameCount)
  freeN log addr frameCount := (pframeFreeN log.pframe addr frameCount).map
    (log.giveBack addr frameCount)

def CoversFrame (runs : List (Nat × Nat)) (frame : Nat) : Prop :=
  ∃ run ∈ runs, run.1 ≤ frame ∧ frame < run.1 + run.2

/-- What is expected of getting the frames of a huge page: only frames that were taken here are given
back; with success the newly marked frames are those of one aligned block; without, no mark changes. -/
def HugeContract (st : PframeState) (size : Nat) : Prop :=
  ∃ result log, allocAligned loggedRuns size maxRetries ⟨st, [], []⟩ = some (result, log) ∧
    (∀ frame, CoversFrame log.given frame → CoversFrame log.taken frame) ∧
    match result with
    | some paddr => paddr % size = 0 ∧ ∀ frame,
        (log.pframe.marked frame = true ∧ st.marked frame = false) ↔
          addrToFrame paddr ≤ frame ∧ frame < addrToFrame paddr + size / pageSize
    | none => ∀ frame, log.pframe.marked frame = st.marked frame

/-- Frames that are given back are noted and lose their mark if all of them are managed; else nothing
happens. -/
theorem loggedRuns_freeN (ready : log.pframe.Ready) {frame : Nat} (positive : 0 < frameCount)
    (low : frame + frameCount < 2 ^ 52) :
    ∃ after, loggedRuns.freeN log (frameToAddr frame) frameCount = some after ∧
      after.taken = log.taken ∧ after.pframe.Ready ∧
      after.pframe.totalFrames = log.pframe.totalFrames ∧
      ∀ other, (CoversFrame after.given other ↔ CoversFrame log.given other ∨
          frame + frameCount ≤ log.pframe.totalFrames ∧ frame ≤ other ∧ other < frame + frameCount) ∧
        after.pframe.marked other = if frame + frameCount ≤ log.pframe.totalFrames ∧ frame ≤ other ∧
          other < frame + frameCount then false else log.pframe.marked other := by
  have place := addrToFrame_frameToAddr (by omega : frame < 2 ^ 52)
  have aligned : isPageAligned (frameToAddr frame) = true := by
    rw [isPageAligned_iff, frameToAddr_of_lt (by omega)]
    exact Nat.mul_mod_left ..
  have call : loggedRuns.freeN log (frameToAddr frame) frameCount =
      (pframeFreeN log.pframe (frameToAddr frame) frameCount).map
        (log.giveBack (frameToAddr frame) frameCount) := rfl
  rcases pframeFreeN_eq ready (frameToAddr frame) (by omega : frameCount < 2 ^ 64) with
    ⟨⟨_, _, _, ends⟩, bm, cleared, done⟩ | ⟨outside, failed⟩
  · rw [place] at ends cleared
    have inside : frame + frameCount ≤ log.pframe.totalFrames := by omega
    obtain ⟨other, again, remarked⟩ :=
      range_remarked bitmapClear_assigns ready inside log.pframe.lastAllocHint
    obtain rfl := Option.some.inj (cleared.symm.trans again)
    rw [call, done, Option.map_some]
    refine ⟨_, rfl, rfl, remarked.ready, remarked.total, fun other => ⟨?_, ?_⟩⟩
    · simp [RunLog.giveBack, CoversFrame, place, inside, or_comm]
    · simp only [inside, true_and]
      exact remarked.marks other
  · have unmanaged : ¬frame + frameCount ≤ log.pframe.totalFrames := by
      intro inside
      exact outside ⟨aligned, positive, by rw [place]; omega, .inr (by rw [place]; exact inside)⟩
    rw [call, failed, Option.map_some]
    exact ⟨_, rfl, rfl, ready, rfl, fun other => by simp [RunLog.giveBack, unmanaged]⟩

/-- What is left of a granted run after it was trimmed to the needed frames: the frames before the
aligned part are given back, and so are those behind it up to twice the needed frames if they are
managed, whether the run reached so far or not. -/
structure Trimmed (st : PframeState) (needed first frameCount : Nat) (log : RunLog) : Prop where
  taken : log.taken = [(first, frameCount)]
  given : ∀ frame, CoversFrame log.given frame ↔
    first ≤ frame ∧ frame < alignedFrame needed first ∨
    first + 2 * needed ≤ st.totalFrames ∧ alignedFrame needed first + needed ≤ frame ∧
      frame < first + 2 * needed
  cleared : ∀ frame, CoversFrame log.given frame → log.pframe.marked frame = false
  kept : ∀ frame, ¬CoversFrame log.given frame → log.pframe.marked frame =
    if first ≤ frame ∧ frame < first + frameCount then true else st.marked frame

/-- A granted run of at least the needed frames is trimmed by the two calls around the aligned part. -/
theorem loggedRuns_trim {granted : PframeState} (positive : 0 < needed) (small : needed ≤ 2 ^ 18)
    (bounded : first ≤ 2 ^ 24) (wide : needed ≤ frameCount)
    (inside : first + frameCount ≤ st.totalFrames)
    (remarked : st.Remarked granted true first frameCount) :
    ∃ left after : RunLog,
      (if 0 < alignedFrame needed first - first then
        loggedRuns.freeN ⟨granted, [(first, frameCount)], []⟩ (frameToAddr first)
          (alignedFrame needed first - first)
        else some ⟨granted, [(first, frameCount)], []⟩) = some left ∧
      loggedRuns.freeN left (frameToAddr (alignedFrame needed first + needed))
        (first + needed - alignedFrame needed first) = some after ∧
      Trimmed st needed first frameCount after := by
  obtain ⟨later, near⟩ := alignedFrame_bounds positive first
  generalize place : alignedFrame needed first = aligned at *
  -- The frames before the aligned part belong to the run.
  obtain ⟨left, lead, taken, ready, total, before⟩ : ∃ left : RunLog,
      (if 0 < aligned - first then
        loggedRuns.freeN ⟨granted, [(first, frameCount)], []⟩ (frameToAddr first) (aligned - first)
        else some ⟨granted, [(first, frameCount)], []⟩) = some left ∧
      left.taken = [(first, frameCount)] ∧ left.pframe.Ready ∧
      left.pframe.totalFrames = st.totalFrames ∧
      ∀ frame, (CoversFrame left.given frame ↔ first ≤ frame ∧ frame < aligned) ∧
        left.pframe.marked frame =
          if first ≤ frame ∧ frame < aligned then false else granted.marked frame := by
    split
    · obtain ⟨left, done, taken, ready, total, facts⟩ := @loggedRuns_freeN
        ⟨granted, [(first, frameCount)], []⟩ (aligned - first) remarked.ready first ‹_› (by omega)
      refine ⟨left, done, taken, ready, total.trans remarked.total, fun frame => ?_⟩
      have managed : aligned ≤ granted.totalFrames := by rw [remarked.total]; omega
      simpa [CoversFrame, Nat.add_sub_cancel' later, managed] using facts frame
    · refine ⟨_, rfl, rfl, remarked.ready, remarked.total, fun frame => ?_⟩
      have none : ¬(first ≤ frame ∧ frame < aligned) := by omega
      simp [CoversFrame, none]
  -- Those behind it need not.
  have stop : aligned + needed + (first + needed - aligned) = first + 2 * needed := by omega
  obtain ⟨after, tail, taken', _, _, behind⟩ := @loggedRuns_freeN left (first + needed - aligned)
    ready (aligned + needed) (by omega) (by omega)
  simp only [stop, total, before] at behind
  refine ⟨left, after, lead, tail, taken'.trans taken, place ▸ fun frame => (behind frame).1,
    fun frame gone => ?_, fun frame kept => ?_⟩
  · rw [(behind frame).2]
    rcases (behind frame).1.mp gone with early | late
    · rw [if_pos early, ite_self]
    · rw [if_pos late]
  · have outside := mt (behind frame).1.mpr kept
    rw [(behind frame).2, if_neg (mt .inr outside), if_neg (mt .inl outside)]
    exact remarked.marks frame

theorem loggedRuns_allocN (ready : st.Ready) (positive : 0 < frameCount) :
    (∃ first after, loggedRuns.allocN ⟨st, [], []⟩ frameCount =
        some (some (frameToAddr first), ⟨after, [(first, frameCount)], []⟩) ∧
      st.Meets frameCount first ∧ st.Remarked after true first frameCount) ∨
    loggedRuns.allocN ⟨st, [], []⟩ frameCount = some (none, ⟨st, [], []⟩) ∧
      ∀ first, ¬st.Meets frameCount first := by
  rcases pframeAllocN_meets ready positive with
    ⟨first, after, done, met, remarked⟩ | ⟨refused, none⟩
  · have small := ready.bounded
    have inside := met.1.1
    simp only [pframeMaxBitmapSize] at small
    refine .inl ⟨first, after, ?_, met, remarked⟩
    change (pframeAllocN st frameCount).map _ = _
    rw [done, Option.map_some, RunLog.grant, addrToFrame_frameToAddr (by omega)]
  · refine .inr ⟨?_, none⟩
    change (pframeAllocN st frameCount).map _ = _
    rw [refused, Option.map_some, RunLog.grant]

/-- How the frames of a huge page are got: the run that the search meets is trimmed, first among those
of twice the needed frames, then among those of the needed frames; without either, nothing happens. -/
theorem allocAligned_logged (ready : st.Ready) (huge : k ≤ 18) :
    (∃ first frameCount log,
      allocAligned loggedRuns (2 ^ (k + 12)) maxRetries ⟨st, [], []⟩ =
        some (some (frameToAddr (alignedFrame (2 ^ k) first)), log) ∧
      (st.Meets (2 ^ k * 2) first ∧ frameCount = 2 ^ k * 2 ∨
        (∀ other, ¬st.Meets (2 ^ k * 2) other) ∧ st.Meets (2 ^ k) first ∧ frameCount = 2 ^ k) ∧
      st.FreeRun first frameCount ∧ Trimmed st (2 ^ k) first frameCount log) ∨
    allocAligned loggedRuns (2 ^ (k + 12)) maxRetries ⟨st, [], []⟩ = some (none, ⟨st, [], []⟩) ∧
      (∀ first, ¬st.Meets (2 ^ k * 2) first) ∧ ∀ first, ¬st.Meets (2 ^ k) first := by
  have positive := Nat.two_pow_pos k
  have small : 2 ^ k ≤ 2 ^ 18 := Nat.pow_le_pow_right (by decide) huge
  have managed := ready.bounded
  simp only [pframeMaxBitmapSize] at managed
  rcases loggedRuns_allocN ready (by omega : 0 < 2 ^ k * 2) with
    ⟨first, granted, twice, met, remarked⟩ | ⟨refused, missing⟩
  · have inside := met.1.1
    obtain ⟨left, after, lead, tail, trimmed⟩ := loggedRuns_trim positive small (by omega)
      (by omega) inside remarked
    exact .inl ⟨first, _, after, allocAligned_of_granted huge (by omega) (.inl twice) lead tail,
      .inl ⟨met, rfl⟩, met.1, trimmed⟩
  rcases loggedRuns_allocN ready positive with
    ⟨first, granted, once, met, remarked⟩ | ⟨refusedToo, none⟩
  · have inside := met.1.1
    obtain ⟨left, after, lead, tail, trimmed⟩ := loggedRuns_trim positive small (by omega)
      (Nat.le_refl _) inside remarked
    exact .inl ⟨first, _, after,
      allocAligned_of_granted huge (by omega) (.inr ⟨_, refused, once⟩) lead tail,
      .inr ⟨missing, met, rfl⟩, met.1, trimmed⟩
  · refine .inr ⟨?_, missing, none⟩
    have retries : maxRetries = 9 + 1 := rfl
    rw [retries, allocAligned, hugeFrames, refused, Option.bind_eq_bind, Option.bind_some]
    dsimp only
    rw [refusedToo, Option.bind_some]

theorem Trimmed.covers_taken (trimmed : Trimmed st needed first frameCount log) (frame : Nat) :
    CoversFrame log.taken frame ↔ first ≤ frame ∧ frame < first + frameCount := by
  simp [CoversFrame, trimmed.taken]

/-- The frames that are newly marked are those of the run that were not given back. -/
theorem Trimmed.marks_iff (trimmed : Trimmed st needed first frameCount log)
    (run : st.FreeRun first frameCount) (frame : Nat) :
    (log.pframe.marked frame = true ∧ st.marked frame = false) ↔
      (first ≤ frame ∧ frame < first + frameCount) ∧ ¬CoversFrame log.given frame := by
  by_cases given : CoversFrame log.given frame
  · simp [trimmed.cleared frame given, given]
  · rw [trimmed.kept frame given]
    by_cases taken : first ≤ frame ∧ frame < first + frameCount
    · simp [taken, given, run.2 frame taken.1 taken.2]
    · rw [if_neg taken]
      simp [taken]

/-- A run is trimmed as expected exactly if it is one of twice the needed frames, or it is aligned and
fewer than the needed frames are managed behind it. -/
theorem Trimmed.contract_iff (positive : 0 < needed)
    (wide : frameCount = needed * 2 ∨ frameCount = needed) (run : st.FreeRun first frameCount)
    (trimmed : Trimmed st needed first frameCount log) :
    ((∀ frame, CoversFrame log.given frame → CoversFrame log.taken frame) ∧
      ∀ frame, (log.pframe.marked frame = true ∧ st.marked frame = false) ↔
        alignedFrame needed first ≤ frame ∧ frame < alignedFrame needed first + needed) ↔
      frameCount = needed * 2 ∨ first % needed = 0 ∧ st.totalFrames < first + 2 * needed := by
  have near := alignedFrame_bounds positive first
  have inside := run.1
  rw [← alignedFrame_eq_iff positive]
  simp only [trimmed.covers_taken, trimmed.marks_iff run, trimmed.given]
  constructor
  · intro ⟨own, exactly⟩
    -- The first frame behind a short run was neither taken nor can it be given back.
    have behind := own (first + needed)
    have unmarked := exactly (first + needed)
    omega
  · intro fine
    constructor
    · intro frame
      omega
    · intro frame
      omega

/-- The contract for a request that was granted, in terms of the frames. -/
theorem hugeContract_granted {aligned : Nat} (bounded : aligned ≤ 2 ^ 25)
    (block : aligned % 2 ^ k = 0)
    (done : allocAligned loggedRuns (2 ^ (k + 12)) maxRetries ⟨st, [], []⟩ =
      some (some (frameToAddr aligned), log)) :
    HugeContract st (2 ^ (k + 12)) ↔
      (∀ frame, CoversFrame log.given frame → CoversFrame log.taken frame) ∧
      ∀ frame, (log.pframe.marked frame = true ∧ st.marked frame = false) ↔
        aligned ≤ frame ∧ frame < aligned + 2 ^ k := by
  have place := addrToFrame_frameToAddr (by omega : aligned < 2 ^ 52)
  have multiple : frameToAddr aligned % 2 ^ (k + 12) = 0 := by
    rw [frameToAddr_of_lt (by omega), Nat.pow_add, Nat.mul_mod_mul_right, block, Nat.zero_mul]
  constructor
  · rintro ⟨result, other, again, own, facts⟩
    obtain ⟨rfl, rfl⟩ := Prod.mk.inj (Option.some.inj (done.symm.trans again))
    have marks := facts.2
    rw [place, hugeFrames] at marks
    exact ⟨own, marks⟩
  · intro ⟨own, marks⟩
    refine ⟨_, log, done, own, multiple, ?_⟩
    rw [place, hugeFrames]
    exact marks

theorem hugeContract_pow (ready : st.Ready) (huge : k ≤ 18) :
    HugeContract st (2 ^ (k + 12)) ↔
      (∃ first, st.Meets (2 ^ k * 2) first) ∨
      ∀ first, st.Meets (2 ^ k) first →
        first % 2 ^ k = 0 ∧ st.totalFrames < first + 2 * 2 ^ k := by
  have positive := Nat.two_pow_pos k
  have small : 2 ^ k ≤ 2 ^ 18 := Nat.pow_le_pow_right (by decide) huge
  have managed := ready.bounded
  simp only [pframeMaxBitmapSize] at managed
  rcases allocAligned_logged ready huge with
    ⟨first, frameCount, log, done, kind, run, trimmed⟩ | ⟨refused, missing, missingToo⟩
  · have inside := run.1
    have near := alignedFrame_bounds positive first
    rw [hugeContract_granted (by omega) (alignedFrame_mod ..) done]
    rw [trimmed.contract_iff positive (kind.imp And.right fun once => once.2.2) run]
    rcases kind with ⟨met, rfl⟩ | ⟨missing, met, rfl⟩
    · exact iff_of_true (.inl rfl) (.inl ⟨first, met⟩)
    · constructor
      · rintro (twice | fine)
        · omega
        · refine .inr fun other again => ?_
          rw [again.unique met]
          exact fine
      · rintro (⟨other, twice⟩ | fine)
        · exact absurd twice (missing other)
        · exact .inr (fine first met)
  · constructor
    · exact fun _ => .inr fun first met => absurd met (missingToo first)
    · intro _
      refine ⟨none, _, refused, fun frame given => ?_, fun frame => rfl⟩
      simp [CoversFrame] at given

/-- Getting the frames of a huge page meets its contract exactly if a run of twice the needed frames
is met, or the run of the needed frames that is met is aligned and has fewer than the needed managed
frames behind it. -/
theorem hugeContract_iff {st : PframeState} (ready : st.Ready) {size : Nat}
    (huge : size = pageSize2mb ∨ size = pageSize1gb) :
    HugeContract st size ↔
      (∃ first, st.Meets (size / pageSize * 2) first) ∨
      ∀ first, st.Meets (size / pageSize) first →
        first % (size / pageSize) = 0 ∧ st.totalFrames < first + 2 * (size / pageSize) := by
  rcases huge with rfl | rfl
  · have size : pageSize2mb = 2 ^ (9 + 12) := by decide
    rw [size, hugeFrames]
    exact hugeContract_pow ready (by decide)
  · have size : pageSize1gb = 2 ^ (18 + 12) := by decide
    rw [size, hugeFrames]
    exact hugeContract_pow ready (by decide)

/-- An allocator of 2048 free frames. -/
def wideFrames : PframeState :=
  ⟨⟨fun _ => 0, 2048⟩, 2048, pframeMinAllocBase, 2048 * pageSize, 256, true⟩

/-- Among free frames a huge page is built as expected. -/
theorem hugeContract_wide : HugeContract wideFrames pageSize2mb := by
  have ready : wideFrames.Ready := ⟨rfl, rfl, by change 2048 ≤ 8 * pframeMaxBitmapSize; decide⟩
  apply (hugeContract_iff ready (.inl rfl)).mpr
  refine .inl ⟨256, ⟨by decide, fun frame _ _ => BitVec.getLsbD_zero⟩, .inl ⟨by decide, ?_⟩⟩
  intro start above before
  exact absurd above (Nat.not_le.mpr before)

/-- An allocator of 1536 frames whose second third is free. -/
def crowdedFrames : PframeState :=
  ⟨⟨fun byte => if 64 ≤ byte ∧ byte < 128 then 0 else 0xFF, 1536⟩, 1536, pframeMinAllocBase,
    1536 * pageSize, 256, true⟩

/-- A huge page is built from the free third, and the last third, which others hold, is set free. -/
theorem hugeContract_crowded :
    ∃ log, allocAligned loggedRuns pageSize2mb maxRetries ⟨crowdedFrames, [], []⟩ =
        some (some 0x200000, log) ∧
      crowdedFrames.marked 1024 = true ∧ log.pframe.marked 1024 = false ∧
      ¬HugeContract crowdedFrames pageSize2mb := by
  have computed : (allocAligned loggedRuns pageSize2mb maxRetries ⟨crowdedFrames, [], []⟩).any
      fun (result, log) => result = some 0x200000 ∧ log.pframe.marked 1024 = false ∧
        log.taken = [(512, 512)] ∧ log.given = [(1024, 512)] := by decide +kernel
  obtain ⟨⟨result, log⟩, done, facts⟩ := (Option.any_eq_true _ _).mp computed
  obtain ⟨rfl, free, taken, given⟩ := of_decide_eq_true facts
  refine ⟨log, done, by decide, free, ?_⟩
  rintro ⟨result, other, again, own, _⟩
  obtain ⟨rfl, rfl⟩ := Prod.mk.inj (Option.some.inj (done.symm.trans again))
  -- The first frame of the last third was given back, but it had not been taken.
  have covered := own 1024 ⟨_, given ▸ List.mem_singleton_self _, by decide⟩
  simp [CoversFrame, taken] at covered

end Log

end Ccos
