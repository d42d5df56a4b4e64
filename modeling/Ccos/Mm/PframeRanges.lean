import Ccos.Mm.PframeLaws

/-! Requests for several frames at once: which run `pframe_alloc_n` finds, and when `pframe_free_n`
does the work of single frees. -/

namespace Ccos

open Lib

section AllocN

/-- What a caller expects of a request for consecutive frames: it is refused exactly if the frames
from 1 MiB on hold no free run of that length, and otherwise it gets such a run and marks it. -/
@[grind] structure AllocNContract (st : PframeState) (frameCount : Nat) : Prop where
  refused : (∃ after, pframeAllocN st frameCount = some (.error .oom, after)) ↔
    ¬∃ first, addrToFrame pframeMinAllocBase ≤ first ∧ st.FreeRun first frameCount
  granted : (∃ first, addrToFrame pframeMinAllocBase ≤ first ∧ st.FreeRun first frameCount) →
    ∃ first after, pframeAllocN st frameCount = some (.ok (frameToAddr first), after) ∧
      addrToFrame pframeMinAllocBase ≤ first ∧ st.FreeRun first frameCount ∧
      st.Remarked after true first frameCount

variable {first : Nat} {st : PframeState}

theorem PframeState.Meets.unique {frameCount second : Nat} (one : st.Meets frameCount first)
    (other : st.Meets frameCount second) : first = second := by
  obtain ⟨run, ⟨reached, least⟩ | ⟨past, above, _, least⟩⟩ := one
  all_goals grind

theorem pframeAllocN_meets (ready : st.Ready) {frameCount : Nat} (positive : 0 < frameCount) :
    (∃ first after, pframeAllocN st frameCount = some (.ok (frameToAddr first), after) ∧
      st.Meets frameCount first ∧ st.Remarked after true first frameCount) ∨
    pframeAllocN st frameCount = some (.error .oom, st) ∧ ∀ first, ¬st.Meets frameCount first := by
  by_cases large : st.totalFrames < frameCount
  · refine .inr ⟨?_, fun first met => ?_⟩
    · simp [pframeAllocN, ready.initialized, Nat.pos_iff_ne_zero.mp positive, large]
    · have inside := met.1.1
      omega
  rcases pframeAllocN_spec ready positive (Nat.le_of_not_lt large) with
    ⟨first, after, done, met, remarked⟩ | ⟨refused, past, before⟩
  all_goals grind

theorem frameToAddr_injective (ready : st.Ready) {second : Nat} (managed : first < st.totalFrames)
    (managed' : second < st.totalFrames) (same : frameToAddr first = frameToAddr second) :
    first = second := by
  have small := ready.bounded
  simp only [pframeMaxBitmapSize] at small
  rw [← addrToFrame_frameToAddr (show first < 2 ^ 52 by omega), same,
    addrToFrame_frameToAddr (by omega)]

/-- A request for consecutive frames meets its contract exactly if the search from the hint on meets
no free run below 1 MiB and some free run above does not cross the hint, unless there is none. -/
theorem pframeAllocN_contract {st : PframeState} (ready : st.Ready) {frameCount : Nat}
    (positive : 0 < frameCount) (fits : frameCount ≤ st.totalFrames) :
    AllocNContract st frameCount ↔
      (∀ first, st.lastAllocHint ≤ first → first < addrToFrame pframeMinAllocBase →
        ¬st.FreeRun first frameCount) ∧
      ((∃ first, addrToFrame pframeMinAllocBase ≤ first ∧ st.FreeRun first frameCount) →
        ∃ first, addrToFrame pframeMinAllocBase ≤ first ∧ st.FreeRun first frameCount ∧
          (st.lastAllocHint ≤ first ∨ first + frameCount ≤ st.lastAllocHint)) := by
  rcases pframeAllocN_spec ready positive fits with
    ⟨first, after, done, ⟨run, place⟩, remarked⟩ | ⟨refused, past, before⟩
  · have served : ¬∃ after, pframeAllocN st frameCount = some (.error .oom, after) := by
      grind
    constructor
    · -- The contract places the run that was found, and so every run that was searched.
      intro contract
      have found := not_not.mp (mt contract.refused.mpr served)
      obtain ⟨other, _, again, above, otherRun, _⟩ := contract.granted found
      have answer := Option.some.inj (again.symm.trans done)
      have same : other = first := frameToAddr_injective ready
        (by have := otherRun.1; omega) (by have := run.1; omega)
        (Except.ok.inj (Prod.mk.inj answer).1)
      grind
    · intro ⟨noneBelow, uncrossed⟩
      have above : addrToFrame pframeMinAllocBase ≤ first := by
        grind
      exact ⟨⟨fun failed => absurd failed served, fun none => absurd ⟨first, above, run⟩ none⟩,
        fun _ => ⟨first, after, done, above, run, remarked⟩⟩
  · constructor
    · grind
    · intro ⟨_, uncrossed⟩
      -- A run would have to cross the hint, which the condition rules out.
      have none : ¬∃ first, addrToFrame pframeMinAllocBase ≤ first ∧
          st.FreeRun first frameCount := by
        intro found
        grind
      exact ⟨⟨fun _ => none, fun _ => ⟨st, refused⟩⟩, fun found => absurd found none⟩

/-- An allocator of 260 frames that are all free, with the given hint. -/
def openFrames (hint : Nat) : PframeState :=
  ⟨⟨fun _ => 0, 260⟩, 260, pframeMinAllocBase, 260 * pageSize, hint, true⟩

theorem openFrames_ready (hint : Nat) : (openFrames hint).Ready :=
  ⟨rfl, rfl, by change 260 ≤ 8 * pframeMaxBitmapSize; decide⟩

theorem openFrames_run (hint : Nat) {count : Nat} (inside : first + count ≤ 260) :
    (openFrames hint).FreeRun first count :=
  ⟨inside, fun _ _ _ => BitVec.getLsbD_zero⟩

/-- With the hint at 1 MiB four free frames are found. -/
theorem pframeAllocN_contract_low : AllocNContract (openFrames 256) 4 := by
  apply (pframeAllocN_contract (openFrames_ready 256) (by decide) (by decide)).mpr
  have low : addrToFrame pframeMinAllocBase = 256 := by decide
  rw [low]
  refine ⟨fun first reached before => absurd reached (Nat.not_le.mpr before), fun _ => ?_⟩
  exact ⟨256, Nat.le_refl _, openFrames_run 256 (by decide), .inl (Nat.le_refl _)⟩

/-- The only four free frames from 1 MiB on are missed when the hint lies between them. -/
theorem pframeAllocN_crosses_hint : ¬AllocNContract (openFrames 258) 4 := by
  intro contract
  have low : addrToFrame pframeMinAllocBase = 256 := by decide
  rcases pframeAllocN_spec (openFrames_ready 258) (by decide : 0 < 4) (by decide) with
    ⟨first, _, _, ⟨run, ⟨reached, _⟩ | ⟨_, reached, ended, _⟩⟩, _⟩ | ⟨refused, _, _⟩
  · -- Behind the hint there are two frames.
    have inside : first + 4 ≤ 260 := run.1
    have reached : 258 ≤ first := reached
    omega
  · -- Between 1 MiB and the hint there are two frames.
    have ended : first + 4 ≤ 258 := ended
    omega
  · apply contract.refused.mp ⟨_, refused⟩
    exact ⟨256, Nat.le_of_eq low, openFrames_run 258 (by decide)⟩

end AllocN

section FreeN

def pframeIsAllocated (st : PframeState) (addr : Nat) : Option Bool :=
  if !st.initialized then some false
  else if st.totalFrames ≤ addrToFrame addr then some false
  else bitmapTest st.frameMap (addrToFrame addr)

/-- Free consecutive frames one by one; a failed call ends the work. -/
def pframeFreeEach : (addr frameCount : Nat) → PframeState → Option PframeState
  | _, 0, st => some st
  | addr, frameCount + 1, st =>
    match pframeFree st addr with
    | some (.ok (), st) => pframeFreeEach (addr + pageSize) frameCount st
    | _ => none

/-- What a range must be to be freed: aligned, not empty, and allocated frame by frame. -/
@[grind =] def PframeState.Freeable (st : PframeState) (addr frameCount : Nat) : Prop :=
  isPageAligned addr = true ∧ 0 < frameCount ∧
    ∀ k < frameCount, pframeIsAllocated st (addr + k * pageSize) = some true

/-- What a caller expects of freeing consecutive frames: it succeeds exactly for a range that is
allocated as a whole, with the effect of single frees, and otherwise changes nothing. -/
@[grind] structure FreeNContract (st : PframeState) (addr frameCount : Nat) : Prop where
  accepted : (∃ after, pframeFreeN st addr frameCount = some (.ok (), after)) ↔
    st.Freeable addr frameCount
  effect : st.Freeable addr frameCount → ∃ after,
    pframeFreeN st addr frameCount = some (.ok (), after) ∧
      pframeFreeEach addr frameCount st = some after
  refused : ¬st.Freeable addr frameCount →
    ∃ code after, pframeFreeN st addr frameCount = some (.error code, after) ∧
      after.frameMap = st.frameMap

theorem addrToFrame_add (addr k : Nat) :
    addrToFrame (addr + k * pageSize) = addrToFrame addr + k := by
  simp only [addrToFrame, pageSize, pageShift, Nat.shiftRight_eq_div_pow]
  omega

theorem isPageAligned_iff (addr : Nat) : isPageAligned addr = true ↔ addr % 2 ^ 12 = 0 := by
  have mask : pageSize - 1 = 2 ^ 12 - 1 := by decide
  rw [isPageAligned, mask, land_low, decide_eq_true_eq]

variable {addr : Nat}

variable {st : PframeState}

theorem pframeIsAllocated_iff (ready : st.Ready) (addr : Nat) :
    pframeIsAllocated st addr = some true ↔
      addrToFrame addr < st.totalFrames ∧ st.marked (addrToFrame addr) = true := by
  unfold pframeIsAllocated
  rw [ready.initialized]
  by_cases managed : addrToFrame addr < st.totalFrames
  · rw [if_neg (by decide), if_neg (by omega), bitmapTest_eq (by rw [ready.covers]; exact managed)]
    simp [PframeState.marked, managed]
  grind

theorem pframeFree_allocated (ready : st.Ready) (aligned : isPageAligned addr = true)
    (allocated : pframeIsAllocated st addr = some true) :
    ∃ bm, bitmapClear st.frameMap (addrToFrame addr) = some bm ∧
      pframeFree st addr = some (.ok (), { st with frameMap := bm }) ∧
      st.Remarked { st with frameMap := bm } false (addrToFrame addr) 1 := by
  obtain ⟨managed, marked⟩ := (pframeIsAllocated_iff ready addr).mp allocated
  obtain ⟨bm, cleared, remarked⟩ :=
    assign_remarked bitmapClear_assigns ready managed st.lastAllocHint
  have tested := @bitmapTest_eq st.frameMap (addrToFrame addr) (by rw [ready.covers]; exact managed)
  have mark : st.frameMap.marked (addrToFrame addr) = true := marked
  have inside : ¬st.totalFrames ≤ addrToFrame addr := Nat.not_le.mpr managed
  exact ⟨bm, cleared, by
    simp [pframeFree, ready.initialized, aligned, inside, tested, mark, cleared], remarked⟩

variable {frameCount : Nat}

theorem pframeFreeEach_eq (ready : st.Ready) (aligned : isPageAligned addr = true)
    (allocated : ∀ k < frameCount, pframeIsAllocated st (addr + k * pageSize) = some true) :
    pframeFreeEach addr frameCount st =
      ((List.range' (addrToFrame addr) frameCount).foldlM bitmapClear st.frameMap).map
        fun bm => { st with frameMap := bm } := by
  -- Clearing the first frame leaves the later ones allocated.
  induction frameCount generalizing addr st with
  | zero => rfl
  | succ frameCount ih =>
    have here : pframeIsAllocated st addr = some true := by
      have first := allocated 0 (by omega)
      rwa [Nat.zero_mul, Nat.add_zero] at first
    obtain ⟨bm, cleared, freed, remarked⟩ := pframeFree_allocated ready aligned here
    have later (k : Nat) (inside : k < frameCount) : pframeIsAllocated
        { st with frameMap := bm } (addr + pageSize + k * pageSize) = some true := by
      have before := (pframeIsAllocated_iff ready _).mp (allocated (k + 1) (by omega))
      rw [addrToFrame_add] at before
      have place : addr + pageSize + k * pageSize = addr + (k + 1) * pageSize := by
        rw [Nat.add_mul, Nat.one_mul]
        omega
      rw [pframeIsAllocated_iff remarked.ready, place, addrToFrame_add, remarked.marks,
        if_neg (by omega)]
      exact before
    have next : addrToFrame (addr + pageSize) = addrToFrame addr + 1 := by
      have shifted := addrToFrame_add addr 1
      rwa [Nat.one_mul] at shifted
    have page : pageSize = 2 ^ 12 := rfl
    have still : isPageAligned (addr + pageSize) = true := by
      rw [isPageAligned_iff] at aligned ⊢
      omega
    rw [pframeFreeEach, freed, List.range'_succ, List.foldlM_cons, cleared]
    exact (ih remarked.ready still later).trans (by rw [next]; rfl)

/-- A range that the checks of `pframe_free_n` let pass: they look at its place only, and its end is
taken modulo 2^64. -/
@[grind =] def PframeState.Admits (st : PframeState) (addr frameCount : Nat) : Prop :=
  isPageAligned addr = true ∧ 0 < frameCount ∧ addrToFrame addr < st.totalFrames ∧
    (2 ^ 64 ≤ addrToFrame addr + frameCount ∨ addrToFrame addr + frameCount ≤ st.totalFrames)

theorem pframeFreeN_eq (ready : st.Ready) (addr : Nat) (word : frameCount < 2 ^ 64) :
    (st.Admits addr frameCount ∧
      ∃ bm, bitmapClearRange st.frameMap (addrToFrame addr) frameCount = some bm ∧
        pframeFreeN st addr frameCount = some (.ok (), { st with frameMap := bm })) ∨
    ¬st.Admits addr frameCount ∧ pframeFreeN st addr frameCount = some (.error .invalid, st) := by
  have small := ready.bounded
  simp only [pframeMaxBitmapSize] at small
  by_cases empty : frameCount = 0
  · refine .inr ⟨fun met => absurd met.2.1 (by omega), ?_⟩
    simp [pframeFreeN, ready.initialized, empty]
  by_cases aligned : isPageAligned addr = true
  swap
  · refine .inr ⟨fun met => aligned met.1, ?_⟩
    simp [pframeFreeN, ready.initialized, empty, aligned]
  by_cases outside : st.totalFrames ≤ addrToFrame addr
  · refine .inr ⟨fun met => absurd met.2.2.1 (by omega), ?_⟩
    simp [pframeFreeN, ready.initialized, empty, aligned, outside]
  -- The end of the range wraps exactly if it lies behind all 64-bit numbers.
  by_cases behind : st.totalFrames < wrap64 (addrToFrame addr + frameCount)
  · refine .inr ⟨fun met => ?_, ?_⟩
    · have ends := met.2.2.2
      unfold wrap64 at behind
      omega
    · simp [pframeFreeN, ready.initialized, empty, aligned, outside, behind]
  · obtain ⟨bm, cleared, _⟩ := bitmapRange_assigns bitmapClear_assigns st.frameMap
      (addrToFrame addr) frameCount
    refine .inl ⟨⟨aligned, by omega, by omega, ?_⟩, bm, cleared, ?_⟩
    · unfold wrap64 at behind
      omega
    · have cleared : bitmapClearRange st.frameMap (addrToFrame addr) frameCount = some bm := cleared
      simp [pframeFreeN, ready.initialized, empty, aligned, outside, behind, cleared]

theorem pframeFreeN_ready {after : PframeState} (ready : st.Ready)
    {result : Except PframeError Unit}
    (done : pframeFreeN st addr frameCount = some (result, after)) : after.Ready := by
  obtain ⟨bm, cleared, size, _⟩ := bitmapRange_assigns bitmapClear_assigns st.frameMap
    (addrToFrame addr) frameCount
  have cleared : bitmapClearRange st.frameMap (addrToFrame addr) frameCount = some bm := cleared
  simp only [pframeFreeN, cleared, Option.bind_eq_bind, Option.bind_some] at done
  -- Every refusal leaves the state as it was.
  split at done
  · cases done
    exact ready
  split at done
  · cases done
    exact ready
  split at done
  · cases done
    exact ready
  split at done
  · cases done
    exact ready
  split at done
  · cases done
    exact ready
  · cases done
    exact ⟨ready.initialized, size.trans ready.covers, ready.bounded⟩

theorem PframeState.Freeable.managed (ready : st.Ready) (freeable : st.Freeable addr frameCount) :
    addrToFrame addr + frameCount ≤ st.totalFrames := by
  obtain ⟨_, positive, allocated⟩ := freeable
  have last := ((pframeIsAllocated_iff ready _).mp (allocated (frameCount - 1) (by omega))).1
  rw [addrToFrame_add] at last
  omega

/-- Freeing consecutive frames meets its contract exactly unless the range starts at a managed frame
and ends behind all 64-bit frame numbers, or is managed and holds a free frame. -/
theorem pframeFreeN_contract {st : PframeState} (ready : st.initialized = true → st.Ready)
    {addr frameCount : Nat} (word : frameCount < 2 ^ 64) :
    FreeNContract st addr frameCount ↔
      ¬(st.initialized = true ∧ isPageAligned addr = true ∧ 0 < frameCount ∧
        addrToFrame addr < st.totalFrames ∧
        (2 ^ 64 ≤ addrToFrame addr + frameCount ∨
          addrToFrame addr + frameCount ≤ st.totalFrames ∧
            ∃ k < frameCount, pframeIsAllocated st (addr + k * pageSize) ≠ some true)) := by
  by_cases initialized : st.initialized = true
  swap
  · -- Before the initialisation no frame is allocated and every call fails.
    have unready : st.initialized = false := Bool.eq_false_iff.mpr initialized
    have none : ¬st.Freeable addr frameCount := by
      intro ⟨_, positive, allocated⟩
      have first := allocated 0 positive
      simp [pframeIsAllocated, unready] at first
    have failed : pframeFreeN st addr frameCount = some (.error .notInit, st) := by
      simp [pframeFreeN, unready]
    refine ⟨fun _ met => initialized met.1, fun _ => ⟨⟨?_, fun met => absurd met none⟩,
      fun met => absurd met none, fun _ => ⟨.notInit, st, failed, rfl⟩⟩⟩
    rintro ⟨after, done⟩
    cases failed.symm.trans done
  have ready := ready initialized
  rcases pframeFreeN_eq ready addr word with
    ⟨⟨aligned, positive, starts, ends⟩, bm, cleared, done⟩ | ⟨outside, failed⟩
  · constructor
    · -- The call succeeds, so the contract makes every frame allocated.
      intro contract met
      have freeable := contract.accepted.mp ⟨_, done⟩
      have managed := freeable.managed ready
      have small := ready.bounded
      simp only [pframeMaxBitmapSize] at small
      rcases met.2.2.2.2 with wraps | ⟨_, k, inside, free⟩
      · omega
      · exact free (freeable.2.2 k inside)
    · intro allowed
      have ends : addrToFrame addr + frameCount ≤ st.totalFrames := by
        rcases ends with wraps | ends
        · exact absurd ⟨initialized, aligned, positive, starts, .inl wraps⟩ allowed
        · exact ends
      have freeable : st.Freeable addr frameCount := by
        refine ⟨aligned, positive, fun k inside => ?_⟩
        apply Classical.byContradiction
        intro free
        exact allowed ⟨initialized, aligned, positive, starts, .inr ⟨ends, k, inside, free⟩⟩
      refine ⟨⟨fun _ => freeable, fun _ => ⟨_, done⟩⟩, fun _ => ⟨_, done, ?_⟩,
        fun none => absurd freeable none⟩
      -- Without a wrap and a clamp the range is walked frame by frame.
      have small := ready.bounded
      simp only [pframeMaxBitmapSize] at small
      have stop : min (wrap64 (addrToFrame addr + frameCount)) st.frameMap.nbits -
          addrToFrame addr = frameCount := by
        rw [wrap64_of_lt (by omega), ready.covers]
        omega
      have walked : (List.range' (addrToFrame addr) frameCount).foldlM bitmapClear st.frameMap =
          some bm := by
        rw [← stop]
        exact cleared
      rw [pframeFreeEach_eq ready aligned freeable.2.2, walked]
      rfl
  · have none : ¬st.Freeable addr frameCount := by
      intro freeable
      have managed := freeable.managed ready
      have positive := freeable.2.1
      exact outside ⟨freeable.1, positive, by omega, .inr managed⟩
    refine ⟨fun _ met => outside ⟨met.2.1, met.2.2.1, met.2.2.2.1, ?_⟩,
      fun _ => ⟨⟨?_, fun met => absurd met none⟩, fun met => absurd met none,
        fun _ => ⟨.invalid, st, failed, rfl⟩⟩⟩
    · rcases met.2.2.2.2 with wraps | ⟨ends, _⟩
      · exact .inl wraps
      · exact .inr ends
    · rintro ⟨after, done⟩
      cases failed.symm.trans done

/-- An allocator of 260 frames that are all allocated. -/
def fullFrames : PframeState :=
  ⟨⟨fun _ => 0xFF, 260⟩, 260, pframeMinAllocBase, 260 * pageSize, 256, true⟩

theorem fullFrames_ready : fullFrames.Ready :=
  ⟨rfl, rfl, by change 260 ≤ 8 * pframeMaxBitmapSize; decide⟩

/-- Four allocated frames are freed. -/
theorem pframeFreeN_contract_allocated : FreeNContract fullFrames 0x100000 4 := by
  apply (pframeFreeN_contract (fun _ => fullFrames_ready) (by decide)).mpr
  have allocated : ∀ k < 4, pframeIsAllocated fullFrames (0x100000 + k * pageSize) = some true := by
    decide
  rintro ⟨_, _, _, _, wraps | ⟨_, k, inside, free⟩⟩
  · exact absurd wraps (by decide)
  · exact free (allocated k inside)

/-- A free frame is freed with success, and so is a range that wraps around all frame numbers. -/
theorem pframeFreeN_unchecked : ¬FreeNContract (openFrames 256) 0x100000 1 ∧
    ¬FreeNContract fullFrames 0x100000 (2 ^ 64 - 256) := by
  constructor
  · intro contract
    rcases pframeFreeN_eq (openFrames_ready 256) 0x100000 (by decide : 1 < 2 ^ 64) with
      ⟨_, bm, _, done⟩ | ⟨refused, _⟩
    · have free := (openFrames_run 256 (by decide : 256 + 1 ≤ 260)).2 256 (by decide) (by decide)
      obtain ⟨_, marked⟩ := (pframeIsAllocated_iff (openFrames_ready 256) _).mp
        ((contract.accepted.mp ⟨_, done⟩).2.2 0 (by decide))
      exact absurd (free.symm.trans marked) (by decide)
    · exact refused ⟨by decide, by decide, by decide, .inr (by decide)⟩
  · intro contract
    rcases pframeFreeN_eq fullFrames_ready 0x100000 (by decide : 2 ^ 64 - 256 < 2 ^ 64) with
      ⟨_, bm, _, done⟩ | ⟨refused, _⟩
    · have managed := (contract.accepted.mp ⟨_, done⟩).managed fullFrames_ready
      exact absurd managed (by decide)
    · exact refused ⟨by decide, by decide, by decide, .inl (by decide)⟩

end FreeN

end Ccos
