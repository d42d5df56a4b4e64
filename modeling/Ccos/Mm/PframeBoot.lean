import Ccos.Mm.PframeLaws

/-! The frame map that `pframe_init` builds, for every memory map and every place of the areas that
it reserves. -/

namespace Ccos

open Lib

/-- The frames that marking a region reaches: those between its rounded-up base and its
rounded-down end, both modulo 2^64. -/
@[grind =] def WholeFrame (base length frame : Nat) : Prop :=
  length ≠ 0 ∧ addrToFrame (alignUp base pageShift) ≤ frame ∧
    frame < addrToFrame (alignDown (wrap64 (base + length)) pageShift)

instance (base length frame : Nat) : Decidable (WholeFrame base length frame) :=
  inferInstanceAs (Decidable (_ ∧ _ ∧ _))

/-- The frames that share a byte with a region. -/
@[grind =] def TouchesFrame (base length frame : Nat) : Prop :=
  ∃ byte, base ≤ byte ∧ byte < base + length ∧ byte / pageSize = frame

theorem addrToFrame_alignDown {addr : Nat} (word : addr < 2 ^ 64) :
    addrToFrame (alignDown addr pageShift) = addr / pageSize := by
  rw [alignDown, land_not64_low word (by decide), addrToFrame, Nat.shiftRight_eq_div_pow]
  exact Nat.mul_div_cancel _ (Nat.two_pow_pos _)

theorem addrToFrame_alignUp (addr : Nat) :
    addrToFrame (alignUp addr pageShift) = wrap64 (addr + (pageSize - 1)) / pageSize :=
  addrToFrame_alignDown (wrap64_lt _)

/-- A map that covers the managed frames, before the allocator is declared ready. -/
@[grind] structure PframeState.Sized (st : PframeState) (total : Nat) : Prop where
  total_eq : st.totalFrames = total
  covers : st.frameMap.nbits = total

variable {st : PframeState} {operation : Bitmap → Nat → Option Bitmap} {total : Nat} {value : Bool}

theorem markRegion_marks (assigns : Assigns value operation) (sized : st.Sized total)
    (small : total < 2 ^ 64) (base length : Nat) :
    ∃ after, markRegion (bitmapRange operation) st base length = some after ∧ after.Sized total ∧
      ∀ i < total, after.marked i = if WholeFrame base length i then value else st.marked i := by
  by_cases empty : length = 0
  · exact ⟨st, by simp [markRegion, empty], sized, fun i _ => (if_neg fun whole => whole.1 empty).symm⟩
  by_cases managed : addrToFrame (alignUp base pageShift) < st.totalFrames
  · obtain ⟨bm, done, size, marks⟩ := bitmapRange_assigns assigns st.frameMap
      (addrToFrame (alignUp base pageShift))
      (wrap64 (min (addrToFrame (alignDown (wrap64 (base + length)) pageShift)) st.totalFrames +
        2 ^ 64 - addrToFrame (alignUp base pageShift)))
    refine ⟨{ st with frameMap := bm }, by
      simp only [markRegion, empty, if_false, managed, if_true, done, Option.map_some],
      ⟨sized.total_eq, size.trans sized.covers⟩, fun i inside => ?_⟩
    -- The wrapped count leads back to the clamped end.
    have stop : wrap64 (addrToFrame (alignUp base pageShift) +
        wrap64 (min (addrToFrame (alignDown (wrap64 (base + length)) pageShift)) st.totalFrames +
          2 ^ 64 - addrToFrame (alignUp base pageShift))) =
        min (addrToFrame (alignDown (wrap64 (base + length)) pageShift)) st.totalFrames := by
      have total := sized.total_eq
      unfold wrap64
      omega
    have whole : (addrToFrame (alignUp base pageShift) ≤ i ∧
        i < min (min (addrToFrame (alignDown (wrap64 (base + length)) pageShift)) st.totalFrames)
          st.frameMap.nbits) ↔ WholeFrame base length i := by
      rw [WholeFrame, sized.total_eq, sized.covers]
      omega
    simp only [PframeState.marked, marks, stop, whole]
  · refine ⟨st, by simp [markRegion, empty, managed], sized, fun i inside => (if_neg ?_).symm⟩
    grind

/-- Marking regions one after the other gives one value to the whole frames of all of them. -/
theorem markRegions_marks (assigns : Assigns value operation) (small : total < 2 ^ 64)
    (regions : List (Nat × Nat)) (sized : st.Sized total) :
    ∃ after, regions.foldlM
        (fun st region => markRegion (bitmapRange operation) st region.1 region.2) st = some after ∧
      after.Sized total ∧ ∀ i < total, after.marked i =
        if ∃ region ∈ regions, WholeFrame region.1 region.2 i then value else st.marked i := by
  induction regions generalizing st with
  | nil => exact ⟨st, rfl, sized, by simp⟩
  | cons region rest ih =>
    obtain ⟨middle, marked, sizedMiddle, marks⟩ :=
      markRegion_marks assigns sized small region.1 region.2
    obtain ⟨after, folded, sizedAfter, marksAfter⟩ := ih sizedMiddle
    refine ⟨after, by rw [List.foldlM_cons, marked]; exact folded, sizedAfter, fun i inside => ?_⟩
    rw [marksAfter i inside, marks i inside]
    by_cases later : ∃ region ∈ rest, WholeFrame region.1 region.2 i
    · rw [if_pos later, if_pos]
      grind
    · by_cases here : WholeFrame region.1 region.2 i
      · rw [if_neg later, if_pos here, if_pos ⟨region, List.mem_cons_self, here⟩]
      grind

def usableRegions (entries : List E820Entry) : List (Nat × Nat) :=
  (entries.filter fun entry => entry.type = e820TypeUsable).map fun entry =>
    (entry.base, entry.length)

theorem foldlM_usable_eq (entries : List E820Entry) (st : PframeState) :
    entries.foldlM
      (fun st entry =>
        if entry.type = e820TypeUsable then markRegionFree st entry.base entry.length
        else some st) st =
      (usableRegions entries).foldlM (fun st region => markRegionFree st region.1 region.2) st := by
  induction entries generalizing st with
  | nil => rfl
  | cons entry rest ih =>
    by_cases usable : entry.type = e820TypeUsable
    · simp only [usableRegions, List.foldlM_cons, List.filter_cons, usable, decide_true, if_true,
        List.map_cons]
      congr 1
      funext middle
      exact ih middle
    · simp only [usableRegions, List.foldlM_cons, List.filter_cons, usable, decide_false, if_false,
        Bool.false_eq_true]
      exact ih st

variable {entries : List E820Entry} {frame : Nat}

theorem mem_usableRegions :
    (∃ region ∈ usableRegions entries, WholeFrame region.1 region.2 frame) ↔
      ∃ entry ∈ entries, entry.type = e820TypeUsable ∧
        WholeFrame entry.base entry.length frame := by
  constructor
  · rintro ⟨region, member, whole⟩
    obtain ⟨entry, chosen, rfl⟩ := List.mem_map.mp member
    grind
  · rintro ⟨entry, listed, usable, whole⟩
    exact ⟨_, List.mem_map.mpr ⟨entry, List.mem_filter.mpr ⟨listed, decide_eq_true usable⟩, rfl⟩,
      whole⟩

/-- Initialisation either fails, or leaves a ready allocator whose free frames are the whole frames
of usable entries that are not whole frames of a reserved area. -/
theorem pframeInitAt_cases (layout : PframeLayout) (entries : List E820Entry)
    (fresh : st.initialized = false) :
    ((e820UsableBytes entries = 0 ∨
        pframeMaxBitmapSize < wrap64 (managedFrames entries + 7) / 8) ∧
      ∃ code after, pframeInitAt layout entries st = some (.error code, after)) ∨
    ∃ ready, pframeInitAt layout entries st = some (.ok (), ready) ∧ ready.Ready ∧
      ready.totalFrames = managedFrames entries ∧
      ∀ i < managedFrames entries, ready.marked i = false ↔
        (∃ entry ∈ entries, entry.type = e820TypeUsable ∧ WholeFrame entry.base entry.length i) ∧
          ¬∃ area ∈ layout.areas, WholeFrame area.1 area.2 i := by
  by_cases nothing : e820UsableBytes entries = 0
  · exact .inl ⟨.inl nothing, .invalid, st, by simp [pframeInitAt, fresh, nothing]⟩
  by_cases large : wrap64 (managedFrames entries + 7) / 8 > pframeMaxBitmapSize
  · exact .inl ⟨.inr large, .invalid, _, (if_neg (by simp [fresh])).trans
      ((if_neg nothing).trans (if_pos large))⟩
  have pages : managedFrames entries < 2 ^ 52 := by
    have word := wrap64_lt (alignDown (maxUsableAddr entries) pageShift + pageSize - 1)
    simp only [managedFrames, bytesToPages, pageShift, Nat.shiftRight_eq_div_pow] at word ⊢
    omega
  have small : managedFrames entries < 2 ^ 64 := by omega
  -- All frames are marked, then usable ones are freed, then reserved ones are marked again.
  obtain ⟨full, filled, fullSize, fullMarks⟩ := bitmapRange_assigns bitmapSet_assigns
    (bitmapInit st.frameMap.bits (managedFrames entries)) 0 (managedFrames entries)
  have fullSized : PframeState.Sized { st with
      totalFrames := managedFrames entries
      managedBase := pframeMinAllocBase
      managedEnd := alignDown (maxUsableAddr entries) pageShift
      lastAllocHint := addrToFrame pframeMinAllocBase
      initialized := false
      frameMap := full } (managedFrames entries) :=
    ⟨rfl, fullSize⟩
  obtain ⟨usable, freed, usableSized, usableMarks⟩ :=
    markRegions_marks bitmapClear_assigns small (usableRegions entries) fullSized
  obtain ⟨reserved, marked, reservedSized, reservedMarks⟩ :=
    markRegions_marks bitmapSet_assigns small layout.areas usableSized
  refine .inr ⟨{ reserved with initialized := true }, ?_,
    ⟨rfl, reservedSized.covers.trans reservedSized.total_eq.symm, ?_⟩, reservedSized.total_eq,
    fun i inside => ?_⟩
  · have freed := (foldlM_usable_eq entries _).trans freed
    simp only [pframeInitAt, fresh, nothing, large, bitmapSetRange, filled, freed,
      markRegionReserved, marked, Bool.false_eq_true, if_false, Option.bind_eq_bind,
      Option.bind_some]
  · have total : reserved.totalFrames = managedFrames entries := reservedSized.total_eq
    rw [wrap64_of_lt (by omega)] at large
    simp only [pframeMaxBitmapSize] at large ⊢
    omega
  · have filledMark : full.marked i = true := by
      rw [fullMarks, if_pos]
      rw [Nat.zero_add, wrap64_of_lt small]
      grind
    have last := reservedMarks i inside
    have middle := usableMarks i inside
    rw [← mem_usableRegions]
    change reserved.marked i = false ↔ _
    by_cases whole : ∃ area ∈ layout.areas, WholeFrame area.1 area.2 i
    · grind
    rw [if_neg whole] at last
    by_cases free : ∃ region ∈ usableRegions entries, WholeFrame region.1 region.2 i
    · grind
    · rw [if_neg free] at middle
      have kept : usable.marked i = true := middle.trans filledMark
      simp only [last, kept, free, false_and, Bool.true_eq_false]

theorem pframeInit_ready {storage : Nat} {ready : PframeState} (fresh : st.initialized = false)
    (done : pframeInit entries storage st = some (.ok (), ready)) :
    ready.Ready ∧ (0 < ready.totalFrames → ready.marked 0 = true) := by
  rcases pframeInitAt_cases (bootLayout storage) entries fresh with
    ⟨_, code, after, failed⟩ | ⟨after, made, isReady, total, free⟩
  · cases failed.symm.trans done
  · obtain ⟨_, rfl⟩ := Prod.mk.inj (Option.some.inj (made.symm.trans done))
    refine ⟨isReady, fun positive => ?_⟩
    -- Frame zero is a whole frame of the firmware area.
    have bios : WholeFrame 0 pframeBiosEnd 0 := by decide
    apply Bool.eq_true_of_not_eq_false
    intro unmarked
    exact ((free 0 (total ▸ positive)).mp unmarked).2 ⟨_, List.mem_cons_self, bios⟩

theorem maxUsableAddr_bounds (entries : List E820Entry) :
    maxUsableAddr entries < 2 ^ 64 ∧ ∀ entry ∈ entries, entry.type = e820TypeUsable →
      wrap64 (entry.base + entry.length) ≤ maxUsableAddr entries := by
  -- The address found so far never shrinks.
  suffices ∀ (entries : List E820Entry) (found : Nat), found < 2 ^ 64 →
      let last := entries.foldl
        (fun maxAddr entry =>
          let entryEnd := wrap64 (entry.base + entry.length)
          if entry.type = e820TypeUsable ∧ maxAddr < entryEnd then entryEnd else maxAddr) found
      found ≤ last ∧ last < 2 ^ 64 ∧ ∀ entry ∈ entries, entry.type = e820TypeUsable →
        wrap64 (entry.base + entry.length) ≤ last from (this entries 0 (by decide)).2
  intro entries
  induction entries with
  | nil => exact fun found word => ⟨Nat.le_refl _, word, by simp⟩
  | cons head rest ih =>
    intro found word
    have headWord := wrap64_lt (head.base + head.length)
    grind

theorem managedFrames_eq (entries : List E820Entry) :
    managedFrames entries = maxUsableAddr entries / pageSize := by
  have word := (maxUsableAddr_bounds entries).1
  rw [managedFrames, bytesToPages, alignDown, land_not64_low word (by decide), wrap64_of_lt]
  · simp only [pageSize, pageShift, Nat.shiftRight_eq_div_pow]
    omega
  · simp only [pageSize, pageShift]
    omega

variable {entry : E820Entry}

theorem WholeFrame.managed (listed : entry ∈ entries) (usable : entry.type = e820TypeUsable)
    (whole : WholeFrame entry.base entry.length frame) : frame < managedFrames entries := by
  have below := whole.2.2
  rw [addrToFrame_alignDown (wrap64_lt _)] at below
  rw [managedFrames_eq]
  exact Nat.lt_of_lt_of_le below (Nat.div_le_div_right
    ((maxUsableAddr_bounds entries).2 entry listed usable))

/-- The frames that share a byte with a reserved area or with an entry that is not usable. -/
@[grind =]
def PframeLayout.Touched (layout : PframeLayout) (entries : List E820Entry) (frame : Nat) : Prop :=
  (∃ area ∈ layout.areas, TouchesFrame area.1 area.2 frame) ∨
    ∃ entry ∈ entries, entry.type ≠ e820TypeUsable ∧ TouchesFrame entry.base entry.length frame

/-- After the initialisation every frame with a byte that must not be handed out is marked exactly
if the whole frames of usable entries have no such byte, those of reserved areas apart. -/
theorem pframeInitAt_marks_touched {layout : PframeLayout} {entries : List E820Entry}
    {st ready : PframeState} (fresh : st.initialized = false)
    (done : pframeInitAt layout entries st = some (.ok (), ready)) :
    (∀ frame < ready.totalFrames, layout.Touched entries frame → ready.marked frame = true) ↔
      ∀ entry ∈ entries, entry.type = e820TypeUsable →
        ∀ frame, WholeFrame entry.base entry.length frame →
          (∃ area ∈ layout.areas, WholeFrame area.1 area.2 frame) ∨
            ¬layout.Touched entries frame := by
  rcases pframeInitAt_cases layout entries fresh with
    ⟨_, code, after, failed⟩ | ⟨after, made, _, total, free⟩
  · cases failed.symm.trans done
  obtain ⟨_, rfl⟩ := Prod.mk.inj (Option.some.inj (made.symm.trans done))
  constructor
  · intro reserved entry listed usable frame whole
    by_cases inArea : ∃ area ∈ layout.areas, WholeFrame area.1 area.2 frame
    · exact .inl inArea
    · -- Such a frame is free, so it must not be touched.
      refine .inr fun touched => ?_
      have managed := whole.managed listed usable
      grind
  grind

variable {length base : Nat}

theorem TouchesFrame.whole (starts : base % pageSize = 0) (ends : length % pageSize = 0)
    (fits : base + length < 2 ^ 64) (touches : TouchesFrame base length frame) :
    WholeFrame base length frame := by
  obtain ⟨byte, above, below, here⟩ := touches
  simp only [pageSize, pageShift] at starts ends here
  refine ⟨by omega, ?_, ?_⟩
  · rw [addrToFrame_alignUp, wrap64_of_lt]
    · simp only [pageSize, pageShift]
      omega
    · simp only [pageSize, pageShift]
      omega
  · rw [addrToFrame_alignDown (wrap64_lt _), wrap64_of_lt fits]
    simp only [pageSize, pageShift]
    omega

/-- The whole frames of a region without a wrap lie inside it. -/
theorem WholeFrame.inside (starts : base + pageSize ≤ 2 ^ 64) (fits : base + length < 2 ^ 64)
    (whole : WholeFrame base length frame) :
    base ≤ frame * pageSize ∧ (frame + 1) * pageSize ≤ base + length := by
  obtain ⟨_, above, below⟩ := whole
  rw [addrToFrame_alignUp, wrap64_of_lt (by simp only [pageSize, pageShift] at starts ⊢; omega)]
    at above
  rw [addrToFrame_alignDown (wrap64_lt _), wrap64_of_lt fits] at below
  simp only [pageSize, pageShift] at above below ⊢
  omega

/-- A configuration in which marking goes right: page boundaries around the reserved areas, and
usable entries that neither wrap nor overlap the other ones. -/
@[grind]
structure PframeLayout.Tidy (layout : PframeLayout) (entries : List E820Entry) : Prop where
  areas : ∀ area ∈ layout.areas,
    area.1 % pageSize = 0 ∧ area.2 % pageSize = 0 ∧ area.1 + area.2 < 2 ^ 64
  usable : ∀ entry ∈ entries, entry.type = e820TypeUsable →
    entry.base + pageSize ≤ 2 ^ 64 ∧ entry.base + entry.length < 2 ^ 64
  apart : ∀ entry ∈ entries, entry.type = e820TypeUsable →
    ∀ other ∈ entries, other.type ≠ e820TypeUsable →
      entry.base + entry.length ≤ other.base ∨ other.base + other.length ≤ entry.base

theorem PframeLayout.Tidy.untouched {layout : PframeLayout} (tidy : layout.Tidy entries)
    (listed : entry ∈ entries) (usable : entry.type = e820TypeUsable)
    (whole : WholeFrame entry.base entry.length frame) :
    (∃ area ∈ layout.areas, WholeFrame area.1 area.2 frame) ∨ ¬layout.Touched entries frame := by
  by_cases inArea : ∃ area ∈ layout.areas, WholeFrame area.1 area.2 frame
  · exact .inl inArea
  refine .inr ?_
  rintro (⟨area, member, touches⟩ | ⟨other, member, unusable, byte, above, below, here⟩)
  · obtain ⟨starts, ends, fits⟩ := tidy.areas area member
    exact inArea ⟨area, member, touches.whole starts ends fits⟩
  · -- A byte of the frame would lie in both entries.
    obtain ⟨starts, fits⟩ := tidy.usable entry listed usable
    obtain ⟨first, last⟩ := whole.inside starts fits
    have apart := tidy.apart entry listed usable other member unusable
    simp only [pageSize, pageShift] at first last here
    omega

section Boot

/-- Eight megabytes of usable memory, with a device far above. -/
def plainMap : List E820Entry :=
  [⟨0, 0x800000, e820TypeUsable, zero_lt_word, by decide⟩,
    ⟨0xFEC00000, 0x1000, 2, by decide, by decide⟩]

def blankPframe : PframeState :=
  ⟨⟨fun _ => 0, 0⟩, 0, 0, 0, 0, false⟩

theorem plainMap_boots (storage : Nat) :
    ∃ ready, pframeInitAt (bootLayout storage) plainMap blankPframe = some (.ok (), ready) ∧
      ∀ i < 0x800, ready.marked i = false ↔
        (∃ entry ∈ plainMap, entry.type = e820TypeUsable ∧
          WholeFrame entry.base entry.length i) ∧
          ¬∃ area ∈ (bootLayout storage).areas, WholeFrame area.1 area.2 i := by
  have frames : managedFrames plainMap = 0x800 := by decide
  rcases pframeInitAt_cases (bootLayout storage) plainMap (rfl : blankPframe.initialized = false) with
    ⟨nothing | large, _⟩ | ⟨ready, made, _, _, free⟩
  · exact absurd nothing (by decide)
  · rw [frames] at large
    exact absurd large (by decide)
  · rw [frames] at free
    exact ⟨ready, made, free⟩

/-- With the bitmap bytes at a page boundary every touched frame is marked. -/
theorem pframeInitAt_marks_touched_plain :
    ∃ ready, pframeInitAt (bootLayout 0x200000) plainMap blankPframe = some (.ok (), ready) ∧
      ∀ frame < ready.totalFrames, (bootLayout 0x200000).Touched plainMap frame →
        ready.marked frame = true := by
  obtain ⟨ready, made, _⟩ := plainMap_boots 0x200000
  have tidy : (bootLayout 0x200000).Tidy plainMap := ⟨by decide, by decide, by decide⟩
  refine ⟨ready, made, (pframeInitAt_marks_touched rfl made).mpr ?_⟩
  intro entry listed usable frame whole
  exact tidy.untouched listed usable whole

/-- With the bitmap bytes in the middle of a page the frame of their first bytes is free. -/
theorem pframeInit_frees_bitmap :
    ∃ ready, pframeInit plainMap 0x200800 blankPframe = some (.ok (), ready) ∧
      (bootLayout 0x200800).Touched plainMap 0x200 ∧ ready.marked 0x200 = false := by
  obtain ⟨ready, made, free⟩ := plainMap_boots 0x200800
  refine ⟨ready, made, .inl ?_, (free 0x200 (by decide)).mpr ?_⟩
  · exact ⟨(0x200800, pframeMaxBitmapSize), by decide, 0x200800, by decide, by decide, by decide⟩
  · exact ⟨⟨_, List.mem_cons_self, rfl, by decide⟩, by decide⟩

end Boot

end Ccos
