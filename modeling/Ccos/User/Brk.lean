import Ccos.User.UserPages

/-! The end of the heap: what a call of `user_brk` leaves when it fails in the middle, and when a
sequence of calls succeeds. -/

namespace Ccos

open Lib

def heapStart : Nat := userBase + 16 * 1024 * 1024

theorem heapStart_eq : heapStart = 0x1400000 := by decide

/-- The first end of the heap that is refused. -/
def brkLimit : Nat := userEnd - userStackSize

/-- The end from which the heap grows. -/
def brkStart (brk : Nat) : Nat :=
  if brk = 0 then heapStart else brk

/-- How many pages a growth asks for, in 64 bits. -/
def brkPages (brk rounded : Nat) : Nat :=
  wrap64 (rounded + 2 ^ 64 - brkStart brk) / pageSize

variable {Alloc : Type}

/-- A growth of the heap: a missing frame leaves the pages that are mapped already. -/
def brkGrowth (ops : FrameOps Alloc) (root start : Nat) : Growth Alloc where
  flags := vmapFlagWrite ||| vmapFlagUser
  clears := true
  noFrame _ st := some st
  noMapping page st := userMunmapPages ops.free root start 0 page st

theorem brkGrowth_flags (ops : FrameOps Alloc) (root start : Nat) :
    (brkGrowth ops root start).flags ||| vmapFlagUser = vmapFlagWrite ||| vmapFlagUser := by
  change (vmapFlagWrite ||| vmapFlagUser) ||| vmapFlagUser = _
  decide

section Calls

variable {ops : FrameOps Alloc} {root brk newBrk : Nat} {st : PageState Alloc}

/-- A call is refused, stores a lower end, or grows the heap. -/
theorem userBrk_forms (ops : FrameOps Alloc) (root brk newBrk : Nat) (st : PageState Alloc) :
    (newBrk = 0 ∨ roundUpPages newBrk < userBase ∨ brkLimit ≤ roundUpPages newBrk) ∧
        userBrk ops root brk newBrk st = some ((brk, none), st) ∨
      (newBrk ≠ 0 ∧ userBase ≤ roundUpPages newBrk ∧ roundUpPages newBrk < brkLimit) ∧
        (roundUpPages newBrk ≤ brk ∧ userBrk ops root brk newBrk st =
            some ((roundUpPages newBrk, some (roundUpPages newBrk)), st) ∨
          brk < roundUpPages newBrk ∧ userBrk ops root brk newBrk st =
            (growPages ops (brkGrowth ops root (brkStart brk)) root (brkStart brk) 0
              (brkPages brk (roundUpPages newBrk)) st).map fun grown =>
                (if grown.1 then (roundUpPages newBrk, some (roundUpPages newBrk))
                  else (brkStart brk, none), grown.2)) := by
  by_cases asked : newBrk = 0
  · exact .inl ⟨.inl asked, if_pos asked⟩
  rw [userBrk, if_neg asked]
  by_cases refused : roundUpPages newBrk < userBase ∨ userEnd - userStackSize ≤ roundUpPages newBrk
  · exact .inl ⟨.inr refused, if_pos refused⟩
  obtain ⟨above, below⟩ := not_or.mp refused
  refine .inr ⟨⟨asked, not_lt.mp above, not_le.mp below⟩, ?_⟩
  by_cases lower : roundUpPages newBrk ≤ brk
  · exact .inl ⟨lower, by simp only [if_neg refused, if_pos lower]⟩
  refine .inr ⟨not_le.mp lower, ?_⟩
  have old : (if brk ≠ 0 then brk else brkStart brk) = brkStart brk := by
    unfold brkStart
    split
    · simp_all
    · simp_all
  simp only [if_neg refused, if_neg lower]
  rw [Option.map_eq_bind]
  refine congrArg (Option.bind _) (funext fun grown => ?_)
  obtain ⟨mapped, after⟩ := grown
  cases mapped with
  | true => rfl
  | false => exact congrArg (fun old => some ((old, none), after)) old

end Calls

/-- Exactly the pages of a range were added, as zeroed writable user pages with new frames. -/
@[grind] structure PagesAdded (source : FrameSource Alloc) (root first last : Nat)
    (before after : PageState Alloc) : Prop where
  added : ∀ vaddr, InPages first last vaddr → hardwareWalk root vaddr before.mem = none ∧
    ∃ frame, ¬source.inUse before.frames frame ∧ source.inUse after.frames frame ∧
      translation root vaddr after.mem = some ⟨frame, true, true, false, false⟩ ∧
      ∀ addr, frame ≤ addr → addr < frame + pageSize → after.mem addr = 0
  distinct : ∀ vaddr other frame, InPages first last vaddr → InPages first last other →
    translation root vaddr after.mem = some ⟨frame, true, true, false, false⟩ →
    translation root other after.mem = some ⟨frame, true, true, false, false⟩ →
    pageNumber vaddr = pageNumber other
  kept : ∀ vaddr, ¬InPages first last vaddr →
    hardwareWalk root vaddr after.mem = hardwareWalk root vaddr before.mem
  frames : ∀ frame, source.inUse after.frames frame → source.inUse before.frames frame ∨
    IsTable root after.mem frame ∨ ∃ vaddr, InPages first last vaddr ∧
      translation root vaddr after.mem = some ⟨frame, true, true, false, false⟩
  used : ∀ frame, source.inUse before.frames frame → source.inUse after.frames frame

/-- Every translation is as before, and so are the frames in use apart from page tables. -/
structure MemoryKept (source : FrameSource Alloc) (root : Nat) (before after : PageState Alloc) :
    Prop where
  translations : ∀ vaddr, hardwareWalk root vaddr after.mem = hardwareWalk root vaddr before.mem
  frames : ∀ frame, source.inUse after.frames frame ↔
    source.inUse before.frames frame ∨ IsTable root after.mem frame

/-- A call moves the end of the heap and adds the pages up to it, or it returns the old end and
changes nothing. -/
@[grind =]
def BrkAllOrNothing (ops : FrameOps Alloc) (root brk newBrk : Nat) (st : PageState Alloc) : Prop :=
  ∃ result stored after, userBrk ops root brk newBrk st = some ((result, stored), after) ∧
    (result = roundUpPages newBrk ∧ stored = some (roundUpPages newBrk) ∧
        (brk < roundUpPages newBrk →
          PagesAdded ops.source root (brkStart brk) (roundUpPages newBrk) st after) ∨
      (result = brk ∨ result = brkStart brk) ∧ stored = none ∧ MemoryKept ops.source root st after)

/-- A call finds no frame for a page after it has mapped other pages. -/
@[grind =]
def BrkRunsDry (ops : FrameOps Alloc) (root brk newBrk : Nat) (st : PageState Alloc) : Prop :=
  (newBrk ≠ 0 ∧ userBase ≤ roundUpPages newBrk ∧ roundUpPages newBrk < brkLimit ∧
    brk < roundUpPages newBrk) ∧
  ∃ mapped middle, 0 < mapped ∧ mapped < brkPages brk (roundUpPages newBrk) ∧
    growPages ops (brkGrowth ops root (brkStart brk)) root (brkStart brk) 0 mapped st =
      some (true, middle) ∧ (ops.source.alloc middle.frames).1 = none

section Outcomes

variable {ops : LawfulFrameOps Alloc} {mark : Alloc → Prop} {root brk newBrk : Nat}
  {st : PageState Alloc}

theorem MemoryKept.refl {source : FrameSource Alloc} (tables : UserTables source root st) :
    MemoryKept source root st st :=
  ⟨fun _ => rfl, fun _ => ⟨.inl, fun either => either.elim id fun table => (tables.inUse table).1⟩⟩

/-- The three ways in which a growth of the heap ends. -/
theorem brkGrowth_cases (marks : ops.toFrameOps.Marks mark)
    (tables : UserTables ops.source root st) (start count : Nat) :
    (∃ pages after, growPages ops.toFrameOps (brkGrowth ops.toFrameOps root start) root start 0 count
        st = some (true, after) ∧
      Raised ops.source (brkGrowth ops.toFrameOps root start) root start st count pages after) ∨
    (∃ mapped pages middle frames, mapped < count ∧
      growPages ops.toFrameOps (brkGrowth ops.toFrameOps root start) root start 0 mapped st =
        some (true, middle) ∧
      Raised ops.source (brkGrowth ops.toFrameOps root start) root start st mapped pages middle ∧
      ops.source.alloc middle.frames = (none, frames) ∧
      growPages ops.toFrameOps (brkGrowth ops.toFrameOps root start) root start 0 count st =
        some (false, { middle with frames := frames })) ∨
    ∃ mapped after, mapped < count ∧
      growPages ops.toFrameOps (brkGrowth ops.toFrameOps root start) root start 0 count st =
        some (false, after) ∧
      (Blocked root start st.mem mapped ∨ mark after.frames) ∧
      UserTables ops.source root after ∧ MemoryKept ops.source root st after := by
  have raised : Raised ops.source (brkGrowth ops.toFrameOps root start) root start st 0
      (fun _ => none) st := .start tables
  rcases growPages_cases marks (by rw [brkGrowth_flags]; decide)
      count 0 _ st raised with
    ⟨pages, after, done, raised⟩ | ⟨mapped, pages, middle, frames, small, raised, grew, refused, done⟩ |
    ⟨mapped, pages, middle, small, raised, reason, done⟩
  · grind
  · rw [Nat.zero_add] at raised
    exact .inr (.inl ⟨mapped, pages, middle, frames, small, grew, raised, refused, done⟩)
  · rw [Nat.zero_add] at raised reason done
    obtain ⟨after, back, later, walks, used⟩ := raised.takeBack
    refine .inr (.inr ⟨mapped, after, small, ?_, reason.imp_right fun held =>
      marks.stable.munmapPages held back, later, walks, used⟩)
    rw [done]
    change Option.map _ (userMunmapPages ops.free root start 0 mapped middle) = _
    rw [back]
    rfl

variable {after : PageState Alloc} {pages : UserPages}

theorem Raised.pagesAdded {start last : Nat}
    (raised : Raised ops.source (brkGrowth ops.toFrameOps root start) root start st
      ((last - start) / pageSize) pages after) (word : last < 2 ^ 64) (ordered : start ≤ last)
    (lastAligned : last % pageSize = 0) : PagesAdded ops.source root start last st after := by
  have aligned : 0 < (last - start) / pageSize → start % pageSize = 0 := by
    intro some
    have first := (raised.user 0 some).2
    simp only [pageAt, wrap64, pageSize, pageShift] at first ⊢
    omega
  have range {vaddr : Nat} : InPages start last vaddr ↔ pages (pageNumber vaddr) ≠ none := by
    rw [InPages, pageIn_iff word ordered lastAligned aligned, raised.domain]
  -- Every page of the growth is mapped as a page of the heap.
  have mapped {vaddr frame flags : Nat} (owned : pages (pageNumber vaddr) = some (frame, flags)) :
      translation root vaddr after.mem = some ⟨frame, true, true, false, false⟩ :=
    raised.writable_page (brkGrowth_flags ops.toFrameOps root start) owned
  have frameOf {vaddr : Nat} (inside : InPages start last vaddr) :
      ∃ frame flags, pages (pageNumber vaddr) = some (frame, flags) := by
    obtain ⟨⟨frame, flags⟩, owned⟩ := Option.ne_none_iff_exists'.mp (range.mp inside)
    exact ⟨frame, flags, owned⟩
  refine ⟨fun vaddr inside => ?_, fun vaddr other frame inside inside' here there => ?_,
    fun vaddr apart => ?_, fun frame used => ?_, fun frame used => ?_⟩
  · obtain ⟨frame, flags, owned⟩ := frameOf inside
    obtain ⟨_, _, _, free, _⟩ := raised.memory.own _ frame flags owned
    exact ⟨raised.memory.alone vaddr (range.mp inside), frame, free,
      (raised.memory.frames frame).mpr (.inr (.inl ⟨_, flags, owned⟩)), mapped owned,
      raised.cleared rfl _ frame flags owned⟩
  · obtain ⟨first, flags, owned⟩ := frameOf inside
    obtain ⟨second, flags', owned'⟩ := frameOf inside'
    rw [mapped owned] at here
    rw [mapped owned'] at there
    cases here
    cases there
    exact raised.memory.distinct _ _ _ _ _ owned owned'
  · rw [raised.memory.walk, not_not.mp (fun owned => apart (range.mpr owned))]
  · rcases (raised.memory.frames frame).mp used with old | ⟨page, flags, owned⟩ | table
    · exact .inl old
    · obtain ⟨j, small, rfl⟩ := (raised.domain page).mp (by simp [owned])
      grind
    · exact .inr (.inl table)
  · exact (raised.memory.frames frame).mpr (.inl used)

theorem brkPages_eq {rounded : Nat} (word : rounded < 2 ^ 64) (ordered : brkStart brk ≤ rounded) :
    brkPages brk rounded = (rounded - brkStart brk) / pageSize := by
  simp only [brkPages, wrap64, pageSize, pageShift]
  omega

theorem Raised.ordered {rounded : Nat}
    (raised : Raised ops.source (brkGrowth ops.toFrameOps root (brkStart brk)) root (brkStart brk) st
      (brkPages brk rounded) pages after) (above : userBase ≤ rounded) (higher : brk < rounded) :
    brkStart brk ≤ rounded := by
  by_contra wraps
  have first : brkStart brk = heapStart := by
    unfold brkStart at wraps ⊢
    grind
  rw [first] at wraps raised
  -- The page behind the last user page would be one of the growth.
  have small : 0x7FFFFEC00 < brkPages brk rounded := by
    rw [brkPages, first]
    rw [heapStart_eq] at wraps ⊢
    simp only [wrap64, userBase, pageSize, pageShift] at above ⊢
    omega
  have outside : vmmIsUserAddr (pageAt heapStart 0x7FFFFEC00) = false := by decide +kernel
  have beyond := (raised.user 0x7FFFFEC00 small).1
  rw [outside] at beyond
  cases beyond

theorem Raised.first {growth : Growth Alloc} {source : FrameSource Alloc} {start count : Nat}
    (raised : Raised source growth root start st count pages after) (some : 0 < count) :
    hardwareWalk root (pageAt start 0) st.mem = none ∧
      hardwareWalk root (pageAt start 0) after.mem ≠ none := by
  have owned := (raised.domain _).mpr ⟨0, some, rfl⟩
  refine ⟨raised.memory.alone _ owned, ?_⟩
  obtain ⟨entry, page⟩ := Option.ne_none_iff_exists'.mp owned
  simp [raised.memory.walk, page]

theorem BrkRunsDry.leaves (tables : UserTables ops.source root st)
    (dry : BrkRunsDry ops.toFrameOps root brk newBrk st) :
    ∃ after, userBrk ops.toFrameOps root brk newBrk st = some ((brkStart brk, none), after) ∧
      hardwareWalk root (pageAt (brkStart brk) 0) st.mem = none ∧
      hardwareWalk root (pageAt (brkStart brk) 0) after.mem ≠ none := by
  obtain ⟨⟨asked, above, below, higher⟩, mapped, middle, some, small, grew, refused⟩ := dry
  have raises := userBrk_forms ops.toFrameOps root brk newBrk st
  have marks := ops.toFrameOps.marks_true
  rcases refusal : ops.source.alloc middle.frames with ⟨_ | fresh, frames⟩
  swap
  · rw [refusal] at refused
    cases refused
  -- The growth stops behind the pages that were mapped.
  have whole := growPages_append mapped (brkPages brk (roundUpPages newBrk) - mapped) 0 st middle grew
  rw [show mapped + (brkPages brk (roundUpPages newBrk) - mapped) =
      brkPages brk (roundUpPages newBrk) by omega,
    show brkPages brk (roundUpPages newBrk) - mapped =
      brkPages brk (roundUpPages newBrk) - mapped - 1 + 1 by omega, growPages, refusal] at whole
  refine ⟨{ middle with frames := frames }, ?_, ?_⟩
  · rcases raises with _ | ⟨_, _ | ⟨_, call⟩⟩
    · omega
    · omega
    · rw [call, whole]
      rfl
  rcases brkGrowth_cases marks tables (brkStart brk) mapped with
    ⟨pages, after, done, raised⟩ | ⟨_, _, _, _, _, _, _, _, done⟩ | ⟨_, _, _, done, _⟩
  · obtain rfl : after = middle := by simpa using done.symm.trans grew
    exact raised.first some
  · simp [grew] at done
  · simp [grew] at done

/-- A call is all or nothing exactly when it does not run out of frames after it has mapped a
page. -/
theorem userBrk_all_or_nothing (ops : LawfulFrameOps Alloc) {st : PageState Alloc}
    (tables : UserTables ops.source root st) (brk newBrk : Nat) :
    BrkAllOrNothing ops.toFrameOps root brk newBrk st ↔
      ¬BrkRunsDry ops.toFrameOps root brk newBrk st := by
  constructor
  · rintro ⟨result, stored, after, done, ⟨_, stored, _⟩ | ⟨_, _, kept⟩⟩ dry
    · obtain ⟨last, same, _⟩ := dry.leaves tables
      cases stored
      cases done.symm.trans same
    · obtain ⟨last, same, absent, present⟩ := dry.leaves tables
      cases done.symm.trans same
      exact present ((kept.translations _).trans absent)
  intro enough
  have marks := ops.toFrameOps.marks_true
  obtain ⟨aligned, word⟩ := roundUpPages_aligned newBrk
  unfold BrkAllOrNothing
  rcases userBrk_forms ops.toFrameOps root brk newBrk st with
    ⟨_, call⟩ | ⟨⟨_, above, _⟩, ⟨lower, call⟩ | ⟨_, call⟩⟩
  all_goals rw [call]
  · exact ⟨_, _, _, rfl, .inr ⟨.inl rfl, rfl, .refl tables⟩⟩
  · grind
  rcases brkGrowth_cases marks tables (brkStart brk) (brkPages brk (roundUpPages newBrk)) with
    ⟨pages, after, done, raised⟩ | ⟨mapped, pages, middle, frames, small, grew, raised, dry, done⟩ |
    ⟨mapped, after, small, done, _, _, kept⟩
  · have ordered := raised.ordered above (by omega)
    rw [done]
    refine ⟨_, _, _, rfl, .inl ⟨rfl, rfl, fun _ => ?_⟩⟩
    rw [brkPages_eq word ordered] at raised
    exact raised.pagesAdded word ordered aligned
  · -- A frame is missing for the first page, or the call runs dry.
    obtain rfl : mapped = 0 := by
      grind
    cases grew
    rw [done]
    refine ⟨_, _, _, rfl, .inr ⟨.inr rfl, rfl, fun _ => rfl, fun frame => ?_⟩⟩
    exact (ops.source.refused _ _ dry frame).trans ((MemoryKept.refl tables).frames frame)
  · rw [done]
    exact ⟨_, _, _, rfl, .inr ⟨.inr rfl, rfl, kept⟩⟩

end Outcomes

theorem newProcess_pframe_tables :
    UserTables pframeLawfulOps.source 0x100000 (newProcess pframeSource smallPframe) :=
  newProcess_tables ⟨5, by decide, by decide, by decide⟩ (by decide +kernel)

/-- A new process gets its first three heap pages, since no frame runs out on the way. -/
theorem userBrk_all_or_nothing_three :
    BrkAllOrNothing pframeLawfulOps.toFrameOps 0x100000 0 0x1402001
      (newProcess pframeSource smallPframe) := by
  refine (userBrk_all_or_nothing pframeLawfulOps newProcess_pframe_tables 0 0x1402001).mpr ?_
  rintro ⟨_, mapped, middle, positive, small, grew, dry⟩
  have left : ∀ mapped < 3, (growPages pframeLawfulOps.toFrameOps
      (brkGrowth pframeLawfulOps.toFrameOps 0x100000 (brkStart 0)) 0x100000 (brkStart 0) 0 mapped
      (newProcess pframeSource smallPframe)).all fun grown =>
        (pframeSource.alloc grown.2.frames).1.isSome := by decide +kernel
  have enough := left mapped small
  rw [grew] at enough
  cases (congrArg Option.isSome dry).symm.trans enough

/-- A call for three pages finds frames for two, returns the old end and leaves the two pages
mapped. -/
theorem userBrk_leaves_pages :
    ∃ after, userBrk pframeLawfulOps.toFrameOps 0x100000 0 0x1403000
        (newProcess pframeSource tightPframe) = some ((0x1400000, none), after) ∧
      hardwareWalk 0x100000 0x1400000 (newProcess pframeSource tightPframe).mem = none ∧
      translation 0x100000 0x1400000 after.mem = some ⟨0x101000, true, true, false, false⟩ ∧
      translation 0x100000 0x1401000 after.mem = some ⟨0x105000, true, true, false, false⟩ ∧
      ¬BrkAllOrNothing pframeLawfulOps.toFrameOps 0x100000 0 0x1403000
        (newProcess pframeSource tightPframe) := by
  have computed : (userBrk pframeLawfulOps.toFrameOps 0x100000 0 0x1403000
      (newProcess pframeSource tightPframe)).map (fun reply =>
        (reply.1, translation 0x100000 0x1400000 reply.2.mem,
          translation 0x100000 0x1401000 reply.2.mem)) =
      some ((0x1400000, none), some ⟨0x101000, true, true, false, false⟩,
        some ⟨0x105000, true, true, false, false⟩) := by decide +kernel
  have absent : hardwareWalk 0x100000 0x1400000 (newProcess pframeSource tightPframe).mem = none := by
    decide +kernel
  obtain ⟨⟨reply, after⟩, done, values⟩ := Option.map_eq_some_iff.mp computed
  simp only [Prod.mk.injEq] at values
  obtain ⟨rfl, first, second⟩ := values
  refine ⟨after, done, absent, first, second, ?_⟩
  rintro ⟨result, stored, last, same, ⟨_, moved, _⟩ | ⟨_, _, kept⟩⟩
  · cases done.symm.trans same
    cases moved
  · cases done.symm.trans same
    rw [translation, kept.translations, absent] at first
    cases first

/-- The heap of a process over a sequence of calls, with every move of its end so far. -/
structure BrkHeap (Alloc : Type) where
  brk : Nat
  st : PageState Alloc
  moves : List (Nat × Nat)

/-- A call, whose end is stored and noted unless it failed. -/
def BrkHeap.call (ops : FrameOps Alloc) (root : Nat) (heap : BrkHeap Alloc) (newBrk : Nat) :
    Option (BrkHeap Alloc) :=
  (userBrk ops root heap.brk newBrk heap.st).map fun ((_, stored), after) =>
    { brk := stored.getD heap.brk
      st := after
      moves := stored.toList.map (brkStart heap.brk, ·) ++ heap.moves }

/-- A call of a sequence in which every frame that is asked for is granted. -/
@[grind =] def BrkStep (ops : LawfulFrameOps Alloc) (root : Nat) (before : BrkHeap (Watched Alloc))
    (newBrk : Nat) (after : BrkHeap (Watched Alloc)) : Prop :=
  before.call (watchedOps ops).toFrameOps root newBrk = some after ∧ after.st.frames.refused = false

/-- No page between the end and a higher one was mapped at the start, and no earlier call mapped
one. -/
@[grind =]
def BrkHeap.Untouched (root : Nat) (start : PhysMem) (heap : BrkHeap Alloc) (last : Nat) : Prop :=
  ∀ vaddr, InPages (brkStart heap.brk) last vaddr →
    hardwareWalk root vaddr start = none ∧ ∀ move ∈ heap.moves, ¬InPages move.1 move.2 vaddr

/-- What holds of the heap as long as no frame was refused: the mapped pages are those from the start
and those of the moves. -/
@[grind] structure BrkHeap.Inv (source : FrameSource Alloc) (root : Nat) (start : PhysMem)
    (heap : BrkHeap Alloc) : Prop where
  tables : UserTables source root heap.st
  placed : heap.brk = 0 ∨ userBase ≤ heap.brk ∧ heap.brk % pageSize = 0
  walk : ∀ vaddr, hardwareWalk root vaddr heap.st.mem = none ↔
    hardwareWalk root vaddr start = none ∧ ∀ move ∈ heap.moves, ¬InPages move.1 move.2 vaddr

section Sequences

variable {ops : LawfulFrameOps Alloc} {mark : Alloc → Prop} {root brk newBrk : Nat}
  {st : PageState Alloc}

theorem brkStart_placed (placed : brk = 0 ∨ userBase ≤ brk ∧ brk % pageSize = 0) :
    userBase ≤ brkStart brk ∧ brkStart brk % pageSize = 0 := by
  unfold brkStart
  split
  · decide
  · omega

/-- A growth below the limit is only blocked by a mapping in its range. -/
theorem Blocked.heap {last page : Nat} {mem : PhysMem}
    (placed : brk = 0 ∨ userBase ≤ brk ∧ brk % pageSize = 0) (below : last < brkLimit)
    (aligned : last % pageSize = 0) (ordered : brkStart brk ≤ last)
    (small : page < (last - brkStart brk) / pageSize)
    (blocked : Blocked root (brkStart brk) mem page) :
    ∃ vaddr, InPages (brkStart brk) last vaddr ∧ hardwareWalk root vaddr mem ≠ none := by
  obtain ⟨low, startAligned⟩ := brkStart_placed placed
  have limit : brkLimit < userEnd := by decide
  have high : brkStart brk + (last - brkStart brk) / pageSize * pageSize ≤ userEnd + 1 := by
    have rounded := Nat.div_mul_le_self (last - brkStart brk) pageSize
    omega
  refine ⟨_, ⟨brkStart brk + page * pageSize, ?_, by omega, ?_, rfl⟩,
    blocked.mapped low startAligned high small⟩
  · simp only [pageSize, pageShift] at *
    omega
  · simp only [pageSize, pageShift] at *
    omega

/-- What a call does that is refused no frame. -/
theorem userBrk_cases (marks : ops.toFrameOps.Marks mark) (tables : UserTables ops.source root st)
    (placed : brk = 0 ∨ userBase ≤ brk ∧ brk % pageSize = 0) (newBrk : Nat) :
    ∃ result stored after, userBrk ops.toFrameOps root brk newBrk st =
        some ((result, stored), after) ∧
      (¬mark after.frames → UserTables ops.source root after ∧
        ((result = roundUpPages newBrk ∧ stored = some (roundUpPages newBrk) ∧
            userBase ≤ roundUpPages newBrk ∧ roundUpPages newBrk < brkLimit ∧
            ∀ vaddr, (InPages (brkStart brk) (roundUpPages newBrk) vaddr →
                hardwareWalk root vaddr st.mem = none) ∧
              (hardwareWalk root vaddr after.mem = none ↔ hardwareWalk root vaddr st.mem = none ∧
                ¬InPages (brkStart brk) (roundUpPages newBrk) vaddr)) ∨
          stored = none ∧
            (∀ vaddr, hardwareWalk root vaddr after.mem = hardwareWalk root vaddr st.mem) ∧
            (newBrk = 0 ∨ roundUpPages newBrk < userBase ∨ brkLimit ≤ roundUpPages newBrk ∨
              brk < roundUpPages newBrk ∧ roundUpPages newBrk < brkStart brk ∨
              ∃ vaddr, InPages (brkStart brk) (roundUpPages newBrk) vaddr ∧
                hardwareWalk root vaddr st.mem ≠ none))) := by
  obtain ⟨aligned, word⟩ := roundUpPages_aligned newBrk
  rcases userBrk_forms ops.toFrameOps root brk newBrk st with
    ⟨refused, call⟩ | ⟨⟨_, above, below⟩, ⟨lower, call⟩ | ⟨higher, call⟩⟩
  all_goals rw [call]
  · refine ⟨_, _, _, rfl, fun _ => ⟨tables, .inr ⟨rfl, fun _ => rfl, ?_⟩⟩⟩
    grind
  · -- A lower end maps nothing, and no page lies between it and the old one.
    refine ⟨_, _, _, rfl, fun _ => ⟨tables, .inl ⟨rfl, rfl, above, below, fun vaddr => ?_⟩⟩⟩
    have empty : ¬InPages (brkStart brk) (roundUpPages newBrk) vaddr := by
      rintro ⟨page, _, first, last, _⟩
      have positive : brk ≠ 0 := by
        rintro rfl
        simp only [userBase] at above
        omega
      simp only [brkStart, if_neg positive, pageSize, pageShift] at first last
      omega
    grind
  rcases brkGrowth_cases marks tables (brkStart brk) (brkPages brk (roundUpPages newBrk)) with
    ⟨pages, after, done, raised⟩ | ⟨mapped, pages, middle, frames, small, grew, raised, dry, done⟩ |
    ⟨mapped, after, small, done, reason, later, kept⟩
  · have ordered := raised.ordered above (by omega)
    rw [done]
    refine ⟨_, _, _, rfl, fun _ => ⟨raised.memory.tables, .inl ⟨rfl, rfl, above, below, ?_⟩⟩⟩
    rw [brkPages_eq word ordered] at raised
    have added := raised.pagesAdded word ordered aligned
    intro vaddr
    refine ⟨fun inside => (added.added vaddr inside).1, ?_⟩
    by_cases inside : InPages (brkStart brk) (roundUpPages newBrk) vaddr
    · obtain ⟨_, _, _, _, here, _⟩ := added.added vaddr inside
      simp only [translation, Option.map_eq_some_iff] at here
      obtain ⟨_, found, _⟩ := here
      simp [found, inside]
    · simp [added.kept vaddr inside, inside]
  · rw [done]
    exact ⟨_, _, _, rfl, fun enough => absurd (marks.refused _ _ dry) enough⟩
  · rw [done]
    refine ⟨_, _, _, rfl, fun enough => ⟨later, .inr ⟨rfl, kept.translations, ?_⟩⟩⟩
    refine .inr (.inr (.inr ((Nat.lt_or_ge _ _).imp (fun wraps => ⟨by omega, wraps⟩)
      fun ordered => ?_)))
    rw [brkPages_eq word ordered] at small
    exact (reason.resolve_right enough).heap placed below aligned ordered small

theorem BrkHeap.Inv.call {start : PhysMem} {heap after : BrkHeap Alloc}
    (marks : ops.toFrameOps.Marks mark) (inv : heap.Inv ops.source root start)
    (done : heap.call ops.toFrameOps root newBrk = some after) (enough : ¬mark after.st.frames) :
    after.Inv ops.source root start := by
  obtain ⟨result, stored, last, called, outcome⟩ := userBrk_cases marks inv.tables inv.placed newBrk
  simp only [BrkHeap.call, called, Option.map_some, Option.some.injEq] at done
  subst done
  obtain ⟨tables, ⟨rfl, rfl, above, below, pages⟩ | ⟨rfl, same, _⟩⟩ := outcome enough
  · refine ⟨tables, .inr ⟨above, (roundUpPages_aligned newBrk).1⟩, fun vaddr => ?_⟩
    -- The pages of the new move join the others.
    refine ((pages vaddr).2.trans (and_congr_left' (inv.walk vaddr))).trans ?_
    simp only [Option.toList_some, List.map_cons, List.map_nil, List.singleton_append,
      List.forall_mem_cons]
    tauto
  grind

/-- After any calls with enough frames, a call for an end between the start of the heap and the limit
succeeds exactly when the rounded end is below the limit and no page up to it is mapped already. -/
theorem userBrk_succeeds_iff (ops : LawfulFrameOps Alloc) {start : PageState (Watched Alloc)}
    {calls : List Nat} {heap : BrkHeap (Watched Alloc)}
    (tables : UserTables (watchedOps ops).source root start)
    (run : Run (BrkStep ops root) ⟨0, start, []⟩ calls heap)
    (low : heapStart ≤ newBrk) (high : newBrk ≤ brkLimit) :
    ∃ result stored after, userBrk (watchedOps ops).toFrameOps root heap.brk newBrk heap.st =
        some ((result, stored), after) ∧
      (after.frames.refused = false →
        (result = roundUpPages newBrk ∧ stored = some (roundUpPages newBrk) ↔
          roundUpPages newBrk < brkLimit ∧
            heap.Untouched root start.mem (roundUpPages newBrk))) := by
  have marks := watchedOps_marks ops
  have inv : heap.Inv (watchedOps ops).source root start.mem :=
    run.preserves _ (fun before newBrk after taken inv =>
      inv.call marks taken.1 (by simp [taken.2])) ⟨tables, .inl rfl, fun vaddr => by simp⟩
  obtain ⟨result, stored, after, called, outcome⟩ :=
    userBrk_cases marks inv.tables inv.placed newBrk
  refine ⟨result, stored, after, called, fun enough => ?_⟩
  obtain ⟨_, ⟨rfl, rfl, above, below, pages⟩ | ⟨rfl, _, reason⟩⟩ := outcome (by simp [enough])
  · grind
  · apply iff_of_false
    · intro succeeded
      cases succeeded.2
    rintro ⟨below, untouched⟩
    have limit : brkLimit < 2 ^ 48 := by decide
    have rounded : newBrk ≤ roundUpPages newBrk := by
      rw [roundUpPages_eq]
      simp only [wrap64, pageSize, pageShift]
      omega
    have heap : userBase < heapStart := by decide
    rcases reason with zero | under | beyond | ⟨higher, wraps⟩ | ⟨vaddr, inside, mapped⟩
    · omega
    · omega
    · omega
    · unfold brkStart at wraps
      split at wraps
      · omega
      · omega
    grind

end Sequences

/-- A new process over an allocator that keeps a record. -/
def brkProcess : PageState (Watched ReadyPframe) :=
  newProcess (watchedOps pframeLawfulOps).source ⟨smallPframe, false, []⟩

theorem brkProcess_tables : UserTables (watchedOps pframeLawfulOps).source 0x100000 brkProcess :=
  newProcess_tables ⟨5, by decide, by decide, by decide⟩ (by decide +kernel)

/-- The end is raised by a page and then asked to be raised by another one. -/
theorem userBrk_succeeds_iff_second :
    ∃ heap, Run (BrkStep pframeLawfulOps 0x100000) ⟨0, brkProcess, []⟩ [0x1401000] heap ∧
      ∃ result stored after, userBrk (watchedOps pframeLawfulOps).toFrameOps 0x100000 heap.brk
          0x1401001 heap.st = some ((result, stored), after) ∧
        (after.frames.refused = false →
          (result = roundUpPages 0x1401001 ∧ stored = some (roundUpPages 0x1401001) ↔
            roundUpPages 0x1401001 < brkLimit ∧
              heap.Untouched 0x100000 brkProcess.mem (roundUpPages 0x1401001))) := by
  have computed : ((⟨0, brkProcess, []⟩ : BrkHeap (Watched ReadyPframe)).call
      (watchedOps pframeLawfulOps).toFrameOps 0x100000 0x1401000).any
        (fun heap => heap.st.frames.refused = false) := by decide +kernel
  obtain ⟨heap, called, enough⟩ := (Option.any_eq_true _ _).mp computed
  have step : BrkStep pframeLawfulOps 0x100000 ⟨0, brkProcess, []⟩ 0x1401000 heap :=
    ⟨called, of_decide_eq_true enough⟩
  have run := Run.cons step (.nil heap)
  exact ⟨heap, run, userBrk_succeeds_iff pframeLawfulOps brkProcess_tables run (by decide)
    (by decide)⟩

/-- Two pages are mapped, the end is lowered by a page and then cannot be raised again: the page is
still mapped. -/
theorem userBrk_fails_after_lowering :
    (∀ vaddr, InPages heapStart brkLimit vaddr →
        hardwareWalk 0x100000 vaddr brkProcess.mem = none) ∧
      ∃ heap after,
        Run (BrkStep pframeLawfulOps 0x100000) ⟨0, brkProcess, []⟩ [0x1402000, 0x1401000] heap ∧
        userBrk (watchedOps pframeLawfulOps).toFrameOps 0x100000 heap.brk 0x1402000 heap.st =
          some ((0x1401000, none), after) ∧ after.frames.refused = false := by
  refine ⟨?_, ?_⟩
  · rintro vaddr ⟨page, aligned, above, below, number⟩
    have limit : brkLimit < 2 ^ 47 := by decide
    refine newProcess_walk ?_ (by decide +kernel)
    rw [pml4Index, tableIndex_val]
    simp only [pageNumber, pageSize, pageShift, Nat.shiftRight_eq_div_pow] at *
    omega
  have computed : (([0x1402000, 0x1401000].foldlM (fun (heap : BrkHeap (Watched ReadyPframe)) newBrk =>
      (heap.call (watchedOps pframeLawfulOps).toFrameOps 0x100000 newBrk).filter
        (fun heap => heap.st.frames.refused = false)) ⟨0, brkProcess, []⟩).any fun heap =>
      (userBrk (watchedOps pframeLawfulOps).toFrameOps 0x100000 heap.brk 0x1402000 heap.st).any
        fun reply => reply.1 = (0x1401000, none) ∧ reply.2.frames.refused = false) := by
    decide +kernel
  obtain ⟨heap, ran, last⟩ := (Option.any_eq_true _ _).mp computed
  obtain ⟨⟨reply, after⟩, called, values⟩ := (Option.any_eq_true _ _).mp last
  obtain ⟨rfl, enough⟩ := of_decide_eq_true values
  refine ⟨heap, after, Run.of_foldlM (fun first newBrk second taken => ?_) ran, called, enough⟩
  obtain ⟨called, enough⟩ := Option.filter_eq_some_iff.mp taken
  exact ⟨called, of_decide_eq_true enough⟩

end Ccos
