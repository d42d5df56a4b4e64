import Ccos.User.Brk

/-! The memory that `user_mmap` maps: what a call that succeeds has mapped, what a call that fails
leaves, and when a call without an address succeeds. -/

namespace Ccos

open Lib

variable {Alloc : Type}

/-- Where a call puts its pages: at its address or, for address zero, at the end of the heap. -/
def mmapPlace (brk addr : Nat) : Nat :=
  if addr = 0 then roundUpPages (if heapStart < brk then brk else heapStart) else addr

/-- The growth by the pages of a mapping: the pages mapped so far are unmapped when one fails. -/
def mmapGrowth (ops : FrameOps Alloc) (root place prot : Nat) : Growth Alloc where
  flags := userMmapFlags prot
  clears := true
  noFrame page st :=
    (userMunmap ops.free (some root) place (wrap64 (page * pageSize)) st).map Prod.snd
  noMapping page st :=
    (userMunmap ops.free (some root) place (wrap64 (page * pageSize)) st).map Prod.snd

/-- The flags of a mapping: always for the user, and never for a large page. -/
theorem userMmapFlags_bits (prot : Nat) :
    userMmapFlags prot ||| vmapFlagUser = userMmapFlags prot ∧
      (userMmapFlags prot).testBit 0 = decide (prot &&& 0x02 ≠ 0) ∧
      (userMmapFlags prot).testBit 1 = true ∧
      (userMmapFlags prot).testBit 2 = decide (prot &&& 0x04 = 0) ∧
      SmallFlags (userMmapFlags prot) := by
  -- Only two bits of the protection are read.
  have bits : ∀ write noExec : Bool, ∀ position : Fin 7,
      (vmapFlagUser ||| (if write then vmapFlagWrite else 0) |||
        (if noExec then vmapFlagNoExec else 0)) ||| vmapFlagUser =
          vmapFlagUser ||| (if write then vmapFlagWrite else 0) |||
            (if noExec then vmapFlagNoExec else 0) ∧
      (vmapFlagUser ||| (if write then vmapFlagWrite else 0) |||
        (if noExec then vmapFlagNoExec else 0)).testBit position =
          [write, true, noExec, false, false, false, false].get position := by
    decide
  have position := bits (decide (prot &&& 0x02 ≠ 0)) (decide (prot &&& 0x04 = 0))
  simp only [decide_eq_true_eq] at position
  exact ⟨(position 0).1, (position 0).2, (position 1).2, (position 2).2,
    ⟨(position 5).2, (position 6).2⟩⟩

theorem smallEntry_permissions (frame flags : Nat) :
    (smallEntry frame flags).testBit 1 = flags.testBit 0 ∧
      (smallEntry frame flags).testBit 2 = flags.testBit 1 ∧
      (smallEntry frame flags).testBit 63 = flags.testBit 2 := by
  have bits : ∀ write user noExec writeThru noCache : Bool,
      (pteBits write user noExec writeThru noCache).testBit 1 = write ∧
      (pteBits write user noExec writeThru noCache).testBit 2 = user ∧
      (pteBits write user noExec writeThru noCache).testBit 63 = noExec := by
    decide
  obtain ⟨write, user, noExec⟩ := bits (flags.testBit 0) (flags.testBit 1) (flags.testBit 2)
    (flags.testBit 3) (flags.testBit 4)
  -- The address field has none of these bits.
  have high : pteAddrMask.testBit 63 = false := by decide
  rw [smallEntry, vmapFlagsToPte_eq]
  refine ⟨?_, ?_, ?_⟩
  · rw [testBit_lor_low _ _ (by decide), write]
  · rw [testBit_lor_low _ _ (by decide), user]
  grind

variable {growth : Growth Alloc} {length brk addr : Nat}

section Growth

variable {ops : LawfulFrameOps Alloc} {mark : Alloc → Prop} {root place count prot : Nat}
  {st before : PageState Alloc} {pages : UserPages}

/-- The pages mapped so far are unmapped as a range of their own. -/
theorem Raised.userMunmap (word : place < 2 ^ 64) (fits : count * pageSize < 2 ^ 64)
    (raised : Raised ops.source growth root place before count pages st) :
    ∃ after, (userMunmap ops.free (some root) place (wrap64 (count * pageSize)) st).map Prod.snd =
        some after ∧
      userMunmapPages ops.free root place 0 count st = some after := by
  have whole : roundUpPages (wrap64 (count * pageSize)) / pageSize = count := by
    rw [roundUpPages_eq, wrap64_of_lt fits]
    simp only [wrap64, pageSize, pageShift] at *
    omega
  obtain ⟨after, done, _⟩ := raised.takeBack
  refine ⟨after, ?_, done⟩
  simp only [Ccos.userMunmap, whole, land_pageSize]
  -- The checks of the call pass for the first page, and without pages they do not matter.
  rcases Nat.eq_zero_or_pos count with rfl | some
  · cases done
    split
    · rfl
    · split
      · rfl
      · rfl
  · obtain ⟨user, aligned⟩ := raised.user 0 some
    rw [pageAt_zero word] at user aligned
    simp [user, aligned, done]

/-- A growth by the pages of a mapping maps all of them, or it leaves the memory as it was. -/
theorem mmapGrowth_cases (marks : ops.toFrameOps.Marks mark)
    (tables : UserTables ops.source root st) (word : place < 2 ^ 64)
    (fits : count * pageSize < 2 ^ 64) :
    (∃ pages after, growPages ops.toFrameOps (mmapGrowth ops.toFrameOps root place prot) root place 0
        count st = some (true, after) ∧
      Raised ops.source (mmapGrowth ops.toFrameOps root place prot) root place st count pages
        after) ∨
    ∃ mapped after, mapped < count ∧
      growPages ops.toFrameOps (mmapGrowth ops.toFrameOps root place prot) root place 0 count st =
        some (false, after) ∧
      (Blocked root place st.mem mapped ∨ mark after.frames) ∧
      MemoryKept ops.source root st after := by
  obtain ⟨user, _, _, _, ordinary⟩ := userMmapFlags_bits prot
  have flags : (mmapGrowth ops.toFrameOps root place prot).flags ||| vmapFlagUser =
      userMmapFlags prot := user
  have raised : Raised ops.source (mmapGrowth ops.toFrameOps root place prot) root place st 0
      (fun _ => none) st := .start tables
  -- Either failure takes back the pages mapped so far.
  have back {mapped : Nat} {pages : UserPages} {middle : PageState Alloc} (small : mapped < count)
      (raised : Raised ops.source (mmapGrowth ops.toFrameOps root place prot) root place st mapped
        pages middle) :
      ∃ after, (userMunmap ops.free (some root) place (wrap64 (mapped * pageSize)) middle).map
          Prod.snd = some after ∧
        (mark middle.frames → mark after.frames) ∧ MemoryKept ops.source root st after := by
    have less : mapped * pageSize < 2 ^ 64 :=
      Nat.lt_of_le_of_lt (Nat.mul_le_mul_right _ (Nat.le_of_lt small)) fits
    obtain ⟨after, called, done⟩ := raised.userMunmap word less
    obtain ⟨last, done', _, walks, used⟩ := raised.takeBack
    obtain rfl := Option.some.inj (done.symm.trans done')
    exact ⟨after, called, fun held => marks.stable.munmapPages held done, walks, used⟩
  rcases growPages_cases marks (flags.symm ▸ ordinary) count 0 _ st raised with
    ⟨pages, after, done, raised⟩ |
    ⟨mapped, pages, middle, frames, small, raised, grew, refused, done⟩ |
    ⟨mapped, pages, middle, small, raised, reason, done⟩
  · grind
  · rw [Nat.zero_add] at raised done
    obtain ⟨after, called, kept, same⟩ := back small (raised.refused refused)
    exact .inr ⟨mapped, after, small, done.trans (congrArg (Option.map _) called),
      .inr (kept (marks.refused _ _ refused)), same⟩
  · rw [Nat.zero_add] at raised reason done
    obtain ⟨after, called, kept, same⟩ := back small raised
    exact .inr ⟨mapped, after, small, done.trans (congrArg (Option.map _) called),
      reason.imp_right kept, same⟩

theorem Raised.kept {source : FrameSource Alloc}
    (raised : Raised source growth root place before 0 pages st) :
    MemoryKept source root before st := by
  have empty (number : Nat) : pages number = none := by
    by_contra owned
    obtain ⟨_, small, _⟩ := (raised.domain number).mp owned
    omega
  refine ⟨fun vaddr => ?_, fun frame => ?_⟩
  · rw [raised.memory.walk, empty]
  · rw [raised.memory.frames]
    simp [empty]

theorem roundUpPages_pages (length : Nat) :
    roundUpPages length / pageSize * pageSize = roundUpPages length ∧
      roundUpPages length / pageSize * pageSize < 2 ^ 64 := by
  obtain ⟨aligned, word⟩ := roundUpPages_aligned length
  have whole := Nat.div_mul_cancel (Nat.dvd_of_mod_eq_zero aligned)
  grind

theorem roundUpPages_of_le (fits : length ≤ 2 ^ 64 - pageSize) :
    roundUpPages length = (length + pageSize - 1) / pageSize * pageSize := by
  rw [roundUpPages_eq, wrap64_of_lt]
  simp only [pageSize, pageShift] at *
  omega

theorem mmapPlace_lt (word : addr < 2 ^ 64) : mmapPlace brk addr < 2 ^ 64 := by
  unfold mmapPlace
  split
  · exact (roundUpPages_aligned _).2
  · exact word

/-- A call maps all its pages at their place, or it returns zero and leaves the memory as it was. -/
theorem userMmap_cases (marks : ops.toFrameOps.Marks mark)
    (tables : UserTables ops.source root st) (brk : Nat) (word : addr < 2 ^ 64)
    (length prot : Nat) :
    (∃ pages after, userMmap ops.toFrameOps root brk addr length prot st =
        some (mmapPlace brk addr, after) ∧
      Raised ops.source (mmapGrowth ops.toFrameOps root (mmapPlace brk addr) prot) root
        (mmapPlace brk addr) st (roundUpPages length / pageSize) pages after) ∨
    ∃ mapped after, mapped < roundUpPages length / pageSize ∧
      userMmap ops.toFrameOps root brk addr length prot st = some (0, after) ∧
      (Blocked root (mmapPlace brk addr) st.mem mapped ∨ mark after.frames) ∧
      MemoryKept ops.source root st after := by
  have placed : mmapPlace brk addr < 2 ^ 64 := mmapPlace_lt word
  rcases @mmapGrowth_cases _ ops mark root _ _ prot st marks tables placed
    (roundUpPages_pages length).2 with
    ⟨pages, after, done, raised⟩ | ⟨mapped, after, small, done, reason, kept⟩
  · exact .inl ⟨pages, after, congrArg (Option.bind · _) done, raised⟩
  · exact .inr ⟨mapped, after, small, congrArg (Option.bind · _) done, reason, kept⟩

/-- Every byte of a range is a user address where nothing was mapped, and lies in a page of zeros
with a frame of its own and the requested permissions now. -/
@[grind =] def RangeMapped (source : FrameSource Alloc) (root first length prot : Nat)
    (before after : PageState Alloc) : Prop :=
  ∀ vaddr, first ≤ vaddr → vaddr < first + length →
    (userBase ≤ vaddr ∧ vaddr < userEnd) ∧ hardwareWalk root vaddr before.mem = none ∧
    ∃ entry frame, hardwareWalk root vaddr after.mem = some (entry, 0) ∧ pteAddr entry = frame ∧
      entry.testBit 2 = true ∧ (entry.testBit 1 = true ↔ prot &&& 0x02 ≠ 0) ∧
      (entry.testBit 63 = false ↔ prot &&& 0x04 ≠ 0) ∧
      ¬source.inUse before.frames frame ∧ source.inUse after.frames frame ∧
      ∀ addr, frame ≤ addr → addr < frame + pageSize → after.mem addr = 0

/-- A page of a mapping has a fresh frame of zeros and the requested permissions. -/
theorem Raised.mmap_page {vaddr : Nat} {after : PageState Alloc}
    (raised : Raised ops.source (mmapGrowth ops.toFrameOps root place prot) root place st count pages
      after)
    (owned : pages (pageNumber vaddr) ≠ none) :
    hardwareWalk root vaddr st.mem = none ∧
    ∃ entry frame, hardwareWalk root vaddr after.mem = some (entry, 0) ∧ pteAddr entry = frame ∧
      entry.testBit 2 = true ∧ (entry.testBit 1 = true ↔ prot &&& 0x02 ≠ 0) ∧
      (entry.testBit 63 = false ↔ prot &&& 0x04 ≠ 0) ∧
      ¬ops.source.inUse st.frames frame ∧ ops.source.inUse after.frames frame ∧
      ∀ addr, frame ≤ addr → addr < frame + pageSize → after.mem addr = 0 := by
  refine ⟨raised.memory.alone vaddr owned, ?_⟩
  obtain ⟨⟨frame, flags⟩, page⟩ := Option.ne_none_iff_exists'.mp owned
  obtain ⟨_, aligned, fits, free, _⟩ := raised.memory.own _ frame flags page
  -- The flags of the entry are those that the protection asks for.
  obtain ⟨user, write, isUser, noExec, _⟩ := userMmapFlags_bits prot
  obtain rfl : flags = userMmapFlags prot := (raised.flags _ frame flags page).trans user
  obtain ⟨bit1, bit2, bit63⟩ := smallEntry_permissions frame (userMmapFlags prot)
  refine ⟨smallEntry frame (userMmapFlags prot), frame, ?_, pteAddr_smallEntry aligned fits,
    bit2.trans isUser, ?_, ?_, free, ?_, raised.cleared rfl _ frame _ page⟩
  · rw [raised.memory.walk, page]
  · rw [bit1, write, decide_eq_true_eq]
  · rw [bit63, noExec, decide_eq_false_iff_not]
  · exact (raised.memory.frames frame).mpr (.inr (.inl ⟨_, _, page⟩))

/-- Every byte that a call returns is mapped as requested exactly when the length can be rounded up
in 64 bits and the range ends before the last user address. -/
theorem userMmap_maps_range (ops : LawfulFrameOps Alloc) {st : PageState Alloc}
    (tables : UserTables ops.source root st) {brk addr length : Nat} (word : addr < 2 ^ 64)
    (positive : 0 < length) (prot : Nat) :
    ∃ result after, userMmap ops.toFrameOps root brk addr length prot st = some (result, after) ∧
      (length < 2 ^ 64 → result ≠ 0 →
        (RangeMapped ops.source root result length prot st after ↔
          length ≤ 2 ^ 64 - pageSize ∧ mmapPlace brk addr + length ≤ userEnd)) := by
  have limit : userEnd < 2 ^ 48 := by decide
  rcases userMmap_cases ops.toFrameOps.marks_true tables brk word length prot with
    ⟨pages, after, done, raised⟩ | ⟨mapped, after, _, done, _⟩
  swap
  · grind
  refine ⟨_, after, done, ?_⟩
  intro wide _
  constructor
  · intro mapped
    -- The first byte is mapped by the call, so the length was not rounded to zero.
    have more : roundUpPages length / pageSize ≠ 0 := by
      intro none
      rw [none] at raised
      obtain ⟨_, absent, entry, _, present, _⟩ := mapped (mmapPlace brk addr) le_rfl (by omega)
      rw [raised.kept.translations, absent] at present
      cases present
    have last := (mapped (mmapPlace brk addr + length - 1) (by omega) (by omega)).1.2
    rw [roundUpPages_eq] at more
    simp only [wrap64, pageSize, pageShift] at more ⊢
    omega
  · intro condition vaddr above below
    obtain ⟨rounded, ends⟩ := condition
    -- The byte lies in a page of the growth.
    have inside : (vaddr - mmapPlace brk addr) / pageSize < roundUpPages length / pageSize := by
      rw [roundUpPages_of_le rounded]
      simp only [pageSize, pageShift] at *
      omega
    have start := raised.user 0 (Nat.lt_of_le_of_lt (Nat.zero_le _) inside)
    rw [pageAt_zero (mmapPlace_lt word)] at start
    obtain ⟨user, aligned⟩ := start
    simp only [vmmIsUserAddr, Bool.and_eq_true, decide_eq_true_eq] at user
    refine ⟨⟨by omega, by omega⟩, raised.mmap_page ((raised.domain _).mpr ⟨_, inside, ?_⟩)⟩
    simp only [pageNumber, pageAt, wrap64, pageSize, pageShift, Nat.shiftRight_eq_div_pow] at *
    omega

/-- A call that returns zero leaves every translation and all frames in use as they were, apart from
page tables. -/
theorem userMmap_failed_kept (ops : LawfulFrameOps Alloc) {st : PageState Alloc}
    (tables : UserTables ops.source root st) (brk : Nat) {addr : Nat} (word : addr < 2 ^ 64)
    (length prot : Nat) :
    ∃ result after, userMmap ops.toFrameOps root brk addr length prot st = some (result, after) ∧
      (result = 0 → MemoryKept ops.source root st after) := by
  rcases userMmap_cases ops.toFrameOps.marks_true tables brk word length prot with
    ⟨pages, after, done, raised⟩ | ⟨mapped, after, _, done, _, kept⟩
  · refine ⟨_, after, done, ?_⟩
    intro zero
    -- Address zero is no user address, so there was no page to map.
    have none : roundUpPages length / pageSize = 0 := by
      by_contra more
      have user := (raised.user 0 (Nat.pos_of_ne_zero more)).1
      rw [zero] at user
      exact absurd user (by decide)
    rw [none] at raised
    exact raised.kept
  · exact ⟨0, after, done, fun _ => kept⟩

/-- A range that a call returned is unmapped again with its own length: every translation and all
frames in use are as before the call, apart from page tables. -/
theorem userMmap_userMunmap_kept (ops : LawfulFrameOps Alloc) {st mapped : PageState Alloc}
    (tables : UserTables ops.source root st) {brk addr length prot result : Nat}
    (word : addr < 2 ^ 64) (nonzero : result ≠ 0)
    (done : userMmap ops.toFrameOps root brk addr length prot st = some (result, mapped)) :
    ∃ reply after, userMunmap ops.free (some root) result length mapped = some (reply, after) ∧
      MemoryKept ops.source root st after := by
  rcases userMmap_cases ops.toFrameOps.marks_true tables brk word length prot with
    ⟨pages, _, done', raised⟩ | ⟨_, _, _, failed, _⟩
  swap
  · cases done.symm.trans failed
    contradiction
  cases done.symm.trans done'
  obtain ⟨whole, fits⟩ := roundUpPages_pages length
  obtain ⟨after, called, unmapped⟩ := raised.userMunmap (mmapPlace_lt word) fits
  -- The pages of the length and those of the length rounded up are the same.
  have again : roundUpPages (roundUpPages length) = roundUpPages length := by
    obtain ⟨aligned, small⟩ := roundUpPages_aligned length
    rw [roundUpPages_eq, wrap64]
    simp only [pageSize, pageShift] at aligned ⊢
    omega
  rw [wrap64_of_lt fits, whole] at called
  simp only [Ccos.userMunmap, again] at called
  obtain ⟨⟨reply, last⟩, returned, rfl⟩ := Option.map_eq_some_iff.mp called
  obtain ⟨_, unmapped', _, walks, used⟩ := raised.takeBack
  cases unmapped.symm.trans unmapped'
  exact ⟨reply, last, returned, walks, used⟩

end Growth

/-- A new process maps a page and a part of another one. -/
theorem userMmap_maps_range_two :
    ∃ after, userMmap pframeLawfulOps.toFrameOps 0x100000 0 0 5000 3
        (newProcess pframeSource smallPframe) = some (0x1400000, after) ∧
      RangeMapped pframeLawfulOps.source 0x100000 0x1400000 5000 3
        (newProcess pframeSource smallPframe) after := by
  obtain ⟨result, after, done, mapped⟩ := userMmap_maps_range pframeLawfulOps
    newProcess_pframe_tables (show 0 < 2 ^ 64 by decide) (show 0 < 5000 by decide) 3
  have computed : (userMmap pframeLawfulOps.toFrameOps 0x100000 0 0 5000 3
      (newProcess pframeSource smallPframe)).map Prod.fst = some 0x1400000 := by decide +kernel
  obtain rfl : result = 0x1400000 := by
    rw [done] at computed
    exact Option.some.inj computed
  exact ⟨after, done, (mapped (by decide) (by decide)).mpr ⟨by decide, by decide⟩⟩

/-- A length near the end of 64 bits is rounded to zero: the call returns an address and maps nothing
there. A mapping of the last user page ends behind the last user address. -/
theorem userMmap_maps_nothing :
    (∃ after, userMmap pframeLawfulOps.toFrameOps 0x100000 0 0 0xFFFFFFFFFFFFFFFF 3
        (newProcess pframeSource smallPframe) = some (0x1400000, after) ∧
      hardwareWalk 0x100000 0x1400000 after.mem = none) ∧
    ∃ after, userMmap pframeLawfulOps.toFrameOps 0x100000 0 0x7FFFFFFFF000 4096 3
        (newProcess pframeSource smallPframe) = some (0x7FFFFFFFF000, after) ∧
      ¬0x7FFFFFFFF000 + 4095 < userEnd := by
  have nothing : (userMmap pframeLawfulOps.toFrameOps 0x100000 0 0 0xFFFFFFFFFFFFFFFF 3
      (newProcess pframeSource smallPframe)).any fun reply =>
        reply.1 = 0x1400000 ∧ hardwareWalk 0x100000 0x1400000 reply.2.mem = none := by
    decide +kernel
  have last : (userMmap pframeLawfulOps.toFrameOps 0x100000 0 0x7FFFFFFFF000 4096 3
      (newProcess pframeSource smallPframe)).any fun reply => reply.1 = 0x7FFFFFFFF000 := by
    decide +kernel
  obtain ⟨⟨_, after⟩, done, values⟩ := (Option.any_eq_true _ _).mp nothing
  obtain ⟨rfl, absent⟩ := of_decide_eq_true values
  obtain ⟨⟨_, after'⟩, done', value⟩ := (Option.any_eq_true _ _).mp last
  obtain rfl := of_decide_eq_true value
  exact ⟨⟨after, done, absent⟩, after', done', by decide⟩

/-- A mapping of three pages that would leave the user addresses is taken back. -/
theorem userMmap_failed_kept_top :
    ∃ after, userMmap pframeLawfulOps.toFrameOps 0x100000 0 0x7FFFFFFFE000 0x3000 3
        (newProcess pframeSource smallPframe) = some (0, after) ∧
      MemoryKept pframeLawfulOps.source 0x100000 (newProcess pframeSource smallPframe) after := by
  obtain ⟨result, after, done, kept⟩ := userMmap_failed_kept pframeLawfulOps
    newProcess_pframe_tables 0 (show 0x7FFFFFFFE000 < 2 ^ 64 by decide) 0x3000 3
  have computed : (userMmap pframeLawfulOps.toFrameOps 0x100000 0 0x7FFFFFFFE000 0x3000 3
      (newProcess pframeSource smallPframe)).map Prod.fst = some 0 := by decide +kernel
  grind

/-- A new process maps two pages and unmaps them. -/
theorem userMmap_userMunmap_kept_two :
    ∃ mapped, userMmap pframeLawfulOps.toFrameOps 0x100000 0 0 5000 3
        (newProcess pframeSource smallPframe) = some (0x1400000, mapped) ∧
      ∃ reply after, userMunmap pframeLawfulOps.free (some 0x100000) 0x1400000 5000 mapped =
          some (reply, after) ∧
        MemoryKept pframeSource 0x100000 (newProcess pframeSource smallPframe) after := by
  have computed : (userMmap pframeLawfulOps.toFrameOps 0x100000 0 0 5000 3
      (newProcess pframeSource smallPframe)).any fun reply => reply.1 = 0x1400000 := by
    decide +kernel
  obtain ⟨⟨_, mapped⟩, done, value⟩ := (Option.any_eq_true _ _).mp computed
  obtain rfl := of_decide_eq_true value
  exact ⟨mapped, done, userMmap_userMunmap_kept pframeLawfulOps newProcess_pframe_tables
    zero_lt_word (by decide) done⟩

/-- The memory of a process over a sequence of calls, with every range that was returned to it. -/
structure Regions (Alloc : Type) where
  brk : Nat
  st : PageState Alloc
  returned : List (Nat × Nat)

inductive RegionCall
  | mmap (length prot : Nat)
  | munmap (addr length : Nat)
  | brk (newBrk : Nat)
  deriving DecidableEq

/-- A mapping without an address that succeeds, the unmapping of a range that was returned, or any
move of the end of the heap. -/
def RegionCall.perform (ops : FrameOps Alloc) (root : Nat) (regions : Regions Alloc) :
    RegionCall → Option (Regions Alloc)
  | .mmap length prot => do
    let (addr, st) ← userMmap ops root regions.brk 0 length prot regions.st
    if addr = 0 then none
    else some { regions with st := st, returned := (addr, length) :: regions.returned }
  | .munmap addr length =>
    if (addr, length) ∈ regions.returned then do
      let (_, st) ← userMunmap ops.free (some root) addr length regions.st
      some { regions with st := st }
    else none
  | .brk newBrk => do
    let ((_, stored), st) ← userBrk ops root regions.brk newBrk regions.st
    some { regions with brk := stored.getD regions.brk, st := st }

/-- What holds of a process over such a sequence: its pages have frames of their own, and nothing was
mapped at the start where a range was returned. -/
@[grind]
structure Regions.Inv (source : FrameSource Alloc) (root : Nat) (others : Nat → Option (Nat × Nat))
    (outside : Nat → Prop) (regions : Regions Alloc) : Prop where
  memory : ∃ pages, UserMemory source root others outside pages regions.st
  placed : regions.brk = 0 ∨
    userBase ≤ regions.brk ∧ regions.brk < brkLimit ∧ regions.brk % pageSize = 0
  ranges : ∀ range ∈ regions.returned, ∀ i < roundUpPages range.2 / pageSize,
    vmmIsUserAddr (pageAt range.1 i) = true ∧ pageAt range.1 i % pageSize = 0 ∧
      others (pageAt range.1 i) = none

section Sequences

variable {ops : LawfulFrameOps Alloc} {root : Nat} {others : Nat → Option (Nat × Nat)}
  {outside : Nat → Prop} {pages : UserPages} {st after : PageState Alloc}
  {regions next : Regions Alloc}

theorem UserMemory.takeBack {base count : Nat} {fresh : UserPages} {middle : PageState Alloc}
    (memory : UserMemory ops.source root others outside pages st)
    (raised : Raised ops.source growth root base st count fresh middle) :
    ∃ after, userMunmapPages ops.free root base 0 count middle = some after ∧
      UserMemory ops.source root others outside pages after := by
  have both := memory.raised raised
  have new {i : Nat} (small : i < count) : fresh (pageNumber (pageAt base i)) ≠ none :=
    (raised.domain _).mpr ⟨i, small, rfl⟩
  obtain ⟨after, done, last, _⟩ := both.munmapPages fun i small => by
    obtain ⟨user, aligned⟩ := raised.user i small
    refine ⟨pml4Index_of_user user, aligned, both.alone _ ?_⟩
    simp [new small]
  refine ⟨after, done, ?_⟩
  -- The pages of the growth were not owned before, and all others are kept.
  convert last using 1
  funext number
  by_cases gone : ∃ i < count, number = pageNumber (pageAt base i)
  · rw [UserPages.without, if_pos gone]
    obtain ⟨i, small, rfl⟩ := gone
    exact memory.unowned raised (new small)
  · have none : fresh number = none := by
      by_contra owned
      exact gone ((raised.domain number).mp owned)
    rw [UserPages.without, if_neg gone, none, Option.none_or]

/-- A move of the end of the heap, also one that fails, leaves every page with a frame of its own. -/
theorem UserMemory.userBrk {newBrk result : Nat} {stored : Option Nat}
    (memory : UserMemory ops.source root others outside pages st)
    (placed : brk = 0 ∨ userBase ≤ brk ∧ brk < brkLimit ∧ brk % pageSize = 0)
    (called : userBrk ops.toFrameOps root brk newBrk st = some ((result, stored), after)) :
    (∃ pages', UserMemory ops.source root others outside pages' after) ∧
      (stored.getD brk = 0 ∨ userBase ≤ stored.getD brk ∧ stored.getD brk < brkLimit ∧
        stored.getD brk % pageSize = 0) := by
  have aligned := (roundUpPages_aligned newBrk).1
  rcases userBrk_forms ops.toFrameOps root brk newBrk st with
    ⟨_, call⟩ | ⟨⟨_, above, below⟩, ⟨_, call⟩ | ⟨_, call⟩⟩
  all_goals rw [call] at called
  · cases called
    exact ⟨⟨pages, memory⟩, placed⟩
  · grind
  have raised : Raised ops.source (brkGrowth ops.toFrameOps root (brkStart brk)) root (brkStart brk)
      st 0 (fun _ => none) st := .start memory.tables
  rcases growPages_cases ops.toFrameOps.marks_true (by rw [brkGrowth_flags]; decide)
      (brkPages brk (roundUpPages newBrk)) 0 _ st raised with
    ⟨fresh, last, done, raised⟩ | ⟨mapped, fresh, middle, frames, _, raised, _, dry, done⟩ |
    ⟨mapped, fresh, middle, _, raised, _, done⟩
  · rw [done] at called
    cases called
    exact ⟨⟨_, memory.raised raised⟩, .inr ⟨above, below, aligned⟩⟩
  · -- Without a frame the pages mapped so far stay.
    rw [done] at called
    cases called
    exact ⟨⟨_, (memory.raised raised).refused dry⟩, placed⟩
  · obtain ⟨last, back, kept⟩ := memory.takeBack raised
    rw [Nat.zero_add] at back done
    rw [done.trans (congrArg (Option.map _) back)] at called
    cases called
    exact ⟨⟨pages, kept⟩, placed⟩

theorem UserMemory.userMunmap {result : Int}
    (memory : UserMemory ops.source root others outside pages st)
    (free : ∀ i < roundUpPages length / pageSize, vmmIsUserAddr (pageAt addr i) = true ∧
      pageAt addr i % pageSize = 0 ∧ others (pageAt addr i) = none)
    (called : userMunmap ops.free (some root) addr length st = some (result, after)) :
    ∃ rest, UserMemory ops.source root others outside rest after := by
  simp only [Ccos.userMunmap] at called
  -- A call that is refused changes nothing.
  split at called
  · cases called
    exact ⟨pages, memory⟩
  split at called
  · cases called
    exact ⟨pages, memory⟩
  obtain ⟨last, unmapped, kept, _⟩ := memory.munmapPages fun i small => by
    obtain ⟨user, aligned, absent⟩ := free i small
    exact ⟨pml4Index_of_user user, aligned, absent⟩
  grind

theorem Regions.Inv.perform (inv : regions.Inv ops.source root others outside) (call : RegionCall)
    (done : call.perform ops.toFrameOps root regions = some next) :
    next.Inv ops.source root others outside := by
  obtain ⟨pages, memory⟩ := inv.memory
  cases call with
  | mmap length prot =>
    simp only [RegionCall.perform, Option.bind_eq_bind, Option.bind_eq_some_iff] at done
    obtain ⟨⟨addr, st⟩, called, done⟩ := done
    simp only [Option.ite_none_left_eq_some, Option.some.injEq] at done
    obtain ⟨nonzero, rfl⟩ := done
    rcases userMmap_cases ops.toFrameOps.marks_true memory.tables regions.brk
      (show 0 < 2 ^ 64 by decide) length prot with
      ⟨fresh, after, mapped, raised⟩ | ⟨_, after, _, failed, _⟩
    · cases called.symm.trans mapped
      refine ⟨⟨_, memory.raised raised⟩, inv.placed, ?_⟩
      intro range member i small
      rcases List.mem_cons.mp member with rfl | old
      · -- The pages of the new range were not mapped before.
        obtain ⟨user, aligned⟩ := raised.user i small
        refine ⟨user, aligned, (memory.raised raised).alone _ ?_⟩
        have new := (raised.domain _).mpr ⟨i, small, rfl⟩
        simp [new]
      · exact inv.ranges range old i small
    grind
  | munmap addr length =>
    simp only [RegionCall.perform, Option.ite_none_right_eq_some, Option.bind_eq_bind,
      Option.bind_eq_some_iff, Option.some.injEq] at done
    obtain ⟨member, ⟨_, st⟩, called, rfl⟩ := done
    exact ⟨memory.userMunmap (inv.ranges (addr, length) member) called, inv.placed, inv.ranges⟩
  | brk newBrk =>
    simp only [RegionCall.perform, Option.bind_eq_bind, Option.bind_eq_some_iff,
      Option.some.injEq] at done
    obtain ⟨⟨⟨result, stored⟩, st⟩, called, rfl⟩ := done
    obtain ⟨kept, placed⟩ := memory.userBrk inv.placed called
    exact ⟨kept, placed, inv.ranges⟩

theorem Regions.Inv.start (tables : UserTables ops.source root st) :
    Regions.Inv ops.source root (fun vaddr => hardwareWalk root vaddr st.mem)
      (ops.source.inUse st.frames) ⟨0, st, []⟩ :=
  ⟨⟨_, .start tables⟩, .inl rfl, by simp⟩

/-- Such calls keep the invariant from any state on. -/
theorem Regions.Inv.run {calls : List RegionCall} (inv : regions.Inv ops.source root others outside)
    (run : Run (Performs (RegionCall.perform ops.toFrameOps root)) regions calls next) :
    next.Inv ops.source root others outside :=
  run.preserves _ (fun _ call _ done inv => inv.perform call done) inv

/-- Some range of a length is unmapped, from a page boundary behind the start of the heap on. -/
@[grind =] def UnmappedRange (root length : Nat) (mem : PhysMem) (first : Nat) : Prop :=
  first % pageSize = 0 ∧ heapStart ≤ first ∧ first + length ≤ userEnd + 1 ∧
    ∀ vaddr, first ≤ vaddr → vaddr < first + length → hardwareWalk root vaddr mem = none

/-- The state of the page tables over an allocator that starts a record. -/
def PageState.watched (st : PageState Alloc) : PageState (Watched Alloc) :=
  ⟨st.mem, ⟨st.frames, false, []⟩, st.stores⟩

theorem UserTables.watched (tables : UserTables ops.source root st) :
    UserTables (watchedOps ops).source root st.watched :=
  ⟨⟨tables.tree.separated, tables.tree.tables, tables.tree.absent, tables.tree.top⟩, tables.small,
    tables.kernel⟩

/-- The place of a mapping without an address is a page boundary behind the start of the heap. -/
theorem mmapPlace_zero (placed : brk = 0 ∨ userBase ≤ brk ∧ brk < brkLimit ∧ brk % pageSize = 0) :
    mmapPlace brk 0 % pageSize = 0 ∧ heapStart ≤ mmapPlace brk 0 ∧ mmapPlace brk 0 ≤ brkLimit := by
  have limits : heapStart < brkLimit ∧ brkLimit < 2 ^ 48 := by decide
  have start : roundUpPages heapStart = heapStart := by decide
  rw [mmapPlace, if_pos rfl]
  split
  · -- The end of the heap is a page boundary already.
    rename_i higher
    rw [roundUpPages_of_le]
    · simp only [pageSize, pageShift] at *
      omega
    · simp only [pageSize, pageShift]
      omega
  · rw [start]
    exact ⟨by decide, le_rfl, by omega⟩

/-- After any such calls, a mapping without an address that is refused no frame succeeds exactly when
the range behind the heap is unmapped, wherever else there is room. -/
theorem userMmap_succeeds_iff (ops : LawfulFrameOps Alloc) {start : PageState Alloc}
    {calls : List RegionCall} {regions : Regions Alloc} {length first : Nat}
    (tables : UserTables ops.source root start)
    (run : Run (fun before call after => RegionCall.perform ops.toFrameOps root before call =
      some after) ⟨0, start, []⟩ calls regions)
    (positive : 0 < length) (room : UnmappedRange root length regions.st.mem first) (prot : Nat) :
    ∃ result after, userMmap (watchedOps ops).toFrameOps root regions.brk 0 length prot
        regions.st.watched = some (result, after) ∧
      (after.frames.refused = false →
        (result ≠ 0 ↔ UnmappedRange root length regions.st.mem (mmapPlace regions.brk 0))) := by
  have inv := (Regions.Inv.start tables).run run
  obtain ⟨pages, memory⟩ := inv.memory
  obtain ⟨aligned, above, below⟩ := mmapPlace_zero inv.placed
  have limits : userBase ≤ heapStart ∧ 0 < heapStart ∧ userEnd < 2 ^ 47 ∧ brkLimit < 2 ^ 47 := by
    decide
  obtain ⟨_, _, fits, _⟩ := room
  have rounded := roundUpPages_of_le (show length ≤ 2 ^ 64 - pageSize by
    simp only [pageSize, pageShift]
    omega)
  rcases userMmap_cases (watchedOps_marks ops) memory.tables.watched regions.brk
    (show 0 < 2 ^ 64 by decide) length prot with
    ⟨fresh, after, done, raised⟩ | ⟨mapped, after, small, done, reason, _⟩
  · refine ⟨_, after, done, fun _ => iff_of_true (by omega) ⟨aligned, above, ?_, ?_⟩⟩
    · -- The last page of the growth is one of the user.
      have last := (raised.user ((length - 1) / pageSize) (by
        rw [rounded]
        simp only [pageSize, pageShift]
        omega)).1
      simp only [vmmIsUserAddr, Bool.and_eq_true, decide_eq_true_eq] at last
      simp only [pageAt, wrap64, userEnd, pageSize, pageShift] at *
      omega
    · intro vaddr low high
      apply raised.memory.alone
      apply (raised.domain _).mpr
      refine ⟨(vaddr - mmapPlace regions.brk 0) / pageSize, ?_, ?_⟩
      · rw [rounded]
        simp only [pageSize, pageShift]
        omega
      · simp only [pageNumber, pageAt, wrap64, pageSize, pageShift, Nat.shiftRight_eq_div_pow] at *
        omega
  · refine ⟨0, after, done, fun enough => iff_of_false (fun nonzero => nonzero rfl) ?_⟩
    -- The page that failed lies in the range, and something is mapped there.
    rintro ⟨_, _, ends, unmapped⟩
    have blocked := reason.resolve_right (by simp [enough])
    have whole : mmapPlace regions.brk 0 + roundUpPages length / pageSize * pageSize ≤
        userEnd + 1 := by
      rw [rounded]
      simp only [userEnd, pageSize, pageShift] at *
      omega
    apply blocked.mapped (by omega) aligned whole small
    apply unmapped
    · omega
    · rw [rounded] at small
      simp only [pageSize, pageShift] at *
      omega

/-- After any such calls, what was mapped at the start is as it was, each page mapped since has a frame
of its own that was free at the start, no other new frame is in use but page tables, the heap ends
at a page boundary, and returned ranges were unmapped at the start. -/
theorem regionCalls_keep_inv (ops : LawfulFrameOps Alloc) {start : PageState Alloc}
    {calls : List RegionCall} {regions : Regions Alloc} (tables : UserTables ops.source root start)
    (run : Run (Performs (RegionCall.perform ops.toFrameOps root)) ⟨0, start, []⟩ calls regions) :
    regions.Inv ops.source root (fun vaddr => hardwareWalk root vaddr start.mem)
      (ops.source.inUse start.frames) :=
  (Regions.Inv.start tables).run run

end Sequences

theorem UnmappedRange.page {root first : Nat} {mem : PhysMem} (aligned : first % pageSize = 0)
    (above : heapStart ≤ first) (below : first + pageSize ≤ userEnd + 1)
    (absent : hardwareWalk root first mem = none) : UnmappedRange root pageSize mem first := by
  refine ⟨aligned, above, below, ?_⟩
  intro vaddr low high
  have same : pageNumber vaddr = pageNumber first := by
    simp only [pageNumber, pageSize, pageShift, Nat.shiftRight_eq_div_pow] at *
    omega
  rw [hardwareWalk_page same, absent]

/-- A mapping is unmapped, the heap grows over its place, and the next mapping goes behind it. -/
theorem userMmap_succeeds_iff_behind :
    ∃ regions, Run (fun before call after => RegionCall.perform pframeLawfulOps.toFrameOps 0x100000
        before call = some after) ⟨0, newProcess pframeSource smallPframe, []⟩
        [.mmap 4096 3, .munmap 0x1400000 4096, .brk 0x1401000] regions ∧
      ∃ result after, userMmap (watchedOps pframeLawfulOps).toFrameOps 0x100000 regions.brk 0
        pageSize 3 regions.st.watched = some (result, after) ∧ result ≠ 0 := by
  refine Run.exists_by (fun regions => mmapPlace regions.brk 0 = 0x1401000 ∧
      hardwareWalk 0x100000 0x1401000 regions.st.mem = none ∧
      (userMmap (watchedOps pframeLawfulOps).toFrameOps 0x100000 regions.brk 0 pageSize 3
        regions.st.watched).all fun reply => reply.2.frames.refused = false)
    (by decide +kernel) fun regions run ⟨place, absent, enough⟩ => ?_
  have range := UnmappedRange.page (by decide) (by decide) (by decide) absent
  obtain ⟨result, after, done, succeeds⟩ := userMmap_succeeds_iff pframeLawfulOps
    newProcess_pframe_tables run (by decide) range 3
  grind

/-- After one mapping of a page there is room for another one, but a second call finds its place
taken and fails although no frame is refused. -/
theorem userMmap_fails_second :
    ∃ regions, Run (fun before call after => RegionCall.perform pframeLawfulOps.toFrameOps 0x100000
        before call = some after) ⟨0, newProcess pframeSource smallPframe, []⟩ [.mmap 4096 3]
        regions ∧
      UnmappedRange 0x100000 pageSize regions.st.mem 0x1401000 ∧
      ∃ after, userMmap (watchedOps pframeLawfulOps).toFrameOps 0x100000 regions.brk 0 pageSize 3
        regions.st.watched = some (0, after) ∧ after.frames.refused = false := by
  refine Run.exists_by (fun regions => hardwareWalk 0x100000 0x1401000 regions.st.mem = none ∧
      (userMmap (watchedOps pframeLawfulOps).toFrameOps 0x100000 regions.brk 0 pageSize 3
        regions.st.watched).any fun reply => reply.1 = 0 ∧ reply.2.frames.refused = false)
    (by decide +kernel) fun regions _ ⟨absent, second⟩ => ?_
  obtain ⟨⟨_, after⟩, done, values⟩ := (Option.any_eq_true _ _).mp second
  obtain ⟨rfl, enough⟩ := of_decide_eq_true values
  exact ⟨.page (by decide) (by decide) (by decide) absent, after, done, enough⟩

/-- A process maps two pages, unmaps them and moves the end of its heap. -/
theorem regionCalls_keep_inv_two :
    ∃ regions, Run (Performs (RegionCall.perform pframeLawfulOps.toFrameOps 0x100000))
        ⟨0, newProcess pframeSource smallPframe, []⟩
        [.mmap 5000 3, .munmap 0x1400000 5000, .brk 0x1401000] regions ∧
      regions.Inv pframeSource 0x100000 (fun vaddr => hardwareWalk 0x100000 vaddr
        (newProcess pframeSource smallPframe).mem)
        (pframeSource.inUse (newProcess pframeSource smallPframe).frames) :=
  Run.exists_by (fun _ => True) (by decide +kernel) fun _ run _ =>
    regionCalls_keep_inv pframeLawfulOps newProcess_pframe_tables run

end Ccos
