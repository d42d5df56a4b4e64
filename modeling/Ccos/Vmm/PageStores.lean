import Ccos.Lib.Run
import Ccos.Vmm.Cow
import Ccos.Vmm.PageWalk
import Ccos.Vmm.PframeSource

/-! Which physical memory the page table functions store into, at every page size. -/

namespace Ccos

open Lib

variable {Alloc : Type*}

/-- A store inside a frame that is a table below the PML4 in the memory the store meets. -/
def PageStore.InTable (root : Nat) (store : PageStore) : Prop :=
  ∃ path table, path.length ≤ 3 ∧ tableAt store.before root path = some table ∧
    table ≤ store.addr ∧ store.addr + store.size ≤ table + pageSize

/-- A store that clears a frame which was free when the call began and is a table below the PML4
when it ends. -/
def PageStore.ClearsNew (source : FrameSource Alloc) (root : Nat) (before after : PageState Alloc)
    (store : PageStore) : Prop :=
  store.size = pageSize ∧ ¬source.inUse before.frames store.addr ∧
    ∃ path, path.length ≤ 3 ∧ tableAt after.mem root path = some store.addr

/-- What a call on a PML4 may do: keep the tables in shape and in place, and store only into tables
of that PML4 or into new tables that it clears. -/
structure Wrote (source : FrameSource Alloc) (root : Nat) (depth later : Nat → Nat → Prop)
    (before after : PageState Alloc) : Prop extends LevelStep source depth later before after where
  used : ∀ frame, source.inUse before.frames frame → source.inUse after.frames frame
  stores : ∃ new, after.stores = new ++ before.stores ∧
    ∀ store ∈ new, store.InTable root ∨ store.ClearsNew source root before after

variable {source : FrameSource Alloc} {root : Nat} {depth : Nat → Nat → Prop} {st : PageState Alloc}

theorem Wrote.refl (levels : PageLevels (source.inUse st.frames) st.mem depth) :
    Wrote source root depth depth st st :=
  ⟨.refl levels, fun _ used => used, [], rfl, by simp⟩

variable {after : PageState Alloc}

/-- Two such calls on a PML4 make one. -/
theorem Wrote.trans {between later : Nat → Nat → Prop} {middle : PageState Alloc}
    (early : Wrote source root depth between st middle)
    (late : Wrote source root between later middle after) (rooted : depth root 0) :
    Wrote source root depth later st after := by
  obtain ⟨earlyNew, earlyStores, earlyGood⟩ := early.stores
  obtain ⟨lateNew, lateStores, lateGood⟩ := late.stores
  refine ⟨early.toLevelStep.trans late.toLevelStep,
    fun frame used => late.used frame (early.used frame used), lateNew ++ earlyNew,
    by rw [lateStores, earlyStores, List.append_assoc], fun store member => ?_⟩
  rcases List.mem_append.mp member with recent | older
  · -- A frame that is free in the middle was free at the start.
    rcases lateGood store recent with table | ⟨size, free, linked⟩
    · exact .inl table
    · exact .inr ⟨size, fun used => free (early.used _ used), linked⟩
  · -- A table linked in the middle is still there at the end.
    rcases earlyGood store older with table | ⟨size, free, path, short, linked⟩
    · exact .inl table
    · exact .inr ⟨size, free, path, short,
        late.reach early.levels (early.grows root 0 rooted) (by omega) linked⟩

section

variable (levels : PageLevels (source.inUse st.frames) st.mem depth) (rooted : depth root 0)
include levels

variable {frames : Alloc}

theorem Wrote.still (same : after.mem = st.mem) (logged : after.stores = st.stores)
    (used : ∀ frame, source.inUse st.frames frame → source.inUse after.frames frame) :
    Wrote source root depth depth st after :=
  ⟨.still levels same used, used, [], logged, by simp⟩

variable {table : Nat} {path : List (Fin 512)} {index : Fin 512}
include rooted

theorem Wrote.entry {value : Nat} (within : path.length ≤ 3) (below : path ≠ [])
    (reached : tableAt st.mem root path = some table)
    (unlinked : path.length = 3 ∨ ptePresent value = true ∧
      pageLayout.child (st.mem (entryAt table index)) = none ∧ pageLayout.child value = none) :
    Wrote source root depth depth st (st.write (entryAt table index) value) := by
  have is := levels.below rooted (by omega) reached
  refine ⟨LevelStep.write levels is (by simpa using below) unlinked, fun _ used => used,
    [⟨st.mem, entryAt table index, 8⟩], rfl, fun store member => ?_⟩
  simp only [List.mem_singleton] at member
  subst member
  exact .inl ⟨path, table, within, reached, entryAt_inside table index⟩

end

/-- What a walk that creates tables may do. A new table may take the place of a huge page at frame
zero, so translations stay only where there are no huge pages. -/
structure Grew (source : FrameSource Alloc) (root : Nat) (depth later : Nat → Nat → Prop)
    (before after : PageState Alloc) : Prop extends Wrote source root depth later before after where
  grown : SmallPages before.mem root → Grown root before.mem after.mem

theorem Grew.still (wrote : Wrote source root depth depth st after) (same : after.mem = st.mem) :
    Grew source root depth depth st after :=
  ⟨wrote, fun _ => same ▸ .refl root st.mem⟩

theorem Grew.trans {between later : Nat → Nat → Prop} {middle : PageState Alloc}
    (early : Grew source root depth between st middle)
    (late : Grew source root between later middle after) (rooted : depth root 0) :
    Grew source root depth later st after :=
  ⟨early.toWrote.trans late.toWrote rooted, fun small =>
    (early.grown small).trans (late.grown ((early.grown small).small small))⟩

section

variable (levels : PageLevels (source.inUse st.frames) st.mem depth) (rooted : depth root 0)
  {table : Nat} {path : List (Fin 512)} {index : Fin 512}
include levels rooted

theorem Grew.link (within : path.length ≤ 2) (reached : tableAt st.mem root path = some table)
    (empty : pteAddr (st.mem (entryAt table index)) = 0) {fresh : Nat} {frames : Alloc}
    (granted : source.alloc st.frames = (some fresh, frames)) :
    Grew source root depth (fun other l => depth other l ∨ other = fresh ∧ l = path.length + 1) st
        (linkTable st frames fresh (entryAt table index)) ∧
      tableAt (linkTable st frames fresh (entryAt table index)).mem root (path ++ [index]) =
        some fresh := by
  obtain ⟨unused, _, _, _, used⟩ := source.fresh _ _ _ granted
  obtain ⟨step, linked⟩ := LevelStep.linked levels granted rooted within reached empty
  have is := levels.below rooted (by omega) reached
  refine ⟨⟨⟨step, fun frame old => (used frame).mpr (.inl old),
    [⟨(PageState.clearPage { st with frames := frames } fresh).mem, entryAt table index, 8⟩,
      ⟨st.mem, fresh, pageSize⟩], rfl, fun store member => ?_⟩,
    fun small => .link levels rooted is within granted ?_⟩, linked⟩
  simp only [List.mem_cons, List.not_mem_nil, or_false] at member
  rcases member with rfl | rfl
  · -- The parent table is found in the cleared memory as well.
    refine .inl ⟨path, table, by omega, ?_, entryAt_inside table index⟩
    refine (SameEntries.reach (fun way other i short reach => if_neg ?_) (by omega)).trans reached
    obtain ⟨_, otherAligned, _, otherUsed⟩ :=
      levels.tables other _ (levels.below rooted short reach)
    exact source.entry_apart granted otherAligned otherUsed i
  · exact .inr ⟨rfl, unused, path ++ [index], by simp; omega, linked⟩
  · -- A present entry without a huge page would be a link.
    cases present : ptePresent (st.mem (entryAt table index)) with
    | false => rfl
    | true =>
      have none := levels.child_none is within empty
      rw [child_of_link present (small path table index within reached present)] at none
      cases none

/-- Walking through one entry that maps no huge page only adds tables. The table it ends at
is the old one in an unchanged state, or a cleared one. -/
theorem walkOrCreate_grew (within : path.length ≤ 2)
    (reached : tableAt st.mem root path = some table) (index : Fin 512) (allocMissing : Bool)
    (small : ptePresent (st.mem (entryAt table index)) = true →
      pteAddr (st.mem (entryAt table index)) ≠ 0 → ptePat (st.mem (entryAt table index)) = false) :
    ∃ later result after,
      walkOrCreate source (entryAt table index) allocMissing st = (result, after) ∧
      Grew source root depth later st after ∧ ∀ next, result = .ok next →
        tableAt after.mem root (path ++ [index]) = some next ∧
        (after = st ∨ ∀ i, after.mem (entryAt next i) = 0) := by
  have is := levels.below rooted (by omega) reached
  have low (next : Nat) (link : pageLayout.child (st.mem (entryAt table index)) = some next) :=
    (levels.tables next _ (levels.child table _ index next is within link)).2.2.1
  rcases walkOrCreate_outcomes source (levels.absent table _ index is within) low allocMissing
      small with
    ⟨next, link, walked⟩ | ⟨_, _, walked⟩ | ⟨_, _, frames, refused, walked⟩ |
    ⟨empty, _, fresh, frames, granted, walked⟩
  · refine ⟨_, _, _, walked, .still (.refl levels) rfl, ?_⟩
    rintro _ ⟨⟩
    exact ⟨(RadixLayout.descend_concat reached index).trans link, .inl rfl⟩
  · exact ⟨_, _, _, walked, .still (.refl levels) rfl, by simp⟩
  · exact ⟨_, _, _, walked, .still (.still levels rfl rfl fun frame =>
      (source.refused _ _ refused frame).mpr) rfl, by simp⟩
  · obtain ⟨grew, linked⟩ := Grew.link levels rooted within reached empty granted
    refine ⟨_, _, _, walked, grew, ?_⟩
    rintro _ ⟨⟩
    exact ⟨linked, .inr (levels.link_zero is granted index)⟩

end

/-- The address lies in a mapped 1 GiB page whose frame is not zero. -/
def InGiantPage (mem : PhysMem) (root vaddr : Nat) : Prop :=
  ∃ table, tableAt mem root [pml4Index vaddr] = some table ∧
    ptePresent (mem (entryAt table (pdptIndex vaddr))) = true ∧
    ptePat (mem (entryAt table (pdptIndex vaddr))) = true ∧
    pteAddr (mem (entryAt table (pdptIndex vaddr))) ≠ 0

theorem hugeEntry_fields (paddr flags : Nat) :
    ptePresent ((paddr &&& pteAddrMask) ||| vmapFlagsToPte flags ||| pageHugePdpt) = true ∧
      pageLayout.child ((paddr &&& pteAddrMask) ||| vmapFlagsToPte flags ||| pageHugePdpt) =
        none := by
  have bit : ptePat ((paddr &&& pteAddrMask) ||| vmapFlagsToPte flags ||| pageHugePdpt) = true := by
    rw [ptePat, Nat.testBit_or, show pageHugePdpt.testBit 7 = true by decide, Bool.or_true]
  refine ⟨?_, child_of_huge bit⟩
  rw [ptePresent, Nat.testBit_or, Nat.testBit_or, (vmapFlagsToPte_fields flags).1]
  simp

variable {vaddr : Nat}

section

variable (levels : PageLevels (source.inUse st.frames) st.mem depth) (rooted : depth root 0)
include levels rooted

/-- A map call that does not walk below a mapped 1 GiB page adds tables, and on success writes an
entry that was not present. -/
theorem pageMapPage_builds {flags : Nat} (paddr : Nat) (allocMissing : Bool)
    (avoids : flags.testBit 6 = true ∨ ¬InGiantPage st.mem root vaddr) :
    ∃ later middle, Grew source root depth later st middle ∧
      ((∃ code, pageMapPage source root vaddr paddr flags allocMissing st = (.error code, middle)) ∨
        ∃ path table index value, path ≠ [] ∧ path.length ≤ 3 ∧
          tableAt middle.mem root path = some table ∧
          ptePresent (middle.mem (entryAt table index)) = false ∧
          (path.length = 3 ∨ ptePresent value = true ∧ pageLayout.child value = none) ∧
          (SmallFlags flags → path = upperPath vaddr ∧ index = ptIndex vaddr) ∧
          pageMapPage source root vaddr paddr flags allocMissing st =
            (.ok (), middle.write (entryAt table index) value)) := by
  have none : Grew source root depth depth st st := .still (.refl levels) rfl
  unfold pageMapPage
  extract_lets use2mb use1gb pageAlign pteFlags
  split
  · exact ⟨_, _, none, .inl ⟨_, rfl⟩⟩
  split
  · exact ⟨_, _, none, .inl ⟨_, rfl⟩⟩
  split
  · exact ⟨_, _, none, .inl ⟨_, rfl⟩⟩
  -- First level: a top-level entry never maps a page.
  obtain ⟨_, result, first, walked, grew, ends⟩ := walkOrCreate_grew levels rooted (by simp)
    (show tableAt st.mem root [] = some root from rfl) (pml4Index vaddr) allocMissing
    fun present _ => levels.top root _ rooted present
  rw [walked]
  cases result with
  | error code => exact ⟨_, _, grew, .inl ⟨code, rfl⟩⟩
  | ok pdpt =>
    obtain ⟨pdptReached, pdptState⟩ := ends pdpt rfl
    have rootedFirst := grew.grows root 0 rooted
    simp only
    by_cases giant : use1gb
    · -- A 1 GiB page goes into a free entry of the directory-pointer table.
      rw [if_pos giant]
      refine ⟨_, first, grew, ?_⟩
      cases present : ptePresent (first.mem (entryAt pdpt (pdptIndex vaddr))) with
      | true => exact .inl ⟨_, rfl⟩
      | false =>
        exact .inr ⟨_, pdpt, _, _, by simp, by simp, pdptReached, present,
          .inr (hugeEntry_fields paddr flags), fun small => absurd giant small.not_huge.2, rfl⟩
    · rw [if_neg giant]
      have small : ¬InGiantPage st.mem root vaddr := by
        rcases avoids with bit | clear
        · exact absurd ((huge1gb_iff flags).mpr bit) giant
        · exact clear
      -- Second level: a created table is empty, and an old entry maps no 1 GiB page.
      obtain ⟨_, result, second, walked, grew', ends⟩ := walkOrCreate_grew grew.levels
        rootedFirst (by simp) pdptReached (pdptIndex vaddr) allocMissing
        fun present address => by
          rcases pdptState with rfl | cleared
          · cases bit : ptePat (first.mem (entryAt pdpt (pdptIndex vaddr))) with
            | false => rfl
            | true => exact absurd ⟨pdpt, pdptReached, present, bit, address⟩ small
          · rw [cleared]
            rfl
      rw [walked]
      have both := grew.trans grew' rooted
      cases result with
      | error code => exact ⟨_, _, both, .inl ⟨code, rfl⟩⟩
      | ok pd =>
        obtain ⟨pdReached, _⟩ := ends pd rfl
        have rootedSecond := both.grows root 0 rooted
        simp only
        by_cases large : use2mb
        · -- A 2 MiB page goes into a free entry of the page directory.
          rw [if_pos large]
          refine ⟨_, second, both, ?_⟩
          cases present : ptePresent (second.mem (entryAt pd (pdIndex vaddr))) with
          | true => exact .inl ⟨_, rfl⟩
          | false =>
            exact .inr ⟨_, pd, _, _, by simp, by simp, pdReached, present,
              .inr (hugeEntry_fields paddr flags), fun small => absurd large small.not_huge.1, rfl⟩
        · rw [if_neg large]
          split
          · exact ⟨_, _, both, .inl ⟨_, rfl⟩⟩
          · rename_i notHuge
            -- Third level: the page-size bit was just tested.
            obtain ⟨_, result, third, walked, grew'', ends⟩ := walkOrCreate_grew both.levels
              rootedSecond (by simp) pdReached (pdIndex vaddr) allocMissing
              fun present _ => by simpa [present] using notHuge
            rw [walked]
            refine ⟨_, third, both.trans grew'' rooted, ?_⟩
            cases result with
            | error code => exact .inl ⟨code, rfl⟩
            | ok pt =>
              obtain ⟨ptReached, _⟩ := ends pt rfl
              simp only
              cases present : ptePresent (third.mem (entryAt pt (ptIndex vaddr))) with
              | true => exact .inl ⟨_, rfl⟩
              | false =>
                exact .inr ⟨_, pt, _, _, by simp, by simp, ptReached, present, .inl (by simp),
                  fun _ => ⟨rfl, rfl⟩, rfl⟩

/-- Such a call stores only where it may. -/
theorem pageMapPage_wrote {flags : Nat} (paddr : Nat) (allocMissing : Bool)
    (avoids : flags.testBit 6 = true ∨ ¬InGiantPage st.mem root vaddr) :
    ∃ later, Wrote source root depth later st
      (pageMapPage source root vaddr paddr flags allocMissing st).2 := by
  obtain ⟨later, middle, grew, ⟨code, done⟩ |
      ⟨path, table, index, value, below, within, reached, absent, kind, _, done⟩⟩ :=
    pageMapPage_builds levels rooted paddr allocMissing avoids
  · rw [done]
    exact ⟨later, grew.toWrote⟩
  · rw [done]
    exact ⟨later, grew.toWrote.trans (.entry grew.levels (grew.grows root 0 rooted) within below
      reached (kind.imp id fun huge => ⟨huge.1, child_of_absent absent, huge.2⟩)) rooted⟩

/-- An unmap call that does not walk below a huge page stores only where it may. -/
theorem pageUnmapPage_wrote (freeTable : Bool) (small : SmallPath st.mem root vaddr) :
    Wrote source root depth depth st (pageUnmapPage root vaddr freeTable st).2 := by
  simp only [pageUnmapPage]
  split
  · exact .refl levels
  rcases walk_cases (levels.lowTables rooted vaddr) (levels.top _ _ rooted) small with
    ⟨_, ended, _⟩ | ⟨table, reached, walked⟩
  · rw [ended]
    exact .refl levels
  · rw [walked]
    simp only
    split
    · exact .refl levels
    · exact .entry levels rooted (by simp) (by simp [upperPath]) reached (.inl (by simp))

/-- Marking a page read-only outside huge pages stores only where it may. -/
theorem cowMarkPageReadonly_wrote (small : SmallPath st.mem root vaddr) :
    Wrote source root depth depth st (cowMarkPageReadonly root vaddr st).2 := by
  simp only [cowMarkPageReadonly]
  cases pageQuery root vaddr st.mem with
  | error _ => exact .refl levels
  | ok _ =>
    rcases walk_cases (levels.lowTables rooted vaddr) (levels.top _ _ rooted) small with
      ⟨_, ended, _⟩ | ⟨table, reached, walked⟩
    · rw [ended]
      exact .refl levels
    · rw [walked]
      -- The entry is stored twice, and the first store keeps its table in place.
      have cleared : Wrote source root depth depth st
          (st.write (entryAt table (ptIndex vaddr))
            (st.mem (entryAt table (ptIndex vaddr)) &&& not64 pageWrite)) :=
        .entry levels rooted (by simp) (by simp [upperPath]) reached (.inl (by simp))
      exact cleared.trans (.entry cleared.levels rooted (by simp) (by simp [upperPath])
        (cleared.reach levels rooted (by simp) reached) (.inl (by simp))) rooted

end

/-- What every call does, wherever it stores: frames in use stay in use, stores are only added, and
without a new one the memory is as it was. -/
structure Logged (source : FrameSource Alloc) (before after : PageState Alloc) : Prop where
  used : ∀ frame, source.inUse before.frames frame → source.inUse after.frames frame
  stores : ∃ new, after.stores = new ++ before.stores ∧ (new = [] → after.mem = before.mem)

namespace Logged

theorem refl (st : PageState Alloc) : Logged source st st :=
  ⟨fun _ used => used, [], rfl, fun _ => rfl⟩

theorem trans {middle : PageState Alloc} (early : Logged source st middle)
    (late : Logged source middle after) : Logged source st after := by
  obtain ⟨first, earlyStores, earlyMem⟩ := early.stores
  obtain ⟨second, lateStores, lateMem⟩ := late.stores
  refine ⟨fun frame used => late.used frame (early.used frame used), second ++ first,
    by rw [lateStores, earlyStores, List.append_assoc], fun none => ?_⟩
  obtain ⟨noSecond, noFirst⟩ := List.append_eq_nil_iff.mp none
  exact (lateMem noSecond).trans (earlyMem noFirst)

theorem write (st : PageState Alloc) (addr value : Nat) : Logged source st (st.write addr value) :=
  ⟨fun _ used => used, [⟨st.mem, addr, 8⟩], rfl, by simp⟩

/-- A frame that is refused changes nothing, and one that is granted is cleared by a store. -/
theorem relation : PageRelation source (Logged source) where
  refl := refl
  trans := trans
  write := write
  refused _ _ refused := ⟨fun frame => (source.refused _ _ refused frame).mpr, [], rfl, fun _ => rfl⟩
  cleared st fresh _ granted :=
    ⟨fun frame old => ((source.fresh _ _ _ granted).2.2.2.2 frame).mpr (.inl old),
      [⟨st.mem, fresh, pageSize⟩], rfl, by simp⟩

theorem unmapPage (root vaddr : Nat) (freeTable : Bool) (st : PageState Alloc) :
    Logged source st (pageUnmapPage root vaddr freeTable st).2 := by
  unfold pageUnmapPage
  split
  · exact .refl st
  cases presentWalk root vaddr st.mem with
  | none => exact .refl st
  | some pte =>
    simp only
    split
    · exact .refl st
    · exact .write st _ _

theorem markReadonly (root vaddr : Nat) (st : PageState Alloc) :
    Logged source st (cowMarkPageReadonly root vaddr st).2 := by
  unfold cowMarkPageReadonly
  cases pageQuery root vaddr st.mem with
  | error _ => exact .refl st
  | ok _ =>
    cases presentWalk root vaddr st.mem with
    | none => exact .refl st
    | some pte => exact (write st _ _).trans (.write _ _ _)

end Logged

inductive TableCall
  | map (vaddr paddr flags : Nat) (allocMissing : Bool)
  | unmap (vaddr : Nat) (freeTable : Bool)
  | markReadonly (vaddr : Nat)

def TableCall.perform (source : FrameSource Alloc) (root : Nat) (st : PageState Alloc) :
    TableCall → PageState Alloc
  | .map vaddr paddr flags allocMissing =>
    (pageMapPage source root vaddr paddr flags allocMissing st).2
  | .unmap vaddr freeTable => (pageUnmapPage root vaddr freeTable st).2
  | .markReadonly vaddr => (cowMarkPageReadonly root vaddr st).2

theorem TableCall.logged (source : FrameSource Alloc) (root : Nat) (st : PageState Alloc)
    (call : TableCall) :
    Logged source st (call.perform source root st) := by
  cases call with
  | map vaddr paddr flags allocMissing => exact Logged.relation.mapPage ..
  | unmap vaddr freeTable => exact .unmapPage root vaddr freeTable st
  | markReadonly vaddr => exact .markReadonly root vaddr st

/-- The call names no address inside a mapped page that is larger than its walk expects: no
1 GiB page for the smaller map requests, no huge page at all for the other two calls. -/
def TableCall.Avoids (root : Nat) (mem : PhysMem) : TableCall → Prop
  | .map vaddr _ flags _ => flags.testBit 6 = true ∨ ¬InGiantPage mem root vaddr
  | .unmap vaddr _ => SmallPath mem root vaddr
  | .markReadonly vaddr => SmallPath mem root vaddr

/-- A call that stores nothing or avoids larger pages takes the state before it to the state after
it. -/
def AvoidingStep (source : FrameSource Alloc) (root : Nat) (before : PageState Alloc)
    (call : TableCall) (after : PageState Alloc) : Prop :=
  (after.stores = before.stores ∨ call.Avoids root before.mem) ∧
    after = call.perform source root before

/-- Every such call stores only where it may. -/
theorem AvoidingStep.wrote {call : TableCall} (step : AvoidingStep source root st call after)
    (levels : PageLevels (source.inUse st.frames) st.mem depth) (rooted : depth root 0) :
    ∃ later, Wrote source root depth later st after := by
  obtain ⟨quiet | avoids, rfl⟩ := step
  · obtain ⟨used, new, stores, same⟩ := call.logged source root st
    have none : new = [] := by
      rw [quiet] at stores
      exact List.self_eq_append_left.mp stores
    exact ⟨_, .still levels (same none) quiet used⟩
  · cases call with
    | map vaddr paddr flags allocMissing =>
      exact pageMapPage_wrote levels rooted paddr allocMissing avoids
    | unmap vaddr freeTable => exact ⟨_, pageUnmapPage_wrote levels rooted freeTable avoids⟩
    | markReadonly vaddr => exact ⟨_, cowMarkPageReadonly_wrote levels rooted avoids⟩

/-- Whatever such calls came before, each store of the next one goes into a table of the PML4 at
that moment, or clears a free frame that the same call links as a table. Other PML4s may share
tables with this one. -/
theorem table_calls_store_in_tables {start middle after : PageState Alloc} {calls : List TableCall}
    {call : TableCall} (levels : PageLevels (source.inUse start.frames) start.mem depth)
    (rooted : depth root 0) (run : Run (AvoidingStep source root) start calls middle)
    (step : AvoidingStep source root middle call after) :
    ∃ new, after.stores = new ++ middle.stores ∧
      ∀ store ∈ new, store.InTable root ∨ store.ClearsNew source root middle after := by
  -- The tables stay in shape along the run, so the last call starts from well-formed ones.
  obtain ⟨now, kept, still⟩ : ∃ depth, PageLevels (source.inUse middle.frames) middle.mem depth ∧
      depth root 0 := by
    refine run.preserves (fun st => ∃ depth, PageLevels (source.inUse st.frames) st.mem depth ∧
      depth root 0) ?_ ⟨depth, levels, rooted⟩
    rintro _ _ _ taken ⟨depth, levels, rooted⟩
    obtain ⟨later, wrote⟩ := taken.wrote levels rooted
    exact ⟨later, wrote.levels, wrote.grows root 0 rooted⟩
  obtain ⟨_, wrote⟩ := step.wrote kept still
  exact wrote.stores

/-- Memory that is zero but for one word of data at 0x40000000. -/
def dataState : PageState ReadyPframe :=
  { zeroedState with mem := fun addr => if addr = 0x40000000 then 0x40000003 else 0 }

def dataPml4 : PageState ReadyPframe :=
  (pageCreateTable pframeSource dataState).2

/-- The state after a 1 GiB page is mapped over the word of data. -/
def giantPageState : PageState ReadyPframe :=
  TableCall.perform pframeSource 0x100000 dataPml4 (.map 0x40000000 0x40000000 0x41 true)

theorem dataPml4_tree :
    PageTree (pframeSource.inUse dataPml4.frames) dataPml4.mem 0x100000 :=
  (pageCreateTable_tree (show pageCreateTable pframeSource dataState =
    (.ok 0x100000, dataPml4) from rfl)).1

theorem giantPageState_step :
    AvoidingStep pframeSource 0x100000 dataPml4 (.map 0x40000000 0x40000000 0x41 true)
      giantPageState :=
  ⟨.inr (.inl (by decide)), rfl⟩

/-- Nothing of the 1 GiB page's memory is a table of its PML4. -/
theorem giantPageState_apart (addr : Nat) (high : 0x40000000 ≤ addr) :
    ¬PageStore.InTable 0x100000 ⟨giantPageState.mem, addr, 8⟩ := by
  -- Every table is one of the 300 managed frames, which end below the page's memory.
  rintro ⟨path, table, short, reached, _, inside⟩
  obtain ⟨_, wrote⟩ :=
    giantPageState_step.wrote dataPml4_tree.levels ⟨by omega, [], rfl, rfl⟩
  have rooted := wrote.grows 0x100000 0 ⟨by omega, [], rfl, rfl⟩
  have deep := wrote.levels.below rooted short reached
  obtain ⟨_, _, _, frame, managed, rfl, _⟩ := wrote.levels.tables table _ deep
  rw [show giantPageState.frames.st.totalFrames = 300 by decide +kernel] at managed
  simp only [pageSize, pageShift] at inside
  omega

/-- The frame that becomes the first directory-pointer table is cleared before it is linked. Inside
the mapped 1 GiB page a 2 MiB request, an unmap and a copy-on-write mark each store into that
page's own memory. -/
theorem table_calls_store_elsewhere :
    (∃ clearing ∈ giantPageState.stores, clearing.addr = 0x101000 ∧
      ¬clearing.InTable 0x100000) ∧
    hardwareWalk 0x100000 0x40000000 giantPageState.mem = some (0x40000083, 2) ∧
    ∀ call ∈ [TableCall.map 0x40200000 0x200000 0x21 true, .unmap 0x40000000 false,
        .markReadonly 0x40000000],
      ∃ stray ∈ (call.perform pframeSource 0x100000 giantPageState).stores,
        0x40000000 ≤ stray.addr ∧ stray.addr < 0x80000000 ∧ stray.before = giantPageState.mem ∧
          ¬stray.InTable 0x100000 := by
  refine ⟨⟨⟨dataPml4.mem, 0x101000, pageSize⟩, List.mem_of_getElem? (i := 2) rfl, rfl, ?_⟩,
    by decide +kernel, ?_⟩
  · -- Every table is a marked frame, and frame 257 is not marked yet.
    rintro ⟨path, table, short, reached, low, high⟩
    obtain ⟨_, _, _, frame, _, rfl, marked⟩ := dataPml4_tree.tables path table short reached
    have number : frame = 257 := by
      simp only [pageSize, pageShift] at low high
      omega
    subst number
    exact absurd marked (by decide +kernel)
  · simp only [List.forall_mem_cons, List.not_mem_nil, false_implies, implies_true, and_true]
    refine ⟨⟨⟨giantPageState.mem, 0x40000008, 8⟩, List.mem_of_getElem? (i := 0) rfl, by decide,
        by decide, rfl, giantPageState_apart _ (by decide)⟩,
      ⟨⟨giantPageState.mem, 0x40000000, 8⟩, List.mem_of_getElem? (i := 0) rfl, by decide,
        by decide, rfl, giantPageState_apart _ (by decide)⟩,
      ⟨⟨giantPageState.mem, 0x40000000, 8⟩, List.mem_of_getElem? (i := 1) rfl, by decide,
        by decide, rfl, giantPageState_apart _ (by decide)⟩⟩

/-- After the 1 GiB page is mapped and an unmap inside it finds nothing, a 4 KiB page outside it is
mapped with confined stores. -/
theorem table_calls_store_in_tables_once :
    ∃ after new, Run (AvoidingStep pframeSource 0x100000) dataPml4
        [.map 0x40000000 0x40000000 0x41 true, .unmap 0x40200000 false] giantPageState ∧
      AvoidingStep pframeSource 0x100000 giantPageState (.map 0x400000 0x7000 3 true) after ∧
      after.stores = new ++ giantPageState.stores ∧ ∀ store ∈ new,
        store.InTable 0x100000 ∨ store.ClearsNew pframeSource 0x100000 giantPageState after := by
  have run : Run (AvoidingStep pframeSource 0x100000) dataPml4
      [.map 0x40000000 0x40000000 0x41 true, .unmap 0x40200000 false] giantPageState :=
    .cons giantPageState_step (.cons ⟨.inl rfl, rfl⟩ (.nil _))
  have step : AvoidingStep pframeSource 0x100000 giantPageState (.map 0x400000 0x7000 3 true)
      (TableCall.perform pframeSource 0x100000 giantPageState (.map 0x400000 0x7000 3 true)) := by
    refine ⟨.inr (.inr ?_), rfl⟩
    rintro ⟨table, reached, present, _⟩
    rw [show tableAt giantPageState.mem 0x100000 [pml4Index 0x400000] = some 0x101000 by
      decide +kernel] at reached
    cases reached
    exact absurd present (by decide +kernel)
  obtain ⟨new, stores, confined⟩ := table_calls_store_in_tables dataPml4_tree.levels
    ⟨by omega, [], rfl, rfl⟩ run step
  exact ⟨_, new, run, step, stores, confined⟩

end Ccos
