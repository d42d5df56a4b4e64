import Mathlib.Data.Finmap
import Ccos.Lib.Run
import Ccos.Vmm.PageEdit
import Ccos.Vmm.PframeSource
import Ccos.Vmm.Translate

/-! Page tables with 4 KiB pages refine a finite map from virtual page numbers to mappings. -/

namespace Ccos

open Lib

variable {Alloc : Type*}

/-- What a 4 KiB mapping records: the frame and four permission bits. -/
structure PageMapping where
  frame : Nat
  write : Bool
  user : Bool
  writeThru : Bool
  noCache : Bool
  deriving DecidableEq, Repr

/-- The mapping that a request asks for. -/
def requestMapping (paddr flags : Nat) : PageMapping :=
  ⟨paddr, flags.testBit 0, flags.testBit 1, flags.testBit 3, flags.testBit 4⟩

/-- The mapping that a last-level entry holds. -/
def entryMapping (entry : Nat) : PageMapping :=
  ⟨entryAddr entry, entry.testBit 1, entry.testBit 2, entry.testBit 3, entry.testBit 4⟩

/-- The report of a query about a mapping: its frame, and its bits with the present bit. -/
def PageMapping.report (mapping : PageMapping) : PageQueryResult :=
  ⟨mapping.frame,
    pagePresent ||| (if mapping.write then pageWrite else 0) |||
      (if mapping.user then pageUser else 0) |||
      (if mapping.writeThru then pageWriteThru else 0) |||
      (if mapping.noCache then pageNoCache else 0), false⟩

/-- The abstract state: finitely many virtual pages, each with its mapping. -/
abbrev PageMap := Finmap fun _ : Nat => PageMapping

/-- The mapping that the tables hold for the page of an address. -/
def translation (root vaddr : Nat) (mem : PhysMem) : Option PageMapping :=
  (hardwareWalk root vaddr mem).map fun walked => entryMapping walked.1

/-- Entry bits reported by a query, as a function of the requested properties. -/
theorem pteBits_low : ∀ write user noExec writeThru noCache : Bool,
    (pteBits write user noExec writeThru noCache &&& 0xFFF) =
      pagePresent ||| (if write then pageWrite else 0) ||| (if user then pageUser else 0) |||
        (if writeThru then pageWriteThru else 0) ||| (if noCache then pageNoCache else 0) ∧
    (pteBits write user noExec writeThru noCache).testBit 1 = write ∧
    (pteBits write user noExec writeThru noCache).testBit 2 = user ∧
    (pteBits write user noExec writeThru noCache).testBit 3 = writeThru ∧
    (pteBits write user noExec writeThru noCache).testBit 4 = noCache := by
  decide

theorem entryMapping_smallEntry {paddr flags : Nat} (aligned : paddr % pageSize = 0)
    (fits : paddr < 2 ^ 40) : entryMapping (smallEntry paddr flags) = requestMapping paddr flags := by
  have outside := (vmapFlagsToPte_fields flags).2.2
  rw [vmapFlagsToPte_eq] at outside
  obtain ⟨_, write, user, writeThru, noCache⟩ := pteBits_low (flags.testBit 0) (flags.testBit 1)
    (flags.testBit 2) (flags.testBit 3) (flags.testBit 4)
  simp only [entryMapping, requestMapping, smallEntry, vmapFlagsToPte_eq,
    entryAddr_lor aligned (show paddr < 2 ^ 52 by omega) outside,
    testBit_lor_low _ _ (by decide : 1 < 12),
    testBit_lor_low _ _ (by decide : 2 < 12), testBit_lor_low _ _ (by decide : 3 < 12),
    testBit_lor_low _ _ (by decide : 4 < 12), write, user, writeThru, noCache]

theorem pteAddr_smallEntry {paddr flags : Nat} (aligned : paddr % pageSize = 0)
    (fits : paddr < 2 ^ 40) : pteAddr (smallEntry paddr flags) = paddr := by
  have read : entryAddr (smallEntry paddr flags) = paddr :=
    entryAddr_lor aligned (by omega) (vmapFlagsToPte_fields flags).2.2
  rw [pteAddr_of_low (by omega), read]

theorem queryEntry_smallEntry {paddr flags : Nat} (aligned : paddr % pageSize = 0)
    (fits : paddr < 2 ^ 40) :
    queryEntry (smallEntry paddr flags) false = (requestMapping paddr flags).report := by
  have low := (pteBits_low (flags.testBit 0) (flags.testBit 1) (flags.testBit 2)
    (flags.testBit 3) (flags.testBit 4)).1
  rw [queryEntry, pteAddr_smallEntry aligned fits]
  simp only [smallEntry, land_low_lor, vmapFlagsToPte_eq, low, requestMapping, PageMapping.report]
  rfl

inductive PageCall
  | map (vaddr paddr flags : Nat)
  | unmap (vaddr : Nat) (freeTable : Bool)
  | query (vaddr : Nat)

inductive PageReply
  | done (result : Except PageError Unit)
  | report (result : Except PageError PageQueryResult)

def PageCall.vaddr : PageCall → Nat
  | .map vaddr _ _ => vaddr
  | .unmap vaddr _ => vaddr
  | .query vaddr => vaddr

/-- Addresses are 64-bit words, frames are below 2^40, and no huge page is asked for. -/
def PageCall.Legal : PageCall → Prop
  | .map vaddr paddr flags => vaddr < 2 ^ 64 ∧ paddr < 2 ^ 40 ∧ flags.testBit 5 = false ∧
      flags.testBit 6 = false
  | .unmap vaddr _ => vaddr < 2 ^ 64
  | .query vaddr => vaddr < 2 ^ 64

def PageCall.perform (source : FrameSource Alloc) (root : Nat) (st : PageState Alloc) :
    PageCall → PageReply × PageState Alloc
  | .map vaddr paddr flags =>
    let (result, after) := pageMapPage source root vaddr paddr flags true st
    (.done result, after)
  | .unmap vaddr freeTable =>
    let (result, after) := pageUnmapPage root vaddr freeTable st
    (.done result, after)
  | .query vaddr => (.report (pageQuery root vaddr st.mem), st)

/-- What an answered call does to the abstract map: only a success changes it. -/
def PageCall.effect (map : PageMap) : PageCall → PageReply → PageMap
  | .map vaddr paddr flags, .done (.ok ()) =>
    map.insert (pageNumber vaddr) (requestMapping paddr flags)
  | .unmap vaddr _, .done (.ok ()) => map.erase (pageNumber vaddr)
  | _, _ => map

/-- The tables together with the abstract map that their calls have built. -/
structure PageSession (Alloc : Type*) where
  st : PageState Alloc
  map : PageMap

/-- One legal call, recorded in the abstract map by its answer. -/
@[grind =]
def PageSession.Step (source : FrameSource Alloc) (root : Nat) (before : PageSession Alloc)
    (call : PageCall) (after : PageSession Alloc) : Prop :=
  call.Legal ∧ ∃ reply, call.perform source root before.st = (reply, after.st) ∧
    after.map = call.effect before.map reply

/-- The tables represent the abstract map. -/
@[grind] structure PageSession.Represents (source : FrameSource Alloc) (root : Nat)
    (session : PageSession Alloc) : Prop where
  tree : PageTree (source.inUse session.st.frames) session.st.mem root
  small : SmallPages session.st.mem root
  lookup : ∀ vaddr, translation root vaddr session.st.mem = session.map.lookup (pageNumber vaddr)
  plain : ∀ vaddr entry level, hardwareWalk root vaddr session.st.mem = some (entry, level) →
    queryEntry entry false = (entryMapping entry).report

variable {source : FrameSource Alloc} {root : Nat} {st : PageState Alloc}

theorem represents_empty {created : PageState Alloc}
    (done : pageCreateTable source st = (.ok root, created)) :
    PageSession.Represents source root ⟨created, ∅⟩ := by
  obtain ⟨tree, small, unmapped⟩ := pageCreateTable_tree done
  refine ⟨tree, small, fun vaddr => ?_, fun vaddr entry level walked => ?_⟩
  · simp [translation, unmapped]
  · simp [unmapped] at walked

theorem PageSession.Represents.step {before after : PageSession Alloc} {call : PageCall}
    (rep : before.Represents source root) (taken : before.Step source root call after) :
    after.Represents source root ∧
      ∀ other, pageNumber other ≠ pageNumber call.vaddr →
        hardwareWalk root other after.st.mem = hardwareWalk root other before.st.mem := by
  obtain ⟨legal, reply, performed, recorded⟩ := taken
  obtain ⟨st, map⟩ := before
  obtain ⟨next, newMap⟩ := after
  simp only at performed recorded ⊢
  subst recorded
  -- A call that changes no translation keeps the map it represents.
  have unchanged {later : PageState Alloc}
      (tree : PageTree (source.inUse later.frames) later.mem root)
      (small : SmallPages later.mem root)
      (same : ∀ other, hardwareWalk root other later.mem = hardwareWalk root other st.mem) :
      PageSession.Represents source root ⟨later, map⟩ := by
    refine ⟨tree, small, fun vaddr => ?_, fun vaddr entry level walked => ?_⟩
    · simpa [translation, same] using rep.lookup vaddr
    grind
  cases call with
  | query vaddr =>
    simp only [PageCall.perform] at performed
    cases performed
    exact ⟨rep, fun _ _ => rfl⟩
  | map vaddr paddr flags =>
    obtain ⟨_, fits, no2mb, no1gb⟩ := legal
    rcases mapped : pageMapPage source root vaddr paddr flags true st with ⟨result, later⟩
    obtain ⟨edit, success, _⟩ :=
      pageMapPage_edit rep.tree (rep.small.along (by simp)) ⟨no2mb, no1gb⟩ mapped
    simp only [PageCall.perform, mapped] at performed
    cases performed
    cases result with
    | error code =>
      exact ⟨unchanged edit.tree (edit.small rep.small) (edit.failed code rfl),
        fun other _ => edit.failed code rfl other⟩
    | ok _ =>
      have walks := edit.stored rfl
      obtain ⟨_, aligned, _⟩ := success.mp rfl
      refine ⟨⟨edit.tree, edit.small rep.small, fun other => ?_, fun other entry level walked => ?_⟩,
        fun other different => ?_⟩
      · by_cases same : pageNumber other = pageNumber vaddr
        · have looked : (map.insert (pageNumber vaddr) (requestMapping paddr flags)).lookup
              (pageNumber other) = some (requestMapping paddr flags) := by
            generalize pageNumber other = number at same
            subst same
            exact Finmap.lookup_insert _
          simp [translation, walks, same, PageCall.effect, looked,
            entryMapping_smallEntry aligned fits]
        · simpa [translation, walks, same, PageCall.effect,
            Finmap.lookup_insert_of_ne] using rep.lookup other
      · rw [walks] at walked
        split at walked
        · obtain ⟨rfl, _⟩ := Prod.mk.inj (Option.some.inj walked)
          rw [queryEntry_smallEntry aligned fits, entryMapping_smallEntry aligned fits]
        · exact rep.plain other entry level walked
      · exact (walks other).trans (if_neg different)
  | unmap vaddr freeTable =>
    rcases cleared : pageUnmapPage root vaddr freeTable st with ⟨result, later⟩
    obtain ⟨edit, _⟩ := pageUnmapPage_edit rep.tree (rep.small.along (by simp)) cleared
    simp only [PageCall.perform, cleared] at performed
    cases performed
    cases result with
    | error code =>
      exact ⟨unchanged edit.tree (edit.small rep.small) (edit.failed code rfl),
        fun other _ => edit.failed code rfl other⟩
    | ok _ =>
      have walks := edit.stored rfl
      refine ⟨⟨edit.tree, edit.small rep.small, fun other => ?_, fun other entry level walked => ?_⟩,
        fun other different => ?_⟩
      · by_cases same : pageNumber other = pageNumber vaddr
        · have looked : (map.erase (pageNumber vaddr)).lookup (pageNumber other) = none := by
            generalize pageNumber other = number at same
            subst same
            exact Finmap.lookup_erase _ _
          simp [translation, walks, same, PageCall.effect, looked]
        · simpa [translation, walks, same, PageCall.effect, Finmap.lookup_erase_ne] using
            rep.lookup other
      · grind
      · exact (walks other).trans (if_neg different)

/-- Every sequence of 4 KiB map, unmap and query calls on a PML4 made by `page_create_table` behaves
like a finite partial map from virtual page numbers to mappings: the translation of every address
is the map's, a map call succeeds exactly when both addresses are aligned, the page is unmapped and
the missing tables are granted, an unmap call succeeds exactly when the page is aligned and mapped,
a query reports exactly the stored mapping, and no call changes the translation of another page. -/
theorem page_calls_refine_map {created : PageState Alloc}
    (made : pageCreateTable source st = (.ok root, created)) {calls : List PageCall}
    {session : PageSession Alloc}
    (run : Run (PageSession.Step source root) ⟨created, ∅⟩ calls session) :
    (∀ vaddr, translation root vaddr session.st.mem =
      session.map.lookup (pageNumber vaddr)) ∧
    (∀ vaddr paddr flags, (PageCall.map vaddr paddr flags).Legal →
      ((∃ after, pageMapPage source root vaddr paddr flags true session.st = (.ok (), after)) ↔
        vaddr % pageSize = 0 ∧ paddr % pageSize = 0 ∧
        session.map.lookup (pageNumber vaddr) = none ∧
        source.grants (missingBelow session.st.mem root (upperPath vaddr))
          session.st.frames = true)) ∧
    (∀ vaddr freeTable,
      (∃ after, pageUnmapPage root vaddr freeTable session.st = (.ok (), after)) ↔
        vaddr % pageSize = 0 ∧ session.map.lookup (pageNumber vaddr) ≠ none) ∧
    (∀ vaddr, pageQuery root vaddr session.st.mem =
      match session.map.lookup (pageNumber vaddr) with
      | some mapping => .ok mapping.report
      | none => .error .notPresent) ∧
    (∀ call after, session.Step source root call after →
      ∀ other, pageNumber other ≠ pageNumber call.vaddr →
        hardwareWalk root other after.st.mem = hardwareWalk root other session.st.mem) := by
  have rep : session.Represents source root :=
    run.preserves (PageSession.Represents source root)
      (fun _ _ _ taken held => (held.step taken).1) (represents_empty made)
  have unmapped (vaddr : Nat) : hardwareWalk root vaddr session.st.mem = none ↔
      session.map.lookup (pageNumber vaddr) = none := by
    rw [← rep.lookup, translation, Option.map_eq_none_iff]
  have answers {call : Except PageError Unit × PageState Alloc} :
      (∃ after, call = (.ok (), after)) ↔ call.1 = .ok () :=
    ⟨fun ⟨_, same⟩ => by rw [same], fun done => ⟨call.2, Prod.ext done rfl⟩⟩
  refine ⟨rep.lookup, fun vaddr paddr flags legal => ?_, fun vaddr freeTable => ?_,
    fun vaddr => ?_, fun call after taken => (rep.step taken).2⟩
  · obtain ⟨_, success, _⟩ := @pageMapPage_edit _ source _ _ _ paddr _ _ rep.tree
      (rep.small.along (by simp)) ⟨legal.2.2.1, legal.2.2.2⟩ rfl
    rw [← unmapped, ← success, answers]
  · obtain ⟨_, success⟩ := @pageUnmapPage_edit _ source _ _ vaddr _ rep.tree
      (rep.small.along (by simp)) freeTable rfl
    rw [Ne, ← unmapped, ← Ne, ← success, answers]
  · -- The query reads the same last-level entry as the walk.
    rw [← rep.lookup, translation]
    have low := rep.tree.lowTables vaddr
    rw [pageQuery_hardwareWalk low (rep.tree.top _)]
    rcases walk_cases low (rep.tree.top _) (rep.small.path vaddr) with
      ⟨_, _, ended⟩ | ⟨table, reached, _⟩
    · rw [ended]
      rfl
    · have leaf := hardwareWalk_leaf reached
      rw [leaf]
      cases present : ptePresent (session.st.mem (entryAt table (ptIndex vaddr))) with
      | false => rfl
      | true => exact congrArg Except.ok (rep.plain vaddr _ 0 (by rw [leaf, if_pos present]))

/-- Whether a fresh PML4 takes one mapping, on the small allocator. -/
def mapsOnce (vaddr paddr flags : Nat) : Bool :=
  match pageCreateTable pframeSource zeroedState with
  | (.ok root, created) =>
    match pageMapPage pframeSource root vaddr paddr flags true created with
    | (.ok (), _) => true
    | (.error _, _) => false
  | (.error _, _) => false

/-- On concrete memory a map call enters the abstract map and a query inside the page reports it. -/
theorem page_calls_refine_map_once :
    ∃ root created session,
      pageCreateTable pframeSource zeroedState = (.ok root, created) ∧
      Run (PageSession.Step pframeSource root) ⟨created, ∅⟩ [.map 0x400000 0x7000 3] session ∧
      session.map.lookup 0x400 = some ⟨0x7000, true, true, false, false⟩ ∧
      pageQuery root 0x400123 session.st.mem = .ok ⟨0x7000, 7, false⟩ := by
  have computed : mapsOnce 0x400000 0x7000 3 = true := by decide +kernel
  unfold mapsOnce at computed
  generalize made : pageCreateTable pframeSource zeroedState = creation at computed
  split at computed
  · rename_i root created
    split at computed
    · rename_i after mapped
      have taken : PageSession.Step pframeSource root ⟨created, ∅⟩ (.map 0x400000 0x7000 3)
          ⟨after, Finmap.insert 0x400 (requestMapping 0x7000 3) ∅⟩ := by
        refine ⟨?_, .done (.ok ()), ?_, rfl⟩
        · simp only [PageCall.Legal]
          decide
        · simp only [PageCall.perform, mapped]
      have run := Run.cons taken (.nil _)
      have refined := page_calls_refine_map made run
      have looked : Finmap.lookup 0x400
          (Finmap.insert 0x400 (requestMapping 0x7000 3) (∅ : PageMap)) =
          some ⟨0x7000, true, true, false, false⟩ :=
        (Finmap.lookup_insert _).trans (by decide)
      refine ⟨root, created, _, rfl, run, looked, ?_⟩
      have asked := refined.2.2.2.1 0x400123
      rw [show pageNumber 0x400123 = 0x400 by decide, looked] at asked
      exact asked
    · simp at computed
  · simp at computed

/-- A frame at 2^40 can be mapped, and the processor finds it, but a query reports frame zero. -/
theorem page_calls_lose_high_bits :
    pageCreateTable pframeSource zeroedState = (.ok 0x100000, emptyPml4) ∧
    ∃ after, pageMapPage pframeSource 0x100000 0x400000 (2 ^ 40) 3 true emptyPml4 =
        (.ok (), after) ∧
      translation 0x100000 0x400000 after.mem = some (requestMapping (2 ^ 40) 3) ∧
      pageQuery 0x100000 0x400000 after.mem = .ok ⟨0, 7, false⟩ := by
  refine ⟨rfl, _, Prod.ext ?_ rfl, ?_, ?_⟩
  · decide +kernel
  · decide +kernel
  · rfl

end Ccos
