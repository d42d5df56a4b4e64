import Ccos.Vmm.PageEdit
import Ccos.Vmm.Translate

/-! Work on a part of a PML4: it behaves as if the entries that belong to other parts were empty, and
it leaves them alone. -/

namespace Ccos

open Lib

variable {Alloc : Type*} {source : FrameSource Alloc} {root : Nat} {st : PageState Alloc}
  {hidden : Nat → Prop} [DecidablePred hidden]

/-- Memory in which the hidden entries are empty. -/
def hideSlots (hidden : Nat → Prop) [DecidablePred hidden] (mem : PhysMem) : PhysMem :=
  fun addr => if hidden addr then 0 else mem addr

/-- The state in whose memory the hidden entries are empty. -/
def PageState.hide (hidden : Nat → Prop) [DecidablePred hidden] (st : PageState Alloc) :
    PageState Alloc where
  mem := hideSlots hidden st.mem
  frames := st.frames
  stores := st.stores.map fun store => { store with before := hideSlots hidden store.before }

/-- The hidden entries are entries of a PML4. -/
def HidesIn (root : Nat) (hidden : Nat → Prop) : Prop :=
  ∀ addr, hidden addr → root ≤ addr ∧ addr < root + pageSize

/-- The entry of the PML4 for an address is not hidden. -/
def Visible (hidden : Nat → Prop) (root vaddr : Nat) : Prop :=
  ¬hidden (entryAt root (pml4Index vaddr))

theorem hideSlots_apart {mem : PhysMem} {addr : Nat} (apart : ¬hidden addr) :
    hideSlots hidden mem addr = mem addr :=
  if_neg apart

theorem hide_write {addr : Nat} (apart : ¬hidden addr) (value : Nat) :
    (st.write addr value).hide hidden = (st.hide hidden).write addr value := by
  have mem : hideSlots hidden (Function.update st.mem addr value) =
      Function.update (hideSlots hidden st.mem) addr value := by
    funext other
    by_cases same : other = addr
    · subst same
      simp [hideSlots_apart apart]
    · simp [hideSlots, Function.update_of_ne same]
  simp [PageState.hide, PageState.write, mem]

theorem hide_clearPage (base : Nat) :
    (st.clearPage base).hide hidden = (st.hide hidden).clearPage base := by
  have mem : hideSlots hidden (fun addr => if base ≤ addr ∧ addr < base + pageSize then 0
      else st.mem addr) = fun addr => if base ≤ addr ∧ addr < base + pageSize then 0
      else hideSlots hidden st.mem addr := by
    funext other
    by_cases inside : base ≤ other ∧ other < base + pageSize
    · simp [hideSlots, inside]
    · simp [hideSlots, inside]
  simp [PageState.hide, PageState.clearPage, mem]

/-- A computation has the same result without the hidden entries, and it leaves them alone. -/
structure SameView (hidden : Nat → Prop) [DecidablePred hidden] {Result : Type*} (before : PhysMem)
    (full part : Result × PageState Alloc) : Prop where
  result : part.1 = full.1
  state : part.2 = full.2.hide hidden
  others : ∀ addr, hidden addr → full.2.mem addr = before addr

theorem SameView.refl {Result : Type*} (result : Result) :
    SameView hidden st.mem (result, st) (result, st.hide hidden) :=
  ⟨rfl, rfl, fun _ _ => rfl⟩

theorem SameView.eq {Result : Type*} {before : PhysMem} {full part : Result × PageState Alloc}
    (same : SameView hidden before full part) : part = (full.1, full.2.hide hidden) :=
  Prod.ext same.result same.state

theorem SameView.andThen {First Result : Type*} {before : PhysMem}
    {first part : First × PageState Alloc} {full second : Result × PageState Alloc}
    (early : SameView hidden before first part) (late : SameView hidden first.2.mem full second) :
    SameView hidden before full second :=
  ⟨late.result, late.state, fun addr slot =>
    (late.others addr slot).trans (early.others addr slot)⟩

theorem walkOrCreate_hide (inside : HidesIn root hidden) {entry : Nat} (apart : ¬hidden entry)
    (used : source.inUse st.frames root) (aligned : root % pageSize = 0) (allocMissing : Bool) :
    SameView hidden st.mem (walkOrCreate source entry allocMissing st)
      (walkOrCreate source entry allocMissing (st.hide hidden)) := by
  have same : (st.hide hidden).mem entry = st.mem entry := hideSlots_apart apart
  by_cases full : pteAddr (st.mem entry) = 0
  swap
  · rw [walkOrCreate_old full, walkOrCreate_old (by rwa [same]), same]
    exact .refl _
  have part : pteAddr ((st.hide hidden).mem entry) = 0 := by rwa [same]
  cases allocMissing with
  | false =>
    rw [walkOrCreate_missing full, walkOrCreate_missing part]
    exact .refl _
  | true =>
    rcases granted : source.alloc st.frames with ⟨_ | fresh, rest⟩
    · rw [walkOrCreate_refused full granted, walkOrCreate_refused part granted]
      exact ⟨rfl, rfl, fun _ _ => rfl⟩
    · -- The new table is cleared and linked outside the hidden entries.
      rw [walkOrCreate_new full granted, walkOrCreate_new part granted]
      refine ⟨rfl, ?_, fun addr slot => ?_⟩
      · simp only [linkTable, hide_write apart, hide_clearPage]
        rfl
      · have elsewhere : addr ≠ entry := fun equal => apart (equal ▸ slot)
        have cleared : ¬(fresh ≤ addr ∧ addr < fresh + pageSize) :=
          source.fresh_apart granted aligned used (inside addr slot)
        simp only [linkTable, PageState.write, PageState.clearPage,
          Function.update_of_ne elsewhere, if_neg cleared]

omit [DecidablePred hidden] in
theorem PageTree.apart_hidden {inUse : Nat → Prop} {mem : PhysMem} (tree : PageTree inUse mem root)
    (inside : HidesIn root hidden) {path : List (Fin 512)} {table : Nat} {index : Fin 512}
    (short : path.length ≤ 3) (reached : tableAt mem root path = some table)
    (visible : path = [] → ¬hidden (entryAt root index)) : ¬hidden (entryAt table index) := by
  intro slot
  obtain ⟨above, below⟩ := inside _ slot
  -- The two aligned pages share an address, so the table would be the root.
  obtain rfl : table = root := by
    have aligned := (tree.tables path table short reached).2.1
    have rootAligned := (tree.tables [] root (by simp) rfl).2.1
    have bounds := entryAt_inside table index
    simp only [pageSize, pageShift] at *
    omega
  obtain ⟨rfl, _⟩ := tree.separated path [] table table index index short (by simp) reached rfl rfl
  exact visible rfl slot

/-- Walking a list of indices from an entry that is not hidden. -/
theorem walkTables_hide (inside : HidesIn root hidden) (allocMissing : Bool)
    (rest : List (Fin 512)) :
    ∀ (st : PageState Alloc) (path : List (Fin 512)) (table : Nat),
      PageTree (source.inUse st.frames) (st.hide hidden).mem root →
      SmallAlong (st.hide hidden).mem root (path ++ rest) →
      tableAt (st.hide hidden).mem root path = some table → path.length + rest.length ≤ 3 →
      (path = [] → ∀ index ∈ rest.head?, ¬hidden (entryAt root index)) →
      SameView hidden st.mem (walkTables source allocMissing table rest st)
        (walkTables source allocMissing table rest (st.hide hidden)) := by
  induction rest with
  | nil =>
    intro st _ _ _ _ _ _ _
    exact .refl _
  | cons index rest ih =>
    intro st path table tree small reached short visible
    simp only [List.length_cons] at short
    have apart := tree.apart_hidden inside (by omega) reached fun top => visible top index rfl
    obtain ⟨_, rootAligned, _, used⟩ := tree.tables [] root (by simp) rfl
    have step := @walkOrCreate_hide _ source _ st _ _ inside _ apart used rootAligned allocMissing
    have joined : path ++ [index] ++ rest = path ++ index :: rest := by simp
    have first : SmallAlong (st.hide hidden).mem root (path ++ [index]) := by
      intro front node next early
      exact small front node next (early.trans ⟨rest, joined⟩)
    obtain ⟨result, after, walked, grown, ends, _⟩ := walkTables_extends source allocMissing [index]
      (st.hide hidden) path table tree first reached (by simp; omega)
    simp only [walkTables] at walked ⊢
    rw [step.eq] at walked ⊢
    refine step.andThen ?_
    rcases full : walkOrCreate source (entryAt table index) allocMissing st with ⟨code | next, middle⟩
    · exact .refl _
    · -- The walk goes on from the table that was found or created.
      rw [full] at walked
      obtain ⟨rfl, rfl⟩ := Prod.mk.inj walked
      have later := grown.along (by simp; omega) small
      exact ih middle (path ++ [index]) next grown.tree (joined.symm ▸ later) (ends next rfl)
        (by simp; omega) (by simp)

/-- Mapping a page that lies in no hidden part and in no 1 GiB page. -/
theorem pageMapPage_hide (inside : HidesIn root hidden)
    (tree : PageTree (source.inUse st.frames) (hideSlots hidden st.mem) root)
    {vaddr paddr flags : Nat}
    (upper : SmallAlong (hideSlots hidden st.mem) root [pml4Index vaddr, pdptIndex vaddr])
    (visible : Visible hidden root vaddr) (ordinary : SmallFlags flags) :
    SameView hidden st.mem (pageMapPage source root vaddr paddr flags true st)
      (pageMapPage source root vaddr paddr flags true (st.hide hidden)) := by
  by_cases unaligned : vaddr % pageSize ≠ 0 ∨ paddr % pageSize ≠ 0
  · rw [pageMapPage_unaligned ordinary unaligned, pageMapPage_unaligned ordinary unaligned]
    exact .refl _
  rw [not_or, not_not, not_not] at unaligned
  obtain ⟨vaddrAligned, paddrAligned⟩ := unaligned
  rw [pageMapPage_walks ordinary vaddrAligned paddrAligned,
    pageMapPage_walks ordinary vaddrAligned paddrAligned]
  have above := @walkTables_hide _ source root _ _ inside true [pml4Index vaddr, pdptIndex vaddr] st
    [] root tree upper rfl (by simp) (fun _ _ first => Option.some.inj first ▸ visible)
  obtain ⟨result, after, walked, grown, ends, _⟩ := walkTables_extends source true
    [pml4Index vaddr, pdptIndex vaddr] (st.hide hidden) [] root tree upper rfl (by simp)
  rw [above.eq] at walked ⊢
  refine above.andThen ?_
  rcases full : walkTables source true root [pml4Index vaddr, pdptIndex vaddr] st with
    ⟨code | pd, middle⟩
  · exact .refl _
  rw [full] at walked
  obtain ⟨rfl, rfl⟩ := Prod.mk.inj walked
  have reached := ends pd rfl
  -- The entries below the top level are the same in both memories.
  have entry : (middle.hide hidden).mem (entryAt pd (pdIndex vaddr)) =
      middle.mem (entryAt pd (pdIndex vaddr)) :=
    hideSlots_apart (grown.tree.apart_hidden inside (by simp) reached (by simp))
  simp only [entry]
  split
  · exact .refl _
  rename_i notHuge
  -- No 2 MiB page covers the address, so the path is one of tables.
  have small : SmallAlong (middle.hide hidden).mem root
      ([pml4Index vaddr, pdptIndex vaddr] ++ [pdIndex vaddr]) := by
    intro front node index early found present
    rcases List.prefix_concat_iff.mp early with whole | shorter
    · obtain ⟨rfl, last⟩ := List.append_inj' whole rfl
      obtain rfl := (List.cons.inj last).1
      obtain rfl := Option.some.inj (found.symm.trans reached)
      rw [entry] at present ⊢
      simpa [present] using notHuge
    · exact grown.along (by simp) upper front node index shorter found present
  have lower := @walkTables_hide _ source root _ _ inside true [pdIndex vaddr] middle _ pd grown.tree
    small reached (by simp) (by simp)
  obtain ⟨result, after, walked, grown, ends, _⟩ := walkTables_extends source true [pdIndex vaddr]
    (middle.hide hidden) _ pd grown.tree small reached (by simp)
  rw [lower.eq] at walked ⊢
  refine lower.andThen ?_
  rcases full : walkTables source true pd [pdIndex vaddr] middle with ⟨code | pt, last⟩
  · exact .refl _
  rw [full] at walked
  obtain ⟨rfl, rfl⟩ := Prod.mk.inj walked
  have apart : ¬hidden (entryAt pt (ptIndex vaddr)) :=
    grown.tree.apart_hidden inside (by simp) (ends pt rfl) (by simp)
  have leaf : (last.hide hidden).mem (entryAt pt (ptIndex vaddr)) =
      last.mem (entryAt pt (ptIndex vaddr)) := hideSlots_apart apart
  simp only [leaf]
  split
  · exact .refl _
  · refine ⟨rfl, (hide_write apart _).symm, fun addr slot => ?_⟩
    have elsewhere : addr ≠ entryAt pt (ptIndex vaddr) := fun equal => apart (equal ▸ slot)
    exact Function.update_of_ne elsewhere ..

section Walks

variable {inUse : Nat → Prop} {mem : PhysMem} {vaddr : Nat}

section

variable (inside : HidesIn root hidden) (tree : PageTree inUse (hideSlots hidden mem) root)
include inside tree

/-- A hidden slot is off the path of every visible address. -/
theorem hideSlots_along (visible : Visible hidden root vaddr) (front : List (Fin 512)) (node : Nat)
    (index : Fin 512) (early : front ++ [index] <+: pagePath vaddr)
    (reached : tableAt (hideSlots hidden mem) root front = some node) :
    mem (entryAt node index) = hideSlots hidden mem (entryAt node index) := by
  have short := early.length_le
  simp only [pagePath, List.length_append, List.length_cons, List.length_nil] at short
  refine (hideSlots_apart (tree.apart_hidden inside (by omega) reached fun top => ?_)).symm
  -- The first index of the path is that of the address.
  subst top
  obtain ⟨rest, joined⟩ := early
  obtain rfl : index = pml4Index vaddr := (List.cons.inj joined).1
  exact visible

theorem hardwareWalk_hide (visible : Visible hidden root vaddr) :
    hardwareWalk root vaddr (hideSlots hidden mem) = hardwareWalk root vaddr mem := by
  rw [hardwareWalk_eq, hardwareWalk_eq]
  exact congrArg (Option.bind · leafOf)
    (RadixLayout.stop_congr_along (hideSlots_along inside tree visible)).symm

theorem tableAt_hide (visible : Visible hidden root vaddr) (path : List (Fin 512))
    (early : path <+: upperPath vaddr) :
    tableAt mem root path = tableAt (hideSlots hidden mem) root path :=
  RadixLayout.descend_congr_along fun front node index shorter =>
    hideSlots_along inside tree visible front node index
      (shorter.trans (early.trans ⟨[ptIndex vaddr], rfl⟩))

theorem lowTables_hide (visible : Visible hidden root vaddr) : LowTables mem root vaddr ∧
    (ptePresent (mem (entryAt root (pml4Index vaddr))) = true →
      ptePat (mem (entryAt root (pml4Index vaddr))) = false) := by
  constructor
  · intro path table early proper reached
    rw [tableAt_hide inside tree visible path early] at reached
    exact tree.lowTables vaddr path table early proper reached
  · rw [hideSlots_along inside tree visible [] root _ ⟨_, rfl⟩ rfl]
    exact tree.top _

theorem presentWalk_hide (small : SmallPath (hideSlots hidden mem) root vaddr)
    (visible : Visible hidden root vaddr) :
    presentWalk root vaddr mem = presentWalk root vaddr (hideSlots hidden mem) := by
  have same := tableAt_hide inside tree visible
  have reads := hideSlots_along inside tree visible
  have smallHere : SmallPath mem root vaddr := by
    refine ⟨fun table reached => ?_, fun table reached => ?_⟩
    · rw [same _ ⟨_, rfl⟩] at reached
      rw [reads _ table _ ⟨_, rfl⟩ reached]
      exact small.pointer table reached
    · rw [same _ ⟨_, rfl⟩] at reached
      rw [reads _ table _ ⟨_, rfl⟩ reached]
      exact small.directory table reached
  obtain ⟨low, top⟩ := lowTables_hide inside tree visible
  rw [presentWalk_eq low top smallHere, presentWalk_eq (tree.lowTables vaddr) (tree.top _) small,
    leafEntry, same _ List.prefix_rfl, leafEntry]

theorem pageVirtToPhys_hide (visible : Visible hidden root vaddr) (aligned : vaddr % pageSize = 0) :
    pageVirtToPhys root vaddr mem = match hardwareWalk root vaddr mem with
      | some (entry, _) => .ok (pteAddr entry)
      | none => .error .notPresent := by
  obtain ⟨low, top⟩ := lowTables_hide inside tree visible
  rw [pageVirtToPhys_eq low top, aligned]
  rfl

theorem missingBelow_hide (rest : List (Fin 512)) :
    ∀ (path : List (Fin 512)) (table : Nat), tableAt (hideSlots hidden mem) root path = some table →
      path.length + rest.length ≤ 4 →
      (path = [] → ∀ index ∈ rest.head?, ¬hidden (entryAt root index)) →
      missingBelow (hideSlots hidden mem) table rest = missingBelow mem table rest := by
  -- The path grows by the index that the walk reads next.
  induction rest with
  | nil =>
    intro _ _ _ _ _
    rfl
  | cons index rest ih =>
    intro path table reached short visible
    simp only [List.length_cons] at short
    have read : hideSlots hidden mem (entryAt table index) = mem (entryAt table index) :=
      hideSlots_apart (tree.apart_hidden inside (by omega) reached fun top => visible top index rfl)
    have next := RadixLayout.descend_concat reached index
    simp only [missingBelow, ← read]
    cases child : pageLayout.child (hideSlots hidden mem (entryAt table index)) with
    | none => rfl
    | some below =>
      exact ih (path ++ [index]) below (next.trans child) (by simp; omega) (by simp)

end

end Walks

theorem pageUnmapPage_hide (inside : HidesIn root hidden)
    (tree : PageTree (source.inUse st.frames) (hideSlots hidden st.mem) root) {vaddr : Nat}
    (small : SmallPath (hideSlots hidden st.mem) root vaddr) (visible : Visible hidden root vaddr)
    (freeTable : Bool) :
    SameView hidden st.mem (pageUnmapPage root vaddr freeTable st)
      (pageUnmapPage root vaddr freeTable (st.hide hidden)) := by
  unfold pageUnmapPage
  split
  · exact .refl _
  rw [show (st.hide hidden).mem = hideSlots hidden st.mem from rfl,
    presentWalk_hide inside tree small visible]
  rcases walk_cases (tree.lowTables vaddr) (tree.top _) small with
    ⟨_, ended, _⟩ | ⟨table, reached, walked⟩
  · rw [ended]
    exact .refl _
  · rw [walked]
    have apart : ¬hidden (entryAt table (ptIndex vaddr)) :=
      tree.apart_hidden inside (by simp) reached (by simp [upperPath])
    simp only [hideSlots_apart apart]
    split
    · exact .refl _
    · refine ⟨rfl, (hide_write apart _).symm, fun addr slot => ?_⟩
      have elsewhere : addr ≠ entryAt table (ptIndex vaddr) := fun equal => apart (equal ▸ slot)
      exact Function.update_of_ne elsewhere ..

end Ccos
