import Ccos.User.Mmap
import Ccos.Vmm.PframeSource

/-! The creation and the destruction of a user address space in `mm/vmm/vmm.c`, and the properties
of the frame allocator that the work on user memory keeps. -/

namespace Ccos

open Lib

variable {Alloc : Type} {ops : FrameOps Alloc} {inv : Alloc → Prop} {st : PageState Alloc}

/-- Make a top-level table and copy the upper half of the kernel's table into it. -/
def vmmCreateUserSpace (source : FrameSource Alloc) (kernelPml4 : Nat) (st : PageState Alloc) :
    Option Nat × PageState Alloc :=
  match pageCreateTable source st with
  | (.error _, st) => (none, st)
  | (.ok pml4, st) =>
    (some pml4, (List.range' 256 256).foldl (fun st i =>
      st.write (pml4 + 8 * i) (st.mem (kernelPml4 + 8 * i))) st)

/-- Visit the present entries among the first ones of a table; the memory does not change. -/
def forPresent (mem : PhysMem) (table count : Nat) (visit : Nat → Alloc → Option Alloc)
    (frames : Alloc) : Option Alloc :=
  (List.range count).foldlM (fun frames i =>
    if ptePresent (mem (table + 8 * i)) then visit (mem (table + 8 * i)) frames else some frames)
    frames

/-- Free all tables that the lower half of a top-level table leads to, and that table. -/
def vmmDestroyUserSpace (ops : FrameOps Alloc) (pml4 : Nat) (st : PageState Alloc) :
    Option (PageState Alloc) := do
  let frames ← forPresent st.mem pml4 256 (fun pml4e frames => do
    let frames ← forPresent st.mem (pteAddr pml4e) 512 (fun pdpte frames => do
      let frames ← forPresent st.mem (pteAddr pdpte) 512 (fun pde frames =>
        -- Neither a huge page nor the pages of a table are freed.
        if ptePat pde then some frames else ops.free frames (pteAddr pde)) frames
      ops.free frames (pteAddr pdpte)) frames
    ops.free frames (pteAddr pml4e)) st.frames
  let frames ← ops.free frames pml4
  some { st with frames := frames }

/-- Copying entries of the kernel's table writes these entries only. -/
theorem copyEntries_mem (pml4 kernelPml4 : Nat) (indices : List Nat) (st : PageState Alloc) :
    (indices.foldl (fun st i => st.write (pml4 + 8 * i) (st.mem (kernelPml4 + 8 * i))) st).frames =
        st.frames ∧
      ∀ addr, (∀ i ∈ indices, addr ≠ pml4 + 8 * i) →
        (indices.foldl (fun st i => st.write (pml4 + 8 * i) (st.mem (kernelPml4 + 8 * i)))
          st).mem addr = st.mem addr := by
  -- Entry by entry, from the first one on.
  induction indices generalizing st with
  | nil => exact ⟨rfl, fun _ _ => rfl⟩
  | cons i rest ih =>
    obtain ⟨frames, same⟩ := ih (st.write (pml4 + 8 * i) (st.mem (kernelPml4 + 8 * i)))
    refine ⟨frames, fun addr apart => (same addr fun j member => ?_).trans ?_⟩
    · exact apart j (List.mem_cons_of_mem _ member)
    · exact Function.update_of_ne (apart i List.mem_cons_self) ..

variable {kernelPml4 pml4 : Nat}

theorem copyEntries_copied (apart : ∀ i < 512, ∀ j < 512, kernelPml4 + 8 * i ≠ pml4 + 8 * j)
    {indices : List Nat} (small : ∀ i ∈ indices, i < 512) (st : PageState Alloc) :
    ∀ i ∈ indices, (indices.foldl (fun st i =>
      st.write (pml4 + 8 * i) (st.mem (kernelPml4 + 8 * i))) st).mem (pml4 + 8 * i) =
        st.mem (kernelPml4 + 8 * i) := by
  induction indices generalizing st with
  | nil => simp
  | cons k rest ih =>
    intro i member
    have later := ih (fun j inside => small j (List.mem_cons_of_mem _ inside))
      (st.write (pml4 + 8 * k) (st.mem (kernelPml4 + 8 * k)))
    by_cases again : i ∈ rest
    · -- The entry is copied once more, from a table that has not changed.
      refine (later i again).trans (Function.update_of_ne ?_ ..)
      exact apart i (small i member) k (small k List.mem_cons_self)
    · obtain rfl : i = k := (List.mem_cons.mp member).resolve_right again
      refine ((copyEntries_mem pml4 kernelPml4 rest _).2 _ fun j inside => ?_).trans
        (Function.update_self ..)
      grind

/-- A top-level table in a frame that was not in use: its lower half is empty, and nothing outside it
changed. -/
structure NewSpace (used used' : Nat → Prop) (mem mem' : PhysMem) (pml4 : Nat) : Prop where
  unused : ¬used pml4
  nonzero : pml4 ≠ 0
  aligned : pml4 % pageSize = 0
  fits : pml4 < 2 ^ 40
  taken : ∀ other, used' other ↔ used other ∨ other = pml4
  empty : ∀ i < 256, mem' (pml4 + 8 * i) = 0
  elsewhere : ∀ addr, addr / pageSize ≠ pml4 / pageSize → mem' addr = mem addr

variable {source : FrameSource Alloc} {after : PageState Alloc}

theorem vmmCreateUserSpace_refused
    (failed : vmmCreateUserSpace source kernelPml4 st = (none, after)) :
    ∃ frames, after = { st with frames := frames } ∧
      ∀ other, source.inUse frames other ↔ source.inUse st.frames other := by
  unfold vmmCreateUserSpace pageCreateTable at failed
  rcases granted : source.alloc st.frames with ⟨_ | fresh, frames⟩
  · rw [granted] at failed
    cases failed
    exact ⟨frames, rfl, source.refused _ _ granted⟩
  · simp [granted] at failed

section Created

variable (created : vmmCreateUserSpace source kernelPml4 st = (some pml4, after))
include created

theorem vmmCreateUserSpace_granted : ∃ frames, source.alloc st.frames = (some pml4, frames) ∧
    after = (List.range' 256 256).foldl (fun st i =>
      st.write (pml4 + 8 * i) (st.mem (kernelPml4 + 8 * i)))
      (PageState.clearPage { st with frames := frames } pml4) := by
  unfold vmmCreateUserSpace pageCreateTable at created
  rcases granted : source.alloc st.frames with ⟨_ | fresh, frames⟩
  · simp [granted] at created
  simp only [granted, Prod.mk.injEq, Option.some.injEq] at created
  obtain ⟨rfl, rfl⟩ := created
  exact ⟨frames, rfl, rfl⟩

theorem vmmCreateUserSpace_new :
    NewSpace (source.inUse st.frames) (source.inUse after.frames) st.mem after.mem pml4 := by
  obtain ⟨frames, granted, rfl⟩ := vmmCreateUserSpace_granted created
  obtain ⟨unused, nonzero, aligned, fits, used⟩ := source.fresh _ _ _ granted
  have copied := copyEntries_mem pml4 kernelPml4 (List.range' 256 256)
    (PageState.clearPage { st with frames := frames } pml4)
  refine ⟨unused, nonzero, aligned, fits, fun other => ?_, fun i low => ?_, fun addr apart => ?_⟩
  · rw [copied.1]
    exact used other
  · -- The lower entries were cleared and are not copied.
    rw [copied.2 _ fun j member => by have := List.mem_range'_1.mp member; omega]
    exact if_pos ⟨by omega, by simp only [pageSize, pageShift]; omega⟩
  · rw [copied.2 _ fun j member equal => apart (by
      have := List.mem_range'_1.mp member
      simp only [pageSize, pageShift] at aligned ⊢
      omega)]
    refine if_neg fun inside => apart ?_
    simp only [pageSize, pageShift] at aligned inside ⊢
    omega

theorem vmmCreateUserSpace_copied (used : source.inUse st.frames kernelPml4)
    (aligned : kernelPml4 % pageSize = 0) (i : Nat) (above : 256 ≤ i) (below : i < 512) :
    after.mem (pml4 + 8 * i) = st.mem (kernelPml4 + 8 * i) := by
  obtain ⟨unused, _, freshAligned, _⟩ := vmmCreateUserSpace_new created
  obtain ⟨frames, _, rfl⟩ := vmmCreateUserSpace_granted created
  have different : kernelPml4 ≠ pml4 := fun equal => unused (equal ▸ used)
  simp only [pageSize, pageShift] at aligned freshAligned
  refine (copyEntries_copied (fun j _ k _ => by omega)
    (fun j member => by have := List.mem_range'_1.mp member; omega) _ i
    (List.mem_range'_1.mpr ⟨above, by omega⟩)).trans (if_neg ?_)
  simp only [pageSize, pageShift]
  omega

end Created

variable {mem : PhysMem} {table count : Nat}

theorem forPresent_empty (empty : ∀ i < count, mem (table + 8 * i) = 0)
    (visit : Nat → Alloc → Option Alloc) (frames : Alloc) :
    forPresent mem table count visit frames = some frames := by
  unfold forPresent
  have absent : ∀ i ∈ List.range count, mem (table + 8 * i) = 0 :=
    fun i member => empty i (List.mem_range.mp member)
  generalize List.range count = indices at absent
  induction indices with
  | nil => rfl
  | cons i rest ih =>
    have skipped : (if ptePresent (mem (table + 8 * i)) then visit (mem (table + 8 * i)) frames
        else some frames) = some frames := by
      rw [absent i List.mem_cons_self]
      rfl
    grind

theorem vmmDestroyUserSpace_empty (empty : ∀ i < 256, st.mem (pml4 + 8 * i) = 0) :
    vmmDestroyUserSpace ops pml4 st =
      (ops.free st.frames pml4).map fun frames => { st with frames := frames } := by
  unfold vmmDestroyUserSpace
  rw [forPresent_empty empty]
  simp only [Option.bind_eq_bind, Option.bind_some, Option.map_eq_bind]
  rfl

/-- A property of the allocator that its operations keep. -/
@[grind] structure FrameOps.Stable (ops : FrameOps Alloc) (inv : Alloc → Prop) : Prop where
  alloc : ∀ frames, inv frames → inv (ops.source.alloc frames).2
  free : ∀ frames addr after, inv frames → ops.free frames addr = some after → inv after

namespace FrameOps.Stable

theorem unmapPage (pml4 vaddr : Nat) (freeTable : Bool) (st : PageState Alloc) :
    (pageUnmapPage pml4 vaddr freeTable st).2.frames = st.frames := by
  unfold pageUnmapPage
  split
  · rfl
  split
  · rfl
  split <;> rfl

theorem unmapRange (pml4 vaddr page remaining : Nat) (st : PageState Alloc) :
    (pageUnmapRange pml4 vaddr page remaining st).frames = st.frames := by
  -- Page by page, only entries are cleared.
  induction remaining generalizing page st with
  | zero => rfl
  | succ remaining ih => rw [pageUnmapRange, ih, unmapPage]

theorem visits {visit : Nat → Alloc → Option Alloc}
    (kept : ∀ entry frames after, inv frames → visit entry frames = some after → inv after)
    {frames after : Alloc} (holds : inv frames)
    (done : forPresent mem table count visit frames = some after) : inv after := by
  -- The visits go through the entries in order.
  unfold forPresent at done
  generalize List.range count = indices at done
  induction indices generalizing frames with
  | nil =>
    cases done
    exact holds
  | cons i rest ih =>
    simp only [List.foldlM_cons, Option.bind_eq_bind, Option.bind_eq_some_iff] at done
    grind

variable (stable : ops.Stable inv) (holds : inv st.frames)
include stable holds

omit holds in
/-- The allocator is asked for frames, and all else that a map call does is a store into memory. -/
theorem relation :
    PageRelation ops.source fun before after => inv before.frames → inv after.frames where
  refl _ := id
  trans early late := late ∘ early
  write _ _ _ := id
  refused _ _ refused held := (congrArg (inv ·.2) refused).mp (stable.alloc _ held)
  cleared _ _ _ granted held := (congrArg (inv ·.2) granted).mp (stable.alloc _ held)

variable {after : PageState Alloc}

variable {page remaining : Nat}

theorem mapPages (pml4 vaddr paddr flags : Nat) :
    inv (vmmMapToUserPages ops pml4 vaddr paddr flags page remaining st).2.frames := by
  -- A failed page undoes the earlier ones, which asks for nothing.
  induction remaining generalizing page st with
  | zero => exact holds
  | succ remaining ih =>
    have kept := stable.relation.mapPage pml4 (wrap64 (vaddr + wrap64 (page * pageSize)))
      (wrap64 (paddr + wrap64 (page * pageSize))) flags true st holds
    rw [vmmMapToUserPages]
    split
    · grind
    · rename_i failed
      rw [failed] at kept
      rw [unmapRange]
      exact kept

theorem mapToUser (pml4 vaddr paddr count flags : Nat) :
    inv (vmmMapToUser ops pml4 vaddr paddr count flags st).2.frames := by
  unfold vmmMapToUser
  split
  · exact holds
  · exact stable.mapPages holds pml4 vaddr paddr _

variable {pml4 : Nat}

theorem munmapPages {addr : Nat}
    (done : userMunmapPages ops.free pml4 addr page remaining st = some after) :
    inv after.frames := by
  -- A present page gives its frame back before its entry is cleared.
  induction remaining generalizing page st with
  | zero =>
    cases done
    exact holds
  | succ remaining ih =>
    obtain ⟨middle, unmapped, rest⟩ := Option.bind_eq_some_iff.mp done
    refine ih ?_ rest
    unfold userMunmapPage at unmapped
    split at unmapped
    · obtain ⟨frames, freed, cleared⟩ := Option.bind_eq_some_iff.mp unmapped
      obtain rfl := Option.some.inj cleared
      rw [unmapPage]
      exact stable.free _ _ _ holds freed
    · obtain rfl := Option.some.inj unmapped
      rw [unmapPage]
      exact holds

theorem grow {growth : Growth Alloc} {base : Nat}
    (noFrame : ∀ pages st after, inv st.frames → growth.noFrame pages st = some after →
      inv after.frames)
    (noMapping : ∀ pages st after, inv st.frames → growth.noMapping pages st = some after →
      inv after.frames)
    {mapped : Bool} (done : growPages ops growth pml4 base page remaining st = some (mapped, after)) :
    inv after.frames := by
  -- Each page is a grant and a mapping, or the failure of one of them.
  induction remaining generalizing page st with
  | zero =>
    cases done
    exact holds
  | succ remaining ih =>
    have granted := stable.alloc _ holds
    rw [growPages] at done
    split at done
    · rename_i refused
      rw [refused] at granted
      simp only [Option.bind_eq_bind, Option.bind_eq_some_iff] at done
      grind
    · rename_i paddr frames given
      rw [given] at granted
      let granting : PageState Alloc := { st with frames := frames }
      have held : inv granting.frames := granted
      have tried := stable.mapToUser held pml4 (wrap64 (base + wrap64 (page * pageSize))) paddr 1
        growth.flags
      split at done
      · rename_i succeeded
        rw [succeeded] at tried
        refine ih ?_ done
        split
        · exact tried
        · exact tried
      · rename_i failed
        rw [failed] at tried
        simp only [Option.bind_eq_bind, Option.bind_eq_some_iff] at done
        grind

variable {stackSize : Nat}

theorem allocUserStack {nextThreadStack : Nat} {result : Option Nat × Nat}
    (done : threadAllocUserStack ops pml4 nextThreadStack stackSize st = some (result, after)) :
    inv after.frames := by
  -- The pages are unmapped again when one of them fails.
  unfold threadAllocUserStack at done
  split at done
  · cases done
    exact holds
  · extract_lets rounded size stackBase rollback at done
    split at done
    · cases done
      exact holds
    · obtain ⟨⟨mapped, middle⟩, grown, done⟩ := Option.bind_eq_some_iff.mp done
      cases done
      exact stable.grow holds (fun _ _ _ held back => stable.munmapPages held back)
        (fun _ _ _ held back => stable.munmapPages held back) grown

theorem freeUserStack {userStack : Nat} {isUserMode : Bool}
    (done : threadFreeUserStack ops pml4 isUserMode userStack stackSize st = some after) :
    inv after.frames := by
  unfold threadFreeUserStack at done
  split at done
  · exact Option.some.inj done ▸ holds
  · exact stable.munmapPages holds done

theorem createUserSpace (kernelPml4 : Nat) :
    inv (vmmCreateUserSpace ops.source kernelPml4 st).2.frames := by
  have created := stable.relation.createTable st holds
  unfold vmmCreateUserSpace
  split
  · grind
  · rename_i pml4 middle made
    rw [made] at created
    -- The copied entries are stores into memory only.
    generalize List.range' 256 256 = indices
    suffices ∀ start : PageState Alloc, inv start.frames → inv (indices.foldl (fun st i =>
        st.write (pml4 + 8 * i) (st.mem (kernelPml4 + 8 * i))) start).frames from this _ created
    induction indices with
    | nil => exact fun _ held => held
    | cons i rest ih => exact fun _ held => ih _ held

theorem destroyUserSpace (done : vmmDestroyUserSpace ops pml4 st = some after) :
    inv after.frames := by
  -- Each level frees a table after the tables below it.
  have tables (entry : Nat) (frames last : Alloc) (held : inv frames)
      (freed : (if ptePat entry then some frames else ops.free frames (pteAddr entry)) =
        some last) : inv last := by
    grind
  simp only [vmmDestroyUserSpace, Option.bind_eq_bind, Option.bind_eq_some_iff] at done
  obtain ⟨middle, visited, last, freed, done⟩ := done
  cases done
  refine stable.free _ _ _ (visits (fun pml4e frames after held below => ?_) holds visited) freed
  obtain ⟨lower, visited, freed⟩ := Option.bind_eq_some_iff.mp below
  refine stable.free _ _ _ (visits (fun pdpte frames after held below => ?_) held visited) freed
  obtain ⟨lower, visited, freed⟩ := Option.bind_eq_some_iff.mp below
  exact stable.free _ _ _ (visits tables held visited) freed

end FrameOps.Stable

/-- The allocator takes every frame back. -/
@[grind =] def FrameOps.Total (ops : FrameOps Alloc) : Prop :=
  ∀ frames addr, ∃ after, ops.free frames addr = some after

namespace FrameOps.Total

theorem visits {visit : Nat → Alloc → Option Alloc}
    (each : ∀ entry frames, ∃ after, visit entry frames = some after) (frames : Alloc) :
    ∃ after, forPresent mem table count visit frames = some after := by
  unfold forPresent
  generalize List.range count = indices
  induction indices generalizing frames with
  | nil => exact ⟨frames, rfl⟩
  | cons i rest ih =>
    obtain ⟨middle, visited⟩ : ∃ middle, (if ptePresent (mem (table + 8 * i)) then
        visit (mem (table + 8 * i)) frames else some frames) = some middle := by
      split
      · exact each _ _
      · exact ⟨frames, rfl⟩
    obtain ⟨after, done⟩ := ih middle
    grind

variable (total : ops.Total)
include total

theorem munmapPages (pml4 addr count : Nat) (st : PageState Alloc) :
    ∃ after, userMunmapPages ops.free pml4 addr 0 count st = some after := by
  -- Each page is unmapped, whether or not a frame is given back for it.
  have loop := @userMunmapPages_rule _ ops.free pml4 addr count (fun _ _ => True) (fun page st _ _ => by
    unfold userMunmapPage
    split
    · obtain ⟨frames, freed⟩ := total st.frames _
      rw [freed]
      exact ⟨_, rfl, trivial⟩
    · exact ⟨_, rfl, trivial⟩) st trivial
  exact loop.imp fun _ => And.left

theorem freeUserStack (pml4 : Nat) (isUserMode : Bool) (userStack stackSize : Nat)
    (st : PageState Alloc) :
    ∃ after, threadFreeUserStack ops pml4 isUserMode userStack stackSize st = some after := by
  unfold threadFreeUserStack
  split
  · exact ⟨st, rfl⟩
  · exact total.munmapPages ..

theorem destroyUserSpace (pml4 : Nat) (st : PageState Alloc) :
    ∃ after, vmmDestroyUserSpace ops pml4 st = some after := by
  -- At each level a table is freed after the tables below it.
  have tables (entry : Nat) (frames : Alloc) : ∃ after,
      (if ptePat entry then some frames else ops.free frames (pteAddr entry)) = some after := by
    split
    · exact ⟨frames, rfl⟩
    · exact total _ _
  have level (below : Nat → Alloc → Option Alloc)
      (each : ∀ entry frames, ∃ after, below entry frames = some after) (entry : Nat)
      (frames : Alloc) : ∃ after, (do
        let frames ← forPresent st.mem (pteAddr entry) 512 below frames
        ops.free frames (pteAddr entry)) = some after := by
    obtain ⟨middle, visited⟩ := visits each frames
    obtain ⟨after, freed⟩ := total middle (pteAddr entry)
    exact ⟨after, by rw [visited]; exact freed⟩
  obtain ⟨middle, visited⟩ := visits (level _ (level _ tables)) st.frames
  obtain ⟨frames, freed⟩ := total middle pml4
  exact ⟨{ st with frames := frames }, Option.bind_eq_some_iff.mpr ⟨middle, visited,
    Option.bind_eq_some_iff.mpr ⟨frames, freed, rfl⟩⟩⟩

end FrameOps.Total

/-- A frame allocator that takes every frame back. -/
structure TotalFrameOps (Alloc : Type) extends FrameOps Alloc where
  total : toFrameOps.Total

/-- Free a frame; an allocator that would give up physical frame zero is left out. -/
def ReadyPframe.free (pframe : ReadyPframe) (addr : Nat) : Option ReadyPframe :=
  match freed : pframeFree pframe.st addr with
  | none => none
  | some (_, st) =>
    if first : st.marked 0 = true then
      some ⟨st, by
        rcases pframeFree_cases pframe.ready addr with ⟨_, failed⟩ | ⟨after, done, remarked⟩
        · rw [failed] at freed
          cases freed
          exact pframe.ready
        · rw [done] at freed
          cases freed
          exact remarked.ready, first⟩
    else none

/-- The frame allocator of `mm/pframe` as the work on user memory calls it. -/
def pframeOps : FrameOps ReadyPframe := ⟨pframeSource, ReadyPframe.free⟩

/-- The frame allocator of `mm/pframe`, except that it never gives up physical frame zero. -/
def pframeTotalOps : TotalFrameOps ReadyPframe where
  source := pframeSource
  free pframe addr := some ((pframe.free addr).getD pframe)
  total _ _ := ⟨_, rfl⟩

/-- A frame allocator in which freeing a frame ends the use of that frame and of no other one. -/
structure LawfulFrameOps (Alloc : Type) extends TotalFrameOps Alloc where
  frees : ∀ before addr after, free before addr = some after → addr ≠ 0 →
    ∀ other, source.inUse after other ↔ source.inUse before other ∧ other ≠ addr

theorem ReadyPframe.free_spec (pframe : ReadyPframe) (addr : Nat) :
    (¬pframe.InUse addr ∧ ∃ code, pframeFree pframe.st addr = some (.error code, pframe.st)) ∨
    ∃ frame after, addr = frame * pageSize ∧
      pframeFree pframe.st addr = some (.ok (), after) ∧ pframe.st.Remarked after false frame 1 := by
  have mask : pageSize - 1 = 2 ^ pageShift - 1 := by decide
  have shape : isPageAligned addr = true ↔ addr = addrToFrame addr * pageSize := by
    rw [isPageAligned, mask, Nat.and_two_pow_sub_one_eq_mod, addrToFrame, pageSize,
      Nat.shiftRight_eq_div_pow, pageShift]
    simp only [decide_eq_true_eq]
    omega
  rcases pframeFree_cases pframe.ready addr with ⟨unmet, failed⟩ | ⟨after, done, remarked⟩
  · -- The checks are those that a frame in use passes.
    refine .inl ⟨?_, .invalid, failed⟩
    rintro ⟨frame, managed, rfl, marked⟩
    have number : addrToFrame (frame * pageSize) = frame := by
      simp [addrToFrame, pageSize, Nat.shiftRight_eq_div_pow]
    rw [number] at unmet shape
    exact unmet ⟨shape.mpr rfl, managed, marked⟩
  · have aligned : isPageAligned addr = true := by
      cases unaligned : isPageAligned addr with
      | true => rfl
      | false => simp [pframeFree, pframe.ready.initialized, unaligned] at done
    exact .inr ⟨addrToFrame addr, after, shape.mp aligned, done, remarked⟩

theorem ReadyPframe.free_returns (pframe : ReadyPframe) {addr : Nat} (nonzero : addr ≠ 0) :
    ∃ after, pframe.free addr = some after ∧
      ∀ other, after.InUse other ↔ pframe.InUse other ∧ other ≠ addr := by
  rcases pframe.free_spec addr with ⟨unused, code, failed⟩ | ⟨frame, next, rfl, done, remarked⟩
  · -- A failed call changes nothing, and the frame was not in use.
    have same : pframe.free addr = some pframe := by
      unfold ReadyPframe.free
      split
      · rename_i found
        cases failed.symm.trans found
      · rename_i found
        cases failed.symm.trans found
        simp [pframe.first]
    grind
  · have first : next.marked 0 = true := by
      rw [remarked.marks, if_neg, pframe.first]
      grind
    have given : pframe.free (frame * pageSize) = some ⟨next, remarked.ready, first⟩ := by
      unfold ReadyPframe.free
      grind
    have positive : 0 < pageSize := by decide
    refine ⟨_, given, fun other => ?_⟩
    unfold ReadyPframe.InUse
    rw [remarked.total]
    simp only [remarked.marks]
    constructor
    · rintro ⟨candidate, managed, rfl, marked⟩
      split at marked
      · cases marked
      · rename_i apart
        refine ⟨⟨candidate, managed, rfl, marked⟩, fun equal => apart ?_⟩
        have same := Nat.eq_of_mul_eq_mul_right positive equal
        omega
    grind

/-- The frame allocator of `mm/pframe` is lawful. -/
def pframeLawfulOps : LawfulFrameOps ReadyPframe where
  toTotalFrameOps := pframeTotalOps
  frees := by
    intro before addr after freed nonzero other
    obtain ⟨next, done, used⟩ := before.free_returns nonzero
    obtain rfl := Option.some.inj freed
    rw [done]
    exact used other

end Ccos
