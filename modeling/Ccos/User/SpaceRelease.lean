import Ccos.Lib.RadixSweep
import Ccos.User.UserPages

/-! The destruction of a user address space gives back exactly the tables that were made for it. -/

namespace Ccos

open Lib

variable {Alloc : Type}

/-- The first indices of a table. -/
def indicesBelow (count : Nat) (fits : count ≤ 512) : List (Fin 512) :=
  (List.finRange count).map (Fin.castLE fits)

theorem mem_indicesBelow {count : Nat} {fits : count ≤ 512} {index : Fin 512} :
    index ∈ indicesBelow count fits ↔ index.val < count := by
  constructor
  · intro listed
    obtain ⟨i, _, rfl⟩ := List.mem_map.mp listed
    exact i.isLt
  · intro small
    exact List.mem_map.mpr ⟨⟨index.val, small⟩, List.mem_finRange _, rfl⟩

theorem nodup_indicesBelow (count : Nat) (fits : count ≤ 512) : (indicesBelow count fits).Nodup :=
  (List.nodup_finRange count).map fun _ _ same =>
    Fin.ext (congrArg (fun index : Fin 512 => index.val) same)

theorem foldlM_flatMap {Index State Item : Type} (step : State → Item → Option State)
    (items : Index → List Item) (indices : List Index) (state : State) :
    (indices.flatMap items).foldlM step state =
      indices.foldlM (fun state index => (items index).foldlM step state) state := by
  induction indices generalizing state with
  | nil => rfl
  | cons index rest ih =>
    rw [List.flatMap_cons, List.foldlM_append, List.foldlM_cons]
    exact congrArg (Option.bind _) (funext ih)

section Teardown

variable {free : Alloc → Nat → Option Alloc} {mem low : PhysMem} {table count : Nat}
  {fits : count ≤ 512} {visit : Nat → Alloc → Option Alloc} {rest : List (List (Fin 512))}

/-- A loop over the entries of a table that frees what each of them leads to, and then the table,
frees the sweep of the table. -/
theorem forPresent_sweep
    (same : ∀ index : Fin 512, index.val < count →
      mem (entryAt table index) = low (entryAt table index))
    (visits : ∀ index : Fin 512, index.val < count →
      ptePresent (low (entryAt table index)) = true → ∀ frames,
      visit (low (entryAt table index)) frames =
        (pageLayout.sweepChild low rest (low (entryAt table index))).foldlM free frames)
    (frames : Alloc) :
    (forPresent mem table count visit frames).bind (free · table) =
      (pageLayout.sweep low table (indicesBelow count fits :: rest)).foldlM free frames := by
  have loop : forPresent mem table count visit frames =
      (indicesBelow count fits).foldlM (fun frames index =>
        (pageLayout.sweepChild low rest (low (entryAt table index))).foldlM free frames) frames := by
    rw [forPresent, ← List.map_coe_finRange_eq_range, indicesBelow, List.foldlM_map, List.foldlM_map]
    apply congrArg (fun step => List.foldlM step frames (List.finRange count))
    funext frames i
    have small : (Fin.castLE fits i).val < count := i.isLt
    have here : mem (table + 8 * i.val) = low (entryAt table (Fin.castLE fits i)) :=
      same (Fin.castLE fits i) small
    rw [here]
    cases present : ptePresent (low (entryAt table (Fin.castLE fits i))) with
    | true => exact visits _ small present frames
    | false =>
      rw [RadixLayout.sweepChild, child_of_absent present]
      rfl
  have last (frames : Alloc) : [table].foldlM free frames = free frames table := by simp
  rw [loop, RadixLayout.sweep_cons, List.foldlM_append, foldlM_flatMap]
  simp only [last]
  rfl

end Teardown

variable {source : FrameSource Alloc} {root : Nat} {st : PageState Alloc}

/-- The levels of tables below the lower half of a PML4. -/
def userLevels : List (List (Fin 512)) :=
  [indicesBelow 256 (by decide), indicesBelow 512 (by decide), indicesBelow 512 (by decide)]

variable {path : List (Fin 512)}

theorem mem_userPaths :
    path ∈ RadixLayout.sweepPaths userLevels ↔
      path.length ≤ 3 ∧ ∀ first ∈ path.head?, first.val < 256 := by
  rcases path with _ | ⟨i, _ | ⟨j, _ | ⟨k, _ | ⟨l, path⟩⟩⟩⟩ <;>
    simp [userLevels, mem_indicesBelow, RadixLayout.sweepPaths]

/-- The tables that a destruction frees, in its order. -/
def userTables (root : Nat) (mem : PhysMem) : List Nat :=
  pageLayout.sweep (lowView root mem) root userLevels

variable {mem : PhysMem}

theorem lowView_head {table : Nat} (reached : tableAt (lowView root mem) root path = some table) :
    ∀ first ∈ path.head?, first.val < 256 := by
  intro first head
  cases path with
  | nil => cases head
  | cons index rest =>
    obtain rfl := Option.some.inj head
    by_contra high
    -- The entry is one of the kernel half, which the view does not show.
    have hidden : KernelSlot root (entryAt root index) := by
      have := index.isLt
      simp only [KernelSlot, entryAt, pageSize, pageShift]
      omega
    have zero : lowView root mem (pageLayout.slot root index) = 0 := if_pos hidden
    have ended : pageLayout.child 0 = none := child_of_absent (by decide)
    simp [RadixLayout.descend, zero, ended] at reached

theorem mem_userTables {frame : Nat} :
    frame ∈ userTables root mem ↔ IsTable root (lowView root mem) frame := by
  rw [userTables, RadixLayout.sweep, List.mem_filterMap]
  constructor
  · rintro ⟨path, listed, reached⟩
    exact ⟨path, (mem_userPaths.mp listed).1, reached⟩
  · rintro ⟨path, short, reached⟩
    exact ⟨path, mem_userPaths.mpr ⟨short, lowView_head reached⟩, reached⟩

theorem vmmDestroyUserSpace_eq {ops : FrameOps Alloc}
    (tree : PageTree (ops.source.inUse st.frames) (lowView root st.mem) root)
    (small : SmallPages (lowView root st.mem) root) :
    vmmDestroyUserSpace ops root st =
      ((userTables root st.mem).foldlM ops.free st.frames).map fun frames =>
        { st with frames := frames } := by
  -- Below the lower half of the PML4 the two memories agree.
  have same {path : List (Fin 512)} {table : Nat} {index : Fin 512} (short : path.length ≤ 3)
      (reached : tableAt (lowView root st.mem) root path = some table)
      (low : path = [] → index.val < 256) :
      st.mem (entryAt table index) = lowView root st.mem (entryAt table index) :=
    (hideSlots_apart (tree.apart_kernel short reached low)).symm
  -- A present entry leads to a table, since there are no huge pages.
  have link {path : List (Fin 512)} {table : Nat} {index : Fin 512} (short : path.length ≤ 2)
      (reached : tableAt (lowView root st.mem) root path = some table)
      (present : ptePresent (lowView root st.mem (entryAt table index)) = true) :
      pageLayout.child (lowView root st.mem (entryAt table index)) =
        some (pteAddr (lowView root st.mem (entryAt table index))) := by
    have child := child_of_link present (small path table index short reached present)
    rw [pteAddr_of_low (tree.child_low short reached _ child)]
    exact child
  have next {path : List (Fin 512)} {table : Nat} {index : Fin 512} (short : path.length ≤ 2)
      (reached : tableAt (lowView root st.mem) root path = some table)
      (present : ptePresent (lowView root st.mem (entryAt table index)) = true) :
      tableAt (lowView root st.mem) root (path ++ [index]) =
        some (pteAddr (lowView root st.mem (entryAt table index))) :=
    (RadixLayout.descend_concat reached index).trans (link short reached present)
  have top : tableAt (lowView root st.mem) root [] = some root := rfl
  have joined {first : Option Alloc} {second : Alloc → Option Alloc} :
      (do
        let frames ← first
        let frames ← second frames
        some { st with frames := frames }) =
        (first.bind second).map fun frames => { st with frames := frames } := by
    cases first with
    | none => rfl
    | some frames => exact Option.map_eq_bind.symm
  refine joined.trans (congrArg (Option.map _) (forPresent_sweep
    (fun index low => same (by simp) top fun _ => low) ?_ st.frames))
  -- The three loops are taken one inside the other.
  intro i _ present frames
  have here := next (by simp) top present
  rw [RadixLayout.sweepChild_of_child (link (by simp) top present)]
  refine forPresent_sweep (fun index _ => same (by simp) here (by simp)) ?_ frames
  intro j _ present frames
  have there := next (by simp) here present
  rw [RadixLayout.sweepChild_of_child (link (by simp) here present)]
  refine forPresent_sweep (fun index _ => same (by simp) there (by simp)) ?_ frames
  intro k _ present frames
  rw [RadixLayout.sweepChild_of_child (link (by simp) there present), RadixLayout.sweep_nil,
    small _ _ _ (by simp) there present]
  simp

theorem LawfulFrameOps.freeAll (ops : LawfulFrameOps Alloc) {log : Alloc → List Nat}
    (records : ops.toFrameOps.Records log) {list : List Nat} (nonzero : ∀ frame ∈ list, frame ≠ 0)
    (frames : Alloc) :
    ∃ after, list.foldlM ops.free frames = some after ∧ log after = list.reverse ++ log frames ∧
      ∀ frame, ops.source.inUse after frame ↔ ops.source.inUse frames frame ∧ frame ∉ list := by
  induction list generalizing frames with
  | nil => exact ⟨frames, rfl, rfl, by simp⟩
  | cons first rest ih =>
    obtain ⟨middle, freed⟩ := ops.total frames first
    have ended := ops.frees _ _ _ freed (nonzero first List.mem_cons_self)
    obtain ⟨after, done, noted, used⟩ :=
      ih (fun frame listed => nonzero frame (List.mem_cons_of_mem _ listed)) middle
    refine ⟨after, ?_, ?_, fun frame => ?_⟩
    · rw [List.foldlM_cons, freed]
      exact done
    · rw [noted, records _ _ _ freed, List.reverse_cons, List.append_assoc]
      rfl
    · rw [used, ended, List.mem_cons, not_or, and_assoc]

/-- The arguments of one call of `vmm_map_to_user`. -/
structure MapCall where
  vaddr : Nat
  paddr : Nat
  count : Nat
  flags : Nat

/-- The call asks for 4 KiB pages, and they all start below the end of user space. -/
@[grind] structure MapCall.Plain (call : MapCall) : Prop where
  below : ∀ page < call.count, call.vaddr + page * pageSize < userEnd
  no2mb : call.flags.testBit 5 = false
  no1gb : call.flags.testBit 6 = false

/-- A list of calls, whether they succeed or not. -/
def mapCalls (ops : FrameOps Alloc) (pml4 : Nat) (calls : List MapCall) (st : PageState Alloc) :
    PageState Alloc :=
  calls.foldl (fun st call =>
    (vmmMapToUser ops pml4 call.vaddr call.paddr call.count call.flags st).2) st

theorem pml4Index_below {vaddr : Nat} (below : vaddr < userEnd) : (pml4Index vaddr).val < 256 := by
  rw [pml4Index, tableIndex_val]
  have stop : userEnd < 2 ^ 47 := by decide
  omega

section Steps

variable {ops : FrameOps Alloc} {vaddr paddr flags remaining page : Nat}

theorem LowStep.unmapRange
    (low : ∀ i < remaining, (pml4Index (pageAt vaddr (page + i))).val < 256)
    (tree : PageTree (source.inUse st.frames) (lowView root st.mem) root)
    (small : SmallPages (lowView root st.mem) root) :
    LowStep source root st (pageUnmapRange root vaddr page remaining st) := by
  induction remaining generalizing page st with
  | zero => exact .refl tree small
  | succ remaining ih =>
    have first : LowStep source root st (pageUnmapPage root (pageAt vaddr page) false st).2 :=
      .unmapPage tree small (low 0 (by omega)) false
    refine first.trans (ih (fun i early => ?_) first.tree first.small)
    grind

variable (tree : PageTree (ops.source.inUse st.frames) (lowView root st.mem) root)
  (small : SmallPages (lowView root st.mem) root)
include tree small

/-- Mapping pages of the lower half is a step, with or without a rollback. -/
theorem LowStep.mapPages (low : ∀ i < page + remaining, (pml4Index (pageAt vaddr i)).val < 256)
    (ordinary : SmallFlags flags) :
    LowStep ops.source root st
      (vmmMapToUserPages ops root vaddr paddr flags page remaining st).2 := by
  induction remaining generalizing page st with
  | zero => exact .refl tree small
  | succ remaining ih =>
    have first := @LowStep.mapPage _ ops.source root st (pageAt vaddr page)
      (wrap64 (paddr + wrap64 (page * pageSize))) flags tree small (low page (by omega)) ordinary
    rw [vmmMapToUserPages]
    simp only [pageAt] at first
    generalize pageMapPage ops.source root (wrap64 (vaddr + wrap64 (page * pageSize)))
      (wrap64 (paddr + wrap64 (page * pageSize))) flags true st = result at first ⊢
    rcases result with ⟨code | _, middle⟩
    · refine first.trans (.unmapRange (fun i early => ?_) first.tree first.small)
      rw [Nat.zero_add]
      exact low i (by omega)
    · exact first.trans (ih first.tree first.small fun i early => low i (by omega))

theorem LowStep.mapToUser {call : MapCall} (plain : call.Plain) :
    LowStep ops.source root st
      (vmmMapToUser ops root call.vaddr call.paddr call.count call.flags st).2 := by
  have ordinary : SmallFlags (call.flags ||| vmapFlagUser) := .or ⟨plain.no2mb, plain.no1gb⟩ (by decide)
  unfold vmmMapToUser
  split
  · exact .refl tree small
  · refine .mapPages tree small (fun page early => ?_) ordinary
    rw [Nat.zero_add] at early
    have below := plain.below page early
    have stop : userEnd < 2 ^ 64 := by decide
    have exact : pageAt call.vaddr page = call.vaddr + page * pageSize := by
      simp only [pageAt, wrap64]
      omega
    rw [exact]
    exact pml4Index_below below

theorem LowStep.mapCalls {calls : List MapCall} (plain : ∀ call ∈ calls, call.Plain) :
    LowStep ops.source root st (Ccos.mapCalls ops root calls st) := by
  induction calls generalizing st with
  | nil => exact .refl tree small
  | cons call rest ih =>
    have first := LowStep.mapToUser tree small (plain call List.mem_cons_self)
    exact first.trans (ih first.tree first.small
      fun other listed => plain other (List.mem_cons_of_mem _ listed))

end Steps

/-- After any list of mappings in a new address space, its destruction frees the PML4 and the tables
made for the space, each of them once, and nothing else; so the frames in use are those from before
the creation, and no memory is written. -/
theorem vmmDestroyUserSpace_restores {ops : LawfulFrameOps Alloc} {log : Alloc → List Nat}
    (records : ops.toFrameOps.Records log) {kernelPml4 pml4 : Nat} {space : PageState Alloc}
    (created : vmmCreateUserSpace ops.source kernelPml4 st = (some pml4, space))
    {calls : List MapCall} (plain : ∀ call ∈ calls, call.Plain) :
    ∃ freed after,
      vmmDestroyUserSpace ops.toFrameOps pml4 (mapCalls ops.toFrameOps pml4 calls space) =
        some after ∧
      log after.frames = freed ++ log (mapCalls ops.toFrameOps pml4 calls space).frames ∧
      freed.Nodup ∧
      (∀ frame, frame ∈ freed ↔
        IsTable pml4 (lowView pml4 (mapCalls ops.toFrameOps pml4 calls space).mem) frame) ∧
      (∀ frame, frame ∈ freed ↔
        ops.source.inUse (mapCalls ops.toFrameOps pml4 calls space).frames frame ∧
          ¬ops.source.inUse st.frames frame) ∧
      (∀ frame, ops.source.inUse after.frames frame ↔ ops.source.inUse st.frames frame) ∧
      after.mem = (mapCalls ops.toFrameOps pml4 calls space).mem := by
  obtain ⟨tree, small, unused, taken, only⟩ := vmmCreateUserSpace_empty created
  have step := @LowStep.mapCalls _ pml4 space ops.toFrameOps tree small _ plain
  generalize mapCalls ops.toFrameOps pml4 calls space = mapped at step ⊢
  -- The frames taken since the creation are the tables.
  have fresh (frame : Nat) (table : IsTable pml4 (lowView pml4 mapped.mem) frame) :
      ¬ops.source.inUse st.frames frame := by
    rcases step.built.new frame table with old | free
    · rw [only frame old]
      exact unused
    · intro before
      exact free ((taken frame).mpr (.inl before))
  have frames (frame : Nat) : ops.source.inUse mapped.frames frame ↔
      ops.source.inUse st.frames frame ∨ IsTable pml4 (lowView pml4 mapped.mem) frame := by
    constructor
    · intro now
      rcases step.built.taken frame now with between | table
      · rcases (taken frame).mp between with before | rfl
        · exact .inl before
        · exact .inr ⟨[], by simp, rfl⟩
      · exact .inr table
    · rintro (before | table)
      · exact step.built.used frame ((taken frame).mpr (.inl before))
      · exact step.tree.used table
  have nodup : (userTables pml4 mapped.mem).Nodup :=
    step.tree.separated.nodup_sweep (Nat.le_refl 3) fun level listed => by
      simp only [userLevels, List.mem_cons, List.not_mem_nil, or_false] at listed
      rcases listed with top | middle | last
      · exact top ▸ nodup_indicesBelow 256 _
      · exact middle ▸ nodup_indicesBelow 512 _
      · exact last ▸ nodup_indicesBelow 512 _
  obtain ⟨last, done, noted, used⟩ := ops.freeAll records
    (fun frame listed => by
      obtain ⟨path, short, reached⟩ := mem_userTables.mp listed
      exact (step.tree.tables path frame short reached).1) mapped.frames
  refine ⟨(userTables pml4 mapped.mem).reverse, { mapped with frames := last }, ?_, noted,
    List.nodup_reverse.mpr nodup, fun frame => ?_, fun frame => ?_, fun frame => ?_, rfl⟩
  · rw [vmmDestroyUserSpace_eq step.tree step.small, done]
    rfl
  · rw [List.mem_reverse, mem_userTables]
  · rw [List.mem_reverse, mem_userTables, frames]
    grind
  · rw [used, frames, mem_userTables]
    grind

theorem watchedOps_records (ops : LawfulFrameOps Alloc) :
    (watchedOps ops).toFrameOps.Records fun watched => watched.freed := by
  intro frames addr after freed
  obtain ⟨_, _, rfl⟩ := Option.map_eq_some_iff.mp freed
  rfl

/-- A new address space over an allocator with a record. -/
def watchedSpace : PageState (Watched ReadyPframe) :=
  (vmmCreateUserSpace (watchedOps pframeLawfulOps).source 0x5000
    ⟨fun _ => 0, ⟨smallPframe, false, []⟩, []⟩).2

/-- After two pages were mapped in it, its destruction gives back all its frames, each of them
once. -/
theorem vmmDestroyUserSpace_restores_two :
    ∃ freed after,
      vmmDestroyUserSpace (watchedOps pframeLawfulOps).toFrameOps 0x100000
        (mapCalls (watchedOps pframeLawfulOps).toFrameOps 0x100000 [⟨0x400000, 0x200000, 2, 0⟩]
          watchedSpace) = some after ∧
      after.frames.freed = freed ++ (mapCalls (watchedOps pframeLawfulOps).toFrameOps 0x100000
        [⟨0x400000, 0x200000, 2, 0⟩] watchedSpace).frames.freed ∧ freed.Nodup ∧
      ∀ frame, after.frames.frames.InUse frame ↔ smallPframe.InUse frame := by
  have first : (vmmCreateUserSpace (watchedOps pframeLawfulOps).source 0x5000
      ⟨fun _ => 0, ⟨smallPframe, false, []⟩, []⟩).1 = some 0x100000 := by
    decide +kernel
  have created : vmmCreateUserSpace (watchedOps pframeLawfulOps).source 0x5000
      ⟨fun _ => 0, ⟨smallPframe, false, []⟩, []⟩ = (some 0x100000, watchedSpace) := by
    rw [watchedSpace, ← first]
  have plain : ∀ call ∈ [(⟨0x400000, 0x200000, 2, 0⟩ : MapCall)], call.Plain := by
    intro call listed
    obtain rfl := List.mem_singleton.mp listed
    exact ⟨by decide, by decide, by decide⟩
  obtain ⟨freed, after, done, noted, nodup, _, _, used, _⟩ :=
    vmmDestroyUserSpace_restores (watchedOps_records pframeLawfulOps) created plain
  exact ⟨freed, after, done, noted, nodup, used⟩

end Ccos
