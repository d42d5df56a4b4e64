import Ccos.Vmm.PageRefine

/-! Pages that own a frame each, beside the frames and the translations that are there anyway: what
granting, mapping, unmapping and giving back one frame does to them. -/

namespace Ccos

open Lib

/-- Some pages own a frame each: all translations and all frames in use are theirs, or were there
before, or belong to the tables. -/
@[grind] structure OwnedPages {Alloc : Type*} (source : FrameSource Alloc) (root : Nat)
    (others : Nat → Option (Nat × Nat)) (outside : Nat → Prop) (pages : Nat → Option (Nat × Nat))
    (st : PageState Alloc) : Prop where
  walk : ∀ vaddr, hardwareWalk root vaddr st.mem = match pages (pageNumber vaddr) with
    | some (frame, flags) => some (smallEntry frame flags, 0)
    | none => others vaddr
  alone : ∀ vaddr, pages (pageNumber vaddr) ≠ none → others vaddr = none
  frames : ∀ frame, source.inUse st.frames frame ↔
    outside frame ∨ (∃ page flags, pages page = some (frame, flags)) ∨ IsTable root st.mem frame
  own : ∀ page frame flags, pages page = some (frame, flags) →
    frame ≠ 0 ∧ frame % pageSize = 0 ∧ frame < 2 ^ 40 ∧ ¬outside frame ∧ ¬IsTable root st.mem frame
  distinct : ∀ page other frame flags flags', pages page = some (frame, flags) →
    pages other = some (frame, flags') → page = other

namespace OwnedPages

variable {Alloc : Type*} {source : FrameSource Alloc} {root : Nat}
  {others : Nat → Option (Nat × Nat)} {outside : Nat → Prop} {pages : Nat → Option (Nat × Nat)}
  {st : PageState Alloc} {vaddr : Nat}

theorem tables (owned : OwnedPages source root others outside pages st) (table : Nat)
    (is : IsTable root st.mem table) : source.inUse st.frames table :=
  (owned.frames table).mpr (.inr (.inr is))

theorem start (used : ∀ table, IsTable root st.mem table → source.inUse st.frames table) :
    OwnedPages source root (fun vaddr => hardwareWalk root vaddr st.mem) (source.inUse st.frames)
      (fun _ => none) st := by
  refine ⟨fun _ => rfl, by simp, fun frame => ?_, by simp, by simp⟩
  grind

variable {after : PageState Alloc}

/-- Work on the tables leaves all other uses of frames. -/
theorem used_iff {held : Nat → Prop} (built : Built source root st after)
    (used : ∀ table, IsTable root after.mem table → source.inUse after.frames table)
    (frames : ∀ frame, source.inUse st.frames frame ↔ held frame ∨ IsTable root st.mem frame)
    (frame : Nat) : source.inUse after.frames frame ↔ held frame ∨ IsTable root after.mem frame := by
  constructor
  · intro now
    rcases built.taken frame now with old | table
    · exact ((frames frame).mp old).imp id (built.kept frame)
    · exact .inr table
  · rintro (kept | table)
    · exact built.used frame ((frames frame).mpr (.inl kept))
    · exact used frame table

theorem built (owned : OwnedPages source root others outside pages st)
    (used : ∀ table, IsTable root after.mem table → source.inUse after.frames table)
    (built : Built source root st after)
    (same : ∀ vaddr, hardwareWalk root vaddr after.mem = hardwareWalk root vaddr st.mem) :
    OwnedPages source root others outside pages after := by
  refine ⟨fun vaddr => (same vaddr).trans (owned.walk vaddr), owned.alone, fun frame => ?_,
    fun page frame flags mine => ?_, owned.distinct⟩
  · rw [used_iff built used (fun other => (owned.frames other).trans or_assoc.symm), or_assoc]
  · obtain ⟨nonzero, aligned, fits, free, apart⟩ := owned.own page frame flags mine
    exact ⟨nonzero, aligned, fits, free,
      built.not_table ((owned.frames frame).mpr (.inr (.inl ⟨page, flags, mine⟩))) apart⟩

variable {fresh : Nat} {frames : Alloc}

theorem granted (owned : OwnedPages source root others outside pages st)
    (granted : source.alloc st.frames = (some fresh, frames)) :
    OwnedPages source root others (fun frame => outside frame ∨ frame = fresh) pages
        { st with frames := frames } ∧
      ¬outside fresh ∧ ¬IsTable root st.mem fresh := by
  obtain ⟨unused, _, _, _, used⟩ := source.fresh _ _ _ granted
  have free : ¬outside fresh := fun out => unused ((owned.frames fresh).mpr (.inl out))
  have apart : ¬IsTable root st.mem fresh := fun table => unused (owned.tables fresh table)
  refine ⟨⟨owned.walk, owned.alone, fun frame => ?_, fun page frame flags mine => ?_,
    owned.distinct⟩, free, apart⟩
  all_goals grind

theorem refused (owned : OwnedPages source root others outside pages st)
    (refused : source.alloc st.frames = (none, frames)) :
    OwnedPages source root others outside pages { st with frames := frames } :=
  ⟨owned.walk, owned.alone, fun frame => (source.refused _ _ refused frame).trans
    (owned.frames frame), owned.own, owned.distinct⟩

theorem released
    (owned : OwnedPages source root others (fun frame => outside frame ∨ frame = fresh) pages st)
    (free : ¬outside fresh) (apart : ¬IsTable root st.mem fresh)
    (freed : ∀ other, source.inUse frames other ↔ source.inUse st.frames other ∧ other ≠ fresh) :
    OwnedPages source root others outside pages { st with frames := frames } := by
  refine ⟨owned.walk, owned.alone, fun frame => ?_, fun page frame flags mine => ?_,
    owned.distinct⟩
  all_goals grind

theorem unowned (owned : OwnedPages source root others outside pages st)
    (absent : hardwareWalk root vaddr st.mem = none) : pages (pageNumber vaddr) = none := by
  grind

/-- A frame that was held beside the others becomes the frame of a page. -/
theorem adopted {flags : Nat}
    (owned : OwnedPages source root others (fun frame => outside frame ∨ frame = fresh) pages st)
    (free : ¬outside fresh) (apart : ¬IsTable root st.mem fresh)
    (shape : fresh ≠ 0 ∧ fresh % pageSize = 0 ∧ fresh < 2 ^ 40)
    (used : ∀ table, IsTable root after.mem table → source.inUse after.frames table)
    (built : Built source root st after) (absent : hardwareWalk root vaddr st.mem = none)
    (walks : ∀ other, hardwareWalk root other after.mem =
      if pageNumber other = pageNumber vaddr then some (smallEntry fresh flags, 0)
      else hardwareWalk root other st.mem) :
    OwnedPages source root others outside
      (Function.update pages (pageNumber vaddr) (some (fresh, flags))) after := by
  have unowned := owned.unowned absent
  have held : source.inUse st.frames fresh := (owned.frames fresh).mpr (.inl (.inr rfl))
  refine ⟨fun other => ?_, fun other mine => ?_, fun frame => ?_,
    fun page frame flags mine => ?_, fun page other frame flags flags' mine mine' => ?_⟩
  · grind
  · by_cases same : pageNumber other = pageNumber vaddr
    · -- The walk that found nothing was one of the others.
      have walk := owned.walk other
      rw [same, unowned, hardwareWalk_page same, absent] at walk
      exact walk.symm
    grind
  · rw [used_iff built used (fun other => (owned.frames other).trans or_assoc.symm), or_assoc]
    -- The frame moves from those held beside to those of the pages.
    constructor
    · rintro ((out | rfl) | ⟨page, flags, mine⟩ | table)
      · exact .inl out
      · exact .inr (.inl ⟨_, _, Function.update_self ..⟩)
      · exact .inr (.inl ⟨page, flags, (Function.update_of_ne (by grind) ..).trans mine⟩)
      · exact .inr (.inr table)
    · grind
  · by_cases same : page = pageNumber vaddr
    · subst same
      obtain ⟨rfl, _⟩ : fresh = frame ∧ _ = flags := by simpa using mine
      exact ⟨shape.1, shape.2.1, shape.2.2, free, built.not_table held apart⟩
    · rw [Function.update_of_ne same] at mine
      obtain ⟨nonzero, aligned, fits, out, table⟩ := owned.own page frame flags mine
      exact ⟨nonzero, aligned, fits, fun old => out (.inl old), built.not_table
        ((owned.frames frame).mpr (.inr (.inl ⟨page, flags, mine⟩))) table⟩
  -- The new frame is the frame of no other page.
  grind

theorem dropped {frame flags : Nat} (owned : OwnedPages source root others outside pages st)
    (mine : pages (pageNumber vaddr) = some (frame, flags))
    (freed : ∀ other, source.inUse frames other ↔ source.inUse st.frames other ∧ other ≠ frame)
    (same : after.frames = frames)
    (used : ∀ table, IsTable root after.mem table → source.inUse after.frames table)
    (built : Built source root { st with frames := frames } after)
    (walks : ∀ other, hardwareWalk root other after.mem =
      if pageNumber other = pageNumber vaddr then none else hardwareWalk root other st.mem) :
    OwnedPages source root others outside (Function.update pages (pageNumber vaddr) none) after := by
  obtain ⟨nonzero, _, _, free, apart⟩ := owned.own _ frame flags mine
  have inUse (other : Nat) : source.inUse after.frames other ↔
      source.inUse st.frames other ∧ other ≠ frame := by
    rw [same]
    exact freed other
  have sameTables (other : Nat) : IsTable root after.mem other ↔ IsTable root st.mem other := by
    refine ⟨fun now => ?_, built.kept other⟩
    rcases built.new other now with was | unused
    all_goals grind
  -- What is owned afterwards was owned before, by another page.
  have before {page : Nat} {entry : Nat × Nat}
      (later : Function.update pages (pageNumber vaddr) none page = some entry) :
      page ≠ pageNumber vaddr ∧ pages page = some entry := by
    grind
  refine ⟨fun other => ?_, fun other still => ?_, fun other => ?_,
    fun page other flags later => ?_, fun page other frame flags flags' later later' => ?_⟩
  all_goals grind

end OwnedPages

end Ccos
