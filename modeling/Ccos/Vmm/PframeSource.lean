import Ccos.Mm.PframeBoot
import Ccos.Vmm.Page

/-! The frame allocator of `mm/pframe` as the source of page table frames. -/

namespace Ccos

open Lib

/-- A ready frame allocator that keeps physical frame zero to itself. -/
structure ReadyPframe where
  st : PframeState
  ready : st.Ready
  first : st.marked 0 = true

/-- The frames in use are the managed frames that are marked. -/
def ReadyPframe.InUse (pframe : ReadyPframe) (addr : Nat) : Prop :=
  ∃ frame < pframe.st.totalFrames, addr = frame * pageSize ∧ pframe.st.marked frame = true

theorem ReadyPframe.kept (pframe : ReadyPframe) {addr : Nat} {after : PframeState}
    (granted : pframeAlloc pframe.st = some (.ok addr, after)) :
    after.Ready ∧ after.marked 0 = true := by
  rcases pframeAlloc_cases pframe.ready with ⟨failed, _⟩ | ⟨_, _, done, _, _, remarked⟩
  · rw [failed] at granted
    simp at granted
  · rw [done] at granted
    simp only [Option.some.injEq, Prod.mk.injEq] at granted
    obtain ⟨_, rfl⟩ := granted
    refine ⟨remarked.ready, ?_⟩
    rw [remarked.marks]
    split
    · rfl
    · exact pframe.first

/-- Allocate one frame; a refusal leaves the allocator as it was. -/
def ReadyPframe.alloc (pframe : ReadyPframe) : Option Nat × ReadyPframe :=
  match granted : pframeAlloc pframe.st with
  | some (.ok addr, after) =>
    (some addr, ⟨after, (pframe.kept granted).1, (pframe.kept granted).2⟩)
  | _ => (none, pframe)

theorem ReadyPframe.alloc_cases (pframe : ReadyPframe) :
    pframe.alloc = (none, pframe) ∨
    ∃ frame after, pframe.alloc = (some (frame * pageSize), after) ∧
      frame < pframe.st.totalFrames ∧ frame < 2 ^ 24 ∧ pframe.st.marked frame = false ∧
      pframe.st.Remarked after.st true frame 1 := by
  have small := pframe.ready.bounded
  simp only [pframeMaxBitmapSize] at small
  rcases pframeAlloc_cases pframe.ready with ⟨failed, _⟩ | ⟨frame, after, done, managed, free, marks⟩
  · refine .inl ?_
    unfold ReadyPframe.alloc
    split
    · rename_i granted
      rw [failed] at granted
      simp at granted
    · rfl
  · refine .inr ?_
    have addr : frameToAddr frame = frame * pageSize := by
      have fits : frame * 2 ^ 12 < 2 ^ 64 := by omega
      rw [frameToAddr, pageShift, Nat.shiftLeft_eq, wrap64_of_lt fits, pageSize, pageShift]
    unfold ReadyPframe.alloc
    split
    · rename_i granted
      rw [done] at granted
      simp only [Option.some.injEq, Prod.mk.injEq, Except.ok.injEq] at granted
      obtain ⟨rfl, rfl⟩ := granted
      exact ⟨frame, ⟨after, _, _⟩, Prod.ext (congrArg some addr) rfl, managed, by omega, free,
        marks⟩
    · rename_i other
      exact absurd done (other _ _)

theorem ReadyPframe.alloc_fresh (before : ReadyPframe) (addr : Nat) (after : ReadyPframe)
    (granted : before.alloc = (some addr, after)) :
    ¬before.InUse addr ∧ addr ≠ 0 ∧ addr % pageSize = 0 ∧ addr < 2 ^ 40 ∧
      ∀ other, after.InUse other ↔ before.InUse other ∨ other = addr := by
  rcases before.alloc_cases with refused | ⟨frame, next, done, managed, small, free, marks⟩
  · rw [refused] at granted
    simp at granted
  · rw [done] at granted
    simp only [Prod.mk.injEq, Option.some.injEq] at granted
    obtain ⟨rfl, rfl⟩ := granted
    have nonzero : frame ≠ 0 := by
      rintro rfl
      rw [before.first] at free
      exact absurd free (by simp)
    have positive : 0 < pageSize := by decide
    refine ⟨?_, ?_, ?_, ?_, fun other => ?_⟩
    · rintro ⟨candidate, _, same, marked⟩
      rw [← Nat.eq_of_mul_eq_mul_right positive same, free] at marked
      exact absurd marked (by simp)
    · simp only [pageSize, pageShift]
      omega
    · exact Nat.mul_mod_left frame pageSize
    · simp only [pageSize, pageShift]
      omega
    · -- Only the granted frame changes its mark.
      simp only [ReadyPframe.InUse, marks.total, marks.marks]
      constructor
      · rintro ⟨candidate, bounded, rfl, marked⟩
        by_cases same : candidate = frame
        · exact .inr (by rw [same])
        · rw [if_neg (by omega)] at marked
          exact .inl ⟨candidate, bounded, rfl, marked⟩
      · rintro (⟨candidate, bounded, rfl, marked⟩ | rfl)
        · refine ⟨candidate, bounded, rfl, ?_⟩
          split
          · rfl
          · exact marked
        · exact ⟨frame, managed, rfl, by rw [if_pos ⟨by omega, by omega⟩]⟩

theorem ReadyPframe.alloc_refused (before after : ReadyPframe)
    (refused : before.alloc = (none, after)) (other : Nat) :
    after.InUse other ↔ before.InUse other := by
  rcases before.alloc_cases with unchanged | ⟨_, _, done, _⟩
  · rw [unchanged] at refused
    simp only [Prod.mk.injEq, true_and] at refused
    rw [refused]
  · rw [done] at refused
    simp at refused

/-- The frame allocator grants only frames that are not in use, never frame zero. -/
def pframeSource : FrameSource ReadyPframe where
  alloc := ReadyPframe.alloc
  inUse := ReadyPframe.InUse
  fresh := ReadyPframe.alloc_fresh
  refused := ReadyPframe.alloc_refused

/-- An allocator of 300 frames whose first 256 frames are reserved. -/
def smallPframe : ReadyPframe where
  st := ⟨⟨fun byte => if byte < 32 then 0xFF else 0, 300⟩, 300, pframeMinAllocBase, 300 * 4096, 256,
    true⟩
  ready := ⟨rfl, rfl, by decide⟩
  first := by decide

/-- Zeroed memory with that allocator. -/
def zeroedState : PageState ReadyPframe :=
  ⟨fun _ => 0, smallPframe, []⟩

/-- The state after one PML4 is made from zeroed memory. -/
def emptyPml4 : PageState ReadyPframe :=
  (pageCreateTable pframeSource zeroedState).2

/-- An allocator with six frames beside the reserved ones. -/
def tightPframe : ReadyPframe where
  st := ⟨⟨fun byte => if byte < 32 then 0xFF else 0, 262⟩, 262, pframeMinAllocBase, 262 * 4096, 256,
    true⟩
  ready := ⟨rfl, rfl, by decide⟩
  first := by decide

end Ccos
