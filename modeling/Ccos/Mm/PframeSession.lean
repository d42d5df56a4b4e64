import Ccos.Mm.PframeBoot

/-! Whole sessions with the frame allocator: who holds which frame after any sequence of calls. -/

namespace Ccos

open Lib

inductive PframeCall
  | alloc
  | allocN (frameCount : Nat)
  | free (addr : Nat)
  | freeN (addr frameCount : Nat)

/-- The allocator together with the frames that each outstanding allocation still holds. -/
structure PframeSession where
  st : PframeState
  held : List (List Nat)

/-- Whether some outstanding allocation holds a frame. -/
@[grind =] def PframeSession.Holds (session : PframeSession) (frame : Nat) : Prop :=
  ∃ grant ∈ session.held, frame ∈ grant

/-- Callers pass 64-bit values and free only frames that are currently held. -/
def PframeSession.Legal (session : PframeSession) : PframeCall → Prop
  | .alloc => True
  | .allocN frameCount => frameCount < 2 ^ 64
  | .free addr => addr < 2 ^ 64 ∧ session.Holds (addrToFrame addr)
  | .freeN addr frameCount => addr < 2 ^ 64 ∧ frameCount < 2 ^ 64 ∧
      ∀ i < frameCount, session.Holds (addrToFrame addr + i)

def recordGrant (held : List (List Nat)) (frameCount : Nat) : Except PframeError Nat →
    List (List Nat)
  | .ok addr => List.range' (addrToFrame addr) frameCount :: held
  | .error _ => held

def recordReturn (held : List (List Nat)) (first frameCount : Nat) : Except PframeError Unit →
    List (List Nat)
  | .ok () => returnItems (fun frame => first ≤ frame && frame < first + frameCount) held
  | .error _ => held

/-- Perform one call; an assertion failure has no successor. -/
def PframeSession.perform (session : PframeSession) : PframeCall → Option PframeSession
  | .alloc => (pframeAlloc session.st).map fun (result, st) =>
      ⟨st, recordGrant session.held 1 result⟩
  | .allocN frameCount => (pframeAllocN session.st frameCount).map fun (result, st) =>
      ⟨st, recordGrant session.held frameCount result⟩
  | .free addr => (pframeFree session.st addr).map fun (result, st) =>
      ⟨st, recordReturn session.held (addrToFrame addr) 1 result⟩
  | .freeN addr frameCount => (pframeFreeN session.st addr frameCount).map fun (result, st) =>
      ⟨st, recordReturn session.held (addrToFrame addr) frameCount result⟩

def PframeSession.Step (before : PframeSession) (call : PframeCall) (after : PframeSession) :
    Prop :=
  before.Legal call ∧ before.perform call = some after

/-- The exclusive-grant ledger that a session implements. -/
def PframeSession.ledger (session : PframeSession) : Ledger Nat :=
  ⟨{frame | frame < session.st.totalFrames ∧ session.st.marked frame = true}, session.held⟩

variable {held : List (List Nat)} {after st : PframeState} {first count : Nat}

theorem remarked_grant (managed : first + count ≤ st.totalFrames)
    (free : ∀ frame, first ≤ frame → frame < first + count → st.marked frame = false)
    (remarked : st.Remarked after true first count) :
    Ledger.Move (PframeSession.ledger ⟨st, held⟩)
      (PframeSession.ledger ⟨after, List.range' first count :: held⟩) := by
  have move := Ledger.Move.grant (PframeSession.ledger ⟨st, held⟩) (List.range' first count) (by
    rintro frame member ⟨_, marked⟩
    have bounds := List.mem_range'_1.mp member
    rw [free frame bounds.1 bounds.2] at marked
    exact Bool.false_ne_true marked)
  convert move using 1
  simp only [PframeSession.ledger, Ledger.mk.injEq, and_true]
  ext frame
  simp only [Set.mem_ofPred_eq, Set.mem_union, remarked.marks, remarked.total, List.mem_range'_1]
  grind

theorem remarked_giveBack (owned : ∀ frame, first ≤ frame → frame < first + count →
      PframeSession.Holds ⟨st, held⟩ frame) (remarked : st.Remarked after false first count) :
    Ledger.Move (PframeSession.ledger ⟨st, held⟩)
      (PframeSession.ledger ⟨after,
        returnItems (fun frame => first ≤ frame && frame < first + count) held⟩) := by
  have move := Ledger.Move.giveBack (PframeSession.ledger ⟨st, held⟩)
    (fun frame => first ≤ frame && frame < first + count) (by
      intro frame returned
      simp only [Bool.and_eq_true, decide_eq_true_eq] at returned
      exact owned frame returned.1 returned.2)
  convert move using 1
  simp only [PframeSession.ledger, Ledger.mk.injEq, and_true]
  ext frame
  simp only [Set.mem_ofPred_eq, Set.mem_sdiff, remarked.marks, remarked.total, Bool.and_eq_true,
    decide_eq_true_eq]
  grind

/-- What every session keeps relative to the allocator that initialisation left. -/
@[grind]
structure PframeSession.Sound (initial : PframeState) (session : PframeSession) : Prop where
  ready : session.st.Ready
  total : session.st.totalFrames = initial.totalFrames
  ledger : session.ledger.Sound
    {frame | frame < initial.totalFrames ∧ initial.marked frame = true}

variable {ready : PframeState} {session : PframeSession}

theorem PframeSession.Sound.held_free (sound : session.Sound ready) {frame : Nat}
    (held : session.Holds frame) : frame < ready.totalFrames ∧ ready.marked frame = false := by
  -- A held frame is marked now, so it is managed, and it is not among the reserved ones.
  have marked := (sound.ledger.marked_iff frame).mpr (.inr held)
  have managed : frame < ready.totalFrames := sound.total ▸ marked.1
  have unreserved := sound.ledger.unreserved frame held
  grind

variable {call : PframeCall}

theorem PframeSession.perform_move (sound : session.Sound ready) (legal : session.Legal call) :
    ∃ after, session.perform call = some after ∧ after.st.Ready ∧
      after.st.totalFrames = session.st.totalFrames ∧
      Ledger.Move session.ledger after.ledger := by
  -- A refused call leaves both the allocator and the record as they were.
  have refused : session.st.Ready ∧ session.st.totalFrames = session.st.totalFrames ∧
      Ledger.Move session.ledger session.ledger := ⟨sound.ready, rfl, .refuse _⟩
  have small := sound.ready.bounded
  simp only [pframeMaxBitmapSize] at small
  cases call with
  | alloc =>
    rcases pframeAlloc_cases sound.ready with
      ⟨failed, _⟩ | ⟨frame, after, done, managed, free, remarked⟩
    · exact ⟨session, by simp [perform, failed, recordGrant], refused⟩
    · refine ⟨⟨after, List.range' frame 1 :: session.held⟩, ?_, remarked.ready, remarked.total, ?_⟩
      · simp [perform, done, recordGrant, addrToFrame_frameToAddr (show frame < 2 ^ 52 by omega)]
      · apply remarked_grant managed _ remarked
        grind
  | allocN frameCount =>
    rcases pframeAllocN_cases sound.ready frameCount with
      ⟨code, failed⟩ | ⟨first, after, done, _, managed, free, remarked⟩
    · exact ⟨session, by simp [perform, failed, recordGrant], refused⟩
    · refine ⟨⟨after, List.range' first frameCount :: session.held⟩, ?_, remarked.ready,
        remarked.total, remarked_grant managed free remarked⟩
      simp [perform, done, recordGrant, addrToFrame_frameToAddr (show first < 2 ^ 52 by omega)]
  | free addr =>
    rcases pframeFree_cases sound.ready addr with ⟨code, failed⟩ | ⟨after, done, remarked⟩
    · exact ⟨session, by simp [perform, failed, recordReturn], refused⟩
    · refine ⟨_, by simp only [perform, done, Option.map_some]; rfl, remarked.ready,
        remarked.total, ?_⟩
      apply remarked_giveBack _ remarked
      intro frame low high
      rw [show frame = addrToFrame addr by omega]
      exact legal.2
  | freeN addr frameCount =>
    obtain ⟨_, _, owned⟩ := legal
    -- The last frame of the range is held, hence managed, so the whole range is managed.
    by_cases empty : frameCount = 0
    · refine ⟨session, ?_, refused⟩
      simp [perform, pframeFreeN, sound.ready.initialized, empty, recordReturn]
    have last := sound.held_free (owned (frameCount - 1) (by omega))
    have managed : addrToFrame addr + frameCount ≤ session.st.totalFrames := by
      rw [sound.total]
      omega
    rcases pframeFreeN_cases sound.ready addr frameCount managed with
      ⟨code, failed⟩ | ⟨after, done, remarked⟩
    · exact ⟨session, by simp [perform, failed, recordReturn], refused⟩
    · refine ⟨_, by simp only [perform, done, Option.map_some]; rfl, remarked.ready,
        remarked.total, ?_⟩
      apply remarked_giveBack _ remarked
      intro frame low high
      have held := owned (frame - addrToFrame addr) (by omega)
      grind

theorem PframeSession.Step.sound {before after : PframeSession} (step : before.Step call after)
    (sound : before.Sound ready) : after.Sound ready := by
  obtain ⟨legal, done⟩ := step
  obtain ⟨result, performed, readyAfter, total, move⟩ := before.perform_move sound legal
  obtain rfl : result = after := by simpa using performed.symm.trans done
  exact ⟨readyAfter, total.trans sound.total, move.sound sound.ledger⟩

/-- Outstanding frames are disjoint, managed and were free after initialisation, and a request
for one frame fails for want of memory only when every managed frame is marked. -/
theorem pframe_session_exclusive {entries : List E820Entry} {storage : Nat}
    {boot ready : PframeState} (fresh : boot.initialized = false)
    (done : pframeInit entries storage boot = some (.ok (), ready))
    {calls : List PframeCall} {session : PframeSession}
    (run : Run PframeSession.Step ⟨ready, []⟩ calls session) :
    session.held.Pairwise List.Disjoint ∧
    (∀ frame, session.Holds frame → frame < session.st.totalFrames ∧ ready.marked frame = false) ∧
    (∀ after, pframeAlloc session.st = some (.error .oom, after) →
      ∀ frame < session.st.totalFrames, session.st.marked frame = true) ∧
    (∀ call, session.Legal call → ∃ after, session.Step call after) := by
  have sound : session.Sound ready := by
    refine run.preserves (PframeSession.Sound ready) ?_ ?_
    · exact fun _ _ _ step sound => step.sound sound
    · exact ⟨(pframeInit_ready fresh done).1, rfl, Ledger.sound_start _⟩
  refine ⟨sound.ledger.disjoint, fun frame held => ?_, fun after failed => ?_,
    fun call legal => ?_⟩
  · rw [sound.total]
    exact sound.held_free held
  · rcases pframeAlloc_cases sound.ready with ⟨_, full⟩ | ⟨frame, next, granted, _⟩
    all_goals grind
  · obtain ⟨after, performed, _⟩ := session.perform_move sound legal
    exact ⟨after, legal, performed⟩

/-- A machine with one usable region of 276 frames, before initialisation. -/
def pframeBoot : PframeState :=
  ⟨⟨fun _ => 0, 0⟩, 0, 0, 0, 0, false⟩

/-- The usable region of that machine. -/
def pframeBootEntry : E820Entry :=
  ⟨0, 0x114000, e820TypeUsable, zero_lt_word, by decide⟩

/-- The record left by calls made one after another on a freshly initialised allocator. -/
def pframeBootHeld (calls : List PframeCall) : Option (List (List Nat)) :=
  match pframeInit [pframeBootEntry] 0x200000 pframeBoot with
  | some (.ok (), ready) =>
    (calls.foldlM PframeSession.perform ⟨ready, []⟩).map PframeSession.held
  | _ => none

/-- On a concrete machine one frame and then two frames are granted apart from each other. -/
theorem pframe_session_exclusive_boot :
    ∃ ready session,
      pframeInit [pframeBootEntry] 0x200000 pframeBoot = some (.ok (), ready) ∧
      Run PframeSession.Step ⟨ready, []⟩ [.alloc, .allocN 2] session ∧
      session.held = [[273, 274], [272]] ∧ session.held.Pairwise List.Disjoint ∧
      ∀ frame, session.Holds frame →
        frame < session.st.totalFrames ∧ ready.marked frame = false := by
  have computed : pframeBootHeld [.alloc, .allocN 2] = some [[273, 274], [272]] := by
    decide +kernel
  unfold pframeBootHeld at computed
  generalize init : pframeInit [pframeBootEntry] 0x200000 pframeBoot = result at computed
  split at computed
  · rename_i ready
    -- The fold exposes the two intermediate sessions of the run.
    simp only [List.foldlM_cons, List.foldlM_nil, Option.bind_eq_bind, Option.map_eq_some_iff,
      Option.bind_eq_some_iff] at computed
    obtain ⟨session, ⟨first, one, second, two, same⟩, held⟩ := computed
    obtain rfl : second = session := by simpa using same
    have run : Run PframeSession.Step ⟨ready, []⟩ [.alloc, .allocN 2] second :=
      .cons ⟨trivial, one⟩ (.cons ⟨show 2 < 2 ^ 64 by decide, two⟩ (.nil _))
    have fresh : pframeBoot.initialized = false := rfl
    have exclusive := pframe_session_exclusive fresh init run
    grind
  · simp at computed

end Ccos
