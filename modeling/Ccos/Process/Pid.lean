import Mathlib.Data.Set.Insert
import Ccos.Bitmap

/-! The PID allocator of `process/process.c` and the set of PIDs that it counts as taken. -/

namespace Ccos

/-- PIDs are smaller than this, and PID 0 is reserved. -/
def pidMax : Nat := 32768

def pidAllocInit (buffer : Nat → Byte) : Option Bitmap :=
  bitmapSet (bitmapInit buffer pidMax) 0

/-- Take the smallest free PID; without one the result is negative. -/
def pidAlloc (pids : Bitmap) : Option (Int × Bitmap) := do
  let found ← bitmapFindFirstZero pids
  match found with
  | none => some (-1, pids)
  | some pid =>
    if pidMax ≤ pid then some (-1, pids)
    else do
      let pids ← bitmapSet pids pid
      some (pid, pids)

/-- Give a PID back; PID 0 and what is no PID are left alone. -/
def pidFree (pids : Bitmap) (pid : Int) : Option Bitmap :=
  if 0 < pid ∧ pid < pidMax then bitmapClear pids pid.toNat else some pids

def pidMarks (pids : Bitmap) : Set Int :=
  {pid | 0 ≤ pid ∧ pid < pidMax ∧ pids.marked pid.toNat = true}

theorem natCast_mem_pidMarks {pids : Bitmap} {i : Nat} :
    (i : Int) ∈ pidMarks pids ↔ i < pidMax ∧ pids.marked i = true := by
  simp [pidMarks]

theorem pidMarks_assign {pids after : Bitmap} {pid : Nat} {value : Bool} (small : pid < pidMax)
    (marks : ∀ i, after.marked i = if i = pid then value else pids.marked i) (other : Int) :
    other ∈ pidMarks after ↔
      if other = pid then value = true else other ∈ pidMarks pids := by
  -- Below the bound a PID and its bit are the same number.
  simp only [pidMarks, Set.mem_ofPred_eq, marks]
  by_cases same : other = pid
  · subst same
    simp [small]
  · rw [if_neg same]
    -- Two different PIDs have different bits.
    refine and_congr_right fun low => and_congr_right fun _ => ?_
    rw [if_neg (by omega)]

theorem pidAllocInit_spec (buffer : Nat → Byte) :
    ∃ pids, pidAllocInit buffer = some pids ∧ pids.nbits = pidMax ∧ pidMarks pids = {0} := by
  -- The buffer is zeroed before bit 0 is set.
  obtain ⟨pids, set, size, marks⟩ := bitmapSet_assigns (bitmapInit buffer pidMax) 0
    (by simp [bitmapInit, pidMax])
  refine ⟨pids, set, size, Set.ext fun pid => ?_⟩
  rw [pidMarks_assign (by decide) marks, Set.mem_singleton_iff]
  by_cases zero : pid = 0
  · simp [zero]
  · have clear : pid ∉ pidMarks (bitmapInit buffer pidMax) := by
      rintro ⟨low, high, marked⟩
      -- Every byte that holds a PID was cleared.
      have inside : pid.toNat / 8 < bitCntToByteCnt pidMax := by
        have bytes : bitCntToByteCnt pidMax = 4096 := by decide
        unfold pidMax at high
        omega
      simp [Bitmap.marked, bitmapInit, inside] at marked
    simp [zero, clear]

theorem pidAlloc_cases {pids : Bitmap} (sized : pids.nbits = pidMax) :
    (pidAlloc pids = some (-1, pids) ∧
      ∀ pid : Int, 0 ≤ pid → pid < pidMax → pid ∈ pidMarks pids) ∨
    ∃ (pid : Nat) (after : Bitmap), pidAlloc pids = some ((pid : Int), after) ∧ pid < pidMax ∧
      (pid : Int) ∉ pidMarks pids ∧ after.nbits = pidMax ∧
      ∀ other : Int, other ∈ pidMarks after ↔ other ∈ pidMarks pids ∨ other = pid := by
  -- The search finds a clear bit, or there is none.
  obtain ⟨found, searched⟩ : ∃ found, bitmapFindFirstZero pids = some found :=
    ⟨_, bitmapFindNextZero_eq pids 0⟩
  cases found with
  | none =>
    refine .inl ⟨by simp [pidAlloc, searched], fun pid low high => ⟨low, high, ?_⟩⟩
    exact bitmapFindNextZero_missing searched (Nat.zero_le _) (by omega)
  | some pid =>
    obtain ⟨_, small, free⟩ := bitmapFindNextZero_found searched
    rw [sized] at small
    obtain ⟨after, set, size, marks⟩ := bitmapSet_assigns pids pid (by omega)
    refine .inr ⟨pid, after, ?_, small, ?_, size.trans sized, fun other => ?_⟩
    · simp [pidAlloc, searched, set, small]
    · rw [natCast_mem_pidMarks, free]
      simp
    · rw [pidMarks_assign small marks]
      split <;> simp [*]

theorem pidFree_spec {pids : Bitmap} (sized : pids.nbits = pidMax) {pid : Nat} (positive : 0 < pid)
    (small : pid < pidMax) :
    ∃ after, pidFree pids pid = some after ∧ after.nbits = pidMax ∧
      ∀ other : Int, other ∈ pidMarks after ↔ other ∈ pidMarks pids ∧ other ≠ pid := by
  -- The guard against PID 0 does not apply.
  obtain ⟨after, cleared, size, marks⟩ := bitmapClear_assigns pids pid (by omega)
  refine ⟨after, ?_, size.trans sized, fun other => ?_⟩
  · rw [pidFree, if_pos (by omega), Int.toNat_natCast, cleared]
  · rw [pidMarks_assign small marks]
    split <;> simp [*]

end Ccos
