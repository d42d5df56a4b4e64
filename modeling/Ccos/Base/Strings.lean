import Ccos.Lib.Buffer

/-! The bounded string functions of `base/string.c`. -/

namespace Ccos

open Lib

/-- A character of a string, whose end reads as NUL. -/
def Lib.CString.at (string : CString) (i : Nat) : UInt8 :=
  string.chars.getD i 0

/-- The stores of `strncpy` from an index on, each with the byte stored. -/
def strncpyFrom (src : CString) (d : Nat) : (n : Nat) → List (Nat × UInt8)
  -- A character is copied before the count is looked at.
  | 0 => [(d, src.at d)]
  | n + 1 => (d, src.at d) :: if src.at d ≠ 0 then strncpyFrom src (d + 1) n else []

def strncpy (dest : ByteMem) (src : CString) (n : Nat) : ByteMem :=
  (strncpyFrom src 0 n).foldl (fun mem store => Function.update mem store.1 store.2) dest

/-- Where `strnlen` gets to from an index, with the indices it reads on the way. -/
def strnlenFrom (s : CString) (index : Nat) : (maxlen : Nat) → Nat × List Nat
  | 0 => (index, [index])
  | maxlen + 1 =>
    if s.at index ≠ 0 then
      let (last, reads) := strnlenFrom s (index + 1) maxlen
      (last, index :: reads)
    else (index, [index])

/-- What a bounded copy is for: the first bytes hold the string and then NUL, and no other byte is
written. -/
structure StrncpyContract (dest : ByteMem) (src : CString) (n : Nat) : Prop where
  inside : ∀ store ∈ strncpyFrom src 0 n, store.1 < n
  filled : ∀ i < n, strncpy dest src n i = src.at i

/-- What a bounded length is for: it does not depend on bytes behind the bound. -/
structure StrnlenContract (s : CString) (n : Nat) : Prop where
  inside : ∀ index ∈ (strnlenFrom s 0 n).2, index < n
  length : (strnlenFrom s 0 n).1 = min n s.chars.length

theorem Lib.CString.at_ne_zero (string : CString) {i : Nat} :
    string.at i ≠ 0 ↔ i < string.chars.length := by
  have noNul := string.noNul
  grind [CString.at]

/-- A loop that tests the character before the count goes on to the NUL or to one index behind the
bound. -/
theorem range_visited (string : CString) (d n : Nat) :
    List.range' d (min (n + 1) (string.chars.length - d) + 1) =
      d :: if string.at d ≠ 0 then List.range' (d + 1) (min n (string.chars.length - (d + 1)) + 1)
        else [] := by
  rw [List.range'_succ]
  split
  · rename_i more
    rw [CString.at_ne_zero] at more
    rw [show min (n + 1) (string.chars.length - d) =
      min n (string.chars.length - (d + 1)) + 1 by omega]
  · rename_i last
    rw [CString.at_ne_zero, not_lt] at last
    rw [Nat.sub_eq_zero_of_le last, Nat.min_zero, List.range'_zero]

theorem strncpyFrom_eq (src : CString) (d n : Nat) : strncpyFrom src d n =
    (List.range' d (min n (src.chars.length - d) + 1)).map fun i => (i, src.at i) := by
  induction n generalizing d with
  | zero => simp [strncpyFrom]
  | succ n ih =>
    rw [strncpyFrom, ih, range_visited, List.map_cons]
    split <;> rfl

theorem strnlenFrom_eq (s : CString) (index n : Nat) : strnlenFrom s index n =
    (index + min n (s.chars.length - index),
      List.range' index (min n (s.chars.length - index) + 1)) := by
  induction n generalizing index with
  | zero => simp [strnlenFrom]
  | succ n ih =>
    have visible := @CString.at_ne_zero s index
    rw [strnlenFrom, ih, range_visited]
    split
    · rename_i more
      exact Prod.ext (by have := visible.mp more; simp only; omega) rfl
    · rename_i last
      exact Prod.ext (by have := visible.not.mp last; simp only; omega) rfl

/-- Bytes that are stored one behind the other. -/
theorem foldl_stores (mem : ByteMem) (byte : Nat → UInt8) (d count i : Nat) :
    ((List.range' d count).map fun i => (i, byte i)).foldl
        (fun mem store => Function.update mem store.1 store.2) mem i =
      if d ≤ i ∧ i < d + count then byte i else mem i := by
  induction count generalizing d mem with
  | zero => simp
  | succ count ih =>
    rw [List.range'_succ, List.map_cons, List.foldl_cons, ih, Function.update_apply]
    grind

/-- A bounded copy writes a byte behind the bound unless the string is shorter, and it fills nothing. -/
theorem strncpyContract_iff {dest : ByteMem} {src : CString} {n : Nat} :
    StrncpyContract dest src n ↔
      src.chars.length < n ∧ ∀ i < n, src.chars.length < i → dest i = 0 := by
  have copied (i : Nat) : strncpy dest src n i =
      if i < min n src.chars.length + 1 then src.at i else dest i := by
    simp [strncpy, strncpyFrom_eq, foldl_stores]
  have stores := strncpyFrom_eq src 0 n
  constructor
  · rintro ⟨inside, filled⟩
    have last := inside (min n src.chars.length, src.at (min n src.chars.length)) (by simp [stores])
    refine ⟨by omega, fun i below behind => ?_⟩
    have kept := filled i below
    rw [copied, if_neg (by omega)] at kept
    rw [kept]
    exact not_not.mp (src.at_ne_zero.not.mpr (by omega))
  · rintro ⟨short, clear⟩
    refine ⟨fun store member => ?_, fun i below => ?_⟩
    · obtain ⟨i, index, rfl⟩ := List.mem_map.mp (stores ▸ member)
      rw [List.mem_range'_1] at index
      omega
    · rw [copied]
      split
      · rfl
      · rw [clear i below (by omega), not_not.mp (src.at_ne_zero.not.mpr (by omega))]

theorem strnlenContract_iff {s : CString} {n : Nat} : StrnlenContract s n ↔ s.chars.length < n := by
  have scanned := strnlenFrom_eq s 0 n
  constructor
  · rintro ⟨inside, _⟩
    have last := inside (min n s.chars.length) (by simp [scanned])
    omega
  · intro short
    refine ⟨fun index member => ?_, by simp [scanned]⟩
    rw [scanned, List.mem_range'_1] at member
    omega

/-- Both functions keep to their contracts exactly for strings shorter than the bound, the copy only
into bytes that are NUL behind the string. -/
theorem bounded_strings_iff (dest : ByteMem) (src s : CString) (n : Nat) :
    StrncpyContract dest src n ∧ StrnlenContract s n ↔
      (src.chars.length < n ∧ ∀ i < n, src.chars.length < i → dest i = 0) ∧ s.chars.length < n :=
  and_congr strncpyContract_iff strnlenContract_iff

/-- A string of three characters is copied to four bytes when three are asked for. -/
theorem bounded_strings_fail :
    ¬∀ dest src s n, StrncpyContract dest src n ∧ StrnlenContract s n := by
  intro contracts
  have inside := (contracts (fun _ => 0) ⟨[97, 98, 99], by decide⟩ ⟨[], by decide⟩ 3).1.inside
  exact absurd (inside (3, 0) (by decide)) (by decide)

end Ccos
