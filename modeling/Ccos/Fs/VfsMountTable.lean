import Mathlib.Data.List.GetD
import Ccos.Lib.Buffer

/-! The mount table in `fs/vfs/vfs_mount.c`: the mount that a path belongs to. -/

namespace Ccos

open Lib

/-- A mount: its superblock and `m_path`. -/
structure MountPoint where
  sb : Nat
  path : CString

/-- Compare at most `n` characters of two strings, whose ends read as NUL. -/
def strncmp (s1 s2 : List UInt8) (n : Nat) : Int :=
  Id.run (strncmpAt (fun i => pure (s1.getD i 0).toNat) 0 s2 n)

/-- The mount with the longest `m_path` that the path starts with. -/
def vfsGetMount (mounts : List MountPoint) (path : CString) : Option MountPoint :=
  (mounts.foldl (fun (best : Option MountPoint × Nat) mount =>
    let len := mount.path.chars.length
    if best.2 < len ∧ strncmp path.chars mount.path.chars len = 0 then (some mount, len) else best)
    (none, 0)).1

/-- A mount path is above a path or equal to it, component by component. -/
def Above (mount path : CString) : Prop :=
  mount.chars = path.chars ∨ mount.chars ++ [47] <+: path.chars ∨ mount.chars = [47]

/-- What is looked for: a mount with the longest path above the given one. -/
def Covers (mounts : List MountPoint) (path : CString) : Option MountPoint → Prop
  | none => ∀ mount ∈ mounts, ¬Above mount.path path
  | some found => found ∈ mounts ∧ Above found.path path ∧ ∀ mount ∈ mounts, Above mount.path path →
      mount.path.chars.length ≤ found.path.chars.length

variable {mounts : List MountPoint} {path : CString} {mount : MountPoint}

theorem strncmp_eq_zero {s1 s2 : List UInt8} (plain : 0 ∉ s2) :
    strncmp s1 s2 s2.length = 0 ↔ s2 <+: s1 := by
  -- The comparison goes on from any place of the first string as from its start.
  suffices ∀ offset, Id.run (strncmpAt (fun i => pure (s1.getD i 0).toNat) offset s2 s2.length) = 0 ↔
      s2 <+: s1.drop offset from this 0
  induction s2 with
  | nil => simp [strncmpAt]
  | cons other rest ih =>
    intro offset
    obtain ⟨visible, later⟩ := not_or.mp (List.mem_cons.not.mp plain)
    have positive := UInt8.toNat_inj.not.mpr visible
    rw [List.length_cons, strncmpAt, pure_bind, List.headD_cons, List.tail_cons]
    by_cases inside : offset < s1.length
    · rw [List.drop_eq_getElem_cons inside, List.cons_prefix_cons, List.getD_eq_getElem s1 0 inside]
      by_cases same : s1[offset] = other
      · rw [same, if_pos ⟨Ne.symm positive, rfl⟩, ih later]
        exact (and_iff_right rfl).symm
      · have differ := UInt8.toNat_inj.not.mpr same
        rw [if_neg fun both => differ both.2]
        exact iff_of_false (fun zero => differ (Int.ofNat_inj.mp (Int.sub_eq_zero.mp zero)))
          fun starts => same starts.1.symm
    · -- The first string has ended, and the second one goes on.
      rw [List.getD_eq_default s1 0 (by omega), List.drop_of_length_le (by omega),
        if_neg fun both => both.1 rfl]
      exact iff_of_false (fun zero => positive (Int.ofNat_inj.mp (Int.sub_eq_zero.mp zero)))
        (List.cons_ne_nil other rest ∘ List.prefix_nil.mp)

/-- The path of the mount that was found, or nothing. -/
def foundLength : Option MountPoint → Nat
  | none => 0
  | some mount => mount.path.chars.length

theorem vfsGetMount_spec (mounts : List MountPoint) (path : CString) :
    (∀ mount, vfsGetMount mounts path = some mount →
      mount ∈ mounts ∧ mount.path.chars <+: path.chars) ∧
    ∀ mount ∈ mounts, mount.path.chars <+: path.chars →
      mount.path.chars.length ≤ foundLength (vfsGetMount mounts path) := by
  -- The invariant of the loop speaks of the mounts that it has passed.
  suffices ∀ (rest seen : List MountPoint) (best : Option MountPoint × Nat),
      best.2 = foundLength best.1 →
      (∀ mount, best.1 = some mount → mount ∈ seen ∧ mount.path.chars <+: path.chars) →
      (∀ mount ∈ seen, mount.path.chars <+: path.chars → mount.path.chars.length ≤ best.2) →
      ∀ last, rest.foldl (fun (best : Option MountPoint × Nat) mount =>
        let len := mount.path.chars.length
        if best.2 < len ∧ strncmp path.chars mount.path.chars len = 0 then (some mount, len)
        else best) best = last →
      (∀ mount, last.1 = some mount → mount ∈ seen ++ rest ∧ mount.path.chars <+: path.chars) ∧
      ∀ mount ∈ seen ++ rest, mount.path.chars <+: path.chars →
        mount.path.chars.length ≤ foundLength last.1 from
    this mounts [] (none, 0) rfl (by simp) (by simp) _ rfl
  intro rest
  induction rest with
  | nil =>
    rintro seen best long sound longest last rfl
    simp only [List.append_nil, List.foldl_nil, ← long]
    exact ⟨sound, longest⟩
  | cons mount rest ih =>
    intro seen best long sound longest last walked
    have matched := @strncmp_eq_zero path.chars _ mount.path.noNul
    rw [List.foldl_cons] at walked
    have next := ih (seen ++ [mount]) _ ?_ ?_ ?_ last walked
    · simpa using next
    · grind [foundLength]
    · grind [foundLength]
    · grind [foundLength]

/-- The mount is the right one exactly if every mount path that the path starts with, but that is not
above it, is shorter than one that is above it. -/
theorem vfsGetMount_covers_iff (rooted : ∀ mount ∈ mounts, mount.path.chars.head? = some 47)
    (absolute : path.chars.head? = some 47) :
    Covers mounts path (vfsGetMount mounts path) ↔
      ∀ mount ∈ mounts, mount.path.chars <+: path.chars → ¬Above mount.path path →
        ∃ longer ∈ mounts, Above longer.path path ∧
          mount.path.chars.length < longer.path.chars.length := by
  have starts {mount : CString} (above : Above mount path) : mount.chars <+: path.chars := by
    rcases above with same | inside | root
    · exact same ▸ List.prefix_rfl
    · exact (List.prefix_append _ _).trans inside
    · obtain ⟨rest, whole⟩ := List.head?_eq_some_iff.mp absolute
      exact ⟨rest, by rw [root, whole]; rfl⟩
  obtain ⟨sound, longest⟩ := vfsGetMount_spec mounts path
  cases found : vfsGetMount mounts path with
  | none =>
    -- No mount path is empty, so the path starts with none of them.
    have unmatched (mount : MountPoint) (member : mount ∈ mounts) :
        ¬mount.path.chars <+: path.chars := fun matched => by
      obtain ⟨rest, whole⟩ := List.head?_eq_some_iff.mp (rooted mount member)
      have short := longest mount member matched
      simp [found, foundLength, whole] at short
    exact ⟨fun _ mount member matched => absurd matched (unmatched mount member),
      fun _ mount member above => unmatched mount member (starts above)⟩
  | some best =>
    obtain ⟨member, matched⟩ := sound best found
    rw [found] at longest
    constructor
    · rintro ⟨_, above, _⟩ mount listed matched' below
      refine ⟨best, member, above, Nat.lt_of_le_of_ne (longest mount listed matched') fun same => ?_⟩
      -- Two initial segments of one length are equal.
      have equal := (List.prefix_of_prefix_length_le matched' matched same.le).eq_of_length same
      exact below (by rwa [Above, equal])
    · intro covered
      refine ⟨member, ?_, fun mount listed above => longest mount listed (starts above)⟩
      by_contra below
      obtain ⟨longer, listed, above, longer'⟩ := covered best member matched below
      exact absurd (longest longer listed (starts above)) (Nat.not_le.mpr longer')

/-- The mounts `/` and `/ab`, and the path `/ab/c`. -/
theorem vfsGetMount_covers_iff_deeper :
    Covers [⟨8, ⟨[47], by decide⟩⟩, ⟨16, ⟨[47, 97, 98], by decide⟩⟩]
      ⟨[47, 97, 98, 47, 99], by decide⟩ (vfsGetMount
        [⟨8, ⟨[47], by decide⟩⟩, ⟨16, ⟨[47, 97, 98], by decide⟩⟩] ⟨[47, 97, 98, 47, 99], by decide⟩) :=
  (vfsGetMount_covers_iff (by simp) rfl).mpr (by simp [Above])

/-- The path `/abc` is taken for one below the mount `/ab`. -/
theorem vfsGetMount_crosses :
    (vfsGetMount [⟨8, ⟨[47], by decide⟩⟩, ⟨16, ⟨[47, 97, 98], by decide⟩⟩]
      ⟨[47, 97, 98, 99], by decide⟩).map MountPoint.sb = some 16 ∧
    ¬Above ⟨[47, 97, 98], by decide⟩ ⟨[47, 97, 98, 99], by decide⟩ := by
  refine ⟨by decide, by simp [Above]⟩

end Ccos
