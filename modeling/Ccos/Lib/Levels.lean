import Mathlib.Algebra.BigOperators.Fin
import Mathlib.Data.List.Nodup

/-! Queues arranged in numbered levels, their total length, and the first task of the lowest
non-empty level. -/

namespace Ccos.Lib

abbrev Levels (count : Nat) (Task : Type*) := Fin count → List Task

namespace Levels

variable {count : Nat} {Task : Type*}

def size (levels : Levels count Task) : Nat :=
  ∑ level, (levels level).length

@[grind =] def Queued (levels : Levels count Task) (task : Task) : Prop :=
  ∃ level, task ∈ levels level

/-- Put a task at the front or at the back of one level. -/
def push (levels : Levels count Task) (level : Fin count) (task : Task) (front : Bool) :
    Levels count Task :=
  Function.update levels level (if front then task :: levels level else levels level ++ [task])

/-- The lowest level that is not empty. -/
def firstLevel? (levels : Levels count Task) : Option (Fin count) :=
  (List.finRange count).find? fun level => !(levels level).isEmpty

/-- The first task of the lowest level that is not empty. -/
def first? (levels : Levels count Task) : Option Task :=
  levels.firstLevel?.bind fun level => (levels level).head?

/-- Every task stands once, and only at the level that is assigned to it. -/
@[grind] structure Sorted (levels : Levels count Task) (levelOf : Task → Fin count) : Prop where
  placed : ∀ level, ∀ task ∈ levels level, level = levelOf task
  nodup : ∀ level, (levels level).Nodup

theorem size_eq_zero_iff (levels : Levels count Task) :
    levels.size = 0 ↔ ∀ level, levels level = [] := by
  simp [size]

/-- Replacing one level changes the total by the difference of its lengths. -/
theorem size_update (levels : Levels count Task) (level : Fin count) (queue : List Task) :
    size (Function.update levels level queue) + (levels level).length =
      levels.size + queue.length := by
  -- Both totals are the changed level plus the same sum over the others.
  have split (other : Levels count Task) :
      other.size = (other level).length + ∑ i ∈ Finset.univ.erase level, (other i).length :=
    (Finset.add_sum_erase Finset.univ (fun i => (other i).length) (Finset.mem_univ level)).symm
  have rest : ∑ i ∈ Finset.univ.erase level, (Function.update levels level queue i).length =
      ∑ i ∈ Finset.univ.erase level, (levels i).length := by
    refine Finset.sum_congr rfl fun i member => ?_
    rw [Function.update_of_ne (Finset.ne_of_mem_erase member)]
  grind

/-- Pushing a task adds one to the total. -/
theorem size_push (levels : Levels count Task) (level : Fin count) (task : Task) (front : Bool) :
    (levels.push level task front).size = levels.size + 1 := by
  have total := levels.size_update level (if front then task :: levels level
    else levels level ++ [task])
  rw [push]
  grind

variable {task : Task} {levels : Levels count Task} {level : Fin count}

/-- The tasks after a push are the old ones and the pushed one, at its level. -/
theorem mem_push {front : Bool} {at' : Fin count} {other : Task} :
    other ∈ levels.push level task front at' ↔ other ∈ levels at' ∨ at' = level ∧ other = task := by
  by_cases same : at' = level
  · subst same
    cases front <;> simp [push, or_comm]
  · simp [push, same]

variable {levelOf : Task → Fin count}

/-- A push at the level of a task that is not queued keeps the queues sorted. -/
theorem Sorted.push (sorted : levels.Sorted levelOf) (fresh : ¬levels.Queued task) (front : Bool) :
    (levels.push (levelOf task) task front).Sorted levelOf := by
  refine ⟨fun level other member => ?_, fun level => ?_⟩
  · rcases mem_push.mp member with old | ⟨rfl, rfl⟩
    · exact sorted.placed level other old
    · rfl
  · by_cases same : level = levelOf task
    · subst same
      have absent : task ∉ levels (levelOf task) := fun member => fresh ⟨_, member⟩
      cases front with
      | true => simpa [Levels.push] using ⟨absent, sorted.nodup _⟩
      | false =>
        simpa [Levels.push] using
          List.Nodup.append (sorted.nodup _) (List.nodup_singleton task) (by simpa using absent)
    · simpa [Levels.push, same] using sorted.nodup level

/-- The lowest non-empty level: it holds a task, and every lower level is empty. -/
theorem firstLevel?_eq_some (found : levels.firstLevel? = some level) :
    levels level ≠ [] ∧ ∀ lower < level, levels lower = [] := by
  obtain ⟨holds, i, bound, here, before⟩ := List.find?_eq_some_iff_getElem.mp found
  have position : i = level.val := by
    have := congrArg Fin.val here
    simpa using this
  refine ⟨by simpa using holds, fun lower below => ?_⟩
  have empty := before lower.val (by omega)
  simpa using empty

theorem firstLevel?_eq_none : levels.firstLevel? = none ↔ levels.size = 0 := by
  simp [firstLevel?, size_eq_zero_iff]

/-- The first task stands at the lowest non-empty level, which is the lowest level of any queued
task. -/
theorem Sorted.first? (sorted : levels.Sorted levelOf) (nonempty : levels.size ≠ 0) :
    ∃ level task rest, levels.firstLevel? = some level ∧ levels level = task :: rest ∧
      levels.first? = some task ∧
      ∀ other, levels.Queued other → levelOf task ≤ levelOf other := by
  cases found : levels.firstLevel? with
  | none => exact absurd (firstLevel?_eq_none.mp found) nonempty
  | some level =>
    obtain ⟨inhabited, lower⟩ := firstLevel?_eq_some found
    cases queue : levels level with
    | nil => exact absurd queue inhabited
    | cons task rest =>
      refine ⟨level, task, rest, rfl, queue, by simp [Levels.first?, found, queue], ?_⟩
      grind

variable [DecidableEq Task]

/-- Unlink a task from whichever level it is on. -/
def remove (levels : Levels count Task) (task : Task) : Levels count Task :=
  fun level => (levels level).erase task

theorem remove_of_not_queued (absent : ¬levels.Queued task) : levels.remove task = levels := by
  funext level
  exact List.erase_of_not_mem fun member => absent ⟨level, member⟩

/-- The tasks left after an unlinking. -/
theorem Sorted.mem_remove (sorted : levels.Sorted levelOf) {other : Task} :
    other ∈ levels.remove task level ↔ other ≠ task ∧ other ∈ levels level :=
  (sorted.nodup level).mem_erase_iff

/-- Unlinking keeps the queues sorted. -/
theorem Sorted.remove (sorted : levels.Sorted levelOf) (task : Task) :
    (levels.remove task).Sorted levelOf :=
  ⟨fun level other member => sorted.placed level other (sorted.mem_remove.mp member).2,
    fun level => (sorted.nodup level).erase task⟩

/-- Unlinking a queued task takes one from the total. -/
theorem Sorted.size_remove (sorted : levels.Sorted levelOf) (queued : levels.Queued task) :
    (levels.remove task).size + 1 = levels.size := by
  obtain ⟨level, member⟩ := queued
  -- Only the level of the task changes.
  have only : levels.remove task = Function.update levels level ((levels level).erase task) := by
    funext other
    by_cases same : other = level
    · subst same
      simp [Levels.remove]
    · rw [Function.update_of_ne same]
      refine List.erase_of_not_mem fun elsewhere => same ?_
      grind
  have total := levels.size_update level ((levels level).erase task)
  grind

end Levels

end Ccos.Lib
