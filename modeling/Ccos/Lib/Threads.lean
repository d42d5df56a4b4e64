import Ccos.Lib.Run
import Mathlib.Algebra.BigOperators.Group.Finset.Piecewise
import Mathlib.Algebra.Order.BigOperators.Group.Finset

/-! Tasks that take turns on a shared state, and what their local states add up to. -/

namespace Ccos.Lib

/-- A shared state and the local state of each task. -/
structure Threads (Task Shared Own : Type*) where
  shared : Shared
  own : Task → Own

/-- What a task can do next: start a call, go on in its call, or return early from a wait. -/
inductive Move (Call : Type*)
  | call (call : Call)
  | next
  | back
  deriving DecidableEq, Repr

section Steps

variable {Task Shared Own Choice : Type*} [DecidableEq Task]

/-- One step of one task: its code reads and writes the shared state and its own state. -/
def Threads.perform (code : Task → Choice → Shared → Own → Option (Shared × Own))
    (threads : Threads Task Shared Own) (action : Task × Choice) :
    Option (Threads Task Shared Own) :=
  (code action.1 action.2 threads.shared (threads.own action.1)).map fun after =>
    ⟨after.1, Function.update threads.own action.1 after.2⟩

variable {after threads : Threads Task Shared Own}
  {code : Task → Choice → Shared → Own → Option (Shared × Own)} {action : Task × Choice}

/-- A step changes the shared state and the state of the task that takes it. -/
theorem Threads.perform_eq_some (done : threads.perform code action = some after) :
    ∃ shared own, code action.1 action.2 threads.shared (threads.own action.1) =
      some (shared, own) ∧ after = ⟨shared, Function.update threads.own action.1 own⟩ := by
  obtain ⟨⟨shared, own⟩, taken, rfl⟩ := Option.map_eq_some_iff.mp done
  exact ⟨shared, own, taken, rfl⟩

end Steps

section Totals

variable {Task Own : Type*} {weight : Own → Nat} {own : Task → Own} {total : Nat}

/-- The weights of the local states of all tasks add up to a total. -/
@[grind =] def Totals (weight : Own → Nat) (own : Task → Own) (total : Nat) : Prop :=
  ∃ tasks : Finset Task, (∀ task ∉ tasks, weight (own task) = 0) ∧
    ∑ task ∈ tasks, weight (own task) = total

theorem Totals.zero (weightless : ∀ task, weight (own task) = 0) : Totals weight own 0 :=
  ⟨∅, fun task _ => weightless task, rfl⟩

/-- A task weighs no more than all tasks together. -/
theorem Totals.le (sum : Totals weight own total) (task : Task) : weight (own task) ≤ total := by
  -- A task outside the finite set weighs nothing.
  obtain ⟨tasks, outside, rfl⟩ := sum
  by_cases member : task ∈ tasks
  · exact Finset.single_le_sum (f := fun task => weight (own task)) (fun _ _ => Nat.zero_le _) member
  · rw [outside task member]
    exact Nat.zero_le _

variable [DecidableEq Task] {task : Task}

/-- A change of one local state changes the total by the difference of its weights. -/
theorem Totals.update (sum : Totals weight own total) {after : Own} {changed : Nat}
    (same : changed + weight (own task) = total + weight after) :
    Totals weight (Function.update own task after) changed := by
  -- The task joins the finite set that carries the sum, and its summand is split off.
  obtain ⟨tasks, outside, rfl⟩ := sum
  have member : task ∈ insert task tasks := Finset.mem_insert_self _ _
  have split : ∑ other ∈ insert task tasks, weight (own other) =
      ∑ other ∈ tasks, weight (own other) :=
    (Finset.sum_subset (Finset.subset_insert _ _) fun other _ absent => outside other absent).symm
  refine ⟨insert task tasks, fun other absent => ?_, ?_⟩
  · grind
  · rw [← Finset.add_sum_erase _ _ member] at split ⊢
    have rest : ∑ other ∈ (insert task tasks).erase task,
        weight (Function.update own task after other) =
        ∑ other ∈ (insert task tasks).erase task, weight (own other) :=
      Finset.sum_congr rfl fun other inside => by
        rw [Function.update_of_ne (Finset.ne_of_mem_erase inside)]
    rw [rest, Function.update_self]
    omega

/-- Two tasks weigh no more than all tasks together. -/
theorem Totals.add_le (sum : Totals weight own total) {other : Task} (apart : task ≠ other) :
    weight (own task) + weight (own other) ≤ total := by
  -- Inside the finite set the two are different summands.
  obtain ⟨tasks, outside, rfl⟩ := sum
  by_cases first : task ∈ tasks
  · by_cases second : other ∈ tasks
    · rw [← Finset.add_sum_erase _ _ first]
      refine Nat.add_le_add_left (Finset.single_le_sum (f := fun task => weight (own task))
        (fun _ _ => Nat.zero_le _) (Finset.mem_erase.mpr ⟨apart.symm, second⟩)) _
    · rw [outside other second]
      exact Totals.le ⟨tasks, outside, rfl⟩ task
  · rw [outside task first, Nat.zero_add]
    exact Totals.le ⟨tasks, outside, rfl⟩ other

end Totals

end Ccos.Lib
