import Mathlib.Logic.Relation

/-! Finite runs of a labelled transition system and the invariants they carry. -/

namespace Ccos.Lib

variable {State Action : Type*}

/-- A finite run: each action takes the state before it to the state after it. -/
inductive Run (step : State → Action → State → Prop) : State → List Action → State → Prop
  | nil (state : State) : Run step state [] state
  | cons {first second last : State} {action : Action} {rest : List Action}
      (taken : step first action second) (remaining : Run step second rest last) :
      Run step first (action :: rest) last

variable {last first : State} {step : State → Action → State → Prop} {actions : List Action}

/-- What every step preserves, every run preserves. -/
theorem Run.preserves (inv : State → Prop)
    (kept : ∀ first action second, step first action second → inv first → inv second)
    (run : Run step first actions last) (start : inv first) : inv last := by
  induction run with
  | nil => exact start
  | cons taken _ ih => exact ih (kept _ _ _ taken start)

/-- A run is a run of every system that has its steps. -/
theorem Run.imp {other : State → Action → State → Prop}
    (sub : ∀ first action second, step first action second → other first action second)
    (run : Run step first actions last) : Run other first actions last := by
  induction run with
  | nil state => exact .nil state
  | cons taken _ ih => exact .cons (sub _ _ _ taken) ih

/-- A run goes on with another one. -/
theorem Run.append {middle : State} {more : List Action} (run : Run step first actions middle)
    (rest : Run step middle more last) : Run step first (actions ++ more) last := by
  induction run with
  | nil => exact rest
  | cons taken _ ih => exact .cons taken (ih rest)

variable {perform : State → Action → Option State}

/-- Performing a list of actions one after the other is a run, if each action performed is a step. -/
theorem Run.of_foldlM
    (sound : ∀ first action second, perform first action = some second → step first action second)
    (done : actions.foldlM perform first = some last) : Run step first actions last := by
  induction actions generalizing first with
  | nil =>
    obtain rfl : first = last := by simpa using done
    exact .nil first
  | cons action rest ih =>
    simp only [List.foldlM_cons, Option.bind_eq_bind, Option.bind_eq_some_iff] at done
    obtain ⟨second, taken, remaining⟩ := done
    exact .cons (sound _ _ _ taken) (ih remaining)

/-- The steps of actions that are performed. -/
abbrev Performs (perform : State → Action → Option State) (before : State) (action : Action)
    (after : State) : Prop :=
  perform before action = some after

section Evaluation

variable {goal : State → Prop}

/-- Evaluating a list of actions shows a run to a state, and what is decided there may lead to more. -/
theorem Run.exists_by (facts : State → Prop) [DecidablePred facts]
    (reached : (actions.foldlM perform first).any fun last => facts last)
    (next : ∀ last, Run (Performs perform) first actions last → facts last → goal last) :
    ∃ last, Run (Performs perform) first actions last ∧ goal last := by
  obtain ⟨last, done, holds⟩ := (Option.any_eq_true _ _).mp reached
  have run : Run (Performs perform) first actions last := Run.of_foldlM (fun _ _ _ => id) done
  exact ⟨last, run, next last run (of_decide_eq_true holds)⟩

theorem Run.exists_of_any [DecidablePred goal]
    (reached : (actions.foldlM perform first).any fun last => goal last) :
    ∃ last, Run (Performs perform) first actions last ∧ goal last :=
  Run.exists_by goal reached fun _ _ => id

variable {ok : State → Action → Prop} [∀ state action, Decidable (ok state action)]

/-- Evaluating actions and a condition on each shows a run whose steps all meet the condition. -/
theorem Run.exists_by_if (facts : State → Prop) [DecidablePred facts]
    (reached : (actions.foldlM (fun state action =>
      if ok state action then perform state action else none) first).any fun last => facts last)
    (next : ∀ last, Run (fun before action after => ok before action ∧
      perform before action = some after) first actions last → facts last → goal last) :
    ∃ last, Run (fun before action after => ok before action ∧ perform before action = some after)
      first actions last ∧ goal last := by
  obtain ⟨last, done, holds⟩ := (Option.any_eq_true _ _).mp reached
  have run : Run (fun before action after => ok before action ∧ perform before action = some after)
      first actions last := by
    refine Run.of_foldlM (fun first action second taken => ?_) done
    split at taken
    · rename_i met
      exact ⟨met, taken⟩
    · cases taken
  exact ⟨last, run, next last run (of_decide_eq_true holds)⟩

theorem Run.exists_of_any_if [DecidablePred goal] (reached : (actions.foldlM (fun state action =>
      if ok state action then perform state action else none) first).any fun last => goal last) :
    ∃ last, Run (fun before action after => ok before action ∧ perform before action = some after)
      first actions last ∧ goal last :=
  Run.exists_by_if goal reached fun _ _ => id

end Evaluation

end Ccos.Lib
