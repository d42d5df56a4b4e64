import Ccos.Process.ThreadJoin

/-! The task that `schedule` switches away from: which runs never free it before. -/

namespace Ccos

open Lib

variable {Frames : Type} {ops : FrameOps Frames} {kernelPml4 : Nat} {grants : Grants}
  {kernel before : TaskKernel Frames}

/-- The kernel in which a call runs `schedule`, if it does. -/
def TaskCall.atSchedule (ops : FrameOps Frames) (kernelPml4 : Nat) (grants : Grants)
    (kernel : TaskKernel Frames) : TaskCall → Option (TaskKernel Frames)
  | .exit exitCode => (exitCurrent exitCode).finish kernel
  | .threadExit retval => (exitThread (taskServices ops kernelPml4 grants) retval).finish kernel
  | .wait4 pid _ _ => kernel.current.bind fun current =>
      if findZombie pid current kernel = some none then
        some (kernel.updatePcb current fun pcb => { pcb with state := .blocked })
      else none
  | .join tid retval => kernel.current.bind fun current =>
      match joinTarget tid kernel with
      | some (target, true) => some ((kernel.updatePcb current fun pcb =>
          { pcb with state := .blocked }).updateTable fun table =>
            { table with joining := table.joining ++ [⟨current, target, retval⟩] })
      | _ => none
  | .schedule => some kernel
  | _ => none

def TaskCall.endsDetached (kernel : TaskKernel Frames) : TaskCall → Bool
  | .threadExit _ => kernel.current.any fun current => (kernel.pcb current).detached
  | _ => false

/-- Where a call comes to `schedule`, the task that made the call is current, and it is freed if it
is a detached thread that exits. -/
theorem TaskCall.atSchedule_current {call : TaskCall}
    (scheduled : call.atSchedule ops kernelPml4 grants kernel = some before) :
    before.current = kernel.current ∧ before.table.pcbs =
      if call.endsDetached kernel then kernel.current.elim kernel.table.pcbs kernel.table.pcbs.erase
      else kernel.table.pcbs := by
  cases call with
  | exit exitCode =>
    obtain ⟨current, now, same⟩ := (exitCurrent_tasks exitCode).finishes scheduled
    rw [TaskView.exited_eq] at same
    exact ⟨congrArg TaskView.current same, congrArg TaskView.pcbs same⟩
  | threadExit retval =>
    obtain ⟨current, now, same⟩ := (exitThread_tasks retval).finishes scheduled
    simp only [TaskCall.endsDetached, now, Option.any_some, Option.elim_some]
    have gone := kernel.tasks.threadExited_eq current retval
    cases detached : (kernel.pcb current).detached with
    | true =>
      rw [detached, if_pos rfl, gone] at same
      exact ⟨(congrArg TaskView.current same).trans now, congrArg TaskView.pcbs same⟩
    | false =>
      rw [detached, if_neg nofun] at same
      split at same
      · -- Waking the joiners frees no task.
        have woken := (kernel.tasks.threadExited current retval).wakeJoiners_restated current
        have runs := (kernel.tasks.threadExited current retval).wakeJoiners_current current
        rw [gone] at woken runs same
        exact ⟨(congrArg TaskView.current same).trans (runs.trans now),
          (congrArg TaskView.pcbs same).trans woken.pcbs⟩
      · rw [gone] at same
        exact ⟨(congrArg TaskView.current same).trans now, congrArg TaskView.pcbs same⟩
  | wait4 pid wstatus options =>
    obtain ⟨current, now, found⟩ := Option.bind_eq_some_iff.mp scheduled
    split at found
    · obtain rfl := Option.some.inj found
      exact ⟨rfl, rfl⟩
    · cases found
  | join tid retval =>
    obtain ⟨current, now, found⟩ := Option.bind_eq_some_iff.mp scheduled
    split at found
    · obtain rfl := Option.some.inj found
      exact ⟨rfl, rfl⟩
    · cases found
  | schedule =>
    obtain rfl := Option.some.inj scheduled
    exact ⟨rfl, rfl⟩
  | _ => cases scheduled

/-- In every run in which no other task than a zombie is freed, the task that is current when a call
comes to `schedule` is not freed, unless the call is the exit of a detached thread. -/
theorem schedule_current_live {buffer : Nat → Byte} {pids : Bitmap} {boot last : TaskKernel Frames}
    {actions : List (TaskCall × Grants)} (started : pidAllocInit buffer = some pids)
    (run : Run (Kernel.SafeSteps ops kernelPml4) (boot.procInit pids) actions last)
    {call : TaskCall} (scheduled : call.atSchedule ops kernelPml4 grants last = some before) :
    (∀ current, before.current = some current → current ∈ before.table.pcbs) ↔
      call.endsDetached last = false := by
  have orderly := run.preserves (fun kernel => kernel.tasks.Orderly)
    (fun _ _ _ taken orderly => taken.orderly orderly) (procInit_orderly boot started)
  obtain ⟨same, pcbs⟩ := TaskCall.atSchedule_current scheduled
  rw [same, pcbs]
  cases detached : call.endsDetached last with
  | false =>
    refine ⟨fun _ => rfl, fun _ current now => ?_⟩
    exact (orderly.runs current now).1
  | true =>
    refine ⟨fun live => ?_, nofun⟩
    -- A detached thread that exits is current and has just been freed.
    cases call with
    | threadExit retval =>
      obtain ⟨current, now, _⟩ := (Option.any_eq_true _ _).mp detached
      have member := live current now
      rw [now] at member
      exact absurd member orderly.blocks.not_mem_erase
    | _ => cases detached

/-- A process that waits for its thread comes to `schedule` as the current task and is not freed. -/
theorem schedule_current_live_join :
    ∃ last before, Run (Kernel.SafeSteps pframeOps 0x5000) (bootKernel.procInit bootPids) threadStarts
        last ∧
      TaskCall.atSchedule pframeOps 0x5000 ⟨none, true, none⟩ last (.join 3 0x8000) = some before ∧
      before.current = some 0x2000 ∧ 0x2000 ∈ before.table.pcbs := by
  obtain ⟨last, run, comes⟩ : ∃ last, Run (Kernel.SafeSteps pframeOps 0x5000)
      (bootKernel.procInit bootPids) threadStarts last ∧
      ((TaskCall.atSchedule pframeOps 0x5000 ⟨none, true, none⟩ last (.join 3 0x8000)).any fun before =>
        before.current = some 0x2000) :=
    Kernel.Steps.of_any (by decide +kernel)
  obtain ⟨before, scheduled, now⟩ := (Option.any_eq_true _ _).mp comes
  have now := of_decide_eq_true now
  exact ⟨last, before, run, scheduled, now,
    (schedule_current_live (Option.some_get _).symm run scheduled).mpr rfl _ now⟩

/-- A detached thread that exits comes to `schedule` as the current task and is freed. -/
theorem schedule_current_freed :
    ∃ last, Run (Kernel.SafeSteps pframeOps 0x5000) (bootKernel.procInit bootPids)
        (threadStarts ++ [(.detach 3, ⟨none, true, none⟩), (.schedule, ⟨none, true, some 0x3000⟩)])
        last ∧
      (TaskCall.atSchedule pframeOps 0x5000 ⟨none, true, some 0x2000⟩ last (.threadExit 5)).any
        fun before => before.current = some 0x3000 ∧ 0x3000 ∉ before.table.pcbs :=
  Kernel.Steps.of_any (by decide +kernel)

end Ccos
