import Ccos.Syscall.Table

/-! Where the system calls store through the pointers of their callers. -/

namespace Ccos

open Lib Lib.Logged

variable {Alloc : Type} {services : Services Alloc}

/-- Every byte of a store is inside the user addresses. -/
def UserStore.InUserSpace (store : UserStore) : Prop :=
  ∀ i < store.bytes.length, userBase ≤ wrap64 (store.addr + i) ∧ wrap64 (store.addr + i) < userEnd

theorem UserStore.inUserSpace_of_range {store : UserStore} (low : userBase ≤ store.addr)
    (high : store.addr + store.bytes.length ≤ userEnd) : store.InUserSpace := by
  intro i small
  have bound : store.addr + i < 2 ^ 64 := by
    unfold userEnd at high
    omega
  rw [wrap64_of_lt bound]
  omega

theorem UserStore.InUserSpace.range {store : UserStore} (inside : store.InUserSpace)
    (word : store.addr < 2 ^ 64) (nonempty : 0 < store.bytes.length)
    (small : store.bytes.length < 2 ^ 32) :
    userBase ≤ store.addr ∧ store.addr + store.bytes.length ≤ userEnd := by
  have first := inside 0 nonempty
  rw [Nat.add_zero, wrap64_of_lt word] at first
  have last := inside (store.bytes.length - 1) (by omega)
  rw [wrap64_of_lt (by unfold userEnd at first; omega)] at last
  omega

theorem userValidatePointer_range {addr size : Nat} {write : Bool} (small : size < 2 ^ 32)
    (valid : userValidatePointer addr size write = true) :
    userBase ≤ addr ∧ addr + size ≤ userEnd := by
  unfold userValidatePointer at valid
  split at valid
  · cases valid
  rename_i user
  simp only [Bool.not_eq_true', Bool.not_eq_false, vmmIsUserAddr, Bool.and_eq_true,
    decide_eq_true_eq] at user
  have bound : addr + size < 2 ^ 64 := by
    have := user.2
    unfold userEnd at this
    omega
  rw [wrap64_of_lt bound] at valid
  split at valid
  · cases valid
  split at valid
  · cases valid
  · exact ⟨user.1, by omega⟩

section Silent

theorem procCurrent_silent : Silent (procCurrent : KernelCall Alloc (Option Nat)) :=
  Silent.read.bind fun _ => .pure _

/-- A call is silent if it is without a current task and with any. -/
theorem currentCall_silent {Result : Type} {rest : Option Nat → KernelCall Alloc Result}
    (idle : (rest none).Silent) (busy : ∀ current, (rest (some current)).Silent) :
    (procCurrent >>= rest).Silent :=
  procCurrent_silent.bind fun
    | none => idle
    | some current => busy current

theorem onPages_silent {Result : Type}
    (action : PageState Alloc → Option (Result × PageState Alloc)) : (onPages action).Silent :=
  .act _

theorem service_silent {Result : Type} (action : Kernel Alloc → Result × Kernel Alloc) :
    (service action).Silent :=
  .act _

theorem freeUserStack_silent (thread : Nat) : (freeUserStack services thread).Silent :=
  Silent.read.bind fun _ => onPages_silent _

theorem procFork_silent : (procFork services).Silent := by
  refine currentCall_silent (.pure _) fun parent => ?_
  refine (Silent.act _).bind fun child => ?_
  cases child with
  | none => exact .pure _
  | some child =>
    refine (service_silent _).bind fun pid => .changed ?_
    split
    · exact (Silent.act _).bind fun _ => .pure _
    · refine .changed ((service_silent _).bind fun pml4 => ?_)
      cases pml4 with
      | none => exact .changed ((Silent.act _).bind fun _ => .pure _)
      | some pml4 => exact .changed (.changed (.changed (procCurrent_silent.bind fun _ => .pure _)))

theorem procExit_silent (exitCode : Int) : (procExit services exitCode).Silent := by
  refine Silent.bind (currentCall_silent .stop fun current => ?_) fun _ =>
    (Silent.act _).bind fun _ => .stop
  exact .changed (.changed (.change _))

theorem giveThreadStack_silent (parent thread stackAddr stackSize : Nat) :
    (giveThreadStack services parent thread stackAddr stackSize).Silent := by
  unfold giveThreadStack
  split
  · refine Silent.read.bind fun kernel => (onPages_silent _).bind fun (top, next) =>
      .changed ?_
    cases top with
    | none => exact .pure _
    | some top => exact .changed (.pure _)
  · exact .changed (.pure _)

theorem procCreateUserThread_silent (parent entry arg stackAddr stackSize : Nat) :
    (procCreateUserThread services parent entry arg stackAddr stackSize).Silent := by
  unfold procCreateUserThread
  split
  · exact .pure _
  refine (Silent.act _).bind fun thread => ?_
  cases thread with
  | none => exact .pure _
  | some thread =>
    refine (service_silent _).bind fun pid => .changed ?_
    split
    · exact (Silent.act _).bind fun _ => .pure _
    refine .changed (.changed (.changed ((giveThreadStack_silent _ _ _ _).bind fun stacked => ?_)))
    split
    · exact .changed ((Silent.act _).bind fun _ => .pure _)
    refine (service_silent _).bind fun allocated => ?_
    split
    · exact (freeUserStack_silent _).bind fun _ => .changed <|
        (Silent.act _).bind fun _ => .pure _
    · exact .changed (.changed (.changed (.pure _)))

theorem procThreadExit_silent (retval : Nat) : (procThreadExit services retval).Silent := by
  refine Silent.bind (currentCall_silent .stop fun current => ?_) fun _ =>
    (Silent.act _).bind fun _ => .stop
  refine .changed (.changed (.changed (Silent.read.bind fun kernel => ?_)))
  refine (Silent.onlyIf ((freeUserStack_silent _).bind fun _ => .act _) _).bind fun _ => ?_
  exact Silent.onlyIf (.change _) _

theorem procThreadDetach_silent (tid : Int) : (procThreadDetach services tid).Silent := by
  refine currentCall_silent (.pure _) fun current => ?_
  refine Silent.read.bind fun kernel => ?_
  cases procFindByTid tid kernel with
  | none => exact .pure _
  | some target =>
    dsimp only
    split
    · exact .pure _
    · refine .changed ?_
      exact (Silent.onlyIf ((freeUserStack_silent _).bind fun _ => .act _) _).bind
        fun _ => .pure _

end Silent

section Emits

variable {kernel : Kernel Alloc} {frame : SyscallFrame}

/-- A pointer that is null or has room for its access in user space. -/
def SafePointer (addr size : Nat) : Prop :=
  addr ≠ 0 → userBase ≤ addr ∧ addr + size ≤ userEnd

theorem collectThread_emits {target retval : Nat} (safe : SafePointer retval 8) :
    Emits UserStore.InUserSpace (collectThread services target retval) kernel := by
  refine Silent.read.emits.bind fun seen after _ => ?_
  refine Emits.bind (.onlyIf fun given => .record ?_) fun _ _ _ => ?_
  · obtain ⟨low, high⟩ := safe given
    exact UserStore.inUserSpace_of_range low (by simpa using high)
  · exact Silent.emits ((freeUserStack_silent _).bind fun _ => (Silent.act _).bind fun _ => .pure _)

theorem procThreadJoin_emits {tid : Int} {retval : Nat} (safe : SafePointer retval 8) :
    Emits UserStore.InUserSpace (procThreadJoin services tid retval) kernel := by
  refine procCurrent_silent.emits.bind fun current after _ => ?_
  cases current with
  | none => exact (Silent.pure _).emits
  | some current =>
    refine Silent.read.emits.bind fun seen after _ => ?_
    cases procFindByTid tid seen with
    | none => exact (Silent.pure _).emits
    | some target =>
      dsimp only
      split
      · exact (Silent.pure _).emits
      split
      · exact (Silent.pure _).emits
      split
      · exact collectThread_emits safe
      · -- The wait itself stores nothing, however long it takes.
        exact (Silent.onlyIf (.act _) _).emits.bind fun _ _ _ => collectThread_emits safe

theorem sysThreadJoin_emits :
    Emits UserStore.InUserSpace (sysThreadJoin services frame) kernel := by
  refine procCurrent_silent.emits.bind fun current after _ => ?_
  split
  · exact (Silent.pure _).emits
  dsimp only
  split
  · exact (Silent.pure _).emits
  rename_i valid
  have safe : SafePointer frame.arg1.toNat 8 := fun given =>
    userValidatePointer_range (by decide) (by simpa [given] using valid)
  refine (procThreadJoin_emits safe).bind fun result _ _ => ?_
  split
  · exact (Silent.pure _).emits
  · exact (Silent.pure _).emits

theorem sysUname_emits :
    Emits UserStore.InUserSpace (sysUname frame : KernelCall Alloc Int) kernel := by
  refine procCurrent_silent.emits.bind fun current after _ => ?_
  split
  · exact (Silent.pure _).emits
  refine Emits.bind ?_ fun result _ _ => ?_
  · unfold userCopyToUser
    split
    · exact (Silent.pure _).emits
    split
    · exact (Silent.pure _).emits
    rename_i valid
    obtain ⟨low, high⟩ := userValidatePointer_range (by decide : utsnameSize < 2 ^ 32)
      (by simpa using valid)
    refine (Emits.record (UserStore.inUserSpace_of_range low ?_)).bind fun _ _ _ =>
      (Silent.pure _).emits
    simp only [List.length_take]
    omega
  · split
    · exact (Silent.pure _).emits
    · exact (Silent.pure _).emits

theorem sysGetpid_silent : Silent (sysGetpid : KernelCall Alloc Int) := by
  refine Silent.read.bind fun kernel => ?_
  split
  · exact .pure _
  · exact .pure _

theorem sysGetppid_silent : Silent (sysGetppid : KernelCall Alloc Int) := by
  refine Silent.read.bind fun kernel => ?_
  split
  · exact .pure _
  · exact .pure _

theorem answer_silent (condition : Prop) [Decidable condition] (first second : Int) :
    Silent (if condition then return first else return second : KernelCall Alloc Int) := by
  split
  · exact .pure _
  · exact .pure _

theorem sysBrk_silent : (sysBrk services frame).Silent := by
  refine currentCall_silent (.pure _) fun current => ?_
  refine Silent.read.bind fun kernel => ?_
  dsimp only
  split
  · exact .pure _
  · exact (onPages_silent _).bind fun _ => .changed (.pure _)

theorem sysMmap_silent : (sysMmap services frame).Silent := by
  refine currentCall_silent (.pure _) fun current => ?_
  dsimp only
  split
  · exact .pure _
  · exact Silent.read.bind fun _ => (onPages_silent _).bind fun _ => .pure _

theorem sysMunmap_silent : (sysMunmap services frame).Silent := by
  exact currentCall_silent (.pure _) fun current => Silent.read.bind fun _ => onPages_silent _

theorem sysThreadCreate_silent : (sysThreadCreate services frame).Silent := by
  refine currentCall_silent (.pure _) fun current => ?_
  dsimp only
  split
  · exact .pure _
  · exact (procCreateUserThread_silent _ _ _ _ _).bind fun _ => answer_silent _ _ _

theorem sysThreadDetach_silent : (sysThreadDetach services frame).Silent := by
  refine procCurrent_silent.bind fun current => ?_
  split
  · exact .pure _
  · exact (procThreadDetach_silent _).bind fun _ => answer_silent _ _ _

/-- Every handler but that of `wait4` stores through its arguments into user space only. -/
theorem syscallTable_emits {number : Nat} {handler : Handler Alloc}
    (found : syscallTable services number = some handler) (other : number ≠ 3) :
    Emits UserStore.InUserSpace (handler frame) kernel := by
  unfold syscallTable at found
  split at found
  all_goals simp only [Option.some.injEq, reduceCtorEq] at found
  all_goals subst found
  · exact (procExit_silent _).emits
  · exact procFork_silent.emits
  · exact absurd rfl other
  · exact sysGetpid_silent.emits
  · exact sysGetppid_silent.emits
  · exact sysThreadCreate_silent.emits
  · exact (procThreadExit_silent _).emits
  · exact sysThreadJoin_emits
  · exact sysThreadDetach_silent.emits
  · exact (Silent.pure _).emits
  · exact (Silent.pure _).emits
  · exact (answer_silent _ _ _).emits
  · exact (answer_silent _ _ _).emits
  · unfold sysLseek
    exact (answer_silent _ _ _).emits
  · exact (Silent.pure _).emits
  · exact sysBrk_silent.emits
  · exact sysMmap_silent.emits
  · exact sysMunmap_silent.emits
  · exact sysUname_emits
  · exact (Silent.pure _).emits
  · exact (Silent.pure _).emits

end Emits

section Dispatch

variable {kernel : Kernel Alloc} {frame : SyscallFrame}

/-- A `wait4` call that finds a matching zombie child and has a status pointer that is neither
null nor has room for the status in user space. -/
def StrayStatus (frame : SyscallFrame) (kernel : Kernel Alloc) : Prop :=
  frame.syscallNumber = 3 ∧ ¬SafePointer frame.arg1.toNat 4 ∧
  ∃ current child, kernel.current = some current ∧
    findZombie (toInt32 frame.arg0) current kernel = some (some child)

/-- The stores of `wait4`: the exit code of the child that is found, if a pointer is given. -/
theorem procWait4_events (pid : Int) (wstatus : Nat) (options : Int) :
    (procWait4 services pid wstatus options kernel).1 =
      match kernel.current.bind fun current => findZombie pid current kernel with
      | some (some target) =>
        if wstatus ≠ 0 then [⟨wstatus, leBytes 4 ((kernel.pcb target).exitCode % 2 ^ 32).toNat⟩]
        else []
      | _ => [] := by
  unfold procWait4
  rw [procCurrent_bind]
  cases kernel.current with
  | none => rfl
  | some current =>
    simp only [read_bind, Option.bind_some]
    match findZombie pid current kernel with
    | none => rfl
    | some none =>
      exact Silent.bind (.change _) (fun _ => (Silent.act _).bind fun _ => .pure _) kernel
    | some (some target) =>
      -- What follows the store is silent.
      simp only
      rw [events_bind_silent fun _ => .changed ((Silent.act _).bind fun _ => .pure _)]
      unfold Logged.onlyIf
      split
      · rfl
      · rfl

/-- The store of `wait4` is in user space exactly unless a child is found and the pointer is
stray. -/
theorem procWait4_stores_iff {pid options : Int} {wstatus : Nat} (word : wstatus < 2 ^ 64) :
    (∀ store ∈ (procWait4 services pid wstatus options kernel).1, store.InUserSpace) ↔
      ¬(¬SafePointer wstatus 4 ∧ ∃ current child, kernel.current = some current ∧
        findZombie pid current kernel = some (some child)) := by
  rw [procWait4_events]
  cases now : kernel.current with
  | none => simp
  | some current =>
    match found : findZombie pid current kernel with
    | none => simp [found]
    | some none => simp [found]
    | some (some target) =>
      simp only [Option.bind_some, found, Option.some.injEq, exists_and_left, exists_eq',
        and_true, exists_eq_left', not_not]
      constructor
      · intro stores given
        rw [if_pos given] at stores
        have inside := stores _ List.mem_cons_self
        simpa using inside.range word (by simp) (by simp)
      · intro safe store member
        split at member
        · rename_i given
          rw [List.mem_singleton.mp member]
          exact UserStore.inUserSpace_of_range (safe given).1 (by simpa using (safe given).2)
        · cases member

theorem syscallDispatch_events (arg5 : UInt64) {handler : Handler Alloc}
    (found : syscallTable services frame.syscallNumber.toNat = some handler)
    (small : frame.syscallNumber.toNat < sysMax) :
    ∃ stats, (syscallDispatch services frame arg5 kernel).1 =
      (handler { frame with arg5 := arg5 } { kernel with stats := stats }).1 := by
  unfold syscallDispatch
  simp only [if_neg (Nat.not_le.mpr small), found]
  exact ⟨_, by simp only [events_bind]; rfl⟩

/-- A number without a handler makes no store. -/
theorem syscallDispatch_silent (arg5 : UInt64)
    (missing : syscallTable services frame.syscallNumber.toNat = none ∨
      sysMax ≤ frame.syscallNumber.toNat) :
    (syscallDispatch services frame arg5).Silent := by
  refine .changed ?_
  dsimp only
  split
  · exact .changed (.pure _)
  · rename_i small
    rw [missing.resolve_right small]
    exact .changed (.changed (.pure _))

/-- The stores through the arguments of a system call stay in user space exactly unless the call
is a `wait4` that finds a child and has a stray status pointer. -/
theorem syscallDispatch_stores_iff (services : Services Alloc) (frame : SyscallFrame)
    (arg5 : UInt64) (kernel : Kernel Alloc) :
    (∀ store ∈ (syscallDispatch services frame arg5 kernel).1, store.InUserSpace) ↔
      ¬StrayStatus frame kernel := by
  by_cases number : frame.syscallNumber = 3
  · -- The call is a `wait4`, on the same processes.
    have found : syscallTable services frame.syscallNumber.toNat = some (sysWait4 services) := by
      rw [number]
      rfl
    obtain ⟨stats, events⟩ := syscallDispatch_events arg5 found
      (by rw [number]; decide)
    rw [events, StrayStatus, and_iff_right number]
    exact procWait4_stores_iff frame.arg1.toNat_lt
  · refine iff_of_true ?_ fun stray => number stray.1
    have other : frame.syscallNumber.toNat ≠ 3 := fun same => number (UInt64.toNat_inj.mp same)
    cases found : syscallTable services frame.syscallNumber.toNat with
    | none => exact (syscallDispatch_silent arg5 (.inl found)).emits
    | some handler =>
      by_cases small : frame.syscallNumber.toNat < sysMax
      · obtain ⟨stats, events⟩ := syscallDispatch_events arg5 found small
        rw [events]
        exact syscallTable_emits found other
      · exact (syscallDispatch_silent arg5 (.inr (Nat.not_lt.mp small))).emits

/-- A kernel without memory to give, whose other parts do nothing. -/
def idleServices : Services Unit where
  frames := {
    source := {
      alloc := fun _ => (none, ())
      inUse := fun _ _ => False
      fresh := by simp
      refused := by simp }
    free := fun _ _ => some () }
  procAllocPcb kernel := some (none, kernel)
  procFreePcb _ kernel := some ((), kernel)
  pidAlloc kernel := (-1, kernel)
  pidFree _ kernel := kernel
  vmmCreateUserSpace kernel := (none, kernel)
  allocJoinWaiters kernel := (false, kernel)
  wakeUpAll _ kernel := kernel
  enqueue _ kernel := kernel
  schedule kernel := some ((), kernel)
  waitForZombie _ _ := none

/-- Process 1 is running, and its child 2 has exited with code 7. -/
def exitedChild : Kernel Unit where
  pcb addr :=
    { pid := addr, ppid := 1, state := if addr = 1 then .running else .zombie
      exitCode := 7, zombieChildren := if addr = 1 then ⟨2, 2⟩ else ⟨1, 1⟩
      children := if addr = 1 then ⟨.siblings 2, .siblings 2⟩ else ⟨.children addr, .children addr⟩
      siblings := if addr = 2 then ⟨.children 1, .children 1⟩ else ⟨.siblings addr, .siblings addr⟩
      pml4Phys := 0, mmRefcount := 1, brk := 0, isUserMode := true, userStack := 0, userStackSize := 0
      parent := if addr = 2 then some 1 else none, tgid := addr, isThread := false
      threadList := [], joinWaiters := false, detached := false, returnValue := 0
      threadEntry := 0, threadArg := 0 }
  current := some 1
  runQueue := []
  nrRunning := 0
  pages := ⟨fun _ => 0, (), []⟩
  nextThreadStack := threadStackBase
  stats := ⟨0, fun _ => 0, 0, 0⟩

/-- A `wait4` for any child with a kernel address as status pointer overwrites kernel memory. -/
theorem sysWait4_stores_in_kernel :
    ∃ frame : SyscallFrame,
      ⟨0xFFFFFFFF80000000, [7, 0, 0, 0]⟩ ∈ (syscallDispatch idleServices frame 0 exitedChild).1 ∧
      ¬UserStore.InUserSpace ⟨0xFFFFFFFF80000000, [7, 0, 0, 0]⟩ := by
  refine ⟨⟨3, 0xFFFFFFFFFFFFFFFF, 0xFFFFFFFF80000000, 0, 0, 0, 0⟩, ?_, fun inside => ?_⟩
  · decide +kernel
  · have := inside 0 (by decide)
    exact absurd this.2 (by decide)

end Dispatch

end Ccos
