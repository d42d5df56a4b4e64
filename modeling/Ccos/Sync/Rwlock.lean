import Ccos.Lib.Threads
import Ccos.Sync.Atomic

/-! The read-write lock of `sync/rwlock.c` step by step, and when a writer is alone. -/

namespace Ccos.Sync

open Lib

inductive RwCall
  | readLock
  | readTrylock
  | readUnlock
  | writeLock
  | writeTrylock
  | writeUnlock
  | writeDowngrade
  deriving DecidableEq, Repr

/-- The points of the calls at which a task can stand between two steps. -/
inductive RwPoint
  | outside
  -- `rwlock_read_lock` spins on the writers, then enters under the lock.
  | readSpin
  | readEnter
  -- `rwlock_read_trylock` has seen no writer.
  | tryEnter
  -- `rwlock_write_lock` claims the writer's place, then waits for the readers.
  | writeClaim
  | writeDrain
  -- `rwlock_write_downgrade` has counted itself as a reader.
  | downgrade
  deriving DecidableEq, Repr

/-- A read-write lock, whose own spinlock is free between two steps. -/
structure Rwlock where
  readers : Int
  writers : Int
  deriving DecidableEq, Repr

/-- Where a task stands, how often it holds the lock for reading, and whether for writing. -/
structure RwOwn where
  point : RwPoint
  reads : Nat
  writing : Bool
  deriving DecidableEq, Repr

def rwlockInit : Rwlock :=
  ⟨0, 0⟩

/-- `rwlock_read_lock` reads the writers and spins or goes on. -/
def rwlockReadLock (lock : Rwlock) (own : RwOwn) : Rwlock × RwOwn :=
  (lock, { own with point := if 0 < lock.writers then .readSpin else .readEnter })

/-- The section of `rwlock_write_lock` under the lock, which is left to spin. -/
def rwlockWriteLock (lock : Rwlock) (own : RwOwn) : Rwlock × RwOwn :=
  if 0 < lock.writers then (lock, { own with point := .writeClaim })
  else ({ lock with writers := atomicInc lock.writers }, { own with point := .writeDrain })

/-- The first step of a call; only a task that holds the lock unlocks or downgrades it. -/
def rwCall (lock : Rwlock) (own : RwOwn) : RwCall → Option (Rwlock × RwOwn)
  | .readLock => some (rwlockReadLock lock own)
  | .readTrylock =>
    if 0 < lock.writers then some (lock, own) else some (lock, { own with point := .tryEnter })
  | .readUnlock =>
    if 0 < own.reads then
      some ({ lock with readers := atomicDec lock.readers }, { own with reads := own.reads - 1 })
    else none
  | .writeLock => some (rwlockWriteLock lock own)
  | .writeTrylock =>
    if 0 < lock.writers ∨ 0 < lock.readers then some (lock, own)
    else some ({ lock with writers := atomicInc lock.writers }, { own with writing := true })
  | .writeUnlock =>
    if own.writing then
      some ({ lock with writers := atomicDec lock.writers }, { own with writing := false })
    else none
  | .writeDowngrade =>
    if own.writing then
      some ({ lock with readers := atomicInc lock.readers }, { own with point := .downgrade })
    else none

def rwNext (lock : Rwlock) (own : RwOwn) : Option (Rwlock × RwOwn) :=
  match own.point with
  | .outside => none
  | .readSpin => some (rwlockReadLock lock own)
  | .readEnter =>
    -- The writers are not read again under the lock.
    some ({ lock with readers := atomicInc lock.readers },
      { own with point := .outside, reads := own.reads + 1 })
  | .tryEnter =>
    if 0 < lock.writers then some (lock, { own with point := .outside })
    else
      some ({ lock with readers := atomicInc lock.readers },
        { own with point := .outside, reads := own.reads + 1 })
  | .writeClaim => some (rwlockWriteLock lock own)
  | .writeDrain =>
    if 0 < lock.readers then some (lock, own)
    else some (lock, { own with point := .outside, writing := true })
  | .downgrade =>
    some ({ lock with writers := atomicDec lock.writers }, ⟨.outside, own.reads + 1, false⟩)

def rwStep {Task : Type*} (_ : Task) (move : Move RwCall) (lock : Rwlock) (own : RwOwn) :
    Option (Rwlock × RwOwn) :=
  match move with
  | .call call => if own.point = .outside then rwCall lock own call else none
  | .next | .back => rwNext lock own

/-- A free lock, which no task uses yet. -/
def rwStart (Task : Type*) : Threads Task Rwlock RwOwn :=
  ⟨rwlockInit, fun _ => ⟨.outside, 0, false⟩⟩

/-- A reader that has seen no writer enters while there is still none, and the readers stay below
the top of their counter. -/
def EntersFree {Task : Type*} (threads : Threads Task Rwlock RwOwn) (action : Task × Move RwCall) :
    Prop :=
  ((threads.own action.1).point = .readEnter → threads.shared.writers ≤ 0) ∧
    threads.shared.readers + 1 < 2 ^ 31

instance {Task : Type*} (threads : Threads Task Rwlock RwOwn) (action : Task × Move RwCall) :
    Decidable (EntersFree threads action) := by
  unfold EntersFree
  infer_instance

/-- How often a task counts as a reader. -/
def RwOwn.readWeight (own : RwOwn) : Nat :=
  own.reads + if own.point = .downgrade then 1 else 0

/-- How often a task counts as a writer. -/
def RwOwn.writeWeight (own : RwOwn) : Nat :=
  own.writing.toNat + if own.point = .writeDrain then 1 else 0

/-- The counters count the tasks, and while one writes nobody reads. -/
@[grind] structure WriterAlone {Task : Type*} (threads : Threads Task Rwlock RwOwn) : Prop where
  readers : Totals RwOwn.readWeight threads.own threads.shared.readers.toNat
  readers_nonneg : 0 ≤ threads.shared.readers
  writers : Totals RwOwn.writeWeight threads.own threads.shared.writers.toNat
  writers_nonneg : 0 ≤ threads.shared.writers
  writers_le : threads.shared.writers ≤ 1
  alone : ∀ task, (threads.own task).writing = true → ∀ other, (threads.own other).reads = 0
  downgrading : ∀ task, (threads.own task).point = .downgrade → (threads.own task).writing = true

namespace WriterAlone

theorem start (Task : Type*) : WriterAlone (rwStart Task) :=
  ⟨.zero fun _ => rfl, Int.le_refl 0, .zero fun _ => rfl, Int.le_refl 0, Int.zero_le_ofNat 1,
    fun _ => nofun, fun _ => nofun⟩

variable {Task : Type*} {threads : Threads Task Rwlock RwOwn}

theorem reads_eq_zero (inv : WriterAlone threads) (none : threads.shared.readers ≤ 0)
    (task : Task) : (threads.own task).reads = 0 := by
  -- What a task reads is part of the weights that the counter sums up.
  have weight := inv.readers.le task
  simp only [RwOwn.readWeight] at weight
  omega

theorem writers_eq_one (inv : WriterAlone threads) (task : Task)
    (writes : 0 < (threads.own task).writeWeight) : threads.shared.writers = 1 := by
  -- The counter of the writers is at least one by the task and at most one by the lock.
  have weight := inv.writers.le task
  have most := inv.writers_le
  omega

variable [DecidableEq Task] {task : Task} {own : RwOwn} {lock : Rwlock}

section

variable (inv : WriterAlone threads)
include inv

/-- One task moves: the counters follow its weights, and it starts to write or to read only where
nobody does the other. -/
theorem update
    (readers : lock.readers.toNat + (threads.own task).readWeight =
      threads.shared.readers.toNat + own.readWeight)
    (readers_nonneg : 0 ≤ lock.readers)
    (writers : lock.writers.toNat + (threads.own task).writeWeight =
      threads.shared.writers.toNat + own.writeWeight)
    (writers_nonneg : 0 ≤ lock.writers) (writers_le : lock.writers ≤ 1)
    (alone : own.reads ≤ (threads.own task).reads ∧
        ((own.writing = true → (threads.own task).writing = true) ∨ threads.shared.readers ≤ 0) ∨
      lock.writers = 0)
    (downgrading : own.point = .downgrade → own.writing = true) :
    WriterAlone ⟨lock, Function.update threads.own task own⟩ := by
  -- The sums follow the task that moves; readers and writers are compared with all the others.
  have counted := inv.writers.update writers
  refine ⟨inv.readers.update readers, readers_nonneg, counted, writers_nonneg, writers_le,
    fun writer writing other => ?_, fun other => ?_⟩
  · rcases alone with ⟨fewer, quiet⟩ | none
    · have before : ∀ other, (threads.own other).reads = 0 := by
        rcases quiet with calm | none
        · -- Nobody starts to write, so the writer of before found no reader.
          grind
        · exact inv.reads_eq_zero none
      grind
    · -- There is no writer left.
      have weight := counted.le writer
      have writing : (Function.update threads.own task own writer).writing = true := writing
      simp only [RwOwn.writeWeight, writing, Bool.toNat_true] at weight
      omega
  grind

theorem stay (point : RwPoint)
    (before : (threads.own task).point ≠ .downgrade ∧ (threads.own task).point ≠ .writeDrain)
    (after : point ≠ .downgrade ∧ point ≠ .writeDrain) :
    WriterAlone ⟨threads.shared,
      Function.update threads.own task { threads.own task with point }⟩ := by
  -- Only two points carry a weight, and the step touches neither.
  refine inv.update ?_ inv.readers_nonneg ?_ inv.writers_nonneg inv.writers_le
    (.inl ⟨Nat.le_refl _, .inl id⟩) (fun absurd => (after.1 absurd).elim)
  · simp [RwOwn.readWeight, before, after]
  · simp [RwOwn.writeWeight, before, after]

theorem enter
    (before : (threads.own task).point ≠ .downgrade ∧ (threads.own task).point ≠ .writeDrain)
    (none : threads.shared.writers ≤ 0) (small : threads.shared.readers + 1 < 2 ^ 31) :
    WriterAlone ⟨{ threads.shared with readers := atomicInc threads.shared.readers },
      Function.update threads.own task { threads.own task with
        point := .outside, reads := (threads.own task).reads + 1 }⟩ := by
  -- The reader counts once more, in its own state and in the lock.
  have low := inv.readers_nonneg
  have grown : atomicInc threads.shared.readers = threads.shared.readers + 1 :=
    atomicInc_of_lt (by omega) small
  refine inv.update ?_ ?_ ?_ inv.writers_nonneg inv.writers_le (.inr ?_) nofun
  · simp only [RwOwn.readWeight, before, if_false, grown]
    simp
    omega
  · simp only [grown]
    omega
  · simp [RwOwn.writeWeight, before]
  · have := inv.writers_nonneg
    simp only
    omega

theorem claim (none : threads.shared.writers ≤ 0)
    (readers : own.readWeight = (threads.own task).readWeight)
    (reads : own.reads ≤ (threads.own task).reads)
    (writes : own.writeWeight = (threads.own task).writeWeight + 1)
    (alone : (own.writing = true → (threads.own task).writing = true) ∨ threads.shared.readers ≤ 0)
    (downgrading : own.point = .downgrade → own.writing = true) :
    WriterAlone ⟨{ threads.shared with writers := atomicInc threads.shared.writers },
      Function.update threads.own task own⟩ := by
  -- The counter of the writers goes from zero to one.
  have low := inv.writers_nonneg
  have grown : atomicInc threads.shared.writers = threads.shared.writers + 1 :=
    atomicInc_of_lt (by omega) (by omega)
  refine inv.update (by rw [readers]) inv.readers_nonneg ?_ ?_ ?_ (.inl ⟨reads, alone⟩)
    downgrading <;> simp only [grown] <;> omega

theorem release (writing : 0 < (threads.own task).writeWeight)
    (readers : own.readWeight = (threads.own task).readWeight)
    (writes : own.writeWeight + 1 = (threads.own task).writeWeight)
    (downgrading : own.point = .downgrade → own.writing = true) :
    WriterAlone ⟨{ threads.shared with writers := atomicDec threads.shared.writers },
      Function.update threads.own task own⟩ := by
  -- The counter of the writers goes back to zero, so no writer is left.
  have one := inv.writers_eq_one task writing
  have gone : atomicDec threads.shared.writers = 0 := by
    rw [one]
    rfl
  refine inv.update (by rw [readers]) inv.readers_nonneg ?_ ?_ ?_ (.inr gone) downgrading <;>
    simp only [gone] <;> omega

/-- One of the two steps of `rwlock_read_lock` and `rwlock_write_lock` that read the writers. -/
theorem spin (task : Task)
    (before : (threads.own task).point ≠ .downgrade ∧ (threads.own task).point ≠ .writeDrain) :
    WriterAlone ⟨(rwlockReadLock threads.shared (threads.own task)).1,
      Function.update threads.own task (rwlockReadLock threads.shared (threads.own task)).2⟩ ∧
    WriterAlone ⟨(rwlockWriteLock threads.shared (threads.own task)).1,
      Function.update threads.own task (rwlockWriteLock threads.shared (threads.own task)).2⟩ := by
  -- A reader only looks at the writers; a writer claims its place in the same section.
  constructor
  · refine inv.stay _ before ?_
    split <;> decide
  · unfold rwlockWriteLock
    split
    · exact inv.stay .writeClaim before (by decide)
    · refine inv.claim (by omega) ?_ (Nat.le_refl _) ?_ (.inl id) nofun
      · simp [RwOwn.readWeight, before]
      · simp [RwOwn.writeWeight, before]

theorem rwCall {call : RwCall} (outside : (threads.own task).point = .outside)
    (small : threads.shared.readers + 1 < 2 ^ 31)
    (done : rwCall threads.shared (threads.own task) call = some (lock, own)) :
    WriterAlone ⟨lock, Function.update threads.own task own⟩ := by
  have before : (threads.own task).point ≠ .downgrade ∧ (threads.own task).point ≠ .writeDrain := by
    simp [outside]
  have same : WriterAlone ⟨threads.shared, Function.update threads.own task (threads.own task)⟩ := by
    simpa using inv
  cases call
  all_goals simp only [Sync.rwCall] at done
  case readLock =>
    cases done
    exact (inv.spin task before).1
  case writeLock =>
    have moved := Option.some.inj done
    have kept := (inv.spin task before).2
    simpa only [moved] using kept
  case readTrylock =>
    split at done <;> cases done
    · exact same
    · exact inv.stay .tryEnter before (by decide)
  case readUnlock =>
    split at done <;> cases done
    rename_i holds
    -- The task is counted as a reader, so the counter does not fall below zero.
    have weight := inv.readers.le task
    simp only [RwOwn.readWeight, outside] at weight
    have fewer : atomicDec threads.shared.readers = threads.shared.readers - 1 :=
      wrapInt_of_range (by omega) (by omega)
    refine inv.update ?_ ?_ rfl inv.writers_nonneg inv.writers_le
      (.inl ⟨Nat.sub_le _ _, .inl id⟩) (inv.downgrading task)
    · simp only [RwOwn.readWeight, fewer]
      omega
    · simp only [fewer]
      omega
  case writeTrylock =>
    split at done <;> cases done
    · exact same
    · rename_i free
      -- A writer would be counted, but the counter is zero.
      have unheld : (threads.own task).writing = false := by
        by_contra held
        have := inv.writers_eq_one task (by simp [RwOwn.writeWeight, held])
        omega
      refine inv.claim (by omega) rfl (Nat.le_refl _) ?_ (.inr (by omega)) (fun _ => rfl)
      simp [RwOwn.writeWeight, unheld, outside]
  case writeUnlock =>
    split at done <;> cases done
    rename_i held
    refine inv.release (by simp [RwOwn.writeWeight, held]) rfl ?_ ?_
    · simp [RwOwn.writeWeight, held, outside]
    · simp [outside]
  case writeDowngrade =>
    -- The writer counts as a reader too until it gives its place back.
    split at done <;> cases done
    rename_i held
    have low := inv.readers_nonneg
    have grown : atomicInc threads.shared.readers = threads.shared.readers + 1 :=
      atomicInc_of_lt (by omega) small
    refine inv.update ?_ ?_ ?_ inv.writers_nonneg inv.writers_le
      (.inl ⟨Nat.le_refl _, .inl id⟩) (fun _ => held)
    · simp only [RwOwn.readWeight, outside, grown]
      simp
      omega
    · simp only [grown]
      omega
    · simp [RwOwn.writeWeight, outside]

/-- A step inside a call keeps writers alone, if a reader enters only without a writer. -/
theorem rwNext (free : (threads.own task).point = .readEnter → threads.shared.writers ≤ 0)
    (small : threads.shared.readers + 1 < 2 ^ 31)
    (done : rwNext threads.shared (threads.own task) = some (lock, own)) :
    WriterAlone ⟨lock, Function.update threads.own task own⟩ := by
  cases standing : (threads.own task).point
  all_goals simp only [Sync.rwNext, standing, Option.some.injEq, reduceCtorEq] at done
  case readSpin =>
    have kept := (inv.spin task (by simp [standing])).1
    simpa only [done] using kept
  case writeClaim =>
    have kept := (inv.spin task (by simp [standing])).2
    simpa only [done] using kept
  case readEnter =>
    cases done
    exact inv.enter (by simp [standing]) (free standing) small
  case tryEnter =>
    -- Unlike `rwlock_read_lock`, the trylock reads the writers again under the lock.
    split at done <;> cases done
    · exact inv.stay .outside (by simp [standing]) (by decide)
    · exact inv.enter (by simp [standing]) (by omega) small
  case writeDrain =>
    split at done <;> cases done
    · simpa using inv
    · rename_i drained
      -- The task counted as a writer already, so it was not writing before.
      have unheld : (threads.own task).writing = false := by
        have weight := inv.writers.le task
        have most := inv.writers_le
        by_contra held
        simp only [RwOwn.writeWeight, standing] at weight
        grind
      refine inv.update ?_ inv.readers_nonneg ?_ inv.writers_nonneg inv.writers_le
        (.inl ⟨Nat.le_refl _, .inr (by omega)⟩) nofun
      · simp [RwOwn.readWeight, standing]
      · simp [RwOwn.writeWeight, standing, unheld]
  case downgrade =>
    -- What the task counted at this point becomes a reader in its own right.
    have held := inv.downgrading task standing
    cases done
    refine inv.release (by simp [RwOwn.writeWeight, held]) ?_ ?_ nofun
    · simp [RwOwn.readWeight, standing]
    · simp [RwOwn.writeWeight, standing, held]

/-- A step keeps writers alone, if a reader enters only without a writer. -/
theorem step {action : Task × Move RwCall} {after : Threads Task Rwlock RwOwn}
    (free : EntersFree threads action) (done : threads.perform rwStep action = some after) :
    WriterAlone after := by
  -- A task that starts a call stands outside; otherwise it goes on in one.
  obtain ⟨task, move⟩ := action
  obtain ⟨lock, own, taken, rfl⟩ := Threads.perform_eq_some done
  cases move with
  | call call =>
    simp only [rwStep] at taken
    split at taken
    · rename_i outside
      exact inv.rwCall outside free.2 taken
    · cases taken
  | next => exact inv.rwNext free.1 free.2 taken
  | back => exact inv.rwNext free.1 free.2 taken

end

end WriterAlone

/-- As long as every reader that has seen no writer enters while there is still none, a task that
holds the lock for writing holds it alone. -/
theorem rwlock_exclusive {Task : Type*} [DecidableEq Task] {actions : List (Task × Move RwCall)}
    {last : Threads Task Rwlock RwOwn}
    (run : Run (fun before action after => EntersFree before action ∧
      before.perform rwStep action = some after) (rwStart Task) actions last)
    {task other : Task} (writing : (last.own task).writing = true) (apart : task ≠ other) :
    (last.own other).reads = 0 ∧ (last.own other).writing = false := by
  -- Each step of the run keeps writers alone, so they are alone at its end.
  have inv := run.preserves WriterAlone (fun _ _ _ taken inv => inv.step taken.1 taken.2)
    (WriterAlone.start Task)
  refine ⟨inv.alone task writing other, ?_⟩
  -- Two writers would count for more than the one that the lock lets in.
  by_contra second
  have sum := inv.writers.add_le apart
  have most := inv.writers_le
  simp only [Bool.not_eq_false] at second
  simp only [RwOwn.writeWeight, writing, second, Bool.toNat_true] at sum
  omega

/-- A writer that starts after a reader has left holds the lock alone. -/
theorem rwlock_exclusive_writer :
    ∃ last, Run (fun before action after => EntersFree before action ∧
        before.perform rwStep action = some after) (rwStart (Fin 2))
        [(1, .call .readLock), (1, .next), (1, .call .readUnlock), (0, .call .writeLock),
          (1, .call .readLock), (0, .next)] last ∧
      (last.own 0).writing = true ∧ (last.own 1).reads = 0 ∧ (last.own 1).writing = false := by
  refine Run.exists_by_if (fun last => (last.own 0).writing = true) (by decide +kernel)
    fun last run writing => ?_
  exact ⟨writing, rwlock_exclusive run writing (by decide)⟩

/-- A reader that has seen no writer enters after a writer has claimed the lock and has it. -/
theorem rwlock_reader_and_writer :
    ∃ last, Run (fun before action after => before.perform rwStep action = some after)
        (rwStart (Fin 2))
        [(1, .call .readLock), (0, .call .writeLock), (0, .next), (1, .next)] last ∧
      (last.own 0).writing = true ∧ (last.own 1).reads = 1 :=
  Run.exists_of_any (by decide +kernel)

end Ccos.Sync
