import Initd.Config.TaskData

namespace Initd

/-- Which of its two completion callbacks `current_operation` waits with. -/
inductive Operation
  | start
  | stop
  deriving DecidableEq, Repr

structure AsyncStartStopTask where
  taskData : StartStopTaskData
  running : Bool
  shouldWork : Bool
  currentOperation : Option Operation
  deriving DecidableEq, Repr

/-- What became of the `sysapi::fork` in a call that may make one. -/
inductive ForkResult
  | notCalled
  | launched (operation : Operation) (command : Command)
  | threw
  deriving DecidableEq, Repr

namespace AsyncStartStopTask

def create (taskData : StartStopTaskData) : AsyncStartStopTask where
  taskData := taskData
  running := false
  shouldWork := false
  currentOperation := none

def isRunning (task : AsyncStartStopTask) : Bool := task.running

def isInTransition (task : AsyncStartStopTask) : Bool :=
  task.currentOperation.isSome

/-- `fork` is whether `sysapi::fork` succeeds, should it be called. -/
def enqueueJob (fork : Bool) (task : AsyncStartStopTask) :
    AsyncStartStopTask × ForkResult :=
  if task.currentOperation.isSome then
    (task, .notCalled)
  else if task.running = task.shouldWork then
    (task, .notCalled)
  else if task.shouldWork then
    if fork then
      ({ task with currentOperation := some .start },
        .launched .start task.taskData.start)
    else
      (task, .threw)
  else
    if fork then
      ({ task with currentOperation := some .stop },
        .launched .stop task.taskData.stop)
    else
      (task, .threw)

def setShouldWork (fork s : Bool) (task : AsyncStartStopTask) :
    AsyncStartStopTask × ForkResult :=
  enqueueJob fork { task with shouldWork := s }

/-- The completion callback up to its call of `current_state_changed`.  There
is no result without an operation, nor where the assertion on `running` fails. -/
def operationCompleted (fork : Bool) (task : AsyncStartStopTask) :
    Option (AsyncStartStopTask × ForkResult) :=
  match task.currentOperation with
  | none => none
  | some .start =>
      if task.running then
        none
      else
        some (enqueueJob fork
          { task with running := true, currentOperation := none })
  | some .stop =>
      if task.running then
        some (enqueueJob fork
          { task with running := false, currentOperation := none })
      else
        none

/-- The two assertions of the destructor. -/
def mayBeDestroyed (task : AsyncStartStopTask) : Bool :=
  !task.running && !task.currentOperation.isSome

/-! What a call leaves alone. -/

variable {fork s : Bool} {task after : AsyncStartStopTask} {result : ForkResult}

@[simp] theorem enqueueJob_running :
    (enqueueJob fork task).1.running = task.running := by
  unfold enqueueJob
  split_ifs <;> rfl

@[simp] theorem enqueueJob_shouldWork :
    (enqueueJob fork task).1.shouldWork = task.shouldWork := by
  unfold enqueueJob
  split_ifs <;> rfl

@[simp] theorem setShouldWork_running :
    (setShouldWork fork s task).1.running = task.running := by
  simp [setShouldWork]

@[simp] theorem setShouldWork_shouldWork :
    (setShouldWork fork s task).1.shouldWork = s := by
  simp [setShouldWork]

theorem enqueueJob_of_operation {operation : Operation}
    (outstanding : task.currentOperation = some operation) :
    enqueueJob fork task = (task, .notCalled) := by
  simp [enqueueJob, outstanding]

theorem enqueueJob_of_agree (agree : task.running = task.shouldWork) :
    enqueueJob fork task = (task, .notCalled) := by
  simp [enqueueJob, agree]

theorem enqueueJob_starts (idle : task.currentOperation = none)
    (running : task.running = false) (wanted : task.shouldWork = true) :
    enqueueJob true task = ({ task with currentOperation := some .start },
      .launched .start task.taskData.start) := by
  simp [enqueueJob, idle, running, wanted]

theorem enqueueJob_stops (idle : task.currentOperation = none)
    (running : task.running = true) (wanted : task.shouldWork = false) :
    enqueueJob true task = ({ task with currentOperation := some .stop },
      .launched .stop task.taskData.stop) := by
  simp [enqueueJob, idle, running, wanted]

theorem setShouldWork_of_operation {operation : Operation}
    (outstanding : task.currentOperation = some operation) :
    setShouldWork fork s task = ({ task with shouldWork := s }, .notCalled) :=
  enqueueJob_of_operation outstanding

/-- An operation that a call starts is a stop exactly when the task runs. -/
theorem enqueueJob_launched {operation : Operation} {command : Command}
    (launched : (enqueueJob fork task).2 = .launched operation command) :
    (enqueueJob fork task).1.currentOperation = some operation ∧
      task.shouldWork = decide (operation = .start) ∧
      task.running = decide (operation = .stop) := by
  revert launched
  unfold enqueueJob
  split_ifs with outstanding agree wanted forked forked <;>
    simp_all <;> rintro rfl _ <;> simp_all

/-- A fork is attempted, and may throw, exactly where an idle task is in the
wrong state. -/
theorem setShouldWork_threw_iff :
    (setShouldWork fork s task).2 = .threw ↔
      task.isInTransition = false ∧ task.running ≠ s ∧ fork = false := by
  unfold setShouldWork enqueueJob isInTransition
  cases task.currentOperation with
  | some operation => simp
  | none =>
      by_cases agree : task.running = s
      · simp [agree]
      · cases s <;> cases fork <;> simp [agree]

/-- The operation in flight is a start exactly when `running` is false, and
without one the task does what it was last told. -/
def Consistent (task : AsyncStartStopTask) : Prop :=
  match task.currentOperation with
  | none => task.running = task.shouldWork
  | some .start => task.running = false
  | some .stop => task.running = true

theorem consistent_create (taskData : StartStopTaskData) :
    (create taskData).Consistent := rfl

/-- A job restores consistency from any idle state, if its fork succeeds. -/
theorem enqueueJob_consistent (idle : task.currentOperation = none) :
    (enqueueJob true task).1.Consistent := by
  unfold enqueueJob
  simp only [idle, Option.isSome_none, Bool.false_eq_true, if_false, if_true]
  by_cases agree : task.running = task.shouldWork
  · simp [agree, Consistent, idle]
  · cases wanted : task.shouldWork <;> simp_all [Consistent]

theorem setShouldWork_consistent (consistent : task.Consistent) :
    (setShouldWork true s task).1.Consistent := by
  cases operation : task.currentOperation with
  | none => exact enqueueJob_consistent operation
  | some outstanding =>
      rw [setShouldWork_of_operation operation]
      simp only [Consistent, operation] at consistent ⊢
      cases outstanding <;> exact consistent

theorem setShouldWork_isInTransition
    (needed : task.isInTransition = true ∨ task.running ≠ s) :
    (setShouldWork true s task).1.isInTransition = true := by
  cases operation : task.currentOperation with
  | some outstanding =>
      rw [setShouldWork_of_operation operation]
      simp [isInTransition, operation]
  | none =>
      have different : task.running ≠ s := by
        simpa [isInTransition, operation] using needed
      unfold setShouldWork enqueueJob isInTransition
      cases s <;> simp_all

theorem operationCompleted_isInTransition
    (completed : task.operationCompleted fork = some (after, result)) :
    task.isInTransition = true := by
  unfold operationCompleted at completed
  cases operation : task.currentOperation with
  | none => simp [operation] at completed
  | some outstanding => simp [isInTransition, operation]

theorem operationCompleted_eq
    (completed : task.operationCompleted fork = some (after, result)) :
    enqueueJob fork
      { task with running := !task.running, currentOperation := none } =
        (after, result) := by
  have equal := completed
  unfold operationCompleted at equal
  split at equal
  · contradiction
  all_goals
    split at equal
    all_goals first
      | contradiction
      | simp_all

theorem operationCompleted_shouldWork
    (completed : task.operationCompleted fork = some (after, result)) :
    after.shouldWork = task.shouldWork := by
  have job := congrArg (fun pair => pair.1.shouldWork)
    (operationCompleted_eq completed)
  simpa using job.symm

theorem operationCompleted_running
    (completed : task.operationCompleted fork = some (after, result)) :
    after.running = !task.running := by
  have job := congrArg (fun pair => pair.1.running)
    (operationCompleted_eq completed)
  simpa using job.symm

theorem operationCompleted_threw_iff
    (completed : task.operationCompleted fork = some (after, result)) :
    result = .threw ↔ task.shouldWork = task.running ∧ fork = false := by
  have job : setShouldWork fork task.shouldWork
      { task with running := !task.running, currentOperation := none } =
        (after, result) := operationCompleted_eq completed
  have threw : result = .threw ↔ _ :=
    job ▸ setShouldWork_threw_iff (s := task.shouldWork)
  rw [threw]
  cases task.running <;> cases task.shouldWork <;> simp [isInTransition]

theorem operationCompleted_threw_idle
    (completed : task.operationCompleted fork = some (after, .threw)) :
    after.isInTransition = false := by
  have job := operationCompleted_eq completed
  unfold enqueueJob at job
  split_ifs at job <;> simp_all [Prod.ext_iff, isInTransition]
  all_goals rw [← job]

theorem operationCompleted_idle
    (completed : task.operationCompleted fork = some (after, result))
    (agree : task.shouldWork = !task.running) :
    after.isInTransition = false := by
  have job := operationCompleted_eq completed
  simp only [enqueueJob, Option.isSome_none, Bool.false_eq_true, if_false,
    agree, if_true, Prod.mk.injEq] at job
  rw [← job.1]
  rfl

theorem operationCompleted_followUp
    (completed : task.operationCompleted true = some (after, result))
    (differ : task.shouldWork = task.running) :
    after.isInTransition = true := by
  have job := operationCompleted_eq completed
  have told : (setShouldWork true task.shouldWork
      { task with running := !task.running, currentOperation := none }).1 =
        after := congrArg Prod.fst job
  rw [← told]
  exact setShouldWork_isInTransition (.inr (by simp [differ]))

/-- The assertion of a completion callback holds of a consistent task. -/
theorem Consistent.exists_operationCompleted (consistent : task.Consistent)
    {operation : Operation} (outstanding : task.currentOperation = some operation)
    (fork : Bool) :
    ∃ after result, task.operationCompleted fork = some (after, result) := by
  unfold Consistent at consistent
  unfold operationCompleted
  rw [outstanding] at consistent ⊢
  cases operation <;> exact ⟨_, _, by simp [consistent]; rfl⟩

theorem operationCompleted_consistent
    (completed : task.operationCompleted true = some (after, result)) :
    after.Consistent := by
  have job := operationCompleted_eq completed
  have consistent : (enqueueJob true { task with
      running := !task.running, currentOperation := none }).1.Consistent :=
    enqueueJob_consistent rfl
  rwa [job] at consistent

end AsyncStartStopTask

end Initd
