import Initd.Sysapi.FunctionQueue
import Initd.Tasks.AsyncStartStopTask

namespace Initd

open Sysapi

/-- `control_task_handle`, whose destruction closes its connections. -/
structure ControlTaskHandle where
  connections : List Nat
  nextId : Nat
  deriving DecidableEq, Repr

namespace ControlTaskHandle

def accept (handle : ControlTaskHandle) : ControlTaskHandle where
  connections := handle.connections ++ [handle.nextId]
  nextId := handle.nextId + 1

def disconnect (id : Nat) (handle : ControlTaskHandle) : ControlTaskHandle :=
  { handle with connections := handle.connections.erase id }

end ControlTaskHandle

/-- What `create_task` makes.  The handles of the other tasks hold nothing that
the task graph depends on. -/
inductive TaskHandle
  | control (handle : ControlTaskHandle)
  | other
  deriving DecidableEq, Repr

def createTask : TaskData → TaskHandle
  | .control _ => .control ⟨[], 0⟩
  | _ => .other

/-- What the kernel answers to one task during one step: whether `sysapi::fork`
returns, and whether `create_task` does. -/
structure Answers where
  fork : Bool
  create : Bool
  deriving DecidableEq, Repr

structure SyncTaskAdaptor where
  taskData : TaskData
  running : Bool
  handle : Option TaskHandle
  fq : FunctionQueue Unit
  deriving DecidableEq, Repr

namespace SyncTaskAdaptor

def create (taskData : TaskData) : SyncTaskAdaptor where
  taskData := taskData
  running := false
  handle := none
  fq := .empty

def setShouldWork (answers : Answers) (s : Bool) (adaptor : SyncTaskAdaptor) :
    SyncTaskAdaptor :=
  let adaptor := { adaptor with running := s }
  if adaptor.running then
    let handle :=
      if adaptor.handle.isNone then
        -- an exception of `create_task` is caught and reported
        if answers.create then some (createTask adaptor.taskData) else none
      else
        adaptor.handle
    { adaptor with handle := handle, fq := adaptor.fq.push () }
  else
    { adaptor with handle := none, fq := adaptor.fq.push () }

variable {answers : Answers} {s : Bool} {adaptor : SyncTaskAdaptor}

@[simp] theorem setShouldWork_running :
    (adaptor.setShouldWork answers s).running = s := by
  cases s <;> rfl

@[simp] theorem setShouldWork_fq :
    (adaptor.setShouldWork answers s).fq = adaptor.fq.push () := by
  cases s <;> rfl

@[simp] theorem setShouldWork_false_handle :
    (adaptor.setShouldWork answers false).handle = none := rfl

end SyncTaskAdaptor

inductive AsyncTaskHandle
  | startStop (task : AsyncStartStopTask)
  | sync (adaptor : SyncTaskAdaptor)
  deriving DecidableEq, Repr

def createAsyncTaskHandle : TaskData → AsyncTaskHandle
  | .mount data => .sync (.create (.mount data))
  | .hostname data => .sync (.create (.hostname data))
  | .startStop data => .startStop (.create data)
  | .control data => .sync (.create (.control data))
  | .null => .sync (.create .null)

namespace AsyncTaskHandle

def setShouldWork (answers : Answers) (s : Bool) :
    AsyncTaskHandle → AsyncTaskHandle × ForkResult
  | startStop task =>
      let result := task.setShouldWork answers.fork s
      (startStop result.1, result.2)
  | sync adaptor => (sync (adaptor.setShouldWork answers s), .notCalled)

def getShouldWork : AsyncTaskHandle → Bool
  | startStop task => task.shouldWork
  | sync adaptor => adaptor.running

def isRunning : AsyncTaskHandle → Bool
  | startStop task => task.isRunning
  | sync adaptor => adaptor.running

def isInTransition : AsyncTaskHandle → Bool
  | startStop task => task.isInTransition
  | sync _ => false

variable {answers : Answers} {s : Bool} {handle : AsyncTaskHandle}

@[simp] theorem createAsyncTaskHandle_isRunning (data : TaskData) :
    (createAsyncTaskHandle data).isRunning = false := by
  cases data <;> rfl

@[simp] theorem createAsyncTaskHandle_isInTransition (data : TaskData) :
    (createAsyncTaskHandle data).isInTransition = false := by
  cases data <;> rfl

@[simp] theorem setShouldWork_getShouldWork :
    (handle.setShouldWork answers s).1.getShouldWork = s := by
  cases handle <;> simp [setShouldWork, getShouldWork]

/-- What holds of a handle between calls while every fork succeeds. -/
def Consistent : AsyncTaskHandle → Prop
  | startStop task => task.Consistent
  | sync adaptor => adaptor.fq.Backed

/-- No callback of the handle is still to come. -/
def Quiet : AsyncTaskHandle → Prop
  | startStop task => task.currentOperation = none
  | sync adaptor => adaptor.fq.efd.counter = 0

instance : Decidable handle.Quiet :=
  match handle with
  | startStop task => inferInstanceAs (Decidable (task.currentOperation = none))
  | sync adaptor => inferInstanceAs (Decidable (adaptor.fq.efd.counter = 0))

theorem consistent_create (data : TaskData) :
    (createAsyncTaskHandle data).Consistent := by
  cases data <;>
    first
      | exact FunctionQueue.backed_empty
      | exact AsyncStartStopTask.consistent_create _

theorem Quiet.isInTransition (quiet : handle.Quiet) :
    handle.isInTransition = false := by
  cases handle with
  | startStop task =>
      have idle : task.currentOperation = none := quiet
      simp [AsyncTaskHandle.isInTransition, AsyncStartStopTask.isInTransition,
        idle]
  | sync adaptor => rfl

theorem Consistent.isRunning_of_quiet (consistent : handle.Consistent)
    (quiet : handle.Quiet) : handle.isRunning = handle.getShouldWork := by
  cases handle with
  | startStop task =>
      have idle : task.currentOperation = none := quiet
      simp only [Consistent, AsyncStartStopTask.Consistent, idle] at consistent
      exact consistent
  | sync adaptor => rfl

theorem setShouldWork_consistent (forks : answers.fork = true)
    (consistent : handle.Consistent) :
    (handle.setShouldWork answers s).1.Consistent := by
  cases handle with
  | startStop task =>
      simp only [setShouldWork, forks]
      exact AsyncStartStopTask.setShouldWork_consistent consistent
  | sync adaptor =>
      simp only [setShouldWork, Consistent, SyncTaskAdaptor.setShouldWork_fq]
      exact FunctionQueue.Backed.push consistent ()

/-- A handle that had something to do is waiting for a callback once told. -/
theorem setShouldWork_not_quiet (forks : answers.fork = true)
    (needed : handle.isInTransition = true ∨ handle.isRunning ≠ s) :
    ¬ (handle.setShouldWork answers s).1.Quiet := by
  cases handle with
  | startStop task =>
      intro quiet
      have waiting := AsyncStartStopTask.setShouldWork_isInTransition needed
      simp only [setShouldWork, forks] at quiet
      rw [AsyncStartStopTask.isInTransition, quiet] at waiting
      contradiction
  | sync adaptor =>
      simp [setShouldWork, Quiet, FunctionQueue.push, Eventfd.notify]

/-- Once told, a handle either does as told or will find it out by itself. -/
theorem setShouldWork_settles (forks : answers.fork = true)
    (consistent : handle.Consistent) :
    (handle.setShouldWork answers s).1.isInTransition = true ∨
      (handle.setShouldWork answers s).1.isRunning = s := by
  cases handle with
  | sync adaptor => exact .inr (by simp [setShouldWork, isRunning])
  | startStop task =>
      by_cases waiting : (startStop task).isInTransition = true ∨
          (startStop task).isRunning ≠ s
      · left
        simp only [setShouldWork, forks]
        exact AsyncStartStopTask.setShouldWork_isInTransition waiting
      · right
        simp only [not_or, not_not] at waiting
        simpa [setShouldWork, isRunning, AsyncStartStopTask.isRunning]
          using waiting.2

end AsyncTaskHandle

end Initd
