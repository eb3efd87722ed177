import Initd.Config.TaskDescriptions
import Initd.Library.StepSystem
import Initd.Runtime.Sync

namespace Initd

open Library

/-! `initd_state`: its constructor, its members and its callbacks. -/

/-- The objects under construction: both adjacency lists of every task, and the
rest of the tasks. -/
structure Wiring (n : Nat) where
  dependencies : Fin n → List (Fin n)
  dependants : Fin n → List (Fin n)
  state : InitdState n

/-- `add_task_dependency`.  Its assertion holds, as no handle is running before
the constructor returns. -/
def addTaskDependency {n : Nat} (dependant dependency : Fin n)
    (wiring : Wiring n) : Wiring n where
  dependencies := Function.update wiring.dependencies dependant
    (wiring.dependencies dependant ++ [dependency])
  dependants := Function.update wiring.dependants dependency
    (wiring.dependants dependency ++ [dependant])
  state := wiring.state.modify dependant fun task =>
    { task with stoppedDependencies := addDelta task.stoppedDependencies 1 }

namespace TaskDescriptions

variable {n : Nat} (descriptions : TaskDescriptions n)

/-- The tasks as the first loop of the constructor makes them. -/
def createTasks : Wiring n where
  dependencies _ := []
  dependants _ := []
  state := {
    tasks := fun t =>
      Task.create (createAsyncTaskHandle (descriptions.allTasks t).data)
    pendingTasks := 0 }

def wire : Wiring n :=
  (List.finRange n).foldl
    (fun wiring i =>
      (descriptions.allTasks i).dependencies.foldl
        (fun wiring dep => addTaskDependency i dep wiring) wiring)
    descriptions.createTasks

end TaskDescriptions

namespace InitdState

variable {n : Nat}

def hasPendingOperations (state : InitdState n) : Bool :=
  state.pendingTasks != 0

def clearShouldWorkFlag (state : InitdState n) : InitdState n :=
  (List.finRange n).foldl (fun state t => state.clearShouldWork t) state

def syncAll (graph : TaskGraph n) (state : InitdState n) : InitdState n :=
  (List.finRange n).foldl (fun state t => sync graph t state) state

def enqueueAll (environment : Environment n) (tts : List (Fin n)) :
    InitdState n → Call n :=
  Outcome.forEach (enqueueThis environment) tts

/-- The loop over the requisites of a run level.  A recursion of
`mark_should_work` marks a further task at every level, so that this fuel is
enough. -/
def markRequisites (graph : TaskGraph n) (requisites : List (Fin n))
    (state : InitdState n) : Option (InitdState n) :=
  requisites.foldlM
    (fun state d => markShouldWork graph (n + 1) d state) state

/-- The flags and counters of a run level, before any task is enqueued. -/
def selectRunLevel (graph : TaskGraph n) (requisites : List (Fin n))
    (state : InitdState n) : Option (InitdState n) :=
  (markRequisites graph requisites state.clearShouldWorkFlag).map
    (syncAll graph)

def setRunLevel (graph : TaskGraph n) (environment : Environment n)
    (runLevelName : Bytes) (state : InitdState n) : Option (Call n) :=
  match graph.runLevels.lookup runLevelName with
  | none => some ⟨state, [], true⟩
  | some requisites =>
      (selectRunLevel graph requisites state).map
        (enqueueAll environment (List.finRange n))

def setEmptyRunLevel (graph : TaskGraph n) (environment : Environment n)
    (state : InitdState n) : Call n :=
  enqueueAll environment (List.finRange n)
    (syncAll graph state.clearShouldWorkFlag)

/-- The `state_changed` callback that the constructor gives to each handle. -/
def stateChanged (graph : TaskGraph n) (environment : Environment n)
    (t : Fin n) (state : InitdState n) : Call n :=
  let state := sync graph t state
  if (state.tasks t).handle.isRunning then
    enqueueAll environment (graph.dependants t) state
  else
    enqueueAll environment (graph.dependencies t) state

/-- The `wait_child` callback of an outstanding operation. -/
def childExited (graph : TaskGraph n) (environment : Environment n)
    (t : Fin n) (state : InitdState n) : Option (Call n) :=
  match (state.tasks t).handle with
  | .sync _ => none
  | .startStop task =>
      match task.operationCompleted (environment t).fork with
      | none => none
      | some (task, result) =>
          let state := state.modify t fun t =>
            { t with handle := .startStop task }
          some ((afterFork t state result).bind
            (stateChanged graph environment t))

def callbackDelivered (graph : TaskGraph n) (environment : Environment n)
    (t : Fin n) (state : InitdState n) : Option (Call n) :=
  match (state.tasks t).handle with
  | .startStop _ => none
  | .sync adaptor =>
      match adaptor.fq.deliver with
      | none => none
      | some ((), fq) =>
          let state := state.modify t fun t =>
            { t with handle := .sync { adaptor with fq := fq } }
          some (stateChanged graph environment t state)

inductive Event (n : Nat)
  | setRunLevel (runLevelName : Bytes)
  | setEmptyRunLevel
  | childExited (task : Fin n)
  | callbackDelivered (task : Fin n)
  deriving DecidableEq, Repr

/-- One step of the event loop, where its event can occur. -/
def step (graph : TaskGraph n) (environment : Environment n) (event : Event n)
    (state : InitdState n) : Option (Call n) :=
  match event with
  | .setRunLevel runLevelName =>
      state.setRunLevel graph environment runLevelName
  | .setEmptyRunLevel => some (state.setEmptyRunLevel graph environment)
  | .childExited t => state.childExited graph environment t
  | .callbackDelivered t => state.callbackDelivered graph environment t

end InitdState

end Initd
