import Initd.Library.FlagSum
import Initd.Library.Outcome
import Initd.Tasks.AsyncTaskHandle
import Mathlib.Data.List.FinRange
import Mathlib.Logic.Function.Iterate

namespace Initd

open Library

/-! The members of `task`, over the tasks of one `initd_state`. -/

def sizeBound : Nat := 2 ^ 64

/-- `counter += delta` for a `size_t` and a `ptrdiff_t`, which wraps. -/
def addDelta (counter : Nat) (delta : Int) : Nat :=
  (((counter : Int) + delta) % (sizeBound : Int)).toNat

/-- A task without its two adjacency lists, which `TaskGraph` holds, as they
do not change once they are built. -/
structure Task where
  handle : AsyncTaskHandle
  shouldWork : Bool
  stoppedDependencies : Nat
  runningDependants : Nat
  countedInDependencies : Bool
  countedInDependants : Bool
  countedInPendingTasks : Bool
  deriving DecidableEq, Repr

/-- The task graph of an `initd_state`, over its tasks in the order of the
vector that owns them.  Each list is a vector, so a `size_t` holds its size. -/
structure TaskGraph (n : Nat) where
  dependencies : Fin n → List (Fin n)
  dependants : Fin n → List (Fin n)
  runLevels : List (Bytes × List (Fin n))
  mirrored : ∀ dependant dependency,
    (dependencies dependant).count dependency =
      (dependants dependency).count dependant
  dependencies_size : ∀ task, (dependencies task).length < sizeBound
  dependants_size : ∀ task, (dependants task).length < sizeBound
  tasks_size : n < sizeBound

structure InitdState (n : Nat) where
  tasks : Fin n → Task
  pendingTasks : Nat

/-- The calls of one step that reach a handle or the kernel. -/
inductive Action (n : Nat)
  | setShouldWork (task : Fin n) (s : Bool)
  | launched (task : Fin n) (operation : Operation) (command : Command)
  deriving DecidableEq, Repr

abbrev Environment (n : Nat) := Fin n → Answers

/-- The result of a member of `initd_state`, or of a task called by one. -/
abbrev Call (n : Nat) := Outcome (InitdState n) (Action n)

namespace Task

def create (handle : AsyncTaskHandle) : Task where
  handle := handle
  shouldWork := false
  stoppedDependencies := 0
  runningDependants := 0
  countedInDependencies := false
  countedInDependants := false
  countedInPendingTasks := false

def affectDependencies (task : Task) : Bool :=
  task.handle.isRunning || task.handle.isInTransition

def affectDependants (task : Task) : Bool :=
  task.handle.isRunning && !task.handle.isInTransition

def affectPendingTasks (task : Task) : Bool :=
  task.handle.isInTransition || task.handle.isRunning != task.shouldWork

def areDependenciesRunning (task : Task) : Bool :=
  task.stoppedDependencies == 0

def areDependantsStopped (task : Task) : Bool :=
  task.runningDependants == 0

def mayStart (task : Task) : Bool :=
  (!task.handle.isRunning || task.handle.isInTransition) &&
    task.shouldWork && task.areDependenciesRunning

def mayStop (task : Task) : Bool :=
  (task.handle.isRunning || task.handle.isInTransition) &&
    !task.shouldWork && task.areDependantsStopped

theorem affectDependencies_iff {task : Task} :
    task.affectDependencies = true ↔
      task.handle.isRunning = true ∨ task.handle.isInTransition = true := by
  simp [affectDependencies]

theorem affectDependencies_of_affectDependants {task : Task}
    (full : task.affectDependants = true) :
    task.affectDependencies = true := by
  simp only [affectDependants, Bool.and_eq_true] at full
  simp [affectDependencies, full.1]

theorem mayStart_iff {task : Task} :
    task.mayStart = true ↔ task.affectDependants = false ∧
      task.shouldWork = true ∧ task.stoppedDependencies = 0 := by
  cases running : task.handle.isRunning <;>
    cases transition : task.handle.isInTransition <;>
      simp [mayStart, affectDependants, areDependenciesRunning, running,
        transition]

theorem mayStop_iff {task : Task} :
    task.mayStop = true ↔ task.affectDependencies = true ∧
      task.shouldWork = false ∧ task.runningDependants = 0 := by
  simp [mayStop, affectDependencies, areDependantsStopped, and_assoc]

end Task

namespace InitdState

variable {n : Nat}

def modify (state : InitdState n) (t : Fin n) (change : Task → Task) :
    InitdState n :=
  { state with tasks := Function.update state.tasks t (change (state.tasks t)) }

@[simp] theorem modify_pendingTasks (state : InitdState n) (t : Fin n)
    (change : Task → Task) :
    (state.modify t change).pendingTasks = state.pendingTasks := rfl

@[simp] theorem modify_self (state : InitdState n) (t : Fin n)
    (change : Task → Task) :
    (state.modify t change).tasks t = change (state.tasks t) := by
  simp [modify]

@[simp] theorem modify_of_ne (state : InitdState n) {t other : Fin n}
    (different : other ≠ t) (change : Task → Task) :
    (state.modify t change).tasks other = state.tasks other := by
  simp [modify, different]

theorem modify_tasks (state : InitdState n) (t other : Fin n)
    (change : Task → Task) :
    (state.modify t change).tasks other =
      if other = t then change (state.tasks other) else state.tasks other := by
  by_cases same : other = t
  · subst other
    simp
  · simp [same]

/-- A loop over a vector of tasks changes a task once for each time it is in
the vector. -/
theorem foldl_modify_tasks (change : Task → Task) (visited : List (Fin n))
    (state : InitdState n) (other : Fin n) :
    (visited.foldl (fun state t => state.modify t change) state).tasks other =
      change^[visited.count other] (state.tasks other) := by
  induction visited generalizing state with
  | nil => rfl
  | cons t rest induction =>
      rw [List.foldl_cons, induction, modify_tasks, List.count_cons]
      by_cases same : t = other
      · subst t
        simp [Function.iterate_succ_apply]
      · simp [same, Ne.symm same]

@[simp] theorem foldl_modify_pendingTasks (change : Task → Task)
    (visited : List (Fin n)) (state : InitdState n) :
    (visited.foldl (fun state t => state.modify t change) state).pendingTasks =
      state.pendingTasks := by
  induction visited generalizing state with
  | nil => rfl
  | cons t rest induction => rw [List.foldl_cons, induction]; rfl

def clearShouldWork (t : Fin n) (state : InitdState n) : InitdState n :=
  state.modify t fun task => { task with shouldWork := false }

/-- `none` only where the fuel for the recursion runs out. -/
def markShouldWork (graph : TaskGraph n) :
    Nat → Fin n → InitdState n → Option (InitdState n)
  | 0, _, _ => none
  | fuel + 1, t, state =>
      let old := (state.tasks t).shouldWork
      let state := state.modify t fun task => { task with shouldWork := true }
      if !old then
        (graph.dependencies t).foldlM
          (fun state dep => markShouldWork graph fuel dep state) state
      else
        some state

def incrementCounterInDependencies (graph : TaskGraph n) (t : Fin n)
    (delta : Int) (state : InitdState n) : InitdState n :=
  (graph.dependencies t).foldl
    (fun state dep => state.modify dep fun task =>
      { task with
          runningDependants := addDelta task.runningDependants delta })
    state

def incrementCounterInDependants (graph : TaskGraph n) (t : Fin n)
    (delta : Int) (state : InitdState n) : InitdState n :=
  (graph.dependants t).foldl
    (fun state dep => state.modify dep fun task =>
      { task with
          stoppedDependencies := addDelta task.stoppedDependencies delta })
    state

def syncDependencies (graph : TaskGraph n) (t : Fin n)
    (state : InitdState n) : InitdState n :=
  let affectDependencies := (state.tasks t).affectDependencies
  if affectDependencies ≠ (state.tasks t).countedInDependencies then
    (state.incrementCounterInDependencies graph t
      (if affectDependencies then 1 else -1)).modify t fun task =>
        { task with countedInDependencies := affectDependencies }
  else
    state

def syncDependants (graph : TaskGraph n) (t : Fin n)
    (state : InitdState n) : InitdState n :=
  let affectDependants := (state.tasks t).affectDependants
  if affectDependants ≠ (state.tasks t).countedInDependants then
    (state.incrementCounterInDependants graph t
      (if affectDependants then -1 else 1)).modify t fun task =>
        { task with countedInDependants := affectDependants }
  else
    state

def syncPendingTasks (t : Fin n) (state : InitdState n) : InitdState n :=
  let affectPendingTasks := (state.tasks t).affectPendingTasks
  if affectPendingTasks ≠ (state.tasks t).countedInPendingTasks then
    let state := { state with
      pendingTasks := addDelta state.pendingTasks
        (if affectPendingTasks then 1 else -1) }
    state.modify t fun task =>
      { task with countedInPendingTasks := affectPendingTasks }
  else
    state

/-- `task::sync`, one of its three conditionals after the other. -/
def sync (graph : TaskGraph n) (t : Fin n) (state : InitdState n) :
    InitdState n :=
  syncPendingTasks t (syncDependants graph t (syncDependencies graph t state))

/-- A call so far, once the handle of `t` has made its fork or not. -/
def afterFork (t : Fin n) (state : InitdState n) : ForkResult → Call n
  | .notCalled => ⟨state, [], false⟩
  | .launched operation command =>
      ⟨state, [(.launched t operation command, state)], false⟩
  | .threw => ⟨state, [], true⟩

def setShouldWork (environment : Environment n) (t : Fin n) (s : Bool)
    (state : InitdState n) : Call n :=
  let result := (state.tasks t).handle.setShouldWork (environment t) s
  let state := state.modify t fun task => { task with handle := result.1 }
  let call := afterFork t state result.2
  { call with log := call.log ++ [(.setShouldWork t s, state)] }

def enqueueThis (environment : Environment n) (t : Fin n)
    (state : InitdState n) : Call n :=
  let started :=
    if (state.tasks t).mayStart then
      state.setShouldWork environment t true
    else
      .done state
  started.bind fun state =>
    if (state.tasks t).mayStop then
      state.setShouldWork environment t false
    else
      .done state

/-! The calls by what they come to. -/

section Calls

variable {environment : Environment n} {t : Fin n} {state : InitdState n}

@[simp] theorem afterFork_state (result : ForkResult) :
    (afterFork t state result).state = state := by
  cases result <;> rfl

theorem afterFork_threw {result : ForkResult} :
    (afterFork t state result).threw = true ↔ result = .threw := by
  cases result <;> simp [afterFork]

@[simp] theorem setShouldWork_state (s : Bool) :
    (state.setShouldWork environment t s).state =
      state.modify t fun task => { task with
        handle := (task.handle.setShouldWork (environment t) s).1 } := by
  simp only [setShouldWork, afterFork_state]
  rfl

theorem setShouldWork_log {s : Bool} {entry : Action n × InitdState n}
    (member : entry ∈ (state.setShouldWork environment t s).log) :
    entry.2 = (state.setShouldWork environment t s).state ∧
      (entry.1 = .setShouldWork t s ∨
        ∃ operation command, entry.1 = .launched t operation command) := by
  rw [setShouldWork_state]
  rcases List.mem_append.mp member with early | late
  · cases result : ((state.tasks t).handle.setShouldWork (environment t) s).2 with
    | notCalled => simp [afterFork, result] at early
    | threw => simp [afterFork, result] at early
    | launched operation command =>
        simp only [afterFork, result, List.mem_singleton] at early
        rw [early]
        exact ⟨rfl, .inr ⟨operation, command, rfl⟩⟩
  · rw [List.mem_singleton.mp late]
    exact ⟨rfl, .inl rfl⟩

theorem enqueueThis_cases :
    ((state.tasks t).mayStart = true ∧
        enqueueThis environment t state =
          state.setShouldWork environment t true) ∨
      ((state.tasks t).mayStop = true ∧
        enqueueThis environment t state =
          state.setShouldWork environment t false) ∨
      ((state.tasks t).mayStart = false ∧ (state.tasks t).mayStop = false ∧
        enqueueThis environment t state = .done state) := by
  unfold enqueueThis
  by_cases start : (state.tasks t).mayStart = true
  · refine .inl ⟨start, ?_⟩
    simp only [if_pos start]
    refine Outcome.bind_eq_self (if_neg ?_)
    have wanted := (Task.mayStart_iff.mp start).2.1
    rw [setShouldWork_state, modify_self, Task.mayStop_iff]
    simp [wanted]
  · simp only [if_neg start, Outcome.done_bind]
    by_cases stop : (state.tasks t).mayStop = true
    · exact .inr (.inl ⟨stop, if_pos stop⟩)
    · exact .inr (.inr ⟨by simpa using start, by simpa using stop, if_neg stop⟩)

end Calls

end InitdState

end Initd
