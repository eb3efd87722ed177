import Initd.Runtime.Task

namespace Initd

open Library

/-! What `task::sync` changes, and the bookkeeping that it keeps. -/

theorem addDelta_one {counter : Nat} (room : counter + 1 < sizeBound) :
    addDelta counter 1 = counter + 1 := by
  unfold addDelta sizeBound at *
  omega

theorem addDelta_neg_one {counter : Nat} (positive : 0 < counter)
    (bounded : counter < sizeBound) :
    addDelta counter (-1) = counter - 1 := by
  unfold addDelta sizeBound at *
  omega

/-- What a loop that adds the same delta several times makes of a counter. -/
def addRepeatedly (delta : Int) (times counter : Nat) : Nat :=
  (fun c => addDelta c delta)^[times] counter

theorem addRepeatedly_one (times : Nat) :
    ∀ counter, counter + times < sizeBound →
      addRepeatedly 1 times counter = counter + times := by
  unfold addRepeatedly
  induction times with
  | zero => intro counter _; rfl
  | succ times induction =>
      intro counter room
      rw [Function.iterate_succ_apply, addDelta_one (by omega),
        induction _ (by omega)]
      omega

theorem addRepeatedly_neg_one (times : Nat) :
    ∀ counter, times ≤ counter → counter < sizeBound →
      addRepeatedly (-1) times counter = counter - times := by
  unfold addRepeatedly
  induction times with
  | zero => intro counter _ _; rfl
  | succ times induction =>
      intro counter enough bounded
      rw [Function.iterate_succ_apply, addDelta_neg_one (by omega) bounded,
        induction _ (by omega) (by omega)]
      omega

namespace TaskGraph

variable {n : Nat} (graph : TaskGraph n)

/-- How many edges lead from `dependant` to `dependency`. -/
def edges (dependant dependency : Fin n) : Nat :=
  (graph.dependencies dependant).count dependency

theorem edges_pos {dependant dependency : Fin n} :
    0 < graph.edges dependant dependency ↔
      dependency ∈ graph.dependencies dependant :=
  List.count_pos_iff

theorem mem_dependants {dependant dependency : Fin n} :
    dependant ∈ graph.dependants dependency ↔
      dependency ∈ graph.dependencies dependant := by
  rw [← List.count_pos_iff, ← graph.mirrored, List.count_pos_iff]

private theorem sum_count (tasks : List (Fin n)) :
    ∑ t, tasks.count t = tasks.length := by
  have total := Multiset.sum_count_eq_card (s := Finset.univ)
    (m := (tasks : Multiset (Fin n))) (fun t _ => Finset.mem_univ t)
  simpa using total

theorem sum_edges_from (dependant : Fin n) :
    ∑ dependency, graph.edges dependant dependency < sizeBound := by
  simpa [edges, sum_count] using graph.dependencies_size dependant

theorem sum_edges_to (dependency : Fin n) :
    ∑ dependant, graph.edges dependant dependency < sizeBound := by
  simp only [edges, graph.mirrored]
  simpa [sum_count] using graph.dependants_size dependency

end TaskGraph

namespace InitdState

variable {n : Nat}

/-- The three counters are the numbers that they cache: of edges, counted with
their multiplicity, and of tasks. -/
structure Counters (graph : TaskGraph n) (state : InitdState n) : Prop where
  runningDependants : ∀ dependency,
    (state.tasks dependency).runningDependants =
      flagSum (fun dependant => graph.edges dependant dependency)
        fun dependant => (state.tasks dependant).countedInDependencies
  stoppedDependencies : ∀ dependant,
    (state.tasks dependant).stoppedDependencies =
      flagSum (fun dependency => graph.edges dependant dependency)
        fun dependency => !(state.tasks dependency).countedInDependants
  pendingTasks : state.pendingTasks =
    flagSum (fun _ => 1) fun t => (state.tasks t).countedInPendingTasks

theorem iterate_runningDependants (delta : Int) (times : Nat) (task : Task) :
    (fun task : Task => { task with
        runningDependants := addDelta task.runningDependants delta })^[times]
        task =
      { task with
          runningDependants := addRepeatedly delta times task.runningDependants } := by
  induction times generalizing task with
  | zero => rfl
  | succ times induction => rw [Function.iterate_succ_apply, induction]; rfl

theorem iterate_stoppedDependencies (delta : Int) (times : Nat) (task : Task) :
    (fun task : Task => { task with
        stoppedDependencies := addDelta task.stoppedDependencies delta })^[times]
        task =
      { task with
          stoppedDependencies := addRepeatedly delta times task.stoppedDependencies } := by
  induction times generalizing task with
  | zero => rfl
  | succ times induction => rw [Function.iterate_succ_apply, induction]; rfl

section Increments

variable (graph : TaskGraph n) (t other : Fin n) (delta : Int)
  (state : InitdState n)

@[simp] theorem incrementCounterInDependencies_tasks :
    (state.incrementCounterInDependencies graph t delta).tasks other =
      { state.tasks other with
          runningDependants := addRepeatedly delta (graph.edges t other)
              (state.tasks other).runningDependants } := by
  unfold incrementCounterInDependencies
  rw [foldl_modify_tasks, iterate_runningDependants]
  rfl

@[simp] theorem incrementCounterInDependants_tasks :
    (state.incrementCounterInDependants graph t delta).tasks other =
      { state.tasks other with
          stoppedDependencies := addRepeatedly delta (graph.edges other t)
              (state.tasks other).stoppedDependencies } := by
  unfold incrementCounterInDependants
  rw [foldl_modify_tasks, iterate_stoppedDependencies, ← graph.mirrored]
  rfl

@[simp] theorem incrementCounterInDependencies_pendingTasks :
    (state.incrementCounterInDependencies graph t delta).pendingTasks =
      state.pendingTasks :=
  foldl_modify_pendingTasks _ _ _

@[simp] theorem incrementCounterInDependants_pendingTasks :
    (state.incrementCounterInDependants graph t delta).pendingTasks =
      state.pendingTasks :=
  foldl_modify_pendingTasks _ _ _

end Increments

/-! One conditional of `sync` at a time: the new value of each field. -/

section Stages

variable (graph : TaskGraph n) (t other : Fin n) (state : InitdState n)

theorem syncDependencies_tasks :
    ∃ counter, (syncDependencies graph t state).tasks other =
      { state.tasks other with
          runningDependants := counter
          countedInDependencies :=
            if other = t then (state.tasks t).affectDependencies
            else (state.tasks other).countedInDependencies } := by
  unfold syncDependencies
  by_cases changed : (state.tasks t).affectDependencies ≠
      (state.tasks t).countedInDependencies
  · simp only [if_pos changed, modify_tasks,
      incrementCounterInDependencies_tasks]
    split <;> exact ⟨_, rfl⟩
  · refine ⟨(state.tasks other).runningDependants, ?_⟩
    simp only [if_neg changed]
    by_cases same : other = t
    · subst other
      simp [not_not.mp changed]
    · simp [same]

theorem syncDependants_tasks :
    ∃ counter, (syncDependants graph t state).tasks other =
      { state.tasks other with
          stoppedDependencies := counter
          countedInDependants :=
            if other = t then (state.tasks t).affectDependants
            else (state.tasks other).countedInDependants } := by
  unfold syncDependants
  by_cases changed : (state.tasks t).affectDependants ≠
      (state.tasks t).countedInDependants
  · simp only [if_pos changed, modify_tasks,
      incrementCounterInDependants_tasks]
    split <;> exact ⟨_, rfl⟩
  · refine ⟨(state.tasks other).stoppedDependencies, ?_⟩
    simp only [if_neg changed]
    by_cases same : other = t
    · subst other
      simp [not_not.mp changed]
    · simp [same]

theorem syncPendingTasks_tasks :
    (syncPendingTasks t state).tasks other =
      { state.tasks other with
          countedInPendingTasks :=
            if other = t then (state.tasks t).affectPendingTasks
            else (state.tasks other).countedInPendingTasks } := by
  unfold syncPendingTasks
  by_cases changed : (state.tasks t).affectPendingTasks ≠
      (state.tasks t).countedInPendingTasks
  · simp only [if_pos changed, modify_tasks]
    split <;> rfl
  · simp only [if_neg changed]
    by_cases same : other = t
    · subst other
      simp [not_not.mp changed]
    · simp [same]

@[simp] theorem syncDependencies_pendingTasks :
    (syncDependencies graph t state).pendingTasks = state.pendingTasks := by
  simp only [syncDependencies]
  split <;> simp

@[simp] theorem syncDependants_pendingTasks :
    (syncDependants graph t state).pendingTasks = state.pendingTasks := by
  simp only [syncDependants]
  split <;> simp

/-- `sync` changes the counters of the neighbours and the flags of its task,
which become the three predicates of its handle and `should_work`. -/
theorem sync_tasks :
    ∃ running stopped, (sync graph t state).tasks other =
      { state.tasks other with
          runningDependants := running
          stoppedDependencies := stopped
          countedInDependencies :=
            if other = t then (state.tasks t).affectDependencies
            else (state.tasks other).countedInDependencies
          countedInDependants :=
            if other = t then (state.tasks t).affectDependants
            else (state.tasks other).countedInDependants
          countedInPendingTasks :=
            if other = t then (state.tasks t).affectPendingTasks
            else (state.tasks other).countedInPendingTasks } := by
  obtain ⟨running, first⟩ := syncDependencies_tasks graph t other state
  obtain ⟨_, firstSelf⟩ := syncDependencies_tasks graph t t state
  obtain ⟨stopped, second⟩ :=
    syncDependants_tasks graph t other (syncDependencies graph t state)
  obtain ⟨_, secondSelf⟩ :=
    syncDependants_tasks graph t t (syncDependencies graph t state)
  refine ⟨running, stopped, ?_⟩
  rw [sync, syncPendingTasks_tasks, second, secondSelf, first, firstSelf]
  rfl

@[simp] theorem sync_handle :
    ((sync graph t state).tasks other).handle = (state.tasks other).handle := by
  obtain ⟨_, _, equal⟩ := sync_tasks graph t other state
  rw [equal]

@[simp] theorem sync_shouldWork :
    ((sync graph t state).tasks other).shouldWork =
      (state.tasks other).shouldWork := by
  obtain ⟨_, _, equal⟩ := sync_tasks graph t other state
  rw [equal]

theorem sync_countedInDependencies :
    ((sync graph t state).tasks other).countedInDependencies =
      if other = t then (state.tasks t).affectDependencies
      else (state.tasks other).countedInDependencies := by
  obtain ⟨_, _, equal⟩ := sync_tasks graph t other state
  rw [equal]

theorem sync_countedInDependants :
    ((sync graph t state).tasks other).countedInDependants =
      if other = t then (state.tasks t).affectDependants
      else (state.tasks other).countedInDependants := by
  obtain ⟨_, _, equal⟩ := sync_tasks graph t other state
  rw [equal]

theorem sync_countedInPendingTasks :
    ((sync graph t state).tasks other).countedInPendingTasks =
      if other = t then (state.tasks t).affectPendingTasks
      else (state.tasks other).countedInPendingTasks := by
  obtain ⟨_, _, equal⟩ := sync_tasks graph t other state
  rw [equal]

end Stages

/-! The flags of a stage as one function over the tasks, and its counters. -/

section Bookkeeping

variable {graph : TaskGraph n} {t : Fin n} {state : InitdState n}

private theorem syncDependencies_flags :
    (fun other =>
      ((syncDependencies graph t state).tasks other).countedInDependencies) =
      Function.update
        (fun other => (state.tasks other).countedInDependencies) t
        (state.tasks t).affectDependencies := by
  funext other
  obtain ⟨_, equal⟩ := syncDependencies_tasks graph t other state
  rw [equal, Function.update_apply]

private theorem syncDependants_flags :
    (fun other =>
      !((syncDependants graph t state).tasks other).countedInDependants) =
      Function.update
        (fun other => !(state.tasks other).countedInDependants) t
        (!(state.tasks t).affectDependants) := by
  funext other
  obtain ⟨_, equal⟩ := syncDependants_tasks graph t other state
  rw [equal, Function.update_apply]
  split <;> rfl

private theorem syncPendingTasks_flags :
    (fun other =>
      ((syncPendingTasks t state).tasks other).countedInPendingTasks) =
      Function.update
        (fun other => (state.tasks other).countedInPendingTasks) t
        (state.tasks t).affectPendingTasks := by
  funext other
  rw [syncPendingTasks_tasks, Function.update_apply]

/-- The increments of one stage keep a counter equal to its sum of flags. -/
private theorem addRepeatedly_flagSum {weight : Fin n → Nat}
    (bounded : ∑ other, weight other < sizeBound) (flag : Fin n → Bool)
    (t : Fin n) {value : Bool} (changed : value ≠ flag t) :
    addRepeatedly (if value then 1 else -1) (weight t) (flagSum weight flag) =
      flagSum weight (Function.update flag t value) := by
  have before := flagSum_le_sum weight flag
  have after := flagSum_le_sum weight (Function.update flag t value)
  cases value with
  | true =>
      have clear : flag t = false := by simpa using changed.symm
      have grown := flagSum_set weight clear
      rw [if_pos rfl, addRepeatedly_one _ _ (by omega), grown]
  | false =>
      have set : flag t = true := by simpa using changed.symm
      have shrunk := flagSum_reset weight set
      have share := weight_le_flagSum weight set
      rw [if_neg (by simp), addRepeatedly_neg_one _ _ share (by omega), shrunk]

theorem Counters.syncDependencies (counters : Counters graph state) :
    Counters graph (syncDependencies graph t state) := by
  by_cases changed : (state.tasks t).affectDependencies ≠
      (state.tasks t).countedInDependencies
  · refine ⟨fun dependency => ?_, fun dependant => ?_, ?_⟩
    · rw [syncDependencies_flags,
        ← addRepeatedly_flagSum (graph.sum_edges_to dependency) _ t changed,
        ← counters.runningDependants dependency]
      simp only [InitdState.syncDependencies, if_pos changed, modify_tasks,
        incrementCounterInDependencies_tasks]
      split <;> rfl
    · obtain ⟨_, self⟩ := syncDependencies_tasks graph t dependant state
      rw [self, counters.stoppedDependencies]
      refine congrArg _ (funext fun dependency => ?_)
      obtain ⟨_, equal⟩ := syncDependencies_tasks graph t dependency state
      rw [equal]
    · rw [syncDependencies_pendingTasks, counters.pendingTasks]
      refine congrArg _ (funext fun other => ?_)
      obtain ⟨_, equal⟩ := syncDependencies_tasks graph t other state
      rw [equal]
  · simpa only [InitdState.syncDependencies, if_neg changed] using counters

theorem Counters.syncDependants (counters : Counters graph state) :
    Counters graph (syncDependants graph t state) := by
  by_cases changed : (state.tasks t).affectDependants ≠
      (state.tasks t).countedInDependants
  · have flipped : (!(state.tasks t).affectDependants) ≠
        !(state.tasks t).countedInDependants := by simpa using changed
    refine ⟨fun dependency => ?_, fun dependant => ?_, ?_⟩
    · obtain ⟨_, self⟩ := syncDependants_tasks graph t dependency state
      rw [self, counters.runningDependants]
      refine congrArg _ (funext fun dependant => ?_)
      obtain ⟨_, equal⟩ := syncDependants_tasks graph t dependant state
      rw [equal]
    · rw [syncDependants_flags,
        ← addRepeatedly_flagSum (graph.sum_edges_from dependant)
          (fun other => !(state.tasks other).countedInDependants) t flipped,
        ← counters.stoppedDependencies dependant]
      simp only [InitdState.syncDependants, if_pos changed, modify_tasks,
        incrementCounterInDependants_tasks]
      cases (state.tasks t).affectDependants <;> split <;> rfl
    · rw [syncDependants_pendingTasks, counters.pendingTasks]
      refine congrArg _ (funext fun other => ?_)
      obtain ⟨_, equal⟩ := syncDependants_tasks graph t other state
      rw [equal]
  · simpa only [InitdState.syncDependants, if_neg changed] using counters

theorem Counters.syncPendingTasks (counters : Counters graph state) :
    Counters graph (syncPendingTasks t state) := by
  refine ⟨fun dependency => ?_, fun dependant => ?_, ?_⟩
  · simpa only [syncPendingTasks_tasks] using
      counters.runningDependants dependency
  · simpa only [syncPendingTasks_tasks] using
      counters.stoppedDependencies dependant
  · by_cases changed : (state.tasks t).affectPendingTasks ≠
        (state.tasks t).countedInPendingTasks
    · have bounded : ∑ _ : Fin n, 1 < sizeBound := by
        simpa using graph.tasks_size
      rw [syncPendingTasks_flags,
        ← addRepeatedly_flagSum bounded _ t changed, ← counters.pendingTasks]
      simp only [InitdState.syncPendingTasks, if_pos changed,
        modify_pendingTasks]
      rfl
    · simpa only [InitdState.syncPendingTasks, if_neg changed] using
        counters.pendingTasks

theorem Counters.sync (counters : Counters graph state) :
    Counters graph (sync graph t state) :=
  counters.syncDependencies.syncDependants.syncPendingTasks

end Bookkeeping

end InitdState

end Initd
