import Initd.Runtime.Safety

namespace Initd

open Library

/-! No increment of a counter wraps, over every run. -/

/-- The addition to a `size_t` is the one of the integers. -/
def Exact (counter : Nat) (delta : Int) : Prop :=
  (addDelta counter delta : Int) = counter + delta

theorem exact_one {counter : Nat} (room : counter + 1 < sizeBound) :
    Exact counter 1 := by
  rw [Exact, addDelta_one room]
  rfl

theorem exact_neg_one {counter : Nat} (positive : 0 < counter)
    (bounded : counter < sizeBound) : Exact counter (-1) := by
  rw [Exact, addDelta_neg_one positive bounded]
  omega

namespace InitdState

variable {n : Nat}

/-- The loop of `increment_counter_in_dependencies` over some of its list. -/
def addToRunningDependants (delta : Int) (visited : List (Fin n))
    (state : InitdState n) : InitdState n :=
  visited.foldl
    (fun state dep => state.modify dep fun task =>
      { task with
          runningDependants := addDelta task.runningDependants delta })
    state

/-- The loop of `increment_counter_in_dependants` over some of its list. -/
def addToStoppedDependencies (delta : Int) (visited : List (Fin n))
    (state : InitdState n) : InitdState n :=
  visited.foldl
    (fun state dep => state.modify dep fun task =>
      { task with
          stoppedDependencies := addDelta task.stoppedDependencies delta })
    state

/-- Every addition that the sync of a task makes is exact, where each loop has
visited a part of its list before. -/
structure SyncExact (graph : TaskGraph n) (t : Fin n)
    (state : InitdState n) : Prop where
  runningDependants :
    let affect := (state.tasks t).affectDependencies
    let delta := if affect then 1 else -1
    affect ≠ (state.tasks t).countedInDependencies →
      ∀ visited dep rest, graph.dependencies t = visited ++ dep :: rest →
        Exact ((state.addToRunningDependants delta visited).tasks
          dep).runningDependants delta
  stoppedDependencies :
    let middle := syncDependencies graph t state
    let affect := (middle.tasks t).affectDependants
    let delta := if affect then -1 else 1
    affect ≠ (middle.tasks t).countedInDependants →
      ∀ visited dep rest, graph.dependants t = visited ++ dep :: rest →
        Exact ((middle.addToStoppedDependencies delta visited).tasks
          dep).stoppedDependencies delta
  pendingTasks :
    let middle := syncDependants graph t (syncDependencies graph t state)
    let affect := (middle.tasks t).affectPendingTasks
    affect ≠ (middle.tasks t).countedInPendingTasks →
      Exact middle.pendingTasks (if affect then 1 else -1)

variable {graph : TaskGraph n} {state : InitdState n}

theorem addToRunningDependants_self (delta : Int) (visited : List (Fin n))
    (dep : Fin n) :
    ((state.addToRunningDependants delta visited).tasks dep).runningDependants =
      addRepeatedly delta (visited.count dep)
        (state.tasks dep).runningDependants := by
  rw [addToRunningDependants, foldl_modify_tasks, iterate_runningDependants]

theorem addToStoppedDependencies_self (delta : Int) (visited : List (Fin n))
    (dep : Fin n) :
    ((state.addToStoppedDependencies delta visited).tasks
        dep).stoppedDependencies =
      addRepeatedly delta (visited.count dep)
        (state.tasks dep).stoppedDependencies := by
  rw [addToStoppedDependencies, foldl_modify_tasks, iterate_stoppedDependencies]

private theorem count_visited {tasks visited rest : List (Fin n)} {dep : Fin n}
    (split : tasks = visited ++ dep :: rest) :
    visited.count dep < tasks.count dep := by
  rw [split, List.count_append, List.count_cons_self]
  omega

/-- One more addition to a counter that caches a sum of flags, while fewer
additions were made than the changed flag weighs. -/
private theorem exact_addRepeatedly {weight : Fin n → Nat}
    (bounded : ∑ other, weight other < sizeBound) (flag : Fin n → Bool)
    {t : Fin n} {value : Bool} (changed : value ≠ flag t) {times : Nat}
    (few : times < weight t) :
    Exact (addRepeatedly (if value then 1 else -1) times (flagSum weight flag))
      (if value then 1 else -1) := by
  have below := flagSum_le_sum weight flag
  cases value with
  | true =>
      have clear : flag t = false := by simpa using changed.symm
      have grown := flagSum_set weight clear
      have above := flagSum_le_sum weight (Function.update flag t true)
      rw [if_pos rfl, addRepeatedly_one _ _ (by omega)]
      exact exact_one (by omega)
  | false =>
      have set : flag t = true := by simpa using changed.symm
      have share := weight_le_flagSum weight set
      rw [if_neg (by simp), addRepeatedly_neg_one _ _ (by omega) (by omega)]
      exact exact_neg_one (by omega) (by omega)

theorem Counters.sync_exact (counters : Counters graph state) (t : Fin n) :
    SyncExact graph t state where
  runningDependants := by
    intro affect delta changed visited dep rest split
    rw [addToRunningDependants_self, counters.runningDependants]
    exact exact_addRepeatedly (graph.sum_edges_to dep) _ changed
      (count_visited split)
  stoppedDependencies := by
    intro middle affect delta changed visited dep rest split
    have counters : Counters graph middle := counters.syncDependencies
    have flipped : (!affect) ≠ !(middle.tasks t).countedInDependants := by
      simpa using changed
    have few : visited.count dep < graph.edges dep t := by
      rw [TaskGraph.edges, graph.mirrored]
      exact count_visited split
    have sign : delta = if (!affect) = true then 1 else -1 := by
      simp only [delta]
      cases affect <;> rfl
    rw [addToStoppedDependencies_self, counters.stoppedDependencies, sign]
    exact exact_addRepeatedly (graph.sum_edges_from dep)
      (fun other => !(middle.tasks other).countedInDependants) flipped few
  pendingTasks := by
    intro middle affect changed
    have counters : Counters graph middle :=
      counters.syncDependencies.syncDependants
    have bounded : ∑ _ : Fin n, 1 < sizeBound := by
      simpa using graph.tasks_size
    rw [counters.pendingTasks]
    exact exact_addRepeatedly bounded _ changed Nat.one_pos

/-- The bookkeeping over every run: between steps, after every action inside a
step, at every sync that a step makes, and after the two sync loops. -/
theorem bookkeeping {descriptions : TaskDescriptions n} {state : InitdState n}
    (reached : (initdSystem descriptions fun _ => True).Reachable state) :
    Counters descriptions.graph state ∧
      (∀ environment event call,
        state.step descriptions.graph environment event = some call →
          Counters descriptions.graph call.state ∧
            ∀ entry ∈ call.log, Counters descriptions.graph entry.2) ∧
      (∀ flags (visited : List (Fin n)) t,
        let before := visited.foldl
          (fun state t => sync descriptions.graph t state)
          (state.withShouldWork flags)
        Counters descriptions.graph before ∧
          SyncExact descriptions.graph t before) ∧
      (∀ t handle,
        let before := state.modify t fun task => { task with handle := handle }
        Counters descriptions.graph before ∧
          SyncExact descriptions.graph t before) ∧
      (∀ requisites, ∃ selected,
        selectRunLevel descriptions.graph requisites state = some selected ∧
          ∀ t, (selected.tasks t).Synced) ∧
      ∀ t, ((syncAll descriptions.graph
        state.clearShouldWorkFlag).tasks t).Synced := by
  have safe := reachable_safe reached
  refine ⟨safe.counters, fun environment event call stepped => ?_,
    fun flags visited t => ?_, fun t handle => ?_, fun requisites => ?_,
    syncAll_synced _ _⟩
  · have called := step_safe safe stepped
    exact ⟨called.state.counters,
      fun entry member => (called.logged entry member).1.counters⟩
  · have counters := (safe.counters.withShouldWork flags).foldl_sync visited
    exact ⟨counters, counters.sync_exact t⟩
  · have counters := safe.counters.replaceHandle t handle
    exact ⟨counters, counters.sync_exact t⟩
  · obtain ⟨selected, selects⟩ :=
      exists_selectRunLevel descriptions.graph requisites state
    exact ⟨selected, selects, (selectRunLevel_selected selects).synced⟩

theorem bookkeeping_serviceStarting :
    Counters serviceOverControl.graph serviceStarting ∧
      SyncExact serviceOverControl.graph 1 serviceStarting ∧
      ∀ t, ((syncAll serviceOverControl.graph
        serviceStarting.clearShouldWorkFlag).tasks t).Synced := by
  obtain ⟨counters, -, loops, -, -, synced⟩ :=
    bookkeeping (serviceStarting_reachable trivial)
  exact ⟨counters, (loops (fun t => (serviceStarting.tasks t).shouldWork) [] 1).2,
    synced⟩

end InitdState

end Initd
