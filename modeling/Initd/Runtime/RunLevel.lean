import Initd.Library.Digraph
import Initd.Runtime.Construction

namespace Initd

open Library

/-! What the two run-level changes do before they enqueue any task. -/

/-- The three flags of a task agree with its handle and `should_work`. -/
structure Task.Synced (task : Task) : Prop where
  dependencies : task.countedInDependencies = task.affectDependencies
  dependants : task.countedInDependants = task.affectDependants
  pendingTasks : task.countedInPendingTasks = task.affectPendingTasks

namespace InitdState

variable {n : Nat}

def withShouldWork (flags : Fin n → Bool) (state : InitdState n) :
    InitdState n :=
  { state with tasks := fun t => { state.tasks t with shouldWork := flags t } }

theorem clearShouldWorkFlag_eq (state : InitdState n) :
    state.clearShouldWorkFlag = state.withShouldWork fun _ => false := by
  have tasks : state.clearShouldWorkFlag.tasks =
      (state.withShouldWork fun _ => false).tasks := by
    funext t
    have once : (List.finRange n).count t = 1 :=
      List.count_eq_one_of_mem (List.nodup_finRange n) (List.mem_finRange t)
    unfold clearShouldWorkFlag
    simp only [clearShouldWork, foldl_modify_tasks, once]
    rfl
  have pendingTasks : state.clearShouldWorkFlag.pendingTasks =
      state.pendingTasks := foldl_modify_pendingTasks _ _ _
  cases cleared : state.clearShouldWorkFlag with
  | mk tasks' pendingTasks' =>
      simp only [cleared] at tasks pendingTasks
      rw [tasks, pendingTasks]
      rfl

theorem modify_withShouldWork (state : InitdState n) (flags : Fin n → Bool)
    (t : Fin n) (value : Bool) :
    ((state.withShouldWork flags).modify t fun task =>
        { task with shouldWork := value }) =
      state.withShouldWork (Function.update flags t value) := by
  simp only [modify, withShouldWork, mk.injEq, and_true]
  funext other
  by_cases same : other = t
  · subst other
    simp
  · simp [same]

/-- The recursion of `mark_should_work` is the general walk on its flags. -/
theorem markShouldWork_eq (graph : TaskGraph n) (state : InitdState n) :
    ∀ fuel t flags,
      markShouldWork graph fuel t (state.withShouldWork flags) =
        (Digraph.mark graph.dependencies fuel t flags).map
          fun flags => state.withShouldWork flags
  | 0, _, _ => rfl
  | fuel + 1, t, flags => by
      have loop : ∀ (deps : List (Fin n)) (flags : Fin n → Bool),
          deps.foldlM (fun state dep => markShouldWork graph fuel dep state)
              (state.withShouldWork flags) =
            (deps.foldlM
              (fun flags dep => Digraph.mark graph.dependencies fuel dep flags)
              flags).map fun flags => state.withShouldWork flags := by
        intro deps
        induction deps with
        | nil => intro flags; rfl
        | cons dep rest induction =>
            intro flags
            rw [List.foldlM_cons, List.foldlM_cons,
              markShouldWork_eq graph state fuel dep flags]
            cases Digraph.mark graph.dependencies fuel dep flags with
            | none => rfl
            | some flags => exact induction flags
      rw [markShouldWork, Digraph.mark, modify_withShouldWork, loop]
      cases old : flags t <;> simp [withShouldWork, old]

theorem markRequisites_eq (graph : TaskGraph n) (requisites : List (Fin n))
    (state : InitdState n) (flags : Fin n → Bool) :
    markRequisites graph requisites (state.withShouldWork flags) =
      (requisites.foldlM
        (fun flags d => Digraph.mark graph.dependencies (n + 1) d flags)
        flags).map fun flags => state.withShouldWork flags := by
  induction requisites generalizing flags with
  | nil => rfl
  | cons d rest induction =>
      rw [markRequisites, List.foldlM_cons, List.foldlM_cons,
        markShouldWork_eq]
      cases Digraph.mark graph.dependencies (n + 1) d flags with
      | none => rfl
      | some flags => exact induction flags

theorem Counters.withShouldWork {graph : TaskGraph n} {state : InitdState n}
    (counters : Counters graph state) (flags : Fin n → Bool) :
    Counters graph (state.withShouldWork flags) :=
  ⟨counters.runningDependants, counters.stoppedDependencies,
    counters.pendingTasks⟩

/-! The sync loop. -/

section SyncLoop

variable (graph : TaskGraph n)

@[simp] theorem foldl_sync_handle (visited : List (Fin n))
    (state : InitdState n) (other : Fin n) :
    ((visited.foldl (fun state t => sync graph t state) state).tasks
        other).handle = (state.tasks other).handle := by
  induction visited generalizing state with
  | nil => rfl
  | cons t rest induction => rw [List.foldl_cons, induction, sync_handle]

@[simp] theorem foldl_sync_shouldWork (visited : List (Fin n))
    (state : InitdState n) (other : Fin n) :
    ((visited.foldl (fun state t => sync graph t state) state).tasks
        other).shouldWork = (state.tasks other).shouldWork := by
  induction visited generalizing state with
  | nil => rfl
  | cons t rest induction => rw [List.foldl_cons, induction, sync_shouldWork]

theorem Counters.foldl_sync {graph : TaskGraph n} (visited : List (Fin n))
    {state : InitdState n} (counters : Counters graph state) :
    Counters graph
      (visited.foldl (fun state t => InitdState.sync graph t state) state) :=
  List.foldlRecOn _ _ counters fun _ counters _ _ => counters.sync

theorem sync_synced (t : Fin n) (state : InitdState n) :
    ((sync graph t state).tasks t).Synced := by
  refine ⟨?_, ?_, ?_⟩
  · rw [sync_countedInDependencies, if_pos rfl]
    simp [Task.affectDependencies]
  · rw [sync_countedInDependants, if_pos rfl]
    simp [Task.affectDependants]
  · rw [sync_countedInPendingTasks, if_pos rfl]
    simp [Task.affectPendingTasks]

theorem synced_sync {graph : TaskGraph n} {t other : Fin n}
    {state : InitdState n} (synced : (state.tasks other).Synced) :
    ((sync graph t state).tasks other).Synced := by
  by_cases same : other = t
  · subst other
    exact sync_synced graph t state
  · obtain ⟨_, _, equal⟩ := sync_tasks graph t other state
    rw [equal]
    simp only [if_neg same]
    exact ⟨synced.dependencies, synced.dependants, synced.pendingTasks⟩

theorem foldl_sync_synced (visited : List (Fin n)) (state : InitdState n)
    {other : Fin n} (member : other ∈ visited) :
    ((visited.foldl (fun state t => sync graph t state) state).tasks
        other).Synced := by
  have later : ∀ (visited : List (Fin n)) (state : InitdState n),
      (state.tasks other).Synced →
        ((visited.foldl (fun state t => sync graph t state) state).tasks
          other).Synced := fun visited state synced =>
    List.foldlRecOn
      (motive := fun state : InitdState n => (state.tasks other).Synced)
      visited _ synced fun _ synced _ _ => synced_sync synced
  induction visited generalizing state with
  | nil => exact nomatch member
  | cons t rest induction =>
      rcases List.mem_cons.mp member with rfl | member
      · exact later rest _ (sync_synced graph other state)
      · exact induction _ member

@[simp] theorem syncAll_handle (state : InitdState n) (t : Fin n) :
    ((syncAll graph state).tasks t).handle = (state.tasks t).handle :=
  foldl_sync_handle graph _ _ _

@[simp] theorem syncAll_shouldWork (state : InitdState n) (t : Fin n) :
    ((syncAll graph state).tasks t).shouldWork = (state.tasks t).shouldWork :=
  foldl_sync_shouldWork graph _ _ _

theorem syncAll_synced (state : InitdState n) (t : Fin n) :
    ((syncAll graph state).tasks t).Synced :=
  foldl_sync_synced graph _ _ (List.mem_finRange t)

end SyncLoop

/-- What a run-level change leaves for its `enqueue_all`, where the tasks in
`closure` are those that should work. -/
structure Selected (graph : TaskGraph n) (closure : Fin n → Prop)
    (before after : InitdState n) : Prop where
  handle : ∀ t, (after.tasks t).handle = (before.tasks t).handle
  shouldWork : ∀ t, (after.tasks t).shouldWork = true ↔ closure t
  synced : ∀ t, (after.tasks t).Synced
  counters : Counters graph before → Counters graph after

theorem selected_syncAll (graph : TaskGraph n) (flags : Fin n → Bool)
    (state : InitdState n) :
    Selected graph (fun t => flags t = true) state
      (syncAll graph (state.withShouldWork flags)) where
  handle t := by rw [syncAll_handle]; rfl
  shouldWork t := by rw [syncAll_shouldWork]; rfl
  synced := syncAll_synced graph _
  counters counters := (counters.withShouldWork flags).foldl_sync _

def closure (graph : TaskGraph n) (requisites : List (Fin n)) (t : Fin n) :
    Prop :=
  ∃ d ∈ requisites, Digraph.Reaches graph.dependencies d t

theorem selectRunLevel_selected {graph : TaskGraph n}
    {requisites : List (Fin n)} {before after : InitdState n}
    (selects : selectRunLevel graph requisites before = some after) :
    Selected graph (closure graph requisites) before after := by
  rw [selectRunLevel, clearShouldWorkFlag_eq, markRequisites_eq,
    Option.map_map, Option.map_eq_some_iff] at selects
  obtain ⟨flags, marked, rfl⟩ := selects
  have walked := Digraph.foldlM_markedFrom
    (fun _ _ _ => Digraph.mark_markedFrom graph.dependencies (n + 1) _ _ _)
    requisites _ _ marked
  have selected := selected_syncAll graph flags before
  refine ⟨selected.handle, fun t => (selected.shouldWork t).trans ?_,
    selected.synced, selected.counters⟩
  exact walked.iff_reaches (fun _ => rfl) t

theorem setEmptyRunLevel_selected (graph : TaskGraph n)
    (state : InitdState n) :
    Selected graph (fun _ => False) state
      (syncAll graph state.clearShouldWorkFlag) := by
  have selected := selected_syncAll graph (fun _ => false) state
  rw [clearShouldWorkFlag_eq]
  exact ⟨selected.handle,
    fun t => (selected.shouldWork t).trans (by simp),
    selected.synced, selected.counters⟩

/-- The fuel of the recursion is enough for every graph and every level. -/
theorem exists_selectRunLevel (graph : TaskGraph n)
    (requisites : List (Fin n)) (state : InitdState n) :
    ∃ after, selectRunLevel graph requisites state = some after := by
  have loop : ∀ (roots : List (Fin n)) (flags : Fin n → Bool),
      ∃ after, roots.foldlM
        (fun flags d => Digraph.mark graph.dependencies (n + 1) d flags) flags =
          some after := by
    intro roots
    induction roots with
    | nil => exact fun flags => ⟨flags, rfl⟩
    | cons d rest induction =>
        intro flags
        have few : (Digraph.unmarked flags).card < n + 1 :=
          Nat.lt_succ_of_le ((Finset.card_le_univ _).trans_eq (by simp))
        obtain ⟨middle, walked⟩ :=
          Digraph.exists_mark graph.dependencies (n + 1) d flags few
        obtain ⟨after, finished⟩ := induction middle
        exact ⟨after, by simp [walked, finished]⟩
  obtain ⟨flags, marked⟩ := loop requisites fun _ => false
  refine ⟨syncAll graph (state.withShouldWork flags), ?_⟩
  rw [selectRunLevel, clearShouldWorkFlag_eq, markRequisites_eq, marked]
  rfl

/-- A set closed under dependencies: what the flags are after any change. -/
theorem closure_closed {graph : TaskGraph n} {requisites : List (Fin n)}
    {dependant dependency : Fin n}
    (edge : dependency ∈ graph.dependencies dependant)
    (selected : closure graph requisites dependant) :
    closure graph requisites dependency := by
  obtain ⟨d, member, path⟩ := selected
  exact ⟨d, member, path.tail edge⟩

end InitdState

end Initd
