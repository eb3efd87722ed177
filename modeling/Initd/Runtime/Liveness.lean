import Initd.Runtime.Safety

namespace Initd

open Library

/-! No task waits forever, while every fork succeeds. -/

def ForksSucceed {n : Nat} (environment : Environment n) : Prop :=
  ∀ t, (environment t).fork = true

namespace AsyncTaskHandle

variable {answers : Answers} {before after : AsyncTaskHandle}
  {result : ForkResult}

theorem Finished.consistent (finished : Finished answers before after result)
    (forks : answers.fork = true) : after.Consistent := by
  cases finished with
  | operation completed =>
      rw [forks] at completed
      exact AsyncStartStopTask.operationCompleted_consistent completed
  | delivery delivered => exact Sysapi.FunctionQueue.backed_deliver delivered

theorem Finished.getShouldWork
    (finished : Finished answers before after result) :
    after.getShouldWork = before.getShouldWork := by
  cases finished with
  | operation completed =>
      exact AsyncStartStopTask.operationCompleted_shouldWork completed
  | delivery _ => rfl

theorem Finished.isInTransition
    (finished : Finished answers before after result)
    (transition : after.isInTransition = true) :
    before.isInTransition = true := by
  rcases finished.visible with busy | ⟨-, same⟩
  · exact busy
  · rwa [← same]

theorem Finished.isRunning (finished : Finished answers before after result)
    (forks : answers.fork = true) (busy : before.isInTransition = true)
    (idle : after.isInTransition = false) :
    after.isRunning = before.getShouldWork := by
  have consistent := finished.consistent forks
  rw [← finished.getShouldWork]
  cases finished with
  | delivery _ => simp [AsyncTaskHandle.isInTransition] at busy
  | operation _ =>
      refine consistent.isRunning_of_quiet ?_
      simpa [AsyncTaskHandle.isInTransition,
        AsyncStartStopTask.isInTransition, Quiet] using idle

theorem Finished.returns (finished : Finished answers before after result)
    (forks : answers.fork = true) : result ≠ .threw := by
  cases finished with
  | delivery _ => simp
  | operation completed =>
      rw [forks] at completed
      have job := AsyncStartStopTask.operationCompleted_eq completed
      rintro rfl
      have threw := congrArg Prod.snd job
      revert threw
      simp only [AsyncStartStopTask.enqueueJob, if_true]
      split_ifs <;> simp

end AsyncTaskHandle

namespace InitdState

variable {n : Nat}

/-- The graph, read from a task to what it depends on. -/
abbrev Below (graph : TaskGraph n) : Fin n → Fin n → Prop :=
  fun dependency dependant =>
    Digraph.Edge graph.dependencies dependant dependency

/-- No callback is outstanding: no operation and no pending delivery. -/
def Quiescent (state : InitdState n) : Prop :=
  ∀ t, (state.tasks t).handle.Quiet

/-- The invariant between steps, when `todo` is empty, and inside an
`enqueue_all` that has the tasks of `todo` still before it: every task outside
`todo` that may start or stop is on its way, and tasks with nothing on their
way have no stale flags. -/
structure Settled (graph : TaskGraph n) (todo : List (Fin n))
    (state : InitdState n) : Prop where
  consistent : ∀ t, (state.tasks t).handle.Consistent
  synced : ∀ t, (state.tasks t).handle.Quiet → (state.tasks t).Synced
  accessible : ∀ t, (state.tasks t).affectDependencies = true →
    Acc (Below graph) t
  told : ∀ t, (state.tasks t).handle.isInTransition = true →
    (state.tasks t).handle.getShouldWork = (state.tasks t).shouldWork ∨
      t ∈ todo ∧
        ((state.tasks t).mayStart = true ∨ (state.tasks t).mayStop = true)
  started : ∀ t, t ∉ todo → (state.tasks t).mayStart = true →
    (state.tasks t).handle.isInTransition = true
  stopped : ∀ t, t ∉ todo → (state.tasks t).mayStop = true →
    (state.tasks t).handle.isInTransition = true

section Settling

variable {graph : TaskGraph n} {state : InitdState n}

/-! The start of an `enqueue_all` after a change of the run level. -/

/-- With no stale flag, a task whose dependencies are up counts none of them
as stopped. -/
theorem Safe.stoppedDependencies_eq_zero (safe : Safe graph state)
    (synced : ∀ t, (state.tasks t).Synced) {t : Fin n}
    (up : (state.tasks t).affectDependencies = true) :
    (state.tasks t).stoppedDependencies = 0 := by
  refine safe.counters.stoppedDependencies_eq_zero_iff.mpr ?_
  intro dependency edge
  rw [(synced dependency).dependants]
  exact safe.order t dependency edge up

theorem runningDependants_eq_zero (counters : Counters graph state) {t : Fin n}
    (synced : ∀ dependant, t ∈ graph.dependencies dependant →
      (state.tasks dependant).Synced)
    (down : ∀ dependant, t ∈ graph.dependencies dependant →
      (state.tasks dependant).affectDependencies = false) :
    (state.tasks t).runningDependants = 0 := by
  refine counters.runningDependants_eq_zero_iff.mpr ?_
  intro dependant edge
  rw [(synced dependant edge).dependencies, down dependant edge]

theorem Settled.select {todo : List (Fin n)} (settled : Settled graph todo state)
    (safe : Safe graph state) {closure : Fin n → Prop} {selected : InitdState n}
    (closed : ∀ dependant, ∀ dependency ∈ graph.dependencies dependant,
      closure dependant → closure dependency)
    (selects : Selected graph closure state selected) :
    Settled graph (List.finRange n) selected where
  consistent t := by
    rw [selects.handle]
    exact settled.consistent t
  synced t _ := selects.synced t
  accessible t up := by
    rw [Task.affectDependencies, selects.handle] at up
    exact settled.accessible t up
  told t transition := by
    refine .inr ⟨List.mem_finRange t, ?_⟩
    have after := safe.select closed selects
    have up : (selected.tasks t).affectDependencies = true := by
      simp [Task.affectDependencies, transition]
    have down : (selected.tasks t).affectDependants = false := by
      simp [Task.affectDependants, transition]
    cases wanted : (selected.tasks t).shouldWork with
    | true =>
        exact .inl (Task.mayStart_iff.mpr ⟨down, wanted,
          after.stoppedDependencies_eq_zero selects.synced up⟩)
    | false =>
        exact .inr (Task.mayStop_iff.mpr ⟨up, wanted,
          runningDependants_eq_zero after.counters
            (fun dependant _ => selects.synced dependant)
            (after.dependants_down_of_not_full down)⟩)
  started t outside := absurd (List.mem_finRange t) outside
  stopped t outside := absurd (List.mem_finRange t) outside

/-! One visit of `enqueue_this`. -/

theorem Settled.tell {t : Fin n} {rest : List (Fin n)} {s : Bool}
    (settled : Settled graph (t :: rest) state)
    {answers : Answers} (forks : answers.fork = true)
    (wanted : (state.tasks t).shouldWork = s)
    (needed : (state.tasks t).handle.isInTransition = true ∨
      (state.tasks t).handle.isRunning ≠ s)
    (accessible : Acc (Below graph) t) :
    Settled graph rest (state.modify t fun task => { task with
      handle := (task.handle.setShouldWork answers s).1 }) := by
  have tasks := fun other => modify_tasks state t other fun task =>
    { task with handle := (task.handle.setShouldWork answers s).1 }
  have consistent := AsyncTaskHandle.setShouldWork_consistent (s := s) forks
    (settled.consistent t)
  have waiting := AsyncTaskHandle.setShouldWork_not_quiet forks needed
  have settles := AsyncTaskHandle.setShouldWork_settles (s := s) forks
    (settled.consistent t)
  have elsewhere : ∀ other, other ≠ t → other ∉ rest → other ∉ t :: rest :=
    fun other different outside member =>
      (List.mem_cons.mp member).elim different outside
  refine ⟨?_, ?_, ?_, ?_, ?_, ?_⟩ <;> intro other <;> rw [tasks other] <;>
    by_cases same : other = t
  · subst other
    rwa [if_pos rfl]
  · rw [if_neg same]
    exact settled.consistent other
  · subst other
    rw [if_pos rfl]
    exact fun quiet => absurd quiet waiting
  · rw [if_neg same]
    exact settled.synced other
  · subst other
    exact fun _ => accessible
  · rw [if_neg same]
    exact settled.accessible other
  · subst other
    rw [if_pos rfl]
    exact fun _ => .inl (by simpa using wanted.symm)
  · rw [if_neg same]
    intro transition
    refine (settled.told other transition).imp_right fun pending => ?_
    exact ⟨(List.mem_cons.mp pending.1).resolve_left same, pending.2⟩
  · subst other
    rw [if_pos rfl]
    intro _ may
    obtain ⟨down, started, -⟩ := Task.mayStart_iff.mp may
    obtain rfl : s = true := wanted.symm.trans started
    by_contra idle
    have running := settles.resolve_left idle
    simp [Task.affectDependants, running, idle] at down
  · rw [if_neg same]
    exact fun outside => settled.started other (elsewhere other same outside)
  · subst other
    rw [if_pos rfl]
    intro _ may
    obtain ⟨up, stopped, -⟩ := Task.mayStop_iff.mp may
    obtain rfl : s = false := wanted.symm.trans stopped
    by_contra idle
    have running := settles.resolve_left idle
    simp [Task.affectDependencies, running, idle] at up
  · rw [if_neg same]
    exact fun outside => settled.stopped other (elsewhere other same outside)

theorem setShouldWork_returns {environment : Environment n}
    (forks : ForksSucceed environment) (t : Fin n) (s : Bool) :
    (state.setShouldWork environment t s).threw = false := by
  cases handle : (state.tasks t).handle with
  | sync adaptor =>
      simp [setShouldWork, handle, AsyncTaskHandle.setShouldWork, afterFork]
  | startStop task =>
      simp only [setShouldWork, handle, AsyncTaskHandle.setShouldWork, forks t,
        AsyncStartStopTask.setShouldWork, AsyncStartStopTask.enqueueJob]
      split_ifs <;> rfl

def SettledLoop (graph : TaskGraph n) (todo : List (Fin n))
    (state : InitdState n) : Prop :=
  Safe graph state ∧ Settled graph todo state

theorem Settled.skip {t : Fin n} {rest : List (Fin n)}
    (settled : Settled graph (t :: rest) state)
    (noStart : (state.tasks t).mayStart = false)
    (noStop : (state.tasks t).mayStop = false) :
    Settled graph rest state where
  consistent := settled.consistent
  synced := settled.synced
  accessible := settled.accessible
  told other transition := by
    refine (settled.told other transition).imp_right fun pending => ?_
    refine ⟨(List.mem_cons.mp pending.1).resolve_left ?_, pending.2⟩
    rintro rfl
    simp [noStart, noStop] at pending
  started other outside may := by
    refine settled.started other (fun member => ?_) may
    rcases List.mem_cons.mp member with rfl | member
    · simp [noStart] at may
    · exact outside member
  stopped other outside may := by
    refine settled.stopped other (fun member => ?_) may
    rcases List.mem_cons.mp member with rfl | member
    · simp [noStop] at may
    · exact outside member

theorem enqueueThis_settled {environment : Environment n}
    (forks : ForksSucceed environment) (t : Fin n) (rest : List (Fin n))
    (loop : SettledLoop graph (t :: rest) state) :
    (enqueueThis environment t state).Satisfies (SettledLoop graph rest)
      (fun _ => False) (fun _ _ => True) := by
  obtain ⟨safe, settled⟩ := loop
  have final := (enqueueThis_safe safe environment t).state
  rcases enqueueThis_cases with ⟨may, equal⟩ | ⟨may, equal⟩ |
    ⟨noStart, noStop, equal⟩ <;> rw [equal] at final ⊢
  · obtain ⟨down, wanted, -⟩ := Task.mayStart_iff.mp may
    refine ⟨fun _ => ⟨final, ?_⟩, fun threw => ?_, fun _ _ => trivial⟩
    · rw [setShouldWork_state]
      refine settled.tell (forks t) wanted ?_ ⟨t, fun dependency edge => ?_⟩
      · simpa [Task.affectDependants, or_comm, imp_iff_not_or] using down
      · exact settled.accessible dependency
          (Task.affectDependencies_of_affectDependants
            (safe.dependencies_up may dependency edge))
    · simp [setShouldWork_returns forks] at threw
  · obtain ⟨up, unwanted, -⟩ := Task.mayStop_iff.mp may
    refine ⟨fun _ => ⟨final, ?_⟩, fun threw => ?_, fun _ _ => trivial⟩
    · rw [setShouldWork_state]
      refine settled.tell (forks t) unwanted ?_ (settled.accessible t up)
      simpa [Task.affectDependencies, or_comm] using up
    · simp [setShouldWork_returns forks] at threw
  · exact Outcome.satisfies_done ⟨final, settled.skip noStart noStop⟩

theorem enqueueAll_settled {environment : Environment n}
    (forks : ForksSucceed environment) {tts : List (Fin n)}
    (loop : SettledLoop graph tts state) :
    (enqueueAll environment tts state).Satisfies (SettledLoop graph [])
      (fun _ => False) (fun _ _ => True) :=
  Outcome.forEach_satisfies (SettledLoop graph)
    (fun t rest _ loop => enqueueThis_settled forks t rest loop) tts state loop

theorem Settled.replaceSame {todo : List (Fin n)}
    (settled : Settled graph todo state) {t : Fin n} {handle : AsyncTaskHandle}
    (running : handle.isRunning = (state.tasks t).handle.isRunning)
    (transition :
      handle.isInTransition = (state.tasks t).handle.isInTransition)
    (wanted : handle.getShouldWork = (state.tasks t).handle.getShouldWork)
    (quiet : handle.Quiet → (state.tasks t).handle.Quiet)
    (consistent : handle.Consistent) :
    Settled graph todo
      (state.modify t fun task => { task with handle := handle }) := by
  have self := modify_self state t fun task => { task with handle := handle }
  have apart := fun other (different : other ≠ t) =>
    modify_of_ne state different fun task => { task with handle := handle }
  refine ⟨?_, ?_, ?_, ?_, ?_, ?_⟩ <;> intro other <;>
    by_cases same : other = t
  · subst other
    rwa [self]
  · rw [apart other same]
    exact settled.consistent other
  · subst other
    rw [self]
    intro idle
    obtain ⟨dependencies, dependants, pendingTasks⟩ :=
      settled.synced t (quiet idle)
    constructor
    · rw [dependencies, Task.affectDependencies, ← running, ← transition]
      rfl
    · rw [dependants, Task.affectDependants, ← running, ← transition]
      rfl
    · rw [pendingTasks, Task.affectPendingTasks, ← running, ← transition]
      rfl
  · rw [apart other same]
    exact settled.synced other
  · subst other
    rw [self, Task.affectDependencies, running, transition]
    exact settled.accessible t
  · rw [apart other same]
    exact settled.accessible other
  · subst other
    rw [self, transition, wanted, Task.mayStart, Task.mayStop, running,
      transition]
    exact settled.told t
  · rw [apart other same]
    exact settled.told other
  · subst other
    rw [self, transition, Task.mayStart, running, transition]
    exact settled.started t
  · rw [apart other same]
    exact settled.started other
  · subst other
    rw [self, transition, Task.mayStop, running, transition]
    exact settled.stopped t
  · rw [apart other same]
    exact settled.stopped other

/-! A callback: the sync of its task, and the neighbours it enqueues. -/

/-- A sync enables a start only for a dependant of a task that runs. -/
theorem mayStart_of_sync (safe : Safe graph state) {t other : Fin n}
    (outside : (state.tasks t).handle.isRunning = true →
      other ∉ graph.dependants t)
    (may : ((sync graph t state).tasks other).mayStart = true) :
    (state.tasks other).mayStart = true := by
  obtain ⟨down, wanted, none⟩ := Task.mayStart_iff.mp may
  rw [sync_shouldWork] at wanted
  rw [Task.affectDependants, sync_handle] at down
  refine Task.mayStart_iff.mpr ⟨down, wanted, ?_⟩
  rw [(safe.sync t).counters.stoppedDependencies] at none
  rw [safe.counters.stoppedDependencies]
  have flags : (fun dependency =>
      !((sync graph t state).tasks dependency).countedInDependants) =
        Function.update
          (fun dependency => !(state.tasks dependency).countedInDependants) t
          (!(state.tasks t).affectDependants) := by
    funext dependency
    rw [sync_countedInDependants, Function.update_apply]
    split <;> rfl
  rw [flags] at none
  refine flagSum_eq_zero_of_update none ?_
  cases running : (state.tasks t).handle.isRunning with
  | true =>
      left
      by_contra edge
      exact outside running (graph.mem_dependants.mpr
        (graph.edges_pos.mp (Nat.pos_of_ne_zero edge)))
  | false => exact .inr (by simp [Task.affectDependants, running])

theorem mayStop_of_sync (safe : Safe graph state) {t other : Fin n}
    (outside : (state.tasks t).handle.isRunning = false →
      other ∉ graph.dependencies t)
    (may : ((sync graph t state).tasks other).mayStop = true) :
    (state.tasks other).mayStop = true := by
  obtain ⟨up, unwanted, none⟩ := Task.mayStop_iff.mp may
  rw [sync_shouldWork] at unwanted
  rw [Task.affectDependencies, sync_handle] at up
  refine Task.mayStop_iff.mpr ⟨up, unwanted, ?_⟩
  rw [(safe.sync t).counters.runningDependants] at none
  rw [safe.counters.runningDependants]
  have flags : (fun dependant =>
      ((sync graph t state).tasks dependant).countedInDependencies) =
        Function.update
          (fun dependant => (state.tasks dependant).countedInDependencies) t
          (state.tasks t).affectDependencies := by
    funext dependant
    rw [sync_countedInDependencies, Function.update_apply]
  rw [flags] at none
  refine flagSum_eq_zero_of_update none ?_
  cases running : (state.tasks t).handle.isRunning with
  | false =>
      left
      by_contra edge
      exact outside running (graph.edges_pos.mp (Nat.pos_of_ne_zero edge))
  | true => exact .inr (by simp [Task.affectDependencies, running])

theorem finished_settled (settled : Settled graph [] state) {t : Fin n}
    {answers : Answers} (forks : answers.fork = true)
    {handle : AsyncTaskHandle} {result : ForkResult}
    (finished :
      AsyncTaskHandle.Finished answers (state.tasks t).handle handle result)
    (idle : handle.isInTransition = false) :
    ({ state.tasks t with handle := handle } : Task).mayStart = false ∧
      ({ state.tasks t with handle := handle } : Task).mayStop = false := by
  rcases finished.visible with busy | ⟨running, transition⟩
  · have told := (settled.told t busy).resolve_right fun pending =>
      List.not_mem_nil pending.1
    have running := finished.isRunning forks busy idle
    rw [told] at running
    constructor
    · by_contra may
      obtain ⟨down, wanted, -⟩ := Task.mayStart_iff.mp (by simpa using may)
      simp [Task.affectDependants, running, idle] at down
      simp [down] at wanted
    · by_contra may
      obtain ⟨up, unwanted, -⟩ := Task.mayStop_iff.mp (by simpa using may)
      simp [Task.affectDependencies, running, idle] at up
      simp [up] at unwanted
  · have quiet : (state.tasks t).handle.isInTransition = false := by
      rw [← transition]
      exact idle
    have mayStart : ({ state.tasks t with handle := handle } :
        Task).mayStart = (state.tasks t).mayStart := by
      simp only [Task.mayStart, Task.areDependenciesRunning, running, transition]
    have mayStop : ({ state.tasks t with handle := handle } :
        Task).mayStop = (state.tasks t).mayStop := by
      simp only [Task.mayStop, Task.areDependantsStopped, running, transition]
    rw [mayStart, mayStop]
    constructor
    · by_contra may
      have before := settled.started t List.not_mem_nil (by simpa using may)
      rw [quiet] at before
      contradiction
    · by_contra may
      have before := settled.stopped t List.not_mem_nil (by simpa using may)
      rw [quiet] at before
      contradiction

theorem Settled.callback (safe : Safe graph state)
    (settled : Settled graph [] state) {t : Fin n} {answers : Answers}
    (forks : answers.fork = true) {handle : AsyncTaskHandle}
    {result : ForkResult}
    (finished :
      AsyncTaskHandle.Finished answers (state.tasks t).handle handle result)
    {todo : List (Fin n)}
    (ups : handle.isRunning = true →
      ∀ other ∈ graph.dependants t, other ∈ todo)
    (downs : handle.isRunning = false →
      ∀ other ∈ graph.dependencies t, other ∈ todo) :
    Settled graph todo (InitdState.sync graph t
      (state.modify t fun task => { task with handle := handle })) := by
  have middle := safe.finished finished
  have idleTask := fun idle => finished_settled settled forks finished idle
  have self := modify_self state t fun task => { task with handle := handle }
  have apart := fun other (different : other ≠ t) =>
    modify_of_ne state different fun task => { task with handle := handle }
  refine ⟨?_, ?_, ?_, ?_, ?_, ?_⟩ <;> intro other <;>
    by_cases same : other = t
  · subst other
    rw [sync_handle, self]
    exact finished.consistent forks
  · rw [sync_handle, apart other same]
    exact settled.consistent other
  · subst other
    exact fun _ => sync_synced graph t _
  · rw [sync_handle, apart other same]
    intro quiet
    refine synced_sync ?_
    rw [apart other same]
    exact settled.synced other quiet
  · subst other
    rw [Task.affectDependencies, sync_handle, self]
    intro up
    refine settled.accessible t (Task.affectDependencies_iff.mpr ?_)
    rcases finished.visible with busy | ⟨running, transition⟩
    · exact .inr busy
    · simpa [running, transition] using up
  · rw [Task.affectDependencies, sync_handle, apart other same]
    exact settled.accessible other
  · subst other
    rw [sync_handle, sync_shouldWork, self]
    intro transition
    left
    rw [finished.getShouldWork]
    exact (settled.told t (finished.isInTransition transition)).resolve_right
      fun pending => List.not_mem_nil pending.1
  · rw [sync_handle, sync_shouldWork, apart other same]
    intro transition
    exact .inl ((settled.told other transition).resolve_right
      fun pending => List.not_mem_nil pending.1)
  · subst other
    intro outside may
    have before := mayStart_of_sync middle (fun running member =>
      outside (ups (by simpa [self] using running) _ member)) may
    rw [self] at before
    rw [sync_handle, self]
    by_contra idle
    rw [(idleTask (by simpa using idle)).1] at before
    contradiction
  · intro outside may
    have before := mayStart_of_sync middle (fun running member =>
      outside (ups (by simpa [self] using running) _ member)) may
    rw [apart other same] at before
    rw [sync_handle, apart other same]
    exact settled.started other List.not_mem_nil before
  · subst other
    intro outside may
    have before := mayStop_of_sync middle (fun running member =>
      outside (downs (by simpa [self] using running) _ member)) may
    rw [self] at before
    rw [sync_handle, self]
    by_contra idle
    rw [(idleTask (by simpa using idle)).2] at before
    contradiction
  · intro outside may
    have before := mayStop_of_sync middle (fun running member =>
      outside (downs (by simpa [self] using running) _ member)) may
    rw [apart other same] at before
    rw [sync_handle, apart other same]
    exact settled.stopped other List.not_mem_nil before

theorem stateChanged_settled (safe : Safe graph state)
    (settled : Settled graph [] state) {environment : Environment n}
    (forks : ForksSucceed environment) {t : Fin n}
    {handle : AsyncTaskHandle} {result : ForkResult}
    (finished : AsyncTaskHandle.Finished (environment t)
      (state.tasks t).handle handle result) :
    SettledLoop graph [] (stateChanged graph environment t
      (state.modify t fun task => { task with handle := handle })).state := by
  have synced := (safe.finished finished).sync t
  have running : ((InitdState.sync graph t (state.modify t fun task =>
      { task with handle := handle })).tasks t).handle.isRunning =
        handle.isRunning := by simp
  simp only [stateChanged, running]
  split
  · next up =>
      have loop := enqueueAll_settled forks ⟨synced,
        settled.callback safe (forks t) finished (fun _ _ member => member)
          fun down => by simp [up] at down⟩
      exact (loop.mono (fun _ held => held) (fun _ absurd => absurd.elim)
        fun _ _ held => held).state
  · next down =>
      have loop := enqueueAll_settled forks ⟨synced,
        settled.callback safe (forks t) finished (fun up => absurd up down)
          fun _ _ member => member⟩
      exact (loop.mono (fun _ held => held) (fun _ absurd => absurd.elim)
        fun _ _ held => held).state

theorem IsCallback.settled {environment : Environment n} {t : Fin n}
    {call : Call n} (callback : IsCallback graph environment t state call)
    (forks : ForksSucceed environment) (loop : SettledLoop graph [] state) :
    SettledLoop graph [] call.state := by
  obtain ⟨handle, result, finished, rfl⟩ := callback
  have settles := stateChanged_settled loop.1 loop.2 forks finished
  cases result with
  | notCalled => rw [afterFork]; simpa [Outcome.bind] using settles
  | launched operation command =>
      rw [afterFork]; simpa [Outcome.bind] using settles
  | threw => exact absurd rfl (finished.returns (forks t))

theorem step_settled (safe : Safe graph state)
    (settled : Settled graph [] state) {environment : Environment n}
    (forks : ForksSucceed environment) {event : Event n} {call : Call n}
    (stepped : state.step graph environment event = some call) :
    SettledLoop graph [] call.state := by
  rcases step_cases stepped with rfl | ⟨_, _, closed, selects, rfl⟩ |
    ⟨t, callback⟩
  · exact ⟨safe, settled⟩
  · have loop := enqueueAll_settled forks
      ⟨safe.select closed selects, settled.select safe closed selects⟩
    exact (loop.mono (fun _ held => held) (fun _ absurd => absurd.elim)
      fun _ _ held => held).state
  · exact callback.settled forks ⟨safe, settled⟩

/-! What holds once nothing is on its way. -/

/-- A task that is up still should work; the induction follows the tasks that
are up from each to what it depends on. -/
theorem Settled.shouldWork_of_up (safe : Safe graph state)
    (settled : Settled graph [] state) (quiescent : Quiescent state) (t : Fin n)
    (up : (state.tasks t).affectDependencies = true) :
    (state.tasks t).shouldWork = true := by
  have wellFounded := Digraph.wellFounded_of_acc settled.accessible
  induction t using wellFounded.induction with
  | _ t induction =>
      by_contra unwanted
      have none := runningDependants_eq_zero safe.counters
        (fun dependant _ => settled.synced dependant (quiescent dependant))
        (fun dependant (edge : t ∈ graph.dependencies dependant) => by
          by_contra above
          have above : (state.tasks dependant).affectDependencies = true := by
            simpa using above
          have wanted := induction dependant ⟨above, edge⟩ above
          exact unwanted (safe.closed dependant t edge wanted))
      have busy := settled.stopped t List.not_mem_nil
        (Task.mayStop_iff.mpr ⟨up, by simpa using unwanted, none⟩)
      rw [(quiescent t).isInTransition] at busy
      contradiction

/-- A task that should work is up, unless a cycle is below it; the induction
is on its dependencies. -/
theorem Settled.up_of_shouldWork (safe : Safe graph state)
    (settled : Settled graph [] state) (quiescent : Quiescent state) {t : Fin n}
    (accessible : Acc (Below graph) t)
    (wanted : (state.tasks t).shouldWork = true) :
    (state.tasks t).affectDependants = true := by
  induction accessible with
  | intro t _ induction =>
      by_contra down
      have none : (state.tasks t).stoppedDependencies = 0 := by
        refine safe.counters.stoppedDependencies_eq_zero_iff.mpr ?_
        intro dependency edge
        rw [(settled.synced dependency (quiescent dependency)).dependants]
        exact induction dependency edge (safe.closed t dependency edge wanted)
      have busy := settled.started t List.not_mem_nil
        (Task.mayStart_iff.mpr ⟨by simpa using down, wanted, none⟩)
      rw [(quiescent t).isInTransition] at busy
      contradiction

theorem Settled.pendingTasks_eq_zero (safe : Safe graph state)
    (settled : Settled graph [] state) (quiescent : Quiescent state)
    (agrees : ∀ t, (state.tasks t).handle.isRunning =
      (state.tasks t).shouldWork) : state.pendingTasks = 0 := by
  rw [safe.counters.pendingTasks]
  refine flagSum_clear _ fun t => ?_
  rw [(settled.synced t (quiescent t)).pendingTasks]
  simp [Task.affectPendingTasks, (quiescent t).isInTransition, agrees t]

end Settling

theorem initdState_settled (descriptions : TaskDescriptions n) :
    Settled descriptions.graph [] descriptions.initdState where
  consistent t := by
    rw [descriptions.initdState_handle]
    exact AsyncTaskHandle.consistent_create _
  synced t _ := by
    rw [descriptions.initdState_tasks]
    constructor <;>
      simp [Task.create, Task.affectDependencies, Task.affectDependants,
        Task.affectPendingTasks]
  accessible t up := by
    rw [descriptions.initdState_affectDependencies] at up
    contradiction
  told t transition := by simp at transition
  started t _ may := by
    have wanted := (Task.mayStart_iff.mp may).2.1
    simp at wanted
  stopped t _ may := by
    have up := (Task.mayStop_iff.mp may).1
    rw [descriptions.initdState_affectDependencies] at up
    contradiction

theorem reachable_settled {descriptions : TaskDescriptions n}
    {state : InitdState n}
    (reached : (initdSystem descriptions ForksSucceed).Reachable state) :
    SettledLoop descriptions.graph [] state := by
  refine reached.invariant _ ?_ ?_
  · rintro state rfl
    exact ⟨initdState_safe descriptions, initdState_settled descriptions⟩
  · rintro before _ _ ⟨safe, settled⟩
      ⟨environment, event, call, forks, stepped, rfl⟩
    exact step_settled safe settled forks stepped

/-- While every fork succeeds, a state without outstanding callbacks is the
one that the run level asks for, up to the tasks above a cycle. -/
theorem no_lost_wakeup {descriptions : TaskDescriptions n}
    {state : InitdState n}
    (reached : (initdSystem descriptions ForksSucceed).Reachable state)
    (quiescent : Quiescent state) :
    (∀ t, (state.tasks t).shouldWork = false →
        (state.tasks t).handle.isRunning = false ∧
          (state.tasks t).handle.isInTransition = false) ∧
      (∀ t, (state.tasks t).shouldWork = true →
        Digraph.AcyclicFrom descriptions.graph.dependencies t →
          (state.tasks t).handle.isRunning = true ∧
            (state.tasks t).handle.isInTransition = false) ∧
      ((∀ t, Digraph.AcyclicFrom descriptions.graph.dependencies t) →
        state.pendingTasks = 0 ∧
          ∀ t, (state.tasks t).handle.isRunning =
            (state.tasks t).shouldWork) := by
  obtain ⟨safe, settled⟩ := reachable_settled reached
  have idle := fun t => (quiescent t).isInTransition
  have stopped : ∀ t, (state.tasks t).shouldWork = false →
      (state.tasks t).handle.isRunning = false := by
    intro t unwanted
    by_contra running
    have wanted := settled.shouldWork_of_up safe quiescent t
      (Task.affectDependencies_iff.mpr (.inl (by simpa using running)))
    rw [unwanted] at wanted
    contradiction
  have running : ∀ t, (state.tasks t).shouldWork = true →
      Digraph.AcyclicFrom descriptions.graph.dependencies t →
        (state.tasks t).handle.isRunning = true := by
    intro t wanted acyclic
    have full := settled.up_of_shouldWork safe quiescent acyclic.acc wanted
    simpa [Task.affectDependants, idle t] using full
  refine ⟨fun t unwanted => ⟨stopped t unwanted, idle t⟩,
    fun t wanted acyclic => ⟨running t wanted acyclic, idle t⟩,
    fun acyclic => ?_⟩
  have agrees : ∀ t, (state.tasks t).handle.isRunning =
      (state.tasks t).shouldWork := by
    intro t
    cases wanted : (state.tasks t).shouldWork with
    | true => exact running t wanted (acyclic t)
    | false => exact stopped t wanted
  exact ⟨settled.pendingTasks_eq_zero safe quiescent agrees, agrees⟩

instance (state : InitdState n) : Decidable state.Quiescent :=
  inferInstanceAs (Decidable (∀ t, (state.tasks t).handle.Quiet))

theorem serviceOverControl_acyclic (t : Fin 2) :
    Digraph.AcyclicFrom serviceOverControl.graph.dependencies t := by
  have smaller : ∀ dependant dependency,
      Digraph.Edge serviceOverControl.graph.dependencies dependant dependency →
        dependency < dependant := by
    unfold Digraph.Edge
    decide
  have wellFounded : WellFounded fun dependency dependant =>
      Digraph.Edge serviceOverControl.graph.dependencies dependant dependency :=
    wellFounded_lt.mono fun dependency dependant => smaller dependant dependency
  exact fun node _ => Digraph.not_cycle_of_acc (wellFounded.apply node)

theorem no_lost_wakeup_serviceUp :
    serviceUp.pendingTasks = 0 ∧
      ∀ t, (serviceUp.tasks t).handle.isRunning =
        (serviceUp.tasks t).shouldWork :=
  (no_lost_wakeup (serviceUp_reachable fun _ => rfl) (by decide)).2.2
    serviceOverControl_acyclic

end InitdState

end Initd
