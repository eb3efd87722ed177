import Initd.Runtime.RunLevel

namespace Initd

open Library

/-! Dependency order, over every run and whatever the kernel answers. -/

namespace AsyncTaskHandle

/-- What the event behind a callback does to the handle before the callback
reaches `initd_state`. -/
inductive Finished (answers : Answers) :
    AsyncTaskHandle → AsyncTaskHandle → ForkResult → Prop
  | operation {task after : AsyncStartStopTask} {result : ForkResult}
      (completed :
        task.operationCompleted answers.fork = some (after, result)) :
      Finished answers (startStop task) (startStop after) result
  | delivery {adaptor : SyncTaskAdaptor} {fq : Sysapi.FunctionQueue Unit}
      (delivered : adaptor.fq.deliver = some ((), fq)) :
      Finished answers (sync adaptor) (sync { adaptor with fq := fq })
        .notCalled

/-- Either an operation was outstanding, or nothing shows from outside. -/
theorem Finished.visible {answers : Answers} {before after : AsyncTaskHandle}
    {result : ForkResult} (finished : Finished answers before after result) :
    before.isInTransition = true ∨
      after.isRunning = before.isRunning ∧
        after.isInTransition = before.isInTransition := by
  cases finished with
  | operation completed =>
      exact .inl (AsyncStartStopTask.operationCompleted_isInTransition completed)
  | delivery _ => exact .inr ⟨rfl, rfl⟩

theorem Finished.launched {answers : Answers}
    {before after : AsyncTaskHandle} {operation : Operation}
    {command : Command}
    (finished : Finished answers before after (.launched operation command)) :
    after.isInTransition = true := by
  generalize equal : ForkResult.launched operation command = result at finished
  cases finished with
  | operation completed =>
      have job := AsyncStartStopTask.operationCompleted_eq completed
      have busy := (AsyncStartStopTask.enqueueJob_launched
        (by rw [job]; exact equal.symm)).1
      rw [job] at busy
      exact Option.isSome_iff_exists.mpr ⟨operation, busy⟩
  | delivery _ => contradiction

theorem setShouldWork_launched {answers : Answers} {s : Bool}
    {handle : AsyncTaskHandle} {operation : Operation} {command : Command}
    (launched : (handle.setShouldWork answers s).2 =
      .launched operation command) :
    (handle.setShouldWork answers s).1.isInTransition = true := by
  cases handle with
  | startStop task =>
      have busy := (AsyncStartStopTask.enqueueJob_launched launched).1
      simp [setShouldWork, AsyncStartStopTask.setShouldWork, isInTransition,
        AsyncStartStopTask.isInTransition, busy]
  | sync adaptor => simp [setShouldWork] at launched

end AsyncTaskHandle

namespace InitdState

variable {n : Nat}

/-- The call that the event behind a callback makes. -/
def IsCallback (graph : TaskGraph n) (environment : Environment n) (t : Fin n)
    (state : InitdState n) (call : Call n) : Prop :=
  ∃ handle result,
    AsyncTaskHandle.Finished (environment t) (state.tasks t).handle handle
      result ∧
    call = (afterFork t (state.modify t fun task =>
      { task with handle := handle }) result).bind
        (stateChanged graph environment t)

section Steps

variable {graph : TaskGraph n} {environment : Environment n} {t : Fin n}
  {state : InitdState n} {call : Call n}

theorem childExited_cases
    (exited : state.childExited graph environment t = some call) :
    ∃ task after result, (state.tasks t).handle = .startStop task ∧
      task.operationCompleted (environment t).fork = some (after, result) ∧
      call = (afterFork t (state.modify t fun task =>
        { task with handle := .startStop after }) result).bind
          (stateChanged graph environment t) := by
  unfold childExited at exited
  cases handle : (state.tasks t).handle with
  | sync adaptor => simp [handle] at exited
  | startStop task =>
      simp only [handle] at exited
      cases completed : task.operationCompleted (environment t).fork with
      | none => simp [completed] at exited
      | some pair =>
          obtain ⟨after, result⟩ := pair
          simp only [completed, Option.some.injEq] at exited
          exact ⟨task, after, result, rfl, completed, exited.symm⟩

theorem childExited_isCallback
    (exited : state.childExited graph environment t = some call) :
    IsCallback graph environment t state call := by
  obtain ⟨task, after, result, handle, completed, equal⟩ :=
    childExited_cases exited
  exact ⟨.startStop after, result, handle ▸ .operation completed, equal⟩

theorem callbackDelivered_isCallback
    (taken : state.callbackDelivered graph environment t = some call) :
    IsCallback graph environment t state call := by
  unfold callbackDelivered at taken
  cases handle : (state.tasks t).handle with
  | startStop task => simp [handle] at taken
  | sync adaptor =>
      simp only [handle] at taken
      cases delivered : adaptor.fq.deliver with
      | none => simp [delivered] at taken
      | some pair =>
          obtain ⟨⟨⟩, fq⟩ := pair
          simp only [delivered, Option.some.injEq] at taken
          refine ⟨.sync { adaptor with fq := fq }, .notCalled,
            handle ▸ .delivery delivered, ?_⟩
          rw [← taken]
          rfl

/-- Everything that one step can be: a rejected run level, an `enqueue_all`
after a change of the run level, or a callback. -/
theorem step_cases {event : Event n}
    (stepped : state.step graph environment event = some call) :
    call = ⟨state, [], true⟩ ∨
      (∃ closure selected,
        (∀ dependant, ∀ dependency ∈ graph.dependencies dependant,
          closure dependant → closure dependency) ∧
        Selected graph closure state selected ∧
        call = enqueueAll environment (List.finRange n) selected) ∨
      ∃ t, IsCallback graph environment t state call := by
  cases event with
  | setRunLevel runLevelName =>
      simp only [step, setRunLevel] at stepped
      split at stepped
      · exact .inl (Option.some.inj stepped).symm
      · obtain ⟨selected, selects, rfl⟩ := Option.map_eq_some_iff.mp stepped
        exact .inr (.inl ⟨_, selected, fun _ _ edge => closure_closed edge,
          selectRunLevel_selected selects, rfl⟩)
  | setEmptyRunLevel =>
      cases Option.some.inj stepped
      exact .inr (.inl ⟨_, _, fun _ _ _ selected => selected,
        setEmptyRunLevel_selected graph state, rfl⟩)
  | childExited t => exact .inr (.inr ⟨t, childExited_isCallback stepped⟩)
  | callbackDelivered t =>
      exact .inr (.inr ⟨t, callbackDelivered_isCallback stepped⟩)

end Steps

/-- A task that is up has all its dependencies fully up. -/
def DependencyOrder (graph : TaskGraph n) (state : InitdState n) : Prop :=
  ∀ dependant, ∀ dependency ∈ graph.dependencies dependant,
    (state.tasks dependant).affectDependencies = true →
      (state.tasks dependency).affectDependants = true

/-- The invariant of every state inside and between steps.  The flags may be
stale, but only in the direction that `should_work` makes harmless. -/
structure Safe (graph : TaskGraph n) (state : InitdState n) : Prop where
  counters : Counters graph state
  order : DependencyOrder graph state
  closed : ∀ dependant, ∀ dependency ∈ graph.dependencies dependant,
    (state.tasks dependant).shouldWork = true →
      (state.tasks dependency).shouldWork = true
  uncounted : ∀ t, (state.tasks t).affectDependencies = true →
    (state.tasks t).countedInDependencies = false →
      (state.tasks t).shouldWork = true
  counted : ∀ t, (state.tasks t).countedInDependants = true →
    (state.tasks t).affectDependants = false →
      (state.tasks t).shouldWork = false
  pending : ∀ t, (state.tasks t).affectPendingTasks = true →
    (state.tasks t).countedInPendingTasks = true

theorem Counters.stoppedDependencies_eq_zero_iff {graph : TaskGraph n}
    {state : InitdState n} (counters : Counters graph state) {t : Fin n} :
    (state.tasks t).stoppedDependencies = 0 ↔
      ∀ dependency ∈ graph.dependencies t,
        (state.tasks dependency).countedInDependants = true := by
  rw [counters.stoppedDependencies, flagSum_eq_zero]
  constructor
  · intro none dependency edge
    by_contra stopped
    have missing := none dependency (by simpa using stopped)
    exact absurd (graph.edges_pos.mpr edge) (by omega)
  · intro counted dependency stopped
    by_contra present
    have edge := graph.edges_pos.mp (Nat.pos_of_ne_zero present)
    simp [counted dependency edge] at stopped

theorem Counters.runningDependants_eq_zero_iff {graph : TaskGraph n}
    {state : InitdState n} (counters : Counters graph state) {t : Fin n} :
    (state.tasks t).runningDependants = 0 ↔
      ∀ dependant, t ∈ graph.dependencies dependant →
        (state.tasks dependant).countedInDependencies = false := by
  rw [counters.runningDependants, flagSum_eq_zero]
  constructor
  · intro none dependant edge
    by_contra running
    have missing := none dependant (by simpa using running)
    exact absurd (graph.edges_pos.mpr edge) (by omega)
  · intro uncounted dependant running
    by_contra present
    have edge := graph.edges_pos.mp (Nat.pos_of_ne_zero present)
    simp [uncounted dependant edge] at running

theorem Counters.replaceHandle {graph : TaskGraph n} {state : InitdState n}
    (counters : Counters graph state) (t : Fin n) (handle : AsyncTaskHandle) :
    Counters graph
      (state.modify t fun task => { task with handle := handle }) := by
  have fields : ∀ other,
      (state.modify t fun task => { task with handle := handle }).tasks other =
        { state.tasks other with
            handle := if other = t then handle
              else (state.tasks other).handle } := by
    intro other
    rw [modify_tasks]
    split <;> rfl
  refine ⟨fun dependency => ?_, fun dependant => ?_, ?_⟩
  · simpa only [fields] using counters.runningDependants dependency
  · simpa only [fields] using counters.stoppedDependencies dependant
  · simpa only [fields, modify_pendingTasks] using counters.pendingTasks

/-- What a logged action means for the neighbours of its task. -/
def InOrder (graph : TaskGraph n) (state : InitdState n) :
    Action n → Prop
  | .setShouldWork t true | .launched t .start _ =>
      ∀ dependency ∈ graph.dependencies t,
        (state.tasks dependency).affectDependants = true
  | .setShouldWork t false | .launched t .stop _ =>
      ∀ dependant, t ∈ graph.dependencies dependant →
        (state.tasks dependant).affectDependencies = false

namespace Safe

variable {graph : TaskGraph n} {state : InitdState n}

theorem dependencies_counted (safe : Safe graph state) {t : Fin n}
    (none : (state.tasks t).stoppedDependencies = 0) {dependency : Fin n}
    (edge : dependency ∈ graph.dependencies t) :
    (state.tasks dependency).countedInDependants = true :=
  safe.counters.stoppedDependencies_eq_zero_iff.mp none dependency edge

theorem dependants_uncounted (safe : Safe graph state) {t : Fin n}
    (none : (state.tasks t).runningDependants = 0) {dependant : Fin n}
    (edge : t ∈ graph.dependencies dependant) :
    (state.tasks dependant).countedInDependencies = false :=
  safe.counters.runningDependants_eq_zero_iff.mp none dependant edge

/-- A task that may start has all its dependencies up, stale flags or not. -/
theorem dependencies_up (safe : Safe graph state) {t : Fin n}
    (may : (state.tasks t).mayStart = true) :
    ∀ dependency ∈ graph.dependencies t,
      (state.tasks dependency).affectDependants = true := by
  intro dependency edge
  obtain ⟨-, wanted, none⟩ := Task.mayStart_iff.mp may
  have counted := safe.dependencies_counted none edge
  by_contra down
  have unwanted := safe.counted dependency counted (by simpa using down)
  rw [safe.closed t dependency edge wanted] at unwanted
  contradiction

/-- A task that may stop has all its dependants down, stale flags or not. -/
theorem dependants_down (safe : Safe graph state) {t : Fin n}
    (may : (state.tasks t).mayStop = true) :
    ∀ dependant, t ∈ graph.dependencies dependant →
      (state.tasks dependant).affectDependencies = false := by
  intro dependant edge
  obtain ⟨-, unwanted, none⟩ := Task.mayStop_iff.mp may
  have uncounted := safe.dependants_uncounted none edge
  by_contra up
  have wanted := safe.uncounted dependant (by simpa using up) uncounted
  rw [safe.closed dependant t edge wanted] at unwanted
  contradiction

theorem dependants_down_of_not_full (safe : Safe graph state) {t : Fin n}
    (down : (state.tasks t).affectDependants = false) (dependant : Fin n)
    (edge : t ∈ graph.dependencies dependant) :
    (state.tasks dependant).affectDependencies = false := by
  by_contra up
  have full := safe.order dependant t edge (by simpa using up)
  rw [down] at full
  contradiction

/-- Replacing one handle keeps the invariant, if the task comes up only over
dependencies that are up, goes down only under dependants that are down, and
its stale flags stay harmless. -/
theorem replaceHandle (safe : Safe graph state) (t : Fin n)
    (handle : AsyncTaskHandle) {task : Task}
    (replaced : { state.tasks t with handle := handle } = task)
    (comesUp : task.affectDependencies = true →
      ∀ dependency ∈ graph.dependencies t,
        (state.tasks dependency).affectDependants = true)
    (goesDown : task.affectDependants = true ∨
      ∀ dependant, t ∈ graph.dependencies dependant →
        (state.tasks dependant).affectDependencies = false)
    (uncounted : task.affectDependencies = true →
      (state.tasks t).countedInDependencies = false →
        (state.tasks t).shouldWork = true)
    (counted : (state.tasks t).countedInDependants = true →
      task.affectDependants = false → (state.tasks t).shouldWork = false)
    (pending : task.affectPendingTasks = true →
      (state.tasks t).countedInPendingTasks = true) :
    Safe graph (state.modify t fun task => { task with handle := handle }) := by
  have tasks := fun other => modify_tasks state t other
    fun task => { task with handle := handle }
  refine ⟨safe.counters.replaceHandle t handle, ?_, ?_, ?_, ?_, ?_⟩
  · intro dependant dependency edge up
    rw [tasks] at up ⊢
    by_cases source : dependant = t <;> by_cases sink : dependency = t
    · subst source
      rw [if_pos rfl, replaced] at up
      rw [if_pos sink, sink, replaced]
      rcases goesDown with full | down
      · exact full
      · have full := comesUp up dependency edge
        have stopped := down dependant (sink ▸ edge)
        rw [← sink, Task.affectDependencies_of_affectDependants full] at stopped
        contradiction
    · subst source
      rw [if_pos rfl, replaced] at up
      rw [if_neg sink]
      exact comesUp up dependency edge
    · rw [if_neg source] at up
      subst sink
      rw [if_pos rfl, replaced]
      rcases goesDown with full | down
      · exact full
      · rw [down dependant edge] at up
        contradiction
    · rw [if_neg source] at up
      rw [if_neg sink]
      exact safe.order dependant dependency edge up
  · intro dependant dependency edge
    rw [tasks, tasks]
    have closed := safe.closed dependant dependency edge
    split <;> split <;> exact closed
  · intro other up
    by_cases same : other = t
    · subst other
      rw [tasks, if_pos rfl] at up ⊢
      exact uncounted (replaced ▸ up)
    · rw [tasks, if_neg same] at up ⊢
      exact safe.uncounted other up
  · intro other flag down
    by_cases same : other = t
    · subst other
      rw [tasks, if_pos rfl] at flag down ⊢
      exact counted flag (replaced ▸ down)
    · rw [tasks, if_neg same] at flag down ⊢
      exact safe.counted other flag down
  · intro other up
    by_cases same : other = t
    · subst other
      rw [tasks, if_pos rfl] at up ⊢
      exact pending (replaced ▸ up)
    · rw [tasks, if_neg same] at up ⊢
      exact safe.pending other up

theorem sync (safe : Safe graph state) (t : Fin n) :
    Safe graph (InitdState.sync graph t state) := by
  have visible : ∀ other,
      ((InitdState.sync graph t state).tasks other).affectDependencies =
          (state.tasks other).affectDependencies ∧
        ((InitdState.sync graph t state).tasks other).affectDependants =
          (state.tasks other).affectDependants ∧
        ((InitdState.sync graph t state).tasks other).affectPendingTasks =
          (state.tasks other).affectPendingTasks := fun other => by
    simp [Task.affectDependencies, Task.affectDependants,
      Task.affectPendingTasks]
  refine ⟨safe.counters.sync, ?_, ?_, ?_, ?_, ?_⟩
  · intro dependant dependency edge up
    rw [(visible _).1] at up
    rw [(visible _).2.1]
    exact safe.order dependant dependency edge up
  · intro dependant dependency edge
    simpa using safe.closed dependant dependency edge
  · intro other up flag
    rw [(visible _).1] at up
    rw [sync_countedInDependencies] at flag
    rw [sync_shouldWork]
    split at flag
    · subst other
      rw [up] at flag
      contradiction
    · exact safe.uncounted other up flag
  · intro other flag down
    rw [(visible _).2.1] at down
    rw [sync_countedInDependants] at flag
    rw [sync_shouldWork]
    split at flag
    · subst other
      rw [down] at flag
      contradiction
    · exact safe.counted other flag down
  · intro other up
    rw [(visible _).2.2] at up
    rw [sync_countedInPendingTasks]
    split
    · subst other
      exact up
    · exact safe.pending other up

theorem replaceSame (safe : Safe graph state) {t : Fin n}
    {handle : AsyncTaskHandle}
    (running : handle.isRunning = (state.tasks t).handle.isRunning)
    (transition :
      handle.isInTransition = (state.tasks t).handle.isInTransition) :
    Safe graph (state.modify t fun task => { task with handle := handle }) := by
  have dependencies : ({ state.tasks t with handle := handle } :
      Task).affectDependencies = (state.tasks t).affectDependencies := by
    simp only [Task.affectDependencies, running, transition]
  have dependants : ({ state.tasks t with handle := handle } :
      Task).affectDependants = (state.tasks t).affectDependants := by
    simp only [Task.affectDependants, running, transition]
  have pendings : ({ state.tasks t with handle := handle } :
      Task).affectPendingTasks = (state.tasks t).affectPendingTasks := by
    simp only [Task.affectPendingTasks, running, transition]
  refine safe.replaceHandle t handle rfl ?_ ?_ ?_ ?_ ?_
  · rw [dependencies]
    exact fun up dependency edge => safe.order t dependency edge up
  · rw [dependants]
    cases full : (state.tasks t).affectDependants
    · exact .inr (safe.dependants_down_of_not_full full)
    · exact .inl rfl
  · rw [dependencies]
    exact safe.uncounted t
  · rw [dependants]
    exact safe.counted t
  · rw [pendings]
    exact safe.pending t

/-- A run-level change may make `should_work` false below a task that is up,
but it leaves no flag stale. -/
theorem select (safe : Safe graph state) {closure : Fin n → Prop}
    {selected : InitdState n}
    (closed : ∀ dependant, ∀ dependency ∈ graph.dependencies dependant,
      closure dependant → closure dependency)
    (selects : Selected graph closure state selected) :
    Safe graph selected where
  counters := selects.counters safe.counters
  order dependant dependency edge up := by
    simp only [Task.affectDependencies, Task.affectDependants,
      selects.handle] at up ⊢
    exact safe.order dependant dependency edge up
  closed dependant dependency edge wanted :=
    (selects.shouldWork dependency).mpr
      (closed dependant dependency edge
        ((selects.shouldWork dependant).mp wanted))
  uncounted t up flag := by
    rw [(selects.synced t).dependencies, up] at flag
    contradiction
  counted t flag down := by
    rw [(selects.synced t).dependants, down] at flag
    contradiction
  pending t up := by
    rw [(selects.synced t).pendingTasks, up]

theorem started (safe : Safe graph state) {t : Fin n}
    (may : (state.tasks t).mayStart = true) (handle : AsyncTaskHandle) :
    Safe graph (state.modify t fun task => { task with handle := handle }) := by
  obtain ⟨down, wanted, -⟩ := Task.mayStart_iff.mp may
  refine safe.replaceHandle t handle rfl (fun _ => safe.dependencies_up may)
    (.inr (safe.dependants_down_of_not_full down)) (fun _ _ => wanted) ?_ ?_
  · intro counted
    rw [safe.counted t counted down] at wanted
    contradiction
  · intro _
    refine safe.pending t ?_
    cases running : (state.tasks t).handle.isRunning
    · simp [Task.affectPendingTasks, running, wanted]
    · have transition : (state.tasks t).handle.isInTransition = true := by
        simpa [Task.affectDependants, running] using down
      simp [Task.affectPendingTasks, transition]

theorem stopped (safe : Safe graph state) {t : Fin n}
    (may : (state.tasks t).mayStop = true) (handle : AsyncTaskHandle) :
    Safe graph (state.modify t fun task => { task with handle := handle }) := by
  obtain ⟨up, unwanted, -⟩ := Task.mayStop_iff.mp may
  refine safe.replaceHandle t handle rfl ?_ (.inr (safe.dependants_down may))
    (fun _ => safe.uncounted t up) (fun _ _ => unwanted) ?_
  · exact fun _ dependency edge => safe.order t dependency edge up
  · intro _
    refine safe.pending t ?_
    rcases Task.affectDependencies_iff.mp up with running | transition
    · simp [Task.affectPendingTasks, running, unwanted]
    · simp [Task.affectPendingTasks, transition]

theorem finished (safe : Safe graph state) {t : Fin n} {answers : Answers}
    {handle : AsyncTaskHandle} {result : ForkResult}
    (finished :
      AsyncTaskHandle.Finished answers (state.tasks t).handle handle result) :
    Safe graph (state.modify t fun task => { task with handle := handle }) := by
  rcases finished.visible with transition | ⟨running, transition⟩
  · have up : (state.tasks t).affectDependencies = true := by
      simp [Task.affectDependencies, transition]
    have down : (state.tasks t).affectDependants = false := by
      simp [Task.affectDependants, transition]
    refine safe.replaceHandle t handle rfl
      (fun _ dependency edge => safe.order t dependency edge up)
      (.inr (safe.dependants_down_of_not_full down))
      (fun _ => safe.uncounted t up)
      (fun counted _ => safe.counted t counted down) (fun _ => ?_)
    exact safe.pending t (by simp [Task.affectPendingTasks, transition])
  · exact safe.replaceSame running transition

theorem launched_inOrder (safe : Safe graph state) {t : Fin n}
    (transition : (state.tasks t).handle.isInTransition = true)
    (operation : Operation) (command : Command) :
    InOrder graph state (.launched t operation command) := by
  cases operation with
  | start =>
      exact fun dependency edge => safe.order t dependency edge
        (by simp [Task.affectDependencies, transition])
  | stop =>
      exact safe.dependants_down_of_not_full
        (by simp [Task.affectDependants, transition])

end Safe

/-! The calls, from the handle up to the step. -/

section Calls

variable {graph : TaskGraph n}

def SafeAction (graph : TaskGraph n) (action : Action n)
    (state : InitdState n) : Prop :=
  Safe graph state ∧ InOrder graph state action

/-- The call is safe at its end, however it ends, and at every action. -/
abbrev SafeCall (graph : TaskGraph n) (call : Call n) : Prop :=
  call.Satisfies (Safe graph) (Safe graph) (SafeAction graph)

theorem afterFork_safe {state : InitdState n} (safe : Safe graph state)
    (t : Fin n) {result : ForkResult}
    (transition : ∀ operation command, result = .launched operation command →
      (state.tasks t).handle.isInTransition = true) :
    SafeCall graph (afterFork t state result) := by
  refine ⟨?_, ?_, ?_⟩
  · intro _
    cases result <;> exact safe
  · intro _
    cases result <;> exact safe
  · intro entry member
    cases result with
    | notCalled => simp [afterFork] at member
    | threw => simp [afterFork] at member
    | launched operation command =>
        rw [List.mem_singleton.mp member]
        exact ⟨safe, safe.launched_inOrder (transition _ _ rfl) _ _⟩

theorem setShouldWork_safe {state : InitdState n} {t : Fin n} {s : Bool}
    {environment : Environment n}
    (safe : Safe graph (state.modify t fun task => { task with
      handle := (task.handle.setShouldWork (environment t) s).1 }))
    (inOrder : InOrder graph
      (state.modify t fun task => { task with
        handle := (task.handle.setShouldWork (environment t) s).1 })
      (.setShouldWork t s)) :
    SafeCall graph (state.setShouldWork environment t s) := by
  have forked : SafeCall graph (afterFork t
      (state.modify t fun task => { task with
        handle := (task.handle.setShouldWork (environment t) s).1 })
      ((state.tasks t).handle.setShouldWork (environment t) s).2) :=
    afterFork_safe safe t fun operation command launched => by
      rw [modify_self]
      exact AsyncTaskHandle.setShouldWork_launched launched
  refine ⟨forked.normal, forked.thrown, fun entry member => ?_⟩
  rcases List.mem_append.mp member with early | late
  · exact forked.logged entry early
  · rw [List.mem_singleton.mp late]
    exact ⟨safe, inOrder⟩

theorem enqueueThis_safe {state : InitdState n} (safe : Safe graph state)
    (environment : Environment n) (t : Fin n) :
    SafeCall graph (enqueueThis environment t state) := by
  rcases enqueueThis_cases with ⟨may, equal⟩ | ⟨may, equal⟩ | ⟨-, -, equal⟩ <;>
    rw [equal]
  · refine setShouldWork_safe (safe.started may _) ?_
    intro dependency edge
    have up := safe.dependencies_up may dependency edge
    have other : dependency ≠ t := by
      rintro rfl
      rw [(Task.mayStart_iff.mp may).1] at up
      contradiction
    rwa [modify_of_ne _ other]
  · refine setShouldWork_safe (safe.stopped may _) ?_
    intro dependant edge
    have down := safe.dependants_down may dependant edge
    have other : dependant ≠ t := by
      rintro rfl
      rw [(Task.mayStop_iff.mp may).1] at down
      contradiction
    rwa [modify_of_ne _ other]
  · exact Outcome.satisfies_done safe

theorem enqueueAll_safe {state : InitdState n} (safe : Safe graph state)
    (environment : Environment n) (tts : List (Fin n)) :
    SafeCall graph (enqueueAll environment tts state) :=
  Outcome.forEach_satisfies (fun _ => Safe graph)
    (fun t _ _ safe => enqueueThis_safe safe environment t) tts state safe

theorem stateChanged_safe {state : InitdState n} (safe : Safe graph state)
    (environment : Environment n) (t : Fin n) :
    SafeCall graph (stateChanged graph environment t state) := by
  simp only [stateChanged]
  split
  · exact enqueueAll_safe (safe.sync t) environment _
  · exact enqueueAll_safe (safe.sync t) environment _

theorem IsCallback.safe {state : InitdState n} {environment : Environment n}
    {t : Fin n} {call : Call n}
    (callback : IsCallback graph environment t state call)
    (safe : Safe graph state) : SafeCall graph call := by
  obtain ⟨handle, result, finished, rfl⟩ := callback
  refine Outcome.Satisfies.bind (afterFork_safe (safe.finished finished) t ?_)
    fun state safe => stateChanged_safe safe environment t
  rintro operation command rfl
  rw [modify_self]
  exact finished.launched

theorem step_safe {state : InitdState n} (safe : Safe graph state)
    {environment : Environment n} {event : Event n} {call : Call n}
    (stepped : state.step graph environment event = some call) :
    SafeCall graph call := by
  rcases step_cases stepped with rfl | ⟨_, _, closed, selects, rfl⟩ |
    ⟨t, callback⟩
  · exact ⟨fun _ => safe, fun _ => safe, fun _ member => nomatch member⟩
  · exact enqueueAll_safe (safe.select closed selects) environment _
  · exact callback.safe safe

end Calls

theorem initdState_safe (descriptions : TaskDescriptions n) :
    Safe descriptions.graph descriptions.initdState where
  counters := descriptions.initdState_counters
  order dependant _ _ up := by
    rw [descriptions.initdState_affectDependencies] at up
    contradiction
  closed _ _ _ wanted := by simp at wanted
  uncounted t up := by
    rw [descriptions.initdState_affectDependencies] at up
    contradiction
  counted t flag := by
    rw [descriptions.initdState_tasks] at flag
    simp [Task.create] at flag
  pending t up := by simp [Task.affectPendingTasks] at up

theorem reachable_safe {descriptions : TaskDescriptions n}
    {allowed : Environment n → Prop} {state : InitdState n}
    (reached : (initdSystem descriptions allowed).Reachable state) :
    Safe descriptions.graph state := by
  refine reached.invariant _ ?_ ?_
  · rintro state rfl
    exact initdState_safe descriptions
  · rintro before _ _ safe ⟨environment, event, call, -, stepped, rfl⟩
    exact (step_safe safe stepped).state

/-- Between steps and after every action inside one, a task that is up has its
dependencies fully up; so starts and stops come in dependency order. -/
theorem dependency_order {descriptions : TaskDescriptions n}
    {state : InitdState n}
    (reached : (initdSystem descriptions fun _ => True).Reachable state) :
    DependencyOrder descriptions.graph state ∧
      ∀ environment event call,
        state.step descriptions.graph environment event = some call →
          DependencyOrder descriptions.graph call.state ∧
            ∀ entry ∈ call.log,
              DependencyOrder descriptions.graph entry.2 ∧
                InOrder descriptions.graph entry.2 entry.1 := by
  have safe := reachable_safe reached
  refine ⟨safe.order, fun environment event call stepped => ?_⟩
  have called := step_safe safe stepped
  refine ⟨called.state.order, fun entry member => ?_⟩
  obtain ⟨after, inOrder⟩ := called.logged entry member
  exact ⟨after.order, inOrder⟩

theorem dependency_order_serviceStarting :
    DependencyOrder serviceOverControl.graph serviceStarting ∧
      ∀ environment event call,
        serviceStarting.step serviceOverControl.graph environment event =
            some call →
          DependencyOrder serviceOverControl.graph call.state ∧
            ∀ entry ∈ call.log,
              DependencyOrder serviceOverControl.graph entry.2 ∧
                InOrder serviceOverControl.graph entry.2 entry.1 :=
  dependency_order (serviceStarting_reachable trivial)

end InitdState

end Initd
