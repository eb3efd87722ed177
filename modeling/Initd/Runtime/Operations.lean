import Initd.Runtime.Convergence
import Initd.Runtime.Requests

namespace Initd

open Library

/-! The operations that a call launches, next to those in flight. -/

def ForkResult.isLaunched : ForkResult → Bool
  | .launched _ _ => true
  | .notCalled | .threw => false

namespace AsyncStartStopTask

variable {fork : Bool} {task after : AsyncStartStopTask} {result : ForkResult}

/-- What the completion callbacks assert, whether forks succeed or not. -/
def Directed (task : AsyncStartStopTask) : Prop :=
  ∀ operation, task.currentOperation = some operation →
    task.running = decide (operation = .stop)

theorem Directed.enqueueJob (directed : task.Directed) :
    (enqueueJob fork task).1.Directed := by
  intro operation current
  unfold AsyncStartStopTask.enqueueJob at current ⊢
  split_ifs at current ⊢ with outstanding agree wanted forks forks
  · exact directed operation current
  · exact directed operation current
  · obtain rfl := Option.some.inj current
    simpa [wanted] using agree
  · exact directed operation current
  · obtain rfl := Option.some.inj current
    simpa [wanted] using agree
  · exact directed operation current

theorem Directed.setShouldWork (directed : task.Directed) (s : Bool) :
    (setShouldWork fork s task).1.Directed :=
  @Directed.enqueueJob fork { task with shouldWork := s } directed

theorem Directed.operationCompleted
    (completed : task.operationCompleted fork = some (after, result)) :
    after.Directed := by
  have job := operationCompleted_eq completed
  have idle : Directed { task with
      running := !task.running, currentOperation := none } :=
    fun _ current => nomatch current
  have directed := @Directed.enqueueJob fork _ idle
  rwa [job] at directed

theorem Directed.exists_operationCompleted (directed : task.Directed)
    (busy : task.isInTransition = true) (fork : Bool) :
    ∃ after result, task.operationCompleted fork = some (after, result) := by
  obtain ⟨operation, current⟩ := Option.isSome_iff_exists.mp busy
  have running := directed operation current
  unfold AsyncStartStopTask.operationCompleted
  rw [current]
  cases operation <;> exact ⟨_, _, by simp [running]; rfl⟩

/-- An operation is launched only where none is in flight. -/
theorem enqueueJob_busy :
    (enqueueJob fork task).1.isInTransition =
        (task.isInTransition || (enqueueJob fork task).2.isLaunched) ∧
      ((enqueueJob fork task).2.isLaunched = true →
        task.isInTransition = false) := by
  unfold enqueueJob isInTransition
  split_ifs <;> simp_all [ForkResult.isLaunched]

end AsyncStartStopTask

namespace AsyncTaskHandle

variable {answers : Answers} {handle after : AsyncTaskHandle}
  {result : ForkResult}

def Directed : AsyncTaskHandle → Prop
  | startStop task => task.Directed
  | sync _ => True

theorem directed_create (data : TaskData) :
    (createAsyncTaskHandle data).Directed := by
  cases data with
  | startStop data => exact fun _ current => nomatch current
  | _ => trivial

theorem Directed.setShouldWork (directed : handle.Directed) (s : Bool) :
    (handle.setShouldWork answers s).1.Directed := by
  cases handle with
  | startStop task =>
      exact AsyncStartStopTask.Directed.setShouldWork directed s
  | sync adaptor => trivial

theorem Directed.mapControl (directed : handle.Directed)
    (change : ControlTaskHandle → ControlTaskHandle) :
    (handle.mapControl change).Directed := by
  cases handle with
  | startStop task => exact directed
  | sync adaptor => trivial

theorem setShouldWork_busy (s : Bool) :
    (handle.setShouldWork answers s).1.isInTransition =
        (handle.isInTransition ||
          (handle.setShouldWork answers s).2.isLaunched) ∧
      ((handle.setShouldWork answers s).2.isLaunched = true →
        handle.isInTransition = false) := by
  cases handle with
  | startStop task =>
      exact @AsyncStartStopTask.enqueueJob_busy answers.fork
        { task with shouldWork := s }
  | sync adaptor => exact ⟨rfl, fun launched => nomatch launched⟩

theorem Finished.directed (finished : Finished answers handle after result) :
    after.Directed := by
  cases finished with
  | operation completed =>
      exact AsyncStartStopTask.Directed.operationCompleted completed
  | delivery _ => trivial

/-- After its event, a handle is busy exactly with what was launched then. -/
theorem Finished.busy (finished : Finished answers handle after result) :
    after.isInTransition = result.isLaunched := by
  cases finished with
  | @operation task later _ completed =>
      have job := AsyncStartStopTask.operationCompleted_eq completed
      have busy := (@AsyncStartStopTask.enqueueJob_busy answers.fork { task with
        running := !task.running, currentOperation := none }).1
      rw [job] at busy
      exact busy
  | delivery _ => rfl

end AsyncTaskHandle

namespace Action

variable {n : Nat}

def launchedTask : Action n → Option (Fin n)
  | launched t _ _ => some t
  | setShouldWork _ _ => none

end Action

/-- The tasks whose operations were launched, in their order. -/
def launchedTasks {n : Nat} {State : Type} (log : List (Action n × State)) :
    List (Fin n) :=
  log.filterMap fun entry => entry.1.launchedTask

/-- Exactly the tasks of the list have become busy, each once. -/
structure Launched {n : Nat} (before after : Fin n → Bool)
    (tasks : List (Fin n)) : Prop where
  nodup : tasks.Nodup
  fresh : ∀ t ∈ tasks, before t = false
  after : ∀ t, after t = (before t || decide (t ∈ tasks))

namespace Launched

variable {n : Nat} {before middle after : Fin n → Bool}
  {earlier later : List (Fin n)}

theorem refl (busy : Fin n → Bool) : Launched busy busy [] where
  nodup := List.nodup_nil
  fresh := List.forall_mem_nil _
  after t := by simp

theorem trans (first : Launched before middle earlier)
    (second : Launched middle after later) :
    Launched before after (earlier ++ later) where
  nodup := by
    refine List.nodup_append.mpr ⟨first.nodup, second.nodup, ?_⟩
    rintro t early _ late rfl
    have busy := second.fresh t late
    rw [first.after, decide_eq_true early, Bool.or_true] at busy
    contradiction
  fresh t member := by
    rcases List.mem_append.mp member with early | late
    · exact first.fresh t early
    · have idle := second.fresh t late
      rw [first.after] at idle
      exact (Bool.or_eq_false_iff.mp idle).1
  after t := by
    rw [second.after, first.after]
    simp [Bool.or_assoc]

end Launched

namespace InitdState

variable {n : Nat}

def busy (state : InitdState n) (t : Fin n) : Bool :=
  (state.tasks t).handle.isInTransition

def Directed (state : InitdState n) : Prop :=
  ∀ t, (state.tasks t).handle.Directed

/-- What a call launches, and that it keeps the assertions. -/
structure Launches (state : InitdState n) (call : Call n) : Prop where
  launched : Launched state.busy call.state.busy (launchedTasks call.log)
  directed : state.Directed → call.state.Directed

section Calls

variable {environment : Environment n} {state : InitdState n}

theorem launches_done (state : InitdState n) : Launches state (.done state) :=
  ⟨.refl _, id⟩

theorem Launches.bind {first : Call n} {next : InitdState n → Call n}
    (left : Launches state first)
    (right : Launches first.state (next first.state)) :
    Launches state (first.bind next) := by
  unfold Outcome.bind
  split
  · exact left
  · refine ⟨?_, fun directed => right.directed (left.directed directed)⟩
    simp only [launchedTasks, List.filterMap_append]
    exact left.launched.trans right.launched

theorem Launches.from_same {before : InitdState n} {call : Call n}
    (launches : Launches state call)
    (handles : ∀ t, (state.tasks t).handle = (before.tasks t).handle) :
    Launches before call := by
  have same : state.busy = before.busy := by
    funext t
    rw [busy, busy, handles]
  refine ⟨same ▸ launches.launched, fun directed => launches.directed fun t => ?_⟩
  rw [handles]
  exact directed t

/-- A task whose operation, if it had one, was reset may launch the next. -/
theorem launched_afterFork {before : Fin n → Bool} {t : Fin n}
    {handle : AsyncTaskHandle} {result : ForkResult}
    (others : ∀ other, other ≠ t → before other = state.busy other)
    (becomes : handle.isInTransition = (before t || result.isLaunched))
    (fresh : result.isLaunched = true → before t = false) :
    Launched before
      (state.modify t fun task => { task with handle := handle }).busy
      (launchedTasks (afterFork t (state.modify t fun task =>
        { task with handle := handle }) result).log) := by
  have listed : launchedTasks (afterFork t (state.modify t fun task =>
      { task with handle := handle }) result).log =
        if result.isLaunched then [t] else [] := by
    cases result <;> rfl
  rw [listed]
  refine ⟨?_, ?_, fun other => ?_⟩
  · split
    · exact List.nodup_singleton t
    · exact List.nodup_nil
  · intro other member
    split at member
    · next launched =>
        rw [List.mem_singleton.mp member]
        exact fresh launched
    · contradiction
  · by_cases same : other = t
    · subst other
      rw [busy, modify_self, becomes]
      cases result.isLaunched <;> simp
    · rw [busy, modify_of_ne _ same, others other same, busy]
      cases result.isLaunched <;> simp [same]

theorem Directed.replaceHandle (directed : state.Directed) {t : Fin n}
    (change : Task → AsyncTaskHandle) (changed : (change (state.tasks t)).Directed) :
    (state.modify t fun task => { task with handle := change task }).Directed := by
  intro other
  by_cases same : other = t
  · subst other
    rwa [modify_self]
  · rw [modify_of_ne _ same]
    exact directed other

theorem setShouldWork_launches (t : Fin n) (s : Bool) :
    Launches state (state.setShouldWork environment t s) := by
  obtain ⟨becomes, fresh⟩ := @AsyncTaskHandle.setShouldWork_busy
    (environment t) (state.tasks t).handle s
  refine ⟨?_, fun directed => ?_⟩
  · have listed : launchedTasks (state.setShouldWork environment t s).log =
        launchedTasks (afterFork t (state.modify t fun task => { task with
          handle := ((state.tasks t).handle.setShouldWork (environment t) s).1 })
          ((state.tasks t).handle.setShouldWork (environment t) s).2).log := by
      simp [launchedTasks, setShouldWork, Action.launchedTask]
    rw [listed]
    simp only [setShouldWork, afterFork_state]
    exact launched_afterFork (fun _ _ => rfl) becomes fresh
  · rw [setShouldWork_state]
    exact directed.replaceHandle
      (fun task => (task.handle.setShouldWork (environment t) s).1)
      ((directed t).setShouldWork s)

theorem enqueueThis_launches (t : Fin n) :
    Launches state (enqueueThis environment t state) := by
  rcases enqueueThis_cases with ⟨-, equal⟩ | ⟨-, equal⟩ | ⟨-, -, equal⟩ <;>
    rw [equal]
  · exact setShouldWork_launches t true
  · exact setShouldWork_launches t false
  · exact launches_done state

theorem enqueueAll_launches (tts : List (Fin n)) :
    Launches state (enqueueAll environment tts state) := by
  induction tts generalizing state with
  | nil => exact launches_done state
  | cons t rest induction => exact (enqueueThis_launches t).bind induction

theorem stateChanged_launches (graph : TaskGraph n) (t : Fin n) :
    Launches state (stateChanged graph environment t state) := by
  have handles : ∀ other, ((InitdState.sync graph t state).tasks other).handle =
      (state.tasks other).handle := fun other => sync_handle graph t other state
  simp only [stateChanged]
  split <;> exact (enqueueAll_launches _).from_same handles

/-- What a callback launches, next to the operations in flight without its
own. -/
theorem IsCallback.launched {graph : TaskGraph n} {t : Fin n} {call : Call n}
    (callback : IsCallback graph environment t state call) :
    Launched (Function.update state.busy t false) call.state.busy
        (launchedTasks call.log) ∧
      (state.Directed → call.state.Directed) := by
  obtain ⟨handle, result, finished, rfl⟩ := callback
  have forked : Launched (Function.update state.busy t false)
      (state.modify t fun task => { task with handle := handle }).busy
      (launchedTasks (afterFork t (state.modify t fun task =>
        { task with handle := handle }) result).log) := by
    refine launched_afterFork (fun other different => ?_) ?_ fun _ => ?_
    · exact Function.update_of_ne different ..
    · rw [Function.update_self, Bool.false_or]
      exact finished.busy
    · exact Function.update_self ..
  have changed : Launches (state.modify t fun task =>
      { task with handle := handle }) (stateChanged graph environment t _) :=
    stateChanged_launches graph t
  unfold Outcome.bind
  rw [afterFork_state]
  split
  · refine ⟨?_, fun directed => ?_⟩
    · rw [afterFork_state]
      exact forked
    · rw [afterFork_state]
      exact directed.replaceHandle (fun _ => handle) finished.directed
  · simp only [launchedTasks, List.filterMap_append]
    refine ⟨forked.trans changed.launched, fun directed => ?_⟩
    exact changed.directed (directed.replaceHandle (fun _ => handle) finished.directed)

/-- What a change of the run level launches. -/
theorem runLevel_launches {graph : TaskGraph n} {event : Event n}
    (noCallback : event.task = none) {call : Call n}
    (stepped : state.step graph environment event = some call) :
    Launches state call := by
  cases event with
  | childExited t => contradiction
  | callbackDelivered t => contradiction
  | setEmptyRunLevel =>
      obtain rfl := Option.some.inj stepped
      exact (enqueueAll_launches _).from_same
        (setEmptyRunLevel_selected graph state).handle
  | setRunLevel runLevelName =>
      simp only [step, setRunLevel] at stepped
      split at stepped
      · obtain rfl := Option.some.inj stepped
        exact ⟨.refl _, id⟩
      · obtain ⟨selected, selects, rfl⟩ := Option.map_eq_some_iff.mp stepped
        exact (enqueueAll_launches _).from_same
          (selectRunLevel_selected selects).handle

theorem callbackDelivered_launches {graph : TaskGraph n} {t : Fin n}
    {call : Call n}
    (taken : state.callbackDelivered graph environment t = some call) :
    Launches state call := by
  have idle : state.busy t = false := by
    unfold callbackDelivered at taken
    unfold busy
    cases kind : (state.tasks t).handle with
    | startStop task => simp [kind] at taken
    | sync adaptor => rfl
  have same : Function.update state.busy t false = state.busy :=
    Function.update_eq_self_iff.mpr idle.symm
  obtain ⟨launched, directed⟩ := (callbackDelivered_isCallback taken).launched
  exact ⟨same ▸ launched, directed⟩

end Calls

end InitdState

namespace Context

variable {n : Nat} {graph : TaskGraph n} {environment : Environment n}
  {ctx : Context n}

/-- What a call of `context` launches, and that it keeps the assertions. -/
structure Launches (ctx : Context n) (call : ContextCall n) : Prop where
  launched : Launched ctx.state.busy call.state.state.busy
    (launchedTasks call.log)
  directed : ctx.state.Directed → call.state.state.Directed

theorem launchedTasks_map {State Other : Type} (embed : State → Other)
    (outcome : Outcome State (Action n)) :
    launchedTasks (outcome.map embed).log = launchedTasks outcome.log := by
  rw [launchedTasks, Outcome.map, List.filterMap_map]
  rfl

theorem launches_map {call : Call n} (launches : ctx.state.Launches call)
    (target : Target) :
    Launches ctx (call.map fun state => ⟨target, state⟩) := by
  refine ⟨?_, launches.directed⟩
  rw [launchedTasks_map]
  exact launches.launched

theorem modifyControl_busy (t : Fin n)
    (change : ControlTaskHandle → ControlTaskHandle) :
    (ctx.modifyControl t change).state.busy = ctx.state.busy := by
  funext other
  unfold InitdState.busy modifyControl
  by_cases same : other = t
  · subst other
    rw [InitdState.modify_self]
    exact AsyncTaskHandle.mapControl_isInTransition
  · rw [InitdState.modify_of_ne _ same]

theorem modifyControl_directed (directed : ctx.state.Directed) (t : Fin n)
    (change : ControlTaskHandle → ControlTaskHandle) :
    (ctx.modifyControl t change).state.Directed :=
  directed.replaceHandle (fun task => task.handle.mapControl change)
    ((directed t).mapControl change)

theorem modifyControl_launches (t : Fin n)
    (change : ControlTaskHandle → ControlTaskHandle) :
    Launches ctx (.done (ctx.modifyControl t change)) := by
  refine ⟨?_, fun directed => modifyControl_directed directed t change⟩
  have same : (ctx.modifyControl t change).state.busy = ctx.state.busy :=
    modifyControl_busy t change
  exact same ▸ Launched.refl ctx.state.busy

theorem dispatch_launches {message : ControlMessage} {call : ContextCall n}
    (dispatched : ctx.dispatch graph environment message = some call) :
    Launches ctx call := by
  have emptied : ctx.state.step graph environment .setEmptyRunLevel =
    some (ctx.state.setEmptyRunLevel graph environment) := rfl
  cases message with
  | reboot =>
      obtain rfl := Option.some.inj dispatched
      exact launches_map (InitdState.runLevel_launches rfl emptied) .reboot
  | powerOff =>
      obtain rfl := Option.some.inj dispatched
      exact launches_map (InitdState.runLevel_launches rfl emptied) .powerOff
  | setRunlevel runlevelName =>
      obtain ⟨inner, changed, rfl⟩ := Option.map_eq_some_iff.mp dispatched
      have stepped : ctx.state.step graph environment
        (.setRunLevel runlevelName) = some inner := changed
      exact launches_map (InitdState.runLevel_launches rfl stepped) .running

theorem step_launches {event : Event n}
    (notExited : ∀ t, event ≠ .childExited t) {call : ContextCall n}
    (stepped : ctx.step graph environment event = some call) :
    Launches ctx call := by
  cases event with
  | called message => exact dispatch_launches stepped
  | childExited t => exact absurd rfl (notExited t)
  | callbackDelivered t =>
      obtain ⟨inner, taken, rfl⟩ := Option.map_eq_some_iff.mp stepped
      exact launches_map (InitdState.callbackDelivered_launches taken) ctx.target
  | accepted t =>
      obtain rfl := Option.some.inj stepped
      exact modifyControl_launches t _
  | disconnected t id =>
      obtain rfl := Option.some.inj stepped
      exact modifyControl_launches t _
  | messageReceived t id message =>
      simp only [Context.step, messageReceived] at stepped
      split at stepped
      · obtain ⟨inner, dispatched, rfl⟩ := Option.map_eq_some_iff.mp stepped
        have launches := dispatch_launches dispatched
        split
        · refine ⟨?_, fun directed =>
            modifyControl_directed (launches.directed directed) t _⟩
          rw [modifyControl_busy]
          exact launches.launched
        · exact launches
      · contradiction

/-- A busy task takes the exit of its child, whatever the kernel answers. -/
theorem exists_childExited (graph : TaskGraph n) (environment : Environment n)
    (directed : ctx.state.Directed) {t : Fin n}
    (busy : ctx.state.busy t = true) :
    ∃ call, ctx.step graph environment (.childExited t) = some call := by
  have direction := directed t
  unfold InitdState.busy at busy
  cases kind : (ctx.state.tasks t).handle with
  | sync adaptor =>
      rw [kind] at busy
      contradiction
  | startStop task =>
      rw [kind] at busy direction
      obtain ⟨after, result, completed⟩ :=
        AsyncStartStopTask.Directed.exists_operationCompleted direction busy
          (environment t).fork
      exact ⟨_, by
        simp only [Context.step, InitdState.childExited, kind, completed]
        rfl⟩

theorem childExited_launched {t : Fin n} {call : ContextCall n}
    (stepped : ctx.step graph environment (.childExited t) = some call) :
    Launched (Function.update ctx.state.busy t false) call.state.state.busy
        (launchedTasks call.log) ∧
      (ctx.state.Directed → call.state.state.Directed) := by
  obtain ⟨inner, exited, rfl⟩ := Option.map_eq_some_iff.mp stepped
  rw [launchedTasks_map]
  exact (InitdState.childExited_isCallback exited).launched

end Context

end Initd
