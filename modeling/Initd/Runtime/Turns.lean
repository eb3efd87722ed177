import Initd.Runtime.Operations

namespace Initd

open Library

/-! How often a request makes a task start or stop. -/

namespace ForkResult

/-- Whether the task is being started or stopped. -/
def turns : ForkResult → List Bool
  | launched operation _ => [decide (operation = .start)]
  | notCalled | threw => []

end ForkResult

namespace AsyncStartStopTask

variable {task : AsyncStartStopTask} {s : Bool}

theorem enqueueJob_turns (idle : task.currentOperation = none)
    (wanted : task.shouldWork = s) :
    (enqueueJob true task).2.turns ++
        (if ((enqueueJob true task).1.running !=
          (enqueueJob true task).1.isInTransition) = s then [] else [s]) =
      if task.running = s then [] else [s] := by
  by_cases agree : task.running = s
  · rw [enqueueJob_of_agree (agree.trans wanted.symm), if_pos agree]
    simp [ForkResult.turns, isInTransition, idle, agree]
  · cases s with
    | true =>
        have down : task.running = false := by simpa using agree
        rw [enqueueJob_starts idle down wanted]
        simp [ForkResult.turns, isInTransition, down]
    | false =>
        have up : task.running = true := by simpa using agree
        rw [enqueueJob_stops idle up wanted]
        simp [ForkResult.turns, isInTransition, up]

end AsyncStartStopTask

namespace AsyncTaskHandle

/-- Whether the task is up, or will be when its operation has ended. -/
def heading (handle : AsyncTaskHandle) : Bool :=
  handle.isRunning != handle.isInTransition

def isAdaptor : AsyncTaskHandle → Bool
  | startStop _ => false
  | sync _ => true

/-- What has still to be done for the task to be as it should. -/
def owed (handle : AsyncTaskHandle) (s : Bool) : List Bool :=
  if handle.heading = s then [] else [s]

variable {answers : Answers} {handle after : AsyncTaskHandle}
  {result : ForkResult} {s : Bool}

theorem owed_of_quiet (quiet : handle.isInTransition = false) :
    handle.owed s = if handle.isRunning = s then [] else [s] := by
  simp [owed, heading, quiet]

@[simp] theorem setShouldWork_isAdaptor :
    (handle.setShouldWork answers s).1.isAdaptor = handle.isAdaptor := by
  cases handle <;> rfl

theorem Finished.isAdaptor (finished : Finished answers handle after result) :
    after.isAdaptor = handle.isAdaptor := by
  cases finished <;> rfl

theorem setShouldWork_owed (forks : answers.fork = true)
    (needed : handle.isInTransition = true ∨ handle.isRunning ≠ s) :
    (handle.setShouldWork answers s).2.turns ++
        (if handle.isAdaptor then [s] else []) ++
        (handle.setShouldWork answers s).1.owed s = handle.owed s := by
  cases handle with
  | sync adaptor =>
      have different : adaptor.running ≠ s :=
        needed.resolve_left Bool.false_ne_true
      simp [setShouldWork, ForkResult.turns, isAdaptor, owed, heading,
        isRunning, isInTransition, different]
  | startStop task =>
      cases operation : task.currentOperation with
      | some outstanding =>
          have told := @AsyncStartStopTask.setShouldWork_of_operation true s _ _
            operation
          simp only [setShouldWork, forks, told]
          rfl
      | none =>
          have idle : (startStop task).isInTransition = false := by
            simp [isInTransition, AsyncStartStopTask.isInTransition, operation]
          have job := @AsyncStartStopTask.enqueueJob_turns
            { task with shouldWork := s } s operation rfl
          rw [owed_of_quiet idle]
          simp only [setShouldWork, forks, isAdaptor, Bool.false_eq_true,
            if_false, List.append_nil]
          exact job

/-- The end of an operation that was told what the task should do. -/
theorem Finished.owed (finished : Finished answers handle after result)
    (forks : answers.fork = true)
    (told : handle.isInTransition = true → handle.getShouldWork = s) :
    result.turns ++ after.owed s = handle.owed s := by
  cases finished with
  | delivery delivered => rfl
  | @operation task after result completed =>
      have busy := AsyncStartStopTask.operationCompleted_isInTransition completed
      have wanted : task.shouldWork = s := told busy
      rw [forks] at completed
      have job := AsyncStartStopTask.operationCompleted_eq completed
      have turned := @AsyncStartStopTask.enqueueJob_turns
        { task with running := !task.running, currentOperation := none } s rfl
        wanted
      rw [job] at turned
      have heading : (startStop task).heading = !task.running := by
        rw [AsyncTaskHandle.heading, AsyncTaskHandle.isInTransition, busy,
          Bool.bne_true]
        rfl
      rw [AsyncTaskHandle.owed, AsyncTaskHandle.owed, heading]
      exact turned

end AsyncTaskHandle

namespace Task

def owed (task : Task) : List Bool := task.handle.owed task.shouldWork

end Task

section Turns

variable {n : Nat}

/-- Whether an action starts or stops the task: by a command, or by a call that
makes or destroys the `task_handle` of an adaptor. -/
def Action.turn (t : Fin n) (adaptor : Bool) : Action n → Option Bool
  | .launched other operation _ =>
      if other = t then some (decide (operation = .start)) else none
  | .setShouldWork other s =>
      if other = t ∧ adaptor = true then some s else none

def turns {State : Type} (t : Fin n) (adaptor : Bool)
    (log : List (Action n × State)) : List Bool :=
  log.filterMap fun entry => entry.1.turn t adaptor

@[simp] theorem turns_nil {State : Type} (t : Fin n) (adaptor : Bool) :
    turns t adaptor ([] : List (Action n × State)) = [] := rfl

@[simp] theorem turns_append {State : Type} (t : Fin n) (adaptor : Bool)
    (log more : List (Action n × State)) :
    turns t adaptor (log ++ more) = turns t adaptor log ++
      turns t adaptor more :=
  List.filterMap_append

end Turns

namespace InitdState

variable {n : Nat} {graph : TaskGraph n} {environment : Environment n}
  {state : InitdState n} {t : Fin n}

theorem turns_afterFork (other : Fin n) (result : ForkResult)
    (adaptor : Bool) :
    turns t adaptor (afterFork other state result).log =
      if other = t then result.turns else [] := by
  cases result with
  | notCalled | threw => simp [afterFork, ForkResult.turns]
  | launched operation command =>
      by_cases same : other = t <;>
        simp [afterFork, ForkResult.turns, turns, Action.turn, same]

/-- A call has done a part of what had to be done with the task, and the rest
has still to be done. -/
structure Turned (t : Fin n) (state : InitdState n) (call : Call n) :
    Prop where
  adaptor : (call.state.tasks t).handle.isAdaptor =
    (state.tasks t).handle.isAdaptor
  owed : turns t (state.tasks t).handle.isAdaptor call.log ++
    (call.state.tasks t).owed = (state.tasks t).owed

theorem turned_done (state : InitdState n) : Turned t state (.done state) :=
  ⟨rfl, rfl⟩

theorem Turned.bind {first : Call n} {next : InitdState n → Call n}
    (left : Turned t state first)
    (right : Turned t first.state (next first.state)) :
    Turned t state (first.bind next) := by
  unfold Outcome.bind
  split
  · exact left
  · refine ⟨right.adaptor.trans left.adaptor, ?_⟩
    rw [turns_append, List.append_assoc, ← left.adaptor, right.owed,
      left.adaptor]
    exact left.owed

theorem Turned.from_same {before : InitdState n} {call : Call n}
    (turned : Turned t state call)
    (handle : (state.tasks t).handle = (before.tasks t).handle)
    (wanted : (state.tasks t).shouldWork = (before.tasks t).shouldWork) :
    Turned t before call := by
  have same : (state.tasks t).owed = (before.tasks t).owed := by
    rw [Task.owed, Task.owed, handle, wanted]
  refine ⟨handle ▸ turned.adaptor, ?_⟩
  rw [← handle, ← same]
  exact turned.owed

theorem setShouldWork_turned (forks : ForksSucceed environment)
    {other : Fin n} {s : Bool} (wanted : (state.tasks other).shouldWork = s)
    (needed : (state.tasks other).handle.isInTransition = true ∨
      (state.tasks other).handle.isRunning ≠ s) :
    Turned t state (state.setShouldWork environment other s) := by
  have listed : turns t (state.tasks t).handle.isAdaptor
      (state.setShouldWork environment other s).log =
        if other = t then
          ((state.tasks other).handle.setShouldWork
            (environment other) s).2.turns ++
            (if (state.tasks t).handle.isAdaptor then [s] else [])
        else [] := by
    simp only [setShouldWork, turns_append, turns_afterFork]
    by_cases same : other = t
    · cases (state.tasks t).handle.isAdaptor <;>
        simp [same, turns, Action.turn]
    · simp [same, turns, Action.turn]
  refine ⟨?_, ?_⟩ <;> rw [setShouldWork_state]
  · by_cases same : t = other
    · subst other
      rw [modify_self]
      exact AsyncTaskHandle.setShouldWork_isAdaptor
    · rw [modify_of_ne _ same]
  · rw [listed]
    by_cases same : t = other
    · subst other
      rw [modify_self, if_pos rfl, Task.owed, Task.owed, wanted]
      exact AsyncTaskHandle.setShouldWork_owed (forks t) needed
    · rw [modify_of_ne _ same, if_neg (Ne.symm same), List.nil_append]

theorem enqueueThis_turned (forks : ForksSucceed environment)
    (other : Fin n) : Turned t state (enqueueThis environment other state) := by
  rcases enqueueThis_cases with ⟨may, equal⟩ | ⟨may, equal⟩ | ⟨-, -, equal⟩ <;>
    rw [equal]
  · obtain ⟨down, wanted, -⟩ := Task.mayStart_iff.mp may
    refine setShouldWork_turned forks wanted ?_
    simpa [Task.affectDependants, or_comm, imp_iff_not_or] using down
  · obtain ⟨up, unwanted, -⟩ := Task.mayStop_iff.mp may
    refine setShouldWork_turned forks unwanted ?_
    simpa [Task.affectDependencies, or_comm] using up
  · exact turned_done state

theorem enqueueAll_turned (forks : ForksSucceed environment)
    (tts : List (Fin n)) : Turned t state (enqueueAll environment tts state) := by
  induction tts generalizing state with
  | nil => exact turned_done state
  | cons other rest induction =>
      exact (enqueueThis_turned forks other).bind induction

theorem stateChanged_turned (forks : ForksSucceed environment) (other : Fin n) :
    Turned t state (stateChanged graph environment other state) := by
  have handle := sync_handle graph other t state
  have wanted := sync_shouldWork graph other t state
  simp only [stateChanged]
  split <;> exact (enqueueAll_turned forks _).from_same handle wanted

theorem IsCallback.turned {other : Fin n} {call : Call n}
    (callback : IsCallback graph environment other state call)
    (forks : ForksSucceed environment) (settled : Settled graph [] state) :
    Turned t state call := by
  obtain ⟨handle, result, finished, rfl⟩ := callback
  have told : (state.tasks other).handle.isInTransition = true →
      (state.tasks other).handle.getShouldWork =
        (state.tasks other).shouldWork := fun busy =>
    (settled.told other busy).resolve_right fun pending =>
      List.not_mem_nil pending.1
  refine Turned.bind ⟨?_, ?_⟩ (stateChanged_turned forks other)
  · rw [afterFork_state]
    by_cases same : t = other
    · subst other
      rw [modify_self]
      exact finished.isAdaptor
    · rw [modify_of_ne _ same]
  · rw [afterFork_state, turns_afterFork]
    by_cases same : t = other
    · subst other
      rw [modify_self, if_pos rfl]
      exact finished.owed (forks t) told
    · rw [modify_of_ne _ same, if_neg (Ne.symm same), List.nil_append]

/-! The callbacks that follow a request. -/

/-- The state that a run of callbacks has come to. -/
def finalState (state : InitdState n) (run : List (Event n × Call n)) :
    InitdState n :=
  run.foldl (fun _ entry => entry.2.state) state

def actions (run : List (Event n × Call n)) :
    List (Action n × InitdState n) :=
  run.flatMap fun entry => entry.2.log

theorem CallbackRun.turned {run : List (Event n × Call n)}
    (ran : CallbackRun graph state run) (loop : SettledLoop graph [] state) :
    SettledLoop graph [] (finalState state run) ∧
      ((finalState state run).tasks t).shouldWork =
        (state.tasks t).shouldWork ∧
      turns t (state.tasks t).handle.isAdaptor (actions run) ++
        ((finalState state run).tasks t).owed = (state.tasks t).owed := by
  induction ran with
  | nil state => exact ⟨loop, rfl, rfl⟩
  | @cons state environment event call later forks callback stepped _ induction =>
      obtain ⟨other, task⟩ := Option.isSome_iff_exists.mp callback
      have isCallback := isCallback_of_task task stepped
      have turned := isCallback.turned (t := t) forks loop.2
      obtain ⟨settled, wanted, owed⟩ :=
        induction (step_settled loop.1 loop.2 forks stepped)
      have kept : (call.state.tasks t).shouldWork = (state.tasks t).shouldWork :=
        Wants.callback (fun _ => rfl) isCallback t
      refine ⟨settled, wanted.trans kept, ?_⟩
      rw [actions, List.flatMap_cons, turns_append, List.append_assoc,
        ← turned.owed, ← owed, turned.adaptor]
      rfl

/-- A request leaves to be done what the task was not heading to. -/
theorem request_turned {event : Event n} (request : event.task = none)
    (forks : ForksSucceed environment) {call : Call n}
    (stepped : state.step graph environment event = some call) :
    (call.state.tasks t).handle.isAdaptor =
        (state.tasks t).handle.isAdaptor ∧
      turns t (state.tasks t).handle.isAdaptor call.log ++
        (call.state.tasks t).owed =
      (state.tasks t).handle.owed (call.state.tasks t).shouldWork := by
  have selecting : ∀ {closure : Fin n → Prop} {selected : InitdState n},
      Selected graph closure state selected →
        call = enqueueAll environment (List.finRange n) selected →
        (call.state.tasks t).handle.isAdaptor =
            (state.tasks t).handle.isAdaptor ∧
          turns t (state.tasks t).handle.isAdaptor call.log ++
            (call.state.tasks t).owed =
          (state.tasks t).handle.owed (call.state.tasks t).shouldWork := by
    rintro closure selected selects rfl
    obtain ⟨adaptor, owed⟩ :=
      @enqueueAll_turned _ environment selected t forks (List.finRange n)
    have kept : ((enqueueAll environment (List.finRange n)
        selected).state.tasks t).shouldWork = (selected.tasks t).shouldWork :=
      Wants.enqueueAll (fun _ => rfl) environment _ t
    rw [← selects.handle, kept]
    exact ⟨adaptor, owed⟩
  cases event with
  | childExited other => contradiction
  | callbackDelivered other => contradiction
  | setEmptyRunLevel =>
      exact selecting (setEmptyRunLevel_selected graph state)
        (Option.some.inj stepped).symm
  | setRunLevel runLevelName =>
      simp only [step, setRunLevel] at stepped
      split at stepped
      · obtain rfl := Option.some.inj stepped
        exact ⟨rfl, rfl⟩
      · obtain ⟨selected, selects, equal⟩ := Option.map_eq_some_iff.mp stepped
        exact selecting (selectRunLevel_selected selects) equal.symm

/-- After a request in a state that was reached without a refused fork, in
whatever order the callbacks come, each task is started or stopped at most once,
as the request asks and only if it is neither there nor on its way; and when
nothing is outstanding any more, this has been done exactly with the tasks that
end elsewhere than they were heading to. -/
theorem request_turns {descriptions : TaskDescriptions n}
    (reached : (initdSystem descriptions ForksSucceed).Reachable state)
    {event : Event n} (request : event.task = none)
    (forks : ForksSucceed environment) {call : Call n}
    (stepped : state.step descriptions.graph environment event = some call)
    {run : List (Event n × Call n)}
    (ran : CallbackRun descriptions.graph call.state run) (t : Fin n) :
    (turns t (state.tasks t).handle.isAdaptor (call.log ++ actions run) = [] ∨
        (state.tasks t).handle.heading ≠ (call.state.tasks t).shouldWork ∧
          turns t (state.tasks t).handle.isAdaptor (call.log ++ actions run) =
            [(call.state.tasks t).shouldWork]) ∧
      (Quiescent (finalState call.state run) →
        (((finalState call.state run).tasks t).handle.isRunning = true ↔
          (call.state.tasks t).shouldWork = true ∧
            Digraph.AcyclicFrom descriptions.graph.dependencies t) ∧
        turns t (state.tasks t).handle.isAdaptor (call.log ++ actions run) =
          (state.tasks t).handle.owed
            ((finalState call.state run).tasks t).handle.isRunning) := by
  obtain ⟨safe, settled⟩ := reachable_settled reached
  obtain ⟨adaptor, requested⟩ := request_turned (t := t) request forks stepped
  obtain ⟨loop, wanted, owed⟩ :=
    ran.turned (t := t) (step_settled safe settled forks stepped)
  have balance : turns t (state.tasks t).handle.isAdaptor
      (call.log ++ actions run) ++ ((finalState call.state run).tasks t).owed =
        (state.tasks t).handle.owed (call.state.tasks t).shouldWork := by
    rw [turns_append, List.append_assoc, ← requested, ← owed, adaptor]
  refine ⟨?_, fun quiescent => ?_⟩
  · unfold AsyncTaskHandle.owed at balance
    split at balance
    · exact .inl (List.append_eq_nil_iff.mp balance).1
    · next different =>
        rcases List.append_eq_singleton_iff.mp balance with
          ⟨none, -⟩ | ⟨once, -⟩
        · exact .inl none
        · exact .inr ⟨different, once⟩
  · have up := loop.running_iff quiescent t
    rw [wanted] at up
    refine ⟨up, ?_⟩
    rw [Task.owed, wanted, AsyncTaskHandle.owed_of_quiet
      (quiescent t).isInTransition] at balance
    split at balance
    · next reached =>
        rw [reached, ← balance, List.append_nil]
    · -- what the request asks for was not done, so that nothing was
      next missed =>
        have different : (state.tasks t).handle.heading ≠
            (call.state.tasks t).shouldWork := by
          intro same
          rw [AsyncTaskHandle.owed, if_pos same] at balance
          exact List.append_ne_nil_of_right_ne_nil _ (List.cons_ne_nil _ _)
            balance
        rw [AsyncTaskHandle.owed, if_neg different] at balance
        have there := (Bool.eq_not_of_ne different).trans
          (Bool.eq_not_of_ne missed).symm
        rw [AsyncTaskHandle.owed, if_pos there]
        exact List.append_cancel_right balance

theorem request_turns_changed :
    turns serviceTask false
        (changing.log ++ actions [(.childExited serviceTask, changed)]) =
      [false] := by
  have forks : ForksSucceed answering := fun _ => rfl
  have ran : CallbackRun serviceOverControl.graph changing.state
      [(.childExited serviceTask, changed)] :=
    .cons forks rfl (Option.some_get _).symm (.nil _)
  have requested : serviceUp.step serviceOverControl.graph answering
    (.setRunLevel (ascii "b")) = some changing := (Option.some_get _).symm
  exact ((request_turns (serviceUp_reachable fun _ => rfl) rfl forks requested
    ran serviceTask).2 (by decide)).2

end InitdState

end Initd
