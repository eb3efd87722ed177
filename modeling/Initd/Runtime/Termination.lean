import Initd.Runtime.Control

namespace Initd

open Library

/-! How long the callbacks go on after a change of the run level. -/

namespace Task

/-- How many callbacks of a task are still to come.  An operation that ends in
the wrong state is followed by one more. -/
def remaining (task : Task) : Nat :=
  match task.handle with
  | .startStop handle =>
      if handle.running ≠ task.shouldWork then 1
      else if handle.isInTransition then 2
      else 0
  | .sync adaptor =>
      (if adaptor.running ≠ task.shouldWork then 1 else 0) +
        if adaptor.fq.efd.counter ≠ 0 then 1 else 0

theorem remaining_startStop_le {task : Task} {handle : AsyncStartStopTask}
    (kind : task.handle = .startStop handle) :
    task.remaining ≤ (if handle.isInTransition then 1 else 0) + 1 := by
  simp only [remaining, kind]
  split_ifs <;> omega

theorem remaining_told_le {task : Task} {answers : Answers} {s : Bool}
    (wanted : task.shouldWork = s)
    (needed : task.handle.isInTransition = true ∨ task.handle.isRunning ≠ s) :
    ({ task with handle := (task.handle.setShouldWork answers s).1 } :
      Task).remaining ≤ task.remaining := by
  cases kind : task.handle with
  | sync adaptor =>
      have different : adaptor.running ≠ s := by
        simpa [kind, AsyncTaskHandle.isInTransition,
          AsyncTaskHandle.isRunning] using needed
      simp only [remaining, kind, AsyncTaskHandle.setShouldWork, wanted,
        SyncTaskAdaptor.setShouldWork_running, ne_eq, not_true_eq_false,
        if_false, if_pos different]
      split_ifs <;> omega
  | startStop handle =>
      have running : (handle.setShouldWork answers.fork s).1.running =
          handle.running := AsyncStartStopTask.setShouldWork_running
      simp only [remaining, kind, AsyncTaskHandle.setShouldWork, wanted, running]
      by_cases different : handle.running ≠ s
      · simp only [if_pos different, Nat.le_refl]
      · have busy : handle.isInTransition = true := by
          refine AsyncTaskHandle.isInTransition.eq_1 handle ▸ ?_
          rw [kind] at needed
          exact needed.resolve_right different
        simp only [if_neg different, if_pos busy]
        split_ifs <;> omega

theorem remaining_finished_lt {task : Task} {answers : Answers} {handle : AsyncTaskHandle}
    {result : ForkResult}
    (finished : AsyncTaskHandle.Finished answers task.handle handle result)
    (told : task.handle.isInTransition = true →
      task.handle.getShouldWork = task.shouldWork) :
    ({ task with handle := handle } : Task).remaining < task.remaining := by
  generalize kind : task.handle = before at finished told
  cases finished with
  | delivery delivered =>
      rename_i adaptor fq
      have pending : adaptor.fq.efd.counter ≠ 0 := by
        intro zero
        simp [Sysapi.FunctionQueue.deliver, zero] at delivered
      have emptied := Sysapi.FunctionQueue.deliver_counter delivered
      simp only [remaining, kind, emptied, ne_eq, not_true_eq_false, if_false,
        if_pos pending]
      omega
  | operation completed =>
      rename_i old after
      have busy := AsyncStartStopTask.operationCompleted_isInTransition completed
      have wanted : old.shouldWork = task.shouldWork := told busy
      have flipped := AsyncStartStopTask.operationCompleted_running completed
      simp only [remaining, kind, busy, if_true, ← wanted, flipped]
      by_cases agree : (!old.running) = old.shouldWork
      · -- the operation ends in the right state, so that nothing follows it
        have idle := AsyncStartStopTask.operationCompleted_idle completed
          agree.symm
        rw [if_neg (not_not.mpr agree), idle, if_neg Bool.false_ne_true]
        split <;> omega
      · have right : old.running = old.shouldWork := by simpa using agree
        simp [right]

end Task

namespace InitdState

variable {n : Nat}

/-- The task whose callback an event runs; a run-level change runs none. -/
def Event.task : Event n → Option (Fin n)
  | .setRunLevel _ | .setEmptyRunLevel => none
  | .childExited t | .callbackDelivered t => some t

/-- A run without a change of the run level, as its events with their calls,
while every fork succeeds. -/
inductive CallbackRun (graph : TaskGraph n) :
    InitdState n → List (Event n × Call n) → Prop
  | nil (state : InitdState n) : CallbackRun graph state []
  | cons {state : InitdState n} {environment : Environment n}
      {event : Event n} {call : Call n} {later : List (Event n × Call n)}
      (forks : ForksSucceed environment) (callback : event.task.isSome = true)
      (stepped : state.step graph environment event = some call)
      (run : CallbackRun graph call.state later) :
      CallbackRun graph state ((event, call) :: later)

def exits (t : Fin n) (run : List (Event n × Call n)) : Nat :=
  run.countP fun entry => entry.1 = .childExited t

/-- The states that a run goes through, those inside its steps included. -/
def recorded (run : List (Event n × Call n)) : List (InitdState n) :=
  run.flatMap fun entry => entry.2.states

section Remaining

variable {graph : TaskGraph n} {environment : Environment n}
  {state : InitdState n}

theorem enqueueThis_remaining (t other : Fin n) :
    ((enqueueThis environment t state).state.tasks other).remaining ≤
      (state.tasks other).remaining := by
  by_cases same : other = t
  · subst other
    rcases enqueueThis_cases with ⟨may, equal⟩ | ⟨may, equal⟩ |
      ⟨-, -, equal⟩ <;> rw [equal]
    · obtain ⟨down, wanted, -⟩ := Task.mayStart_iff.mp may
      rw [setShouldWork_state, modify_self]
      refine Task.remaining_told_le wanted ?_
      simpa [Task.affectDependants, or_comm, imp_iff_not_or] using down
    · obtain ⟨up, unwanted, -⟩ := Task.mayStop_iff.mp may
      rw [setShouldWork_state, modify_self]
      refine Task.remaining_told_le unwanted ?_
      simpa [Task.affectDependencies, or_comm] using up
    · exact Nat.le_refl _
  · rw [enqueueThis_of_ne same]

theorem enqueueAll_remaining (tts : List (Fin n)) (other : Fin n) :
    ((enqueueAll environment tts state).state.tasks other).remaining ≤
      (state.tasks other).remaining :=
  Outcome.forEach_invariant
    (fun after : InitdState n =>
      (after.tasks other).remaining ≤ (state.tasks other).remaining)
    (fun t _ _ few => (enqueueThis_remaining t other).trans few) (Nat.le_refl _)

theorem stateChanged_remaining (t other : Fin n) :
    ((stateChanged graph environment t state).state.tasks other).remaining ≤
      (state.tasks other).remaining := by
  have synced : ((sync graph t state).tasks other).remaining =
      (state.tasks other).remaining := by
    simp only [Task.remaining, sync_handle, sync_shouldWork]
  simp only [stateChanged]
  split <;> exact (enqueueAll_remaining _ other).trans_eq synced

/-- A callback uses up one callback of its own task, and adds none. -/
theorem IsCallback.remaining {t : Fin n} {call : Call n}
    (callback : IsCallback graph environment t state call)
    (settled : Settled graph [] state) :
    (call.state.tasks t).remaining < (state.tasks t).remaining ∧
      ∀ other, (call.state.tasks other).remaining ≤
        (state.tasks other).remaining := by
  obtain ⟨handle, result, finished, rfl⟩ := callback
  have told : (state.tasks t).handle.isInTransition = true →
      (state.tasks t).handle.getShouldWork = (state.tasks t).shouldWork :=
    fun busy => (settled.told t busy).resolve_right fun pending =>
      List.not_mem_nil pending.1
  have used := Task.remaining_finished_lt finished told
  have after : ∀ other, (((afterFork t (state.modify t fun task =>
        { task with handle := handle }) result).bind
          (stateChanged graph environment t)).state.tasks other).remaining ≤
      ((state.modify t fun task =>
        { task with handle := handle }).tasks other).remaining := by
    intro other
    refine Outcome.bind_invariant (fun after : InitdState n =>
      (after.tasks other).remaining ≤ ((state.modify t fun task =>
        { task with handle := handle }).tasks other).remaining) ?_ ?_
    · rw [afterFork_state]
    · exact fun middle few => (stateChanged_remaining t other).trans few
  refine ⟨(after t).trans_lt ?_, fun other => (after other).trans ?_⟩
  · rwa [modify_self]
  · by_cases same : other = t
    · subst other
      rw [modify_self]
      exact used.le
    · rw [modify_of_ne _ same]

theorem isCallback_of_task {event : Event n} {t : Fin n} {call : Call n}
    (callback : event.task = some t)
    (stepped : state.step graph environment event = some call) :
    IsCallback graph environment t state call := by
  cases event with
  | setRunLevel _ => contradiction
  | setEmptyRunLevel => contradiction
  | childExited other =>
      cases callback
      exact childExited_isCallback stepped
  | callbackDelivered other =>
      cases callback
      exact callbackDelivered_isCallback stepped

theorem CallbackRun.exits_le {run : List (Event n × Call n)}
    (ran : CallbackRun graph state run) (loop : SettledLoop graph [] state)
    (t : Fin n) : exits t run ≤ (state.tasks t).remaining := by
  induction ran with
  | nil state => exact Nat.zero_le _
  | cons forks callback stepped _ induction =>
      obtain ⟨other, task⟩ := Option.isSome_iff_exists.mp callback
      have used := (isCallback_of_task task stepped).remaining loop.2
      have later := induction (step_settled loop.1 loop.2 forks stepped)
      rw [exits, List.countP_cons, ← exits]
      split
      · next exited =>
          obtain rfl := of_decide_eq_true exited
          cases task
          exact (Nat.add_le_add_right later 1).trans used.1
      · exact later.trans (used.2 t)

theorem CallbackRun.length_le {run : List (Event n × Call n)}
    (ran : CallbackRun graph state run) (loop : SettledLoop graph [] state) :
    run.length ≤ ∑ t, (state.tasks t).remaining := by
  induction ran with
  | nil state => exact Nat.zero_le _
  | cons forks callback stepped _ induction =>
      obtain ⟨other, task⟩ := Option.isSome_iff_exists.mp callback
      have used := (isCallback_of_task task stepped).remaining loop.2
      have later := induction (step_settled loop.1 loop.2 forks stepped)
      have fewer := Finset.sum_lt_sum (fun t _ => used.2 t)
        ⟨other, Finset.mem_univ other, used.1⟩
      exact Nat.lt_of_le_of_lt later fewer

end Remaining

/-! The flag of a `sync_task_adaptor`. -/

/-- How a task with such an adaptor may change: its flag only ever becomes
what the task should do. -/
structure Approaches (t : Fin n) (before after : InitdState n) : Prop where
  wanted : (after.tasks t).shouldWork = (before.tasks t).shouldWork
  sync : ∀ adaptor, (before.tasks t).handle = .sync adaptor →
    ∃ adaptor, (after.tasks t).handle = .sync adaptor
  running : ∀ adaptor, (before.tasks t).handle = .sync adaptor →
    (after.tasks t).handle.isRunning = (before.tasks t).handle.isRunning ∨
      (after.tasks t).handle.isRunning = (before.tasks t).shouldWork

section Approaching

variable {graph : TaskGraph n} {environment : Environment n}
  {state : InitdState n} {t : Fin n}

theorem Approaches.of_tasks {before after : InitdState n}
    (handle : (after.tasks t).handle = (before.tasks t).handle)
    (wanted : (after.tasks t).shouldWork = (before.tasks t).shouldWork) :
    Approaches t before after where
  wanted := wanted
  sync adaptor kind := ⟨adaptor, handle.trans kind⟩
  running _ _ := .inl (by rw [handle])

theorem Approaches.refl (state : InitdState n) : Approaches t state state :=
  .of_tasks rfl rfl

theorem Approaches.trans (first second third : InitdState n)
    (left : Approaches t first second) (right : Approaches t second third) :
    Approaches t first third where
  wanted := right.wanted.trans left.wanted
  sync adaptor kind := by
    obtain ⟨_, middle⟩ := left.sync adaptor kind
    exact right.sync _ middle
  running adaptor kind := by
    obtain ⟨_, middle⟩ := left.sync adaptor kind
    rcases right.running _ middle with same | reached
    · rw [same]
      exact left.running adaptor kind
    · exact .inr (reached.trans left.wanted)

theorem setShouldWork_approaches {other : Fin n} {s : Bool}
    (wanted : (state.tasks other).shouldWork = s) :
    (state.setShouldWork environment other s).Moves (Approaches t) state := by
  refine Outcome.moves_of_one ?_ (.refl _) fun entry member =>
    (setShouldWork_log member).1
  rw [setShouldWork_state]
  by_cases same : t = other
  · subst other
    refine ⟨by rw [modify_self], fun adaptor kind => ?_, fun adaptor kind => ?_⟩
    · refine ⟨adaptor.setShouldWork (environment t) s, ?_⟩
      rw [modify_self, kind]
      rfl
    · right
      rw [modify_self, kind, wanted]
      exact SyncTaskAdaptor.setShouldWork_running
  · exact .of_tasks (by rw [modify_of_ne _ same]) (by rw [modify_of_ne _ same])

theorem enqueueThis_approaches (other : Fin n) :
    (enqueueThis environment other state).Moves (Approaches t) state := by
  rcases enqueueThis_cases with ⟨may, equal⟩ | ⟨may, equal⟩ | ⟨-, -, equal⟩ <;>
    rw [equal]
  · exact setShouldWork_approaches (Task.mayStart_iff.mp may).2.1
  · exact setShouldWork_approaches (Task.mayStop_iff.mp may).2.1
  · exact Outcome.moves_done (.refl state)

theorem stateChanged_approaches (other : Fin n) :
    (stateChanged graph environment other state).Moves (Approaches t) state := by
  have synced : Approaches t state (sync graph other state) :=
    .of_tasks (sync_handle graph other t state)
      (sync_shouldWork graph other t state)
  have looped : ∀ tts, (enqueueAll environment tts
      (sync graph other state)).Moves (Approaches t) state := by
    intro tts
    have moves : (enqueueAll environment tts (sync graph other state)).Moves
        (Approaches t) (sync graph other state) :=
      Outcome.forEach_moves Approaches.refl Approaches.trans
        (fun other _ => enqueueThis_approaches other) tts _
    exact moves.from_earlier Approaches.trans synced
  simp only [stateChanged]
  split <;> exact looped _

theorem IsCallback.approaches {other : Fin n} {call : Call n}
    (callback : IsCallback graph environment other state call) :
    call.Moves (Approaches t) state := by
  obtain ⟨handle, result, finished, rfl⟩ := callback
  have moved : Approaches t state
      (state.modify other fun task => { task with handle := handle }) := by
    by_cases same : t = other
    · subst other
      refine ⟨by rw [modify_self], fun adaptor kind => ?_,
        fun adaptor kind => ?_⟩
      · rw [kind] at finished
        cases finished
        exact ⟨_, by rw [modify_self]⟩
      · rw [kind] at finished
        cases finished
        exact .inl (by rw [modify_self, kind]; rfl)
    · exact .of_tasks (by rw [modify_of_ne _ same])
        (by rw [modify_of_ne _ same])
  have forked : (afterFork other (state.modify other fun task =>
      { task with handle := handle }) result).Moves (Approaches t) state := by
    refine Outcome.moves_of_one ?_ (.refl _) fun entry member => ?_
    · rwa [afterFork_state]
    · rw [afterFork_state]
      cases result with
      | notCalled => simp [afterFork] at member
      | threw => simp [afterFork] at member
      | launched operation command => rw [List.mem_singleton.mp member]
  exact forked.bind Approaches.trans (stateChanged_approaches other)

theorem CallbackRun.approaches {run : List (Event n × Call n)}
    (ran : CallbackRun graph state run) :
    (state :: recorded run).Pairwise (Approaches t) := by
  induction ran with
  | nil state => exact List.pairwise_singleton _ _
  | cons forks callback stepped _ induction =>
      obtain ⟨other, task⟩ := Option.isSome_iff_exists.mp callback
      exact (isCallback_of_task task stepped).approaches.join Approaches.trans
        induction

/-- The flag of a `sync_task_adaptor` changes at most once in a run. -/
theorem CallbackRun.changes_le_one {run : List (Event n × Call n)}
    (ran : CallbackRun graph state run) {adaptor : SyncTaskAdaptor}
    (kind : (state.tasks t).handle = .sync adaptor) :
    Outcome.changes (fun state : InitdState n =>
      (state.tasks t).handle.isRunning) state (recorded run) ≤ 1 := by
  have moves := ran.approaches (t := t)
  have kinds : ∀ after ∈ state :: recorded run,
      (after.tasks t).shouldWork = (state.tasks t).shouldWork ∧
        ∃ adaptor, (after.tasks t).handle = .sync adaptor := by
    intro after member
    rcases List.mem_cons.mp member with rfl | member
    · exact ⟨rfl, adaptor, kind⟩
    · have approached := List.rel_of_pairwise_cons moves member
      exact ⟨approached.wanted, approached.sync adaptor kind⟩
  have once : (state :: recorded run).Pairwise fun before after =>
      (after.tasks t).handle.isRunning = (before.tasks t).handle.isRunning ∨
        (after.tasks t).handle.isRunning = (state.tasks t).shouldWork := by
    refine moves.imp_of_mem fun {before after} early _ approached => ?_
    obtain ⟨wanted, _, kind⟩ := kinds before early
    exact wanted ▸ approached.running _ kind
  refine (Outcome.changes_le_one once).trans ?_
  split <;> omega

end Approaching

/-- After a run-level change the callbacks come to an end, whatever the graph:
a child process of a task exits at most once more than it has one outstanding,
and the flag of a `sync_task_adaptor` changes at most once. -/
theorem no_livelock {descriptions : TaskDescriptions n} {state : InitdState n}
    (reached : (initdSystem descriptions ForksSucceed).Reachable state) :
    (∀ run, CallbackRun descriptions.graph state run →
        (∀ t handle, (state.tasks t).handle = .startStop handle →
          exits t run ≤ (if handle.isInTransition then 1 else 0) + 1) ∧
        ∀ t adaptor, (state.tasks t).handle = .sync adaptor →
          Outcome.changes (fun state : InitdState n =>
            (state.tasks t).handle.isRunning) state (recorded run) ≤ 1) ∧
      ∃ bound, ∀ run, CallbackRun descriptions.graph state run →
        run.length ≤ bound := by
  have loop := reachable_settled reached
  refine ⟨fun run ran => ⟨fun t handle kind => ?_, fun t adaptor kind => ?_⟩,
    ∑ t, (state.tasks t).remaining, fun run ran => ran.length_le loop⟩
  · exact (ran.exits_le loop t).trans (Task.remaining_startStop_le kind)
  · exact ran.changes_le_one kind

theorem no_livelock_serviceStarting :
    ∃ bound, ∀ run, CallbackRun serviceOverControl.graph serviceStarting run →
      run.length ≤ bound :=
  (no_livelock (serviceStarting_reachable fun _ => rfl)).2

end InitdState

end Initd
