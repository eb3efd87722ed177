import Initd.Library.Settling
import Initd.Runtime.Selection
import Initd.Runtime.Termination

namespace Initd

open Library

/-! What the callbacks after a change of the run level come to, in whatever
order they are called. -/

theorem Task.remaining_le_two (task : Task) : task.remaining ≤ 2 := by
  cases kind : task.handle <;> simp only [remaining, kind] <;> split_ifs <;>
    omega

namespace InitdState

variable {n : Nat}

/-- One callback, while every fork succeeds. -/
def CallbackStep (graph : TaskGraph n) (event : Event n)
    (before after : InitdState n) : Prop :=
  event.task.isSome = true ∧ ∃ environment call, ForksSucceed environment ∧
    before.step graph environment event = some call ∧ call.state = after

def totalRemaining (state : InitdState n) : Nat :=
  ∑ t, (state.tasks t).remaining

/-- What callbacks keep: `flags` are those that the run level has set. -/
structure Converging (graph : TaskGraph n) (flags : Fin n → Bool)
    (state : InitdState n) : Prop where
  loop : SettledLoop graph [] state
  wants : Wants flags state

section Callbacks

variable {graph : TaskGraph n} {flags : Fin n → Bool} {state : InitdState n}

theorem IsCallback.totalRemaining_lt {environment : Environment n} {t : Fin n}
    {call : Call n} (callback : IsCallback graph environment t state call)
    (settled : Settled graph [] state) :
    call.state.totalRemaining < state.totalRemaining := by
  obtain ⟨less, others⟩ := callback.remaining settled
  exact Finset.sum_lt_sum (fun other _ => others other)
    ⟨t, Finset.mem_univ t, less⟩

theorem IsCallback.remaining_lowered {environment : Environment n}
    {caller : Fin n} {call : Call n}
    (callback : IsCallback graph environment caller state call)
    (settled : Settled graph [] state) (t : Fin n) :
    (call.state.tasks t).remaining + (if caller == t then 1 else 0) ≤
      (state.tasks t).remaining := by
  obtain ⟨less, others⟩ := callback.remaining settled
  by_cases same : caller = t
  · subst t
    simpa using Nat.succ_le_of_lt less
  · simpa [same] using others t

theorem callbackStep_measured (graph : TaskGraph n) (flags : Fin n → Bool) :
    Measured (CallbackStep graph) (fun _ => true) (Converging graph flags)
      totalRemaining where
  kept moved converging := by
    obtain ⟨isCallback, environment, call, forks, stepped, rfl⟩ := moved
    obtain ⟨t, task⟩ := Option.isSome_iff_exists.mp isCallback
    have callback := isCallback_of_task task stepped
    exact ⟨callback.settled forks converging.loop,
      converging.wants.callback callback⟩
  lowered moved converging := by
    obtain ⟨isCallback, environment, call, forks, stepped, rfl⟩ := moved
    obtain ⟨t, task⟩ := Option.isSome_iff_exists.mp isCallback
    exact (isCallback_of_task task stepped).totalRemaining_lt converging.loop.2

/-- A callback uses up one of those that are left of its own task. -/
theorem callbackStep_remaining (graph : TaskGraph n) (flags : Fin n → Bool)
    (t : Fin n) :
    Measured (CallbackStep graph) (fun event => event.task == some t)
      (Converging graph flags) fun state => (state.tasks t).remaining where
  kept := (callbackStep_measured graph flags).kept
  lowered moved converging := by
    obtain ⟨isCallback, environment, call, forks, stepped, rfl⟩ := moved
    obtain ⟨caller, task⟩ := Option.isSome_iff_exists.mp isCallback
    rw [task]
    exact (isCallback_of_task task stepped).remaining_lowered
      converging.loop.2 t

/-- A handle that is not quiet has a callback to come. -/
theorem Settled.exists_callbackStep (settled : Settled graph [] state)
    {t : Fin n} (waiting : ¬ (state.tasks t).handle.Quiet) :
    ∃ event after, CallbackStep graph event state after := by
  have answers : ForksSucceed fun _ : Fin n => ⟨true, true⟩ := fun _ => rfl
  have consistent := settled.consistent t
  cases kind : (state.tasks t).handle with
  | startStop task =>
      rw [kind] at waiting consistent
      obtain ⟨operation, outstanding⟩ := Option.ne_none_iff_exists'.mp waiting
      obtain ⟨after, result, completed⟩ :=
        AsyncStartStopTask.Consistent.exists_operationCompleted consistent
          outstanding true
      exact ⟨.childExited t, _, rfl, _, _, answers,
        by simp only [step, childExited, kind, completed]; rfl, rfl⟩
  | sync adaptor =>
      rw [kind] at waiting consistent
      obtain ⟨⟨⟨⟩, fq⟩, delivered⟩ := Option.isSome_iff_exists.mp
        (Sysapi.FunctionQueue.Backed.deliver_isSome consistent waiting)
      exact ⟨.callbackDelivered t, _, rfl, _, _, answers,
        by simp only [step, callbackDelivered, kind, delivered]; rfl, rfl⟩

theorem Settled.quiescent_of_exhausted (settled : Settled graph [] state)
    (exhausted : Exhausted (CallbackStep graph) (fun _ => true) state) :
    Quiescent state := by
  intro t
  by_contra waiting
  obtain ⟨event, after, moved⟩ := settled.exists_callbackStep waiting
  exact exhausted event after rfl moved

theorem IsCallback.not_quiet {environment : Environment n} {t : Fin n}
    {call : Call n} (callback : IsCallback graph environment t state call) :
    ¬ (state.tasks t).handle.Quiet := by
  obtain ⟨handle, result, finished, -⟩ := callback
  intro quiet
  cases kind : (state.tasks t).handle with
  | startStop task =>
      rw [kind] at quiet finished
      cases finished with
      | operation completed =>
          have busy :=
            AsyncStartStopTask.operationCompleted_isInTransition completed
          exact Bool.false_ne_true (quiet.isInTransition.symm.trans busy)
  | sync adaptor =>
      rw [kind] at quiet finished
      cases finished with
      | delivery delivered =>
          exact (Sysapi.FunctionQueue.deliver_eq delivered).1 quiet

theorem exhausted_of_quiescent (quiescent : Quiescent state) :
    Exhausted (CallbackStep graph) (fun _ => true) state := by
  rintro event after - ⟨isCallback, environment, call, -, stepped, -⟩
  obtain ⟨t, task⟩ := Option.isSome_iff_exists.mp isCallback
  exact (isCallback_of_task task stepped).not_quiet (quiescent t)

/-! The state that the callbacks come to. -/

/-- Exactly the wanted tasks without a cycle below them are up. -/
theorem SettledLoop.running_iff (loop : SettledLoop graph [] state)
    (quiescent : Quiescent state) (t : Fin n) :
    (state.tasks t).handle.isRunning = true ↔
      (state.tasks t).shouldWork = true ∧
        Digraph.AcyclicFrom graph.dependencies t := by
  obtain ⟨safe, settled⟩ := loop
  constructor
  · intro running
    have up := Task.affectDependencies_iff.mpr (.inl running)
    exact ⟨settled.shouldWork_of_up safe quiescent t up,
      Digraph.acyclicFrom_iff_acc.mpr (settled.accessible t up)⟩
  · rintro ⟨wanted, acyclic⟩
    have full := settled.up_of_shouldWork safe quiescent acyclic.acc wanted
    simp only [Task.affectDependants, Bool.and_eq_true] at full
    exact full.1

theorem SettledLoop.pendingTasks_eq_zero_iff (loop : SettledLoop graph [] state)
    (quiescent : Quiescent state) :
    state.pendingTasks = 0 ↔ ∀ t, (state.tasks t).shouldWork = true →
      Digraph.AcyclicFrom graph.dependencies t := by
  constructor
  · intro none t wanted
    have agrees := (loop.1.agrees none t).2
    exact ((loop.running_iff quiescent t).mp (agrees.trans wanted)).2
  · intro acyclic
    refine loop.2.pendingTasks_eq_zero loop.1 quiescent fun t => ?_
    rw [Bool.eq_iff_iff, loop.running_iff quiescent t]
    exact and_iff_left_of_imp (acyclic t)

end Callbacks

/-- After a change to a configured run level at most two callbacks of each task
are called, some order of them comes to an end from wherever others got,
and every order ends with exactly those tasks of the dependency closure up that
have no cycle below them. -/
theorem setRunLevel_converges {descriptions : TaskDescriptions n}
    {state : InitdState n}
    (reached : (initdSystem descriptions ForksSucceed).Reachable state)
    {environment : Environment n} (forks : ForksSucceed environment)
    {runLevelName : Bytes} {requisites : List (Fin n)}
    (configured : descriptions.graph.runLevels.lookup runLevelName =
      some requisites) {call : Call n}
    (changed : state.setRunLevel descriptions.graph environment runLevelName =
      some call) {events : List (Event n)} {after : InitdState n}
    (ran : Run (CallbackStep descriptions.graph) call.state events after) :
    (∀ t, events.countP (fun event => event.task == some t) ≤ 2) ∧
      (∃ more final, Run (CallbackStep descriptions.graph) after more final ∧
        Exhausted (CallbackStep descriptions.graph) (fun _ => true) final) ∧
      (Exhausted (CallbackStep descriptions.graph) (fun _ => true) after →
        (∀ t, (after.tasks t).handle.isInTransition = false ∧
          ((after.tasks t).handle.isRunning = true ↔
            (∃ d ∈ requisites,
              Digraph.Reaches descriptions.graph.dependencies d t) ∧
            Digraph.AcyclicFrom descriptions.graph.dependencies t)) ∧
        (after.pendingTasks = 0 ↔ ∀ d ∈ requisites,
          Digraph.AcyclicFrom descriptions.graph.dependencies d)) := by
  have stepped : state.step descriptions.graph environment
    (.setRunLevel runLevelName) = some call := changed
  obtain ⟨safe, settled⟩ := reachable_settled reached
  have start : Converging descriptions.graph
      (fun t => (call.state.tasks t).shouldWork) call.state :=
    ⟨step_settled safe settled forks stepped, fun _ => rfl⟩
  have measured := callbackStep_measured descriptions.graph
    fun t => (call.state.tasks t).shouldWork
  have converging := measured.run_invariant ran start
  refine ⟨fun t => ?_, ?_, fun exhausted => ?_⟩
  · have few := (callbackStep_remaining _ _ t).count_le ran start
    have bound := (call.state.tasks t).remaining_le_two
    omega
  · obtain ⟨more, final, later, -, exhausted⟩ :=
      measured.exists_exhausted converging
    exact ⟨more, final, later, exhausted⟩
  · have quiescent := converging.loop.2.quiescent_of_exhausted exhausted
    have wanted : ∀ t, (after.tasks t).shouldWork = true ↔
        closure descriptions.graph requisites t := fun t => by
      rw [converging.wants t]
      exact setRunLevel_wants configured changed t
    refine ⟨fun t => ⟨(quiescent t).isInTransition, ?_⟩, ?_⟩
    · rw [converging.loop.running_iff quiescent, wanted]
      rfl
    · rw [converging.loop.pendingTasks_eq_zero_iff quiescent]
      constructor
      · intro acyclic d member
        exact acyclic d ((wanted d).mpr ⟨d, member, .refl⟩)
      · intro acyclic t selected
        obtain ⟨d, member, path⟩ := (wanted t).mp selected
        exact fun node further => acyclic d member node (path.trans further)

/-- The change of `serviceUp` to its other run level, which stops the service. -/
def changing : Call 2 :=
  (serviceUp.setRunLevel serviceOverControl.graph answering (ascii "b")).get
    (by decide)

/-- The exit of the command that stops the service. -/
def changed : Call 2 :=
  (changing.state.step serviceOverControl.graph answering
    (.childExited serviceTask)).get (by decide)

theorem changed_run :
    Run (CallbackStep serviceOverControl.graph) changing.state
      [.childExited serviceTask] changed.state :=
  .single ⟨rfl, answering, changed, fun _ => rfl, (Option.some_get _).symm, rfl⟩

theorem setRunLevel_converges_changed :
    changed.state.pendingTasks = 0 ↔ ∀ d ∈ [controlTask],
      Digraph.AcyclicFrom serviceOverControl.graph.dependencies d := by
  have configured : serviceOverControl.graph.runLevels.lookup (ascii "b") =
    some [controlTask] := by decide
  obtain ⟨-, -, settles⟩ :=
    setRunLevel_converges (serviceUp_reachable fun _ => rfl) (fun _ => rfl)
      configured (Option.some_get _).symm changed_run
  exact (settles (exhausted_of_quiescent (by decide))).2

end InitdState

end Initd
