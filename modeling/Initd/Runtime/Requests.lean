import Initd.Runtime.Liveness
import Initd.Runtime.Shutdown

namespace Initd

open Library

/-! Requests for a run level that does not exist. -/

namespace Context

open InitdState

variable {n : Nat}

def Event.request : Event n → Option ControlMessage
  | .called message | .messageReceived _ _ message => some message
  | _ => none

/-- The event asks for a run level that is not configured. -/
def Event.Rejected (graph : TaskGraph n) (event : Event n) : Prop :=
  ∃ runlevelName, event.request = some (.setRunlevel runlevelName) ∧
    graph.runLevels.lookup runlevelName = none

/-- What the init process should be heading for after an event: what the last
request asked for that was not rejected. -/
def Event.heading (graph : TaskGraph n) (event : Event n)
    (before : Target) : Target :=
  match event.request with
  | some .reboot => .reboot
  | some .powerOff => .powerOff
  | some (.setRunlevel runlevelName) =>
      if graph.runLevels.lookup runlevelName = none then before else .running
  | none => before

/-- The runs in which a request is rejected only while no shutdown is in
progress, next to the heading that the requests amount to. -/
def requestSystem (descriptions : TaskDescriptions n)
    (allowed : Environment n → Prop) : StepSystem (Context n × Target) where
  init start := (contextSystem descriptions allowed).init start.1 ∧
    start.2 = .running
  step before after := ∃ environment event call,
    allowed environment ∧
      (event.Rejected descriptions.graph → before.1.target = .running) ∧
      before.1.step descriptions.graph environment event = some call ∧
      after = (call.state, event.heading descriptions.graph before.2)

section Steps

variable {graph : TaskGraph n} {environment : Environment n} {ctx : Context n}

theorem dispatch_target {message : ControlMessage} {call : ContextCall n}
    (dispatched : ctx.dispatch graph environment message = some call) :
    call.state.target = match message with
      | .reboot => .reboot
      | .powerOff => .powerOff
      | .setRunlevel _ => .running := by
  cases message with
  | reboot =>
      cases Option.some.inj dispatched
      rfl
  | powerOff =>
      cases Option.some.inj dispatched
      rfl
  | setRunlevel runlevelName =>
      obtain ⟨inner, -, rfl⟩ := Option.map_eq_some_iff.mp dispatched
      rfl

/-- Without a rejected request in a shutdown, `target` is the heading. -/
theorem heading_of_dispatch {event : Event n} {message : ControlMessage}
    {call : ContextCall n} (asks : event.request = some message)
    (accepts : event.Rejected graph → ctx.target = .running)
    (dispatched : ctx.dispatch graph environment message = some call) :
    call.state.target = event.heading graph ctx.target := by
  rw [dispatch_target dispatched, Event.heading, asks]
  cases message with
  | reboot => rfl
  | powerOff => rfl
  | setRunlevel runlevelName =>
      by_cases unknown : graph.runLevels.lookup runlevelName = none
      · simp [unknown, accepts ⟨runlevelName, asks, unknown⟩]
      · simp [unknown]

theorem heading_of_step {event : Event n} {call : ContextCall n}
    (accepts : event.Rejected graph → ctx.target = .running)
    (stepped : ctx.step graph environment event = some call) :
    call.state.target = event.heading graph ctx.target := by
  cases event with
  | called message => exact heading_of_dispatch rfl accepts stepped
  | childExited t =>
      obtain ⟨inner, -, rfl⟩ := Option.map_eq_some_iff.mp stepped
      rfl
  | callbackDelivered t =>
      obtain ⟨inner, -, rfl⟩ := Option.map_eq_some_iff.mp stepped
      rfl
  | accepted t =>
      cases Option.some.inj stepped
      rfl
  | disconnected t id =>
      cases Option.some.inj stepped
      rfl
  | messageReceived t id message =>
      simp only [Context.step, messageReceived] at stepped
      split at stepped
      · obtain ⟨inner, dispatched, rfl⟩ := Option.map_eq_some_iff.mp stepped
        have asks : (Event.messageReceived t id message).request =
          some message := rfl
        have heads := heading_of_dispatch asks accepts dispatched
        split <;> exact heads
      · contradiction

/-! The steps while every fork succeeds. -/

theorem modifyControl_settled (loop : SettledLoop graph [] ctx.state)
    (t : Fin n) (change : ControlTaskHandle → ControlTaskHandle) :
    SettledLoop graph [] (ctx.modifyControl t change).state := by
  refine ⟨loop.1.replaceSame AsyncTaskHandle.mapControl_isRunning
    AsyncTaskHandle.mapControl_isInTransition, ?_⟩
  exact loop.2.replaceSame AsyncTaskHandle.mapControl_isRunning
    AsyncTaskHandle.mapControl_isInTransition
    AsyncTaskHandle.mapControl_getShouldWork
    AsyncTaskHandle.mapControl_quiet.mp
    (AsyncTaskHandle.mapControl_consistent.mpr (loop.2.consistent t))

theorem dispatch_settled (loop : SettledLoop graph [] ctx.state)
    (forks : ForksSucceed environment) {message : ControlMessage}
    {call : ContextCall n}
    (dispatched : ctx.dispatch graph environment message = some call) :
    SettledLoop graph [] call.state.state := by
  have emptied : ctx.state.step graph environment .setEmptyRunLevel =
    some (ctx.state.setEmptyRunLevel graph environment) := rfl
  cases message with
  | reboot =>
      cases Option.some.inj dispatched
      exact InitdState.step_settled loop.1 loop.2 forks emptied
  | powerOff =>
      cases Option.some.inj dispatched
      exact InitdState.step_settled loop.1 loop.2 forks emptied
  | setRunlevel runlevelName =>
      obtain ⟨inner, changed, rfl⟩ := Option.map_eq_some_iff.mp dispatched
      have stepped : ctx.state.step graph environment
        (.setRunLevel runlevelName) = some inner := changed
      exact InitdState.step_settled loop.1 loop.2 forks stepped

theorem step_settled (loop : SettledLoop graph [] ctx.state)
    (forks : ForksSucceed environment) {event : Event n} {call : ContextCall n}
    (stepped : ctx.step graph environment event = some call) :
    SettledLoop graph [] call.state.state := by
  cases event with
  | called message => exact dispatch_settled loop forks stepped
  | childExited t =>
      obtain ⟨inner, exited, rfl⟩ := Option.map_eq_some_iff.mp stepped
      exact (childExited_isCallback exited).settled forks loop
  | callbackDelivered t =>
      obtain ⟨inner, taken, rfl⟩ := Option.map_eq_some_iff.mp stepped
      exact (callbackDelivered_isCallback taken).settled forks loop
  | accepted t =>
      cases Option.some.inj stepped
      exact modifyControl_settled loop t _
  | disconnected t id =>
      cases Option.some.inj stepped
      exact modifyControl_settled loop t _
  | messageReceived t id message =>
      simp only [Context.step, messageReceived] at stepped
      split at stepped
      · obtain ⟨inner, dispatched, rfl⟩ := Option.map_eq_some_iff.mp stepped
        have after := dispatch_settled loop forks dispatched
        split
        · exact modifyControl_settled after t _
        · exact after
      · contradiction

end Steps

section Runs

variable {descriptions : TaskDescriptions n} {allowed : Environment n → Prop}

theorem reachable_settled {ctx : Context n}
    (reached : (contextSystem descriptions ForksSucceed).Reachable ctx) :
    SettledLoop descriptions.graph [] ctx.state := by
  refine reached.invariant
    (fun ctx => SettledLoop descriptions.graph [] ctx.state) ?_ ?_
  · rintro _ ⟨environment, call, forks, changed, -, rfl⟩
    have stepped : descriptions.initdState.step descriptions.graph environment
      (.setRunLevel defaultRunLevel) = some call := changed
    exact InitdState.step_settled (initdState_safe descriptions)
      (initdState_settled descriptions) forks stepped
  · rintro before _ _ loop ⟨environment, event, call, forks, stepped, rfl⟩
    exact step_settled loop forks stepped

theorem requests_project {ctx : Context n} {target : Target}
    (reached : (requestSystem descriptions allowed).Reachable (ctx, target)) :
    (contextSystem descriptions allowed).Reachable ctx := by
  refine reached.map Prod.fst ?_ ?_
  · rintro _ ⟨start, -⟩
    exact .init start
  · rintro before _ _ ⟨environment, event, call, permitted, -, stepped, rfl⟩
    exact .inr ⟨environment, event, call, permitted, stepped, rfl⟩

theorem requests_heading {ctx : Context n} {target : Target}
    (reached : (requestSystem descriptions allowed).Reachable (ctx, target)) :
    ctx.target = target := by
  refine reached.invariant (fun run => run.1.target = run.2) ?_ ?_
  · rintro ⟨ctx, target⟩ ⟨⟨_, _, _, _, _, rfl⟩, running⟩
    exact running.symm
  · rintro ⟨before, heading⟩ _ _ same
      ⟨environment, event, call, -, accepts, stepped, rfl⟩
    have after := heading_of_step accepts stepped
    rwa [show before.target = heading from same] at after

end Runs

theorem inactive {ctx : Context n} (shutdown : ctx.target ≠ .running)
    (none : ctx.state.pendingTasks = 0) : ctx.isActive = false := by
  simp [isActive, hasPendingOperations, shutdown, none]

section Rejected

variable {graph : TaskGraph n} {runlevelName : Bytes} {ctx : Context n}

theorem setRunlevel_of_unknown
    (unknown : graph.runLevels.lookup runlevelName = none)
    (environment : Environment n) :
    ctx.setRunlevel graph environment runlevelName =
      some ⟨{ ctx with target := .running }, [], true⟩ := by
  simp [setRunlevel, InitdState.setRunLevel, unknown, Outcome.map]

/-- The call always throws, but `context` has by then left any shutdown that
was in progress, so its state is as before only where none was. -/
theorem setRunlevel_atomic_iff
    (unknown : graph.runLevels.lookup runlevelName = none) :
    (∀ environment, ∃ call,
      ctx.setRunlevel graph environment runlevelName = some call ∧
        call.threw = true ∧ call.state = ctx) ↔
      ctx.target = .running := by
  simp only [setRunlevel_of_unknown unknown, Option.some.injEq, exists_eq_left',
    true_and]
  constructor
  · intro unchanged
    have same := unchanged fun _ => ⟨true, true⟩
    exact (congrArg Context.target same).symm
  · rintro running _
    obtain ⟨target, state⟩ := ctx
    obtain rfl : target = .running := running
    rfl

end Rejected

/-- A rejected request is atomic exactly outside a shutdown.  In a run without
one inside a shutdown, `context` heads for what was asked for last, and while
every fork succeeds a shutdown stops all tasks and the main loop. -/
theorem setRunlevel_rejected (descriptions : TaskDescriptions n) :
    (∀ ctx, (contextSystem descriptions fun _ => True).Reachable ctx →
      ∀ runlevelName, descriptions.graph.runLevels.lookup runlevelName = none →
        ((∀ environment, ∃ call,
          ctx.setRunlevel descriptions.graph environment runlevelName =
              some call ∧
            call.threw = true ∧ call.state = ctx) ↔
          ctx.target = .running)) ∧
      (∀ ctx target,
        (requestSystem descriptions fun _ => True).Reachable (ctx, target) →
          ctx.target = target ∧
            (target ≠ .running → ctx.state.pendingTasks = 0 →
              ctx.isActive = false)) ∧
      (∀ ctx target,
        (requestSystem descriptions ForksSucceed).Reachable (ctx, target) →
          target ≠ .running → ctx.state.Quiescent →
            (∀ t, (ctx.state.tasks t).affectDependencies = false) ∧
              ctx.isActive = false) := by
  refine ⟨fun ctx _ runlevelName unknown => setRunlevel_atomic_iff unknown,
    fun ctx target reached => ?_, fun ctx target reached shutdown quiescent => ?_⟩
  · have heads := requests_heading reached
    exact ⟨heads, fun shutdown none => inactive (heads ▸ shutdown) none⟩
  · have inContext := requests_project reached
    obtain ⟨safe, settled⟩ := reachable_settled inContext
    rw [← requests_heading reached] at shutdown
    have unwanted := (reachable_sound inContext).unwanted shutdown
    have down : ∀ t, (ctx.state.tasks t).affectDependencies = false := by
      intro t
      by_contra up
      have wanted := settled.shouldWork_of_up safe quiescent t (by simpa using up)
      rw [unwanted t] at wanted
      contradiction
    refine ⟨down, inactive shutdown ?_⟩
    refine settled.pendingTasks_eq_zero safe quiescent fun t => ?_
    rw [unwanted t]
    exact (Bool.or_eq_false_iff.mp (down t)).1

theorem requests_of_run {descriptions : TaskDescriptions n}
    {allowed : Environment n → Prop} {environment : Environment n}
    {schedule : List (Event n)} {before after : Context n} {target : Target}
    (permitted : allowed environment)
    (accepts : ∀ event ∈ schedule, ¬ event.Rejected descriptions.graph)
    (reached : (requestSystem descriptions allowed).Reachable (before, target))
    (ran : before.run descriptions.graph environment schedule = some after) :
    ∃ target,
      (requestSystem descriptions allowed).Reachable (after, target) := by
  induction schedule generalizing before target with
  | nil => exact ⟨target, Option.some.inj ran ▸ reached⟩
  | cons event rest induction =>
      rw [run, StepSystem.run, List.foldlM_cons] at ran
      obtain ⟨middle, moved, ran⟩ := Option.bind_eq_some_iff.mp ran
      obtain ⟨call, stepped, rfl⟩ := Option.map_eq_some_iff.mp moved
      exact induction
        (fun later member => accepts later (List.mem_cons_of_mem _ member))
        (reached.step ⟨environment, event, call, permitted,
          fun rejected => absurd rejected (accepts event List.mem_cons_self),
          stepped, rfl⟩) ran

theorem setRunlevel_rejected_shutDown :
    (∀ environment, ∃ call,
      startContext.setRunlevel serviceOverControl.graph environment
          (ascii "x") = some call ∧
        call.threw = true ∧ call.state = startContext) ∧
      shutDown.isActive = false := by
  obtain ⟨atomic, -, settles⟩ := setRunlevel_rejected serviceOverControl
  refine ⟨(atomic startContext (.init (startContext_init trivial)) _
    (by decide)).mpr rfl, ?_⟩
  have started : (requestSystem serviceOverControl ForksSucceed).Reachable
      (startContext, .running) := .init ⟨startContext_init fun _ => rfl, rfl⟩
  have ran : startContext.run serviceOverControl.graph answering
    shutDownSchedule = some shutDown := (Option.some_get _).symm
  obtain ⟨target, reached⟩ := requests_of_run (fun _ => rfl)
    (by simp [shutDownSchedule, Event.Rejected, Event.request]) started ran
  have heads := requests_heading reached
  exact (settles shutDown target reached (heads ▸ by decide) (by decide)).2

/-- Its service is stopping after a reboot was asked for. -/
def rebooting : Context 2 :=
  (startContext.run serviceOverControl.graph answering
    [.callbackDelivered controlTask, .childExited serviceTask,
      .called .reboot]).get (by decide)

/-- The tasks of `rebooting` have stopped, but with a request in between for a
run level that does not exist. -/
def rebootForgotten : Context 2 :=
  (rebooting.run serviceOverControl.graph answering
    [.called (.setRunlevel (ascii "x")), .childExited serviceTask,
      .callbackDelivered controlTask]).get (by decide)

theorem setRunlevel_rejected_forgets_reboot :
    (contextSystem serviceOverControl fun _ => True).Reachable rebooting ∧
      rebooting.target = .reboot ∧
      serviceOverControl.graph.runLevels.lookup (ascii "x") = none ∧
      (¬ ∃ call,
        rebooting.setRunlevel serviceOverControl.graph answering
            (ascii "x") = some call ∧
          call.threw = true ∧ call.state = rebooting) ∧
      (contextSystem serviceOverControl fun _ => True).Reachable rebootForgotten ∧
      (∀ t, (rebootForgotten.state.tasks t).affectDependencies = false) ∧
      rebootForgotten.isActive = true := by
  have reached :
      (contextSystem serviceOverControl fun _ => True).Reachable rebooting :=
    reachable_of_run trivial (.init (startContext_init trivial))
      (Option.some_get _).symm
  refine ⟨reached, by decide, by decide, ?_,
    reachable_of_run trivial reached (Option.some_get _).symm, by decide,
    by decide⟩
  rintro ⟨call, rejected, -, unchanged⟩
  rw [setRunlevel_of_unknown (by decide)] at rejected
  rw [← Option.some.inj rejected] at unchanged
  have target : Target.running = rebooting.target :=
    congrArg Context.target unchanged
  revert target
  decide

end Context

end Initd
