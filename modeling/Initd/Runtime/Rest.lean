import Initd.Runtime.Machine

namespace Initd

open Library Sysapi

/-! What a request comes to, once everything it sets off has happened. -/

namespace ControlMessage

variable {n : Nat}

/-- The tasks that a message asks for. -/
def Selects (graph : TaskGraph n) (message : ControlMessage) (t : Fin n) :
    Prop :=
  match message with
  | .setRunlevel runlevelName => ∃ requisites,
      graph.runLevels.lookup runlevelName = some requisites ∧
        InitdState.closure graph requisites t
  | .reboot | .powerOff => False

def Configured (graph : TaskGraph n) (message : ControlMessage) : Prop :=
  ∀ runlevelName, message = .setRunlevel runlevelName →
    graph.runLevels.lookup runlevelName ≠ none

def target : ControlMessage → Target
  | .reboot => .reboot
  | .powerOff => .powerOff
  | .setRunlevel _ => .running

end ControlMessage

theorem InitdState.IsCallback.returned {n : Nat}
    {graph : TaskGraph n} {environment : Environment n} {t : Fin n}
    {state : InitdState n} {call : Call n}
    (callback : InitdState.IsCallback graph environment t state call)
    (forks : ForksSucceed environment) : call.threw = false := by
  obtain ⟨handle, result, finished, rfl⟩ := callback
  refine Outcome.bind_returned.mpr ⟨?_, ?_⟩
  · rw [← Bool.not_eq_true, InitdState.afterFork_threw]
    exact finished.returns (forks t)
  · simp only [InitdState.stateChanged]
    split <;> exact InitdState.enqueueAll_returns forks _

namespace Context

open InitdState

variable {n : Nat} {graph : TaskGraph n} {environment : Environment n}
  {ctx : Context n}

/-- What a message asks for is what the tasks are told and where the process
heads for. -/
theorem dispatch_wants {message : ControlMessage}
    (configured : message.Configured graph) {call : ContextCall n}
    (dispatched : ctx.dispatch graph environment message = some call) :
    call.state.target = message.target ∧
      ∀ t, (call.state.state.tasks t).shouldWork = true ↔
        message.Selects graph t := by
  refine ⟨?_, fun t => ?_⟩
  · rw [dispatch_target dispatched]
    cases message <;> rfl
  · cases message with
    | reboot =>
        obtain rfl := Option.some.inj dispatched
        have none := setEmptyRunLevel_wants graph environment ctx.state t
        exact iff_of_false (Bool.not_eq_true _ ▸ none) id
    | powerOff =>
        obtain rfl := Option.some.inj dispatched
        have none := setEmptyRunLevel_wants graph environment ctx.state t
        exact iff_of_false (Bool.not_eq_true _ ▸ none) id
    | setRunlevel runlevelName =>
        obtain ⟨inner, changed, rfl⟩ := Option.map_eq_some_iff.mp dispatched
        obtain ⟨requisites, found⟩ :=
          Option.ne_none_iff_exists'.mp (configured runlevelName rfl)
        refine (setRunLevel_wants found changed t).trans ⟨fun selected =>
          ⟨requisites, found, selected⟩, ?_⟩
        rintro ⟨others, found', selected⟩
        rw [found] at found'
        exact Option.some.inj found' ▸ selected

theorem modifyControl_shouldWork (t other : Fin n)
    (change : ControlTaskHandle → ControlTaskHandle) :
    ((ctx.modifyControl t change).state.tasks other).shouldWork =
      (ctx.state.tasks other).shouldWork := by
  unfold modifyControl
  rw [modify_tasks]
  split <;> rfl

theorem modifyControl_remaining (t other : Fin n)
    (change : ControlTaskHandle → ControlTaskHandle) :
    ((ctx.modifyControl t change).state.tasks other).remaining =
      (ctx.state.tasks other).remaining := by
  unfold modifyControl
  rw [modify_tasks]
  split
  · cases kind : (ctx.state.tasks other).handle <;>
      simp only [Task.remaining, kind, AsyncTaskHandle.mapControl]
  · rfl

theorem request_wants {event : Event n} {message : ControlMessage}
    (asks : event.request = some message)
    (configured : message.Configured graph) {call : ContextCall n}
    (stepped : ctx.step graph environment event = some call) :
    call.state.target = message.target ∧
      ∀ t, (call.state.state.tasks t).shouldWork = true ↔
        message.Selects graph t := by
  cases event with
  | called other =>
      obtain rfl := Option.some.inj asks
      exact dispatch_wants configured stepped
  | messageReceived t id other =>
      obtain rfl := Option.some.inj asks
      simp only [Context.step, messageReceived] at stepped
      split at stepped
      · obtain ⟨inner, dispatched, rfl⟩ := Option.map_eq_some_iff.mp stepped
        obtain ⟨target, wants⟩ := dispatch_wants configured dispatched
        split
        · refine ⟨target, fun other => ?_⟩
          rw [modifyControl_shouldWork]
          exact wants other
        · exact ⟨target, wants⟩
      · contradiction
  | childExited t => contradiction
  | callbackDelivered t => contradiction
  | accepted t => contradiction
  | disconnected t id => contradiction

def Event.isCallbackOf (t : Fin n) : Event n → Bool
  | .childExited caller | .callbackDelivered caller => caller == t
  | _ => false

/-- A step that asks for nothing keeps what was asked for, and uses up one of
the callbacks of a task that are left if it is one. -/
theorem calm_converges {flags : Fin n → Bool}
    (converging : Converging graph flags ctx.state)
    (forks : ForksSucceed environment) {event : Event n}
    (calm : event.request = none) {call : ContextCall n}
    (stepped : ctx.step graph environment event = some call) :
    Converging graph flags call.state.state ∧
      call.state.target = ctx.target ∧
      ∀ t, (call.state.state.tasks t).remaining +
          (if event.isCallbackOf t then 1 else 0) ≤
        (ctx.state.tasks t).remaining := by
  have loop := step_settled converging.loop forks stepped
  cases event with
  | called message => contradiction
  | messageReceived t id message => contradiction
  | childExited t =>
      obtain ⟨inner, exited, rfl⟩ := Option.map_eq_some_iff.mp stepped
      have callback := childExited_isCallback exited
      exact ⟨⟨loop, converging.wants.callback callback⟩, rfl,
        callback.remaining_lowered converging.loop.2⟩
  | callbackDelivered t =>
      obtain ⟨inner, taken, rfl⟩ := Option.map_eq_some_iff.mp stepped
      have callback := callbackDelivered_isCallback taken
      exact ⟨⟨loop, converging.wants.callback callback⟩, rfl,
        callback.remaining_lowered converging.loop.2⟩
  | accepted t =>
      obtain rfl := Option.some.inj stepped
      refine ⟨⟨loop, fun other => ?_⟩, rfl, fun other => ?_⟩
      · exact (modifyControl_shouldWork t other _).trans (converging.wants other)
      · exact (modifyControl_remaining t other _).le
  | disconnected t id =>
      obtain rfl := Option.some.inj stepped
      refine ⟨⟨loop, fun other => ?_⟩, rfl, fun other => ?_⟩
      · exact (modifyControl_shouldWork t other _).trans (converging.wants other)
      · exact (modifyControl_remaining t other _).le

theorem childExited_returned {t : Fin n} (forks : ForksSucceed environment)
    {call : ContextCall n}
    (stepped : ctx.step graph environment (.childExited t) = some call) :
    call.threw = false := by
  obtain ⟨inner, exited, rfl⟩ := Option.map_eq_some_iff.mp stepped
  exact (childExited_isCallback exited).returned forks

end Context

namespace Machine

variable {n : Nat} {graph : TaskGraph n} {machine after : Machine n}

/-- Nothing of the program is readable, and no child that a `wait_child` waits
for is alive. -/
structure AtRest (machine : Machine n) : Prop where
  outside : machine.children.phase = .running .outside
  noSignal : machine.children.kernel.pending = false
  noCount : ∀ t adaptor,
    (machine.ctx.state.tasks t).handle = .sync adaptor →
      adaptor.fq.efd.counter = 0
  noChild : ∀ process ∈ machine.children.kernel.live,
    machine.children.handler.handlers process.pid = none

/-- An event that is bound to happen where it can: the program takes its next
step, or a child that it waits for exits. -/
def Event.Due (machine : Machine n) : Event n → Prop
  | .kernel (.exit process _) =>
      machine.children.handler.handlers process.pid ≠ none
  | .called (.callbackDelivered _) _ | .deliver | .reap _ _ => True
  | _ => False

def Event.request : Event n → Option ControlMessage
  | .called event _ => event.request
  | _ => none

/-- A step in which nobody asks for anything, by what it is to the `context`. -/
def CalmStep (graph : TaskGraph n) (effect : Option (Context.Event n))
    (before after : Machine n) : Prop :=
  ∃ environment event, ForksSucceed environment ∧ event.request = none ∧
    before.next graph environment event = some after ∧
    event.effect before = effect

theorem Event.effect_request {event : Event n} {effected : Context.Event n}
    (calm : event.request = none)
    (effect : event.effect machine = some effected) :
    effected.request = none := by
  cases event with
  | kernel move => contradiction
  | deliver => contradiction
  | called event launches =>
      obtain rfl := Option.some.inj effect
      exact calm
  | reap child launches =>
      obtain ⟨t, -, rfl⟩ := Option.map_eq_some_iff.mp effect
      rfl

def isCallbackOf (t : Fin n) : Option (Context.Event n) → Bool
  | some event => event.isCallbackOf t
  | none => false

theorem quiet_advances {before after : ChildState} (ran : Ran before)
    (quiet : before.Quiet) (advances : Advances before after) :
    after.Quiet := by
  obtain ⟨actions, calm, moved⟩ := advances
  refine (StepSystem.run_invariant
    (fun children => Ran children ∧ children.Quiet) ⟨ran, quiet⟩ ?_
    (List.prefix_refl actions) moved).2
  rintro earlier action middle later within - ⟨ran, quiet⟩ moved
  refine ⟨ran.next moved, quiet.step ran.consistent (ChildState.stepped moved)
    fun thrown => absurd ?_ calm⟩
  rw [← thrown]
  exact within.subset (List.mem_append_right _ List.mem_cons_self)

theorem next_quiet {environment : Environment n}
    (forks : ForksSucceed environment) {event : Event n}
    (linked : machine.Linked []) (between : machine.Between)
    (quiet : machine.children.Quiet)
    (moved : machine.next graph environment event = some after) :
    after.children.Quiet := by
  have matched := (linked.next between moved).2.2
  cases effect : event.effect machine with
  | none =>
      rw [effect] at matched
      exact quiet_advances linked.ran quiet matched.2
  | some effected =>
      rw [effect] at matched
      obtain ⟨call, stepped, -, advances | ⟨threw, t, rfl⟩⟩ := matched
      · exact quiet_advances linked.ran quiet advances
      · rw [Context.childExited_returned forks stepped] at threw
        contradiction

/-- While every fork succeeds, a reachable machine leaves no child behind. -/
theorem reachable_quiet {descriptions : TaskDescriptions n}
    (reached : (machineSystem descriptions ForksSucceed).Reachable machine) :
    machine.children.Quiet := by
  refine reached.invariant (fun machine => machine.children.Quiet) ?_ ?_
  · rintro machine ⟨environment, call, launches, -, changed, -, launched⟩
    obtain ⟨-, -, -, advances⟩ := (linked_boot changed).launchAll rfl launched
    exact quiet_advances ⟨[], rfl⟩ (fun _ _ _ member => nomatch member) advances
  · rintro before after reached quiet ⟨environment, event, forks, moved⟩
    obtain ⟨linked, between, -⟩ := reachable_linked reached
    exact next_quiet forks linked between quiet moved

/-- A machine at rest has no operation in flight. -/
theorem AtRest.quiescent (rest : machine.AtRest) (linked : machine.Linked [])
    (quiet : machine.children.Quiet) : machine.ctx.state.Quiescent := by
  intro t
  cases kind : (machine.ctx.state.tasks t).handle with
  | sync adaptor => exact rest.noCount t adaptor kind
  | startStop task =>
      by_contra waiting
      have busy : machine.ctx.state.busy t = true := by
        unfold InitdState.busy
        rw [kind]
        exact Option.isSome_iff_ne_none.mpr waiting
      rw [linked.busy_eq] at busy
      obtain ⟨process, holds⟩ := Option.isSome_iff_exists.mp busy
      have handled := linked.registered t process holds
      have free : machine.children.phase.isRemoving = false := by
        rw [rest.outside]
        rfl
      have missing : machine.children.handler.handlers process.pid = none := by
        have present := linked.ran.consistent.registered.present free handled
        rcases List.mem_append.mp present with live | exited
        · exact rest.noChild process live
        · obtain ⟨status, zombie, same⟩ := List.mem_map.mp exited
          have outside : machine.children.phase.inHandler = false := by
            rw [rest.outside]
            rfl
          have unhandled := (quiet outside rest.noSignal status zombie).1
          rwa [same] at unhandled
      rw [missing] at handled
      contradiction

/-! What is bound to happen can happen. -/

section Progress

variable {caller : Caller} {environment : Environment n}

theorem exists_launch (t : Fin n)
    (phase : machine.children.phase = .running caller) :
    ∃ launch later, machine.launch t launch = some later := by
  obtain ⟨pid, unused⟩ := Infinite.exists_notMem_finset
    (machine.children.kernel.processes.map Process.pid).toFinset
  rw [List.mem_toFinset] at unused
  obtain ⟨forked, fork, adding⟩ : ∃ forked,
      machine.children.fork pid = some forked ∧
        forked.phase = .adding caller ⟨pid, machine.children.kernel.children⟩ := by
    simp [ChildState.fork, phase, Kernel.make, unused]
  obtain ⟨added, add⟩ : ∃ added, forked.add = some added := by
    simp only [ChildState.add, adding]
    split <;> exact ⟨_, rfl⟩
  refine ⟨⟨[], pid, []⟩, ?_⟩
  simp [Machine.launch, kernelMoves, StepSystem.run, fork, add]

theorem Linked.exists_launchAll {todo : List (Fin n)}
    (linked : machine.Linked todo)
    (phase : machine.children.phase = .running caller) :
    ∃ launches later, machine.launchAll todo launches = some later := by
  induction todo generalizing machine with
  | nil => exact ⟨[], machine, rfl⟩
  | cons t todo induction =>
      have alive : machine.children.phase ≠ .aborted := by simp [phase]
      obtain ⟨launch, middle, launched⟩ := exists_launch t phase
      obtain ⟨linked', phase'⟩ := linked.launch phase launched
      obtain ⟨launches, later, rest⟩ := induction linked' phase'
      refine ⟨launch :: launches, later, ?_⟩
      rw [Machine.launchAll, if_neg alive]
      exact Option.bind_eq_some_iff.mpr ⟨middle, launched, rest⟩

theorem Linked.exists_callback {process : Process}
    (linked : machine.Linked [])
    (phase : machine.children.phase = .removing process) :
    ∃ launches later,
      machine.callback graph environment process launches = some later := by
  obtain ⟨t, call, found, owner, holds, stepped⟩ :=
    linked.called_back graph environment phase
  obtain ⟨children, remove, handlers, running⟩ : ∃ children,
      machine.children.remove = some children ∧
        children.handler.handlers = Function.update
          machine.children.handler.handlers process.pid none ∧
        children.phase = .running .callback := by
    simp [ChildState.remove, phase, SigchildHandler.remove, found]
  have removed : ChildState.next .remove machine.children = some children :=
    remove
  have reset : Linked ⟨call.state, children,
      Function.update machine.operations t none⟩ (launchedTasks call.log) :=
    linked.reset holds stepped (linked.ran.next removed) rfl rfl handlers
  obtain ⟨launches, last, launched⟩ := reset.exists_launchAll running
  obtain ⟨-, phase', -, -⟩ := reset.launchAll running launched
  refine ⟨launches, ?_⟩
  simp only [Machine.callback, owner, stepped, remove, launched, phase',
    ChildState.throw, ChildState.finish, Option.bind_eq_bind, Option.bind_some,
    reduceCtorEq, if_false]
  split <;> exact ⟨_, rfl⟩

theorem Linked.exists_reap {status : ChildStatus} (linked : machine.Linked [])
    (graph : TaskGraph n) (environment : Environment n)
    (phase : machine.children.phase = .reaping)
    (exited : status ∈ machine.children.kernel.exited) :
    ∃ launches later, machine.reap graph environment (some status) launches =
      some later := by
  obtain ⟨process, code⟩ := status
  have reaped : machine.children.kernel.reapChild (some ⟨process, code⟩) =
      some { machine.children.kernel with
        exited := machine.children.kernel.exited.erase ⟨process, code⟩ } :=
    if_pos exited
  cases found : machine.children.handler.handlers process.pid with
  | none =>
      refine ⟨[], ?_⟩
      simp [Machine.reap, ChildState.reap, phase, reaped, found]
  | some waitChild =>
      obtain ⟨children, turned, removing⟩ : ∃ children,
          machine.children.reap (some ⟨process, code⟩) = some children ∧
            children.phase = .removing ⟨process.pid, waitChild⟩ := by
        simp [ChildState.reap, phase, reaped, found]
      have reap : ChildState.next (.reap (some ⟨process, code⟩))
        machine.children = some children := turned
      have handler : children.handler = machine.children.handler := by
        cases ChildState.stepped reap with
        | reapOrphan phase _ _ => rfl
        | reapChild phase _ _ => rfl
      have kept := linked.of_children (linked.ran.next reap) handler
      obtain ⟨launches, later, called⟩ := kept.exists_callback removing
      refine ⟨launches, later, ?_⟩
      simp only [Machine.reap, turned, Option.bind_eq_bind, Option.bind_some,
        removing]
      exact called

/-- Short of rest, something is bound to happen. -/
theorem Linked.exists_due (linked : machine.Linked [])
    (between : machine.Between)
    (loop : InitdState.SettledLoop graph [] machine.ctx.state)
    (environment : Environment n) (active : ¬ machine.AtRest) :
    ∃ event later, event.Due machine ∧
      machine.next graph environment event = some later := by
  rcases between with outside | reaping
  · by_cases signal : machine.children.kernel.pending = true
    · refine ⟨.deliver, ?_⟩
      simp [Event.Due, Machine.next, ChildState.deliver, outside,
        Kernel.readSignal, signal]
    by_cases counts : ∀ t adaptor,
        (machine.ctx.state.tasks t).handle = .sync adaptor →
          adaptor.fq.efd.counter = 0
    · obtain ⟨process, live, handled⟩ : ∃ process ∈
          machine.children.kernel.live,
            machine.children.handler.handlers process.pid ≠ none := by
        by_contra! none
        exact active ⟨outside, Bool.not_eq_true _ ▸ signal, counts, none⟩
      refine ⟨.kernel (.exit process 0), ?_⟩
      simp [Event.Due, handled, Machine.next, KernelMove.action,
        ChildState.next, Kernel.exit, live]
    · push Not at counts
      obtain ⟨t, adaptor, kind, pending⟩ := counts
      have backed := loop.2.consistent t
      rw [kind] at backed
      obtain ⟨⟨⟨⟩, fq⟩, delivered⟩ := Option.isSome_iff_exists.mp
        (FunctionQueue.Backed.deliver_isSome backed pending)
      obtain ⟨call, stepped⟩ : ∃ call, machine.ctx.step graph environment
          (.callbackDelivered t) = some call := by
        simp [Context.step, InitdState.callbackDelivered, kind, delivered]
      have notExited : ∀ other, Context.Event.callbackDelivered t ≠
        .childExited other := fun _ => by simp
      obtain ⟨launches, later, launched⟩ :=
        (linked.told notExited stepped).exists_launchAll outside
      refine ⟨.called (.callbackDelivered t) launches, later, trivial, ?_⟩
      simp only [Machine.next, Machine.called, outside, stepped,
        Option.bind_eq_bind, Option.bind_some]
      exact launched
  · cases exited : machine.children.kernel.exited with
    | nil =>
        refine ⟨.reap none [], ?_⟩
        simp [Event.Due, Machine.next, Machine.reap, ChildState.reap, reaping,
          Kernel.reapChild, exited]
    | cons status rest =>
        obtain ⟨launches, later, reaped⟩ := linked.exists_reap graph
          environment reaping (exited ▸ List.mem_cons_self)
        exact ⟨.reap (some status) launches, later, trivial, reaped⟩

end Progress

/-- What holds from a request on, as long as there is no other. -/
structure Settling (graph : TaskGraph n) (flags : Fin n → Bool)
    (target : Target) (machine : Machine n) : Prop where
  linked : machine.Linked []
  between : machine.Between
  quiet : machine.children.Quiet
  converging : InitdState.Converging graph flags machine.ctx.state
  heads : machine.ctx.target = target

theorem Settling.step {flags : Fin n → Bool} {target : Target}
    {effect : Option (Context.Event n)}
    (settling : Settling graph flags target machine)
    (moved : CalmStep graph effect machine after) :
    Settling graph flags target after ∧
      ∀ t, (after.ctx.state.tasks t).remaining +
          (if isCallbackOf t effect then 1 else 0) ≤
        (machine.ctx.state.tasks t).remaining := by
  obtain ⟨environment, event, forks, calm, moved, rfl⟩ := moved
  obtain ⟨linked, between, quiet, converging, heads⟩ := settling
  obtain ⟨linked', between', matched⟩ := linked.next between moved
  have quiet' := next_quiet forks linked between quiet moved
  cases effect : event.effect machine with
  | none =>
      rw [effect] at matched
      obtain ⟨same, -⟩ := matched
      refine ⟨⟨linked', between', quiet', ?_, ?_⟩, ?_⟩ <;> rw [same]
      · exact converging
      · exact heads
      · exact fun t => Nat.le_refl _
  | some effected =>
      rw [effect] at matched
      obtain ⟨call, stepped, same, -⟩ := matched
      obtain ⟨converging', heads', fewer⟩ := Context.calm_converges converging
        forks (Event.effect_request calm effect) stepped
      refine ⟨⟨linked', between', quiet', ?_, ?_⟩, ?_⟩ <;> rw [same]
      · exact converging'
      · exact heads'.trans heads
      · exact fewer

theorem settling_measured (graph : TaskGraph n) (flags : Fin n → Bool)
    (target : Target) (t : Fin n) :
    Measured (CalmStep graph) (isCallbackOf t) (Settling graph flags target)
      fun machine => (machine.ctx.state.tasks t).remaining where
  kept moved settling := (settling.step moved).1
  lowered moved settling := (settling.step moved).2 t

/-- What a request leaves to be done. -/
theorem settling_request {descriptions : TaskDescriptions n}
    {changed : Machine n}
    (reached : (machineSystem descriptions ForksSucceed).Reachable machine)
    {environment : Environment n} (forks : ForksSucceed environment)
    {event : Context.Event n} {message : ControlMessage}
    (asks : event.request = some message)
    (configured : message.Configured descriptions.graph)
    {launches : List Launch}
    (asked : machine.next descriptions.graph environment
      (.called event launches) = some changed) :
    Settling descriptions.graph
        (fun t => (changed.ctx.state.tasks t).shouldWork) message.target
        changed ∧
      ∀ t, (changed.ctx.state.tasks t).shouldWork = true ↔
        message.Selects descriptions.graph t := by
  obtain ⟨linked, between, inContext⟩ := reachable_linked reached
  have quiet := next_quiet forks linked between (reachable_quiet reached) asked
  obtain ⟨linked', between', call, stepped, same, -⟩ :=
    linked.next between asked
  obtain ⟨heads, wants⟩ := Context.request_wants asks configured stepped
  refine ⟨⟨linked', between', quiet, ⟨?_, fun _ => rfl⟩, ?_⟩, ?_⟩ <;> rw [same]
  · exact Context.step_settled (Context.reachable_settled inContext) forks
      stepped
  · exact heads
  · exact wants

/-- At rest, exactly the tasks that should work and have no cycle below them
are up. -/
theorem Settling.atRest {flags : Fin n → Bool} {target : Target}
    (settling : Settling graph flags target after) (rest : after.AtRest)
    (t : Fin n) :
    (after.ctx.state.tasks t).handle.isInTransition = false ∧
      ((after.ctx.state.tasks t).handle.isRunning = true ↔
        flags t = true ∧ Digraph.AcyclicFrom graph.dependencies t) := by
  have quiescent := rest.quiescent settling.linked settling.quiet
  refine ⟨(quiescent t).isInTransition, ?_⟩
  rw [settling.converging.loop.running_iff quiescent,
    settling.converging.wants t]

/-- After a request, as long as nobody asks for anything else and every fork
succeeds, as all have before: there are at most two callbacks of each task,
short of rest
something is bound to happen, and at rest exactly those tasks that were asked
for and have no cycle below them are up, so that a shutdown ends the main
loop. -/
theorem request_settles {descriptions : TaskDescriptions n}
    {changed : Machine n}
    (reached : (machineSystem descriptions ForksSucceed).Reachable machine)
    {environment : Environment n} (forks : ForksSucceed environment)
    {event : Context.Event n} {message : ControlMessage}
    (asks : event.request = some message)
    (configured : message.Configured descriptions.graph)
    {launches : List Launch}
    (asked : machine.next descriptions.graph environment
      (.called event launches) = some changed)
    {effects : List (Option (Context.Event n))}
    (ran : Run (CalmStep descriptions.graph) changed effects after) :
    (∀ t, effects.countP (isCallbackOf t) ≤ 2) ∧
      (¬ after.AtRest → ∃ event later, event.Due after ∧
        after.next descriptions.graph environment event = some later) ∧
      (after.AtRest → after.ctx.target = message.target ∧
        (∀ t, (after.ctx.state.tasks t).handle.isInTransition = false ∧
          ((after.ctx.state.tasks t).handle.isRunning = true ↔
            message.Selects descriptions.graph t ∧
              Digraph.AcyclicFrom descriptions.graph.dependencies t)) ∧
        (after.ctx.isActive = false ↔
          message = .reboot ∨ message = .powerOff)) := by
  obtain ⟨start, wants⟩ := settling_request reached forks asks configured asked
  have settling := ran.invariant (fun moved settling => (settling.step moved).1)
    start
  refine ⟨fun t => ?_, settling.linked.exists_due settling.between
    settling.converging.loop environment, fun rest => ?_⟩
  · have few := (settling_measured _ _ _ t).count_le ran start
    have bound := (changed.ctx.state.tasks t).remaining_le_two
    omega
  · refine ⟨settling.heads, fun t => ?_, ?_⟩
    · rw [← wants t]
      exact settling.atRest rest t
    · constructor
      · intro inactive
        have target : after.ctx.target ≠ .running := fun running => by
          simp [Context.isActive, running] at inactive
        rw [settling.heads] at target
        cases message with
        | reboot => exact .inl rfl
        | powerOff => exact .inr rfl
        | setRunlevel _ => exact absurd rfl target
      · intro shutdown
        have none : ∀ t, (after.ctx.state.tasks t).shouldWork ≠ true := by
          intro t
          rw [settling.converging.wants t, ne_eq, wants]
          rcases shutdown with rfl | rfl <;> exact id
        have quiescent := rest.quiescent settling.linked settling.quiet
        refine Context.inactive ?_ ?_
        · rw [settling.heads]
          rcases shutdown with rfl | rfl <;> simp [ControlMessage.target]
        · exact (settling.converging.loop.pendingTasks_eq_zero_iff
            quiescent).mpr fun t up => absurd up (none t)

theorem exists_calmRun {environment : Environment n}
    (forks : ForksSucceed environment) {schedule : List (Event n)}
    (calm : ∀ event ∈ schedule, event.request = none)
    (ran : machine.run graph environment schedule = some after) :
    ∃ effects, Run (CalmStep graph) machine effects after := by
  induction schedule generalizing machine with
  | nil => exact ⟨[], Option.some.inj ran ▸ .nil machine⟩
  | cons event rest induction =>
      rw [run, StepSystem.run, List.foldlM_cons] at ran
      obtain ⟨middle, moved, ran⟩ := Option.bind_eq_some_iff.mp ran
      obtain ⟨quiet, later⟩ := List.forall_mem_cons.mp calm
      obtain ⟨effects, run⟩ := induction later ran
      exact ⟨_, .cons ⟨environment, event, forks, quiet, moved, rfl⟩ run⟩

/-- The service of `serviceOverControl` is up. -/
def serviceServing : Machine 2 :=
  (serviceExited.run serviceOverControl.graph answering
    [.reap (some ⟨⟨7, 1⟩, 0⟩) [], .reap none []]).get (by decide)

/-- A reboot was asked for, so that the service is being stopped. -/
def serviceLeaving : Machine 2 :=
  (serviceServing.next serviceOverControl.graph answering
    (.called (.called .reboot) [⟨[], 8, []⟩])).get (by decide)

/-- The service has stopped, and the control task after it. -/
def serviceGone : Machine 2 :=
  (serviceLeaving.run serviceOverControl.graph answering
    [.kernel (.exit ⟨8, 2⟩ 0), .deliver, .reap (some ⟨⟨8, 2⟩, 0⟩) [],
      .reap none [], .called (.callbackDelivered controlTask) []]).get
    (by decide)

theorem serviceGone_atRest : serviceGone.AtRest where
  outside := by decide
  noSignal := by decide
  noCount t adaptor kind := by
    have quiet : ∀ t, (serviceGone.ctx.state.tasks t).handle.Quiet := by decide
    have here := quiet t
    rw [kind] at here
    exact here
  noChild := by decide

theorem request_settles_serviceGone : serviceGone.ctx.isActive = false := by
  have exited : (machineSystem serviceOverControl ForksSucceed).Reachable
      serviceExited :=
    reachable_of_run (fun _ => rfl) (serviceBooting_reachable fun _ => rfl)
      (Option.some_get _).symm
  have serving : (machineSystem serviceOverControl ForksSucceed).Reachable
      serviceServing :=
    reachable_of_run (fun _ => rfl) exited (Option.some_get _).symm
  obtain ⟨effects, ran⟩ : ∃ effects,
      Run (CalmStep serviceOverControl.graph) serviceLeaving effects
        serviceGone :=
    exists_calmRun (fun _ => rfl) (by decide) (Option.some_get _).symm
  have asked : serviceServing.next serviceOverControl.graph answering
      (.called (.called .reboot) [⟨[], 8, []⟩]) = some serviceLeaving :=
    (Option.some_get _).symm
  have forks : ForksSucceed answering := fun _ => rfl
  have asks : Context.Event.request (.called .reboot : Context.Event 2) =
    some .reboot := rfl
  have configured : ControlMessage.reboot.Configured
      serviceOverControl.graph := by
    intro runlevelName same
    cases same
  have settles := request_settles serving forks asks configured asked ran
  exact (settles.2.2 serviceGone_atRest).2.2.mpr (.inl rfl)

end Machine

end Initd
