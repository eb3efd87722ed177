import Initd.Runtime.Safety

namespace Initd

open Library

/-! `context`, the `state_context` of the init process, and its control
connections. -/

inductive Target
  | running
  | reboot
  | powerOff
  deriving DecidableEq, Repr

structure Context (n : Nat) where
  target : Target
  state : InitdState n

abbrev ContextCall (n : Nat) := Outcome (Context n) (Action n)

/-- A complete message of the control protocol. -/
inductive ControlMessage
  | reboot
  | powerOff
  | setRunlevel (runlevelName : Bytes)
  deriving DecidableEq, Repr

namespace AsyncTaskHandle

def connections : AsyncTaskHandle → List Nat
  | sync { handle := some (.control handle), .. } => handle.connections
  | _ => []

def mapControl (change : ControlTaskHandle → ControlTaskHandle) :
    AsyncTaskHandle → AsyncTaskHandle
  | sync adaptor =>
      sync { adaptor with
        handle := adaptor.handle.map fun
          | .control handle => .control (change handle)
          | .other => .other }
  | startStop task => startStop task

variable {change : ControlTaskHandle → ControlTaskHandle}
  {handle : AsyncTaskHandle}

@[simp] theorem mapControl_isRunning :
    (handle.mapControl change).isRunning = handle.isRunning := by
  cases handle <;> rfl

@[simp] theorem mapControl_isInTransition :
    (handle.mapControl change).isInTransition = handle.isInTransition := by
  cases handle <;> rfl

@[simp] theorem mapControl_getShouldWork :
    (handle.mapControl change).getShouldWork = handle.getShouldWork := by
  cases handle <;> rfl

@[simp] theorem mapControl_quiet :
    (handle.mapControl change).Quiet ↔ handle.Quiet := by
  cases handle <;> rfl

@[simp] theorem mapControl_consistent :
    (handle.mapControl change).Consistent ↔ handle.Consistent := by
  cases handle <;> rfl

/-- Only a `sync_task_adaptor` has connections, and it loses them all once it
is told not to work. -/
theorem connections_cases {id : Nat} (live : id ∈ handle.connections) :
    handle.isInTransition = false ∧
      ∀ answers, (handle.setShouldWork answers false).1.connections = [] := by
  cases handle with
  | startStop task => simp [connections] at live
  | sync adaptor => exact ⟨rfl, fun _ => rfl⟩

end AsyncTaskHandle

namespace Context

variable {n : Nat}

def isActive (ctx : Context n) : Bool :=
  ctx.target == .running || ctx.state.hasPendingOperations

def reboot (graph : TaskGraph n) (environment : Environment n)
    (ctx : Context n) : ContextCall n :=
  let ctx := { ctx with target := .reboot }
  (ctx.state.setEmptyRunLevel graph environment).map fun state =>
    { ctx with state := state }

def powerOff (graph : TaskGraph n) (environment : Environment n)
    (ctx : Context n) : ContextCall n :=
  let ctx := { ctx with target := .powerOff }
  (ctx.state.setEmptyRunLevel graph environment).map fun state =>
    { ctx with state := state }

def setRunlevel (graph : TaskGraph n) (environment : Environment n)
    (runlevelName : Bytes) (ctx : Context n) : Option (ContextCall n) :=
  let ctx := { ctx with target := .running }
  (ctx.state.setRunLevel graph environment runlevelName).map
    (Outcome.map fun state => { ctx with state := state })

def dispatch (graph : TaskGraph n) (environment : Environment n)
    (message : ControlMessage) (ctx : Context n) : Option (ContextCall n) :=
  match message with
  | .reboot => some (ctx.reboot graph environment)
  | .powerOff => some (ctx.powerOff graph environment)
  | .setRunlevel runlevelName => ctx.setRunlevel graph environment runlevelName

def modifyControl (t : Fin n)
    (change : ControlTaskHandle → ControlTaskHandle) (ctx : Context n) :
    Context n :=
  { ctx with
    state := ctx.state.modify t fun task =>
      { task with handle := task.handle.mapControl change } }

/-- The handler of a message that is complete on a live connection.  It catches
an exception of the dispatch and disconnects. -/
def messageReceived (graph : TaskGraph n) (environment : Environment n)
    (t : Fin n) (id : Nat) (message : ControlMessage) (ctx : Context n) :
    Option (ContextCall n) :=
  if id ∈ (ctx.state.tasks t).handle.connections then
    (ctx.dispatch graph environment message).map fun call =>
      if call.threw then
        { call with
          state := call.state.modifyControl t fun handle => handle.disconnect id
          threw := false }
      else
        call
  else
    none

/-- A connection of a client to a control task that is up. -/
def accepted (t : Fin n) (ctx : Context n) : ContextCall n :=
  .done (ctx.modifyControl t ControlTaskHandle.accept)

def disconnected (t : Fin n) (id : Nat) (ctx : Context n) : ContextCall n :=
  .done (ctx.modifyControl t fun handle => handle.disconnect id)

/-- The calls of `context` that do not come over a connection, such as the
reboot of a signal, are events as well. -/
inductive Event (n : Nat)
  | called (message : ControlMessage)
  | childExited (task : Fin n)
  | callbackDelivered (task : Fin n)
  | accepted (task : Fin n)
  | disconnected (task : Fin n) (id : Nat)
  | messageReceived (task : Fin n) (id : Nat) (message : ControlMessage)
  deriving DecidableEq, Repr

/-- One `epoll::wait`, which catches what its callback throws. -/
def step (graph : TaskGraph n) (environment : Environment n) (event : Event n)
    (ctx : Context n) : Option (ContextCall n) :=
  let inState := Outcome.map fun state => { ctx with state := state }
  match event with
  | .called message => ctx.dispatch graph environment message
  | .childExited t => (ctx.state.childExited graph environment t).map inState
  | .callbackDelivered t =>
      (ctx.state.callbackDelivered graph environment t).map inState
  | .accepted t => some (ctx.accepted t)
  | .disconnected t id => some (ctx.disconnected t id)
  | .messageReceived t id message =>
      ctx.messageReceived graph environment t id message

end Context

/-- The runs of the init process whose `context` was constructed, over the
environments of one kind. -/
def contextSystem {n : Nat} (descriptions : TaskDescriptions n)
    (allowed : Environment n → Prop) : StepSystem (Context n) where
  init ctx := ∃ environment call,
    allowed environment ∧
      descriptions.initdState.setRunLevel descriptions.graph environment
        defaultRunLevel = some call ∧
      call.threw = false ∧ ctx = ⟨.running, call.state⟩
  step before after := ∃ environment event call,
    allowed environment ∧
      before.step descriptions.graph environment event = some call ∧
      call.state = after

namespace Context

/-- The context after the events of a schedule, where every answer of the
kernel is the same. -/
def run {n : Nat} (graph : TaskGraph n) (environment : Environment n)
    (schedule : List (Event n)) (ctx : Context n) : Option (Context n) :=
  StepSystem.run
    (fun event ctx => (ctx.step graph environment event).map (·.state))
    schedule ctx

theorem reachable_of_run {n : Nat} {descriptions : TaskDescriptions n}
    {allowed : Environment n → Prop} {environment : Environment n}
    {schedule : List (Event n)} {before after : Context n}
    (permitted : allowed environment)
    (reached : (contextSystem descriptions allowed).Reachable before)
    (ran : before.run descriptions.graph environment schedule = some after) :
    (contextSystem descriptions allowed).Reachable after := by
  refine reached.run (fun event _ _ _ moved => ?_) ran
  obtain ⟨call, stepped, rfl⟩ := Option.map_eq_some_iff.mp moved
  exact ⟨environment, event, call, permitted, stepped, rfl⟩

end Context

/-- The context over `serviceOverControl` when it is constructed. -/
def startContext : Context 2 where
  target := .running
  state := (serviceOverControl.initdState.run serviceOverControl.graph
    [(answering, .setRunLevel defaultRunLevel)]).get (by decide)

theorem startContext_init {allowed : Environment 2 → Prop}
    (permitted : allowed answering) :
    (contextSystem serviceOverControl allowed).init startContext :=
  ⟨answering,
    (serviceOverControl.initdState.setRunLevel serviceOverControl.graph
      answering defaultRunLevel).get (by decide),
    permitted, (Option.some_get _).symm, by decide, rfl⟩

end Initd
