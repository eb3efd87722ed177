import Initd.Runtime.Operations
import Initd.Sysapi.ChildExits

namespace Initd

open Library Sysapi

/-! The init process over the children that the kernel keeps for it: what the
`wait_child` of an operation is to the task that holds it. -/

/-- What happens to the children by themselves. -/
inductive KernelMove
  | exit (process : Process) (status : Int32)
  | adopt (pid : Nat)
  deriving DecidableEq, Repr

def KernelMove.action : KernelMove → ChildState.Action
  | exit process status => .exit process status
  | adopt pid => .adopt pid

/-- A `fork` that succeeds: the pid that the kernel gives, and what happens
before it and between it and the `wait_child` of the pid. -/
structure Launch where
  before : List KernelMove
  pid : Nat
  between : List KernelMove
  deriving Repr

/-- `operations` are the `wait_child`s in the `current_operation`s. -/
structure Machine (n : Nat) where
  ctx : Context n
  children : ChildState
  operations : Fin n → Option Process

def kernelMoves (moves : List KernelMove) (children : ChildState) :
    Option ChildState :=
  StepSystem.run (fun move => ChildState.next move.action) moves children

namespace Machine

variable {n : Nat}

/-- Where an assertion fails, or a callback would find no operation. -/
def abort (machine : Machine n) : Machine n :=
  { machine with children := { machine.children with phase := .aborted } }

def launch (t : Fin n) (launch : Launch) (machine : Machine n) :
    Option (Machine n) := do
  let children ← kernelMoves launch.before machine.children
  let process : Process := ⟨launch.pid, children.kernel.children⟩
  let children ← children.fork launch.pid
  let children ← kernelMoves launch.between children
  let children ← children.add
  return { machine with
    children := children
    operations := Function.update machine.operations t (some process) }

/-- The forks of one call, one after the other. -/
def launchAll : List (Fin n) → List Launch → Machine n → Option (Machine n)
  | [], [], machine => some machine
  | t :: ts, launch :: launches, machine =>
      if machine.children.phase = .aborted then
        some machine
      else do
        let machine ← machine.launch t launch
        machine.launchAll ts launches
  | _, _, _ => none

def owner (process : Process) (machine : Machine n) : Option (Fin n) :=
  (List.finRange n).find? fun t => machine.operations t == some process

/-- An event of `epoll` other than the signal of a child. -/
def called (graph : TaskGraph n) (environment : Environment n)
    (event : Context.Event n) (launches : List Launch) (machine : Machine n) :
    Option (Machine n) :=
  match machine.children.phase, event with
  | .running .outside, .childExited _ => none
  | .running .outside, event => do
      let call ← machine.ctx.step graph environment event
      { machine with ctx := call.state }.launchAll (launchedTasks call.log)
        launches
  | _, _ => none

/-- A callback, from the reset of its operation, which destroys the
`wait_child`, to its end. -/
def callback (graph : TaskGraph n) (environment : Environment n)
    (process : Process) (launches : List Launch) (machine : Machine n) :
    Option (Machine n) :=
  match machine.owner process with
  | none => some machine.abort
  | some t =>
      match machine.ctx.step graph environment (.childExited t) with
      | none => some machine.abort
      | some call => do
          let machine : Machine n := {
            ctx := call.state
            children := ← machine.children.remove
            operations := Function.update machine.operations t none }
          let machine ← machine.launchAll (launchedTasks call.log) launches
          if machine.children.phase = .aborted then
            return machine
          else if call.threw then
            return { machine with children := ← machine.children.throw }
          else
            return { machine with children := ← machine.children.finish }

/-- One turn of the loop in the handler of the signal. -/
def reap (graph : TaskGraph n) (environment : Environment n)
    (child : Option ChildStatus) (launches : List Launch)
    (machine : Machine n) : Option (Machine n) := do
  let machine := { machine with children := ← machine.children.reap child }
  match machine.children.phase with
  | .removing process => machine.callback graph environment process launches
  | _ => return machine

inductive Event (n : Nat)
  | kernel (move : KernelMove)
  | called (event : Context.Event n) (launches : List Launch)
  | deliver
  | reap (child : Option ChildStatus) (launches : List Launch)
  deriving Repr

def next (graph : TaskGraph n) (environment : Environment n) (event : Event n)
    (machine : Machine n) : Option (Machine n) :=
  match event with
  | .kernel move => do
      return { machine with children := ← machine.children.next move.action }
  | .called event launches => machine.called graph environment event launches
  | .deliver => do
      return { machine with children := ← machine.children.deliver }
  | .reap child launches => machine.reap graph environment child launches

/-! What the program does to the children on its way. -/

section Children

variable {before middle after : ChildState}

def Ran (children : ChildState) : Prop :=
  ∃ actions, ChildState.run actions = some children

/-- The children are brought from one state to the other, and no callback
throws on the way. -/
def Advances (before after : ChildState) : Prop :=
  ∃ actions, .throw ∉ actions ∧
    StepSystem.run ChildState.next actions before = some after

theorem Advances.refl (children : ChildState) : Advances children children :=
  ⟨[], List.not_mem_nil, rfl⟩

theorem Advances.trans (first : Advances before middle)
    (second : Advances middle after) : Advances before after := by
  obtain ⟨earlier, calm, ran⟩ := first
  obtain ⟨later, calm', ran'⟩ := second
  refine ⟨earlier ++ later, ?_, ?_⟩
  · rw [List.mem_append]
    exact not_or.mpr ⟨calm, calm'⟩
  · rw [StepSystem.run_append, ran]
    exact ran'

theorem Advances.single {action : ChildState.Action}
    (moved : ChildState.next action before = some after)
    (calm : action ≠ .throw) :
    Advances before after := by
  refine ⟨[action], fun member => calm (List.mem_singleton.mp member).symm, ?_⟩
  have ran := StepSystem.run_concat ChildState.next [] action before
  exact ran.trans moved

theorem Ran.next (ran : Ran before) {action : ChildState.Action}
    (moved : ChildState.next action before = some after) : Ran after := by
  obtain ⟨actions, ran⟩ := ran
  refine ⟨actions ++ [action], ?_⟩
  have extended := StepSystem.run_concat ChildState.next actions action .boot
  rw [show StepSystem.run ChildState.next actions .boot = _ from ran] at extended
  exact extended.trans moved

theorem Ran.advances (ran : Ran before) (advances : Advances before after) :
    Ran after := by
  obtain ⟨earlier, ran⟩ := ran
  obtain ⟨later, -, ran'⟩ := advances
  refine ⟨earlier ++ later, ?_⟩
  rw [ChildState.run, StepSystem.run_append,
    show StepSystem.run ChildState.next earlier .boot = _ from ran]
  exact ran'

theorem Ran.consistent {children : ChildState} (ran : Ran children) :
    children.Consistent := by
  obtain ⟨actions, ran⟩ := ran
  exact ChildState.consistent_run ran

theorem kernelMove_kept {move : KernelMove}
    (moved : ChildState.next move.action before = some after) :
    after.phase = before.phase ∧ after.handler = before.handler := by
  have step := ChildState.stepped moved
  cases move with
  | exit process status => cases step with | exit exited => exact ⟨rfl, rfl⟩
  | adopt pid => cases step with | adopt made => exact ⟨rfl, rfl⟩

theorem kernelMove_calm (move : KernelMove) : move.action ≠ .throw := by
  cases move <;> exact nofun

theorem kernelMoves_kept {moves : List KernelMove}
    (moved : kernelMoves moves before = some after) :
    Advances before after ∧ after.phase = before.phase ∧
      after.handler = before.handler := by
  refine StepSystem.run_invariant (fun children => Advances before children ∧
    children.phase = before.phase ∧ children.handler = before.handler)
    ⟨.refl before, rfl, rfl⟩ ?_ (List.prefix_refl moves) moved
  rintro - move middle later - - ⟨advances, phase, handler⟩ moved
  obtain ⟨phase', handler'⟩ := kernelMove_kept moved
  exact ⟨advances.trans (.single moved (kernelMove_calm move)),
    phase'.trans phase, handler'.trans handler⟩

end Children

section Launching

variable {machine after : Machine n} {t : Fin n} {caller : Caller}

/-- A launch makes one `wait_child` more, of a pid that has none. -/
theorem launch_spec {launch : Launch} (ran : Ran machine.children)
    (phase : machine.children.phase = .running caller)
    (launched : machine.launch t launch = some after) :
    ∃ process : Process, Advances machine.children after.children ∧
      after.children.phase = .running caller ∧
      machine.children.handler.handlers process.pid = none ∧
      after.ctx = machine.ctx ∧
      after.operations = Function.update machine.operations t (some process) ∧
      after.children.handler.handlers = Function.update
        machine.children.handler.handlers process.pid (some process.child) := by
  simp only [Machine.launch, Option.bind_eq_bind, Option.bind_eq_some_iff,
    Option.pure_def, Option.some.injEq] at launched
  obtain ⟨first, moved, second, forked, third, moved', last, added, rfl⟩ :=
    launched
  obtain ⟨toFirst, phase₁, handler₁⟩ := kernelMoves_kept moved
  have fork : ChildState.next (.fork launch.pid) first = some second := forked
  have toSecond := toFirst.trans (.single fork nofun)
  obtain ⟨toThird, phase₃, handler₃⟩ := kernelMoves_kept moved'
  have add : ChildState.next .add third = some last := added
  have consistent := (ran.advances (toSecond.trans toThird)).consistent
  cases ChildState.stepped fork with
  | @fork _ process kernel caller' running made =>
      obtain rfl : caller' = caller :=
        Phase.running.inj (running.symm.trans (phase₁.trans phase))
      obtain rfl := (Kernel.make_processes made).2.1
      cases ChildState.stepped add with
      | addAborts adding taken =>
          rw [(consistent.registered.adding _ _ adding).2] at taken
          contradiction
      | @add other caller'' adding free =>
          obtain ⟨rfl, rfl⟩ := Phase.adding.inj (adding.symm.trans phase₃)
          have handlers : third.handler = machine.children.handler :=
            handler₃.trans handler₁
          refine ⟨_, (toSecond.trans toThird).trans (.single add nofun), rfl,
            ?_, rfl, rfl, ?_⟩
          · rw [← handlers]
            exact free
          · simp only [handlers]

/-- The operations, next to those that are still to be launched. -/
structure Linked (machine : Machine n) (todo : List (Fin n)) : Prop where
  ran : Ran machine.children
  directed : machine.ctx.state.Directed
  busy : Launched (fun t => (machine.operations t).isSome)
    machine.ctx.state.busy todo
  registered : ∀ t process, machine.operations t = some process →
    machine.children.handler.handlers process.pid = some process.child
  owned : ∀ pid child, machine.children.handler.handlers pid = some child →
    ∃ t, machine.operations t = some ⟨pid, child⟩
  once : ∀ t other process, machine.operations t = some process →
    machine.operations other = some process → t = other

theorem Linked.launch {launch : Launch} {todo : List (Fin n)}
    (linked : machine.Linked (t :: todo))
    (phase : machine.children.phase = .running caller)
    (launched : machine.launch t launch = some after) :
    after.Linked todo ∧ after.children.phase = .running caller := by
  obtain ⟨process, advances, phase', free, ctx, operations, handlers⟩ :=
    launch_spec linked.ran phase launched
  obtain ⟨unlisted, nodup⟩ := List.nodup_cons.mp linked.busy.nodup
  have unused : ∀ other, machine.operations other ≠ some process :=
    fun other holds => by
      rw [linked.registered other process holds] at free
      contradiction
  refine ⟨⟨linked.ran.advances advances, ?_, ⟨nodup, ?_, ?_⟩, ?_, ?_, ?_⟩,
    phase'⟩
  · rw [ctx]
    exact linked.directed
  · intro other member
    rw [operations, Function.update_of_ne]
    · exact linked.busy.fresh other (List.mem_cons_of_mem t member)
    · rintro rfl
      exact unlisted member
  · intro other
    rw [ctx, linked.busy.after, operations]
    by_cases here : other = t
    · subst other
      simp
    · simp [here]
  · intro other held holds
    rw [operations] at holds
    rw [handlers]
    by_cases here : other = t
    · subst other
      rw [Function.update_self] at holds
      obtain rfl := Option.some.inj holds
      exact Function.update_self ..
    · rw [Function.update_of_ne here] at holds
      have handled := linked.registered other held holds
      refine (Function.update_of_ne ?_ ..).trans handled
      intro pid
      rw [pid, free] at handled
      contradiction
  · intro pid child handled
    rw [handlers] at handled
    rw [operations]
    by_cases here : pid = process.pid
    · subst pid
      rw [Function.update_self] at handled
      obtain rfl := Option.some.inj handled
      exact ⟨t, Function.update_self ..⟩
    · rw [Function.update_of_ne here] at handled
      obtain ⟨other, holds⟩ := linked.owned pid child handled
      refine ⟨other, (Function.update_of_ne ?_ ..).trans holds⟩
      rintro rfl
      have idle := linked.busy.fresh other List.mem_cons_self
      rw [holds] at idle
      contradiction
  · intro first second held holds holds'
    rw [operations] at holds holds'
    by_cases here : first = t <;> by_cases there : second = t
    · exact here.trans there.symm
    · rw [here, Function.update_self] at holds
      rw [Function.update_of_ne there, ← holds] at holds'
      exact absurd holds' (unused second)
    · rw [there, Function.update_self] at holds'
      rw [Function.update_of_ne here, ← holds'] at holds
      exact absurd holds (unused first)
    · rw [Function.update_of_ne here] at holds
      rw [Function.update_of_ne there] at holds'
      exact linked.once first second held holds holds'

theorem Linked.launchAll {todo : List (Fin n)} {launches : List Launch}
    (linked : machine.Linked todo)
    (phase : machine.children.phase = .running caller)
    (launched : machine.launchAll todo launches = some after) :
    after.Linked [] ∧ after.children.phase = .running caller ∧
      after.ctx = machine.ctx ∧ Advances machine.children after.children := by
  induction todo generalizing machine launches with
  | nil =>
      cases launches with
      | nil =>
          obtain rfl := Option.some.inj launched
          exact ⟨linked, phase, rfl, .refl _⟩
      | cons launch launches => contradiction
  | cons t todo induction =>
      cases launches with
      | nil => contradiction
      | cons launch launches =>
          rw [Machine.launchAll, if_neg (by rw [phase]; exact nofun)] at launched
          obtain ⟨middle, first, rest⟩ := Option.bind_eq_some_iff.mp launched
          obtain ⟨linked', phase'⟩ := linked.launch phase first
          obtain ⟨process, advances, -, -, kept, -⟩ :=
            launch_spec linked.ran phase first
          obtain ⟨done, phase'', ctx, advances'⟩ :=
            induction linked' phase' rest
          exact ⟨done, phase'', ctx.trans kept, advances.trans advances'⟩

end Launching

/-! One event. -/

/-- The program is in `epoll_wait` or between two turns of its loop. -/
def Between (machine : Machine n) : Prop :=
  machine.children.phase = .running .outside ∨
    machine.children.phase = .reaping

/-- What a step is to the `context`, if it is anything to it. -/
def Matches (graph : TaskGraph n) (environment : Environment n)
    (machine : Machine n) (label : Option (Context.Event n))
    (after : Machine n) : Prop :=
  match label with
  | none => after.ctx = machine.ctx ∧
      Advances machine.children after.children
  | some event => ∃ call,
      machine.ctx.step graph environment event = some call ∧
        after.ctx = call.state ∧
        (Advances machine.children after.children ∨
          call.threw = true ∧ ∃ t, event = .childExited t)

/-- The operation that waits for a child. -/
def waiting (child : Option ChildStatus) (machine : Machine n) :
    Option (Fin n) :=
  child.bind fun status => machine.owner status.process

def Event.effect (event : Event n) (machine : Machine n) :
    Option (Context.Event n) :=
  match event with
  | .called event _ => some event
  | .reap child _ => (machine.waiting child).map .childExited
  | .kernel _ | .deliver => none

section Steps

variable {graph : TaskGraph n} {environment : Environment n}
  {machine after : Machine n} {process : Process}

theorem Linked.of_children {todo : List (Fin n)} {children : ChildState}
    (linked : machine.Linked todo) (ran : Ran children)
    (handler : children.handler = machine.children.handler) :
    { machine with children := children }.Linked todo where
  ran := ran
  directed := linked.directed
  busy := linked.busy
  registered t process holds := by
    rw [handler]
    exact linked.registered t process holds
  owned pid child handled := by
    rw [handler] at handled
    exact linked.owned pid child handled
  once := linked.once

theorem Linked.busy_eq (linked : machine.Linked []) :
    machine.ctx.state.busy = fun t => (machine.operations t).isSome := by
  funext t
  rw [linked.busy.after]
  simp

theorem Linked.owner (linked : machine.Linked [])
    (found : machine.children.handler.handlers process.pid =
      some process.child) :
    ∃ t, machine.owner process = some t ∧
      machine.operations t = some process := by
  obtain ⟨t, holds⟩ := linked.owned process.pid process.child found
  cases searched : machine.owner process with
  | none =>
      have missing := List.find?_eq_none.mp searched t (List.mem_finRange t)
      exact absurd (beq_iff_eq.mpr holds) missing
  | some other =>
      have held : (machine.operations other == some process) = true :=
        List.find?_some (p := fun t => machine.operations t == some process)
          searched
      exact ⟨other, rfl, beq_iff_eq.mp held⟩

/-- The operation is reset, and what is launched next is still to come. -/
theorem Linked.reset (linked : machine.Linked []) {t : Fin n}
    (holds : machine.operations t = some process) {call : ContextCall n}
    (stepped : machine.ctx.step graph environment (.childExited t) = some call)
    (ran : Ran after.children) (ctx : after.ctx = call.state)
    (operations : after.operations =
      Function.update machine.operations t none)
    (handlers : after.children.handler.handlers = Function.update
      machine.children.handler.handlers process.pid none) :
    after.Linked (launchedTasks call.log) := by
  obtain ⟨launched, directed⟩ := Context.childExited_launched stepped
  have others : ∀ other held, after.operations other = some held →
      other ≠ t ∧ machine.operations other = some held := by
    intro other held holds'
    rw [operations] at holds'
    by_cases same : other = t
    · rw [same, Function.update_self] at holds'
      contradiction
    · rw [Function.update_of_ne same] at holds'
      exact ⟨same, holds'⟩
  have freed : (fun other => (after.operations other).isSome) =
      Function.update machine.ctx.state.busy t false := by
    funext other
    rw [linked.busy_eq, operations]
    by_cases same : other = t
    · subst other
      simp
    · simp [same]
  refine ⟨ran, ?_, ?_, ?_, ?_, ?_⟩
  · rw [ctx]
    exact directed linked.directed
  · rw [freed, ctx]
    exact launched
  · intro other held holds'
    obtain ⟨different, held'⟩ := others other held holds'
    have handled := linked.registered other held held'
    rw [handlers]
    refine (Function.update_of_ne (fun same => different ?_) ..).trans handled
    have first := linked.registered t process holds
    rw [← same, handled] at first
    obtain ⟨pid, child⟩ := held
    obtain ⟨pid', child'⟩ := process
    obtain rfl : pid = pid' := same
    obtain rfl : child = child' := Option.some.inj first
    exact linked.once other t _ held' holds
  · intro pid child handled
    rw [handlers] at handled
    by_cases same : pid = process.pid
    · rw [same, Function.update_self] at handled
      contradiction
    · rw [Function.update_of_ne same] at handled
      obtain ⟨other, holds'⟩ := linked.owned pid child handled
      refine ⟨other, ?_⟩
      rw [operations, Function.update_of_ne ?_]
      · exact holds'
      · rintro rfl
        rw [holds] at holds'
        exact same (congrArg Process.pid (Option.some.inj holds')).symm
  · exact fun first second held holds₁ holds₂ =>
      linked.once first second held (others first held holds₁).2
        (others second held holds₂).2

theorem Linked.told (linked : machine.Linked []) {event : Context.Event n}
    (notExited : ∀ t, event ≠ .childExited t) {call : ContextCall n}
    (stepped : machine.ctx.step graph environment event = some call) :
    { machine with ctx := call.state }.Linked (launchedTasks call.log) := by
  have launches := Context.step_launches notExited stepped
  refine ⟨linked.ran, launches.directed linked.directed, ?_,
    linked.registered, linked.owned, linked.once⟩
  rw [← linked.busy_eq]
  exact launches.launched

/-- A callback that is due finds its operation. -/
theorem Linked.called_back (linked : machine.Linked []) (graph : TaskGraph n)
    (environment : Environment n)
    (phase : machine.children.phase = .removing process) :
    ∃ t call,
      machine.children.handler.handlers process.pid = some process.child ∧
        machine.owner process = some t ∧
        machine.operations t = some process ∧
        machine.ctx.step graph environment (.childExited t) = some call := by
  have found := (linked.ran.consistent.registered.removing process phase).1
  obtain ⟨t, owner, holds⟩ := linked.owner found
  have busy : machine.ctx.state.busy t = true := by
    rw [linked.busy_eq]
    exact Option.isSome_iff_exists.mpr ⟨process, holds⟩
  obtain ⟨call, stepped⟩ :=
    Context.exists_childExited graph environment linked.directed busy
  exact ⟨t, call, found, owner, holds, stepped⟩

/-- A callback finds its operation, and no assertion of it fails. -/
theorem Linked.callback {launches : List Launch} (linked : machine.Linked [])
    (phase : machine.children.phase = .removing process)
    (called : machine.callback graph environment process launches =
      some after) :
    after.Linked [] ∧ after.Between ∧ ∃ t,
      machine.operations t = some process ∧
        Matches graph environment machine (some (.childExited t)) after := by
  obtain ⟨t, call, found, owner, holds, stepped⟩ :=
    linked.called_back graph environment phase
  simp only [Machine.callback, owner, stepped, Option.bind_eq_bind,
    Option.bind_eq_some_iff] at called
  obtain ⟨children, removed, last, launched, ends⟩ := called
  have remove : ChildState.next .remove machine.children = some children :=
    removed
  have ran := linked.ran.next remove
  obtain ⟨handlers, running⟩ : children.handler.handlers = Function.update
      machine.children.handler.handlers process.pid none ∧
        children.phase = .running .callback := by
    cases ChildState.stepped remove with
    | removeAborts removing missing =>
        obtain rfl := Phase.removing.inj (removing.symm.trans phase)
        rw [found] at missing
        contradiction
    | remove removing _ =>
        obtain rfl := Phase.removing.inj (removing.symm.trans phase)
        exact ⟨rfl, rfl⟩
  have reset : Linked ⟨call.state, children,
      Function.update machine.operations t none⟩ (launchedTasks call.log) :=
    linked.reset holds stepped ran rfl rfl handlers
  obtain ⟨done, phase', ctx, advances⟩ := reset.launchAll running launched
  have toLast := (Advances.single remove nofun).trans advances
  rw [if_neg (by rw [phase']; exact nofun)] at ends
  split at ends
  · next threw =>
      obtain ⟨children', thrown, same⟩ := Option.bind_eq_some_iff.mp ends
      obtain rfl := Option.some.inj same
      have throw : ChildState.next .throw last.children = some children' :=
        thrown
      obtain ⟨handler, outside⟩ : children'.handler = last.children.handler ∧
          children'.phase = .running .outside := by
        cases ChildState.stepped throw with
        | throw _ => exact ⟨rfl, rfl⟩
      exact ⟨done.of_children (done.ran.next throw) handler, .inl outside, t,
        holds, call, stepped, ctx, .inr ⟨threw, t, rfl⟩⟩
  · obtain ⟨children', finished, same⟩ := Option.bind_eq_some_iff.mp ends
    obtain rfl := Option.some.inj same
    have finish : ChildState.next .finish last.children = some children' :=
      finished
    obtain ⟨handler, reaping⟩ : children'.handler = last.children.handler ∧
        children'.phase = .reaping := by
      cases ChildState.stepped finish with
      | finish _ => exact ⟨rfl, rfl⟩
    exact ⟨done.of_children (done.ran.next finish) handler, .inr reaping, t,
      holds, call, stepped, ctx, .inl (toLast.trans (.single finish nofun))⟩

theorem Linked.reap {child : Option ChildStatus} {launches : List Launch}
    (linked : machine.Linked [])
    (moved : machine.reap graph environment child launches = some after) :
    after.Linked [] ∧ after.Between ∧ Matches graph environment machine
      ((machine.waiting child).map .childExited) after := by
  obtain ⟨children, turned, moved⟩ := Option.bind_eq_some_iff.mp moved
  have reap : ChildState.next (.reap child) machine.children =
    some children := turned
  have ran := linked.ran.next reap
  have advances : Advances machine.children children := .single reap nofun
  cases ChildState.stepped reap with
  | reapNone phase reaped =>
      obtain rfl := Option.some.inj moved
      exact ⟨linked.of_children ran rfl, .inl rfl, rfl, advances⟩
  | @reapOrphan process status kernel phase reaped missing =>
      have none : machine.waiting (some ⟨process, status⟩) = none := by
        refine List.find?_eq_none.mpr fun t _ holds => ?_
        have handled := linked.registered t process (beq_iff_eq.mp holds)
        rw [missing] at handled
        contradiction
      dsimp only at moved
      split at moved
      · next process removing =>
          rw [removing] at phase
          contradiction
      · obtain rfl := Option.some.inj moved
        rw [none]
        exact ⟨linked.of_children ran rfl, .inr phase, rfl, advances⟩
  | @reapChild process status kernel waitChild phase reaped found =>
      obtain ⟨-, -, same⟩ := Kernel.reapChild_some reaped
      obtain rfl := linked.ran.consistent.registered.eq_of_found
        linked.ran.consistent.recorded.sound phase
        (same.mem_iff.mpr List.mem_cons_self) found
      have kept := linked.of_children ran rfl
      obtain ⟨done, between, t, holds, call, stepped, ctx, calm⟩ :=
        kept.callback rfl moved
      obtain ⟨other, owner, holds'⟩ := linked.owner found
      obtain rfl := linked.once other t process holds' holds
      rw [show machine.waiting (some ⟨process, status⟩) = some other from owner]
      exact ⟨done, between, call, stepped, ctx, calm.imp_left advances.trans⟩

theorem called_cases {event : Context.Event n} {launches : List Launch}
    (called : machine.called graph environment event launches = some after) :
    machine.children.phase = .running .outside ∧
      (∀ t, event ≠ .childExited t) ∧
      ∃ call, machine.ctx.step graph environment event = some call ∧
        { machine with ctx := call.state }.launchAll (launchedTasks call.log)
          launches = some after := by
  unfold Machine.called at called
  split at called
  · contradiction
  · next outside notExited =>
      exact ⟨outside, fun t => notExited t,
        Option.bind_eq_some_iff.mp called⟩
  · contradiction

/-- Every event leaves the machine between two events again, and is to the
`context` the event that it should be, or nothing. -/
theorem Linked.next {event : Event n} (linked : machine.Linked [])
    (between : machine.Between)
    (moved : machine.next graph environment event = some after) :
    after.Linked [] ∧ after.Between ∧
      Matches graph environment machine (event.effect machine) after := by
  cases event with
  | kernel move =>
      obtain ⟨children, happened, same⟩ := Option.bind_eq_some_iff.mp moved
      obtain rfl := Option.some.inj same
      obtain ⟨phase, handler⟩ := kernelMove_kept happened
      refine ⟨linked.of_children (linked.ran.next happened) handler, ?_, rfl,
        .single happened (kernelMove_calm move)⟩
      exact between.imp phase.trans phase.trans
  | called event launches =>
      obtain ⟨outside, notExited, call, stepped, launched⟩ := called_cases moved
      obtain ⟨done, phase, ctx, advances⟩ :=
        (linked.told notExited stepped).launchAll outside launched
      exact ⟨done, .inl phase, call, stepped, ctx, .inl advances⟩
  | deliver =>
      obtain ⟨children, delivered, same⟩ := Option.bind_eq_some_iff.mp moved
      obtain rfl := Option.some.inj same
      have deliver : ChildState.next .deliver machine.children =
        some children := delivered
      obtain ⟨handler, reaping⟩ : children.handler = machine.children.handler ∧
          children.phase = .reaping := by
        cases ChildState.stepped deliver with
        | deliver _ _ => exact ⟨rfl, rfl⟩
      exact ⟨linked.of_children (linked.ran.next deliver) handler,
        .inr reaping, rfl, .single deliver nofun⟩
  | reap child launches => exact linked.reap moved

end Steps

/-! All runs. -/

end Machine

/-- The machine from the end of the constructor of `context` on. -/
def machineSystem {n : Nat} (descriptions : TaskDescriptions n)
    (allowed : Environment n → Prop) : StepSystem (Machine n) where
  init machine := ∃ environment call launches,
    allowed environment ∧
      descriptions.initdState.setRunLevel descriptions.graph environment
        defaultRunLevel = some call ∧
      call.threw = false ∧
      Machine.launchAll (launchedTasks call.log) launches
        ⟨⟨.running, call.state⟩, .boot, fun _ => none⟩ = some machine
  step before after := ∃ environment event,
    allowed environment ∧
      before.next descriptions.graph environment event = some after

namespace Machine

variable {n : Nat} {descriptions : TaskDescriptions n}
  {allowed : Environment n → Prop} {machine : Machine n}

theorem linked_boot {environment : Environment n} {call : Call n}
    (changed : descriptions.initdState.setRunLevel descriptions.graph
      environment defaultRunLevel = some call) :
    Linked ⟨⟨.running, call.state⟩, .boot, fun _ => none⟩
      (launchedTasks call.log) := by
  have stepped : descriptions.initdState.step descriptions.graph environment
    (.setRunLevel defaultRunLevel) = some call := changed
  have launches := InitdState.runLevel_launches rfl stepped
  refine ⟨⟨[], rfl⟩, launches.directed fun t => ?_, ?_, nofun, nofun, nofun⟩
  · rw [descriptions.initdState_handle]
    exact AsyncTaskHandle.directed_create _
  · have idle : descriptions.initdState.busy = fun _ => false := by
      funext t
      simp [InitdState.busy]
    exact idle ▸ launches.launched

theorem reachable_linked
    (reached : (machineSystem descriptions allowed).Reachable machine) :
    machine.Linked [] ∧ machine.Between ∧
      (contextSystem descriptions allowed).Reachable machine.ctx := by
  refine reached.invariant (fun machine => machine.Linked [] ∧
    machine.Between ∧ (contextSystem descriptions allowed).Reachable
      machine.ctx) ?_ ?_
  · rintro machine ⟨environment, call, launches, permitted, changed, returned,
      launched⟩
    obtain ⟨linked, phase, ctx, -⟩ :=
      (linked_boot changed).launchAll rfl launched
    refine ⟨linked, .inl phase, .init ⟨environment, call, permitted, changed,
      returned, ctx⟩⟩
  · rintro before after - ⟨linked, between, reached⟩
      ⟨environment, event, permitted, moved⟩
    obtain ⟨linked', between', matched⟩ := linked.next between moved
    refine ⟨linked', between', ?_⟩
    cases effect : event.effect before with
    | none =>
        rw [effect] at matched
        exact matched.1 ▸ reached
    | some event =>
        rw [effect] at matched
        obtain ⟨call, stepped, ctx, -⟩ := matched
        exact reached.step ⟨environment, event, call, permitted, stepped,
          ctx.symm⟩

/-- Every run of the machine is a run of the `context` next to one of the
children, in which no assertion fails: the operations in flight have one
`wait_child` each, of a child that is not reaped yet, there are no others, and
to reap a child is to complete the operation that waits for it, or nothing. -/
theorem machine_refines
    (reached : (machineSystem descriptions allowed).Reachable machine) :
    (contextSystem descriptions allowed).Reachable machine.ctx ∧
      (∃ actions, ChildState.run actions = some machine.children) ∧
      machine.children.phase ≠ .aborted ∧
      (∀ t, (machine.ctx.state.tasks t).handle.isInTransition = true ↔
        ∃ process ∈ machine.children.kernel.processes,
          machine.operations t = some process) ∧
      (∀ pid child, machine.children.handler.handlers pid = some child ↔
        ∃! t, machine.operations t = some ⟨pid, child⟩) ∧
      ∀ environment event after,
        machine.next descriptions.graph environment event = some after →
          Matches descriptions.graph environment machine
            (event.effect machine) after := by
  obtain ⟨linked, between, inContext⟩ := reachable_linked reached
  have free : machine.children.phase.isRemoving = false := by
    rcases between with outside | reaping
    · rw [outside]
      rfl
    · rw [reaping]
      rfl
  refine ⟨inContext, linked.ran, linked.ran.consistent.registered.asserted,
    fun t => ?_, fun pid child => ⟨fun handled => ?_, fun unique => ?_⟩, ?_⟩
  · have busy := congrFun linked.busy_eq t
    unfold InitdState.busy at busy
    rw [busy, Option.isSome_iff_exists]
    constructor
    · rintro ⟨process, holds⟩
      exact ⟨process, linked.ran.consistent.registered.present free
        (linked.registered t process holds), holds⟩
    · rintro ⟨process, -, holds⟩
      exact ⟨process, holds⟩
  · obtain ⟨t, holds⟩ := linked.owned pid child handled
    exact ⟨t, holds, fun other holds' => linked.once other t _ holds' holds⟩
  · obtain ⟨t, holds, -⟩ := unique
    exact linked.registered t ⟨pid, child⟩ holds
  · exact fun environment event after moved => (linked.next between moved).2.2

def run (graph : TaskGraph n) (environment : Environment n)
    (schedule : List (Event n)) (machine : Machine n) : Option (Machine n) :=
  StepSystem.run (fun event machine => machine.next graph environment event)
    schedule machine

/-- Right after its construction, over `serviceOverControl`. -/
def serviceBooting : Machine 2 :=
  ⟨startContext, .boot, fun _ => none⟩

theorem serviceBooting_reachable {allowed : Environment 2 → Prop}
    (permitted : allowed answering) :
    (machineSystem serviceOverControl allowed).Reachable serviceBooting :=
  .init ⟨answering, (serviceOverControl.initdState.setRunLevel
    serviceOverControl.graph answering defaultRunLevel).get (by decide), [],
    permitted, (Option.some_get _).symm, by decide, rfl⟩

/-- Its service was launched with the pid 7, and has exited since. -/
def serviceExited : Machine 2 :=
  (serviceBooting.run serviceOverControl.graph answering
    [.called (.callbackDelivered controlTask) [⟨[.adopt 5], 7, []⟩],
      .kernel (.exit ⟨7, 1⟩ 0), .deliver]).get (by decide)

theorem reachable_of_run {allowed : Environment n → Prop}
    {environment : Environment n} {schedule : List (Event n)}
    {before after : Machine n} (permitted : allowed environment)
    (reached : (machineSystem descriptions allowed).Reachable before)
    (ran : before.run descriptions.graph environment schedule = some after) :
    (machineSystem descriptions allowed).Reachable after := by
  refine reached.run (fun event _ _ _ moved => ?_) ran
  exact ⟨environment, event, permitted, moved⟩

theorem machine_refines_serviceExited :
    serviceExited.children.phase ≠ .aborted ∧
      ∀ environment event after,
        serviceExited.next serviceOverControl.graph environment event =
            some after →
          Matches serviceOverControl.graph environment serviceExited
            (event.effect serviceExited) after := by
  have reached : (machineSystem serviceOverControl fun _ => True).Reachable
      serviceExited :=
    reachable_of_run trivial (serviceBooting_reachable trivial)
      (Option.some_get _).symm
  obtain ⟨-, -, asserted, -, -, completes⟩ := machine_refines reached
  exact ⟨asserted, completes⟩

end Machine

end Initd
