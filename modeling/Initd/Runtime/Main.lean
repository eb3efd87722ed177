import Initd.Runtime.Operations

namespace Initd

open Library

/-! `main` of the init process. -/

inductive SystemCall
  | sync
  | reboot
  | powerOff
  deriving DecidableEq, Repr

/-- What follows the `try` block, by the state that it leaves and the pid of
the process.  There is no result where an assertion fails. -/
def finish (pid : Nat) (exitState : Target) : Option (List SystemCall) :=
  if pid = 1 then
    match exitState with
    | .running => none
    | .reboot => some [.sync, .reboot]
    | .powerOff => some [.sync, .powerOff]
  else
    some []

/-- `left` is after the `try` block, where `aborted` never comes. -/
inductive MainState (n : Nat)
  | looping (ctx : Context n)
  | left (exitState : Target)
  | aborted

namespace InitdState

variable {n : Nat}

/-- The assertions of all destructors. -/
def mayBeDestroyed (state : InitdState n) : Bool :=
  (List.finRange n).all fun t =>
    match (state.tasks t).handle with
    | .startStop task => task.mayBeDestroyed
    | .sync _ => true

end InitdState

namespace MainState

variable {n : Nat}

/-- The end of a scope that holds the tasks. -/
def leave (exitState : Target) (state : InitdState n) : MainState n :=
  if state.mayBeDestroyed then left exitState else aborted

/-- The constructor of `context` from its call of `set_run_level` on. -/
def construct (descriptions : TaskDescriptions n)
    (environment : Environment n) : Option (MainState n) :=
  (descriptions.initdState.setRunLevel descriptions.graph environment
    defaultRunLevel).map fun call =>
      if call.threw then
        leave .reboot call.state
      else
        looping ⟨.running, call.state⟩

inductive Event (n : Nat)
  | waited (event : Context.Event n)
  | waitThrows
  | loopEnds
  deriving DecidableEq, Repr

def next (graph : TaskGraph n) (environment : Environment n)
    (event : Event n) : MainState n → Option (MainState n)
  | looping ctx =>
      match event, ctx.isActive with
      | .waited event, true =>
          (ctx.step graph environment event).map fun call => looping call.state
      | .waitThrows, true => some (leave .reboot ctx.state)
      | .loopEnds, false => some (leave ctx.target ctx.state)
      | _, _ => none
  | left _ | aborted => none

end MainState

/-- The runs of `main`.  Where the descriptions are not read, or something
throws before there is a task, the process goes on to reboot. -/
def mainSystem {n : Nat} (descriptions : TaskDescriptions n)
    (allowed : Environment n → Prop) : StepSystem (MainState n) where
  init start := start = .left .reboot ∨ ∃ environment,
    allowed environment ∧
      MainState.construct descriptions environment = some start
  step before after := ∃ environment event,
    allowed environment ∧
      before.next descriptions.graph environment event = some after

namespace InitdState

variable {n : Nat} {state : InitdState n}

theorem mayBeDestroyed_iff :
    state.mayBeDestroyed = true ↔ ∀ t task,
      (state.tasks t).handle = .startStop task →
        task.running = false ∧ task.isInTransition = false := by
  simp only [mayBeDestroyed, List.all_eq_true, List.mem_finRange, true_imp_iff]
  refine forall_congr' fun t => ?_
  cases (state.tasks t).handle with
  | startStop task =>
      simp [AsyncStartStopTask.mayBeDestroyed, AsyncStartStopTask.isInTransition]
  | sync adaptor => simp

/-- No start-stop task runs. -/
def NoneRuns (state : InitdState n) : Prop :=
  ∀ t task, (state.tasks t).handle = .startStop task → task.running = false

theorem NoneRuns.enqueueAll (none : state.NoneRuns)
    (environment : Environment n) (tts : List (Fin n)) :
    (enqueueAll environment tts state).state.NoneRuns := by
  refine Outcome.forEach_invariant NoneRuns (fun t _ state none => ?_) none
  have told : ∀ s, (state.modify t fun task => { task with
      handle := (task.handle.setShouldWork (environment t) s).1 }).NoneRuns := by
    intro s other task kind
    by_cases same : other = t
    · subst other
      rw [modify_self] at kind
      cases before : (state.tasks t).handle with
      | sync adaptor =>
          simp [before, AsyncTaskHandle.setShouldWork] at kind
      | startStop old =>
          simp only [before, AsyncTaskHandle.setShouldWork,
            AsyncTaskHandle.startStop.injEq] at kind
          rw [← kind, AsyncStartStopTask.setShouldWork_running]
          exact none t old before
    · rw [modify_of_ne _ same] at kind
      exact none other task kind
  rcases enqueueThis_cases with ⟨-, equal⟩ | ⟨-, equal⟩ | ⟨-, -, equal⟩ <;>
    rw [equal]
  · rw [setShouldWork_state]
    exact told true
  · rw [setShouldWork_state]
    exact told false
  · exact none

/-- After the first change of the run level, the tasks may be destroyed exactly
if it launched nothing. -/
theorem mayBeDestroyed_first_iff {descriptions : TaskDescriptions n}
    {environment : Environment n} {runLevelName : Bytes} {call : Call n}
    (changed : descriptions.initdState.setRunLevel descriptions.graph
      environment runLevelName = some call) :
    call.state.mayBeDestroyed = true ↔ launchedTasks call.log = [] := by
  have stepped : descriptions.initdState.step descriptions.graph environment
    (.setRunLevel runLevelName) = some call := changed
  have launched := (runLevel_launches rfl stepped).launched
  have idle : ∀ t, descriptions.initdState.busy t = false := fun t => by
    simp [busy]
  have none : call.state.NoneRuns := by
    have start : ∀ selected : InitdState n, (∀ t, (selected.tasks t).handle =
        (descriptions.initdState.tasks t).handle) → selected.NoneRuns := by
      intro selected handles t task kind
      rw [handles, descriptions.initdState_handle] at kind
      have stopped := AsyncTaskHandle.createAsyncTaskHandle_isRunning
        (descriptions.allTasks t).data
      rw [kind] at stopped
      exact stopped
    unfold setRunLevel at changed
    split at changed
    · obtain rfl := Option.some.inj changed
      exact start _ fun _ => rfl
    · obtain ⟨selected, selects, rfl⟩ := Option.map_eq_some_iff.mp changed
      exact (start selected (selectRunLevel_selected selects).handle).enqueueAll
        environment _
  rw [mayBeDestroyed_iff]
  constructor
  · intro allowed
    refine List.eq_nil_iff_forall_not_mem.mpr fun t member => ?_
    have busy := launched.after t
    rw [decide_eq_true member, Bool.or_true] at busy
    cases kind : (call.state.tasks t).handle with
    | sync adaptor =>
        rw [InitdState.busy, kind] at busy
        contradiction
    | startStop task =>
        rw [InitdState.busy, kind] at busy
        exact Bool.false_ne_true ((allowed t task kind).2.symm.trans busy)
  · intro empty t task kind
    refine ⟨none t task kind, ?_⟩
    have busy := launched.after t
    rw [empty, idle, InitdState.busy, kind] at busy
    exact busy.trans (by simp)

end InitdState

namespace MainState

variable {n : Nat} {descriptions : TaskDescriptions n}

theorem leave_cases (exitState : Target) (state : InitdState n) :
    (leave exitState state = .left exitState ↔
        state.mayBeDestroyed = true) ∧
      (leave exitState state = .aborted ↔ state.mayBeDestroyed = false) := by
  unfold leave
  cases state.mayBeDestroyed <;> simp

/-- What a state of `main` is worth: in the loop it is that of a reachable
`context`, and after it `finish` meets no assertion. -/
def Expected (descriptions : TaskDescriptions n)
    (allowed : Environment n → Prop) : MainState n → Prop
  | looping ctx => (contextSystem descriptions allowed).Reachable ctx
  | left exitState => exitState ≠ .running
  | aborted => True

theorem expected_leave {allowed : Environment n → Prop} {exitState : Target}
    (state : InitdState n) (heads : exitState ≠ .running) :
    Expected descriptions allowed (leave exitState state) := by
  unfold leave
  split
  · exact heads
  · trivial

theorem target_of_inactive {ctx : Context n} (ends : ctx.isActive = false) :
    ctx.target ≠ .running := by
  intro running
  simp [Context.isActive, running] at ends

theorem Expected.next {allowed : Environment n → Prop} {before after : MainState n}
    (expected : Expected descriptions allowed before)
    {environment : Environment n} (permitted : allowed environment)
    {event : Event n}
    (moved : before.next descriptions.graph environment event = some after) :
    Expected descriptions allowed after := by
  cases before with
  | left exitState => contradiction
  | aborted => contradiction
  | looping ctx =>
      simp only [MainState.next] at moved
      split at moved
      · obtain ⟨call, stepped, rfl⟩ := Option.map_eq_some_iff.mp moved
        exact StepSystem.Reachable.step expected
          ⟨environment, _, call, permitted, stepped, rfl⟩
      · obtain rfl := Option.some.inj moved
        exact expected_leave _ (by decide)
      · next ends =>
          obtain rfl := Option.some.inj moved
          exact expected_leave _ (target_of_inactive ends)
      · contradiction

theorem reachable_expected {allowed : Environment n → Prop} {main : MainState n}
    (reached : (mainSystem descriptions allowed).Reachable main) :
    Expected descriptions allowed main := by
  refine reached.invariant (Expected descriptions allowed) ?_ ?_
  · rintro _ (rfl | ⟨environment, permitted, constructed⟩)
    · exact nofun
    · obtain ⟨call, changed, rfl⟩ := Option.map_eq_some_iff.mp constructed
      split
      · exact expected_leave _ (by decide)
      · next returned =>
          exact .init ⟨environment, call, permitted, changed,
            Bool.not_eq_true _ ▸ returned, rfl⟩
  · rintro before after - expected ⟨environment, event, permitted, moved⟩
    exact expected.next permitted moved

/-- The loop ends only over tasks that are all down. -/
theorem down_of_inactive {allowed : Environment n → Prop} {ctx : Context n}
    (reached : (contextSystem descriptions allowed).Reachable ctx)
    (ends : ctx.isActive = false) (t : Fin n) :
    (ctx.state.tasks t).affectDependencies = false := by
  have sound := Context.reachable_sound reached
  obtain ⟨-, none⟩ : ctx.target ≠ .running ∧ ctx.state.pendingTasks = 0 := by
    simpa [Context.isActive, InitdState.hasPendingOperations] using ends
  obtain ⟨idle, agrees⟩ := sound.safe.agrees none t
  rw [sound.unwanted (target_of_inactive ends) t] at agrees
  rw [Task.affectDependencies, idle, agrees, Bool.or_false]

theorem mayBeDestroyed_iff_down {state : InitdState n} :
    state.mayBeDestroyed = true ↔ ∀ t task,
      (state.tasks t).handle = .startStop task →
        (state.tasks t).affectDependencies = false := by
  rw [InitdState.mayBeDestroyed_iff]
  refine forall_congr' fun t => forall_congr' fun task => ?_
  refine forall_congr' fun kind => ?_
  rw [Task.affectDependencies, kind, Bool.or_eq_false_iff]
  rfl

/-- The process ends in a reboot or a power-off and never aborts, but for two
cases: the constructor throws after it launched something, or `epoll_wait`
fails while a start-stop task is up or has an operation in flight. -/
theorem main_exits (descriptions : TaskDescriptions n)
    (allowed : Environment n → Prop) :
    (∀ exitState,
      (mainSystem descriptions allowed).Reachable (.left exitState) →
        ∀ pid, (finish pid exitState).isSome = true) ∧
      (∀ environment call,
        descriptions.initdState.setRunLevel descriptions.graph environment
            defaultRunLevel = some call →
          (construct descriptions environment = some .aborted ↔
            call.threw = true ∧ launchedTasks call.log ≠ [])) ∧
      ∀ ctx, (mainSystem descriptions allowed).Reachable (.looping ctx) →
        (ctx.isActive = false → ∀ environment,
          next descriptions.graph environment .loopEnds (.looping ctx) =
              some (.left ctx.target) ∧
            ∀ t, (ctx.state.tasks t).affectDependencies = false) ∧
        (ctx.isActive = true → ∀ environment,
          (next descriptions.graph environment .waitThrows (.looping ctx) =
              some .aborted ↔
            ∃ t task, (ctx.state.tasks t).handle = .startStop task ∧
              (ctx.state.tasks t).affectDependencies = true)) := by
  refine ⟨fun exitState reached pid => ?_, fun environment call changed => ?_,
    fun ctx reached => ⟨fun ends environment => ?_, fun active environment => ?_⟩⟩
  · have heads : exitState ≠ .running := reachable_expected reached
    unfold finish
    split
    · cases exitState with
      | running => exact absurd rfl heads
      | reboot => rfl
      | powerOff => rfl
    · rfl
  · have destroyed := InitdState.mayBeDestroyed_first_iff changed
    simp only [construct, changed, Option.map_some, Option.some.injEq]
    cases threw : call.threw with
    | false => simp
    | true =>
        rw [if_pos rfl, (leave_cases .reboot call.state).2,
          ← Bool.not_eq_true, destroyed]
        simp
  · have down := down_of_inactive (reachable_expected reached) ends
    refine ⟨?_, down⟩
    simp only [next, ends]
    exact congrArg some ((leave_cases _ _).1.mpr
      (mayBeDestroyed_iff_down.mpr fun t _ _ => down t))
  · simp only [next, active, Option.some.injEq]
    rw [(leave_cases _ _).2, ← Bool.not_eq_true, mayBeDestroyed_iff_down]
    simp

def firstService : Fin 2 := ⟨0, Nat.zero_lt_two⟩

def secondService : Fin 2 := ⟨1, Nat.one_lt_two⟩

theorem twoServices_size : 2 < 2 ^ 64 := by decide

/-- Two services that do not depend on each other. -/
def twoServices : TaskDescriptions 2 where
  allTasks t :=
    ⟨if t = firstService then ascii "a" else ascii "b",
      .startStop ⟨⟨⟨ascii "x", []⟩, []⟩, ⟨⟨ascii "y", []⟩, []⟩⟩, []⟩
  runLevelByName := [(defaultRunLevel, [firstService, secondService])]
  dependencies_size := by decide
  tasks_size := twoServices_size

/-- The kernel refuses the second fork. -/
def oneFork : Environment 2 := fun t => ⟨decide (t = firstService), true⟩

def firstCall : Call 2 :=
  (twoServices.initdState.setRunLevel twoServices.graph oneFork
    defaultRunLevel).get (by decide)

theorem main_exits_twoServices :
    construct twoServices oneFork = some .aborted := by
  obtain ⟨-, constructs, -⟩ := main_exits twoServices fun _ => True
  exact (constructs oneFork firstCall (Option.some_get _).symm).mpr (by decide)

end MainState

end Initd
