import Initd.Runtime.Requests

namespace Initd

open Library

/-! What a control message does to the connection that it came over. -/

def Task.enqueued (answers : Answers) (task : Task) : Task :=
  if task.mayStart then
    { task with handle := (task.handle.setShouldWork answers true).1 }
  else if task.mayStop then
    { task with handle := (task.handle.setShouldWork answers false).1 }
  else
    task

namespace InitdState

variable {n : Nat} {environment : Environment n} {state : InitdState n}

theorem enqueueThis_self (t : Fin n) :
    (enqueueThis environment t state).state.tasks t =
      (state.tasks t).enqueued (environment t) := by
  rcases enqueueThis_cases with ⟨may, equal⟩ | ⟨may, equal⟩ |
    ⟨noStart, noStop, equal⟩ <;> rw [equal]
  · rw [setShouldWork_state, modify_self, Task.enqueued, if_pos may]
  · have noStart : (state.tasks t).mayStart ≠ true := by
      rw [ne_eq, Task.mayStart_iff, (Task.mayStop_iff.mp may).2.1]
      simp
    rw [setShouldWork_state, modify_self, Task.enqueued, if_neg noStart,
      if_pos may]
  · simp [Task.enqueued, noStart, noStop, Outcome.done]

theorem enqueueThis_of_ne {t other : Fin n} (different : other ≠ t) :
    (enqueueThis environment t state).state.tasks other =
      state.tasks other := by
  rcases enqueueThis_cases with ⟨-, equal⟩ | ⟨-, equal⟩ | ⟨-, -, equal⟩ <;>
    rw [equal]
  · rw [setShouldWork_state, modify_of_ne _ different]
  · rw [setShouldWork_state, modify_of_ne _ different]
  · rfl

theorem enqueueAll_of_notMem {tts : List (Fin n)} {other : Fin n}
    (outside : other ∉ tts) :
    (enqueueAll environment tts state).state.tasks other =
      state.tasks other := by
  refine Outcome.forEach_invariant
    (fun after : InitdState n => after.tasks other = state.tasks other)
    (fun t member after same => ?_) rfl
  have different : other ≠ t := fun equal => outside (equal ▸ member)
  rw [enqueueThis_of_ne different, same]

theorem enqueueAll_self {tts : List (Fin n)} (nodup : tts.Nodup) {t : Fin n}
    (member : t ∈ tts)
    (returned : (enqueueAll environment tts state).threw = false) :
    (enqueueAll environment tts state).state.tasks t =
      (state.tasks t).enqueued (environment t) := by
  induction tts generalizing state with
  | nil => exact nomatch member
  | cons first rest induction =>
      obtain ⟨fresh, nodup⟩ := List.nodup_cons.mp nodup
      obtain ⟨here, later⟩ := Outcome.bind_returned.mp returned
      have next : (enqueueAll environment (first :: rest) state).state =
          (enqueueAll environment rest
            (enqueueThis environment first state).state).state :=
        Outcome.bind_state here
      rw [next]
      by_cases same : t = first
      · subst first
        rw [enqueueAll_of_notMem fresh, enqueueThis_self]
      · rw [induction nodup ((List.mem_cons.mp member).resolve_left same) later,
          enqueueThis_of_ne same]

theorem enqueueAll_returns (forks : ForksSucceed environment)
    (tts : List (Fin n)) :
    (enqueueAll environment tts state).threw = false := by
  induction tts generalizing state with
  | nil => rfl
  | cons t rest induction =>
      refine Outcome.bind_returned.mpr ⟨?_, induction⟩
      rcases enqueueThis_cases with ⟨-, equal⟩ | ⟨-, equal⟩ | ⟨-, -, equal⟩ <;>
        rw [equal]
      · exact setShouldWork_returns forks t true
      · exact setShouldWork_returns forks t false
      · rfl

/-- Right after a run-level change a task that is up may stop exactly when it
is not selected and nothing that is up depends on it. -/
theorem Selected.mayStop_iff {graph : TaskGraph n} {closure : Fin n → Prop}
    {selected : InitdState n} (selects : Selected graph closure state selected)
    (counters : Counters graph state) {t : Fin n}
    (up : (state.tasks t).affectDependencies = true) :
    (selected.tasks t).mayStop = true ↔
      ¬ (closure t ∨ ∃ dependant, t ∈ graph.dependencies dependant ∧
        (state.tasks dependant).affectDependencies = true) := by
  have same : ∀ other, (selected.tasks other).affectDependencies =
      (state.tasks other).affectDependencies := fun other => by
    simp only [Task.affectDependencies, selects.handle]
  rw [Task.mayStop_iff, same, ← selects.shouldWork, not_or, Bool.not_eq_true]
  constructor
  · rintro ⟨-, unwanted, zero⟩
    refine ⟨unwanted, ?_⟩
    rintro ⟨dependant, edge, above⟩
    have uncounted := (selects.counters counters).runningDependants_eq_zero_iff.mp
      zero dependant edge
    rw [(selects.synced dependant).dependencies, same, above] at uncounted
    contradiction
  · rintro ⟨unwanted, down⟩
    refine ⟨up, unwanted, ?_⟩
    refine runningDependants_eq_zero (selects.counters counters)
      (fun dependant _ => selects.synced dependant) fun dependant edge => ?_
    rw [same]
    by_contra above
    exact down ⟨dependant, edge, by simpa using above⟩

end InitdState

namespace Context

open InitdState

variable {n : Nat}

/-- The message is rejected, or the run level that it selects contains `t`. -/
def KeepsUp (graph : TaskGraph n) (message : ControlMessage) (t : Fin n) :
    Prop :=
  match message with
  | .reboot | .powerOff => False
  | .setRunlevel runlevelName =>
      match graph.runLevels.lookup runlevelName with
      | none => True
      | some requisites => closure graph requisites t

section Dispatch

variable {graph : TaskGraph n} {environment : Environment n} {ctx : Context n}
  {message : ControlMessage}

/-- A dispatch throws at once, or it is an `enqueue_all` over all tasks. -/
theorem dispatch_cases {call : ContextCall n}
    (dispatched : ctx.dispatch graph environment message = some call) :
    (∀ t, KeepsUp graph message t) ∧ call.threw = true ∨
      ∃ selected, Selected graph (KeepsUp graph message) ctx.state selected ∧
        call.threw =
          (enqueueAll environment (List.finRange n) selected).threw ∧
        call.state.state =
          (enqueueAll environment (List.finRange n) selected).state := by
  cases message with
  | reboot =>
      cases Option.some.inj dispatched
      exact .inr ⟨_, setEmptyRunLevel_selected graph ctx.state, rfl, rfl⟩
  | powerOff =>
      cases Option.some.inj dispatched
      exact .inr ⟨_, setEmptyRunLevel_selected graph ctx.state, rfl, rfl⟩
  | setRunlevel runlevelName =>
      obtain ⟨inner, changed, rfl⟩ := Option.map_eq_some_iff.mp dispatched
      simp only [InitdState.setRunLevel] at changed
      cases level : graph.runLevels.lookup runlevelName with
      | none =>
          rw [level] at changed
          cases Option.some.inj changed
          exact .inl ⟨fun t => by simp [KeepsUp, level], rfl⟩
      | some requisites =>
          rw [level] at changed
          obtain ⟨selected, selects, rfl⟩ := Option.map_eq_some_iff.mp changed
          have keeps : KeepsUp graph (.setRunlevel runlevelName) =
              closure graph requisites := by
            funext t
            simp only [KeepsUp, level]
          rw [keeps]
          exact .inr ⟨selected, selectRunLevel_selected selects, rfl, rfl⟩

theorem exists_dispatch (graph : TaskGraph n) (environment : Environment n)
    (ctx : Context n) (message : ControlMessage) :
    ∃ call, ctx.dispatch graph environment message = some call := by
  cases message with
  | reboot => exact ⟨_, rfl⟩
  | powerOff => exact ⟨_, rfl⟩
  | setRunlevel runlevelName =>
      simp only [dispatch, setRunlevel, InitdState.setRunLevel]
      split
      · exact ⟨_, rfl⟩
      · next requisites _ =>
          obtain ⟨selected, selects⟩ :=
            exists_selectRunLevel graph requisites ctx.state
          rw [selects]
          exact ⟨_, rfl⟩

theorem connections_dispatch (counters : Counters graph ctx.state) {t : Fin n}
    {id : Nat} (live : id ∈ (ctx.state.tasks t).handle.connections)
    (running : (ctx.state.tasks t).handle.isRunning = true)
    {call : ContextCall n}
    (dispatched : ctx.dispatch graph environment message = some call)
    (returned : call.threw = false) :
    id ∈ (call.state.state.tasks t).handle.connections ↔
      KeepsUp graph message t ∨ ∃ dependant, t ∈ graph.dependencies dependant ∧
        (ctx.state.tasks dependant).affectDependencies = true := by
  rcases dispatch_cases dispatched with ⟨-, threw⟩ | ⟨selected, selects, ends, after⟩
  · rw [returned] at threw
    contradiction
  · obtain ⟨idle, emptied⟩ := AsyncTaskHandle.connections_cases live
    have up : (ctx.state.tasks t).affectDependencies = true :=
      Task.affectDependencies_iff.mpr (.inl running)
    have noStart : (selected.tasks t).mayStart ≠ true := by
      rw [ne_eq, Task.mayStart_iff, Task.affectDependants, selects.handle,
        running, idle]
      simp
    rw [after, enqueueAll_self (List.nodup_finRange n) (List.mem_finRange t)
      (ends ▸ returned), Task.enqueued, if_neg noStart]
    have stops := selects.mayStop_iff counters up
    split
    · next may =>
        simp only [selects.handle, emptied, List.not_mem_nil, false_iff]
        exact stops.mp may
    · next stays =>
        rw [selects.handle]
        exact iff_of_true live (not_not.mp (mt stops.mpr stays))

end Dispatch

/-- Whether a connection of the control task `t` survives a message on it. -/
def KeepsConnections (graph : TaskGraph n) (message : ControlMessage)
    (t : Fin n) (ctx : Context n) : Prop :=
  KeepsUp graph message t ∨ ∃ dependant, t ∈ graph.dependencies dependant ∧
    (ctx.state.tasks dependant).affectDependencies = true

/-- The handler of a message goes on after the dispatch, but its connection is
not there any more. -/
def Event.Dangling (graph : TaskGraph n) (environment : Environment n)
    (ctx : Context n) : Event n → Prop
  | .messageReceived t id message =>
      ∃ call, ctx.dispatch graph environment message = some call ∧
        call.threw = false ∧
        id ∉ (call.state.state.tasks t).handle.connections
  | _ => False

/-- The runs in which every message meets the condition, each with whether a
handler has gone on with a destroyed connection so far. -/
def messageSystem (descriptions : TaskDescriptions n) :
    StepSystem (Context n × Prop) where
  init start := (contextSystem descriptions fun _ => True).init start.1 ∧
    ¬ start.2
  step before after := ∃ environment event call,
    (∀ t id message, event = .messageReceived t id message →
      KeepsConnections descriptions.graph message t before.1 ∧
        (before.1.state.tasks t).handle.isRunning = true) ∧
      before.1.step descriptions.graph environment event = some call ∧
      after = (call.state, before.2 ∨
        event.Dangling descriptions.graph environment before.1)

theorem messages_project {descriptions : TaskDescriptions n} {ctx : Context n}
    {dangled : Prop}
    (reached : (messageSystem descriptions).Reachable (ctx, dangled)) :
    (contextSystem descriptions fun _ => True).Reachable ctx := by
  refine reached.map Prod.fst ?_ ?_
  · rintro _ ⟨start, -⟩
    exact .init start
  · rintro before _ _ ⟨environment, event, call, -, stepped, rfl⟩
    exact .inr ⟨environment, event, call, trivial, stepped, rfl⟩

/-- A live connection of a control task outlives a message on it exactly where
the message keeps the task up or something that is up depends on it; and in
runs with such messages only, no handler ever lacks its connection. -/
theorem connection_outlives_message (descriptions : TaskDescriptions n) :
    (∀ ctx, (contextSystem descriptions fun _ => True).Reachable ctx →
      ∀ t id, (ctx.state.tasks t).handle.isRunning = true →
        id ∈ (ctx.state.tasks t).handle.connections → ∀ message,
          ((∀ environment call,
            ctx.dispatch descriptions.graph environment message = some call →
              call.threw = false →
                id ∈ (call.state.state.tasks t).handle.connections) ↔
            KeepsConnections descriptions.graph message t ctx)) ∧
      ∀ ctx dangled,
        (messageSystem descriptions).Reachable (ctx, dangled) → ¬ dangled := by
  refine ⟨fun ctx reached t id running live message => ⟨fun outlives => ?_,
    fun keeps environment call dispatched returned => ?_⟩,
    fun ctx dangled reached => ?_⟩
  · have counters := (reachable_sound reached).safe.counters
    obtain ⟨call, dispatched⟩ :=
      exists_dispatch descriptions.graph (fun _ => ⟨true, true⟩) ctx message
    rcases dispatch_cases dispatched with ⟨keeps, -⟩ | ⟨_, -, ends, -⟩
    · exact .inl (keeps t)
    · have returned := ends.trans (enqueueAll_returns (fun _ => rfl) _)
      exact (connections_dispatch counters live running dispatched
        returned).mp (outlives _ call dispatched returned)
  · have counters := (reachable_sound reached).safe.counters
    exact (connections_dispatch counters live running dispatched
      returned).mpr keeps
  · refine reached.invariant (fun run => ¬ run.2) ?_ ?_
    · exact fun start started => started.2
    · rintro ⟨before, dangled⟩ _ earlier clean
        ⟨environment, event, call, meets, stepped, rfl⟩
      rintro (already | dangling)
      · exact clean already
      · have counters :=
          (reachable_sound (messages_project earlier)).safe.counters
        cases event with
        | messageReceived t id message =>
            obtain ⟨keeps, running⟩ := meets t id message rfl
            obtain ⟨inner, dispatched, returned, lost⟩ := dangling
            simp only [Context.step, messageReceived] at stepped
            split at stepped
            · next live =>
                exact lost ((connections_dispatch counters live running
                  dispatched returned).mpr keeps)
            · contradiction
        | _ => exact dangling

/-- A client is connected while the service is up. -/
def connectedUnderService : Context 2 :=
  (startContext.run serviceOverControl.graph answering
    [.callbackDelivered controlTask, .childExited serviceTask,
      .accepted controlTask]).get (by decide)

theorem connection_outlives_message_underService : ∀ environment call,
    connectedUnderService.dispatch serviceOverControl.graph environment
        .reboot = some call →
      call.threw = false →
        0 ∈ (call.state.state.tasks 0).handle.connections :=
  ((connection_outlives_message serviceOverControl).1 connectedUnderService
    (reachable_of_run trivial (.init (startContext_init trivial))
      (Option.some_get _).symm) 0 0 (by decide) (by decide) .reboot).mpr
    (.inr ⟨1, by decide, by decide⟩)

/-- A client is connected after the run level of the control task alone has
stopped the service. -/
def connectedAlone : Context 2 :=
  (startContext.run serviceOverControl.graph answering
    [.callbackDelivered controlTask, .childExited serviceTask,
      .called (.setRunlevel (ascii "b")), .childExited serviceTask,
      .accepted controlTask]).get (by decide)

/-- What the client gets done with its reboot message. -/
def rebootAlone : ContextCall 2 :=
  (connectedAlone.dispatch serviceOverControl.graph answering .reboot).get
    (by decide)

theorem reboot_destroys_connection :
    (contextSystem serviceOverControl fun _ => True).Reachable connectedAlone ∧
      (connectedAlone.state.tasks 0).handle.isRunning = true ∧
      0 ∈ (connectedAlone.state.tasks 0).handle.connections ∧
      connectedAlone.dispatch serviceOverControl.graph answering .reboot =
        some rebootAlone ∧
      rebootAlone.threw = false ∧
      0 ∉ (rebootAlone.state.state.tasks 0).handle.connections :=
  ⟨reachable_of_run trivial (.init (startContext_init trivial))
    (Option.some_get _).symm, by decide, by decide, (Option.some_get _).symm,
    by decide, by decide⟩

end Context

end Initd
