import Initd.Runtime.Context

namespace Initd

open Library

/-! What `has_pending_operations` and the end of the main loop mean. -/

namespace InitdState

variable {n : Nat}

def Wants (flags : Fin n → Bool) (state : InitdState n) : Prop :=
  ∀ t, (state.tasks t).shouldWork = flags t

section Wanting

variable {flags : Fin n → Bool} {state : InitdState n}

theorem Wants.replaceHandle (wants : Wants flags state) (t : Fin n)
    (change : Task → AsyncTaskHandle) :
    Wants flags (state.modify t fun task =>
      { task with handle := change task }) := by
  intro other
  rw [modify_tasks]
  split <;> exact wants other

theorem Wants.sync (wants : Wants flags state) (graph : TaskGraph n)
    (t : Fin n) : Wants flags (InitdState.sync graph t state) := by
  intro other
  rw [sync_shouldWork]
  exact wants other

theorem Wants.enqueueThis (wants : Wants flags state)
    (environment : Environment n) (t : Fin n) :
    Wants flags (enqueueThis environment t state).state := by
  rcases enqueueThis_cases with ⟨-, equal⟩ | ⟨-, equal⟩ | ⟨-, -, equal⟩ <;>
    rw [equal]
  · rw [setShouldWork_state]
    exact wants.replaceHandle t _
  · rw [setShouldWork_state]
    exact wants.replaceHandle t _
  · exact wants

theorem Wants.enqueueAll (wants : Wants flags state)
    (environment : Environment n) (tts : List (Fin n)) :
    Wants flags (enqueueAll environment tts state).state :=
  Outcome.forEach_invariant (Wants flags)
    (fun t _ _ wants => wants.enqueueThis environment t) wants

theorem Wants.callback (wants : Wants flags state) {graph : TaskGraph n}
    {environment : Environment n} {t : Fin n} {call : Call n}
    (callback : IsCallback graph environment t state call) :
    Wants flags call.state := by
  obtain ⟨handle, result, -, rfl⟩ := callback
  refine Outcome.bind_invariant (Wants flags) ?_ fun state wants => ?_
  · rw [afterFork_state]
    exact wants.replaceHandle t fun _ => handle
  · simp only [stateChanged]
    split <;> exact (wants.sync graph t).enqueueAll environment _

theorem setEmptyRunLevel_wants (graph : TaskGraph n)
    (environment : Environment n) (state : InitdState n) :
    Wants (fun _ => false)
      (state.setEmptyRunLevel graph environment).state := by
  have selected := setEmptyRunLevel_selected graph state
  refine Wants.enqueueAll (fun t => ?_) environment _
  simpa using (selected.shouldWork t).not

end Wanting

/-- With no pending task counted, every task does what it should. -/
theorem Safe.agrees {graph : TaskGraph n} {state : InitdState n}
    (safe : Safe graph state) (none : state.pendingTasks = 0) (t : Fin n) :
    (state.tasks t).handle.isInTransition = false ∧
      (state.tasks t).handle.isRunning = (state.tasks t).shouldWork := by
  rw [safe.counters.pendingTasks, flagSum_eq_zero] at none
  have idle : (state.tasks t).affectPendingTasks = false := by
    by_contra pending
    have counted := safe.pending t (by simpa using pending)
    exact absurd (none t counted) Nat.one_ne_zero
  simpa [Task.affectPendingTasks] using idle

end InitdState

namespace Context

open InitdState

variable {n : Nat}

structure Sound (graph : TaskGraph n) (ctx : Context n) : Prop where
  safe : Safe graph ctx.state
  unwanted : ctx.target ≠ .running → Wants (fun _ => false) ctx.state

section Steps

variable {graph : TaskGraph n} {environment : Environment n} {ctx : Context n}

theorem Sound.modifyControl (sound : Sound graph ctx) (t : Fin n)
    (change : ControlTaskHandle → ControlTaskHandle) :
    Sound graph (ctx.modifyControl t change) where
  safe := sound.safe.replaceSame AsyncTaskHandle.mapControl_isRunning
    AsyncTaskHandle.mapControl_isInTransition
  unwanted shutdown :=
    (sound.unwanted shutdown).replaceHandle t fun task =>
      task.handle.mapControl change

theorem Sound.setEmptyRunLevel (sound : Sound graph ctx)
    (environment : Environment n) (target : Target) :
    Sound graph
      ⟨target, (ctx.state.setEmptyRunLevel graph environment).state⟩ where
  safe := by
    have stepped : ctx.state.step graph environment .setEmptyRunLevel =
      some (ctx.state.setEmptyRunLevel graph environment) := rfl
    exact (step_safe sound.safe stepped).state
  unwanted _ := setEmptyRunLevel_wants graph environment ctx.state

theorem Sound.dispatch (sound : Sound graph ctx) {message : ControlMessage}
    {call : ContextCall n}
    (dispatched : ctx.dispatch graph environment message = some call) :
    Sound graph call.state := by
  cases message with
  | reboot =>
      cases Option.some.inj dispatched
      exact sound.setEmptyRunLevel environment .reboot
  | powerOff =>
      cases Option.some.inj dispatched
      exact sound.setEmptyRunLevel environment .powerOff
  | setRunlevel runlevelName =>
      obtain ⟨inner, changed, rfl⟩ := Option.map_eq_some_iff.mp dispatched
      have stepped : ctx.state.step graph environment
        (.setRunLevel runlevelName) = some inner := changed
      exact ⟨(step_safe sound.safe stepped).state,
        fun shutdown => absurd rfl shutdown⟩

theorem Sound.callback (sound : Sound graph ctx) {t : Fin n} {call : Call n}
    (callback : IsCallback graph environment t ctx.state call) :
    Sound graph { ctx with state := call.state } where
  safe := (callback.safe sound.safe).state
  unwanted shutdown := (sound.unwanted shutdown).callback callback

theorem Sound.step (sound : Sound graph ctx) {event : Event n}
    {call : ContextCall n}
    (stepped : ctx.step graph environment event = some call) :
    Sound graph call.state := by
  cases event with
  | called message => exact sound.dispatch stepped
  | childExited t =>
      obtain ⟨inner, exited, rfl⟩ := Option.map_eq_some_iff.mp stepped
      exact sound.callback (childExited_isCallback exited)
  | callbackDelivered t =>
      obtain ⟨inner, taken, rfl⟩ := Option.map_eq_some_iff.mp stepped
      exact sound.callback (callbackDelivered_isCallback taken)
  | accepted t =>
      cases Option.some.inj stepped
      exact sound.modifyControl t _
  | disconnected t id =>
      cases Option.some.inj stepped
      exact sound.modifyControl t _
  | messageReceived t id message =>
      simp only [Context.step, messageReceived] at stepped
      split at stepped
      · obtain ⟨inner, dispatched, rfl⟩ := Option.map_eq_some_iff.mp stepped
        have after := sound.dispatch dispatched
        split
        · exact after.modifyControl t _
        · exact after
      · contradiction

end Steps

theorem reachable_sound {descriptions : TaskDescriptions n}
    {allowed : Environment n → Prop} {ctx : Context n}
    (reached : (contextSystem descriptions allowed).Reachable ctx) :
    Sound descriptions.graph ctx := by
  refine reached.invariant _ ?_ ?_
  · rintro _ ⟨environment, call, -, changed, -, rfl⟩
    have stepped : descriptions.initdState.step descriptions.graph environment
      (.setRunLevel defaultRunLevel) = some call := changed
    exact ⟨(step_safe (initdState_safe descriptions) stepped).state,
      fun shutdown => absurd rfl shutdown⟩
  · rintro before _ _ sound ⟨environment, event, call, -, stepped, rfl⟩
    exact sound.step stepped

/-- `pending_tasks` never misses a task that has something to do, so the main
loop ends only in a shutdown that is complete. -/
theorem pending_operations_sound {descriptions : TaskDescriptions n}
    {ctx : Context n} (reached : (contextSystem descriptions fun _ => True).Reachable ctx) :
    (ctx.state.pendingTasks = 0 → ∀ t,
      (ctx.state.tasks t).handle.isInTransition = false ∧
        (ctx.state.tasks t).handle.isRunning =
          (ctx.state.tasks t).shouldWork) ∧
      (ctx.isActive = false →
        (ctx.target = .reboot ∨ ctx.target = .powerOff) ∧
          ∀ t, (ctx.state.tasks t).handle.isInTransition = false ∧
            (ctx.state.tasks t).handle.isRunning = false ∧
            ∀ task, (ctx.state.tasks t).handle = .startStop task →
              task.mayBeDestroyed = true) := by
  have sound := reachable_sound reached
  refine ⟨sound.safe.agrees, fun inactive => ?_⟩
  obtain ⟨shutdown, none⟩ : ctx.target ≠ .running ∧
      ctx.state.pendingTasks = 0 := by
    simpa [isActive, hasPendingOperations] using inactive
  refine ⟨?_, fun t => ?_⟩
  · cases target : ctx.target with
    | running => exact absurd target shutdown
    | reboot => exact .inl rfl
    | powerOff => exact .inr rfl
  · obtain ⟨idle, agrees⟩ := sound.safe.agrees none t
    rw [sound.unwanted shutdown t] at agrees
    refine ⟨idle, agrees, fun task handle => ?_⟩
    rw [handle] at idle agrees
    simp only [AsyncTaskHandle.isRunning, AsyncStartStopTask.isRunning,
      AsyncTaskHandle.isInTransition,
      AsyncStartStopTask.isInTransition] at idle agrees
    simp [AsyncStartStopTask.mayBeDestroyed, idle, agrees]

def shutDownSchedule : List (Event 2) :=
  [.callbackDelivered controlTask, .childExited serviceTask, .called .reboot,
    .childExited serviceTask, .callbackDelivered controlTask]

/-- Everything is stopped after a reboot was asked for. -/
def shutDown : Context 2 :=
  (startContext.run serviceOverControl.graph answering
    shutDownSchedule).get (by decide)

theorem pending_operations_sound_shutDown :
    (shutDown.target = .reboot ∨ shutDown.target = .powerOff) ∧
      ∀ t, (shutDown.state.tasks t).handle.isInTransition = false ∧
        (shutDown.state.tasks t).handle.isRunning = false ∧
        ∀ task, (shutDown.state.tasks t).handle = .startStop task →
          task.mayBeDestroyed = true :=
  (pending_operations_sound (reachable_of_run trivial (.init (startContext_init trivial))
    (Option.some_get _).symm)).2 (by decide)

end Context

end Initd
