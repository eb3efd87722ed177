import Initd.Runtime.Shutdown

namespace Initd

open Library

/-! What a run level selects, and what it leaves alone. -/

namespace InitdState

variable {n : Nat}

/-- The flags after a run-level change are those of the closure, whatever they
were before and however the change ends. -/
theorem setRunLevel_wants {graph : TaskGraph n} {environment : Environment n}
    {runLevelName : Bytes} {requisites : List (Fin n)}
    (configured : graph.runLevels.lookup runLevelName = some requisites)
    {state : InitdState n} {call : Call n}
    (changed : state.setRunLevel graph environment runLevelName = some call)
    (t : Fin n) :
    (call.state.tasks t).shouldWork = true ↔ closure graph requisites t := by
  simp only [setRunLevel, configured] at changed
  obtain ⟨selected, selects, rfl⟩ := Option.map_eq_some_iff.mp changed
  have kept : Wants (fun t => (selected.tasks t).shouldWork)
      (enqueueAll environment (List.finRange n) selected).state :=
    Wants.enqueueAll (fun _ => rfl) environment _
  rw [kept t]
  exact (selectRunLevel_selected selects).shouldWork t

theorem exists_setRunLevel (graph : TaskGraph n)
    (environment : Environment n) (runLevelName : Bytes)
    (state : InitdState n) :
    ∃ call, state.setRunLevel graph environment runLevelName = some call := by
  unfold setRunLevel
  cases graph.runLevels.lookup runLevelName with
  | none => exact ⟨_, rfl⟩
  | some requisites =>
      obtain ⟨selected, selects⟩ :=
        exists_selectRunLevel graph requisites state
      exact ⟨_, Option.map_eq_some_iff.mpr ⟨selected, selects, rfl⟩⟩

/-- A closure depends on which edges and requisites there are, not on their
order or number. -/
theorem closure_congr {graph other : TaskGraph n}
    {requisites otherRequisites : List (Fin n)}
    (edges : ∀ t dependency, dependency ∈ graph.dependencies t ↔
      dependency ∈ other.dependencies t)
    (roots : ∀ d, d ∈ requisites ↔ d ∈ otherRequisites) (t : Fin n) :
    closure graph requisites t ↔ closure other otherRequisites t := by
  have same : Digraph.Edge graph.dependencies =
      Digraph.Edge other.dependencies := by
    funext source target
    exact propext (edges source target)
  unfold closure Digraph.Reaches
  simp only [same, roots]

/-- A change to a configured run level ends, and the tasks that should work
afterwards are those of the dependency closure of its requisites; neither the
earlier state nor the order of any list matters. -/
theorem setRunLevel_selects_closure (graph : TaskGraph n)
    (environment : Environment n) {runLevelName : Bytes}
    {requisites : List (Fin n)}
    (configured : graph.runLevels.lookup runLevelName = some requisites)
    (state : InitdState n) :
    ∃ call, state.setRunLevel graph environment runLevelName = some call ∧
      (∀ t, (call.state.tasks t).shouldWork = true ↔
        ∃ d ∈ requisites, Digraph.Reaches graph.dependencies d t) ∧
      ∀ (other : TaskGraph n) (otherEnvironment : Environment n)
        (otherRequisites : List (Fin n)) (otherState : InitdState n)
        (otherCall : Call n),
        (∀ t, (graph.dependencies t).Perm (other.dependencies t)) →
        other.runLevels.lookup runLevelName = some otherRequisites →
        requisites.Perm otherRequisites →
        otherState.setRunLevel other otherEnvironment runLevelName =
          some otherCall →
        ∀ t, (otherCall.state.tasks t).shouldWork =
          (call.state.tasks t).shouldWork := by
  obtain ⟨call, changed⟩ :=
    exists_setRunLevel graph environment runLevelName state
  have flags := setRunLevel_wants configured changed
  refine ⟨call, changed, flags, ?_⟩
  intro other otherEnvironment otherRequisites otherState otherCall
    reordered otherConfigured permuted otherChanged t
  rw [Bool.eq_iff_iff, flags t, setRunLevel_wants otherConfigured otherChanged t]
  exact (closure_congr (fun t _ => (reordered t).mem_iff)
    (fun _ => permuted.mem_iff) t).symm

theorem setRunLevel_selects_closure_default :
    ∃ call, serviceUp.setRunLevel serviceOverControl.graph answering
        defaultRunLevel = some call ∧
      ∀ t, (call.state.tasks t).shouldWork = true ↔
        ∃ d ∈ [serviceTask],
          Digraph.Reaches serviceOverControl.graph.dependencies d t := by
  have configured : serviceOverControl.graph.runLevels.lookup defaultRunLevel =
      some [serviceTask] := rfl
  obtain ⟨call, changed, flags, -⟩ := setRunLevel_selects_closure
    serviceOverControl.graph answering configured serviceUp
  exact ⟨call, changed, flags⟩

/-! A task that every selected run level wants. -/

/-- A run-level change in this event selects `t`. -/
def Event.Selects (graph : TaskGraph n) (t : Fin n) : Event n → Prop
  | .setRunLevel runLevelName => ∀ requisites,
      graph.runLevels.lookup runLevelName = some requisites →
        ∃ d ∈ requisites, Digraph.Reaches graph.dependencies d t
  | .setEmptyRunLevel => False
  | .childExited _ | .callbackDelivered _ => True

/-- The runs from `start` in which every selected run level has `t` in its
dependency closure. -/
def selectingSystem (graph : TaskGraph n) (t : Fin n) (start : InitdState n) :
    StepSystem (InitdState n) where
  init state := state = start
  step before after := ∃ environment event call,
    Event.Selects graph t event ∧
      before.step graph environment event = some call ∧ call.state = after

/-- The task is up and wanted, so that nothing is to be done with it. -/
structure Undisturbed (t : Fin n) (state : InitdState n) : Prop where
  running : (state.tasks t).handle.isRunning = true
  idle : (state.tasks t).handle.isInTransition = false
  wanted : (state.tasks t).shouldWork = true

/-- An action that neither stops the task nor runs one of its commands. -/
def Spares (t : Fin n) : Action n → Prop
  | .setShouldWork other s => other = t → s = true
  | .launched other _ _ => other ≠ t

section Undisturbed

variable {graph : TaskGraph n} {environment : Environment n} {t : Fin n}
  {state : InitdState n}

abbrev Unbothered (t : Fin n) (call : Call n) : Prop :=
  call.Satisfies (Undisturbed t) (Undisturbed t)
    fun action state => Undisturbed t state ∧ Spares t action

theorem Undisturbed.of_tasks {other : InitdState n}
    (undisturbed : Undisturbed t state)
    (handle : (other.tasks t).handle = (state.tasks t).handle)
    (wanted : (other.tasks t).shouldWork = (state.tasks t).shouldWork) :
    Undisturbed t other where
  running := handle ▸ undisturbed.running
  idle := handle ▸ undisturbed.idle
  wanted := wanted ▸ undisturbed.wanted

theorem Undisturbed.sync (undisturbed : Undisturbed t state) (other : Fin n) :
    Undisturbed t (InitdState.sync graph other state) :=
  undisturbed.of_tasks (sync_handle graph other t state)
    (sync_shouldWork graph other t state)

theorem Undisturbed.not_due (undisturbed : Undisturbed t state) :
    (state.tasks t).mayStart = false ∧ (state.tasks t).mayStop = false := by
  simp [Task.mayStart, Task.mayStop, undisturbed.running, undisturbed.idle,
    undisturbed.wanted]

theorem Undisturbed.setShouldWork (undisturbed : Undisturbed t state)
    {other : Fin n} (different : t ≠ other) (s : Bool) :
    Unbothered t (state.setShouldWork environment other s) := by
  have after : Undisturbed t (state.setShouldWork environment other s).state := by
    rw [setShouldWork_state]
    exact undisturbed.of_tasks (by rw [modify_of_ne _ different])
      (by rw [modify_of_ne _ different])
  refine ⟨fun _ => after, fun _ => after, fun entry member => ?_⟩
  obtain ⟨recorded, told | ⟨operation, command, launched⟩⟩ :=
    setShouldWork_log member
  · rw [recorded, told]
    exact ⟨after, fun same => absurd same.symm different⟩
  · rw [recorded, launched]
    exact ⟨after, different.symm⟩

theorem Undisturbed.enqueueThis (undisturbed : Undisturbed t state)
    (other : Fin n) : Unbothered t (enqueueThis environment other state) := by
  obtain ⟨noStart, noStop⟩ := undisturbed.not_due
  rcases enqueueThis_cases with ⟨may, equal⟩ | ⟨may, equal⟩ | ⟨-, -, equal⟩ <;>
    rw [equal]
  · refine undisturbed.setShouldWork ?_ true
    rintro rfl
    rw [noStart] at may
    contradiction
  · refine undisturbed.setShouldWork ?_ false
    rintro rfl
    rw [noStop] at may
    contradiction
  · exact Outcome.satisfies_done undisturbed

theorem Undisturbed.enqueueAll (undisturbed : Undisturbed t state)
    (tts : List (Fin n)) : Unbothered t (enqueueAll environment tts state) :=
  Outcome.forEach_satisfies (fun _ => Undisturbed t)
    (fun other _ _ undisturbed => undisturbed.enqueueThis other) tts state
    undisturbed

/-- A callback of the task itself can only be a delivery of its queue. -/
theorem Undisturbed.callback (undisturbed : Undisturbed t state)
    {other : Fin n} {call : Call n}
    (callback : IsCallback graph environment other state call) :
    Unbothered t call := by
  obtain ⟨handle, result, finished, rfl⟩ := callback
  have after : Undisturbed t
      (state.modify other fun task => { task with handle := handle }) := by
    by_cases same : t = other
    · subst other
      rcases finished.visible with busy | ⟨running, transition⟩
      · rw [undisturbed.idle] at busy
        contradiction
      · refine ⟨?_, ?_, ?_⟩ <;> rw [modify_self]
        · rw [running, undisturbed.running]
        · rw [transition, undisturbed.idle]
        · exact undisturbed.wanted
    · exact undisturbed.of_tasks (by rw [modify_of_ne _ same])
        (by rw [modify_of_ne _ same])
  have forked : Unbothered t (afterFork other
      (state.modify other fun task => { task with handle := handle })
      result) := by
    cases result with
    | notCalled => exact Outcome.satisfies_done after
    | threw =>
        exact ⟨fun _ => after, fun _ => after, fun _ member => by
          simp [afterFork] at member⟩
    | launched operation command =>
        refine ⟨fun _ => after, fun _ => after, fun entry member => ?_⟩
        rw [List.mem_singleton.mp member]
        refine ⟨after, ?_⟩
        rintro rfl
        have busy := after.idle
        rw [modify_self, finished.launched] at busy
        contradiction
  refine forked.bind fun state undisturbed => ?_
  simp only [stateChanged]
  split <;> exact (undisturbed.sync other).enqueueAll _

theorem Undisturbed.step (undisturbed : Undisturbed t state) {event : Event n}
    (selects : Event.Selects graph t event) {call : Call n}
    (stepped : state.step graph environment event = some call) :
    Unbothered t call := by
  cases event with
  | setEmptyRunLevel => exact selects.elim
  | childExited other =>
      exact undisturbed.callback (childExited_isCallback stepped)
  | callbackDelivered other =>
      exact undisturbed.callback (callbackDelivered_isCallback stepped)
  | setRunLevel runLevelName =>
      simp only [InitdState.step, setRunLevel] at stepped
      split at stepped
      · cases Option.some.inj stepped
        exact ⟨fun _ => undisturbed, fun _ => undisturbed,
          List.forall_mem_nil _⟩
      · next requisites configured =>
          obtain ⟨selected, changed, rfl⟩ := Option.map_eq_some_iff.mp stepped
          have kept := selectRunLevel_selected changed
          refine Undisturbed.enqueueAll ⟨?_, ?_, ?_⟩ _
          · rw [kept.handle, undisturbed.running]
          · rw [kept.handle, undisturbed.idle]
          · exact (kept.shouldWork t).mpr (selects requisites configured)

end Undisturbed

/-- A task that is up and wanted, and that every later run level selects, is
up all the time, and neither of its commands runs. -/
theorem shared_service_kept {graph : TaskGraph n} {t : Fin n}
    {start : InitdState n} (running : (start.tasks t).handle.isRunning = true)
    (idle : (start.tasks t).handle.isInTransition = false)
    (wanted : (start.tasks t).shouldWork = true) {state : InitdState n}
    (reached : (selectingSystem graph t start).Reachable state) :
    ((state.tasks t).handle.isRunning = true ∧
        (state.tasks t).handle.isInTransition = false) ∧
      ∀ environment event call, Event.Selects graph t event →
        state.step graph environment event = some call →
          ∀ entry ∈ call.log,
            (entry.2.tasks t).handle.isRunning = true ∧
              (entry.2.tasks t).handle.isInTransition = false ∧
              entry.1 ≠ .setShouldWork t false ∧
              ∀ operation command, entry.1 ≠ .launched t operation command := by
  have undisturbed : Undisturbed t state := by
    refine reached.invariant (Undisturbed t) ?_ ?_
    · rintro state rfl
      exact ⟨running, idle, wanted⟩
    · rintro before _ _ undisturbed
        ⟨environment, event, call, selects, stepped, rfl⟩
      exact (undisturbed.step selects stepped).state
  refine ⟨⟨undisturbed.running, undisturbed.idle⟩, ?_⟩
  intro environment event call selects stepped entry member
  obtain ⟨after, spared⟩ :=
    (undisturbed.step selects stepped).logged entry member
  refine ⟨after.running, after.idle, fun stopped => ?_, ?_⟩
  · rw [stopped] at spared
    exact Bool.false_ne_true (spared rfl)
  · intro operation command launched
    rw [launched] at spared
    exact spared rfl

theorem shared_service_kept_control :
    (serviceUp.tasks controlTask).handle.isRunning = true ∧
      ∀ environment event call,
        Event.Selects serviceOverControl.graph controlTask event →
          serviceUp.step serviceOverControl.graph environment event =
              some call →
            ∀ entry ∈ call.log, entry.1 ≠ .setShouldWork controlTask false := by
  have start : (selectingSystem serviceOverControl.graph controlTask
    serviceUp).Reachable serviceUp := .init rfl
  have kept := shared_service_kept (by decide) (by decide) (by decide) start
  refine ⟨kept.1.1, ?_⟩
  intro environment event call selects stepped entry member
  exact (kept.2 environment event call selects stepped entry member).2.2.1

end InitdState

end Initd
