import Initd.Runtime.Context

namespace Initd

open Library

/-! What the calls of `initd_state` do to the handle of each task. -/

namespace AsyncTaskHandle

/-- A relation between the handle before and after that every call to a handle
and every event behind a callback has. -/
structure Followed (relation : AsyncTaskHandle → AsyncTaskHandle → Prop) :
    Prop where
  refl : ∀ handle, relation handle handle
  trans : ∀ {first second third}, relation first second →
    relation second third → relation first third
  told : ∀ answers s handle,
    relation handle (setShouldWork answers s handle).1
  finished : ∀ {answers before after result},
    Finished answers before after result → relation before after

/-- The `control_task_handle` while there is one. -/
def control : AsyncTaskHandle → Option ControlTaskHandle
  | sync { handle := some (.control handle), .. } => some handle
  | _ => none

theorem connections_eq (handle : AsyncTaskHandle) :
    handle.connections =
      (handle.control.map ControlTaskHandle.connections).getD [] := by
  cases handle with
  | startStop task => rfl
  | sync adaptor =>
      obtain ⟨data, running, inner, fq⟩ := adaptor
      cases inner with
      | none => rfl
      | some inner => cases inner <;> rfl

theorem control_mapControl (change : ControlTaskHandle → ControlTaskHandle)
    (handle : AsyncTaskHandle) :
    (handle.mapControl change).control = handle.control.map change := by
  cases handle with
  | startStop task => rfl
  | sync adaptor =>
      obtain ⟨data, running, inner, fq⟩ := adaptor
      cases inner with
      | none => rfl
      | some inner => cases inner <;> rfl

theorem control_create (data : TaskData) :
    (createAsyncTaskHandle data).control = none := by
  cases data <;> rfl

/-- It is the same control task handle, or there is none that has ever
accepted a connection. -/
def SameOrUnused (before after : AsyncTaskHandle) : Prop :=
  after.control = before.control ∨
    ∀ handle, after.control = some handle → handle = ⟨[], 0⟩

theorem SameOrUnused.connections {before after : AsyncTaskHandle}
    (related : SameOrUnused before after) :
    after.connections = before.connections ∨ after.connections = [] := by
  rw [connections_eq, connections_eq]
  rcases related with same | unused
  · exact .inl (by rw [same])
  · refine .inr ?_
    cases here : after.control with
    | none => rfl
    | some handle =>
        rw [unused handle here]
        rfl

theorem control_createTask (data : TaskData) (running : Bool)
    (fq : Sysapi.FunctionQueue Unit) {handle : ControlTaskHandle}
    (here : control (.sync ⟨data, running, some (createTask data), fq⟩) =
      some handle) : handle = ⟨[], 0⟩ := by
  cases data with
  | control data => exact (Option.some.inj here).symm
  | mount | hostname | startStop | null => contradiction

theorem followed_sameOrUnused : Followed SameOrUnused where
  refl handle := .inl rfl
  trans first second := by
    rcases second with same | unused
    · rcases first with same' | unused'
      · exact .inl (same.trans same')
      · exact .inr fun handle here => unused' handle (same ▸ here)
    · exact .inr unused
  told answers s handle := by
    cases handle with
    | startStop task => exact .inl rfl
    | sync adaptor =>
        obtain ⟨data, running, inner, fq⟩ := adaptor
        cases s with
        | false => exact .inr fun handle here => nomatch here
        | true =>
            cases inner with
            | some inner => exact .inl (by cases inner <;> rfl)
            | none =>
                refine .inr fun handle here => ?_
                cases created : answers.create with
                | true =>
                    simp only [setShouldWork, SyncTaskAdaptor.setShouldWork,
                      created, Option.isNone_none, if_true] at here
                    exact control_createTask data true _ here
                | false =>
                    simp [setShouldWork, SyncTaskAdaptor.setShouldWork,
                      created, control] at here
  finished finished := by
    cases finished with
    | operation completed => exact .inl rfl
    | @delivery adaptor fq delivered =>
        obtain ⟨data, running, inner, before⟩ := adaptor
        exact .inl (by cases inner with
          | none => rfl
          | some inner => cases inner <;> rfl)

end AsyncTaskHandle

namespace InitdState

open AsyncTaskHandle

variable {n : Nat} {environment : Environment n} {state : InitdState n}
  {relation : AsyncTaskHandle → AsyncTaskHandle → Prop}

def HandlesRelated (relation : AsyncTaskHandle → AsyncTaskHandle → Prop)
    (before after : InitdState n) : Prop :=
  ∀ t, relation (before.tasks t).handle (after.tasks t).handle

theorem handlesRelated_replace (followed : Followed relation) {t : Fin n}
    {handle : AsyncTaskHandle} (related : relation (state.tasks t).handle handle) :
    HandlesRelated relation state
      (state.modify t fun task => { task with handle := handle }) := by
  intro other
  by_cases same : other = t
  · subst other
    rwa [modify_self]
  · rw [modify_of_ne _ same]
    exact followed.refl _

theorem enqueueThis_related (followed : Followed relation) (t : Fin n) :
    HandlesRelated relation state (enqueueThis environment t state).state := by
  rcases enqueueThis_cases with ⟨-, equal⟩ | ⟨-, equal⟩ | ⟨-, -, equal⟩ <;>
    rw [equal]
  · rw [setShouldWork_state]
    exact handlesRelated_replace followed (followed.told _ _ _)
  · rw [setShouldWork_state]
    exact handlesRelated_replace followed (followed.told _ _ _)
  · exact fun _ => followed.refl _

theorem enqueueAll_related (followed : Followed relation) (tts : List (Fin n)) :
    HandlesRelated relation state (enqueueAll environment tts state).state :=
  Outcome.forEach_invariant (HandlesRelated relation state)
    (fun t _ _ earlier other => followed.trans (earlier other)
      (enqueueThis_related followed t other))
    fun _ => followed.refl _

theorem HandlesRelated.from_same {before after : InitdState n}
    (related : HandlesRelated relation before after)
    (handles : ∀ t, (before.tasks t).handle = (state.tasks t).handle) :
    HandlesRelated relation state after := fun t => handles t ▸ related t

theorem IsCallback.related (followed : Followed relation) {graph : TaskGraph n}
    {t : Fin n} {call : Call n}
    (callback : IsCallback graph environment t state call) :
    HandlesRelated relation state call.state := by
  obtain ⟨handle, result, finished, rfl⟩ := callback
  refine Outcome.bind_invariant (HandlesRelated relation state) ?_ ?_
  · rw [afterFork_state]
    exact handlesRelated_replace followed (followed.finished finished)
  · intro middle earlier other
    refine followed.trans (earlier other) ?_
    have handles : ∀ t', ((InitdState.sync graph t middle).tasks t').handle =
        (middle.tasks t').handle := fun t' => sync_handle graph t t' middle
    simp only [stateChanged]
    split <;>
      exact ((enqueueAll_related followed _).from_same handles) other

/-- Every handle is followed by what a step leaves of it. -/
theorem step_related (followed : Followed relation) {graph : TaskGraph n}
    {event : Event n} {call : Call n}
    (stepped : state.step graph environment event = some call) :
    HandlesRelated relation state call.state := by
  rcases step_cases stepped with rfl | ⟨closure, selected, -, selects, rfl⟩ |
    ⟨t, callback⟩
  · exact fun _ => followed.refl _
  · exact (enqueueAll_related followed _).from_same selects.handle
  · exact callback.related followed

end InitdState

namespace Context

open AsyncTaskHandle InitdState

variable {n : Nat} {graph : TaskGraph n} {environment : Environment n}
  {ctx : Context n} {relation : AsyncTaskHandle → AsyncTaskHandle → Prop}

theorem dispatch_related (followed : Followed relation)
    {message : ControlMessage} {call : ContextCall n}
    (dispatched : ctx.dispatch graph environment message = some call) :
    HandlesRelated relation ctx.state call.state.state := by
  have emptied : ctx.state.step graph environment .setEmptyRunLevel =
    some (ctx.state.setEmptyRunLevel graph environment) := rfl
  cases message with
  | reboot =>
      obtain rfl := Option.some.inj dispatched
      exact step_related followed emptied
  | powerOff =>
      obtain rfl := Option.some.inj dispatched
      exact step_related followed emptied
  | setRunlevel runlevelName =>
      obtain ⟨inner, changed, rfl⟩ := Option.map_eq_some_iff.mp dispatched
      have stepped : ctx.state.step graph environment
        (.setRunLevel runlevelName) = some inner := changed
      exact step_related followed stepped

/-- The event does not come from a connection or the socket behind it. -/
def Event.isOffSocket : Event n → Bool
  | .called _ | .childExited _ | .callbackDelivered _ => true
  | .accepted _ | .disconnected _ _ | .messageReceived _ _ _ => false

theorem step_related (followed : Followed relation) {event : Event n}
    (offSocket : event.isOffSocket = true) {call : ContextCall n}
    (stepped : ctx.step graph environment event = some call) :
    HandlesRelated relation ctx.state call.state.state := by
  cases event with
  | called message => exact dispatch_related followed stepped
  | childExited t =>
      obtain ⟨inner, exited, rfl⟩ := Option.map_eq_some_iff.mp stepped
      exact (childExited_isCallback exited).related followed
  | callbackDelivered t =>
      obtain ⟨inner, taken, rfl⟩ := Option.map_eq_some_iff.mp stepped
      exact (callbackDelivered_isCallback taken).related followed
  | accepted t | disconnected t id | messageReceived t id message =>
      contradiction

end Context

end Initd
