import Initd.Runtime.Control
import Initd.Runtime.Delivery

namespace Initd

open Library

/-! The control protocol over whole runs. -/

namespace ControlClient

variable {n : Nat} {padding : UInt8} {client later : ControlClient n}

theorem Step.sends (step : Step client later) : later.sends = client.sends := by
  cases step <;> rfl

/-- What is known of a client by all that it sends. -/
structure Tracked (padding : UInt8) (client : ControlClient n) : Prop where
  sending : ∀ message : ControlMessage, message.measure ≤ messageLimit →
    client.sends = message.encode padding → Sending padding message client
  silent : client.sends = [] → client.Silent

theorem tracked_connect (padding : UInt8) (t : Fin n) (sends : Bytes) :
    Tracked padding (connect t sends) where
  sending message _ same := by
    obtain rfl : sends = message.encode padding := same
    exact sending_connect t message padding
  silent nothing := by
    obtain rfl : sends = [] := nothing
    exact ⟨rfl, rfl, rfl, rfl⟩

theorem Tracked.steps (tracked : Tracked padding client)
    (steps : Steps client later) : Tracked padding later := by
  induction steps with
  | refl => exact tracked
  | tail _ step induction =>
      refine ⟨fun message small same => ?_, fun nothing => ?_⟩
      · rw [step.sends] at same
        exact (induction.sending message small same).step small step
      · rw [step.sends] at nothing
        exact (induction.silent nothing).step step

end ControlClient

namespace ControlServer

open ControlClient AsyncTaskHandle

variable {n : Nat} {descriptions : TaskDescriptions n}
  {allowed : Environment n → Prop} {server after : ControlServer n}
  {padding : UInt8}

def TracksAll (padding : UInt8) (server : ControlServer n) : Prop :=
  ∀ (k : Nat) (client : ControlClient n), server.clients[k]? = some client →
    Tracked padding client

/-- Every handle that there is when `context` is constructed has accepted
nothing. -/
theorem init_unused {ctx : Context n}
    (start : (contextSystem descriptions allowed).init ctx) (t : Fin n)
    (handle : ControlTaskHandle)
    (here : (ctx.state.tasks t).handle.control = some handle) :
    handle = ⟨[], 0⟩ := by
  obtain ⟨environment, call, -, changed, -, rfl⟩ := start
  have stepped : descriptions.initdState.step descriptions.graph environment
    (.setRunLevel defaultRunLevel) = some call := changed
  rcases InitdState.step_related followed_sameOrUnused stepped t with
    same | unused
  · have before : (createAsyncTaskHandle (descriptions.allTasks t).data).control =
        some handle := by
      rw [← TaskDescriptions.initdState_handle, ← same]
      exact here
    rw [control_create] at before
    contradiction
  · exact unused handle here

theorem init_sound
    (start : (controlSystem descriptions allowed).init server) :
    server.Sound none ∧ server.TracksAll padding := by
  obtain ⟨started, clients, calls, faultless⟩ := start
  have nobody : ∀ (k : Nat) (client : ControlClient n),
      server.clients[k]? ≠ some client := fun k client found => by
    simp [clients] at found
  have unserved : ∀ t id k, ¬ server.ServedAt t id k :=
    fun t id k ⟨client, found, _⟩ => nobody k client found
  have connections : ∀ t,
      (server.ctx.state.tasks t).handle.connections = [] := fun t => by
    rw [connections_eq]
    cases here : (server.ctx.state.tasks t).handle.control with
    | none => rfl
    | some handle => rw [init_unused started t handle here]; rfl
  refine ⟨⟨⟨fun served => absurd served (unserved _ _ _), fun inside => ?_,
    fun served => absurd served (unserved _ _ _), fun t => ?_,
    fun t handle here id inside => ?_⟩, fun client member => ?_,
    fun k client found => absurd found (nobody k client), fun call member => ?_,
    ?_, fun k client found => absurd found (nobody k client),
    iff_of_true faultless fun k client found => absurd found (nobody k client)⟩,
    fun k client found => absurd found (nobody k client)⟩
  · rw [connections] at inside
    contradiction
  · rw [connections]
    exact List.nodup_nil
  · rw [init_unused started t handle here] at inside
    contradiction
  · rw [clients] at member
    contradiction
  · rw [calls] at member
    contradiction
  · simp [faultless]

theorem reachable_sound
    (reached : (controlSystem descriptions allowed).Reachable server) :
    (server.Sound none ∧ server.TracksAll padding) ∧
      (contextSystem descriptions allowed).Reachable server.ctx := by
  induction reached with
  | init start => exact ⟨init_sound start, .init start.1⟩
  | step _ moved induction =>
      obtain ⟨⟨sound, tracks⟩, inContext⟩ := induction
      obtain ⟨environment, event, permitted, moved⟩ := moved
      rcases sound.next permitted moved with progress | ⟨sound', same, connects⟩
      · refine ⟨⟨progress.sound, fun k later found => ?_⟩,
          inContext.of_steps progress.contexts⟩
        obtain ⟨client, found', steps⟩ := progress.clients k later found
        exact (tracks k client found').steps steps
      · refine ⟨⟨sound', fun k client found => ?_⟩, same ▸ inContext⟩
        obtain ⟨t, sends, appended⟩ := connects
        rw [appended] at found
        rcases getElem?_concat_eq_some.mp found with earlier | ⟨-, rfl⟩
        · exact tracks k client earlier
        · exact tracked_connect padding t sends

/-! What is bound to happen can happen. -/

section Progress

variable {graph : TaskGraph n} {environment : Environment n}
  {client : ControlClient n} {k id : Nat} {what : Bytes}
  {message : ControlMessage}

theorem onDisconnect_kept (k : Nat) (client : ControlClient n) (id : Nat)
    (why : Departure) (server : ControlServer n) :
    (server.onDisconnect k client id why).calls = server.calls ∧
      (server.onDisconnect k client id why).clients.length =
        server.clients.length := by
  unfold ControlServer.onDisconnect
  split
  · exact ⟨rfl, List.length_set⟩
  · exact ⟨rfl, rfl⟩

theorem ended_kept (k : Nat) (client : ControlClient n) (id : Nat)
    (threw : Bool) (server : ControlServer n) :
    (server.ended k client id threw).calls = server.calls ∧
      (server.ended k client id threw).clients.length =
        server.clients.length := by
  unfold ControlServer.ended
  split
  · split
    · exact onDisconnect_kept k client id .failed server
    · exact ⟨rfl, rfl⟩
  · exact ⟨rfl, rfl⟩

/-- The handler of a whole message calls its operation. -/
theorem exists_onRead (graph : TaskGraph n) (environment : Environment n)
    (what : Bytes) (server : ControlServer n) (k id : Nat)
    (whole : parseMessage (client.connection.buffer ++ client.avail) =
      .ok (some message)) :
    ∃ after, server.onRead graph environment k client id what = some after ∧
      after.calls = server.calls ++ [(k, message)] ∧
      after.clients.length = server.clients.length := by
  obtain ⟨call, dispatched⟩ :=
    Context.exists_dispatch graph environment server.ctx message
  have dispatches : ∀ k client, (ControlServer.replace k client server).ctx.dispatch
      graph environment message = some call := fun _ _ => dispatched
  simp only [onRead, whole, dispatches, Option.bind_eq_bind, Option.bind_some]
  refine ⟨_, rfl, (ended_kept _ _ _ _ _).1, ?_⟩
  rw [(ended_kept _ _ _ _ _).2]
  simp only [moved, replace, List.length_map, List.length_set]

theorem exists_ready (graph : TaskGraph n) (environment : Environment n)
    (what : Bytes) (found : server.clients[k]? = some client)
    (faultless : server.fault = none) (stage : client.stage = .served id)
    (arrived : client.avail ≠ []) {hangUp : Bool}
    (hung : hangUp = true → client.closed = true)
    (whole : parseMessage (client.connection.buffer ++ client.avail) =
      .ok (some message)) :
    ∃ after, server.next graph environment (.ready k hangUp what) = some after ∧
      after.callsOf k = server.callsOf k ++ [message] := by
  obtain ⟨middle, read, calls, length⟩ : ∃ middle,
      onRead graph environment k { client with tag := .callback } id what
          (server.replace k { client with tag := .callback }) = some middle ∧
        middle.calls = server.calls ++ [(k, message)] ∧
        middle.clients.length =
          (server.replace k { client with tag := .callback }).clients.length :=
    exists_onRead graph environment what _ k id whole
  have inside : k < middle.clients.length := by
    rw [length, replace, List.length_set]
    exact (List.getElem?_eq_some_iff.mp found).1
  have called : ∀ later : ControlServer n, later.calls = middle.calls →
      later.callsOf k = server.callsOf k ++ [message] := by
    intro later same
    simp [callsOf, same, calls]
  have ready : server.next graph environment (.ready k hangUp what) =
      if middle.clients[k].stage ≠ .served id then
        some middle
      else if hangUp then
        some (middle.onDisconnect k middle.clients[k] id .hungUp)
      else
        some (middle.replace k { middle.clients[k] with tag := .dangling }) := by
    simp only [next, faultless, onEvents, found, Option.bind_eq_bind,
      Option.bind_some, Option.pure_def]
    split
    · next other served =>
        obtain rfl := Stage.served.inj (served.symm.trans stage)
        rw [guard, if_pos (.inl arrived), guard, if_pos hung]
        simp only [Option.pure_def, Option.bind_some, read,
          List.getElem?_eq_getElem inside]
    · next other => exact absurd stage (other id)
  rw [ready]
  split
  · exact ⟨_, rfl, called _ rfl⟩
  · split
    · exact ⟨_, rfl, called _ (onDisconnect_kept k _ id .hungUp middle).1⟩
    · exact ⟨_, rfl, called _ rfl⟩

theorem exists_accept (sound : server.Sound none) (graph : TaskGraph n)
    (environment : Environment n) (found : server.clients[k]? = some client)
    (faultless : server.fault = none) (waiting : client.stage = .waiting) :
    ∃ after, server.next graph environment (.accept k) = some after ∧
      ∃ id, after.ServedAt client.task id k := by
  obtain ⟨handle, here⟩ := Option.isSome_iff_exists.mp
    (sound.listening client (List.mem_of_getElem? found) waiting)
  refine ⟨{ server.replace k { client with stage := .served handle.nextId } with
    ctx := (server.ctx.accepted client.task).state }, ?_, handle.nextId,
    { client with stage := .served handle.nextId }, ?_, rfl, rfl⟩
  · simp only [next, faultless, accept, found, here, Option.bind_eq_bind,
      Option.bind_some]
    rw [guard, if_pos waiting]
    rfl
  · dsimp only
    rw [replace_getElem? found, if_pos rfl]

end Progress

/-- The next event of the client takes its message on. -/
structure Pending (graph : TaskGraph n) (server : ControlServer n) (k : Nat)
    (client : ControlClient n) (message : ControlMessage) : Prop where
  accepted : client.stage = .waiting → ∀ environment,
    ∃ after, server.next graph environment (.accept k) = some after ∧
      ∃ id, after.ServedAt client.task id k
  called : ∀ id, client.stage = .served id → client.unsent = [] →
    ∀ environment hangUp what, (hangUp = true → client.closed = true) →
      ∃ after, server.next graph environment (.ready k hangUp what) =
          some after ∧ after.callsOf k = [message]

/-- Where the message of a client has got to.  Unless its operation is called,
the control task stopped before it accepted the client, or the client did not
write all of it. -/
inductive Delivered (graph : TaskGraph n) (server : ControlServer n) (k : Nat)
    (client : ControlClient n) (message : ControlMessage) : Prop
  | called (once : server.callsOf k = [message])
  | refused (none : server.callsOf k = [])
      (left : client.stage = .left .refused)
  | cutShort (none : server.callsOf k = [])
      (left : client.stage = .left .hungUp) (closed : client.closed = true)
      (unsent : client.unsent ≠ [])
  | underway (none : server.callsOf k = [])
      (here : client.stage.isLeft = false)
      (pending : Pending graph server k client message)

theorem delivered_of_sending {client : ControlClient n} {k : Nat}
    {message : ControlMessage} (small : message.measure ≤ messageLimit)
    (sound : server.Sound none) (faultless : server.fault = none)
    (found : server.clients[k]? = some client)
    (sending : Sending padding message client) (graph : TaskGraph n) :
    Delivered graph server k client message := by
  have journal := sound.journal k client found
  cases sending with
  | called once buffer avail unsent => exact .called (journal ▸ once)
  | lost left none how =>
      rcases how with rfl | rfl | ⟨rfl, closed, unsent⟩
      · exact .refused (journal ▸ none) left
      · exact nomatch sound.faulted.mp faultless k client found left
      · exact .cutShort (journal ▸ none) left closed unsent
  | underway here connected none bytes more =>
      refine .underway (journal ▸ none) here
        ⟨fun waiting environment => ?_,
          fun id served all environment hangUp what hung => ?_⟩
      · exact exists_accept sound graph environment found faultless waiting
      · have reads := read_underway small (fun _ _ => .returned) here connected
          none bytes
        have arrived : client.avail ≠ [] := by
          rwa [all, List.append_nil] at more
        obtain ⟨after, ready, calls⟩ := exists_ready graph environment what
          found faultless served arrived hung (reads.2 all).1
        refine ⟨after, ready, ?_⟩
        rw [calls, ← journal, none, List.nil_append]

/-- In every run of the control sockets with any clients on them, up to its
first fault, which comes exactly when a control task stops that has a live
connection: the connections are those of the served clients, each of which is
found when it is to be destroyed, and the tasks are in a state of the init
process.  What `initctl` asks for is called once or not at all, and not at all
only where it asks for nothing, was cut short, or was not accepted before the
control task stopped. -/
theorem control_protocol
    (reached : (controlSystem descriptions allowed).Reachable server)
    (padding : UInt8) :
    (contextSystem descriptions allowed).Reachable server.ctx ∧
      server.fault ≠ some .assertion ∧
      (server.fault ≠ none ↔
        ∃ client ∈ server.clients, client.stage = .left .stopped) ∧
      (∀ t id, id ∈ (server.ctx.state.tasks t).handle.connections ↔
        ∃! k, server.ServedAt t id k) ∧
      (server.fault = none →
        ∀ (k : Nat) client program arguments written,
          server.clients[k]? = some client → Initctl.Passable arguments →
          (Initctl.main padding program arguments (.ok ()) written).sends.getD
              [] = client.sends →
            (Initctl.request arguments = none → server.callsOf k = []) ∧
            ∀ message, Initctl.request arguments = some message →
              Delivered descriptions.graph server k client message) := by
  obtain ⟨⟨sound, tracks⟩, inContext⟩ := reachable_sound reached
  have tracks : TracksAll padding server := tracks
  refine ⟨inContext, sound.asserted, ?_, fun t id => ⟨fun live => ?_, ?_⟩,
    fun faultless k client program arguments written found passable sends =>
      ⟨fun nothing => ?_, fun message asks => ?_⟩⟩
  · rw [ne_eq, sound.faulted]
    constructor
    · intro stopped
      by_contra none
      refine stopped fun k client found left => absurd ?_ none
      exact ⟨client, List.mem_of_getElem? found, left⟩
    · rintro ⟨client, member, left⟩ stopped
      obtain ⟨k, found⟩ := List.getElem?_of_mem member
      exact nomatch stopped k client found left
  · obtain ⟨k, served⟩ := sound.attached.served live
    exact ⟨k, served, fun other served' => sound.attached.once served' served⟩
  · rintro ⟨k, served, -⟩
    exact sound.attached.live served
  · rw [Initctl.main_sends padding program passable, nothing] at sends
    rw [← sound.journal k client found]
    exact ((tracks k client found).silent sends.symm).none
  · rw [Initctl.main_sends padding program passable, asks] at sends
    have small := Initctl.request_measure passable asks
    exact delivered_of_sending small sound faultless found
      ((tracks k client found).sending message small sends.symm)
      descriptions.graph

/-- The server after the events of a schedule, where every answer of the
kernel is the same. -/
def run (graph : TaskGraph n) (environment : Environment n)
    (schedule : List (Event n)) (server : ControlServer n) :
    Option (ControlServer n) :=
  StepSystem.run (next graph environment) schedule server

theorem reachable_of_run {environment : Environment n}
    {schedule : List (Event n)} (permitted : allowed environment)
    (reached : (controlSystem descriptions allowed).Reachable server)
    (ran : server.run descriptions.graph environment schedule = some after) :
    (controlSystem descriptions allowed).Reachable after := by
  refine reached.run (fun event _ before later moved => ?_) ran
  exact ⟨environment, event, permitted, moved⟩

def rebootArguments : List Bytes := [ascii "reboot"]

/-- `initctl reboot` has written its message and gone before it is served;
another client stays without a word. -/
def rebootWritten : ControlServer 2 :=
  (run serviceOverControl.graph answering
    [.connect controlTask [], .connect controlTask
      (ControlMessage.reboot.encode 0), .write 1 5, .accept 0, .write 1 9,
      .close 1, .accept 1] ⟨startContext, [], [], none⟩).get (by decide)

theorem control_protocol_rebootWritten :
    ∃ after, rebootWritten.next serviceOverControl.graph answering
        (.ready 1 true []) = some after ∧ after.callsOf 1 = [.reboot] := by
  have reached : (controlSystem serviceOverControl fun _ => True).Reachable
      rebootWritten :=
    reachable_of_run trivial
      (.init ⟨startContext_init trivial, rfl, rfl, rfl⟩)
      (Option.some_get _).symm
  obtain ⟨-, -, -, -, delivers⟩ := control_protocol reached 0
  have delivered := (delivers (by decide) 1 (rebootWritten.clients.get ⟨1, by decide⟩) []
    rebootArguments (.ok ()) (by decide) (by decide) (by decide)).2 .reboot
    (by decide)
  cases delivered with
  | called once => exact absurd once (by decide)
  | refused none left => exact absurd left (by decide)
  | cutShort none left => exact absurd left (by decide)
  | underway none here pending =>
      exact pending.called 1 (by decide) (by decide) answering
        true [] (by decide)

end ControlServer

end Initd
