import Initd.Runtime.Connections
import Initd.Runtime.Initctl

namespace Initd

open Library Connection

/-! What becomes of the message of a client. -/

namespace ControlClient

variable {n : Nat}

/-- Everything that happens to one client, its socket and its connection. -/
inductive Step : ControlClient n → ControlClient n → Prop
  | write {client : ControlClient n} (count : Nat)
      (here : client.stage.isLeft = false) : Step client (client.write count)
  | close {client : ControlClient n} : Step client { client with closed := true }
  | accept {client : ControlClient n} (id : Nat)
      (waiting : client.stage = .waiting) :
      Step client { client with stage := .served id }
  | read {client : ControlClient n} {id : Nat} (operation : ContextOperation)
      (served : client.stage = .served id) : Step client (client.read operation)
  | tagged {client : ControlClient n} (tag : DestroyedTag) :
      Step client { client with tag := tag }
  | refuse {client : ControlClient n} (waiting : client.stage = .waiting) :
      Step client (client.leave .refused)
  | stop {client : ControlClient n} {id : Nat}
      (served : client.stage = .served id) :
      Step client (client.leave .stopped)
  | hangUp {client : ControlClient n} {id : Nat}
      (served : client.stage = .served id) (closed : client.closed = true)
      (drained : client.avail = []) : Step client (client.leave .hungUp)
  | fail {client : ControlClient n} {id : Nat}
      (served : client.stage = .served id)
      (failed : client.connection.connected = false) :
      Step client (client.leave .failed)

abbrev Steps : ControlClient n → ControlClient n → Prop :=
  Relation.ReflTransGen Step

theorem swept_steps (ctx : Context n) (client : ControlClient n) :
    Steps client (client.swept ctx) := by
  unfold swept
  cases stage : client.stage with
  | waiting =>
      dsimp only
      split
      · exact .refl
      · exact .single (.refuse stage)
  | served id =>
      dsimp only
      split
      · exact .refl
      · exact .single (.stop stage)
  | left why => exact .refl

/-- How far a message has come that is all that its client sends. -/
inductive Sending (padding : UInt8) (message : ControlMessage) :
    ControlClient n → Prop
  | underway {client : ControlClient n}
      (here : client.stage.isLeft = false)
      (connected : client.connection.connected = true)
      (none : client.connection.dispatched = [])
      (bytes : client.connection.buffer ++ (client.avail ++ client.unsent) =
        message.encode padding)
      (more : client.avail ++ client.unsent ≠ []) : Sending padding message client
  | called {client : ControlClient n}
      (once : client.connection.dispatched = [message])
      (buffer : client.connection.buffer = []) (avail : client.avail = [])
      (unsent : client.unsent = []) : Sending padding message client
  | lost {client : ControlClient n} {why : Departure}
      (left : client.stage = .left why)
      (none : client.connection.dispatched = [])
      (how : why = .refused ∨ why = .stopped ∨
        why = .hungUp ∧ client.closed = true ∧ client.unsent ≠ []) :
      Sending padding message client

section Sending

variable {padding : UInt8} {message : ControlMessage}
  {client later : ControlClient n}

theorem sending_connect (t : Fin n) (message : ControlMessage)
    (padding : UInt8) :
    Sending padding message (connect t (message.encode padding)) := by
  refine .underway rfl rfl rfl rfl ?_
  rw [connect, List.nil_append]
  refine List.ne_nil_of_length_pos ?_
  rw [ControlMessage.encode_length]
  omega

/-- The next read of the message takes what has arrived, and calls the
operation once it is whole. -/
theorem read_underway (small : message.measure ≤ messageLimit)
    (operation : ContextOperation) (here : client.stage.isLeft = false)
    (connected : client.connection.connected = true)
    (none : client.connection.dispatched = [])
    (bytes : client.connection.buffer ++ (client.avail ++ client.unsent) =
      message.encode padding) :
    (client.unsent ≠ [] →
      parseMessage (client.connection.buffer ++ client.avail) = .ok .none ∧
      Sending padding message (client.read operation)) ∧
    (client.unsent = [] →
      parseMessage (client.connection.buffer ++ client.avail) =
        .ok (some message) ∧
      Sending padding message (client.read operation) ∧
      (client.read operation).connection.dispatched = [message]) := by
  have takes := controlFraming_takesAlone padding
  rw [← List.append_assoc] at bytes
  constructor
  · intro more
    have start : client.connection.buffer ++ client.avail <+:
        message.encode padding := ⟨client.unsent, bytes⟩
    have early : client.connection.buffer ++ client.avail ≠
        message.encode padding := by
      intro whole
      rw [whole] at bytes
      exact more (List.append_right_eq_self.mp bytes)
    have waits : parseMessage (client.connection.buffer ++ client.avail) =
        .ok .none := takes.partly message small _ start early
    refine ⟨waits, .underway here ?_ ?_ ?_ ?_⟩ <;>
      simp only [read, onReady, waits, List.nil_append]
    · exact connected
    · exact none
    · exact bytes
    · exact more
  · intro all
    rw [all, List.append_nil] at bytes
    have whole : parseMessage (client.connection.buffer ++ client.avail) =
        .ok (some message) := by
      rw [bytes]
      exact takes.whole message small
    have dispatched :
        (client.read operation).connection.dispatched = [message] ∧
        (client.read operation).connection.buffer = [] := by
      simp only [read, onReady, whole, none, List.nil_append]
      exact ⟨ended_dispatched _ _, ended_buffer _ _⟩
    exact ⟨whole, .called dispatched.1 dispatched.2 rfl all, dispatched.1⟩

theorem Sending.step (small : message.measure ≤ messageLimit)
    (sending : Sending padding message client) (step : Step client later) :
    Sending padding message later := by
  cases sending with
  | underway here connected none bytes more =>
      cases step with
      | write count =>
          have same : client.avail ++ client.unsent.take count ++
              client.unsent.drop count = client.avail ++ client.unsent := by
            rw [List.append_assoc, List.take_append_drop]
          refine .underway here connected none ?_ ?_ <;> dsimp only [write] <;>
            rw [same]
          · exact bytes
          · exact more
      | close => exact .underway here connected none bytes more
      | accept id waiting => exact .underway rfl connected none bytes more
      | read operation served =>
          have reads := read_underway small operation here connected none bytes
          by_cases all : client.unsent = []
          · exact (reads.2 all).2.1
          · exact (reads.1 all).2
      | tagged tag => exact .underway here connected none bytes more
      | refuse => exact .lost rfl none (.inl rfl)
      | stop => exact .lost rfl none (.inr (.inl rfl))
      | hangUp served closed drained =>
          rw [drained, List.nil_append] at more
          exact .lost rfl none (.inr (.inr ⟨rfl, closed, more⟩))
      | fail served failed =>
          rw [connected] at failed
          contradiction
  | called once buffer avail unsent =>
      cases step with
      | write count here =>
          refine .called once buffer ?_ ?_ <;> simp [write, avail, unsent]
      | close => exact .called once buffer avail unsent
      | accept id waiting => exact .called once buffer avail unsent
      | read operation served =>
          have waits : parseMessage [] = .ok .none := rfl
          refine .called ?_ ?_ rfl unsent <;>
            simp only [read, onReady, buffer, avail, List.append_nil, waits]
          exact once
      | tagged tag => exact .called once buffer avail unsent
      | refuse waiting => exact .called once rfl avail unsent
      | stop served => exact .called once rfl avail unsent
      | hangUp served closed drained => exact .called once rfl avail unsent
      | fail served failed => exact .called once rfl avail unsent
  | lost left none how =>
      cases step with
      | write count here =>
          rw [left] at here
          contradiction
      | close =>
          exact .lost left none
            (how.imp_right fun how => how.imp_right fun h => ⟨h.1, rfl, h.2.2⟩)
      | accept id waiting =>
          rw [left] at waiting
          contradiction
      | read operation served =>
          rw [left] at served
          contradiction
      | tagged tag => exact .lost left none how
      | refuse waiting =>
          rw [left] at waiting
          contradiction
      | stop served =>
          rw [left] at served
          contradiction
      | hangUp served closed drained =>
          rw [left] at served
          contradiction
      | fail served failed =>
          rw [left] at served
          contradiction

end Sending

/-- Nothing is said, and nothing is called. -/
structure Silent (client : ControlClient n) : Prop where
  none : client.connection.dispatched = []
  buffer : client.connection.buffer = []
  avail : client.avail = []
  unsent : client.unsent = []

theorem Silent.step {client later : ControlClient n} (silent : client.Silent)
    (step : Step client later) : later.Silent := by
  obtain ⟨none, buffer, avail, unsent⟩ := silent
  cases step with
  | write count here =>
      exact ⟨none, buffer, by simp [write, avail, unsent],
        by simp [write, unsent]⟩
  | close | tagged => exact ⟨none, buffer, avail, unsent⟩
  | accept id waiting => exact ⟨none, buffer, avail, unsent⟩
  | read operation served =>
      have waits : parseMessage [] = .ok .none := rfl
      refine ⟨?_, ?_, rfl, unsent⟩ <;>
        simp only [read, onReady, buffer, avail, List.append_nil, waits]
      exact none
  | refuse | stop | hangUp | fail => exact ⟨none, rfl, avail, unsent⟩

end ControlClient

namespace ControlServer

open ControlClient AsyncTaskHandle

variable {n : Nat}

/-- The operations that the connection of a client has called. -/
def callsOf (k : Nat) (server : ControlServer n) : List ControlMessage :=
  server.calls.filterMap fun call =>
    if call.1 = k then some call.2 else none

/-- What holds while the callback of the client `current` runs, if one does.
Only its socket can be destroyed without a fault. -/
structure Sound (current : Option Nat) (server : ControlServer n) : Prop where
  attached : server.Attached
  listening : server.Listening
  journal : ∀ k client, server.clients[k]? = some client →
    client.connection.dispatched = server.callsOf k
  known : ∀ call ∈ server.calls, call.1 < server.clients.length
  asserted : server.fault ≠ some .assertion
  tags : ∀ k client, server.clients[k]? = some client →
    client.stage.isLeft = false →
      (client.tag = .callback ↔ current = some k)
  faulted : server.fault = none ↔ ∀ k client,
    server.clients[k]? = some client → client.stage = .left .stopped →
      current = some k

def Evolved (server after : ControlServer n) : Prop :=
  ∀ (j : Nat) (later : ControlClient n), after.clients[j]? = some later →
    ∃ client, server.clients[j]? = some client ∧ Steps client later

/-- A part of an event is steps of the context and of each client. -/
structure Progress (descriptions : TaskDescriptions n)
    (allowed : Environment n → Prop) (current : Option Nat)
    (server after : ControlServer n) : Prop where
  sound : after.Sound current
  clients : Evolved server after
  contexts : Relation.ReflTransGen (contextSystem descriptions allowed).step
    server.ctx after.ctx

section Progress

variable {descriptions : TaskDescriptions n} {allowed : Environment n → Prop}
  {current other : Option Nat} {server middle after : ControlServer n}
  {client later : ControlClient n} {k : Nat}

theorem Progress.trans
    (first : Progress descriptions allowed other server middle)
    (second : Progress descriptions allowed current middle after) :
    Progress descriptions allowed current server after := by
  refine ⟨second.sound, fun j later found => ?_,
    first.contexts.trans second.contexts⟩
  obtain ⟨between, found', steps'⟩ := second.clients j later found
  obtain ⟨client, found'', steps⟩ := first.clients j between found'
  exact ⟨client, found'', steps.trans steps'⟩

theorem forall_clients_iff (found : server.clients[k]? = some client)
    {holds : Nat → ControlClient n → Prop} :
    (∀ j other, server.clients[j]? = some other → holds j other) ↔
      holds k client ∧ ∀ j other, j ≠ k → server.clients[j]? = some other →
        holds j other := by
  refine ⟨fun all => ⟨all k client found, fun j other _ => all j other⟩, ?_⟩
  rintro ⟨here, others⟩ j other found'
  by_cases same : j = k
  · subst j
    obtain rfl := Option.some.inj (found.symm.trans found')
    exact here
  · exact others j other same found'

/-- A change to one client leaves the others as they are. -/
theorem replace_forall_iff (found : server.clients[k]? = some client)
    (later : ControlClient n) {holds : Nat → ControlClient n → Prop} :
    (∀ j other, (server.replace k later).clients[j]? = some other →
        holds j other) ↔
      holds k later ∧ ∀ j other, j ≠ k → server.clients[j]? = some other →
        holds j other := by
  have index := replace_getElem? found later
  have here : (server.replace k later).clients[k]? = some later := by
    rw [index, if_pos rfl]
  refine (forall_clients_iff here).trans (and_congr_right fun _ => ?_)
  refine forall_congr' fun j => forall_congr' fun other =>
    imp_congr_right fun different => ?_
  rw [index, if_neg different]

/-- The faults stay where they come from if one client changes. -/
theorem faulted_replace (found : server.clients[k]? = some client)
    (here : (client.stage = .left .stopped → current = some k) ↔
      (later.stage = .left .stopped → other = some k))
    (frame : ∀ j, j ≠ k → (current = some j ↔ other = some j)) :
    (∀ j client, server.clients[j]? = some client →
        client.stage = .left .stopped → current = some j) ↔
      ∀ j client, (server.replace k later).clients[j]? = some client →
        client.stage = .left .stopped → other = some j := by
  rw [forall_clients_iff found, replace_forall_iff found later, here]
  refine and_congr_right fun _ => forall_congr' fun j => forall_congr' fun _ =>
    imp_congr_right fun different => ?_
  rw [frame j different]

theorem replace_evolved (found : server.clients[k]? = some client)
    (steps : Steps client later) : Evolved server (server.replace k later) := by
  intro j other found'
  rw [replace_getElem? found] at found'
  split at found'
  · next same =>
      subst j
      obtain rfl := Option.some.inj found'
      exact ⟨client, found, steps⟩
  · exact ⟨other, found', .refl⟩

/-- A change to one client, with the operations that its connection calls.  It
may be that its callback starts to run, or ends. -/
theorem Sound.replace_calls (sound : server.Sound current)
    (found : server.clients[k]? = some client) (steps : Steps client later)
    (task : later.task = client.task) (stage : later.stage = client.stage)
    (messages : List ControlMessage)
    (dispatched : later.connection.dispatched =
      client.connection.dispatched ++ messages)
    (tag : client.stage.isLeft = false →
      (later.tag = .callback ↔ other = some k))
    (frame : ∀ j, (j = k → client.stage = .left .stopped) →
      (current = some j ↔ other = some j)) :
    Progress descriptions allowed other server { server.replace k later with
      calls := server.calls ++ messages.map fun message => (k, message) } where
  sound := by
    have attached := sound.attached.replace found task stage
    have listening := sound.listening.replace (k := k) fun waiting => by
      rw [task]
      exact sound.listening client (List.mem_of_getElem? found)
        (stage ▸ waiting)
    refine ⟨⟨attached.live, attached.served, attached.once, attached.nodup,
      attached.fresh⟩, listening, ?_, fun call member => ?_, sound.asserted, ?_,
      sound.faulted.trans (faulted_replace found ?_ fun j different =>
        frame j fun same => absurd same different)⟩
    · have calls : ∀ j, callsOf j { server.replace k later with
          calls := server.calls ++ messages.map fun message =>
            (k, message) } = server.callsOf j ++
              if j = k then messages else [] := by
        intro j
        simp only [callsOf, List.filterMap_append, List.filterMap_map]
        congr 1
        split
        · next same =>
            subst j
            simp
        · next different => simp [Ne.symm different]
      refine (replace_forall_iff found later).mpr
        ⟨?_, fun j other different found' => ?_⟩
      · rw [calls, dispatched, sound.journal k client found, if_pos rfl]
      · rw [calls, sound.journal j other found', if_neg different,
          List.append_nil]
    · have inside := (List.getElem?_eq_some_iff.mp found).1
      dsimp only
      rw [ControlServer.replace, List.length_set]
      rcases List.mem_append.mp member with earlier | new
      · exact sound.known call earlier
      · obtain ⟨message, -, rfl⟩ := List.mem_map.mp new
        exact inside
    · refine (replace_forall_iff found later).mpr
        ⟨fun here => tag (stage ▸ here), fun j other different found' here => ?_⟩
      exact (sound.tags j other found' here).trans
        (frame j fun same => absurd same different)
    · rw [stage]
      exact imp_congr_right fun left => frame k fun _ => left
  clients := by
    have evolved := replace_evolved found steps
    exact evolved
  contexts := .refl

theorem Sound.replace (sound : server.Sound current)
    (found : server.clients[k]? = some client) (steps : Steps client later)
    (task : later.task = client.task) (stage : later.stage = client.stage)
    (tag : later.tag = client.tag)
    (dispatched : later.connection.dispatched = client.connection.dispatched) :
    Progress descriptions allowed current server (server.replace k later) := by
  have progress : Progress descriptions allowed current server _ :=
    sound.replace_calls found steps task stage []
      (by rw [dispatched, List.append_nil])
      (fun here => tag ▸ sound.tags k client found here) fun _ _ => Iff.rfl
  rwa [List.map_nil, List.append_nil] at progress

/-- The callback of a client that is served starts to run, or ends. -/
theorem Sound.tagged (sound : server.Sound current)
    (found : server.clients[k]? = some client) {id : Nat}
    (stage : client.stage = .served id) (tag : DestroyedTag)
    (runs : tag = .callback ↔ other = some k)
    (frame : ∀ j, j ≠ k → (current = some j ↔ other = some j)) :
    Progress descriptions allowed other server
      (server.replace k { client with tag := tag }) := by
  have progress : Progress descriptions allowed other server _ :=
    sound.replace_calls found (.single (.tagged tag)) rfl rfl []
      (List.append_nil _).symm (fun _ => runs) fun j left => frame j fun same => by
        rw [stage] at left
        exact absurd (left same) (by simp)
  rwa [List.map_nil, List.append_nil] at progress

theorem swept_dispatched (ctx : Context n) (client : ControlClient n) :
    (client.swept ctx).connection.dispatched =
      client.connection.dispatched := by
  unfold ControlClient.swept
  cases client.stage with
  | waiting => dsimp only; split <;> rfl
  | served id => dsimp only; split <;> rfl
  | left why => rfl

theorem swept_isLeft {ctx : Context n}
    (here : (client.swept ctx).stage.isLeft = false) :
    client.swept ctx = client := by
  unfold ControlClient.swept at here ⊢
  cases stage : client.stage with
  | waiting =>
      simp only [stage] at here ⊢
      split at here
      · next listening => rw [if_pos listening]
      · contradiction
  | served id =>
      simp only [stage] at here ⊢
      split at here
      · next live => rw [if_pos live]
      · contradiction
  | left why => rfl

theorem swept_stopped {ctx : Context n} :
    (client.swept ctx).stage = .left .stopped ↔
      client.stage = .left .stopped ∨ ∃ id, client.stage = .served id ∧
        id ∉ (ctx.state.tasks client.task).handle.connections := by
  unfold ControlClient.swept
  cases stage : client.stage with
  | waiting =>
      dsimp only
      split <;> simp [ControlClient.leave, stage]
  | served id =>
      dsimp only
      split
      · next live => simp [stage, live]
      · next gone => simp [ControlClient.leave, gone]
  | left why => simp [stage]

theorem dangles_iff {ctx : Context n} :
    client.dangles ctx = true ↔ client.tag ≠ .callback ∧
      ∃ id, client.stage = .served id ∧
        id ∉ (ctx.state.tasks client.task).handle.connections := by
  unfold ControlClient.dangles
  cases client.stage <;> simp [and_comm]

theorem moved_fault (ctx : Context n) :
    (server.moved ctx).fault = none ↔ server.fault = none ∧
      ∀ client ∈ server.clients, client.dangles ctx ≠ true := by
  simp only [ControlServer.moved, ControlServer.raise]
  split
  · next some =>
      obtain ⟨client, member, dangles⟩ := List.any_eq_true.mp some
      exact iff_of_false (by simp) fun both => both.2 client member dangles
  · next none =>
      simp only [List.any_eq_true, not_exists, not_and] at none
      exact (and_iff_left none).symm

/-- A change of the tasks, with all that it does to the clients. -/
theorem Sound.moved (sound : server.Sound current) {ctx : Context n}
    (related : InitdState.HandlesRelated SameOrUnused server.ctx.state
      ctx.state)
    (stepped : (contextSystem descriptions allowed).step server.ctx ctx) :
    Progress descriptions allowed current server (server.moved ctx) where
  sound := by
    refine ⟨sound.attached.moved related, moved_listening ctx,
      fun j later found => ?_, fun call member => ?_, ?_,
      fun j later found here => ?_, ?_⟩
    · simp only [ControlServer.moved, List.getElem?_map,
        Option.map_eq_some_iff] at found
      obtain ⟨client, found, rfl⟩ := found
      rw [swept_dispatched]
      exact sound.journal j client found
    · rw [ControlServer.moved, List.length_map]
      exact sound.known call member
    · have asserted := sound.asserted
      simp only [ControlServer.moved, ControlServer.raise]
      split
      · cases fault : server.fault with
        | none => simp
        | some fault' => simpa [fault] using asserted
      · exact asserted
    · simp only [ControlServer.moved, List.getElem?_map,
        Option.map_eq_some_iff] at found
      obtain ⟨client, found, rfl⟩ := found
      have same := swept_isLeft here
      rw [same] at here ⊢
      exact sound.tags j client found here
    · rw [moved_fault, sound.faulted]
      simp only [ControlServer.moved, List.getElem?_map,
        Option.map_eq_some_iff]
      constructor
      · rintro ⟨stopped, kept⟩ j _ ⟨client, found, rfl⟩ left
        rcases swept_stopped.mp left with before | gone
        · exact stopped j client found before
        · obtain ⟨id, stage, lost⟩ := gone
          refine (sound.tags j client found (by rw [stage]; rfl)).mp ?_
          by_contra tag
          exact kept client (List.mem_of_getElem? found)
            (dangles_iff.mpr ⟨tag, id, stage, lost⟩)
      · intro stopped
        refine ⟨fun j client found left => stopped j _ ⟨client, found, rfl⟩
          (swept_stopped.mpr (.inl left)), fun client member dangles => ?_⟩
        obtain ⟨j, found⟩ := List.getElem?_of_mem member
        obtain ⟨tag, id, stage, gone⟩ := dangles_iff.mp dangles
        exact tag ((sound.tags j client found (by rw [stage]; rfl)).mpr
          (stopped j _ ⟨client, found, rfl⟩
            (swept_stopped.mpr (.inr ⟨id, stage, gone⟩))))
  clients j later found := by
    simp only [ControlServer.moved, List.getElem?_map,
      Option.map_eq_some_iff] at found
    obtain ⟨client, found, rfl⟩ := found
    exact ⟨client, found, swept_steps ctx client⟩
  contexts := .single stepped

theorem Sound.tags_returned (sound : server.Sound (some k))
    (found : server.clients[k]? = some client)
    (left : client.stage.isLeft = true) (j : Nat) (other : ControlClient n)
    (found' : server.clients[j]? = some other)
    (here : other.stage.isLeft = false) :
    other.tag = .callback ↔ none = some j := by
  rw [sound.tags j other found' here]
  refine iff_of_false ?_ (by simp)
  rintro ⟨⟩
  obtain rfl := Option.some.inj (found.symm.trans found')
  rw [left] at here
  contradiction

/-- The callback of a client has destroyed its socket, and ends. -/
theorem Sound.returned (sound : server.Sound (some k))
    (found : server.clients[k]? = some client)
    (left : client.stage.isLeft = true) (kept : client.stage ≠ .left .stopped) :
    server.Sound none where
  attached := sound.attached
  listening := sound.listening
  journal := sound.journal
  known := sound.known
  asserted := sound.asserted
  tags := sound.tags_returned found left
  faulted := by
    refine sound.faulted.trans ⟨fun stopped j other found' left' => ?_,
      fun stopped j other found' left' => ?_⟩
    · obtain ⟨⟩ := stopped j other found' left'
      obtain rfl := Option.some.inj (found.symm.trans found')
      exact absurd left' kept
    · exact nomatch stopped j other found' left'

/-- The `on_disconnect` that the callback of a client calls destroys its
socket. -/
theorem Sound.onDisconnect (sound : server.Sound (some k))
    (found : server.clients[k]? = some client) {id : Nat}
    (stage : client.stage = .served id) {why : Departure}
    (kept : why ≠ .stopped)
    (step : ControlClient.Step client (client.leave why))
    {environment : Environment n} (permitted : allowed environment) :
    Progress descriptions allowed none server
        (server.onDisconnect k client id why) ∧
      (server.onDisconnect k client id why).clients[k]? =
        some (client.leave why) := by
  have tag : client.tag = .callback :=
    (sound.tags k client found (by rw [stage]; rfl)).mpr rfl
  have attached := sound.attached.onDisconnect found stage tag why
  have listening : (server.onDisconnect k client id why).Listening :=
    sound.listening.onDisconnect id why
  have index := replace_getElem? found (client.leave why)
  rw [sound.attached.onDisconnect_eq found stage tag] at attached listening ⊢
  have here : (server.replace k (client.leave why)).clients[k]? =
      some (client.leave why) := by rw [index, if_pos rfl]
  have stays : (client.leave why).stage ≠ .left .stopped := by
    simp [ControlClient.leave, kept]
  refine ⟨⟨returned (k := k) ⟨attached, listening, ?_, ?_, sound.asserted, ?_, ?_⟩
    here rfl stays, ?_, ?_⟩, here⟩
  · exact (replace_forall_iff found _).mpr ⟨sound.journal k client found,
      fun j other _ => sound.journal j other⟩
  · intro call member
    dsimp only
    rw [ControlServer.replace, List.length_set]
    exact sound.known call member
  · refine (replace_forall_iff found _).mpr ⟨fun here => ?_,
      fun j other _ => sound.tags j other⟩
    contradiction
  · exact sound.faulted.trans (faulted_replace found
      (iff_of_true (fun _ => rfl) fun _ => rfl) fun _ _ => Iff.rfl)
  · exact replace_evolved found (.single step)
  · exact .single ⟨environment, .disconnected client.task id, _, permitted,
      rfl, rfl⟩

theorem read_failed (operation : ContextOperation) {what : Bytes}
    (refused : parseMessage (client.connection.buffer ++ client.avail) =
      .error what) :
    (client.read operation).connection.connected = false ∧
      (client.read operation).connection.dispatched =
        client.connection.dispatched := by
  simp [ControlClient.read, Connection.onReady, refused, Connection.fail]

theorem read_waits (operation : ContextOperation)
    (waits : parseMessage (client.connection.buffer ++ client.avail) =
      .ok none) :
    (client.read operation).connection.dispatched =
      client.connection.dispatched := by
  simp [ControlClient.read, Connection.onReady, waits]

theorem read_calls (operation : ContextOperation) {message : ControlMessage}
    (whole : parseMessage (client.connection.buffer ++ client.avail) =
      .ok (some message)) :
    (client.read operation).connection.dispatched =
        client.connection.dispatched ++ [message] ∧
      ∀ what, operation client.connection.dispatched message = .threw what →
        (client.read operation).connection.connected = false := by
  simp only [ControlClient.read, Connection.onReady, whole]
  refine ⟨Connection.ended_dispatched _ _, fun what threw => ?_⟩
  rw [threw]
  rfl

theorem swept_eq_self {ctx : Context n} {id : Nat}
    (stage : client.stage = .served id)
    (live : id ∈ (ctx.state.tasks client.task).handle.connections) :
    client.swept ctx = client := by
  simp only [ControlClient.swept, stage, live, if_true]

theorem swept_getElem? {ctx : Context n}
    (found : server.clients[k]? = some client)
    (same : client.swept ctx = client) :
    (server.moved ctx).clients[k]? = some client := by
  rw [ControlServer.moved, List.getElem?_map, found, Option.map_some, same]

/-- The message has destroyed the connection that it came over, and the handler
goes on. -/
theorem Sound.misused (sound : server.Sound (some k))
    (found : server.clients[k]? = some client)
    (left : client.stage = .left .stopped) (how : Misuse) :
    Progress descriptions allowed none server
      (server.raise (.misuse how)) where
  sound := by
    have attached := sound.attached
    refine ⟨⟨attached.live, attached.served, attached.once, attached.nodup,
      attached.fresh⟩, sound.listening, sound.journal, sound.known, ?_,
      sound.tags_returned found (by rw [left]; rfl), ?_⟩
    · have asserted := sound.asserted
      simp only [ControlServer.raise]
      cases fault : server.fault with
      | none => simp
      | some fault' => simpa [fault] using asserted
    · refine iff_of_false (by simp [ControlServer.raise]) fun stopped => ?_
      exact nomatch stopped k client found left
  clients _ later found := ⟨later, found, .refl⟩
  contexts := .refl

/-- The handler after the operation of a message, of a client that was served
before it. -/
theorem Sound.ended (sound : server.Sound (some k))
    (found : server.clients[k]? = some (client.swept server.ctx)) {id : Nat}
    (stage : client.stage = .served id) {threw : Bool}
    (failed : threw = true →
      id ∈ (server.ctx.state.tasks client.task).handle.connections →
        client.connection.connected = false)
    {environment : Environment n} (permitted : allowed environment) :
    (Progress descriptions allowed none server
          (server.ended k client id threw) ∧
        ∃ later, (server.ended k client id threw).clients[k]? = some later ∧
          later.stage.isLeft = true) ∨
      Progress descriptions allowed (some k) server
          (server.ended k client id threw) ∧
        (server.ended k client id threw).clients[k]? = some client := by
  unfold ControlServer.ended
  split
  · next live =>
      rw [swept_eq_self stage live] at found
      split
      · next exception =>
          have last : Progress descriptions allowed none _ _ ∧ _ :=
            sound.onDisconnect found stage (by simp)
              (.fail stage (failed exception live)) permitted
          exact .inl ⟨last.1, _, last.2, rfl⟩
      · exact .inr ⟨⟨sound, fun _ later found => ⟨later, found, .refl⟩, .refl⟩,
          found⟩
  · next gone =>
      have stopped : (client.swept server.ctx).stage = .left .stopped :=
        swept_stopped.mpr (.inr ⟨id, stage, gone⟩)
      exact .inl ⟨sound.misused found stopped _, _, found,
        by rw [stopped]; rfl⟩

/-- After its `on_read` a client is served no more, or it has been read. -/
theorem Sound.onRead (sound : server.Sound (some k))
    (found : server.clients[k]? = some client) {id : Nat}
    (stage : client.stage = .served id) {environment : Environment n}
    (permitted : allowed environment) {what : Bytes}
    (read : server.onRead descriptions.graph environment k client id what =
      some after) :
    (Progress descriptions allowed none server after ∧
        ∃ later, after.clients[k]? = some later ∧ later.stage.isLeft = true) ∨
      Progress descriptions allowed (some k) server after ∧
        ∃ operation, after.clients[k]? = some (client.read operation) := by
  unfold ControlServer.onRead at read
  generalize operation_eq : (fun _ : List ControlMessage =>
    server.ctx.reply descriptions.graph environment client.task id what) =
      operation at read
  have steps : Steps client (client.read operation) :=
    .single (.read operation stage)
  have here : (server.replace k (client.read operation)).clients[k]? =
      some (client.read operation) := by
    rw [replace_getElem? found, if_pos rfl]
  cases parsed : parseMessage (client.connection.buffer ++ client.avail) with
  | error what =>
      simp only [parsed, Option.some.injEq] at read
      subst after
      obtain ⟨failed, dispatched⟩ := read_failed operation parsed
      have first : Progress descriptions allowed (some k) server
          (server.replace k (client.read operation)) :=
        sound.replace found steps rfl rfl rfl dispatched
      have second : Progress descriptions allowed none _ _ ∧ _ :=
        first.sound.onDisconnect here stage (by simp) (.fail stage failed)
          permitted
      exact .inl ⟨first.trans second.1, _, second.2, rfl⟩
  | ok result =>
      cases result with
      | none =>
          simp only [parsed, Option.some.injEq] at read
          subst after
          exact .inr ⟨sound.replace found steps rfl rfl rfl
            (read_waits operation parsed), operation, here⟩
      | some message =>
          simp only [parsed, Option.bind_eq_bind, Option.bind_eq_some_iff,
            Option.pure_def, Option.some.injEq] at read
          obtain ⟨call, dispatched, rfl⟩ := read
          have dispatched : server.ctx.dispatch descriptions.graph environment
            message = some call := dispatched
          obtain ⟨called, threw⟩ := read_calls operation parsed
          have first : Progress descriptions allowed (some k) server
              { server.replace k (client.read operation) with
                calls := server.calls ++ [(k, message)] } :=
            sound.replace_calls found steps rfl rfl [message] called
              (fun here => sound.tags k client found here) fun _ _ => Iff.rfl
          have second : Progress descriptions allowed (some k) _
              (ControlServer.moved call.state
                { server.replace k (client.read operation) with
                  calls := server.calls ++ [(k, message)] }) :=
            first.sound.moved
              (Context.dispatch_related followed_sameOrUnused dispatched)
              ⟨environment, .called message, call, permitted, dispatched, rfl⟩
          have there : (ControlServer.moved call.state
              { server.replace k (client.read operation) with
                calls := server.calls ++ [(k, message)] }).clients[k]? =
              some ((client.read operation).swept call.state) := by
            rw [ControlServer.moved, List.getElem?_map]
            exact congrArg (Option.map _) here
          have third : (Progress descriptions allowed none _
                (ControlServer.ended k (client.read operation) id call.threw _) ∧
              _) ∨ Progress descriptions allowed (some k) _ _ ∧ _ :=
            second.sound.ended there stage
              (fun exception live => threw what (by
                rw [← operation_eq]
                have live :
                    id ∈ (call.state.state.tasks client.task).handle.connections :=
                  live
                simp only [Context.reply, dispatched, live, if_true, exception]))
              permitted
          rcases third with ⟨progress, left⟩ | ⟨progress, kept⟩
          · exact .inl ⟨first.trans (second.trans progress), left⟩
          · exact .inr ⟨first.trans (second.trans progress), operation, kept⟩

theorem Sound.onEvents (sound : server.Sound none) {environment : Environment n}
    (permitted : allowed environment) {hangUp : Bool} {what : Bytes}
    (happened : server.onEvents descriptions.graph environment k hangUp what =
      some after) :
    Progress descriptions allowed none server after := by
  obtain ⟨client, found, happened⟩ := Option.bind_eq_some_iff.mp happened
  cases stage : client.stage with
  | waiting =>
      rw [stage] at happened
      contradiction
  | left why =>
      rw [stage] at happened
      contradiction
  | served id =>
      simp only [stage, Option.bind_eq_bind, Option.bind_eq_some_iff,
        Option.guard_eq_some', exists_const, Option.pure_def] at happened
      obtain ⟨-, closed, middle, read, later, found', ends⟩ := happened
      rw [← stage] at read
      have entered : Progress descriptions allowed (some k) server
          (server.replace k { client with tag := .callback }) :=
        sound.tagged found stage .callback (by simp) fun j different => by
          simp [Ne.symm different]
      have here : (server.replace k { client with
          tag := .callback }).clients[k]? = some { client with
            tag := .callback } := by
        rw [replace_getElem? found, if_pos rfl]
      have turned : (Progress descriptions allowed none _ middle ∧ _) ∨
          Progress descriptions allowed (some k) _ middle ∧ _ :=
        entered.sound.onRead here stage permitted read
      rcases turned with
        ⟨progress, last, found'', left⟩ | ⟨progress, operation, found''⟩
      · obtain rfl := Option.some.inj (found''.symm.trans found')
        rw [if_pos fun served => by rw [served] at left; contradiction] at ends
        obtain rfl := Option.some.inj ends
        exact entered.trans progress
      · obtain rfl := Option.some.inj (found''.symm.trans found')
        split at ends
        · next destroyed => exact absurd stage destroyed
        · split at ends
          · next hung =>
              obtain rfl := Option.some.inj ends
              have last : Progress descriptions allowed none middle _ ∧ _ :=
                progress.sound.onDisconnect found' stage (by simp)
                  (.hangUp stage (closed hung) rfl) permitted
              exact entered.trans (progress.trans last.1)
          · obtain rfl := Option.some.inj ends
            have last : Progress descriptions allowed none middle _ :=
              progress.sound.tagged found' stage .dangling (by simp)
                fun j different => by simp [Ne.symm different]
            exact entered.trans (progress.trans last)

theorem Sound.connect (sound : server.Sound none) {t : Fin n} {sends : Bytes}
    (happened : server.connect t sends = some after) :
    after.Sound none ∧ after.ctx = server.ctx ∧
      after.clients = server.clients ++ [.connect t sends] := by
  simp only [ControlServer.connect, Option.bind_eq_bind,
    Option.bind_eq_some_iff, Option.guard_eq_some', exists_const,
    Option.pure_def, Option.some.injEq] at happened
  obtain ⟨listening, rfl⟩ := happened
  refine ⟨⟨sound.attached.connect t sends, ?_, ?_, ?_, sound.asserted, ?_, ?_⟩,
    rfl, rfl⟩
  · intro client member waiting
    rcases List.mem_append.mp member with earlier | new
    · exact sound.listening client earlier waiting
    · obtain rfl := List.mem_singleton.mp new
      exact listening
  · intro j client found
    rcases getElem?_concat_eq_some.mp found with earlier | ⟨rfl, rfl⟩
    · exact sound.journal j client earlier
    · refine (List.filterMap_eq_nil_iff.mpr fun call member => ?_).symm
      rw [if_neg (Nat.ne_of_lt (sound.known call member))]
  · intro call member
    rw [List.length_append]
    exact Nat.lt_of_lt_of_le (sound.known call member) (Nat.le_add_right _ _)
  · intro j client found here
    rcases getElem?_concat_eq_some.mp found with earlier | ⟨-, rfl⟩
    · exact sound.tags j client earlier here
    · simp [ControlClient.connect]
  · refine sound.faulted.trans ⟨fun stopped j client found left => ?_,
      fun stopped j client found => stopped j client
        (getElem?_concat_eq_some.mpr (.inl found))⟩
    rcases getElem?_concat_eq_some.mp found with earlier | ⟨-, rfl⟩
    · exact stopped j client earlier left
    · contradiction

theorem Sound.accept (sound : server.Sound none) {environment : Environment n}
    (permitted : allowed environment) (happened : server.accept k = some after) :
    Progress descriptions allowed none server after := by
  obtain ⟨client, found, happened⟩ := Option.bind_eq_some_iff.mp happened
  obtain ⟨handle, here, happened⟩ := Option.bind_eq_some_iff.mp happened
  simp only [Option.bind_eq_bind, Option.bind_eq_some_iff,
    Option.guard_eq_some', exists_const, Option.pure_def,
    Option.some.injEq] at happened
  obtain ⟨waiting, rfl⟩ := happened
  refine ⟨⟨sound.attached.accept found waiting here, ?_, ?_, ?_,
    sound.asserted, ?_, ?_⟩, ?_, ?_⟩
  · have replaced : (server.replace k { client with
        stage := .served handle.nextId }).Listening :=
      sound.listening.replace fun waits => by contradiction
    exact replaced.modifyControl client.task ControlTaskHandle.accept
  · exact (replace_forall_iff found _).mpr ⟨sound.journal k client found,
      fun j other _ => sound.journal j other⟩
  · intro call member
    dsimp only
    rw [ControlServer.replace, List.length_set]
    exact sound.known call member
  · exact (replace_forall_iff found _).mpr
      ⟨fun _ => sound.tags k client found (by rw [waiting]; rfl),
        fun j other _ => sound.tags j other⟩
  · refine sound.faulted.trans (faulted_replace found (iff_of_true ?_ ?_)
      fun _ _ => Iff.rfl)
    · intro left
      rw [waiting] at left
      contradiction
    · intro left
      contradiction
  · have evolved := replace_evolved found
      (.single (.accept handle.nextId waiting))
    exact evolved
  · exact .single ⟨environment, .accepted client.task, _, permitted, rfl, rfl⟩

theorem Sound.close (sound : server.Sound none)
    (happened : server.close k = some after) :
    Progress descriptions allowed none server after := by
  obtain ⟨client, found, ends⟩ := Option.bind_eq_some_iff.mp happened
  obtain rfl := Option.some.inj ends
  exact sound.replace found (.single .close) rfl rfl rfl rfl

theorem Sound.write (sound : server.Sound none) {count : Nat}
    (happened : server.write k count = some after) :
    Progress descriptions allowed none server after := by
  obtain ⟨client, found, happened⟩ := Option.bind_eq_some_iff.mp happened
  simp only [Option.bind_eq_bind, Option.bind_eq_some_iff,
    Option.guard_eq_some', exists_const, Option.pure_def,
    Option.some.injEq] at happened
  obtain ⟨⟨-, here⟩, rfl⟩ := happened
  exact sound.replace found (.single (.write count here)) rfl rfl rfl rfl

theorem Sound.contextChanged (sound : server.Sound none)
    {environment : Environment n} (permitted : allowed environment)
    {event : Context.Event n}
    (happened : server.contextChanged descriptions.graph environment event =
      some after) :
    Progress descriptions allowed none server after := by
  simp only [ControlServer.contextChanged, Option.bind_eq_bind,
    Option.bind_eq_some_iff, Option.guard_eq_some', exists_const,
    Option.pure_def, Option.some.injEq] at happened
  obtain ⟨offSocket, call, stepped, rfl⟩ := happened
  exact sound.moved
    (Context.step_related followed_sameOrUnused offSocket stepped)
    ⟨environment, event, call, permitted, stepped, rfl⟩

/-- Every event is a client that connects, or it is steps of the context and
of the clients that there are. -/
theorem Sound.next (sound : server.Sound none) {environment : Environment n}
    (permitted : allowed environment) {event : Event n}
    (happened : server.next descriptions.graph environment event =
      some after) :
    Progress descriptions allowed none server after ∨
      after.Sound none ∧ after.ctx = server.ctx ∧ ∃ t sends,
        after.clients = server.clients ++ [.connect t sends] := by
  cases faultless : server.fault with
  | some fault => simp [ControlServer.next, faultless] at happened
  | none =>
      cases event with
      | context event =>
          simp only [ControlServer.next, faultless] at happened
          exact .inl (sound.contextChanged permitted happened)
      | connect t sends =>
          simp only [ControlServer.next, faultless] at happened
          obtain ⟨sound', same, appended⟩ := sound.connect happened
          exact .inr ⟨sound', same, t, sends, appended⟩
      | write k count =>
          simp only [ControlServer.next, faultless] at happened
          exact .inl (sound.write happened)
      | close k =>
          simp only [ControlServer.next, faultless] at happened
          exact .inl (sound.close happened)
      | accept k =>
          simp only [ControlServer.next, faultless] at happened
          exact .inl (sound.accept permitted happened)
      | ready k hangUp what =>
          simp only [ControlServer.next, faultless] at happened
          exact .inl (sound.onEvents permitted happened)

end Progress

end ControlServer

end Initd
