import Initd.Runtime.ControlServer

namespace Initd

open Library

/-! The connections of the control tasks, next to the clients that are served
on them. -/

namespace Context

open AsyncTaskHandle

variable {n : Nat} {ctx : Context n}

theorem modifyControl_control (t : Fin n)
    (change : ControlTaskHandle → ControlTaskHandle) (other : Fin n) :
    ((ctx.modifyControl t change).state.tasks other).handle.control =
      if other = t then
        ((ctx.state.tasks other).handle.control).map change
      else
        (ctx.state.tasks other).handle.control := by
  unfold modifyControl
  split
  · next same =>
      subst other
      rw [InitdState.modify_self]
      exact control_mapControl change _
  · next different => rw [InitdState.modify_of_ne _ different]

theorem accepted_connections {t : Fin n} {handle : ControlTaskHandle}
    (here : (ctx.state.tasks t).handle.control = some handle) (other : Fin n) :
    (((ctx.accepted t).state.state.tasks other).handle).connections =
      if other = t then
        handle.connections ++ [handle.nextId]
      else
        (ctx.state.tasks other).handle.connections := by
  rw [connections_eq, accepted, Outcome.done, modifyControl_control]
  split
  · next same =>
      subst other
      rw [here]
      rfl
  · exact (connections_eq _).symm

theorem disconnected_connections (t : Fin n) (id : Nat) (other : Fin n) :
    (((ctx.disconnected t id).state.state.tasks other).handle).connections =
      if other = t then
        (ctx.state.tasks other).handle.connections.erase id
      else
        (ctx.state.tasks other).handle.connections := by
  rw [connections_eq, disconnected, Outcome.done, modifyControl_control]
  split
  · rw [connections_eq]
    cases (ctx.state.tasks other).handle.control <;> rfl
  · exact (connections_eq _).symm

end Context

namespace ControlServer

variable {n : Nat}

def ServedAt (server : ControlServer n) (t : Fin n) (id k : Nat) : Prop :=
  ∃ client, server.clients[k]? = some client ∧ client.task = t ∧
    client.stage = .served id

/-- The clients that are served are those that the control tasks hold a
connection of, each under an id of its own. -/
structure Attached (server : ControlServer n) : Prop where
  live : ∀ {t id k}, server.ServedAt t id k →
    id ∈ (server.ctx.state.tasks t).handle.connections
  served : ∀ {t id}, id ∈ (server.ctx.state.tasks t).handle.connections →
    ∃ k, server.ServedAt t id k
  once : ∀ {t id k other}, server.ServedAt t id k →
    server.ServedAt t id other → k = other
  nodup : ∀ t, (server.ctx.state.tasks t).handle.connections.Nodup
  fresh : ∀ t handle, (server.ctx.state.tasks t).handle.control = some handle →
    ∀ id ∈ handle.connections, id < handle.nextId

section Attached

variable {server : ControlServer n} {client : ControlClient n} {k : Nat}

theorem replace_getElem? (found : server.clients[k]? = some client)
    (later : ControlClient n) (j : Nat) :
    (server.replace k later).clients[j]? =
      if j = k then some later else server.clients[j]? := by
  obtain ⟨inside, -⟩ := List.getElem?_eq_some_iff.mp found
  rw [replace, List.getElem?_set]
  by_cases same : k = j
  · subst j
    simp [inside]
  · simp [same, Ne.symm same]

theorem replace_servedAt (found : server.clients[k]? = some client)
    {later : ControlClient n} (task : later.task = client.task)
    (stage : later.stage = client.stage) (t : Fin n) (id j : Nat) :
    (server.replace k later).ServedAt t id j ↔ server.ServedAt t id j := by
  unfold ServedAt
  rw [replace_getElem? found]
  split
  · next same =>
      subst j
      simp [found, task, stage]
  · rfl

theorem Attached.replace (attached : server.Attached)
    (found : server.clients[k]? = some client) {later : ControlClient n}
    (task : later.task = client.task) (stage : later.stage = client.stage) :
    (server.replace k later).Attached where
  live served := attached.live
    ((replace_servedAt found task stage _ _ _).mp served)
  served inside := by
    obtain ⟨j, served⟩ := attached.served inside
    exact ⟨j, (replace_servedAt found task stage _ _ _).mpr served⟩
  once first second := attached.once
    ((replace_servedAt found task stage _ _ _).mp first)
    ((replace_servedAt found task stage _ _ _).mp second)
  nodup := attached.nodup
  fresh := attached.fresh

theorem swept_task (ctx : Context n) (client : ControlClient n) :
    (client.swept ctx).task = client.task := by
  unfold ControlClient.swept
  cases client.stage with
  | waiting => dsimp only; split <;> rfl
  | served id => dsimp only; split <;> rfl
  | left why => rfl

theorem swept_served (ctx : Context n) (client : ControlClient n) (id : Nat) :
    (client.swept ctx).stage = .served id ↔ client.stage = .served id ∧
      id ∈ (ctx.state.tasks client.task).handle.connections := by
  unfold ControlClient.swept
  cases stage : client.stage with
  | waiting => dsimp only; split <;> simp [ControlClient.leave, stage]
  | served other =>
      dsimp only
      split
      · next live =>
          rw [stage, Stage.served.injEq]
          exact ⟨fun same => ⟨same, same ▸ live⟩, fun both => both.1⟩
      · next gone =>
          rw [Stage.served.injEq]
          refine iff_of_false (by simp [ControlClient.leave]) ?_
          rintro ⟨rfl, live⟩
          exact gone live
  | left why => simp [stage]

theorem moved_servedAt (ctx : Context n) (t : Fin n) (id j : Nat) :
    (server.moved ctx).ServedAt t id j ↔ server.ServedAt t id j ∧
      id ∈ (ctx.state.tasks t).handle.connections := by
  simp only [ServedAt, moved, List.getElem?_map, Option.map_eq_some_iff]
  constructor
  · rintro ⟨_, ⟨client, found, rfl⟩, rfl, stage⟩
    obtain ⟨served, live⟩ := (swept_served ctx client id).mp stage
    rw [swept_task]
    exact ⟨⟨client, found, rfl, served⟩, live⟩
  · rintro ⟨⟨client, found, rfl, served⟩, live⟩
    exact ⟨_, ⟨client, found, rfl⟩, swept_task ctx client,
      (swept_served ctx client id).mpr ⟨served, live⟩⟩

theorem Attached.moved (attached : server.Attached) {ctx : Context n}
    (related : InitdState.HandlesRelated AsyncTaskHandle.SameOrUnused
      server.ctx.state ctx.state) :
    (server.moved ctx).Attached where
  live served := ((moved_servedAt ctx _ _ _).mp served).2
  served {t id} inside := by
    have live : id ∈ (ctx.state.tasks t).handle.connections := inside
    rcases (related t).connections with same | none
    · obtain ⟨j, served⟩ := attached.served (same ▸ live)
      exact ⟨j, (moved_servedAt ctx t id j).mpr ⟨served, live⟩⟩
    · rw [none] at live
      contradiction
  once first second := attached.once ((moved_servedAt ctx _ _ _).mp first).1
    ((moved_servedAt ctx _ _ _).mp second).1
  nodup t := by
    change (ctx.state.tasks t).handle.connections.Nodup
    rcases (related t).connections with same | none
    · rw [same]
      exact attached.nodup t
    · rw [none]
      exact List.nodup_nil
  fresh t handle here id inside := by
    rcases related t with same | unused
    · exact attached.fresh t handle (same ▸ here) id inside
    · rw [unused handle here] at inside
      contradiction

/-- The connection that calls its `on_disconnect` is found. -/
theorem Attached.onDisconnect_eq (attached : server.Attached)
    (found : server.clients[k]? = some client) {id : Nat}
    (stage : client.stage = .served id) (tag : client.tag = .callback)
    (why : Departure) :
    server.onDisconnect k client id why =
      { server.replace k (client.leave why) with
        ctx := (server.ctx.disconnected client.task id).state } := by
  rw [ControlServer.onDisconnect,
    if_pos (attached.live ⟨client, found, rfl, stage⟩), if_pos tag]
  rfl

theorem onDisconnect_servedAt (found : server.clients[k]? = some client)
    (why : Departure) (ctx : Context n) (t : Fin n) (id j : Nat) :
    ServedAt { server.replace k (client.leave why) with ctx := ctx } t id j ↔
      server.ServedAt t id j ∧ j ≠ k := by
  have index := replace_getElem? found (client.leave why) j
  unfold ServedAt
  dsimp only
  rw [index]
  split
  · next same =>
      subst j
      simp [ControlClient.leave]
  · next different => simp [different]

theorem Attached.onDisconnect (attached : server.Attached)
    (found : server.clients[k]? = some client) {id : Nat}
    (stage : client.stage = .served id) (tag : client.tag = .callback)
    (why : Departure) : (server.onDisconnect k client id why).Attached := by
  have here : server.ServedAt client.task id k := ⟨client, found, rfl, stage⟩
  rw [attached.onDisconnect_eq found stage tag]
  have served := onDisconnect_servedAt found why
    (server.ctx.disconnected client.task id).state
  have connections := server.ctx.disconnected_connections client.task id
  refine ⟨?_, ?_, ?_, ?_, ?_⟩
  · intro t other j present
    obtain ⟨before, different⟩ := (served t other j).mp present
    dsimp only
    rw [connections]
    split
    · next same =>
        subst t
        refine (List.mem_erase_of_ne ?_).mpr (attached.live before)
        rintro rfl
        exact different (attached.once before here)
    · exact attached.live before
  · intro t other inside
    dsimp only at inside
    rw [connections] at inside
    split at inside
    · next same =>
        subst t
        obtain ⟨j, before⟩ := attached.served (List.mem_of_mem_erase inside)
        refine ⟨j, (served _ other j).mpr ⟨before, ?_⟩⟩
        rintro rfl
        obtain ⟨client', found', -, stage'⟩ := before
        obtain rfl := Option.some.inj (found.symm.trans found')
        obtain rfl := Stage.served.inj (stage.symm.trans stage')
        exact (attached.nodup client.task).not_mem_erase inside
    · next different =>
        obtain ⟨j, before⟩ := attached.served inside
        refine ⟨j, (served t other j).mpr ⟨before, ?_⟩⟩
        rintro rfl
        obtain ⟨client', found', task, -⟩ := before
        obtain rfl := Option.some.inj (found.symm.trans found')
        exact different task.symm
  · exact fun first second => attached.once ((served _ _ _).mp first).1
      ((served _ _ _).mp second).1
  · intro t
    dsimp only
    rw [connections]
    split
    · exact (attached.nodup t).erase id
    · exact attached.nodup t
  · intro t handle control other inside
    rw [Context.disconnected, Outcome.done, Context.modifyControl_control]
      at control
    split at control
    · obtain ⟨before, same, rfl⟩ := Option.map_eq_some_iff.mp control
      exact attached.fresh t before same other (List.mem_of_mem_erase inside)
    · exact attached.fresh t handle control other inside

theorem Attached.accept (attached : server.Attached)
    (found : server.clients[k]? = some client)
    (waiting : client.stage = .waiting) {handle : ControlTaskHandle}
    (here : (server.ctx.state.tasks client.task).handle.control =
      some handle) :
    Attached { server.replace k { client with
        stage := .served handle.nextId } with
      ctx := (server.ctx.accepted client.task).state } := by
  have connections := Context.accepted_connections here
  have before : (server.ctx.state.tasks client.task).handle.connections =
      handle.connections := by
    rw [AsyncTaskHandle.connections_eq, here]
    rfl
  have unused : handle.nextId ∉ handle.connections := fun inside =>
    Nat.lt_irrefl _ (attached.fresh client.task handle here _ inside)
  have served : ∀ t id j, ServedAt { server.replace k { client with
        stage := .served handle.nextId } with
      ctx := (server.ctx.accepted client.task).state } t id j ↔
        server.ServedAt t id j ∨
          j = k ∧ t = client.task ∧ id = handle.nextId := by
    intro t id j
    have index := replace_getElem? found
      { client with stage := .served handle.nextId } j
    unfold ServedAt
    dsimp only
    rw [index]
    split
    · next same =>
        subst j
        simp [found, waiting, eq_comm]
    · next different => simp [different]
  refine ⟨?_, ?_, ?_, ?_, ?_⟩
  · intro t id j present
    dsimp only
    rw [connections]
    rcases (served t id j).mp present with earlier | ⟨-, rfl, rfl⟩
    · have live := attached.live earlier
      split
      · next same =>
          subst t
          exact List.mem_append_left _ (before ▸ live)
      · exact live
    · rw [if_pos rfl]
      exact List.mem_append_right _ List.mem_cons_self
  · intro t id inside
    dsimp only at inside
    rw [connections] at inside
    split at inside
    · next same =>
        subst t
        rcases List.mem_append.mp inside with earlier | new
        · obtain ⟨j, present⟩ := attached.served (before ▸ earlier)
          exact ⟨j, (served _ id j).mpr (.inl present)⟩
        · exact ⟨k, (served _ id k).mpr
            (.inr ⟨rfl, rfl, List.mem_singleton.mp new⟩)⟩
    · obtain ⟨j, present⟩ := attached.served inside
      exact ⟨j, (served t id j).mpr (.inl present)⟩
  · intro t id j other first second
    rcases (served t id j).mp first with earlier | ⟨rfl, rfl, rfl⟩
    · rcases (served t id other).mp second with earlier' | ⟨rfl, rfl, rfl⟩
      · exact attached.once earlier earlier'
      · exact absurd (before ▸ attached.live earlier) unused
    · rcases (served _ _ other).mp second with earlier | ⟨rfl, -, -⟩
      · exact absurd (before ▸ attached.live earlier) unused
      · rfl
  · intro t
    dsimp only
    rw [connections]
    split
    · next same =>
        subst t
        rw [← List.concat_eq_append, List.nodup_concat]
        exact ⟨unused, before ▸ attached.nodup client.task⟩
    · exact attached.nodup t
  · intro t later control id inside
    rw [Context.accepted, Outcome.done, Context.modifyControl_control]
      at control
    split at control
    · next same =>
        subst t
        obtain ⟨earlier, same, rfl⟩ := Option.map_eq_some_iff.mp control
        rcases List.mem_append.mp inside with old | new
        · exact Nat.lt_succ_of_lt (attached.fresh _ earlier same id old)
        · obtain rfl := List.mem_singleton.mp new
          exact Nat.lt_succ_self _
    · exact attached.fresh t later control id inside

theorem getElem?_concat_eq_some {Item : Type} {items : List Item}
    {last item : Item} {j : Nat} :
    (items ++ [last])[j]? = some item ↔
      items[j]? = some item ∨ j = items.length ∧ last = item := by
  by_cases inside : j < items.length
  · rw [List.getElem?_append_left inside]
    exact ⟨.inl, fun cases => cases.resolve_right (by omega)⟩
  · rw [List.getElem?_append_right (by omega)]
    have outside : items[j]? = none := List.getElem?_eq_none (by omega)
    by_cases final : j = items.length
    · subst j
      simp
    · have beyond : [last][j - items.length]? = none :=
        List.getElem?_eq_none (by simp only [List.length_singleton]; omega)
      simp [outside, beyond, final]

theorem Attached.connect (attached : server.Attached) (t : Fin n)
    (sends : Bytes) :
    Attached { server with
      clients := server.clients ++ [.connect t sends] } := by
  have served : ∀ t' id j, ServedAt { server with
      clients := server.clients ++ [.connect t sends] } t' id j ↔
        server.ServedAt t' id j := by
    intro t' id j
    unfold ServedAt
    dsimp only
    constructor
    · rintro ⟨client, found, task, stage⟩
      rcases getElem?_concat_eq_some.mp found with earlier | ⟨-, rfl⟩
      · exact ⟨client, earlier, task, stage⟩
      · contradiction
    · rintro ⟨client, found, task, stage⟩
      exact ⟨client, getElem?_concat_eq_some.mpr (.inl found), task, stage⟩
  exact ⟨fun present => attached.live ((served _ _ _).mp present),
    fun inside => (attached.served inside).imp fun j => (served _ _ j).mpr,
    fun first second => attached.once ((served _ _ _).mp first)
      ((served _ _ _).mp second),
    attached.nodup, attached.fresh⟩

end Attached

/-- A client only waits for a server socket that there is. -/
def Listening (server : ControlServer n) : Prop :=
  ∀ client ∈ server.clients, client.stage = .waiting →
    (server.ctx.state.tasks client.task).handle.control.isSome = true

section Listening

variable {server : ControlServer n} {client later : ControlClient n} {k : Nat}

theorem Listening.replace (listening : server.Listening)
    (waits : later.stage = .waiting →
      (server.ctx.state.tasks later.task).handle.control.isSome = true) :
    (server.replace k later).Listening := by
  intro other member waiting
  rcases List.mem_or_eq_of_mem_set member with earlier | rfl
  · exact listening other earlier waiting
  · exact waits waiting

theorem swept_waiting {ctx : Context n}
    (waiting : (client.swept ctx).stage = .waiting) :
    (ctx.state.tasks client.task).handle.control.isSome = true := by
  unfold ControlClient.swept at waiting
  cases stage : client.stage with
  | waiting =>
      rw [stage] at waiting
      dsimp only at waiting
      split at waiting
      · assumption
      · contradiction
  | served id =>
      rw [stage] at waiting
      dsimp only at waiting
      split at waiting
      · rw [stage] at waiting
        contradiction
      · contradiction
  | left why =>
      rw [stage] at waiting
      dsimp only at waiting
      rw [stage] at waiting
      contradiction

theorem moved_listening (ctx : Context n) : (server.moved ctx).Listening := by
  intro _ member waiting
  obtain ⟨client, -, rfl⟩ := List.mem_map.mp member
  rw [swept_task]
  exact swept_waiting waiting

theorem Listening.modifyControl (listening : server.Listening) (t : Fin n)
    (change : ControlTaskHandle → ControlTaskHandle) :
    Listening { server with ctx := server.ctx.modifyControl t change } := by
  intro client member waiting
  have before := listening client member waiting
  dsimp only
  rw [Context.modifyControl_control]
  split
  · rwa [Option.isSome_map]
  · exact before

theorem Listening.onDisconnect (listening : server.Listening) (id : Nat)
    (why : Departure) :
    (server.onDisconnect k client id why).Listening := by
  unfold ControlServer.onDisconnect
  split
  · exact (listening.replace fun waiting => by
      contradiction).modifyControl client.task _
  · exact listening

end Listening

end ControlServer

end Initd
