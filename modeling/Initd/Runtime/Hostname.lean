import Initd.Library.Layers
import Initd.Library.Replay
import Initd.Runtime.Safety
import Initd.Tasks.HostnameTask

namespace Initd

open Library

/-! The name of the host over the runs of `initd_state`. -/

namespace AsyncTaskHandle

/-- There is a `task_handle`. -/
def holds : AsyncTaskHandle → Bool
  | startStop _ => false
  | sync adaptor => adaptor.handle.isSome

/-- The adaptor of a hostname task, which is running where it has a handle. -/
def Adapts (data : HostnameTaskData) (handle : AsyncTaskHandle) : Prop :=
  ∃ adaptor, handle = sync adaptor ∧ adaptor.taskData = .hostname data ∧
    (adaptor.handle.isSome = true → adaptor.running = true)

variable {data : HostnameTaskData} {handle after : AsyncTaskHandle}

theorem Adapts.create (data : HostnameTaskData) :
    (createAsyncTaskHandle (.hostname data)).Adapts data :=
  ⟨_, rfl, rfl, fun present => nomatch present⟩

theorem Adapts.isRunning (adapts : handle.Adapts data)
    (holds : handle.holds = true) : handle.isRunning = true := by
  obtain ⟨adaptor, rfl, -, running⟩ := adapts
  exact running holds

theorem Adapts.isInTransition (adapts : handle.Adapts data) :
    handle.isInTransition = false := by
  obtain ⟨adaptor, rfl, -, -⟩ := adapts
  rfl

theorem Adapts.told (adapts : handle.Adapts data) (answers : Answers)
    (s : Bool) : (handle.setShouldWork answers s).1.Adapts data := by
  obtain ⟨adaptor, rfl, same, running⟩ := adapts
  cases s with
  | true => exact ⟨_, rfl, same, fun _ => rfl⟩
  | false => exact ⟨_, rfl, same, fun present => nomatch present⟩

theorem Adapts.holds_started (adapts : handle.Adapts data) (answers : Answers) :
    (handle.setShouldWork answers true).1.holds =
      (handle.holds || answers.create) := by
  obtain ⟨adaptor, rfl, -, -⟩ := adapts
  cases adaptor with
  | mk taskData running inner fq =>
      cases inner <;> cases created : answers.create <;>
        simp [setShouldWork, SyncTaskAdaptor.setShouldWork, holds, created]

theorem Adapts.holds_stopped (adapts : handle.Adapts data) (answers : Answers) :
    (handle.setShouldWork answers false).1.holds = false := by
  obtain ⟨adaptor, rfl, -, -⟩ := adapts
  rfl

theorem Adapts.finished {answers : Answers} {result : ForkResult}
    (adapts : handle.Adapts data)
    (finished : Finished answers handle after result) :
    after.Adapts data ∧ after.holds = handle.holds := by
  obtain ⟨adaptor, rfl, same, running⟩ := adapts
  cases finished with
  | delivery delivered => exact ⟨⟨_, rfl, same, running⟩, rfl⟩

end AsyncTaskHandle

section Follow

variable {n : Nat} (descriptions : TaskDescriptions n)

/-- What a call of `initd_state` does to the host. -/
def Host.follow (answers : Fin n → HostnameAnswers) :
    Action n → Host n → Host n
  | .setShouldWork t s, host =>
      match (descriptions.allTasks t).data with
      | .hostname data => host.setShouldWork (answers t) data t s
      | _ => host
  | .launched _ _ _, host => host

/-- The constructors of the handles return as the calls of the kernel do. -/
def Agrees (environment : Environment n) (answers : Fin n → HostnameAnswers) :
    Prop :=
  ∀ t data, (descriptions.allTasks t).data = .hostname data →
    (environment t).create = (answers t).create data

/-- The runs of an `initd_state` on a host of this name. -/
def hostSystem (hostname : CString)
    (allowed : (Fin n → HostnameAnswers) → Prop) :
    StepSystem (InitdState n × Host n) where
  init hosted := hosted = (descriptions.initdState, .boot hostname)
  step before after := ∃ environment answers event call,
    allowed answers ∧ Agrees descriptions environment answers ∧
      before.1.step descriptions.graph environment event = some call ∧
      after = (call.state,
        Outcome.replay (Host.follow descriptions answers) call.log before.2)

/-- Of two hostname tasks, one depends on the other, and each restores the name
that it finds. -/
structure HostnamesNest : Prop where
  ordered : ∀ t other data data',
    (descriptions.allTasks t).data = .hostname data →
      (descriptions.allTasks other).data = .hostname data' →
        Digraph.Reaches descriptions.graph.dependencies t other ∨
          Digraph.Reaches descriptions.graph.dependencies other t
  restores : ∀ t data, (descriptions.allTasks t).data = .hostname data →
    data.noRestore = false

end Follow

/-! The hosts in which the tasks with a handle replace the name in turn. -/

section Hosts

variable {n : Nat} (descriptions : TaskDescriptions n) (hostname : CString)

/-- The later of two tasks that replace the name depends on the earlier. -/
def Above (later earlier : Fin n × CString) : Prop :=
  Digraph.Reaches descriptions.graph.dependencies later.1 earlier.1 ∧
    ¬ Digraph.Reaches descriptions.graph.dependencies earlier.1 later.1

structure Host.Nested (host : Host n) (layers : List (Fin n × CString))
    (saved : Fin n → Option CString) : Prop where
  layered : Layered hostname layers host.hostname saved
  handles : host.handles = fun t => (saved t).map fun old => ⟨some old⟩
  nested : layers.Pairwise (Above descriptions)
  named : ∀ layer ∈ layers, ∃ data,
    (descriptions.allTasks layer.1).data = .hostname data ∧
      layer.2 = .ofBytes data.hostname

variable {descriptions hostname} {host : Host n} {t : Fin n}
  {layers : List (Fin n × CString)} {saved : Fin n → Option CString}

namespace Host.Nested

theorem boot : (Host.boot hostname).Nested descriptions hostname []
    fun _ => none where
  layered := .nil hostname
  handles := rfl
  nested := .nil
  named := List.forall_mem_nil _

theorem held_iff (nested : host.Nested descriptions hostname layers saved) :
    (host.handles t).isSome = true ↔ t ∈ layers.map Prod.fst := by
  rw [← nested.layered.isSome_iff, nested.handles, Option.isSome_map]

theorem push (nested : host.Nested descriptions hostname layers saved)
    {data : HostnameTaskData}
    (isHostname : (descriptions.allTasks t).data = .hostname data)
    (free : host.handles t = none)
    (above : ∀ other, (host.handles other).isSome = true →
      Digraph.Reaches descriptions.graph.dependencies t other ∧
        ¬ Digraph.Reaches descriptions.graph.dependencies other t) :
    Host.Nested descriptions hostname
      ⟨.ofBytes data.hostname,
        Function.update host.handles t (some ⟨some host.hostname⟩)⟩
      ((t, .ofBytes data.hostname) :: layers)
      (Function.update saved t (some host.hostname)) where
  layered := nested.layered.push (fun member => by
    have held := nested.held_iff.mpr member
    rw [free] at held
    contradiction) _
  handles := by
    funext other
    by_cases same : other = t
    · simp [same]
    · simp [same, nested.handles]
  nested := List.pairwise_cons.mpr ⟨fun layer member =>
    above layer.1 (nested.held_iff.mpr (List.mem_map_of_mem member)),
    nested.nested⟩
  named := List.forall_mem_cons.mpr ⟨⟨data, isHostname, rfl⟩, nested.named⟩

/-- The last handle puts back the name that it has found. -/
theorem pop (nested : host.Nested descriptions hostname layers saved)
    {answers : HostnameAnswers} (restores : answers.restore = true)
    {handle : HostnameTaskHandle} (held : host.handles t = some handle)
    (last : ∀ other, (host.handles other).isSome = true → other ≠ t →
      ¬ Digraph.Reaches descriptions.graph.dependencies other t) :
    ∃ layers saved, Host.Nested descriptions hostname
      ⟨handle.destroy answers host.hostname,
        Function.update host.handles t none⟩ layers saved := by
  have member : t ∈ layers.map Prod.fst :=
    nested.held_iff.mp (by rw [held]; rfl)
  obtain ⟨⟨owner, name⟩, inside, rfl⟩ := List.mem_map.mp member
  have top : ∀ layer ∈ layers, layer ≠ (owner, name) →
      ¬ Above descriptions layer (owner, name) := by
    intro layer present different above
    refine last layer.1 (nested.held_iff.mpr (List.mem_map_of_mem present))
      (fun same => different ?_) above.1
    exact List.inj_on_of_nodup_map nested.layered.once present inside same
  obtain ⟨below, rfl⟩ := eq_cons_of_last nested.nested inside top
  obtain ⟨found, popped⟩ := nested.layered.pop
  have handles := congrFun nested.handles owner
  rw [held, found] at handles
  obtain rfl := Option.some.inj handles
  refine ⟨below, Function.update saved owner none, ?_, ?_,
    nested.nested.of_cons, (List.forall_mem_cons.mp nested.named).2⟩
  · simpa [HostnameTaskHandle.destroy, setHostname, restores] using popped
  · funext other
    by_cases same : other = owner
    · simp [same]
    · simp [same, nested.handles]

/-- The name is that of the task that depends on all others that have a
handle. -/
theorem hostname_eq (nested : host.Nested descriptions hostname layers saved) :
    ((∀ t, host.handles t = none) → host.hostname = hostname) ∧
    (∀ t data, (descriptions.allTasks t).data = .hostname data →
      (host.handles t).isSome = true →
      (∀ other, (host.handles other).isSome = true →
        Digraph.Reaches descriptions.graph.dependencies t other) →
        host.hostname = .ofBytes data.hostname) ∧
    ((∃ t, (host.handles t).isSome = true) →
      ∃ t, (host.handles t).isSome = true ∧
        ∀ other, (host.handles other).isSome = true →
          Digraph.Reaches descriptions.graph.dependencies t other) := by
  have name := nested.layered.inPlace
  cases layers with
  | nil =>
      have free : ∀ t, host.handles t = none := fun t => by
        have held := (@held_iff _ _ _ _ t _ _ nested).not.mpr List.not_mem_nil
        simpa using held
      refine ⟨fun _ => name, fun t data _ held => ?_, ?_⟩
      · rw [free t] at held
        contradiction
      · rintro ⟨t, held⟩
        rw [free t] at held
        contradiction
  | cons layer below =>
      obtain ⟨aboveAll, -⟩ := List.pairwise_cons.mp nested.nested
      have here : (host.handles layer.1).isSome = true :=
        nested.held_iff.mpr List.mem_cons_self
      refine ⟨fun free => ?_, fun t data isHostname held all => ?_, fun _ =>
        ⟨layer.1, here, fun other held => ?_⟩⟩
      · rw [free] at here
        contradiction
      · have same : layer.1 = t := by
          cases List.mem_cons.mp (nested.held_iff.mp held) with
          | inl same => exact same.symm
          | inr member =>
              obtain ⟨other, inside, rfl⟩ := List.mem_map.mp member
              exact absurd (all layer.1 here) (aboveAll other inside).2
        obtain ⟨data', isHostname', named⟩ :=
          nested.named layer List.mem_cons_self
        rw [same, isHostname] at isHostname'
        obtain rfl := TaskData.hostname.inj isHostname'
        rw [name, ← named]
        rfl
      · cases List.mem_cons.mp (nested.held_iff.mp held) with
        | inl same => exact same ▸ .refl
        | inr member =>
            obtain ⟨other, inside, rfl⟩ := List.mem_map.mp member
            exact (aboveAll other inside).1

end Host.Nested

/-! The adaptors next to the host. -/

open InitdState

theorem InitdState.DependencyOrder.reaches {graph : TaskGraph n}
    {state : InitdState n} (order : DependencyOrder graph state)
    {source target : Fin n}
    (path : Digraph.Reaches graph.dependencies source target)
    (up : (state.tasks source).affectDependencies = true) :
    (state.tasks target).affectDependencies = true := by
  induction path with
  | refl => exact up
  | tail _ edge induction =>
      exact Task.affectDependencies_of_affectDependants
        (order _ _ edge induction)

/-- Only over a dependant that is up does a task that is up reach another. -/
theorem InitdState.DependencyOrder.exists_dependant {graph : TaskGraph n}
    {state : InitdState n} (order : DependencyOrder graph state)
    {source target : Fin n}
    (path : Digraph.Reaches graph.dependencies source target)
    (different : source ≠ target)
    (up : (state.tasks source).affectDependencies = true) :
    ∃ dependant, target ∈ graph.dependencies dependant ∧
      (state.tasks dependant).affectDependencies = true := by
  rcases path.cases_tail with same | ⟨dependant, path, edge⟩
  · exact absurd same.symm different
  · exact ⟨dependant, edge, order.reaches path up⟩

/-- What holds of the tasks and their host wherever a run can get. -/
structure Hosting (descriptions : TaskDescriptions n) (hostname : CString)
    (state : InitdState n) (host : Host n) : Prop where
  safe : Safe descriptions.graph state
  adapts : ∀ t data, (descriptions.allTasks t).data = .hostname data →
    (state.tasks t).handle.Adapts data
  held : ∀ t data, (descriptions.allTasks t).data = .hostname data →
    (host.handles t).isSome = (state.tasks t).handle.holds
  nested : ∃ layers saved, host.Nested descriptions hostname layers saved

namespace Hosting

variable {state : InitdState n} {environment : Environment n}
  {answers : Fin n → HostnameAnswers}

theorem isHostname (hosting : Hosting descriptions hostname state host)
    (held : (host.handles t).isSome = true) :
    ∃ data, (descriptions.allTasks t).data = .hostname data := by
  obtain ⟨layers, saved, nested⟩ := hosting.nested
  obtain ⟨layer, member, rfl⟩ := List.mem_map.mp (nested.held_iff.mp held)
  obtain ⟨data, isHostname, -⟩ := nested.named layer member
  exact ⟨data, isHostname⟩

/-- A task that has replaced the name is up. -/
theorem up (hosting : Hosting descriptions hostname state host)
    (held : (host.handles t).isSome = true) :
    (state.tasks t).affectDependencies = true := by
  obtain ⟨data, isHostname⟩ := hosting.isHostname held
  rw [hosting.held t data isHostname] at held
  exact Task.affectDependencies_iff.mpr
    (.inl ((hosting.adapts t data isHostname).isRunning held))

theorem replaceHandle (hosting : Hosting descriptions hostname state host)
    {handle : AsyncTaskHandle} {after : Host n}
    (safe : Safe descriptions.graph
      (state.modify t fun task => { task with handle := handle }))
    (adapts : ∀ data, (descriptions.allTasks t).data = .hostname data →
      handle.Adapts data ∧ (after.handles t).isSome = handle.holds)
    (others : ∀ other, other ≠ t → after.handles other = host.handles other)
    (nested : ∃ layers saved,
      after.Nested descriptions hostname layers saved) :
    Hosting descriptions hostname
      (state.modify t fun task => { task with handle := handle }) after where
  safe := safe
  adapts other data isHostname := by
    by_cases same : other = t
    · subst other
      rw [modify_self]
      exact (adapts data isHostname).1
    · rw [modify_of_ne _ same]
      exact hosting.adapts other data isHostname
  held other data isHostname := by
    by_cases same : other = t
    · subst other
      rw [modify_self]
      exact (adapts data isHostname).2
    · rw [modify_of_ne _ same, others other same]
      exact hosting.held other data isHostname
  nested := nested

theorem keepHost (hosting : Hosting descriptions hostname state host)
    {handle : AsyncTaskHandle}
    (safe : Safe descriptions.graph
      (state.modify t fun task => { task with handle := handle }))
    (adapts : ∀ data, (descriptions.allTasks t).data = .hostname data →
      handle.Adapts data ∧ handle.holds = (state.tasks t).handle.holds) :
    Hosting descriptions hostname
      (state.modify t fun task => { task with handle := handle }) host :=
  hosting.replaceHandle safe (fun data isHostname => by
    obtain ⟨adapted, same⟩ := adapts data isHostname
    exact ⟨adapted, by rw [same, hosting.held t data isHostname]⟩)
    (fun _ _ => rfl) hosting.nested

theorem replay_afterFork (result : ForkResult) :
    Outcome.replay (Host.follow descriptions answers)
      (afterFork t state result).log host = host := by
  cases result <;> rfl

theorem replay_setShouldWork (s : Bool) :
    Outcome.replay (Host.follow descriptions answers)
        (state.setShouldWork environment t s).log host =
      host.follow descriptions answers (.setShouldWork t s) := by
  simp only [InitdState.setShouldWork, Outcome.replay_append,
    replay_afterFork]
  rfl

theorem follow_hostname {s : Bool} {data : HostnameTaskData}
    (isHostname : (descriptions.allTasks t).data = .hostname data) :
    Host.follow descriptions answers (.setShouldWork t s) host =
      host.setShouldWork (answers t) data t s := by
  simp [Host.follow, isHostname]

theorem follow_other {s : Bool}
    (other : ∀ data, (descriptions.allTasks t).data ≠ .hostname data) :
    Host.follow descriptions answers (.setShouldWork t s) host = host := by
  cases kind : (descriptions.allTasks t).data with
  | hostname data => exact absurd kind (other data)
  | mount _ | startStop _ | control _ | null => simp [Host.follow, kind]

/-- No task that is up reaches one that may start. -/
theorem above_of_mayStart (hosting : Hosting descriptions hostname state host)
    (nest : HostnamesNest descriptions) {data : HostnameTaskData}
    (isHostname : (descriptions.allTasks t).data = .hostname data)
    (may : (state.tasks t).mayStart = true) (free : host.handles t = none)
    (other : Fin n) (held : (host.handles other).isSome = true) :
    Digraph.Reaches descriptions.graph.dependencies t other ∧
      ¬ Digraph.Reaches descriptions.graph.dependencies other t := by
  have different : other ≠ t := by
    rintro rfl
    rw [free] at held
    contradiction
  have unreached : ¬ Digraph.Reaches descriptions.graph.dependencies other t := by
    intro path
    obtain ⟨dependant, edge, up⟩ := hosting.safe.order.exists_dependant path
      different (hosting.up held)
    have full := hosting.safe.order dependant t edge up
    rw [(Task.mayStart_iff.mp may).1] at full
    contradiction
  obtain ⟨data', isHostname'⟩ := hosting.isHostname held
  exact ⟨(nest.ordered t other data data' isHostname isHostname').resolve_right
    unreached, unreached⟩

theorem free_of_mayStart (hosting : Hosting descriptions hostname state host)
    {data : HostnameTaskData}
    (isHostname : (descriptions.allTasks t).data = .hostname data)
    (may : (state.tasks t).mayStart = true) : host.handles t = none := by
  have adapts := hosting.adapts t data isHostname
  by_contra present
  have held := Option.isSome_iff_ne_none.mpr present
  rw [hosting.held t data isHostname] at held
  have full : (state.tasks t).affectDependants = true := by
    simp [Task.affectDependants, adapts.isRunning held, adapts.isInTransition]
  rw [(Task.mayStart_iff.mp may).1] at full
  contradiction

theorem started (hosting : Hosting descriptions hostname state host)
    (nest : HostnamesNest descriptions)
    (agrees : Agrees descriptions environment answers)
    (may : (state.tasks t).mayStart = true) :
    Hosting descriptions hostname
      (state.modify t fun task => { task with
        handle := (task.handle.setShouldWork (environment t) true).1 })
      (Host.follow descriptions answers (.setShouldWork t true) host) := by
  have safe := hosting.safe.started may
    ((state.tasks t).handle.setShouldWork (environment t) true).1
  by_cases isHostname : ∃ data, (descriptions.allTasks t).data = .hostname data
  · obtain ⟨data, isHostname⟩ := isHostname
    have free := hosting.free_of_mayStart isHostname may
    have adapts := hosting.adapts t data isHostname
    have holds := adapts.holds_started (environment t)
    rw [← hosting.held t data isHostname, free, agrees t data isHostname,
      Option.isSome_none, Bool.false_or] at holds
    rw [follow_hostname isHostname, Host.setShouldWork_start free]
    have told : ∀ data', (descriptions.allTasks t).data = .hostname data' →
        ((state.tasks t).handle.setShouldWork (environment t)
          true).1.Adapts data' := fun data' same =>
      (hosting.adapts t data' same).told _ true
    cases created : (answers t).create data with
    | true =>
        rw [created] at holds
        obtain ⟨layers, saved, nested⟩ := hosting.nested
        rw [if_pos rfl, nest.restores t data isHostname]
        refine hosting.replaceHandle safe
          (fun data' same => ⟨told data' same, ?_⟩) ?_
          ⟨_, _, nested.push isHostname free
            (hosting.above_of_mayStart nest isHostname may free)⟩
        · rw [holds]
          simp
        · exact fun other different => Function.update_of_ne different ..
    | false =>
        rw [created] at holds
        rw [if_neg Bool.false_ne_true]
        refine hosting.replaceHandle safe
          (fun data' same => ⟨told data' same, ?_⟩) (fun _ _ => rfl)
          hosting.nested
        rw [holds, free]
        rfl
  · have other := not_exists.mp isHostname
    rw [follow_other other]
    exact hosting.keepHost safe fun data same => absurd same (other data)

/-- No task that has replaced the name reaches one that may stop. -/
theorem last_of_mayStop (hosting : Hosting descriptions hostname state host)
    (may : (state.tasks t).mayStop = true) (other : Fin n)
    (held : (host.handles other).isSome = true) (different : other ≠ t) :
    ¬ Digraph.Reaches descriptions.graph.dependencies other t := by
  intro path
  obtain ⟨dependant, edge, up⟩ := hosting.safe.order.exists_dependant path
    different (hosting.up held)
  rw [hosting.safe.dependants_down may dependant edge] at up
  contradiction

theorem stopped (hosting : Hosting descriptions hostname state host)
    (restored : (answers t).restore = true)
    (may : (state.tasks t).mayStop = true) :
    Hosting descriptions hostname
      (state.modify t fun task => { task with
        handle := (task.handle.setShouldWork (environment t) false).1 })
      (Host.follow descriptions answers (.setShouldWork t false) host) := by
  have safe := hosting.safe.stopped may
    ((state.tasks t).handle.setShouldWork (environment t) false).1
  by_cases isHostname : ∃ data, (descriptions.allTasks t).data = .hostname data
  · obtain ⟨data, isHostname⟩ := isHostname
    rw [follow_hostname isHostname]
    have told : ∀ data', (descriptions.allTasks t).data = .hostname data' →
        ((state.tasks t).handle.setShouldWork (environment t)
            false).1.Adapts data' ∧
          ((state.tasks t).handle.setShouldWork (environment t)
            false).1.holds = false := fun data' same =>
      ⟨(hosting.adapts t data' same).told _ false,
        (hosting.adapts t data' same).holds_stopped _⟩
    cases held : host.handles t with
    | none =>
        rw [Host.setShouldWork_idle held]
        refine hosting.replaceHandle safe (fun data' same =>
          ⟨(told data' same).1, ?_⟩) (fun _ _ => rfl) hosting.nested
        rw [(told data' same).2, held]
        rfl
    | some handle =>
        obtain ⟨layers, saved, nested⟩ := hosting.nested
        rw [Host.setShouldWork_stop held]
        refine hosting.replaceHandle safe (fun data' same =>
          ⟨(told data' same).1, ?_⟩)
          (fun other different => Function.update_of_ne different ..)
          (nested.pop restored held (hosting.last_of_mayStop may))
        rw [(told data' same).2]
        simp
  · have other := not_exists.mp isHostname
    rw [follow_other other]
    exact hosting.keepHost safe fun data same => absurd same (other data)

section Calls

variable (nest : HostnamesNest descriptions)
  (agrees : Agrees descriptions environment answers)
  (restored : ∀ t, (answers t).restore = true)

include nest agrees restored

theorem enqueueThis_carries (t : Fin n) (state : InitdState n) :
    (enqueueThis environment t state).Carries
      (Host.follow descriptions answers)
      (Hosting descriptions hostname) state := by
  intro host hosting
  rcases enqueueThis_cases with ⟨may, equal⟩ | ⟨may, equal⟩ | ⟨-, -, equal⟩ <;>
    rw [equal]
  · rw [replay_setShouldWork, setShouldWork_state]
    exact hosting.started nest agrees may
  · rw [replay_setShouldWork, setShouldWork_state]
    exact hosting.stopped (restored t) may
  · exact hosting

theorem enqueueAll_carries (tts : List (Fin n)) (state : InitdState n) :
    (enqueueAll environment tts state).Carries
      (Host.follow descriptions answers)
      (Hosting descriptions hostname) state :=
  Outcome.forEach_carries
    (enqueueThis_carries nest agrees restored) tts state

theorem stateChanged_carries (t : Fin n) (state : InitdState n) :
    (stateChanged descriptions.graph environment t state).Carries
      (Host.follow descriptions answers)
      (Hosting descriptions hostname) state := by
  intro host hosting
  have synced : Hosting descriptions hostname
      (InitdState.sync descriptions.graph t state) host := by
    refine ⟨hosting.safe.sync t, ?_, ?_, hosting.nested⟩
    · intro other data isHostname
      rw [sync_handle]
      exact hosting.adapts other data isHostname
    · intro other data isHostname
      rw [sync_handle]
      exact hosting.held other data isHostname
  simp only [stateChanged]
  split
  · exact enqueueAll_carries nest agrees restored _ _ host synced
  · exact enqueueAll_carries nest agrees restored _ _ host synced

theorem callback_carries {t : Fin n} {state : InitdState n} {call : Call n}
    (callback : IsCallback descriptions.graph environment t state call) :
    call.Carries (Host.follow descriptions answers)
      (Hosting descriptions hostname) state := by
  obtain ⟨handle, result, finished, rfl⟩ := callback
  intro host hosting
  have replaced : Hosting descriptions hostname
      (state.modify t fun task => { task with handle := handle }) host :=
    hosting.keepHost (hosting.safe.finished finished) fun data isHostname =>
      (hosting.adapts t data isHostname).finished finished
  refine Outcome.Carries.bind ?_ (stateChanged_carries nest agrees restored t _)
    host replaced
  intro host hosting
  rw [replay_afterFork, afterFork_state]
  exact hosting

/-- Whatever a step is, the host stays what the tasks have made of it. -/
theorem step_carries {state : InitdState n} {event : Event n} {call : Call n}
    (stepped : state.step descriptions.graph environment event = some call) :
    call.Carries (Host.follow descriptions answers)
      (Hosting descriptions hostname) state := by
  rcases step_cases stepped with rfl | ⟨closure, selected, closed, selects, rfl⟩ |
    ⟨t, callback⟩
  · exact fun _ hosting => hosting
  · intro host hosting
    refine enqueueAll_carries nest agrees restored _ _ host
      ⟨hosting.safe.select closed selects, ?_, ?_, hosting.nested⟩
    · intro other data isHostname
      rw [selects.handle]
      exact hosting.adapts other data isHostname
    · intro other data isHostname
      rw [selects.handle]
      exact hosting.held other data isHostname
  · exact callback_carries nest agrees restored callback

end Calls

end Hosting

theorem initdState_hosting (descriptions : TaskDescriptions n)
    (hostname : CString) :
    Hosting descriptions hostname descriptions.initdState (.boot hostname) where
  safe := initdState_safe descriptions
  adapts t data isHostname := by
    rw [descriptions.initdState_handle, isHostname]
    exact AsyncTaskHandle.Adapts.create data
  held t data isHostname := by
    rw [descriptions.initdState_handle, isHostname]
    rfl
  nested := ⟨_, _, .boot⟩

theorem reachable_hosting (nest : HostnamesNest descriptions)
    {hosted : InitdState n × Host n}
    (reached : (hostSystem descriptions hostname fun answers =>
      ∀ t, (answers t).restore = true).Reachable hosted) :
    Hosting descriptions hostname hosted.1 hosted.2 := by
  refine reached.invariant
    (fun hosted => Hosting descriptions hostname hosted.1 hosted.2) ?_ ?_
  · rintro hosted rfl
    exact initdState_hosting descriptions hostname
  · rintro before after - hosting ⟨environment, answers, event, call, restored,
      agrees, stepped, rfl⟩
    exact Hosting.step_carries nest agrees restored stepped before.2 hosting

/-- Wherever the tasks with hostnames depend on one another, the host has the
name of the one above all others that have set theirs, and once none of them
has, the name that it had at first. -/
theorem hostname_nested (nest : HostnamesNest descriptions)
    {hosted : InitdState n × Host n}
    (reached : (hostSystem descriptions hostname fun answers =>
      ∀ t, (answers t).restore = true).Reachable hosted) :
    (initdSystem descriptions fun _ => True).Reachable hosted.1 ∧
      (∀ t data, (descriptions.allTasks t).data = .hostname data →
        (hosted.2.handles t).isSome = (hosted.1.tasks t).handle.holds) ∧
      (∀ t, (hosted.2.handles t).isSome = true →
        (hosted.1.tasks t).handle.isRunning = true) ∧
      ((∀ t, hosted.2.handles t = none) → hosted.2.hostname = hostname) ∧
      (∀ t data, (descriptions.allTasks t).data = .hostname data →
        (hosted.2.handles t).isSome = true →
        (∀ other, (hosted.2.handles other).isSome = true →
          Digraph.Reaches descriptions.graph.dependencies t other) →
          hosted.2.hostname = .ofBytes data.hostname) ∧
      ((∃ t, (hosted.2.handles t).isSome = true) →
        ∃ t, (hosted.2.handles t).isSome = true ∧
          ∀ other, (hosted.2.handles other).isSome = true →
            Digraph.Reaches descriptions.graph.dependencies t other) := by
  have hosting := reachable_hosting nest reached
  obtain ⟨layers, saved, nested⟩ := hosting.nested
  refine ⟨?_, hosting.held, fun t held => ?_, nested.hostname_eq⟩
  · refine reached.map Prod.fst ?_ ?_
    · rintro hosted rfl
      exact .init rfl
    · rintro before after - ⟨environment, answers, event, call, -, -, stepped,
        rfl⟩
      exact .inr ⟨environment, event, call, trivial, stepped, rfl⟩
  · obtain ⟨data, isHostname⟩ := hosting.isHostname held
    rw [hosting.held t data isHostname] at held
    exact (hosting.adapts t data isHostname).isRunning held

end Hosts

/-! Two tasks that set a hostname. -/

def lowerHost : Fin 2 := ⟨0, Nat.zero_lt_two⟩

def upperHost : Fin 2 := ⟨1, Nat.one_lt_two⟩

def twoHostTasks (ordered : Bool) (t : Fin 2) : TaskDescription 2 :=
  if t = lowerHost then
    ⟨ascii "l", .hostname ⟨ascii "lower", false⟩, []⟩
  else
    ⟨ascii "u", .hostname ⟨ascii "upper", false⟩,
      if ordered then [lowerHost] else []⟩

theorem twoHostTasks_size (ordered : Bool) :
    ∑ t, (twoHostTasks ordered t).dependencies.length < 2 ^ 64 := by
  cases ordered <;> decide

theorem twoHostTasks_few : 2 < 2 ^ 64 := by
  decide

def twoHosts (ordered : Bool) : TaskDescriptions 2 where
  allTasks := twoHostTasks ordered
  runLevelByName :=
    [(defaultRunLevel, [lowerHost, upperHost]), (ascii "u", [upperHost])]
  dependencies_size := twoHostTasks_size ordered
  tasks_size := twoHostTasks_few

/-- The host after the events of a schedule, where every call succeeds. -/
def hostRun {n : Nat} (descriptions : TaskDescriptions n)
    (schedule : List (InitdState.Event n)) (hosted : InitdState n × Host n) :
    Option (InitdState n × Host n) :=
  StepSystem.run
    (fun event hosted =>
      (hosted.1.step descriptions.graph (fun _ => ⟨true, true⟩) event).map
        fun call => (call.state, Outcome.replay
          (Host.follow descriptions fun _ => ⟨true, true, true⟩) call.log
          hosted.2))
    schedule hosted

theorem hostRun_reachable {n : Nat} {descriptions : TaskDescriptions n}
    {hostname : CString} {schedule : List (InitdState.Event n)}
    {hosted : InitdState n × Host n}
    (ran : hostRun descriptions schedule
      (descriptions.initdState, .boot hostname) = some hosted) :
    (hostSystem descriptions hostname fun answers =>
      ∀ t, (answers t).restore = true).Reachable hosted := by
  refine StepSystem.Reachable.run (fun event _ _ _ moved => ?_) (.init rfl) ran
  obtain ⟨call, stepped, rfl⟩ := Option.map_eq_some_iff.mp moved
  exact ⟨_, _, event, call, fun _ => rfl, fun t data _ => by
    simp [HostnameAnswers.create], stepped, rfl⟩

/-- Both are up, the one over the other. -/
def upperOverLower : InitdState 2 × Host 2 :=
  (hostRun (twoHosts true)
    [.setRunLevel defaultRunLevel, .callbackDelivered lowerHost]
    ((twoHosts true).initdState, .boot (.ofBytes (ascii "boot")))).get
      (by decide)

theorem eq_lowerHost_or_eq_upperHost :
    ∀ t : Fin 2, t = lowerHost ∨ t = upperHost := by
  decide

theorem upperHost_reaches (t : Fin 2) :
    Digraph.Reaches (twoHosts true).graph.dependencies upperHost t := by
  have edge : lowerHost ∈ (twoHosts true).graph.dependencies upperHost := by
    decide
  rcases eq_lowerHost_or_eq_upperHost t with rfl | rfl
  · exact .single edge
  · exact .refl

theorem twoHosts_nest : HostnamesNest (twoHosts true) where
  ordered t other _ _ _ _ := by
    rcases eq_lowerHost_or_eq_upperHost t with rfl | rfl
    · rcases eq_lowerHost_or_eq_upperHost other with rfl | rfl
      · exact .inl .refl
      · exact .inr (upperHost_reaches lowerHost)
    · exact .inl (upperHost_reaches other)
  restores t data isHostname := by
    by_cases lower : t = lowerHost
    · subst t
      exact TaskData.hostname.inj isHostname ▸ rfl
    · simp only [twoHosts, twoHostTasks, if_neg lower,
        TaskData.hostname.injEq] at isHostname
      rw [← isHostname]

theorem hostname_nested_upperOverLower :
    upperOverLower.2.hostname = .ofBytes (ascii "upper") := by
  have reached : (hostSystem (twoHosts true) (.ofBytes (ascii "boot"))
      fun answers => ∀ t, (answers t).restore = true).Reachable
        upperOverLower := hostRun_reachable (Option.some_get _).symm
  obtain ⟨-, -, -, -, innermost, -⟩ := hostname_nested twoHosts_nest reached
  exact innermost upperHost ⟨ascii "upper", false⟩ rfl (by decide)
    fun other _ => upperHost_reaches other

/-- Where neither depends on the other, the first that stops takes the name of
the other away. -/
example : ∃ hosted, hostRun (twoHosts false)
    [.setRunLevel defaultRunLevel, .setRunLevel (ascii "u")]
    ((twoHosts false).initdState, .boot (.ofBytes (ascii "boot"))) =
      some hosted ∧ (hosted.2.handles upperHost).isSome = true ∧
      hosted.2.hostname = .ofBytes (ascii "boot") :=
  ⟨_, (Option.some_get (by decide)).symm, by decide, by decide⟩

end Initd
