import Initd.Runtime.Control

namespace Initd

open Library

/-! What a step leaves undone after a fork that fails. -/

def Task.due (task : Task) : Bool := task.mayStart || task.mayStop

/-- Telling the task takes a fork, which the kernel refuses. -/
def Task.Refused (answers : Answers) (task : Task) : Prop :=
  ∃ handle, task.handle = .startStop handle ∧
    handle.isInTransition = false ∧ answers.fork = false

theorem Task.running_of_due {task : Task} (due : task.due = true)
    (idle : task.handle.isInTransition = false) :
    task.handle.isRunning = !task.shouldWork := by
  rcases (Bool.or_eq_true _ _).mp due with start | stop
  · obtain ⟨down, wanted, -⟩ := Task.mayStart_iff.mp start
    simpa [Task.affectDependants, idle, wanted] using down
  · obtain ⟨up, unwanted, -⟩ := Task.mayStop_iff.mp stop
    simpa [Task.affectDependencies, idle, unwanted] using up

namespace InitdState

variable {n : Nat}

/-- The call told the handle of a task what to do. -/
def Told (t : Fin n) (s : Bool) (call : Call n) : Prop :=
  .setShouldWork t s ∈ call.log.map Prod.fst

/-! The order of a list in which some forks are refused. -/

/-- No due task comes after one that is due and refused its fork, unless it
had its turn before. -/
def Orderly (due refused : Fin n → Prop) (done visited : List (Fin n)) : Prop :=
  ∀ earlier u later, visited = earlier ++ u :: later → due u → refused u →
    ∀ v ∈ later, v ∉ done → v ∉ earlier → v ≠ u → ¬ due v

section Orders

variable {due refused : Fin n → Prop} {done rest visited : List (Fin n)}
  {t : Fin n}

theorem orderly_cons_of_refused (wanted : due t) (denied : refused t) :
    Orderly due refused done (t :: rest) ↔
      ∀ v ∈ rest, v ∉ done → v ≠ t → ¬ due v := by
  constructor
  · exact fun order v member fresh other => order [] t rest rfl wanted denied v
      member fresh List.not_mem_nil other
  · intro none earlier u later split _ _ v after fresh first other
    cases earlier with
    | nil =>
        obtain ⟨rfl, rfl⟩ := List.cons.inj split
        exact none v after fresh other
    | cons head earlier =>
        obtain ⟨rfl, rfl⟩ := List.cons.inj split
        exact none v (List.mem_append_right _ (List.mem_cons_of_mem _ after))
          fresh (List.ne_of_not_mem_cons first)

theorem orderly_cons_of_granted (granted : due t → ¬ refused t) :
    Orderly due refused done (t :: rest) ↔
      Orderly due refused (t :: done) rest := by
  constructor
  · rintro order earlier u later rfl wanted denied v after fresh first other
    refine order (t :: earlier) u later rfl wanted denied v after
      (List.not_mem_of_not_mem_cons fresh) ?_ other
    exact List.not_mem_cons_of_ne_of_not_mem (List.ne_of_not_mem_cons fresh) first
  · intro order earlier u later split wanted denied v after fresh first other
    cases earlier with
    | nil =>
        obtain ⟨rfl, -⟩ := List.cons.inj split
        exact absurd denied (granted wanted)
    | cons head earlier =>
        obtain ⟨rfl, rfl⟩ := List.cons.inj split
        refine order earlier u later rfl wanted denied v after ?_
          (List.not_mem_of_not_mem_cons first) other
        exact List.not_mem_cons_of_ne_of_not_mem
          (List.ne_of_not_mem_cons first) fresh

theorem orderly_congr {due' refused' : Fin n → Prop}
    (dues : ∀ u ∈ visited, u ∉ done → (due u ↔ due' u))
    (refusals : ∀ u ∈ visited, u ∉ done → (refused u ↔ refused' u))
    (served : ∀ u ∈ done, due u → ¬ refused u)
    (served' : ∀ u ∈ done, due' u → ¬ refused' u) :
    Orderly due refused done visited ↔ Orderly due' refused' done visited := by
  constructor
  · rintro order earlier u later rfl wanted denied v after fresh first other
    have live : u ∉ done := fun member => served' u member wanted denied
    have here : u ∈ earlier ++ u :: later := List.mem_append_cons_self
    rw [← dues v (List.mem_append_right _ (List.mem_cons_of_mem u after)) fresh]
    exact order earlier u later rfl ((dues u here live).mpr wanted)
      ((refusals u here live).mpr denied) v after fresh first other
  · rintro order earlier u later rfl wanted denied v after fresh first other
    have live : u ∉ done := fun member => served u member wanted denied
    have here : u ∈ earlier ++ u :: later := List.mem_append_cons_self
    rw [dues v (List.mem_append_right _ (List.mem_cons_of_mem u after)) fresh]
    exact order earlier u later rfl ((dues u here live).mp wanted)
      ((refusals u here live).mp denied) v after fresh first other

end Orders

section Turns

variable {environment : Environment n} {state : InitdState n} {t : Fin n}

theorem enqueueThis_of_due (due : (state.tasks t).due = true) :
    enqueueThis environment t state =
      state.setShouldWork environment t (state.tasks t).shouldWork := by
  rcases enqueueThis_cases with ⟨may, equal⟩ | ⟨may, equal⟩ | ⟨noStart, noStop, -⟩
  · rw [equal, (Task.mayStart_iff.mp may).2.1]
  · rw [equal, (Task.mayStop_iff.mp may).2.1]
  · simp [Task.due, noStart, noStop] at due

theorem enqueueThis_of_not_due (idle : (state.tasks t).due = false) :
    enqueueThis environment t state = .done state := by
  obtain ⟨noStart, noStop⟩ := Bool.or_eq_false_iff.mp idle
  rcases enqueueThis_cases with ⟨may, -⟩ | ⟨may, -⟩ | ⟨-, -, equal⟩
  · rw [noStart] at may
    contradiction
  · rw [noStop] at may
    contradiction
  · exact equal

theorem enqueueThis_threw_iff :
    (enqueueThis environment t state).threw = true ↔
      (state.tasks t).due = true ∧ (state.tasks t).Refused (environment t) := by
  cases due : (state.tasks t).due with
  | false => simp [enqueueThis_of_not_due due, Outcome.done]
  | true =>
      rw [enqueueThis_of_due due]
      simp only [true_and, setShouldWork, afterFork_threw, Task.Refused]
      cases kind : (state.tasks t).handle with
      | sync adaptor => simp [AsyncTaskHandle.setShouldWork]
      | startStop handle =>
          have wrong : handle.isInTransition = false →
              handle.running ≠ (state.tasks t).shouldWork := by
            intro idle
            have running := Task.running_of_due due (by rw [kind]; exact idle)
            rw [kind] at running
            exact fun agree => by simp [← agree, AsyncTaskHandle.isRunning,
              AsyncStartStopTask.isRunning] at running
          simp only [AsyncTaskHandle.setShouldWork,
            AsyncStartStopTask.setShouldWork_threw_iff,
            AsyncTaskHandle.startStop.injEq, exists_eq_left']
          exact ⟨fun threw => ⟨threw.1, threw.2.2⟩,
            fun refused => ⟨refused.1, wrong refused.1, refused.2⟩⟩

theorem told_enqueueThis_iff {other : Fin n} {s : Bool} :
    Told other s (enqueueThis environment t state) ↔
      other = t ∧ (state.tasks t).due = true ∧
        s = (state.tasks t).shouldWork := by
  cases due : (state.tasks t).due with
  | false => simp [Told, enqueueThis_of_not_due due, Outcome.done]
  | true =>
      rw [enqueueThis_of_due due, Told]
      constructor
      · intro member
        obtain ⟨entry, logged, action⟩ := List.mem_map.mp member
        rcases (setShouldWork_log logged).2 with told | ⟨_, _, launched⟩
        · rw [action] at told
          cases told
          exact ⟨rfl, rfl, rfl⟩
        · rw [action] at launched
          contradiction
      · rintro ⟨rfl, -, rfl⟩
        simp [setShouldWork]

/-- A task whose turn returned is not refused a fork in a later one. -/
theorem not_refused_of_returned
    (returned : (enqueueThis environment t state).threw = false) :
    ((enqueueThis environment t state).state.tasks t).due = true →
      ¬ ((enqueueThis environment t state).state.tasks t).Refused
        (environment t) := by
  have before : (state.tasks t).due = true →
      ¬ (state.tasks t).Refused (environment t) := by
    intro due refused
    rw [enqueueThis_threw_iff.mpr ⟨due, refused⟩] at returned
    contradiction
  cases due : (state.tasks t).due with
  | false =>
      rw [enqueueThis_of_not_due due]
      exact before
  | true =>
      rw [enqueueThis_of_due due, setShouldWork_state, modify_self]
      rintro - ⟨after, kind, idle, refused⟩
      refine before due ?_
      cases handle : (state.tasks t).handle with
      | sync adaptor =>
          simp [handle, AsyncTaskHandle.setShouldWork] at kind
      | startStop task =>
          refine ⟨task, handle, ?_, refused⟩
          simp only [handle, AsyncTaskHandle.setShouldWork,
            AsyncTaskHandle.startStop.injEq] at kind
          cases operation : task.currentOperation with
          | none => simp [AsyncStartStopTask.isInTransition, operation]
          | some outstanding =>
              rw [AsyncStartStopTask.setShouldWork_of_operation operation]
                at kind
              rw [← kind] at idle
              exact idle

theorem told_bind_iff {other : Fin n} {s : Bool} {first : Call n}
    {next : InitdState n → Call n} (returned : first.threw = false) :
    Told other s (first.bind next) ↔
      Told other s first ∨ Told other s (next first.state) := by
  simp [Told, Outcome.bind, returned]

/-- The tasks that an `enqueue_all` tells, where those of `done` had their
turns in it already. -/
theorem enqueueAll_told_iff (visited done : List (Fin n))
    (served : ∀ u ∈ done, (state.tasks u).due = true →
      ¬ (state.tasks u).Refused (environment u)) :
    (∀ u ∈ visited, u ∉ done → (state.tasks u).due = true →
        Told u (state.tasks u).shouldWork
          (enqueueAll environment visited state)) ↔
      Orderly (fun u => (state.tasks u).due = true)
        (fun u => (state.tasks u).Refused (environment u)) done visited := by
  induction visited generalizing state done with
  | nil => simp [Orderly]
  | cons t rest induction =>
      cases threw : (enqueueThis environment t state).threw with
      | true =>
          have stops : enqueueAll environment (t :: rest) state =
              enqueueThis environment t state := if_pos threw
          obtain ⟨due, refused⟩ := enqueueThis_threw_iff.mp threw
          rw [stops, orderly_cons_of_refused due refused]
          constructor
          · intro told v member fresh other wanted
            exact other (told_enqueueThis_iff.mp
              (told v (List.mem_cons_of_mem t member) fresh wanted)).1
          · intro order v member fresh wanted
            refine told_enqueueThis_iff.mpr ?_
            by_cases same : v = t
            · subst v
              exact ⟨rfl, due, rfl⟩
            · exact absurd wanted (order v
                ((List.mem_cons.mp member).resolve_left same) fresh same)
      | false =>
          have apart : ∀ u, u ≠ t →
              (enqueueThis environment t state).state.tasks u = state.tasks u :=
            fun u different => enqueueThis_of_ne different
          have granted : (state.tasks t).due = true →
              ¬ (state.tasks t).Refused (environment t) := by
            intro due refused
            rw [enqueueThis_threw_iff.mpr ⟨due, refused⟩] at threw
            contradiction
          have served' : ∀ u ∈ t :: done,
              ((enqueueThis environment t state).state.tasks u).due = true →
                ¬ ((enqueueThis environment t state).state.tasks u).Refused
                  (environment u) := by
            intro u member
            by_cases same : u = t
            · subst u
              exact not_refused_of_returned threw
            · rw [apart u same]
              exact served u ((List.mem_cons.mp member).resolve_left same)
          rw [orderly_cons_of_granted granted, orderly_congr
            (fun u _ fresh => apart u (List.ne_of_not_mem_cons fresh) ▸ Iff.rfl)
            (fun u _ fresh => apart u (List.ne_of_not_mem_cons fresh) ▸ Iff.rfl)
            (List.forall_mem_cons.mpr ⟨granted, served⟩) served',
            ← induction (t :: done) served']
          have both : ∀ u s, Told u s (enqueueAll environment (t :: rest) state) ↔
              Told u s (enqueueThis environment t state) ∨
                Told u s (enqueueAll environment rest
                  (enqueueThis environment t state).state) :=
            fun u s => told_bind_iff threw
          constructor
          · intro told u member fresh wanted
            have different := List.ne_of_not_mem_cons fresh
            rw [apart u different] at wanted ⊢
            refine ((both u _).mp (told u (List.mem_cons_of_mem t member)
              (List.not_mem_of_not_mem_cons fresh) wanted)).resolve_left ?_
            exact fun here => different (told_enqueueThis_iff.mp here).1
          · intro told u member fresh wanted
            rw [both]
            by_cases same : u = t
            · subst u
              exact .inl (told_enqueueThis_iff.mpr ⟨rfl, wanted, rfl⟩)
            · rw [← apart u same] at wanted ⊢
              exact .inr (told u ((List.mem_cons.mp member).resolve_left same)
                (List.not_mem_cons_of_ne_of_not_mem same fresh) wanted)

end Turns

/-! Changes of the run level. -/

/-- What makes a task due after a change that selects `closure`. -/
def DueForRunLevel (graph : TaskGraph n) (closure : Fin n → Prop)
    (state : InitdState n) (u : Fin n) : Prop :=
  (closure u ∧ (state.tasks u).affectDependants = false ∧
      ∀ dependency ∈ graph.dependencies u,
        (state.tasks dependency).affectDependants = true) ∨
    (¬ closure u ∧ (state.tasks u).affectDependencies = true ∧
      ∀ dependant, u ∈ graph.dependencies dependant →
        (state.tasks dependant).affectDependencies = false)

section RunLevels

variable {graph : TaskGraph n} {environment : Environment n}
  {state selected : InitdState n} {closure : Fin n → Prop}

theorem Selected.due_iff (selects : Selected graph closure state selected)
    (counters : Counters graph state) (u : Fin n) :
    (selected.tasks u).due = true ↔ DueForRunLevel graph closure state u := by
  have dependants : ∀ other, (selected.tasks other).affectDependants =
      (state.tasks other).affectDependants := fun other => by
    simp only [Task.affectDependants, selects.handle]
  have dependencies : ∀ other, (selected.tasks other).affectDependencies =
      (state.tasks other).affectDependencies := fun other => by
    simp only [Task.affectDependencies, selects.handle]
  have counters := selects.counters counters
  rw [Task.due, Bool.or_eq_true, Task.mayStart_iff, Task.mayStop_iff,
    counters.stoppedDependencies_eq_zero_iff,
    counters.runningDependants_eq_zero_iff, DueForRunLevel,
    ← selects.shouldWork u, Bool.not_eq_true]
  simp only [(selects.synced _).dependants, (selects.synced _).dependencies,
    dependants, dependencies]
  exact or_congr and_left_comm and_left_comm

/-- Every due task is told after a change of the run level, exactly where no
refused fork comes before one of them. -/
theorem Selected.told_iff (selects : Selected graph closure state selected)
    (counters : Counters graph state) :
    (∀ u, (selected.tasks u).due = true →
        Told u (selected.tasks u).shouldWork
          (enqueueAll environment (List.finRange n) selected)) ↔
      Orderly (DueForRunLevel graph closure state)
        (fun u => (state.tasks u).Refused (environment u)) []
        (List.finRange n) := by
  have told := @enqueueAll_told_iff n environment selected (List.finRange n) []
    (List.forall_mem_nil _)
  simp only [List.mem_finRange, List.not_mem_nil, not_false_eq_true,
    forall_const] at told
  rw [told]
  refine orderly_congr (fun u _ _ => selects.due_iff counters u)
    (fun u _ _ => ?_) (List.forall_mem_nil _) (List.forall_mem_nil _)
  simp only [Task.Refused, selects.handle]

end RunLevels

end InitdState

/-! The flags of a task whose operation no longer leads where it should. -/

/-- Such an operation was outstanding at the last change of the run level, and
the sync of that change counted it. -/
def Task.Marked (task : Task) : Prop :=
  ∀ handle, task.handle = .startStop handle → handle.isInTransition = true →
    (task.countedInDependencies = true ∧ task.countedInDependants = false) ∨
      (handle.shouldWork = task.shouldWork ∧ handle.running ≠ task.shouldWork)

namespace Task

variable {task : Task}

theorem Synced.marked (synced : task.Synced) : task.Marked := by
  intro handle kind busy
  left
  have transition : task.handle.isInTransition = true := by
    rw [kind]
    exact busy
  rw [synced.dependencies, synced.dependants]
  simp [affectDependencies, affectDependants, transition]

theorem Marked.told (marked : task.Marked) (due : task.due = true)
    (answers : Answers) :
    ({ task with
      handle := (task.handle.setShouldWork answers task.shouldWork).1 } :
        Task).Marked := by
  intro after kind busy
  cases handle : task.handle with
  | sync adaptor => simp [handle, AsyncTaskHandle.setShouldWork] at kind
  | startStop before =>
      simp only [handle, AsyncTaskHandle.setShouldWork,
        AsyncTaskHandle.startStop.injEq] at kind
      subst kind
      simp only [AsyncStartStopTask.setShouldWork_running,
        AsyncStartStopTask.setShouldWork_shouldWork, true_and]
      cases transition : before.isInTransition with
      | true =>
          exact (marked before handle transition).imp_right fun right => right.2
      | false =>
          have running := running_of_due due (by rw [handle]; exact transition)
          rw [handle] at running
          right
          change before.running = _ at running
          simp [running]

end Task

namespace InitdState

section Marks

variable {graph : TaskGraph n} {environment : Environment n}
  {state : InitdState n}

def AllMarked (state : InitdState n) : Prop := ∀ t, (state.tasks t).Marked

theorem sync_allMarked {t : Fin n}
    (marked : ∀ other, other ≠ t → (state.tasks other).Marked) :
    (InitdState.sync graph t state).AllMarked := by
  intro other
  by_cases same : other = t
  · subst other
    exact (sync_synced graph t state).marked
  · obtain ⟨_, _, equal⟩ := sync_tasks graph t other state
    rw [equal]
    simp only [if_neg same]
    exact marked other same

theorem AllMarked.replaceHandle (marked : state.AllMarked) {t : Fin n}
    {handle : AsyncTaskHandle}
    (after : ({ state.tasks t with handle := handle } : Task).Marked) :
    (state.modify t fun task => { task with handle := handle }).AllMarked := by
  intro other
  rw [modify_tasks]
  split
  · next same =>
      subst other
      exact after
  · exact marked other

theorem AllMarked.enqueueThis (marked : state.AllMarked) (t : Fin n) :
    (enqueueThis environment t state).state.AllMarked := by
  cases due : (state.tasks t).due with
  | false =>
      rw [enqueueThis_of_not_due due]
      exact marked
  | true =>
      rw [enqueueThis_of_due due, setShouldWork_state]
      exact marked.replaceHandle ((marked t).told due (environment t))

theorem AllMarked.enqueueAll (marked : state.AllMarked) (tts : List (Fin n)) :
    (enqueueAll environment tts state).state.AllMarked :=
  Outcome.forEach_invariant AllMarked
    (fun t _ _ marked => marked.enqueueThis t) marked

theorem AllMarked.callback (marked : state.AllMarked) {t : Fin n}
    {call : Call n} (callback : IsCallback graph environment t state call) :
    call.state.AllMarked := by
  obtain ⟨handle, result, finished, rfl⟩ := callback
  have others : ∀ other, other ≠ t → ((state.modify t fun task =>
      { task with handle := handle }).tasks other).Marked := by
    intro other different
    rw [modify_of_ne _ different]
    exact marked other
  have changed : (stateChanged graph environment t (state.modify t fun task =>
      { task with handle := handle })).state.AllMarked := by
    simp only [stateChanged]
    split <;> exact (sync_allMarked others).enqueueAll _
  cases result with
  | notCalled => rw [afterFork]; simpa [Outcome.bind] using changed
  | launched operation command =>
      rw [afterFork]; simpa [Outcome.bind] using changed
  | threw =>
      refine marked.replaceHandle fun after kind busy => ?_
      simp only at kind
      subst kind
      generalize (state.tasks t).handle = before at finished
      cases finished with
      | operation completed =>
          rw [AsyncStartStopTask.operationCompleted_threw_idle completed] at busy
          contradiction

theorem AllMarked.step (marked : state.AllMarked) {event : Event n}
    {call : Call n} (stepped : state.step graph environment event = some call) :
    call.state.AllMarked := by
  rcases step_cases stepped with rfl | ⟨_, selected, -, selects, rfl⟩ |
    ⟨t, callback⟩
  · exact marked
  · have synced : selected.AllMarked := fun t => (selects.synced t).marked
    exact synced.enqueueAll _
  · exact marked.callback callback

theorem reachable_allMarked {descriptions : TaskDescriptions n}
    {allowed : Environment n → Prop} {state : InitdState n}
    (reached : (initdSystem descriptions allowed).Reachable state) :
    state.AllMarked := by
  refine reached.invariant _ ?_ ?_
  · rintro state rfl t handle kind busy
    have idle := descriptions.initdState_handle t ▸
      AsyncTaskHandle.createAsyncTaskHandle_isInTransition
        (descriptions.allTasks t).data
    rw [kind] at idle
    have contrary : handle.isInTransition = false := idle
    rw [busy] at contrary
    contradiction
  · rintro before _ _ marked ⟨environment, event, call, -, stepped, rfl⟩
    exact marked.step stepped

end Marks

/-! Exits of child processes. -/

def neighbours (graph : TaskGraph n) (t : Fin n) (state : InitdState n) :
    List (Fin n) :=
  if (state.tasks t).handle.isRunning then graph.dependants t
  else graph.dependencies t

/-- The state that a finished command leaves for the `enqueue_all` of its
callback, whether or not its follow-up fork lets the callback run. -/
def completed (graph : TaskGraph n) (environment : Environment n) (t : Fin n)
    (state : InitdState n) : Option (InitdState n) :=
  match (state.tasks t).handle with
  | .sync _ => none
  | .startStop task =>
      (task.operationCompleted (environment t).fork).map fun result =>
        sync graph t (state.modify t fun task =>
          { task with handle := .startStop result.1 })

def DueAfterStart (graph : TaskGraph n) (t : Fin n) (state : InitdState n)
    (u : Fin n) : Prop :=
  (state.tasks u).shouldWork = true ∧
    ∀ dependency ∈ graph.dependencies u, dependency = t ∨
      (state.tasks dependency).countedInDependants = true

def DueAfterStop (graph : TaskGraph n) (t : Fin n) (state : InitdState n)
    (u : Fin n) : Prop :=
  (state.tasks u).shouldWork = false ∧
    ∀ dependant, u ∈ graph.dependencies dependant → dependant = t ∨
      (state.tasks dependant).countedInDependencies = false

section Exits

variable {graph : TaskGraph n} {environment : Environment n}
  {state : InitdState n} {t : Fin n}

theorem Safe.not_self (safe : Safe graph state)
    (busy : (state.tasks t).handle.isInTransition = true) :
    t ∉ graph.dependencies t := by
  intro edge
  have full := safe.order t t edge (by simp [Task.affectDependencies, busy])
  simp [Task.affectDependants, busy] at full

theorem due_sync_iff {handle : AsyncTaskHandle}
    (counters : Counters graph
      (state.modify t fun task => { task with handle := handle }))
    {u : Fin n} (different : u ≠ t) :
    ((sync graph t (state.modify t fun task =>
        { task with handle := handle })).tasks u).due = true ↔
      ((state.tasks u).affectDependants = false ∧
          (state.tasks u).shouldWork = true ∧
          ∀ dependency ∈ graph.dependencies u,
            if dependency = t then
              handle.isRunning = true ∧ handle.isInTransition = false
            else (state.tasks dependency).countedInDependants = true) ∨
        ((state.tasks u).affectDependencies = true ∧
          (state.tasks u).shouldWork = false ∧
          ∀ dependant, u ∈ graph.dependencies dependant →
            if dependant = t then
              handle.isRunning = false ∧ handle.isInTransition = false
            else (state.tasks dependant).countedInDependencies = false) := by
  have apart := fun other (apartHere : other ≠ t) =>
    modify_of_ne state apartHere fun task => { task with handle := handle }
  have self := modify_self state t fun task => { task with handle := handle }
  have up : ∀ dependency, ((sync graph t (state.modify t fun task =>
      { task with handle := handle })).tasks dependency).countedInDependants =
        true ↔ if dependency = t then
            handle.isRunning = true ∧ handle.isInTransition = false
          else (state.tasks dependency).countedInDependants = true := by
    intro dependency
    rw [sync_countedInDependants, self]
    split
    · simp [Task.affectDependants]
    · next apartHere => rw [apart dependency apartHere]
  have down : ∀ dependant, ((sync graph t (state.modify t fun task =>
      { task with handle := handle })).tasks dependant).countedInDependencies =
        false ↔ if dependant = t then
            handle.isRunning = false ∧ handle.isInTransition = false
          else (state.tasks dependant).countedInDependencies = false := by
    intro dependant
    rw [sync_countedInDependencies, self]
    split
    · simp [Task.affectDependencies]
    · next apartHere => rw [apart dependant apartHere]
  have counters := counters.sync (t := t)
  rw [Task.due, Bool.or_eq_true, Task.mayStart_iff, Task.mayStop_iff,
    counters.stoppedDependencies_eq_zero_iff,
    counters.runningDependants_eq_zero_iff]
  simp only [up, down, Task.affectDependants, Task.affectDependencies,
    sync_handle, sync_shouldWork, apart u different]

theorem due_after_start (safe : Safe graph state)
    (busy : (state.tasks t).handle.isInTransition = true)
    {handle : AsyncTaskHandle} (running : handle.isRunning = true)
    (idle : handle.isInTransition = false)
    (counters : Counters graph
      (state.modify t fun task => { task with handle := handle }))
    {u : Fin n} (edge : t ∈ graph.dependencies u) :
    ((sync graph t (state.modify t fun task =>
        { task with handle := handle })).tasks u).due = true ↔
      DueAfterStart graph t state u := by
  have different : u ≠ t := by
    rintro rfl
    exact safe.not_self busy edge
  have down := safe.dependants_down_of_not_full
    (t := t) (by simp [Task.affectDependants, busy]) u edge
  have notFull : (state.tasks u).affectDependants = false := by
    by_contra full
    rw [Task.affectDependencies_of_affectDependants (by simpa using full)]
      at down
    contradiction
  rw [due_sync_iff counters different]
  simp only [down, notFull, running, idle, Bool.false_eq_true, false_and,
    or_false, true_and, and_self, DueAfterStart]
  refine and_congr_right' (forall₂_congr fun dependency _ => ?_)
  by_cases same : dependency = t <;> simp [same]

theorem due_after_stop (safe : Safe graph state)
    (busy : (state.tasks t).handle.isInTransition = true)
    {handle : AsyncTaskHandle} (stopped : handle.isRunning = false)
    (idle : handle.isInTransition = false)
    (counters : Counters graph
      (state.modify t fun task => { task with handle := handle }))
    {u : Fin n} (edge : u ∈ graph.dependencies t) :
    ((sync graph t (state.modify t fun task =>
        { task with handle := handle })).tasks u).due = true ↔
      DueAfterStop graph t state u := by
  have different : u ≠ t := by
    rintro rfl
    exact safe.not_self busy edge
  have full := safe.order t u edge (by simp [Task.affectDependencies, busy])
  have up := Task.affectDependencies_of_affectDependants full
  rw [due_sync_iff counters different]
  simp only [up, full, stopped, idle, Bool.true_eq_false, false_and, false_or,
    true_and, and_self, DueAfterStop]
  refine and_congr_right' (forall₂_congr fun dependant _ => ?_)
  by_cases same : dependant = t <;> simp [same]

theorem not_due_after_followUp (safe : Safe graph state)
    (busy : (state.tasks t).handle.isInTransition = true)
    {handle : AsyncTaskHandle} (again : handle.isInTransition = true)
    (counters : Counters graph
      (state.modify t fun task => { task with handle := handle }))
    {u : Fin n}
    (edge : t ∈ graph.dependencies u ∨ u ∈ graph.dependencies t) :
    ¬ ((sync graph t (state.modify t fun task =>
        { task with handle := handle })).tasks u).due = true := by
  have different : u ≠ t := by
    rintro rfl
    exact edge.elim (safe.not_self busy) (safe.not_self busy)
  rw [due_sync_iff counters different]
  rcases edge with above | below
  · have down := safe.dependants_down_of_not_full
      (t := t) (by simp [Task.affectDependants, busy]) u above
    rintro (⟨-, -, ready⟩ | ⟨up, -, -⟩)
    · have waiting := ready t above
      rw [if_pos rfl, again] at waiting
      exact absurd waiting.2 (by decide)
    · rw [down] at up
      contradiction
  · have full := safe.order t u below (by simp [Task.affectDependencies, busy])
    rintro (⟨down, -, -⟩ | ⟨-, -, ready⟩)
    · rw [full] at down
      contradiction
    · have waiting := ready t below
      rw [if_pos rfl, again] at waiting
      exact absurd waiting.2 (by decide)

/-- The flags of the task whose command finished agree with its handle, and
its neighbours have been re-examined: those that are due have been told. -/
def ExitIsolated (graph : TaskGraph n) (environment : Environment n) (t : Fin n)
    (state : InitdState n) (call : Call n) : Prop :=
  (call.state.tasks t).Synced ∧
    ∀ found, state.completed graph environment t = some found →
      ∀ u ∈ neighbours graph t found, (found.tasks u).due = true →
        Told u (found.tasks u).shouldWork call

/-- The kernel does not refuse the follow-up fork of the finished command, and
refuses no neighbour its fork before the turn of a due one. -/
def ExitHarmless (graph : TaskGraph n) (environment : Environment n)
    (t : Fin n) (state : InitdState n) : Prop :=
  ∀ handle, (state.tasks t).handle = .startStop handle →
    if handle.shouldWork = handle.running then
      (environment t).fork = true
    else if handle.running then
      Orderly (DueAfterStop graph t state)
        (fun u => (state.tasks u).Refused (environment u)) []
        (graph.dependencies t)
    else
      Orderly (DueAfterStart graph t state)
        (fun u => (state.tasks u).Refused (environment u)) []
        (graph.dependants t)

theorem mem_neighbours {found : InitdState n} {u : Fin n}
    (member : u ∈ neighbours graph t found) :
    t ∈ graph.dependencies u ∨ u ∈ graph.dependencies t := by
  unfold neighbours at member
  split at member
  · exact .inl (graph.mem_dependants.mp member)
  · exact .inr member

theorem stateChanged_eq : stateChanged graph environment t state =
    enqueueAll environment (neighbours graph t (sync graph t state))
      (sync graph t state) := by
  simp only [stateChanged, neighbours]
  split <;> rfl

/-- A callback that its follow-up fork lets run does what it should, exactly
where its `enqueue_all` tells every due neighbour. -/
theorem exitIsolated_returned_iff (safe : Safe graph state)
    (busy : (state.tasks t).handle.isInTransition = true)
    {after : AsyncStartStopTask} {result : ForkResult}
    (returned : result ≠ .threw)
    (done : state.completed graph environment t =
      some (sync graph t (state.modify t fun task =>
        { task with handle := .startStop after }))) :
    ExitIsolated graph environment t state
        ((afterFork t (state.modify t fun task =>
          { task with handle := .startStop after }) result).bind
            (stateChanged graph environment t)) ↔
      Orderly
        (fun u => ((sync graph t (state.modify t fun task =>
          { task with handle := .startStop after })).tasks u).due = true)
        (fun u => (state.tasks u).Refused (environment u)) []
        (neighbours graph t (sync graph t (state.modify t fun task =>
          { task with handle := .startStop after }))) := by
  generalize middle : (state.modify t fun task =>
    { task with handle := .startStop after }) = middleState at *
  have fine : (afterFork t middleState result).threw = false := by
    cases result <;> simp_all [afterFork]
  have silent : ∀ u s, ¬ Told u s (afterFork t middleState result) := by
    intro u s
    cases result <;> simp [Told, afterFork]
  have outside : t ∉ neighbours graph t (sync graph t middleState) :=
    fun member => (mem_neighbours member).elim (safe.not_self busy)
      (safe.not_self busy)
  have synced : (((afterFork t middleState result).bind
      (stateChanged graph environment t)).state.tasks t).Synced := by
    rw [Outcome.bind_state fine, afterFork_state, stateChanged_eq,
      enqueueAll_of_notMem outside]
    exact sync_synced graph t middleState
  have told := @enqueueAll_told_iff n environment (sync graph t middleState)
    (neighbours graph t (sync graph t middleState)) [] (List.forall_mem_nil _)
  simp only [List.not_mem_nil, not_false_eq_true, forall_const] at told
  have refusals : ∀ u ∈ neighbours graph t (sync graph t middleState), u ∉ [] →
      (((sync graph t middleState).tasks u).Refused (environment u) ↔
        (state.tasks u).Refused (environment u)) := by
    intro u member _
    have different : u ≠ t := fun same => outside (same ▸ member)
    rw [Task.Refused, sync_handle, ← middle, modify_of_ne _ different,
      Task.Refused]
  rw [← orderly_congr (fun _ _ _ => Iff.rfl) refusals (List.forall_mem_nil _)
    (List.forall_mem_nil _), ← told]
  constructor
  · rintro ⟨-, each⟩ u member due
    have call := (told_bind_iff fine).mp (each _ done u member due)
    rw [afterFork_state, stateChanged_eq] at call
    exact call.resolve_left (silent u _)
  · intro each
    refine ⟨synced, fun found same u member due => ?_⟩
    cases done.symm.trans same
    rw [told_bind_iff fine, afterFork_state, stateChanged_eq]
    exact .inr (each u member due)

theorem not_synced_of_threw (marked : state.AllMarked)
    {task after : AsyncStartStopTask}
    (kind : (state.tasks t).handle = .startStop task)
    (busy : task.isInTransition = true)
    (differ : task.shouldWork = task.running)
    (flipped : after.running = !task.running)
    (idle : after.isInTransition = false) :
    ¬ ((state.modify t fun task =>
      { task with handle := .startStop after }).tasks t).Synced := by
  rw [modify_self]
  rintro ⟨dependencies, dependants, -⟩
  have flags := (marked t task kind busy).resolve_right fun right =>
    right.2 (differ.symm.trans right.1)
  simp only [Task.affectDependencies, Task.affectDependants,
    AsyncTaskHandle.isRunning, AsyncTaskHandle.isInTransition,
    AsyncStartStopTask.isRunning, flags, flipped, idle] at dependencies dependants
  cases running : task.running <;> simp [running] at dependencies dependants

theorem exitIsolated_iff (safe : Safe graph state) (marked : state.AllMarked)
    {call : Call n}
    (exited : state.childExited graph environment t = some call) :
    ExitIsolated graph environment t state call ↔
      ExitHarmless graph environment t state := by
  obtain ⟨task, after, result, kind, finished, rfl⟩ := childExited_cases exited
  have taskBusy := AsyncStartStopTask.operationCompleted_isInTransition finished
  have busy : (state.tasks t).handle.isInTransition = true := by
    rw [kind]
    exact taskBusy
  have flipped := AsyncStartStopTask.operationCompleted_running finished
  have found : state.completed graph environment t =
      some (sync graph t (state.modify t fun task =>
        { task with handle := .startStop after })) := by
    simp [completed, kind, finished]
  have step : AsyncTaskHandle.Finished (environment t) (state.tasks t).handle
      (.startStop after) result := kind ▸ .operation finished
  have counters := (safe.finished step).counters
  have threw := AsyncStartStopTask.operationCompleted_threw_iff finished
  have harmless : ExitHarmless graph environment t state ↔
      if task.shouldWork = task.running then (environment t).fork = true
      else if task.running then
        Orderly (DueAfterStop graph t state)
          (fun u => (state.tasks u).Refused (environment u)) []
          (graph.dependencies t)
      else
        Orderly (DueAfterStart graph t state)
          (fun u => (state.tasks u).Refused (environment u)) []
          (graph.dependants t) := by
    simp only [ExitHarmless, kind, AsyncTaskHandle.startStop.injEq,
      forall_eq']
  rw [harmless]
  by_cases differ : task.shouldWork = task.running
  · rw [if_pos differ]
    cases fork : (environment t).fork with
    | false =>
        obtain rfl := threw.mpr ⟨differ, fork⟩
        have idle := AsyncStartStopTask.operationCompleted_threw_idle finished
        refine iff_of_false (fun isolated => ?_) Bool.false_ne_true
        exact not_synced_of_threw marked kind taskBusy differ flipped idle
          isolated.1
    | true =>
        have returned : result ≠ .threw := fun thrown => by
          simp [fork] at threw
          exact threw thrown
        rw [fork] at finished
        have again : (AsyncTaskHandle.startStop after).isInTransition = true :=
          AsyncStartStopTask.operationCompleted_followUp finished differ
        rw [exitIsolated_returned_iff safe busy returned found]
        refine iff_of_true ?_ rfl
        intro earlier u later split due
        have member : u ∈ neighbours graph t (sync graph t (state.modify t
            fun task => { task with handle := .startStop after })) :=
          split ▸ List.mem_append_cons_self
        exact absurd due (not_due_after_followUp safe busy again counters
          (mem_neighbours member))
  · have agree : task.shouldWork = !task.running := by
      cases running : task.running <;> simp_all
    have idle : (AsyncTaskHandle.startStop after).isInTransition = false :=
      AsyncStartStopTask.operationCompleted_idle finished agree
    have returned : result ≠ .threw := fun thrown => differ (threw.mp thrown).1
    rw [if_neg differ, exitIsolated_returned_iff safe busy returned found]
    have shows : ((sync graph t (state.modify t fun task =>
        { task with handle := .startStop after })).tasks t).handle.isRunning =
          !task.running := by
      rw [sync_handle, modify_self]
      exact flipped
    cases running : task.running with
    | true =>
        rw [if_pos rfl]
        have stopped : (AsyncTaskHandle.startStop after).isRunning = false :=
          flipped.trans (by rw [running]; rfl)
        rw [neighbours, shows, running, if_neg (by simp)]
        exact orderly_congr
          (fun u edge _ => due_after_stop safe busy stopped idle counters edge)
          (fun _ _ _ => Iff.rfl) (List.forall_mem_nil _) (List.forall_mem_nil _)
    | false =>
        rw [if_neg Bool.false_ne_true]
        have started : (AsyncTaskHandle.startStop after).isRunning = true :=
          flipped.trans (by rw [running]; rfl)
        rw [neighbours, shows, running, if_pos (by simp)]
        exact orderly_congr
          (fun u edge _ => due_after_start safe busy started idle counters
            (graph.mem_dependants.mp edge))
          (fun _ _ _ => Iff.rfl) (List.forall_mem_nil _) (List.forall_mem_nil _)

end Exits

/-- A failed launch is isolated to its task, exactly where it stands last. -/
theorem fork_failure_isolated_iff {descriptions : TaskDescriptions n}
    {state : InitdState n}
    (reached : (initdSystem descriptions fun _ => True).Reachable state)
    (environment : Environment n) :
    (∀ runLevelName requisites selected,
        descriptions.graph.runLevels.lookup runLevelName = some requisites →
        selectRunLevel descriptions.graph requisites state = some selected →
        (state.setRunLevel descriptions.graph environment runLevelName =
            some (enqueueAll environment (List.finRange n) selected)) ∧
          ((∀ u, (selected.tasks u).due = true →
              Told u (selected.tasks u).shouldWork
                (enqueueAll environment (List.finRange n) selected)) ↔
            Orderly (DueForRunLevel descriptions.graph
                (closure descriptions.graph requisites) state)
              (fun u => (state.tasks u).Refused (environment u)) []
              (List.finRange n))) ∧
      ((∀ u, ((syncAll descriptions.graph
              state.clearShouldWorkFlag).tasks u).due = true →
          Told u false
            (state.setEmptyRunLevel descriptions.graph environment)) ↔
        Orderly (DueForRunLevel descriptions.graph (fun _ => False) state)
          (fun u => (state.tasks u).Refused (environment u)) []
          (List.finRange n)) ∧
      ∀ t call, state.childExited descriptions.graph environment t = some call →
        (ExitIsolated descriptions.graph environment t state call ↔
          ExitHarmless descriptions.graph environment t state) := by
  have safe := reachable_safe reached
  have marked := reachable_allMarked reached
  refine ⟨?_, ?_, fun t call exited => exitIsolated_iff safe marked exited⟩
  · intro runLevelName requisites selected configured selects
    refine ⟨?_, (selectRunLevel_selected selects).told_iff safe.counters⟩
    simp only [setRunLevel, configured, selects, Option.map_some]
  · have selects := setEmptyRunLevel_selected descriptions.graph state
    have unwanted : ∀ u, ((syncAll descriptions.graph
        state.clearShouldWorkFlag).tasks u).shouldWork = false := by
      intro u
      simpa using (selects.shouldWork u).not
    rw [← selects.told_iff safe.counters]
    simp only [unwanted, setEmptyRunLevel]

/-! A follow-up that the kernel refuses. -/

def refusing : Environment 2 := fun _ => ⟨false, true⟩

/-- The service is told to stop while its start command runs. -/
def serviceRetargeted : InitdState 2 :=
  (serviceStarting.run serviceOverControl.graph
    [(answering, .setEmptyRunLevel)]).get (by decide)

theorem serviceRetargeted_reachable :
    (initdSystem serviceOverControl fun _ => True).Reachable serviceRetargeted :=
  reachable_of_run (fun _ _ => trivial) (serviceStarting_reachable trivial)
    (Option.some_get _).symm

theorem fork_failure_isolated_iff_serviceRetargeted :
    ∃ call, serviceRetargeted.childExited serviceOverControl.graph refusing
        serviceTask = some call ∧
      (ExitIsolated serviceOverControl.graph refusing serviceTask
          serviceRetargeted call ↔
        ExitHarmless serviceOverControl.graph refusing serviceTask
          serviceRetargeted) := by
  have exits : (serviceRetargeted.childExited serviceOverControl.graph refusing
      serviceTask).isSome = true := by
    decide
  obtain ⟨call, exited⟩ := Option.isSome_iff_exists.mp exits
  exact ⟨call, exited, (fork_failure_isolated_iff serviceRetargeted_reachable
    refusing).2.2 serviceTask call exited⟩

/-- The start command exits, and the fork of the stop command fails: the flags
of the service still say that it is in transition. -/
theorem fork_failure_leaves_flags_stale :
    (initdSystem serviceOverControl fun _ => True).Reachable
        serviceRetargeted ∧
      ∃ call, serviceRetargeted.childExited serviceOverControl.graph refusing
          serviceTask = some call ∧
        (call.state.tasks serviceTask).countedInDependants = false ∧
        (call.state.tasks serviceTask).affectDependants = true ∧
        ¬ ExitIsolated serviceOverControl.graph refusing serviceTask
          serviceRetargeted call := by
  refine ⟨serviceRetargeted_reachable,
    (serviceRetargeted.childExited serviceOverControl.graph refusing
      serviceTask).get (by decide), (Option.some_get _).symm, by decide,
    by decide, ?_⟩
  rintro ⟨synced, -⟩
  exact absurd synced.dependants (by decide)

end InitdState

end Initd
