import Initd.Runtime.InitdState

namespace Initd

open Library

/-! What the constructor of `initd_state` builds. -/

variable {n : Nat}

/-- What every call of `add_task_dependency` keeps. -/
structure Wiring.Mirrored (descriptions : TaskDescriptions n)
    (wiring : Wiring n) : Prop where
  mirrored : ∀ dependant dependency,
    (wiring.dependencies dependant).count dependency =
      (wiring.dependants dependency).count dependant
  tasks : ∀ t, wiring.state.tasks t =
    { descriptions.createTasks.state.tasks t with
        stoppedDependencies := (wiring.dependencies t).length % sizeBound }
  pendingTasks : wiring.state.pendingTasks = 0

theorem addDelta_mod (length : Nat) :
    addDelta (length % sizeBound) 1 = (length + 1) % sizeBound := by
  unfold addDelta sizeBound
  omega

theorem Wiring.Mirrored.addTaskDependency
    {descriptions : TaskDescriptions n} {wiring : Wiring n}
    (wired : wiring.Mirrored descriptions) (dependant dependency : Fin n) :
    (addTaskDependency dependant dependency wiring).Mirrored descriptions where
  mirrored other target := by
    have before := wired.mirrored other target
    by_cases source : other = dependant <;> by_cases sink : target = dependency
    · subst other target
      simpa [Initd.addTaskDependency] using before
    · subst other
      simpa [Initd.addTaskDependency, sink, List.count_singleton,
        Ne.symm sink] using before
    · subst target
      simpa [Initd.addTaskDependency, source, List.count_singleton,
        Ne.symm source] using before
    · simpa [Initd.addTaskDependency, source, sink] using before
  tasks t := by
    simp only [Initd.addTaskDependency, InitdState.modify_tasks, wired.tasks]
    by_cases same : t = dependant
    · subst t
      simp [addDelta_mod]
    · simp [same]
  pendingTasks := wired.pendingTasks

namespace TaskDescriptions

variable (descriptions : TaskDescriptions n)

theorem wire_mirrored : descriptions.wire.Mirrored descriptions := by
  refine List.foldlRecOn _ _ ⟨fun _ _ => rfl, fun _ => rfl, rfl⟩ ?_
  intro wiring wired i _
  exact List.foldlRecOn _ _ wired fun wiring wired dep _ =>
    wired.addTaskDependency i dep

private theorem foldl_dependencies (i : Fin n) (deps : List (Fin n))
    (wiring : Wiring n) :
    (deps.foldl (fun wiring dep => addTaskDependency i dep wiring)
        wiring).dependencies =
      Function.update wiring.dependencies i
        (wiring.dependencies i ++ deps) := by
  induction deps generalizing wiring with
  | nil => simp
  | cons dep rest induction =>
      rw [List.foldl_cons, induction]
      simp [addTaskDependency]

/-- The run-time tasks have the dependencies of their descriptions, each as
often and in the same order. -/
theorem wire_dependencies (t : Fin n) :
    descriptions.wire.dependencies t =
      (descriptions.allTasks t).dependencies := by
  have loop : ∀ (visited : List (Fin n)) (wiring : Wiring n), visited.Nodup →
      (visited.foldl (fun wiring i =>
          (descriptions.allTasks i).dependencies.foldl
            (fun wiring dep => addTaskDependency i dep wiring) wiring)
          wiring).dependencies t =
        if t ∈ visited then
          wiring.dependencies t ++ (descriptions.allTasks t).dependencies
        else
          wiring.dependencies t := by
    intro visited
    induction visited with
    | nil => intro wiring _; simp
    | cons i rest induction =>
        intro wiring nodup
        obtain ⟨fresh, nodup⟩ := List.nodup_cons.mp nodup
        rw [List.foldl_cons, induction _ nodup, foldl_dependencies]
        by_cases same : t = i
        · subst t
          simp [fresh]
        · simp [same]
  rw [wire, loop _ _ (List.nodup_finRange n)]
  simp [createTasks]

theorem sum_lengths_bound (t : Fin n) :
    (descriptions.allTasks t).dependencies.length < sizeBound :=
  Nat.lt_of_le_of_lt
    (Finset.single_le_sum
      (f := fun t => (descriptions.allTasks t).dependencies.length)
      (fun _ _ => Nat.zero_le _) (Finset.mem_univ t))
    descriptions.dependencies_size

theorem wire_dependants_size (t : Fin n) :
    (descriptions.wire.dependants t).length < sizeBound := by
  have counted := Multiset.sum_count_eq_card (s := Finset.univ)
    (m := (descriptions.wire.dependants t : Multiset (Fin n)))
    (fun other _ => Finset.mem_univ other)
  simp only [Multiset.coe_count, Multiset.coe_card] at counted
  rw [← counted]
  refine Nat.lt_of_le_of_lt (Finset.sum_le_sum fun other _ => ?_)
    descriptions.dependencies_size
  rw [← descriptions.wire_mirrored.mirrored, wire_dependencies]
  exact List.count_le_length

def graph : TaskGraph n where
  dependencies := descriptions.wire.dependencies
  dependants := descriptions.wire.dependants
  runLevels := descriptions.runLevelByName
  mirrored := descriptions.wire_mirrored.mirrored
  dependencies_size t := by
    rw [wire_dependencies]
    exact descriptions.sum_lengths_bound t
  dependants_size := descriptions.wire_dependants_size
  tasks_size := descriptions.tasks_size

def initdState : InitdState n := descriptions.wire.state

theorem initdState_tasks (t : Fin n) :
    descriptions.initdState.tasks t =
      { Task.create (createAsyncTaskHandle (descriptions.allTasks t).data) with
          stoppedDependencies := (descriptions.graph.dependencies t).length } := by
  have fits : (descriptions.wire.dependencies t).length < sizeBound :=
    descriptions.graph.dependencies_size t
  rw [initdState, descriptions.wire_mirrored.tasks, Nat.mod_eq_of_lt fits]
  rfl

@[simp] theorem initdState_pendingTasks :
    descriptions.initdState.pendingTasks = 0 :=
  descriptions.wire_mirrored.pendingTasks

@[simp] theorem initdState_handle (t : Fin n) :
    (descriptions.initdState.tasks t).handle =
      createAsyncTaskHandle (descriptions.allTasks t).data := by
  rw [initdState_tasks]; rfl

@[simp] theorem initdState_shouldWork (t : Fin n) :
    (descriptions.initdState.tasks t).shouldWork = false := by
  rw [initdState_tasks]; rfl

/-- Nothing is up after construction. -/
theorem initdState_affectDependencies (t : Fin n) :
    (descriptions.initdState.tasks t).affectDependencies = false := by
  simp [Task.affectDependencies]

theorem initdState_counters :
    InitdState.Counters descriptions.graph descriptions.initdState where
  runningDependants dependency := by
    simp only [initdState_tasks]
    exact (flagSum_clear _ fun _ => rfl).symm
  stoppedDependencies dependant := by
    simp only [initdState_tasks, Task.create, flagSum, Bool.not_false, if_true]
    have counted := Multiset.sum_count_eq_card (s := Finset.univ)
      (m := (descriptions.graph.dependencies dependant : Multiset (Fin n)))
      (fun other _ => Finset.mem_univ other)
    simpa [TaskGraph.edges] using counted.symm
  pendingTasks := by
    simp only [initdState_tasks, initdState_pendingTasks]
    exact (flagSum_clear _ fun _ => rfl).symm

end TaskDescriptions

/-- The runs of an `initd_state` whose steps meet environments of one kind. -/
def initdSystem (descriptions : TaskDescriptions n)
    (allowed : Environment n → Prop) : StepSystem (InitdState n) where
  init state := state = descriptions.initdState
  step before after := ∃ environment event call,
    allowed environment ∧
      before.step descriptions.graph environment event = some call ∧
      call.state = after

namespace InitdState

/-- The state after the events of a schedule, if each can occur in its turn. -/
def run (graph : TaskGraph n) (schedule : List (Environment n × Event n))
    (state : InitdState n) : Option (InitdState n) :=
  StepSystem.run
    (fun entry state => (state.step graph entry.1 entry.2).map (·.state))
    schedule state

theorem reachable_of_run {descriptions : TaskDescriptions n}
    {allowed : Environment n → Prop}
    {schedule : List (Environment n × Event n)} {before after : InitdState n}
    (permitted : ∀ entry ∈ schedule, allowed entry.1)
    (reached : (initdSystem descriptions allowed).Reachable before)
    (ran : before.run descriptions.graph schedule = some after) :
    (initdSystem descriptions allowed).Reachable after := by
  refine reached.run (fun entry member _ _ moved => ?_) ran
  obtain ⟨call, stepped, rfl⟩ := Option.map_eq_some_iff.mp moved
  exact ⟨entry.1, entry.2, call, permitted entry member, stepped, rfl⟩

end InitdState

/-- The run level that the constructor of `context` selects. -/
def defaultRunLevel : Bytes := ascii "default"

/-! A small configuration: a service over a control socket. -/

def controlTask : Fin 2 := 0

def serviceTask : Fin 2 := 1

def serviceOverControl : TaskDescriptions 2 where
  allTasks t :=
    if t = controlTask then
      ⟨ascii "c", .control ⟨ascii "u"⟩, []⟩
    else
      ⟨ascii "s", .startStop ⟨⟨⟨ascii "a", []⟩, []⟩, ⟨⟨ascii "z", []⟩, []⟩⟩,
        [controlTask]⟩
  runLevelByName :=
    [(defaultRunLevel, [serviceTask]), (ascii "b", [controlTask])]
  dependencies_size := by decide
  tasks_size := by decide

def answering : Environment 2 := fun _ => ⟨true, true⟩

/-- Its control task is up, and its service is starting. -/
def serviceStarting : InitdState 2 :=
  (serviceOverControl.initdState.run serviceOverControl.graph
    [(answering, .setRunLevel defaultRunLevel),
      (answering, .callbackDelivered controlTask)]).get (by decide)

theorem serviceStarting_reachable {allowed : Environment 2 → Prop}
    (permitted : allowed answering) :
    (initdSystem serviceOverControl allowed).Reachable serviceStarting :=
  InitdState.reachable_of_run (by simpa using permitted) (.init rfl)
    (Option.some_get _).symm

/-- Both its tasks are up, and nothing is on its way. -/
def serviceUp : InitdState 2 :=
  (serviceStarting.run serviceOverControl.graph
    [(answering, .childExited serviceTask)]).get (by decide)

theorem serviceUp_reachable {allowed : Environment 2 → Prop}
    (permitted : allowed answering) :
    (initdSystem serviceOverControl allowed).Reachable serviceUp :=
  InitdState.reachable_of_run (by simpa using permitted)
    (serviceStarting_reachable permitted) (Option.some_get _).symm

end Initd
