import Initd.Reader.Expressible
import Initd.Runtime.Rest

namespace Initd

open Library Reader

/-! What is up, by the declarations of the file that the configuration was read
from. -/

/-- By a declaration, the one task depends on the other. -/
def DependsOn (tree : TopLevelNode) (dependant dependency : Bytes) : Prop :=
  ∃ decl ∈ tree.dependenciesDecls, nameText decl.dependant = some dependant ∧
    some dependency ∈ decl.dependencies.map nameText

/-- The task is in the closure of a run level of this name. -/
def AsksFor (tree : TopLevelNode) (level name : Bytes) : Prop :=
  ∃ node ∈ tree.runLevels, nameText node.name = some level ∧
    ∃ requisite, some requisite ∈ node.dependencies.map nameText ∧
      Relation.ReflTransGen (DependsOn tree) requisite name

/-- No cycle of declarations is below the task. -/
def Startable (tree : TopLevelNode) (name : Bytes) : Prop :=
  ∀ below, Relation.ReflTransGen (DependsOn tree) name below →
    ¬ Relation.TransGen (DependsOn tree) below below

namespace Reader

variable {tree : TopLevelNode} {tds : TaskDescriptions}

theorem some_mem_map_nameText {pointers : List (Option IdentifierToken)}
    {name : Bytes} :
    some name ∈ pointers.map nameText ↔
      ∃ pointer ∈ pointers, nameText pointer = some name :=
  List.mem_map

theorem TaskDescriptions.name_of_resolve {pointer : Option IdentifierToken}
    {task : Nat} (resolved : tds.resolve pointer = some task) :
    nameText pointer = some (tds.nameOf task) := by
  obtain ⟨name, named, found⟩ := Option.bind_eq_some_iff.mp resolved
  obtain ⟨description, present, rfl⟩ :=
    TaskDescriptions.exists_of_taskNamed found
  obtain ⟨inside, rfl⟩ := List.getElem?_eq_some_iff.mp present
  rw [named, TaskDescriptions.nameOf_eq inside]

theorem TaskDescriptions.exists_nameOf {pointer : Option IdentifierToken}
    {name : Bytes} (resolves : (tds.resolve pointer).isSome = true)
    (named : nameText pointer = some name) :
    ∃ task, task < tds.allTasks.length ∧ tds.nameOf task = name ∧
      tds.resolve pointer = some task := by
  obtain ⟨task, resolved⟩ := Option.isSome_iff_exists.mp resolves
  have same := name_of_resolve resolved
  rw [named] at same
  exact ⟨task, lt_of_resolve resolved, (Option.some.inj same).symm, resolved⟩

namespace Describes

theorem nameOf_injective (describes : Describes tree tds) {task other : Nat}
    (inside : task < tds.allTasks.length)
    (inside' : other < tds.allTasks.length)
    (same : tds.nameOf task = tds.nameOf other) : task = other := by
  have found := TaskDescriptions.taskNamed_nameOf describes.namesAscend inside
  rw [same, TaskDescriptions.taskNamed_nameOf describes.namesAscend inside']
    at found
  exact (Option.some.inj found).symm

/-- The edges of the tasks are those that are declared for their names. -/
theorem mem_dependencies_iff (describes : Describes tree tds)
    {task dependency : Nat}
    (inside : task < tds.allTasks.length)
    (inside' : dependency < tds.allTasks.length) :
    dependency ∈ tds.allTasks[task].dependencies ↔
      DependsOn tree (tds.nameOf task) (tds.nameOf dependency) := by
  rw [describes.dependencies task _ (List.getElem?_eq_getElem inside),
    List.mem_flatMap]
  refine exists_congr fun decl => and_congr_right fun member => ?_
  rw [some_mem_map_nameText]
  constructor
  · intro edge
    unfold TaskDescriptions.edges at edge
    split at edge
    · next dependant =>
        obtain ⟨pointer, listed, resolved⟩ := List.mem_filterMap.mp edge
        exact ⟨TaskDescriptions.name_of_resolve dependant, pointer, listed,
          TaskDescriptions.name_of_resolve resolved⟩
    · contradiction
  · rintro ⟨dependant, pointer, listed, named⟩
    rw [TaskDescriptions.edges, if_pos (TaskDescriptions.resolve_of_name
      describes.namesAscend inside dependant)]
    exact List.mem_filterMap.mpr ⟨pointer, listed,
      TaskDescriptions.resolve_of_name describes.namesAscend inside' named⟩

theorem closed (describes : Describes tree tds) {dependant dependency : Bytes}
    (depends : DependsOn tree dependant dependency) :
    ∃ task, task < tds.allTasks.length ∧ tds.nameOf task = dependency := by
  obtain ⟨decl, member, -, listed⟩ := depends
  obtain ⟨pointer, inside, named⟩ := some_mem_map_nameText.mp listed
  obtain ⟨task, below, same, -⟩ := TaskDescriptions.exists_nameOf
    ((describes.declared decl member).2 pointer inside) named
  exact ⟨task, below, same⟩

section HandOver

variable (owned : tds.Owned) (fits : tds.FitsMemory)

theorem mem_findTasks {size : Nat} {pointers : List Nat}
    (owned : ∀ pointer ∈ pointers, pointer < size) (task : Fin size) :
    task ∈ TaskDescriptions.findTasks pointers owned ↔
      task.val ∈ pointers := by
  refine (List.mem_map_of_injective Fin.val_injective).symm.trans ?_
  rw [TaskDescriptions.findTasks_val]

theorem namedBy (describes : Describes tree tds) :
    Digraph.NamedBy (TaskDescriptions.handOver owned fits).graph.dependencies
      (DependsOn tree) fun task => tds.nameOf task.val where
  injective task other same := Fin.ext
    (describes.nameOf_injective task.isLt other.isLt same)
  edge task dependency := by
    rw [← describes.mem_dependencies_iff task.isLt dependency.isLt]
    have edges : (TaskDescriptions.handOver owned fits).graph.dependencies
        task = TaskDescriptions.findTasks _ (owned.dependencies task) :=
      TaskDescriptions.wire_dependencies _ task
    rw [edges]
    exact mem_findTasks (owned.dependencies task) dependency
  closed task below depends := by
    obtain ⟨dependency, inside, same⟩ := describes.closed depends
    exact ⟨⟨dependency, inside⟩, same⟩

theorem level_mem_iff (describes : Describes tree tds) {level : Bytes}
    {requisites : List Nat} :
    (level, requisites) ∈ tds.runLevelByName ↔ ∃ node ∈ tree.runLevels,
      nameText node.name = some level ∧
        node.dependencies.filterMap tds.resolve = requisites := by
  have pairs : Function.Injective fun level : Bytes × List Nat =>
      (some level.1, level.2) := by
    intro level level' equal
    obtain ⟨names, requisites⟩ := Prod.mk.inj equal
    exact Prod.ext (Option.some.inj names) requisites
  rw [← List.mem_map_of_injective pairs, describes.levels.mem_iff,
    List.mem_map]
  simp only [Prod.mk.injEq]

/-- A run level is looked up as it is declared. -/
theorem lookup_iff (describes : Describes tree tds) {level : Bytes}
    {requisites : List (Fin tds.allTasks.length)} :
    (TaskDescriptions.handOver owned fits).graph.runLevels.lookup level =
        some requisites ↔
      (level, requisites.map Fin.val) ∈ tds.runLevelByName := by
  constructor
  · intro found
    obtain ⟨before, after, split, -⟩ := List.lookup_eq_some_iff.mp found
    have member : (level, requisites) ∈
        (TaskDescriptions.handOver owned fits).graph.runLevels := by
      rw [split]
      exact List.mem_append_right _ List.mem_cons_self
    obtain ⟨other, inside, same⟩ := List.mem_pmap.mp member
    obtain ⟨rfl, rfl⟩ := Prod.mk.inj same
    rw [TaskDescriptions.findTasks_val]
    exact inside
  · intro member
    have keys : (TaskDescriptions.handOver owned fits).graph.runLevels.map
        Prod.fst = tds.runLevelByName.map Prod.fst := by
      simp [TaskDescriptions.handOver, Initd.TaskDescriptions.graph,
        List.map_pmap]
    have found : (level, requisites) ∈
        (TaskDescriptions.handOver owned fits).graph.runLevels := by
      refine List.mem_pmap.mpr ⟨_, member, Prod.ext rfl ?_⟩
      refine List.map_injective_iff.mpr Fin.val_injective ?_
      rw [TaskDescriptions.findTasks_val]
    refine Multimap.lookup_of_mem ?_ found
    rw [keys]
    exact describes.levelsAscend.nodup

theorem exists_lookup (describes : Describes tree tds) {level : Bytes}
    {node : RunLevelNode} (inside : node ∈ tree.runLevels)
    (called : nameText node.name = some level) :
    ∃ requisites, (TaskDescriptions.handOver owned fits).graph.runLevels.lookup
        level = some requisites ∧
      requisites.map Fin.val = node.dependencies.filterMap tds.resolve := by
  have member := describes.level_mem_iff.mpr ⟨node, inside, called, rfl⟩
  have values := TaskDescriptions.findTasks_val (owned.runLevels _ member)
  refine ⟨_, (describes.lookup_iff owned fits).mpr ?_, values⟩
  rw [values]
  exact member

theorem selects_iff (describes : Describes tree tds) (level : Bytes)
    (task : Fin tds.allTasks.length) :
    (ControlMessage.setRunlevel level).Selects
        (TaskDescriptions.handOver owned fits).graph task ↔
      AsksFor tree level (tds.nameOf task.val) := by
  have named := describes.namedBy owned fits
  constructor
  · rintro ⟨requisites, found, d, member, path⟩
    obtain ⟨node, inside, called, same⟩ := describes.level_mem_iff.mp
      ((describes.lookup_iff owned fits).mp found)
    have listed : d.val ∈ node.dependencies.filterMap tds.resolve :=
      same ▸ List.mem_map_of_mem member
    obtain ⟨pointer, present, resolved⟩ := List.mem_filterMap.mp listed
    exact ⟨node, inside, called, tds.nameOf d.val,
      some_mem_map_nameText.mpr
        ⟨pointer, present, TaskDescriptions.name_of_resolve resolved⟩,
      named.reaches_iff.mp path⟩
  · rintro ⟨node, inside, called, requisite, listed, path⟩
    obtain ⟨pointer, present, named'⟩ := some_mem_map_nameText.mp listed
    obtain ⟨d, below, rfl, resolved⟩ := TaskDescriptions.exists_nameOf
      (describes.requisites node inside pointer present) named'
    obtain ⟨requisites, found, same⟩ :=
      describes.exists_lookup owned fits inside called
    refine ⟨requisites, found, ⟨d, below⟩, ?_, named.reaches_iff.mpr path⟩
    rw [← List.mem_map_of_injective Fin.val_injective, same]
    exact List.mem_filterMap.mpr ⟨pointer, present, resolved⟩

end HandOver

end Describes

end Reader

/-! The machine of a configuration that was read. -/

namespace Machine

variable {n : Nat} {descriptions : TaskDescriptions n} {level : Bytes}
  {machine changed after : Machine n}

/-- Right before, the run level was chosen: the default one by the constructor
of `context`, or one by a request; and no fork was refused so far. -/
def Chose (descriptions : TaskDescriptions n) (level : Bytes)
    (changed : Machine n) : Prop :=
  (machineSystem descriptions ForksSucceed).init changed ∧
      level = defaultRunLevel ∨
    ∃ machine environment event launches,
      (machineSystem descriptions ForksSucceed).Reachable machine ∧
        ForksSucceed environment ∧
        event.request = some (.setRunlevel level) ∧
        machine.next descriptions.graph environment
          (.called event launches) = some changed

theorem settling_boot
    (booted : (machineSystem descriptions ForksSucceed).init machine) :
    Settling descriptions.graph
        (fun t => (machine.ctx.state.tasks t).shouldWork) .running machine ∧
      ∀ t, (machine.ctx.state.tasks t).shouldWork = true ↔
        (ControlMessage.setRunlevel defaultRunLevel).Selects
          descriptions.graph t := by
  have reached := StepSystem.Reachable.init booted
  obtain ⟨linked, between, inContext⟩ := reachable_linked reached
  obtain ⟨environment, call, launches, forks, changed, returned, launched⟩ :=
    booted
  obtain ⟨-, -, ctx, -⟩ := (linked_boot changed).launchAll rfl launched
  have stepped : descriptions.initdState.step descriptions.graph environment
    (.setRunLevel defaultRunLevel) = some call := changed
  refine ⟨⟨linked, between, reachable_quiet reached, ⟨?_, fun _ => rfl⟩, ?_⟩, ?_⟩
    <;> rw [ctx]
  · exact InitdState.step_settled (InitdState.initdState_safe descriptions)
      (InitdState.initdState_settled descriptions) forks stepped
  · intro t
    cases configured : descriptions.graph.runLevels.lookup defaultRunLevel with
    | none =>
        simp only [InitdState.setRunLevel, configured] at changed
        obtain rfl := Option.some.inj changed
        contradiction
    | some requisites =>
        rw [InitdState.setRunLevel_wants configured changed t]
        constructor
        · exact fun selected => ⟨requisites, configured, selected⟩
        · rintro ⟨others, configured', selected⟩
          rw [configured] at configured'
          exact Option.some.inj configured' ▸ selected

theorem Chose.settling (chose : Chose descriptions level changed)
    (configured :
      (ControlMessage.setRunlevel level).Configured descriptions.graph) :
    Settling descriptions.graph
        (fun t => (changed.ctx.state.tasks t).shouldWork) .running changed ∧
      ∀ t, (changed.ctx.state.tasks t).shouldWork = true ↔
        (ControlMessage.setRunlevel level).Selects descriptions.graph t := by
  rcases chose with ⟨booted, rfl⟩ | ⟨machine, environment, event, launches,
    reached, forks, asks, asked⟩
  · exact settling_boot booted
  · exact settling_request reached forks asks configured asked

end Machine

namespace Reader

/-- The descriptions that were read, as `initd_state` receives them. -/
abbrev SilentRead.handOver {text : Bytes} {tokens : List Token}
    {tree : TopLevelNode} {tds : TaskDescriptions}
    (silent : SilentRead text tokens tree tds) (fits : tds.FitsMemory) :
    Initd.TaskDescriptions tds.allTasks.length :=
  TaskDescriptions.handOver silent.expressible.owned fits

/-- The tasks that a run level of a file without faults brings up, once it was
chosen, at boot or by a request, and all that this sets off has happened: those
that it lists or that one of these depends on, as far as no cycle is below
them, each with the data that its value means. -/
theorem file_decides {text : Bytes} {tokens : List Token} {tree : TopLevelNode}
    {tds : TaskDescriptions} (silent : SilentRead text tokens tree tds)
    (fits : tds.FitsMemory) {level : Bytes}
    (declared : ∃ node ∈ tree.runLevels, nameText node.name = some level)
    {changed after : Machine tds.allTasks.length}
    (chose : Machine.Chose (silent.handOver fits) level changed)
    {effects : List (Option (Context.Event tds.allTasks.length))}
    (ran : Run (Machine.CalmStep (silent.handOver fits).graph) changed effects
      after) (rest : after.AtRest) :
    ∀ node ∈ tree.tasks, ∃ name value, nameText node.name = some name ∧
      node.value = some value ∧
      ∃! t, ((silent.handOver fits).allTasks t).name = name ∧
        MeansTask value ((silent.handOver fits).allTasks t).data ∧
        (after.ctx.state.tasks t).handle.isInTransition = false ∧
        ((after.ctx.state.tasks t).handle.isRunning = true ↔
          AsksFor tree level name ∧ Startable tree name) := by
  obtain ⟨-, describes⟩ := silent.describes
  have owned := silent.expressible.owned
  have configured : (ControlMessage.setRunlevel level).Configured
      (silent.handOver fits).graph := by
    rintro name ⟨⟩ none
    obtain ⟨node, inside, called⟩ := declared
    obtain ⟨requisites, found, -⟩ :=
      describes.exists_lookup owned fits inside called
    rw [none] at found
    contradiction
  obtain ⟨start, wants⟩ := chose.settling configured
  have settling := ran.invariant (fun moved settling => (settling.step moved).1)
    start
  have named := describes.namedBy owned fits
  intro node member
  obtain ⟨description, present, called⟩ := describes.exists_description member
  obtain ⟨value, valued, means⟩ :=
    describes.data node member description present called
  obtain ⟨task, inside, rfl⟩ := List.mem_iff_getElem.mp present
  have name := TaskDescriptions.nameOf_eq inside
  refine ⟨_, value, called, valued, ⟨task, inside⟩, ⟨rfl, means, ?_⟩, ?_⟩
  · obtain ⟨idle, running⟩ := settling.atRest rest ⟨task, inside⟩
    refine ⟨idle, running.trans ?_⟩
    rw [wants, describes.selects_iff owned fits level, named.acyclicFrom_iff,
      name]
    rfl
  · rintro other ⟨same, -⟩
    refine named.injective (Eq.trans ?_ (same.trans name.symm))
    exact TaskDescriptions.nameOf_eq other.isLt

def defaultTaskFile : Bytes :=
  ascii "task a=null\x7b\x7d;run_level default:a;"

def defaultTask : TaskDescriptions where
  allTasks := [⟨ascii "a", .null, []⟩]
  taskByName := [(ascii "a", 0)]
  runLevelByName := [(defaultRunLevel, [0])]

theorem defaultTaskFile_silent :
    ∃ tokens tree, SilentRead defaultTaskFile tokens tree defaultTask := by
  have lexed : (Lexer.readAll defaultTaskFile).map (fun read =>
      (read.1, read.2.errors)) = .ok
        ([⟨⟨0, 4⟩, .simple .taskKeyword rfl⟩,
          ⟨⟨5, 6⟩, .identifier (ascii "a")⟩, ⟨⟨6, 7⟩, .simple .equals rfl⟩,
          ⟨⟨7, 11⟩, .identifier (ascii "null")⟩,
          ⟨⟨11, 12⟩, .simple .lbrace rfl⟩, ⟨⟨12, 13⟩, .simple .rbrace rfl⟩,
          ⟨⟨13, 14⟩, .simple .semicolon rfl⟩,
          ⟨⟨14, 23⟩, .simple .runLevelKeyword rfl⟩,
          ⟨⟨24, 31⟩, .identifier (ascii "default")⟩,
          ⟨⟨31, 32⟩, .simple .colon rfl⟩,
          ⟨⟨32, 33⟩, .identifier (ascii "a")⟩,
          ⟨⟨33, 34⟩, .simple .semicolon rfl⟩], []) := by
    decide
  cases ran : Lexer.readAll defaultTaskFile with
  | error fault =>
      rw [ran] at lexed
      contradiction
  | ok read =>
      rw [ran] at lexed
      obtain ⟨tokens, lexer⟩ := read
      obtain ⟨rfl, silent⟩ := Prod.mk.inj (Except.ok.inj lexed)
      exact ⟨_, _, ⟨lexer, ran, silent⟩, rfl, rfl⟩

theorem defaultTask_owned : defaultTask.Owned := by
  obtain ⟨tokens, tree, silent⟩ := defaultTaskFile_silent
  exact silent.expressible.owned

theorem defaultTask_fits : defaultTask.FitsMemory where
  dependencies_size := by decide
  tasks_size := by decide

abbrev defaultDescriptions : Initd.TaskDescriptions 1 :=
  @TaskDescriptions.handOver defaultTask defaultTask_owned defaultTask_fits

/-- Right after its construction. -/
def defaultBooting : Machine 1 :=
  ⟨⟨.running, ((defaultDescriptions.initdState.setRunLevel
    defaultDescriptions.graph (fun _ => ⟨true, true⟩) defaultRunLevel).get
      (by decide)).state⟩, .boot, fun _ => none⟩

/-- The task has told that it is up. -/
def defaultUp : Machine 1 :=
  (defaultBooting.run defaultDescriptions.graph (fun _ => ⟨true, true⟩)
    [.called (.callbackDelivered 0) []]).get (by decide)

theorem defaultUp_atRest : defaultUp.AtRest where
  outside := by decide
  noSignal := by decide
  noCount t adaptor kind := by
    have quiet : ∀ t, (defaultUp.ctx.state.tasks t).handle.Quiet := by decide
    have here := quiet t
    rw [kind] at here
    exact here
  noChild := by decide

theorem defaultBooting_chose :
    Machine.Chose defaultDescriptions defaultRunLevel defaultBooting :=
  .inl ⟨⟨fun _ => ⟨true, true⟩, _, [], fun _ => rfl, (Option.some_get _).symm,
    by decide, rfl⟩, rfl⟩

theorem file_decides_defaultTask :
    ∃ tokens tree, SilentRead defaultTaskFile tokens tree defaultTask ∧
      ∀ node ∈ tree.tasks, ∃ name value, nameText node.name = some name ∧
        node.value = some value ∧
        ∃! t, (defaultDescriptions.allTasks t).name = name ∧
          MeansTask value (defaultDescriptions.allTasks t).data ∧
          (defaultUp.ctx.state.tasks t).handle.isInTransition = false ∧
          ((defaultUp.ctx.state.tasks t).handle.isRunning = true ↔
            AsksFor tree defaultRunLevel name ∧ Startable tree name) := by
  obtain ⟨tokens, tree, silent⟩ := defaultTaskFile_silent
  obtain ⟨effects, ran⟩ : ∃ effects, Run
      (Machine.CalmStep defaultDescriptions.graph) defaultBooting effects
        defaultUp := by
    have forks : ForksSucceed fun _ : Fin 1 => ⟨true, true⟩ := fun _ => rfl
    exact Machine.exists_calmRun forks (by decide) (Option.some_get _).symm
  have listed : (defaultRunLevel, [0]) ∈ defaultTask.runLevelByName :=
    List.mem_cons_self
  obtain ⟨node, inside, called, -⟩ :=
    silent.describes.2.level_mem_iff.mp listed
  exact ⟨tokens, tree, silent, file_decides silent
    defaultTask_fits ⟨node, inside, called⟩ defaultBooting_chose ran
    defaultUp_atRest⟩

end Reader

end Initd
