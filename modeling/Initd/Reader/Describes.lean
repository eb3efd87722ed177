import Mathlib.Data.List.Perm.Basic
import Initd.Parser.Acceptance
import Initd.Reader.Meaning
import Initd.Reader.Silence

namespace Initd.Reader

open Library

/-! The configuration that a tree describes, stated without the reader. -/

def TaskDescriptions.names (tds : TaskDescriptions) : List Bytes :=
  tds.allTasks.map TaskDescription.name

/-- The names of the tasks and of the run levels once each and in their order,
the data that the values mean, and the edges and requisites by the names that
are listed, all of which name a task. -/
structure Describes (tree : TopLevelNode) (tds : TaskDescriptions) : Prop where
  names : (tds.names.map some).Perm
    (tree.tasks.map fun task => nameText task.name)
  namesAscend : tds.names.Pairwise (· < ·)
  data : ∀ task ∈ tree.tasks, ∀ description ∈ tds.allTasks,
    nameText task.name = some description.name →
      ∃ value, task.value = some value ∧ MeansTask value description.data
  taskByName : tds.taskByName = tds.names.zipIdx
  declared : ∀ decl ∈ tree.dependenciesDecls, DeclResolved tds decl
  dependencies : ∀ task description, tds.allTasks[task]? = some description →
    description.dependencies = tree.dependenciesDecls.flatMap (tds.edges task)
  requisites : ∀ level ∈ tree.runLevels, LevelResolved tds level
  levels : (tds.runLevelByName.map fun level => (some level.1, level.2)).Perm
    (tree.runLevels.map fun level =>
      (nameText level.name, level.dependencies.filterMap tds.resolve))
  levelsAscend : tds.runLevelByName.Ascending

theorem names_eq_of_perm {names other : List Bytes}
    (ascend : names.Pairwise (· < ·)) (ascend' : other.Pairwise (· < ·))
    (perm : (names.map some).Perm (other.map some)) : names = other :=
  List.Perm.eq_of_pairwise
    (fun _ _ _ _ below above => absurd above (Std.Asymm.asymm _ _ below))
    ascend ascend' ((List.map_perm_map_iff fun _ _ => Option.some.inj).mp perm)

namespace Describes

variable {tree : TopLevelNode} {tds other : TaskDescriptions}
  {known : TextRange → Prop}

/-! A tree describes one configuration at most. -/

theorem sameNames (describes : Describes tree tds)
    (describes' : Describes tree other) : tds.SameNames other :=
  names_eq_of_perm describes'.namesAscend describes.namesAscend
    (describes'.names.trans describes.names.symm)

theorem tasksOnce (describes : Describes tree tds) :
    NamedOnce TaskNode.name tree.tasks := by
  rw [NamedOnce, ← describes.names.nodup_iff,
    List.nodup_map_iff fun _ _ => Option.some.inj]
  refine List.Pairwise.imp (fun {first second} below equal => ?_)
    describes.namesAscend
  rw [equal] at below
  exact Std.Asymm.asymm _ _ below below

theorem exists_task (describes : Describes tree tds)
    {description : TaskDescription} (member : description ∈ tds.allTasks) :
    ∃ task ∈ tree.tasks, nameText task.name = some description.name := by
  have inside : some description.name ∈ tds.names.map some :=
    List.mem_map_of_mem (List.mem_map_of_mem member)
  exact List.mem_map.mp (describes.names.subset inside)

theorem exists_description (describes : Describes tree tds) {task : TaskNode}
    (member : task ∈ tree.tasks) :
    ∃ description ∈ tds.allTasks,
      nameText task.name = some description.name := by
  obtain ⟨name, inside, same⟩ := List.mem_map.mp
    (describes.names.symm.subset (List.mem_map_of_mem member))
  obtain ⟨description, present, rfl⟩ := List.mem_map.mp inside
  exact ⟨description, present, same.symm⟩

theorem unique (placed : tree.Placed known) (describes : Describes tree tds)
    (describes' : Describes tree other) : tds = other := by
  have same := describes.sameNames describes'
  have allTasks : tds.allTasks = other.allTasks := by
    refine List.ext_getElem? fun task => ?_
    have names := congrArg (·[task]?) same
    simp only [List.getElem?_map] at names
    cases here : tds.allTasks[task]? with
    | none =>
        rw [here] at names
        exact (Option.map_eq_none_iff.mp names).symm
    | some description =>
        obtain ⟨description', here', named⟩ :=
          Option.map_eq_some_iff.mp (names.trans (by rw [here]; rfl))
        have member := List.mem_of_getElem? here
        obtain ⟨node, inside, called⟩ := describes.exists_task member
        obtain ⟨value, valued, means⟩ :=
          describes.data node inside description member called
        obtain ⟨value', valued', means'⟩ := describes'.data node inside
          description' (List.mem_of_getElem? here') (named ▸ called)
        obtain rfl := Option.some.inj (valued.symm.trans valued')
        have data := means.unique ((placed.tasks node inside).value _ valued)
          means'
        have edges := describes.dependencies task description here
        have edges' := describes'.dependencies task description' here'
        rw [same.edges, ← edges] at edges'
        rw [here']
        obtain ⟨name, data', dependencies⟩ := description'
        obtain ⟨rfl, rfl, rfl⟩ : name = description.name ∧
          data' = description.data ∧
            dependencies = description.dependencies := ⟨named, data.symm, edges'⟩
        rfl
  have pairs : Function.Injective fun level : Bytes × List Nat =>
      (some level.1, level.2) := by
    intro level level' equal
    obtain ⟨names, requisites⟩ := Prod.mk.inj equal
    exact Prod.ext (Option.some.inj names) requisites
  have levels := describes'.levels
  rw [same.resolve] at levels
  have runLevelByName := describes.levelsAscend.eq_of_perm
    describes'.levelsAscend
    ((List.map_perm_map_iff pairs).mp (describes.levels.trans levels.symm))
  have taskByName : tds.taskByName = other.taskByName := by
    rw [describes.taskByName, describes'.taskByName, TaskDescriptions.names,
      allTasks]
    rfl
  obtain ⟨allTasks', taskByName', runLevelByName'⟩ := other
  obtain ⟨rfl, rfl, rfl⟩ : tds.allTasks = allTasks' ∧
    tds.taskByName = taskByName' ∧ tds.runLevelByName = runLevelByName' :=
    ⟨allTasks, taskByName, runLevelByName⟩
  rfl

end Describes

/-! What the reader makes of the nodes in the order in which it reads them. -/

section Described

open Initd.Reader.TaskDescriptions

variable {tree : TopLevelNode} {tasks : Multimap Bytes TaskNode}
  {levels : Multimap Bytes RunLevelNode} {res : TaskDescriptions}
  {known : TextRange → Prop}

def wired (tree : TopLevelNode) (tasks : Multimap Bytes TaskNode) :
    TaskDescriptions :=
  tree.dependenciesDecls.foldl addEdges
    (tasks.foldl createTask ⟨[], [], []⟩)

def described (tree : TopLevelNode) (tasks : Multimap Bytes TaskNode)
    (levels : Multimap Bytes RunLevelNode) : TaskDescriptions :=
  (wired tree tasks).withRunLevels levels

theorem addEdges_kept (decls : List DependencyNode) (tds : TaskDescriptions) :
    tds.SameNames (decls.foldl addEdges tds) ∧
      (decls.foldl addEdges tds).taskByName = tds.taskByName ∧
      (decls.foldl addEdges tds).runLevelByName = tds.runLevelByName := by
  induction decls generalizing tds with
  | nil => exact ⟨rfl, rfl, rfl⟩
  | cons decl rest induction =>
      obtain ⟨names, tasks, levels⟩ := induction (tds.addEdges decl)
      obtain ⟨tasks', levels'⟩ := tds.addEdges_rest decl
      exact ⟨names.trans (tds.addEdges_sameNames decl), tasks.trans tasks',
        levels.trans levels'⟩

theorem wired_getElem? (task : Nat) :
    (wired tree tasks).allTasks[task]? =
      (tasks[task]?).map fun element =>
        ⟨element.1, taskData element.2,
          tree.dependenciesDecls.flatMap ((wired tree tasks).edges task)⟩ := by
  have same := (addEdges_kept tree.dependenciesDecls
    (tasks.foldl createTask ⟨[], [], []⟩)).1
  rw [wired, addEdges_all, createTasks_allTasks, same.edges, List.nil_append,
    List.getElem?_map]
  cases tasks[task]? <;> rfl

theorem wired_names : (wired tree tasks).names = tasks.keys := by
  refine List.ext_getElem? fun task => ?_
  rw [names, Multimap.keys, List.getElem?_map, List.getElem?_map,
    wired_getElem?]
  cases tasks[task]? <;> rfl

/-- Tasks that are created in the order of their names are numbered in it. -/
theorem createTasks_taskByName
    (ascends : (res.names ++ tasks.keys).Pairwise (· < ·))
    (numbered : res.taskByName = res.names.zipIdx) :
    (tasks.foldl createTask res).taskByName =
      (res.names ++ tasks.keys).zipIdx := by
  induction tasks generalizing res with
  | nil => exact numbered.trans (by rw [Multimap.keys, List.map_nil,
      List.append_nil])
  | cons element rest induction =>
      have names : (createTask res element).names =
          res.names ++ [element.1] := by
        simp [TaskDescriptions.names, createTask,
          TaskDescriptions.createTaskDescription]
      have below : ∀ other ∈ res.names, other < element.1 := fun other member =>
        (List.pairwise_append.mp ascends).2.2 other member element.1
          List.mem_cons_self
      have all : res.names ++ Multimap.keys (element :: rest) =
          (createTask res element).names ++ Multimap.keys rest := by
        rw [names, List.append_assoc]
        rfl
      rw [all] at ascends ⊢
      refine induction ascends ?_
      have last : ∀ other ∈ res.taskByName, other.1 < element.1 := by
        intro other member
        rw [numbered] at member
        exact below other.1 (List.fst_mem_of_mem_zipIdx member)
      rw [names, createTask, createTaskDescription, Multimap.insert_last last,
        numbered]
      simp [List.zipIdx_append, TaskDescriptions.names]

theorem described_taskByName (ascends : tasks.Ascending) :
    (described tree tasks levels).taskByName =
      (described tree tasks levels).names.zipIdx := by
  have created : (tasks.foldl createTask ⟨[], [], []⟩).taskByName =
      tasks.keys.zipIdx := createTasks_taskByName ascends rfl
  have kept := (addEdges_kept tree.dependenciesDecls
    (tasks.foldl createTask ⟨[], [], []⟩)).2.1
  change (wired tree tasks).taskByName = (wired tree tasks).names.zipIdx
  rw [wired_names, ← created]
  exact kept

theorem described_runLevelByName (ascends : levels.Ascending) :
    (described tree tasks levels).runLevelByName =
      levels.map (wired tree tasks).runLevel := by
  have none : (wired tree tasks).runLevelByName = [] := by
    rw [wired, (addEdges_kept _ _).2.2, createTasks_runLevelByName]
  have keys : Multimap.Ascending
      ([] ++ levels.map (wired tree tasks).runLevel) := by
    rw [Multimap.Ascending, List.nil_append, Multimap.keys, List.map_map]
    exact ascends
  rw [described, withRunLevels, none]
  exact keys.foldl_insertNew

/-! When nothing is reported. -/

/-- Nothing of the tree is reported by a reader whose result resolves names as
these descriptions do. -/
structure WellFormed (tree : TopLevelNode) (tds : TaskDescriptions) : Prop where
  tasksOnce : NamedOnce TaskNode.name tree.tasks
  tasks : ∀ task ∈ tree.tasks, reported (readTask task) = []
  declared : ∀ decl ∈ tree.dependenciesDecls, DeclResolved tds decl
  levelsOnce : NamedOnce RunLevelNode.name tree.runLevels
  requisites : ∀ level ∈ tree.runLevels, LevelResolved tds level

theorem notDeclared_eq_nil_iff {tds : TaskDescriptions}
    {pointer : Option IdentifierToken}
    (placed : KnownToken known IdentifierToken.range pointer) :
    tds.notDeclared pointer = [] ↔ (tds.resolve pointer).isSome := by
  refine ⟨resolve_isSome placed, fun present => ?_⟩
  obtain ⟨token, rfl, -⟩ := placed
  obtain ⟨task, found⟩ := Option.isSome_iff_exists.mp present
  have named : tds.taskNamed token.text = some task := found
  simp [TaskDescriptions.notDeclared, named]

theorem notDeclared_all_eq_nil_iff {tds : TaskDescriptions}
    {names : List (Option IdentifierToken)} (placed : PlacedNames known names) :
    names.flatMap tds.notDeclared = [] ↔
      ∀ name ∈ names, (tds.resolve name).isSome := by
  rw [List.flatMap_eq_nil_iff]
  exact forall₂_congr fun name member =>
    notDeclared_eq_nil_iff (placed name member)

theorem declErrors_eq_nil_iff {tds : TaskDescriptions} {decl : DependencyNode}
    (placed : decl.Placed known) :
    tds.declErrors decl = [] ↔ DeclResolved tds decl := by
  refine ⟨declResolved_of_silent placed, fun resolved => ?_⟩
  obtain ⟨task, found⟩ := Option.isSome_iff_exists.mp resolved.1
  simp only [declErrors, found]
  exact (notDeclared_all_eq_nil_iff placed.dependencies).mpr resolved.2

theorem forall_indexed_iff {Node : Type} {name : Node → Option IdentifierToken}
    {nodes : List Node} {map : Multimap Bytes Node}
    (indexed : IndexedBy name nodes map) (holds : Node → Prop) :
    (∀ element ∈ map, holds element.2) ↔ ∀ node ∈ nodes, holds node := by
  constructor
  · intro all node member
    obtain ⟨element, inside, rfl⟩ :=
      List.mem_map.mp (indexed.perm.symm.subset member)
    exact all element inside
  · exact fun all element member => all element.2 (indexed.mem member)

theorem readTree_reports (placed : tree.Placed known) (named : tree.Named) :
    ∃ tasks levels errors, IndexedBy TaskNode.name tree.tasks tasks ∧
      IndexedBy RunLevelNode.name tree.runLevels levels ∧
      Writes (readTree tree) (described tree tasks levels) errors ∧
      (errors = [] ↔ WellFormed tree (described tree tasks levels)) := by
  obtain ⟨tasks, duplicateTasks, tasksOrdered, ⟨-, tasksOnce⟩, first, indexed⟩ :=
    readTasks_writes placed.tasks empty_indexed
  obtain ⟨second, held, same, -⟩ :=
    readDependecies_writes placed.dependenciesDecls indexed
  obtain ⟨levels, duplicateLevels, levelsOrdered, ⟨-, levelsOnce⟩, third⟩ :=
    readRunLevels_writes placed.runLevels named held
  refine ⟨tasks, levels, _, tasksOrdered, levelsOrdered,
    first.bind (second.bind third), ?_⟩
  have notDeclared : (wired tree tasks).notDeclared =
    (described tree tasks levels).notDeclared := rfl
  have declErrors : (wired tree tasks).declErrors =
    (described tree tasks levels).declErrors := rfl
  rw [← same.declErrors]
  change _ ++ (tree.dependenciesDecls.flatMap (wired tree tasks).declErrors ++
    (_ ++ levels.flatMap fun element =>
      element.2.dependencies.flatMap (wired tree tasks).notDeclared)) = [] ↔ _
  rw [notDeclared, declErrors]
  simp only [List.append_eq_nil_iff, tasksOnce, levelsOnce,
    List.flatMap_eq_nil_iff]
  have tasksSilent := forall_indexed_iff tasksOrdered fun task =>
    reported (readTask task) = []
  have levelsSilent := forall_indexed_iff levelsOrdered fun level =>
    ∀ name ∈ level.dependencies,
      (described tree tasks levels).notDeclared name = []
  rw [tasksSilent, levelsSilent]
  constructor
  · rintro ⟨⟨once, silent⟩, decls, once', names⟩
    refine ⟨once, silent, fun decl member => ?_, once', fun level member => ?_⟩
    · exact (declErrors_eq_nil_iff
        (placed.dependenciesDecls decl member)).mp (decls decl member)
    · intro name listed
      exact (notDeclared_eq_nil_iff ((placed.runLevels level
        member).dependencies name listed)).mp (names level member name listed)
  · intro wellFormed
    refine ⟨⟨wellFormed.tasksOnce, wellFormed.tasks⟩, fun decl member => ?_,
      wellFormed.levelsOnce, fun level member name listed => ?_⟩
    · exact (declErrors_eq_nil_iff (placed.dependenciesDecls decl member)).mpr
        (wellFormed.declared decl member)
    · exact (notDeclared_eq_nil_iff ((placed.runLevels level
        member).dependencies name listed)).mpr
          (wellFormed.requisites level member name listed)

/-- What is read without a report is what the tree describes. -/
theorem described_describes (placed : tree.Placed known)
    (whole : Grammar.WholeFile tree)
    (tasksOrdered : IndexedBy TaskNode.name tree.tasks tasks)
    (levelsOrdered : IndexedBy RunLevelNode.name tree.runLevels levels)
    (wellFormed : WellFormed tree (described tree tasks levels)) :
    Describes tree (described tree tasks levels) := by
  have names : (described tree tasks levels).names = tasks.keys := wired_names
  have tasksAscend := tasksOrdered.ordered.ascending
    ((keys_nodup_iff tasksOrdered).mpr wellFormed.tasksOnce)
  have levelsAscend := levelsOrdered.ordered.ascending
    ((keys_nodup_iff levelsOrdered).mpr wellFormed.levelsOnce)
  have runLevelByName : (described tree tasks levels).runLevelByName =
      levels.map (wired tree tasks).runLevel :=
    described_runLevelByName levelsAscend
  refine ⟨?_, by rwa [names], fun task member description inside called => ?_,
    described_taskByName tasksAscend, wellFormed.declared,
    fun task description found => ?_, wellFormed.requisites, ?_, ?_⟩
  · rw [names]
    exact names_perm tasksOrdered
  · obtain ⟨index, found⟩ := List.mem_iff_getElem?.mp inside
    change (wired tree tasks).allTasks[index]? = some description at found
    rw [wired_getElem?] at found
    obtain ⟨element, present, rfl⟩ := Option.map_eq_some_iff.mp found
    have listed := List.mem_of_getElem? present
    obtain rfl : task = element.2 :=
      List.inj_on_of_nodup_map wellFormed.tasksOnce member
        (tasksOrdered.mem listed)
        (called.trans (tasksOrdered.key element listed).symm)
    obtain ⟨value, valued, complete⟩ := whole.tasks _ member
    obtain ⟨data, means, writes⟩ := readTask_means (placed.tasks _ member)
      valued complete (wellFormed.tasks _ member)
    refine ⟨value, valued, ?_⟩
    rw [taskData_eq writes]
    exact means
  · change (wired tree tasks).allTasks[task]? = some description at found
    rw [wired_getElem?] at found
    obtain ⟨element, -, rfl⟩ := Option.map_eq_some_iff.mp found
    rfl
  · have pairs : (levels.map (wired tree tasks).runLevel).map
        (fun level => (some level.1, level.2)) =
        (levels.map Prod.snd).map fun level => (nameText level.name,
          level.dependencies.filterMap (wired tree tasks).resolve) := by
      rw [List.map_map, List.map_map]
      refine List.map_congr_left fun element member => ?_
      simp only [Function.comp_apply, runLevel,
        levelsOrdered.key element member]
    rw [runLevelByName, pairs]
    exact levelsOrdered.perm.map _
  · rw [runLevelByName, Multimap.Ascending, Multimap.keys, List.map_map]
    exact levelsAscend

theorem Describes.wellFormed {tds : TaskDescriptions}
    (placed : tree.Placed known) (describes : Describes tree tds)
    (same : res.SameNames tds) : WellFormed tree res := by
  refine ⟨describes.tasksOnce, fun task member => ?_, fun decl member => ?_, ?_,
    fun level member name listed => ?_⟩
  · obtain ⟨description, inside, called⟩ := describes.exists_description member
    obtain ⟨value, valued, means⟩ :=
      describes.data task member description inside called
    exact (readTask_writes (placed.tasks task member) valued means).reported
  · rw [DeclResolved, ← same.resolve]
    exact describes.declared decl member
  · have names := describes.levels.map Prod.fst
    rw [List.map_map, List.map_map] at names
    rw [NamedOnce]
    refine names.nodup_iff.mp ?_
    change (tds.runLevelByName.map (some ∘ Prod.fst)).Nodup
    rw [← List.map_map, List.nodup_map_iff fun _ _ => Option.some.inj]
    exact describes.levelsAscend.nodup
  · rw [← same.resolve]
    exact describes.requisites level member name listed

/-- The reader is silent exactly on the trees that describe a configuration,
and returns what they describe. -/
theorem readTree_iff (placed : tree.Placed known)
    (whole : Grammar.WholeFile tree) (tds : TaskDescriptions) :
    readTree tree [] = .ok (tds, []) ↔ Describes tree tds := by
  obtain ⟨tasks, levels, errors, tasksOrdered, levelsOrdered, writes, silent⟩ :=
    readTree_reports placed whole.named
  have describes := described_describes placed whole tasksOrdered levelsOrdered
  constructor
  · intro read
    obtain ⟨rfl, none⟩ :=
      Prod.mk.inj (Except.ok.inj ((writes []).symm.trans read))
    exact describes (silent.mp none)
  · intro describes'
    have ascends := tasksOrdered.ordered.ascending
      ((keys_nodup_iff tasksOrdered).mpr describes'.tasksOnce)
    have same : (described tree tasks levels).SameNames tds :=
      (names_eq_of_perm describes'.namesAscend ascends
        (describes'.names.trans (names_perm tasksOrdered).symm)).trans
          wired_names.symm
    obtain rfl := silent.mpr (describes'.wellFormed placed same)
    rw [describes'.unique placed (describes (silent.mp rfl))]
    exact writes []

end Described

/-! Texts. -/

section Texts

variable {text : Bytes} {tokens : List Token} {tree : TopLevelNode}

theorem parseFile_iff : Parser.parseFile text tokens = .ok (tree, []) ↔
    Grammar.File tokens tree := by
  obtain ⟨tree', final, ran, -, -, -, grammar⟩ :=
    Parser.parseFile_placed text tokens
  constructor
  · intro parsed
    obtain ⟨rfl, none⟩ := Prod.mk.inj (Except.ok.inj (ran.symm.trans parsed))
    exact grammar none
  · exact Parser.parseFile_reads

theorem placed_of_file (file : Grammar.File tokens tree) :
    tree.Placed fun _ => True := by
  obtain ⟨tree', final, ran, -, placed, -, -⟩ :=
    Parser.parseFile_placed [] tokens
  obtain ⟨rfl, -⟩ :=
    Prod.mk.inj (Except.ok.inj (ran.symm.trans (parseFile_iff.mpr file)))
  exact placed (fun _ => True) fun _ _ => trivial

theorem SilentRead.describes {tds : TaskDescriptions}
    (silent : SilentRead text tokens tree tds) :
    Grammar.File tokens tree ∧ Describes tree tds := by
  have file := parseFile_iff.mp silent.parsed
  exact ⟨file, (readTree_iff (placed_of_file file) file.whole tds).mp
    silent.read⟩

theorem Describes.silentRead {tds : TaskDescriptions}
    (describes : Describes tree tds) (file : Grammar.File tokens tree)
    (lexed : ∃ lexer, Lexer.readAll text = .ok (tokens, lexer) ∧
      lexer.errors = []) : SilentRead text tokens tree tds :=
  ⟨lexed, parseFile_iff.mpr file,
    (readTree_iff (placed_of_file file) file.whole tds).mpr describes⟩

/-- A text is read without a report exactly if its tokens are a word of the
grammar whose tree describes a configuration, which is the one that is read. -/
theorem silentRead_iff (text : Bytes) (tokens : List Token)
    (tree : TopLevelNode) (tds : TaskDescriptions) :
    SilentRead text tokens tree tds ↔
      (∃ lexer, Lexer.readAll text = .ok (tokens, lexer) ∧
        lexer.errors = []) ∧
        Grammar.File tokens tree ∧ Describes tree tds :=
  ⟨fun silent => ⟨silent.lexed, silent.describes⟩,
    fun ⟨lexed, file, describes⟩ => describes.silentRead file lexed⟩

end Texts

end Initd.Reader
