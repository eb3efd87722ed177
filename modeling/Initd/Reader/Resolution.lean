import Initd.Reader.Once
import Initd.Reader.ReadTaskDescription

namespace Initd.Reader

open Library

/-! How the reader resolves names, as functions of the tree. -/

namespace TaskDescriptions

def taskNamed (tds : TaskDescriptions) (name : Bytes) : Option Nat :=
  tds.allTasks.findIdx? (·.name = name)

def resolve (tds : TaskDescriptions) (pointer : Option IdentifierToken) :
    Option Nat :=
  (nameText pointer).bind tds.taskNamed

def notDeclared (tds : TaskDescriptions) (pointer : Option IdentifierToken) :
    List ErrorTag :=
  match pointer with
  | none => []
  | some token =>
      match tds.taskNamed token.text with
      | none => [⟨token.range,
          ascii "task " ++ quote token.text ++ ascii " is not declared"⟩]
      | some _ => []

def edges (tds : TaskDescriptions) (task : Nat) (decl : DependencyNode) :
    List Nat :=
  if tds.resolve decl.dependant = some task then
    decl.dependencies.filterMap tds.resolve
  else
    []

def declErrors (tds : TaskDescriptions) (decl : DependencyNode) :
    List ErrorTag :=
  match tds.resolve decl.dependant with
  | none => tds.notDeclared decl.dependant
  | some _ => decl.dependencies.flatMap tds.notDeclared

/-- The multimap finds the tasks by their names. -/
structure Indexed (tds : TaskDescriptions) : Prop where
  ordered : tds.taskByName.Ordered
  find : ∀ name,
    tds.taskByName.find name = (tds.taskNamed name).map fun task => (name, task)

theorem Indexed.createTaskDescription {tds : TaskDescriptions}
    (indexed : tds.Indexed) (name : Bytes) (data : TaskData) :
    (tds.createTaskDescription name data).Indexed where
  ordered := indexed.ordered.insert
  find key := by
    rw [TaskDescriptions.createTaskDescription,
      Multimap.find_insert indexed.ordered, indexed.find]
    simp only [taskNamed, List.findIdx?_append, Multimap.find]
    by_cases same : name = key
    · subst key
      cases tds.allTasks.findIdx? (·.name = name) <;> simp
    · simp [same]

end TaskDescriptions

/-- What `read_task` returns for a task, or the data of a null task. -/
def taskData (node : TaskNode) : TaskData :=
  match readTask node [] with
  | .ok (some data, _) => data
  | _ => .null

theorem taskData_eq {node : TaskNode} {result : Option TaskData}
    {errors : List ErrorTag} (writes : Writes (readTask node) result errors) :
    taskData node = result.getD .null := by
  rw [taskData, writes]
  cases result <;> rfl

/-- The result of reading, by the tree alone: `tasks` and `levels` are the nodes
in the order in which they are read. -/
structure Resolved (tree : TopLevelNode) (tds : TaskDescriptions)
    (tasks : Multimap Bytes TaskNode) (levels : Multimap Bytes RunLevelNode)
    (errors : List ErrorTag) : Prop where
  tasksOrdered : IndexedBy TaskNode.name tree.tasks tasks
  levelsOrdered : IndexedBy RunLevelNode.name tree.runLevels levels
  allTasks : tds.allTasks.map (fun description =>
      (description.name, description.data)) =
    tasks.map fun element => (element.1, taskData element.2)
  dependencies : ∀ task description, tds.allTasks[task]? = some description →
    description.dependencies = tree.dependenciesDecls.flatMap (tds.edges task)
  runLevels : ∀ name, tds.runLevelByName.find name =
    (tree.runLevels.find? fun level => nameText level.name = some name).map
      fun level => (name, level.dependencies.filterMap tds.resolve)
  runLevelOnce : tds.runLevelByName.keys.Nodup
  errors : ∃ duplicateTasks duplicateLevels : List ErrorTag,
    (∀ error ∈ duplicateTasks,
      error.message = ascii "duplicate task definition") ∧
    (∀ error ∈ duplicateLevels,
      error.message = ascii "duplicate run level definition") ∧
    errors =
      (duplicateTasks ++
        tasks.flatMap fun element => reported (readTask element.2)) ++
      (tree.dependenciesDecls.flatMap tds.declErrors ++
        (duplicateLevels ++
          levels.flatMap fun element =>
            element.2.dependencies.flatMap tds.notDeclared))

/-! Names. -/

section Names

variable {known : TextRange → Prop} {tds : TaskDescriptions}

theorem resolveTask_writes (indexed : tds.Indexed) (res : List Nat)
    {pointer : Option IdentifierToken}
    (placed : KnownToken known IdentifierToken.range pointer) :
    Writes (resolveTask tds res pointer)
      (res ++ (tds.resolve pointer).toList) (tds.notDeclared pointer) := by
  obtain ⟨token, rfl, -⟩ := placed
  refine (Writes.lift rfl).silent_bind ?_
  rw [indexed.find]
  simp only [TaskDescriptions.notDeclared, TaskDescriptions.resolve, nameText,
    Option.map_some, Option.bind_some]
  cases tds.taskNamed token.text with
  | none =>
      rw [Option.toList_none, List.append_nil]
      exact (push_writes token.range _).bind_pure fun _ => res
  | some task => exact .pure _

theorem resolveTasks_writes (indexed : tds.Indexed)
    {names : List (Option IdentifierToken)} (placed : PlacedNames known names)
    (res : List Nat) :
    Writes (names.foldlM (resolveTask tds) res)
      (res ++ names.filterMap tds.resolve) (names.flatMap tds.notDeclared) := by
  induction names generalizing res with
  | nil =>
      rw [List.filterMap_nil, List.append_nil]
      exact .pure res
  | cons name rest induction =>
      obtain ⟨here, later⟩ := List.forall_mem_cons.mp placed
      have first := resolveTask_writes indexed res here
      have all : res ++ (name :: rest).filterMap tds.resolve =
          res ++ (tds.resolve name).toList ++ rest.filterMap tds.resolve := by
        rw [List.filterMap_cons]
        cases tds.resolve name <;> simp
      rw [List.foldlM_cons, List.flatMap_cons, all]
      exact first.bind (induction later _)

end Names

/-! Tasks. -/

section Tasks

variable {known : TextRange → Prop} {tree : TopLevelNode}
  {res : TaskDescriptions}

/-- The task of a node is created with its data. -/
def createTask (res : TaskDescriptions) (element : Bytes × TaskNode) :
    TaskDescriptions :=
  res.createTaskDescription element.1 (taskData element.2)

theorem createTasks_allTasks (tasks : Multimap Bytes TaskNode) :
    (tasks.foldl createTask res).allTasks = res.allTasks ++
      tasks.map fun element => ⟨element.1, taskData element.2, []⟩ := by
  induction tasks generalizing res with
  | nil => simp
  | cons element rest induction =>
      rw [List.foldl_cons, induction]
      simp [createTask, TaskDescriptions.createTaskDescription]

theorem createTasks_runLevelByName (tasks : Multimap Bytes TaskNode) :
    (tasks.foldl createTask res).runLevelByName = res.runLevelByName := by
  induction tasks generalizing res with
  | nil => rfl
  | cons element rest induction => exact induction

theorem readTasks_writes (placed : ∀ task ∈ tree.tasks, task.Placed known)
    (indexed : res.Indexed) :
    ∃ tasks duplicates, IndexedBy TaskNode.name tree.tasks tasks ∧
      ((∀ error ∈ duplicates,
        error.message = ascii "duplicate task definition" ∧ known error.range) ∧
        (duplicates = [] ↔ NamedOnce TaskNode.name tree.tasks)) ∧
      Writes (readTasks tree res) (tasks.foldl createTask res)
        (duplicates ++
          tasks.flatMap fun element => reported (readTask element.2)) ∧
      (tasks.foldl createTask res).Indexed := by
  obtain ⟨tasks, filled, ordered⟩ :=
    nodesByName_indexed fun task member => (placed task member).name.isSome
  obtain ⟨duplicates, reports, among⟩ := duplicates_reports
    (ascii "duplicate task definition")
    (fun task member => (placed task member).name) ordered
  refine ⟨tasks, duplicates, ordered, among, And.imp_left (fun loop =>
    (Writes.lift filled).silent_bind (reports.bind loop)) ?_⟩
  refine Writes.foldlM (fun element member res held => ?_) indexed
  obtain ⟨result, errors, writes, -⟩ :=
    readTask_faithful (placed _ (ordered.mem member))
  refine ⟨?_, held.createTaskDescription _ _⟩
  rw [createTask, taskData_eq writes, writes.reported,
    ← List.append_nil errors]
  refine writes.bind ?_
  cases result with
  | none => exact .pure _
  | some data => exact .pure _

end Tasks

/-! Dependency declarations. -/

namespace TaskDescriptions

/-- Two descriptions with the same names resolve names alike. -/
def SameNames (tds other : TaskDescriptions) : Prop :=
  other.allTasks.map TaskDescription.name = tds.allTasks.map TaskDescription.name

variable {tds other : TaskDescriptions}

theorem SameNames.taskNamed (same : tds.SameNames other) :
    other.taskNamed = tds.taskNamed := by
  have byNames : ∀ (tds : TaskDescriptions) name, tds.taskNamed name =
      (tds.allTasks.map TaskDescription.name).findIdx? (· = name) := by
    intro tds name
    rw [TaskDescriptions.taskNamed, List.findIdx?_map]
    rfl
  funext name
  rw [byNames, byNames, same]

theorem SameNames.resolve (same : tds.SameNames other) :
    other.resolve = tds.resolve := by
  funext pointer
  rw [TaskDescriptions.resolve, TaskDescriptions.resolve, same.taskNamed]

theorem SameNames.notDeclared (same : tds.SameNames other) :
    other.notDeclared = tds.notDeclared := by
  funext pointer
  cases pointer with
  | none => rfl
  | some token =>
      simp only [TaskDescriptions.notDeclared, same.taskNamed]

theorem SameNames.edges (same : tds.SameNames other) :
    other.edges = tds.edges := by
  funext task decl
  rw [TaskDescriptions.edges, TaskDescriptions.edges, same.resolve]

theorem SameNames.declErrors (same : tds.SameNames other) :
    other.declErrors = tds.declErrors := by
  funext decl
  simp only [TaskDescriptions.declErrors, same.resolve, same.notDeclared]

theorem exists_of_taskNamed {name : Bytes} {task : Nat}
    (found : tds.taskNamed name = some task) :
    ∃ description, tds.allTasks[task]? = some description ∧
      description.name = name := by
  obtain ⟨inside, same, -⟩ := List.findIdx?_eq_some_iff_getElem.mp found
  exact ⟨tds.allTasks[task], List.getElem?_eq_getElem inside, by simpa using same⟩

/-- The step of the loop for a declaration. -/
def addEdges (tds : TaskDescriptions) (decl : DependencyNode) :
    TaskDescriptions :=
  match tds.resolve decl.dependant with
  | none => tds
  | some task => tds.setDependencies task
      (tds.getDependencies task ++ decl.dependencies.filterMap tds.resolve)

theorem addEdges_getElem? (tds : TaskDescriptions) (decl : DependencyNode)
    (task : Nat) :
    (tds.addEdges decl).allTasks[task]? =
      (tds.allTasks[task]?).map fun description =>
        { description with
          dependencies := description.dependencies ++ tds.edges task decl } := by
  simp only [addEdges, edges]
  cases resolved : tds.resolve decl.dependant with
  | none => simp
  | some dependant =>
      simp only [setDependencies, List.getElem?_modify, getDependencies]
      by_cases same : dependant = task
      · subst same
        cases tds.allTasks[dependant]? <;> simp
      · have other : ¬ some dependant = some task := fun both =>
          same (Option.some.inj both)
        simp [same]

theorem addEdges_sameNames (tds : TaskDescriptions) (decl : DependencyNode) :
    tds.SameNames (tds.addEdges decl) := by
  refine List.ext_getElem? fun task => ?_
  rw [List.getElem?_map, List.getElem?_map, addEdges_getElem?]
  cases tds.allTasks[task]? <;> rfl

theorem addEdges_rest (tds : TaskDescriptions) (decl : DependencyNode) :
    (tds.addEdges decl).taskByName = tds.taskByName ∧
      (tds.addEdges decl).runLevelByName = tds.runLevelByName := by
  unfold addEdges
  split <;> exact ⟨rfl, rfl⟩

theorem Indexed.sameNames (indexed : tds.Indexed) (same : tds.SameNames other)
    (kept : other.taskByName = tds.taskByName) : other.Indexed where
  ordered := kept ▸ indexed.ordered
  find name := by
    rw [kept, indexed.find, same.taskNamed]

end TaskDescriptions

/-- Edges were added, and nothing else has changed. -/
structure TaskDescriptions.Wired (tds other : TaskDescriptions) : Prop where
  indexed : other.Indexed
  same : tds.SameNames other
  levels : other.runLevelByName = tds.runLevelByName

section Dependencies

variable {known : TextRange → Prop} {tree : TopLevelNode}
  {tds : TaskDescriptions}

open Initd.Reader.TaskDescriptions

/-- The declarations give each task its edges, in their order. -/
theorem addEdges_all (decls : List DependencyNode) (tds : TaskDescriptions)
    (task : Nat) :
    (decls.foldl addEdges tds).allTasks[task]? =
      (tds.allTasks[task]?).map fun description =>
        { description with
          dependencies := description.dependencies ++
            decls.flatMap (tds.edges task) } := by
  induction decls generalizing tds with
  | nil => simp
  | cons decl rest induction =>
      rw [List.foldl_cons, induction, addEdges_getElem?,
        (tds.addEdges_sameNames decl).edges]
      cases tds.allTasks[task]? <;> simp

theorem readDependecies_writes
    (placed : ∀ decl ∈ tree.dependenciesDecls, decl.Placed known)
    (indexed : tds.Indexed) :
    Writes (readDependecies tree tds)
        (tree.dependenciesDecls.foldl addEdges tds)
        (tree.dependenciesDecls.flatMap tds.declErrors) ∧
      tds.Wired (tree.dependenciesDecls.foldl addEdges tds) := by
  refine Writes.foldlM (fun decl member res held => ?_)
    ⟨indexed, rfl, rfl⟩
  obtain ⟨names, rest⟩ := res.addEdges_rest decl
  have still := res.addEdges_sameNames decl
  refine ⟨?_, held.indexed.sameNames still names, still.trans held.same,
    rest.trans held.levels⟩
  obtain ⟨⟨token, dependant, -⟩, listed⟩ := placed decl member
  have named : res.resolve decl.dependant = res.taskNamed token.text := by
    rw [TaskDescriptions.resolve, dependant]
    rfl
  rw [← held.same.declErrors, dependant]
  refine (Writes.lift rfl).silent_bind ?_
  rw [held.indexed.find]
  simp only [addEdges, declErrors, named]
  cases found : res.taskNamed token.text with
  | none =>
      simp only [TaskDescriptions.notDeclared, dependant, found]
      exact (push_writes token.range _).bind_pure fun _ => res
  | some task =>
      exact (resolveTasks_writes held.indexed listed _).bind_pure
        fun dependencies => res.setDependencies task dependencies

end Dependencies

/-! Run levels. -/

namespace TaskDescriptions

theorem createRunLevel_eq (level : Bytes × List Nat) (tds : TaskDescriptions) :
    tds.createRunLevel level.1 level.2 =
      { tds with runLevelByName := tds.runLevelByName.insertNew level } := by
  unfold createRunLevel Multimap.insertNew
  cases tds.runLevelByName.find level.1 <;> rfl

theorem createRunLevels_eq (levels : List (Bytes × List Nat))
    (tds : TaskDescriptions) :
    levels.foldl (fun tds level => tds.createRunLevel level.1 level.2) tds =
      { tds with
        runLevelByName := levels.foldl (fun map level => map.insertNew level)
          tds.runLevelByName } := by
  induction levels generalizing tds with
  | nil => rfl
  | cons level rest induction =>
      rw [List.foldl_cons, createRunLevel_eq, induction]
      rfl

/-- A run level with its requisites, as far as their names are resolved. -/
def runLevel (tds : TaskDescriptions) (element : Bytes × RunLevelNode) :
    Bytes × List Nat :=
  (element.1, element.2.dependencies.filterMap tds.resolve)

/-- The descriptions after the run levels. -/
def withRunLevels (tds : TaskDescriptions)
    (levels : Multimap Bytes RunLevelNode) : TaskDescriptions :=
  { tds with
    runLevelByName := (levels.map tds.runLevel).foldl
      (fun map level => map.insertNew level) tds.runLevelByName }

end TaskDescriptions

section RunLevels

variable {known : TextRange → Prop} {tree : TopLevelNode}
  {tds : TaskDescriptions}

open Initd.Reader.TaskDescriptions

theorem readRunLevels_writes
    (placed : ∀ level ∈ tree.runLevels, level.Placed known)
    (named : tree.Named) (indexed : tds.Indexed) :
    ∃ levels duplicates,
      IndexedBy RunLevelNode.name tree.runLevels levels ∧
      ((∀ error ∈ duplicates,
        error.message = ascii "duplicate run level definition" ∧
          known error.range) ∧
        (duplicates = [] ↔ NamedOnce RunLevelNode.name tree.runLevels)) ∧
      Writes (readRunLevels tree tds) (tds.withRunLevels levels)
        (duplicates ++ levels.flatMap fun element =>
          element.2.dependencies.flatMap tds.notDeclared) := by
  obtain ⟨levels, filled, ordered⟩ := nodesByName_indexed named
  have names : ∀ level ∈ tree.runLevels,
      KnownToken known IdentifierToken.range level.name := by
    intro level member
    obtain ⟨token, found⟩ := Option.isSome_iff_exists.mp (named level member)
    exact ⟨token, found, (placed level member).name token found⟩
  obtain ⟨duplicates, reports, among⟩ :=
    duplicates_reports (ascii "duplicate run level definition") names ordered
  have round : ∀ element ∈ levels, ∀ res : TaskDescriptions,
      res.allTasks = tds.allTasks ∧ res.taskByName = tds.taskByName →
      Writes (do
        let requisites ← element.2.dependencies.foldlM (resolveTask res) []
        return res.createRunLevel element.1 requisites :
          ReadM TaskDescriptions)
        (res.createRunLevel (tds.runLevel element).1 (tds.runLevel element).2)
        (element.2.dependencies.flatMap tds.notDeclared) ∧
      (res.createRunLevel (tds.runLevel element).1
          (tds.runLevel element).2).allTasks = tds.allTasks ∧
        (res.createRunLevel (tds.runLevel element).1
          (tds.runLevel element).2).taskByName = tds.taskByName := by
    intro element member res held
    have same : tds.SameNames res := by rw [SameNames, held.1]
    have inside := placed _ (ordered.mem member)
    have requisites := resolveTasks_writes (indexed.sameNames same held.2)
      inside.dependencies []
    rw [same.resolve, same.notDeclared, List.nil_append] at requisites
    refine ⟨requisites.bind_pure fun requisites =>
      res.createRunLevel element.1 requisites, ?_⟩
    rw [createRunLevel_eq]
    exact held
  obtain ⟨loop, -⟩ := Writes.foldlM round ⟨rfl, rfl⟩
  have created : levels.foldl (fun res element =>
        res.createRunLevel (tds.runLevel element).1 (tds.runLevel element).2)
        tds = tds.withRunLevels levels := by
    rw [withRunLevels, ← createRunLevels_eq, List.foldl_map]
  rw [created] at loop
  exact ⟨levels, duplicates, ordered, among,
    (Writes.lift filled).silent_bind (reports.bind loop)⟩

end RunLevels

/-! Files. -/

theorem empty_indexed : TaskDescriptions.Indexed ⟨[], [], []⟩ :=
  ⟨.nil, fun _ => rfl⟩

section Places

variable {known : TextRange → Prop} {tree : TopLevelNode}
  {tds : TaskDescriptions}

theorem notDeclared_placed {pointer : Option IdentifierToken}
    (placed : KnownToken known IdentifierToken.range pointer) :
    ∀ error ∈ tds.notDeclared pointer, known error.range := by
  obtain ⟨token, rfl, here⟩ := placed
  intro error member
  simp only [TaskDescriptions.notDeclared] at member
  split at member
  · rwa [List.mem_singleton.mp member]
  · contradiction

theorem notDeclared_all_placed {names : List (Option IdentifierToken)}
    (placed : PlacedNames known names) :
    ∀ error ∈ names.flatMap tds.notDeclared, known error.range := by
  intro error member
  obtain ⟨name, inside, reported⟩ := List.mem_flatMap.mp member
  exact notDeclared_placed (placed name inside) error reported

theorem declErrors_placed {decl : DependencyNode} (placed : decl.Placed known) :
    ∀ error ∈ tds.declErrors decl, known error.range := by
  unfold TaskDescriptions.declErrors
  split
  · exact notDeclared_placed placed.dependant
  · exact notDeclared_all_placed placed.dependencies

theorem taskErrors_placed {node : TaskNode} (placed : node.Placed known) :
    ∀ error ∈ reported (readTask node), known error.range := by
  obtain ⟨_, errors, writes, places, -⟩ := readTask_faithful placed
  rwa [writes.reported]

end Places

theorem withRunLevels_find {tree : TopLevelNode} {tds : TaskDescriptions}
    {levels : Multimap Bytes RunLevelNode}
    (ordered : IndexedBy RunLevelNode.name tree.runLevels levels)
    (empty : tds.runLevelByName = []) (name : Bytes) :
    (tds.withRunLevels levels).runLevelByName.find name =
      (tree.runLevels.find? fun level => nameText level.name = some name).map
        fun level => (name, level.dependencies.filterMap tds.resolve) := by
  have start : Multimap.Ordered tds.runLevelByName := empty ▸ .nil
  rw [TaskDescriptions.withRunLevels, Multimap.find_foldl_insertNew _ start,
    empty, ← ordered.find, Option.map_map, Multimap.find, Multimap.find,
    List.find?_map]
  change (levels.find name).map tds.runLevel = _
  cases found : levels.find name with
  | none => rfl
  | some element =>
      have same : element.1 = name := by simpa using List.find?_some found
      simp [TaskDescriptions.runLevel, same]

/-- On a tree with its names the reader returns, and its result goes by the
tree alone. -/
theorem readTree_writes {known : TextRange → Prop} {tree : TopLevelNode}
    (placed : tree.Placed known) (named : tree.Named) :
    ∃ tds tasks levels errors, Writes (readTree tree) tds errors ∧
      Resolved tree tds tasks levels errors ∧
      ∀ error ∈ errors, known error.range := by
  obtain ⟨tasks, duplicateTasks, tasksOrdered, ⟨taskTags, -⟩, first, indexed⟩ :=
    readTasks_writes placed.tasks empty_indexed
  obtain ⟨second, held, same, noLevels⟩ :=
    readDependecies_writes placed.dependenciesDecls indexed
  obtain ⟨levels, duplicateLevels, levelsOrdered, ⟨levelTags, -⟩, third⟩ :=
    readRunLevels_writes placed.runLevels named held
  rw [createTasks_runLevelByName] at noLevels
  have created : (tasks.foldl createTask ⟨[], [], []⟩).allTasks = _ :=
    createTasks_allTasks tasks
  generalize tasks.foldl createTask ⟨[], [], []⟩ = tds at *
  have edged := addEdges_all tree.dependenciesDecls tds
  generalize tree.dependenciesDecls.foldl TaskDescriptions.addEdges tds =
    wired at *
  have last : wired.SameNames (wired.withRunLevels levels) := rfl
  have both : tds.SameNames (wired.withRunLevels levels) := last.trans same
  refine ⟨_, tasks, levels, _, first.bind (second.bind third), ?_, ?_⟩
  · have resolves : (wired.withRunLevels levels).resolve = wired.resolve := rfl
    refine ⟨tasksOrdered, levelsOrdered, ?_, ?_, ?_, ?_, duplicateTasks,
      duplicateLevels, fun error member => (taskTags error member).1,
      fun error member => (levelTags error member).1, ?_⟩
    · refine List.ext_getElem? fun task => ?_
      rw [List.getElem?_map, List.getElem?_map]
      change (wired.allTasks[task]?).map _ = _
      rw [edged, created, List.nil_append, List.getElem?_map]
      cases tasks[task]? <;> rfl
    · intro task description found
      change wired.allTasks[task]? = some description at found
      rw [edged, created, List.nil_append, List.getElem?_map, Option.map_map]
        at found
      obtain ⟨element, -, rfl⟩ := Option.map_eq_some_iff.mp found
      rw [both.edges]
      rfl
    · intro name
      rw [resolves, withRunLevels_find levelsOrdered noLevels]
    · refine Multimap.nodup_foldl_insertNew _ ?_
      rw [noLevels]
      exact List.nodup_nil
    · rw [both.declErrors]
      rfl
  · simp only [List.forall_mem_append]
    refine ⟨⟨fun error member => (taskTags error member).2, ?_⟩, ?_,
      fun error member => (levelTags error member).2, ?_⟩
    · intro error member
      obtain ⟨element, inside, reported⟩ := List.mem_flatMap.mp member
      exact taskErrors_placed (placed.tasks _ (tasksOrdered.mem inside)) error
        reported
    · intro error member
      obtain ⟨decl, inside, reported⟩ := List.mem_flatMap.mp member
      exact declErrors_placed (placed.dependenciesDecls decl inside) error
        reported
    · intro error member
      obtain ⟨element, inside, reported⟩ := List.mem_flatMap.mp member
      exact notDeclared_all_placed
        (placed.runLevels _ (levelsOrdered.mem inside)).dependencies error
        reported

end Initd.Reader
