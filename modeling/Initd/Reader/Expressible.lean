import Initd.Reader.Describes
import Initd.Reader.HandOver
import Initd.Reader.Spelling

namespace Initd.Reader

open Library Lexer

/-! Which configurations can be written. -/

/-! Declarations. -/

section Declarations

variable {name : Bytes} {names : List Bytes}

theorem spelled_ids (nonempty : names ≠ [])
    (identifiers : ∀ name ∈ names, IsIdentifier name) :
    Spelled Grammar.Ids fun ids => ids.map nameText = names.map some := by
  induction names with
  | nil => exact absurd rfl nonempty
  | cons name rest induction =>
      obtain ⟨here, later⟩ := List.forall_mem_cons.mp identifiers
      by_cases last : rest = []
      · subst last
        exact .single ⟨name, here.prints⟩ fun range =>
          ⟨_, .last ⟨range, name⟩, rfl⟩
      · have first : PrintableTokens [.identifier name, .simple .comma rfl] :=
          List.forall_mem_cons.mpr ⟨⟨name, here.prints⟩,
            List.forall_mem_singleton.mpr
              (exists_prints_simple rfl (by decide))⟩
        refine (induction last later).between first (List.forall_mem_nil _) ?_
        intro opening tokens closing ids opens closes derived meant
        obtain ⟨id, more, rfl, spells, same⟩ := List.map_eq_cons_iff.mp opens
        obtain ⟨comma, rfl, separates⟩ := List.map_eq_singleton_iff.mp same
        obtain rfl := List.map_eq_nil_iff.mp closes
        obtain ⟨range, kind⟩ := id
        obtain rfl : kind = .identifier name := spells
        rw [List.append_nil]
        refine ⟨_, .cons ⟨range, name⟩ (getType_of_kind separates) derived, ?_⟩
        rw [List.map_cons, List.map_cons, meant]
        rfl

theorem spelled_task {data : TaskData} (identifier : IsIdentifier name)
    (noMount : ∀ mount, data ≠ .mount mount) :
    Spelled Grammar.Task fun node => nameText node.name = some name ∧
      ∃ value, node.value = some value ∧ MeansTask value data := by
  have first : PrintableTokens [.simple .taskKeyword rfl, .identifier name,
      .simple .equals rfl] :=
    List.forall_mem_cons.mpr ⟨exists_prints_simple rfl (by decide),
      List.forall_mem_cons.mpr ⟨⟨name, identifier.prints⟩,
        List.forall_mem_singleton.mpr (exists_prints_simple rfl (by decide))⟩⟩
  have last : PrintableTokens [.simple .semicolon rfl] :=
    List.forall_mem_singleton.mpr (exists_prints_simple rfl (by decide))
  refine (spelled_taskData.mpr noMount).between first last ?_
  intro opening tokens closing value opens closes derived meant
  obtain ⟨task, more, rfl, keyword, same⟩ := List.map_eq_cons_iff.mp opens
  obtain ⟨id, more, rfl, spells, same⟩ := List.map_eq_cons_iff.mp same
  obtain ⟨eq, rfl, equals⟩ := List.map_eq_singleton_iff.mp same
  obtain ⟨semicolon, rfl, ends⟩ := List.map_eq_singleton_iff.mp closes
  obtain ⟨range, kind⟩ := id
  obtain rfl : kind = .identifier name := spells
  exact ⟨_, .intro ⟨range, name⟩ (getType_of_kind keyword)
    (getType_of_kind equals) derived (getType_of_kind ends), rfl, value, rfl,
    meant⟩

theorem spelled_dep (identifier : IsIdentifier name) (nonempty : names ≠ [])
    (identifiers : ∀ name ∈ names, IsIdentifier name) :
    Spelled Grammar.Dep fun node => nameText node.dependant = some name ∧
      node.dependencies.map nameText = names.map some := by
  have first : PrintableTokens [.identifier name, .simple .dependsKeyword rfl] :=
    List.forall_mem_cons.mpr ⟨⟨name, identifier.prints⟩,
      List.forall_mem_singleton.mpr (exists_prints_simple rfl (by decide))⟩
  have last : PrintableTokens [.simple .semicolon rfl] :=
    List.forall_mem_singleton.mpr (exists_prints_simple rfl (by decide))
  refine (spelled_ids nonempty identifiers).between first last ?_
  intro opening tokens closing ids opens closes derived meant
  obtain ⟨id, more, rfl, spells, same⟩ := List.map_eq_cons_iff.mp opens
  obtain ⟨depends, rfl, keyword⟩ := List.map_eq_singleton_iff.mp same
  obtain ⟨semicolon, rfl, ends⟩ := List.map_eq_singleton_iff.mp closes
  obtain ⟨range, kind⟩ := id
  obtain rfl : kind = .identifier name := spells
  exact ⟨_, .intro ⟨range, name⟩ (getType_of_kind keyword) derived
    (getType_of_kind ends), rfl, meant⟩

theorem spelled_level (identifier : IsIdentifier name) (nonempty : names ≠ [])
    (identifiers : ∀ name ∈ names, IsIdentifier name) :
    Spelled Grammar.Level fun node => nameText node.name = some name ∧
      node.dependencies.map nameText = names.map some := by
  have first : PrintableTokens [.simple .runLevelKeyword rfl, .identifier name,
      .simple .colon rfl] :=
    List.forall_mem_cons.mpr ⟨exists_prints_simple rfl (by decide),
      List.forall_mem_cons.mpr ⟨⟨name, identifier.prints⟩,
        List.forall_mem_singleton.mpr (exists_prints_simple rfl (by decide))⟩⟩
  have last : PrintableTokens [.simple .semicolon rfl] :=
    List.forall_mem_singleton.mpr (exists_prints_simple rfl (by decide))
  refine (spelled_ids nonempty identifiers).between first last ?_
  intro opening tokens closing ids opens closes derived meant
  obtain ⟨level, more, rfl, keyword, same⟩ := List.map_eq_cons_iff.mp opens
  obtain ⟨id, more, rfl, spells, same⟩ := List.map_eq_cons_iff.mp same
  obtain ⟨colon, rfl, separates⟩ := List.map_eq_singleton_iff.mp same
  obtain ⟨semicolon, rfl, ends⟩ := List.map_eq_singleton_iff.mp closes
  obtain ⟨range, kind⟩ := id
  obtain rfl : kind = .identifier name := spells
  exact ⟨_, .intro ⟨range, name⟩ (getType_of_kind keyword)
    (getType_of_kind separates) derived (getType_of_kind ends), rfl, meant⟩

def addTask (node : TaskNode) (tree : TopLevelNode) : TopLevelNode :=
  { tree with tasks := node :: tree.tasks }

def addDep (node : DependencyNode) (tree : TopLevelNode) : TopLevelNode :=
  { tree with dependenciesDecls := node :: tree.dependenciesDecls }

def addLevel (node : RunLevelNode) (tree : TopLevelNode) : TopLevelNode :=
  { tree with runLevels := node :: tree.runLevels }

theorem foldr_declarations (tasks : List TaskNode) (decls : List DependencyNode)
    (levels : List RunLevelNode) :
    tasks.foldr addTask
        (decls.foldr addDep (levels.foldr addLevel ⟨[], [], []⟩)) =
      ⟨tasks, decls, levels⟩ := by
  have inLevels : levels.foldr addLevel ⟨[], [], []⟩ = ⟨[], [], levels⟩ := by
    induction levels with
    | nil => rfl
    | cons node levels induction =>
        rw [List.foldr_cons, induction]
        rfl
  have inDecls : decls.foldr addDep ⟨[], [], levels⟩ = ⟨[], decls, levels⟩ := by
    induction decls with
    | nil => rfl
    | cons node decls induction =>
        rw [List.foldr_cons, induction]
        rfl
  rw [inLevels, inDecls]
  induction tasks with
  | nil => rfl
  | cons node tasks induction =>
      rw [List.foldr_cons, induction]
      rfl

/-- Declarations of one kind before the rest of a file. -/
theorem spelled_declarations {Item Node : Type}
    (grammar : List Token → Node → Prop)
    (add : Node → TopLevelNode → TopLevelNode)
    (before : ∀ {word more node tree}, grammar word node →
      Grammar.File more tree → Grammar.File (word ++ more) (add node tree))
    {means : Item → Node → Prop} {items : List Item}
    (each : ∀ item ∈ items, Spelled grammar (means item))
    {holds : TopLevelNode → Prop} (rest : Spelled Grammar.File holds) :
    Spelled Grammar.File fun tree => ∃ nodes more, holds more ∧
      List.Forall₂ means items nodes ∧ tree = nodes.foldr add more := by
  induction items with
  | nil => exact rest.mono fun tree held => ⟨[], tree, held, .nil, rfl⟩
  | cons item items induction =>
      obtain ⟨⟨kinds, printable, derives⟩, later⟩ :=
        List.forall_mem_cons.mp each
      refine (induction later).between printable (List.forall_mem_nil _) ?_
      intro opening tokens closing tree opens closes file held
      obtain ⟨nodes, more, held, meant, rfl⟩ := held
      obtain ⟨node, derived, here⟩ := derives opening opens
      obtain rfl := List.map_eq_nil_iff.mp closes
      rw [List.append_nil]
      exact ⟨_, before derived file, node :: nodes, more, held,
        .cons here meant, rfl⟩

end Declarations

/-! The tree of a configuration. -/

section Lists

variable {First Second Third : Type} {related : First → Second → Prop}
  {firsts : List First} {seconds : List Second}

theorem map_eq_of_forall₂ (all : List.Forall₂ related firsts seconds)
    {f : First → Third} {g : Second → Third}
    (each : ∀ first ∈ firsts, ∀ second, related first second →
      g second = f first) : seconds.map g = firsts.map f := by
  induction all with
  | nil => rfl
  | cons here _ induction =>
      obtain ⟨first, later⟩ := List.forall_mem_cons.mp each
      rw [List.map_cons, List.map_cons, first _ here, induction later]

theorem exists_of_forall₂ (all : List.Forall₂ related firsts seconds)
    {second : Second} (member : second ∈ seconds) :
    ∃ first ∈ firsts, related first second := by
  induction all with
  | nil => contradiction
  | cons here _ induction =>
      cases List.mem_cons.mp member with
      | inl same => exact ⟨_, List.mem_cons_self, same ▸ here⟩
      | inr later =>
          obtain ⟨first, inside, holds⟩ := induction later
          exact ⟨first, List.mem_cons_of_mem _ inside, holds⟩

theorem flatMap_of_once {item : First} [DecidableEq First]
    {items : List First} (unique : items.Nodup) (f : First → List Second) :
    (items.flatMap fun other => if other = item then f other else []) =
      if item ∈ items then f item else [] := by
  induction items with
  | nil => rfl
  | cons other rest induction =>
      obtain ⟨fresh, later⟩ := List.nodup_cons.mp unique
      rw [List.flatMap_cons, induction later]
      by_cases same : other = item
      · subst other
        simp [fresh]
      · simp [same, Ne.symm same]

end Lists

namespace TaskDescriptions

def nameOf (tds : TaskDescriptions) (task : Nat) : Bytes :=
  (tds.names[task]?).getD []

variable {tds : TaskDescriptions} {task : Nat}

theorem nameOf_eq (inside : task < tds.allTasks.length) :
    tds.nameOf task = tds.allTasks[task].name := by
  simp [nameOf, names, inside]

theorem nameOf_mem (inside : task < tds.allTasks.length) :
    tds.nameOf task ∈ tds.names := by
  rw [nameOf_eq inside]
  exact List.mem_map_of_mem (List.getElem_mem inside)

/-- Each task is found by its own name. -/
theorem taskNamed_nameOf (ascend : tds.names.Pairwise (· < ·))
    (inside : task < tds.allTasks.length) :
    tds.taskNamed (tds.nameOf task) = some task := by
  rw [nameOf_eq inside]
  refine List.findIdx?_eq_some_iff_getElem.mpr
    ⟨inside, decide_eq_true rfl, fun other earlier same => ?_⟩
  have below := List.pairwise_iff_getElem.mp (List.pairwise_map.mp ascend)
    other task (by omega) inside earlier
  rw [of_decide_eq_true same] at below
  exact Std.Asymm.asymm _ _ below below

theorem resolve_of_name (ascend : tds.names.Pairwise (· < ·))
    (inside : task < tds.allTasks.length) {pointer : Option IdentifierToken}
    (named : nameText pointer = some (tds.nameOf task)) :
    tds.resolve pointer = some task := by
  rw [resolve, named]
  exact taskNamed_nameOf ascend inside

/-- Names that are listed for tasks resolve to these. -/
theorem map_resolve (ascend : tds.names.Pairwise (· < ·)) {tasks : List Nat}
    (inside : ∀ task ∈ tasks, task < tds.allTasks.length)
    {pointers : List (Option IdentifierToken)}
    (listed : pointers.map nameText =
      (tasks.map tds.nameOf).map some) :
    pointers.map tds.resolve = tasks.map some := by
  have bound : tds.resolve = (fun name => name.bind tds.taskNamed) ∘ nameText :=
    rfl
  rw [bound, ← List.map_map, listed, List.map_map, List.map_map]
  exact List.map_congr_left fun task member =>
    taskNamed_nameOf ascend (inside task member)

end TaskDescriptions

/-- What the reader can return without a report. -/
structure Expressible (tds : TaskDescriptions) : Prop where
  namesAscend : tds.names.Pairwise (· < ·)
  identifiers : ∀ name ∈ tds.names, IsIdentifier name
  noMount : ∀ description ∈ tds.allTasks, ∀ mount,
    description.data ≠ .mount mount
  taskByName : tds.taskByName = tds.names.zipIdx
  levelsAscend : tds.runLevelByName.Ascending
  levels : ∀ level ∈ tds.runLevelByName, IsIdentifier level.1 ∧ level.2 ≠ []
  owned : tds.Owned

section Write

variable {tds : TaskDescriptions} {tree : TopLevelNode}

/-- The tasks that depend on any. -/
def dependants (tds : TaskDescriptions) : List Nat :=
  (List.range tds.allTasks.length).filter fun task =>
    tds.getDependencies task ≠ []

def WritesTask (description : TaskDescription) (node : TaskNode) : Prop :=
  nameText node.name = some description.name ∧
    ∃ value, node.value = some value ∧ MeansTask value description.data

def WritesDep (tds : TaskDescriptions) (task : Nat) (node : DependencyNode) :
    Prop :=
  nameText node.dependant = some (tds.nameOf task) ∧
    node.dependencies.map nameText =
      ((tds.getDependencies task).map tds.nameOf).map some

def WritesLevel (tds : TaskDescriptions) (level : Bytes × List Nat)
    (node : RunLevelNode) : Prop :=
  nameText node.name = some level.1 ∧
    node.dependencies.map nameText = (level.2.map tds.nameOf).map some

/-- A declaration for each task, for each that depends on any, and for each run
level. -/
structure WritesAll (tds : TaskDescriptions) (tree : TopLevelNode) : Prop where
  tasks : List.Forall₂ WritesTask tds.allTasks tree.tasks
  deps : List.Forall₂ (WritesDep tds) (dependants tds) tree.dependenciesDecls
  levels : List.Forall₂ (WritesLevel tds) tds.runLevelByName tree.runLevels

theorem Expressible.dependency_lt (expressible : Expressible tds) {task : Nat} :
    ∀ dependency ∈ tds.getDependencies task,
      dependency < tds.allTasks.length := by
  intro dependency member
  by_cases inside : task < tds.allTasks.length
  · refine expressible.owned.dependencies ⟨task, inside⟩ dependency ?_
    simpa [TaskDescriptions.getDependencies, inside] using member
  · simp [TaskDescriptions.getDependencies, inside] at member

theorem resolved_of_map {pointers : List (Option IdentifierToken)}
    {tasks : List Nat} (resolved : pointers.map tds.resolve = tasks.map some) :
    (∀ name ∈ pointers, (tds.resolve name).isSome) ∧
      pointers.filterMap tds.resolve = tasks := by
  constructor
  · intro name member
    have inside : tds.resolve name ∈ tasks.map some :=
      resolved ▸ List.mem_map_of_mem member
    obtain ⟨task, -, same⟩ := List.mem_map.mp inside
    rw [← same]
    rfl
  · have flat := congrArg (List.filterMap id) resolved
    simpa [List.filterMap_map] using flat

theorem mem_dependants {task : Nat} : task ∈ dependants tds ↔
    task < tds.allTasks.length ∧ tds.getDependencies task ≠ [] := by
  rw [dependants, List.mem_filter, List.mem_range, decide_eq_true_iff]

/-- The declarations of a tree that writes a configuration add up to its
edges. -/
theorem edges_of_writesAll (expressible : Expressible tds)
    (writes : WritesAll tds tree) {task : Nat}
    (inside : task < tds.allTasks.length) :
    tree.dependenciesDecls.flatMap (tds.edges task) =
      tds.getDependencies task := by
  have each : tree.dependenciesDecls.map (tds.edges task) =
      (dependants tds).map fun other =>
        if other = task then tds.getDependencies other else [] := by
    refine map_eq_of_forall₂ writes.deps fun other member decl written => ?_
    have dependant := TaskDescriptions.resolve_of_name expressible.namesAscend
      (mem_dependants.mp member).1 written.1
    have listed := TaskDescriptions.map_resolve expressible.namesAscend
      expressible.dependency_lt written.2
    simp only [TaskDescriptions.edges, dependant, (resolved_of_map listed).2,
      Option.some_inj]
  have once : (dependants tds).Nodup := List.nodup_range.filter _
  rw [List.flatMap_def, each, ← List.flatMap_def, flatMap_of_once once]
  split
  · rfl
  · next absent =>
      by_contra different
      exact absent (mem_dependants.mpr ⟨inside, Ne.symm different⟩)

theorem describes_of_writesAll (expressible : Expressible tds)
    (writes : WritesAll tds tree) : Describes tree tds := by
  have ascend := expressible.namesAscend
  have nodup : tds.names.Nodup := by
    refine List.Pairwise.imp (fun {first second} below equal => ?_) ascend
    rw [equal] at below
    exact Std.Asymm.asymm _ _ below below
  have taskNames : (tree.tasks.map fun task => nameText task.name) =
      tds.names.map some := by
    rw [TaskDescriptions.names, List.map_map]
    exact map_eq_of_forall₂ writes.tasks fun _ _ _ written => written.1
  have requisites : ∀ level ∈ tds.runLevelByName, ∀ node,
      WritesLevel tds level node →
        node.dependencies.map tds.resolve = level.2.map some :=
    fun level member node written => TaskDescriptions.map_resolve ascend
      (expressible.owned.runLevels level member) written.2
  refine ⟨.of_eq taskNames.symm, ascend,
    fun task member description inside called => ?_, expressible.taskByName,
    fun decl member => ?_, fun task description found => ?_,
    fun level member => ?_, .of_eq ?_, expressible.levelsAscend⟩
  · obtain ⟨other, inside', named, means⟩ :=
      exists_of_forall₂ writes.tasks member
    obtain rfl : description = other := List.inj_on_of_nodup_map nodup inside
      inside' (Option.some.inj (called.symm.trans named))
    exact means
  · obtain ⟨task, inside, dependant, listed⟩ :=
      exists_of_forall₂ writes.deps member
    have found := TaskDescriptions.resolve_of_name ascend
      (mem_dependants.mp inside).1 dependant
    have names := TaskDescriptions.map_resolve ascend
      expressible.dependency_lt listed
    exact ⟨by rw [found]; rfl, (resolved_of_map names).1⟩
  · have inside := (List.getElem?_eq_some_iff.mp found).1
    rw [edges_of_writesAll expressible writes inside,
      TaskDescriptions.getDependencies, found]
    rfl
  · obtain ⟨level', inside, written⟩ := exists_of_forall₂ writes.levels member
    exact (resolved_of_map (requisites level' inside level written)).1
  · symm
    refine map_eq_of_forall₂ writes.levels fun level member node written => ?_
    rw [written.1, (resolved_of_map (requisites level member node written)).2]

theorem spelled_writesAll (expressible : Expressible tds) :
    Spelled Grammar.File (WritesAll tds) := by
  have identifiers : ∀ tasks : List Nat,
      (∀ task ∈ tasks, task < tds.allTasks.length) →
        ∀ name ∈ tasks.map tds.nameOf, IsIdentifier name := by
    intro tasks inside name member
    obtain ⟨task, listed, rfl⟩ := List.mem_map.mp member
    exact expressible.identifiers _
      (TaskDescriptions.nameOf_mem (inside task listed))
  have empty : Spelled Grammar.File fun tree => tree = ⟨[], [], []⟩ := by
    refine ⟨[], List.forall_mem_nil _, fun tokens same => ?_⟩
    obtain rfl := List.map_eq_nil_iff.mp same
    exact ⟨_, .empty, rfl⟩
  have levels := spelled_declarations Grammar.Level addLevel .level
    (fun level (member : level ∈ tds.runLevelByName) => by
      obtain ⟨name, nonempty⟩ := expressible.levels level member
      exact spelled_level name (List.map_eq_nil_iff.not.mpr nonempty)
        (identifiers level.2 (expressible.owned.runLevels level member))) empty
  have deps := spelled_declarations Grammar.Dep addDep .dep
    (fun task (member : task ∈ dependants tds) => by
      obtain ⟨inside, nonempty⟩ := mem_dependants.mp member
      exact spelled_dep
        (expressible.identifiers _ (TaskDescriptions.nameOf_mem inside))
        (List.map_eq_nil_iff.not.mpr nonempty)
        (identifiers _ expressible.dependency_lt)) levels
  have tasks := spelled_declarations Grammar.Task addTask .task
    (fun description (member : description ∈ tds.allTasks) => spelled_task
      (expressible.identifiers _ (List.mem_map_of_mem member))
      (expressible.noMount description member)) deps
  refine tasks.mono fun tree held => ?_
  obtain ⟨tasks, _, ⟨decls, _, ⟨levels, _, rfl, inLevels, rfl⟩, inDeps, rfl⟩,
    inTasks, rfl⟩ := held
  rw [foldr_declarations]
  exact ⟨inTasks, inDeps, inLevels⟩

end Write

/-! What is read is expressible. -/

/-- The names in the tree of a file are tokens of it, and no run level is
without requisites. -/
structure NamesOf (word : List Token) (tree : TopLevelNode) : Prop where
  tasks : ∀ task ∈ tree.tasks, ∃ token : IdentifierToken,
    task.name = some token ∧ token.toToken ∈ word
  levels : ∀ level ∈ tree.runLevels, level.dependencies ≠ [] ∧
    ∃ token : IdentifierToken, level.name = some token ∧ token.toToken ∈ word

theorem NamesOf.after {more : List Token} {tree : TopLevelNode}
    (names : NamesOf more tree) (word : List Token) :
    NamesOf (word ++ more) tree where
  tasks task member := by
    obtain ⟨token, found, inside⟩ := names.tasks task member
    exact ⟨token, found, List.mem_append_right _ inside⟩
  levels level member := by
    obtain ⟨nonempty, token, found, inside⟩ := names.levels level member
    exact ⟨nonempty, token, found, List.mem_append_right _ inside⟩

theorem namesOf_file {word : List Token} {tree : TopLevelNode}
    (file : Grammar.File word tree) : NamesOf word tree := by
  induction file with
  | empty => exact ⟨List.forall_mem_nil _, List.forall_mem_nil _⟩
  | @task word _ _ _ task _ induction =>
      have later := induction.after word
      refine ⟨List.forall_mem_cons.mpr ⟨?_, later.tasks⟩, later.levels⟩
      cases task with
      | intro name keyword equals denotes ends =>
          exact ⟨name, rfl, by simp⟩
  | @dep word _ _ _ _ _ induction =>
      have later := induction.after word
      exact ⟨later.tasks, later.levels⟩
  | @level word _ _ _ level _ induction =>
      have later := induction.after word
      refine ⟨later.tasks, List.forall_mem_cons.mpr ⟨?_, later.levels⟩⟩
      cases level with
      | intro name keyword separates list ends =>
          refine ⟨?_, name, rfl, by simp⟩
          cases list with
          | last id => exact List.cons_ne_nil _ _
          | cons id separates list => exact List.cons_ne_nil _ _

theorem SilentRead.expressible {text : Bytes} {tokens : List Token}
    {tree : TopLevelNode} {tds : TaskDescriptions}
    (silent : SilentRead text tokens tree tds) : Expressible tds := by
  obtain ⟨file, describes⟩ := silent.describes
  have names := namesOf_file file
  obtain ⟨lexer, read, -⟩ := silent.lexed
  obtain ⟨tds', _, _, errors, writes, resolved, -⟩ :=
    readTree_writes (placed_of_file file) file.whole.named
  obtain ⟨rfl, -⟩ :=
    Prod.mk.inj (Except.ok.inj ((writes []).symm.trans silent.read))
  refine ⟨describes.namesAscend, fun name member => ?_,
    fun description member mount same => ?_, describes.taskByName,
    describes.levelsAscend, fun level member => ?_, resolved.owned⟩
  · obtain ⟨task, inside, called⟩ := List.mem_map.mp
      (describes.names.subset (List.mem_map_of_mem member))
    obtain ⟨token, found, among⟩ := names.tasks task inside
    rw [found] at called
    obtain rfl := Option.some.inj called
    exact readAll_isIdentifier read among
  · obtain ⟨task, inside, called⟩ := describes.exists_task member
    obtain ⟨value, -, means⟩ :=
      describes.data task inside description member called
    rw [same] at means
    cases means
  · obtain ⟨node, inside, same⟩ := List.mem_map.mp
      (describes.levels.subset (List.mem_map_of_mem member))
    obtain ⟨called, requisites⟩ := Prod.mk.inj same
    obtain ⟨nonempty, token, found, among⟩ := names.levels node inside
    rw [found] at called
    refine ⟨Option.some.inj called ▸ readAll_isIdentifier read among,
      fun none => ?_⟩
    obtain ⟨name, rest, first⟩ := List.exists_cons_of_ne_nil nonempty
    have resolves := describes.requisites node inside name (by simp [first])
    obtain ⟨task, found⟩ := Option.isSome_iff_exists.mp resolves
    rw [none, first, List.filterMap_cons_some found] at requisites
    contradiction

/-- What the reader returns without a report for some text are exactly these
configurations. -/
theorem expressible_iff (tds : TaskDescriptions) :
    Expressible tds ↔ ∃ text tokens tree, SilentRead text tokens tree tds := by
  constructor
  · intro expressible
    obtain ⟨kinds, printable, derives⟩ := spelled_writesAll expressible
    obtain ⟨text, tokens, lexer, read, silent, same⟩ := printable.exists_read
    obtain ⟨tree, file, writes⟩ := derives tokens same
    exact ⟨text, tokens, tree, (describes_of_writesAll expressible
      writes).silentRead file ⟨lexer, read, silent⟩⟩
  · rintro ⟨text, tokens, tree, silent⟩
    exact silent.expressible

end Initd.Reader
