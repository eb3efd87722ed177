import Initd.Parser.Declarations
import Initd.Reader.Resolution

namespace Initd.Reader

open Library

/-! What an empty sink says about a file. -/

/-- The reading of a file completes, and its sink has received nothing. -/
structure SilentRead (text : Bytes) (tokens : List Token) (tree : TopLevelNode)
    (tds : TaskDescriptions) : Prop where
  lexed : ∃ lexer, Lexer.readAll text = .ok (tokens, lexer) ∧ lexer.errors = []
  parsed : Parser.parseFile text tokens = .ok (tree, [])
  read : readTree tree [] = .ok (tds, [])

/-- The task is read as what its value means, without a fallback. -/
def TaskRead (task : TaskNode) : Prop :=
  ∃ value data, task.value = some value ∧
    Writes (readTask task) (some data) [] ∧ DenotesTask value data

def DeclResolved (tds : TaskDescriptions) (decl : DependencyNode) : Prop :=
  (tds.resolve decl.dependant).isSome ∧
    ∀ name ∈ decl.dependencies, (tds.resolve name).isSome

def LevelResolved (tds : TaskDescriptions) (level : RunLevelNode) : Prop :=
  ∀ name ∈ level.dependencies, (tds.resolve name).isSome

section Silent

variable {known : TextRange → Prop} {tds : TaskDescriptions}

theorem resolve_isSome {pointer : Option IdentifierToken}
    (placed : KnownToken known IdentifierToken.range pointer)
    (silent : tds.notDeclared pointer = []) : (tds.resolve pointer).isSome := by
  obtain ⟨token, rfl, -⟩ := placed
  change (tds.taskNamed token.text).isSome
  simp only [TaskDescriptions.notDeclared] at silent
  cases found : tds.taskNamed token.text with
  | none => simp [found] at silent
  | some task => rfl

theorem resolve_all_isSome {names : List (Option IdentifierToken)}
    (placed : PlacedNames known names)
    (silent : names.flatMap tds.notDeclared = []) :
    ∀ name ∈ names, (tds.resolve name).isSome := fun name member =>
  resolve_isSome (placed name member)
    (List.flatMap_eq_nil_iff.mp silent name member)

theorem declResolved_of_silent {decl : DependencyNode}
    (placed : decl.Placed known) (silent : tds.declErrors decl = []) :
    DeclResolved tds decl := by
  unfold TaskDescriptions.declErrors at silent
  split at silent
  · next missing =>
      have present := resolve_isSome placed.dependant silent
      rw [missing] at present
      contradiction
  · next task found =>
      exact ⟨by rw [found]; rfl, resolve_all_isSome placed.dependencies silent⟩

theorem taskRead_of_silent {task : TaskNode} {value : ValueNode}
    (placed : task.Placed known) (found : task.value = some value)
    (whole : value.Whole) (silent : reported (readTask task) = []) :
    TaskRead task := by
  obtain ⟨result, errors, writes, -, right⟩ := readTask_faithful placed
  rw [writes.reported] at silent
  subst silent
  obtain ⟨data, rfl, denotes⟩ := right rfl value found whole
  exact ⟨value, data, found, writes, denotes⟩

end Silent

/-- Where the sink is empty, the tree is that of a derivation of the file in
the grammar, so that nothing is dropped, every task is read as what it means,
with defaults only for properties that it has not, and every name is resolved. -/
theorem silent_read {text : Bytes} {tokens : List Token} {tree : TopLevelNode}
    {tds : TaskDescriptions} (silent : SilentRead text tokens tree tds) :
    Grammar.File tokens tree ∧ (∀ task ∈ tree.tasks, TaskRead task) ∧
      (∀ decl ∈ tree.dependenciesDecls, DeclResolved tds decl) ∧
      (∀ level ∈ tree.runLevels, LevelResolved tds level) ∧
      ∃ tasks levels, Resolved tree tds tasks levels [] := by
  obtain ⟨tree', final, ran, -, placed, -, grammar⟩ :=
    Parser.parseFile_placed text tokens
  obtain ⟨rfl, noErrors⟩ :=
    Prod.mk.inj (Except.ok.inj (ran.symm.trans silent.parsed))
  have file := grammar noErrors
  have whole := file.whole
  have somewhere := placed (fun _ => True) fun _ _ => trivial
  obtain ⟨tds', tasks, levels, errors, writes, resolved, -⟩ :=
    readTree_writes somewhere whole.named
  obtain ⟨rfl, rfl⟩ :=
    Prod.mk.inj (Except.ok.inj ((writes []).symm.trans silent.read))
  obtain ⟨_, _, -, -, parts⟩ := resolved.errors
  have empty := parts.symm
  simp only [List.append_eq_nil_iff, List.flatMap_eq_nil_iff] at empty
  obtain ⟨⟨-, tasksSilent⟩, declsSilent, -, levelsSilent⟩ := empty
  refine ⟨file, fun task member => ?_, fun decl member => ?_,
    fun level member => ?_, tasks, levels, resolved⟩
  · obtain ⟨value, found, inside⟩ := whole.tasks task member
    obtain ⟨element, listed, rfl⟩ :=
      List.mem_map.mp (resolved.tasksOrdered.perm.symm.subset member)
    exact taskRead_of_silent (somewhere.tasks _ member) found inside
      (tasksSilent element listed)
  · exact declResolved_of_silent (somewhere.dependenciesDecls decl member)
      (declsSilent decl member)
  · obtain ⟨element, listed, rfl⟩ :=
      List.mem_map.mp (resolved.levelsOrdered.perm.symm.subset member)
    refine resolve_all_isSome (somewhere.runLevels _ member).dependencies ?_
    exact List.flatMap_eq_nil_iff.mpr (levelsSilent element listed)

/-- Names that are declared out of order, a property that is given and one that
is left to its default, a dependency, and a run level. -/
def hostnameFile : Bytes :=
  ascii "task b=sethostname\x7bhostname=\"h\"\x7d;task a=null\x7b\x7d;" ++
    ascii "b depends a;run_level r:b;"

def hostnameTokens : List Token × Lexer :=
  (Lexer.readAll hostnameFile).toOption.get (by decide +kernel)

def hostnameTree : TopLevelNode × List ErrorTag :=
  (Parser.parseFile hostnameFile hostnameTokens.1).toOption.get
    (by decide +kernel)

def hostnameDescriptions : TaskDescriptions × List ErrorTag :=
  (readTree hostnameTree.1 []).toOption.get (by decide +kernel)

theorem eq_ok_get {Fault Result : Type} {read : Except Fault Result}
    (returns : read.toOption.isSome = true) :
    read = .ok (read.toOption.get returns) := by
  cases read with
  | error fault => contradiction
  | ok result => rfl

theorem eq_ok_of_silent {Fault Result : Type}
    {read : Except Fault (Result × List ErrorTag)}
    {result : Result × List ErrorTag} (returned : read = .ok result)
    (silent : result.2 = []) : read = .ok (result.1, []) := by
  rw [returned, ← silent]

theorem silentRead_hostname :
    SilentRead hostnameFile hostnameTokens.1 hostnameTree.1
      hostnameDescriptions.1 := by
  have lexed : Lexer.readAll hostnameFile = .ok hostnameTokens := eq_ok_get _
  have parsed : Parser.parseFile hostnameFile hostnameTokens.1 =
    .ok hostnameTree := eq_ok_get _
  have read : readTree hostnameTree.1 [] = .ok hostnameDescriptions :=
    eq_ok_get _
  exact ⟨⟨hostnameTokens.2, lexed, by decide +kernel⟩,
    eq_ok_of_silent parsed (by decide +kernel),
    eq_ok_of_silent read (by decide +kernel)⟩

theorem silent_read_hostname :
    (∀ task ∈ hostnameTree.1.tasks, TaskRead task) ∧
      (∀ decl ∈ hostnameTree.1.dependenciesDecls,
        DeclResolved hostnameDescriptions.1 decl) ∧
      (∀ level ∈ hostnameTree.1.runLevels,
        LevelResolved hostnameDescriptions.1 level) ∧
      hostnameDescriptions.1.allTasks.map (fun task =>
        (task.name, task.data, task.dependencies)) =
          [(ascii "a", .null, []),
            (ascii "b", .hostname ⟨ascii "h", false⟩, [0])] ∧
      hostnameDescriptions.1.runLevelByName = [(ascii "r", [1])] := by
  obtain ⟨-, tasks, decls, levels, -⟩ := silent_read silentRead_hostname
  exact ⟨tasks, decls, levels, by decide +kernel, by decide +kernel⟩

end Initd.Reader
