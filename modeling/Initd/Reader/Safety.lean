import Initd.Parser.Declarations
import Initd.Reader.Resolution

namespace Initd.Reader

open Library

/-! The name of a run level is what the parser may leave out. -/

theorem nodesByName_missing {Node : Type} {name : Node → Option IdentifierToken}
    {nodes : List Node} (missing : ∃ node ∈ nodes, name node = none) :
    nodesByName name nodes = .error .nullPointer := by
  have fold : ∀ (nodes : List Node) (map : Multimap Bytes Node),
      (∃ node ∈ nodes, name node = none) →
      nodes.foldlM (fun map node => do
        return map.insert ((← deref (name node)).text, node)) map =
        .error ConfigFault.nullPointer := by
    intro nodes
    induction nodes with
    | nil => exact fun _ missing => by simp at missing
    | cons node nodes induction =>
        intro map missing
        rw [List.foldlM_cons]
        cases found : name node with
        | none => rfl
        | some token =>
            refine induction _ ?_
            obtain ⟨other, member, none⟩ := missing
            cases List.mem_cons.mp member with
            | inl same =>
                rw [same, found] at none
                contradiction
            | inr later => exact ⟨other, later, none⟩
  exact fold nodes [] missing

/-- A run level without a name crashes the reader. -/
theorem readTree_crashes {node : TopLevelNode}
    (complete : node.CompleteButNames) (unnamed : ¬ node.Named)
    (sink : List ErrorTag) : readTree node sink = .error .nullPointer := by
  obtain ⟨runLevel, member, missing⟩ :
      ∃ runLevel ∈ node.runLevels, runLevel.name = none := by
    simpa [TopLevelNode.Named] using unnamed
  have placed := complete.placed
  obtain ⟨tasks, _, -, -, first, indexed⟩ :=
    readTasks_writes placed.tasks empty_indexed
  obtain ⟨second, -⟩ := readDependecies_writes placed.dependenciesDecls indexed
  have runLevels : ∀ tds sink, readRunLevels node tds sink =
      .error .nullPointer := by
    intro tds sink
    unfold readRunLevels
    rw [nodesByName_missing ⟨runLevel, member, missing⟩]
    rfl
  calc readTree node sink
      = (readTasks node ⟨[], [], []⟩ sink >>= fun entry =>
          readDependecies node entry.1 entry.2 >>= fun entry =>
            readRunLevels node entry.1 entry.2) := rfl
    _ = (readDependecies node (tasks.foldl createTask ⟨[], [], []⟩) _ >>=
          fun entry => readRunLevels node entry.1 entry.2) := by
        rw [first]
        rfl
    _ = .error .nullPointer := by
        rw [second]
        exact runLevels _ _

/-- The tree of the tokens is complete and the reader returns on it. -/
def TreeSafe (text : Bytes) (tokens : List Token) : Prop :=
  ∃ tree errors, Parser.parseFile text tokens = .ok (tree, errors) ∧
    tree.Complete ∧
    ∀ sink, ∃ tds sink', readTree tree sink = .ok (tds, sink')

/-- Parse trees are safe to read exactly if an identifier follows each
`run_level` keyword outside of the braces of structs. -/
theorem tree_safe_iff (text : Bytes) (tokens : List Token) :
    TreeSafe text tokens ↔ RunLevelsNamed tokens := by
  obtain ⟨tree, errors, ran, almost, named, -⟩ :=
    Parser.parseFile_returns text tokens
  rw [← named, ← almost.complete_iff]
  constructor
  · rintro ⟨tree', errors', ran', complete, -⟩
    obtain ⟨rfl, -⟩ : tree = tree' ∧ errors = errors' := by
      simpa using ran.symm.trans ran'
    exact complete
  · intro complete
    refine ⟨tree, errors, ran, complete, fun sink => ?_⟩
    obtain ⟨tds, _, _, errors, writes, -⟩ :=
      readTree_writes almost.placed (almost.complete_iff.mp complete)
    exact ⟨tds, sink ++ errors, writes sink⟩

/-- The parser keeps the run level without its name, and the reader
dereferences the null pointer. -/
theorem unnamed_runLevel_not_safe :
    ∃ tokens, (Lexer.readAll (ascii "run_level : x;")).map Prod.fst =
        .ok tokens ∧
      ¬ TreeSafe (ascii "run_level : x;") tokens ∧
      ∃ tree errors, Parser.parseFile (ascii "run_level : x;") tokens =
          .ok (tree, errors) ∧
        tree.runLevels.map RunLevelNode.name = [none] ∧
        readTree tree [] = .error .nullPointer := by
  refine ⟨[⟨⟨0, 9⟩, .simple .runLevelKeyword rfl⟩,
    ⟨⟨10, 11⟩, .simple .colon rfl⟩, ⟨⟨12, 13⟩, .identifier (ascii "x")⟩,
    ⟨⟨13, 14⟩, .simple .semicolon rfl⟩], by decide, ?_, _, _, rfl, rfl, rfl⟩
  rintro ⟨tree, errors, ran, complete, -⟩
  obtain ⟨rfl, -⟩ := Prod.mk.inj (Except.ok.inj ran)
  have name := (complete.runLevels _ List.mem_cons_self).name
  contradiction

end Initd.Reader
