import Initd.Parser.Node

namespace Initd

open Library

/-! Complete nodes all of whose tokens stand at known places. -/

/-- A pointer to a token that is there and stands at a known place. -/
def KnownToken {Value : Type} (known : TextRange → Prop)
    (range : Value → TextRange) (pointer : Option Value) : Prop :=
  ∃ token, pointer = some token ∧ known (range token)

inductive ValueNode.Placed (known : TextRange → Prop) : ValueNode → Prop
  | integer (tok : IntegerLiteralToken) (here : known tok.range) :
      Placed known (.integer (some tok))
  | string (tok : StringLiteralToken) (here : known tok.range) :
      Placed known (.string (some tok))
  | boolean (tok : Token) (value : Bool) (here : known tok.range) :
      Placed known (.boolean (some tok) value)
  | pseudoIdentifier (tok : IdentifierToken) (here : known tok.range) :
      Placed known (.pseudoIdentifier (some tok))
  | struct (tag : IdentifierToken) (here : known tag.range)
      {properties : List PropertyNode}
      (keys : ∀ property ∈ properties,
        KnownToken known IdentifierToken.range property.key)
      (eqs : ∀ property ∈ properties, KnownToken known Token.range property.eq)
      (values : ∀ property ∈ properties, ∀ value,
        property.value = some value → Placed known value) :
      Placed known (.struct (some tag) properties)

structure PropertyNodeOf.Placed (known : TextRange → Prop)
    (node : PropertyNode) : Prop where
  key : KnownToken known IdentifierToken.range node.key
  eq : KnownToken known Token.range node.eq
  value : ∀ value, node.value = some value → value.Placed known

structure TaskNode.Placed (known : TextRange → Prop) (node : TaskNode) :
    Prop where
  name : KnownToken known IdentifierToken.range node.name
  value : ∀ value, node.value = some value → value.Placed known

def PlacedNames (known : TextRange → Prop)
    (names : List (Option IdentifierToken)) : Prop :=
  ∀ name ∈ names, KnownToken known IdentifierToken.range name

structure DependencyNode.Placed (known : TextRange → Prop)
    (node : DependencyNode) : Prop where
  dependant : KnownToken known IdentifierToken.range node.dependant
  dependencies : PlacedNames known node.dependencies

structure RunLevelNode.Placed (known : TextRange → Prop)
    (node : RunLevelNode) : Prop where
  name : ∀ token, node.name = some token → known token.range
  dependencies : PlacedNames known node.dependencies

structure TopLevelNode.Placed (known : TextRange → Prop)
    (node : TopLevelNode) : Prop where
  tasks : ∀ task ∈ node.tasks, task.Placed known
  dependenciesDecls : ∀ decl ∈ node.dependenciesDecls, decl.Placed known
  runLevels : ∀ runLevel ∈ node.runLevels, runLevel.Placed known

variable {known : TextRange → Prop}

theorem KnownToken.isSome {Value : Type} {range : Value → TextRange}
    {pointer : Option Value} (placed : KnownToken known range pointer) :
    pointer.isSome := by
  obtain ⟨token, rfl, -⟩ := placed
  rfl

theorem KnownToken.of_isSome {Value : Type} {range : Value → TextRange}
    {pointer : Option Value} (present : pointer.isSome) :
    KnownToken (fun _ => True) range pointer :=
  (Option.isSome_iff_exists.mp present).imp fun _ found => ⟨found, trivial⟩

theorem ValueNode.placed_struct (tag : IdentifierToken) (here : known tag.range)
    {properties : List PropertyNode}
    (placed : ∀ property ∈ properties, property.Placed known) :
    (ValueNode.struct (some tag) properties).Placed known :=
  .struct tag here (fun property member => (placed property member).key)
    (fun property member => (placed property member).eq)
    (fun property member => (placed property member).value)

theorem ValueNode.Placed.properties {tag : Option IdentifierToken}
    {properties : List PropertyNode}
    (placed : (ValueNode.struct tag properties).Placed known) :
    KnownToken known IdentifierToken.range tag ∧
      ∀ property ∈ properties, property.Placed known := by
  cases placed with
  | struct tag here keys eqs values =>
      exact ⟨⟨tag, rfl, here⟩, fun property member =>
        ⟨keys property member, eqs property member, values property member⟩⟩

/-! Complete nodes are those whose tokens stand somewhere. -/

theorem ValueNode.Placed.complete {node : ValueNode}
    (placed : node.Placed known) : node.Complete := by
  induction placed with
  | integer tok => exact .integer tok
  | string tok => exact .string tok
  | boolean tok value => exact .boolean tok value
  | pseudoIdentifier tok => exact .pseudoIdentifier tok
  | struct tag _ keys eqs _ induction =>
      exact .struct tag (fun property member =>
        ⟨(keys property member).isSome, (eqs property member).isSome⟩) induction

theorem PropertyNodeOf.Placed.complete {node : PropertyNode}
    (placed : node.Placed known) : node.Complete :=
  ⟨placed.key.isSome, placed.eq.isSome,
    fun value found => (placed.value value found).complete⟩

theorem ValueNode.Complete.placed {node : ValueNode} (complete : node.Complete) :
    node.Placed fun _ => True := by
  induction complete with
  | integer tok => exact .integer tok trivial
  | string tok => exact .string tok trivial
  | boolean tok value => exact .boolean tok value trivial
  | pseudoIdentifier tok => exact .pseudoIdentifier tok trivial
  | struct tag tokens _ induction =>
      exact .struct tag trivial
        (fun property member => .of_isSome (tokens property member).1)
        (fun property member => .of_isSome (tokens property member).2) induction

theorem TopLevelNode.Placed.complete {node : TopLevelNode}
    (placed : node.Placed known) : node.CompleteButNames where
  tasks task member :=
    ⟨(placed.tasks task member).name.isSome,
      fun value found => ((placed.tasks task member).value value found).complete⟩
  dependenciesDecls decl member :=
    ⟨(placed.dependenciesDecls decl member).dependant.isSome,
      fun name inside =>
        ((placed.dependenciesDecls decl member).dependencies name inside).isSome⟩
  dependencies runLevel member name inside :=
    ((placed.runLevels runLevel member).dependencies name inside).isSome

theorem TopLevelNode.CompleteButNames.placed {node : TopLevelNode}
    (complete : node.CompleteButNames) : node.Placed fun _ => True where
  tasks task member :=
    ⟨.of_isSome (complete.tasks task member).name,
      fun value found => ((complete.tasks task member).value value found).placed⟩
  dependenciesDecls decl member :=
    ⟨.of_isSome (complete.dependenciesDecls decl member).dependant,
      fun name inside => .of_isSome
        ((complete.dependenciesDecls decl member).dependencies name inside)⟩
  runLevels runLevel member :=
    ⟨fun _ _ => trivial, fun name inside => .of_isSome
      (complete.dependencies runLevel member name inside)⟩

theorem TopLevelNode.Complete.butNames {node : TopLevelNode}
    (complete : node.Complete) : node.CompleteButNames where
  tasks := complete.tasks
  dependenciesDecls := complete.dependenciesDecls
  dependencies runLevel member := (complete.runLevels runLevel member).dependencies

end Initd
