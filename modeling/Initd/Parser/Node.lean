import Initd.Lexer.Token
import Initd.Library.Multimap

namespace Initd

open Library

/-! The parse tree.  A pointer that the source may leave null is an `Option`. -/

/-- What stops the parser or the reader: a failed assertion, a null pointer
that is dereferenced, or the fuel of a loop. -/
inductive ConfigFault
  | assertion
  | nullPointer
  | fuel
  deriving DecidableEq, Repr

def deref {Value : Type} : Option Value → Except ConfigFault Value
  | none => .error .nullPointer
  | some value => .ok value

structure PropertyNodeOf (Value : Type) where
  key : Option IdentifierToken
  eq : Option Token
  value : Option Value

inductive ValueNode
  | integer (tok : Option IntegerLiteralToken)
  | string (tok : Option StringLiteralToken)
  | boolean (tok : Option Token) (value : Bool)
  | pseudoIdentifier (tok : Option IdentifierToken)
  | struct (tag : Option IdentifierToken)
      (properties : List (PropertyNodeOf ValueNode))

abbrev PropertyNode := PropertyNodeOf ValueNode

structure TaskNode where
  name : Option IdentifierToken
  value : Option ValueNode

structure DependencyNode where
  dependant : Option IdentifierToken
  dependencies : List (Option IdentifierToken)

structure RunLevelNode where
  name : Option IdentifierToken
  dependencies : List (Option IdentifierToken)

structure TopLevelNode where
  tasks : List TaskNode
  dependenciesDecls : List DependencyNode
  runLevels : List RunLevelNode

/-- The vectors of one tree before those of another. -/
def TopLevelNode.append (node more : TopLevelNode) : TopLevelNode :=
  ⟨node.tasks ++ more.tasks, node.dependenciesDecls ++ more.dependenciesDecls,
    node.runLevels ++ more.runLevels⟩

theorem TopLevelNode.append_assoc (first second third : TopLevelNode) :
    (first.append second).append third = first.append (second.append third) := by
  simp [TopLevelNode.append]

@[simp] theorem TopLevelNode.append_empty (node : TopLevelNode) :
    node.append ⟨[], [], []⟩ = node := by
  simp [TopLevelNode.append]

@[simp] theorem TopLevelNode.empty_append (node : TopLevelNode) :
    TopLevelNode.append ⟨[], [], []⟩ node = node := rfl

/-- The multimap of nodes by the texts of their names. -/
def nodesByName {Node : Type} (name : Node → Option IdentifierToken)
    (nodes : List Node) : Except ConfigFault (Multimap Bytes Node) :=
  nodes.foldlM (fun map node => do
    return map.insert ((← deref (name node)).text, node)) []

/-- The map that the constructor of a `struct_node` fills. -/
def getPropertiesByName (properties : List PropertyNode) :
    Except ConfigFault (Multimap Bytes PropertyNode) :=
  nodesByName PropertyNodeOf.key properties

/-! The trees whose accessors meet no null pointer. -/

inductive ValueNode.Complete : ValueNode → Prop
  | integer (tok : IntegerLiteralToken) : Complete (.integer (some tok))
  | string (tok : StringLiteralToken) : Complete (.string (some tok))
  | boolean (tok : Token) (value : Bool) :
      Complete (.boolean (some tok) value)
  | pseudoIdentifier (tok : IdentifierToken) :
      Complete (.pseudoIdentifier (some tok))
  | struct (tag : IdentifierToken) {properties : List PropertyNode}
      (tokens : ∀ property ∈ properties,
        property.key.isSome ∧ property.eq.isSome)
      (values : ∀ property ∈ properties, ∀ value,
        property.value = some value → Complete value) :
      Complete (.struct (some tag) properties)

structure PropertyNodeOf.Complete (node : PropertyNode) : Prop where
  key : node.key.isSome
  eq : node.eq.isSome
  value : ∀ value, node.value = some value → value.Complete

structure TaskNode.Complete (node : TaskNode) : Prop where
  name : node.name.isSome
  value : ∀ value, node.value = some value → value.Complete

structure DependencyNode.Complete (node : DependencyNode) : Prop where
  dependant : node.dependant.isSome
  dependencies : ∀ dependency ∈ node.dependencies, dependency.isSome

structure RunLevelNode.Complete (node : RunLevelNode) : Prop where
  name : node.name.isSome
  dependencies : ∀ dependency ∈ node.dependencies, dependency.isSome

structure TopLevelNode.Complete (node : TopLevelNode) : Prop where
  tasks : ∀ task ∈ node.tasks, task.Complete
  dependenciesDecls : ∀ decl ∈ node.dependenciesDecls, decl.Complete
  runLevels : ∀ runLevel ∈ node.runLevels, runLevel.Complete

/-- Complete but for the names of run levels. -/
structure TopLevelNode.CompleteButNames (node : TopLevelNode) : Prop where
  tasks : ∀ task ∈ node.tasks, task.Complete
  dependenciesDecls : ∀ decl ∈ node.dependenciesDecls, decl.Complete
  dependencies : ∀ runLevel ∈ node.runLevels,
    ∀ dependency ∈ runLevel.dependencies, dependency.isSome

def TopLevelNode.Named (node : TopLevelNode) : Prop :=
  ∀ runLevel ∈ node.runLevels, runLevel.name.isSome

theorem TopLevelNode.CompleteButNames.complete_iff {node : TopLevelNode}
    (complete : node.CompleteButNames) : node.Complete ↔ node.Named :=
  ⟨fun whole runLevel member => (whole.runLevels runLevel member).name,
    fun named => ⟨complete.tasks, complete.dependenciesDecls,
      fun runLevel member =>
        ⟨named runLevel member, complete.dependencies runLevel member⟩⟩⟩

theorem ValueNode.Complete.properties {tag : Option IdentifierToken}
    {properties : List PropertyNode}
    (complete : (ValueNode.struct tag properties).Complete) :
    tag.isSome ∧ ∀ property ∈ properties, property.Complete := by
  cases complete with
  | struct tag tokens values =>
      exact ⟨rfl, fun property member =>
        ⟨(tokens property member).1, (tokens property member).2,
          values property member⟩⟩

def nameText (name : Option IdentifierToken) : Option Bytes :=
  name.map IdentifierToken.text

/-- A multimap with the nodes in the order of their names, and of equal names
in the order of the nodes. -/
structure IndexedBy {Node : Type} (name : Node → Option IdentifierToken)
    (nodes : List Node) (map : Multimap Bytes Node) : Prop where
  ordered : map.Ordered
  key : ∀ element ∈ map, nameText (name element.2) = some element.1
  perm : (map.map Prod.snd).Perm nodes
  stable : ∀ text, (map.filter (·.1 = text)).map Prod.snd =
    nodes.filter fun node => nameText (name node) = some text

section NodesByName

variable {Node : Type} {name : Node → Option IdentifierToken}
  {nodes : List Node} {map : Multimap Bytes Node}

theorem IndexedBy.insert (indexed : IndexedBy name nodes map) {node : Node}
    {token : IdentifierToken} (named : name node = some token) :
    IndexedBy name (nodes ++ [node]) (map.insert (token.text, node)) where
  ordered := indexed.ordered.insert
  key element member := by
    cases Multimap.mem_insert.mp member with
    | inl new => simp [new, named, nameText]
    | inr old => exact indexed.key element old
  perm := by
    have grown := (Multimap.insert_perm (token.text, node) map).map Prod.snd
    exact grown.trans ((indexed.perm.cons node).trans
      (List.perm_append_singleton node nodes).symm)
  stable text := by
    rw [Multimap.filter_insert indexed.ordered, List.map_append,
      indexed.stable, List.filter_append]
    by_cases same : token.text = text
    · simp [same, named, nameText]
    · simp [same, named, nameText]

theorem nodesByName_indexed (named : ∀ node ∈ nodes, (name node).isSome) :
    ∃ map, nodesByName name nodes = .ok map ∧ IndexedBy name nodes map := by
  have fold : ∀ (later seen : List Node) (map : Multimap Bytes Node),
      (∀ node ∈ later, (name node).isSome) → IndexedBy name seen map →
      ∃ map', later.foldlM (fun map node => do
          return map.insert ((← deref (name node)).text, node)) map =
          .ok map' ∧
        IndexedBy name (seen ++ later) map' := by
    intro later
    induction later with
    | nil =>
        intro seen map _ indexed
        exact ⟨map, rfl, by rwa [List.append_nil]⟩
    | cons node later induction =>
        intro seen map among indexed
        obtain ⟨here, others⟩ := List.forall_mem_cons.mp among
        obtain ⟨token, found⟩ := Option.isSome_iff_exists.mp here
        rw [List.foldlM_cons, found, List.append_cons]
        exact induction _ _ others (indexed.insert found)
  exact fold nodes [] [] named ⟨.nil, List.forall_mem_nil _, .nil, fun _ => rfl⟩

theorem IndexedBy.mem (indexed : IndexedBy name nodes map)
    {element : Bytes × Node} (member : element ∈ map) : element.2 ∈ nodes :=
  indexed.perm.subset (List.mem_map_of_mem member)

theorem IndexedBy.find (indexed : IndexedBy name nodes map) (text : Bytes) :
    (map.find text).map Prod.snd =
      nodes.find? fun node => nameText (name node) = some text := by
  rw [Multimap.find, ← List.head?_filter, ← List.head?_filter,
    ← indexed.stable, List.head?_map]

end NodesByName

theorem nodesByName_returns {Node : Type}
    {name : Node → Option IdentifierToken} {nodes : List Node}
    (named : ∀ node ∈ nodes, (name node).isSome) :
    ∃ map, nodesByName name nodes = .ok map ∧
      ∀ element ∈ map, element.2 ∈ nodes := by
  obtain ⟨map, filled, indexed⟩ := nodesByName_indexed named
  exact ⟨map, filled, fun element member => indexed.mem member⟩

theorem getPropertiesByName_returns {properties : List PropertyNode}
    (complete : ∀ property ∈ properties, property.Complete) :
    ∃ map, getPropertiesByName properties = .ok map ∧
      ∀ element ∈ map, element.2.Complete := by
  obtain ⟨map, filled, among⟩ := nodesByName_returns
    fun property member => (complete property member).key
  exact ⟨map, filled, fun element member =>
    complete element.2 (among element member)⟩

end Initd
