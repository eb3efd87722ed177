import Initd.Parser.Node

namespace Initd.Grammar

/-! The grammar of a configuration over tokens, with the tree of each
derivation. -/

mutual

inductive Value : List Token → ValueNode → Prop
  | int (lit : IntegerLiteralToken) : Value [lit.toToken] (.integer (some lit))
  | string (lit : StringLiteralToken) : Value [lit.toToken] (.string (some lit))
  | true {kw : Token} (keyword : kw.getType = .trueKeyword) :
      Value [kw] (.boolean (some kw) true)
  | false {kw : Token} (keyword : kw.getType = .falseKeyword) :
      Value [kw] (.boolean (some kw) false)
  | id (tag : IdentifierToken) :
      Value [tag.toToken] (.pseudoIdentifier (some tag))
  | struct (tag : IdentifierToken) {lbrace rbrace : Token}
      {inside : List Token} {properties : List PropertyNode}
      (opens : lbrace.getType = .lbrace) (props : Properties inside properties)
      (closes : rbrace.getType = .rbrace) :
      Value (tag.toToken :: lbrace :: (inside ++ [rbrace]))
        (.struct (some tag) properties)

/-- What may stand between the braces of a struct. -/
inductive Properties : List Token → List PropertyNode → Prop
  | empty : Properties [] []
  | list {word : List Token} {properties : List PropertyNode}
      (list : PropertyList word properties) : Properties word properties
  | trailing {word : List Token} {comma : Token}
      {properties : List PropertyNode} (list : PropertyList word properties)
      (separates : comma.getType = .comma) :
      Properties (word ++ [comma]) properties

inductive PropertyList : List Token → List PropertyNode → Prop
  | last {word : List Token} {property : PropertyNode}
      (prop : Property word property) : PropertyList word [property]
  | cons {word more : List Token} {comma : Token} {property : PropertyNode}
      {properties : List PropertyNode} (prop : Property word property)
      (separates : comma.getType = .comma) (list : PropertyList more properties) :
      PropertyList (word ++ comma :: more) (property :: properties)

inductive Property : List Token → PropertyNode → Prop
  | intro (key : IdentifierToken) {eq : Token} {word : List Token}
      {value : ValueNode} (equals : eq.getType = .equals)
      (denotes : Value word value) :
      Property (key.toToken :: eq :: word) ⟨some key, some eq, some value⟩

end

inductive Ids : List Token → List (Option IdentifierToken) → Prop
  | last (id : IdentifierToken) : Ids [id.toToken] [some id]
  | cons (id : IdentifierToken) {comma : Token} {more : List Token}
      {ids : List (Option IdentifierToken)}
      (separates : comma.getType = .comma) (list : Ids more ids) :
      Ids (id.toToken :: comma :: more) (some id :: ids)

inductive Task : List Token → TaskNode → Prop
  | intro {task : Token} (name : IdentifierToken) {eq semicolon : Token}
      {word : List Token} {value : ValueNode}
      (keyword : task.getType = .taskKeyword) (equals : eq.getType = .equals)
      (denotes : Value word value) (ends : semicolon.getType = .semicolon) :
      Task (task :: name.toToken :: eq :: (word ++ [semicolon]))
        ⟨some name, some value⟩

inductive Dep : List Token → DependencyNode → Prop
  | intro (name : IdentifierToken) {depends semicolon : Token}
      {word : List Token} {ids : List (Option IdentifierToken)}
      (keyword : depends.getType = .dependsKeyword) (list : Ids word ids)
      (ends : semicolon.getType = .semicolon) :
      Dep (name.toToken :: depends :: (word ++ [semicolon])) ⟨some name, ids⟩

inductive Level : List Token → RunLevelNode → Prop
  | intro {runLevel : Token} (name : IdentifierToken)
      {colon semicolon : Token} {word : List Token}
      {ids : List (Option IdentifierToken)}
      (keyword : runLevel.getType = .runLevelKeyword)
      (separates : colon.getType = .colon) (list : Ids word ids)
      (ends : semicolon.getType = .semicolon) :
      Level (runLevel :: name.toToken :: colon :: (word ++ [semicolon]))
        ⟨some name, ids⟩

inductive File : List Token → TopLevelNode → Prop
  | empty : File [] ⟨[], [], []⟩
  | task {word more : List Token} {node : TaskNode} {tree : TopLevelNode}
      (task : Task word node) (rest : File more tree) :
      File (word ++ more) { tree with tasks := node :: tree.tasks }
  | dep {word more : List Token} {node : DependencyNode} {tree : TopLevelNode}
      (dep : Dep word node) (rest : File more tree) :
      File (word ++ more)
        { tree with dependenciesDecls := node :: tree.dependenciesDecls }
  | level {word more : List Token} {node : RunLevelNode} {tree : TopLevelNode}
      (level : Level word node) (rest : File more tree) :
      File (word ++ more) { tree with runLevels := node :: tree.runLevels }

theorem Properties.cons {word more : List Token} {comma : Token}
    {property : PropertyNode} {properties : List PropertyNode}
    (prop : Property word property) (separates : comma.getType = .comma)
    (props : Properties more properties) :
    Properties (word ++ comma :: more) (property :: properties) := by
  cases props with
  | empty => exact .trailing (.last prop) separates
  | list list => exact .list (.cons prop separates list)
  | @trailing word' comma' _ list separates' =>
      have trailing := Properties.trailing (.cons prop separates list) separates'
      simpa using trailing

theorem Property.head {word : List Token} {property : PropertyNode}
    (prop : Property word property) :
    ∃ (key : IdentifierToken) (more : List Token), word = key.toToken :: more := by
  cases prop with
  | intro key equals denotes => exact ⟨key, _, rfl⟩

theorem Task.head {word : List Token} {node : TaskNode}
    (task : Task word node) :
    ∃ token more, word = token :: more ∧ token.getType = .taskKeyword := by
  cases task with
  | intro name keyword equals denotes ends => exact ⟨_, _, rfl, keyword⟩

theorem Dep.head {word : List Token} {node : DependencyNode}
    (dep : Dep word node) :
    ∃ token more, word = token :: more ∧ token.getType = .identifier := by
  cases dep with
  | intro name keyword list ends => exact ⟨_, _, rfl, name.getType_toToken⟩

theorem Level.head {word : List Token} {node : RunLevelNode}
    (level : Level word node) :
    ∃ token more, word = token :: more ∧ token.getType = .runLevelKeyword := by
  cases level with
  | intro name keyword separates list ends => exact ⟨_, _, rfl, keyword⟩

/-- A list of properties is empty, a last property, or a property and a comma
before another list. -/
theorem Properties.uncons {word : List Token} {properties : List PropertyNode}
    (props : Properties word properties) :
    word = [] ∧ properties = [] ∨
      (∃ property, Property word property ∧ properties = [property]) ∨
      ∃ first comma more property rest, Property first property ∧
        comma.getType = .comma ∧ Properties more rest ∧
        word = first ++ comma :: more ∧ properties = property :: rest := by
  cases props with
  | empty => exact .inl ⟨rfl, rfl⟩
  | list list =>
      cases list with
      | last prop => exact .inr (.inl ⟨_, prop, rfl⟩)
      | cons prop separates list =>
          exact .inr (.inr ⟨_, _, _, _, _, prop, separates, .list list, rfl, rfl⟩)
  | trailing list separates =>
      refine .inr (.inr ?_)
      cases list with
      | last prop => exact ⟨_, _, _, _, _, prop, separates, .empty, rfl, rfl⟩
      | cons prop separates' list =>
          refine ⟨_, _, _, _, _, prop, separates', .trailing list separates,
            ?_, rfl⟩
          rw [List.append_assoc, List.cons_append]

end Initd.Grammar
