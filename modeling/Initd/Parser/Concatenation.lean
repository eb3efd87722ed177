import Initd.Library.Lockstep
import Initd.Parser.Acceptance

namespace Initd.Parser

open Library ParserContext

/-! The tree goes by the tokens alone, and that of a file that is read without
an error stands before that of any tokens after it. -/

variable {text text' : Bytes} {Value : Type}

/-- The text, the errors and the place of the last one do not count. -/
def SameTokens (context context' : ParserContext) : Prop :=
  context.tokens = context'.tokens

theorem tt_lockstep : Lockstep SameTokens tt tt := by
  intro context context' same
  refine .inl ⟨nextType context, context, context', tt_ran context, ?_, same⟩
  rw [tt_ran context', nextType, nextType, same]

theorem readToken_lockstep : Lockstep SameTokens readToken readToken := by
  refine Lockstep.get_bind fun context context' same => ?_
  rw [SameTokens] at same
  cases tokens : context'.tokens with
  | nil =>
      rw [same, tokens]
      exact .pure none
  | cons token rest =>
      rw [same, tokens]
      exact fun _ _ _ => .inl ⟨some token, _, _, rfl, rfl, rfl⟩

theorem error_lockstep (message : String) :
    Lockstep SameTokens (error text message) (error text' message) :=
  .modify fun context context' same => by
    rw [SameTokens, pushError_tokens, pushError_tokens]
    exact same

theorem expectToken_lockstep (traits : TokenTraits Value) (message : String) :
    Lockstep SameTokens (expectToken text traits message)
      (expectToken text' traits message) := by
  refine Lockstep.get_bind fun context context' same => ?_
  rw [SameTokens] at same
  rw [same]
  cases context'.tokens.head?.bind traits.cast with
  | none =>
      apply Lockstep.bind (error_lockstep message)
      exact fun _ => .pure none
  | some value =>
      apply Lockstep.bind readToken_lockstep
      exact fun _ => .pure (some value)

theorem assertToken_lockstep (traits : TokenTraits Value) :
    Lockstep SameTokens (assertToken traits) (assertToken traits) := by
  apply Lockstep.bind readToken_lockstep
  intro token
  apply Lockstep.bind (.lift (deref token))
  intro token
  cases traits.cast token with
  | none => exact .throw ConfigFault.assertion
  | some value => exact .pure (some value)

/-! Values. -/

theorem literal_lockstep (traits : TokenTraits Value)
    (node : Option Value → ValueNode) :
    Lockstep SameTokens
      (do
        let lit ← assertToken traits
        return some (node lit))
      (do
        let lit ← assertToken traits
        return some (node lit)) := by
  apply Lockstep.bind (assertToken_lockstep traits)
  exact fun lit => .pure (some (node lit))

section Values

variable {fuel : Nat}

theorem parseValue_lockstep_step
    (properties : ∀ start, Lockstep SameTokens (parseProperties text fuel start)
      (parseProperties text' fuel start)) :
    Lockstep SameTokens (parseValue text (fuel + 1))
      (parseValue text' (fuel + 1)) := by
  rw [parseValue, parseValue]
  apply Lockstep.bind tt_lockstep
  intro type
  apply Lockstep.ite
  · exact literal_lockstep _ _
  apply Lockstep.ite
  · exact literal_lockstep _ _
  apply Lockstep.ite
  · exact literal_lockstep _ (.boolean · true)
  apply Lockstep.ite
  · exact literal_lockstep _ (.boolean · false)
  apply Lockstep.ite
  · apply Lockstep.bind (expectToken_lockstep _ _)
    intro tag
    apply Lockstep.bind tt_lockstep
    intro next
    apply Lockstep.ite
    · exact .pure _
    apply Lockstep.bind (expectToken_lockstep _ _)
    intro lbrace
    apply Lockstep.ite
    · apply Lockstep.bind (properties [])
      intro properties
      apply Lockstep.bind (expectToken_lockstep _ _)
      intro rbrace
      apply Lockstep.bind (.lift _)
      exact fun _ => .pure _
    · exact .pure _
  · apply Lockstep.bind (error_lockstep _)
    exact fun _ => .pure _

theorem parseProperty_lockstep_step
    (values : Lockstep SameTokens (parseValue text fuel) (parseValue text' fuel)) :
    Lockstep SameTokens (parseProperty text (fuel + 1))
      (parseProperty text' (fuel + 1)) := by
  rw [parseProperty, parseProperty]
  apply Lockstep.bind (assertToken_lockstep _)
  intro key
  apply Lockstep.bind (expectToken_lockstep _ _)
  intro eq
  apply Lockstep.bind values
  intro value
  apply Lockstep.ite
  · exact .pure _
  · exact .pure _

theorem parseProperties_lockstep_step
    (property : Lockstep SameTokens (parseProperty text fuel)
      (parseProperty text' fuel))
    (properties : ∀ start, Lockstep SameTokens (parseProperties text fuel start)
      (parseProperties text' fuel start)) (start : List PropertyNode) :
    Lockstep SameTokens (parseProperties text (fuel + 1) start)
      (parseProperties text' (fuel + 1) start) := by
  rw [parseProperties, parseProperties]
  apply Lockstep.bind tt_lockstep
  intro type
  apply Lockstep.ite
  · exact .pure _
  apply Lockstep.ite
  · exact .pure _
  apply Lockstep.ite
  · apply Lockstep.bind property
    intro p
    apply Lockstep.bind tt_lockstep
    intro next
    apply Lockstep.ite
    · apply Lockstep.bind (expectToken_lockstep _ _)
      exact fun _ => properties _
    · exact properties _
  · apply Lockstep.bind (error_lockstep _)
    intro _
    apply Lockstep.bind readToken_lockstep
    exact fun _ => properties _

theorem parseValue_lockstep_all : ∀ fuel : Nat,
    Lockstep SameTokens (parseValue text fuel) (parseValue text' fuel) ∧
    Lockstep SameTokens (parseProperty text fuel) (parseProperty text' fuel) ∧
    ∀ start, Lockstep SameTokens (parseProperties text fuel start)
      (parseProperties text' fuel start) := by
  intro fuel
  induction fuel with
  | zero =>
      exact ⟨.throw ConfigFault.fuel, .throw ConfigFault.fuel,
        fun _ => .throw ConfigFault.fuel⟩
  | succ fuel induction =>
      obtain ⟨values, property, properties⟩ := induction
      exact ⟨parseValue_lockstep_step properties,
        parseProperty_lockstep_step values,
        parseProperties_lockstep_step property properties⟩

theorem parseValue_lockstep (text text' : Bytes) (fuel : Nat) :
    Lockstep SameTokens (parseValue text fuel) (parseValue text' fuel) :=
  (parseValue_lockstep_all fuel).1

end Values

/-! Declarations. -/

theorem parseTask_lockstep :
    Lockstep SameTokens (parseTask text) (parseTask text') := by
  apply Lockstep.bind (assertToken_lockstep _)
  intro keyword
  apply Lockstep.bind (expectToken_lockstep _ _)
  intro name
  apply Lockstep.bind (expectToken_lockstep _ _)
  intro eq
  apply Lockstep.get_bind
  intro context context' same
  rw [show context.tokens = context'.tokens from same]
  apply Lockstep.bind (parseValue_lockstep _ _ _)
  intro value
  apply Lockstep.bind (expectToken_lockstep _ _)
  intro semicolon
  apply Lockstep.ite
  · exact .pure _
  · exact .pure _

theorem parseDependencies_lockstep : ∀ (fuel : Nat)
    (start : List (Option IdentifierToken)),
    Lockstep SameTokens (parseDependencies text fuel start)
      (parseDependencies text' fuel start) := by
  intro fuel
  induction fuel with
  | zero => exact fun _ => .throw ConfigFault.fuel
  | succ fuel induction =>
      intro start
      rw [parseDependencies, parseDependencies]
      apply Lockstep.bind (expectToken_lockstep _ _)
      intro id
      apply Lockstep.bind tt_lockstep
      intro type
      apply Lockstep.ite
      · exact .pure _
      apply Lockstep.ite
      · exact .pure _
      apply Lockstep.ite
      · apply Lockstep.bind readToken_lockstep
        exact fun _ => induction _
      · exact .pure _

theorem dependencies_lockstep {Node : Type}
    (node : List (Option IdentifierToken) → Node) :
    Lockstep SameTokens
      (do
        let dependencies ←
          parseDependencies text ((← get).tokens.length + 1) []
        let _ ← expectToken text .semicolon
        return node dependencies)
      (do
        let dependencies ←
          parseDependencies text' ((← get).tokens.length + 1) []
        let _ ← expectToken text' .semicolon
        return node dependencies) := by
  apply Lockstep.get_bind
  intro context context' same
  rw [show context.tokens = context'.tokens from same]
  apply Lockstep.bind (parseDependencies_lockstep _ _)
  intro dependencies
  apply Lockstep.bind (expectToken_lockstep _ _)
  exact fun _ => .pure _

theorem parseDependenciesDeclaration_lockstep :
    Lockstep SameTokens (parseDependenciesDeclaration text)
      (parseDependenciesDeclaration text') := by
  apply Lockstep.bind (assertToken_lockstep _)
  intro name
  apply Lockstep.bind (expectToken_lockstep _ _)
  exact fun _ => dependencies_lockstep _

theorem parseRunLevel_lockstep :
    Lockstep SameTokens (parseRunLevel text) (parseRunLevel text') := by
  apply Lockstep.bind (assertToken_lockstep _)
  intro keyword
  apply Lockstep.bind (expectToken_lockstep _ _)
  intro name
  apply Lockstep.bind (expectToken_lockstep _ _)
  exact fun _ => dependencies_lockstep _

theorem parseDeclarations_lockstep : ∀ (fuel : Nat) (node : TopLevelNode),
    Lockstep SameTokens (parseDeclarations text fuel node)
      (parseDeclarations text' fuel node) := by
  intro fuel
  induction fuel with
  | zero => exact fun _ => .throw ConfigFault.fuel
  | succ fuel induction =>
      intro node
      rw [parseDeclarations, parseDeclarations]
      apply Lockstep.bind tt_lockstep
      intro type
      apply Lockstep.ite
      · exact .pure _
      apply Lockstep.ite
      · apply Lockstep.bind parseTask_lockstep
        exact fun _ => induction _
      apply Lockstep.ite
      · apply Lockstep.bind parseDependenciesDeclaration_lockstep
        exact fun _ => induction _
      apply Lockstep.ite
      · apply Lockstep.bind parseRunLevel_lockstep
        exact fun _ => induction _
      · apply Lockstep.bind (error_lockstep _)
        intro _
        apply Lockstep.bind readToken_lockstep
        exact fun _ => induction _

/-- The tree of a file is that of its tokens, wherever they stand. -/
theorem parseFile_tree {tokens : List Token} {tree : TopLevelNode}
    {errors : List ErrorTag} (parsed : parseFile text tokens = .ok (tree, errors))
    (text' : Bytes) : ∃ errors', parseFile text' tokens = .ok (tree, errors') := by
  obtain ⟨⟨tree', final, file, ran, -⟩, -⟩ := parseFile_terminates text tokens
  obtain ⟨rfl, -⟩ := Prod.mk.inj (Except.ok.inj (parsed.symm.trans file))
  have ran := ran _ (Nat.lt_succ_self _)
  obtain ⟨_, _, final', ran₁, ran₂, -⟩ | ⟨fault, fails, -⟩ :=
    parseDeclarations_lockstep (tokens.length + 1) ⟨[], [], []⟩
      ⟨tokens, none, []⟩ ⟨tokens, none, []⟩ rfl
  · obtain ⟨rfl, -⟩ := Prod.mk.inj (Except.ok.inj (ran.symm.trans ran₁))
    exact ⟨_, parseFile_ran ran₂⟩
  · rw [ran] at fails
    contradiction

theorem grammar_of_accepted {tokens : List Token} {tree : TopLevelNode}
    (accepted : parseFile text tokens = .ok (tree, [])) :
    Grammar.File tokens tree := by
  obtain ⟨tree', errors, parsed, -, -, silent⟩ := parseFile_returns text tokens
  obtain ⟨rfl, rfl⟩ := Prod.mk.inj (Except.ok.inj (accepted.symm.trans parsed))
  exact silent rfl

/-- The tree of a file that is read without an error, and of any tokens after
it, is its own tree and then theirs. -/
theorem parseFile_append {text text' text'' : Bytes} {tokens more : List Token}
    {tree : TopLevelNode} (accepted : parseFile text tokens = .ok (tree, [])) :
    ∃ others errors errors', parseFile text' more = .ok (others, errors) ∧
      parseFile text'' (tokens ++ more) =
        .ok (tree.append others, errors') := by
  obtain ⟨others, final, always⟩ :=
    parseDeclarations_appends text'' ⟨more, none, []⟩
  have parsed : parseFile text'' more = .ok (others, final.errors) :=
    parseFile_ran (always _ _ (Nat.lt_succ_self _))
  obtain ⟨errors, alone⟩ := parseFile_tree parsed text'
  have enough : more.length < (tokens ++ more).length + 1 := by
    rw [List.length_append]
    omega
  have both : parseDeclarations text'' ((tokens ++ more).length + 1)
      ⟨[], [], []⟩ ⟨tokens ++ more, none, []⟩ =
        .ok (tree.append others, final) :=
    calc parseDeclarations text'' ((tokens ++ more).length + 1) ⟨[], [], []⟩
          ⟨tokens ++ more, none, []⟩
        = parseDeclarations text'' ((tokens ++ more).length + 1) tree
            ⟨more, none, []⟩ :=
          parseDeclarations_before (grammar_of_accepted accepted) more _ rfl
            (Nat.lt_succ_self _)
      _ = .ok (tree.append others, final) := always _ _ enough
  exact ⟨others, errors, final.errors, alone, parseFile_ran both⟩

/-- A declaration before a task that is cut off. -/
theorem parseFile_append_task :
    ∃ depends semicolon task : Token, depends.getType = .dependsKeyword ∧
      semicolon.getType = .semicolon ∧ task.getType = .taskKeyword ∧
      ∃ others errors errors',
        parseFile (ascii "task") [task] = .ok (others, errors) ∧
        parseFile (ascii "a depends b; task")
          ([⟨⟨0, 1⟩, .identifier (ascii "a")⟩, depends,
            ⟨⟨10, 11⟩, .identifier (ascii "b")⟩, semicolon] ++ [task]) =
          .ok (TopLevelNode.append ⟨[], [⟨some ⟨⟨0, 1⟩, ascii "a"⟩,
            [some ⟨⟨10, 11⟩, ascii "b"⟩]⟩], []⟩ others, errors') := by
  have accepted : parseFile (ascii "a depends b;")
      [⟨⟨0, 1⟩, .identifier (ascii "a")⟩, ⟨⟨2, 9⟩, .simple .dependsKeyword rfl⟩,
        ⟨⟨10, 11⟩, .identifier (ascii "b")⟩, ⟨⟨11, 12⟩, .simple .semicolon rfl⟩] =
      .ok (⟨[], [⟨some ⟨⟨0, 1⟩, ascii "a"⟩,
        [some ⟨⟨10, 11⟩, ascii "b"⟩]⟩], []⟩, []) := rfl
  exact ⟨_, _, ⟨⟨0, 4⟩, .simple .taskKeyword rfl⟩, rfl, rfl, rfl,
    parseFile_append accepted⟩

end Initd.Parser
