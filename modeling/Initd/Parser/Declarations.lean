import Initd.Parser.Recovery

namespace Initd.Parser

open Library ParserContext TokenTraits

/-! What the parser does with each declaration and with a whole file. -/

variable {text : Bytes} {context : ParserContext}

theorem takes_token {token : Token} {rest : List Token}
    (tokens : context.tokens = token :: rest) :
    context.Takes [token] { context with tokens := rest } := by
  rw [Takes, List.singleton_append, ← tokens]

/-! Tasks. -/

structure TaskParsed (text : Bytes) (context : ParserContext)
    (task : Option TaskNode) (final : ParserContext) : Prop where
  moves : Moves text context final
  shorter : final.tokens.length < context.tokens.length
  placed : ∀ known, context.Known known →
    ∀ node, task = some node → node.Placed known
  accepted : final.Clean → ∃ word node, task = some node ∧
    context.Takes word final ∧ Grammar.Task word node
  named : NamedFrom ⟨0, .outside⟩ context.tokens ↔
    NamedFrom ⟨0, .outside⟩ final.tokens

theorem parsed_task {keyword : Token} {rest : List Token}
    {name : Option IdentifierToken} {eq semicolon : Option Token}
    {value : Option ValueNode}
    {afterName afterEq afterValue final : ParserContext}
    (tokens : context.tokens = keyword :: rest)
    (type : keyword.getType = .taskKeyword)
    (named : Expected text identifier { context with tokens := rest } name
      afterName)
    (equal : Expected text equals afterName eq afterEq)
    (valued : ValueParsed text afterEq value afterValue)
    (ended : Expected text TokenTraits.semicolon afterValue semicolon final) :
    TaskParsed text context
      (if name.isNone || eq.isNone then none else some ⟨name, value⟩)
      final where
  moves := (Moves.read tokens).trans
    (((named.moves.trans equal.moves).trans valued.moves).trans ended.moves)
  shorter := Moves.shorter tokens
    (((named.moves.trans equal.moves).trans valued.moves).trans ended.moves)
  placed known held node same := by
    cases name with
    | none => contradiction
    | some name =>
        cases eq with
        | none => contradiction
        | some eq =>
            obtain rfl := Option.some.inj same
            have left := held.tail tokens
            have before := (named.moves.trans equal.moves).known left
            exact ⟨⟨name, rfl, named.placed_identifier left name rfl⟩,
              valued.placed known before⟩
  accepted clean := by
    obtain ⟨semicolon, _, -, fifth, ends⟩ := ended.accepted clean
    obtain ⟨word, node, rfl, fourth, grammar⟩ :=
      valued.accepted (fifth.clean clean)
    obtain ⟨eq, _, rfl, third, equals⟩ :=
      equal.accepted (fourth.clean (fifth.clean clean))
    obtain ⟨_, name, rfl, second, cast⟩ :=
      named.accepted (third.clean (fourth.clean (fifth.clean clean)))
    obtain rfl := cast_identifier.mp cast
    have takes := (takes_token tokens).trans
      (second.trans (third.trans (fourth.trans fifth)))
    exact ⟨_, _, rfl, takes, .intro name type (cast_ofType.mp equals).2 grammar
      (cast_ofType.mp ends).2⟩
  named := by
    rw [← ended.named_plain (by simp), ← valued.named, ← equal.named_equals,
      ← named.named_name, tokens, NamedFrom.cons (by rw [type]; decide), type]
    rfl

theorem parseTask_ensures {keyword : Token} {rest : List Token}
    (tokens : context.tokens = keyword :: rest)
    (type : keyword.getType = .taskKeyword) :
    Ensures (parseTask text) context (TaskParsed text context) := by
  rw [parseTask]
  apply Ensures.bind_eq (assertToken_ensures tokens (cast_ofType.mpr ⟨rfl, type⟩))
  apply Ensures.bind (expectToken_ensures _ _)
  intro name afterName named
  apply Ensures.bind (expectToken_ensures _ _)
  intro eq afterEq equal
  apply Ensures.bind_eq Ensures.get
  apply Ensures.bind (parseValue_ensures (Nat.lt_succ_self _))
  intro value afterValue valued
  apply Ensures.bind (expectToken_ensures _ _)
  intro semicolon final ended
  have parsed := parsed_task tokens type named equal valued ended
  split
  · next missing =>
      rw [if_pos missing] at parsed
      exact Ensures.pure parsed
  · next present =>
      rw [if_neg present] at parsed
      exact Ensures.pure parsed

/-! Dependency declarations and run levels. -/

theorem dependencies_ensures {Node : Type}
    (node : List (Option IdentifierToken) → Node) :
    Ensures (do
      let dependencies ←
        parseDependencies text ((← get).tokens.length + 1) []
      let _ ← expectToken text semicolon
      return node dependencies) context fun result final =>
        ∃ dependencies, result = node dependencies ∧
          Moves text context final ∧
          (∀ known, context.Known known → PlacedNames known dependencies) ∧
          (final.Clean → ∃ word end', context.Takes (word ++ [end']) final ∧
            Grammar.Ids word dependencies ∧ end'.getType = .semicolon) ∧
          (NamedFrom ⟨0, .outside⟩ context.tokens ↔
            NamedFrom ⟨0, .outside⟩ final.tokens) := by
  apply Ensures.bind_eq Ensures.get
  apply Ensures.bind (parseDependencies_ensures _ _ _ (Nat.lt_succ_self _))
  intro dependencies middle parsed
  apply Ensures.bind (expectToken_ensures _ _)
  intro semicolon final ended
  refine Ensures.pure ⟨dependencies, rfl, parsed.moves.trans ended.moves,
    fun known held => parsed.placed known held (List.forall_mem_nil _),
    fun clean => ?_, parsed.named.trans (ended.named_plain (by simp))⟩
  obtain ⟨token, _, -, last, cast⟩ := ended.accepted clean
  obtain ⟨word, ids, rfl, first, grammar⟩ := parsed.accepted (last.clean clean)
  exact ⟨word, token, first.trans last, grammar, (cast_ofType.mp cast).2⟩

structure DependencyParsed (text : Bytes) (context : ParserContext)
    (node : DependencyNode) (final : ParserContext) : Prop where
  moves : Moves text context final
  shorter : final.tokens.length < context.tokens.length
  placed : ∀ known, context.Known known → node.Placed known
  accepted : final.Clean → ∃ word, context.Takes word final ∧
    Grammar.Dep word node
  named : NamedFrom ⟨0, .outside⟩ context.tokens ↔
    NamedFrom ⟨0, .outside⟩ final.tokens

theorem parseDependenciesDeclaration_ensures {name : IdentifierToken}
    {rest : List Token} (tokens : context.tokens = name.toToken :: rest) :
    Ensures (parseDependenciesDeclaration text) context
      (DependencyParsed text context) := by
  rw [parseDependenciesDeclaration]
  apply Ensures.bind_eq (assertToken_ensures tokens (cast_identifier.mpr rfl))
  apply Ensures.bind (expectToken_ensures _ _)
  intro keyword afterKeyword expected
  apply (dependencies_ensures _).mono
  rintro _ final ⟨dependencies, rfl, moves, placed, accepted, named⟩
  have later := expected.moves.trans moves
  refine ⟨(Moves.read tokens).trans later, Moves.shorter tokens later,
    fun known held => ⟨⟨name, rfl, held.head tokens⟩,
      placed known (expected.moves.known (held.tail tokens))⟩,
    fun clean => ?_, ?_⟩
  · obtain ⟨word, semicolon, last, grammar, ends⟩ := accepted clean
    obtain ⟨depends, _, -, middle, cast⟩ := expected.accepted (last.clean clean)
    exact ⟨_, (takes_token tokens).trans (middle.trans last),
      .intro name (cast_ofType.mp cast).2 grammar ends⟩
  · rw [← named, ← expected.named_plain (by simp), tokens,
      NamedFrom.cons (by simp)]
    rfl

structure RunLevelParsed (text : Bytes) (context : ParserContext)
    (node : RunLevelNode) (final : ParserContext) : Prop where
  moves : Moves text context final
  shorter : final.tokens.length < context.tokens.length
  placed : ∀ known, context.Known known → node.Placed known
  accepted : final.Clean → ∃ word, context.Takes word final ∧
    Grammar.Level word node
  named : NamedFrom ⟨0, .outside⟩ context.tokens ↔
    node.name.isSome ∧ NamedFrom ⟨0, .outside⟩ final.tokens

/-- The name of a run level is there exactly if an identifier comes first. -/
theorem Expected.isSome_iff {result : Option IdentifierToken}
    {final : ParserContext}
    (expected : Expected text identifier context result final) :
    result.isSome ↔ StartsWithIdentifier context.tokens := by
  cases expected with
  | found tokens cast =>
      rw [tokens, cast_identifier.mp cast]
      exact iff_of_true rfl rfl
  | missing message absent =>
      refine iff_of_false (by simp) fun starts => ?_
      obtain ⟨token, first, type⟩ := Option.map_eq_some_iff.mp starts
      exact cast_identifier_none.mp (absent token first) type

theorem parseRunLevel_ensures {keyword : Token} {rest : List Token}
    (tokens : context.tokens = keyword :: rest)
    (type : keyword.getType = .runLevelKeyword) :
    Ensures (parseRunLevel text) context (RunLevelParsed text context) := by
  rw [parseRunLevel]
  apply Ensures.bind_eq (assertToken_ensures tokens (cast_ofType.mpr ⟨rfl, type⟩))
  apply Ensures.bind (expectToken_ensures _ _)
  intro name afterName first
  apply Ensures.bind (expectToken_ensures _ _)
  intro colon afterColon second
  apply (dependencies_ensures _).mono
  rintro _ final ⟨dependencies, rfl, moves, placed, accepted, named⟩
  have before := first.moves.trans second.moves
  have later := before.trans moves
  refine ⟨(Moves.read tokens).trans later, Moves.shorter tokens later,
    fun known held => ⟨first.placed_identifier (held.tail tokens),
      placed known (before.known (held.tail tokens))⟩,
    fun clean => ?_, ?_⟩
  · obtain ⟨word, semicolon, last, grammar, ends⟩ := accepted clean
    obtain ⟨colon, _, -, third, separates⟩ :=
      second.accepted (last.clean clean)
    obtain ⟨_, name, rfl, after, cast⟩ :=
      first.accepted (third.clean (last.clean clean))
    obtain rfl := cast_identifier.mp cast
    exact ⟨_, (takes_token tokens).trans (after.trans (third.trans last)),
      .intro name type (cast_ofType.mp separates).2 grammar ends⟩
  · rw [← named, ← second.named_plain (by simp), ← first.named_id,
      first.isSome_iff, tokens, NamedFrom, type]
    exact ⟨fun both => ⟨both.1 rfl rfl, both.2⟩,
      fun both => ⟨fun _ _ => both.1, both.2⟩⟩

/-! The loop over the declarations. -/

structure FileParsed (text : Bytes) (context : ParserContext)
    (start node : TopLevelNode) (final : ParserContext) : Prop where
  moves : Moves text context final
  placed : ∀ known, context.Known known → start.Placed known →
    node.Placed known
  accepted : final.Clean → ∃ word tree, node = start.append tree ∧
    context.Takes word final ∧ Grammar.File word tree
  ends : final.tokens = []
  named : node.Named ↔ start.Named ∧ NamedFrom ⟨0, .outside⟩ context.tokens

section Declarations

variable {start node : TopLevelNode} {middle final : ParserContext}

theorem parsed_end (start : TopLevelNode) (ends : context.tokens = []) :
    FileParsed text context start start context where
  moves := .refl
  placed _ _ held := held
  accepted _ := by
    refine ⟨[], ⟨[], [], []⟩, ?_, .refl context, .empty⟩
    simp [TopLevelNode.append]
  ends := ends
  named := by
    rw [ends]
    exact (and_iff_left trivial).symm

theorem parsed_taskDeclaration {task : Option TaskNode}
    (parsed : TaskParsed text context task middle)
    (more : FileParsed text middle
      { start with tasks := start.tasks ++ task.toList } node final) :
    FileParsed text context start node final where
  moves := parsed.moves.trans more.moves
  placed known tokens held := by
    refine more.placed known (parsed.moves.known tokens)
      { held with tasks := fun node member => ?_ }
    cases List.mem_append.mp member with
    | inl old => exact held.tasks node old
    | inr new => exact parsed.placed known tokens node (Option.mem_toList.mp new)
  accepted clean := by
    obtain ⟨word, tree, rfl, later, rest⟩ := more.accepted clean
    obtain ⟨first, task, rfl, takes, grammar⟩ :=
      parsed.accepted (later.clean clean)
    refine ⟨_, _, ?_, takes.trans later, .task grammar rest⟩
    simp [TopLevelNode.append]
  ends := more.ends
  named := by
    rw [more.named, parsed.named]
    exact Iff.rfl

theorem parsed_dependencyDeclaration {decl : DependencyNode}
    (parsed : DependencyParsed text context decl middle)
    (more : FileParsed text middle
      { start with dependenciesDecls := start.dependenciesDecls ++ [decl] }
      node final) :
    FileParsed text context start node final where
  moves := parsed.moves.trans more.moves
  placed known tokens held := by
    refine more.placed known (parsed.moves.known tokens)
      { held with dependenciesDecls := fun node member => ?_ }
    cases List.mem_append.mp member with
    | inl old => exact held.dependenciesDecls node old
    | inr new => exact List.mem_singleton.mp new ▸ parsed.placed known tokens
  accepted clean := by
    obtain ⟨word, tree, rfl, later, rest⟩ := more.accepted clean
    obtain ⟨first, takes, grammar⟩ := parsed.accepted (later.clean clean)
    refine ⟨_, _, ?_, takes.trans later, .dep grammar rest⟩
    simp [TopLevelNode.append]
  ends := more.ends
  named := by
    rw [more.named, parsed.named]
    exact Iff.rfl

theorem parsed_runLevelDeclaration {level : RunLevelNode}
    (parsed : RunLevelParsed text context level middle)
    (more : FileParsed text middle
      { start with runLevels := start.runLevels ++ [level] } node final) :
    FileParsed text context start node final where
  moves := parsed.moves.trans more.moves
  placed known tokens held := by
    refine more.placed known (parsed.moves.known tokens)
      { held with runLevels := fun node member => ?_ }
    cases List.mem_append.mp member with
    | inl old => exact held.runLevels node old
    | inr new => exact List.mem_singleton.mp new ▸ parsed.placed known tokens
  accepted clean := by
    obtain ⟨word, tree, rfl, later, rest⟩ := more.accepted clean
    obtain ⟨first, takes, grammar⟩ := parsed.accepted (later.clean clean)
    refine ⟨_, _, ?_, takes.trans later, .level grammar rest⟩
    simp [TopLevelNode.append]
  ends := more.ends
  named := by
    have last : TopLevelNode.Named
        { start with runLevels := start.runLevels ++ [level] } ↔
          start.Named ∧ level.name.isSome := by
      simp [TopLevelNode.Named, or_imp, forall_and]
    rw [more.named, parsed.named, last, and_assoc]

theorem parsed_noDeclaration {token : Token} {rest : List Token}
    (tokens : context.tokens = token :: rest) (message : String)
    (noTask : token.getType ≠ .taskKeyword)
    (noRunLevel : token.getType ≠ .runLevelKeyword)
    (more : FileParsed text
      { context.pushError text message with tokens := rest } start node final) :
    FileParsed text context start node final where
  moves := (Moves.skip tokens message).trans more.moves
  placed known held := more.placed known ((Moves.skip tokens message).known held)
  accepted clean := by
    obtain ⟨_, _, -, takes, -⟩ := more.accepted clean
    exact absurd (takes.clean clean) (pushError_not_clean message)
  ends := more.ends
  named := by
    rw [more.named, tokens, NamedFrom.cons noRunLevel, Outline.step,
      Outline.skip, if_neg noTask]

end Declarations

theorem parseDeclarations_ensures : ∀ (fuel : Nat) (context : ParserContext)
    (start : TopLevelNode), context.tokens.length < fuel →
      Ensures (parseDeclarations text fuel start) context
        (FileParsed text context start) := by
  intro fuel
  induction fuel with
  | zero => exact fun _ _ enough => absurd enough (Nat.not_lt_zero _)
  | succ fuel induction =>
      intro context start enough
      rw [parseDeclarations]
      apply Ensures.bind tt_ensures
      rintro type _ ⟨rfl, next⟩
      split
      · next eof =>
          exact Ensures.pure (parsed_end start (nextType_eof (next ▸ eof)))
      split
      · next same =>
          obtain ⟨_, rest, tokens, type⟩ :=
            exists_next (next ▸ same) (by decide)
          apply Ensures.bind (parseTask_ensures tokens type)
          intro task middle parsed
          have shorter := parsed.shorter
          apply (induction _ _ (by omega)).mono
          exact fun _ _ more => parsed_taskDeclaration parsed more
      split
      · next same =>
          obtain ⟨_, rest, tokens, type⟩ :=
            exists_next (next ▸ same) (by decide)
          obtain ⟨name, rfl⟩ := Token.exists_identifier type
          apply Ensures.bind (parseDependenciesDeclaration_ensures tokens)
          intro decl middle parsed
          have shorter := parsed.shorter
          apply (induction _ _ (by omega)).mono
          exact fun _ _ more => parsed_dependencyDeclaration parsed more
      split
      · next same =>
          obtain ⟨_, rest, tokens, type⟩ :=
            exists_next (next ▸ same) (by decide)
          apply Ensures.bind (parseRunLevel_ensures tokens type)
          intro level middle parsed
          have shorter := parsed.shorter
          apply (induction _ _ (by omega)).mono
          exact fun _ _ more => parsed_runLevelDeclaration parsed more
      · next noEof noTask _ noRunLevel =>
          rw [next] at noEof noTask noRunLevel
          obtain ⟨token, rest, tokens, type⟩ := exists_next rfl noEof
          apply Ensures.bind (error_ensures _)
          rintro _ _ rfl
          apply Ensures.bind_eq
            (readToken_ensures (by rw [pushError_tokens, tokens]))
          rw [tokens] at enough
          apply (induction _ _ (Nat.lt_of_succ_lt_succ enough)).mono
          exact fun _ _ more => parsed_noDeclaration tokens _ (type ▸ noTask)
            (type ▸ noRunLevel) more

theorem parseFile_ran {tokens : List Token} {tree : TopLevelNode}
    {final : ParserContext}
    (ran : parseDeclarations text (tokens.length + 1) ⟨[], [], []⟩
      ⟨tokens, none, []⟩ = .ok (tree, final)) :
    parseFile text tokens = .ok (tree, final.errors) := by
  rw [parseFile, ran]
  rfl

/-- On any tokens the parser returns a tree whose tokens are among them, and
which has the names of run levels exactly where the tokens name them.  It is
silent only on a word of the grammar, whose tree it returns. -/
theorem parseFile_placed (text : Bytes) (tokens : List Token) :
    ∃ tree final, parseFile text tokens = .ok (tree, final.errors) ∧
      Moves text ⟨tokens, none, []⟩ final ∧
      (∀ known : TextRange → Prop, (∀ token ∈ tokens, known token.range) →
        tree.Placed known) ∧
      (tree.Named ↔ RunLevelsNamed tokens) ∧
      (final.errors = [] → Grammar.File tokens tree) := by
  have returns : Ensures (parseDeclarations text (tokens.length + 1) ⟨[], [], []⟩)
      ⟨tokens, none, []⟩ _ :=
    parseDeclarations_ensures _ _ _ (Nat.lt_succ_self _)
  obtain ⟨tree, final, ran, parsed⟩ := returns
  refine ⟨tree, final, parseFile_ran ran, parsed.moves, fun known held => ?_,
    ?_, ?_⟩
  · exact parsed.placed known held ⟨List.forall_mem_nil _,
      List.forall_mem_nil _, List.forall_mem_nil _⟩
  · rw [parsed.named]
    exact and_iff_right (List.forall_mem_nil _)
  · intro silent
    have honest := parsed.moves.honest (iff_of_true rfl rfl)
    obtain ⟨word, tree, rfl, takes, grammar⟩ :=
      parsed.accepted (honest.mpr silent)
    have same := congrArg ParserContext.tokens takes
    rw [parsed.ends, List.append_nil] at same
    obtain rfl : tokens = word := same
    exact grammar

theorem parseFile_returns (text : Bytes) (tokens : List Token) :
    ∃ tree errors, parseFile text tokens = .ok (tree, errors) ∧
      tree.CompleteButNames ∧ (tree.Named ↔ RunLevelsNamed tokens) ∧
      (errors = [] → Grammar.File tokens tree) := by
  obtain ⟨tree, final, ran, -, placed, named, grammar⟩ :=
    parseFile_placed text tokens
  exact ⟨tree, final.errors, ran,
    (placed (fun _ => True) fun _ _ => trivial).complete, named, grammar⟩

end Initd.Parser
