import Initd.Parser.Rounds

namespace Initd.Parser

open Library ParserContext TokenTraits

/-! The parser reads every word of the grammar without an error. -/

variable {text : Bytes} {context : ParserContext} {Value : Type}

/-- The program returns a value and leaves these tokens, and nothing else. -/
def Reads (program : ParserM Value) (context : ParserContext) (value : Value)
    (rest : List Token) : Prop :=
  Ensures program context fun result final =>
    result = value ∧ final = { context with tokens := rest }

theorem expectToken_reads {traits : TokenTraits Value} {token : Token}
    {rest : List Token} {value : Value} (message : String)
    (tokens : context.tokens = token :: rest)
    (cast : traits.cast token = some value) :
    Reads (expectToken text traits message) context (some value) rest :=
  (expectToken_ensures traits message).mono
    fun _ _ expected => expected.eq_found tokens cast

theorem expectType_reads {type : TokenType} {errorMsg : String} {token : Token}
    {rest : List Token} (tokens : context.tokens = token :: rest)
    (same : token.getType = type) :
    Reads (expectToken text (ofType type errorMsg)) context (some token) rest :=
  expectToken_reads _ tokens (cast_ofType.mpr ⟨rfl, same⟩)

theorem tt_reads {type : TokenType} {token : Token} {rest : List Token}
    (tokens : context.tokens = token :: rest) (same : token.getType = type) :
    Ensures tt context fun type' final => type' = type ∧ final = context :=
  tt_ensures.mono fun type' final next => by
    rw [nextType, tokens] at next
    exact ⟨next.2.trans same, next.1⟩

/-! Values and properties. -/

section Values

variable {fuel : Nat} {word rest : List Token} {node : ValueNode}

/-- After this a value does not go on. -/
def NoBrace (rest : List Token) : Prop :=
  ∀ token ∈ rest.head?, token.getType ≠ .lbrace

theorem noBrace_cons {token : Token} (other : token.getType ≠ .lbrace) :
    NoBrace (token :: rest) := by
  intro token' first
  rwa [← Option.some.inj first]

theorem assertToken_reads {traits : TokenTraits Value} {token : Token}
    {value : Value} {result : Option Value → ValueNode}
    (tokens : context.tokens = token :: rest)
    (cast : traits.cast token = some value) :
    Reads (do
      let lit ← assertToken traits
      return some (result lit)) context (some (result (some value))) rest := by
  apply Ensures.bind_eq (assertToken_ensures tokens cast)
  exact Ensures.pure ⟨rfl, rfl⟩

/-! What the three parsers of values read with one fuel. -/

def ReadsValues (text : Bytes) (fuel : Nat) : Prop :=
  ∀ {context : ParserContext} {word rest : List Token} {node : ValueNode},
    Grammar.Value word node → NoBrace rest → context.tokens = word ++ rest →
      context.tokens.length < fuel →
        Reads (parseValue text fuel) context (some node) rest

def ReadsProperty (text : Bytes) (fuel : Nat) : Prop :=
  ∀ {context : ParserContext} {word rest : List Token}
    {property : PropertyNode}, Grammar.Property word property →
      NoBrace rest → context.tokens = word ++ rest →
        context.tokens.length < fuel →
          Reads (parseProperty text fuel) context (some property) rest

def ReadsProperties (text : Bytes) (fuel : Nat) : Prop :=
  ∀ {context : ParserContext} {word rest : List Token} {rbrace : Token}
    {new : List PropertyNode} (start : List PropertyNode),
      Grammar.Properties word new → rbrace.getType = .rbrace →
        context.tokens = word ++ rbrace :: rest →
          context.tokens.length + 1 < fuel →
            Reads (parseProperties text fuel start) context (start ++ new)
              (rbrace :: rest)

theorem parseValue_reads_step
    (properties : ReadsProperties text fuel)
    (value : Grammar.Value word node) (noBrace : NoBrace rest)
    (tokens : context.tokens = word ++ rest)
    (enough : context.tokens.length < fuel + 1) :
    Reads (parseValue text (fuel + 1)) context (some node) rest := by
  rw [parseValue]
  cases value with
  | int lit =>
      apply Ensures.bind_eq (tt_reads tokens lit.getType_toToken)
      simp only [if_true]
      exact assertToken_reads tokens (cast_integerLiteral.mpr rfl)
  | string lit =>
      apply Ensures.bind_eq (tt_reads tokens lit.getType_toToken)
      simp only [reduceCtorEq, if_false, if_true]
      exact assertToken_reads tokens (cast_stringLiteral.mpr rfl)
  | true keyword =>
      apply Ensures.bind_eq (tt_reads tokens keyword)
      simp only [reduceCtorEq, if_false, if_true]
      exact assertToken_reads tokens (cast_ofType.mpr ⟨rfl, keyword⟩)
  | false keyword =>
      apply Ensures.bind_eq (tt_reads tokens keyword)
      simp only [reduceCtorEq, if_false, if_true]
      exact assertToken_reads tokens (cast_ofType.mpr ⟨rfl, keyword⟩)
  | id tag =>
      apply Ensures.bind_eq (tt_reads tokens tag.getType_toToken)
      simp only [reduceCtorEq, if_false, if_true]
      apply Ensures.bind_eq
        (expectToken_reads _ tokens (cast_identifier.mpr rfl))
      apply Ensures.bind tt_ensures
      rintro type _ ⟨rfl, next⟩
      have other : type ≠ .lbrace := by
        rintro rfl
        obtain ⟨token, more, rfl, opens⟩ := exists_next next.symm (by decide)
        exact noBrace token rfl opens
      rw [if_pos other]
      exact Ensures.pure ⟨rfl, rfl⟩
  | @struct tag lbrace rbrace inside new opens props closes =>
      have left : context.tokens =
          tag.toToken :: lbrace :: (inside ++ rbrace :: rest) := by
        simpa using tokens
      apply Ensures.bind_eq (tt_reads left tag.getType_toToken)
      simp only [reduceCtorEq, if_false, if_true]
      apply Ensures.bind_eq (expectToken_reads _ left (cast_identifier.mpr rfl))
      apply Ensures.bind_eq (tt_reads rfl opens)
      simp only [ne_eq, not_true_eq_false, if_false]
      apply Ensures.bind_eq (expectType_reads rfl opens)
      simp only [Option.isSome_some, if_true]
      have shorter : (inside ++ rbrace :: rest).length + 1 < fuel := by
        rw [left] at enough
        simpa using enough
      apply Ensures.bind
        ((properties [] props closes rfl shorter).and
          (parseProperties_ensures [] shorter))
      rintro _ _ ⟨⟨rfl, rfl⟩, parsed⟩
      apply Ensures.bind_eq (expectType_reads rfl closes)
      obtain ⟨map, filled, -⟩ := getPropertiesByName_returns
        (parsed.complete (List.forall_mem_nil _))
      apply Ensures.bind_eq (Ensures.lift filled)
      exact Ensures.pure ⟨rfl, rfl⟩

theorem parseProperty_reads_step {property : PropertyNode}
    (values : ReadsValues text fuel)
    (grammar : Grammar.Property word property) (noBrace : NoBrace rest)
    (tokens : context.tokens = word ++ rest)
    (enough : context.tokens.length < fuel + 1) :
    Reads (parseProperty text (fuel + 1)) context (some property) rest := by
  cases grammar with
  | @intro key eq word node equals value =>
      have left : context.tokens = key.toToken :: eq :: (word ++ rest) := tokens
      rw [parseProperty]
      apply Ensures.bind_eq (assertToken_ensures left (cast_identifier.mpr rfl))
      apply Ensures.bind_eq (expectType_reads rfl equals)
      have shorter : (word ++ rest).length < fuel := by
        rw [left] at enough
        simp at enough
        simp
        omega
      apply Ensures.bind_eq (values value noBrace rfl shorter)
      exact Ensures.pure ⟨rfl, rfl⟩

theorem parseProperties_reads_step {new : List PropertyNode} {rbrace : Token}
    (property : ReadsProperty text fuel)
    (properties : ReadsProperties text fuel)
    (start : List PropertyNode) (props : Grammar.Properties word new)
    (closes : rbrace.getType = .rbrace)
    (tokens : context.tokens = word ++ rbrace :: rest)
    (enough : context.tokens.length + 1 < fuel + 1) :
    Reads (parseProperties text (fuel + 1) start) context (start ++ new)
      (rbrace :: rest) := by
  rw [parseProperties]
  obtain ⟨rfl, rfl⟩ | ⟨node, grammar, rfl⟩ |
    ⟨first, comma, more, node, later, grammar, separates, others, rfl, rfl⟩ :=
    props.uncons
  · apply Ensures.bind_eq (tt_reads tokens closes)
    simp only [reduceCtorEq, if_false, if_true]
    refine Ensures.pure ⟨(List.append_nil start).symm, ?_⟩
    rw [List.nil_append] at tokens
    rw [← tokens]
  · obtain ⟨key, inside, rfl⟩ := grammar.head
    apply Ensures.bind_eq (tt_reads tokens key.getType_toToken)
    simp only [reduceCtorEq, if_false, if_true]
    apply Ensures.bind_eq (property grammar
      (noBrace_cons (by rw [closes]; decide)) tokens (Nat.lt_of_succ_lt_succ enough))
    apply Ensures.bind_eq (tt_reads rfl closes)
    simp only [ne_eq, not_true_eq_false, if_false]
    have shorter : (rbrace :: rest).length + 1 < fuel := by
      rw [tokens] at enough
      simp at enough
      simp
      omega
    refine Ensures.mono
      (properties (start ++ [node]) .empty closes rfl shorter) ?_
    rintro _ _ ⟨rfl, rfl⟩
    exact ⟨List.append_nil _, rfl⟩
  · obtain ⟨key, inside, rfl⟩ := grammar.head
    have left : context.tokens =
        (key.toToken :: inside) ++ comma :: (more ++ rbrace :: rest) := by
      simpa using tokens
    apply Ensures.bind_eq (tt_reads left key.getType_toToken)
    simp only [reduceCtorEq, if_false, if_true]
    apply Ensures.bind_eq (property grammar
      (noBrace_cons (by rw [separates]; decide)) left (Nat.lt_of_succ_lt_succ enough))
    apply Ensures.bind_eq (tt_reads rfl separates)
    simp only [ne_eq, reduceCtorEq, not_false_eq_true, if_true]
    apply Ensures.bind_eq (expectType_reads rfl separates)
    have shorter : (more ++ rbrace :: rest).length + 1 < fuel := by
      rw [left] at enough
      simp at enough
      simp
      omega
    refine Ensures.mono
      (properties (start ++ [node]) others closes rfl shorter) ?_
    rintro _ _ ⟨rfl, rfl⟩
    exact ⟨List.append_assoc start [node] later, rfl⟩

theorem parseValue_reads_all : ∀ fuel : Nat, ReadsValues text fuel ∧
    ReadsProperty text fuel ∧ ReadsProperties text fuel := by
  intro fuel
  induction fuel with
  | zero =>
      exact ⟨fun _ _ _ enough => absurd enough (Nat.not_lt_zero _),
        fun _ _ _ enough => absurd enough (Nat.not_lt_zero _),
        fun _ _ _ _ enough => absurd enough (Nat.not_lt_zero _)⟩
  | succ fuel induction =>
      obtain ⟨values, property, properties⟩ := induction
      exact ⟨parseValue_reads_step properties, parseProperty_reads_step values,
        parseProperties_reads_step property properties⟩

theorem parseValue_reads (value : Grammar.Value word node)
    (noBrace : NoBrace rest) (tokens : context.tokens = word ++ rest)
    (enough : context.tokens.length < fuel) :
    Reads (parseValue text fuel) context (some node) rest :=
  (parseValue_reads_all fuel).1 value noBrace tokens enough

end Values

/-! Declarations. -/

theorem parseTask_reads {word rest : List Token} {node : TaskNode}
    (grammar : Grammar.Task word node)
    (tokens : context.tokens = word ++ rest) :
    Reads (parseTask text) context (some node) rest := by
  cases grammar with
  | @intro task name eq semicolon word node keyword equals value ends =>
      have left : context.tokens =
          task :: name.toToken :: eq :: (word ++ semicolon :: rest) := by
        simpa using tokens
      rw [parseTask]
      apply Ensures.bind_eq
        (assertToken_ensures left (cast_ofType.mpr ⟨rfl, keyword⟩))
      apply Ensures.bind_eq (expectToken_reads _ rfl (cast_identifier.mpr rfl))
      apply Ensures.bind_eq (expectType_reads rfl equals)
      apply Ensures.bind_eq Ensures.get
      apply Ensures.bind_eq (parseValue_reads value
        (noBrace_cons (by rw [ends]; decide)) rfl (Nat.lt_succ_self _))
      apply Ensures.bind_eq (expectType_reads rfl ends)
      exact Ensures.pure ⟨rfl, rfl⟩

theorem parseDependencies_reads {word : List Token}
    {ids : List (Option IdentifierToken)} (grammar : Grammar.Ids word ids)
    {semicolon : Token} (ends : semicolon.getType = .semicolon)
    (rest : List Token) :
    ∀ {fuel} {context : ParserContext} (start : List (Option IdentifierToken)),
      context.tokens = word ++ semicolon :: rest →
      context.tokens.length < fuel →
        Reads (parseDependencies text fuel start) context (start ++ ids)
          (semicolon :: rest) := by
  induction grammar with
  | last id =>
      intro fuel context start tokens enough
      cases fuel with
      | zero => exact absurd enough (Nat.not_lt_zero _)
      | succ fuel =>
          rw [parseDependencies]
          apply Ensures.bind_eq
            (expectToken_reads _ tokens (cast_identifier.mpr rfl))
          apply Ensures.bind_eq (tt_reads rfl ends)
          exact Ensures.pure ⟨rfl, rfl⟩
  | @cons id comma more ids separates _ induction =>
      intro fuel context start tokens enough
      have left : context.tokens =
          id.toToken :: comma :: (more ++ semicolon :: rest) := tokens
      cases fuel with
      | zero => exact absurd enough (Nat.not_lt_zero _)
      | succ fuel =>
          rw [parseDependencies]
          apply Ensures.bind_eq
            (expectToken_reads _ left (cast_identifier.mpr rfl))
          apply Ensures.bind_eq (tt_reads rfl separates)
          apply Ensures.bind_eq (readToken_ensures rfl)
          have shorter : (more ++ semicolon :: rest).length < fuel := by
            rw [left] at enough
            simp at enough
            simp
            omega
          refine Ensures.mono (induction (start ++ [some id]) rfl shorter) ?_
          rintro _ _ ⟨rfl, rfl⟩
          exact ⟨List.append_assoc start [some id] ids, rfl⟩

theorem dependencies_reads {Node : Type}
    (node : List (Option IdentifierToken) → Node) {word rest : List Token}
    {ids : List (Option IdentifierToken)} {end' : Token}
    (grammar : Grammar.Ids word ids) (ends : end'.getType = .semicolon)
    (tokens : context.tokens = word ++ end' :: rest) :
    Reads (do
      let dependencies ←
        parseDependencies text ((← get).tokens.length + 1) []
      let _ ← expectToken text semicolon
      return node dependencies) context (node ids) rest := by
  apply Ensures.bind_eq Ensures.get
  apply Ensures.bind_eq (parseDependencies_reads grammar ends rest [] tokens
    (Nat.lt_succ_self _))
  apply Ensures.bind_eq (expectType_reads rfl ends)
  exact Ensures.pure ⟨rfl, rfl⟩

theorem parseDependenciesDeclaration_reads {word rest : List Token}
    {node : DependencyNode} (grammar : Grammar.Dep word node)
    (tokens : context.tokens = word ++ rest) :
    Reads (parseDependenciesDeclaration text) context node rest := by
  cases grammar with
  | @intro name depends semicolon word ids keyword list ends =>
      have left : context.tokens =
          name.toToken :: depends :: (word ++ semicolon :: rest) := by
        simpa using tokens
      rw [parseDependenciesDeclaration]
      apply Ensures.bind_eq (assertToken_ensures left (cast_identifier.mpr rfl))
      apply Ensures.bind_eq (expectType_reads rfl keyword)
      exact dependencies_reads _ list ends rfl

theorem parseRunLevel_reads {word rest : List Token} {node : RunLevelNode}
    (grammar : Grammar.Level word node)
    (tokens : context.tokens = word ++ rest) :
    Reads (parseRunLevel text) context node rest := by
  cases grammar with
  | @intro runLevel name colon semicolon word ids keyword separates list ends =>
      have left : context.tokens =
          runLevel :: name.toToken :: colon :: (word ++ semicolon :: rest) := by
        simpa using tokens
      rw [parseRunLevel]
      apply Ensures.bind_eq
        (assertToken_ensures left (cast_ofType.mpr ⟨rfl, keyword⟩))
      apply Ensures.bind_eq (expectToken_reads _ rfl (cast_identifier.mpr rfl))
      apply Ensures.bind_eq (expectType_reads rfl separates)
      exact dependencies_reads _ list ends rfl

/-! A round of the loop that reads a declaration. -/

section Round

variable {word rest : List Token}

theorem task_round {node : TaskNode} (task : Grammar.Task word node)
    (tokens : context.tokens = word ++ rest) (fuel : Nat) (start : TopLevelNode) :
    parseDeclarations text (fuel + 1) start context =
      parseDeclarations text fuel (start.append ⟨[node], [], []⟩)
        { context with tokens := rest } := by
  obtain ⟨_, _, ran, rfl, rfl⟩ : Reads (parseTask text) context _ rest :=
    parseTask_reads task tokens
  obtain ⟨token, more, rfl, type⟩ := task.head
  have next : nextType context = .taskKeyword := by rw [nextType, tokens]; exact type
  rw [parseDeclarations, Ensures.run_bind (tt_ran context)]
  simp only [next, reduceCtorEq, if_false, if_true]
  rw [Ensures.run_bind ran]
  simp [TopLevelNode.append]

theorem dep_round {node : DependencyNode} (dep : Grammar.Dep word node)
    (tokens : context.tokens = word ++ rest) (fuel : Nat) (start : TopLevelNode) :
    parseDeclarations text (fuel + 1) start context =
      parseDeclarations text fuel (start.append ⟨[], [node], []⟩)
        { context with tokens := rest } := by
  obtain ⟨_, _, ran, rfl, rfl⟩ :
      Reads (parseDependenciesDeclaration text) context _ rest :=
    parseDependenciesDeclaration_reads dep tokens
  obtain ⟨token, more, rfl, type⟩ := dep.head
  have next : nextType context = .identifier := by rw [nextType, tokens]; exact type
  rw [parseDeclarations, Ensures.run_bind (tt_ran context)]
  simp only [next, reduceCtorEq, if_false, if_true]
  rw [Ensures.run_bind ran]
  simp [TopLevelNode.append]

theorem level_round {node : RunLevelNode} (level : Grammar.Level word node)
    (tokens : context.tokens = word ++ rest) (fuel : Nat) (start : TopLevelNode) :
    parseDeclarations text (fuel + 1) start context =
      parseDeclarations text fuel (start.append ⟨[], [], [node]⟩)
        { context with tokens := rest } := by
  obtain ⟨_, _, ran, rfl, rfl⟩ : Reads (parseRunLevel text) context _ rest :=
    parseRunLevel_reads level tokens
  obtain ⟨token, more, rfl, type⟩ := level.head
  have next : nextType context = .runLevelKeyword := by
    rw [nextType, tokens]
    exact type
  rw [parseDeclarations, Ensures.run_bind (tt_ran context)]
  simp only [next, reduceCtorEq, if_false, if_true]
  rw [Ensures.run_bind ran]
  simp [TopLevelNode.append]

end Round

/-- One declaration before others. -/
theorem parseDeclarations_first {added tree : TopLevelNode} {fuel : Nat}
    {start : TopLevelNode} {first more rest : List Token} {type : TokenType}
    (starts : ∃ token inside, first = token :: inside ∧ token.getType = type)
    (tokens : context.tokens = (first ++ more) ++ rest)
    (round : ∀ fuel start, parseDeclarations text (fuel + 1) start context =
      parseDeclarations text fuel (start.append added)
        { context with tokens := more ++ rest })
    (later : ∀ {fuel} {context : ParserContext} (start : TopLevelNode),
      context.tokens = more ++ rest → context.tokens.length < fuel →
        parseDeclarations text fuel start context =
          parseDeclarations text fuel (start.append tree)
            { context with tokens := rest })
    (enough : context.tokens.length < fuel) :
    parseDeclarations text fuel start context =
      parseDeclarations text fuel (start.append (added.append tree))
        { context with tokens := rest } := by
  have length := congrArg List.length tokens
  obtain ⟨token, inside, rfl, -⟩ := starts
  simp only [List.length_append, List.length_cons] at length
  cases fuel with
  | zero => exact absurd enough (Nat.not_lt_zero _)
  | succ fuel =>
      have shorter : (more ++ rest).length < fuel := by
        rw [List.length_append]
        omega
      rw [round fuel start, later (start.append added) rfl shorter,
        TopLevelNode.append_assoc]
      have last : rest.length < fuel := by omega
      exact parseDeclarations_fuel last (Nat.lt_succ_of_lt last)

/-- The declarations of a word of the grammar are read, and then what comes
after it. -/
theorem parseDeclarations_before {word : List Token} {tree : TopLevelNode}
    (grammar : Grammar.File word tree) (rest : List Token) :
    ∀ {fuel} {context : ParserContext} (start : TopLevelNode),
      context.tokens = word ++ rest → context.tokens.length < fuel →
        parseDeclarations text fuel start context =
          parseDeclarations text fuel (start.append tree)
            { context with tokens := rest } := by
  induction grammar with
  | empty =>
      intro fuel context start tokens _
      rw [List.nil_append] at tokens
      rw [← tokens, TopLevelNode.append_empty]
  | task task _ induction =>
      intro fuel context start tokens enough
      exact parseDeclarations_first task.head tokens
        (task_round task (tokens.trans (List.append_assoc ..))) induction enough
  | dep dep _ induction =>
      intro fuel context start tokens enough
      exact parseDeclarations_first dep.head tokens
        (dep_round dep (tokens.trans (List.append_assoc ..))) induction enough
  | level level _ induction =>
      intro fuel context start tokens enough
      exact parseDeclarations_first level.head tokens
        (level_round level (tokens.trans (List.append_assoc ..))) induction enough

theorem parseDeclarations_reads {word : List Token} {tree : TopLevelNode}
    (grammar : Grammar.File word tree) {fuel : Nat} (start : TopLevelNode)
    (tokens : context.tokens = word) (enough : context.tokens.length < fuel) :
    Reads (parseDeclarations text fuel start) context (start.append tree) [] := by
  refine ⟨_, _, ?_, rfl, rfl⟩
  rw [parseDeclarations_before grammar [] start
    (tokens.trans (List.append_nil word).symm) enough]
  cases fuel with
  | zero => exact absurd enough (Nat.not_lt_zero _)
  | succ fuel => exact parseDeclarations_end rfl fuel _

theorem parseFile_reads {tokens : List Token} {tree : TopLevelNode}
    (grammar : Grammar.File tokens tree) :
    parseFile text tokens = .ok (tree, []) := by
  have reads : Reads (parseDeclarations text (tokens.length + 1) ⟨[], [], []⟩)
      ⟨tokens, none, []⟩ tree [] :=
    parseDeclarations_reads grammar ⟨[], [], []⟩ rfl (Nat.lt_succ_self _)
  obtain ⟨_, _, ran, rfl, rfl⟩ := reads
  exact parseFile_ran ran

/-- The parser is silent on the words of the grammar exactly, and the tree that
it returns is that of their derivation. -/
theorem accepts_grammar (text : Bytes) (tokens : List Token) :
    ∃ tree errors, parseFile text tokens = .ok (tree, errors) ∧
      (errors = [] ↔ ∃ tree', Grammar.File tokens tree') ∧
      ∀ tree', Grammar.File tokens tree' → tree = tree' := by
  obtain ⟨tree, errors, ran, -, -, silent⟩ := parseFile_returns text tokens
  have unique : ∀ tree', Grammar.File tokens tree' →
      tree = tree' ∧ errors = [] := by
    intro tree' grammar
    have read : parseFile text tokens = .ok (tree', []) :=
      parseFile_reads grammar
    rw [ran] at read
    simpa using read
  refine ⟨tree, errors, ran, ⟨fun empty => ⟨tree, silent empty⟩, ?_⟩,
    fun tree' grammar => (unique tree' grammar).1⟩
  rintro ⟨tree', grammar⟩
  exact (unique tree' grammar).2

end Initd.Parser
