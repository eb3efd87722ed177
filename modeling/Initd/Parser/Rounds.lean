import Initd.Parser.Declarations

namespace Initd.Parser

open Library ParserContext TokenTraits

/-! The rounds of the loops of the parser. -/

variable {text : Bytes} {context : ParserContext} {Value : Type}

/-- Each round leaves the loop, whatever rounds are left, or goes on with fewer
tokens. -/
def Progresses (loop : Nat → Value → ParserM Value) : Prop :=
  ∀ (fuel : Nat) (start : Value) (context : ParserContext),
    context.tokens.length < fuel →
    (∃ result final, ∀ more, loop (more + 1) start context = .ok (result, final)) ∨
    ∃ later middle, middle.tokens.length < context.tokens.length ∧
      loop (fuel + 1) start context = loop fuel later middle

theorem tt_ran (context : ParserContext) :
    tt context = .ok (nextType context, context) := by
  have read : Ensures tt context fun type final =>
      final = context ∧ type = nextType context := tt_ensures
  obtain ⟨_, _, ran, rfl, rfl⟩ := read
  exact ran

/-- A token that no production starts with is reported and left out. -/
theorem skip_ran {token : Token} {rest : List Token}
    (tokens : context.tokens = token :: rest) (message : String)
    (next : ParserM Value) :
    (do
      error text message
      let _ ← readToken
      next) context =
      next { context.pushError text message with tokens := rest } := by
  have left : (context.pushError text message).tokens = token :: rest := by
    rw [pushError_tokens, tokens]
  have reports : Ensures (error text message) context fun _ final =>
      final = context.pushError text message := error_ensures message
  obtain ⟨_, _, reported, rfl⟩ := reports
  obtain ⟨_, _, read, -, rfl⟩ := readToken_ensures left
  rw [Ensures.run_bind reported, Ensures.run_bind read]

theorem parseDependencies_progresses : Progresses (parseDependencies text) := by
  intro fuel start context _
  have first : Ensures (expectToken text identifier) context
      (Expected text identifier context) := expectToken_ensures _ _
  obtain ⟨id, afterId, ran, expected⟩ := first
  by_cases next : nextType afterId = .comma
  · right
    obtain ⟨comma, rest, tokens, -⟩ := exists_next next (by decide)
    have shorter := expected.moves.length_le
    rw [tokens, List.length_cons] at shorter
    refine ⟨pushDependency start id, { afterId with tokens := rest },
      Nat.lt_of_succ_le shorter, ?_⟩
    obtain ⟨_, _, read, -, rfl⟩ := readToken_ensures tokens
    rw [parseDependencies, Ensures.run_bind ran, Ensures.run_bind (tt_ran _)]
    simp only [next, reduceCtorEq, if_false, if_true]
    rw [Ensures.run_bind read]
    rfl
  · left
    refine ⟨pushDependency start id, afterId, fun more => ?_⟩
    rw [parseDependencies, Ensures.run_bind ran, Ensures.run_bind (tt_ran _)]
    split
    · rfl
    split
    · rfl
    · rfl

theorem parseDeclarations_end (ends : context.tokens = []) (fuel : Nat)
    (node : TopLevelNode) :
    parseDeclarations text (fuel + 1) node context = .ok (node, context) := by
  have eof : nextType context = .eof := by rw [nextType, ends]
  rw [parseDeclarations, Ensures.run_bind (tt_ran context), if_pos eof]
  rfl

/-- A round of the loop over the declarations, whatever the vectors hold. -/
theorem parseDeclarations_round (text : Bytes) (context : ParserContext) :
    (context.tokens = [] ∧ ∀ more node,
      parseDeclarations text (more + 1) node context = .ok (node, context)) ∨
    ∃ added middle, middle.tokens.length < context.tokens.length ∧
      ∀ more node, parseDeclarations text (more + 1) node context =
        parseDeclarations text more (node.append added) middle := by
  by_cases eof : nextType context = .eof
  · have ends := nextType_eof eof
    exact .inl ⟨ends, parseDeclarations_end ends⟩
  right
  obtain ⟨token, rest, tokens, type⟩ := exists_next rfl eof
  by_cases task : nextType context = .taskKeyword
  · obtain ⟨n, middle, ran, parsed⟩ : Ensures (parseTask text) context
        (TaskParsed text context) := parseTask_ensures tokens (type.trans task)
    refine ⟨⟨n.toList, [], []⟩, middle, parsed.shorter, fun more node => ?_⟩
    rw [parseDeclarations, Ensures.run_bind (tt_ran context), if_neg eof,
      if_pos task, Ensures.run_bind ran]
    simp [TopLevelNode.append]
  by_cases decl : nextType context = .identifier
  · obtain ⟨name, rfl⟩ := Token.exists_identifier (type.trans decl)
    obtain ⟨n, middle, ran, parsed⟩ : Ensures (parseDependenciesDeclaration text)
        context (DependencyParsed text context) :=
      parseDependenciesDeclaration_ensures tokens
    refine ⟨⟨[], [n], []⟩, middle, parsed.shorter, fun more node => ?_⟩
    rw [parseDeclarations, Ensures.run_bind (tt_ran context), if_neg eof,
      if_neg task, if_pos decl, Ensures.run_bind ran]
    simp [TopLevelNode.append]
  by_cases runLevel : nextType context = .runLevelKeyword
  · obtain ⟨n, middle, ran, parsed⟩ : Ensures (parseRunLevel text) context
        (RunLevelParsed text context) :=
      parseRunLevel_ensures tokens (type.trans runLevel)
    refine ⟨⟨[], [], [n]⟩, middle, parsed.shorter, fun more node => ?_⟩
    rw [parseDeclarations, Ensures.run_bind (tt_ran context), if_neg eof,
      if_neg task, if_neg decl, if_pos runLevel, Ensures.run_bind ran]
    simp [TopLevelNode.append]
  · refine ⟨⟨[], [], []⟩,
      { context.pushError text "expected declaration" with tokens := rest }, ?_,
      fun more node => ?_⟩
    · rw [tokens]
      exact Nat.lt_succ_self _
    rw [parseDeclarations, Ensures.run_bind (tt_ran context), if_neg eof,
      if_neg task, if_neg decl, if_neg runLevel, skip_ran tokens]
    simp [TopLevelNode.append]

theorem parseProperties_progresses : Progresses (parseProperties text) := by
  intro fuel start context enough
  by_cases eof : nextType context = .eof
  · refine .inl ⟨start, context, fun more => ?_⟩
    rw [parseProperties, Ensures.run_bind (tt_ran context), if_pos eof]
    rfl
  by_cases rbrace : nextType context = .rbrace
  · refine .inl ⟨start, context, fun more => ?_⟩
    rw [parseProperties, Ensures.run_bind (tt_ran context), if_neg eof,
      if_pos rbrace]
    rfl
  right
  obtain ⟨token, rest, tokens, type⟩ := exists_next rfl eof
  by_cases key : nextType context = .identifier
  · obtain ⟨key', rfl⟩ := Token.exists_identifier (type.trans key)
    obtain ⟨p, afterProperty, ran, parsed⟩ : Ensures (parseProperty text fuel)
        context (PropertyParsed text context) :=
      parseProperty_ensures tokens enough
    by_cases closing : nextType afterProperty = .rbrace
    · refine ⟨start ++ p.toList, afterProperty, parsed.shorter, ?_⟩
      rw [parseProperties, Ensures.run_bind (tt_ran context), if_neg eof,
        if_neg rbrace, if_pos key, Ensures.run_bind ran,
        Ensures.run_bind (tt_ran afterProperty)]
      simp only [closing, ne_eq, not_true_eq_false, if_false]
    · have separated : Ensures (expectToken text comma) afterProperty
          (Expected text comma afterProperty) := expectToken_ensures _ _
      obtain ⟨_, afterComma, expectRan, expected⟩ := separated
      refine ⟨start ++ p.toList, afterComma,
        Nat.lt_of_le_of_lt expected.moves.length_le parsed.shorter, ?_⟩
      rw [parseProperties, Ensures.run_bind (tt_ran context), if_neg eof,
        if_neg rbrace, if_pos key, Ensures.run_bind ran,
        Ensures.run_bind (tt_ran afterProperty)]
      simp only [closing, ne_eq, not_false_eq_true, if_true]
      rw [Ensures.run_bind expectRan]
  · refine ⟨start,
      { context.pushError text "expected property" with tokens := rest }, ?_, ?_⟩
    · rw [tokens]
      exact Nat.lt_succ_self _
    rw [parseProperties, Ensures.run_bind (tt_ran context), if_neg eof,
      if_neg rbrace, if_neg key, skip_ran tokens]

theorem parseDeclarations_progresses :
    Progresses (parseDeclarations text) := by
  intro fuel start context _
  cases parseDeclarations_round text context with
  | inl leaves => exact .inl ⟨start, context, fun more => leaves.2 more start⟩
  | inr goes =>
      obtain ⟨added, middle, shorter, goes⟩ := goes
      exact .inr ⟨_, middle, shorter, goes fuel start⟩

/-- The declarations that are read go by the tokens alone, neither by the number
of rounds that may be left nor by what the vectors hold. -/
theorem parseDeclarations_appends (text : Bytes) (context : ParserContext) :
    ∃ added final, ∀ fuel node, context.tokens.length < fuel →
      parseDeclarations text fuel node context =
        .ok (node.append added, final) := by
  induction remaining : context.tokens.length using Nat.strongRecOn
    generalizing context with
  | ind n induction =>
      subst remaining
      cases parseDeclarations_round text context with
      | inl leaves =>
          refine ⟨⟨[], [], []⟩, context, fun fuel node enough => ?_⟩
          cases fuel with
          | zero => exact absurd enough (Nat.not_lt_zero _)
          | succ fuel =>
              rw [leaves.2]
              simp [TopLevelNode.append]
      | inr goes =>
          obtain ⟨first, middle, shorter, goes⟩ := goes
          obtain ⟨added, final, ran⟩ := induction _ shorter middle rfl
          refine ⟨first.append added, final, fun fuel node enough => ?_⟩
          cases fuel with
          | zero => exact absurd enough (Nat.not_lt_zero _)
          | succ fuel =>
              rw [goes, ran fuel _ (by omega)]
              simp [TopLevelNode.append]

theorem parseDeclarations_fuel {fuel fuel' : Nat} {node : TopLevelNode}
    (enough : context.tokens.length < fuel)
    (enough' : context.tokens.length < fuel') :
    parseDeclarations text fuel node context =
      parseDeclarations text fuel' node context := by
  obtain ⟨_, _, always⟩ := parseDeclarations_appends text context
  rw [always fuel node enough, always fuel' node enough']

/-- The tokens that are read, in order. -/
inductive Consumes (text : Bytes) (context : ParserContext) :
    List Token → ParserContext → Prop
  | refl : Consumes text context [] context
  | read {word rest : List Token} {token : Token} {middle : ParserContext}
      (before : Consumes text context word middle)
      (next : middle.tokens = token :: rest) :
      Consumes text context (word ++ [token]) { middle with tokens := rest }
  | error {word : List Token} {middle : ParserContext}
      (before : Consumes text context word middle) (message : String) :
      Consumes text context word (middle.pushError text message)

theorem Consumes.tokens {word : List Token} {final : ParserContext}
    (consumes : Consumes text context word final) :
    context.tokens = word ++ final.tokens := by
  induction consumes with
  | refl => rfl
  | read _ next induction => rw [induction, next, List.append_assoc]; rfl
  | error _ message induction => rw [induction, pushError_tokens]

theorem consumes_of_moves {final : ParserContext}
    (moves : Moves text context final) :
    ∃ word, Consumes text context word final := by
  induction moves with
  | refl => exact ⟨[], .refl⟩
  | tail _ step induction =>
      obtain ⟨word, consumes⟩ := induction
      cases step with
      | read next => exact ⟨_, consumes.read next⟩
      | error message => exact ⟨word, consumes.error message⟩

/-- On any tokens the parser returns, with any fuel above their number and
without a failed assertion, after it has read each of them once. -/
theorem parseFile_terminates (text : Bytes) (tokens : List Token) :
    (∃ tree final, parseFile text tokens = .ok (tree, final.errors) ∧
      (∀ fuel, tokens.length < fuel →
        parseDeclarations text fuel ⟨[], [], []⟩ ⟨tokens, none, []⟩ =
          .ok (tree, final)) ∧
      Consumes text ⟨tokens, none, []⟩ tokens final ∧ final.tokens = []) ∧
    Progresses (parseDeclarations text) ∧ Progresses (parseProperties text) ∧
    Progresses (parseDependencies text) := by
  refine ⟨?_, parseDeclarations_progresses, parseProperties_progresses,
    parseDependencies_progresses⟩
  obtain ⟨tree, final, ran, parsed⟩ :
      Ensures (parseDeclarations text (tokens.length + 1) ⟨[], [], []⟩)
        ⟨tokens, none, []⟩ _ :=
    parseDeclarations_ensures _ _ _ (Nat.lt_succ_self _)
  obtain ⟨added, final', always⟩ :=
    parseDeclarations_appends text ⟨tokens, none, []⟩
  have same := ran.symm.trans (always _ _ (Nat.lt_succ_self _))
  obtain ⟨rfl, rfl⟩ := Prod.mk.inj (Except.ok.inj same)
  obtain ⟨word, consumes⟩ := consumes_of_moves parsed.moves
  have all := consumes.tokens
  rw [parsed.ends, List.append_nil] at all
  obtain rfl : tokens = word := all
  exact ⟨_, final, parseFile_ran ran, fun fuel enough => always fuel _ enough,
    consumes, parsed.ends⟩

end Initd.Parser
