import Initd.Parser.Grammar
import Initd.Parser.Outline
import Initd.Parser.Placed
import Initd.Parser.Steps

namespace Initd.Parser

open Library ParserContext TokenTraits

/-! What each function of the parser does on any tokens: it returns, its nodes
are complete, and where it reports no error it has read a word of its
nonterminal. -/

variable {text : Bytes} {context : ParserContext}

/-! Tokens that are expected and the outline of the file. -/

theorem skip_plain {type : TokenType} (depth : Nat) (task : type ≠ .taskKeyword)
    (rbrace : type ≠ .rbrace) (identifier : type ≠ .identifier) :
    Outline.skip depth type = ⟨depth, .outside⟩ := by
  cases depth <;> simp [Outline.skip, task, rbrace, identifier]

namespace Expected

variable {Value : Type} {traits : TokenTraits Value} {result : Option Value}
  {final : ParserContext} {depth : Nat}

theorem named {place place' : Place}
    (expected : Expected text traits context result final)
    (taken : ∀ token value, traits.cast token = some value →
      token.getType ≠ .runLevelKeyword ∧
        Outline.step ⟨depth, place⟩ token.getType = ⟨depth, place'⟩)
    (left : ∀ token, traits.cast token = none →
      Outline.step ⟨depth, place⟩ token.getType =
        Outline.step ⟨depth, place'⟩ token.getType) :
    NamedFrom ⟨depth, place⟩ context.tokens ↔
      NamedFrom ⟨depth, place'⟩ final.tokens := by
  cases expected with
  | found tokens cast =>
      obtain ⟨other, step⟩ := taken _ _ cast
      rw [tokens, NamedFrom.cons other, step]
  | missing message absent =>
      rw [pushError_tokens]
      exact NamedFrom.congr fun token first => left token (absent token first)

theorem named_plain {type : TokenType} {errorMsg : String}
    {result : Option Token}
    (expected : Expected text (ofType type errorMsg) context result final)
    (plain : type = .semicolon ∨ type = .comma ∨ type = .colon ∨
      type = .dependsKeyword) :
    NamedFrom ⟨depth, .outside⟩ context.tokens ↔
      NamedFrom ⟨depth, .outside⟩ final.tokens := by
  refine expected.named (fun token value cast => ?_) fun _ _ => rfl
  obtain ⟨-, rfl⟩ := cast_ofType.mp cast
  rcases plain with same | same | same | same
  all_goals
    rw [same]
    exact ⟨by decide, skip_plain depth (by decide) (by decide) (by decide)⟩

theorem named_equals {result : Option Token}
    (expected : Expected text equals context result final) :
    NamedFrom ⟨depth, .equals⟩ context.tokens ↔
      NamedFrom ⟨depth, .value⟩ final.tokens := by
  refine expected.named (fun token value cast => ?_) fun token other => ?_
  · obtain ⟨-, same⟩ := cast_ofType.mp cast
    rw [same]
    exact ⟨by decide, rfl⟩
  · rw [Outline.step, if_neg (cast_ofType_none.mp other), Outline.step]

theorem named_name {result : Option IdentifierToken}
    (expected : Expected text identifier context result final) :
    NamedFrom ⟨depth, .name⟩ context.tokens ↔
      NamedFrom ⟨depth, .equals⟩ final.tokens := by
  refine expected.named (fun token value cast => ?_) fun token other => ?_
  · rw [cast_identifier.mp cast]
    exact ⟨by simp, rfl⟩
  · have noIdentifier := cast_identifier_none.mp other
    rw [Outline.step, if_neg noIdentifier, Outline.step, if_neg noIdentifier]

theorem named_id {result : Option IdentifierToken}
    (expected : Expected text identifier context result final) :
    NamedFrom ⟨0, .outside⟩ context.tokens ↔
      NamedFrom ⟨0, .outside⟩ final.tokens := by
  refine expected.named (fun token value cast => ?_) fun _ _ => rfl
  rw [cast_identifier.mp cast]
  exact ⟨by simp, rfl⟩

end Expected

/-! The list of a dependency declaration or of a run level. -/

structure DependenciesParsed (text : Bytes) (context : ParserContext)
    (start dependencies : List (Option IdentifierToken))
    (final : ParserContext) : Prop where
  moves : Moves text context final
  placed : ∀ known, context.Known known → PlacedNames known start →
    PlacedNames known dependencies
  accepted : final.Clean → ∃ word ids, dependencies = start ++ ids ∧
    context.Takes word final ∧ Grammar.Ids word ids
  named : NamedFrom ⟨0, .outside⟩ context.tokens ↔
    NamedFrom ⟨0, .outside⟩ final.tokens

section Dependencies

variable {start dependencies : List (Option IdentifierToken)}
  {id : Option IdentifierToken} {afterId final : ParserContext}

/-- The vector of a loop after the identifier of one round. -/
def pushDependency (start : List (Option IdentifierToken))
    (id : Option IdentifierToken) : List (Option IdentifierToken) :=
  if id.isSome then start ++ [id] else start

theorem parsed_last (start : List (Option IdentifierToken))
    (expected : Expected text identifier context id afterId) :
    DependenciesParsed text context start
      (pushDependency start id) afterId where
  moves := expected.moves
  placed known tokens held := by
    unfold pushDependency
    split
    · next found =>
        intro dependency member
        cases List.mem_append.mp member with
        | inl old => exact held dependency old
        | inr new =>
            obtain ⟨token, present⟩ := Option.isSome_iff_exists.mp found
            rw [List.mem_singleton.mp new]
            exact ⟨token, present, expected.placed_identifier tokens token present⟩
    · exact held
  accepted clean := by
    obtain ⟨token, value, rfl, takes, cast⟩ := expected.accepted clean
    rw [cast_identifier.mp cast] at takes
    exact ⟨_, [some value], rfl, takes, .last value⟩
  named := expected.named_id

theorem parsed_comma
    (expected : Expected text identifier context id afterId) {comma : Token}
    {rest : List Token} (tokens : afterId.tokens = comma :: rest)
    (separates : comma.getType = .comma)
    (parsed : DependenciesParsed text { afterId with tokens := rest }
      (pushDependency start id) dependencies final) :
    DependenciesParsed text context start dependencies final where
  moves := (expected.moves.tail (.read tokens)).trans parsed.moves
  placed known left held :=
    parsed.placed known ((expected.moves.known left).tail tokens)
      ((parsed_last start expected).placed known left held)
  accepted clean := by
    obtain ⟨word, ids, rfl, takes, list⟩ := parsed.accepted clean
    obtain ⟨token, value, rfl, first, cast⟩ :=
      expected.accepted (takes.clean clean)
    rw [cast_identifier.mp cast] at first
    have second : afterId.Takes [comma] { afterId with tokens := rest } := by
      rw [Takes, List.singleton_append, ← tokens]
    refine ⟨value.toToken :: comma :: word, some value :: ids, ?_,
      first.trans (second.trans takes), .cons value separates list⟩
    exact List.append_assoc start [some value] ids
  named := by
    rw [expected.named_id, tokens, NamedFrom.cons (by rw [separates]; decide),
      ← parsed.named, separates]
    rfl

end Dependencies

theorem parseDependencies_ensures : ∀ (fuel : Nat) (context : ParserContext)
    (start : List (Option IdentifierToken)), context.tokens.length < fuel →
      Ensures (parseDependencies text fuel start) context
        (DependenciesParsed text context start) := by
  intro fuel
  induction fuel with
  | zero => exact fun _ _ enough => absurd enough (Nat.not_lt_zero _)
  | succ fuel induction =>
      intro context start enough
      rw [parseDependencies]
      apply Ensures.bind (expectToken_ensures _ _)
      intro id afterId expected
      apply Ensures.bind tt_ensures
      rintro type _ ⟨rfl, next⟩
      split
      · exact Ensures.pure (parsed_last start expected)
      split
      · exact Ensures.pure (parsed_last start expected)
      split
      · next comma =>
          obtain ⟨token, rest, tokens, separates⟩ :=
            exists_next (next.symm.trans comma) (by decide)
          apply Ensures.bind_eq (readToken_ensures tokens)
          have shorter := expected.moves.length_le
          rw [tokens, List.length_cons] at shorter
          apply (induction _ _ (Nat.lt_of_lt_of_le shorter
            (Nat.le_of_lt_succ enough))).mono
          exact fun _ _ parsed => parsed_comma expected tokens separates parsed
      · exact Ensures.pure (parsed_last start expected)

/-! Values, properties and structs. -/

structure ValueParsed (text : Bytes) (context : ParserContext)
    (value : Option ValueNode) (final : ParserContext) : Prop where
  moves : Moves text context final
  placed : ∀ known, context.Known known →
    ∀ node, value = some node → node.Placed known
  accepted : final.Clean → ∃ word node, value = some node ∧
    context.Takes word final ∧ Grammar.Value word node
  named : ∀ depth, NamedFrom ⟨depth, .value⟩ context.tokens ↔
    NamedFrom ⟨depth, .outside⟩ final.tokens

structure PropertyParsed (text : Bytes) (context : ParserContext)
    (property : Option PropertyNode) (final : ParserContext) : Prop where
  moves : Moves text context final
  shorter : final.tokens.length < context.tokens.length
  placed : ∀ known, context.Known known →
    ∀ node, property = some node → node.Placed known
  accepted : final.Clean → ∃ word node, property = some node ∧
    context.Takes word final ∧ Grammar.Property word node
  named : ∀ depth, NamedFrom ⟨depth + 1, .outside⟩ context.tokens ↔
    NamedFrom ⟨depth + 1, .outside⟩ final.tokens

/-- The loop stops at a brace or at the end, at a brace that it starts at too. -/
structure PropertiesParsed (text : Bytes) (context : ParserContext)
    (start properties : List PropertyNode) (final : ParserContext) :
    Prop where
  moves : Moves text context final
  placed : ∀ known, context.Known known →
    (∀ property ∈ start, property.Placed known) →
    ∀ property ∈ properties, property.Placed known
  accepted : final.Clean → ∃ word new, properties = start ++ new ∧
    context.Takes word final ∧ Grammar.Properties word new
  closed : nextType context = .rbrace → properties = start ∧ final = context
  ends : ∀ token ∈ final.tokens.head?, token.getType = .rbrace
  named : ∀ depth, NamedFrom ⟨depth + 1, .outside⟩ context.tokens ↔
    NamedFrom ⟨depth + 1, .outside⟩ final.tokens

theorem PropertiesParsed.complete {start properties : List PropertyNode}
    {final : ParserContext}
    (parsed : PropertiesParsed text context start properties final)
    (held : ∀ property ∈ start, property.Placed fun _ => True) :
    ∀ property ∈ properties, property.Complete :=
  fun property member =>
    (parsed.placed _ (fun _ _ => trivial) held property member).complete

def literalTypes : List TokenType :=
  [.integerLiteral, .stringLiteral, .trueKeyword, .falseKeyword]

theorem parsed_literal {token : Token} {rest : List Token} {node : ValueNode}
    (tokens : context.tokens = token :: rest)
    (placed : ∀ known : TextRange → Prop, known token.range → node.Placed known)
    (value : Grammar.Value [token] node)
    (literal : token.getType ∈ literalTypes) :
    ValueParsed text context (some node) { context with tokens := rest } where
  moves := .read tokens
  placed known held _ same :=
    Option.some.inj same ▸ placed known (held.head tokens)
  accepted _ := by
    refine ⟨[token], node, rfl, ?_, value⟩
    rw [Takes, List.singleton_append, ← tokens]
  named depth := by
    have plain : ∀ type ∈ literalTypes, type ≠ .runLevelKeyword ∧
        type ≠ .identifier ∧ type ≠ .taskKeyword ∧ type ≠ .rbrace := by
      decide
    obtain ⟨runLevel, identifier, task, rbrace⟩ := plain _ literal
    rw [tokens, NamedFrom.cons runLevel, Outline.step, if_neg identifier,
      skip_plain depth task rbrace identifier]

theorem literal_ensures {Value : Type} {traits : TokenTraits Value}
    {node : Option Value → ValueNode} {token : Token} {rest : List Token}
    {value : Value} (tokens : context.tokens = token :: rest)
    (cast : traits.cast token = some value)
    (placed : ∀ known : TextRange → Prop, known token.range →
      (node (some value)).Placed known)
    (grammar : Grammar.Value [token] (node (some value)))
    (literal : token.getType ∈ literalTypes) :
    Ensures (do
      let lit ← assertToken traits
      return some (node lit)) context (ValueParsed text context) := by
  apply Ensures.bind_eq (assertToken_ensures tokens cast)
  exact Ensures.pure (parsed_literal tokens placed grammar literal)

theorem parsed_pseudo {tag : IdentifierToken} {rest : List Token}
    (tokens : context.tokens = tag.toToken :: rest)
    (noBrace : ∀ token ∈ rest.head?, token.getType ≠ .lbrace) :
    ValueParsed text context (some (.pseudoIdentifier (some tag)))
      { context with tokens := rest } where
  moves := .read tokens
  placed known held _ same :=
    Option.some.inj same ▸ .pseudoIdentifier tag (held.head tokens)
  accepted _ := by
    refine ⟨[tag.toToken], _, rfl, ?_, .id tag⟩
    rw [Takes, List.singleton_append, ← tokens]
  named depth := by
    rw [tokens, NamedFrom.cons (by simp)]
    refine NamedFrom.congr fun token first => ?_
    exact if_neg (noBrace token first)

theorem parsed_noValue (message : String)
    (noTag : nextType context ≠ .identifier) :
    ValueParsed text context none (context.pushError text message) where
  moves := .single (.error context message)
  placed _ _ _ same := absurd same (Option.some_ne_none _).symm
  accepted clean := absurd clean (pushError_not_clean message)
  named depth := by
    rw [pushError_tokens]
    refine NamedFrom.congr fun token first => if_neg ?_
    obtain ⟨rest, tokens⟩ := List.head?_eq_some_iff.mp first
    rwa [nextType, tokens] at noTag

theorem parsed_struct {tag : IdentifierToken} {lbrace : Token}
    {rest : List Token} {properties : List PropertyNode}
    {inside final : ParserContext} {closing : Option Token}
    (tokens : context.tokens = tag.toToken :: lbrace :: rest)
    (opens : lbrace.getType = .lbrace)
    (parsed : PropertiesParsed text { context with tokens := rest } []
      properties inside)
    (expected : Expected text rbrace inside closing final) :
    ValueParsed text context (some (.struct (some tag) properties)) final where
  moves := by
    have first : Moves text context { context with tokens := lbrace :: rest } :=
      .read tokens
    exact ((first.tail (.read rfl)).trans parsed.moves).trans expected.moves
  placed known held _ same := by
    obtain rfl := Option.some.inj same
    have braced : Known known { context with tokens := lbrace :: rest } :=
      held.tail tokens
    exact ValueNode.placed_struct tag (held.head tokens)
      (parsed.placed known (braced.tail rfl) (List.forall_mem_nil _))
  accepted clean := by
    obtain ⟨closing, _, -, last, cast⟩ := expected.accepted clean
    obtain ⟨word, new, rfl, middle, grammar⟩ :=
      parsed.accepted (last.clean clean)
    have first : context.Takes [tag.toToken, lbrace]
        { context with tokens := rest } := by
      rw [Takes, List.cons_append, List.singleton_append, ← tokens]
    exact ⟨_, _, rfl, first.trans (middle.trans last),
      .struct tag opens grammar (cast_ofType.mp cast).2⟩
  named depth := by
    have before : NamedFrom ⟨depth, .value⟩ context.tokens ↔
        NamedFrom ⟨depth + 1, .outside⟩ rest := by
      rw [tokens, NamedFrom.cons (by simp), NamedFrom.cons (by rw [opens]; decide),
        opens]
      rfl
    rw [before, parsed.named]
    cases expected with
    | found tokens cast =>
        rw [tokens, NamedFrom.cons_inside, (cast_ofType.mp cast).2]
        rfl
    | missing message absent =>
        rw [pushError_tokens]
        cases left : inside.tokens with
        | nil => exact Iff.rfl
        | cons token more =>
            have first : token ∈ inside.tokens.head? := by rw [left]; rfl
            exact absurd (parsed.ends token first)
              (cast_ofType_none.mp (absent token first))

theorem parseValue_step {fuel : Nat}
    (properties : ∀ (context : ParserContext) (start : List PropertyNode),
      context.tokens.length + 1 < fuel →
        Ensures (parseProperties text fuel start) context
          (PropertiesParsed text context start))
    (enough : context.tokens.length < fuel + 1) :
    Ensures (parseValue text (fuel + 1)) context (ValueParsed text context) := by
  rw [parseValue]
  apply Ensures.bind tt_ensures
  rintro type _ ⟨rfl, next⟩
  split
  · next same =>
      obtain ⟨_, rest, tokens, type⟩ := exists_next (next ▸ same) (by decide)
      obtain ⟨lit, rfl⟩ := Token.exists_integerLiteral type
      exact literal_ensures tokens (cast_integerLiteral.mpr rfl)
        (fun _ => .integer lit) (.int lit) (by simp [literalTypes])
  split
  · next same =>
      obtain ⟨_, rest, tokens, type⟩ := exists_next (next ▸ same) (by decide)
      obtain ⟨lit, rfl⟩ := Token.exists_stringLiteral type
      exact literal_ensures tokens (cast_stringLiteral.mpr rfl)
        (fun _ => .string lit) (.string lit) (by simp [literalTypes])
  split
  · next same =>
      obtain ⟨kw, rest, tokens, type⟩ := exists_next (next ▸ same) (by decide)
      exact literal_ensures tokens (cast_ofType.mpr ⟨rfl, type⟩)
        (fun _ => .boolean kw true) (.true type) (by simp [type, literalTypes])
  split
  · next same =>
      obtain ⟨kw, rest, tokens, type⟩ := exists_next (next ▸ same) (by decide)
      exact literal_ensures tokens (cast_ofType.mpr ⟨rfl, type⟩)
        (fun _ => .boolean kw false) (.false type) (by simp [type, literalTypes])
  split
  · next same =>
      obtain ⟨_, rest, tokens, type⟩ := exists_next (next ▸ same) (by decide)
      obtain ⟨tag, rfl⟩ := Token.exists_identifier type
      apply Ensures.bind (expectToken_ensures _ _)
      intro _ _ expected
      obtain ⟨rfl, rfl⟩ := expected.eq_found tokens (cast_identifier.mpr rfl)
      apply Ensures.bind tt_ensures
      rintro _ _ ⟨rfl, next⟩
      split
      · next noBrace =>
          refine Ensures.pure (parsed_pseudo tokens fun token first => ?_)
          obtain ⟨more, rfl⟩ := List.head?_eq_some_iff.mp first
          rw [next] at noBrace
          exact noBrace
      · next brace =>
          obtain ⟨lbrace, inside, left, opens⟩ :=
            exists_next (next ▸ Decidable.not_not.mp brace) (by decide)
          obtain rfl : rest = lbrace :: inside := left
          apply Ensures.bind (expectToken_ensures _ _)
          intro _ _ expected
          obtain ⟨rfl, rfl⟩ :=
            expected.eq_found rfl (cast_ofType.mpr ⟨rfl, opens⟩)
          rw [if_pos Option.isSome_some]
          have shorter : inside.length + 1 < fuel := by
            rw [tokens] at enough
            simpa using enough
          apply Ensures.bind (properties _ _ shorter)
          intro properties afterProperties parsed
          apply Ensures.bind (expectToken_ensures _ _)
          intro closing final expected
          obtain ⟨map, filled, -⟩ :=
            getPropertiesByName_returns (parsed.complete (List.forall_mem_nil _))
          apply Ensures.bind_eq (Ensures.lift filled)
          exact Ensures.pure (parsed_struct tokens opens parsed expected)
  · apply Ensures.bind (error_ensures _)
    rintro _ _ rfl
    exact Ensures.pure (parsed_noValue _ (next ▸ ‹_›))

theorem parsed_property {key : IdentifierToken} {rest : List Token}
    {eq : Option Token} {value : Option ValueNode}
    {afterEq final : ParserContext}
    (tokens : context.tokens = key.toToken :: rest)
    (expected : Expected text equals { context with tokens := rest } eq afterEq)
    (valued : ValueParsed text afterEq value final) :
    PropertyParsed text context
      (if eq.isNone then none else some ⟨some key, eq, value⟩) final where
  moves := ((Moves.read tokens).trans expected.moves).trans valued.moves
  shorter := Moves.shorter tokens (expected.moves.trans valued.moves)
  placed known held node same := by
    cases eq with
    | none => contradiction
    | some eq =>
        obtain rfl := Option.some.inj same
        have left := held.tail tokens
        exact ⟨⟨key, rfl, held.head tokens⟩,
          ⟨eq, rfl, expected.placed_ofType left eq rfl⟩,
          valued.placed known (expected.moves.known left)⟩
  accepted clean := by
    obtain ⟨word, node, rfl, last, grammar⟩ := valued.accepted clean
    obtain ⟨eq, _, rfl, middle, cast⟩ := expected.accepted (last.clean clean)
    obtain ⟨rfl, equals⟩ := cast_ofType.mp cast
    have first : context.Takes [key.toToken] { context with tokens := rest } := by
      rw [Takes, List.singleton_append, ← tokens]
    exact ⟨_, _, rfl, first.trans (middle.trans last),
      .intro key equals grammar⟩
  named depth := by
    rw [tokens, NamedFrom.cons (by simp), ← valued.named (depth + 1),
      ← expected.named_equals]
    rfl

theorem parseProperty_step {fuel : Nat}
    (values : ∀ context : ParserContext, context.tokens.length < fuel →
      Ensures (parseValue text fuel) context (ValueParsed text context))
    {key : IdentifierToken} {rest : List Token}
    (tokens : context.tokens = key.toToken :: rest)
    (enough : context.tokens.length < fuel + 1) :
    Ensures (parseProperty text (fuel + 1)) context
      (PropertyParsed text context) := by
  rw [parseProperty]
  apply Ensures.bind_eq (assertToken_ensures tokens (cast_identifier.mpr rfl))
  apply Ensures.bind (expectToken_ensures _ _)
  intro eq afterEq expected
  have shorter := expected.moves.length_le
  rw [tokens, List.length_cons] at enough
  apply Ensures.bind (values _ (Nat.lt_of_le_of_lt shorter
    (Nat.lt_of_succ_lt_succ enough)))
  intro value final valued
  have parsed := parsed_property tokens expected valued
  split
  · next missing =>
      rw [if_pos missing] at parsed
      exact Ensures.pure parsed
  · next present =>
      rw [if_neg present] at parsed
      exact Ensures.pure parsed

section Properties

variable {start properties : List PropertyNode} {property : Option PropertyNode}
  {afterProperty final : ParserContext}

theorem parsed_closed (start : List PropertyNode)
    (ends : ∀ token ∈ context.tokens.head?, token.getType = .rbrace) :
    PropertiesParsed text context start start context where
  moves := .refl
  placed _ _ held := held
  accepted _ := ⟨[], [], (List.append_nil start).symm, .refl context, .empty⟩
  closed _ := ⟨rfl, rfl⟩
  ends := ends
  named _ := Iff.rfl

theorem PropertyParsed.placed_append {known : TextRange → Prop}
    (parsed : PropertyParsed text context property final)
    (tokens : context.Known known)
    (held : ∀ property ∈ start, property.Placed known) :
    ∀ node ∈ start ++ property.toList, node.Placed known := by
  intro node member
  cases List.mem_append.mp member with
  | inl old => exact held node old
  | inr new => exact parsed.placed known tokens node (Option.mem_toList.mp new)

theorem parsed_lastProperty (next : nextType context = .identifier)
    (parsed : PropertyParsed text context property afterProperty)
    (closing : nextType afterProperty = .rbrace)
    (more : PropertiesParsed text afterProperty (start ++ property.toList)
      properties final) :
    PropertiesParsed text context start properties final where
  moves := parsed.moves.trans more.moves
  placed known tokens held := more.placed known (parsed.moves.known tokens)
    (parsed.placed_append tokens held)
  accepted clean := by
    obtain ⟨rfl, rfl⟩ := more.closed closing
    obtain ⟨word, node, rfl, takes, grammar⟩ := parsed.accepted clean
    exact ⟨word, [node], rfl, takes, .list (.last grammar)⟩
  closed brace := by
    rw [next] at brace
    contradiction
  ends := more.ends
  named depth := (parsed.named depth).trans (more.named depth)

theorem parsed_nextProperty (next : nextType context = .identifier)
    {comma : Option Token} {afterComma : ParserContext}
    (parsed : PropertyParsed text context property afterProperty)
    (expected : Expected text TokenTraits.comma afterProperty comma afterComma)
    (more : PropertiesParsed text afterComma (start ++ property.toList)
      properties final) :
    PropertiesParsed text context start properties final where
  moves := (parsed.moves.trans expected.moves).trans more.moves
  placed known tokens held :=
    more.placed known ((parsed.moves.trans expected.moves).known tokens)
      (parsed.placed_append tokens held)
  accepted clean := by
    obtain ⟨word, new, rfl, last, grammar⟩ := more.accepted clean
    obtain ⟨comma, _, -, middle, cast⟩ := expected.accepted (last.clean clean)
    obtain ⟨word', node, rfl, first, property⟩ :=
      parsed.accepted (middle.clean (last.clean clean))
    refine ⟨_, node :: new, ?_, first.trans (middle.trans last),
      .cons property (cast_ofType.mp cast).2 grammar⟩
    exact List.append_assoc start [node] new
  closed brace := by
    rw [next] at brace
    contradiction
  ends := more.ends
  named depth := by
    rw [parsed.named, expected.named_plain (by simp), more.named]

theorem parsed_noProperty {token : Token} {rest : List Token}
    (tokens : context.tokens = token :: rest)
    (noBrace : token.getType ≠ .rbrace)
    (noIdentifier : token.getType ≠ .identifier) (message : String)
    (more : PropertiesParsed text
      { context.pushError text message with tokens := rest } start properties
      final) :
    PropertiesParsed text context start properties final where
  moves := (Moves.skip tokens message).trans more.moves
  placed known held := more.placed known ((Moves.skip tokens message).known held)
  accepted clean := by
    obtain ⟨_, _, -, takes, -⟩ := more.accepted clean
    exact absurd (takes.clean clean) (pushError_not_clean message)
  closed brace := by
    rw [nextType, tokens] at brace
    exact absurd brace noBrace
  ends := more.ends
  named depth := by
    rw [tokens, NamedFrom.cons_inside, ← more.named, Outline.step, Outline.skip,
      if_neg noBrace, if_neg noIdentifier]

end Properties

theorem parseProperties_step {fuel : Nat}
    (property : ∀ (context : ParserContext) (key : IdentifierToken)
      (rest : List Token), context.tokens = key.toToken :: rest →
        context.tokens.length < fuel →
        Ensures (parseProperty text fuel) context (PropertyParsed text context))
    (properties : ∀ (context : ParserContext) (start : List PropertyNode),
      context.tokens.length + 1 < fuel →
        Ensures (parseProperties text fuel start) context
          (PropertiesParsed text context start))
    (start : List PropertyNode) (enough : context.tokens.length + 1 < fuel + 1) :
    Ensures (parseProperties text (fuel + 1) start) context
      (PropertiesParsed text context start) := by
  rw [parseProperties]
  apply Ensures.bind tt_ensures
  rintro type _ ⟨rfl, next⟩
  split
  · next eof =>
      refine Ensures.pure (parsed_closed start fun token first => ?_)
      rw [nextType_eof (next ▸ eof)] at first
      contradiction
  split
  · next brace =>
      refine Ensures.pure (parsed_closed start fun token first => ?_)
      obtain ⟨rest, tokens⟩ := List.head?_eq_some_iff.mp first
      rw [next, nextType, tokens] at brace
      exact brace
  split
  · next same =>
      rw [next] at same
      obtain ⟨_, rest, tokens, type⟩ := exists_next same (by decide)
      obtain ⟨key, rfl⟩ := Token.exists_identifier type
      apply Ensures.bind (property _ key rest tokens (Nat.lt_of_succ_lt_succ enough))
      intro property afterProperty parsed
      have shorter := parsed.shorter
      apply Ensures.bind tt_ensures
      rintro _ _ ⟨rfl, after⟩
      split
      · apply Ensures.bind (expectToken_ensures _ _)
        intro comma afterComma expected
        have smaller := expected.moves.length_le
        apply (properties _ _ (by omega)).mono
        exact fun _ _ more => parsed_nextProperty same parsed expected more
      · next closing =>
          apply (properties _ _ (by omega)).mono
          exact fun _ _ more => parsed_lastProperty same parsed
            (after ▸ Decidable.not_not.mp closing) more
  · next noEof noBrace noIdentifier =>
      rw [next] at noEof noBrace noIdentifier
      obtain ⟨token, rest, tokens, type⟩ := exists_next rfl noEof
      apply Ensures.bind (error_ensures _)
      rintro _ _ rfl
      apply Ensures.bind_eq (readToken_ensures (by rw [pushError_tokens, tokens]))
      rw [tokens] at enough
      apply (properties _ _ (Nat.lt_of_succ_lt_succ enough)).mono
      exact fun _ _ more => parsed_noProperty tokens (type ▸ noBrace)
        (type ▸ noIdentifier) _ more

theorem parseValue_all : ∀ fuel : Nat,
    (∀ context : ParserContext, context.tokens.length < fuel →
      Ensures (parseValue text fuel) context (ValueParsed text context)) ∧
    (∀ (context : ParserContext) (key : IdentifierToken) (rest : List Token),
      context.tokens = key.toToken :: rest → context.tokens.length < fuel →
        Ensures (parseProperty text fuel) context
          (PropertyParsed text context)) ∧
    ∀ (context : ParserContext) (start : List PropertyNode),
      context.tokens.length + 1 < fuel →
        Ensures (parseProperties text fuel start) context
          (PropertiesParsed text context start) := by
  intro fuel
  induction fuel with
  | zero =>
      exact ⟨fun _ enough => absurd enough (Nat.not_lt_zero _),
        fun _ _ _ _ enough => absurd enough (Nat.not_lt_zero _),
        fun _ _ enough => absurd enough (Nat.not_lt_zero _)⟩
  | succ fuel induction =>
      obtain ⟨values, property, properties⟩ := induction
      exact ⟨fun _ => parseValue_step properties,
        fun _ _ _ => parseProperty_step values,
        fun _ => parseProperties_step property properties⟩

theorem parseValue_ensures {fuel : Nat}
    (enough : context.tokens.length < fuel) :
    Ensures (parseValue text fuel) context (ValueParsed text context) :=
  (parseValue_all fuel).1 context enough

theorem parseProperty_ensures {fuel : Nat} {key : IdentifierToken}
    {rest : List Token} (tokens : context.tokens = key.toToken :: rest)
    (enough : context.tokens.length < fuel) :
    Ensures (parseProperty text fuel) context (PropertyParsed text context) :=
  (parseValue_all fuel).2.1 context key rest tokens enough

theorem parseProperties_ensures {fuel : Nat} (start : List PropertyNode)
    (enough : context.tokens.length + 1 < fuel) :
    Ensures (parseProperties text fuel start) context
      (PropertiesParsed text context start) :=
  (parseValue_all fuel).2.2 context start enough

end Initd.Parser
