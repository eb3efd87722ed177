import Initd.Library.Triple
import Initd.Parser.Parser
import Mathlib.Logic.Relation

namespace Initd

open Library

namespace ParserContext

variable {text : Bytes} {context middle final : ParserContext}

def Clean (context : ParserContext) : Prop := context.lastErrorPlace = none

/-- The tokens of a word are read, and nothing else happens. -/
def Takes (context : ParserContext) (word : List Token)
    (final : ParserContext) : Prop :=
  context = { final with tokens := word ++ final.tokens }

/-- What the parser does to its context. -/
inductive Step (text : Bytes) : ParserContext → ParserContext → Prop
  | read {context : ParserContext} {token : Token} {rest : List Token}
      (next : context.tokens = token :: rest) :
      Step text context { context with tokens := rest }
  | error (context : ParserContext) (message : String) :
      Step text context (context.pushError text message)

def Moves (text : Bytes) : ParserContext → ParserContext → Prop :=
  Relation.ReflTransGen (Step text)

@[simp] theorem pushError_tokens (message : String) :
    (context.pushError text message).tokens = context.tokens := by
  simp only [pushError]
  split <;> rfl

theorem pushError_not_clean (message : String) :
    ¬ (context.pushError text message).Clean := by
  simp only [pushError, Clean]
  split
  · exact Option.some_ne_none _
  · next same =>
      rw [Decidable.not_not.mp same]
      exact Option.some_ne_none _

theorem Takes.refl (context : ParserContext) : context.Takes [] context := rfl

theorem Takes.trans {first second : List Token}
    (left : context.Takes first middle) (right : middle.Takes second final) :
    context.Takes (first ++ second) final := by
  rw [right] at left
  rw [Takes, left, List.append_assoc]

theorem Takes.clean {word : List Token} (takes : context.Takes word final)
    (clean : final.Clean) : context.Clean := by
  rw [takes]
  exact clean

theorem Step.length_le (step : Step text context final) :
    final.tokens.length ≤ context.tokens.length := by
  cases step with
  | read next =>
      rw [next]
      exact Nat.le_succ _
  | error message => exact Nat.le_of_eq (by rw [pushError_tokens])

theorem Moves.trans (left : Moves text context middle)
    (right : Moves text middle final) : Moves text context final :=
  Relation.ReflTransGen.trans left right

theorem Moves.read {token : Token} {rest : List Token}
    (next : context.tokens = token :: rest) :
    Moves text context { context with tokens := rest } :=
  .single (.read next)

theorem Moves.skip {token : Token} {rest : List Token}
    (next : context.tokens = token :: rest) (message : String) :
    Moves text context
      { context.pushError text message with tokens := rest } := by
  have reported : Moves text context (context.pushError text message) :=
    .single (.error context message)
  exact reported.trans (.read (by rw [pushError_tokens, next]))

theorem Moves.length_le (moves : Moves text context final) :
    final.tokens.length ≤ context.tokens.length := by
  induction moves with
  | refl => exact Nat.le_refl _
  | tail _ step induction => exact Nat.le_trans step.length_le induction

theorem Moves.shorter {token : Token} {rest : List Token}
    (tokens : context.tokens = token :: rest)
    (moves : Moves text { context with tokens := rest } final) :
    final.tokens.length < context.tokens.length := by
  rw [tokens]
  exact Nat.lt_succ_of_le moves.length_le

/-- The tokens that the lexer still has to give stand at known places. -/
def Known (known : TextRange → Prop) (context : ParserContext) : Prop :=
  ∀ token ∈ context.tokens, known token.range

theorem Step.known {known : TextRange → Prop} (step : Step text context final)
    (placed : context.Known known) : final.Known known := by
  cases step with
  | read next =>
      rw [Known, next] at placed
      exact fun token member => placed token (List.mem_cons_of_mem _ member)
  | error message =>
      rw [Known, pushError_tokens]
      exact placed

theorem Moves.known {known : TextRange → Prop} (moves : Moves text context final)
    (placed : context.Known known) : final.Known known := by
  induction moves with
  | refl => exact placed
  | tail _ step induction => exact step.known induction

theorem Known.head {known : TextRange → Prop} {token : Token}
    {rest : List Token} (placed : context.Known known)
    (tokens : context.tokens = token :: rest) : known token.range := by
  rw [Known, tokens] at placed
  exact placed token List.mem_cons_self

theorem Known.tail {known : TextRange → Prop} {token : Token}
    {rest : List Token} (placed : context.Known known)
    (tokens : context.tokens = token :: rest) :
    Known known { context with tokens := rest } := by
  rw [Known, tokens] at placed
  exact fun token member => placed token (List.mem_cons_of_mem _ member)

theorem errorPlace_le (text : Bytes) : ∀ pos, errorPlace text pos ≤ pos
  | 0 => Nat.le_refl 0
  | pos + 1 => by
      rw [errorPlace]
      split
      · exact Nat.le_succ_of_le (errorPlace_le text pos)
      · exact Nat.le_refl _

theorem peekPlace_le (placed : context.Known (·.Inside 0 text.length)) :
    context.peekPlace text ≤ text.length := by
  unfold peekPlace
  split
  · exact Nat.le_refl _
  · next tokens =>
      have inside := placed.head tokens
      exact Nat.le_trans inside.ordered inside.le_finish

theorem Step.errors_inside (step : Step text context final)
    (placed : context.Known (·.Inside 0 text.length))
    (inside : ∀ error ∈ context.errors, error.range.Inside 0 text.length) :
    ∀ error ∈ final.errors, error.range.Inside 0 text.length := by
  cases step with
  | read _ => exact inside
  | error message =>
      have place := Nat.le_trans
        (errorPlace_le text (context.peekPlace text)) (peekPlace_le placed)
      simp only [pushError]
      split
      · exact List.forall_mem_append.mpr ⟨inside,
          List.forall_mem_singleton.mpr ⟨Nat.zero_le _, Nat.le_refl _, place⟩⟩
      · exact inside

theorem Moves.errors_inside (moves : Moves text context final)
    (placed : context.Known (·.Inside 0 text.length))
    (inside : ∀ error ∈ context.errors, error.range.Inside 0 text.length) :
    ∀ error ∈ final.errors, error.range.Inside 0 text.length := by
  induction moves with
  | refl => exact inside
  | tail before step induction =>
      exact step.errors_inside (Moves.known before placed) induction

/-- There are errors in the sink exactly if there is a last error. -/
def Honest (context : ParserContext) : Prop :=
  context.Clean ↔ context.errors = []

theorem Step.honest (step : Step text context final)
    (honest : context.Honest) : final.Honest := by
  cases step with
  | read _ => exact honest
  | error message =>
      refine iff_of_false (pushError_not_clean message) ?_
      simp only [pushError]
      split
      · exact fun empty => List.cons_ne_nil _ _ (List.append_eq_nil_iff.mp empty).2
      · next same =>
          intro empty
          have clean := honest.mpr empty
          rw [Clean, Decidable.not_not.mp same] at clean
          exact Option.some_ne_none _ clean

theorem Moves.honest (moves : Moves text context final)
    (honest : context.Honest) : final.Honest := by
  induction moves with
  | refl => exact honest
  | tail _ step induction => exact step.honest induction

end ParserContext

/-! The casts of the traits. -/

namespace TokenTraits

theorem cast_identifier {token : Token} {id : IdentifierToken} :
    identifier.cast token = some id ↔ token = id.toToken := by
  obtain ⟨range, kind⟩ := token
  cases id
  cases kind <;> simp [identifier, IdentifierToken.toToken]

theorem cast_identifier_none {token : Token} :
    identifier.cast token = none ↔ token.getType ≠ .identifier := by
  obtain ⟨range, kind⟩ := token
  cases kind with
  | simple type isSimple =>
      refine iff_of_true rfl fun same => ?_
      cases (show type = .identifier from same)
      contradiction
  | _ => simp [identifier, Token.getType, TokenKind.getType]

theorem cast_integerLiteral {token : Token} {lit : IntegerLiteralToken} :
    integerLiteral.cast token = some lit ↔ token = lit.toToken := by
  obtain ⟨range, kind⟩ := token
  cases lit
  cases kind <;> simp [integerLiteral, IntegerLiteralToken.toToken]

theorem cast_stringLiteral {token : Token} {lit : StringLiteralToken} :
    stringLiteral.cast token = some lit ↔ token = lit.toToken := by
  obtain ⟨range, kind⟩ := token
  cases lit
  cases kind <;> simp [stringLiteral, StringLiteralToken.toToken]

theorem cast_ofType {type : TokenType} {errorMsg : String}
    {token value : Token} :
    (ofType type errorMsg).cast token = some value ↔
      token = value ∧ token.getType = type := by
  simp only [ofType]
  split
  · next same => simp [same]
  · next different => simp [different]

theorem cast_ofType_none {type : TokenType} {errorMsg : String}
    {token : Token} :
    (ofType type errorMsg).cast token = none ↔ token.getType ≠ type := by
  simp [ofType]

end TokenTraits

theorem Token.exists_identifier {token : Token}
    (type : token.getType = .identifier) :
    ∃ id : IdentifierToken, token = id.toToken := by
  obtain ⟨range, kind⟩ := token
  cases kind with
  | identifier text => exact ⟨⟨range, text⟩, rfl⟩
  | simple type' isSimple =>
      cases (show type' = .identifier from type)
      contradiction
  | _ => cases type

theorem Token.exists_integerLiteral {token : Token}
    (type : token.getType = .integerLiteral) :
    ∃ lit : IntegerLiteralToken, token = lit.toToken := by
  obtain ⟨range, kind⟩ := token
  cases kind with
  | integerLiteral value => exact ⟨⟨range, value⟩, rfl⟩
  | simple type' isSimple =>
      cases (show type' = .integerLiteral from type)
      contradiction
  | _ => cases type

theorem Token.exists_stringLiteral {token : Token}
    (type : token.getType = .stringLiteral) :
    ∃ lit : StringLiteralToken, token = lit.toToken := by
  obtain ⟨range, kind⟩ := token
  cases kind with
  | stringLiteral value => exact ⟨⟨range, value⟩, rfl⟩
  | simple type' isSimple =>
      cases (show type' = .stringLiteral from type)
      contradiction
  | _ => cases type

namespace Parser

open ParserContext

variable {text : Bytes} {context : ParserContext} {Value : Type}

def nextType (context : ParserContext) : TokenType :=
  match context.tokens with
  | [] => .eof
  | token :: _ => token.getType

theorem tt_ensures :
    Ensures tt context fun type final =>
      final = context ∧ type = nextType context := by
  refine ⟨nextType context, context, ?_, rfl, rfl⟩
  obtain ⟨tokens, _, _⟩ := context
  cases tokens <;> rfl

theorem nextType_eof (eof : nextType context = .eof) : context.tokens = [] := by
  unfold nextType at eof
  split at eof
  · assumption
  · exact absurd eof (TokenKind.getType_ne_eof _)

theorem exists_next {type : TokenType} (next : nextType context = type)
    (inside : type ≠ .eof) :
    ∃ token rest, context.tokens = token :: rest ∧ token.getType = type := by
  unfold nextType at next
  split at next
  · exact absurd next.symm inside
  · next token rest tokens => exact ⟨token, rest, tokens, next⟩

theorem readToken_ensures {token : Token} {rest : List Token}
    (tokens : context.tokens = token :: rest) :
    Ensures readToken context fun result final =>
      result = some token ∧ final = { context with tokens := rest } := by
  refine ⟨some token, { context with tokens := rest }, ?_, rfl, rfl⟩
  obtain ⟨_, _, _⟩ := context
  subst tokens
  rfl

theorem assertToken_ensures {traits : TokenTraits Value} {token : Token}
    {rest : List Token} {value : Value}
    (tokens : context.tokens = token :: rest)
    (cast : traits.cast token = some value) :
    Ensures (assertToken traits) context fun result final =>
      result = some value ∧ final = { context with tokens := rest } := by
  unfold assertToken
  apply Ensures.bind_eq (readToken_ensures tokens)
  apply Ensures.bind_eq (Ensures.lift rfl)
  simp only [cast]
  exact Ensures.pure ⟨rfl, rfl⟩

theorem error_ensures (message : String) :
    Ensures (error text message) context fun _ final =>
      final = context.pushError text message :=
  ⟨⟨⟩, _, rfl, rfl⟩

/-- An expected token is read, or its absence is reported. -/
inductive Expected (text : Bytes) (traits : TokenTraits Value)
    (context : ParserContext) : Option Value → ParserContext → Prop
  | found {token : Token} {rest : List Token} {value : Value}
      (tokens : context.tokens = token :: rest)
      (cast : traits.cast token = some value) :
      Expected text traits context (some value) { context with tokens := rest }
  | missing (message : String)
      (absent : ∀ token ∈ context.tokens.head?, traits.cast token = none) :
      Expected text traits context none (context.pushError text message)

theorem expectToken_ensures (traits : TokenTraits Value) (message : String) :
    Ensures (expectToken text traits message) context
      (Expected text traits context) := by
  unfold expectToken
  apply Ensures.bind_eq Ensures.get
  split
  · next value found =>
      obtain ⟨token, first, cast⟩ := Option.bind_eq_some_iff.mp found
      obtain ⟨rest, tokens⟩ := List.head?_eq_some_iff.mp first
      apply Ensures.bind_eq (readToken_ensures tokens)
      exact Ensures.pure (.found tokens cast)
  · next absent =>
      apply Ensures.bind (error_ensures message)
      rintro _ _ rfl
      refine Ensures.pure (.missing message fun token first => ?_)
      rw [Option.mem_def.mp first] at absent
      exact absent

namespace Expected

variable {traits : TokenTraits Value} {result : Option Value}
  {final : ParserContext}

theorem moves (expected : Expected text traits context result final) :
    Moves text context final := by
  cases expected with
  | found tokens _ => exact .read tokens
  | missing message _ => exact .single (.error context message)

theorem eq_found {token : Token} {rest : List Token} {value : Value}
    (expected : Expected text traits context result final)
    (tokens : context.tokens = token :: rest)
    (cast : traits.cast token = some value) :
    result = some value ∧ final = { context with tokens := rest } := by
  cases expected with
  | found tokens' cast' =>
      obtain ⟨rfl, rfl⟩ := List.cons.inj (tokens'.symm.trans tokens)
      exact ⟨cast'.symm.trans cast, rfl⟩
  | missing _ absent =>
      rw [tokens] at absent
      have none := absent token rfl
      rw [cast] at none
      contradiction

theorem accepted (expected : Expected text traits context result final)
    (clean : final.Clean) :
    ∃ token value, result = some value ∧ context.Takes [token] final ∧
      traits.cast token = some value := by
  cases expected with
  | @found token rest value tokens cast =>
      refine ⟨token, value, rfl, ?_, cast⟩
      obtain ⟨_, _, _⟩ := context
      subst tokens
      rfl
  | missing message _ => exact absurd clean (pushError_not_clean message)

theorem placed {known : TextRange → Prop} {range : Value → TextRange}
    (expected : Expected text traits context result final)
    (cast_range : ∀ token value, traits.cast token = some value →
      range value = token.range)
    (held : context.Known known) :
    ∀ value, result = some value → known (range value) := by
  intro value found
  cases expected with
  | found tokens cast =>
      obtain rfl := Option.some.inj found
      rw [cast_range _ _ cast]
      exact held.head tokens
  | missing message _ => contradiction

theorem placed_identifier {known : TextRange → Prop}
    {result : Option IdentifierToken}
    (expected : Expected text .identifier context result final)
    (held : context.Known known) :
    ∀ token, result = some token → known token.range :=
  expected.placed
    (fun _ _ cast => by rw [TokenTraits.cast_identifier.mp cast]; rfl) held

theorem placed_ofType {known : TextRange → Prop} {type : TokenType}
    {errorMsg : String} {result : Option Token}
    (expected : Expected text (.ofType type errorMsg) context result final)
    (held : context.Known known) :
    ∀ token, result = some token → known token.range :=
  expected.placed
    (fun _ _ cast => by rw [(TokenTraits.cast_ofType.mp cast).1]) held

end Expected

end Parser

end Initd
