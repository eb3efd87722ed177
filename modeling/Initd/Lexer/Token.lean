import Initd.Config.TaskData

namespace Initd

/-- A range of the text, by the offsets of its two ends. -/
structure TextRange where
  start : Nat
  finish : Nat
  deriving DecidableEq, Repr

namespace TextRange

def makeEmpty (pos : Nat) : TextRange := ⟨pos, pos⟩

structure Inside (range : TextRange) (start finish : Nat) : Prop where
  start_le : start ≤ range.start
  ordered : range.start ≤ range.finish
  le_finish : range.finish ≤ finish

theorem Inside.mono {range : TextRange} {start finish before after : Nat}
    (inside : range.Inside start finish) (earlier : before ≤ start)
    (later : finish ≤ after) : range.Inside before after :=
  ⟨Nat.le_trans earlier inside.start_le, inside.ordered,
    Nat.le_trans inside.le_finish later⟩

end TextRange

structure ErrorTag where
  range : TextRange
  message : Bytes
  deriving DecidableEq, Repr

inductive TokenType
  | unknown
  | eof
  | error
  | whitespace
  | identifier
  | integerLiteral
  | stringLiteral
  | lbrace
  | rbrace
  | equals
  | semicolon
  | comma
  | colon
  | taskKeyword
  | trueKeyword
  | falseKeyword
  | dependsKeyword
  | runLevelKeyword
  deriving DecidableEq, Repr

/-- The types that a `simple_token` has; a token of any other type has a class
of its own, and none has the type `eof`. -/
def TokenType.isSimple : TokenType → Bool
  | .eof | .error | .identifier | .integerLiteral | .stringLiteral => false
  | _ => true

/-- A token without its range. -/
inductive TokenKind
  | identifier (text : Bytes)
  | integerLiteral (value : Int32)
  | stringLiteral (value : Bytes)
  | simple (type : TokenType) (isSimple : type.isSimple = true)
  deriving DecidableEq

structure Token where
  range : TextRange
  kind : TokenKind
  deriving DecidableEq

def TokenKind.getType : TokenKind → TokenType
  | .identifier _ => .identifier
  | .integerLiteral _ => .integerLiteral
  | .stringLiteral _ => .stringLiteral
  | .simple type _ => type

def Token.getType (token : Token) : TokenType := token.kind.getType

@[simp] theorem TokenKind.getType_ne_eof (kind : TokenKind) :
    kind.getType ≠ .eof := by
  cases kind with
  | simple type isSimple =>
      rintro rfl
      contradiction
  | _ => simp [getType]

/-! A pointer to a token of a class of its own, past its `static_cast`. -/

structure IdentifierToken where
  range : TextRange
  text : Bytes
  deriving DecidableEq, Repr

structure IntegerLiteralToken where
  range : TextRange
  value : Int32
  deriving DecidableEq, Repr

structure StringLiteralToken where
  range : TextRange
  value : Bytes
  deriving DecidableEq, Repr

def IdentifierToken.toToken (token : IdentifierToken) : Token :=
  ⟨token.range, .identifier token.text⟩

def IntegerLiteralToken.toToken (token : IntegerLiteralToken) : Token :=
  ⟨token.range, .integerLiteral token.value⟩

def StringLiteralToken.toToken (token : StringLiteralToken) : Token :=
  ⟨token.range, .stringLiteral token.value⟩

@[simp] theorem IdentifierToken.getType_toToken (token : IdentifierToken) :
    token.toToken.getType = .identifier := rfl

@[simp] theorem IntegerLiteralToken.getType_toToken
    (token : IntegerLiteralToken) :
    token.toToken.getType = .integerLiteral := rfl

@[simp] theorem StringLiteralToken.getType_toToken
    (token : StringLiteralToken) :
    token.toToken.getType = .stringLiteral := rfl

end Initd
