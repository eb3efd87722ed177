import Initd.Lexer.Token

namespace Initd

/-- What stops a `lexer`: a failed assertion, or the fuel of a loop. -/
inductive LexerFault
  | peekChar
  | advanceChar
  | fuel
  deriving DecidableEq, Repr

/-- The bytes from `pos` to `end` stand for the pointers into the text, and
`errors` is what its sink has received. -/
structure Lexer where
  pos : Nat
  rest : Bytes
  errors : List ErrorTag
  deriving DecidableEq, Repr

def isIdentifierStart (c : UInt8) : Bool :=
  'A'.toUInt8 ≤ c && c ≤ 'Z'.toUInt8 ||
    'a'.toUInt8 ≤ c && c ≤ 'z'.toUInt8 || c == '_'.toUInt8

def isIdentifierTrail (c : UInt8) : Bool :=
  'A'.toUInt8 ≤ c && c ≤ 'Z'.toUInt8 ||
    'a'.toUInt8 ≤ c && c ≤ 'z'.toUInt8 ||
    '0'.toUInt8 ≤ c && c ≤ '9'.toUInt8 || c == '_'.toUInt8

def isNumber (c : UInt8) : Bool := '0'.toUInt8 ≤ c && c ≤ '9'.toUInt8

def charToNumber (c : UInt8) : Int32 :=
  Int32.ofNat (c.toNat - '0'.toUInt8.toNat)

/-- Bytes from 128 on are no whitespace, whatever the sign of `char`. -/
def isAsciiWhitespace (c : UInt8) : Bool := c ≤ ' '.toUInt8

def makeIdentifierToken (range : TextRange) (text : Bytes) : Token :=
  if text = ascii "task" then
    ⟨range, .simple .taskKeyword rfl⟩
  else if text = ascii "true" then
    ⟨range, .simple .trueKeyword rfl⟩
  else if text = ascii "false" then
    ⟨range, .simple .falseKeyword rfl⟩
  else if text = ascii "depends" then
    ⟨range, .simple .dependsKeyword rfl⟩
  else if text = ascii "run_level" then
    ⟨range, .simple .runLevelKeyword rfl⟩
  else
    ⟨range, .identifier text⟩

/-- The switch on the character after a backslash, without its `default`. -/
def escapedChar (c : UInt8) : Option UInt8 :=
  if c = 'a'.toUInt8 then some 7
  else if c = 'b'.toUInt8 then some 8
  else if c = 'f'.toUInt8 then some 12
  else if c = 'n'.toUInt8 then some 10
  else if c = 'r'.toUInt8 then some 13
  else if c = 't'.toUInt8 then some 9
  else if c = 'v'.toUInt8 then some 11
  else if c = '\\'.toUInt8 then some '\\'.toUInt8
  else if c = '\''.toUInt8 then some '\''.toUInt8
  else if c = '"'.toUInt8 then some '"'.toUInt8
  else none

/-- Where the prefix of a raw string literal ends without its parenthesis. -/
def endsRawPrefix (c : UInt8) : Bool :=
  c == ' '.toUInt8 || c == ')'.toUInt8 || c == 9 || c == 11 || c == 13 ||
    c == 10

namespace Lexer

def eofChar (lexer : Lexer) : Bool := lexer.rest.isEmpty

def peekChar (lexer : Lexer) : Except LexerFault UInt8 :=
  match lexer.rest with
  | [] => .error .peekChar
  | c :: _ => .ok c

def advanceChar (n : Nat) (lexer : Lexer) : Except LexerFault Lexer :=
  if n ≤ lexer.rest.length then
    .ok { lexer with pos := lexer.pos + n, rest := lexer.rest.drop n }
  else
    .error .advanceChar

def push (range : TextRange) (message : String) (lexer : Lexer) : Lexer :=
  { lexer with errors := lexer.errors ++ [⟨range, ascii message⟩] }

/-- The two bytes at `pos`, if there are two. -/
def isNext (first second : UInt8) (lexer : Lexer) : Bool :=
  match lexer.rest with
  | a :: b :: _ => a == first && b == second
  | _ => false

def isSingleLineCommentStart : Lexer → Bool :=
  isNext '/'.toUInt8 '/'.toUInt8

def isSingleLineCommentEnd (lexer : Lexer) : Bool :=
  match lexer.rest with
  | [] => false
  | c :: _ => c == '\n'.toUInt8

def isMultiLineCommentStart : Lexer → Bool :=
  isNext '/'.toUInt8 '*'.toUInt8

def isMultiLineCommentEnd : Lexer → Bool :=
  isNext '*'.toUInt8 '/'.toUInt8

def isRawStringLiteralStart : Lexer → Bool :=
  isNext 'R'.toUInt8 '"'.toUInt8

def isRawStringLiteralEnd (pre : Bytes) (lexer : Lexer) : Bool :=
  if lexer.rest.length < 2 + pre.length then
    false
  else
    lexer.rest[0]? == some ')'.toUInt8 &&
      (lexer.rest.drop 1).take pre.length == pre &&
      lexer.rest[1 + pre.length]? == some '"'.toUInt8

/-! Each loop takes the number of its rounds as fuel. -/

def skipWhitespace : Nat → Lexer → Except LexerFault Lexer
  | 0, _ => .error .fuel
  | fuel + 1, lexer => do
      if lexer.eofChar then
        return lexer
      if !isAsciiWhitespace (← lexer.peekChar) then
        return lexer
      skipWhitespace fuel (← lexer.advanceChar 1)

def skipSingleLineComment : Nat → Lexer → Except LexerFault Lexer
  | 0, _ => .error .fuel
  | fuel + 1, lexer => do
      if lexer.eofChar || lexer.isSingleLineCommentEnd then
        lexer.advanceChar 1
      else
        skipSingleLineComment fuel (← lexer.advanceChar 1)

def skipMultiLineComment : Nat → Lexer → Except LexerFault Lexer
  | 0, _ => .error .fuel
  | fuel + 1, lexer => do
      if lexer.eofChar then
        return lexer.push (.makeEmpty lexer.pos) "unterminated comment"
      else if lexer.isMultiLineCommentEnd then
        lexer.advanceChar 2
      else
        skipMultiLineComment fuel (← lexer.advanceChar 1)

/-- The prefix of a raw string literal, or `none` where its parenthesis is
missing. -/
def readRawPrefix :
    Nat → Bytes → Lexer → Except LexerFault (Option Bytes × Lexer)
  | 0, _, _ => .error .fuel
  | fuel + 1, pre, lexer => do
      if lexer.eofChar then
        return (none, lexer)
      let c ← lexer.peekChar
      if endsRawPrefix c then
        return (none, lexer)
      else if c = '('.toUInt8 then
        return (some pre, ← lexer.advanceChar 1)
      else
        readRawPrefix fuel (pre ++ [c]) (← lexer.advanceChar 1)

def readRawValue (lexStart : Nat) (pre : Bytes) :
    Nat → Bytes → Lexer → Except LexerFault (Bytes × Lexer)
  | 0, _, _ => .error .fuel
  | fuel + 1, value, lexer => do
      if lexer.eofChar then
        return (value, lexer.push ⟨lexStart, lexer.pos⟩ "unterminated string")
      else if lexer.isRawStringLiteralEnd pre then
        return (value, ← lexer.advanceChar (2 + pre.length))
      else
        let c ← lexer.peekChar
        readRawValue lexStart pre fuel (value ++ [c]) (← lexer.advanceChar 1)

def readRawString (lexer : Lexer) : Except LexerFault (Token × Lexer) := do
  let lexStart := lexer.pos
  let lexer ← lexer.advanceChar 2
  match ← readRawPrefix (lexer.rest.length + 1) [] lexer with
  | (none, lexer) =>
      let r : TextRange := ⟨lexStart, lexer.pos⟩
      return (⟨r, .stringLiteral []⟩,
        lexer.push r "expected '(' in raw string literal")
  | (some pre, lexer) =>
      let (value, lexer) ←
        readRawValue lexStart pre (lexer.rest.length + 1) [] lexer
      return (⟨⟨lexStart, lexer.pos⟩, .stringLiteral value⟩, lexer)

/-- The loop over the characters of one kind in an identifier or a number. -/
def readWhile {Value : Type} (continues : UInt8 → Bool)
    (extend : Value → UInt8 → Value) :
    Nat → Value → Lexer → Except LexerFault (Value × Lexer)
  | 0, _, _ => .error .fuel
  | fuel + 1, value, lexer => do
      if lexer.eofChar then
        return (value, lexer)
      let c ← lexer.peekChar
      if continues c then
        readWhile continues extend fuel (extend value c) (← lexer.advanceChar 1)
      else
        return (value, lexer)

def readIdentifier (lexer : Lexer) : Except LexerFault (Token × Lexer) := do
  let lexStart := lexer.pos
  let c ← lexer.peekChar
  let lexer ← lexer.advanceChar 1
  let (s, lexer) ← readWhile isIdentifierTrail (fun s c => s ++ [c])
    (lexer.rest.length + 1) [c] lexer
  return (makeIdentifierToken ⟨lexStart, lexer.pos⟩ s, lexer)

/-- The arithmetic is that of `int`, which wraps where the source overflows. -/
def readNumber (lexer : Lexer) : Except LexerFault (Token × Lexer) := do
  let lexStart := lexer.pos
  let c ← lexer.peekChar
  let lexer ← lexer.advanceChar 1
  let (value, lexer) ← readWhile isNumber
    (fun value c => value * 10 + charToNumber c)
    (lexer.rest.length + 1) (charToNumber c) lexer
  return (⟨⟨lexStart, lexer.pos⟩, .integerLiteral value⟩, lexer)

def readStringValue (lexStart : Nat) :
    Nat → Bytes → Lexer → Except LexerFault (Bytes × Lexer)
  | 0, _, _ => .error .fuel
  | fuel + 1, value, lexer => do
      if lexer.eofChar then
        return (value, lexer.push ⟨lexStart, lexer.pos⟩ "unterminated string")
      let c ← lexer.peekChar
      if c = '\n'.toUInt8 then
        return (value, lexer.push ⟨lexStart, lexer.pos⟩ "unterminated string")
      else if c = '"'.toUInt8 then
        return (value, ← lexer.advanceChar 1)
      else if c = '\\'.toUInt8 then
        let escapeStart := lexer.pos
        let lexer ← lexer.advanceChar 1
        if lexer.eofChar then
          readStringValue lexStart fuel value lexer
        else
          let c ← lexer.peekChar
          match escapedChar c with
          | some escaped =>
              readStringValue lexStart fuel (value ++ [escaped])
                (← lexer.advanceChar 1)
          | none =>
              let lexer := lexer.push ⟨escapeStart, lexer.pos + 1⟩
                "invalid escape character"
              readStringValue lexStart fuel (value ++ ['\\'.toUInt8, c])
                (← lexer.advanceChar 1)
      else
        readStringValue lexStart fuel (value ++ [c]) (← lexer.advanceChar 1)

def readString (lexer : Lexer) : Except LexerFault (Token × Lexer) := do
  let lexStart := lexer.pos
  let lexer ← lexer.advanceChar 1
  let (value, lexer) ←
    readStringValue lexStart (lexer.rest.length + 1) [] lexer
  return (⟨⟨lexStart, lexer.pos⟩, .stringLiteral value⟩, lexer)

def readSimple (type : TokenType) (isSimple : type.isSimple = true)
    (lexer : Lexer) : Except LexerFault (Token × Lexer) := do
  let lexStart := lexer.pos
  let lexer ← lexer.advanceChar 1
  return (⟨⟨lexStart, lexer.pos⟩, .simple type isSimple⟩, lexer)

/-- The branches that return a token. -/
def readTokenHere (lexer : Lexer) : Except LexerFault (Token × Lexer) := do
  if lexer.isRawStringLiteralStart then
    lexer.readRawString
  else if isIdentifierStart (← lexer.peekChar) then
    lexer.readIdentifier
  else if isNumber (← lexer.peekChar) then
    lexer.readNumber
  else if (← lexer.peekChar) = '"'.toUInt8 then
    lexer.readString
  else if (← lexer.peekChar) = 0x7B then
    lexer.readSimple .lbrace rfl
  else if (← lexer.peekChar) = 0x7D then
    lexer.readSimple .rbrace rfl
  else if (← lexer.peekChar) = '='.toUInt8 then
    lexer.readSimple .equals rfl
  else if (← lexer.peekChar) = ';'.toUInt8 then
    lexer.readSimple .semicolon rfl
  else if (← lexer.peekChar) = ','.toUInt8 then
    lexer.readSimple .comma rfl
  else if (← lexer.peekChar) = ':'.toUInt8 then
    lexer.readSimple .colon rfl
  else
    lexer.readSimple .unknown rfl

/-- `none` at the end of the text.  Only comments go round the loop again. -/
def readNextToken :
    Nat → Lexer → Except LexerFault (Option Token × Lexer)
  | 0, _ => .error .fuel
  | fuel + 1, lexer => do
      let lexer ← lexer.skipWhitespace (lexer.rest.length + 1)
      if lexer.eofChar then
        return (none, lexer)
      let lexStart := lexer.pos
      if isAsciiWhitespace (← lexer.peekChar) then
        let lexer ← lexer.advanceChar 1
        let lexer ← lexer.skipWhitespace (lexer.rest.length + 1)
        return (some ⟨⟨lexStart, lexer.pos⟩, .simple .whitespace rfl⟩, lexer)
      else if lexer.isSingleLineCommentStart then
        let lexer ← lexer.advanceChar 2
        readNextToken fuel
          (← lexer.skipSingleLineComment (lexer.rest.length + 1))
      else if lexer.isMultiLineCommentStart then
        let lexer ← lexer.advanceChar 2
        readNextToken fuel
          (← lexer.skipMultiLineComment (lexer.rest.length + 1))
      else
        let (token, lexer) ← lexer.readTokenHere
        return (some token, lexer)

/-- The tokens read until there is none, as a caller gets them one by one. -/
def readTokens :
    Nat → Lexer → Except LexerFault (List Token × Lexer)
  | 0, _ => .error .fuel
  | fuel + 1, lexer => do
      match ← lexer.readNextToken (lexer.rest.length + 1) with
      | (none, lexer) => return ([], lexer)
      | (some token, lexer) =>
          let (tokens, lexer) ← readTokens fuel lexer
          return (token :: tokens, lexer)

def create (text : Bytes) : Lexer := ⟨0, text, []⟩

/-- The construction of a `lexer` on a text and all calls of `read_token`. -/
def readAll (text : Bytes) : Except LexerFault (List Token × Lexer) :=
  (create text).readTokens (text.length + 1)

end Lexer

end Initd
