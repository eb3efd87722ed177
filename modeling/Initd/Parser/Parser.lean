import Initd.Lexer.Lexer
import Initd.Parser.Node

namespace Initd

/-- `static_cast` past the test that a token has the type, and the message
where it has not. -/
structure TokenTraits (Value : Type) where
  cast : Token → Option Value
  errorMsg : String

namespace TokenTraits

def identifier : TokenTraits IdentifierToken where
  cast
    | ⟨range, .identifier text⟩ => some ⟨range, text⟩
    | _ => none
  errorMsg := "expected identifier"

def integerLiteral : TokenTraits IntegerLiteralToken where
  cast
    | ⟨range, .integerLiteral value⟩ => some ⟨range, value⟩
    | _ => none
  errorMsg := "expected integer literal"

def stringLiteral : TokenTraits StringLiteralToken where
  cast
    | ⟨range, .stringLiteral value⟩ => some ⟨range, value⟩
    | _ => none
  errorMsg := "expected string literal"

/-- The traits of a type whose tokens have no class of their own. -/
def ofType (type : TokenType) (errorMsg : String) : TokenTraits Token where
  cast token := if token.getType = type then some token else none
  errorMsg := errorMsg

def lbrace : TokenTraits Token := ofType .lbrace "expected '\x7b'"

def rbrace : TokenTraits Token := ofType .rbrace "expected '\x7d'"

def equals : TokenTraits Token := ofType .equals "expected '='"

def semicolon : TokenTraits Token := ofType .semicolon "expected ';'"

def comma : TokenTraits Token := ofType .comma "expected ','"

def colon : TokenTraits Token := ofType .colon "expected ':'"

def taskKeyword : TokenTraits Token :=
  ofType .taskKeyword "expected 'task' keyword"

def trueKeyword : TokenTraits Token :=
  ofType .trueKeyword "expected 'true' keyword"

def falseKeyword : TokenTraits Token :=
  ofType .falseKeyword "expected 'false' keyword"

def dependsKeyword : TokenTraits Token :=
  ofType .dependsKeyword "expected 'depends' keyword"

def runLevelKeyword : TokenTraits Token :=
  ofType .runLevelKeyword "expected 'run_level' keyword"

end TokenTraits

/-- `tokens` is what the lexer still has to give. -/
structure ParserContext where
  tokens : List Token
  lastErrorPlace : Option Nat
  errors : List ErrorTag

abbrev ParserM := StateT ParserContext (Except ConfigFault)

/-- The place of an error, back over the whitespace before it. -/
def errorPlace (text : Bytes) : Nat → Nat
  | 0 => 0
  | pos + 1 =>
      if text[pos]?.any isAsciiWhitespace then errorPlace text pos else pos + 1

namespace ParserContext

def peekPlace (text : Bytes) (context : ParserContext) : Nat :=
  match context.tokens with
  | [] => text.length
  | token :: _ => token.range.start

def pushError (text : Bytes) (message : String) (context : ParserContext) :
    ParserContext :=
  let pos := errorPlace text (context.peekPlace text)
  if context.lastErrorPlace ≠ some pos then
    { context with
      errors := context.errors ++ [⟨.makeEmpty pos, ascii message⟩]
      lastErrorPlace := some pos }
  else
    context

end ParserContext

namespace Parser

def tt : ParserM TokenType := do
  match (← get).tokens with
  | [] => return .eof
  | token :: _ => return token.getType

def readToken : ParserM (Option Token) := do
  let context ← get
  match context.tokens with
  | [] => return none
  | token :: rest =>
      set { context with tokens := rest }
      return some token

variable (text : Bytes)

def error (message : String) : ParserM PUnit :=
  modify (ParserContext.pushError text message)

def expectToken {Value : Type} (traits : TokenTraits Value)
    (message : String := traits.errorMsg) : ParserM (Option Value) := do
  match (← get).tokens.head?.bind traits.cast with
  | some value =>
      let _ ← readToken
      return some value
  | none =>
      error text message
      return none

def assertToken {Value : Type} (traits : TokenTraits Value) :
    ParserM (Option Value) := do
  let token ← deref (← readToken)
  match traits.cast token with
  | some value => return some value
  | none => throw .assertion

/-! Each loop takes the number of its rounds as fuel. -/

mutual

def parseValue : Nat → ParserM (Option ValueNode)
  | 0 => throw .fuel
  | fuel + 1 => do
      let t ← tt
      if t = .integerLiteral then
        let lit ← assertToken .integerLiteral
        return some (.integer lit)
      else if t = .stringLiteral then
        let lit ← assertToken .stringLiteral
        return some (.string lit)
      else if t = .trueKeyword then
        let lit ← assertToken .trueKeyword
        return some (.boolean lit true)
      else if t = .falseKeyword then
        let lit ← assertToken .falseKeyword
        return some (.boolean lit false)
      else if t = .identifier then
        let tag ← expectToken text .identifier "expected value tag"
        if (← tt) ≠ .lbrace then
          return some (.pseudoIdentifier tag)
        let lbrace ← expectToken text .lbrace
        if lbrace.isSome then
          let properties ← parseProperties fuel []
          let _ ← expectToken text .rbrace
          let _ ← getPropertiesByName properties
          return some (.struct tag properties)
        else
          return none
      else
        error text "expected value"
        return none

def parseProperties : Nat → List PropertyNode → ParserM (List PropertyNode)
  | 0, _ => throw .fuel
  | fuel + 1, properties => do
      let t ← tt
      if t = .eof then
        return properties
      else if t = .rbrace then
        return properties
      else if t = .identifier then
        let p ← parseProperty fuel
        if (← tt) ≠ .rbrace then
          let _ ← expectToken text .comma
        parseProperties fuel (properties ++ p.toList)
      else
        error text "expected property"
        let _ ← readToken
        parseProperties fuel properties

def parseProperty : Nat → ParserM (Option PropertyNode)
  | 0 => throw .fuel
  | fuel + 1 => do
      let key ← assertToken .identifier
      let eq ← expectToken text .equals
      let value ← parseValue fuel
      if eq.isNone then
        return none
      return some ⟨key, eq, value⟩

end

def parseTask : ParserM (Option TaskNode) := do
  let _ ← assertToken .taskKeyword
  let name ← expectToken text .identifier "expected task name"
  let eq ← expectToken text .equals
  let value ← parseValue text ((← get).tokens.length + 1)
  let _ ← expectToken text .semicolon
  if name.isNone || eq.isNone then
    return none
  return some ⟨name, value⟩

def parseDependencies :
    Nat → List (Option IdentifierToken) → ParserM (List (Option IdentifierToken))
  | 0, _ => throw .fuel
  | fuel + 1, dependencies => do
      let id ← expectToken text .identifier
      let dependencies := if id.isSome then dependencies ++ [id] else dependencies
      -- The pointer has been moved from, so the last branch is never taken.
      let id : Option IdentifierToken := none
      let t ← tt
      if t = .eof then
        return dependencies
      else if t = .semicolon then
        return dependencies
      else if t = .comma then
        let _ ← readToken
        parseDependencies fuel dependencies
      else if id.isNone then
        return dependencies
      else
        error text "expected ',' or ';'"
        parseDependencies fuel dependencies

def parseDependenciesDeclaration : ParserM DependencyNode := do
  let name ← assertToken .identifier
  let _ ← expectToken text .dependsKeyword
  let dependencies ← parseDependencies text ((← get).tokens.length + 1) []
  let _ ← expectToken text .semicolon
  return ⟨name, dependencies⟩

def parseRunLevel : ParserM RunLevelNode := do
  let _ ← assertToken .runLevelKeyword
  let name ← expectToken text .identifier
  let _ ← expectToken text .colon
  let dependencies ← parseDependencies text ((← get).tokens.length + 1) []
  let _ ← expectToken text .semicolon
  return ⟨name, dependencies⟩

def parseDeclarations : Nat → TopLevelNode → ParserM TopLevelNode
  | 0, _ => throw .fuel
  | fuel + 1, node => do
      let t ← tt
      if t = .eof then
        return node
      else if t = .taskKeyword then
        let n ← parseTask text
        parseDeclarations fuel { node with tasks := node.tasks ++ n.toList }
      else if t = .identifier then
        let n ← parseDependenciesDeclaration text
        parseDeclarations fuel
          { node with dependenciesDecls := node.dependenciesDecls ++ [n] }
      else if t = .runLevelKeyword then
        let n ← parseRunLevel text
        parseDeclarations fuel { node with runLevels := node.runLevels ++ [n] }
      else
        error text "expected declaration"
        let _ ← readToken
        parseDeclarations fuel node

/-- The tree of the tokens and the errors that the parser pushes, in order. -/
def parseFile (tokens : List Token) :
    Except ConfigFault (TopLevelNode × List ErrorTag) := do
  let (node, context) ←
    parseDeclarations text (tokens.length + 1) ⟨[], [], []⟩ ⟨tokens, none, []⟩
  return (node, context.errors)

end Parser

end Initd
