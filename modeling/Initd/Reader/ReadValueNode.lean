import Initd.Lexer.Lexer
import Initd.Parser.Node

namespace Initd

open Library

/-- The state is what the sink of the errors has received. -/
abbrev ReadM := StateT (List ErrorTag) (Except ConfigFault)

namespace Reader

def push (range : TextRange) (message : Bytes) : ReadM PUnit :=
  modify fun errors => errors ++ [⟨range, message⟩]

/-- Reports each element after an equal key, and the one before the first of
them that is reported. -/
def reportDuplicates {Value : Type} (f : Value → ReadM PUnit)
    (lastReported : Bool) : Multimap Bytes Value → ReadM PUnit
  | previous :: element :: rest => do
      if previous.1 = element.1 then
        if !lastReported then
          f previous.2
        f element.2
        reportDuplicates f true (element :: rest)
      else
        reportDuplicates f lastReported (element :: rest)
  | _ => return ⟨⟩

def getRange : ValueNode → Except ConfigFault TextRange
  | .integer tok => return (← deref tok).range
  | .string tok => return (← deref tok).range
  | .boolean tok _ => return (← deref tok).range
  | .pseudoIdentifier tok => return (← deref tok).range
  | .struct tag _ => return (← deref tag).range

def getTypeByValueNode : ValueNode → Except ConfigFault Bytes
  | .integer _ => return ascii "int"
  | .string _ => return ascii "string"
  | .boolean _ _ => return ascii "bool"
  | .pseudoIdentifier _ => throw .assertion
  | .struct tag _ => return (← deref tag).text

structure ReadValueNodeImpl (Value : Type) where
  getTypeName : Bytes
  canRead : ValueNode → Except ConfigFault Bool
  read : ValueNode → ReadM (Option Value)
  valueForPseudoIdentifier : Option IdentifierToken → ReadM (Option Value)

def quote (name : Bytes) : Bytes := ascii "\"" ++ name ++ ascii "\""

section Extract

variable {Value : Type} (impl : ReadValueNodeImpl Value)

/-- The value of a task or of a property that is an identifier. -/
def readPseudoIdentifier (tok : Option IdentifierToken) :
    ReadM (Option Value) := do
  push (← deref tok).range (ascii "excepted value of type " ++
    quote impl.getTypeName ++ ascii ", but identifier found")
  impl.valueForPseudoIdentifier tok

/-- What both overloads of `extract_property_from_map` do with a property. -/
def extractProperty (name : Bytes) (p : PropertyNode) :
    ReadM (Option Value) := do
  match p.value with
  | none => return none
  | some (.pseudoIdentifier tok) => readPseudoIdentifier impl tok
  | some value =>
      if !(← impl.canRead value) then
        let message := ascii "property " ++ quote name ++ ascii " has type " ++
          quote impl.getTypeName ++ ascii ", but is initialized with " ++
          quote (← getTypeByValueNode value)
        push (← deref p.eq).range message
        return none
      impl.read value

def extractPropertyFromMap (tag : Option IdentifierToken)
    (propertiesByName : Multimap Bytes PropertyNode) (name : Bytes) :
    ReadM (Option Value) := do
  match propertiesByName.find name with
  | none =>
      let message := ascii "property " ++ quote name ++
        ascii " is not found in struct " ++ quote (← deref tag).text
      push (← deref tag).range message
      return none
  | some (_, p) => extractProperty impl name p

def extractPropertyFromMapOr
    (propertiesByName : Multimap Bytes PropertyNode) (name : Bytes)
    (defaultValue : Value) : ReadM Value := do
  match propertiesByName.find name with
  | none => return defaultValue
  | some (_, p) => return (← extractProperty impl name p).getD defaultValue

end Extract

def readString : ReadValueNodeImpl Bytes where
  getTypeName := ascii "string"
  canRead
    | .string _ => return true
    | _ => return false
  read
    | .string tok => return some (← deref tok).value
    | _ => throw .assertion
  valueForPseudoIdentifier tok := return some (← deref tok).text

def readBool : ReadValueNodeImpl Bool where
  getTypeName := ascii "bool"
  canRead
    | .boolean _ _ => return true
    | _ => return false
  read
    | .boolean _ value => return some value
    | _ => throw .assertion
  valueForPseudoIdentifier _ := return none

end Reader

end Initd
