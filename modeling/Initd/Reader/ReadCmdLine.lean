import Initd.Config.TaskData
import Initd.Reader.ReadValueNode

namespace Initd.Reader

/-! A command line is split at whitespace outside of quotes.  The bytes from an
iterator to `value.cend()` stand for the iterator. -/

/-- `*i`, which is the terminating NUL at `value.cend()`. -/
def charAt (i : Bytes) : UInt8 := i.headD 0

/-- The bytes between an opening quote and the next one, and what follows. -/
def readQuoted (c : UInt8) (i : Bytes) : Option (Bytes × Bytes) :=
  match i.dropWhile (· ≠ c) with
  | [] => none
  | _ :: j => some (i.takeWhile (· ≠ c), j)

/-- `none` is the return from `read` after an error.  The branches for the two
quotes differ in the quote only. -/
def readArgument (range : TextRange) :
    Nat → Bytes → Bytes → ReadM (Option (Bytes × Bytes))
  | 0, _, _ => throw .fuel
  | fuel + 1, arg, i => do
      let c := charAt i
      if c = '\''.toUInt8 ∨ c = '"'.toUInt8 then
        match readQuoted c i.tail with
        | none =>
            push range (ascii "unmatched " ++ [c])
            return none
        | some (piece, j) => readArgument range fuel (arg ++ piece) j
      else if isAsciiWhitespace c then
        return some (arg, i)
      else
        readArgument range fuel (arg ++ [c]) i.tail

def splitCmdLine (range : TextRange) :
    Nat → List Bytes → Bytes → ReadM (Option (List Bytes))
  | 0, _, _ => throw .fuel
  | fuel + 1, split, i => do
      let i := i.dropWhile isAsciiWhitespace
      if i = [] then
        return some split
      match ← readArgument range (i.length + 1) [] i with
      | none => return none
      | some (arg, i) => splitCmdLine range fuel (split ++ [arg]) i

def readCmdLine : ReadValueNodeImpl CmdLine where
  getTypeName := ascii "cmd_line"
  canRead
    | .string _ => return true
    | _ => return false
  read
    | .string tok => do
        let tok ← deref tok
        match ← splitCmdLine tok.range (tok.value.length + 1) [] tok.value with
        | none => return none
        | some [] =>
            push tok.range (ascii "empty command line")
            return none
        | some (executable :: arguments) =>
            return some ⟨executable, arguments⟩
    | _ => throw .assertion
  valueForPseudoIdentifier _ := return none

end Initd.Reader
