import Initd.Lexer.Token
import Mathlib.Algebra.Group.Nat.Defs

namespace Initd

/-! `line_map` and `print_error`. -/

/-- What goes wrong when an error is printed: the assertion fails, a byte or a
line break is read that is not there, a string is made of a range whose end
comes before its start, or of a negative number of characters. -/
inductive PrintFault
  | assertion
  | outsideFile
  | reversedRange
  | negativeCount
  deriving DecidableEq, Repr

def truncateToUnsigned (value : Nat) : Nat := value % 2 ^ 32

structure LineColumn where
  line : Nat
  column : Nat
  deriving DecidableEq, Repr

/-- The pointers of a `line_map` are offsets in `wholeFile`. -/
structure LineMap where
  wholeFile : Bytes
  lineBreaks : List Nat
  fileEnd : Nat
  deriving DecidableEq, Repr

/-- The places after the newlines of a text from `pos` on. -/
def lineBreaksFrom (pos : Nat) : Bytes → List Nat
  | [] => []
  | c :: rest =>
      if c = '\n'.toUInt8 then
        (pos + 1) :: lineBreaksFrom (pos + 1) rest
      else
        lineBreaksFrom (pos + 1) rest

namespace LineMap

def create (wholeFile : Bytes) : LineMap :=
  ⟨wholeFile, 0 :: lineBreaksFrom 0 wholeFile, wholeFile.length⟩

def lineBreak (lmap : LineMap) (line : Nat) : Except PrintFault Nat :=
  match lmap.lineBreaks[line]? with
  | none => .error .outsideFile
  | some start => .ok start

/-- The index is the one that `std::upper_bound` finds. -/
def getPosition (lmap : LineMap) (pos : Nat) : Except PrintFault LineColumn :=
  match lmap.lineBreaks.findIdx fun lineBreak => pos < lineBreak with
  | 0 => .error .assertion
  | i + 1 => do
      let start ← lmap.lineBreak i
      return ⟨truncateToUnsigned i, truncateToUnsigned (pos - start)⟩

def getLineRange (lmap : LineMap) (line : Nat) : Except PrintFault TextRange := do
  let next := truncateToUnsigned (line + 1)
  if next < lmap.lineBreaks.length then
    return ⟨← lmap.lineBreak line, ← lmap.lineBreak next⟩
  else
    return ⟨← lmap.lineBreak line, lmap.fileEnd⟩

/-- The character that stands before a pointer. -/
def byteBefore (lmap : LineMap) : Nat → Except PrintFault UInt8
  | 0 => .error .outsideFile
  | pos + 1 =>
      match lmap.wholeFile[pos]? with
      | none => .error .outsideFile
      | some c => .ok c

def getLineRangeWoNewline (lmap : LineMap) (line : Nat) :
    Except PrintFault TextRange := do
  let r ← lmap.getLineRange line
  if (← lmap.byteBefore r.finish) = '\n'.toUInt8 then
    return ⟨r.start, r.finish - 1⟩
  else
    return r

def textOf (lmap : LineMap) (r : TextRange) : Except PrintFault Bytes :=
  if r.start ≤ r.finish then
    .ok ((lmap.wholeFile.take r.finish).drop r.start)
  else
    .error .reversedRange

end LineMap

/-- The string of as many characters as the difference says. -/
def repeated (larger smaller : Nat) (c : UInt8) : Except PrintFault Bytes :=
  if smaller ≤ larger then
    .ok (List.replicate (larger - smaller) c)
  else
    .error .negativeCount

/-- What `print_error` puts into its stream. -/
def printError (filename : Bytes) (lmap : LineMap) (e : ErrorTag) :
    Except PrintFault Bytes := do
  let number (n : Nat) : Bytes := ascii (toString n)
  if e.range.start = e.range.finish then
    let pos ← lmap.getPosition e.range.start
    let lineRange ← lmap.getLineRangeWoNewline pos.line
    let line ← lmap.textOf lineRange
    let indent ← repeated pos.column 0 ' '.toUInt8
    return filename ++ ascii ":" ++ number pos.line ++ ascii ":" ++
      number pos.column ++ ascii ": " ++ e.message ++ ascii "\n" ++
      line ++ ascii "\n" ++ indent ++ ascii "^" ++ ascii "\n"
  else
    let start ← lmap.getPosition e.range.start
    let finish ← lmap.getPosition e.range.finish
    if start.line = finish.line then
      let lineRange ← lmap.getLineRangeWoNewline start.line
      let line ← lmap.textOf lineRange
      let indent ← repeated start.column 0 ' '.toUInt8
      let marks ← repeated finish.column start.column '~'.toUInt8
      return filename ++ ascii ":" ++ number start.line ++ ascii ":" ++
        number start.column ++ ascii "~" ++ number finish.column ++ ascii ": " ++
        e.message ++ ascii "\n" ++ line ++ ascii "\n" ++ indent ++ marks ++
        ascii "\n"
    else
      let lineRange ← lmap.getLineRangeWoNewline start.line
      let line ← lmap.textOf lineRange
      let lineSize := lineRange.finish - lineRange.start
      let indent ← repeated start.column 0 ' '.toUInt8
      let marks ← repeated lineSize start.column '~'.toUInt8
      return filename ++ ascii ":" ++ number start.line ++ ascii ":" ++
        number start.column ++ ascii "~" ++ number finish.line ++ ascii ":" ++
        number finish.column ++ ascii ": " ++ e.message ++ ascii "\n" ++
        line ++ ascii "\n" ++ indent ++ marks ++ ascii "\n"

end Initd
