import Initd.Lexer.Scan
import Initd.LineMap.Position
import Initd.Reader.Safety

namespace Initd

open Library

/-- A tag that is in the sink when the tree of a file has been read. The lexer,
the parser and the reader each put their own ones there. -/
inductive Pushed (text : Bytes) (tag : ErrorTag) : Prop
  | lexer {tokens : List Token} {lexer : Lexer}
      (lexed : Lexer.readAll text = .ok (tokens, lexer))
      (pushed : tag ∈ lexer.errors)
  | parser {tokens : List Token} {lexer : Lexer} {tree : TopLevelNode}
      {errors : List ErrorTag}
      (lexed : Lexer.readAll text = .ok (tokens, lexer))
      (parsed : Parser.parseFile text tokens = .ok (tree, errors))
      (pushed : tag ∈ errors)
  | reader {tokens : List Token} {lexer : Lexer} {tree : TopLevelNode}
      {errors errors' : List ErrorTag} {tds : Reader.TaskDescriptions}
      (lexed : Lexer.readAll text = .ok (tokens, lexer))
      (parsed : Parser.parseFile text tokens = .ok (tree, errors))
      (read : Reader.readTree tree [] = .ok (tds, errors'))
      (pushed : tag ∈ errors')

/-- `print_error` returns, and the line that it prints is that of the tag. -/
def Printable (filename text : Bytes) (tag : ErrorTag) : Prop :=
  (∃ output, printError filename (.create text) tag = .ok output) ∧
    ∃ position range,
      (LineMap.create text).getPosition tag.range.start = .ok position ∧
      (LineMap.create text).getLineRangeWoNewline position.line = .ok range ∧
      OnLine text tag.range.start range

/-- The number of the first line is below the largest `unsigned`, and the
columns of two ends with one line number are in order, as `unsigned` too. -/
structure NumbersFit (text : Bytes) (range : TextRange) : Prop where
  line : lineAt text range.start + 1 < 2 ^ 32
  columns : truncateToUnsigned (lineAt text range.start) =
      truncateToUnsigned (lineAt text range.finish) →
    truncateToUnsigned (columnAt text range.start) ≤
      truncateToUnsigned (columnAt text range.finish)

variable {filename text : Bytes} {tag : ErrorTag}

theorem repeated_ok {larger smaller : Nat} (ordered : smaller ≤ larger)
    (c : UInt8) : repeated larger smaller c =
      .ok (List.replicate (larger - smaller) c) :=
  if_pos ordered

theorem repeated_error {larger smaller : Nat} (reversed : ¬ smaller ≤ larger)
    (c : UInt8) : repeated larger smaller c = .error .negativeCount :=
  if_neg reversed

theorem truncateToUnsigned_le (value : Nat) :
    truncateToUnsigned value ≤ value :=
  Nat.mod_le _ _

theorem exists_lineRange {pos : Nat} (inside : pos ≤ text.length)
    (few : lineAt text pos + 1 < 2 ^ 32)
    (notEmpty : ¬ AtEmptyLastLine text pos) :
    ∃ range, (LineMap.create text).getLineRangeWoNewline
        (truncateToUnsigned (lineAt text pos)) = .ok range ∧
      OnLine text pos range ∧
      truncateToUnsigned (columnAt text pos) ≤ range.finish - range.start := by
  refine ⟨⟨pos - columnAt text pos, lineEnd text pos⟩, ?_,
    onLine_lineEnd inside, ?_⟩
  · rw [LineMap.truncateToUnsigned_of_lt (Nat.lt_of_succ_lt few)]
    exact LineMap.getLineRangeWoNewline_create inside few notEmpty
  · have column := columnAt_le inside
    have further : pos ≤ lineEnd text pos := le_lineEnd
    refine Nat.le_trans (truncateToUnsigned_le _) ?_
    change columnAt text pos ≤ lineEnd text pos - (pos - columnAt text pos)
    omega

/-- Once the line is found, only the order of the columns can go wrong. -/
theorem printError_iff (inside : tag.range.Inside 0 text.length)
    (few : lineAt text tag.range.start + 1 < 2 ^ 32)
    (notEmpty : ¬ AtEmptyLastLine text tag.range.start) :
    (∃ output, printError filename (.create text) tag = .ok output) ↔
      (truncateToUnsigned (lineAt text tag.range.start) =
          truncateToUnsigned (lineAt text tag.range.finish) →
        truncateToUnsigned (columnAt text tag.range.start) ≤
          truncateToUnsigned (columnAt text tag.range.finish)) := by
  have before := Nat.le_trans inside.ordered inside.le_finish
  have start := LineMap.getPosition_create before
  have finish := LineMap.getPosition_create inside.le_finish
  obtain ⟨range, found, onLine, wide⟩ := exists_lineRange before few notEmpty
  have ordered := Nat.le_trans onLine.start_le onLine.le_finish
  have line : (LineMap.create text).textOf range =
      .ok ((text.take range.finish).drop range.start) := if_pos ordered
  have indent := repeated_ok (Nat.zero_le
    (truncateToUnsigned (columnAt text tag.range.start))) ' '.toUInt8
  unfold printError
  simp only [start, finish]
  by_cases empty : tag.range.start = tag.range.finish
  · rw [if_pos empty]
    simp only [Except.bind, bind, found, line, indent]
    refine iff_of_true ⟨_, rfl⟩ fun _ => ?_
    rw [empty]
  · rw [if_neg empty]
    by_cases sameLine : truncateToUnsigned (lineAt text tag.range.start) =
      truncateToUnsigned (lineAt text tag.range.finish)
    · simp only [Except.bind, bind, found, line, indent]
      rw [if_pos sameLine, forall_prop_of_true sameLine]
      constructor
      · intro printed
        by_contra reversed
        rw [repeated_error reversed] at printed
        obtain ⟨_, printed⟩ := printed
        contradiction
      · intro columns
        rw [repeated_ok columns]
        exact ⟨_, rfl⟩
    · simp only [Except.bind, bind, found, line, indent]
      rw [if_neg sameLine, repeated_ok wide]
      exact iff_of_true ⟨_, rfl⟩ fun same => absurd same sameLine

theorem printable_iff_of_inside (inside : tag.range.Inside 0 text.length) :
    Printable filename text tag ↔
      ¬ AtEmptyLastLine text tag.range.start ∧ NumbersFit text tag.range := by
  have before := Nat.le_trans inside.ordered inside.le_finish
  have start := LineMap.getPosition_create before
  constructor
  · rintro ⟨printed, position, range, position', found, onLine⟩
    obtain rfl := Except.ok.inj (start.symm.trans position')
    have few : lineAt text tag.range.start + 1 < 2 ^ 32 := by
      by_contra many
      exact LineMap.not_onLine_of_many before many found onLine
    have notEmpty : ¬ AtEmptyLastLine text tag.range.start := by
      intro empty
      rw [LineMap.truncateToUnsigned_of_lt (Nat.lt_of_succ_lt few)] at found
      exact LineMap.not_onLine_of_atEmptyLastLine few empty found onLine
    exact ⟨notEmpty, few, (printError_iff inside few notEmpty).mp printed⟩
  · rintro ⟨notEmpty, few, columns⟩
    obtain ⟨range, found, onLine, -⟩ := exists_lineRange before few notEmpty
    exact ⟨(printError_iff inside few notEmpty).mpr columns, _, range, start,
      found, onLine⟩

theorem parseFile_inside {tokens : List Token} {tree : TopLevelNode}
    {errors : List ErrorTag}
    (placed : ∀ token ∈ tokens, token.range.Inside 0 text.length)
    (parsed : Parser.parseFile text tokens = .ok (tree, errors)) :
    tree.Placed (·.Inside 0 text.length) ∧
      ∀ error ∈ errors, error.range.Inside 0 text.length := by
  obtain ⟨tree', final, ran, moves, known, -⟩ :=
    Parser.parseFile_placed text tokens
  obtain ⟨rfl, rfl⟩ := Prod.mk.inj (Except.ok.inj (parsed.symm.trans ran))
  exact ⟨known _ placed, moves.errors_inside placed (List.forall_mem_nil _)⟩

theorem readTree_inside {tree : TopLevelNode} {tds : Reader.TaskDescriptions}
    {errors : List ErrorTag} (placed : tree.Placed (·.Inside 0 text.length))
    (read : Reader.readTree tree [] = .ok (tds, errors)) :
    ∀ error ∈ errors, error.range.Inside 0 text.length := by
  by_cases named : tree.Named
  · obtain ⟨tds', _, _, errors', writes, -, inside⟩ :=
      Reader.readTree_writes placed named
    obtain ⟨rfl, rfl⟩ :=
      Prod.mk.inj (Except.ok.inj (read.symm.trans (writes [])))
    exact inside
  · rw [Reader.readTree_crashes placed.complete named] at read
    contradiction

theorem Pushed.inside (pushed : Pushed text tag) :
    tag.range.Inside 0 text.length := by
  cases pushed with
  | lexer lexed pushed => exact (Lexer.readAll_inside lexed).2 _ pushed
  | parser lexed parsed pushed =>
      have placed := (Lexer.readAll_inside lexed).1
      exact (parseFile_inside placed parsed).2 _ pushed
  | reader lexed parsed read pushed =>
      have placed := (Lexer.readAll_inside lexed).1
      exact readTree_inside (parseFile_inside placed parsed).1 read _ pushed

theorem lineAt_le (pos : Nat) : lineAt text pos ≤ pos :=
  Nat.le_trans List.count_le_length (List.length_take_le _ _)

theorem columnAt_mono {pos later : Nat} (ordered : pos ≤ later)
    (inside : later ≤ text.length)
    (sameLine : lineAt text pos = lineAt text later) :
    columnAt text pos ≤ columnAt text later := by
  have start := LineMap.getElem?_lineAt (Nat.le_trans ordered inside)
  rw [sameLine, LineMap.getElem?_lineAt inside] at start
  have same := Option.some.inj start
  have short := columnAt_le (Nat.le_trans ordered inside)
  omega

/-- In a file of less than 4 GiB all numbers fit. -/
theorem numbersFit_of_small {range : TextRange}
    (inside : range.Inside 0 text.length) (small : text.length < 2 ^ 32)
    (notEmpty : ¬ AtEmptyLastLine text range.start) :
    NumbersFit text range where
  line := by
    have before := Nat.le_trans inside.ordered inside.le_finish
    have lines : lineAt text range.start ≤ range.start := lineAt_le _
    by_contra many
    have atEnd : range.start = text.length := by omega
    rw [atEnd] at lines many
    have newlines : lineAt text text.length = text.length := by omega
    rw [lineAt, List.take_length] at newlines
    refine notEmpty ⟨atEnd, fun c last => ?_⟩
    exact (List.count_eq_length.mp newlines c (List.mem_of_getLast? last)).symm
  columns := by
    have fits : ∀ {value}, value ≤ text.length →
        truncateToUnsigned value = value := fun le =>
      LineMap.truncateToUnsigned_of_lt (Nat.lt_of_le_of_lt le small)
    have before := Nat.le_trans inside.ordered inside.le_finish
    rw [fits (Nat.le_trans (lineAt_le _) before),
      fits (Nat.le_trans (lineAt_le _) inside.le_finish),
      fits (Nat.le_trans (columnAt_le before) before),
      fits (Nat.le_trans (columnAt_le inside.le_finish) inside.le_finish)]
    exact columnAt_mono inside.ordered inside.le_finish

/-- A tag can be printed exactly if it does not start behind the last newline
of the file and its numbers fit. -/
theorem printable_iff (filename : Bytes) (pushed : Pushed text tag) :
    Printable filename text tag ↔
      ¬ AtEmptyLastLine text tag.range.start ∧ NumbersFit text tag.range :=
  printable_iff_of_inside pushed.inside

theorem printable_iff_openString :
    Printable (ascii "initd.conf") (ascii "a\n\"x")
      ⟨⟨2, 4⟩, ascii "unterminated string"⟩ := by
  have lexed : Lexer.readAll (ascii "a\n\"x") =
      .ok ([⟨⟨0, 1⟩, .identifier (ascii "a")⟩,
        ⟨⟨2, 4⟩, .stringLiteral (ascii "x")⟩],
        ⟨4, [], [⟨⟨2, 4⟩, ascii "unterminated string"⟩]⟩) := by
    rfl
  have pushed : Pushed (ascii "a\n\"x")
      ⟨⟨2, 4⟩, ascii "unterminated string"⟩ :=
    .lexer lexed List.mem_cons_self
  have notEmpty : ¬ AtEmptyLastLine (ascii "a\n\"x") 2 := fun empty =>
    absurd empty.1 (by decide)
  exact (printable_iff _ pushed).mpr
    ⟨notEmpty, numbersFit_of_small pushed.inside (by decide) notEmpty⟩

/-- The comment is open, and the line that the file ends with is empty. -/
def openComment : Bytes := ascii "/*\n"

theorem openComment_notPrintable :
    ∃ tag, Pushed openComment tag ∧
      printError (ascii "initd.conf") (.create openComment) tag =
        .error .reversedRange ∧
      ¬ Printable (ascii "initd.conf") openComment tag := by
  have lexed : Lexer.readAll openComment =
      .ok ([], ⟨3, [], [⟨⟨3, 3⟩, ascii "unterminated comment"⟩]⟩) := by
    rfl
  have fails : printError (ascii "initd.conf") (.create openComment)
      ⟨⟨3, 3⟩, ascii "unterminated comment"⟩ = .error .reversedRange := by
    rfl
  refine ⟨_, .lexer lexed List.mem_cons_self, fails, ?_⟩
  rintro ⟨⟨output, printed⟩, -⟩
  rw [fails] at printed
  contradiction

end Initd
