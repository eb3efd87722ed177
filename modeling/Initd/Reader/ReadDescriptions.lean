import Initd.LineMap.Printable
import Initd.Reader.Silence

namespace Initd

open Library

/-! `read_descriptions`, from the bytes of the file to what it prints. -/

/-- The loop over the tags of the sink. -/
def printAll (filename text : Bytes) : List ErrorTag → Except PrintFault Bytes
  | [] => .ok []
  | e :: errors => do
      let printed ← printError filename (.create text) e
      return printed ++ (← printAll filename text errors)

def printErrors (filename text : Bytes) (errors : List ErrorTag) :
    Except PrintFault Bytes :=
  if errors.isEmpty then
    .ok []
  else do
    return (← printAll filename text errors) ++ ascii "\n"

/-- The tasks that `read_descriptions` returns and what it prints before. A token
is read when the parser asks for it, so that the tags of the lexer and of the
parser come into the sink in turn, here in any order. -/
def ReadsDescriptions (filename text : Bytes) (tds : Reader.TaskDescriptions)
    (output : Bytes) : Prop :=
  ∃ tokens lexer tree errors sink sink',
    Lexer.readAll text = .ok (tokens, lexer) ∧
      Parser.parseFile text tokens = .ok (tree, errors) ∧
      sink.Perm (lexer.errors ++ errors) ∧
      Reader.readTree tree sink = .ok (tds, sink') ∧
      printErrors filename text sink' = .ok output

variable {filename text : Bytes}

theorem printAll_iff {errors : List ErrorTag} :
    (∃ output, printAll filename text errors = .ok output) ↔
      ∀ e ∈ errors, ∃ output,
        printError filename (.create text) e = .ok output := by
  induction errors with
  | nil => exact iff_of_true ⟨_, rfl⟩ (List.forall_mem_nil _)
  | cons e errors induction =>
      rw [List.forall_mem_cons, ← induction, printAll]
      cases printError filename (.create text) e with
      | error fault =>
          refine iff_of_false ?_ ?_
          · rintro ⟨_, ⟨⟩⟩
          · rintro ⟨⟨_, ⟨⟩⟩, -⟩
      | ok printed =>
          cases printAll filename text errors with
          | error fault =>
              refine iff_of_false ?_ ?_
              · rintro ⟨_, ⟨⟩⟩
              · rintro ⟨-, _, ⟨⟩⟩
          | ok more => exact iff_of_true ⟨_, rfl⟩ ⟨⟨_, rfl⟩, _, rfl⟩

theorem printErrors_iff {errors : List ErrorTag} :
    (∃ output, printErrors filename text errors = .ok output) ↔
      ∀ e ∈ errors, ∃ output,
        printError filename (.create text) e = .ok output := by
  rw [← printAll_iff, printErrors]
  cases errors with
  | nil => exact iff_of_true ⟨_, rfl⟩ ⟨_, rfl⟩
  | cons e errors =>
      rw [List.isEmpty_cons, if_neg Bool.false_ne_true]
      cases printAll filename text (e :: errors) with
      | error fault =>
          refine iff_of_false ?_ ?_
          · rintro ⟨_, ⟨⟩⟩
          · rintro ⟨_, ⟨⟩⟩
      | ok printed => exact iff_of_true ⟨_, rfl⟩ ⟨_, rfl⟩

/-- Nothing is printed for an empty sink, and at least one newline else. -/
theorem printErrors_eq_nil {errors : List ErrorTag} {output : Bytes}
    (printed : printErrors filename text errors = .ok output) :
    output = [] ↔ errors = [] := by
  cases errors with
  | nil =>
      obtain rfl := Except.ok.inj printed
      simp
  | cons e errors =>
      rw [printErrors, List.isEmpty_cons, if_neg Bool.false_ne_true] at printed
      cases all : printAll filename text (e :: errors) with
      | error fault =>
          rw [all] at printed
          contradiction
      | ok most =>
          rw [all] at printed
          obtain rfl := Except.ok.inj printed
          refine iff_of_false ?_ (List.cons_ne_nil _ _)
          exact List.append_ne_nil_of_right_ne_nil _ (List.cons_ne_nil _ _)

/-! Which tags stand behind the last newline. -/

theorem columnAt_atEmptyLastLine (empty : AtEmptyLastLine text text.length) :
    columnAt text text.length = 0 := by
  rw [columnAt, List.take_length]
  cases last : text.getLast? with
  | none =>
      rw [List.getLast?_eq_none_iff.mp last]
      rfl
  | some c =>
      obtain ⟨before, rfl⟩ := List.getLast?_eq_some_iff.mp last
      rw [empty.2 c last]
      exact Lines.column_append_newline _ _

theorem printError_fails {e : ErrorTag}
    (inside : e.range.Inside 0 text.length)
    (small : text.length + 1 < 2 ^ 32)
    (empty : AtEmptyLastLine text e.range.start) :
    ¬ ∃ output, printError filename (.create text) e = .ok output := by
  obtain ⟨range, message⟩ := e
  obtain ⟨start, finish⟩ := range
  obtain rfl : start = text.length := empty.1
  obtain rfl : text.length = finish :=
    Nat.le_antisymm inside.ordered inside.le_finish
  have atEnd := Nat.le_refl text.length
  have few : lineAt text text.length + 1 < 2 ^ 32 :=
    Nat.lt_of_le_of_lt (Nat.succ_le_succ (lineAt_le _)) small
  have position := LineMap.getPosition_create atEnd
  rw [LineMap.truncateToUnsigned_of_lt (Nat.lt_of_succ_lt few)] at position
  have last : lineEnd text text.length = text.length :=
    Nat.le_antisymm (lineEnd_le atEnd) le_lineEnd
  have whole := LineMap.getLineRange_create atEnd few
  rw [if_pos last, columnAt_atEmptyLastLine empty, Nat.sub_zero] at whole
  unfold printError
  rw [if_pos rfl]
  simp only [position]
  cases byte : text.getLast? with
  | none =>
      have nothing := List.getLast?_eq_none_iff.mp byte
      have outside := LineMap.getLineRangeWoNewline_outside whole
        (by rw [nothing]; rfl)
      simp only [Except.bind, bind, outside]
      rintro ⟨_, ⟨⟩⟩
  | some c =>
      have shorter := LineMap.getLineRangeWoNewline_ok whole
        (LineMap.byteBefore_end byte)
      rw [if_pos (empty.2 c byte)] at shorter
      have positive : 0 < text.length :=
        List.length_pos_of_mem (List.mem_of_getLast? byte)
      have reversed : (LineMap.create text).textOf
          ⟨text.length, text.length - 1⟩ = .error .reversedRange :=
        if_neg (Nat.not_le.mpr (Nat.sub_lt positive Nat.zero_lt_one))
      simp only [Except.bind, bind, shorter, reversed]
      rintro ⟨_, ⟨⟩⟩

theorem printError_small_iff {e : ErrorTag}
    (inside : e.range.Inside 0 text.length)
    (small : text.length + 1 < 2 ^ 32) :
    (∃ output, printError filename (.create text) e = .ok output) ↔
      ¬ AtEmptyLastLine text e.range.start := by
  constructor
  · exact fun printed empty => printError_fails inside small empty printed
  · intro notEmpty
    have fit := numbersFit_of_small inside (Nat.lt_of_succ_lt small) notEmpty
    exact (printError_iff inside fit.line notEmpty).mpr fit.columns

/-- Before the place of an error there is no whitespace. -/
theorem errorPlace_visible (text : Bytes) : ∀ pos,
    errorPlace text pos = 0 ∨ ∃ before, errorPlace text pos = before + 1 ∧
      text[before]?.any isAsciiWhitespace = false
  | 0 => .inl rfl
  | pos + 1 => by
      rw [errorPlace]
      split
      · exact errorPlace_visible text pos
      · next visible => exact .inr ⟨pos, rfl, by simpa using visible⟩

theorem errorPlace_notEmpty (nonempty : text ≠ []) (pos : Nat) :
    ¬ AtEmptyLastLine text (errorPlace text pos) := by
  rintro ⟨atEnd, newline⟩
  rcases errorPlace_visible text pos with start | ⟨before, place, visible⟩
  · rw [start] at atEnd
    exact nonempty (List.eq_nil_of_length_eq_zero atEnd.symm)
  · have last : text.getLast? = text[before]? := by
      rw [List.getLast?_eq_getElem?, ← atEnd, place, Nat.add_sub_cancel]
    cases byte : text.getLast? with
    | none => exact nonempty (List.getLast?_eq_none_iff.mp byte)
    | some c =>
        rw [← last, byte, Option.any_some, newline c byte] at visible
        contradiction

namespace ParserContext

variable {context final : ParserContext}

theorem Moves.errors_atPlaces (moves : Moves text context final)
    (placed : ∀ e ∈ context.errors, ∃ pos, e.range.start = errorPlace text pos) :
    ∀ e ∈ final.errors, ∃ pos, e.range.start = errorPlace text pos := by
  induction moves with
  | refl => exact placed
  | tail before step induction =>
      cases step with
      | read _ => exact induction
      | error message =>
          simp only [pushError]
          split
          · exact List.forall_mem_append.mpr ⟨induction,
              List.forall_mem_singleton.mpr ⟨_, rfl⟩⟩
          · exact induction

end ParserContext

/-! The three parts of the sink. -/

theorem readAll_shown {tokens : List Token} {lexer : Lexer}
    (lexed : Lexer.readAll text = .ok (tokens, lexer)) :
    ∀ token ∈ tokens, token.range.start < text.length := by
  obtain ⟨segments, rfl, tiles, -, -⟩ := Lexer.readAll_segments lexed
  intro token member
  obtain ⟨-, ordered, inside⟩ := tiles.inside _ (Lexer.mem_tokens.mp member)
  exact Nat.lt_of_lt_of_le ordered inside

theorem not_atEmptyLastLine_of_lt {pos : Nat} (before : pos < text.length) :
    ¬ AtEmptyLastLine text pos := fun empty => Nat.ne_of_lt before empty.1

/-- The lexer puts a tag behind the last newline only for an open comment. -/
theorem lexed_notEmpty_iff {tokens : List Token} {lexer : Lexer}
    (lexed : Lexer.readAll text = .ok (tokens, lexer)) :
    (∀ e ∈ lexer.errors, ¬ AtEmptyLastLine text e.range.start) ↔
      ¬ (Lexer.EndsInBlockComment text ∧
        text.getLast? = some '\n'.toUInt8) := by
  constructor
  · rintro notEmpty ⟨ends, last⟩
    obtain ⟨e, member, place⟩ := ends.reported lexed
    refine notEmpty e member ⟨place, fun c byte => ?_⟩
    exact Option.some.inj (byte.symm.trans last)
  · rintro shown e member ⟨atEnd, newline⟩
    have ends : Lexer.EndsInBlockComment text := by
      by_contra closed
      exact Nat.ne_of_lt (Lexer.readAll_before lexed closed e member) atEnd
    cases byte : text.getLast? with
    | none =>
        obtain rfl := List.getLast?_eq_none_iff.mp byte
        obtain ⟨-, rfl⟩ := Prod.mk.inj
          (Except.ok.inj (lexed.symm.trans Lexer.readAll_nil))
        exact absurd member List.not_mem_nil
    | some c => exact shown ⟨ends, by rw [byte, newline c byte]⟩

theorem parseFile_nil : Parser.parseFile [] [] = .ok (⟨[], [], []⟩, []) :=
  rfl

/-- The tags of the parser and of the reader stand on lines with text. -/
theorem parsed_notEmpty {tokens : List Token} {lexer : Lexer}
    {tree : TopLevelNode} {errors : List ErrorTag}
    (lexed : Lexer.readAll text = .ok (tokens, lexer))
    (parsed : Parser.parseFile text tokens = .ok (tree, errors)) :
    (∀ e ∈ errors, ¬ AtEmptyLastLine text e.range.start) ∧
      tree.Placed (fun range => range.Inside 0 text.length ∧
        ¬ AtEmptyLastLine text range.start) := by
  obtain ⟨tree', final, ran, moves, placed, -⟩ :=
    Parser.parseFile_placed text tokens
  obtain ⟨rfl, same⟩ := Prod.mk.inj (Except.ok.inj (parsed.symm.trans ran))
  refine ⟨fun e member => ?_, placed _ fun token member => ⟨
    (Lexer.readAll_inside lexed).1 token member,
    not_atEmptyLastLine_of_lt (readAll_shown lexed token member)⟩⟩
  by_cases nonempty : text = []
  · subst nonempty
    obtain ⟨rfl, -⟩ := Prod.mk.inj
      (Except.ok.inj (lexed.symm.trans Lexer.readAll_nil))
    obtain ⟨-, rfl⟩ :=
      Prod.mk.inj (Except.ok.inj (parsed.symm.trans parseFile_nil))
    exact absurd member List.not_mem_nil
  · obtain ⟨pos, place⟩ :=
      moves.errors_atPlaces (List.forall_mem_nil _) e (same ▸ member)
    rw [place]
    exact errorPlace_notEmpty nonempty pos

/-- What the reader adds to the sink, where it returns. -/
theorem readTree_adds {known : TextRange → Prop} {tree : TopLevelNode}
    {tds : Reader.TaskDescriptions} {sink sink' : List ErrorTag}
    (placed : tree.Placed known)
    (read : Reader.readTree tree sink = .ok (tds, sink')) :
    tree.Named ∧ ∃ errors, sink' = sink ++ errors ∧
      ∀ e ∈ errors, known e.range := by
  by_cases named : tree.Named
  · obtain ⟨tds', _, _, errors, writes, -, held⟩ :=
      Reader.readTree_writes placed named
    obtain ⟨-, same⟩ :=
      Prod.mk.inj (Except.ok.inj (read.symm.trans (writes sink)))
    exact ⟨named, errors, same, held⟩
  · rw [Reader.readTree_crashes placed.complete named] at read
    contradiction

/-- In a file of at most `2 ^ 32 - 2` bytes, the reader returns exactly if the
file does not end inside a comment to the end of a line, nor with a newline
inside of another comment, and each run level that the parser meets has its
name; and nothing is printed exactly if the reading was silent. -/
theorem readsDescriptions_iff (filename : Bytes) {text : Bytes}
    (small : text.length + 1 < 2 ^ 32) :
    ((∃ tds output, ReadsDescriptions filename text tds output) ↔
      ¬ Lexer.EndsInLineComment text ∧
        ¬ (Lexer.EndsInBlockComment text ∧
          text.getLast? = some '\n'.toUInt8) ∧
        ∀ tokens lexer, Lexer.readAll text = .ok (tokens, lexer) →
          RunLevelsNamed tokens) ∧
      ∀ tds output, ReadsDescriptions filename text tds output →
        (output = [] ↔ ∃ tokens tree,
          Reader.SilentRead text tokens tree tds) := by
  refine ⟨⟨?_, ?_⟩, ?_⟩
  · rintro ⟨tds, output, tokens, lexer, tree, errors, sink, sink', lexed,
      parsed, same, read, printed⟩
    obtain ⟨named, added, rfl, -⟩ :=
      readTree_adds (parsed_notEmpty lexed parsed).2 read
    refine ⟨fun ends => ?_, (lexed_notEmpty_iff lexed).mp fun e member => ?_,
      fun tokens' lexer' lexed' => ?_⟩
    · rw [ends.readAll] at lexed
      contradiction
    · have pushed : e ∈ sink ++ added := List.mem_append_left _
        (same.mem_iff.mpr (List.mem_append_left _ member))
      have inside := (Lexer.readAll_inside lexed).2 e member
      exact (printError_small_iff inside small).mp
        (printErrors_iff.mp ⟨output, printed⟩ e pushed)
    · obtain ⟨rfl, -⟩ := Prod.mk.inj (Except.ok.inj (lexed.symm.trans lexed'))
      obtain ⟨tree', errors', ran, -, named_iff, -⟩ :=
        Parser.parseFile_returns text tokens
      obtain ⟨rfl, -⟩ := Prod.mk.inj (Except.ok.inj (parsed.symm.trans ran))
      exact named_iff.mp named
  · rintro ⟨complete, shown, sound⟩
    obtain ⟨kinds, clean, scans⟩ :=
      (Lexer.scans_or_endsInLineComment _ text (Nat.le_refl _)).resolve_right
        complete
    obtain ⟨segments, lexErrors, -, -, lexed⟩ := scans.readAll
    have named := sound _ _ lexed
    have notEmpty := (lexed_notEmpty_iff lexed).mpr shown
    obtain ⟨tree, errors, parsed, -, named_iff, -⟩ := Parser.parseFile_returns
      text (segments.filterMap Lexer.Segment.token?)
    obtain ⟨parserTags, placed⟩ := parsed_notEmpty lexed parsed
    have lexInside := Lexer.readAll_inside lexed
    have parserInside := (parseFile_inside lexInside.1 parsed).2
    obtain ⟨tds, _, _, added, writes, -, readerTags⟩ :=
      Reader.readTree_writes placed (named_iff.mpr named)
    obtain ⟨output, printed⟩ : ∃ output,
        printErrors filename text (lexErrors ++ errors ++ added) =
          .ok output := by
      refine printErrors_iff.mpr (List.forall_mem_append.mpr
        ⟨List.forall_mem_append.mpr ⟨?_, ?_⟩, ?_⟩) <;> intro e member
      · exact (printError_small_iff (lexInside.2 e member) small).mpr
          (notEmpty e member)
      · exact (printError_small_iff (parserInside e member) small).mpr
          (parserTags e member)
      · obtain ⟨inside, shown⟩ := readerTags e member
        exact (printError_small_iff inside small).mpr shown
    exact ⟨tds, output, _, _, tree, errors, _, _, lexed, parsed, .refl _,
      writes _, printed⟩
  · rintro tds output ⟨tokens, lexer, tree, errors, sink, sink', lexed, parsed,
      same, read, printed⟩
    rw [printErrors_eq_nil printed]
    constructor
    · rintro rfl
      obtain ⟨-, added, none, -⟩ :=
        readTree_adds (parsed_notEmpty lexed parsed).2 read
      obtain ⟨rfl, -⟩ := List.append_eq_nil_iff.mp none.symm
      obtain ⟨noLexer, noParser⟩ := List.append_eq_nil_iff.mp same.nil_eq.symm
      exact ⟨tokens, tree, ⟨lexer, lexed, noLexer⟩, noParser ▸ parsed, read⟩
    · rintro ⟨tokens', tree', silent⟩
      obtain ⟨lexer', lexed', noLexer⟩ := silent.lexed
      obtain ⟨rfl, rfl⟩ := Prod.mk.inj (Except.ok.inj (lexed.symm.trans lexed'))
      obtain ⟨rfl, rfl⟩ :=
        Prod.mk.inj (Except.ok.inj (parsed.symm.trans silent.parsed))
      rw [noLexer, List.append_nil] at same
      rw [same.eq_nil, silent.read] at read
      exact (Prod.mk.inj (Except.ok.inj read)).2.symm

theorem readsDescriptions_iff_openComment :
    ¬ ∃ tds output,
      ReadsDescriptions (ascii "initd.conf") openComment tds output := by
  have ends : Lexer.EndsInBlockComment openComment :=
    ⟨[], openComment, true, .done, ['\n'.toUInt8], rfl, by decide⟩
  intro returns
  exact ((readsDescriptions_iff (ascii "initd.conf") (by decide)).1.mp
    returns).2.1 ⟨ends, rfl⟩

end Initd
