import Initd.Lexer.Calls
import Initd.Lexer.RoundTrip
import Initd.Lexer.Tiling
import Mathlib.Algebra.Group.Int.Defs
import Mathlib.Algebra.Group.Nat.Defs

namespace Initd.Lexer

open Library

/-! String literals and the lines of the text. -/

def OnOneLine (text : Bytes) (range : TextRange) : Prop :=
  ∀ pos, range.Covers pos → text[pos]? ≠ some '\n'.toUInt8

/-- The literal whose body begins the text has a newline right after an
unescaped backslash; an unescaped quote or newline ends the search.  `escaped`
is whether such a backslash stands before the text. -/
def escapesNewline (escaped : Bool) : Bytes → Bool
  | [] => false
  | c :: rest =>
      if escaped then
        c == '\n'.toUInt8 || escapesNewline false rest
      else if c = '"'.toUInt8 ∨ c = '\n'.toUInt8 then
        false
      else
        escapesNewline (c == '\\'.toUInt8) rest

/-- A closing quote is the last character of the literal whose body begins the
text. -/
def Closes (after : Bytes) (range : TextRange) : Prop :=
  ∃ body value clean rest, QuotedBody body value clean ∧
    after = body ++ '"'.toUInt8 :: rest ∧
    range.finish = range.start + (body.length + 2)

theorem onOneLine_iff (before word rest : Bytes) :
    OnOneLine (before ++ (word ++ rest))
        ⟨before.length, before.length + word.length⟩ ↔
      '\n'.toUInt8 ∉ word := by
  constructor
  · intro oneLine member
    obtain ⟨index, here⟩ := List.mem_iff_getElem?.mp member
    obtain ⟨inside, -⟩ := List.getElem?_eq_some_iff.mp here
    exact oneLine (before.length + index)
      ⟨Nat.le_add_right _ _, Nat.add_lt_add_left inside _⟩
      ((getElem?_cut before rest inside).trans here)
  · intro absent pos covers here
    obtain ⟨index, rfl⟩ := Nat.exists_eq_add_of_le covers.1
    have inside : index < word.length := Nat.lt_of_add_lt_add_left covers.2
    rw [getElem?_cut before rest inside] at here
    exact absent (List.mem_of_getElem? here)

theorem escapesNewline_char {c : UInt8} {rest : Bytes}
    (plain : c ≠ '\n'.toUInt8 ∧ c ≠ '"'.toUInt8 ∧ c ≠ '\\'.toUInt8) :
    escapesNewline false (c :: rest) = escapesNewline false rest := by
  have unescaped : (c == '\\'.toUInt8) = false :=
    beq_eq_false_iff_ne.mpr plain.2.2
  simp [escapesNewline, plain, unescaped]

theorem escapesNewline_escape (c : UInt8) (rest : Bytes) :
    escapesNewline false ('\\'.toUInt8 :: c :: rest) =
      (c == '\n'.toUInt8 || escapesNewline false rest) := rfl

theorem QuotedBody.escapesNewline_iff {body value tail : Bytes} {clean : Bool}
    (inside : QuotedBody body value clean)
    (ends : escapesNewline false tail = false) :
    escapesNewline false (body ++ tail) = true ↔ '\n'.toUInt8 ∈ body := by
  have backslash : '\n'.toUInt8 ≠ '\\'.toUInt8 := by decide
  induction inside with
  | nil => simp [ends]
  | char plain _ induction =>
      rw [List.cons_append, escapesNewline_char plain, List.mem_cons]
      simp [plain.1.symm, induction]
  | escape _ _ induction | invalid _ _ induction =>
      rw [List.cons_append, List.cons_append, escapesNewline_escape,
        Bool.or_eq_true, beq_iff_eq, List.mem_cons, List.mem_cons]
      simp [backslash, induction, eq_comm]

/-- How a literal ends behind its body: with a quote, before the end of the line
or of the text, or with a backslash at the end of the text. -/
inductive EndsQuoted : Bytes → Bytes → Prop
  | quote (rest : Bytes) : EndsQuoted ['"'.toUInt8] rest
  | stop {rest : Bytes} (stops : StopsQuoted rest) : EndsQuoted [] rest
  | backslash : EndsQuoted ['\\'.toUInt8] []

theorem EndsQuoted.noNewline {final rest : Bytes}
    (ends : EndsQuoted final rest) :
    '\n'.toUInt8 ∉ final ∧ escapesNewline false (final ++ rest) = false := by
  cases ends with
  | quote rest => exact ⟨by decide, rfl⟩
  | backslash => exact ⟨by decide, rfl⟩
  | stop stops =>
      refine ⟨List.not_mem_nil, ?_⟩
      cases rest with
      | nil => rfl
      | cons c rest => simp [escapesNewline, stops c rfl]

/-- A token that begins with a quote is a string literal, closed or not. -/
theorem Lexeme.quoted_cases {word rest : Bytes} {kind : TokenKind}
    {clean : Bool} (lexeme : Lexeme word rest kind clean)
    (quote : word.head? = some '"'.toUInt8) :
    ∃ body value inner final, QuotedBody body value inner ∧
      word = '"'.toUInt8 :: (body ++ final) ∧ EndsQuoted final rest := by
  cases lexeme with
  | quoted rest inside => exact ⟨_, _, _, _, inside, rfl, .quote rest⟩
  | openQuoted inside stops =>
      exact ⟨_, _, _, [], inside, by rw [List.append_nil], .stop stops⟩
  | openEscape inside => exact ⟨_, _, _, _, inside, rfl, .backslash⟩
  | rawString _ _ _ | openRawString _ _ | badRawString _ _ => cases quote
  | identifier start _ _ _ =>
      rw [Option.some.inj quote] at start
      contradiction
  | number start _ _ =>
      rw [Option.some.inj quote] at start
      contradiction
  | simple _ isSimple => exact absurd (Option.some.inj quote) isSimple.noString

/-- A literal without a closing quote is reported from its start to its end. -/
theorem EndsQuoted.reported {body value final rest : Bytes} {clean : Bool}
    {pos : Nat} {errors : List ErrorTag} {token : Token} {later : Lexer}
    (ends : EndsQuoted final rest) (inside : QuotedBody body value clean)
    (here : readTokenHere
      ⟨pos, '"'.toUInt8 :: (body ++ final) ++ rest, errors⟩ =
        .ok (token, later))
    (isOpen : final ≠ ['"'.toUInt8]) :
    ⟨token.range, ascii "unterminated string"⟩ ∈ later.errors := by
  cases ends with
  | quote rest => exact absurd rfl isOpen
  | stop stops =>
      obtain ⟨new, -, read⟩ := readString_stop inside stops pos errors
      rw [List.append_nil, List.cons_append, readTokenHere_quote, read] at here
      obtain ⟨rfl, rfl⟩ := Prod.mk.inj (Except.ok.inj here)
      simp
  | backslash =>
      obtain ⟨new, -, read⟩ := readString_lastBackslash inside pos errors
      rw [List.append_nil, readTokenHere_quote, read] at here
      obtain ⟨rfl, rfl⟩ := Prod.mk.inj (Except.ok.inj here)
      simp

/-- A literal that begins with a quote stays on its line, and is reported there
if it is not closed, exactly if no backslash stands before the newline. -/
theorem quoted_onOneLine_iff {before after : Bytes} {lexer later : Lexer}
    {token : Token}
    (call : Call (before ++ '"'.toUInt8 :: after) lexer token later)
    (begins : token.range.start = before.length) :
    (OnOneLine (before ++ '"'.toUInt8 :: after) token.range ∧
        (¬ Closes after token.range →
          ⟨token.range, ascii "unterminated string"⟩ ∈ later.errors)) ↔
      escapesNewline false after = false := by
  obtain ⟨passed, word, rest, lexed⟩ := call.lexed
  obtain ⟨rfl, cut⟩ := lexed.begins begins
  obtain ⟨clean, lexeme⟩ := lexed.lexeme
  have quote : word.head? = some '"'.toUInt8 := by
    obtain ⟨c, tail, rfl⟩ := List.exists_cons_of_ne_nil lexeme.ne_nil
    exact congrArg some (List.cons.inj cut).1.symm
  obtain ⟨body, value, inner, final, inside, rfl, ends⟩ :=
    lexeme.quoted_cases quote
  rw [List.cons_append, List.append_assoc] at cut
  obtain rfl := (List.cons.inj cut).2
  have reported : ¬ Closes (body ++ (final ++ rest)) token.range →
      ⟨token.range, ascii "unterminated string"⟩ ∈ later.errors := by
    refine fun isOpen => ends.reported inside lexed.here fun closed => isOpen ?_
    subst closed
    refine ⟨body, value, inner, rest, inside, rfl, ?_⟩
    rw [lexed.range]
    simp
  have same : '"'.toUInt8 :: (body ++ (final ++ rest)) =
      '"'.toUInt8 :: (body ++ final) ++ rest := by
    rw [List.cons_append, List.append_assoc]
  rw [and_iff_left reported, same, lexed.range, onOneLine_iff,
    ← Bool.not_eq_true, not_iff_not,
    inside.escapesNewline_iff ends.noNewline.2]
  have quote : '\n'.toUInt8 ≠ '"'.toUInt8 := by decide
  simp [ends.noNewline.1, quote]

/-- An invalid escape in a literal that its line ends in. -/
theorem quoted_onOneLine_invalid :
    ∃ lexer token later,
      Call (ascii "=" ++ '"'.toUInt8 :: ascii "\\x\ny") lexer token later ∧
      token.range = ⟨1, 4⟩ ∧
      ((OnOneLine (ascii "=" ++ '"'.toUInt8 :: ascii "\\x\ny") token.range ∧
          (¬ Closes (ascii "\\x\ny") token.range →
            ⟨token.range, ascii "unterminated string"⟩ ∈ later.errors)) ↔
        escapesNewline false (ascii "\\x\ny") = false) := by
  have call : Call (ascii "=" ++ '"'.toUInt8 :: ascii "\\x\ny")
      ⟨1, ascii "\"\\x\ny", []⟩ ⟨⟨1, 4⟩, .stringLiteral (ascii "\\x")⟩
      ⟨4, ascii "\ny", [⟨⟨2, 4⟩, ascii "invalid escape character"⟩,
        ⟨⟨1, 4⟩, ascii "unterminated string"⟩]⟩ :=
    ⟨.step (.init rfl) ⟨⟨⟨0, 1⟩, .simple .equals rfl⟩, by decide⟩, by decide⟩
  exact ⟨_, _, _, call, rfl, quoted_onOneLine_iff call rfl⟩

/-- A backslash at the end of the line takes the next line into the literal. -/
theorem quoted_leaves_line :
    ∃ lexer token later, Call (ascii "\"a\\\n;") lexer token later ∧
      (ascii "\"a\\\n;")[token.range.start]? = some '"'.toUInt8 ∧
      ⟨token.range, ascii "unterminated string"⟩ ∈ later.errors ∧
      ¬ OnOneLine (ascii "\"a\\\n;") token.range := by
  have call : Call (ascii "\"a\\\n;") (create (ascii "\"a\\\n;"))
      ⟨⟨0, 5⟩, .stringLiteral (ascii "a\\\n;")⟩
      ⟨5, [], [⟨⟨2, 4⟩, ascii "invalid escape character"⟩,
        ⟨⟨0, 5⟩, ascii "unterminated string"⟩]⟩ :=
    ⟨.init rfl, by decide⟩
  refine ⟨_, _, _, call, rfl, by simp, fun oneLine => ?_⟩
  exact oneLine 3 ⟨by decide, by decide⟩ rfl

/-! Integer literals and the numbers that their digits stand for. -/

theorem decimal_le_of_prefix {digits more : Bytes} (begins : digits <+: more) :
    decimal digits ≤ decimal more := by
  obtain ⟨rest, rfl⟩ := begins
  induction rest using List.reverseRecOn with
  | nil => rw [List.append_nil]
  | append_singleton rest d induction =>
      rw [← List.append_assoc, decimal_concat]
      omega

theorem charToNumber_toInt {c : UInt8} (number : isNumber c = true) :
    (charToNumber c).toInt = (c.toNat - '0'.toUInt8.toNat : Nat) := by
  have digit : c.toNat - '0'.toUInt8.toNat < 2 ^ 31 := by
    have range := isNumber_iff.mp number
    omega
  exact Int32.toInt_ofNat_of_lt digit

theorem numberValue_toInt {c : UInt8} {digits : Bytes}
    (small : decimal (c :: digits) < 2 ^ 31) :
    (numberValue c digits).toInt = decimal (c :: digits) := by
  rw [numberValue_eq]
  exact Int32.toInt_ofNat_of_lt small

/-- The values that an `int` has. -/
def FitsInt (value : Int) : Prop := -2 ^ 31 ≤ value ∧ value < 2 ^ 31

/-- What is added up for each digit after the first fits. -/
def SumsFit (digits : Bytes) : Prop :=
  ∀ c done d, c :: (done ++ [d]) <+: digits →
    FitsInt ((numberValue c done).toInt * 10 + (charToNumber d).toInt)

theorem sum_eq {c d : UInt8} {done : Bytes} (number : isNumber d = true)
    (small : decimal (c :: done) < 2 ^ 31) :
    (numberValue c done).toInt * 10 + (charToNumber d).toInt =
      decimal (c :: (done ++ [d])) := by
  rw [numberValue_toInt small, charToNumber_toInt number, ← List.cons_append,
    decimal_concat]
  push_cast
  rfl

theorem sumsFit_iff {c : UInt8} {digits : Bytes}
    (run : ∀ d ∈ c :: digits, isNumber d = true) :
    SumsFit (c :: digits) ↔ decimal (c :: digits) < 2 ^ 31 := by
  constructor
  · -- The sum for the last digit is the number, as those before it fitted.
    induction digits using List.reverseRecOn with
    | nil =>
        intro _
        have range := isNumber_iff.mp (run c List.mem_cons_self)
        simp only [decimal, List.foldl_cons, List.foldl_nil]
        omega
    | append_singleton done d induction =>
        intro fits
        have before : c :: done <+: c :: (done ++ [d]) :=
          List.prefix_append (c :: done) [d]
        have small := induction
          (fun e member => run e (before.subset member))
          fun c' done' d' begins => fits c' done' d' (begins.trans before)
        have number := run d (by simp)
        have sum := (fits c done d (List.prefix_refl _)).2
        rw [sum_eq number small] at sum
        omega
  · intro small c' done d begins
    have whole := decimal_le_of_prefix begins
    have part := decimal_le_of_prefix (List.prefix_append (c' :: done) [d])
    rw [List.cons_append] at part
    have number := run d (begins.subset (by simp))
    rw [FitsInt, sum_eq number (by omega)]
    omega

theorem Lexeme.number_cases {c : UInt8} {tail rest : Bytes} {kind : TokenKind}
    {clean : Bool} (lexeme : Lexeme (c :: tail) rest kind clean)
    (number : isNumber c = true) :
    (∀ d ∈ c :: tail, isNumber d = true) ∧ StopsRun isNumber rest ∧
      kind = .integerLiteral (numberValue c tail) := by
  cases lexeme with
  | number start run stops =>
      exact ⟨List.forall_mem_cons.mpr ⟨start, run⟩, stops, rfl⟩
  | identifier start _ _ _ =>
      rw [isIdentifierStart_of_isNumber number] at start
      contradiction
  | simple _ isSimple =>
      rw [isSimple.noNumber] at number
      contradiction
  | rawString _ _ _ | openRawString _ _ | badRawString _ _ => contradiction
  | quoted _ _ | openQuoted _ _ | openEscape _ => contradiction

/-- A call that begins at a digit reads all digits from there on, and pushes
nothing. -/
theorem Lexed.number {text passed word rest : Bytes} {errors : List ErrorTag}
    {token : Token} {later : Lexer} {c : UInt8} {tail : Bytes}
    (lexed : Lexed text errors token later passed word rest)
    (first : word = c :: tail) (number : isNumber c = true) :
    (∀ d ∈ word, isNumber d = true) ∧ StopsRun isNumber rest ∧
      token.kind = .integerLiteral (numberValue c tail) ∧
      later.errors = errors := by
  subst first
  obtain ⟨clean, lexeme⟩ := lexed.lexeme
  obtain ⟨run, stops, kind⟩ := lexeme.number_cases number
  have here := lexed.here
  rw [List.cons_append, readTokenHere_number number,
    readNumber_eq (fun d member => run d (List.mem_cons_of_mem c member)) stops]
    at here
  obtain ⟨-, rfl⟩ := Prod.mk.inj (Except.ok.inj here)
  exact ⟨run, stops, kind, rfl⟩

/-- The literal of a maximal run of digits has the value of the run or is
reported, and all sums on the way to it are in the range of `int`: either holds
exactly if the value of the run is in the range. -/
theorem integer_value_iff {before digits rest : Bytes} {lexer later : Lexer}
    {token : Token} (nonempty : digits ≠ [])
    (run : ∀ d ∈ digits, isNumber d = true) (stops : StopsRun isNumber rest)
    (call : Call (before ++ (digits ++ rest)) lexer token later)
    (begins : token.range.start = before.length) :
    (((∃ value, token.kind = .integerLiteral value ∧
        value.toInt = decimal digits) ∨ later.errors ≠ lexer.errors) ↔
      decimal digits < 2 ^ 31) ∧
    (SumsFit digits ↔ decimal digits < 2 ^ 31) := by
  obtain ⟨passed, word, more, lexed⟩ := call.lexed
  obtain ⟨rfl, cut⟩ := lexed.begins begins
  obtain ⟨c, tail, rfl⟩ := List.exists_cons_of_ne_nil nonempty
  obtain ⟨clean, lexeme⟩ := lexed.lexeme
  obtain ⟨d, tail', rfl⟩ := List.exists_cons_of_ne_nil lexeme.ne_nil
  obtain rfl : c = d := (List.cons.inj cut).1
  obtain ⟨run', stops', kind, silent⟩ :=
    lexed.number rfl (run c List.mem_cons_self)
  obtain rfl : tail = tail' := by
    have same := congrArg (List.takeWhile isNumber) cut
    rw [stops.takeWhile run, stops'.takeWhile run'] at same
    exact (List.cons.inj same).2
  refine ⟨⟨fun means => ?_, fun small => ?_⟩, sumsFit_iff run⟩
  · obtain ⟨value, -, denotes⟩ := means.resolve_right (absurd silent)
    have bound := value.toInt_lt
    omega
  · exact .inl ⟨_, kind, numberValue_toInt small⟩

/-- The greatest number that fits, after zeros. -/
theorem integer_value_max :
    ∃ lexer token later,
      Call ([] ++ (ascii "002147483647" ++ ascii ";")) lexer token later ∧
      token.kind = .integerLiteral 2147483647 ∧
      (((∃ value, token.kind = .integerLiteral value ∧
          value.toInt = decimal (ascii "002147483647")) ∨
            later.errors ≠ lexer.errors) ↔
        decimal (ascii "002147483647") < 2 ^ 31) ∧
      (SumsFit (ascii "002147483647") ↔
        decimal (ascii "002147483647") < 2 ^ 31) := by
  have call : Call ([] ++ (ascii "002147483647" ++ ascii ";"))
      (create (ascii "002147483647;"))
      ⟨⟨0, 12⟩, .integerLiteral 2147483647⟩ ⟨12, ascii ";", []⟩ :=
    ⟨.init rfl, by decide⟩
  have stops : StopsRun isNumber (ascii ";") := by
    intro c first
    cases first
    rfl
  exact ⟨_, _, _, call, rfl, integer_value_iff (by decide)
    (List.all_eq_true.mp (by decide)) stops call rfl⟩

/-- The next number is read as another one, and not reported. -/
theorem integer_overflows :
    ∃ lexer token later, Call (ascii "2147483648") lexer token later ∧
      token.kind = .integerLiteral (-2147483648) ∧
      decimal (ascii "2147483648") = 2147483648 ∧
      later.errors = lexer.errors ∧ ¬ SumsFit (ascii "2147483648") := by
  have call : Call (ascii "2147483648") (create (ascii "2147483648"))
      ⟨⟨0, 10⟩, .integerLiteral (-2147483648)⟩ ⟨10, [], []⟩ :=
    ⟨.init rfl, by decide⟩
  have number : decimal (ascii "2147483648") = 2147483648 := by decide
  have sum : ¬ FitsInt ((numberValue '2'.toUInt8 (ascii "14748364")).toInt * 10 +
      (charToNumber '8'.toUInt8).toInt) := by
    unfold FitsInt
    decide
  refine ⟨_, _, _, call, rfl, number, rfl, fun fits => sum ?_⟩
  exact fits '2'.toUInt8 (ascii "14748364") '8'.toUInt8 (List.prefix_refl _)

end Initd.Lexer
