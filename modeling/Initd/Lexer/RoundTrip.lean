import Initd.Lexer.Scan

namespace Initd.Lexer

/-! The printed forms of tokens and of what separates them. -/

def keywords : List (TokenType × Bytes) :=
  [(.taskKeyword, ascii "task"), (.trueKeyword, ascii "true"),
    (.falseKeyword, ascii "false"), (.dependsKeyword, ascii "depends"),
    (.runLevelKeyword, ascii "run_level")]

def punctuation : List (TokenType × UInt8) :=
  [(.lbrace, 0x7B), (.rbrace, 0x7D), (.equals, '='.toUInt8),
    (.semicolon, ';'.toUInt8), (.comma, ','.toUInt8), (.colon, ':'.toUInt8)]

def decimal (digits : Bytes) : Nat :=
  digits.foldl
    (fun value c => value * 10 + (c.toNat - '0'.toUInt8.toNat)) 0

theorem decimal_concat (digits : Bytes) (d : UInt8) :
    decimal (digits ++ [d]) =
      decimal digits * 10 + (d.toNat - '0'.toUInt8.toNat) := by
  rw [decimal, List.foldl_append]
  rfl

inductive Prints : TokenKind → Bytes → Prop
  | identifier {c : UInt8} {word : Bytes} (start : isIdentifierStart c = true)
      (run : ∀ d ∈ word, isIdentifierTrail d = true)
      (noKeyword : ∀ entry ∈ keywords, c :: word ≠ entry.2) :
      Prints (.identifier (c :: word)) (c :: word)
  | keyword {type : TokenType} {word : Bytes}
      (isSimple : type.isSimple = true) (member : (type, word) ∈ keywords) :
      Prints (.simple type isSimple) word
  | integer {value : Int32} {digits : Bytes} (nonempty : digits ≠ [])
      (run : ∀ d ∈ digits, isNumber d = true)
      (denotes : value.toInt = decimal digits) :
      Prints (.integerLiteral value) digits
  | quoted {value body : Bytes} (inside : QuotedBody body value true) :
      Prints (.stringLiteral value) ('"'.toUInt8 :: (body ++ ['"'.toUInt8]))
  | raw {pre value : Bytes} (plain : RawPrefix pre)
      (inside : ¬ rawEnd pre <:+: value) :
      Prints (.stringLiteral value)
        (rawStart ++ pre ++ '('.toUInt8 :: value ++ rawEnd pre)
  | punctuation {type : TokenType} {c : UInt8}
      (isSimple : type.isSimple = true) (member : (type, c) ∈ punctuation) :
      Prints (.simple type isSimple) [c]

inductive Separator : Bytes → Prop
  | nil : Separator []
  | whitespace {c : UInt8} {more : Bytes} (blank : c ≤ 32)
      (rest : Separator more) : Separator (c :: more)
  | lineComment {body more : Bytes} (inside : '\n'.toUInt8 ∉ body)
      (rest : Separator more) :
      Separator (lineCommentStart ++ body ++ '\n'.toUInt8 :: more)
  | blockComment {body more : Bytes} (inside : ¬ commentEnd <:+: body)
      (rest : Separator more) :
      Separator (blockCommentStart ++ body ++ commentEnd ++ more)

/-- Tokens with nonempty separators between them, and any after the last. -/
inductive PrintsTokens : List TokenKind → Bytes → Prop
  | nil : PrintsTokens [] []
  | last {kind : TokenKind} {word separator : Bytes} (here : Prints kind word)
      (after : Separator separator) : PrintsTokens [kind] (word ++ separator)
  | cons {kind : TokenKind} {kinds : List TokenKind}
      {word separator text : Bytes} (here : Prints kind word)
      (after : Separator separator) (nonempty : separator ≠ [])
      (more : PrintsTokens kinds text) :
      PrintsTokens (kind :: kinds) (word ++ (separator ++ text))

def PrintsText (kinds : List TokenKind) (text : Bytes) : Prop :=
  ∃ separator tokens, Separator separator ∧ PrintsTokens kinds tokens ∧
    text = separator ++ tokens

/-! Every string and every number from 0 on has a printed form. -/

theorem exists_quotedBody_of_value (value : Bytes) :
    ∃ body, QuotedBody body value true := by
  induction value with
  | nil => exact ⟨[], .nil⟩
  | cons c value induction =>
      obtain ⟨body, inside⟩ := induction
      by_cases special :
          c = '\n'.toUInt8 ∨ c = '"'.toUInt8 ∨ c = '\\'.toUInt8
      · have escapes : ∃ letter, escapedChar letter = some c := by
          rcases special with rfl | rfl | rfl
          · exact ⟨'n'.toUInt8, rfl⟩
          · exact ⟨'"'.toUInt8, rfl⟩
          · exact ⟨'\\'.toUInt8, rfl⟩
        obtain ⟨letter, valid⟩ := escapes
        exact ⟨_, .escape valid inside⟩
      · exact ⟨_, .char (by simpa using special) inside⟩

theorem exists_prints_string (value : Bytes) :
    ∃ word, Prints (.stringLiteral value) word := by
  obtain ⟨body, inside⟩ := exists_quotedBody_of_value value
  exact ⟨_, .quoted inside⟩

/-! What is printed is scanned. -/

theorem isIdentifierTrail_iff {c : UInt8} :
    isIdentifierTrail c = true ↔
      isIdentifierStart c = true ∨ isNumber c = true := by
  simp only [isIdentifierTrail, isIdentifierStart, isNumber, Bool.or_eq_true]
  tauto

theorem Separator.scans {separator rest final : Bytes}
    {kinds : List TokenKind} {clean : Bool} (separated : Separator separator)
    (more : Scans rest kinds final clean) :
    Scans (separator ++ rest) kinds final clean := by
  induction separated with
  | nil => exact more
  | whitespace blank _ induction =>
      exact Scans.trivia (.whitespace _ (isAsciiWhitespace_iff.mpr blank))
        induction
  | lineComment inside _ induction =>
      have scans := Scans.trivia (.lineComment _ inside) induction
      simpa using scans
  | blockComment inside _ induction =>
      have scans := Scans.trivia (.blockComment _ inside) induction
      simpa using scans

/-- After a word comes the end of the text or a character that no word has. -/
def EndsWord (rest : Bytes) : Prop :=
  ∀ c ∈ rest.head?, c ≤ 32 ∨ c = '/'.toUInt8

theorem Separator.endsWord {separator rest : Bytes}
    (separated : Separator separator) (nonempty : separator ≠ []) :
    EndsWord (separator ++ rest) := by
  intro c first
  cases separated with
  | nil => contradiction
  | whitespace blank _ =>
      obtain rfl := Option.some.inj first
      exact .inl blank
  | lineComment _ _ | blockComment _ _ =>
      exact .inr (Option.some.inj first).symm

theorem Separator.endsWord_last {separator : Bytes}
    (separated : Separator separator) : EndsWord separator := by
  by_cases nonempty : separator = []
  · rw [nonempty]
    simp [EndsWord]
  · rw [← List.append_nil separator]
    exact separated.endsWord nonempty

theorem EndsWord.stopsRun {rest : Bytes} (ends : EndsWord rest) :
    StopsRun isIdentifierTrail rest ∧ StopsRun isNumber rest := by
  have slash : '/'.toUInt8.toNat = 47 := rfl
  have space : (32 : UInt8).toNat = 32 := rfl
  have noNumber : StopsRun isNumber rest := by
    intro c first
    have small := ends c first
    rw [UInt8.le_iff_toNat_le, ← UInt8.toNat_inj] at small
    rw [← Bool.not_eq_true, isNumber_iff]
    omega
  refine ⟨fun c first => ?_, noNumber⟩
  have small := ends c first
  rw [UInt8.le_iff_toNat_le, ← UInt8.toNat_inj] at small
  rw [← Bool.not_eq_true, isIdentifierTrail_iff, not_or,
    Bool.not_eq_true (isNumber c), isIdentifierStart_iff]
  exact ⟨by omega, noNumber c first⟩

theorem EndsWord.noRaw {c : UInt8} {word rest : Bytes} (ends : EndsWord rest)
    (run : ∀ d ∈ word, isIdentifierTrail d = true) :
    ¬ rawStart <+: c :: (word ++ rest) := by
  intro begins
  obtain ⟨-, more⟩ := List.cons_prefix_cons.mp begins
  cases word with
  | nil =>
      obtain ⟨_, rfl⟩ := more
      have here := ends '"'.toUInt8 rfl
      revert here
      decide
  | cons d word =>
      obtain ⟨rfl, -⟩ := List.cons_prefix_cons.mp more
      have trail := run '"'.toUInt8 List.mem_cons_self
      revert trail
      decide

theorem makeIdentifierToken_identifier {word : Bytes}
    (noKeyword : ∀ entry ∈ keywords, word ≠ entry.2) :
    (makeIdentifierToken ⟨0, 0⟩ word).kind = .identifier word := by
  simp only [keywords, List.forall_mem_cons] at noKeyword
  obtain ⟨task, true, false, depends, runLevel, -⟩ := noKeyword
  simp [makeIdentifierToken, *]

theorem makeIdentifierToken_keyword {type : TokenType} {word : Bytes}
    (isSimple : type.isSimple = true) (member : (type, word) ∈ keywords) :
    (makeIdentifierToken ⟨0, 0⟩ word).kind = .simple type isSimple ∧
      ∃ c more, word = c :: more ∧ isIdentifierStart c = true ∧
        ∀ d ∈ more, isIdentifierTrail d = true := by
  simp only [keywords, List.mem_cons, Prod.mk.injEq, List.not_mem_nil,
    or_false] at member
  rcases member with ⟨rfl, rfl⟩ | ⟨rfl, rfl⟩ | ⟨rfl, rfl⟩ | ⟨rfl, rfl⟩ |
    ⟨rfl, rfl⟩
  all_goals exact ⟨by revert isSimple; decide, _, _, rfl, by decide,
    List.all_eq_true.mp (by decide)⟩

theorem numberValue_eq (c : UInt8) (digits : Bytes) :
    numberValue c digits = Int32.ofNat (decimal (c :: digits)) := by
  have fold : ∀ (digits : Bytes) (value : Nat),
      digits.foldl (fun value c => value * 10 + charToNumber c)
          (Int32.ofNat value) =
        Int32.ofNat (digits.foldl
          (fun value c => value * 10 + (c.toNat - '0'.toUInt8.toNat)) value) := by
    intro digits
    induction digits with
    | nil => exact fun _ => rfl
    | cons c digits induction =>
        intro value
        rw [List.foldl_cons, List.foldl_cons, ← induction, Int32.ofNat_add,
          Int32.ofNat_mul]
        rfl
  rw [numberValue, charToNumber, fold, decimal, List.foldl_cons, Nat.zero_mul,
    Nat.zero_add]

theorem numberValue_of_denotes {value : Int32} {c : UInt8} {digits : Bytes}
    (denotes : value.toInt = decimal (c :: digits)) :
    numberValue c digits = value := by
  rw [numberValue_eq, ← Int32.ofInt_eq_ofNat, ← denotes, Int32.ofInt_toInt]

theorem isSimple_of_punctuation {type : TokenType} {c : UInt8}
    (member : (type, c) ∈ punctuation) (rest : Bytes) :
    simpleType c = type ∧ IsSimple c rest := by
  have known : ∀ entry ∈ punctuation, simpleType entry.2 = entry.1 ∧
      isAsciiWhitespace entry.2 = false ∧ isIdentifierStart entry.2 = false ∧
      isNumber entry.2 = false ∧ entry.2 ≠ '"'.toUInt8 ∧
      '/'.toUInt8 ≠ entry.2 := by
    decide
  obtain ⟨equal, blank, identifier, number, quote, slash⟩ := known _ member
  exact ⟨equal, blank, identifier, number, quote,
    fun begins => slash (List.cons_prefix_cons.mp begins).1,
    fun begins => slash (List.cons_prefix_cons.mp begins).1⟩

/-- A printed token is one lexeme, whatever follows its end. -/
theorem Prints.lexeme {kind : TokenKind} {word rest : Bytes}
    (prints : Prints kind word) (ends : EndsWord rest) :
    Lexeme word rest kind true := by
  cases prints with
  | identifier start run noKeyword =>
      rw [← makeIdentifierToken_identifier noKeyword]
      exact .identifier start run ends.stopsRun.1 (ends.noRaw run)
  | keyword isSimple member =>
      obtain ⟨equal, c, more, rfl, start, run⟩ :=
        makeIdentifierToken_keyword isSimple member
      rw [← equal]
      exact .identifier start run ends.stopsRun.1 (ends.noRaw run)
  | integer nonempty run denotes =>
      cases word with
      | nil => contradiction
      | cons c digits =>
          rw [← numberValue_of_denotes denotes]
          exact .number (run c List.mem_cons_self)
            (fun d member => run d (List.mem_cons_of_mem c member))
            ends.stopsRun.2
  | quoted inside => exact .quoted rest inside
  | raw plain inside => exact .rawString rest plain inside
  | @punctuation type c isSimple member =>
      obtain ⟨rfl, alone⟩ := isSimple_of_punctuation member rest
      exact .simple rest alone

theorem PrintsTokens.scans {kinds : List TokenKind} {text : Bytes}
    (prints : PrintsTokens kinds text) : Scans text kinds [] true := by
  induction prints with
  | nil => exact .done
  | @last kind word separator here after =>
      have rest := after.scans (.done : Scans [] [] [] true)
      rw [List.append_nil] at rest
      exact Scans.lexeme (here.lexeme after.endsWord_last) rest
  | cons here after nonempty _ induction =>
      exact Scans.lexeme (here.lexeme (after.endsWord nonempty))
        (after.scans induction)

/-- Lexing undoes printing. -/
theorem lex_printed {kinds : List TokenKind} {text : Bytes}
    (printed : PrintsText kinds text) :
    ∃ tokens, tokens.map Token.kind = kinds ∧
      Lexer.readAll text = .ok (tokens, ⟨text.length, [], []⟩) := by
  obtain ⟨separator, tokens, separated, prints, rfl⟩ := printed
  obtain ⟨segments, errors, kinds, pieces, read⟩ :=
    (separated.scans prints.scans).readAll
  rw [pieces.piece.silent rfl] at read
  exact ⟨_, kinds, read⟩

/-- An identifier that begins like a raw string, a raw string that contains a
quote, and a quote in a comment between two tokens. -/
theorem lex_printed_rawString :
    PrintsText [.identifier (ascii "R"), .stringLiteral (ascii "\""),
        .integerLiteral 7] (ascii "R R\"x(\")x\"/*\"*/7") ∧
      ∃ tokens, tokens.map Token.kind =
          [.identifier (ascii "R"), .stringLiteral (ascii "\""),
            .integerLiteral 7] ∧
        Lexer.readAll (ascii "R R\"x(\")x\"/*\"*/7") =
          .ok (tokens, ⟨16, [], []⟩) := by
  have printed : PrintsText [.identifier (ascii "R"),
      .stringLiteral (ascii "\""), .integerLiteral 7]
      (ascii "R R\"x(\")x\"/*\"*/7") := by
    have name : Prints (.identifier (ascii "R")) (ascii "R") :=
      .identifier (by decide) (List.forall_mem_nil _) (by decide)
    have plain : RawPrefix (ascii "x") :=
      List.forall_mem_singleton.mpr (by decide)
    have noEnd : ¬ rawEnd (ascii "x") <:+: ascii "\"" := by decide
    have quote : Prints (.stringLiteral (ascii "\""))
        (ascii "R\"x(\")x\"") :=
      .raw plain noEnd
    have noComment : ¬ commentEnd <:+: ascii "\"" := by decide
    have comment : Separator (ascii "/*\"*/") := .blockComment noComment .nil
    have digit : Prints (.integerLiteral 7) (ascii "7") :=
      .integer (by decide) (List.all_eq_true.mp (by decide)) (by decide)
    have seven : PrintsTokens [.integerLiteral 7] (ascii "7") :=
      .last digit .nil
    have space : Separator (ascii " ") := .whitespace (by decide) .nil
    exact ⟨[], _, .nil, .cons name space (by decide)
      (.cons quote comment (by decide) seven), by decide⟩
  exact ⟨printed, lex_printed printed⟩

end Initd.Lexer
