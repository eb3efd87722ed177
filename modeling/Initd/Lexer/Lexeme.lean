import Initd.Lexer.Loops
import Mathlib.Data.List.TakeWhile

namespace Initd.Lexer

open Library

/-! The lexical grammar, independent of the lexer: what a text may begin with. -/

/-- The first character after a maximal run of characters of one kind. -/
def StopsRun (continues : UInt8 → Bool) (rest : Bytes) : Prop :=
  ∀ c ∈ rest.head?, continues c = false

theorem StopsRun.takeWhile {continues : UInt8 → Bool} {word rest : Bytes}
    (stops : StopsRun continues rest) (run : ∀ c ∈ word, continues c = true) :
    (word ++ rest).takeWhile continues = word := by
  rw [List.takeWhile_append_of_pos run]
  cases rest with
  | nil => simp
  | cons c rest =>
      rw [List.takeWhile_cons_of_neg (by simpa using stops c rfl),
        List.append_nil]

theorem StopsRun.dropWhile {continues : UInt8 → Bool} {word rest : Bytes}
    (stops : StopsRun continues rest) (run : ∀ c ∈ word, continues c = true) :
    (word ++ rest).dropWhile continues = rest := by
  rw [List.dropWhile_append_of_pos run]
  cases rest with
  | nil => rfl
  | cons c rest =>
      exact List.dropWhile_cons_of_neg (by simpa using stops c rfl)

theorem exists_run (continues : UInt8 → Bool) (text : Bytes) :
    ∃ word rest, text = word ++ rest ∧ (∀ c ∈ word, continues c = true) ∧
      StopsRun continues rest := by
  refine ⟨text.takeWhile continues, text.dropWhile continues,
    List.takeWhile_append_dropWhile.symm, ?_, ?_⟩
  · exact fun c member => List.mem_takeWhile_imp member
  · intro c first
    have stops := List.head?_dropWhile_not continues text
    rw [Option.mem_def.mp first] at stops
    exact stops

abbrev lineCommentStart : Bytes := ['/'.toUInt8, '/'.toUInt8]

abbrev blockCommentStart : Bytes := ['/'.toUInt8, '*'.toUInt8]

abbrev rawStart : Bytes := ['R'.toUInt8, '"'.toUInt8]

/-- A piece of text between tokens, and whether it is complete. -/
inductive Trivia : Bytes → Bytes → Bool → Prop
  | whitespace {c : UInt8} (rest : Bytes)
      (blank : isAsciiWhitespace c = true) : Trivia [c] rest true
  | lineComment {body : Bytes} (rest : Bytes) (inside : '\n'.toUInt8 ∉ body) :
      Trivia (lineCommentStart ++ body ++ ['\n'.toUInt8]) rest true
  | blockComment {body : Bytes} (rest : Bytes) (inside : ¬ commentEnd <:+: body) :
      Trivia (blockCommentStart ++ body ++ commentEnd) rest true
  | openBlockComment {body : Bytes} (inside : ¬ commentEnd <:+: body) :
      Trivia (blockCommentStart ++ body) [] false

/-- The type of the token that a character is, if it begins no longer one. -/
def simpleType (c : UInt8) : TokenType :=
  if c = 0x7B then .lbrace
  else if c = 0x7D then .rbrace
  else if c = '='.toUInt8 then .equals
  else if c = ';'.toUInt8 then .semicolon
  else if c = ','.toUInt8 then .comma
  else if c = ':'.toUInt8 then .colon
  else .unknown

theorem simpleType_isSimple (c : UInt8) : (simpleType c).isSimple = true := by
  unfold simpleType
  split_ifs <;> rfl

/-- The digits of an integer literal, read from the left. -/
def numberValue (first : UInt8) (digits : Bytes) : Int32 :=
  digits.foldl (fun value c => value * 10 + charToNumber c)
    (charToNumber first)

/-- A character that begins no longer token and nothing between tokens. -/
structure IsSimple (c : UInt8) (rest : Bytes) : Prop where
  visible : isAsciiWhitespace c = false
  noIdentifier : isIdentifierStart c = false
  noNumber : isNumber c = false
  noString : c ≠ '"'.toUInt8
  noLineComment : ¬ lineCommentStart <+: c :: rest
  noBlockComment : ¬ blockCommentStart <+: c :: rest

/-- A token at the front of a text, what follows it, and whether it is free of
errors. -/
inductive Lexeme : Bytes → Bytes → TokenKind → Bool → Prop
  | rawString {pre value : Bytes} (rest : Bytes) (plain : RawPrefix pre)
      (inside : ¬ rawEnd pre <:+: value) :
      Lexeme (rawStart ++ pre ++ '('.toUInt8 :: value ++ rawEnd pre) rest
        (.stringLiteral value) true
  | openRawString {pre value : Bytes} (plain : RawPrefix pre)
      (inside : ¬ rawEnd pre <:+: value) :
      Lexeme (rawStart ++ pre ++ '('.toUInt8 :: value) []
        (.stringLiteral value) false
  | badRawString {pre rest : Bytes} (plain : RawPrefix pre)
      (stops : StopsRawPrefix rest) :
      Lexeme (rawStart ++ pre) rest (.stringLiteral []) false
  | identifier {c : UInt8} {word rest : Bytes}
      (start : isIdentifierStart c = true)
      (run : ∀ d ∈ word, isIdentifierTrail d = true)
      (stops : StopsRun isIdentifierTrail rest)
      (noRaw : ¬ rawStart <+: c :: (word ++ rest)) :
      Lexeme (c :: word) rest (makeIdentifierToken ⟨0, 0⟩ (c :: word)).kind true
  | number {c : UInt8} {digits rest : Bytes} (start : isNumber c = true)
      (run : ∀ d ∈ digits, isNumber d = true) (stops : StopsRun isNumber rest) :
      Lexeme (c :: digits) rest (.integerLiteral (numberValue c digits)) true
  | quoted {body value : Bytes} {clean : Bool} (rest : Bytes)
      (inside : QuotedBody body value clean) :
      Lexeme ('"'.toUInt8 :: (body ++ ['"'.toUInt8])) rest
        (.stringLiteral value) clean
  | openQuoted {body value rest : Bytes} {clean : Bool}
      (inside : QuotedBody body value clean) (stops : StopsQuoted rest) :
      Lexeme ('"'.toUInt8 :: body) rest (.stringLiteral value) false
  | openEscape {body value : Bytes} {clean : Bool}
      (inside : QuotedBody body value clean) :
      Lexeme ('"'.toUInt8 :: (body ++ ['\\'.toUInt8])) []
        (.stringLiteral value) false
  | simple {c : UInt8} (rest : Bytes) (isSimple : IsSimple c rest) :
      Lexeme [c] rest (.simple (simpleType c) (simpleType_isSimple c)) true

/-- A comment to the end of its line in a text that ends before the line. -/
def OpenLineComment (text : Bytes) : Prop :=
  ∃ body, text = lineCommentStart ++ body ∧ '\n'.toUInt8 ∉ body

/-! Every text begins with one of these. -/

theorem exists_quotedBody : ∀ text : Bytes,
    ∃ body value clean rest, text = body ++ rest ∧
      QuotedBody body value clean ∧
      (StopsQuoted rest ∨ rest = ['\\'.toUInt8] ∨
        ∃ more, rest = '"'.toUInt8 :: more)
  | [] => ⟨[], [], true, [], rfl, .nil, .inl fun _ first => nomatch first⟩
  | [c] => by
      by_cases newline : c = '\n'.toUInt8
      · refine ⟨[], [], true, [c], rfl, .nil, .inl fun d first => ?_⟩
        exact (Option.some.inj first).symm.trans newline
      · by_cases quote : c = '"'.toUInt8
        · exact ⟨[], [], true, [c], rfl, .nil, .inr (.inr ⟨[], by rw [quote]⟩)⟩
        · by_cases backslash : c = '\\'.toUInt8
          · exact ⟨[], [], true, [c], rfl, .nil, .inr (.inl (by rw [backslash]))⟩
          · exact ⟨[c], [c], true, [], rfl,
              .char ⟨newline, quote, backslash⟩ .nil,
              .inl fun _ first => nomatch first⟩
  | c :: d :: text => by
      by_cases newline : c = '\n'.toUInt8
      · refine ⟨[], [], true, c :: d :: text, rfl, .nil, .inl fun e first => ?_⟩
        exact (Option.some.inj first).symm.trans newline
      · by_cases quote : c = '"'.toUInt8
        · exact ⟨[], [], true, c :: d :: text, rfl, .nil,
            .inr (.inr ⟨d :: text, by rw [quote]⟩)⟩
        · by_cases backslash : c = '\\'.toUInt8
          · obtain ⟨body, value, clean, rest, rfl, inside, ends⟩ :=
              exists_quotedBody text
            subst c
            cases escaped : escapedChar d with
            | some e =>
                exact ⟨_, _, _, rest, rfl, .escape escaped inside, ends⟩
            | none =>
                exact ⟨_, _, _, rest, rfl, .invalid escaped inside, ends⟩
          · obtain ⟨body, value, clean, rest, equal, inside, ends⟩ :=
              exists_quotedBody (d :: text)
            exact ⟨c :: body, c :: value, clean, rest, by rw [equal]; rfl,
              .char ⟨newline, quote, backslash⟩ inside, ends⟩

theorem exists_rawPrefix (text : Bytes) :
    ∃ pre rest, text = pre ++ rest ∧ RawPrefix pre ∧
      (StopsRawPrefix rest ∨ ∃ more, rest = '('.toUInt8 :: more) := by
  obtain ⟨pre, rest, equal, run, stops⟩ :=
    exists_run (fun c => !endsRawPrefix c && c != '('.toUInt8) text
  refine ⟨pre, rest, equal, fun c member => by simpa using run c member, ?_⟩
  cases rest with
  | nil => exact .inl fun _ first => nomatch first
  | cons c more =>
      by_cases opens : c = '('.toUInt8
      · exact .inr ⟨more, by rw [opens]⟩
      · refine .inl fun d first => ?_
        obtain rfl : c = d := Option.some.inj first
        simpa [opens] using stops c rfl

theorem Trivia.ne_nil {word rest : Bytes} {clean : Bool}
    (trivia : Trivia word rest clean) : word ≠ [] := by
  cases trivia <;> simp

theorem Lexeme.ne_nil {word rest : Bytes} {kind : TokenKind} {clean : Bool}
    (lexeme : Lexeme word rest kind clean) : word ≠ [] := by
  cases lexeme <;> simp

inductive Front : Bytes → Prop
  | empty : Front []
  | openLineComment {text : Bytes} (isOpen : OpenLineComment text) : Front text
  | trivia {word rest : Bytes} {clean : Bool}
      (trivia : Trivia word rest clean) : Front (word ++ rest)
  | lexeme {word rest : Bytes} {kind : TokenKind} {clean : Bool}
      (lexeme : Lexeme word rest kind clean) : Front (word ++ rest)

section Fronts

private theorem front_lineComment (body : Bytes) :
    Front (lineCommentStart ++ body) := by
  by_cases closed : '\n'.toUInt8 ∈ body
  · obtain ⟨before, rest, rfl, inside⟩ := FirstOccurrence.exists_first
      (List.cons_ne_nil _ []) (List.singleton_infix_iff _ _ |>.mpr closed)
    rw [List.singleton_infix_iff] at inside
    have front := Front.trivia (.lineComment rest inside)
    simpa using front
  · exact .openLineComment ⟨body, rfl, closed⟩

private theorem front_blockComment (body : Bytes) :
    Front (blockCommentStart ++ body) := by
  by_cases closed : commentEnd <:+: body
  · obtain ⟨before, rest, rfl, inside⟩ := FirstOccurrence.exists_first
      (by simp [commentEnd]) closed
    have front := Front.trivia (.blockComment rest inside)
    simpa using front
  · have front := Front.trivia (.openBlockComment closed)
    simpa using front

private theorem front_rawString (body : Bytes) :
    Front (rawStart ++ body) := by
  obtain ⟨pre, rest, rfl, plain, stops | ⟨more, rfl⟩⟩ := exists_rawPrefix body
  · have front := Front.lexeme (.badRawString plain stops)
    simpa using front
  · by_cases closed : rawEnd pre <:+: more
    · obtain ⟨value, rest, rfl, inside⟩ := FirstOccurrence.exists_first
        (by simp [rawEnd]) closed
      have front := Front.lexeme (.rawString rest plain inside)
      simpa using front
    · have front := Front.lexeme (.openRawString plain closed)
      simpa using front

private theorem front_quoted (body : Bytes) :
    Front ('"'.toUInt8 :: body) := by
  obtain ⟨before, value, clean, rest, rfl, inside, ends⟩ :=
    exists_quotedBody body
  rcases ends with stops | rfl | ⟨more, rfl⟩
  · exact .lexeme (.openQuoted inside stops)
  · have front := Front.lexeme (.openEscape inside)
    simpa using front
  · have front := Front.lexeme (.quoted more inside)
    simpa using front

theorem front (text : Bytes) : Front text := by
  cases text with
  | nil => exact .empty
  | cons c tail =>
      by_cases lineComment : lineCommentStart <+: c :: tail
      · obtain ⟨body, equal⟩ := lineComment
        rw [← equal]
        exact front_lineComment body
      by_cases blockComment : blockCommentStart <+: c :: tail
      · obtain ⟨body, equal⟩ := blockComment
        rw [← equal]
        exact front_blockComment body
      by_cases raw : rawStart <+: c :: tail
      · obtain ⟨body, equal⟩ := raw
        rw [← equal]
        exact front_rawString body
      by_cases quote : c = '"'.toUInt8
      · rw [quote]
        exact front_quoted tail
      cases blank : isAsciiWhitespace c with
      | true => exact .trivia (.whitespace tail blank)
      | false =>
          cases identifier : isIdentifierStart c with
          | true =>
              obtain ⟨word, rest, rfl, run, stops⟩ :=
                exists_run isIdentifierTrail tail
              exact .lexeme (.identifier identifier run stops raw)
          | false =>
              cases number : isNumber c with
              | true =>
                  obtain ⟨digits, rest, rfl, run, stops⟩ :=
                    exists_run isNumber tail
                  exact .lexeme (.number number run stops)
              | false =>
                  exact .lexeme (.simple tail
                    ⟨blank, identifier, number, quote, lineComment,
                      blockComment⟩)

end Fronts

end Initd.Lexer
