import Initd.Library.StepSystem
import Initd.Lexer.Scan

namespace Initd.Lexer

open Library

/-! The calls of `read_token` on a text, whatever becomes of the calls after
them. -/

def calls (text : Bytes) : StepSystem Lexer where
  init lexer := lexer = create text
  step lexer later := ∃ token,
    lexer.readNextToken (lexer.rest.length + 1) = .ok (some token, later)

/-- A call that returns a token. -/
structure Call (text : Bytes) (lexer : Lexer) (token : Token)
    (later : Lexer) : Prop where
  reached : (calls text).Reachable lexer
  read : lexer.readNextToken (lexer.rest.length + 1) = .ok (some token, later)

/-- A token is read as a lexeme of the text, from the first character on that
is not passed, and what is passed is not reported. -/
structure Lexed (text : Bytes) (errors : List ErrorTag) (token : Token)
    (later : Lexer) (before word rest : Bytes) : Prop where
  cut : text = before ++ (word ++ rest)
  lexeme : ∃ clean, Lexeme word rest token.kind clean
  range : token.range = ⟨before.length, before.length + word.length⟩
  moved : later.pos = before.length + word.length ∧ later.rest = rest
  here : readTokenHere ⟨before.length, word ++ rest, errors⟩ =
    .ok (token, later)

theorem Lexed.begins {before after word rest passed : Bytes}
    {errors : List ErrorTag} {token : Token} {later : Lexer}
    (lexed : Lexed (before ++ after) errors token later passed word rest)
    (place : token.range.start = before.length) :
    before = passed ∧ after = word ++ rest := by
  refine List.append_inj lexed.cut ?_
  rw [← place, lexed.range]

theorem Lexeme.lexed {word rest : Bytes} {kind : TokenKind} {clean : Bool}
    {errors : List ErrorTag} {token : Token} {later : Lexer}
    (lexeme : Lexeme word rest kind clean) (before : Bytes)
    (here : readNextToken ((word ++ rest).length + 1)
      ⟨before.length, word ++ rest, errors⟩ = .ok (some token, later)) :
    Lexed (before ++ (word ++ rest)) errors token later before word rest := by
  obtain ⟨new, -, read⟩ := lexeme.read before.length errors
  rw [readNextToken_here lexeme, read, ok_bind] at here
  obtain ⟨found, rfl⟩ := Prod.mk.inj (Except.ok.inj here)
  obtain rfl := Option.some.inj found
  exact ⟨rfl, ⟨clean, lexeme⟩, rfl, ⟨rfl, rfl⟩, read⟩

theorem readNextToken_lexed : ∀ (size : Nat) (passed rest : Bytes)
    (errors : List ErrorTag) (token : Token) (later : Lexer),
    rest.length ≤ size →
      readNextToken (rest.length + 1) ⟨passed.length, rest, errors⟩ =
          .ok (some token, later) →
        ∃ before word more,
          Lexed (passed ++ rest) errors token later before word more := by
  intro size
  induction size with
  | zero =>
      intro passed rest errors token later small read
      obtain rfl := List.eq_nil_of_length_eq_zero (Nat.le_zero.mp small)
      cases read
  | succ size induction =>
      intro passed rest errors token later small read
      cases front rest with
      | empty => cases read
      | openLineComment isOpen =>
          rw [readNextToken_openLineComment isOpen] at read
          contradiction
      | lexeme lexeme => exact ⟨passed, _, _, lexeme.lexed passed read⟩
      | @trivia skipped rest clean trivia =>
          obtain ⟨new, piece, passes⟩ :=
            readNextToken_trivia trivia passed.length errors
          obtain ⟨left, enough, same⟩ := passes _ (Nat.lt_succ_self _)
          rw [same, readNextToken_fuel _ _ _ _ _ (Nat.le_refl _) enough] at read
          cases clean with
          | false =>
              -- Only a comment that the text ends in is reported.
              cases trivia
              cases read
          | true =>
              have positive := List.length_pos_of_ne_nil trivia.ne_nil
              rw [List.length_append] at small
              rw [piece.silent rfl, List.append_nil, ← List.length_append] at read
              rw [← List.append_assoc]
              exact induction _ rest errors token later (by omega) read

/-- A lexer stands behind what it has read of its text. -/
theorem calls_split {text : Bytes} {lexer : Lexer}
    (reached : (calls text).Reachable lexer) :
    ∃ passed, text = passed ++ lexer.rest ∧ lexer.pos = passed.length := by
  induction reached with
  | init start => exact start ▸ ⟨[], rfl, rfl⟩
  | @step lexer later _ moved induction =>
      obtain ⟨token, read⟩ := moved
      obtain ⟨passed, rfl, place⟩ := induction
      obtain ⟨pos, rest, errors⟩ := lexer
      obtain rfl : pos = passed.length := place
      obtain ⟨before, word, more, lexed⟩ :=
        readNextToken_lexed _ passed rest errors token later (Nat.le_refl _) read
      refine ⟨before ++ word, ?_, ?_⟩
      · rw [lexed.moved.2, List.append_assoc]
        exact lexed.cut
      · rw [lexed.moved.1, List.length_append]

theorem Call.lexed {text : Bytes} {lexer later : Lexer} {token : Token}
    (call : Call text lexer token later) :
    ∃ before word rest,
      Lexed text lexer.errors token later before word rest := by
  obtain ⟨passed, rfl, place⟩ := calls_split call.reached
  obtain ⟨pos, rest, errors⟩ := lexer
  obtain rfl : pos = passed.length := place
  exact readNextToken_lexed _ passed rest errors token later (Nat.le_refl _)
    call.read

end Initd.Lexer
