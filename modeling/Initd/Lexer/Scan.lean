import Initd.Lexer.Correctness
import Initd.Library.Tiling

namespace Initd.Lexer

open Library

/-! A whole text: the tokens of the lexer are those of the lexical grammar. -/

/-- Complete pieces from the front of a text on, the tokens among them, what
they leave, and whether they are free of errors. -/
inductive Scans : Bytes → List TokenKind → Bytes → Bool → Prop
  | done {text : Bytes} : Scans text [] text true
  | trivia {word rest final : Bytes} {kinds : List TokenKind}
      {here later : Bool} (trivia : Trivia word rest here)
      (more : Scans rest kinds final later) :
      Scans (word ++ rest) kinds final (here && later)
  | lexeme {word rest final : Bytes} {kind : TokenKind}
      {kinds : List TokenKind} {here later : Bool}
      (lexeme : Lexeme word rest kind here)
      (more : Scans rest kinds final later) :
      Scans (word ++ rest) (kind :: kinds) final (here && later)

theorem Scans.trans {text middle final : Bytes} {kinds more : List TokenKind}
    {here later : Bool} (scans : Scans text kinds middle here)
    (rest : Scans middle more final later) :
    ∃ kinds clean, Scans text kinds final clean := by
  induction scans with
  | done => exact ⟨_, _, rest⟩
  | trivia trivia _ induction =>
      obtain ⟨_, _, whole⟩ := induction rest
      exact ⟨_, _, .trivia trivia whole⟩
  | lexeme lexeme _ induction =>
      obtain ⟨_, _, whole⟩ := induction rest
      exact ⟨_, _, .lexeme lexeme whole⟩

variable {pos fuel : Nat} {errors : List ErrorTag}

private theorem bind_ok_self {Value Rest : Type}
    (action : Except LexerFault (List Value × Rest)) :
    (action >>= fun (more, rest) => .ok ([] ++ more, rest)) = action := by
  cases action <;> rfl

theorem readTokens_nil :
    readTokens (fuel + 1) ⟨pos, [], errors⟩ = .ok ([], ⟨pos, [], errors⟩) :=
  rfl

theorem readAll_nil : Lexer.readAll [] = .ok ([], ⟨0, [], []⟩) :=
  readTokens_nil

theorem readTokens_openLineComment {text : Bytes}
    (isOpen : OpenLineComment text) :
    readTokens (fuel + 1) ⟨pos, text, errors⟩ = .error .advanceChar := by
  rw [readTokens, readNextToken_openLineComment isOpen, error_bind]

theorem readTokens_lexeme {word rest : Bytes} {kind : TokenKind} {clean : Bool}
    (lexeme : Lexeme word rest kind clean) (pos : Nat)
    (errors : List ErrorTag) :
    ∃ new, LexemeErrors pos (pos + word.length) clean new ∧ ∀ fuel,
      readTokens (fuel + 1) ⟨pos, word ++ rest, errors⟩ =
        readTokens fuel ⟨pos + word.length, rest, errors ++ new⟩ >>=
          fun (tokens, lexer) =>
            .ok (⟨⟨pos, pos + word.length⟩, kind⟩ :: tokens, lexer) := by
  obtain ⟨new, piece, read⟩ := readNextToken_lexeme lexeme pos errors
  refine ⟨new, piece, fun fuel => ?_⟩
  rw [readTokens, read, ok_bind]
  rfl

theorem readTokens_passes {word rest : Bytes} {new : List ErrorTag}
    (passes : Passes pos errors word rest new) (fuel : Nat) :
    readTokens (fuel + 1) ⟨pos, word ++ rest, errors⟩ =
      readTokens (fuel + 1) ⟨pos + word.length, rest, errors ++ new⟩ := by
  obtain ⟨left, enough, read⟩ := passes _ (Nat.lt_succ_self _)
  rw [readTokens, readTokens, read,
    readNextToken_fuel _ _ _ _ _ (Nat.le_refl _) enough]

theorem readTokens_trivia {word rest : Bytes} {clean : Bool}
    (trivia : Trivia word rest clean) (pos : Nat) (errors : List ErrorTag) :
    ∃ new, PieceErrors pos (pos + word.length) clean new ∧ ∀ fuel,
      readTokens (fuel + 1) ⟨pos, word ++ rest, errors⟩ =
        readTokens (fuel + 1)
          ⟨pos + word.length, rest, errors ++ new⟩ := by
  obtain ⟨new, piece, skipped⟩ := readNextToken_trivia trivia pos errors
  exact ⟨new, piece, readTokens_passes skipped⟩

theorem readTokens_fuel : ∀ (size : Nat) (text : Bytes) (pos : Nat)
    (errors : List ErrorTag) (fuel : Nat), text.length ≤ size →
      text.length < fuel →
        readTokens fuel ⟨pos, text, errors⟩ =
          readTokens (text.length + 1) ⟨pos, text, errors⟩ := by
  intro size
  induction size with
  | zero =>
      intro text pos errors fuel small enough
      obtain rfl := List.eq_nil_of_length_eq_zero (Nat.le_zero.mp small)
      cases fuel with
      | zero => contradiction
      | succ fuel => rfl
  | succ size induction =>
      intro text pos errors fuel small enough
      obtain ⟨fuel, rfl⟩ : ∃ less, fuel = less + 1 := ⟨fuel - 1, by omega⟩
      cases front text with
      | empty => rfl
      | openLineComment isOpen =>
          rw [readTokens_openLineComment isOpen,
            readTokens_openLineComment isOpen]
      | @lexeme word rest _ _ lexeme =>
          obtain ⟨new, -, read⟩ := readTokens_lexeme lexeme pos errors
          have positive := List.length_pos_of_ne_nil lexeme.ne_nil
          rw [List.length_append] at small enough ⊢
          rw [read, read, induction _ _ _ fuel (by omega) (by omega),
            induction _ _ _ (word.length + rest.length) (by omega) (by omega)]
      | @trivia word rest _ trivia =>
          obtain ⟨new, -, skipped⟩ := readTokens_trivia trivia pos errors
          have positive := List.length_pos_of_ne_nil trivia.ne_nil
          rw [List.length_append] at small enough ⊢
          rw [skipped, skipped, induction _ _ _ (fuel + 1) (by omega) (by omega),
            induction _ _ _ (word.length + rest.length + 1) (by omega)
              (by omega)]

/-! The pieces of a text at their places. -/

inductive Segment
  | token (token : Token)
  | trivia (range : TextRange)

namespace Segment

def range : Segment → TextRange
  | .token tok => tok.range
  | .trivia place => place

def start (segment : Segment) : Nat := segment.range.start

def finish (segment : Segment) : Nat := segment.range.finish

def token? : Segment → Option Token
  | .token tok => some tok
  | .trivia _ => none

/-- A segment is what the lexical grammar finds in a text at its place. -/
inductive Of (text : Bytes) : Segment → Prop
  | token {before word rest : Bytes} {kind : TokenKind} {clean : Bool}
      (cut : text = before ++ (word ++ rest))
      (lexeme : Lexeme word rest kind clean) :
      Of text (.token ⟨⟨before.length, before.length + word.length⟩, kind⟩)
  | trivia {before word rest : Bytes} {clean : Bool}
      (cut : text = before ++ (word ++ rest))
      (trivia : Trivia word rest clean) :
      Of text (.trivia ⟨before.length, before.length + word.length⟩)

end Segment

abbrev Segments := Tiles Segment.start Segment.finish

/-- The pieces between what is before a text and what they leave of it, with the
errors in them and the place where they end. -/
structure Pieces (before text final : Bytes) (clean : Bool)
    (segments : List Segment) (errors : List ErrorTag) (later : Nat) : Prop where
  tiles : Segments before.length segments later
  segmentsOf : ∀ segment ∈ segments, segment.Of (before ++ text)
  piece : PieceErrors before.length later clean errors
  place : later + final.length = before.length + text.length

theorem Pieces.nil (before text : Bytes) :
    Pieces before text text true [] [] before.length :=
  ⟨.nil _, List.forall_mem_nil _, .nil, rfl⟩

theorem Pieces.cons {before word rest final : Bytes} {here there : Bool}
    {segment : Segment} {segments : List Segment} {new new' : List ErrorTag}
    {later : Nat} (nonempty : word ≠ [])
    (segmentOf : segment.Of (before ++ (word ++ rest)))
    (range : segment.range = ⟨before.length, before.length + word.length⟩)
    (piece : PieceErrors before.length (before.length + word.length) here new)
    (more : Pieces (before ++ word) rest final there segments new' later) :
    Pieces before (word ++ rest) final (here && there) (segment :: segments)
      (new ++ new') later := by
  obtain ⟨tiles, segmentsOf, piece', place⟩ := more
  rw [List.length_append] at tiles piece' place
  rw [List.append_assoc] at segmentsOf
  have begins : segment.start = before.length := congrArg TextRange.start range
  have ends : segment.finish = before.length + word.length :=
    congrArg TextRange.finish range
  have positive := List.length_pos_of_ne_nil nonempty
  refine ⟨.cons begins ?_ (ends ▸ tiles),
    List.forall_mem_cons.mpr ⟨segmentOf, segmentsOf⟩,
    (piece.mono (Nat.le_refl _) tiles.le).append
      (piece'.mono (Nat.le_add_right _ _) (Nat.le_refl later)), ?_⟩
  · rw [ends]
    exact Nat.lt_add_of_pos_right positive
  · rw [place, List.length_append, Nat.add_assoc]

/-- The pieces that a text begins with are read before all others. -/
theorem Scans.read {text final : Bytes} {kinds : List TokenKind} {clean : Bool}
    (scans : Scans text kinds final clean) :
    ∀ (before : Bytes) (errors : List ErrorTag), ∃ segments new later,
      (segments.filterMap Segment.token?).map Token.kind = kinds ∧
      Pieces before text final clean segments new later ∧
      readTokens (text.length + 1) ⟨before.length, text, errors⟩ =
        readTokens (final.length + 1) ⟨later, final, errors ++ new⟩ >>=
          fun (more, lexer) =>
            .ok (segments.filterMap Segment.token? ++ more, lexer) := by
  induction scans with
  | done =>
      intro before errors
      refine ⟨[], [], before.length, rfl, .nil _ _, ?_⟩
      rw [List.append_nil]
      exact (bind_ok_self _).symm
  | @trivia word rest final kinds here there trivia more induction =>
      intro before errors
      obtain ⟨new, piece, skipped⟩ :=
        readTokens_trivia trivia before.length errors
      obtain ⟨segments, new', later, kinds, pieces, read⟩ :=
        induction (before ++ word) (errors ++ new)
      refine ⟨.trivia ⟨before.length, before.length + word.length⟩ :: segments,
        new ++ new', later, kinds,
        pieces.cons trivia.ne_nil (.trivia rfl trivia) rfl piece, ?_⟩
      have enough : rest.length < (word ++ rest).length + 1 := by
        rw [List.length_append]
        omega
      rw [List.length_append] at read
      rw [skipped, readTokens_fuel _ _ _ _ _ (Nat.le_refl _) enough, read,
        List.append_assoc]
      rfl
  | @lexeme word rest final kind kinds here there lexeme more induction =>
      intro before errors
      obtain ⟨new, piece, first⟩ := readTokens_lexeme lexeme before.length errors
      obtain ⟨segments, new', later, kinds, pieces, read⟩ :=
        induction (before ++ word) (errors ++ new)
      refine ⟨.token ⟨⟨before.length, before.length + word.length⟩, kind⟩ ::
          segments, new ++ new', later, by rw [← kinds]; rfl,
        pieces.cons lexeme.ne_nil (.token rfl lexeme) rfl piece.toPieceErrors,
        ?_⟩
      have positive := List.length_pos_of_ne_nil lexeme.ne_nil
      have enough : rest.length < (word ++ rest).length := by
        rw [List.length_append]
        omega
      rw [List.length_append] at read
      rw [first, readTokens_fuel _ _ _ _ _ (Nat.le_refl _) enough, read,
        List.append_assoc, bind_assoc]
      rfl

/-! The end of a text. -/

/-- The pieces of the text are followed by a comment to the end of a line that
the text ends before. -/
def EndsInLineComment (text : Bytes) : Prop :=
  ∃ kinds final clean, Scans text kinds final clean ∧ OpenLineComment final

theorem Scans.endsInLineComment {text final : Bytes} {kinds : List TokenKind}
    {clean : Bool} (scans : Scans text kinds final clean)
    (ends : EndsInLineComment final) : EndsInLineComment text := by
  obtain ⟨_, _, _, more, isOpen⟩ := ends
  obtain ⟨_, _, whole⟩ := scans.trans more
  exact ⟨_, _, _, whole, isOpen⟩

/-- A text is pieces from its front to its end, or an open comment follows
some of them. -/
theorem scans_or_endsInLineComment : ∀ (size : Nat) (text : Bytes),
    text.length ≤ size →
      (∃ kinds clean, Scans text kinds [] clean) ∨ EndsInLineComment text := by
  intro size
  induction size with
  | zero =>
      intro text small
      obtain rfl := List.eq_nil_of_length_eq_zero (Nat.le_zero.mp small)
      exact .inl ⟨[], true, .done⟩
  | succ size induction =>
      intro text small
      cases front text with
      | empty => exact .inl ⟨[], true, .done⟩
      | openLineComment isOpen => exact .inr ⟨[], text, true, .done, isOpen⟩
      | @lexeme word rest _ _ lexeme =>
          have positive := List.length_pos_of_ne_nil lexeme.ne_nil
          rw [List.length_append] at small
          cases induction rest (by omega) with
          | inl complete =>
              obtain ⟨_, _, more⟩ := complete
              exact .inl ⟨_, _, .lexeme lexeme more⟩
          | inr ends =>
              exact .inr ((Scans.lexeme lexeme .done).endsInLineComment ends)
      | @trivia word rest _ trivia =>
          have positive := List.length_pos_of_ne_nil trivia.ne_nil
          rw [List.length_append] at small
          cases induction rest (by omega) with
          | inl complete =>
              obtain ⟨_, _, more⟩ := complete
              exact .inl ⟨_, _, .trivia trivia more⟩
          | inr ends =>
              exact .inr ((Scans.trivia trivia .done).endsInLineComment ends)

theorem Scans.readAll {text : Bytes} {kinds : List TokenKind} {clean : Bool}
    (scans : Scans text kinds [] clean) :
    ∃ segments errors,
      (segments.filterMap Segment.token?).map Token.kind = kinds ∧
      Pieces [] text [] clean segments errors text.length ∧
      Lexer.readAll text =
        .ok (segments.filterMap Segment.token?, ⟨text.length, [], errors⟩) := by
  obtain ⟨segments, new, later, kinds, pieces, read⟩ := scans.read [] []
  obtain rfl : later = text.length := by
    have place := pieces.place
    rwa [List.length_nil, Nat.zero_add, Nat.add_zero] at place
  refine ⟨segments, new, kinds, pieces, ?_⟩
  rw [List.length_nil] at read
  rw [Lexer.readAll, create, read, readTokens_nil, ok_bind]
  simp

theorem EndsInLineComment.readAll {text : Bytes}
    (ends : EndsInLineComment text) :
    Lexer.readAll text = .error .advanceChar := by
  obtain ⟨_, _, _, scans, isOpen⟩ := ends
  obtain ⟨_, _, _, -, -, read⟩ := scans.read [] []
  rw [List.length_nil] at read
  rw [Lexer.readAll, create, read, readTokens_openLineComment isOpen,
    error_bind]

/-- The tokens and what is between them, where no assertion fails. -/
theorem readAll_segments {text : Bytes} {tokens : List Token} {lexer : Lexer}
    (read : Lexer.readAll text = .ok (tokens, lexer)) :
    ∃ segments, segments.filterMap Segment.token? = tokens ∧
      Segments 0 segments text.length ∧
      (∀ segment ∈ segments, segment.Of text) ∧
      ∀ error ∈ lexer.errors, error.range.Inside 0 text.length := by
  cases scans_or_endsInLineComment _ text (Nat.le_refl _) with
  | inl scans =>
      obtain ⟨_, _, scans⟩ := scans
      obtain ⟨segments, errors, -, pieces, read'⟩ := scans.readAll
      obtain ⟨rfl, rfl⟩ := Prod.mk.inj (Except.ok.inj (read.symm.trans read'))
      exact ⟨segments, rfl, pieces.tiles, pieces.segmentsOf, pieces.piece.inside⟩
  | inr ends =>
      rw [ends.readAll] at read
      contradiction

theorem Segment.token?_eq {segment : Segment} {token : Token}
    (found : segment.token? = some token) : segment = .token token := by
  cases segment with
  | token _ => rw [Option.some.inj found]
  | trivia _ => contradiction

theorem mem_tokens {segments : List Segment} {token : Token} :
    token ∈ segments.filterMap Segment.token? ↔ .token token ∈ segments := by
  rw [List.mem_filterMap]
  constructor
  · rintro ⟨segment, member, found⟩
    rwa [← Segment.token?_eq found]
  · exact fun member => ⟨_, member, rfl⟩

theorem readAll_inside {text : Bytes} {tokens : List Token} {lexer : Lexer}
    (read : Lexer.readAll text = .ok (tokens, lexer)) :
    (∀ token ∈ tokens, token.range.Inside 0 text.length) ∧
      ∀ error ∈ lexer.errors, error.range.Inside 0 text.length := by
  obtain ⟨segments, rfl, tiles, -, errors⟩ := readAll_segments read
  refine ⟨fun token member => ?_, errors⟩
  obtain ⟨low, ordered, high⟩ := tiles.inside _ (mem_tokens.mp member)
  exact ⟨low, Nat.le_of_lt ordered, high⟩

/-! A comment that is open at the end. -/

def OpenBlockComment (text : Bytes) : Prop :=
  ∃ body, text = blockCommentStart ++ body ∧ ¬ commentEnd <:+: body

/-- The pieces of the text are followed by a comment without its end. -/
def EndsInBlockComment (text : Bytes) : Prop :=
  ∃ kinds final clean, Scans text kinds final clean ∧ OpenBlockComment final

theorem Scans.endsInBlockComment {text final : Bytes} {kinds : List TokenKind}
    {clean : Bool} (scans : Scans text kinds final clean)
    (ends : EndsInBlockComment final) : EndsInBlockComment text := by
  obtain ⟨_, _, _, more, isOpen⟩ := ends
  obtain ⟨_, _, whole⟩ := scans.trans more
  exact ⟨_, _, _, whole, isOpen⟩

theorem readTokens_openBlockComment {text : Bytes}
    (isOpen : OpenBlockComment text) :
    ∃ tag : ErrorTag, tag.range.start = pos + text.length ∧
      readTokens (fuel + 1) ⟨pos, text, errors⟩ =
        .ok ([], ⟨pos + text.length, [], errors ++ [tag]⟩) := by
  obtain ⟨body, rfl, inside⟩ := isOpen
  refine ⟨⟨.makeEmpty (pos + 2 + body.length), ascii "unterminated comment"⟩,
    ?_, ?_⟩
  · simp [TextRange.makeEmpty]
    omega
  · have read := @readTokens_passes pos errors _ _ _
      (passes_openBlockComment inside) fuel
    rw [List.append_nil] at read
    rw [read, readTokens_nil]

/-- It is reported at the end of the text. -/
theorem EndsInBlockComment.reported {text : Bytes} {tokens : List Token}
    {lexer : Lexer} (ends : EndsInBlockComment text)
    (read : Lexer.readAll text = .ok (tokens, lexer)) :
    ∃ tag ∈ lexer.errors, tag.range.start = text.length := by
  obtain ⟨_, final, _, scans, isOpen⟩ := ends
  obtain ⟨_, new, later, -, pieces, most⟩ := scans.read [] []
  obtain ⟨tag, place, last⟩ :=
    @readTokens_openBlockComment later final.length ([] ++ new) final isOpen
  have total := pieces.place
  rw [List.length_nil] at most total
  rw [Lexer.readAll, create, most, last, ok_bind] at read
  obtain ⟨-, rfl⟩ := Prod.mk.inj (Except.ok.inj read)
  refine ⟨tag, List.mem_append_right _ (List.mem_singleton_self tag), ?_⟩
  rw [place, total, Nat.zero_add]

/-- Nothing else is. -/
theorem Scans.reported_before {text final : Bytes} {kinds : List TokenKind}
    {clean : Bool} (scans : Scans text kinds final clean) (whole : final = [])
    (closed : ¬ EndsInBlockComment text) :
    ∀ (pos : Nat) (errors : List ErrorTag), ∃ tokens later new,
      readTokens (text.length + 1) ⟨pos, text, errors⟩ =
        .ok (tokens, ⟨later, [], errors ++ new⟩) ∧
      ∀ tag ∈ new, tag.range.start < pos + text.length := by
  induction scans with
  | done =>
      intro pos errors
      subst whole
      exact ⟨[], pos, [], by rw [List.append_nil]; rfl, List.forall_mem_nil _⟩
  | @trivia word rest final kinds here there trivia more induction =>
      intro pos errors
      obtain ⟨new, piece, skipped⟩ := readTokens_trivia trivia pos errors
      cases here with
      | false =>
          cases trivia with
          | openBlockComment inside =>
              exact absurd ⟨_, _, _, .done, _, List.append_nil _, inside⟩ closed
      | true =>
          obtain rfl := piece.silent rfl
          obtain ⟨tokens, later, new, read, before⟩ :=
            induction whole (fun ends => closed
              ((Scans.trivia trivia .done).endsInBlockComment ends))
              (pos + word.length) errors
          have enough : rest.length < (word ++ rest).length + 1 := by
            rw [List.length_append]
            omega
          refine ⟨tokens, later, new, ?_, ?_⟩
          · rw [skipped, readTokens_fuel _ _ _ _ _ (Nat.le_refl _) enough,
              List.append_nil, read]
          · rw [List.length_append, ← Nat.add_assoc]
            exact before
  | @lexeme word rest final kind kinds here there lexeme more induction =>
      intro pos errors
      obtain ⟨new, piece, first⟩ := readTokens_lexeme lexeme pos errors
      obtain ⟨tokens, later, new', read, before⟩ :=
        induction whole (fun ends => closed
          ((Scans.lexeme lexeme .done).endsInBlockComment ends))
          (pos + word.length) (errors ++ new)
      have positive := List.length_pos_of_ne_nil lexeme.ne_nil
      have enough : rest.length < (word ++ rest).length := by
        rw [List.length_append]
        omega
      refine ⟨⟨⟨pos, pos + word.length⟩, kind⟩ :: tokens, later, new ++ new',
        ?_, List.forall_mem_append.mpr ⟨?_, ?_⟩⟩
      · rw [first, readTokens_fuel _ _ _ _ _ (Nat.le_refl _) enough, read,
          ok_bind, List.append_assoc]
      · intro tag member
        have inside := piece.before tag member
        rw [List.length_append]
        omega
      · rw [List.length_append, ← Nat.add_assoc]
        exact before

theorem readAll_before {text : Bytes} {tokens : List Token} {lexer : Lexer}
    (read : Lexer.readAll text = .ok (tokens, lexer))
    (closed : ¬ EndsInBlockComment text) :
    ∀ tag ∈ lexer.errors, tag.range.start < text.length := by
  cases scans_or_endsInLineComment _ text (Nat.le_refl _) with
  | inl scans =>
      obtain ⟨_, _, scans⟩ := scans
      obtain ⟨_, later, new, read', before⟩ :=
        scans.reported_before rfl closed 0 []
      obtain ⟨-, rfl⟩ := Prod.mk.inj (Except.ok.inj (read.symm.trans read'))
      rw [Nat.zero_add] at before
      exact before
  | inr ends =>
      rw [ends.readAll] at read
      contradiction

/-- No assertion fails on a text, and all of it is read, exactly when it does
not end inside a comment to the end of a line. -/
theorem stays_inside_input (text : Bytes) :
    (∃ tokens errors,
      Lexer.readAll text = .ok (tokens, ⟨text.length, [], errors⟩)) ↔
      ¬ EndsInLineComment text := by
  constructor
  · rintro ⟨tokens, errors, read⟩ ends
    rw [ends.readAll] at read
    contradiction
  · intro complete
    cases scans_or_endsInLineComment _ text (Nat.le_refl _) with
    | inl scans =>
        obtain ⟨_, _, scans⟩ := scans
        obtain ⟨segments, errors, -, -, read⟩ := scans.readAll
        exact ⟨_, errors, read⟩
    | inr ends => exact absurd ends complete

/-- The text that is a comment without its newline makes the lexer go past its
end. -/
theorem lineComment_leaves_input :
    Lexer.readAll (ascii "// x") = .error .advanceChar ∧
      ¬ ∃ tokens lexer, Lexer.readAll (ascii "// x") = .ok (tokens, lexer) := by
  have fails : Lexer.readAll (ascii "// x") = .error .advanceChar := by
    decide
  refine ⟨fails, ?_⟩
  rintro ⟨tokens, lexer, read⟩
  rw [fails] at read
  contradiction

end Initd.Lexer
