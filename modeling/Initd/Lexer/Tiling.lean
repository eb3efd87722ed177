import Initd.Lexer.Scan

namespace Initd

def TextRange.Covers (range : TextRange) (pos : Nat) : Prop :=
  range.start ≤ pos ∧ pos < range.finish

namespace Lexer

open Library

/-! The tokens of a text and its comments: no character is left out, and none is
in two of them. -/

/-- A comment of the text begins and ends at the ends of the range. -/
def CommentAt (text : Bytes) (range : TextRange) : Prop :=
  ∃ before word rest clean, text = before ++ (word ++ rest) ∧
    Trivia word rest clean ∧ word.head? = some '/'.toUInt8 ∧
    range = ⟨before.length, before.length + word.length⟩

theorem getElem?_cut (before : Bytes) {word : Bytes} (rest : Bytes)
    {index : Nat} (inside : index < word.length) :
    (before ++ (word ++ rest))[before.length + index]? = word[index]? := by
  rw [List.getElem?_append_right (Nat.le_add_right _ _),
    Nat.add_sub_cancel_left, List.getElem?_append_left inside]

theorem Segment.Of.begins {text : Bytes} {token : Token}
    (segment : Segment.Of text (.token token)) :
    ∃ c, text[token.range.start]? = some c ∧ isAsciiWhitespace c = false := by
  cases segment with
  | @token before word rest kind clean cut lexeme =>
      obtain ⟨c, tail, rfl, visible, -⟩ := lexeme.visible
      have nonempty : 0 < (c :: tail).length := Nat.succ_pos _
      exact ⟨c, cut ▸ getElem?_cut before rest nonempty, visible⟩

theorem Segment.Of.blank_or_commentAt {text : Bytes} {range : TextRange}
    (segment : Segment.Of text (.trivia range)) :
    (∃ c, text[range.start]? = some c ∧ isAsciiWhitespace c = true ∧
        range.finish = range.start + 1) ∨ CommentAt text range := by
  cases segment with
  | @trivia before word rest clean cut trivia =>
      cases trivia with
      | @whitespace c rest blank =>
          have nonempty : 0 < [c].length := Nat.one_pos
          exact .inl ⟨c, cut ▸ getElem?_cut before rest nonempty, blank, rfl⟩
      | lineComment rest inside =>
          exact .inr ⟨_, _, _, _, cut, .lineComment rest inside, rfl, rfl⟩
      | blockComment rest inside =>
          exact .inr ⟨_, _, _, _, cut, .blockComment rest inside, rfl, rfl⟩
      | openBlockComment inside =>
          exact .inr ⟨_, _, _, _, cut, .openBlockComment inside, rfl, rfl⟩

/-- What is in something between the tokens is in no token. -/
theorem not_covers_of_trivia {segments : List Segment} {low high pos : Nat}
    {range : TextRange} (tiles : Segments low segments high)
    (member : .trivia range ∈ segments) (covered : range.Covers pos) :
    ∀ token ∈ segments.filterMap Segment.token?, ¬ token.range.Covers pos := by
  intro token inside covers
  have same : Segment.token token = .trivia range :=
    tiles.eq_of_covers (mem_tokens.mp inside) member covers covered
  contradiction

theorem tokens_follow {segments : List Segment} {low high : Nat}
    (tiles : Segments low segments high) :
    (segments.filterMap Segment.token?).Pairwise fun token later =>
      token.range.start < later.range.start ∧
        token.range.finish ≤ later.range.start := by
  have ordered := tiles.ordered.imp_of_mem fun {segment _} member _ apart =>
    And.intro (Nat.lt_of_lt_of_le (tiles.inside segment member).2.1 apart) apart
  refine ordered.filterMap _ fun left right apart token found later found' => ?_
  rw [Segment.token?_eq found, Segment.token?_eq found'] at apart
  exact apart

theorem tokens_visible {text : Bytes} {segments : List Segment}
    (segmentsOf : ∀ segment ∈ segments, segment.Of text) :
    ∀ token ∈ segments.filterMap Segment.token?,
      ∃ c, text[token.range.start]? = some c ∧ isAsciiWhitespace c = false :=
  fun _ member => (segmentsOf _ (mem_tokens.mp member)).begins

theorem blank_or_comment {text : Bytes} {segments : List Segment} {pos : Nat}
    {c : UInt8} (tiles : Segments 0 segments text.length)
    (segmentsOf : ∀ segment ∈ segments, segment.Of text)
    (here : text[pos]? = some c)
    (outside : ∀ token ∈ segments.filterMap Segment.token?,
      ¬ token.range.Covers pos) :
    c.toNat ≤ 32 ∨ ∃ comment, CommentAt text comment ∧ comment.Covers pos ∧
      ∀ token ∈ segments.filterMap Segment.token?,
        ¬ token.range.Covers comment.start := by
  obtain ⟨below, -⟩ := List.getElem?_eq_some_iff.mp here
  obtain ⟨segment, member, covers⟩ := tiles.covers (Nat.zero_le pos) below
  cases segment with
  | token token => exact absurd covers (outside token (mem_tokens.mpr member))
  | trivia range =>
      rcases (segmentsOf _ member).blank_or_commentAt with
        ⟨d, first, blank, single⟩ | comment
      · have covers : range.start ≤ pos ∧ pos < range.finish := covers
        rw [single] at covers
        obtain rfl : range.start = pos :=
          Nat.le_antisymm covers.1 (Nat.le_of_lt_succ covers.2)
        obtain rfl := Option.some.inj (first.symm.trans here)
        exact .inl (isAsciiWhitespace_iff.mp blank)
      · have begins : range.Covers range.start :=
          ⟨Nat.le_refl _, Nat.lt_of_le_of_lt covers.1 covers.2⟩
        exact .inr ⟨range, comment, covers,
          not_covers_of_trivia tiles member begins⟩

/-- The ranges of the tokens are not empty, begin with a visible character and
follow one another, and a character that is in none of them is whitespace or in
a comment that begins in none of them. -/
theorem tokens_tile {text : Bytes} {tokens : List Token} {lexer : Lexer}
    (read : Lexer.readAll text = .ok (tokens, lexer)) :
    (∀ token ∈ tokens, token.range.start < token.range.finish ∧
      token.range.finish ≤ text.length ∧
      ∃ c, text[token.range.start]? = some c ∧ 32 < c.toNat) ∧
    (tokens.Pairwise fun token later =>
      token.range.start < later.range.start ∧
        token.range.finish ≤ later.range.start) ∧
    ∀ pos c, text[pos]? = some c →
      (∀ token ∈ tokens, ¬ token.range.Covers pos) →
        c.toNat ≤ 32 ∨ ∃ comment, CommentAt text comment ∧
          comment.Covers pos ∧
          ∀ token ∈ tokens, ¬ token.range.Covers comment.start := by
  obtain ⟨segments, rfl, tiles, segmentsOf, -⟩ := readAll_segments read
  refine ⟨fun token member => ?_, tokens_follow tiles, fun pos c here outside =>
    blank_or_comment tiles segmentsOf here outside⟩
  obtain ⟨-, nonempty, bounded⟩ := tiles.inside _ (mem_tokens.mp member)
  obtain ⟨c, first, visible⟩ := tokens_visible segmentsOf token member
  rw [← Bool.not_eq_true, isAsciiWhitespace_iff] at visible
  exact ⟨nonempty, bounded, c, first, Nat.lt_of_not_le visible⟩

/-- A raw string without its parenthesis before a comment without its end. -/
theorem tokens_tile_errors :
    ∃ token lexer, Lexer.readAll (ascii " R\"x /*") = .ok ([token], lexer) ∧
      lexer.errors.length = 2 ∧ token.range = ⟨1, 4⟩ ∧
      ∀ pos c, (ascii " R\"x /*")[pos]? = some c →
        (∀ token' ∈ [token], ¬ token'.range.Covers pos) →
          c.toNat ≤ 32 ∨ ∃ comment, CommentAt (ascii " R\"x /*") comment ∧
            comment.Covers pos ∧
            ∀ token' ∈ [token], ¬ token'.range.Covers comment.start := by
  have read : Lexer.readAll (ascii " R\"x /*") =
      .ok ([⟨⟨1, 4⟩, .stringLiteral []⟩], ⟨7, [],
        [⟨⟨1, 4⟩, ascii "expected '(' in raw string literal"⟩,
          ⟨⟨7, 7⟩, ascii "unterminated comment"⟩]⟩) := by
    decide
  exact ⟨_, _, read, rfl, rfl, (tokens_tile read).2.2⟩

end Lexer

end Initd
