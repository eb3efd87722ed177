import Initd.Lexer.RoundTrip

namespace Initd.Lexer

/-! Which tokens some text has. -/

structure IsIdentifier (name : Bytes) : Prop where
  start : name.head?.any isIdentifierStart = true
  run : ∀ c ∈ name, isIdentifierTrail c = true
  noKeyword : ∀ entry ∈ keywords, name ≠ entry.2

theorem IsIdentifier.prints {name : Bytes} (identifier : IsIdentifier name) :
    Prints (.identifier name) name := by
  obtain ⟨start, run, noKeyword⟩ := identifier
  cases name with
  | nil => contradiction
  | cons c word =>
      exact .identifier start
        (fun d member => run d (List.mem_cons_of_mem c member)) noKeyword

/-- An identifier that is read is no keyword. -/
theorem Lexeme.isIdentifier {word rest name : Bytes} {clean : Bool}
    (lexeme : Lexeme word rest (.identifier name) clean) :
    IsIdentifier name := by
  generalize made : TokenKind.identifier name = kind at lexeme
  cases lexeme with
  | @identifier c word rest start run stops noRaw =>
      have simple : ∀ entry ∈ keywords, entry.1.isSimple = true := by decide
      have keyword : ∀ entry ∈ keywords, c :: word ≠ entry.2 := by
        rintro ⟨type, spelling⟩ member rfl
        rw [(makeIdentifierToken_keyword (simple _ member) member).1] at made
        contradiction
      rw [makeIdentifierToken_identifier keyword] at made
      obtain rfl := TokenKind.identifier.inj made
      refine ⟨start, List.forall_mem_cons.mpr ⟨?_, run⟩, keyword⟩
      exact isIdentifierTrail_iff.mpr (.inl start)
  | rawString | openRawString | badRawString | number | quoted | openQuoted
  | openEscape | simple => cases made

theorem readAll_isIdentifier {text : Bytes} {tokens : List Token}
    {lexer : Lexer} (read : Lexer.readAll text = .ok (tokens, lexer))
    {token : IdentifierToken} (member : token.toToken ∈ tokens) :
    IsIdentifier token.text := by
  obtain ⟨segments, rfl, -, segmentsOf, -⟩ := readAll_segments read
  have segment := segmentsOf _ (mem_tokens.mp member)
  generalize same : Segment.token token.toToken = found at segment
  cases segment with
  | token cut lexeme =>
      obtain ⟨-, kind⟩ := Token.mk.inj (Segment.token.inj same)
      exact Lexeme.isIdentifier (kind ▸ lexeme)
  | trivia => cases same

theorem exists_prints_simple {type : TokenType} (isSimple : type.isSimple = true)
    (known : type ∈ keywords.map Prod.fst ++ punctuation.map Prod.fst) :
    ∃ word, Prints (.simple type isSimple) word := by
  rcases List.mem_append.mp known with keyword | mark
  · obtain ⟨⟨_, word⟩, member, rfl⟩ := List.mem_map.mp keyword
    exact ⟨word, .keyword isSimple member⟩
  · obtain ⟨⟨_, c⟩, member, rfl⟩ := List.mem_map.mp mark
    exact ⟨[c], .punctuation isSimple member⟩

/-- Each of the tokens has a printed form. -/
def PrintableTokens (kinds : List TokenKind) : Prop :=
  ∀ kind ∈ kinds, ∃ word, Prints kind word

theorem PrintableTokens.exists_text {kinds : List TokenKind}
    (printable : PrintableTokens kinds) : ∃ text, PrintsTokens kinds text := by
  induction kinds with
  | nil => exact ⟨[], .nil⟩
  | cons kind rest induction =>
      obtain ⟨⟨word, here⟩, later⟩ := List.forall_mem_cons.mp printable
      obtain ⟨text, more⟩ := induction later
      have blank : Separator (ascii " ") := .whitespace (by decide) .nil
      exact ⟨_, .cons here blank (by decide) more⟩

/-- Tokens with printed forms are those of a text. -/
theorem PrintableTokens.exists_read {kinds : List TokenKind}
    (printable : PrintableTokens kinds) :
    ∃ text tokens lexer, Lexer.readAll text = .ok (tokens, lexer) ∧
      lexer.errors = [] ∧ tokens.map Token.kind = kinds := by
  obtain ⟨text, prints⟩ := printable.exists_text
  obtain ⟨segments, errors, kinds, pieces, read⟩ := prints.scans.readAll
  exact ⟨text, _, _, read, pieces.piece.silent rfl, kinds⟩

end Initd.Lexer
