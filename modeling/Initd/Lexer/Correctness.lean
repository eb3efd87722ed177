import Initd.Lexer.Lexeme

namespace Initd.Lexer

/-! The lexer reads what the lexical grammar says. -/

variable {pos : Nat} {errors : List ErrorTag}

theorem makeIdentifierToken_eq (range : TextRange) (text : Bytes) :
    makeIdentifierToken range text =
      ⟨range, (makeIdentifierToken ⟨0, 0⟩ text).kind⟩ := by
  unfold makeIdentifierToken
  split_ifs <;> rfl

/-! Which branch a first character takes. -/

theorem isIdentifierStart_iff {c : UInt8} :
    isIdentifierStart c = true ↔
      65 ≤ c.toNat ∧ c.toNat ≤ 90 ∨ 97 ≤ c.toNat ∧ c.toNat ≤ 122 ∨
        c.toNat = 95 := by
  simp only [isIdentifierStart, UInt8.le_iff_toNat_le, Bool.or_eq_true,
    Bool.and_eq_true, decide_eq_true_eq, beq_iff_eq, ← UInt8.toNat_inj,
    or_assoc]
  rfl

theorem isNumber_iff {c : UInt8} :
    isNumber c = true ↔ 48 ≤ c.toNat ∧ c.toNat ≤ 57 := by
  simp only [isNumber, UInt8.le_iff_toNat_le, Bool.and_eq_true,
    decide_eq_true_eq]
  rfl

theorem isAsciiWhitespace_iff {c : UInt8} :
    isAsciiWhitespace c = true ↔ c.toNat ≤ 32 := by
  simp only [isAsciiWhitespace, UInt8.le_iff_toNat_le, decide_eq_true_eq]
  rfl

theorem isIdentifierStart_of_isNumber {c : UInt8} (number : isNumber c = true) :
    isIdentifierStart c = false := by
  rw [← Bool.not_eq_true, isIdentifierStart_iff]
  have range := isNumber_iff.mp number
  omega

/-- The first characters of the tokens that are neither whitespace nor the
first character of a comment. -/
theorem start_visible {c : UInt8}
    (start : isIdentifierStart c = true ∨ isNumber c = true ∨
      c = '"'.toUInt8) :
    isAsciiWhitespace c = false ∧ c ≠ '/'.toUInt8 := by
  rw [isIdentifierStart_iff, isNumber_iff] at start
  rw [← Bool.not_eq_true, isAsciiWhitespace_iff, ne_eq, ← UInt8.toNat_inj]
  rw [← UInt8.toNat_inj] at start
  have slash : '/'.toUInt8.toNat = 47 := rfl
  have quote : '"'.toUInt8.toNat = 34 := rfl
  omega

section Start

variable {c : UInt8} {rest : Bytes}

private theorem noRaw_of_ne (other : c ≠ 'R'.toUInt8) :
    isRawStringLiteralStart ⟨pos, c :: rest, errors⟩ = false := by
  rw [← Bool.not_eq_true, isRawStringLiteralStart, isNext_iff,
    List.cons_prefix_cons]
  exact fun begins => other begins.1.symm

theorem readTokenHere_raw :
    readTokenHere ⟨pos, rawStart ++ rest, errors⟩ =
      readRawString ⟨pos, rawStart ++ rest, errors⟩ := by
  have raw : isRawStringLiteralStart ⟨pos, rawStart ++ rest, errors⟩ = true :=
    (isNext_iff _).mpr (List.prefix_append _ _)
  rw [readTokenHere, if_pos raw]

theorem readTokenHere_identifier (start : isIdentifierStart c = true)
    (noRaw : ¬ rawStart <+: c :: rest) :
    readTokenHere ⟨pos, c :: rest, errors⟩ =
      readIdentifier ⟨pos, c :: rest, errors⟩ := by
  have raw : isRawStringLiteralStart ⟨pos, c :: rest, errors⟩ = false := by
    rw [← Bool.not_eq_true, isRawStringLiteralStart, isNext_iff]
    exact noRaw
  simp [readTokenHere, raw, start]

theorem readTokenHere_number (start : isNumber c = true) :
    readTokenHere ⟨pos, c :: rest, errors⟩ =
      readNumber ⟨pos, c :: rest, errors⟩ := by
  have noIdentifier := isIdentifierStart_of_isNumber start
  have other : c ≠ 'R'.toUInt8 := by
    rintro rfl
    revert start
    decide
  simp [readTokenHere, noRaw_of_ne other, noIdentifier, start]

theorem readTokenHere_quote :
    readTokenHere ⟨pos, '"'.toUInt8 :: rest, errors⟩ =
      readString ⟨pos, '"'.toUInt8 :: rest, errors⟩ := by
  have other : '"'.toUInt8 ≠ 'R'.toUInt8 := by decide
  have noIdentifier : isIdentifierStart '"'.toUInt8 = false := by decide
  have noNumber : isNumber '"'.toUInt8 = false := by decide
  simp [readTokenHere, noRaw_of_ne other, noIdentifier, noNumber]

theorem readTokenHere_simple (isSimple : IsSimple c rest) :
    readTokenHere ⟨pos, c :: rest, errors⟩ =
      .ok (⟨⟨pos, pos + 1⟩, .simple (simpleType c) (simpleType_isSimple c)⟩,
        ⟨pos + 1, rest, errors⟩) := by
  have other : c ≠ 'R'.toUInt8 := by
    rintro rfl
    have start := isSimple.noIdentifier
    revert start
    decide
  simp only [readTokenHere, noRaw_of_ne other, isSimple.noIdentifier,
    isSimple.noNumber, isSimple.noString, peekChar_cons, ok_bind,
    Bool.false_eq_true, if_false, simpleType]
  split_ifs <;> rfl

end Start

/-! The branches that read one token. -/

section Branches

variable {rest : Bytes}

theorem readRawString_start {pre : Bytes} (plain : RawPrefix pre) :
    readRawString ⟨pos, rawStart ++ (pre ++ rest), errors⟩ =
      (readRawPrefix (rest.length + 1) pre
          ⟨pos + 2 + pre.length, rest, errors⟩ >>= fun
        | (none, lexer) =>
            let r : TextRange := ⟨pos, lexer.pos⟩
            .ok (⟨r, .stringLiteral []⟩,
              lexer.push r "expected '(' in raw string literal")
        | (some pre, lexer) =>
            (readRawValue pos pre (lexer.rest.length + 1) [] lexer) >>=
              fun (value, lexer) =>
                .ok (⟨⟨pos, lexer.pos⟩, .stringLiteral value⟩, lexer)) := by
  have advanced : advanceChar 2 ⟨pos, rawStart ++ (pre ++ rest), errors⟩ =
      .ok ⟨pos + 2, pre ++ rest, errors⟩ := advanceChar_append _ _ rawStart _
  have fuel : (pre ++ rest).length + 1 = rest.length + 1 + pre.length := by
    rw [List.length_append]
    omega
  simp only [readRawString, advanced, ok_bind, fuel,
    readRawPrefix_append plain, List.nil_append]
  rfl

theorem readRawString_closed {pre value : Bytes} (plain : RawPrefix pre)
    (inside : ¬ rawEnd pre <:+: value) :
    readRawString
        ⟨pos, rawStart ++ (pre ++ '('.toUInt8 :: (value ++ (rawEnd pre ++ rest))),
          errors⟩ =
      .ok (⟨⟨pos, pos + 2 + pre.length + 1 + value.length + (2 + pre.length)⟩,
          .stringLiteral value⟩,
        ⟨pos + 2 + pre.length + 1 + value.length + (2 + pre.length), rest,
          errors⟩) := by
  have enough : value.length < (value ++ (rawEnd pre ++ rest)).length + 1 := by
    rw [List.length_append]
    omega
  rw [readRawString_start plain, readRawPrefix_open]
  simp only [ok_bind, readRawValue_closed _ plain inside rest [] _ enough,
    List.nil_append]

theorem readRawString_open {pre value : Bytes} (plain : RawPrefix pre)
    (inside : ¬ rawEnd pre <:+: value) :
    readRawString
        ⟨pos, rawStart ++ (pre ++ '('.toUInt8 :: value), errors⟩ =
      .ok (⟨⟨pos, pos + 2 + pre.length + 1 + value.length⟩,
          .stringLiteral value⟩,
        push ⟨pos, pos + 2 + pre.length + 1 + value.length⟩
          "unterminated string"
          ⟨pos + 2 + pre.length + 1 + value.length, [], errors⟩) := by
  rw [readRawString_start plain, readRawPrefix_open]
  simp only [ok_bind,
    readRawValue_open _ inside [] _ (Nat.lt_succ_self _), List.nil_append]
  rfl

theorem readRawString_bad {pre : Bytes} (plain : RawPrefix pre)
    (stops : StopsRawPrefix rest) :
    readRawString ⟨pos, rawStart ++ (pre ++ rest), errors⟩ =
      .ok (⟨⟨pos, pos + 2 + pre.length⟩, .stringLiteral []⟩,
        push ⟨pos, pos + 2 + pre.length⟩
          "expected '(' in raw string literal"
          ⟨pos + 2 + pre.length, rest, errors⟩) := by
  rw [readRawString_start plain, readRawPrefix_stop pre stops]
  rfl

theorem readIdentifier_eq {c : UInt8} {word : Bytes}
    (run : ∀ d ∈ word, isIdentifierTrail d = true)
    (stops : StopsRun isIdentifierTrail rest) :
    readIdentifier ⟨pos, c :: (word ++ rest), errors⟩ =
      .ok (makeIdentifierToken ⟨pos, pos + 1 + word.length⟩ (c :: word),
        ⟨pos + 1 + word.length, rest, errors⟩) := by
  have text : word.foldl (fun s c => s ++ [c]) [c] = c :: word := by
    have loop : ∀ acc : Bytes,
        word.foldl (fun s c => s ++ [c]) acc = acc ++ word := by
      induction word with
      | nil => simp
      | cons d word induction =>
          intro acc
          rw [List.foldl_cons,
            induction fun e member => run e (List.mem_cons_of_mem d member)]
          simp
    exact loop [c]
  simp only [readIdentifier, peekChar_cons, advanceChar_cons, ok_bind]
  rw [readWhile_eq _ _ _ _ _ (Nat.lt_succ_self _), stops.takeWhile run,
    stops.dropWhile run, text]
  rfl

theorem readNumber_eq {c : UInt8} {digits : Bytes}
    (run : ∀ d ∈ digits, isNumber d = true) (stops : StopsRun isNumber rest) :
    readNumber ⟨pos, c :: (digits ++ rest), errors⟩ =
      .ok (⟨⟨pos, pos + 1 + digits.length⟩,
          .integerLiteral (numberValue c digits)⟩,
        ⟨pos + 1 + digits.length, rest, errors⟩) := by
  simp only [readNumber, peekChar_cons, advanceChar_cons, ok_bind]
  rw [readWhile_eq _ _ _ _ _ (Nat.lt_succ_self _), stops.takeWhile run,
    stops.dropWhile run]
  rfl

/-- The literal up to the end of its body; what follows decides how it ends. -/
theorem readString_body {body value : Bytes} {clean : Bool}
    (inside : QuotedBody body value clean) (pos : Nat)
    (errors : List ErrorTag) (rest : Bytes) :
    ∃ fuel new, rest.length < fuel ∧
      LexemeErrors pos (pos + 1 + body.length) clean new ∧
      readString ⟨pos, '"'.toUInt8 :: (body ++ rest), errors⟩ =
        (readStringValue pos fuel value
            ⟨pos + 1 + body.length, rest, errors ++ new⟩ >>=
          fun (value, lexer) =>
            .ok (⟨⟨pos, lexer.pos⟩, .stringLiteral value⟩, lexer)) := by
  obtain ⟨fuel, new, enough, piece, read⟩ := readStringValue_body pos inside
    rest (rest.length + 1) [] (pos + 1) errors
  refine ⟨fuel, new, enough, piece.mono (Nat.le_succ pos) (Nat.le_refl _), ?_⟩
  have total : (body ++ rest).length + 1 = rest.length + 1 + body.length := by
    rw [List.length_append]
    omega
  rw [List.nil_append] at read
  simp only [readString, advanceChar_cons, ok_bind, total, read]
  rfl

/-- A literal that the text or its line ends in is reported as a whole. -/
theorem readString_stop {body value : Bytes} {clean : Bool}
    (inside : QuotedBody body value clean) (stops : StopsQuoted rest)
    (pos : Nat) (errors : List ErrorTag) :
    ∃ new, LexemeErrors pos (pos + 1 + body.length) clean new ∧
      readString ⟨pos, '"'.toUInt8 :: (body ++ rest), errors⟩ =
        .ok (⟨⟨pos, pos + 1 + body.length⟩, .stringLiteral value⟩,
          ⟨pos + 1 + body.length, rest, errors ++ (new ++
            [⟨⟨pos, pos + 1 + body.length⟩, ascii "unterminated string"⟩])⟩) := by
  obtain ⟨fuel, new, enough, piece, read⟩ := readString_body inside pos errors
    rest
  obtain ⟨fuel, rfl⟩ := Nat.exists_eq_succ_of_ne_zero
    (Nat.ne_of_gt (Nat.lt_of_le_of_lt (Nat.zero_le _) enough))
  refine ⟨new, piece, ?_⟩
  rw [read, readStringValue_stop stops, ok_bind, push, List.append_assoc]

theorem readString_lastBackslash {body value : Bytes} {clean : Bool}
    (inside : QuotedBody body value clean) (pos : Nat)
    (errors : List ErrorTag) :
    ∃ new, LexemeErrors pos (pos + 1 + body.length) clean new ∧
      readString ⟨pos, '"'.toUInt8 :: (body ++ ['\\'.toUInt8]), errors⟩ =
        .ok (⟨⟨pos, pos + 1 + body.length + 1⟩, .stringLiteral value⟩,
          ⟨pos + 1 + body.length + 1, [], errors ++ (new ++
            [⟨⟨pos, pos + 1 + body.length + 1⟩,
              ascii "unterminated string"⟩])⟩) := by
  obtain ⟨fuel, new, enough, piece, read⟩ := readString_body inside pos errors
    ['\\'.toUInt8]
  obtain ⟨fuel, rfl⟩ := Nat.exists_eq_add_of_le enough
  have stops : StopsQuoted [] := by simp [StopsQuoted]
  refine ⟨new, piece, ?_⟩
  rw [read, List.length_singleton, Nat.add_comm, readStringValue_lastBackslash,
    readStringValue_stop stops, ok_bind, push, List.append_assoc]

end Branches

/-- An error for a whole piece after those in the front of it. -/
private theorem LexemeErrors.unterminated {pos front finish : Nat} {clean : Bool}
    {new : List ErrorTag} (piece : LexemeErrors pos front clean new)
    (later : front ≤ finish) (nonempty : pos < finish) :
    LexemeErrors pos finish false
      (new ++ [⟨⟨pos, finish⟩, ascii "unterminated string"⟩]) := by
  have both := (piece.mono (Nat.le_refl pos) later).append
    (.single (ascii "unterminated string")
      (⟨Nat.le_refl pos, Nat.le_of_lt nonempty, Nat.le_refl finish⟩ :
        TextRange.Inside ⟨pos, finish⟩ pos finish) nonempty)
  rwa [Bool.and_false] at both

/-- The lexer reads a lexeme as the token that it stands for, and pushes errors
inside of it only, and none where it is clean. -/
theorem Lexeme.read {word rest : Bytes} {kind : TokenKind} {clean : Bool}
    (lexeme : Lexeme word rest kind clean) (pos : Nat)
    (errors : List ErrorTag) :
    ∃ new, LexemeErrors pos (pos + word.length) clean new ∧
      readTokenHere ⟨pos, word ++ rest, errors⟩ =
        .ok (⟨⟨pos, pos + word.length⟩, kind⟩,
          ⟨pos + word.length, rest, errors ++ new⟩) := by
  cases lexeme with
  | @rawString pre value _ plain inside =>
      refine ⟨[], .nil, ?_⟩
      have total : (rawStart ++ pre ++ '('.toUInt8 :: value ++
          rawEnd pre).length =
          2 + pre.length + 1 + value.length + (2 + pre.length) := by
        simp
        omega
      have split : rawStart ++ pre ++ '('.toUInt8 :: value ++ rawEnd pre ++
          rest = rawStart ++
            (pre ++ '('.toUInt8 :: (value ++ (rawEnd pre ++ rest))) := by
        simp
      rw [split, readTokenHere_raw, readRawString_closed plain inside, total,
        List.append_nil]
      simp only [Nat.add_assoc]
  | @openRawString pre value plain inside =>
      have total : (rawStart ++ pre ++ '('.toUInt8 :: value).length =
          2 + pre.length + 1 + value.length := by
        simp
        omega
      refine ⟨[⟨⟨pos, pos + 2 + pre.length + 1 + value.length⟩,
        ascii "unterminated string"⟩],
        .single _ ⟨by simp, by simp; omega, by rw [total]; simp; omega⟩
          (by simp), ?_⟩
      have split : rawStart ++ pre ++ '('.toUInt8 :: value ++ [] =
          rawStart ++ (pre ++ '('.toUInt8 :: value) := by
        simp
      rw [split, readTokenHere_raw, readRawString_open plain inside, total]
      simp only [push, Nat.add_assoc]
  | @badRawString pre _ plain stops =>
      refine ⟨[⟨⟨pos, pos + 2 + pre.length⟩,
        ascii "expected '(' in raw string literal"⟩],
        .single _ ⟨by simp, by simp; omega, by simp; omega⟩ (by simp), ?_⟩
      rw [List.append_assoc, readTokenHere_raw, readRawString_bad plain stops,
        List.length_append, ← Nat.add_assoc]
      rfl
  | @identifier c word _ start run stops noRaw =>
      refine ⟨[], .nil, ?_⟩
      rw [List.cons_append, readTokenHere_identifier start noRaw,
        readIdentifier_eq run stops, makeIdentifierToken_eq, List.append_nil,
        List.length_cons, Nat.add_assoc, Nat.add_comm 1]
  | @number c digits _ start run stops =>
      refine ⟨[], .nil, ?_⟩
      rw [List.cons_append, readTokenHere_number start, readNumber_eq run stops,
        List.append_nil, List.length_cons, Nat.add_assoc, Nat.add_comm 1]
  | @quoted body value _ _ inside =>
      obtain ⟨fuel, new, enough, piece, read⟩ := readString_body inside pos
        errors ('"'.toUInt8 :: rest)
      refine ⟨new, piece.mono (Nat.le_refl pos) (by simp; omega), ?_⟩
      obtain ⟨fuel, rfl⟩ := Nat.exists_eq_succ_of_ne_zero
        (Nat.ne_of_gt (Nat.lt_of_le_of_lt (Nat.zero_le _) enough))
      rw [List.cons_append, List.append_assoc, List.singleton_append,
        readTokenHere_quote, read, readStringValue_quote, ok_bind]
      simp only [List.length_cons, List.length_append, List.length_nil,
        Nat.zero_add, Nat.add_assoc, Nat.add_comm 1]
  | @openQuoted body value _ _ inside stops =>
      obtain ⟨new, piece, read⟩ := readString_stop inside stops pos errors
      have total : pos + ('"'.toUInt8 :: body).length =
          pos + 1 + body.length := by
        rw [List.length_cons, Nat.add_assoc, Nat.add_comm 1]
      rw [total]
      refine ⟨_, piece.unterminated (Nat.le_refl _) (by omega), ?_⟩
      rw [List.cons_append, readTokenHere_quote, read]
  | @openEscape body value _ inside =>
      obtain ⟨new, piece, read⟩ := readString_lastBackslash inside pos errors
      have total : pos + ('"'.toUInt8 :: (body ++ ['\\'.toUInt8])).length =
          pos + 1 + body.length + 1 := by
        rw [List.length_cons, List.length_append, List.length_singleton]
        omega
      rw [total]
      refine ⟨_, piece.unterminated (Nat.le_add_right _ 1) (by omega), ?_⟩
      rw [List.append_nil, readTokenHere_quote, read]
  | simple _ isSimple =>
      refine ⟨[], .nil, ?_⟩
      rw [List.singleton_append, readTokenHere_simple isSimple, List.append_nil]
      rfl

/-! The loop around them. -/

theorem Lexeme.visible {word rest : Bytes} {kind : TokenKind} {clean : Bool}
    (lexeme : Lexeme word rest kind clean) :
    ∃ c tail, word = c :: tail ∧ isAsciiWhitespace c = false ∧
      ¬ lineCommentStart <+: word ++ rest ∧
      ¬ blockCommentStart <+: word ++ rest := by
  have ofStart : ∀ (c : UInt8) (tail : Bytes),
      isIdentifierStart c = true ∨ isNumber c = true ∨ c = '"'.toUInt8 →
        isAsciiWhitespace c = false ∧
          ¬ lineCommentStart <+: c :: tail ∧
          ¬ blockCommentStart <+: c :: tail := by
    intro c tail start
    obtain ⟨visible, noSlash⟩ := start_visible start
    refine ⟨visible, fun begins => ?_, fun begins => ?_⟩ <;>
      exact noSlash (List.cons_prefix_cons.mp begins).1.symm
  have raw : isIdentifierStart 'R'.toUInt8 = true := by decide
  cases lexeme with
  | rawString _ _ _ => exact ⟨_, _, rfl, ofStart _ _ (.inl raw)⟩
  | openRawString _ _ => exact ⟨_, _, rfl, ofStart _ _ (.inl raw)⟩
  | badRawString _ _ => exact ⟨_, _, rfl, ofStart _ _ (.inl raw)⟩
  | identifier start _ _ _ => exact ⟨_, _, rfl, ofStart _ _ (.inl start)⟩
  | number start _ _ => exact ⟨_, _, rfl, ofStart _ _ (.inr (.inl start))⟩
  | quoted _ _ => exact ⟨_, _, rfl, ofStart _ _ (.inr (.inr rfl))⟩
  | openQuoted _ _ => exact ⟨_, _, rfl, ofStart _ _ (.inr (.inr rfl))⟩
  | openEscape _ => exact ⟨_, _, rfl, ofStart _ _ (.inr (.inr rfl))⟩
  | simple _ isSimple =>
      exact ⟨_, _, rfl, isSimple.visible, isSimple.noLineComment,
        isSimple.noBlockComment⟩

section Next

variable {fuel : Nat} {rest : Bytes}

private theorem readNextToken_visible {c : UInt8}
    (visible : isAsciiWhitespace c = false) :
    readNextToken (fuel + 1) ⟨pos, c :: rest, errors⟩ =
      if isSingleLineCommentStart ⟨pos, c :: rest, errors⟩ then
        advanceChar 2 ⟨pos, c :: rest, errors⟩ >>= fun lexer =>
          skipSingleLineComment (lexer.rest.length + 1) lexer >>= fun lexer =>
            readNextToken fuel lexer
      else if isMultiLineCommentStart ⟨pos, c :: rest, errors⟩ then
        advanceChar 2 ⟨pos, c :: rest, errors⟩ >>= fun lexer =>
          skipMultiLineComment (lexer.rest.length + 1) lexer >>= fun lexer =>
            readNextToken fuel lexer
      else
        readTokenHere ⟨pos, c :: rest, errors⟩ >>= fun (token, lexer) =>
          .ok (some token, lexer) := by
  have skipped : skipWhitespace ((c :: rest).length + 1)
      ⟨pos, c :: rest, errors⟩ = .ok ⟨pos, c :: rest, errors⟩ := by
    rw [skipWhitespace_eq _ _ (Nat.lt_succ_self _)]
    simp [visible]
  simp only [readNextToken, skipped, ok_bind, eofChar_cons, peekChar_cons,
    visible, Bool.false_eq_true, if_false]
  rfl

theorem readNextToken_here {word : Bytes} {kind : TokenKind} {clean : Bool}
    (lexeme : Lexeme word rest kind clean) :
    readNextToken (fuel + 1) ⟨pos, word ++ rest, errors⟩ =
      readTokenHere ⟨pos, word ++ rest, errors⟩ >>= fun (token, lexer) =>
        .ok (some token, lexer) := by
  obtain ⟨c, tail, rfl, visible, noLine, noBlock⟩ := lexeme.visible
  have line : isSingleLineCommentStart ⟨pos, c :: tail ++ rest, errors⟩ =
      false := by
    rw [← Bool.not_eq_true, isSingleLineCommentStart, isNext_iff]
    exact noLine
  have block : isMultiLineCommentStart ⟨pos, c :: tail ++ rest, errors⟩ =
      false := by
    rw [← Bool.not_eq_true, isMultiLineCommentStart, isNext_iff]
    exact noBlock
  rw [List.cons_append] at line block ⊢
  simp only [readNextToken_visible visible, line, block, Bool.false_eq_true,
    if_false]

theorem readNextToken_lexeme {word : Bytes} {kind : TokenKind} {clean : Bool}
    (lexeme : Lexeme word rest kind clean) (pos : Nat)
    (errors : List ErrorTag) :
    ∃ new, LexemeErrors pos (pos + word.length) clean new ∧ ∀ fuel,
      readNextToken (fuel + 1) ⟨pos, word ++ rest, errors⟩ =
        .ok (some ⟨⟨pos, pos + word.length⟩, kind⟩,
          ⟨pos + word.length, rest, errors ++ new⟩) := by
  obtain ⟨new, piece, read⟩ := lexeme.read pos errors
  refine ⟨new, piece, fun fuel => ?_⟩
  rw [readNextToken_here lexeme, read, ok_bind]

theorem readNextToken_lineComment (body : Bytes) :
    readNextToken (fuel + 1) ⟨pos, lineCommentStart ++ body, errors⟩ =
      skipSingleLineComment (body.length + 1) ⟨pos + 2, body, errors⟩ >>=
        readNextToken fuel := by
  have visible : isAsciiWhitespace '/'.toUInt8 = false := by decide
  have starts : isSingleLineCommentStart
      ⟨pos, '/'.toUInt8 :: ('/'.toUInt8 :: body), errors⟩ = true :=
    (isNext_iff _).mpr (List.prefix_append lineCommentStart body)
  have advanced : advanceChar 2
      ⟨pos, '/'.toUInt8 :: ('/'.toUInt8 :: body), errors⟩ =
        .ok ⟨pos + 2, body, errors⟩ :=
    advanceChar_append pos errors lineCommentStart body
  rw [List.cons_append, List.singleton_append, readNextToken_visible visible,
    if_pos starts, advanced, ok_bind]

theorem readNextToken_blockComment (body : Bytes) :
    readNextToken (fuel + 1) ⟨pos, blockCommentStart ++ body, errors⟩ =
      skipMultiLineComment (body.length + 1) ⟨pos + 2, body, errors⟩ >>=
        readNextToken fuel := by
  have visible : isAsciiWhitespace '/'.toUInt8 = false := by decide
  have noLine : ¬ isSingleLineCommentStart
      ⟨pos, '/'.toUInt8 :: ('*'.toUInt8 :: body), errors⟩ = true := by
    rw [isSingleLineCommentStart, isNext_iff, List.cons_prefix_cons,
      List.cons_prefix_cons]
    have different : '/'.toUInt8 ≠ '*'.toUInt8 := by decide
    exact fun begins => different begins.2.1
  have starts : isMultiLineCommentStart
      ⟨pos, '/'.toUInt8 :: ('*'.toUInt8 :: body), errors⟩ = true :=
    (isNext_iff _).mpr (List.prefix_append blockCommentStart body)
  have advanced : advanceChar 2
      ⟨pos, '/'.toUInt8 :: ('*'.toUInt8 :: body), errors⟩ =
        .ok ⟨pos + 2, body, errors⟩ :=
    advanceChar_append pos errors blockCommentStart body
  rw [List.cons_append, List.singleton_append, readNextToken_visible visible,
    if_neg noLine, if_pos starts, advanced, ok_bind]

/-- A text between tokens is left behind, for some fuel that is still enough. -/
def Passes (pos : Nat) (errors : List ErrorTag) (word rest : Bytes)
    (new : List ErrorTag) : Prop :=
  ∀ fuel, (word ++ rest).length < fuel → ∃ left, rest.length < left ∧
    readNextToken fuel ⟨pos, word ++ rest, errors⟩ =
      readNextToken left ⟨pos + word.length, rest, errors ++ new⟩

theorem passes_whitespace {c : UInt8} (blank : isAsciiWhitespace c = true) :
    Passes pos errors [c] rest [] := by
  intro fuel enough
  have room : rest.length + 1 < fuel := by simpa using enough
  refine ⟨fuel, by omega, ?_⟩
  obtain ⟨fuel, rfl⟩ : ∃ less, fuel = less + 1 := ⟨fuel - 1, by omega⟩
  have skipped :
      skipWhitespace (([c] ++ rest).length + 1) ⟨pos, [c] ++ rest, errors⟩ =
        skipWhitespace (rest.length + 1) ⟨pos + 1, rest, errors⟩ := by
    rw [skipWhitespace_eq _ _ (Nat.lt_succ_self _),
      skipWhitespace_eq _ _ (Nat.lt_succ_self _), List.singleton_append,
      List.takeWhile_cons_of_pos blank, List.dropWhile_cons_of_pos blank,
      List.length_cons, Nat.add_assoc, Nat.add_comm 1]
  rw [List.append_nil, List.length_singleton, readNextToken, readNextToken]
  simp only [skipped]

theorem passes_lineComment {body : Bytes} (inside : '\n'.toUInt8 ∉ body) :
    Passes pos errors (lineCommentStart ++ body ++ ['\n'.toUInt8]) rest [] := by
  intro fuel enough
  have room : body.length + rest.length + 3 < fuel := by
    simp at enough
    omega
  obtain ⟨fuel, rfl⟩ : ∃ less, fuel = less + 1 := ⟨fuel - 1, by omega⟩
  refine ⟨fuel, by omega, ?_⟩
  have split : lineCommentStart ++ body ++ ['\n'.toUInt8] ++ rest =
      lineCommentStart ++ (body ++ '\n'.toUInt8 :: rest) := by
    simp
  have total : (lineCommentStart ++ body ++ ['\n'.toUInt8]).length =
      2 + body.length + 1 := by
    simp
    omega
  have shorter : body.length < (body ++ '\n'.toUInt8 :: rest).length + 1 := by
    rw [List.length_append]
    omega
  rw [split, readNextToken_lineComment,
    skipSingleLineComment_closed inside rest _ shorter, ok_bind, total,
    List.append_nil]
  simp only [Nat.add_assoc]

theorem passes_blockComment {body : Bytes} (inside : ¬ commentEnd <:+: body) :
    Passes pos errors (blockCommentStart ++ body ++ commentEnd) rest [] := by
  intro fuel enough
  have room : body.length + rest.length + 4 < fuel := by
    simp [commentEnd] at enough
    omega
  obtain ⟨fuel, rfl⟩ : ∃ less, fuel = less + 1 := ⟨fuel - 1, by omega⟩
  refine ⟨fuel, by omega, ?_⟩
  have split : blockCommentStart ++ body ++ commentEnd ++ rest =
      blockCommentStart ++ (body ++ (commentEnd ++ rest)) := by
    simp
  have total : (blockCommentStart ++ body ++ commentEnd).length =
      2 + body.length + 2 := by
    simp [commentEnd]
    omega
  have shorter : body.length < (body ++ (commentEnd ++ rest)).length + 1 := by
    rw [List.length_append]
    omega
  rw [split, readNextToken_blockComment,
    skipMultiLineComment_closed inside rest _ shorter, ok_bind, total,
    List.append_nil]
  simp only [Nat.add_assoc]

theorem passes_openBlockComment {body : Bytes}
    (inside : ¬ commentEnd <:+: body) :
    Passes pos errors (blockCommentStart ++ body) []
      [⟨.makeEmpty (pos + 2 + body.length), ascii "unterminated comment"⟩] := by
  intro fuel enough
  have room : body.length + 2 < fuel := by
    simp at enough
    omega
  obtain ⟨fuel, rfl⟩ : ∃ less, fuel = less + 1 := ⟨fuel - 1, by omega⟩
  refine ⟨fuel, by simp; omega, ?_⟩
  have total : (blockCommentStart ++ body).length = 2 + body.length := by
    simp
    omega
  rw [List.append_nil, readNextToken_blockComment,
    skipMultiLineComment_open inside _ (Nat.lt_succ_self _), ok_bind, total,
    ← Nat.add_assoc]
  rfl

theorem readNextToken_trivia {word : Bytes} {clean : Bool}
    (trivia : Trivia word rest clean) (pos : Nat) (errors : List ErrorTag) :
    ∃ new, PieceErrors pos (pos + word.length) clean new ∧
      Passes pos errors word rest new := by
  cases trivia with
  | whitespace _ blank => exact ⟨[], .nil, passes_whitespace blank⟩
  | lineComment _ inside => exact ⟨[], .nil, passes_lineComment inside⟩
  | blockComment _ inside => exact ⟨[], .nil, passes_blockComment inside⟩
  | @openBlockComment body inside =>
      have unterminated : (TextRange.makeEmpty (pos + 2 + body.length)).Inside pos
          (pos + (blockCommentStart ++ body).length) :=
        ⟨by simp only [TextRange.makeEmpty]; omega, Nat.le_refl _,
          by simp [TextRange.makeEmpty]; omega⟩
      exact ⟨_, .single _ unterminated, passes_openBlockComment inside⟩

theorem readNextToken_openLineComment {text : Bytes}
    (isOpen : OpenLineComment text) :
    readNextToken (fuel + 1) ⟨pos, text, errors⟩ = .error .advanceChar := by
  obtain ⟨body, rfl, inside⟩ := isOpen
  rw [readNextToken_lineComment,
    skipSingleLineComment_open inside _ (Nat.lt_succ_self _), error_bind]

theorem readNextToken_fuel : ∀ (size : Nat) (text : Bytes) (pos : Nat)
    (errors : List ErrorTag) (fuel : Nat), text.length ≤ size →
      text.length < fuel →
        readNextToken fuel ⟨pos, text, errors⟩ =
          readNextToken (text.length + 1) ⟨pos, text, errors⟩ := by
  intro size
  induction size with
  | zero =>
      intro text pos errors fuel small enough
      obtain rfl := List.eq_nil_of_length_eq_zero (Nat.le_zero.mp small)
      cases fuel with
      | zero => contradiction
      | succ fuel => rfl
  | succ size induction =>
      intro text pos errors fuel small enough
      obtain ⟨fuel, rfl⟩ : ∃ less, fuel = less + 1 := ⟨fuel - 1, by omega⟩
      cases front text with
      | empty => rfl
      | openLineComment isOpen =>
          rw [readNextToken_openLineComment isOpen,
            readNextToken_openLineComment isOpen]
      | lexeme lexeme =>
          obtain ⟨new, -, read⟩ := readNextToken_lexeme lexeme pos errors
          rw [read, read]
      | @trivia word rest _ trivia =>
          obtain ⟨new, -, skipped⟩ := readNextToken_trivia trivia pos errors
          have shorter : rest.length ≤ size := by
            have positive := List.length_pos_of_ne_nil trivia.ne_nil
            rw [List.length_append] at small
            omega
          obtain ⟨left, more, first⟩ := skipped _ enough
          obtain ⟨left', more', second⟩ := skipped _ (Nat.lt_succ_self _)
          rw [first, second, induction _ _ _ _ shorter more,
            induction _ _ _ _ shorter more']

end Next

end Initd.Lexer
