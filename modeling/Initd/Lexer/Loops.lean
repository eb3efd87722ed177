import Initd.Lexer.Lexer
import Initd.Library.FirstOccurrence

namespace Initd.Lexer

open Library

/-! What each loop of the lexer reads, whatever the number of its rounds. -/

variable {pos fuel : Nat} {c : UInt8} {rest : Bytes} {errors : List ErrorTag}

@[simp] theorem ok_bind {Value Result : Type} (value : Value)
    (next : Value → Except LexerFault Result) :
    (Except.ok value >>= next) = next value := rfl

@[simp] theorem error_bind {Value Result : Type} (fault : LexerFault)
    (next : Value → Except LexerFault Result) :
    ((Except.error fault : Except LexerFault Value) >>= next) =
      .error fault := rfl

@[simp] theorem eofChar_nil : (Lexer.mk pos [] errors).eofChar = true := rfl

@[simp] theorem eofChar_cons :
    (Lexer.mk pos (c :: rest) errors).eofChar = false := rfl

@[simp] theorem peekChar_cons :
    (Lexer.mk pos (c :: rest) errors).peekChar = .ok c := rfl

@[simp] theorem advanceChar_nil :
    (Lexer.mk pos [] errors).advanceChar 1 = .error .advanceChar := rfl

@[simp] theorem advanceChar_cons :
    (Lexer.mk pos (c :: rest) errors).advanceChar 1 =
      .ok ⟨pos + 1, rest, errors⟩ := by
  simp [advanceChar]

theorem advanceChar_append (pos : Nat) (errors : List ErrorTag)
    (chars rest : Bytes) :
    (Lexer.mk pos (chars ++ rest) errors).advanceChar chars.length =
      .ok ⟨pos + chars.length, rest, errors⟩ := by
  simp [advanceChar]

/-! Loops over characters of one kind. -/

theorem skipWhitespace_eq (rest : Bytes) :
    ∀ {fuel} (pos : Nat), rest.length < fuel →
      skipWhitespace fuel ⟨pos, rest, errors⟩ =
        .ok ⟨pos + (rest.takeWhile isAsciiWhitespace).length,
          rest.dropWhile isAsciiWhitespace, errors⟩ := by
  induction rest with
  | nil =>
      intro fuel pos enough
      cases fuel with
      | zero => contradiction
      | succ fuel => rfl
  | cons c tail induction =>
      intro fuel pos enough
      cases fuel with
      | zero => contradiction
      | succ fuel =>
          have enough : tail.length < fuel := Nat.lt_of_succ_lt_succ enough
          cases blank : isAsciiWhitespace c with
          | false => simp [skipWhitespace, blank, pure, Except.pure]
          | true =>
              simp only [skipWhitespace, eofChar_cons, peekChar_cons,
                advanceChar_cons, ok_bind, blank]
              rw [List.takeWhile_cons_of_pos blank,
                List.dropWhile_cons_of_pos blank, List.length_cons]
              simpa [Nat.add_assoc, Nat.add_comm 1] using
                induction (pos + 1) enough

theorem readWhile_eq {Value : Type} (continues : UInt8 → Bool)
    (extend : Value → UInt8 → Value) (rest : Bytes) :
    ∀ {fuel} (value : Value) (pos : Nat), rest.length < fuel →
      readWhile continues extend fuel value ⟨pos, rest, errors⟩ =
        .ok ((rest.takeWhile continues).foldl extend value,
          ⟨pos + (rest.takeWhile continues).length,
            rest.dropWhile continues, errors⟩) := by
  induction rest with
  | nil =>
      intro fuel value pos enough
      cases fuel with
      | zero => contradiction
      | succ fuel => rfl
  | cons c tail induction =>
      intro fuel value pos enough
      cases fuel with
      | zero => contradiction
      | succ fuel =>
          have enough : tail.length < fuel := Nat.lt_of_succ_lt_succ enough
          cases goes : continues c with
          | false => simp [readWhile, goes, pure, Except.pure]
          | true =>
              simp only [readWhile, eofChar_cons, peekChar_cons,
                advanceChar_cons, ok_bind, goes]
              rw [List.takeWhile_cons_of_pos goes,
                List.dropWhile_cons_of_pos goes, List.length_cons,
                List.foldl_cons]
              simpa [Nat.add_assoc, Nat.add_comm 1] using
                induction (extend value c) (pos + 1) enough

/-! Comments. -/

theorem isNext_iff {first second : UInt8} (rest : Bytes) :
    isNext first second ⟨pos, rest, errors⟩ = true ↔
      [first, second] <+: rest := by
  rcases rest with _ | ⟨a, _ | ⟨b, rest⟩⟩
  · simp [isNext]
  · simp [isNext]
  · simp only [isNext, Bool.and_eq_true, beq_iff_eq, List.cons_prefix_cons,
      List.nil_prefix, and_true]
    rw [eq_comm, @eq_comm _ b]

theorem skipSingleLineComment_closed {body : Bytes}
    (inside : '\n'.toUInt8 ∉ body) (rest : Bytes) :
    ∀ {fuel} (pos : Nat), body.length < fuel →
      skipSingleLineComment fuel
          ⟨pos, body ++ '\n'.toUInt8 :: rest, errors⟩ =
        .ok ⟨pos + body.length + 1, rest, errors⟩ := by
  induction body with
  | nil =>
      intro fuel pos enough
      cases fuel with
      | zero => contradiction
      | succ fuel => simp [skipSingleLineComment, isSingleLineCommentEnd]
  | cons c tail induction =>
      intro fuel pos enough
      obtain ⟨different, inside⟩ := not_or.mp (List.mem_cons.not.mp inside)
      cases fuel with
      | zero => contradiction
      | succ fuel =>
          have enough : tail.length < fuel := Nat.lt_of_succ_lt_succ enough
          have later := induction inside (pos + 1) enough
          simp only [skipSingleLineComment, List.cons_append, eofChar_cons,
            isSingleLineCommentEnd, Bool.false_or, beq_iff_eq,
            Ne.symm different, if_false, advanceChar_cons, ok_bind, later,
            List.length_cons]
          congr 2
          omega

theorem skipSingleLineComment_open {rest : Bytes}
    (inside : '\n'.toUInt8 ∉ rest) :
    ∀ {fuel} (pos : Nat), rest.length < fuel →
      skipSingleLineComment fuel ⟨pos, rest, errors⟩ =
        .error .advanceChar := by
  induction rest with
  | nil =>
      intro fuel pos enough
      cases fuel with
      | zero => contradiction
      | succ fuel => rfl
  | cons c tail induction =>
      intro fuel pos enough
      obtain ⟨different, inside⟩ := not_or.mp (List.mem_cons.not.mp inside)
      cases fuel with
      | zero => contradiction
      | succ fuel =>
          have enough : tail.length < fuel := Nat.lt_of_succ_lt_succ enough
          simp only [skipSingleLineComment, eofChar_cons,
            isSingleLineCommentEnd, Bool.false_or, beq_iff_eq,
            Ne.symm different, if_false, advanceChar_cons, ok_bind]
          exact induction inside (pos + 1) enough

def commentEnd : Bytes := ['*'.toUInt8, '/'.toUInt8]

theorem skipMultiLineComment_closed {body : Bytes}
    (inside : ¬ commentEnd <:+: body) (rest : Bytes) :
    ∀ {fuel} (pos : Nat), body.length < fuel →
      skipMultiLineComment fuel ⟨pos, body ++ (commentEnd ++ rest), errors⟩ =
        .ok ⟨pos + body.length + 2, rest, errors⟩ := by
  induction body with
  | nil =>
      intro fuel pos enough
      cases fuel with
      | zero => contradiction
      | succ fuel =>
          simp [skipMultiLineComment, commentEnd, isMultiLineCommentEnd,
            isNext, advanceChar]
  | cons c tail induction =>
      intro fuel pos enough
      cases fuel with
      | zero => contradiction
      | succ fuel =>
          have enough : tail.length < fuel := Nat.lt_of_succ_lt_succ enough
          have goes : isMultiLineCommentEnd
              ⟨pos, c :: (tail ++ (commentEnd ++ rest)), errors⟩ = false := by
            rw [← Bool.not_eq_true, isMultiLineCommentEnd, isNext_iff]
            exact FirstOccurrence.not_prefix_of_body (by decide)
              (List.cons_ne_nil c tail) inside
          have later := induction
            (fun deep => inside (List.infix_cons deep)) (pos + 1) enough
          simp only [skipMultiLineComment, List.cons_append, eofChar_cons,
            goes, Bool.false_eq_true, if_false, advanceChar_cons, ok_bind,
            later, List.length_cons]
          congr 2
          omega

theorem skipMultiLineComment_open {rest : Bytes}
    (inside : ¬ commentEnd <:+: rest) :
    ∀ {fuel} (pos : Nat), rest.length < fuel →
      skipMultiLineComment fuel ⟨pos, rest, errors⟩ =
        .ok (push (.makeEmpty (pos + rest.length)) "unterminated comment"
          ⟨pos + rest.length, [], errors⟩) := by
  induction rest with
  | nil =>
      intro fuel pos enough
      cases fuel with
      | zero => contradiction
      | succ fuel => rfl
  | cons c tail induction =>
      intro fuel pos enough
      cases fuel with
      | zero => contradiction
      | succ fuel =>
          have enough : tail.length < fuel := Nat.lt_of_succ_lt_succ enough
          have goes : isMultiLineCommentEnd ⟨pos, c :: tail, errors⟩ =
              false := by
            rw [← Bool.not_eq_true, isMultiLineCommentEnd, isNext_iff]
            exact fun here => inside here.isInfix
          have later := induction
            (fun deep => inside (List.infix_cons deep)) (pos + 1) enough
          simp only [skipMultiLineComment, eofChar_cons, goes,
            Bool.false_eq_true, if_false, advanceChar_cons, ok_bind, later,
            List.length_cons]
          rw [Nat.add_assoc, Nat.add_comm 1]

/-! Raw string literals. -/

def RawPrefix (pre : Bytes) : Prop :=
  ∀ c ∈ pre, endsRawPrefix c = false ∧ c ≠ '('.toUInt8

def rawEnd (pre : Bytes) : Bytes := ')'.toUInt8 :: (pre ++ ['"'.toUInt8])

@[simp] theorem rawEnd_length (pre : Bytes) :
    (rawEnd pre).length = 2 + pre.length := by
  simp [rawEnd]
  omega

theorem RawPrefix.fresh {pre : Bytes} (plain : RawPrefix pre) :
    ')'.toUInt8 ∉ pre ++ ['"'.toUInt8] := by
  intro member
  cases List.mem_append.mp member with
  | inl inPrefix =>
      have ends := (plain _ inPrefix).1
      revert ends
      decide
  | inr last =>
      revert last
      decide

theorem readRawPrefix_append {pre : Bytes} (plain : RawPrefix pre)
    (rest : Bytes) :
    ∀ (fuel : Nat) (acc : Bytes) (pos : Nat),
      readRawPrefix (fuel + pre.length) acc ⟨pos, pre ++ rest, errors⟩ =
        readRawPrefix fuel (acc ++ pre) ⟨pos + pre.length, rest, errors⟩ := by
  induction pre with
  | nil => simp
  | cons c tail induction =>
      intro fuel acc pos
      obtain ⟨goes, other⟩ := plain c List.mem_cons_self
      have later := induction
        (fun d member => plain d (List.mem_cons_of_mem c member)) fuel
        (acc ++ [c]) (pos + 1)
      rw [List.length_cons, ← Nat.add_assoc, List.cons_append, readRawPrefix]
      simp only [eofChar_cons, peekChar_cons, ok_bind, goes, Bool.false_eq_true,
        if_false, other, advanceChar_cons, later]
      rw [List.append_assoc, List.singleton_append, Nat.add_assoc,
        Nat.add_comm 1]

theorem readRawPrefix_open {fuel : Nat} (acc rest : Bytes) :
    readRawPrefix (fuel + 1) acc ⟨pos, '('.toUInt8 :: rest, errors⟩ =
      .ok (some acc, ⟨pos + 1, rest, errors⟩) := by
  have goes : endsRawPrefix '('.toUInt8 = false := by decide
  simp [readRawPrefix, goes, pure, Except.pure]

/-- The prefix stops at the end of the text or at a character that it cannot
contain. -/
def StopsRawPrefix (rest : Bytes) : Prop :=
  ∀ c ∈ rest.head?, endsRawPrefix c = true

theorem readRawPrefix_stop {fuel : Nat} (acc : Bytes) {rest : Bytes}
    (stops : StopsRawPrefix rest) :
    readRawPrefix (fuel + 1) acc ⟨pos, rest, errors⟩ =
      .ok (none, ⟨pos, rest, errors⟩) := by
  cases rest with
  | nil => rfl
  | cons c rest =>
      have ends : endsRawPrefix c = true := stops c rfl
      simp [readRawPrefix, ends, pure, Except.pure]

theorem isRawStringLiteralEnd_iff (pre rest : Bytes) :
    isRawStringLiteralEnd pre ⟨pos, rest, errors⟩ = true ↔
      rawEnd pre <+: rest := by
  unfold isRawStringLiteralEnd
  split
  · next short =>
      simp only [Bool.false_eq_true, false_iff]
      intro begins
      have enough := begins.length_le
      rw [rawEnd_length] at enough
      exact absurd short (Nat.not_lt.mpr enough)
  · cases rest with
    | nil => simp [rawEnd]
    | cons c tail =>
        rw [rawEnd, List.cons_prefix_cons]
        simp only [Bool.and_eq_true, beq_iff_eq, List.getElem?_cons_zero,
          Option.some.injEq, List.drop_succ_cons, List.drop_zero,
          Nat.add_comm 1, List.getElem?_cons_succ]
        constructor
        · rintro ⟨⟨rfl, middle⟩, last⟩
          refine ⟨rfl, tail.drop (pre.length + 1), ?_⟩
          obtain ⟨short, equal⟩ := List.getElem?_eq_some_iff.mp last
          have joined := List.take_append_drop pre.length tail
          rw [middle, List.drop_eq_getElem_cons short, equal] at joined
          simpa using joined
        · rintro ⟨rfl, more, rfl⟩
          simp

theorem readRawValue_closed (lexStart : Nat) {pre value : Bytes}
    (plain : RawPrefix pre) (inside : ¬ rawEnd pre <:+: value)
    (rest : Bytes) :
    ∀ {fuel} (acc : Bytes) (pos : Nat), value.length < fuel →
      readRawValue lexStart pre fuel acc
          ⟨pos, value ++ (rawEnd pre ++ rest), errors⟩ =
        .ok (acc ++ value,
          ⟨pos + value.length + (2 + pre.length), rest, errors⟩) := by
  induction value with
  | nil =>
      intro fuel acc pos enough
      cases fuel with
      | zero => contradiction
      | succ fuel =>
          have ends : isRawStringLiteralEnd pre
              ⟨pos, rawEnd pre ++ rest, errors⟩ = true :=
            (isRawStringLiteralEnd_iff pre _).mpr (List.prefix_append _ _)
          have eof : eofChar ⟨pos, rawEnd pre ++ rest, errors⟩ = false := rfl
          have advanced := advanceChar_append pos errors (rawEnd pre) rest
          rw [rawEnd_length] at advanced
          simp [readRawValue, eof, ends, advanced, pure, Except.pure]
  | cons c tail induction =>
      intro fuel acc pos enough
      cases fuel with
      | zero => contradiction
      | succ fuel =>
          have enough : tail.length < fuel := Nat.lt_of_succ_lt_succ enough
          have goes : isRawStringLiteralEnd pre
              ⟨pos, c :: (tail ++ (rawEnd pre ++ rest)), errors⟩ = false := by
            rw [← Bool.not_eq_true, isRawStringLiteralEnd_iff]
            exact FirstOccurrence.not_prefix_of_body plain.fresh
              (List.cons_ne_nil c tail) inside
          have later := induction
            (fun deep => inside (List.infix_cons deep)) (acc ++ [c]) (pos + 1)
            enough
          simp only [readRawValue, List.cons_append, eofChar_cons, goes,
            Bool.false_eq_true, if_false, peekChar_cons, advanceChar_cons,
            ok_bind, later, List.length_cons, List.append_assoc,
            List.nil_append]
          congr 3
          omega

theorem readRawValue_open (lexStart : Nat) {pre rest : Bytes}
    (inside : ¬ rawEnd pre <:+: rest) :
    ∀ {fuel} (acc : Bytes) (pos : Nat), rest.length < fuel →
      readRawValue lexStart pre fuel acc ⟨pos, rest, errors⟩ =
        .ok (acc ++ rest,
          push ⟨lexStart, pos + rest.length⟩ "unterminated string"
            ⟨pos + rest.length, [], errors⟩) := by
  induction rest with
  | nil =>
      intro fuel acc pos enough
      cases fuel with
      | zero => contradiction
      | succ fuel => simp [readRawValue, pure, Except.pure]
  | cons c tail induction =>
      intro fuel acc pos enough
      cases fuel with
      | zero => contradiction
      | succ fuel =>
          have enough : tail.length < fuel := Nat.lt_of_succ_lt_succ enough
          have goes : isRawStringLiteralEnd pre ⟨pos, c :: tail, errors⟩ =
              false := by
            rw [← Bool.not_eq_true, isRawStringLiteralEnd_iff]
            exact fun here => inside here.isInfix
          have later := induction
            (fun deep => inside (List.infix_cons deep)) (acc ++ [c]) (pos + 1)
            enough
          simp only [readRawValue, eofChar_cons, goes, Bool.false_eq_true,
            if_false, peekChar_cons, advanceChar_cons, ok_bind, later,
            List.length_cons, List.append_assoc, List.singleton_append]
          rw [Nat.add_assoc, Nat.add_comm 1]

/-! Quoted string literals. -/

/-- The errors of a piece of the text: there are none where it is clean, and
each stands inside of it. -/
structure PieceErrors (start finish : Nat) (clean : Bool)
    (errors : List ErrorTag) : Prop where
  silent : clean = true → errors = []
  inside : ∀ error ∈ errors, error.range.Inside start finish

namespace PieceErrors

variable {start finish before after : Nat} {clean other : Bool}
  {new more : List ErrorTag}

theorem nil : PieceErrors start finish clean [] :=
  ⟨fun _ => rfl, List.forall_mem_nil _⟩

theorem mono (piece : PieceErrors start finish clean new)
    (earlier : before ≤ start) (later : finish ≤ after) :
    PieceErrors before after clean new :=
  ⟨piece.silent, fun error member =>
    (piece.inside error member).mono earlier later⟩

theorem append (first : PieceErrors start finish clean new)
    (second : PieceErrors start finish other more) :
    PieceErrors start finish (clean && other) (new ++ more) where
  silent both := by
    rw [Bool.and_eq_true] at both
    rw [first.silent both.1, second.silent both.2, List.append_nil]
  inside := List.forall_mem_append.mpr ⟨first.inside, second.inside⟩

theorem single {range : TextRange} (message : Bytes)
    (inside : range.Inside start finish) :
    PieceErrors start finish false [⟨range, message⟩] :=
  ⟨Bool.noConfusion, List.forall_mem_singleton.mpr inside⟩

end PieceErrors

/-- The errors of a token, which all start inside of it. -/
structure LexemeErrors (start finish : Nat) (clean : Bool)
    (errors : List ErrorTag) : Prop
    extends PieceErrors start finish clean errors where
  before : ∀ error ∈ errors, error.range.start < finish

namespace LexemeErrors

variable {start finish earlier later : Nat} {clean other : Bool}
  {new more : List ErrorTag}

theorem nil : LexemeErrors start finish clean [] :=
  ⟨.nil, List.forall_mem_nil _⟩

theorem mono (lexeme : LexemeErrors start finish clean new)
    (begins : earlier ≤ start) (ends : finish ≤ later) :
    LexemeErrors earlier later clean new :=
  ⟨lexeme.toPieceErrors.mono begins ends, fun error member =>
    Nat.lt_of_lt_of_le (lexeme.before error member) ends⟩

theorem append (first : LexemeErrors start finish clean new)
    (second : LexemeErrors start finish other more) :
    LexemeErrors start finish (clean && other) (new ++ more) :=
  ⟨first.toPieceErrors.append second.toPieceErrors,
    List.forall_mem_append.mpr ⟨first.before, second.before⟩⟩

theorem single {range : TextRange} (message : Bytes)
    (inside : range.Inside start finish) (before : range.start < finish) :
    LexemeErrors start finish false [⟨range, message⟩] :=
  ⟨.single message inside, List.forall_mem_singleton.mpr before⟩

end LexemeErrors

/-- The characters between the quotes, the value that they denote, and whether
all escapes among them are valid. -/
inductive QuotedBody : Bytes → Bytes → Bool → Prop
  | nil : QuotedBody [] [] true
  | char {c : UInt8} {body value : Bytes} {clean : Bool}
      (plain : c ≠ '\n'.toUInt8 ∧ c ≠ '"'.toUInt8 ∧ c ≠ '\\'.toUInt8)
      (more : QuotedBody body value clean) :
      QuotedBody (c :: body) (c :: value) clean
  | escape {c escaped : UInt8} {body value : Bytes} {clean : Bool}
      (valid : escapedChar c = some escaped)
      (more : QuotedBody body value clean) :
      QuotedBody ('\\'.toUInt8 :: c :: body) (escaped :: value) clean
  | invalid {c : UInt8} {body value : Bytes} {clean : Bool}
      (invalid : escapedChar c = none)
      (more : QuotedBody body value clean) :
      QuotedBody ('\\'.toUInt8 :: c :: body) ('\\'.toUInt8 :: c :: value)
        false

private theorem backslash :
    '\\'.toUInt8 ≠ '\n'.toUInt8 ∧ '\\'.toUInt8 ≠ '"'.toUInt8 := by
  decide

private theorem quote : '"'.toUInt8 ≠ '\n'.toUInt8 := by
  decide

section Quoted

variable {lexStart : Nat} {acc : Bytes}

theorem readStringValue_char
    (plain : c ≠ '\n'.toUInt8 ∧ c ≠ '"'.toUInt8 ∧ c ≠ '\\'.toUInt8) :
    readStringValue lexStart (fuel + 1) acc ⟨pos, c :: rest, errors⟩ =
      readStringValue lexStart fuel (acc ++ [c]) ⟨pos + 1, rest, errors⟩ := by
  simp [readStringValue, plain]

theorem readStringValue_escape {escaped : UInt8}
    (valid : escapedChar c = some escaped) :
    readStringValue lexStart (fuel + 1) acc
        ⟨pos, '\\'.toUInt8 :: c :: rest, errors⟩ =
      readStringValue lexStart fuel (acc ++ [escaped])
        ⟨pos + 2, rest, errors⟩ := by
  simp [readStringValue, backslash, valid, Nat.add_assoc]

theorem readStringValue_invalid (invalid : escapedChar c = none) :
    readStringValue lexStart (fuel + 1) acc
        ⟨pos, '\\'.toUInt8 :: c :: rest, errors⟩ =
      readStringValue lexStart fuel (acc ++ ['\\'.toUInt8, c])
        ⟨pos + 2, rest, errors ++
          [⟨⟨pos, pos + 2⟩, ascii "invalid escape character"⟩]⟩ := by
  simp [readStringValue, backslash, invalid, push, Nat.add_assoc]

/-- A body leaves at least the fuel that it was not given fuel for, and errors
only for its invalid escapes. -/
theorem readStringValue_body (lexStart : Nat) {body value : Bytes}
    {clean : Bool}
    (quoted : QuotedBody body value clean) (rest : Bytes) :
    ∀ (fuel : Nat) (acc : Bytes) (pos : Nat) (errors : List ErrorTag),
      ∃ left new, fuel ≤ left ∧
        LexemeErrors pos (pos + body.length) clean new ∧
        readStringValue lexStart (fuel + body.length) acc
            ⟨pos, body ++ rest, errors⟩ =
          readStringValue lexStart left (acc ++ value)
            ⟨pos + body.length, rest, errors ++ new⟩ := by
  induction quoted with
  | nil =>
      intro fuel acc pos errors
      exact ⟨fuel, [], Nat.le_refl fuel, .nil, by simp⟩
  | @char c body value clean plain _ induction =>
      intro fuel acc pos errors
      obtain ⟨left, new, enough, piece, equal⟩ :=
        induction fuel (acc ++ [c]) (pos + 1) errors
      refine ⟨left, new, enough,
        piece.mono (by omega) (by rw [List.length_cons]; omega), ?_⟩
      rw [List.length_cons, ← Nat.add_assoc, List.cons_append,
        readStringValue_char plain, equal, List.append_assoc,
        List.singleton_append, Nat.add_assoc pos, Nat.add_comm 1]
  | @escape c escaped body value clean valid _ induction =>
      intro fuel acc pos errors
      obtain ⟨left, new, enough, piece, equal⟩ :=
        induction (fuel + 1) (acc ++ [escaped]) (pos + 2) errors
      refine ⟨left, new, Nat.le_of_succ_le enough,
        piece.mono (by omega) (by simp only [List.length_cons]; omega), ?_⟩
      rw [List.length_cons, List.length_cons, ← Nat.add_assoc, List.cons_append,
        List.cons_append, readStringValue_escape valid, ← Nat.add_assoc,
        Nat.add_right_comm, equal, List.append_assoc, List.singleton_append,
        Nat.add_assoc pos, Nat.add_comm 2]
  | @invalid c body value clean invalid _ induction =>
      intro fuel acc pos errors
      obtain ⟨left, new, enough, piece, equal⟩ :=
        induction (fuel + 1) (acc ++ ['\\'.toUInt8, c]) (pos + 2)
          (errors ++ [⟨⟨pos, pos + 2⟩, ascii "invalid escape character"⟩])
      have total : ('\\'.toUInt8 :: c :: body).length = body.length + 2 := rfl
      have escape : TextRange.Inside ⟨pos, pos + 2⟩ pos
          (pos + ('\\'.toUInt8 :: c :: body).length) :=
        ⟨Nat.le_refl pos, Nat.le_add_right pos 2, by simp only; omega⟩
      refine ⟨left,
        ⟨⟨pos, pos + 2⟩, ascii "invalid escape character"⟩ :: new,
        Nat.le_of_succ_le enough,
        (LexemeErrors.single _ escape (Nat.lt_add_of_pos_right
          Nat.succ_pos')).append (piece.mono (by omega) (by omega)), ?_⟩
      rw [List.length_cons, List.length_cons, ← Nat.add_assoc, List.cons_append,
        List.cons_append, readStringValue_invalid invalid, ← Nat.add_assoc,
        Nat.add_right_comm, equal, List.append_assoc, List.append_assoc,
        Nat.add_assoc pos, Nat.add_comm 2]
      rfl

/-- Where a string literal without its closing quote stops. -/
def StopsQuoted (rest : Bytes) : Prop :=
  ∀ c ∈ rest.head?, c = '\n'.toUInt8

theorem readStringValue_quote :
    readStringValue lexStart (fuel + 1) acc
        ⟨pos, '"'.toUInt8 :: rest, errors⟩ =
      .ok (acc, ⟨pos + 1, rest, errors⟩) := by
  simp [readStringValue, quote, pure, Except.pure]

theorem readStringValue_stop (stops : StopsQuoted rest) :
    readStringValue lexStart (fuel + 1) acc ⟨pos, rest, errors⟩ =
      .ok (acc, push ⟨lexStart, pos⟩ "unterminated string"
        ⟨pos, rest, errors⟩) := by
  cases rest with
  | nil => simp [readStringValue, pure, Except.pure]
  | cons c rest =>
      have newline : c = '\n'.toUInt8 := stops c rfl
      simp [readStringValue, newline, pure, Except.pure]

theorem readStringValue_lastBackslash :
    readStringValue lexStart (fuel + 1) acc ⟨pos, ['\\'.toUInt8], errors⟩ =
      readStringValue lexStart fuel acc ⟨pos + 1, [], errors⟩ := by
  simp [readStringValue, backslash]

end Quoted

end Initd.Lexer
