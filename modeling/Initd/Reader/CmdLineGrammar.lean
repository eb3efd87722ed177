import Mathlib.Data.List.TakeWhile
import Initd.Reader.ReadCmdLine
import Initd.Reader.Reports

namespace Initd.Reader

open Library

/-! The quoting grammar of command lines. -/

def IsQuote (c : UInt8) : Prop := c = '\''.toUInt8 ∨ c = '"'.toUInt8

/-- A piece of an argument and its contents. -/
inductive Piece : Bytes → Bytes → Prop
  | bare (c : UInt8) (visible : isAsciiWhitespace c = false)
      (noQuote : ¬ IsQuote c) : Piece [c] [c]
  | quoted (c : UInt8) (quote : IsQuote c) {contents : Bytes}
      (inside : c ∉ contents) : Piece (c :: (contents ++ [c])) contents

inductive Pieces : Bytes → Bytes → Prop
  | empty : Pieces [] []
  | cons {word contents more others : Bytes} (piece : Piece word contents)
      (pieces : Pieces more others) : Pieces (word ++ more) (contents ++ others)

structure Encoding (word contents : Bytes) : Prop where
  pieces : Pieces word contents
  nonempty : word ≠ []

def Blank (run : Bytes) : Prop := ∀ c ∈ run, isAsciiWhitespace c = true

/-- Encodings with runs of whitespace between them. -/
inductive Separated : Bytes → List Bytes → Prop
  | last {word contents : Bytes} (encoding : Encoding word contents) :
      Separated word [contents]
  | cons {word contents run more : Bytes} {others : List Bytes}
      (encoding : Encoding word contents) (blank : Blank run)
      (nonempty : run ≠ []) (separated : Separated more others) :
      Separated (word ++ run ++ more) (contents :: others)

/-- The arguments that a value denotes. -/
def CommandLine (value : Bytes) (arguments : List Bytes) : Prop :=
  ∃ before inside after, Blank before ∧ Blank after ∧
    value = before ++ inside ++ after ∧ Separated inside arguments

/-! One argument. -/

theorem IsQuote.visible {c : UInt8} (quote : IsQuote c) :
    isAsciiWhitespace c = false := by
  cases quote with
  | inl single => rw [single]; rfl
  | inr double => rw [double]; rfl

theorem not_isQuote_of_blank {c : UInt8} (blank : isAsciiWhitespace c = true) :
    ¬ IsQuote c := by
  intro quote
  rw [quote.visible] at blank
  contradiction

theorem Piece.visible {word contents : Bytes} (piece : Piece word contents) :
    ∃ c rest, word = c :: rest ∧ isAsciiWhitespace c = false := by
  cases piece with
  | bare c visible _ => exact ⟨c, [], rfl, visible⟩
  | quoted c quote _ => exact ⟨c, _, rfl, quote.visible⟩

theorem Encoding.visible {word contents : Bytes}
    (encoding : Encoding word contents) :
    ∃ c rest, word = c :: rest ∧ isAsciiWhitespace c = false := by
  obtain ⟨pieces, nonempty⟩ := encoding
  cases pieces with
  | empty => exact absurd rfl nonempty
  | cons piece _ =>
      obtain ⟨c, rest, rfl, visible⟩ := piece.visible
      exact ⟨c, _, rfl, visible⟩

/-- Where an argument ends: at whitespace or at `value.cend()`. -/
def WordEnds (i : Bytes) : Prop := isAsciiWhitespace (charAt i) = true

theorem readQuoted_closed {c : UInt8} {contents : Bytes}
    (inside : c ∉ contents) (rest : Bytes) :
    readQuoted c (contents ++ c :: rest) = some (contents, rest) := by
  have other : ∀ d ∈ contents, decide (d ≠ c) = true := by
    intro d member
    refine decide_eq_true fun same => inside ?_
    rwa [← same]
  rw [readQuoted, List.dropWhile_append_of_pos other,
    List.takeWhile_append_of_pos other]
  simp

theorem readQuoted_open {c : UInt8} {i : Bytes} (inside : c ∉ i) :
    readQuoted c i = none := by
  have all : i.dropWhile (· ≠ c) = [] := by
    rw [List.dropWhile_eq_nil_iff]
    intro d member
    refine decide_eq_true fun same => inside ?_
    rwa [← same]
  rw [readQuoted, all]

variable {range : TextRange} {fuel : Nat} {arg i : Bytes}
  {result : Option (Bytes × Bytes)} {errors : List ErrorTag}

theorem readArgument_blank (ends : WordEnds i) :
    Writes (readArgument range (fuel + 1) arg i) (some (arg, i)) [] := by
  rw [readArgument]
  split
  · next quote => exact absurd quote (not_isQuote_of_blank ends)
  split
  · exact .pure _
  · next visible => exact absurd ends visible

theorem readArgument_bare {c : UInt8} (visible : isAsciiWhitespace c = false)
    (noQuote : ¬ IsQuote c)
    (rest : Writes (readArgument range fuel (arg ++ [c]) i) result errors) :
    Writes (readArgument range (fuel + 1) arg (c :: i)) result errors := by
  rw [readArgument]
  split
  · next quote => exact absurd quote noQuote
  split
  · next blank =>
      rw [charAt, List.headD_cons, visible] at blank
      contradiction
  · exact rest

theorem readArgument_quoted {c : UInt8} (quote : IsQuote c) {contents : Bytes}
    (inside : c ∉ contents)
    (rest : Writes (readArgument range fuel (arg ++ contents) i) result errors) :
    Writes (readArgument range (fuel + 1) arg (c :: (contents ++ c :: i)))
      result errors := by
  rw [readArgument]
  split
  · simp only [charAt, List.headD_cons, List.tail_cons,
      readQuoted_closed inside i]
    exact rest
  · next noQuote => exact absurd quote noQuote

/-- The error of a quote that is not closed. -/
def unmatched (range : TextRange) (c : UInt8) : ErrorTag :=
  ⟨range, ascii "unmatched " ++ [c]⟩

theorem readArgument_unmatched {c : UInt8} (quote : IsQuote c)
    (inside : c ∉ i) :
    Writes (readArgument range (fuel + 1) arg (c :: i)) none
      [unmatched range c] := by
  rw [readArgument]
  split
  · simp only [charAt, List.headD_cons, List.tail_cons, readQuoted_open inside]
    exact (push_writes range _).bind_pure fun _ => none
  · next noQuote => exact absurd quote noQuote

/-- The pieces of an argument are read before what follows them. -/
theorem readArgument_pieces {word contents : Bytes}
    (pieces : Pieces word contents) :
    ∀ (arg : Bytes),
      (∀ fuel, i.length < fuel →
        Writes (readArgument range fuel (arg ++ contents) i) result errors) →
      ∀ fuel, (word ++ i).length < fuel →
        Writes (readArgument range fuel arg (word ++ i)) result errors := by
  induction pieces with
  | empty =>
      intro arg later fuel enough
      rw [List.append_nil] at later
      exact later fuel enough
  | @cons word contents more others piece _ induction =>
      intro arg later fuel enough
      cases fuel with
      | zero => exact absurd enough (Nat.not_lt_zero _)
      | succ fuel =>
          simp only [List.length_append] at enough induction
          rw [← List.append_assoc] at later
          rw [List.append_assoc]
          cases piece with
          | bare c visible noQuote =>
              rw [List.length_singleton] at enough
              exact readArgument_bare visible noQuote
                (induction _ later fuel (by omega))
          | quoted c quote inside =>
              simp only [List.length_cons, List.length_append] at enough
              rw [List.cons_append, List.append_assoc, List.singleton_append]
              exact readArgument_quoted quote inside
                (induction _ later fuel (by omega))

theorem readArgument_word (range : TextRange) {word contents : Bytes}
    (pieces : Pieces word contents) (ends : WordEnds i) :
    Writes (readArgument range ((word ++ i).length + 1) [] (word ++ i))
      (some (contents, i)) [] := by
  refine readArgument_pieces pieces [] (fun fuel enough => ?_) _
    (Nat.lt_succ_self _)
  obtain ⟨fuel, rfl⟩ : ∃ n, fuel = n + 1 := ⟨fuel - 1, by omega⟩
  exact readArgument_blank ends

theorem readArgument_unclosed (range : TextRange) {word contents : Bytes}
    {c : UInt8} (pieces : Pieces word contents) (quote : IsQuote c)
    (inside : c ∉ i) :
    Writes (readArgument range ((word ++ c :: i).length + 1) [] (word ++ c :: i))
      none [unmatched range c] := by
  refine readArgument_pieces pieces [] (fun fuel enough => ?_) _
    (Nat.lt_succ_self _)
  obtain ⟨fuel, rfl⟩ : ∃ n, fuel = n + 1 := ⟨fuel - 1, by omega⟩
  exact readArgument_unmatched quote inside

/-- What comes first of an argument. -/
theorem argument_cases (i : Bytes) :
    WordEnds i ∨
      (∃ word contents rest, Piece word contents ∧ i = word ++ rest) ∨
      ∃ c rest, IsQuote c ∧ c ∉ rest ∧ i = c :: rest := by
  cases i with
  | nil => exact .inl rfl
  | cons c rest =>
      cases blank : isAsciiWhitespace c with
      | true => exact .inl blank
      | false =>
          right
          by_cases quote : IsQuote c
          · by_cases closes : c ∈ rest
            · obtain ⟨contents, more, rfl, inside⟩ :=
                List.eq_append_cons_of_mem closes
              refine .inl ⟨_, contents, more, .quoted c quote inside, ?_⟩
              simp
            · exact .inr ⟨c, rest, quote, closes, rfl⟩
          · exact .inl ⟨[c], [c], rest, .bare c blank quote, rfl⟩

/-- An argument has its pieces, and ends or has a quote that is not closed. -/
theorem argument_split (i : Bytes) :
    ∃ word contents rest, i = word ++ rest ∧ Pieces word contents ∧
      (WordEnds rest ∨ ∃ c quoted, IsQuote c ∧ c ∉ quoted ∧ rest = c :: quoted) := by
  induction length : i.length using Nat.strongRecOn generalizing i with
  | ind n induction =>
      obtain ends | ⟨word, contents, rest, piece, rfl⟩ |
        ⟨c, rest, quote, inside, rfl⟩ := argument_cases i
      · exact ⟨[], [], i, rfl, .empty, .inl ends⟩
      · have shorter : rest.length < n := by
          obtain ⟨_, _, rfl, _⟩ := piece.visible
          simp at length
          omega
        obtain ⟨more, others, last, rfl, pieces, ends⟩ :=
          induction rest.length shorter rest rfl
        exact ⟨word ++ more, contents ++ others, last,
          (List.append_assoc ..).symm, .cons piece pieces, ends⟩
      · exact ⟨[], [], _, rfl, .empty, .inr ⟨c, rest, quote, inside, rfl⟩⟩

/-! The whole line. -/

variable {split arguments : List Bytes} {words : Option (List Bytes)}

theorem splitCmdLine_blank (blank : Blank i) :
    Writes (splitCmdLine range (fuel + 1) split i) (some split) [] := by
  have none : i.dropWhile isAsciiWhitespace = [] :=
    List.dropWhile_eq_nil_iff.mpr blank
  rw [splitCmdLine]
  simp only [none, if_true]
  exact .pure _

/-- One round of the loop, past the whitespace before its argument. -/
theorem splitCmdLine_word {before word contents rest : Bytes}
    (blank : Blank before) (encoding : Encoding word contents)
    (ends : WordEnds rest)
    (later : Writes (splitCmdLine range fuel (split ++ [contents]) rest) words
      errors) :
    Writes (splitCmdLine range (fuel + 1) split (before ++ word ++ rest)) words
      errors := by
  have start : (before ++ word ++ rest).dropWhile isAsciiWhitespace =
      word ++ rest := by
    obtain ⟨c, more, rfl, visible⟩ := encoding.visible
    rw [List.append_assoc, List.dropWhile_append_of_pos blank]
    simp [visible]
  rw [splitCmdLine]
  simp only [start]
  rw [if_neg fun empty => encoding.nonempty (List.append_eq_nil_iff.mp empty).1]
  have reads : Writes (readArgument range ((word ++ rest).length + 1) []
      (word ++ rest)) (some (contents, rest)) [] :=
    readArgument_word range encoding.pieces ends
  exact reads.silent_bind later

theorem splitCmdLine_unmatched {before : Bytes} {c : UInt8}
    (blank : Blank before) (visible : isAsciiWhitespace (charAt i) = false)
    (fails : Writes (readArgument range (i.length + 1) [] i) none
      [unmatched range c]) :
    Writes (splitCmdLine range (fuel + 1) split (before ++ i)) none
      [unmatched range c] := by
  cases i with
  | nil => contradiction
  | cons d rest =>
      have start : (before ++ d :: rest).dropWhile isAsciiWhitespace =
          d :: rest := by
        rw [List.dropWhile_append_of_pos blank]
        exact List.dropWhile_cons_of_neg (by simpa [charAt] using visible)
      rw [splitCmdLine]
      simp only [start]
      exact fails.bind (.pure none)

theorem Blank.wordEnds {run : Bytes} (blank : Blank run) : WordEnds run := by
  cases run with
  | nil => rfl
  | cons c rest => exact blank c List.mem_cons_self

theorem Blank.wordEnds_append {run : Bytes} (blank : Blank run)
    (nonempty : run ≠ []) (rest : Bytes) : WordEnds (run ++ rest) := by
  cases run with
  | nil => exact absurd rfl nonempty
  | cons c more => exact blank c List.mem_cons_self

theorem splitCmdLine_separated {inside : Bytes}
    (separated : Separated inside arguments) {after : Bytes}
    (trailing : Blank after) :
    ∀ {fuel : Nat} {before : Bytes} (split : List Bytes), Blank before →
      (before ++ inside ++ after).length < fuel →
        Writes (splitCmdLine range fuel split (before ++ inside ++ after))
          (some (split ++ arguments)) [] := by
  induction separated with
  | @last word contents encoding =>
      intro fuel before split leading enough
      have nonempty := List.length_pos_iff.mpr encoding.nonempty
      simp only [List.length_append] at enough
      obtain ⟨fuel, rfl⟩ : ∃ n, fuel = n + 1 + 1 := ⟨fuel - 2, by omega⟩
      exact splitCmdLine_word leading encoding trailing.wordEnds
        (splitCmdLine_blank trailing)
  | @cons word contents run more others encoding blank nonempty _ induction =>
      intro fuel before split leading enough
      have some := List.length_pos_iff.mpr encoding.nonempty
      simp only [List.length_append] at enough
      obtain ⟨fuel, rfl⟩ : ∃ n, fuel = n + 1 := ⟨fuel - 1, by omega⟩
      have shorter : (run ++ more ++ after).length < fuel := by
        simp only [List.length_append]
        omega
      have later := induction (split ++ [contents]) blank shorter
      rw [List.append_assoc split, List.singleton_append] at later
      have ends : WordEnds (run ++ more ++ after) := by
        rw [List.append_assoc]
        exact blank.wordEnds_append nonempty _
      have round := splitCmdLine_word leading encoding ends later
      simpa only [List.append_assoc] using round

theorem Separated.visible {inside : Bytes}
    (separated : Separated inside arguments) :
    ∃ c rest, inside = c :: rest ∧ isAsciiWhitespace c = false := by
  cases separated with
  | last encoding => exact encoding.visible
  | cons encoding _ _ _ =>
      obtain ⟨c, rest, rfl, visible⟩ := encoding.visible
      exact ⟨c, _, rfl, visible⟩

theorem CommandLine.last {before word contents after : Bytes}
    (leading : Blank before) (encoding : Encoding word contents)
    (trailing : Blank after) :
    CommandLine (before ++ word ++ after) [contents] :=
  ⟨before, word, after, leading, trailing, rfl, .last encoding⟩

theorem CommandLine.cons {before word contents rest : Bytes}
    (leading : Blank before) (encoding : Encoding word contents)
    (ends : WordEnds rest) (line : CommandLine rest arguments) :
    CommandLine (before ++ word ++ rest) (contents :: arguments) := by
  obtain ⟨run, inside, after, blank, trailing, rfl, separated⟩ := line
  have nonempty : run ≠ [] := by
    rintro rfl
    obtain ⟨c, more, rfl, visible⟩ := separated.visible
    rw [WordEnds, charAt, List.nil_append, List.cons_append, List.headD_cons,
      visible] at ends
    contradiction
  refine ⟨before, word ++ run ++ inside, after, leading, trailing, ?_,
    .cons encoding blank nonempty separated⟩
  simp only [List.append_assoc]

theorem exists_leading (i : Bytes) : ∃ before rest, i = before ++ rest ∧
    Blank before ∧ (rest = [] ∨ isAsciiWhitespace (charAt rest) = false) := by
  refine ⟨i.takeWhile isAsciiWhitespace, i.dropWhile isAsciiWhitespace,
    List.takeWhile_append_dropWhile.symm, fun c member => ?_, ?_⟩
  · exact List.mem_takeWhile_imp member
  · have first := List.head?_dropWhile_not isAsciiWhitespace i
    cases left : i.dropWhile isAsciiWhitespace with
    | nil => exact .inl rfl
    | cons c rest =>
        rw [left] at first
        exact .inr first

/-- A value is blank, or a command line, or it has a quote that is not closed. -/
theorem splitCmdLine_cases (range : TextRange) :
    ∀ (fuel : Nat) (split : List Bytes) (i : Bytes), i.length < fuel →
      Blank i ∨ (∃ arguments, CommandLine i arguments) ∨
      ∃ c, IsQuote c ∧
        Writes (splitCmdLine range fuel split i) none [unmatched range c] := by
  intro fuel
  induction fuel with
  | zero => exact fun _ _ enough => absurd enough (Nat.not_lt_zero _)
  | succ fuel induction =>
      intro split i enough
      obtain ⟨before, i, rfl, leading, empty | visible⟩ := exists_leading i
      · rw [empty, List.append_nil]
        exact .inl leading
      right
      obtain ⟨word, contents, rest, rfl, pieces, ends |
        ⟨c, quoted, quote, unquoted, rfl⟩⟩ := argument_split i
      · have encoding : Encoding word contents := by
          refine ⟨pieces, ?_⟩
          rintro rfl
          rw [WordEnds] at ends
          rw [List.nil_append, ends] at visible
          contradiction
        have shorter : rest.length < fuel := by
          have some := List.length_pos_iff.mpr encoding.nonempty
          simp only [List.length_append] at enough
          omega
        rw [← List.append_assoc]
        obtain blank | ⟨arguments, line⟩ | ⟨c, quote, writes⟩ :=
          induction (split ++ [contents]) rest shorter
        · exact .inl ⟨_, .last leading encoding blank⟩
        · exact .inl ⟨_, line.cons leading encoding ends⟩
        · exact .inr ⟨c, quote,
            splitCmdLine_word leading encoding ends writes⟩
      · exact .inr ⟨c, quote, splitCmdLine_unmatched leading visible
          (readArgument_unclosed range pieces quote unquoted)⟩

theorem splitCmdLine_commandLine {range : TextRange} {value : Bytes}
    (line : CommandLine value arguments) :
    Writes (splitCmdLine range (value.length + 1) [] value) (some arguments)
      [] := by
  obtain ⟨before, inside, after, leading, trailing, rfl, separated⟩ := line
  exact splitCmdLine_separated separated trailing [] leading (Nat.lt_succ_self _)

theorem CommandLine.exists_cons {value : Bytes}
    (line : CommandLine value arguments) :
    ∃ executable others, arguments = executable :: others := by
  obtain ⟨_, _, _, _, _, -, separated⟩ := line
  cases separated with
  | last | cons => exact ⟨_, _, rfl⟩

/-- The messages of a value that is no command line. -/
def cmdLineErrors : List Bytes :=
  [ascii "unmatched \'", ascii "unmatched \"", ascii "empty command line"]

theorem IsQuote.mem_cmdLineErrors {c : UInt8} (quote : IsQuote c) :
    ascii "unmatched " ++ [c] ∈ cmdLineErrors := by
  cases quote with
  | inl single => rw [single]; decide
  | inr double => rw [double]; decide

/-- The line is read, or there is none and one error says so. -/
theorem readCmdLine_cases (tok : StringLiteralToken) :
    (∃ cmd, CommandLine tok.value (cmd.executable :: cmd.arguments) ∧
      Writes (readCmdLine.read (.string (some tok))) (some cmd) []) ∨
    ∃ message ∈ cmdLineErrors, (∀ arguments, ¬ CommandLine tok.value arguments) ∧
      Writes (readCmdLine.read (.string (some tok))) none
        [⟨tok.range, message⟩] := by
  obtain blank | ⟨arguments, line⟩ | ⟨c, quote, writes⟩ :=
    splitCmdLine_cases tok.range _ [] tok.value (Nat.lt_succ_self _)
  · have writes : Writes (splitCmdLine tok.range (tok.value.length + 1) []
        tok.value) (some []) [] := splitCmdLine_blank blank
    refine .inr ⟨ascii "empty command line", by decide, fun arguments line => ?_,
      (Writes.lift rfl).silent_bind (writes.silent_bind
        ((push_writes tok.range _).bind_pure fun _ => none))⟩
    obtain ⟨_, _, rfl⟩ := line.exists_cons
    have same := (writes.unique (splitCmdLine_commandLine line)).1
    exact absurd (Option.some.inj same).symm (List.cons_ne_nil _ _)
  · obtain ⟨executable, others, rfl⟩ := line.exists_cons
    exact .inl ⟨⟨executable, others⟩, line, (Writes.lift rfl).silent_bind
      ((splitCmdLine_commandLine line).silent_bind (.pure _))⟩
  · refine .inr ⟨_, quote.mem_cmdLineErrors, fun arguments line => ?_,
      (Writes.lift rfl).silent_bind (writes.bind (.pure none))⟩
    have same := (writes.unique (splitCmdLine_commandLine line)).1
    contradiction

/-- A value is read exactly if it is a command line, and to its arguments, and
any other value has exactly one error. -/
theorem readCmdLine_grammar (tok : StringLiteralToken) :
    (∀ cmd errors,
      Writes (readCmdLine.read (.string (some tok))) (some cmd) errors ↔
        errors = [] ∧
          CommandLine tok.value (cmd.executable :: cmd.arguments)) ∧
    ((∀ arguments, ¬ CommandLine tok.value arguments) →
      ∃ message ∈ cmdLineErrors,
        Writes (readCmdLine.read (.string (some tok))) none
          [⟨tok.range, message⟩]) := by
  refine ⟨fun cmd errors => ⟨fun writes => ?_, ?_⟩, fun noLine => ?_⟩
  · cases readCmdLine_cases tok with
    | inl reads =>
        obtain ⟨cmd', line, writes'⟩ := reads
        obtain ⟨same, silent⟩ := writes.unique writes'
        rw [Option.some.inj same]
        exact ⟨silent, line⟩
    | inr fails =>
        obtain ⟨_, _, _, writes'⟩ := fails
        exact absurd (writes.unique writes').1 (Option.some_ne_none _)
  · rintro ⟨rfl, line⟩
    exact (Writes.lift rfl).silent_bind
      ((splitCmdLine_commandLine line).silent_bind (.pure _))
  · cases readCmdLine_cases tok with
    | inl reads =>
        obtain ⟨_, line, _⟩ := reads
        exact absurd line (noLine _)
    | inr fails =>
        obtain ⟨message, among, _, writes⟩ := fails
        exact ⟨message, among, writes⟩

end Initd.Reader
