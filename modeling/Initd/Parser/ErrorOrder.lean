import Initd.Lexer.Tiling
import Initd.Library.Reporter
import Initd.Parser.Declarations

namespace Initd

open Library

/-! The places of the parser's errors. -/

theorem lt_errorPlace {text : Bytes} {pos : Nat} {c : UInt8}
    (here : text[pos]? = some c) (visible : isAsciiWhitespace c = false) :
    ∀ {place}, pos < place → pos < errorPlace text place
  | 0, later => later
  | place + 1, later => by
      rw [errorPlace]
      split
      · next blank =>
          rcases Nat.lt_succ_iff_lt_or_eq.mp later with later | rfl
          · exact lt_errorPlace here visible later
          · rw [here, Option.any_some, visible] at blank
            contradiction
      · exact later

/-- The places where the parser can report an error: before each token and at
the end. -/
def errorPlaces (text : Bytes) (tokens : List Token) : List Nat :=
  (tokens.map fun token => errorPlace text token.range.start) ++
    [errorPlace text text.length]

theorem length_errorPlaces (text : Bytes) (tokens : List Token) :
    (errorPlaces text tokens).length = tokens.length + 1 := by
  simp [errorPlaces]

theorem errorPlaces_increase {text : Bytes} {tokens : List Token}
    (visible : ∀ token ∈ tokens, ∃ c,
      text[token.range.start]? = some c ∧ isAsciiWhitespace c = false)
    (increase : tokens.Pairwise fun token later =>
      token.range.start < later.range.start) :
    (errorPlaces text tokens).Pairwise (· < ·) := by
  have before : ∀ token ∈ tokens, ∀ place, token.range.start < place →
      errorPlace text token.range.start < errorPlace text place := by
    intro token member place later
    obtain ⟨c, here, visible⟩ := visible token member
    exact Nat.lt_of_le_of_lt (ParserContext.errorPlace_le text _)
      (lt_errorPlace here visible later)
  refine List.pairwise_append.mpr ⟨?_, List.pairwise_singleton _ _, ?_⟩
  · rw [List.pairwise_map]
    exact increase.imp_of_mem fun member _ later => before _ member _ later
  · intro place member last isLast
    obtain ⟨token, inside, rfl⟩ := List.mem_map.mp member
    obtain ⟨c, here, -⟩ := visible token inside
    rw [List.mem_singleton.mp isLast]
    exact before token inside _ (List.getElem?_eq_some_iff.mp here).1

namespace ParserContext

variable {text : Bytes} {tokens : List Token}

def reporter (text : Bytes) (context : ParserContext) : Reporter Nat where
  ahead := errorPlaces text context.tokens
  last := context.lastErrorPlace
  reports := context.errors.map fun error => error.range.start

theorem errorPlaces_eq (text : Bytes) (context : ParserContext) :
    ∃ later, errorPlaces text context.tokens =
      errorPlace text (context.peekPlace text) :: later := by
  obtain ⟨tokens, _, _⟩ := context
  cases tokens with
  | nil => exact ⟨[], rfl⟩
  | cons token rest => exact ⟨errorPlaces text rest, rfl⟩

def system (text : Bytes) (tokens : List Token) : StepSystem ParserContext where
  init context := context = ⟨tokens, none, []⟩
  step := Step text

theorem Moves.reachable {final : ParserContext}
    (moves : Moves text ⟨tokens, none, []⟩ final) :
    (system text tokens).Reachable final := by
  induction moves with
  | refl => exact .init rfl
  | tail _ step induction => exact .step induction step

/-- The parser reports like one who walks along the places of its tokens. -/
theorem Step.reporter {before after : ParserContext}
    (step : Step text before after) :
    after.reporter text = before.reporter text ∨
      Reporter.Step (before.reporter text) (after.reporter text) := by
  cases step with
  | @read token rest next =>
      refine .inr ?_
      simp only [ParserContext.reporter, next]
      exact .walk _ _ _ _
  | error message =>
      obtain ⟨later, places⟩ := errorPlaces_eq text before
      unfold pushError
      by_cases other : before.lastErrorPlace =
          some (errorPlace text (before.peekPlace text))
      · rw [if_neg (not_not_intro other)]
        exact .inl rfl
      · rw [if_pos other]
        refine .inr ?_
        simp only [ParserContext.reporter, places, List.map_append]
        exact .report _ _ other

theorem Moves.errors_sublist {final : ParserContext}
    (moves : Moves text ⟨tokens, none, []⟩ final) :
    (final.errors.map fun error => error.range.start).Sublist
      (errorPlaces text tokens) := by
  have reached : (Reporter.system (errorPlaces text tokens)).Reachable
      (final.reporter text) := by
    refine moves.reachable.map (ParserContext.reporter text) ?_ ?_
    · rintro _ rfl
      exact .init rfl
    · exact fun _ _ _ step => Step.reporter step
  exact Reporter.reports_sublist reached

end ParserContext

namespace Parser

open Lexer ParserContext

/-- The errors of the parser stand in the order of the text, no two at one
place, and there is at most one for each token and one for the end. -/
theorem parseFile_errors_increase {text : Bytes} {tokens : List Token}
    {lexer : Lexer} (read : Lexer.readAll text = .ok (tokens, lexer)) :
    ∃ tree errors, parseFile text tokens = .ok (tree, errors) ∧
      (errors.Pairwise fun error later => error.range.start < later.range.start) ∧
      errors.length ≤ tokens.length + 1 := by
  obtain ⟨segments, rfl, tiles, segmentsOf, -⟩ := readAll_segments read
  obtain ⟨tree, final, ran, moves, -⟩ :=
    parseFile_placed text (segments.filterMap Segment.token?)
  have sublist := moves.errors_sublist
  have increase := errorPlaces_increase (tokens_visible segmentsOf)
    ((tokens_follow tiles).imp And.left)
  refine ⟨tree, final.errors, ran,
    List.pairwise_map.mp (increase.sublist sublist), ?_⟩
  rw [← length_errorPlaces text, ← List.length_map fun error : ErrorTag =>
    error.range.start]
  exact sublist.length_le

/-- The place of the second error is in the string that does not end. -/
theorem parseFile_errors_increase_string :
    ∃ tokens lexer, Lexer.readAll (ascii "task = \"a  ") = .ok (tokens, lexer) ∧
      (parseFile (ascii "task = \"a  ") tokens).map (fun parsed =>
        parsed.2.map fun error => error.range.start) = .ok [4, 9] ∧
      ∃ tree errors, parseFile (ascii "task = \"a  ") tokens = .ok (tree, errors) ∧
        (errors.Pairwise fun error later =>
          error.range.start < later.range.start) ∧
        errors.length ≤ tokens.length + 1 := by
  have read : Lexer.readAll (ascii "task = \"a  ") =
      .ok ([⟨⟨0, 4⟩, .simple .taskKeyword rfl⟩, ⟨⟨5, 6⟩, .simple .equals rfl⟩,
          ⟨⟨7, 11⟩, .stringLiteral (ascii "a  ")⟩],
        ⟨11, [], [⟨⟨7, 11⟩, ascii "unterminated string"⟩]⟩) := by
    decide
  exact ⟨_, _, read, by decide, parseFile_errors_increase read⟩

end Parser

end Initd
