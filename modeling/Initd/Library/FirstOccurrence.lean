import Mathlib.Data.List.Infix

namespace Initd.Library

universe u

namespace FirstOccurrence

variable {Symbol : Type u}

/-! The first occurrence of a marker in a text that is scanned from the left. -/

/-- Before the marker of a body without one, no suffix of the body can begin
it, as its first symbol does not come again in it. -/
theorem not_prefix_of_body {first : Symbol} {later body rest : List Symbol}
    (fresh : first ∉ later) (nonempty : body ≠ [])
    (inside : ¬ first :: later <:+: body) :
    ¬ first :: later <+: body ++ (first :: later ++ rest) := by
  rintro ⟨more, equal⟩
  cases List.append_eq_append_iff.mp equal with
  | inl within =>
      obtain ⟨suffix, rfl, -⟩ := within
      exact inside (List.prefix_append _ _).isInfix
  | inr across =>
      obtain ⟨overlap, marker, begins⟩ := across
      cases body with
      | nil => exact nonempty rfl
      | cons symbol body =>
          obtain ⟨rfl, tail⟩ := List.cons.inj marker
          cases overlap with
          | nil =>
              apply inside
              rw [marker, List.append_nil]
          | cons other overlap =>
              obtain ⟨rfl, -⟩ := List.cons.inj begins
              apply fresh
              rw [tail]
              exact List.mem_append_right _ List.mem_cons_self

theorem exists_first {marker : List Symbol} (nonempty : marker ≠ [])
    {text : List Symbol} (occurs : marker <:+: text) :
    ∃ body rest, text = body ++ (marker ++ rest) ∧ ¬ marker <:+: body := by
  induction text with
  | nil => exact absurd (List.infix_nil.mp occurs) nonempty
  | cons symbol text induction =>
      by_cases here : marker <+: symbol :: text
      · obtain ⟨rest, equal⟩ := here
        refine ⟨[], rest, equal.symm, fun empty => ?_⟩
        exact nonempty (List.infix_nil.mp empty)
      · have later := (List.infix_cons_iff.mp occurs).resolve_left here
        obtain ⟨body, rest, rfl, inside⟩ := induction later
        refine ⟨symbol :: body, rest, rfl, fun again => ?_⟩
        cases List.infix_cons_iff.mp again with
        | inl early => exact here (early.trans ⟨_, rfl⟩)
        | inr deep => exact inside deep

end FirstOccurrence

end Initd.Library
