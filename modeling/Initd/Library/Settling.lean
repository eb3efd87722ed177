import Mathlib.Data.List.Count
import Mathlib.Order.WellFounded

namespace Initd.Library

universe u v

/-! Runs of labelled steps some of which use up a measure. -/

section Settling

variable {State : Type u} {Label : Type v}

/-- The labels of a run, from the state it starts in to the one it ends in. -/
inductive Run (step : Label → State → State → Prop) :
    State → List Label → State → Prop
  | nil (state : State) : Run step state [] state
  | cons {label : Label} {labels : List Label} {before middle after : State}
      (moved : step label before middle) (later : Run step middle labels after) :
      Run step before (label :: labels) after

/-- No counted step can be made. -/
def Exhausted (step : Label → State → State → Prop) (counted : Label → Bool)
    (state : State) : Prop :=
  ∀ label after, counted label = true → ¬ step label state after

/-- Every step keeps the invariant and does not raise the measure, and a
counted one lowers it. -/
structure Measured (step : Label → State → State → Prop)
    (counted : Label → Bool) (Invariant : State → Prop)
    (measure : State → Nat) : Prop where
  kept : ∀ {label before after}, step label before after →
    Invariant before → Invariant after
  lowered : ∀ {label before after}, step label before after →
    Invariant before →
      measure after + (if counted label then 1 else 0) ≤ measure before

variable {step : Label → State → State → Prop} {counted : Label → Bool}
  {Invariant : State → Prop} {measure : State → Nat} {before after : State}

theorem Run.single {label : Label} (moved : step label before after) :
    Run step before [label] after :=
  .cons moved (.nil after)

theorem Run.append {first second : List Label} {middle : State}
    (left : Run step before first middle)
    (right : Run step middle second after) :
    Run step before (first ++ second) after := by
  induction left with
  | nil => exact right
  | cons moved _ induction => exact .cons moved (induction right)

theorem Run.invariant {labels : List Label}
    (kept : ∀ {label before after}, step label before after →
      Invariant before → Invariant after)
    (ran : Run step before labels after) (start : Invariant before) :
    Invariant after := by
  induction ran with
  | nil => exact start
  | cons moved _ induction => exact induction (kept moved start)

theorem Measured.run_invariant (measured : Measured step counted Invariant measure)
    {labels : List Label} (ran : Run step before labels after)
    (start : Invariant before) : Invariant after :=
  ran.invariant measured.kept start

/-- A run has no more counted steps than the measure it starts with. -/
theorem Measured.count_le (measured : Measured step counted Invariant measure)
    {labels : List Label} (ran : Run step before labels after)
    (start : Invariant before) :
    measure after + labels.countP counted ≤ measure before := by
  induction ran with
  | nil => simp
  | cons moved _ induction =>
      have here := measured.lowered moved start
      have later := induction (measured.kept moved start)
      rw [List.countP_cons]
      omega

/-- Counted steps lead to an exhausted state from wherever the invariant holds. -/
theorem Measured.exists_exhausted (measured : Measured step counted Invariant measure)
    (start : Invariant before) :
    ∃ labels after, Run step before labels after ∧
      (∀ label ∈ labels, counted label = true) ∧ Exhausted step counted after := by
  induction size : measure before using Nat.strongRecOn generalizing before with
  | ind size induction =>
      by_cases exhausted : Exhausted step counted before
      · exact ⟨[], before, .nil before, List.forall_mem_nil _, exhausted⟩
      · simp only [Exhausted, not_forall, not_not] at exhausted
        obtain ⟨label, middle, isCounted, moved⟩ := exhausted
        have less := measured.lowered moved start
        rw [if_pos isCounted] at less
        obtain ⟨labels, after, ran, all, exhausts⟩ :=
          induction (measure middle) (by omega) (measured.kept moved start) rfl
        exact ⟨label :: labels, after, .cons moved ran,
          List.forall_mem_cons.mpr ⟨isCounted, all⟩, exhausts⟩

end Settling

end Initd.Library
