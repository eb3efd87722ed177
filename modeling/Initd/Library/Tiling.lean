import Mathlib.Data.List.Basic

namespace Initd.Library

universe u

/-! Pieces of a line, each of which begins where the one before it ends. -/

variable {Piece : Type u}

inductive Tiles (start finish : Piece → Nat) : Nat → List Piece → Nat → Prop
  | nil (low : Nat) : Tiles start finish low [] low
  | cons {low high : Nat} {piece : Piece} {more : List Piece}
      (begins : start piece = low) (nonempty : low < finish piece)
      (follows : Tiles start finish (finish piece) more high) :
      Tiles start finish low (piece :: more) high

namespace Tiles

variable {start finish : Piece → Nat} {low high pos : Nat}
  {pieces : List Piece}

theorem le (tiles : Tiles start finish low pieces high) : low ≤ high := by
  induction tiles with
  | nil => exact Nat.le_refl _
  | cons _ nonempty _ induction =>
      exact Nat.le_trans (Nat.le_of_lt nonempty) induction

theorem inside (tiles : Tiles start finish low pieces high) :
    ∀ piece ∈ pieces,
      low ≤ start piece ∧ start piece < finish piece ∧ finish piece ≤ high := by
  induction tiles with
  | nil => exact List.forall_mem_nil _
  | cons begins nonempty follows induction =>
      refine List.forall_mem_cons.mpr ⟨⟨Nat.le_of_eq begins.symm,
        by rwa [begins], follows.le⟩, fun piece member => ?_⟩
      obtain ⟨later, positive, bounded⟩ := induction piece member
      exact ⟨Nat.le_trans (Nat.le_of_lt nonempty) later, positive, bounded⟩

theorem ordered (tiles : Tiles start finish low pieces high) :
    pieces.Pairwise fun piece later => finish piece ≤ start later := by
  induction tiles with
  | nil => exact .nil
  | cons _ _ follows induction =>
      exact .cons (fun later member => (follows.inside later member).1) induction

/-- Nothing between the two ends is left out. -/
theorem covers (tiles : Tiles start finish low pieces high)
    (from_low : low ≤ pos) (below_high : pos < high) :
    ∃ piece ∈ pieces, start piece ≤ pos ∧ pos < finish piece := by
  induction tiles with
  | nil => exact absurd from_low (Nat.not_le_of_lt below_high)
  | @cons _ _ piece _ begins _ _ induction =>
      by_cases here : pos < finish piece
      · exact ⟨piece, List.mem_cons_self, begins ▸ from_low, here⟩
      · obtain ⟨later, member, covered⟩ :=
          induction (Nat.le_of_not_lt here) below_high
        exact ⟨later, List.mem_cons_of_mem _ member, covered⟩

/-- Nothing between the two ends is in two pieces. -/
theorem eq_of_covers (tiles : Tiles start finish low pieces high)
    {left right : Piece} (left_mem : left ∈ pieces) (right_mem : right ∈ pieces)
    (in_left : start left ≤ pos ∧ pos < finish left)
    (in_right : start right ≤ pos ∧ pos < finish right) : left = right := by
  induction tiles with
  | nil => contradiction
  | @cons _ _ piece more _ _ follows induction =>
      have apart : ∀ later ∈ more, ¬ (pos < finish piece ∧ start later ≤ pos) :=
        fun later member both => absurd (follows.inside later member).1
          (Nat.not_le_of_lt (Nat.lt_of_le_of_lt both.2 both.1))
      rcases List.mem_cons.mp left_mem with rfl | left_later <;>
        rcases List.mem_cons.mp right_mem with rfl | right_later
      · rfl
      · exact absurd ⟨in_left.2, in_right.1⟩ (apart right right_later)
      · exact absurd ⟨in_right.2, in_left.1⟩ (apart left left_later)
      · exact induction left_later right_later

end Tiles

end Initd.Library
