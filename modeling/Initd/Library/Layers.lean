import Mathlib.Data.List.Basic
import Mathlib.Logic.Function.Basic

namespace Initd.Library

universe u v

/-! A value that owners replace for a while, each putting back what it found. -/

variable {Owner : Type u} {Value : Type v}

/-- What is in place over `base`, the last of the layers first. -/
def top (base : Value) : List (Owner × Value) → Value
  | [] => base
  | (_, value) :: _ => value

/-- Each owner of a layer has saved what is in place below it. -/
structure Layered (base : Value) (layers : List (Owner × Value))
    (current : Value) (saved : Owner → Option Value) : Prop where
  inPlace : current = top base layers
  found : ∀ owner value below, (owner, value) :: below <:+ layers →
    saved owner = some (top base below)
  others : ∀ owner, owner ∉ layers.map Prod.fst → saved owner = none
  once : (layers.map Prod.fst).Nodup

namespace Layered

variable {base current : Value} {layers : List (Owner × Value)}
  {saved : Owner → Option Value} {owner : Owner}

theorem nil (base : Value) :
    Layered base [] base (fun _ : Owner => none) where
  inPlace := rfl
  found _ _ _ suffix := nomatch List.suffix_nil.mp suffix
  others _ _ := rfl
  once := List.nodup_nil

/-- Exactly the owners of layers have saved something. -/
theorem isSome_iff (layered : Layered base layers current saved) :
    (saved owner).isSome = true ↔ owner ∈ layers.map Prod.fst := by
  constructor
  · intro present
    by_contra absent
    rw [layered.others owner absent] at present
    contradiction
  · intro member
    obtain ⟨⟨owner, value⟩, inside, rfl⟩ := List.mem_map.mp member
    obtain ⟨before, below, rfl⟩ := List.append_of_mem inside
    rw [layered.found owner value below (List.suffix_append _ _)]
    rfl

variable [DecidableEq Owner]

theorem push (layered : Layered base layers current saved)
    (fresh : owner ∉ layers.map Prod.fst) (value : Value) :
    Layered base ((owner, value) :: layers) value
      (Function.update saved owner (some current)) where
  inPlace := rfl
  found other value' below suffix := by
    rcases List.suffix_cons_iff.mp suffix with whole | inside
    · obtain ⟨here, rfl⟩ := List.cons.inj whole
      obtain ⟨rfl, rfl⟩ := Prod.mk.inj here
      rw [Function.update_self, layered.inPlace]
    · have different : other ≠ owner := by
        rintro rfl
        exact fresh (List.mem_map.mpr
          ⟨_, inside.subset List.mem_cons_self, rfl⟩)
      rw [Function.update_of_ne different]
      exact layered.found other value' below inside
  others other absent := by
    obtain ⟨different, outside⟩ := not_or.mp (List.mem_cons.not.mp absent)
    rw [Function.update_of_ne different]
    exact layered.others other outside
  once := List.nodup_cons.mpr ⟨fresh, layered.once⟩

/-- The owner of the last layer puts back what is below it. -/
theorem pop {value : Value}
    (layered : Layered base ((owner, value) :: layers) current saved) :
    saved owner = some (top base layers) ∧
      Layered base layers (top base layers)
        (Function.update saved owner none) := by
  obtain ⟨fresh, once⟩ := List.nodup_cons.mp layered.once
  refine ⟨layered.found owner value layers (List.suffix_refl _), rfl,
    fun other value' below suffix => ?_, fun other absent => ?_, once⟩
  · have different : other ≠ owner := by
      rintro rfl
      exact fresh (List.mem_map.mpr
        ⟨_, suffix.subset List.mem_cons_self, rfl⟩)
    rw [Function.update_of_ne different]
    exact layered.found other value' below
      (suffix.trans (List.suffix_cons _ _))
  · by_cases same : other = owner
    · rw [same, Function.update_self]
    · rw [Function.update_of_ne same]
      exact layered.others other
        (List.mem_cons.not.mpr (not_or.mpr ⟨same, absent⟩))

end Layered

/-- A layer that no other is above is the last of those that each are above
all before them. -/
theorem eq_cons_of_last {Item : Type u} {above : Item → Item → Prop}
    {items : List Item} (nested : items.Pairwise above) {item : Item}
    (member : item ∈ items)
    (last : ∀ other ∈ items, other ≠ item → ¬ above other item) :
    ∃ below, items = item :: below := by
  cases nested with
  | nil => contradiction
  | @cons head below aboveAll _ =>
      cases List.mem_cons.mp member with
      | inl same => exact ⟨below, by rw [same]⟩
      | inr inside =>
          by_cases same : head = item
          · exact ⟨below, by rw [same]⟩
          · exact absurd (aboveAll item inside)
              (last head List.mem_cons_self same)

end Initd.Library
