import Mathlib.Logic.Equiv.Basic

namespace Initd.Library.Registry

universe u v w

variable {Address : Type u} {Key : Type v} {Value : Type w}

/-! Objects that hold a key with a value, and a table that says who holds
which. -/

/-- The table names the holder of each key. -/
def Names (holds : Address → Option (Key × Value))
    (table : Key → Option (Address × Value)) : Prop :=
  ∀ key address value,
    table key = some (address, value) ↔ holds address = some (key, value)

variable {holds : Address → Option (Key × Value)}
  {table : Key → Option (Address × Value)} {first second address : Address}
  {key : Key} {value : Value}

theorem names_empty :
    Names (fun _ : Address => (none : Option (Key × Value))) fun _ => none :=
  fun _ _ _ => by simp

/-- No two objects hold the same key. -/
theorem Names.unique (names : Names holds table) {other : Value}
    (left : holds first = some (key, value))
    (right : holds second = some (key, other)) : first = second := by
  have entry := (names key first value).mpr left
  rw [(names key second other).mpr right] at entry
  exact (Prod.mk.inj (Option.some.inj entry)).1.symm

theorem Names.none_iff (names : Names holds table) :
    table key = none ↔ ∀ address value, holds address ≠ some (key, value) := by
  constructor
  · intro free address value held
    rw [(names key address value).mpr held] at free
    contradiction
  · intro free
    cases entry : table key with
    | none => rfl
    | some entry' =>
        exact absurd ((names key entry'.1 entry'.2).mp entry) (free _ _)

section Updates

variable [DecidableEq Key]

/-- The table with an entry of a held key for this address. -/
def point (held : Option (Key × Value)) (address : Address)
    (table : Key → Option (Address × Value)) : Key → Option (Address × Value) :=
  match held with
  | none => table
  | some (key, value) => Function.update table key (some (address, value))

theorem point_here :
    point (some (key, value)) address table key = some (address, value) :=
  Function.update_self _ _ _

theorem point_other {held : Option (Key × Value)}
    (other : ∀ value, held ≠ some (key, value)) :
    point held address table key = table key := by
  cases held with
  | none => rfl
  | some pair =>
      refine Function.update_of_ne ?_ _ _
      rintro rfl
      exact other pair.2 rfl

theorem point_ne_none {held : Option (Key × Value)} (entry : table key ≠ none) :
    point held address table key ≠ none := by
  by_cases here : ∃ value, held = some (key, value)
  · obtain ⟨value, rfl⟩ := here
    rw [point_here]
    exact Option.some_ne_none _
  · rw [point_other fun value same => here ⟨value, same⟩]
    exact entry

variable [DecidableEq Address]

theorem Names.insert (names : Names holds table) (idle : holds address = none)
    (free : table key = none) :
    Names (Function.update holds address (some (key, value)))
      (Function.update table key (some (address, value))) := by
  intro otherKey otherAddress otherValue
  by_cases sameAddress : otherAddress = address
  · rw [sameAddress, Function.update_self]
    by_cases sameKey : otherKey = key
    · rw [sameKey, Function.update_self]
      simp
    · rw [Function.update_of_ne sameKey, names, idle]
      simp [Ne.symm sameKey]
  · rw [Function.update_of_ne sameAddress]
    by_cases sameKey : otherKey = key
    · rw [sameKey, Function.update_self, ← names, free]
      simp [Ne.symm sameAddress]
    · rw [Function.update_of_ne sameKey]
      exact names otherKey otherAddress otherValue

theorem Names.erase (names : Names holds table)
    (held : holds address = some (key, value)) :
    Names (Function.update holds address none)
      (Function.update table key none) := by
  intro otherKey otherAddress otherValue
  by_cases sameAddress : otherAddress = address
  · rw [sameAddress, Function.update_self]
    by_cases sameKey : otherKey = key
    · rw [sameKey, Function.update_self]
      simp
    · rw [Function.update_of_ne sameKey, names, held]
      simp [Ne.symm sameKey]
  · rw [Function.update_of_ne sameAddress]
    by_cases sameKey : otherKey = key
    · rw [sameKey, Function.update_self]
      refine iff_of_false (by simp) fun alike => sameAddress ?_
      exact names.unique alike held
    · rw [Function.update_of_ne sameKey]
      exact names otherKey otherAddress otherValue

/-- The entries of two objects that exchange what they hold go to the other
one. -/
theorem Names.point_exchange (names : Names holds table)
    (first second : Address) (key : Key) :
    point (holds first) second (point (holds second) first table) key =
      (table key).map fun entry =>
        (Equiv.swap first second entry.1, entry.2) := by
  have others : ∀ {holder other : Address} {value : Value},
      holds holder = some (key, value) → other ≠ holder →
        ∀ value', holds other ≠ some (key, value') :=
    fun held differs value' alike => differs (names.unique alike held)
  cases entry : table key with
  | none =>
      have free := names.none_iff.mp entry
      rw [point_other (free first), point_other (free second), entry]
      rfl
  | some pair =>
      obtain ⟨holder, value⟩ := pair
      have held := (names key holder value).mp entry
      rw [Option.map_some]
      by_cases isFirst : holder = first
      · subst isFirst
        rw [held, point_here, Equiv.swap_apply_left]
      · rw [point_other (others held (Ne.symm isFirst))]
        by_cases isSecond : holder = second
        · subst isSecond
          rw [held, point_here, Equiv.swap_apply_right]
        · rw [point_other (others held (Ne.symm isSecond)), entry,
            Equiv.swap_apply_of_ne_of_ne isFirst isSecond]

theorem Names.exchange (names : Names holds table) (first second : Address) :
    Names (holds ∘ Equiv.swap first second)
      (point (holds first) second (point (holds second) first table)) := by
  intro key address value
  rw [names.point_exchange, Function.comp_apply, ← names]
  cases table key with
  | none => simp
  | some entry =>
      obtain ⟨holder, held⟩ := entry
      simp [Equiv.swap_apply_eq_iff]

end Updates

end Initd.Library.Registry
