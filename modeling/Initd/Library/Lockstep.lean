import Mathlib.Init

namespace Initd.Library

universe u

variable {State Other Fault : Type u}

/-- From related states two programs return the same value and end in related
states, or they fail alike. -/
def Lockstep {Value : Type u} (related : State → Other → Prop)
    (program : StateT State (Except Fault) Value)
    (other : StateT Other (Except Fault) Value) : Prop :=
  ∀ state state', related state state' →
    (∃ value final final', program state = .ok (value, final) ∧
      other state' = .ok (value, final') ∧ related final final') ∨
    ∃ fault, program state = .error fault ∧ other state' = .error fault

namespace Lockstep

variable {Value Result : Type u} {related : State → Other → Prop}
  {program : StateT State (Except Fault) Value}
  {other : StateT Other (Except Fault) Value}
  {next : Value → StateT State (Except Fault) Result}
  {next' : Value → StateT Other (Except Fault) Result}

theorem pure (value : Value) :
    Lockstep related (Pure.pure value : StateT State (Except Fault) Value)
      (Pure.pure value : StateT Other (Except Fault) Value) :=
  fun state state' same => .inl ⟨value, state, state', rfl, rfl, same⟩

theorem throw (fault : Fault) :
    Lockstep related
      (MonadExcept.throw fault : StateT State (Except Fault) Value)
      (MonadExcept.throw fault : StateT Other (Except Fault) Value) :=
  fun _ _ _ => .inr ⟨fault, rfl, rfl⟩

theorem lift (action : Except Fault Value) :
    Lockstep related (liftM action : StateT State (Except Fault) Value)
      (liftM action : StateT Other (Except Fault) Value) := by
  cases action with
  | ok value => exact pure value
  | error fault => exact fun _ _ _ => .inr ⟨fault, rfl, rfl⟩

theorem bind (first : Lockstep related program other)
    (later : ∀ value, Lockstep related (next value) (next' value)) :
    Lockstep related (program >>= next) (other >>= next') := by
  intro state state' same
  have split : ∀ {State : Type u} (program : StateT State (Except Fault) Value)
      (next : Value → StateT State (Except Fault) Result) (state : State),
      (program >>= next) state =
        (program state >>= fun entry => next entry.1 entry.2) :=
    fun _ _ _ => rfl
  rw [split, split]
  obtain ⟨value, final, final', ran, ran', ends⟩ | ⟨fault, ran, ran'⟩ :=
    first state state' same
  · rw [ran, ran']
    exact later value final final' ends
  · rw [ran, ran']
    exact .inr ⟨fault, rfl, rfl⟩

/-- A program that looks at its state, as far as the other state is alike. -/
theorem get_bind {next : State → StateT State (Except Fault) Value}
    {next' : Other → StateT Other (Except Fault) Value}
    (later : ∀ state state', related state state' →
      Lockstep related (next state) (next' state')) :
    Lockstep related (get >>= next) (get >>= next') :=
  fun state state' same => later state state' same state state' same

theorem modify {update : State → State} {update' : Other → Other}
    (kept : ∀ state state', related state state' →
      related (update state) (update' state')) :
    Lockstep related
      (MonadState.modifyGet fun state => (PUnit.unit, update state) :
        StateT State (Except Fault) PUnit)
      (MonadState.modifyGet fun state => (PUnit.unit, update' state)) :=
  fun state state' same =>
    .inl ⟨⟨⟩, update state, update' state', rfl, rfl, kept state state' same⟩

theorem ite {condition : Prop} [Decidable condition]
    {program₂ : StateT State (Except Fault) Value}
    {other₂ : StateT Other (Except Fault) Value}
    (yes : Lockstep related program other)
    (no : Lockstep related program₂ other₂) :
    Lockstep related (if condition then program else program₂)
      (if condition then other else other₂) := by
  split
  · exact yes
  · exact no

end Lockstep

end Initd.Library
