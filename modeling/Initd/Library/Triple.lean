import Mathlib.Init

namespace Initd.Library

universe u

variable {State Fault : Type u}

/-- Total correctness of a program that has a state and may fail: from this
state it ends without a failure, and with what the post-condition says. -/
def Ensures {Value : Type u} (program : StateT State (Except Fault) Value)
    (state : State) (post : Value → State → Prop) : Prop :=
  ∃ value final, program state = .ok (value, final) ∧ post value final

namespace Ensures

variable {Value Result : Type u} {state : State}
  {program : StateT State (Except Fault) Value}
  {post weaker : Value → State → Prop}

theorem mono (ensures : Ensures program state post)
    (weaken : ∀ value final, post value final → weaker value final) :
    Ensures program state weaker := by
  obtain ⟨value, final, ran, holds⟩ := ensures
  exact ⟨value, final, ran, weaken value final holds⟩

theorem pure {value : Value} (holds : post value state) :
    Ensures (Pure.pure value : StateT State (Except Fault) Value) state post :=
  ⟨value, state, rfl, holds⟩

theorem run_bind {next : Value → StateT State (Except Fault) Result}
    {value : Value} {final : State} (ran : program state = .ok (value, final)) :
    (program >>= next) state = next value final :=
  calc (program >>= next) state
      = (program state >>= fun entry => next entry.1 entry.2) := rfl
    _ = next value final := by rw [ran]; rfl

theorem bind {next : Value → StateT State (Except Fault) Result}
    {middle : Value → State → Prop} {last : Result → State → Prop}
    (first : Ensures program state middle)
    (later : ∀ value final, middle value final →
      Ensures (next value) final last) :
    Ensures (program >>= next) state last := by
  obtain ⟨value, final, ran, holds⟩ := first
  obtain ⟨result, finish, followed, ends⟩ := later value final holds
  exact ⟨result, finish, (run_bind ran).trans followed, ends⟩

/-- A first part whose end is known. -/
theorem bind_eq {next : Value → StateT State (Except Fault) Result}
    {value : Value} {middle : State} {last : Result → State → Prop}
    (first : Ensures program state fun value' final =>
      value' = value ∧ final = middle)
    (later : Ensures (next value) middle last) :
    Ensures (program >>= next) state last := by
  refine first.bind fun value' final ends => ?_
  obtain ⟨rfl, rfl⟩ := ends
  exact later

theorem map {convert : Value → Result} {last : Result → State → Prop}
    (ensures : Ensures program state fun value final =>
      last (convert value) final) :
    Ensures (convert <$> program) state last := by
  obtain ⟨value, final, ran, holds⟩ := ensures
  refine ⟨convert value, final, ?_, holds⟩
  calc (convert <$> program) state
      = (program state >>= fun entry => .ok (convert entry.1, entry.2)) := rfl
    _ = .ok (convert value, final) := by rw [ran]; rfl

theorem get :
    Ensures (MonadState.get : StateT State (Except Fault) State) state
      fun value final => value = state ∧ final = state :=
  ⟨state, state, rfl, rfl, rfl⟩

theorem lift {action : Except Fault Value} {value : Value}
    (returned : action = .ok value) :
    Ensures (liftM action : StateT State (Except Fault) Value) state
      fun value' final => value' = value ∧ final = state := by
  rw [returned]
  exact ⟨value, state, rfl, rfl, rfl⟩

theorem modify {update : State → State} {last : PUnit → State → Prop}
    (holds : last ⟨⟩ (update state)) :
    Ensures (modify update : StateT State (Except Fault) PUnit) state last :=
  ⟨⟨⟩, update state, rfl, holds⟩

/-- A program has one end only. -/
theorem and {other : Value → State → Prop}
    (left : Ensures program state post) (right : Ensures program state other) :
    Ensures program state fun value final =>
      post value final ∧ other value final := by
  obtain ⟨value, final, ran, holds⟩ := left
  obtain ⟨value', final', ran', holds'⟩ := right
  obtain ⟨rfl, rfl⟩ : value' = value ∧ final' = final := by
    simpa using ran'.symm.trans ran
  exact ⟨value', final', ran', holds, holds'⟩

end Ensures

end Initd.Library
