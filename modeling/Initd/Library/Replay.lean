import Initd.Library.Outcome

namespace Initd.Library.Outcome

universe u v w x

/-! What calls do to a world outside of their state, read off their logs. -/

variable {State : Type u} {Event : Type v} {World : Type w} {Item : Type x}

def replay (apply : Event → World → World) (log : List (Event × State))
    (world : World) : World :=
  log.foldl (fun world entry => apply entry.1 world) world

theorem replay_append (apply : Event → World → World)
    (log more : List (Event × State)) (world : World) :
    replay apply (log ++ more) world =
      replay apply more (replay apply log world) :=
  List.foldl_append

/-- The relation of the state to the world outlasts the call, whether it
throws or not. -/
def Carries (apply : Event → World → World) (related : State → World → Prop)
    (start : State) (outcome : Outcome State Event) : Prop :=
  ∀ world, related start world →
    related outcome.state (replay apply outcome.log world)

variable {apply : Event → World → World} {related : State → World → Prop}
  {start : State}

theorem carries_done (state : State) :
    (done state : Outcome State Event).Carries apply related state :=
  fun _ holds => holds

theorem Carries.bind {first : Outcome State Event}
    {next : State → Outcome State Event}
    (left : first.Carries apply related start)
    (right : (next first.state).Carries apply related first.state) :
    (first.bind next).Carries apply related start := by
  unfold Outcome.bind
  split
  · exact left
  · intro world holds
    rw [replay_append]
    exact right _ (left world holds)

theorem forEach_carries {body : Item → State → Outcome State Event}
    (each : ∀ item state, (body item state).Carries apply related state)
    (items : List Item) (state : State) :
    (forEach body items state).Carries apply related state := by
  induction items generalizing state with
  | nil => exact carries_done state
  | cons item rest induction => exact (each item state).bind (induction _)

end Initd.Library.Outcome
