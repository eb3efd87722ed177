import Mathlib.Data.List.Induction
import Mathlib.Logic.Relation

namespace Initd.Library

universe u v

/-- A transition system: where it may start and how it may move. -/
structure StepSystem (State : Type u) where
  init : State → Prop
  step : State → State → Prop

namespace StepSystem

variable {State : Type u} {Other : Type v}

inductive Reachable (system : StepSystem State) : State → Prop
  | init {state : State} (start : system.init state) : Reachable system state
  | step {before after : State} (reached : Reachable system before)
      (moved : system.step before after) : Reachable system after

/-- A property that every start has and every step keeps holds wherever the
system can get.  The step may use that its source was itself reachable. -/
theorem Reachable.invariant {system : StepSystem State}
    (Invariant : State → Prop)
    (start : ∀ state, system.init state → Invariant state)
    (kept : ∀ before after, system.Reachable before → Invariant before →
      system.step before after → Invariant after)
    {state : State} (reached : system.Reachable state) : Invariant state := by
  induction reached with
  | init initial => exact start _ initial
  | step earlier moved induction => exact kept _ _ earlier induction moved

/-- The state after a list of inputs, if each can be taken in its turn. -/
def run {Input : Type v} (next : Input → State → Option State)
    (inputs : List Input) (state : State) : Option State :=
  inputs.foldlM (fun state input => next input state) state

theorem run_append {Input : Type v} (next : Input → State → Option State)
    (inputs more : List Input) (state : State) :
    run next (inputs ++ more) state =
      (run next inputs state).bind (run next more) :=
  List.foldlM_append

theorem run_concat {Input : Type v} (next : Input → State → Option State)
    (inputs : List Input) (input : Input) (state : State) :
    run next (inputs ++ [input]) state =
      (run next inputs state).bind (next input) := by
  rw [run_append]
  exact congrArg _ (funext fun middle => by
    rw [run, List.foldlM_cons]
    exact bind_pure _)

/-- A property of the start that each input keeps holds after each of the
first inputs.  The step may use which inputs come before it. -/
theorem run_invariant {Input : Type v} {next : Input → State → Option State}
    {inputs : List Input} {start : State} (Invariant : State → Prop)
    (first : Invariant start)
    (kept : ∀ earlier input before after, earlier ++ [input] <+: inputs →
      run next earlier start = some before → Invariant before →
      next input before = some after → Invariant after)
    {earlier : List Input} {state : State} (before : earlier <+: inputs)
    (ran : run next earlier start = some state) : Invariant state := by
  induction earlier using List.reverseRecOn generalizing state with
  | nil => exact Option.some.inj ran ▸ first
  | append_singleton earlier input induction =>
      rw [run_concat] at ran
      obtain ⟨middle, ran, moved⟩ := Option.bind_eq_some_iff.mp ran
      have within := (List.prefix_append earlier [input]).trans before
      exact kept _ _ _ _ before ran (induction within ran) moved

theorem Reachable.run {system : StepSystem State} {Input : Type v}
    {next : Input → State → Option State} {inputs : List Input}
    (matched : ∀ input ∈ inputs, ∀ before after,
      next input before = some after → system.step before after)
    {before after : State} (reached : system.Reachable before)
    (ran : StepSystem.run next inputs before = some after) :
    system.Reachable after := by
  induction inputs generalizing before with
  | nil => exact Option.some.inj ran ▸ reached
  | cons input rest induction =>
      rw [StepSystem.run, List.foldlM_cons] at ran
      obtain ⟨middle, moved, ran⟩ := Option.bind_eq_some_iff.mp ran
      exact induction
        (fun later member => matched later (List.mem_cons_of_mem _ member))
        (reached.step (matched input List.mem_cons_self _ _ moved)) ran

theorem Reachable.of_steps {system : StepSystem State} {before after : State}
    (reached : system.Reachable before)
    (steps : Relation.ReflTransGen system.step before after) :
    system.Reachable after := by
  induction steps with
  | refl => exact reached
  | tail _ moved induction => exact induction.step moved

/-- Forward simulation by a function; a step may be matched by no step. -/
theorem Reachable.map {system : StepSystem State} {target : StepSystem Other}
    (project : State → Other)
    (start : ∀ state, system.init state → target.Reachable (project state))
    (matched : ∀ before after, system.Reachable before →
      system.step before after →
        project after = project before ∨
          target.step (project before) (project after))
    {state : State} (reached : system.Reachable state) :
    target.Reachable (project state) := by
  induction reached with
  | init initial => exact start _ initial
  | step earlier moved induction =>
      rcases matched _ _ earlier moved with stutter | moves
      · rw [stutter]
        exact induction
      · exact .step induction moves

end StepSystem

end Initd.Library
