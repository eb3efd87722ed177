import Initd.Library.StepSystem
import Initd.Sysapi.FunctionQueue

namespace Initd.Sysapi

open Library

/-! A function queue between its pushes and its deliveries. -/

/-- `delivering` is whether the callback of the `eventfd` calls a function. -/
structure QueueState (Function : Type) where
  fq : FunctionQueue Function
  delivering : Bool
  pushed : List Function
  executed : List Function

/-- A push may come from the function that is being called. -/
inductive QueueAction (Function : Type)
  | push (f : Function)
  | deliver
  | finish
  deriving DecidableEq

namespace QueueState

variable {Function : Type}

def start : QueueState Function := ⟨.empty, false, [], []⟩

def push (f : Function) (state : QueueState Function) : QueueState Function :=
  { state with fq := state.fq.push f, pushed := state.pushed ++ [f] }

def deliver (state : QueueState Function) : Option (QueueState Function) :=
  if state.delivering then
    none
  else
    state.fq.deliver.map fun (f, rest) =>
      { state with
        fq := rest
        delivering := true
        executed := state.executed ++ [f] }

/-- The function returns or throws, which `epoll::wait` catches. -/
def finish (state : QueueState Function) : Option (QueueState Function) :=
  if state.delivering then some { state with delivering := false } else none

def next : QueueAction Function → QueueState Function →
    Option (QueueState Function)
  | .push f, state => some (state.push f)
  | .deliver, state => state.deliver
  | .finish, state => state.finish

def run (actions : List (QueueAction Function)) : Option (QueueState Function) :=
  StepSystem.run next actions start

/-- Each function is called once and in its turn, the callback finds a function
to call, and without a count in the `eventfd` none is left. -/
structure LosesNothing (state : QueueState Function) : Prop where
  inTurn : state.executed ++ state.fq.queue = state.pushed
  front : state.fq.efd.counter ≠ 0 → state.fq.queue ≠ []
  drained : state.delivering = false → state.fq.efd.counter = 0 →
    state.fq.queue = []

variable {state after : QueueState Function} {action : QueueAction Function}

inductive Stepped (state : QueueState Function) :
    QueueAction Function → QueueState Function → Prop
  | push (f : Function) : Stepped state (.push f) (state.push f)
  | deliver {f : Function} {rest : FunctionQueue Function}
      (idle : state.delivering = false)
      (delivered : state.fq.deliver = some (f, rest)) :
      Stepped state .deliver { state with
        fq := rest
        delivering := true
        executed := state.executed ++ [f] }
  | finish (busy : state.delivering = true) :
      Stepped state .finish { state with delivering := false }

theorem stepped (moved : next action state = some after) :
    Stepped state action after := by
  cases action with
  | push f =>
      obtain rfl := Option.some.inj moved
      exact .push f
  | deliver =>
      simp only [next, QueueState.deliver] at moved
      split at moved
      · contradiction
      · next idle =>
          obtain ⟨⟨f, rest⟩, delivered, rfl⟩ := Option.map_eq_some_iff.mp moved
          exact .deliver (Bool.not_eq_true _ ▸ idle) delivered
  | finish =>
      simp only [next, QueueState.finish] at moved
      split at moved
      · next busy =>
          obtain rfl := Option.some.inj moved
          exact .finish busy
      · contradiction

/-- What holds however the pushes and the deliveries follow one another. -/
structure Sound (state : QueueState Function) : Prop where
  inTurn : state.executed ++ state.fq.queue = state.pushed
  backed : state.fq.Backed

theorem Sound.step (sound : state.Sound) (step : Stepped state action after) :
    after.Sound := by
  cases step with
  | push f =>
      refine ⟨?_, sound.backed.push f⟩
      calc state.executed ++ (state.fq.queue ++ [f])
          = (state.executed ++ state.fq.queue) ++ [f] :=
            (List.append_assoc ..).symm
        _ = state.pushed ++ [f] := by rw [sound.inTurn]
  | @deliver f rest idle delivered =>
      refine ⟨?_, FunctionQueue.backed_deliver delivered⟩
      have queue := (FunctionQueue.deliver_eq delivered).2.1
      calc (state.executed ++ [f]) ++ rest.queue
          = state.executed ++ state.fq.queue := by simp [queue]
        _ = state.pushed := sound.inTurn
  | finish busy => exact ⟨sound.inTurn, sound.backed⟩

theorem Sound.front (sound : state.Sound) (pending : state.fq.efd.counter ≠ 0) :
    state.fq.queue ≠ [] := by
  intro empty
  have backed := sound.backed
  rw [FunctionQueue.Backed, empty] at backed
  exact pending (Nat.le_zero.mp backed)

theorem sound_run {actions : List (QueueAction Function)}
    (ran : run actions = some state) : state.Sound :=
  StepSystem.run_invariant Sound ⟨rfl, FunctionQueue.backed_empty⟩
    (fun _ _ _ _ _ _ sound moved => sound.step (stepped moved))
    (List.prefix_refl actions) ran

/-- Each function in the deque has its count in the `eventfd`. -/
def Matched (state : QueueState Function) : Prop :=
  state.fq.efd.counter ≤ 1 ∧ state.fq.queue.length = state.fq.efd.counter

theorem Matched.step (kept : state.Matched) (step : Stepped state action after)
    (alone : ∀ f, action = .push f → state.fq.efd.counter = 0) :
    after.Matched := by
  obtain ⟨atMost, length⟩ := kept
  cases step with
  | push f =>
      have none := alone f rfl
      refine ⟨?_, ?_⟩
      · exact Nat.le_of_eq (congrArg (· + 1) none)
      · simp [QueueState.push, FunctionQueue.push, Eventfd.notify, length]
  | @deliver f rest idle delivered =>
      obtain ⟨pending, queue, counter⟩ := FunctionQueue.deliver_eq delivered
      rw [queue, List.length_cons] at length
      refine ⟨?_, ?_⟩
      · rw [counter]
        exact Nat.zero_le 1
      · change rest.queue.length = rest.efd.counter
        omega
  | finish busy => exact ⟨atMost, length⟩

theorem Matched.losesNothing (kept : state.Matched) (sound : state.Sound) :
    state.LosesNothing where
  inTurn := sound.inTurn
  front := sound.front
  drained _ counter := List.length_eq_zero_iff.mp (kept.2.trans counter)

/-- The deque has a function that the counts in the `eventfd` will not wake. -/
def Stranded (state : QueueState Function) : Prop :=
  state.fq.efd.counter < state.fq.queue.length ∨ 2 ≤ state.fq.efd.counter

theorem Stranded.push (f : Function) (pending : state.fq.efd.counter ≠ 0) :
    (state.push f).Stranded :=
  .inr (Nat.succ_le_succ (Nat.one_le_iff_ne_zero.mpr pending))

theorem Stranded.step (stranded : state.Stranded) (sound : state.Sound)
    (step : Stepped state action after) : after.Stranded := by
  have backed : state.fq.efd.counter ≤ state.fq.queue.length := sound.backed
  unfold Stranded at stranded ⊢
  cases step with
  | push f =>
      simp only [QueueState.push, FunctionQueue.push, Eventfd.notify,
        List.length_append, List.length_singleton]
      omega
  | @deliver f rest idle delivered =>
      obtain ⟨pending, queue, counter⟩ := FunctionQueue.deliver_eq delivered
      rw [queue, List.length_cons] at stranded backed
      change rest.efd.counter < rest.queue.length ∨ 2 ≤ rest.efd.counter
      omega
  | finish busy => exact stranded

/-- Deliveries alone take such a queue to a loss. -/
def Loses (state : QueueState Function) : Prop :=
  ∃ more after, (∀ f, .push f ∉ more) ∧
    StepSystem.run next more state = some after ∧ ¬ after.LosesNothing

theorem Loses.step (moved : next action state = some after)
    (noPush : ∀ f, action ≠ .push f) (loses : after.Loses) : state.Loses := by
  obtain ⟨more, last, none, ran, lost⟩ := loses
  refine ⟨action :: more, last, fun f member => ?_, ?_, lost⟩
  · cases List.mem_cons.mp member with
    | inl same => exact noPush f same.symm
    | inr inside => exact none f inside
  · rw [StepSystem.run, List.foldlM_cons, moved]
    exact ran

theorem Stranded.loses_silent (stranded : state.Stranded)
    (idle : state.delivering = false) (silent : state.fq.efd.counter = 0) :
    state.Loses := by
  refine ⟨[], state, fun _ => List.not_mem_nil, rfl, fun lossless => ?_⟩
  have empty := lossless.drained idle silent
  rw [Stranded, empty, silent] at stranded
  exact stranded.elim (Nat.lt_irrefl 0) (by decide)

theorem Stranded.loses_busy (stranded : state.Stranded) (sound : state.Sound)
    (busy : state.delivering = true) (silent : state.fq.efd.counter = 0) :
    state.Loses := by
  have moved : next .finish state = some { state with delivering := false } :=
    if_pos busy
  have later := stranded.step sound (stepped moved)
  exact .step moved (fun _ => by simp) (later.loses_silent rfl silent)

theorem Stranded.loses_idle (stranded : state.Stranded) (sound : state.Sound)
    (idle : state.delivering = false) : state.Loses := by
  by_cases silent : state.fq.efd.counter = 0
  · exact stranded.loses_silent idle silent
  · obtain ⟨⟨f, rest⟩, delivered⟩ := Option.isSome_iff_exists.mp
      (sound.backed.deliver_isSome silent)
    have moved : next .deliver state = some { state with
        fq := rest
        delivering := true
        executed := state.executed ++ [f] } := by
      simp [next, QueueState.deliver, idle, delivered]
    have step := stepped moved
    exact .step moved (fun _ => by simp)
      ((stranded.step sound step).loses_busy (sound.step step) rfl
        (FunctionQueue.deliver_counter delivered))

theorem Stranded.loses (stranded : state.Stranded) (sound : state.Sound) :
    state.Loses := by
  cases idle : state.delivering with
  | false => exact stranded.loses_idle sound idle
  | true =>
      have moved : next .finish state =
          some { state with delivering := false } := if_pos idle
      have step := stepped moved
      exact .step moved (fun _ => by simp)
        ((stranded.step sound step).loses_idle (sound.step step) rfl)

/-- The deque keeps its stranded function for the rest of the run. -/
theorem Stranded.run {rest : List (QueueAction Function)}
    (stranded : state.Stranded) (sound : state.Sound)
    (ran : StepSystem.run next rest state = some after) :
    after.Stranded ∧ after.Sound :=
  StepSystem.run_invariant (fun reached => reached.Stranded ∧ reached.Sound)
    ⟨stranded, sound⟩
    (fun _ _ _ _ _ _ both moved =>
      ⟨both.1.step both.2 (stepped moved), both.2.step (stepped moved)⟩)
    (List.prefix_refl rest) ran

theorem matched_run {actions : List (QueueAction Function)}
    (alone : ∀ earlier f before, earlier ++ [.push f] <+: actions →
      run earlier = some before → before.fq.efd.counter = 0)
    {earlier : List (QueueAction Function)} (within : earlier <+: actions)
    (ran : run earlier = some state) : state.Matched := by
  refine StepSystem.run_invariant Matched ⟨Nat.zero_le 1, rfl⟩ ?_ within ran
  intro earlier action before after within ran kept moved
  refine kept.step (stepped moved) ?_
  rintro f rfl
  exact alone earlier f before within ran

theorem run_push {earlier : List (QueueAction Function)}
    (ran : run earlier = some state) (f : Function)
    (rest : List (QueueAction Function)) :
    run (earlier ++ [.push f] ++ rest) =
      StepSystem.run next rest (state.push f) := by
  have pushed : run (earlier ++ [.push f]) = some (state.push f) := by
    rw [run, StepSystem.run_concat]
    exact congrArg (Option.bind · _) ran
  rw [run, StepSystem.run_append]
  exact congrArg (Option.bind · _) pushed

theorem push_within {earlier actions more : List (QueueAction Function)}
    {f : Function} (noPush : .push f ∉ more)
    (within : earlier ++ [.push f] <+: actions ++ more) :
    earlier ++ [.push f] <+: actions := by
  cases List.prefix_or_prefix_of_prefix within (List.prefix_append ..) with
  | inl inside => exact inside
  | inr longer =>
      cases List.prefix_concat_iff.mp longer with
      | inl same => exact same ▸ List.prefix_refl _
      | inr before =>
          obtain ⟨later, rfl⟩ := before
          rw [List.append_assoc, List.prefix_append_right_inj] at within
          have member := within.subset (List.mem_concat_self ..)
          exact absurd member noPush

/-- Nothing is lost in a run, and in the deliveries after it, exactly if each
push finds the `eventfd` without a count. -/
theorem queue_losesNothing_iff {actions : List (QueueAction Function)}
    (ran : run actions = some state) :
    (∀ more, (∀ f, .push f ∉ more) →
      ∀ earlier reached, earlier <+: actions ++ more →
        run earlier = some reached → reached.LosesNothing) ↔
      ∀ earlier f before, earlier ++ [.push f] <+: actions →
        run earlier = some before → before.fq.efd.counter = 0 := by
  constructor
  · intro lossless earlier f before within ran'
    by_contra pending
    obtain ⟨rest, rfl⟩ := within
    rw [run_push ran'] at ran
    have stranded : (before.push f).Stranded := .push f pending
    obtain ⟨stranded, sound⟩ :=
      stranded.run ((sound_run ran').step (.push f)) ran
    obtain ⟨more, last, noPush, ran'', lost⟩ := stranded.loses sound
    refine lost (lossless more noPush _ last (List.prefix_refl _) ?_)
    rw [List.append_assoc, run_push ran', StepSystem.run_append, ran]
    exact ran''
  · intro alone more noPush earlier reached within ran'
    have alone' : ∀ earlier f before, earlier ++ [.push f] <+: actions ++ more →
        run earlier = some before → before.fq.efd.counter = 0 :=
      fun earlier f before within =>
        alone earlier f before (push_within (noPush f) within)
    exact (matched_run alone' within ran').losesNothing (sound_run ran')

/-- A function that pushes another one while it is called. -/
theorem queue_losesNothing_nested :
    ∃ state : QueueState Nat, run [.push 0, .deliver, .push 1] = some state ∧
      ∀ more, (∀ f, .push f ∉ more) →
        ∀ earlier reached, earlier <+: [.push 0, .deliver, .push 1] ++ more →
          run earlier = some reached → reached.LosesNothing := by
  have ran : run [.push 0, .deliver, .push 1] = some _ := rfl
  refine ⟨_, ran, (queue_losesNothing_iff ran).mpr ?_⟩
  intro earlier f before within ran
  have within : earlier ++ [.push f] <+:
      (([] ++ [.push 0]) ++ [.deliver]) ++ [.push 1] := within
  simp only [List.prefix_concat_iff, List.append_singleton_inj] at within
  rcases within with ⟨rfl, -⟩ | ⟨-, same⟩ | ⟨rfl, -⟩ | empty
  · exact Option.some.inj ran ▸ rfl
  · contradiction
  · exact Option.some.inj ran ▸ rfl
  · exact absurd (List.prefix_nil.mp empty) (List.concat_ne_nil _ _)

/-- Two pushes before a delivery leave a function in the deque. -/
theorem queue_loses_coalesced :
    ∃ state : QueueState Nat,
      run [.push 0, .push 1, .deliver, .finish] = some state ∧
        state.delivering = false ∧ state.fq.efd.counter = 0 ∧
        state.fq.queue = [1] ∧ state.executed = [0] ∧
        ¬ state.LosesNothing := by
  refine ⟨_, rfl, rfl, rfl, rfl, rfl, fun lossless => ?_⟩
  exact absurd (lossless.drained rfl rfl) (List.cons_ne_nil _ _)

end QueueState

end Initd.Sysapi
