import Mathlib.Data.List.Basic

namespace Initd.Library

universe u v w

/-- What a call leaves behind: the state, whether an exception propagated
out of it, and what it did on the way, each entry with the state right after. -/
structure Outcome (State : Type u) (Event : Type v) where
  state : State
  log : List (Event × State)
  threw : Bool

namespace Outcome

variable {State : Type u} {Event : Type v} {Item : Type w}

def done (state : State) : Outcome State Event := ⟨state, [], false⟩

def bind (first : Outcome State Event)
    (next : State → Outcome State Event) : Outcome State Event :=
  if first.threw then
    first
  else
    let second := next first.state
    { second with log := first.log ++ second.log }

/-- The same call seen by a caller whose state contains that of the callee. -/
def map {Other : Type w} (embed : State → Other)
    (outcome : Outcome State Event) : Outcome Other Event where
  state := embed outcome.state
  log := outcome.log.map fun entry => (entry.1, embed entry.2)
  threw := outcome.threw

@[simp] theorem map_state {Other : Type w} (embed : State → Other)
    (outcome : Outcome State Event) :
    (outcome.map embed).state = embed outcome.state := rfl

@[simp] theorem map_threw {Other : Type w} (embed : State → Other)
    (outcome : Outcome State Event) :
    (outcome.map embed).threw = outcome.threw := rfl

@[simp] theorem done_bind (state : State)
    (next : State → Outcome State Event) :
    (done state).bind next = next state := by
  simp [bind, done]

theorem bind_eq_self {first : Outcome State Event}
    {next : State → Outcome State Event}
    (idle : next first.state = done first.state) : first.bind next = first := by
  unfold bind
  split
  · rfl
  · next returned =>
      rw [idle]
      cases first
      simp_all [done]

/-- A loop over a range whose body may throw, which leaves the loop. -/
def forEach (body : Item → State → Outcome State Event) :
    List Item → State → Outcome State Event
  | [], state => done state
  | item :: rest, state => (body item state).bind (forEach body rest)

theorem bind_returned {first : Outcome State Event}
    {next : State → Outcome State Event} :
    (first.bind next).threw = false ↔
      first.threw = false ∧ (next first.state).threw = false := by
  unfold bind
  cases threw : first.threw <;> simp [threw]

theorem bind_state {first : Outcome State Event}
    {next : State → Outcome State Event} (returned : first.threw = false) :
    (first.bind next).state = (next first.state).state := by
  simp [bind, returned]

/-- A property of states that both halves keep, whether they throw or not. -/
theorem bind_invariant (Invariant : State → Prop)
    {first : Outcome State Event} {next : State → Outcome State Event}
    (left : Invariant first.state)
    (right : ∀ state, Invariant state → Invariant (next state).state) :
    Invariant (first.bind next).state := by
  unfold bind
  split
  · exact left
  · exact right _ left

theorem forEach_invariant (Invariant : State → Prop)
    {body : Item → State → Outcome State Event} {items : List Item}
    (each : ∀ item ∈ items, ∀ state, Invariant state →
      Invariant (body item state).state)
    {state : State} (start : Invariant state) :
    Invariant (forEach body items state).state := by
  induction items generalizing state with
  | nil => exact start
  | cons item rest induction =>
      refine bind_invariant Invariant (each item List.mem_cons_self _ start) ?_
      exact fun _ held => induction
        (fun other member => each other (List.mem_cons_of_mem _ member)) held

/-- The post-condition of a call: `normal` where it returns, `thrown` where
it throws, and `logged` at every entry of the log. -/
structure Satisfies (outcome : Outcome State Event)
    (normal thrown : State → Prop) (logged : Event → State → Prop) : Prop where
  normal : outcome.threw = false → normal outcome.state
  thrown : outcome.threw = true → thrown outcome.state
  logged : ∀ entry ∈ outcome.log, logged entry.1 entry.2

variable {normal thrown : State → Prop} {logged : Event → State → Prop}

theorem satisfies_done {state : State} (holds : normal state) :
    (done state : Outcome State Event).Satisfies normal thrown logged where
  normal _ := holds
  thrown threw := by simp [done] at threw
  logged _ member := by simp [done] at member

theorem Satisfies.bind {middle : State → Prop}
    {first : Outcome State Event} {next : State → Outcome State Event}
    (left : first.Satisfies middle thrown logged)
    (right : ∀ state, middle state →
      (next state).Satisfies normal thrown logged) :
    (first.bind next).Satisfies normal thrown logged := by
  by_cases threw : first.threw = true
  · rw [Outcome.bind, if_pos threw]
    exact ⟨fun returned => by simp [threw] at returned, left.thrown, left.logged⟩
  · have second := right first.state (left.normal (by simpa using threw))
    rw [Outcome.bind, if_neg threw]
    refine ⟨second.normal, second.thrown, fun entry member => ?_⟩
    rcases List.mem_append.mp member with early | late
    · exact left.logged entry early
    · exact second.logged entry late

/-- The loop rule: the invariant may depend on the items still to come. -/
theorem forEach_satisfies {body : Item → State → Outcome State Event}
    (Invariant : List Item → State → Prop)
    (each : ∀ item rest state, Invariant (item :: rest) state →
      (body item state).Satisfies (Invariant rest) thrown logged)
    (items : List Item) (state : State) (start : Invariant items state) :
    (forEach body items state).Satisfies (Invariant []) thrown logged := by
  induction items generalizing state with
  | nil => exact satisfies_done start
  | cons item rest induction =>
      exact (each item rest state start).bind induction

theorem Satisfies.state {outcome : Outcome State Event}
    (satisfied : outcome.Satisfies normal normal logged) :
    normal outcome.state := by
  cases threw : outcome.threw with
  | false => exact satisfied.normal threw
  | true => exact satisfied.thrown threw

theorem Satisfies.mono {outcome : Outcome State Event}
    {normal' thrown' : State → Prop} {logged' : Event → State → Prop}
    (satisfied : outcome.Satisfies normal thrown logged)
    (onNormal : ∀ state, normal state → normal' state)
    (onThrown : ∀ state, thrown state → thrown' state)
    (onLogged : ∀ event state, logged event state → logged' event state) :
    outcome.Satisfies normal' thrown' logged' where
  normal returned := onNormal _ (satisfied.normal returned)
  thrown threw := onThrown _ (satisfied.thrown threw)
  logged entry member := onLogged _ _ (satisfied.logged entry member)

/-! The states that a call goes through. -/

/-- The recorded states of a call, the last of which it ends in. -/
def states (outcome : Outcome State Event) : List State :=
  outcome.log.map Prod.snd ++ [outcome.state]

/-- Every state of the call is related to all states before it. -/
def Moves (relation : State → State → Prop) (start : State)
    (outcome : Outcome State Event) : Prop :=
  (start :: outcome.states).Pairwise relation

theorem pairwise_join {relation : State → State → Prop}
    (trans : ∀ a b c, relation a b → relation b c → relation a c)
    (earlier : List State) {later : List State} {middle : State}
    (left : (earlier ++ [middle]).Pairwise relation)
    (right : (middle :: later).Pairwise relation) :
    (earlier ++ middle :: later).Pairwise relation := by
  obtain ⟨early, -, reaches⟩ := List.pairwise_append.mp left
  refine List.pairwise_append.mpr ⟨early, right, fun a before b after => ?_⟩
  have reached := reaches a before middle List.mem_cons_self
  rcases List.mem_cons.mp after with rfl | after
  · exact reached
  · exact trans a middle b reached (List.rel_of_pairwise_cons right after)

theorem Moves.state {relation : State → State → Prop} {start : State}
    {outcome : Outcome State Event} (moves : outcome.Moves relation start) :
    relation start outcome.state :=
  List.rel_of_pairwise_cons moves (List.mem_append_right _ List.mem_cons_self)

/-- The moves of a call, seen from a state before the one it starts in. -/
theorem Moves.from_earlier {relation : State → State → Prop}
    (trans : ∀ a b c, relation a b → relation b c → relation a c)
    {earlier start : State} {outcome : Outcome State Event}
    (moves : outcome.Moves relation start) (moved : relation earlier start) :
    outcome.Moves relation earlier :=
  List.pairwise_cons.mpr
    ⟨fun state member => trans earlier start state moved
      (List.rel_of_pairwise_cons moves member), moves.of_cons⟩

theorem Moves.join {relation : State → State → Prop}
    (trans : ∀ a b c, relation a b → relation b c → relation a c)
    {start : State} {outcome : Outcome State Event} {later : List State}
    (moves : outcome.Moves relation start)
    (right : (outcome.state :: later).Pairwise relation) :
    (start :: (outcome.states ++ later)).Pairwise relation := by
  have joined := pairwise_join trans (start :: outcome.log.map Prod.snd) moves
    right
  simpa [states] using joined

theorem moves_done {relation : State → State → Prop} {start state : State}
    (moved : relation start state) :
    (done state : Outcome State Event).Moves relation start := by
  simpa [Moves, states, done] using moved

/-- A call that makes its one change before it records anything. -/
theorem moves_of_one {relation : State → State → Prop} {start : State}
    {outcome : Outcome State Event} (moved : relation start outcome.state)
    (still : relation outcome.state outcome.state)
    (recorded : ∀ entry ∈ outcome.log, entry.2 = outcome.state) :
    outcome.Moves relation start := by
  have all : ∀ state ∈ outcome.states, state = outcome.state := by
    intro state member
    rcases List.mem_append.mp member with early | last
    · obtain ⟨entry, logged, rfl⟩ := List.mem_map.mp early
      exact recorded entry logged
    · exact List.mem_singleton.mp last
  refine List.pairwise_cons.mpr ⟨fun state member => ?_, ?_⟩
  · rw [all state member]
    exact moved
  · rw [List.eq_replicate_of_mem all]
    exact List.pairwise_replicate.mpr (.inr still)

theorem Moves.bind {relation : State → State → Prop}
    (trans : ∀ a b c, relation a b → relation b c → relation a c)
    {start : State} {first : Outcome State Event}
    {next : State → Outcome State Event} (left : first.Moves relation start)
    (right : (next first.state).Moves relation first.state) :
    (first.bind next).Moves relation start := by
  unfold Outcome.bind
  split
  · exact left
  · refine (left.join trans right).sublist ?_
    simp [states]

theorem forEach_moves {relation : State → State → Prop}
    (refl : ∀ a, relation a a)
    (trans : ∀ a b c, relation a b → relation b c → relation a c)
    {body : Item → State → Outcome State Event}
    (each : ∀ item state, (body item state).Moves relation state)
    (items : List Item) (state : State) :
    (forEach body items state).Moves relation state := by
  induction items generalizing state with
  | nil => exact moves_done (refl state)
  | cons item rest induction => exact (each item state).bind trans (induction _)

/-! How often a flag changes. -/

def changes (flag : State → Bool) : State → List State → Nat
  | _, [] => 0
  | state, next :: rest =>
      (if flag next = flag state then 0 else 1) + changes flag next rest

/-- A flag that only ever changes to one value changes at most once. -/
theorem changes_le_one {flag : State → Bool} {goal : Bool} {start : State}
    {later : List State}
    (moves : (start :: later).Pairwise fun a b =>
      flag b = flag a ∨ flag b = goal) :
    changes flag start later ≤ if flag start = goal then 0 else 1 := by
  induction later generalizing start with
  | nil => simp [changes]
  | cons next rest induction =>
      have step := List.rel_of_pairwise_cons moves List.mem_cons_self
      have after := induction moves.of_cons
      simp only [changes]
      rcases step with same | reached
      · simpa [same] using after
      · rw [if_pos reached, Nat.le_zero] at after
        rw [after, reached, Nat.add_zero]
        exact Nat.le_of_eq (if_congr eq_comm rfl rfl)

end Outcome

end Initd.Library
