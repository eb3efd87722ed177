import Initd.Sysapi.Epoll

namespace Initd.Sysapi

open Library

/-! The table of the kernel names the registrations that are alive. -/

variable {Ep Address Callback : Type}

namespace EpollState

structure Consistent (state : EpollState Ep Address Callback) : Prop where
  named : ∀ ep fd address events,
    state.table (ep, fd) = some (address, events) →
      ∃ object, state.objects address = some object ∧
        object.ep = some ep ∧ object.fd = fd ∧ object.events = events ∧
        ∀ other otherObject, state.objects other = some otherObject →
          otherObject.ep = some ep → otherObject.fd = fd → other = address
  entered : ∀ address object ep, state.objects address = some object →
    object.ep = some ep →
      state.table (ep, object.fd) = some (address, object.events)

/-- What an object that is alive holds of the table. -/
def holds (state : EpollState Ep Address Callback) (address : Address) :
    Option ((Ep × Int) × UInt32) :=
  (state.objects address).bind EpollRegistration.place

def NamesLive (state : EpollState Ep Address Callback) : Prop :=
  Registry.Names state.holds state.table

end EpollState

open EpollState EpollRegistration

variable {state final : EpollState Ep Address Callback}
  {object otherObject : EpollRegistration Ep Callback}
  {this other rhs parameter : Address}

theorem EpollRegistration.place_eq_some {ep : Ep} {fd : Int} {events : UInt32} :
    object.place = some ((ep, fd), events) ↔
      object.ep = some ep ∧ object.fd = fd ∧ object.events = events := by
  obtain ⟨objectEp, objectFd, objectEvents, callback⟩ := object
  cases objectEp <;> simp [place, and_assoc]

theorem EpollState.holds_eq_some {ep : Ep} {fd : Int} {events : UInt32} :
    state.holds this = some ((ep, fd), events) ↔
      ∃ object, state.objects this = some object ∧ object.ep = some ep ∧
        object.fd = fd ∧ object.events = events := by
  simp only [holds, Option.bind_eq_some_iff, place_eq_some]

theorem EpollState.holds_of_objects (alive : state.objects this = some object) :
    state.holds this = object.place := by
  rw [holds, alive]
  rfl

theorem EpollState.holds_of_dead (dead : state.objects this = none) :
    state.holds this = none := by
  rw [holds, dead]
  rfl

theorem EpollState.NamesLive.consistent (names : state.NamesLive) :
    state.Consistent where
  named ep fd address events entry := by
    have held := (names (ep, fd) address events).mp entry
    obtain ⟨object, alive, sameEp, sameFd, sameEvents⟩ := holds_eq_some.mp held
    refine ⟨object, alive, sameEp, sameFd, sameEvents, ?_⟩
    intro other otherObject otherAlive otherEp otherFd
    exact names.unique
      (holds_eq_some.mpr ⟨otherObject, otherAlive, otherEp, otherFd, rfl⟩) held
  entered address object ep alive registered :=
    (names _ _ _).mpr (holds_eq_some.mpr ⟨object, alive, registered, rfl, rfl⟩)

theorem namesLive_boot :
    (boot : EpollState Ep Address Callback).NamesLive :=
  Registry.names_empty

/-- What an object holds has an entry. -/
theorem EpollState.NamesLive.entry (names : state.NamesLive)
    (alive : state.objects this = some object) :
    ∀ key events, object.place = some (key, events) →
      state.table key ≠ none := by
  intro key events held
  rw [(names key this events).mpr ((holds_of_objects alive).trans held)]
  exact Option.some_ne_none _

theorem withObject_of_alive
    {member : EpollRegistration Ep Callback → EpollCall Ep Address Callback}
    (alive : state.objects this = some object) :
    withObject this member state = member object state := by
  rw [withObject, alive]

section Exchange

variable [DecidableEq Address]

theorem holds_setObject {table : Ep × Int → Option (Address × UInt32)}
    (entry : Option (EpollRegistration Ep Callback)) :
    EpollState.holds ⟨table, Function.update state.objects this entry⟩ =
      Function.update state.holds this (entry.bind place) := by
  funext address
  change (Function.update state.objects this entry address).bind place = _
  by_cases same : address = this
  · rw [same, Function.update_self, Function.update_self]
  · rw [Function.update_of_ne same, Function.update_of_ne same]
    rfl

/-- Two objects after an exchange of what they hold. -/
theorem holds_exchange {first second : EpollRegistration Ep Callback}
    {table : Ep × Int → Option (Address × UInt32)}
    (firstPlace : first.place = state.holds other)
    (secondPlace : second.place = state.holds this) :
    EpollState.holds ⟨table, Function.update
        (Function.update state.objects this (some first)) other
          (some second)⟩ =
      state.holds ∘ Equiv.swap this other := by
  funext address
  rw [Function.comp_apply]
  by_cases isOther : address = other
  · rw [isOther, Equiv.swap_apply_right, ← secondPlace]
    exact holds_of_objects (Function.update_self _ _ _)
  · change (Function.update (Function.update state.objects this (some first))
      other (some second) address).bind EpollRegistration.place = _
    rw [Function.update_of_ne isOther]
    by_cases isThis : address = this
    · rw [isThis, Equiv.swap_apply_left, ← firstPlace, Function.update_self]
      rfl
    · rw [Equiv.swap_apply_of_ne_of_ne isThis isOther,
        Function.update_of_ne isThis]
      rfl

theorem alive_setObject :
    (state.setObject this (some object)).Alive this := by
  have here : (state.setObject this (some object)).objects this =
      some object := Function.update_self _ _ _
  rw [Alive, here]
  exact Option.some_ne_none _

theorem alive_setObject_of_alive (alive : state.Alive other) :
    (state.setObject this (some object)).Alive other := by
  by_cases same : other = this
  · rw [same]
    exact alive_setObject
  · have still : (state.setObject this (some object)).objects other =
        state.objects other := Function.update_of_ne same _ _
    rwa [Alive, still]

/-- A new object beside the others. -/
structure Constructs (state : EpollState Ep Address Callback) (this : Address)
    (final : EpollState Ep Address Callback) : Prop where
  names : final.NamesLive
  alive : final.Alive this
  others : ∀ other, state.Alive other → final.Alive other

theorem constructDefault_returns (names : state.NamesLive)
    (dead : state.objects this = none) :
    Constructs state this (state.setObject this (some initial)) where
  names := by
    have nothing := holds_of_dead dead
    have still : Function.update state.holds this none = state.holds := by
      rw [← nothing, Function.update_eq_self]
    have idle : (some (initial : EpollRegistration Ep Callback)).bind place =
        none := rfl
    rw [NamesLive, setObject, holds_setObject, idle, still]
    exact names
  alive := alive_setObject
  others _ := alive_setObject_of_alive

theorem constructed_of_done {body : EpollCall Ep Address Callback}
    (returned : body state = .done final) :
    constructed this body state = .done final := by
  rw [constructed, returned]
  rfl

end Exchange

/-! The members, on objects that are alive. -/

section Members

variable [DecidableEq Ep]

variable {table : Ep × Int → Option (Address × UInt32)}
  {objects : Address → Option (EpollRegistration Ep Callback)}

theorem update_eq (alive : objects this = some object)
    (entry : ∀ key events, object.place = some (key, events) →
      table key ≠ none) :
    EpollRegistration.update this ⟨table, objects⟩ =
      .done ⟨Registry.point object.place this table, objects⟩ := by
  rw [EpollRegistration.update, withObject_of_alive alive]
  obtain ⟨ep, fd, events, callback⟩ := object
  cases ep with
  | none => rfl
  | some ep =>
      have present := entry (ep, fd) events rfl
      cases found : table (ep, fd) with
      | none => exact absurd found present
      | some pair =>
          simp only [Epoll.modify, found]
          rfl

variable [DecidableEq Address]

/-- The table names the objects again after both were updated. -/
theorem namesLive_exchange {first second : EpollRegistration Ep Callback}
    (names : state.NamesLive) (firstPlace : first.place = state.holds other)
    (secondPlace : second.place = state.holds this) :
    EpollState.NamesLive ⟨Registry.point (state.holds this) other
        (Registry.point (state.holds other) this state.table),
      Function.update (Function.update state.objects this (some first)) other
        (some second)⟩ := by
  rw [NamesLive, holds_exchange firstPlace secondPlace]
  exact names.exchange this other

theorem swap_returns (names : state.NamesLive)
    (alive : state.objects this = some object)
    (otherAlive : state.objects other = some otherObject) :
    ∃ final, EpollRegistration.swap this other state = .done final ∧
      final.NamesLive ∧ final.objects =
        Function.update (Function.update state.objects this (some otherObject))
          other (some object) := by
  have thisPlace := holds_of_objects alive
  have otherPlace := holds_of_objects otherAlive
  have here : Function.update (Function.update state.objects this
      (some otherObject)) other (some object) this = some otherObject := by
    by_cases same : this = other
    · rw [same] at alive ⊢
      rw [Function.update_self, ← alive, otherAlive]
    · rw [Function.update_of_ne same, Function.update_self]
  have there : Function.update (Function.update state.objects this
      (some otherObject)) other (some object) other = some object :=
    Function.update_self _ _ _
  refine ⟨_, ?_, namesLive_exchange names otherPlace.symm thisPlace.symm, rfl⟩
  rw [EpollRegistration.swap, withObject_of_alive alive,
    withObject_of_alive otherAlive, thisPlace, otherPlace]
  have updated : EpollRegistration.update this ⟨state.table, _⟩ = _ :=
    update_eq here (names.entry otherAlive)
  have otherUpdated : EpollRegistration.update other
      ⟨Registry.point otherObject.place this state.table, _⟩ = _ :=
    update_eq there fun key events held =>
      Registry.point_ne_none (names.entry alive key events held)
  exact (congrArg (Outcome.bind · (EpollRegistration.update other)) updated).trans
    ((Outcome.done_bind _ _).trans otherUpdated)

theorem constructMoved_returns (names : state.NamesLive)
    (dead : state.objects this = none)
    (rhsAlive : state.objects rhs = some object) :
    ∃ final, constructMoved this rhs state = .done final ∧
      Constructs state this final := by
  have apart : this ≠ rhs := by
    rintro rfl
    rw [dead] at rhsAlive
    contradiction
  have rhsPlace := holds_of_objects rhsAlive
  have nothing := holds_of_dead dead
  have idle : (initial : EpollRegistration Ep Callback).place =
      state.holds this := nothing.symm
  have moved := namesLive_exchange names rhsPlace.symm idle
  rw [nothing, rhsPlace] at moved
  have constructs : Constructs state this (((⟨Registry.point object.place this
      state.table, state.objects⟩ : EpollState Ep Address Callback).setObject
        this (some object)).setObject rhs (some initial)) := {
    names := moved
    alive := alive_setObject_of_alive alive_setObject
    others := fun other alive =>
      alive_setObject_of_alive (alive_setObject_of_alive alive) }
  refine ⟨_, ?_, constructs⟩
  rw [constructMoved, withObject_of_alive rhsAlive]
  refine constructed_of_done ?_
  have here : Function.update (Function.update state.objects this
      (some object)) rhs (some { object with callback := none }) this =
        some object := by
    rw [Function.update_of_ne apart, Function.update_self]
  have updated : EpollRegistration.update this ⟨state.table, _⟩ = _ :=
    update_eq here (names.entry rhsAlive)
  refine (congrArg (Outcome.bind · _) updated).trans
    ((Outcome.done_bind _ _).trans ?_)
  rw [setObject, Function.update_idem]
  rfl

theorem clear_returns (names : state.NamesLive)
    (alive : state.objects this = some object) :
    ∃ final, EpollRegistration.clear this state = .done final ∧
      final.NamesLive ∧ final.holds this = none ∧ final.Alive this ∧
      ∀ other, other ≠ this → final.objects other = state.objects other := by
  have place := holds_of_objects alive
  have entry := names.entry alive
  rw [EpollRegistration.clear, withObject_of_alive alive]
  obtain ⟨ep, fd, events, callback⟩ := object
  cases ep with
  | none =>
      refine ⟨state, rfl, names, place, ?_, fun _ _ => rfl⟩
      rw [Alive, alive]
      exact Option.some_ne_none _
  | some ep =>
      have present := entry (ep, fd) events rfl
      have removed : Epoll.remove fd ep state =
          .done (state.setEntry ep fd none) := by
        cases found : state.table (ep, fd) with
        | none => exact absurd found present
        | some pair => rw [Epoll.remove, found]
      refine ⟨_, (congrArg (Outcome.bind · _) removed).trans
        (Outcome.done_bind _ _), ?_, ?_, ?_, ?_⟩
      · rw [NamesLive, setObject, holds_setObject]
        exact names.erase place
      · rw [setObject, holds_setObject]
        exact Function.update_self _ _ _
      · exact alive_setObject
      · exact fun other apart => Function.update_of_ne apart _ _

/-- A destructor leaves the table without the object. -/
theorem destroy_returns (names : state.NamesLive)
    (alive : state.objects this = some object) :
    ∃ final, EpollRegistration.destroy this state = .done final ∧
      final.NamesLive ∧ final.objects this = none ∧
      ∀ other, other ≠ this → final.objects other = state.objects other := by
  obtain ⟨cleared, returned, named, nothing, -, others⟩ :=
    clear_returns names alive
  refine ⟨cleared.setObject this none, ?_, ?_, Function.update_self _ _ _, ?_⟩
  · rw [EpollRegistration.destroy, returned]
    exact Outcome.done_bind _ _
  · have still : Function.update cleared.holds this none = cleared.holds := by
      rw [← nothing, Function.update_eq_self]
    rw [NamesLive, setObject, holds_setObject, Option.bind_none, still]
    exact named
  · intro other apart
    rw [← others other apart]
    exact Function.update_of_ne apart _ _

/-- The swap gives the old value to the parameter, which is destroyed. -/
theorem assign_returns (names : state.NamesLive) (alive : state.Alive this)
    (parameterAlive : state.Alive parameter) :
    ∃ final, EpollRegistration.assign this parameter state = .done final ∧
      final.NamesLive := by
  obtain ⟨object, alive⟩ := Option.ne_none_iff_exists'.mp alive
  obtain ⟨value, parameterAlive⟩ := Option.ne_none_iff_exists'.mp parameterAlive
  obtain ⟨swapped, exchanged, named, objects⟩ :=
    swap_returns names alive parameterAlive
  have old : swapped.objects parameter = some object := by
    rw [objects, Function.update_self]
  obtain ⟨final, destroyed, named, -, -⟩ := destroy_returns named old
  refine ⟨final, ?_, named⟩
  rw [EpollRegistration.assign, exchanged]
  simp only [Outcome.done, destroyed]
  rfl

theorem constructRegistered_returns (names : state.NamesLive)
    (dead : state.objects this = none) (ep : Ep) (fd : Int) (events : UInt32)
    (callback : Option Callback) :
    (∃ final, constructRegistered this ep fd events callback state =
        .done final ∧ Constructs state this final) ∨
      ∃ middle, constructRegistered this ep fd events callback state =
        ⟨state, [(.ctl .add ep fd, middle)], true⟩ := by
  cases found : state.table (ep, fd) with
  | none =>
      left
      have added : Epoll.add fd events this ep
          (state.setObject this (some ⟨some ep, fd, events, callback⟩)) =
            .done ((state.setObject this
              (some ⟨some ep, fd, events, callback⟩)).setEntry ep fd
                (some (this, events))) := by
        rw [Epoll.add, setObject, found]
      refine ⟨_, constructed_of_done added, ?_, alive_setObject,
        fun _ => alive_setObject_of_alive⟩
      rw [NamesLive, setEntry, setObject, holds_setObject]
      exact Registry.Names.insert names (holds_of_dead dead) found
  | some entry =>
      right
      refine ⟨state.setObject this (some ⟨some ep, fd, events, callback⟩), ?_⟩
      have added : Epoll.add fd events this ep
          (state.setObject this (some ⟨some ep, fd, events, callback⟩)) =
            fault (.ctl .add ep fd) (state.setObject this
              (some ⟨some ep, fd, events, callback⟩)) := by
        rw [Epoll.add, setObject, found]
      have back : (state.setObject this
          (some ⟨some ep, fd, events, callback⟩)).setObject this none =
            state := by
        rw [setObject, setObject, Function.update_idem, ← dead,
          Function.update_eq_self]
      rw [constructRegistered, constructed, added]
      simp only [fault, if_true, back]

/-! The operations of a program. -/

theorem Construction.run_cases (names : state.NamesLive)
    {construction : Construction Ep Address Callback}
    (allowed : construction.Allowed state this) :
    (∃ final, construction.run this state = .done final ∧
        Constructs state this final) ∨
      ∃ ep fd middle, construction.run this state =
        ⟨state, [(.ctl .add ep fd, middle)], true⟩ := by
  cases construction with
  | default =>
      exact .inl ⟨_, rfl, constructDefault_returns names (not_not.mp allowed)⟩
  | registered ep fd events callback =>
      rcases constructRegistered_returns names (not_not.mp allowed) ep fd events
        callback with returns | ⟨middle, threw⟩
      · exact .inl returns
      · exact .inr ⟨ep, fd, middle, threw⟩
  | moved rhs =>
      obtain ⟨object, alive⟩ := Option.ne_none_iff_exists'.mp allowed.2
      exact .inl (constructMoved_returns names (not_not.mp allowed.1) alive)

/-- An operation keeps the table right, or it throws because of an entry that
is there, and changes nothing. -/
theorem EpollOperation.run_cases (names : state.NamesLive)
    {operation : EpollOperation Ep Address Callback}
    (allowed : operation.Allowed state) :
    (∃ final, operation.run state = .done final ∧ final.NamesLive) ∨
      ∃ ep fd middle, operation.run state =
        ⟨state, [(.ctl .add ep fd, middle)], true⟩ := by
  cases operation with
  | construct this construction =>
      exact (Construction.run_cases names allowed).imp_left
        fun ⟨final, returned, constructs⟩ => ⟨final, returned, constructs.names⟩
  | assign this parameter construction =>
      obtain ⟨alive, allowed⟩ := allowed
      rcases Construction.run_cases names allowed with
        ⟨middle, returned, constructs⟩ | ⟨ep, fd, middle, threw⟩
      · left
        obtain ⟨final, assigned, named⟩ := assign_returns constructs.names
          (constructs.others this alive) constructs.alive
        refine ⟨final, ?_, named⟩
        exact (congrArg (Outcome.bind · _) returned).trans
          ((Outcome.done_bind _ _).trans assigned)
      · right
        exact ⟨ep, fd, middle, congrArg (Outcome.bind · _) threw⟩
  | swap this other =>
      obtain ⟨object, alive⟩ := Option.ne_none_iff_exists'.mp allowed.1
      obtain ⟨value, otherAlive⟩ := Option.ne_none_iff_exists'.mp allowed.2
      obtain ⟨final, returned, named, -⟩ := swap_returns names alive otherAlive
      exact .inl ⟨final, returned, named⟩
  | clear this =>
      obtain ⟨object, alive⟩ := Option.ne_none_iff_exists'.mp allowed
      obtain ⟨final, returned, named, -⟩ := clear_returns names alive
      exact .inl ⟨final, returned, named⟩
  | destroy this =>
      obtain ⟨object, alive⟩ := Option.ne_none_iff_exists'.mp allowed
      obtain ⟨final, returned, named, -⟩ := destroy_returns names alive
      exact .inl ⟨final, returned, named⟩

theorem namesLive_of_reachable
    (reached : (epollSystem Ep Address Callback).Reachable state) :
    state.NamesLive := by
  refine reached.invariant NamesLive ?_ ?_
  · rintro _ rfl
    exact namesLive_boot
  · rintro before _ - names ⟨operation, allowed, rfl⟩
    rcases operation.run_cases names allowed with
      ⟨final, returned, named⟩ | ⟨ep, fd, middle, threw⟩
    · rw [returned]
      exact named
    · rw [threw]
      exact names

/-- In every run each entry names the one registration that is alive and has
its place, each registration has its entry, and only `add` ever fails. -/
theorem registrations_consistent
    (reached : (epollSystem Ep Address Callback).Reachable state) :
    state.Consistent ∧
      ∀ operation : EpollOperation Ep Address Callback,
        operation.Allowed state → ∀ entry ∈ (operation.run state).log,
          ∃ ep fd, entry.1 = .ctl .add ep fd := by
  have names := namesLive_of_reachable reached
  refine ⟨names.consistent, fun operation allowed entry member => ?_⟩
  rcases operation.run_cases names allowed with
    ⟨final, returned, -⟩ | ⟨ep, fd, middle, threw⟩
  · rw [returned] at member
    cases member
  · rw [threw, List.mem_singleton] at member
    exact ⟨ep, fd, by rw [member]⟩

end Members

/-- A registration that is assigned to itself. -/
theorem registrations_consistent_selfAssigned :
    ∃ state : EpollState Nat Nat Nat,
      state.table (0, 5) = some (0, 7) ∧ state.Consistent := by
  have registered : (epollSystem Nat Nat Nat).Reachable
      ((Construction.registered 0 5 7 none).run 0 .boot).state :=
    .step (.init rfl) ⟨.construct 0 (.registered 0 5 7 none),
      fun alive => alive rfl, rfl⟩
  have assigned : (epollSystem Nat Nat Nat).Reachable
      ((EpollOperation.assign 0 1 (.moved 0)).run
        ((Construction.registered 0 5 7 none).run 0 .boot).state).state := by
    refine .step registered ⟨.assign 0 1 (.moved 0), ⟨?_, ?_, ?_⟩, rfl⟩
    · exact Option.some_ne_none _
    · exact fun alive => alive rfl
    · exact Option.some_ne_none _
  exact ⟨_, rfl, (registrations_consistent assigned).1⟩

end Initd.Sysapi
