import Initd.Library.Outcome
import Initd.Library.Registry
import Initd.Library.StepSystem
import Mathlib.Logic.Function.Basic

namespace Initd.Sysapi

open Library

/-! `epoll` and `epoll_registration`. An `epoll` and a registration are known
by their addresses. -/

structure EpollRegistration (Ep Callback : Type) where
  ep : Option Ep
  fd : Int
  events : UInt32
  callback : Option Callback
  deriving DecidableEq, Repr

namespace EpollRegistration

variable {Ep Callback : Type}

/-- The constructor without arguments. -/
def initial : EpollRegistration Ep Callback := ⟨none, -1, 0, none⟩

/-- The place in the table of the kernel, if it has one, with its events. -/
def place (object : EpollRegistration Ep Callback) :
    Option ((Ep × Int) × UInt32) :=
  object.ep.map fun ep => ((ep, object.fd), object.events)

end EpollRegistration

inductive CtlOperation
  | add
  | modify
  | remove
  deriving DecidableEq, Repr

/-- What should not happen: `epoll_ctl` fails, or an object is used that is not
alive. -/
inductive EpollFault (Ep Address : Type)
  | ctl (operation : CtlOperation) (ep : Ep) (fd : Int)
  | notAlive (this : Address)
  deriving DecidableEq, Repr

/-- The table of the kernel, and the objects that are alive. -/
structure EpollState (Ep Address Callback : Type) where
  table : Ep × Int → Option (Address × UInt32)
  objects : Address → Option (EpollRegistration Ep Callback)

section Operations

variable {Ep Address Callback : Type}

abbrev EpollCall (Ep Address Callback : Type) : Type :=
  EpollState Ep Address Callback →
    Outcome (EpollState Ep Address Callback) (EpollFault Ep Address)

namespace EpollState

def boot : EpollState Ep Address Callback := ⟨fun _ => none, fun _ => none⟩

variable [DecidableEq Ep] [DecidableEq Address]

def setEntry (ep : Ep) (fd : Int) (entry : Option (Address × UInt32))
    (state : EpollState Ep Address Callback) :
    EpollState Ep Address Callback :=
  { state with table := Function.update state.table (ep, fd) entry }

def setObject (this : Address)
    (object : Option (EpollRegistration Ep Callback))
    (state : EpollState Ep Address Callback) :
    EpollState Ep Address Callback :=
  { state with objects := Function.update state.objects this object }

/-- An exception. -/
def fault (fault : EpollFault Ep Address) :
    EpollCall Ep Address Callback :=
  fun state => ⟨state, [(fault, state)], true⟩

end EpollState

open EpollState

variable [DecidableEq Ep] [DecidableEq Address]

/-! The calls of `epoll_ctl`. -/

namespace Epoll

def add (fd : Int) (events : UInt32) (reg : Address) (ep : Ep) :
    EpollCall Ep Address Callback := fun state =>
  match state.table (ep, fd) with
  | some _ => fault (.ctl .add ep fd) state
  | none => .done (state.setEntry ep fd (some (reg, events)))

def modify (fd : Int) (events : UInt32) (reg : Address) (ep : Ep) :
    EpollCall Ep Address Callback := fun state =>
  match state.table (ep, fd) with
  | none => fault (.ctl .modify ep fd) state
  | some _ => .done (state.setEntry ep fd (some (reg, events)))

def remove (fd : Int) (ep : Ep) : EpollCall Ep Address Callback :=
  fun state =>
    match state.table (ep, fd) with
    | none => fault (.ctl .remove ep fd) state
    | some _ => .done (state.setEntry ep fd none)

end Epoll

namespace EpollRegistration

/-- A member is called on an object. -/
def withObject (this : Address)
    (member : EpollRegistration Ep Callback →
      EpollCall Ep Address Callback) : EpollCall Ep Address Callback :=
  fun state =>
    match state.objects this with
    | none => fault (.notAlive this) state
    | some object => member object state

def update (this : Address) : EpollCall Ep Address Callback :=
  withObject this fun object state =>
    match object.ep with
    | none => .done state
    | some ep => Epoll.modify object.fd object.events this ep state

/-- The callback stays. -/
def clear (this : Address) : EpollCall Ep Address Callback :=
  withObject this fun object state =>
    match object.ep with
    | none => .done state
    | some ep =>
        (Epoll.remove object.fd ep state).bind fun state =>
          .done (state.setObject this
            (some { object with ep := none, fd := -1, events := 0 }))

def swap (this other : Address) : EpollCall Ep Address Callback :=
  withObject this fun object =>
    withObject other fun otherObject state =>
      let state := (state.setObject this (some otherObject)).setObject other
        (some object)
      (update this state).bind (update other)

/-- An object does not live if its constructor throws. -/
def constructed (this : Address) (body : EpollCall Ep Address Callback) :
    EpollCall Ep Address Callback := fun state =>
  let outcome := body state
  if outcome.threw then
    { outcome with state := outcome.state.setObject this none }
  else
    outcome

def constructDefault (this : Address) : EpollCall Ep Address Callback :=
  fun state => .done (state.setObject this (some initial))

def constructRegistered (this : Address) (ep : Ep) (fd : Int)
    (events : UInt32) (callback : Option Callback) :
    EpollCall Ep Address Callback :=
  constructed this fun state =>
    Epoll.add fd events this ep
      (state.setObject this (some ⟨some ep, fd, events, callback⟩))

/-- The callback of the right-hand side is moved before its other members are
reset. -/
def constructMoved (this rhs : Address) : EpollCall Ep Address Callback :=
  withObject rhs fun object =>
    constructed this fun state =>
      let state := (state.setObject this (some object)).setObject rhs
        (some { object with callback := none })
      (update this state).bind fun state =>
        .done (state.setObject rhs (some initial))

def destroy (this : Address) : EpollCall Ep Address Callback := fun state =>
  (clear this state).bind fun state => .done (state.setObject this none)

/-- The parameter is destroyed when `swap` returns and when it throws. -/
def assign (this rhs : Address) : EpollCall Ep Address Callback :=
  fun state =>
    let swapped := swap this rhs state
    let destroyed := destroy rhs swapped.state
    ⟨destroyed.state, swapped.log ++ destroyed.log,
      swapped.threw || destroyed.threw⟩

end EpollRegistration

end Operations

/-- How a program makes a registration. -/
inductive Construction (Ep Address Callback : Type)
  | default
  | registered (ep : Ep) (fd : Int) (events : UInt32)
      (callback : Option Callback)
  | moved (rhs : Address)

/-- What a program does with registrations. The parameter of an assignment is
constructed at its own address. -/
inductive EpollOperation (Ep Address Callback : Type)
  | construct (this : Address)
      (construction : Construction Ep Address Callback)
  | assign (this parameter : Address)
      (construction : Construction Ep Address Callback)
  | swap (this other : Address)
  | clear (this : Address)
  | destroy (this : Address)

section Programs

variable {Ep Address Callback : Type} [DecidableEq Ep]
  [DecidableEq Address]

open EpollRegistration

def Construction.run (this : Address) :
    Construction Ep Address Callback → EpollCall Ep Address Callback
  | .default => constructDefault this
  | .registered ep fd events callback =>
      constructRegistered this ep fd events callback
  | .moved rhs => constructMoved this rhs

def EpollOperation.run :
    EpollOperation Ep Address Callback → EpollCall Ep Address Callback
  | .construct this construction => construction.run this
  | .assign this parameter construction => fun state =>
      (construction.run parameter state).bind
        (EpollRegistration.assign this parameter)
  | .swap this other => EpollRegistration.swap this other
  | .clear this => EpollRegistration.clear this
  | .destroy this => EpollRegistration.destroy this

namespace EpollState

def Alive (state : EpollState Ep Address Callback) (this : Address) : Prop :=
  state.objects this ≠ none

end EpollState

/-- A new object is made where none lives, and an object is only moved while it
is alive. -/
def Construction.Allowed (state : EpollState Ep Address Callback)
    (this : Address) : Construction Ep Address Callback → Prop
  | .default | .registered .. => ¬ state.Alive this
  | .moved rhs => ¬ state.Alive this ∧ state.Alive rhs

/-- A program only calls the members of objects that are alive. -/
def EpollOperation.Allowed (state : EpollState Ep Address Callback) :
    EpollOperation Ep Address Callback → Prop
  | .construct this construction => construction.Allowed state this
  | .assign this parameter construction =>
      state.Alive this ∧ construction.Allowed state parameter
  | .swap this other => state.Alive this ∧ state.Alive other
  | .clear this | .destroy this => state.Alive this

/-- The runs of a program, over any number of objects. -/
def epollSystem (Ep Address Callback : Type) [DecidableEq Ep]
    [DecidableEq Address] : StepSystem (EpollState Ep Address Callback) where
  init state := state = .boot
  step before after :=
    ∃ operation : EpollOperation Ep Address Callback,
      operation.Allowed before ∧ after = (operation.run before).state

end Programs

end Initd.Sysapi
