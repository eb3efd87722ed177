import Initd.Library.StepSystem
import Initd.Sysapi.Process
import Mathlib.Logic.Function.Basic

namespace Initd.Sysapi

open Library

/-- A `wait_child` is known by the child that it was made for. -/
structure SigchildHandler where
  handlers : Nat → Option Nat

namespace SigchildHandler

def empty : SigchildHandler := ⟨fun _ => none⟩

/-- There is no result where the assertion fails. -/
def add (pid waitChild : Nat) (handler : SigchildHandler) :
    Option SigchildHandler :=
  match handler.handlers pid with
  | some _ => none
  | none => some ⟨Function.update handler.handlers pid (some waitChild)⟩

def remove (pid : Nat) (handler : SigchildHandler) : Option SigchildHandler :=
  match handler.handlers pid with
  | none => none
  | some _ => some ⟨Function.update handler.handlers pid none⟩

end SigchildHandler

/-- Where the program makes its children: in a completion callback, or outside
of the handler of the signal. -/
inductive Caller
  | outside
  | callback
  deriving DecidableEq, Repr

/-- Where the program is. Between `fork` and the `wait_child` that is made of
its pid, and between the start of a callback and the reset of its operation,
which destroys the `wait_child`, nothing else is called. -/
inductive Phase
  | running (caller : Caller)
  | adding (caller : Caller) (process : Process)
  | reaping
  | removing (process : Process)
  | aborted
  deriving DecidableEq, Repr

/-- The handler of the signal has not returned. -/
def Phase.inHandler : Phase → Bool
  | .running .callback | .adding .callback _ | .reaping | .removing _ => true
  | _ => false

/-- A callback has started, and its `wait_child` is not destroyed yet. -/
def Phase.isRemoving : Phase → Bool
  | .removing _ => true
  | _ => false

/-- What was registered, has exited and was called so far is kept for the
statements, and nothing reads it. -/
structure ChildState where
  kernel : Kernel
  handler : SigchildHandler
  phase : Phase
  registered : List Nat
  exits : List ChildStatus
  called : List ChildStatus

namespace ChildState

def boot : ChildState where
  kernel := .boot
  handler := .empty
  phase := .running .outside
  registered := []
  exits := []
  called := []

/-- A child exits, or an orphan becomes a child, at any time. The rest is what
the program does: `finish` and `throw` are the ends of a callback. -/
inductive Action
  | exit (process : Process) (status : Int32)
  | adopt (pid : Nat)
  | fork (pid : Nat)
  | add
  | deliver
  | reap (child : Option ChildStatus)
  | remove
  | finish
  | throw
  deriving DecidableEq, Repr

def fork (pid : Nat) (state : ChildState) : Option ChildState :=
  match state.phase with
  | .running caller => do
      let (process, kernel) ← state.kernel.make pid
      return { state with kernel := kernel, phase := .adding caller process }
  | _ => none

/-- The constructor of a `wait_child`. -/
def add (state : ChildState) : Option ChildState :=
  match state.phase with
  | .adding caller process =>
      match state.handler.add process.pid process.child with
      | none => some { state with phase := .aborted }
      | some handler =>
          some { state with
            handler := handler
            phase := .running caller
            registered := process.child :: state.registered }
  | _ => none

def deliver (state : ChildState) : Option ChildState :=
  match state.phase with
  | .running .outside => do
      return { state with kernel := ← state.kernel.readSignal, phase := .reaping }
  | _ => none

/-- One turn of the loop, into the callback if there is one. -/
def reap (child : Option ChildStatus) (state : ChildState) :
    Option ChildState :=
  match state.phase with
  | .reaping => do
      let kernel ← state.kernel.reapChild child
      match child with
      | none => return { state with kernel := kernel, phase := .running .outside }
      | some ⟨process, status⟩ =>
          match state.handler.handlers process.pid with
          | none => return { state with kernel := kernel }
          | some waitChild =>
              return { state with
                kernel := kernel
                phase := .removing ⟨process.pid, waitChild⟩
                called := ⟨⟨process.pid, waitChild⟩, status⟩ :: state.called }
  | _ => none

/-- The destructor of the `wait_child` whose callback runs. -/
def remove (state : ChildState) : Option ChildState :=
  match state.phase with
  | .removing process =>
      match state.handler.remove process.pid with
      | none => some { state with phase := .aborted }
      | some handler =>
          some { state with handler := handler, phase := .running .callback }
  | _ => none

/-- An exception of a callback ends the loop too, and `epoll::wait` catches
it. -/
def throw (state : ChildState) : Option ChildState :=
  match state.phase with
  | .running .callback | .adding .callback _ =>
      some { state with phase := .running .outside }
  | _ => none

def finish (state : ChildState) : Option ChildState :=
  match state.phase with
  | .running .callback => some { state with phase := .reaping }
  | _ => none

def next : Action → ChildState → Option ChildState
  | .exit process status, state => do
      return { state with
        kernel := ← state.kernel.exit process status
        exits := ⟨process, status⟩ :: state.exits }
  | .adopt pid, state => do
      let (_, kernel) ← state.kernel.make pid
      return { state with kernel := kernel }
  | .fork pid, state => state.fork pid
  | .add, state => state.add
  | .deliver, state => state.deliver
  | .reap child, state => state.reap child
  | .remove, state => state.remove
  | .finish, state => state.finish
  | .throw, state => state.throw

def run (actions : List Action) : Option ChildState :=
  StepSystem.run next actions boot

end ChildState

end Initd.Sysapi
