import Initd.Binstream.CtlProtocol

namespace Initd.Initctl

/-! `initctl`, from its command line to what it writes to the control socket. -/

def usage (program : Bytes) : Bytes :=
  program ++ ascii " reboot\n    reboot computer\n\n" ++
    program ++ ascii " poweroff\n    turn computer off\n\n" ++
    program ++ ascii " runlevel <runlevel name>\n    set current runlevel\n\n"

def serializeAction (padding : UInt8) (action : Bytes) (more : List Bytes) :
    Except Bytes BinaryOutputStream :=
  if action = ascii "reboot" then
    ControlMessage.reboot.serialize padding .empty
  else if action = ascii "poweroff" then
    ControlMessage.powerOff.serialize padding .empty
  else if action = ascii "runlevel" then
    match more with
    | [] => .error (ascii "expected runlevel name")
    | runlevelName :: _ =>
        (ControlMessage.setRunlevel runlevelName).serialize padding .empty
  else
    .error (ascii "unknown action: \"" ++ action ++ ascii "\"")

/-- What a run has handed to `fd.write` on its socket, what it has printed to
`cerr`, and its exit code. -/
structure Run where
  sends : Option Bytes
  cerr : Bytes
  exitCode : Nat
  deriving DecidableEq, Repr

def caught (what : Bytes) : Bytes := ascii "error: " ++ what ++ ascii "\n"

/-- `arguments` are those after the name of the program; `connected` and
`written` are what the system calls on the socket throw. -/
def main (padding : UInt8) (program : Bytes) (arguments : List Bytes)
    (connected written : Except Bytes Unit) : Run :=
  match arguments with
  | [] => ⟨none, usage program, 1⟩
  | action :: more =>
      match connected with
      | .error what => ⟨none, caught what, 0⟩
      | .ok _ =>
          match serializeAction padding action more with
          | .error what => ⟨none, caught what, 0⟩
          | .ok stream =>
              match written with
              | .error what => ⟨some stream.buffer, caught what, 0⟩
              | .ok _ => ⟨some stream.buffer, [], 0⟩

/-- What the first argument asks for, with those after it. -/
def requested (action : Bytes) (more : List Bytes) : Option ControlMessage :=
  if action = ascii "reboot" then
    some .reboot
  else if action = ascii "poweroff" then
    some .powerOff
  else if action = ascii "runlevel" then
    more.head?.map .setRunlevel
  else
    none

def request : List Bytes → Option ControlMessage
  | [] => none
  | action :: more => requested action more

/-- The kernel gives no longer argument to a program, by its terminator. -/
def argumentLimit : Nat := 131072

def Passable (arguments : List Bytes) : Prop :=
  ∀ argument ∈ arguments, argument.length < argumentLimit

instance {arguments : List Bytes} : Decidable (Passable arguments) :=
  inferInstanceAs (Decidable (∀ argument ∈ arguments, _))

section Sends

variable {action : Bytes} {more arguments : List Bytes}
  {message : ControlMessage}

theorem requested_measure (passable : Passable more)
    (asks : requested action more = some message) :
    message.measure ≤ messageLimit := by
  unfold requested at asks
  split_ifs at asks
  · obtain rfl := Option.some.inj asks
    decide
  · obtain rfl := Option.some.inj asks
    decide
  · obtain ⟨runlevelName, first, rfl⟩ := Option.map_eq_some_iff.mp asks
    have short := passable runlevelName (List.mem_of_head? first)
    simp only [argumentLimit] at short
    simp only [ControlMessage.measure, measureString, messageLimit]
    omega

theorem request_measure (passable : Passable arguments)
    (asks : request arguments = some message) :
    message.measure ≤ messageLimit := by
  cases arguments with
  | nil => cases asks
  | cons action more =>
      exact requested_measure (List.forall_mem_cons.mp passable).2 asks

theorem serializeAction_of_some (padding : UInt8)
    (asks : requested action more = some message) :
    serializeAction padding action more = message.serialize padding .empty := by
  unfold requested at asks
  unfold serializeAction
  split_ifs at asks ⊢
  · rw [Option.some.inj asks]
  · rw [Option.some.inj asks]
  · cases more with
    | nil => cases asks
    | cons runlevelName rest => rw [← Option.some.inj asks]

theorem serializeAction_of_none (padding : UInt8)
    (refuses : requested action more = none) :
    ∃ what, serializeAction padding action more = .error what := by
  unfold requested at refuses
  unfold serializeAction
  split_ifs at refuses ⊢
  · cases more with
    | nil => exact ⟨_, rfl⟩
    | cons runlevelName rest => cases refuses
  · exact ⟨_, rfl⟩

/-- A connected run writes the message that its command line asks for, and
nothing where it asks for none. -/
theorem main_sends (padding : UInt8) (program : Bytes)
    (passable : Passable arguments) (written : Except Bytes Unit) :
    (main padding program arguments (.ok ()) written).sends =
      (request arguments).map (ControlMessage.encode padding) := by
  cases arguments with
  | nil => rfl
  | cons action more =>
      cases asked : requested action more with
      | none =>
          obtain ⟨what, refused⟩ := serializeAction_of_none padding asked
          simp only [main, refused, request, asked, Option.map_none]
      | some message =>
          have small := request_measure passable asked
          have serialized : serializeAction padding action more =
              .ok ⟨message.encode padding⟩ := by
            rw [serializeAction_of_some padding asked]
            exact ControlMessage.serialize_eq small .empty
          simp only [main, serialized, request, asked, Option.map_some]
          cases written <;> rfl

end Sends

end Initd.Initctl
