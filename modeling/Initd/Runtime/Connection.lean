import Initd.Binstream.CtlProtocol

namespace Initd

open Library

/-! The read side of a control connection: `read_process` and its handler. -/

/-- How an operation of the `state_context` ends for the connection that calls
it.  It may have destroyed the connection when it returns or throws. -/
inductive Reply
  | returned
  | threw (what : Bytes)
  | tornDown (exception : Option Bytes)
  deriving DecidableEq, Repr

def Reply.returns : Reply → Bool
  | .returned | .tornDown none => true
  | .threw _ | .tornDown (some _) => false

/-- What the handler of a message calls on the connection that the message has
destroyed: `rp.clear_buffer()`, or `on_disconnect` for an exception. -/
inductive Misuse
  | clearBuffer
  | onDisconnect
  deriving DecidableEq, Repr

/-- A connection with the messages it has dispatched and the errors it has
reported.  One that is not `connected` is destroyed. -/
structure Connection where
  buffer : Bytes
  connected : Bool
  dispatched : List ControlMessage
  errors : List Bytes
  misuse : Option Misuse
  deriving DecidableEq, Repr

/-- The operation that a message calls may go by what was dispatched before. -/
abbrev ContextOperation := List ControlMessage → ControlMessage → Reply

namespace Connection

def opened : Connection := ⟨[], true, [], [], none⟩

/-- The handler of an exception, which calls `on_disconnect`. -/
def fail (what : Bytes) (connection : Connection) : Connection where
  buffer := []
  connected := false
  dispatched := connection.dispatched
  errors := connection.errors ++
    [ascii "error at handling control message: " ++ what ++ ascii "\n"]
  misuse := connection.misuse

/-- The handler after the operation of a message. -/
def ended (reply : Reply) (connection : Connection) : Connection :=
  match reply with
  | .returned => { connection with buffer := [] }
  | .threw what => connection.fail what
  -- the handler goes on, and has no connection any more
  | .tornDown none =>
      { connection with
        buffer := []
        connected := false
        misuse := some .clearBuffer }
  | .tornDown (some what) =>
      { connection.fail what with misuse := some .onDisconnect }

/-- The handler of `read_process`. -/
def onReady (operation : ContextOperation) (connection : Connection) : Connection :=
  match parseMessage connection.buffer with
  | .error what => connection.fail what
  | .ok none => connection
  | .ok (some message) =>
      let reply := operation connection.dispatched message
      ended reply { connection with
        dispatched := connection.dispatched ++ [message] }

/-- One read of the socket, while there is a connection. -/
def read (operation : ContextOperation) (chunk : Bytes) (connection : Connection) :
    Connection :=
  if connection.connected then
    onReady operation { connection with buffer := connection.buffer ++ chunk }
  else
    connection

def readAll (operation : ContextOperation) (chunks : List Bytes)
    (connection : Connection) : Connection :=
  chunks.foldl (fun connection chunk => connection.read operation chunk)
    connection

theorem ended_dispatched (reply : Reply) (connection : Connection) :
    (connection.ended reply).dispatched = connection.dispatched := by
  cases reply with
  | returned | threw => rfl
  | tornDown exception => cases exception <;> rfl

theorem ended_buffer (reply : Reply) (connection : Connection) :
    (connection.ended reply).buffer = [] := by
  cases reply with
  | returned | threw => rfl
  | tornDown exception => cases exception <;> rfl

/-! The connection as the receiver of a framing. -/

/-- The connection of a receiver, while every operation returns. -/
def ofReceiver (receiver : Framing.Receiver UInt8 ControlMessage Bytes) :
    Connection :=
  match receiver.error with
  | none => ⟨receiver.buffer, true, receiver.taken, [], none⟩
  | some what => fail what ⟨receiver.buffer, true, receiver.taken, [], none⟩

section Receiving

variable {padding : UInt8} {operation : ContextOperation}

theorem read_ofReceiver (chunk : Bytes)
    (receiver : Framing.Receiver UInt8 ControlMessage Bytes)
    (returns : ∀ message rest,
      ((controlFraming padding).receive chunk receiver).taken =
          receiver.taken ++ message :: rest →
        operation receiver.taken message = .returned) :
    (ofReceiver receiver).read operation chunk =
      ofReceiver ((controlFraming padding).receive chunk receiver) := by
  obtain ⟨buffer, taken, error⟩ := receiver
  cases error with
  | some what => rfl
  | none =>
      simp only [Framing.receive, controlFraming] at returns ⊢
      simp only [ofReceiver, read, if_true, onReady]
      cases parsed : parseMessage (buffer ++ chunk) with
      | error what => rfl
      | ok result =>
          cases result with
          | none => rfl
          | some message =>
              have returned : operation taken message = .returned :=
                returns message [] (by simp [parsed])
              simp [returned, ended]

/-- As long as the operations of the taken messages return, a connection does
what its receiver does. -/
theorem readAll_ofReceiver (chunks : List Bytes)
    (receiver : Framing.Receiver UInt8 ControlMessage Bytes)
    (returns : ∀ sent message rest,
      ((controlFraming padding).receiveAll chunks receiver).taken =
          sent ++ message :: rest →
        operation sent message = .returned) :
    (ofReceiver receiver).readAll operation chunks =
      ofReceiver ((controlFraming padding).receiveAll chunks receiver) := by
  induction chunks generalizing receiver with
  | nil => rfl
  | cons chunk rest induction =>
      have step : (ofReceiver receiver).read operation chunk =
          ofReceiver ((controlFraming padding).receive chunk receiver) := by
        refine read_ofReceiver chunk receiver fun message more taken => ?_
        obtain ⟨later, kept⟩ := Framing.taken_prefix rest
          ((controlFraming padding).receive chunk receiver)
        refine returns receiver.taken message (more ++ later) ?_
        rw [Framing.receiveAll_cons, ← kept, taken]
        simp
      rw [readAll, List.foldl_cons, step]
      exact induction _ returns

theorem readAll_append (first second : List Bytes) (connection : Connection) :
    connection.readAll operation (first ++ second) =
      (connection.readAll operation first).readAll operation second := by
  simp [readAll]

theorem readAll_nothing {chunks : List Bytes} (nothing : chunks.flatten = [])
    {connection : Connection} (empty : connection.buffer = []) :
    connection.readAll operation chunks = connection := by
  induction chunks with
  | nil => rfl
  | cons chunk rest induction =>
      obtain ⟨rfl, nothing⟩ := List.append_eq_nil_iff.mp nothing
      have still : connection.read operation [] = connection := by
        obtain ⟨buffer, connected, dispatched, errors⟩ := connection
        obtain rfl : buffer = [] := empty
        cases connected <;> rfl
      rw [readAll, List.foldl_cons, still]
      exact induction nothing

theorem exists_last_read {chunks : List Bytes} (some : chunks.flatten ≠ []) :
    ∃ earlier chunk later, chunks = earlier ++ chunk :: later ∧ chunk ≠ [] ∧
      later.flatten = [] := by
  induction chunks with
  | nil => exact absurd rfl some
  | cons chunk rest induction =>
      by_cases done : rest.flatten = []
      · refine ⟨[], chunk, rest, rfl, ?_, done⟩
        rintro rfl
        exact some done
      · obtain ⟨earlier, last, later, rfl, nonempty, nothing⟩ := induction done
        exact ⟨chunk :: earlier, last, later, rfl, nonempty, nothing⟩

theorem readAll_partly {message : ControlMessage}
    (small : message.measure ≤ messageLimit) {chunks : List Bytes}
    (start : chunks.flatten <+: message.encode padding)
    (unfinished : chunks.flatten ≠ message.encode padding) :
    opened.readAll operation chunks = ⟨chunks.flatten, true, [], [], none⟩ := by
  have received : (controlFraming padding).receiveAll chunks ⟨[], [], none⟩ =
      ⟨[] ++ chunks.flatten, [], none⟩ :=
    (controlFraming_takesAlone padding).receiveAll_partly small [] chunks start
      unfinished
  have none : opened.readAll operation chunks =
      ofReceiver ((controlFraming padding).receiveAll chunks ⟨[], [], none⟩) :=
    readAll_ofReceiver chunks ⟨[], [], none⟩ fun sent message rest taken => by
      rw [received] at taken
      simp at taken
  rw [none, received]
  rfl

end Receiving

/-- Messages that are sent back to back are all dispatched, and no error is
reported, exactly where every message ends together with a read. -/
theorem back_to_back_iff (padding : UInt8) (operation : ContextOperation)
    {messages : List ControlMessage} {chunks : List Bytes}
    (small : ∀ message ∈ messages, message.measure ≤ messageLimit)
    (returns : ∀ sent message rest, messages = sent ++ message :: rest →
      operation sent message = .returned)
    (written : serializeAll padding messages .empty = .ok ⟨chunks.flatten⟩) :
    ((opened.readAll operation chunks).dispatched = messages ∧
        (opened.readAll operation chunks).errors = []) ↔
      ∀ sent rest, messages = sent ++ rest →
        ∃ earlier later, chunks = earlier ++ later ∧
          serializeAll padding sent .empty = .ok ⟨earlier.flatten⟩ := by
  have takes := controlFraming_takesAlone padding
  have all : [] ++ chunks.flatten = (controlFraming padding).stream messages := by
    rw [serializeAll_eq small] at written
    exact (BinaryOutputStream.mk.inj (Except.ok.inj written)).symm
  obtain ⟨order, taken⟩ := takes.receiveAll_taken chunks [] small all
    fun message rest first => by
      refine List.length_pos_iff.mpr (takes.encode_ne_nil (small message ?_))
      rw [first]
      exact List.mem_cons_self
  have received : opened.readAll operation chunks =
      ofReceiver ((controlFraming padding).receiveAll chunks ⟨[], [], none⟩) := by
    refine readAll_ofReceiver chunks ⟨[], [], none⟩
      fun sent message rest split => ?_
    obtain ⟨later, whole⟩ := order
    refine returns sent message (rest ++ later) ?_
    rw [← List.nil_append messages, ← whole, split]
    simp
  have ends : ((opened.readAll operation chunks).dispatched = messages ∧
        (opened.readAll operation chunks).errors = []) ↔
      (controlFraming padding).CutsAt [] messages chunks := by
    rw [received, ← taken, List.nil_append]
    generalize (controlFraming padding).receiveAll chunks ⟨[], [], none⟩ =
      receiver
    obtain ⟨buffer, dispatched, error⟩ := receiver
    cases error <;> simp [ofReceiver, fail]
  rw [ends]
  have encoded : ∀ sent rest, messages = sent ++ rest →
      serializeAll padding sent .empty =
        .ok ⟨(controlFraming padding).stream sent⟩ := by
    rintro sent rest rfl
    exact serializeAll_eq
      (fun message member => small message (List.mem_append_left _ member)) .empty
  constructor
  · intro cuts sent rest split
    rw [encoded sent rest split]
    by_cases none : sent = []
    · exact ⟨[], chunks, rfl, by simp [none]⟩
    · obtain ⟨earlier, later, chunked, reached⟩ := cuts sent rest split none
      exact ⟨earlier, later, chunked, by rw [← reached]; rfl⟩
  · intro cuts sent rest split _
    obtain ⟨earlier, later, chunked, reached⟩ := cuts sent rest split
    rw [encoded sent rest split] at reached
    exact ⟨earlier, later, chunked,
      (BinaryOutputStream.mk.inj (Except.ok.inj reached)).symm⟩

theorem back_to_back_twoReads :
    (opened.readAll (fun _ _ => .returned)
      [[1, 0, 0, 0, 1, 0, 0, 0, 0], [1, 0, 0, 0, 2, 0, 0, 0, 0]]).dispatched =
        [.reboot, .powerOff] := by
  have small : ∀ message ∈ [ControlMessage.reboot, .powerOff],
      message.measure ≤ messageLimit := by
    simp [ControlMessage.measure, messageLimit]
  have written : serializeAll 0 [.reboot, .powerOff] .empty =
      .ok ⟨([[1, 0, 0, 0, 1, 0, 0, 0, 0], [1, 0, 0, 0, 2, 0, 0, 0, 0]] :
        List Bytes).flatten⟩ := rfl
  refine ((back_to_back_iff 0 (fun _ _ => .returned) small
    (fun _ _ _ _ => rfl) written).mpr ?_).1
  intro sent rest split
  cases sent with
  | nil => exact ⟨[], _, rfl, rfl⟩
  | cons first others =>
      obtain ⟨rfl, tail⟩ := List.cons.inj split
      cases others with
      | nil => exact ⟨[_], _, rfl, rfl⟩
      | cons second others =>
          obtain ⟨rfl, nothing⟩ := List.cons.inj tail
          obtain ⟨rfl, -⟩ := List.append_eq_nil_iff.mp nothing.symm
          exact ⟨[_, _], [], rfl, rfl⟩

/-- The same two messages in one read: the handler finds bytes behind the first
message, reports an error, and disconnects with nothing dispatched. -/
theorem back_to_back_oneRead :
    serializeAll 0 [.reboot, .powerOff] .empty =
        .ok ⟨[1, 0, 0, 0, 1, 0, 0, 0, 0, 1, 0, 0, 0, 2, 0, 0, 0, 0]⟩ ∧
      opened.readAll (fun _ _ => .returned)
          [[1, 0, 0, 0, 1, 0, 0, 0, 0, 1, 0, 0, 0, 2, 0, 0, 0, 0]] =
        ⟨[], false, [], [ascii "error at handling control message: " ++
          ascii "expected eof, but 9 bytes left" ++ ascii "\n"], none⟩ := by
  refine ⟨rfl, ?_⟩
  decide

end Connection

end Initd
