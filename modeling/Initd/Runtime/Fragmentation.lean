import Initd.Runtime.Connection
import Initd.Runtime.Control

namespace Initd

open Library

/-! A message that comes in fragments. -/

/-- How the operation of a message ends for the connection `id` of the control
task `t`, which calls it.  Where it throws, `what` is the text of the
exception. -/
def Context.reply {n : Nat} (graph : TaskGraph n) (environment : Environment n)
    (t : Fin n) (id : Nat) (what : Bytes) (ctx : Context n)
    (message : ControlMessage) : Reply :=
  match ctx.dispatch graph environment message with
  | none => .returned
  | some call =>
      if id ∈ (call.state.state.tasks t).handle.connections then
        if call.threw then .threw what else .returned
      else
        .tornDown (if call.threw then some what else none)

/-- An operation of the `context` that returns has destroyed the connection
exactly where the message does not keep the control task up and nothing that is
up depends on it. -/
theorem Context.reply_tornDown_iff {n : Nat} {graph : TaskGraph n}
    {environment : Environment n} {ctx : Context n} {t : Fin n} {id : Nat}
    {what : Bytes} {message : ControlMessage}
    (counters : InitdState.Counters graph ctx.state)
    (live : id ∈ (ctx.state.tasks t).handle.connections)
    (running : (ctx.state.tasks t).handle.isRunning = true)
    {call : ContextCall n}
    (dispatched : ctx.dispatch graph environment message = some call)
    (returned : call.threw = false) :
    ctx.reply graph environment t id what message = .tornDown none ↔
      ¬ KeepsConnections graph message t ctx := by
  have kept := connections_dispatch counters live running dispatched returned
  unfold KeepsConnections
  rw [← kept]
  simp only [reply, dispatched, returned]
  split
  · next stays => simp [stays]
  · next gone => simp [gone]

namespace Connection

open Context

/-- Nothing happens before the message is whole; then its operation is called
once, and if it returns, the connection is as when it was opened, but for the
message that it has dispatched. -/
structure Tolerates (operation : ContextOperation) (message : ControlMessage)
    (chunks : List Bytes) : Prop where
  waits : ∀ earlier later, chunks = earlier ++ later →
    earlier.flatten ≠ chunks.flatten →
      opened.readAll operation earlier = ⟨earlier.flatten, true, [], [], none⟩
  dispatches : (opened.readAll operation chunks).dispatched = [message]
  empties : (operation [] message).returns = true →
    opened.readAll operation chunks = { opened with dispatched := [message] }

section Fragments

variable {padding : UInt8} {operation : ContextOperation}
  {message : ControlMessage} {chunks : List Bytes}

theorem readAll_waits (small : message.measure ≤ messageLimit)
    (whole : chunks.flatten = message.encode padding)
    {earlier later : List Bytes} (split : chunks = earlier ++ later)
    (unfinished : earlier.flatten ≠ chunks.flatten) :
    opened.readAll operation earlier =
      ⟨earlier.flatten, true, [], [], none⟩ := by
  refine readAll_partly small ⟨later.flatten, ?_⟩ (whole ▸ unfinished)
  rw [← whole, split, List.flatten_append]

/-- The last read that brings something ends with the operation, and the reads
after it change nothing. -/
theorem readAll_whole (small : message.measure ≤ messageLimit)
    (whole : chunks.flatten = message.encode padding) :
    opened.readAll operation chunks =
      ended (operation [] message)
        ⟨message.encode padding, true, [message], [], none⟩ := by
  have takes := controlFraming_takesAlone padding
  have something : chunks.flatten ≠ [] := by
    rw [whole]
    exact takes.encode_ne_nil small
  obtain ⟨earlier, chunk, later, split, nonempty, nothing⟩ :=
    exists_last_read something
  have ends : earlier.flatten ++ chunk = message.encode padding := by
    rw [← whole, split]
    simp [nothing]
  have before : opened.readAll operation earlier =
      ⟨earlier.flatten, true, [], [], none⟩ := by
    refine readAll_waits small whole split fun same => ?_
    rw [whole, ← ends] at same
    simp [nonempty] at same
  have dispatches : parseMessage (message.encode padding) = .ok (some message) :=
    takes.whole message small
  calc opened.readAll operation chunks
      = (onReady operation ⟨earlier.flatten ++ chunk, true, [], [], none⟩).readAll
          operation later := by
        rw [split, readAll_append, before]
        rfl
    _ = (ended (operation [] message)
          ⟨message.encode padding, true, [message], [], none⟩).readAll
            operation later := by
        rw [ends, onReady, dispatches]
        rfl
    _ = _ := readAll_nothing nothing (ended_buffer _ _)

end Fragments

/-- However the bytes of a message are divided into reads, nothing happens
before the last of them and then its operation is called once; and the
connection is in order after an operation that returns, unless that has
destroyed it. -/
theorem fragmentation_iff (padding : UInt8) (operation : ContextOperation)
    {message : ControlMessage} (small : message.measure ≤ messageLimit) :
    ∃ bytes, message.serialize padding .empty = .ok ⟨bytes⟩ ∧
      ∀ chunks : List Bytes, chunks.flatten = bytes →
        (Tolerates operation message chunks ↔
          operation [] message ≠ .tornDown none) := by
  refine ⟨message.encode padding, ControlMessage.serialize_eq small .empty, ?_⟩
  intro chunks whole
  have last : opened.readAll operation chunks = _ := readAll_whole small whole
  constructor
  · intro tolerates destroyed
    have empties := tolerates.empties (by rw [destroyed]; rfl)
    rw [last, destroyed] at empties
    simp [ended, opened] at empties
  · intro kept
    refine ⟨fun earlier later => readAll_waits small whole, ?_, fun returns => ?_⟩
    · rw [last, ended_dispatched]
    · rw [last]
      cases reply : operation [] message with
      | returned => rfl
      | threw what => simp [reply, Reply.returns] at returns
      | tornDown exception =>
          cases exception with
          | none => exact absurd reply kept
          | some what => simp [reply, Reply.returns] at returns

/-- A `set_runlevel_msg` in three reads, the second of which is empty. -/
theorem fragmentation_setRunlevel :
    Tolerates (fun _ _ => .returned) (.setRunlevel [105, 110, 105])
      [[7, 0, 0, 0, 3], [], [0, 0, 0, 3, 0, 0, 0, 105, 110, 105]] := by
  have small : (ControlMessage.setRunlevel [105, 110, 105]).measure ≤
      messageLimit := by decide
  obtain ⟨bytes, written, received⟩ :=
    fragmentation_iff 0 (fun _ _ => .returned) small
  have encoded : bytes =
      [7, 0, 0, 0, 3, 0, 0, 0, 3, 0, 0, 0, 105, 110, 105] := by
    have evaluated : (ControlMessage.setRunlevel [105, 110, 105]).serialize 0
        .empty = .ok ⟨[7, 0, 0, 0, 3, 0, 0, 0, 3, 0, 0, 0, 105, 110, 105]⟩ := rfl
    exact BinaryOutputStream.mk.inj (Except.ok.inj (written.symm.trans evaluated))
  have whole : ([[7, 0, 0, 0, 3], [],
      [0, 0, 0, 3, 0, 0, 0, 105, 110, 105]] : List Bytes).flatten = bytes :=
    encoded.symm
  exact (received _ whole).mpr (by simp)

/-- What the one connection of `connectedAlone` is answered. -/
def operationAlone : ContextOperation := fun _ =>
  connectedAlone.reply serviceOverControl.graph answering controlTask 0 []

theorem connectedAlone_reachable :
    (contextSystem serviceOverControl fun _ => True).Reachable connectedAlone :=
  reachable_of_run trivial (.init (startContext_init trivial))
    (Option.some_get _).symm

theorem operationAlone_reboot : operationAlone [] .reboot = .tornDown none := by
  have counters := (reachable_sound connectedAlone_reachable).safe.counters
  have dispatched : connectedAlone.dispatch serviceOverControl.graph answering
      .reboot = some rebootAlone := (Option.some_get _).symm
  refine (reply_tornDown_iff counters (by decide) (by decide) dispatched
    (by decide +kernel)).mpr ?_
  rintro (keeps | above)
  · exact keeps
  · exact absurd above (by decide)

/-- A `reboot_msg` in two reads, on a connection to a control task that nothing
that is up depends on: the handler calls `clear_buffer` on a connection that
the reboot has destroyed. -/
theorem fragmentation_rebootAlone :
    (contextSystem serviceOverControl fun _ => True).Reachable connectedAlone ∧
      0 ∈ (connectedAlone.state.tasks controlTask).handle.connections ∧
      ControlMessage.reboot.serialize 0 .empty =
        .ok ⟨[1, 0, 0, 0, 1, 0, 0, 0, 0]⟩ ∧
      (operationAlone [] .reboot).returns = true ∧
      opened.readAll operationAlone [[1, 0, 0, 0], [1, 0, 0, 0, 0]] =
        ⟨[], false, [.reboot], [], some .clearBuffer⟩ ∧
      ¬ Tolerates operationAlone .reboot [[1, 0, 0, 0], [1, 0, 0, 0, 0]] := by
  have returns : (operationAlone [] .reboot).returns = true := by
    rw [operationAlone_reboot]
    rfl
  have destroyed : opened.readAll operationAlone
      [[1, 0, 0, 0], [1, 0, 0, 0, 0]] =
        ⟨[], false, [.reboot], [], some .clearBuffer⟩ := by
    have small : ControlMessage.reboot.measure ≤ messageLimit := by decide
    have whole : ([[1, 0, 0, 0], [1, 0, 0, 0, 0]] : List Bytes).flatten =
      ControlMessage.reboot.encode 0 := rfl
    rw [readAll_whole small whole, operationAlone_reboot]
    rfl
  refine ⟨connectedAlone_reachable, by decide, rfl, returns, destroyed,
    fun tolerates => ?_⟩
  have empties := tolerates.empties returns
  rw [destroyed] at empties
  simp [opened] at empties

end Connection

end Initd
