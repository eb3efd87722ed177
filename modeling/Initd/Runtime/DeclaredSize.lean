import Initd.Binstream.Decoding
import Initd.Runtime.Connection

namespace Initd

/-! The declared size of a frame, and what the handler makes of it. -/

/-- A frame of a message: its header gives the size of the payload and the id
of the message, and its payload is what the message is written as. -/
structure ControlFrame.WellFormed (buffer : Bytes) (message : ControlMessage) : Prop where
  header : 2 * 4 ≤ buffer.length
  size : declaredSize buffer = (framePayload buffer).length
  id : declaredId buffer = message.msgId
  payload : message.Encodes (framePayload buffer)

/-- The buffer holds as many bytes as its header declares. -/
def ControlFrame.Complete (buffer : Bytes) : Prop :=
  2 * 4 ≤ buffer.length ∧ declaredSize buffer ≤ (framePayload buffer).length

/-- A message under a header that declares fewer bytes than the message has,
and not more than the limit. -/
def ControlFrame.Undersized (buffer : Bytes) : Prop :=
  2 * 4 ≤ buffer.length ∧ declaredSize buffer ≤ messageLimit ∧
    declaredSize buffer < (framePayload buffer).length ∧
    ∃ message : ControlMessage, declaredId buffer = message.msgId ∧
      message.Encodes (framePayload buffer)

namespace Connection

open ControlFrame

/-- The handler calls the operation of a message. -/
def Dispatches (operation : ContextOperation) (connection : Connection)
    (message : ControlMessage) : Prop :=
  (connection.onReady operation).dispatched = connection.dispatched ++ [message]

/-- The handler goes by the declared size. -/
structure Authoritative (operation : ContextOperation)
    (connection : Connection) : Prop where
  dispatched : ∀ message, connection.Dispatches operation message →
    WellFormed connection.buffer message
  refused : Complete connection.buffer →
    (∀ message, ¬ WellFormed connection.buffer message) →
      ∃ what, connection.onReady operation = connection.fail what

variable {operation : ContextOperation} {connection other : Connection}
  {message : ControlMessage}

theorem dispatches_iff :
    connection.Dispatches operation message ↔
      parseMessage connection.buffer = .ok (some message) := by
  unfold Dispatches onReady
  cases parsed : parseMessage connection.buffer with
  | error what => simp [fail]
  | ok result =>
      cases result with
      | none => simp
      | some first => simp [ended_dispatched]

theorem fails_of_error {what : Bytes}
    (refused : parseMessage connection.buffer = .error what) :
    connection.onReady operation = connection.fail what := by
  rw [onReady, refused]

/-- A dispatch is that of a well-formed frame, or of an undersized one. -/
theorem Dispatches.cases (dispatches : connection.Dispatches operation message) :
    WellFormed connection.buffer message ∨ Undersized connection.buffer := by
  obtain ⟨header, small, whole, id, encodes⟩ :=
    parseMessage_eq_some.mp (dispatches_iff.mp dispatches)
  rcases Nat.eq_or_lt_of_le whole with same | fewer
  · exact .inl ⟨header, same, id, encodes⟩
  · exact .inr ⟨header, small, fewer, message, id, encodes⟩

theorem undersized_dispatches (operation : ContextOperation)
    (undersized : Undersized connection.buffer) :
    ∃ message, connection.Dispatches operation message := by
  obtain ⟨header, small, fewer, message, id, encodes⟩ := undersized
  exact ⟨message, dispatches_iff.mpr (parseMessage_eq_some.mpr
    ⟨header, small, Nat.le_of_lt fewer, id, encodes⟩)⟩

/-- A buffer that is refused, or that is dispatched as a well-formed frame,
is one that the declared size decides. -/
theorem authoritative_of_not_undersized
    (exactly : ¬ Undersized connection.buffer) :
    connection.Authoritative operation := by
  have dispatched : ∀ message, connection.Dispatches operation message →
      WellFormed connection.buffer message :=
    fun message dispatches => dispatches.cases.resolve_right exactly
  refine ⟨dispatched, fun complete notFrame => ?_⟩
  cases parsed : parseMessage connection.buffer with
  | error what => exact ⟨what, fails_of_error parsed⟩
  | ok result =>
      cases result with
      | none =>
          have waits := parseMessage_eq_none.mp parsed
          have header := complete.1
          have whole := complete.2
          omega
      | some message =>
          exact absurd (dispatched message (dispatches_iff.mpr parsed))
            (notFrame message)

theorem not_wellFormed_of_undersized {buffer : Bytes}
    (undersized : Undersized buffer) : ¬ WellFormed buffer message := by
  intro wellFormed
  have fewer := undersized.2.2.1
  rw [wellFormed.size] at fewer
  exact absurd fewer (Nat.lt_irrefl _)

/-- The handler goes by the declared size of every buffer but an undersized
one; and of two buffers that only differ in their declared sizes it dispatches
one at most, unless one is undersized. -/
theorem declaredSize_authoritative (operation : ContextOperation)
    (connection : Connection) :
    (connection.Authoritative operation ↔ ¬ Undersized connection.buffer) ∧
      ∀ other : Connection,
        other.buffer.drop 4 = connection.buffer.drop 4 →
        declaredSize other.buffer ≠ declaredSize connection.buffer →
        (∃ message, connection.Dispatches operation message) →
        (∃ message, other.Dispatches operation message) →
          Undersized connection.buffer ∨ Undersized other.buffer := by
  constructor
  · constructor
    · intro authoritative undersized
      obtain ⟨message, dispatches⟩ :=
        undersized_dispatches operation undersized
      exact not_wellFormed_of_undersized undersized
        (authoritative.dispatched message dispatches)
    · exact authoritative_of_not_undersized
  · rintro other sameRest differs ⟨message, first⟩ ⟨otherMessage, second⟩
    rcases first.cases with wellFormed | undersized
    · rcases second.cases with otherWellFormed | undersized
      · refine absurd ?_ differs
        have samePayload : framePayload other.buffer =
            framePayload connection.buffer :=
          calc framePayload other.buffer
              = (other.buffer.drop 4).drop 4 := by rw [List.drop_drop]; rfl
            _ = (connection.buffer.drop 4).drop 4 := by rw [sameRest]
            _ = framePayload connection.buffer := by rw [List.drop_drop]; rfl
        rw [otherWellFormed.size, wellFormed.size, samePayload]
      · exact .inr undersized
    · exact .inl undersized

/-- A `reboot_msg` is dispatched under a header that declares none of its
bytes, as it is under its own. -/
theorem undeclared_reboot_dispatched :
    ¬ Authoritative (fun _ _ => .returned)
        ⟨[0, 0, 0, 0, 1, 0, 0, 0, 0], true, [], [], none⟩ ∧
      Dispatches (fun _ _ => .returned)
        ⟨[0, 0, 0, 0, 1, 0, 0, 0, 0], true, [], [], none⟩ .reboot ∧
      Dispatches (fun _ _ => .returned)
        ⟨[1, 0, 0, 0, 1, 0, 0, 0, 0], true, [], [], none⟩ .reboot := by
  have undeclared : Dispatches (fun _ _ => .returned)
      ⟨[0, 0, 0, 0, 1, 0, 0, 0, 0], true, [], [], none⟩ .reboot := rfl
  refine ⟨fun authoritative => ?_, undeclared, rfl⟩
  have size := (authoritative.dispatched .reboot undeclared).size
  simp [declaredSize, framePayload, uint32OfBytes] at size

end Connection

end Initd
