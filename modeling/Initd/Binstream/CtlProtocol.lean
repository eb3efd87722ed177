import Initd.Binstream.BinaryStream
import Initd.Library.Framing
import Initd.Runtime.Context

namespace Initd

open Library

/-! `ctl_protocol`: the messages, and what the read handler of a control
connection makes of its buffer. -/

def rebootMsgId : Nat := 1

def powerOffMsgId : Nat := 2

def setRunlevelMsgId : Nat := 3

namespace ControlMessage

def msgId : ControlMessage → Nat
  | .reboot => rebootMsgId
  | .powerOff => powerOffMsgId
  | .setRunlevel _ => setRunlevelMsgId

/-- An empty struct has a size of one byte. -/
def measure : ControlMessage → Nat
  | .reboot | .powerOff => 1
  | .setRunlevel runlevelName => measureString runlevelName

/-- `padding` is what the one byte of an empty struct holds. -/
def write (padding : UInt8) (message : ControlMessage)
    (s : BinaryOutputStream) : Except Bytes BinaryOutputStream :=
  match message with
  | .reboot | .powerOff => .ok (s.write [padding])
  | .setRunlevel runlevelName => s.writeString runlevelName

def serialize (padding : UInt8) (message : ControlMessage)
    (s : BinaryOutputStream) : Except Bytes BinaryOutputStream :=
  let size := truncateToUint32 message.measure
  let s := s.writeUint32 size
  let s := s.writeUint32 message.msgId
  message.write padding s

end ControlMessage

/-- The longest control message, by the size in its header. -/
def messageLimit : Nat := 1024 * 1024

open BinaryInputStream in
/-- The branch of the read handler for a message id, up to its dispatch. -/
def readMessage (msgId : Nat) : ReadStreamM ControlMessage := do
  if msgId = rebootMsgId then
    let _ ← read 1
    expectEof
    return .reboot
  else if msgId = powerOffMsgId then
    let _ ← read 1
    expectEof
    return .powerOff
  else if msgId = setRunlevelMsgId then
    let runlevelName ← readString
    expectEof
    return .setRunlevel runlevelName
  else
    throw (ascii "unknown message id: " ++ ascii (toString msgId))

open BinaryInputStream in
/-- The read handler up to its dispatch, on a buffer that holds a header. -/
def readHeader : ReadStreamM (Option ControlMessage) := do
  let size ← readUint32
  if size > messageLimit then
    throw (ascii "control message is too long, size: " ++
      ascii (toString size) ++ ascii ", limit: " ++
      ascii (toString messageLimit) ++ ascii "\n")
  let msgId ← readUint32
  let s ← get
  if s.left < size then
    return none
  some <$> readMessage msgId

/-- The read handler up to its dispatch.  There is nothing to dispatch yet
where the buffer does not hold a whole message. -/
def parseMessage (buffer : Bytes) : Except Bytes (Option ControlMessage) :=
  if buffer.length < 2 * 4 then
    .ok none
  else
    readHeader.run' ⟨buffer⟩

namespace ControlMessage

variable {padding : UInt8} {message : ControlMessage}

def payload (padding : UInt8) : ControlMessage → Bytes
  | .reboot | .powerOff => [padding]
  | .setRunlevel runlevelName => uint32Bytes runlevelName.length ++ runlevelName

def encode (padding : UInt8) (message : ControlMessage) : Bytes :=
  uint32Bytes message.measure ++
    (uint32Bytes message.msgId ++ message.payload padding)

theorem payload_length : (message.payload padding).length = message.measure := by
  cases message <;> simp [payload, measure, measureString]

theorem encode_length :
    (message.encode padding).length = 2 * 4 + message.measure := by
  simp only [encode, List.length_append, uint32Bytes_length, payload_length]
  omega

theorem msgId_lt : message.msgId < 2 ^ 32 := by
  cases message <;> simp [msgId, rebootMsgId, powerOffMsgId, setRunlevelMsgId]

/-- A message within the limit is written as its header and its payload. -/
theorem serialize_eq (small : message.measure ≤ messageLimit)
    (s : BinaryOutputStream) :
    message.serialize padding s = .ok ⟨s.buffer ++ message.encode padding⟩ := by
  have fits : message.measure < 2 ^ 32 :=
    Nat.lt_of_le_of_lt small (by decide)
  have header : message.serialize padding s =
      message.write padding
        ((s.writeUint32 message.measure).writeUint32 message.msgId) := by
    rw [serialize, truncateToUint32_of_lt fits]
  rw [header]
  cases message with
  | reboot => simp [write, BinaryOutputStream.writeUint32,
      BinaryOutputStream.write, encode, payload]
  | powerOff => simp [write, BinaryOutputStream.writeUint32,
      BinaryOutputStream.write, encode, payload]
  | setRunlevel runlevelName =>
      have short : runlevelName.length < 2 ^ 32 := by
        simp only [measure, measureString] at fits
        omega
      simp [write, BinaryOutputStream.writeString, truncateToUint32_of_lt short,
        BinaryOutputStream.writeUint32, BinaryOutputStream.write, encode, payload]

open BinaryInputStream

theorem readHeader_append (small : message.measure ≤ messageLimit)
    (received : Bytes) :
    readHeader ⟨uint32Bytes message.measure ++
        (uint32Bytes message.msgId ++ received)⟩ =
      if received.length < message.measure then
        .ok (none, ⟨received⟩)
      else
        (some <$> readMessage message.msgId) ⟨received⟩ := by
  have fits : message.measure < 2 ^ 32 :=
    Nat.lt_of_le_of_lt small (by decide)
  rw [readHeader, bind_of_ok (readUint32_append fits _), if_neg (by omega)]
  beta_reduce
  rw [bind_of_ok (readUint32_append msgId_lt _)]
  have here : (get : ReadStreamM BinaryInputStream) ⟨received⟩ =
      .ok (⟨received⟩, ⟨received⟩) := rfl
  rw [bind_of_ok here, left]
  split <;> rfl

/-- A whole message is read to its last byte, and nothing may follow it. -/
theorem readMessage_append (small : message.measure ≤ messageLimit)
    (next : Bytes) :
    (next = [] → readMessage message.msgId ⟨message.payload padding ++ next⟩ =
        .ok (message, ⟨[]⟩)) ∧
      (next ≠ [] → ∃ error,
        readMessage message.msgId ⟨message.payload padding ++ next⟩ =
          .error error) := by
  have single : ∀ answer : ControlMessage, (do
      let _ ← read 1
      expectEof
      return answer : ReadStreamM ControlMessage) ⟨[padding] ++ next⟩ =
        (do
          expectEof
          return answer : ReadStreamM ControlMessage) ⟨next⟩ :=
    fun answer => bind_of_ok (read_append [padding] next)
  have ends : ∀ answer : ControlMessage,
      (next = [] → (do
        expectEof
        return answer : ReadStreamM ControlMessage) ⟨next⟩ =
          .ok (answer, ⟨[]⟩)) ∧
        (next ≠ [] → ∃ error, (do
          expectEof
          return answer : ReadStreamM ControlMessage) ⟨next⟩ =
            .error error) := by
    intro answer
    constructor
    · rintro rfl
      exact bind_of_ok expectEof_nil
    · intro more
      obtain ⟨error, refused⟩ := expectEof_of_ne more
      exact ⟨error, bind_of_error refused⟩
  cases message with
  | reboot =>
      have branch : readMessage (msgId .reboot)
          ⟨payload padding .reboot ++ next⟩ = _ := single .reboot
      rw [branch]
      exact ends .reboot
  | powerOff =>
      have branch : readMessage (msgId .powerOff)
          ⟨payload padding .powerOff ++ next⟩ = _ := single .powerOff
      rw [branch]
      exact ends .powerOff
  | setRunlevel runlevelName =>
      have short : runlevelName.length < 2 ^ 32 := by
        have room : messageLimit < 2 ^ 32 := by decide
        simp only [measure, measureString] at small
        omega
      have named : readString
          ⟨payload padding (.setRunlevel runlevelName) ++ next⟩ =
            .ok (runlevelName, ⟨next⟩) := by
        rw [payload, List.append_assoc]
        exact readString_append short next
      have branch : readMessage (msgId (.setRunlevel runlevelName))
          ⟨payload padding (.setRunlevel runlevelName) ++ next⟩ = _ :=
        bind_of_ok named
      rw [branch]
      exact ends (.setRunlevel runlevelName)

theorem parseMessage_append (small : message.measure ≤ messageLimit)
    (received : Bytes) :
    parseMessage (uint32Bytes message.measure ++
        (uint32Bytes message.msgId ++ received)) =
      if received.length < message.measure then
        .ok none
      else
        Prod.fst <$> (some <$> readMessage message.msgId) ⟨received⟩ := by
  have long : ¬ (uint32Bytes message.measure ++
      (uint32Bytes message.msgId ++ received)).length < 2 * 4 := by
    simp only [List.length_append, uint32Bytes_length]
    omega
  rw [parseMessage, if_neg long, StateT.run'_eq, StateT.run,
    readHeader_append small]
  split <;> rfl

theorem header_prefix {received : Bytes}
    (start : received <+: message.encode padding)
    (long : 2 * 4 ≤ received.length) :
    ∃ body, received = uint32Bytes message.measure ++
      (uint32Bytes message.msgId ++ body) := by
  have header : uint32Bytes message.measure ++ uint32Bytes message.msgId <+:
      message.encode padding := ⟨message.payload padding, by simp [encode]⟩
  obtain ⟨body, split⟩ :=
    List.prefix_of_prefix_length_le header start (by simpa using long)
  exact ⟨body, by rw [← split, List.append_assoc]⟩

end ControlMessage

/-- The control protocol as a framing: a message is taken at its last byte,
where it is alone in the buffer. -/
def controlFraming (padding : UInt8) : Framing UInt8 ControlMessage Bytes where
  encode := ControlMessage.encode padding
  parse := parseMessage

theorem controlFraming_takesAlone (padding : UInt8) :
    (controlFraming padding).TakesAlone
      fun message => message.measure ≤ messageLimit where
  empty := rfl
  partly message small received start unfinished := by
    by_cases long : received.length < 2 * 4
    · exact if_pos long
    · obtain ⟨body, rfl⟩ :=
        ControlMessage.header_prefix start (Nat.not_lt.mp long)
      have waiting : body.length < message.measure := by
        have shorter := lt_of_le_of_ne start.length_le fun same =>
          unfinished (start.eq_of_length same)
        have total : ((controlFraming padding).encode message).length = _ :=
          ControlMessage.encode_length
        rw [total] at shorter
        simp only [List.length_append, uint32Bytes_length] at shorter
        omega
      exact (ControlMessage.parseMessage_append small body).trans
        (if_pos waiting)
  whole message small := by
    have all : (message.payload padding).length = message.measure :=
      ControlMessage.payload_length
    have read : readMessage message.msgId ⟨message.payload padding ++ []⟩ =
        .ok (message, ⟨[]⟩) := (ControlMessage.readMessage_append small []).1 rfl
    rw [List.append_nil] at read
    refine (ControlMessage.parseMessage_append small _).trans ?_
    rw [if_neg (by omega)]
    simp [Functor.map, StateT.map, bind, Except.bind, Except.map, read, pure,
      Except.pure]
  beyond message small next more := by
    have all : (message.payload padding).length = message.measure :=
      ControlMessage.payload_length
    obtain ⟨error, refused⟩ : ∃ error, readMessage message.msgId
        ⟨message.payload padding ++ next⟩ = .error error :=
      (ControlMessage.readMessage_append small next).2 more
    refine ⟨error, ?_⟩
    have split : message.encode padding ++ next =
        uint32Bytes message.measure ++
          (uint32Bytes message.msgId ++ (message.payload padding ++ next)) := by
      simp [ControlMessage.encode]
    refine (congrArg parseMessage split).trans
      ((ControlMessage.parseMessage_append small _).trans ?_)
    rw [if_neg (by rw [List.length_append]; omega)]
    simp [Functor.map, StateT.map, bind, Except.bind, Except.map, refused]

def serializeAll (padding : UInt8) (messages : List ControlMessage)
    (s : BinaryOutputStream) : Except Bytes BinaryOutputStream :=
  messages.foldlM (fun s message => message.serialize padding s) s

theorem serializeAll_eq {padding : UInt8} {messages : List ControlMessage}
    (small : ∀ message ∈ messages, message.measure ≤ messageLimit)
    (s : BinaryOutputStream) :
    serializeAll padding messages s =
      .ok ⟨s.buffer ++ (controlFraming padding).stream messages⟩ := by
  induction messages generalizing s with
  | nil => simp [serializeAll, pure, Except.pure]
  | cons message rest induction =>
      have first : message.serialize padding s = _ :=
        ControlMessage.serialize_eq (small message List.mem_cons_self) s
      have others := induction
        (fun next member => small next (List.mem_cons_of_mem _ member))
        ⟨s.buffer ++ message.encode padding⟩
      rw [serializeAll, List.foldlM_cons, first, Framing.stream_cons,
        ← List.append_assoc]
      exact others

end Initd
