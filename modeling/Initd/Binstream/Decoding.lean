import Initd.Binstream.CtlProtocol

namespace Initd

/-! What is read off a stream is what was written there. -/

theorem uint8_ofNat {number : Nat} {byte : UInt8}
    (low : number % 2 ^ 8 = byte.toNat) : UInt8.ofNat number = byte :=
  UInt8.toNat_inj.mp (UInt8.toNat_ofNat'.trans low)

theorem uint32OfBytes_four (first second third fourth : UInt8) :
    uint32OfBytes [first, second, third, fourth] =
      first.toNat + 2 ^ 8 * (second.toNat + 2 ^ 8 *
        (third.toNat + 2 ^ 8 * fourth.toNat)) := rfl

theorem uint32Bytes_uint32OfBytes {data : Bytes} (length : data.length = 4) :
    uint32Bytes (uint32OfBytes data) = data ∧
      uint32OfBytes data < 2 ^ 32 := by
  obtain ⟨first, second, third, fourth, rfl⟩ := List.length_eq_four.mp length
  have firstSmall := first.toNat_lt
  have secondSmall := second.toNat_lt
  have thirdSmall := third.toNat_lt
  have fourthSmall := fourth.toNat_lt
  rw [uint32OfBytes_four]
  constructor
  · simp only [uint32Bytes, List.cons.injEq, and_true]
    refine ⟨uint8_ofNat ?_, uint8_ofNat ?_, uint8_ofNat ?_, uint8_ofNat ?_⟩ <;>
      omega
  · omega

namespace BinaryInputStream

variable {Value Next : Type}

theorem bind_eq_ok {first : ReadStreamM Value}
    {next : Value → ReadStreamM Next} {s : BinaryInputStream}
    {result : Next × BinaryInputStream} :
    (first >>= next) s = .ok result ↔
      ∃ value middle, first s = .ok (value, middle) ∧
        next value middle = .ok result := by
  cases ran : first s with
  | error text => simp [bind_of_error ran]
  | ok entry =>
      obtain ⟨value, middle⟩ := entry
      simp [bind_of_ok ran]

theorem read_eq_ok {size : Nat} {rest data : Bytes} {after : BinaryInputStream} :
    read size ⟨rest⟩ = .ok (data, after) ↔
      data.length = size ∧ rest = data ++ after.rest := by
  constructor
  · intro done
    unfold read left at done
    split at done
    case isTrue => cases done
    case isFalse enough =>
        cases done
        refine ⟨List.length_take_of_le (Nat.not_lt.mp enough), ?_⟩
        exact (List.take_append_drop size rest).symm
  · rintro ⟨rfl, rfl⟩
    exact read_append data after.rest

theorem expectEof_eq_ok {rest : Bytes} {value : Unit}
    {after : BinaryInputStream} :
    expectEof ⟨rest⟩ = .ok (value, after) ↔ rest = [] ∧ after = ⟨[]⟩ := by
  constructor
  · intro done
    by_cases empty : rest = []
    · subst empty
      cases done
      exact ⟨rfl, rfl⟩
    · obtain ⟨error, refused⟩ := expectEof_of_ne empty
      rw [refused] at done
      cases done
  · rintro ⟨rfl, rfl⟩
    rfl

theorem readUint32_eq_ok {rest : Bytes} {value : Nat}
    {after : BinaryInputStream} :
    readUint32 ⟨rest⟩ = .ok (value, after) ↔
      value < 2 ^ 32 ∧ rest = uint32Bytes value ++ after.rest := by
  constructor
  · intro done
    obtain ⟨data, middle, taken, ended⟩ := bind_eq_ok.mp done
    obtain ⟨length, rfl⟩ := read_eq_ok.mp taken
    obtain ⟨same, small⟩ := uint32Bytes_uint32OfBytes length
    cases ended
    exact ⟨small, by rw [same]⟩
  · rintro ⟨small, rfl⟩
    exact readUint32_append small after.rest

theorem readString_eq_ok {rest value : Bytes} {after : BinaryInputStream} :
    readString ⟨rest⟩ = .ok (value, after) ↔
      value.length < 2 ^ 32 ∧
        rest = uint32Bytes value.length ++ (value ++ after.rest) := by
  constructor
  · intro done
    obtain ⟨size, middle, sized, taken⟩ := bind_eq_ok.mp done
    obtain ⟨small, rfl⟩ := readUint32_eq_ok.mp sized
    obtain ⟨rfl, split⟩ := read_eq_ok.mp taken
    exact ⟨small, by rw [split]⟩
  · rintro ⟨small, rfl⟩
    exact readString_append small after.rest

end BinaryInputStream

/-- What `write` makes of a message. -/
def ControlMessage.Encodes (message : ControlMessage) (payload : Bytes) : Prop :=
  ∃ padding, message.write padding .empty = .ok ⟨payload⟩

/-! The fields of a frame. -/

def declaredSize (buffer : Bytes) : Nat := uint32OfBytes (buffer.take 4)

def declaredId (buffer : Bytes) : Nat := uint32OfBytes ((buffer.drop 4).take 4)

def framePayload (buffer : Bytes) : Bytes := buffer.drop (2 * 4)

section Messages

open BinaryInputStream

theorem encodes_reboot {payload : Bytes} :
    ControlMessage.reboot.Encodes payload ↔ payload.length = 1 := by
  constructor
  · rintro ⟨padding, written⟩
    cases written
    rfl
  · intro length
    obtain ⟨padding, rfl⟩ := List.length_eq_one_iff.mp length
    exact ⟨padding, rfl⟩

theorem encodes_powerOff {payload : Bytes} :
    ControlMessage.powerOff.Encodes payload ↔ payload.length = 1 :=
  encodes_reboot

theorem encodes_setRunlevel {payload name : Bytes} :
    (ControlMessage.setRunlevel name).Encodes payload ↔
      name.length < 2 ^ 32 ∧ payload = uint32Bytes name.length ++ name := by
  have written : ∀ padding,
      (ControlMessage.setRunlevel name).write padding .empty =
        if truncateToUint32 name.length ≠ name.length then
          .error (ascii "too large string to serialize")
        else
          .ok ⟨uint32Bytes (truncateToUint32 name.length) ++ name⟩ :=
    fun _ => rfl
  by_cases small : name.length < 2 ^ 32
  · have same := truncateToUint32_of_lt small
    rw [and_iff_right small]
    simp [ControlMessage.Encodes, written, same, eq_comm]
  · have differs : truncateToUint32 name.length ≠ name.length := by
      simp only [truncateToUint32]
      omega
    refine iff_of_false ?_ (fun holds => small holds.1)
    simp [ControlMessage.Encodes, written, differs]

theorem readEmpty_eq_ok {answer message : ControlMessage} {payload : Bytes}
    {after : BinaryInputStream} :
    (do
      let _ ← read 1
      expectEof
      return answer : ReadStreamM ControlMessage) ⟨payload⟩ =
        .ok (message, after) ↔
      payload.length = 1 ∧ message = answer ∧ after = ⟨[]⟩ := by
  constructor
  · intro done
    obtain ⟨data, middle, taken, ended⟩ := bind_eq_ok.mp done
    obtain ⟨length, rfl⟩ := read_eq_ok.mp taken
    obtain ⟨nothing, last, eof, answered⟩ := bind_eq_ok.mp ended
    obtain ⟨empty, rfl⟩ := expectEof_eq_ok.mp eof
    cases answered
    exact ⟨by rw [empty, List.append_nil, length], rfl, rfl⟩
  · rintro ⟨length, rfl, rfl⟩
    have taken : read 1 ⟨payload⟩ = .ok (payload, ⟨[]⟩) :=
      read_eq_ok.mpr ⟨length, (List.append_nil payload).symm⟩
    rw [bind_of_ok taken]
    exact bind_of_ok expectEof_nil

theorem readMessage_eq_ok {msgId : Nat} {message : ControlMessage}
    {payload : Bytes} {after : BinaryInputStream} :
    readMessage msgId ⟨payload⟩ = .ok (message, after) ↔
      msgId = message.msgId ∧ message.Encodes payload ∧ after = ⟨[]⟩ := by
  constructor
  · intro done
    unfold readMessage at done
    split at done
    case isTrue id =>
        obtain ⟨length, rfl, rfl⟩ := readEmpty_eq_ok.mp done
        exact ⟨id, encodes_reboot.mpr length, rfl⟩
    case isFalse =>
        split at done
        case isTrue id =>
            obtain ⟨length, rfl, rfl⟩ := readEmpty_eq_ok.mp done
            exact ⟨id, encodes_powerOff.mpr length, rfl⟩
        case isFalse =>
            split at done
            case isTrue id =>
                obtain ⟨name, middle, named, ended⟩ := bind_eq_ok.mp done
                obtain ⟨small, rfl⟩ := readString_eq_ok.mp named
                obtain ⟨nothing, last, eof, answered⟩ := bind_eq_ok.mp ended
                obtain ⟨empty, rfl⟩ := expectEof_eq_ok.mp eof
                cases answered
                refine ⟨id, encodes_setRunlevel.mpr ⟨small, ?_⟩, rfl⟩
                rw [empty, List.append_nil]
            case isFalse => cases done
  · rintro ⟨rfl, encodes, rfl⟩
    cases message with
    | reboot =>
        exact readEmpty_eq_ok.mpr ⟨encodes_reboot.mp encodes, rfl, rfl⟩
    | powerOff =>
        exact readEmpty_eq_ok.mpr ⟨encodes_powerOff.mp encodes, rfl, rfl⟩
    | setRunlevel name =>
        obtain ⟨small, rfl⟩ := encodes_setRunlevel.mp encodes
        have named : readString ⟨uint32Bytes name.length ++ name⟩ =
            .ok (name, ⟨[]⟩) :=
          readString_eq_ok.mpr ⟨small, by rw [List.append_nil]⟩
        exact (bind_of_ok named).trans (bind_of_ok expectEof_nil)

/-- A buffer with a header is judged by the declared size before the rest. -/
theorem parseMessage_of_header {buffer : Bytes} (header : 2 * 4 ≤ buffer.length) :
    (messageLimit < declaredSize buffer →
        ∃ error, parseMessage buffer = .error error) ∧
      (declaredSize buffer ≤ messageLimit →
        parseMessage buffer =
          if (framePayload buffer).length < declaredSize buffer then
            .ok none
          else
            (readMessage (declaredId buffer) ⟨framePayload buffer⟩).map
              fun entry => some entry.1) := by
  have sized : readUint32 ⟨buffer⟩ =
      .ok (declaredSize buffer, ⟨buffer.drop 4⟩) := by
    obtain ⟨same, small⟩ := uint32Bytes_uint32OfBytes
      (List.length_take_of_le (l := buffer) (i := 4) (by omega))
    refine readUint32_eq_ok.mpr ⟨small, ?_⟩
    rw [declaredSize, same, List.take_append_drop]
  have named : readUint32 ⟨buffer.drop 4⟩ =
      .ok (declaredId buffer, ⟨framePayload buffer⟩) := by
    obtain ⟨same, small⟩ := uint32Bytes_uint32OfBytes
      (List.length_take_of_le (l := buffer.drop 4) (i := 4)
        (by rw [List.length_drop]; omega))
    refine readUint32_eq_ok.mpr ⟨small, ?_⟩
    have rest : framePayload buffer = (buffer.drop 4).drop 4 := by
      rw [framePayload, List.drop_drop]
    rw [declaredId, same, rest, List.take_append_drop]
  have handled : parseMessage buffer = Prod.fst <$> readHeader ⟨buffer⟩ :=
    if_neg (Nat.not_lt.mpr header)
  rw [handled, readHeader, bind_of_ok sized]
  constructor
  · intro tooLong
    beta_reduce
    rw [if_pos tooLong]
    exact ⟨_, rfl⟩
  · intro fits
    beta_reduce
    have here : (get : ReadStreamM BinaryInputStream) ⟨framePayload buffer⟩ =
        .ok (⟨framePayload buffer⟩, ⟨framePayload buffer⟩) := rfl
    rw [if_neg (Nat.not_lt.mpr fits), bind_of_ok named, bind_of_ok here, left]
    split
    case isTrue => rfl
    case isFalse =>
        cases ran : readMessage (declaredId buffer) ⟨framePayload buffer⟩ <;>
          simp [Functor.map, StateT.map, bind, Except.bind, Except.map, ran,
            pure, Except.pure]

/-- The handler waits for a header, and then for the declared size. -/
theorem parseMessage_eq_none {buffer : Bytes} :
    parseMessage buffer = .ok none ↔
      buffer.length < 2 * 4 ∨ declaredSize buffer ≤ messageLimit ∧
        (framePayload buffer).length < declaredSize buffer := by
  by_cases short : buffer.length < 2 * 4
  · exact iff_of_true (if_pos short) (.inl short)
  · obtain ⟨tooLong, fits⟩ := parseMessage_of_header (Nat.not_lt.mp short)
    by_cases small : declaredSize buffer ≤ messageLimit
    · rw [fits small]
      split
      case isTrue waits => exact iff_of_true rfl (.inr ⟨small, waits⟩)
      case isFalse whole =>
          refine iff_of_false ?_ (by omega)
          cases readMessage (declaredId buffer) ⟨framePayload buffer⟩ <;>
            simp [Except.map]
    · obtain ⟨error, refused⟩ := tooLong (Nat.not_le.mp small)
      refine iff_of_false ?_ (by omega)
      rw [refused]
      simp

/-- The handler dispatches a message that all the bytes after the header
encode, where the declared size is not above their number. -/
theorem parseMessage_eq_some {buffer : Bytes} {message : ControlMessage} :
    parseMessage buffer = .ok (some message) ↔
      2 * 4 ≤ buffer.length ∧ declaredSize buffer ≤ messageLimit ∧
        declaredSize buffer ≤ (framePayload buffer).length ∧
        declaredId buffer = message.msgId ∧
        message.Encodes (framePayload buffer) := by
  by_cases short : buffer.length < 2 * 4
  · refine iff_of_false ?_ (by omega)
    rw [parseMessage_eq_none.mpr (.inl short)]
    simp
  · obtain ⟨tooLong, fits⟩ := parseMessage_of_header (Nat.not_lt.mp short)
    by_cases small : declaredSize buffer ≤ messageLimit
    · rw [fits small]
      split
      case isTrue waits => exact iff_of_false (by simp) (by omega)
      case isFalse whole =>
          rw [and_iff_right (Nat.not_lt.mp short), and_iff_right small,
            and_iff_right (Nat.not_lt.mp whole)]
          constructor
          · intro done
            cases ran : readMessage (declaredId buffer)
              ⟨framePayload buffer⟩ with
            | error text =>
                rw [ran] at done
                cases done
            | ok entry =>
                obtain ⟨read, after⟩ := entry
                rw [ran] at done
                cases done
                obtain ⟨id, encodes, -⟩ := readMessage_eq_ok.mp ran
                exact ⟨id, encodes⟩
          · rintro ⟨id, encodes⟩
            rw [readMessage_eq_ok.mpr ⟨id, encodes, rfl⟩]
            rfl
    · obtain ⟨error, refused⟩ := tooLong (Nat.not_le.mp small)
      refine iff_of_false ?_ (by omega)
      rw [refused]
      simp

end Messages

end Initd
