import Initd.Binstream.CtlProtocol
import Mathlib.Algebra.GroupWithZero.Nat

namespace Initd

/-! `measure` and `write` over every type that they are written for. -/

/-- Sizes are computed in `size_t`. -/
def truncateToSize (size : Nat) : Nat := size % 2 ^ 64

/-- The `max_size` of a `std::vector<char>`. -/
def maxSize : Nat := 2 ^ 63 - 1

namespace BinaryOutputStream

/-- The write of some bytes, where `push_back` does not grow the buffer past
its `max_size`. -/
def writeData (data : Bytes) (s : BinaryOutputStream) :
    Except Bytes BinaryOutputStream :=
  if maxSize < s.buffer.length + data.length then
    .error (ascii "vector::_M_realloc_insert")
  else
    .ok (s.write data)

end BinaryOutputStream

/-- The types that have a `measure` and a `write`: a trivial type by its
`sizeof`, a string by that of its characters, a vector by its elements. -/
inductive StreamType where
  | trivial (size : Nat)
  | string (charSize : Nat)
  | vector (element : StreamType)
  deriving DecidableEq, Repr

namespace StreamType

abbrev Object (size : Nat) : Type := { data : Bytes // data.length = size }

def Value : StreamType → Type
  | .trivial size => Object size
  | .string charSize => List (Object charSize)
  | .vector element => List element.Value

def measure : (type : StreamType) → type.Value → Nat
  | .trivial size, _ => size
  | .string charSize, (value : List (Object charSize)) =>
      truncateToSize (4 + truncateToSize (charSize * value.length))
  | .vector element, (value : List element.Value) =>
      value.foldl (fun r next => truncateToSize (r + element.measure next)) 4

def writeUint32 (value : Nat) (s : BinaryOutputStream) :
    Except Bytes BinaryOutputStream :=
  s.writeData (uint32Bytes value)

/-- The number of elements of a string or a vector. -/
def writeSize (size : Nat) (s : BinaryOutputStream) :
    Except Bytes BinaryOutputStream :=
  let size32 := truncateToUint32 size
  if size32 ≠ size then
    .error (ascii "too large string to serialize")
  else
    writeUint32 size32 s

def write : (type : StreamType) → type.Value → BinaryOutputStream →
    Except Bytes BinaryOutputStream
  | .trivial _, value, s => s.writeData value.1
  | .string charSize, (value : List (Object charSize)), s => do
      let s ← writeSize value.length s
      s.writeData ((value.map Subtype.val).flatten.take
        (truncateToSize (charSize * value.length)))
  | .vector element, (value : List element.Value), s => do
      let s ← writeSize value.length s
      value.foldlM (fun s next => element.write next s) s

def serialize (type : StreamType) (msgId : Nat) (value : type.Value)
    (s : BinaryOutputStream) : Except Bytes BinaryOutputStream := do
  let size := truncateToUint32 (type.measure value)
  let s ← writeUint32 size s
  let s ← writeUint32 msgId s
  type.write value s

end StreamType

/-- The write of a stream that grew by `size` bytes. -/
structure BinaryOutputStream.GrowsBy (size : Nat)
    (s after : BinaryOutputStream) : Prop where
  kept : s.buffer <+: after.buffer
  length : after.buffer.length = s.buffer.length + size
  room : after.buffer.length ≤ maxSize

namespace BinaryOutputStream

theorem GrowsBy.trans {first second : Nat} {s middle after : BinaryOutputStream}
    (before : GrowsBy first s middle) (later : GrowsBy second middle after) :
    GrowsBy (first + second) s after where
  kept := before.kept.trans later.kept
  length := by rw [later.length, before.length, Nat.add_assoc]
  room := later.room

theorem GrowsBy.data {size : Nat} {s after : BinaryOutputStream}
    (grows : GrowsBy size s after) :
    ∃ data, after.buffer = s.buffer ++ data ∧ data.length = size := by
  obtain ⟨data, appended⟩ := grows.kept
  have length := grows.length
  rw [← appended, List.length_append] at length
  exact ⟨data, appended.symm, Nat.add_left_cancel length⟩

theorem writeData_eq_ok {data : Bytes} {s after : BinaryOutputStream} :
    s.writeData data = .ok after ↔
      s.buffer.length + data.length ≤ maxSize ∧ after = s.write data := by
  unfold writeData
  split
  case isTrue full =>
      simp [Nat.not_le.mpr full]
  case isFalse fits =>
      simp [Nat.not_lt.mp fits, eq_comm]

theorem writeData_growsBy {data : Bytes} {s after : BinaryOutputStream}
    (written : s.writeData data = .ok after) :
    GrowsBy data.length s after := by
  obtain ⟨room, rfl⟩ := writeData_eq_ok.mp written
  exact ⟨List.prefix_append _ _, List.length_append, by simpa [write] using room⟩

end BinaryOutputStream

theorem ok_of_bind {First Second : Type} {first : Except Bytes First}
    {next : First → Except Bytes Second} {result : Second}
    (ran : first >>= next = .ok result) :
    ∃ middle, first = .ok middle ∧ next middle = .ok result := by
  cases first with
  | error text => cases ran
  | ok middle => exact ⟨middle, rfl, ran⟩

namespace StreamType

open BinaryOutputStream

theorem writeSize_growsBy {size : Nat} {s after : BinaryOutputStream}
    (written : writeSize size s = .ok after) :
    size < 2 ^ 32 ∧ GrowsBy 4 s after := by
  simp only [writeSize] at written
  split at written
  case isTrue => cases written
  case isFalse same =>
      have small : size < 2 ^ 32 := by
        simp only [truncateToUint32] at same
        omega
      exact ⟨small, writeData_growsBy written⟩

/-- The number of bytes that a write appends. -/
def width : (type : StreamType) → type.Value → Nat
  | .trivial size, _ => size
  | .string charSize, (value : List (Object charSize)) =>
      4 + truncateToSize (charSize * value.length)
  | .vector element, (value : List element.Value) =>
      4 + (value.map element.width).sum

theorem flatten_length {size : Nat} (value : List (Object size)) :
    (value.map Subtype.val).flatten.length = size * value.length := by
  induction value with
  | nil => rfl
  | cons object rest induction =>
      simp only [List.map_cons, List.flatten_cons, List.length_append, object.2,
        induction, List.length_cons]
      rw [Nat.mul_succ, Nat.add_comm]

theorem foldlM_growsBy {Element : Type}
    {writeElement : Element → BinaryOutputStream →
      Except Bytes BinaryOutputStream} {size : Element → Nat}
    (each : ∀ element s after, writeElement element s = .ok after →
      GrowsBy (size element) s after)
    (value : List Element) {s after : BinaryOutputStream}
    (room : s.buffer.length ≤ maxSize)
    (written : value.foldlM (fun s next => writeElement next s) s = .ok after) :
    GrowsBy (value.map size).sum s after := by
  induction value generalizing s with
  | nil =>
      cases written
      exact ⟨List.prefix_rfl, rfl, room⟩
  | cons element rest induction =>
      rw [List.foldlM_cons] at written
      obtain ⟨middle, first, others⟩ := ok_of_bind written
      have grown := each element s middle first
      rw [List.map_cons, List.sum_cons]
      exact grown.trans (induction grown.room others)

/-- A write that does not throw appends `width` bytes, by induction on the
type. -/
theorem write_growsBy (type : StreamType) (value : type.Value)
    {s after : BinaryOutputStream} (written : type.write value s = .ok after) :
    GrowsBy (type.width value) s after := by
  induction type generalizing s after with
  | trivial size =>
      have grown := writeData_growsBy written
      rwa [value.2] at grown
  | string charSize =>
      change List (Object charSize) at value
      obtain ⟨middle, sized, characters⟩ := ok_of_bind written
      have grown := writeData_growsBy characters
      have wrapped : truncateToSize (charSize * value.length) ≤
          charSize * value.length := Nat.mod_le _ _
      rw [List.length_take, flatten_length, Nat.min_eq_left wrapped] at grown
      exact (writeSize_growsBy sized).2.trans grown
  | vector element induction =>
      obtain ⟨middle, sized, elements⟩ := ok_of_bind written
      have grown := (writeSize_growsBy sized).2
      exact grown.trans (foldlM_growsBy (fun next _ _ => induction next) value
        grown.room elements)

theorem foldl_measure {Element : Type} {measured size : Element → Nat}
    (each : ∀ element, size element < 2 ^ 64 →
      measured element = size element)
    (value : List Element) {start : Nat}
    (small : start + (value.map size).sum < 2 ^ 64) :
    value.foldl (fun r next => truncateToSize (r + measured next)) start =
      start + (value.map size).sum := by
  induction value generalizing start with
  | nil => rfl
  | cons element rest induction =>
      rw [List.map_cons, List.sum_cons, ← Nat.add_assoc] at small ⊢
      have fits : start + size element < 2 ^ 64 :=
        Nat.lt_of_le_of_lt (Nat.le_add_right _ _) small
      have first : measured element = size element :=
        each element (Nat.lt_of_le_of_lt (Nat.le_add_left _ _) fits)
      rw [List.foldl_cons, first, truncateToSize, Nat.mod_eq_of_lt fits]
      exact induction small

/-- `measure` does not overflow where the bytes themselves fit a `size_t`. -/
theorem measure_eq_width (type : StreamType) (value : type.Value)
    (small : type.width value < 2 ^ 64) :
    type.measure value = type.width value := by
  induction type with
  | trivial size => rfl
  | string charSize => exact Nat.mod_eq_of_lt small
  | vector element induction =>
      exact foldl_measure induction value small

end StreamType

/-- The size in the header of a frame that was appended to a stream is the
number of the bytes after the header. -/
def HeaderMatches (s after : BinaryOutputStream) : Prop :=
  let frame := after.buffer.drop s.buffer.length
  uint32OfBytes (frame.take 4) = (frame.drop (2 * 4)).length

instance (s after : BinaryOutputStream) : Decidable (HeaderMatches s after) :=
  inferInstanceAs (Decidable (_ = _))

namespace StreamType

open BinaryOutputStream

theorem writeUint32_eq_ok {value : Nat} {s after : BinaryOutputStream}
    (written : writeUint32 value s = .ok after) :
    after.buffer = s.buffer ++ uint32Bytes value := by
  obtain ⟨-, rfl⟩ := writeData_eq_ok.mp written
  rfl

theorem headerMatches_iff {type : StreamType} {msgId : Nat}
    {value : type.Value} {s after : BinaryOutputStream}
    (serialized : type.serialize msgId value s = .ok after) :
    HeaderMatches s after ↔ type.width value < 2 ^ 32 := by
  obtain ⟨sized, first, rest⟩ := ok_of_bind serialized
  obtain ⟨named, second, body⟩ := ok_of_bind rest
  have grows := write_growsBy type value body
  obtain ⟨payload, appended, length⟩ := grows.data
  have frame : after.buffer.drop s.buffer.length =
      uint32Bytes (truncateToUint32 (type.measure value)) ++
        (uint32Bytes msgId ++ payload) := by
    rw [appended, writeUint32_eq_ok second, writeUint32_eq_ok first]
    simp
  have exact : type.measure value = type.width value := by
    refine measure_eq_width type value ?_
    have room := grows.room
    rw [grows.length] at room
    simp only [maxSize] at room
    omega
  have header : uint32OfBytes
      (uint32Bytes (truncateToUint32 (type.width value))) =
        truncateToUint32 (type.width value) :=
    uint32OfBytes_uint32Bytes (Nat.mod_lt _ (by decide))
  simp only [HeaderMatches, frame, exact]
  have taken : ∀ rest, (uint32Bytes (truncateToUint32 (type.width value)) ++
      rest).take 4 = uint32Bytes (truncateToUint32 (type.width value)) :=
    fun rest => List.take_left' rfl
  have dropped : ∀ first second : Nat, (uint32Bytes first ++
      (uint32Bytes second ++ payload)).drop (2 * 4) = payload := by
    intro first second
    rw [← List.append_assoc]
    exact List.drop_left' rfl
  rw [taken, header, dropped, length]
  simp only [truncateToUint32]
  omega

end StreamType

/-! The frame of a `set_runlevel_msg`, which is written as the string it
holds. -/

namespace SetRunlevelMsg

open StreamType BinaryOutputStream

def runlevelName (text : Bytes) : (StreamType.string 1).Value :=
  text.map fun character => ⟨[character], rfl⟩

def serialize (name : Bytes) (s : BinaryOutputStream) :
    Except Bytes BinaryOutputStream :=
  (StreamType.string 1).serialize setRunlevelMsgId (runlevelName name) s

variable {name : Bytes} {s : BinaryOutputStream}

theorem length_runlevelName :
    List.length (runlevelName name : List (Object 1)) = name.length :=
  List.length_map _

theorem flatten_runlevelName :
    ((runlevelName name : List (Object 1)).map Subtype.val).flatten = name := by
  induction name with
  | nil => rfl
  | cons character rest induction => exact congrArg (character :: ·) induction

theorem writeData_of_room {data : Bytes}
    (room : s.buffer.length + data.length ≤ maxSize) :
    s.writeData data = .ok (s.write data) :=
  writeData_eq_ok.mpr ⟨room, rfl⟩

theorem writeUint32_of_room {value : Nat}
    (room : s.buffer.length + 4 ≤ maxSize) :
    StreamType.writeUint32 value s = .ok (s.writeUint32 value) :=
  writeData_of_room room

@[simp] theorem length_writeUint32 (value : Nat) :
    (s.writeUint32 value).buffer.length = s.buffer.length + 4 :=
  List.length_append

theorem measure_runlevelName (small : 4 + name.length < 2 ^ 64) :
    (StreamType.string 1).measure (runlevelName name) = measureString name := by
  have fits : truncateToSize (1 * name.length) = name.length := by
    rw [Nat.one_mul]
    exact Nat.mod_eq_of_lt (Nat.lt_of_le_of_lt (Nat.le_add_left _ _) small)
  calc (StreamType.string 1).measure (runlevelName name)
      = truncateToSize (4 + truncateToSize (1 *
          List.length (runlevelName name : List (Object 1)))) := rfl
    _ = measureString name := by
        rw [length_runlevelName, fits]
        exact Nat.mod_eq_of_lt small

/-- Where the stream has room for the string, it is written as it is. -/
theorem write_runlevelName
    (room : s.buffer.length + (4 + name.length) ≤ maxSize) :
    (StreamType.string 1).write (runlevelName name) s = s.writeString name := by
  have whole : name.take (truncateToSize (1 * name.length)) = name := by
    have fits : truncateToSize (1 * name.length) = name.length := by
      simp only [truncateToSize, maxSize] at room ⊢
      omega
    rw [fits, List.take_length]
  calc (StreamType.string 1).write (runlevelName name) s
      = (do
          let s ← writeSize (List.length (runlevelName name : List (Object 1))) s
          s.writeData (((runlevelName name : List (Object 1)).map
            Subtype.val).flatten.take (truncateToSize
              (1 * List.length (runlevelName name : List (Object 1)))))) := rfl
    _ = (do
          let s ← writeSize name.length s
          s.writeData name) := by
        rw [length_runlevelName, flatten_runlevelName, whole]
    _ = s.writeString name := by
        simp only [writeSize, writeString]
        split
        case isTrue => rfl
        case isFalse same =>
            rw [not_not.mp same, writeUint32_of_room (by omega)]
            exact writeData_of_room (by rw [length_writeUint32]; omega)

/-- Where the stream has room for the frame, it is the frame that the message
is written as. -/
theorem serialize_eq (padding : UInt8)
    (room : s.buffer.length + (3 * 4 + name.length) ≤ maxSize) :
    serialize name s =
      (ControlMessage.setRunlevel name).serialize padding s := by
  have small : 4 + name.length < 2 ^ 64 := by
    simp only [maxSize] at room
    omega
  have written : ∀ size, (StreamType.string 1).write (runlevelName name)
      ((s.writeUint32 size).writeUint32 setRunlevelMsgId) =
        ((s.writeUint32 size).writeUint32 setRunlevelMsgId).writeString name := by
    intro size
    refine write_runlevelName ?_
    rw [length_writeUint32, length_writeUint32]
    omega
  calc serialize name s
      = (do
          let s ← StreamType.writeUint32 (truncateToUint32
            ((StreamType.string 1).measure (runlevelName name))) s
          let s ← StreamType.writeUint32 setRunlevelMsgId s
          (StreamType.string 1).write (runlevelName name) s) := rfl
    _ = (do
          let s ← StreamType.writeUint32 setRunlevelMsgId
            (s.writeUint32 (truncateToUint32 (measureString name)))
          (StreamType.string 1).write (runlevelName name) s) := by
        rw [measure_runlevelName small, writeUint32_of_room (by omega)]
        rfl
    _ = (StreamType.string 1).write (runlevelName name)
          ((s.writeUint32 (truncateToUint32 (measureString name))).writeUint32
            setRunlevelMsgId) := by
        rw [writeUint32_of_room (by rw [length_writeUint32]; omega)]
        rfl
    _ = (ControlMessage.setRunlevel name).serialize padding s := written _

theorem width_runlevelName (small : name.length < 2 ^ 32) :
    (StreamType.string 1).width (runlevelName name) = 4 + name.length := by
  have whole : (StreamType.string 1).width (runlevelName name) =
      4 + truncateToSize (1 * name.length) := by
    rw [← length_runlevelName]
    rfl
  rw [whole, truncateToSize]
  omega

/-- The frames that are accepted: the write of the name has its own check of
the size, and the stream must have room. -/
theorem serialize_isOk_iff :
    (∃ after, serialize name s = .ok after) ↔
      name.length < 2 ^ 32 ∧
        s.buffer.length + (3 * 4 + name.length) ≤ maxSize := by
  constructor
  · rintro ⟨after, serialized⟩
    obtain ⟨sized, first, rest⟩ := ok_of_bind serialized
    obtain ⟨named, second, body⟩ := ok_of_bind rest
    have header := (writeData_growsBy first).trans (writeData_growsBy second)
    have whole := header.trans (write_growsBy _ _ body)
    obtain ⟨counted, size, -⟩ := ok_of_bind body
    have small : name.length < 2 ^ 32 := by
      rw [← length_runlevelName]
      exact (writeSize_growsBy size).1
    have room := whole.room
    rw [whole.length, width_runlevelName small, uint32Bytes_length,
      uint32Bytes_length] at room
    exact ⟨small, by omega⟩
  · rintro ⟨small, room⟩
    rw [serialize_eq 0 room]
    have named : truncateToUint32 name.length = name.length :=
      truncateToUint32_of_lt small
    exact ⟨_, if_neg (not_not.mpr named)⟩

theorem headerMatches_of_accepted_iff :
    (∀ after, serialize name s = .ok after → HeaderMatches s after) ↔
      name.length + 4 < 2 ^ 32 ∨ 2 ^ 32 ≤ name.length ∨
        maxSize < s.buffer.length + (3 * 4 + name.length) := by
  constructor
  · intro matching
    by_contra others
    have accepted : name.length < 2 ^ 32 ∧
        s.buffer.length + (3 * 4 + name.length) ≤ maxSize := by omega
    obtain ⟨after, serialized⟩ := serialize_isOk_iff.mpr accepted
    have fits := (headerMatches_iff serialized).mp (matching after serialized)
    rw [width_runlevelName accepted.1] at fits
    omega
  · intro condition after serialized
    have accepted := serialize_isOk_iff.mp ⟨after, serialized⟩
    rw [headerMatches_iff serialized, width_runlevelName accepted.1]
    omega

/-- The header is the size of the frame, unless the name leaves no room in 32
bits for its own size; and a write appends what `measure` says. -/
theorem frame_exact (name : Bytes) (s : BinaryOutputStream) :
    ((∀ after, serialize name s = .ok after → HeaderMatches s after) ↔
        name.length + 4 < 2 ^ 32 ∨ 2 ^ 32 ≤ name.length ∨
          maxSize < s.buffer.length + (3 * 4 + name.length)) ∧
      ∀ (type : StreamType) (value : type.Value) (after : BinaryOutputStream),
        type.write value s = .ok after →
          ∃ data, after.buffer = s.buffer ++ data ∧
            data.length = type.measure value := by
  refine ⟨headerMatches_of_accepted_iff, fun type value after written => ?_⟩
  have grows := write_growsBy type value written
  have small : type.width value < 2 ^ 64 := by
    have room := grows.room
    rw [grows.length] at room
    simp only [maxSize] at room
    omega
  rw [measure_eq_width type value small]
  exact grows.data

theorem not_headerMatches {name : Bytes} (long : name.length = 2 ^ 32 - 1) :
    ∃ after, serialize name .empty = .ok after ∧
      ¬ HeaderMatches .empty after := by
  have accepted : name.length < 2 ^ 32 ∧
      BinaryOutputStream.empty.buffer.length + (3 * 4 + name.length) ≤
        maxSize := by
    rw [long]
    decide
  obtain ⟨after, serialized⟩ := serialize_isOk_iff.mpr accepted
  refine ⟨after, serialized, ?_⟩
  rw [headerMatches_iff serialized, width_runlevelName accepted.1]
  omega

/-- A name of `2 ^ 32 - 1` bytes is written under a header that says three. -/
theorem longest_name_frame_differs :
    ¬ ∀ after, serialize (List.replicate (2 ^ 32 - 1) 97) .empty = .ok after →
      HeaderMatches .empty after := by
  intro matching
  obtain ⟨after, serialized, differs⟩ :=
    not_headerMatches (List.length_replicate (n := 2 ^ 32 - 1) (a := (97 : UInt8)))
  exact differs (matching after serialized)

end SetRunlevelMsg

end Initd
