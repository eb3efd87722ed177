import Initd.Config.TaskData
import Mathlib.Algebra.Group.Nat.Defs

namespace Initd

/-! `binary_stream`: the values that the control protocol writes and reads. -/

/-- The bytes of a `uint32_t`, in the byte order of the machine that both the
writer and the reader run on. -/
def uint32Bytes (value : Nat) : Bytes :=
  [UInt8.ofNat value, UInt8.ofNat (value / 2 ^ 8), UInt8.ofNat (value / 2 ^ 16),
    UInt8.ofNat (value / 2 ^ 24)]

def uint32OfBytes (data : Bytes) : Nat :=
  data.foldr (fun byte rest => byte.toNat + 2 ^ 8 * rest) 0

def truncateToUint32 (size : Nat) : Nat := size % 2 ^ 32

structure BinaryOutputStream where
  buffer : Bytes
  deriving DecidableEq, Repr

namespace BinaryOutputStream

def empty : BinaryOutputStream := ⟨[]⟩

def write (data : Bytes) (s : BinaryOutputStream) : BinaryOutputStream :=
  ⟨s.buffer ++ data⟩

def writeUint32 (value : Nat) (s : BinaryOutputStream) : BinaryOutputStream :=
  s.write (uint32Bytes value)

def writeString (value : Bytes) (s : BinaryOutputStream) :
    Except Bytes BinaryOutputStream :=
  let size32 := truncateToUint32 value.length
  if size32 ≠ value.length then
    .error (ascii "too large string to serialize")
  else
    .ok ((s.writeUint32 size32).write value)

end BinaryOutputStream

def measureString (value : Bytes) : Nat := 4 + value.length

/-- A `binary_input_stream`, as the bytes from `pos` to `end`. -/
structure BinaryInputStream where
  rest : Bytes
  deriving DecidableEq, Repr

/-- The text of an exception ends a read. -/
abbrev ReadStreamM := StateT BinaryInputStream (Except Bytes)

namespace BinaryInputStream

def eof (s : BinaryInputStream) : Bool := s.rest.isEmpty

def left (s : BinaryInputStream) : Nat := s.rest.length

def read (size : Nat) : ReadStreamM Bytes := fun s =>
  if s.left < size then
    .error (ascii "read past the end of stream, bytes left: " ++
      ascii (toString s.left) ++ ascii ", size: " ++ ascii (toString size))
  else
    .ok (s.rest.take size, ⟨s.rest.drop size⟩)

def expectEof : ReadStreamM Unit := fun s =>
  if s.eof then
    .ok ((), s)
  else
    .error (ascii "expected eof, but " ++ ascii (toString s.left) ++
      ascii " bytes left")

def readUint32 : ReadStreamM Nat := do
  let data ← read 4
  return uint32OfBytes data

def readString : ReadStreamM Bytes := do
  let size32 ← readUint32
  read size32

end BinaryInputStream

/-! Round trips. -/

@[simp] theorem uint32Bytes_length (value : Nat) :
    (uint32Bytes value).length = 4 := rfl

theorem uint32OfBytes_uint32Bytes {value : Nat} (fits : value < 2 ^ 32) :
    uint32OfBytes (uint32Bytes value) = value := by
  simp only [uint32OfBytes, uint32Bytes, List.foldr_cons, List.foldr_nil,
    UInt8.toNat_ofNat']
  omega

theorem truncateToUint32_of_lt {size : Nat} (fits : size < 2 ^ 32) :
    truncateToUint32 size = size :=
  Nat.mod_eq_of_lt fits

namespace BinaryInputStream

variable {Value Next : Type}

theorem bind_of_ok {first : ReadStreamM Value} {next : Value → ReadStreamM Next}
    {s after : BinaryInputStream} {value : Value}
    (done : first s = .ok (value, after)) :
    (first >>= next) s = next value after := by
  simp [bind, StateT.bind, Except.bind, done]

theorem bind_of_error {first : ReadStreamM Value}
    {next : Value → ReadStreamM Next} {s : BinaryInputStream} {error : Bytes}
    (failed : first s = .error error) : (first >>= next) s = .error error := by
  simp [bind, StateT.bind, Except.bind, failed]

/-- A read of what was written takes exactly that off the stream. -/
theorem read_append (data rest : Bytes) :
    read data.length ⟨data ++ rest⟩ = .ok (data, ⟨rest⟩) := by
  simp [read, left]

theorem readUint32_append {value : Nat} (fits : value < 2 ^ 32) (rest : Bytes) :
    readUint32 ⟨uint32Bytes value ++ rest⟩ = .ok (value, ⟨rest⟩) := by
  have taken : read 4 ⟨uint32Bytes value ++ rest⟩ =
      .ok (uint32Bytes value, ⟨rest⟩) := read_append (uint32Bytes value) rest
  rw [readUint32, bind_of_ok taken, uint32OfBytes_uint32Bytes fits]
  rfl

theorem readString_append {value : Bytes} (fits : value.length < 2 ^ 32)
    (rest : Bytes) :
    readString ⟨uint32Bytes value.length ++ (value ++ rest)⟩ =
      .ok (value, ⟨rest⟩) := by
  rw [readString, bind_of_ok (readUint32_append fits _)]
  exact read_append value rest

theorem expectEof_nil : expectEof ⟨[]⟩ = .ok ((), ⟨[]⟩) := rfl

theorem expectEof_of_ne {rest : Bytes} (more : rest ≠ []) :
    ∃ error, expectEof ⟨rest⟩ = .error error := by
  refine ⟨_, if_neg ?_⟩
  simpa [eof] using more

end BinaryInputStream

end Initd
