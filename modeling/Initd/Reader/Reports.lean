import Initd.Library.Journal
import Initd.Parser.Placed
import Initd.Reader.ReadValueNode

namespace Initd

def ErrorTag.At (known : TextRange → Prop) (error : ErrorTag) : Prop :=
  known error.range

namespace Reader

open Library

/-! The sink of the errors is a journal of the reader. -/

theorem push_writes (range : TextRange) (message : Bytes) :
    Writes (push range message) ⟨⟩ [⟨range, message⟩] :=
  fun _ => rfl

variable {Value Result : Type} {known : TextRange → Prop} {last : Result → Prop}

theorem faithful_push {range : TextRange} {message : Bytes}
    {next : PUnit → ReadM Result} (here : known range)
    (later : Faithful (ErrorTag.At known) (next ⟨⟩) fun _ => True) :
    Faithful (ErrorTag.At known) (push range message >>= next) last :=
  .entry_bind (push_writes range message) here later

theorem faithful_deref {range : Value → TextRange} {pointer : Option Value}
    {next : Value → ReadM Result} (placed : KnownToken known range pointer)
    (later : ∀ token, pointer = some token → known (range token) →
      Faithful (ErrorTag.At known) (next token) last) :
    Faithful (ErrorTag.At known) (liftM (deref pointer) >>= next) last := by
  obtain ⟨token, rfl, here⟩ := placed
  exact .lift_bind rfl (later token rfl here)

end Reader

end Initd
