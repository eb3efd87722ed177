import Mathlib.Data.List.Basic

namespace Initd.Library

universe u v w

/-! Messages on a byte stream, for a receiver that parses all it has received
since its last message, whenever something arrives. -/

/-- How a message is written, and what a receiver makes of a buffer: nothing
yet, a message, or an error. -/
structure Framing (Byte : Type u) (Message : Type v) (Error : Type w) where
  encode : Message → List Byte
  parse : List Byte → Except Error (Option Message)

namespace Framing

variable {Byte : Type u} {Message : Type v} {Error : Type w}

def stream (framing : Framing Byte Message Error) (messages : List Message) :
    List Byte :=
  (messages.map framing.encode).flatten

/-- A message is recognised at its last byte, and only where it is alone in
the buffer. -/
structure TakesAlone (framing : Framing Byte Message Error)
    (valid : Message → Prop) : Prop where
  empty : framing.parse [] = .ok none
  partly : ∀ message, valid message → ∀ received,
    received <+: framing.encode message → received ≠ framing.encode message →
      framing.parse received = .ok none
  whole : ∀ message, valid message →
    framing.parse (framing.encode message) = .ok (some message)
  beyond : ∀ message, valid message → ∀ next, next ≠ [] →
    ∃ error, framing.parse (framing.encode message ++ next) = .error error

/-- A receiver: what it has buffered, the messages it has taken, and the error
that ended it. -/
structure Receiver (Byte : Type u) (Message : Type v) (Error : Type w) where
  buffer : List Byte
  taken : List Message
  error : Option Error

def receive (framing : Framing Byte Message Error) (chunk : List Byte)
    (receiver : Receiver Byte Message Error) : Receiver Byte Message Error :=
  match receiver.error with
  | some _ => receiver
  | none =>
      let buffer := receiver.buffer ++ chunk
      match framing.parse buffer with
      | .ok none => { receiver with buffer := buffer }
      | .ok (some message) => ⟨[], receiver.taken ++ [message], none⟩
      | .error error => ⟨buffer, receiver.taken, some error⟩

def receiveAll (framing : Framing Byte Message Error)
    (chunks : List (List Byte)) (receiver : Receiver Byte Message Error) :
    Receiver Byte Message Error :=
  chunks.foldl (fun receiver chunk => framing.receive chunk receiver) receiver

/-- Every place where a message ends is the end of a chunk. -/
def CutsAt (framing : Framing Byte Message Error) (buffered : List Byte)
    (messages : List Message) (chunks : List (List Byte)) : Prop :=
  ∀ sent rest, messages = sent ++ rest → sent ≠ [] →
    ∃ earlier later, chunks = earlier ++ later ∧
      buffered ++ earlier.flatten = framing.stream sent

section Receiving

variable {framing : Framing Byte Message Error} {valid : Message → Prop}

@[simp] theorem stream_cons (message : Message) (messages : List Message) :
    framing.stream (message :: messages) =
      framing.encode message ++ framing.stream messages := by
  simp [stream]

@[simp] theorem stream_nil : framing.stream [] = [] := rfl

theorem receiveAll_of_error {error : Error} (chunks : List (List Byte))
    {receiver : Receiver Byte Message Error}
    (ended : receiver.error = some error) :
    framing.receiveAll chunks receiver = receiver := by
  induction chunks with
  | nil => rfl
  | cons chunk rest induction =>
      have still : framing.receive chunk receiver = receiver := by
        simp [receive, ended]
      rw [receiveAll, List.foldl_cons, still]
      exact induction

theorem receiveAll_cons (chunk : List Byte) (rest : List (List Byte))
    (receiver : Receiver Byte Message Error) :
    framing.receiveAll (chunk :: rest) receiver =
      framing.receiveAll rest (framing.receive chunk receiver) := rfl

theorem taken_prefix (chunks : List (List Byte))
    (receiver : Receiver Byte Message Error) :
    receiver.taken <+: (framing.receiveAll chunks receiver).taken := by
  induction chunks generalizing receiver with
  | nil => exact List.prefix_rfl
  | cons chunk rest induction =>
      refine List.IsPrefix.trans ?_ (induction (framing.receive chunk receiver))
      unfold receive
      split
      · exact List.prefix_rfl
      · dsimp only
        split
        · exact List.prefix_rfl
        · exact List.prefix_append _ _
        · exact List.prefix_rfl

/-- No valid message is empty, as an empty buffer holds none. -/
theorem TakesAlone.encode_ne_nil (takes : framing.TakesAlone valid)
    {message : Message} (fits : valid message) : framing.encode message ≠ [] := by
  intro nothing
  have whole := takes.whole message fits
  rw [nothing, takes.empty] at whole
  simp at whole

theorem TakesAlone.receiveAll_partly (takes : framing.TakesAlone valid)
    {message : Message} (fits : valid message) (taken : List Message)
    (chunks : List (List Byte)) {buffered : List Byte}
    (shorter : buffered ++ chunks.flatten <+: framing.encode message)
    (unfinished : buffered ++ chunks.flatten ≠ framing.encode message) :
    framing.receiveAll chunks ⟨buffered, taken, none⟩ =
      ⟨buffered ++ chunks.flatten, taken, none⟩ := by
  induction chunks generalizing buffered with
  | nil => simp [receiveAll]
  | cons chunk rest induction =>
      have sofar : buffered ++ chunk <+: framing.encode message := by
        refine List.IsPrefix.trans ⟨rest.flatten, ?_⟩ shorter
        simp
      have early : buffered ++ chunk ≠ framing.encode message := by
        intro finished
        refine unfinished (shorter.eq_of_length_le ?_)
        rw [← finished]
        simp only [List.flatten_cons, List.length_append]
        omega
      have step : framing.receive chunk ⟨buffered, taken, none⟩ =
          ⟨buffered ++ chunk, taken, none⟩ := by
        simp [receive, takes.partly message fits _ sofar early]
      rw [List.flatten_cons, ← List.append_assoc] at shorter unfinished ⊢
      rw [receiveAll_cons, step]
      exact induction shorter unfinished

theorem append_cases {first second rest tail : List Byte}
    (same : first ++ rest = second ++ tail) :
    (∃ missing, second = first ++ missing ∧ missing ≠ []) ∨
      (first = second ∧ rest = tail) ∨
      ∃ next, first = second ++ next ∧ next ≠ [] := by
  rcases List.append_eq_append_iff.mp same with
    ⟨missing, rfl, rfl⟩ | ⟨next, rfl, rfl⟩
  · by_cases none : missing = []
    · exact .inr (.inl (by simp [none]))
    · exact .inl ⟨missing, rfl, none⟩
  · by_cases none : next = []
    · exact .inr (.inl (by simp [none]))
    · exact .inr (.inr ⟨next, rfl, none⟩)

theorem cutsAt_cons_of_partly {message : Message} {messages : List Message}
    {chunk : List Byte} {chunks : List (List Byte)} {buffered : List Byte}
    (partly : buffered.length < (framing.encode message).length) :
    framing.CutsAt buffered (message :: messages) (chunk :: chunks) ↔
      framing.CutsAt (buffered ++ chunk) (message :: messages) chunks := by
  constructor
  · intro cuts sent rest split some
    obtain ⟨earlier, later, chunked, reached⟩ := cuts sent rest split some
    cases earlier with
    | nil =>
        cases sent with
        | nil => exact absurd rfl some
        | cons first sent =>
            obtain ⟨rfl, -⟩ := List.cons.inj split
            have length := congrArg List.length reached
            simp only [List.flatten_nil, List.append_nil, stream_cons,
              List.length_append] at length
            omega
    | cons first earlier =>
        obtain ⟨rfl, tail⟩ := List.cons.inj chunked
        exact ⟨earlier, later, tail, by simpa using reached⟩
  · intro cuts sent rest split some
    obtain ⟨earlier, later, rfl, reached⟩ := cuts sent rest split some
    exact ⟨chunk :: earlier, later, rfl, by simpa using reached⟩

theorem cutsAt_cons_of_whole {message : Message} {messages : List Message}
    {chunk : List Byte} {chunks : List (List Byte)} {buffered : List Byte}
    (partly : buffered.length < (framing.encode message).length)
    (whole : buffered ++ chunk = framing.encode message) :
    framing.CutsAt buffered (message :: messages) (chunk :: chunks) ↔
      framing.CutsAt [] messages chunks := by
  rw [cutsAt_cons_of_partly partly, whole]
  constructor
  · intro cuts sent rest split _
    obtain ⟨earlier, later, chunked, reached⟩ :=
      cuts (message :: sent) rest (by rw [split]; rfl) (List.cons_ne_nil _ _)
    exact ⟨earlier, later, chunked, by simpa using reached⟩
  · intro cuts sent rest split some
    cases sent with
    | nil => exact absurd rfl some
    | cons first sent =>
        obtain ⟨rfl, tail⟩ := List.cons.inj split
        by_cases last : sent = []
        · subst last
          exact ⟨[], chunks, rfl, by simp⟩
        · obtain ⟨earlier, later, chunked, reached⟩ := cuts sent rest tail last
          exact ⟨earlier, later, chunked, by simpa using reached⟩

theorem not_cutsAt_of_beyond {message : Message} {messages : List Message}
    {chunk next : List Byte} {chunks : List (List Byte)} {buffered : List Byte}
    (partly : buffered.length < (framing.encode message).length)
    (beyond : buffered ++ chunk = framing.encode message ++ next)
    (more : next ≠ []) :
    ¬ framing.CutsAt buffered (message :: messages) (chunk :: chunks) := by
  rw [cutsAt_cons_of_partly partly, beyond]
  intro cuts
  obtain ⟨earlier, later, -, reached⟩ :=
    cuts [message] messages rfl (List.cons_ne_nil _ _)
  have length := congrArg List.length reached
  have positive := List.length_pos_iff.mpr more
  simp only [stream_cons, stream_nil, List.append_nil, List.length_append]
    at length
  omega

/-- The messages are taken in order, and all of them without an error exactly
where no chunk holds bytes of two messages. -/
theorem TakesAlone.receiveAll_taken (takes : framing.TakesAlone valid)
    (chunks : List (List Byte)) (taken : List Message) {messages : List Message}
    {buffered : List Byte} (fits : ∀ message ∈ messages, valid message)
    (all : buffered ++ chunks.flatten = framing.stream messages)
    (partly : ∀ message rest, messages = message :: rest →
      buffered.length < (framing.encode message).length) :
    (framing.receiveAll chunks ⟨buffered, taken, none⟩).taken <+:
        taken ++ messages ∧
      ((framing.receiveAll chunks ⟨buffered, taken, none⟩).taken =
            taken ++ messages ∧
          (framing.receiveAll chunks ⟨buffered, taken, none⟩).error = none ↔
        framing.CutsAt buffered messages chunks) := by
  induction chunks generalizing buffered messages taken with
  | nil =>
      cases messages with
      | nil =>
          refine ⟨by simp [receiveAll], iff_of_true ⟨by simp [receiveAll], rfl⟩ ?_⟩
          intro sent rest split
          simp_all
      | cons message messages =>
          have short := partly message messages rfl
          have length := congrArg List.length all
          simp only [List.flatten_nil, List.append_nil, stream_cons,
            List.length_append] at length
          omega
  | cons chunk chunks induction =>
      rw [receiveAll_cons]
      cases messages with
      | nil =>
          simp only [List.flatten_cons, stream_nil, List.append_eq_nil_iff] at all
          obtain ⟨rfl, rfl, empty⟩ := all
          have step : framing.receive [] ⟨[], taken, none⟩ =
              ⟨[], taken, none⟩ := by simp [receive, takes.empty]
          rw [step]
          have nothing : [] ++ chunks.flatten = framing.stream [] := empty
          obtain ⟨order, later⟩ := induction taken fits nothing (by simp)
          refine ⟨order, later.trans (iff_of_true ?_ ?_)⟩ <;>
            exact fun sent rest split => by simp_all
      | cons message messages =>
          have short := partly message messages rfl
          have valid := List.forall_mem_cons.mp fits
          rw [List.flatten_cons, ← List.append_assoc, stream_cons] at all
          rcases append_cases all with ⟨missing, message_eq, more⟩ |
            ⟨whole, rest_eq⟩ | ⟨next, buffer_eq, more⟩
          · have shorter : (buffered ++ chunk).length <
                (framing.encode message).length := by
              have positive := List.length_pos_iff.mpr more
              have length := congrArg List.length message_eq
              rw [List.length_append] at length
              omega
            have step : framing.receive chunk ⟨buffered, taken, none⟩ =
                ⟨buffered ++ chunk, taken, none⟩ := by
              have early := takes.partly message valid.1 (buffered ++ chunk)
                ⟨missing, message_eq.symm⟩ fun same => by simp [same] at shorter
              simp [receive, early]
            rw [step, cutsAt_cons_of_partly short]
            refine induction taken fits (by rw [all, stream_cons]) ?_
            intro first rest split
            obtain ⟨rfl, -⟩ := List.cons.inj split
            exact shorter
          · have step : framing.receive chunk ⟨buffered, taken, none⟩ =
                ⟨[], taken ++ [message], none⟩ := by
              simp [receive, whole, takes.whole message valid.1]
            have others : [] ++ chunks.flatten = framing.stream messages := rest_eq
            have nonempty : ∀ first rest, messages = first :: rest →
                ([] : List Byte).length < (framing.encode first).length := by
              rintro first rest rfl
              exact List.length_pos_iff.mpr
                (takes.encode_ne_nil (valid.2 first List.mem_cons_self))
            have later := induction (taken ++ [message]) valid.2 others nonempty
            rw [List.append_assoc, List.singleton_append] at later
            rwa [step, cutsAt_cons_of_whole short whole]
          · obtain ⟨error, refused⟩ := takes.beyond message valid.1 next more
            have step : framing.receive chunk ⟨buffered, taken, none⟩ =
                ⟨buffered ++ chunk, taken, some error⟩ := by
              simp [receive, buffer_eq, refused]
            rw [step, receiveAll_of_error chunks rfl]
            exact ⟨List.prefix_append _ _, iff_of_false
              (fun clean => by simp at clean)
              (not_cutsAt_of_beyond short buffer_eq more)⟩
end Receiving

end Framing

end Initd.Library
