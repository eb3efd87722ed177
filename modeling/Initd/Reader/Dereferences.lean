import Initd.Library.Lockstep
import Initd.Reader.CmdLineGrammar

namespace Initd.Reader

open Library

/-! The reader of a command line with its dereferences of an iterator. -/

inductive CmdLineEvent
  | reported (error : ErrorTag)
  | dereferenced (i : Bytes)
  deriving DecidableEq, Repr

abbrev TraceM := StateT (List CmdLineEvent) (Except ConfigFault)

def dereference (i : Bytes) : TraceM UInt8 := do
  modify (· ++ [.dereferenced i])
  return charAt i

def report (range : TextRange) (message : Bytes) : TraceM PUnit :=
  modify (· ++ [.reported ⟨range, message⟩])

def traceArgument (range : TextRange) :
    Nat → Bytes → Bytes → TraceM (Option (Bytes × Bytes))
  | 0, _, _ => throw .fuel
  | fuel + 1, arg, i => do
      let c ← dereference i
      if c = '\''.toUInt8 ∨ c = '"'.toUInt8 then
        match readQuoted c i.tail with
        | none =>
            report range (ascii "unmatched " ++ [c])
            return none
        | some (piece, j) => traceArgument range fuel (arg ++ piece) j
      else if isAsciiWhitespace c then
        return some (arg, i)
      else
        traceArgument range fuel (arg ++ [c]) i.tail

def traceSplit (range : TextRange) :
    Nat → List Bytes → Bytes → TraceM (Option (List Bytes))
  | 0, _, _ => throw .fuel
  | fuel + 1, split, i => do
      let i := i.dropWhile isAsciiWhitespace
      if i = [] then
        return some split
      match ← traceArgument range (i.length + 1) [] i with
      | none => return none
      | some (arg, i) => traceSplit range fuel (split ++ [arg]) i

/-- `read` of a string node. -/
def traceCmdLine (tok : StringLiteralToken) : TraceM (Option CmdLine) := do
  match ← traceSplit tok.range (tok.value.length + 1) [] tok.value with
  | none => return none
  | some [] =>
      report tok.range (ascii "empty command line")
      return none
  | some (executable :: arguments) =>
      return some ⟨executable, arguments⟩

/-! Without its dereferences it is the reader. -/

def errorsOf (events : List CmdLineEvent) : List ErrorTag :=
  events.filterMap fun
    | .reported error => some error
    | .dereferenced _ => none

def Erases {Value : Type} (traced : TraceM Value) (plain : ReadM Value) : Prop :=
  Lockstep (fun events errors => errorsOf events = errors) traced plain

theorem errorsOf_append (events more : List CmdLineEvent) :
    errorsOf (events ++ more) = errorsOf events ++ errorsOf more :=
  List.filterMap_append

theorem dereference_bind_erases {Value : Type} {i : Bytes}
    {next : UInt8 → TraceM Value} {plain : ReadM Value}
    (later : Erases (next (charAt i)) plain) :
    Erases (dereference i >>= next) plain := by
  intro events errors same
  have still : errorsOf (events ++ [.dereferenced i]) = errors := by
    rw [errorsOf_append, same]
    exact List.append_nil errors
  exact later _ errors still

theorem report_erases (range : TextRange) (message : Bytes) :
    Erases (report range message) (push range message) := by
  refine Lockstep.modify fun events errors same => ?_
  rw [errorsOf_append, same]
  rfl

theorem traceArgument_erases (range : TextRange) (fuel : Nat) (arg i : Bytes) :
    Erases (traceArgument range fuel arg i) (readArgument range fuel arg i) := by
  induction fuel generalizing arg i with
  | zero => exact .throw _
  | succ fuel induction =>
      rw [traceArgument, readArgument]
      refine dereference_bind_erases (.ite ?_ (.ite (.pure _) (induction _ _)))
      cases readQuoted (charAt i) i.tail with
      | none => exact .bind (report_erases range _) fun _ => .pure none
      | some entry => exact induction _ _

theorem traceSplit_erases (range : TextRange) (fuel : Nat)
    (split : List Bytes) (i : Bytes) :
    Erases (traceSplit range fuel split i) (splitCmdLine range fuel split i) := by
  induction fuel generalizing split i with
  | zero => exact .throw _
  | succ fuel induction =>
      rw [traceSplit, splitCmdLine]
      refine .ite (.pure _) (.bind (traceArgument_erases range _ _ _) ?_)
      intro read
      cases read with
      | none => exact .pure none
      | some entry => exact induction _ _

theorem traceCmdLine_erases (tok : StringLiteralToken) :
    Erases (traceCmdLine tok) (readCmdLine.read (.string (some tok))) := by
  have started : readCmdLine.read (.string (some tok)) = (do
      match ← splitCmdLine tok.range (tok.value.length + 1) [] tok.value with
      | none => return none
      | some [] =>
          push tok.range (ascii "empty command line")
          return none
      | some (executable :: arguments) =>
          return some ⟨executable, arguments⟩) := rfl
  rw [started]
  refine Lockstep.bind (traceSplit_erases tok.range _ [] tok.value)
    fun split => ?_
  match split with
  | none => exact .pure none
  | some [] => exact .bind (report_erases tok.range _) fun _ => .pure none
  | some (_ :: _) => exact .pure _

theorem Erases.writes {Value : Type} {traced : TraceM Value}
    {plain : ReadM Value} (erases : Erases traced plain) {value : Value}
    {events : List CmdLineEvent} (writes : Writes traced value events) :
    Writes plain value (errorsOf events) := by
  intro journal
  have start : errorsOf (journal.map .reported) = journal := by
    rw [errorsOf, List.filterMap_map]
    exact List.filterMap_some
  obtain ⟨value', final, errors, ran, ran', ends⟩ | ⟨fault, failed, -⟩ :=
    erases _ _ start
  · rw [writes] at ran
    obtain ⟨rfl, rfl⟩ := Prod.mk.inj (Except.ok.inj ran)
    rw [ran', ← ends, errorsOf_append, start]
  · rw [writes] at failed
    contradiction

/-! Where the iterators are. -/

/-- Iterators of a text. -/
def Inside (text : Bytes) (events : List CmdLineEvent) : Prop :=
  ∀ i, .dereferenced i ∈ events → i <:+ text

/-- None of the iterators is `value.cend()`. -/
def BeforeEnd (events : List CmdLineEvent) : Prop :=
  ∀ i, .dereferenced i ∈ events → i ≠ []

/-- The quote that is open at the end of a text. -/
def openQuote : Option UInt8 → Bytes → Option UInt8
  | quote, [] => quote
  | none, c :: rest =>
      openQuote (if c = '\''.toUInt8 ∨ c = '"'.toUInt8 then some c else none)
        rest
  | some quote, c :: rest =>
      openQuote (if c = quote then none else some quote) rest

/-- A quote of the value is not closed, or the value does not end with the last
byte of an argument. -/
def EndsOutside (value : Bytes) : Prop :=
  openQuote none value ≠ none ∨
    ∀ c ∈ value.getLast?, isAsciiWhitespace c = true

instance (value : Bytes) : Decidable (EndsOutside value) :=
  inferInstanceAs (Decidable (_ ∨ _))

variable {text more i arg : Bytes} {events others : List CmdLineEvent}

theorem inside_append :
    Inside text (events ++ others) ↔
      Inside text events ∧ Inside text others := by
  simp only [Inside, List.mem_append, or_imp, forall_and]

theorem beforeEnd_append :
    BeforeEnd (events ++ others) ↔ BeforeEnd events ∧ BeforeEnd others := by
  simp only [BeforeEnd, List.mem_append, or_imp, forall_and]

theorem Inside.mono (inside : Inside text events) (suffix : text <:+ more) :
    Inside more events :=
  fun i member => (inside i member).trans suffix

@[simp] theorem inside_nil : Inside text [] := by simp [Inside]

@[simp] theorem beforeEnd_nil : BeforeEnd [] := by simp [BeforeEnd]

@[simp] theorem inside_dereferenced :
    Inside text (.dereferenced i :: events) ↔
      i <:+ text ∧ Inside text events := by
  simp [Inside, or_imp, forall_and]

@[simp] theorem beforeEnd_dereferenced :
    BeforeEnd (.dereferenced i :: events) ↔ i ≠ [] ∧ BeforeEnd events := by
  simp [BeforeEnd, or_imp, forall_and]

@[simp] theorem inside_reported {error : ErrorTag} :
    Inside text (.reported error :: events) ↔ Inside text events := by
  simp [Inside]

@[simp] theorem beforeEnd_reported {error : ErrorTag} :
    BeforeEnd (.reported error :: events) ↔ BeforeEnd events := by
  simp [BeforeEnd]

theorem dereference_writes (i : Bytes) :
    Writes (dereference i) (charAt i) [.dereferenced i] :=
  fun _ => rfl

theorem report_writes (range : TextRange) (message : Bytes) :
    Writes (report range message) ⟨⟩ [.reported ⟨range, message⟩] :=
  fun _ => rfl

/-! One argument. -/

variable {range : TextRange} {fuel : Nat}
  {result : Option (Bytes × Bytes)}

theorem traceArgument_blank (ends : WordEnds i) :
    Writes (traceArgument range (fuel + 1) arg i) (some (arg, i))
      [.dereferenced i] := by
  have blank : isAsciiWhitespace (charAt i) = true := ends
  have noQuote : ¬ (charAt i = '\''.toUInt8 ∨ charAt i = '"'.toUInt8) :=
    not_isQuote_of_blank blank
  rw [traceArgument, ← List.append_nil [CmdLineEvent.dereferenced i]]
  refine (dereference_writes i).bind ?_
  rw [if_neg noQuote, if_pos blank]
  exact .pure _

theorem traceArgument_piece {word contents : Bytes}
    (piece : Piece word contents)
    (rest : Writes (traceArgument range fuel (arg ++ contents) i) result
      events) :
    Writes (traceArgument range (fuel + 1) arg (word ++ i)) result
      (.dereferenced (word ++ i) :: events) := by
  rw [traceArgument]
  refine (dereference_writes (word ++ i)).bind ?_
  cases piece with
  | bare c visible noQuote =>
      have shown : charAt ([c] ++ i) = c := rfl
      have other : ¬ (c = '\''.toUInt8 ∨ c = '"'.toUInt8) := noQuote
      rw [shown, if_neg other, if_neg (by simp [visible])]
      exact rest
  | quoted c quote inside =>
      have shown : charAt ((c :: (contents ++ [c])) ++ i) = c := rfl
      have behind : ((c :: (contents ++ [c])) ++ i).tail =
          contents ++ c :: i := by simp
      have same : c = '\''.toUInt8 ∨ c = '"'.toUInt8 := quote
      rw [shown, if_pos same, behind, readQuoted_closed inside i]
      exact rest

theorem traceArgument_unmatched {c : UInt8} (quote : IsQuote c)
    (inside : c ∉ i) :
    Writes (traceArgument range (fuel + 1) arg (c :: i)) none
      [.dereferenced (c :: i), .reported (unmatched range c)] := by
  have shown : charAt (c :: i) = c := rfl
  have same : c = '\''.toUInt8 ∨ c = '"'.toUInt8 := quote
  rw [traceArgument]
  refine (dereference_writes (c :: i)).bind ?_
  rw [shown, if_pos same, List.tail_cons, readQuoted_open inside]
  exact (report_writes range _).bind_pure fun _ => none

/-- The iterators at the pieces of an argument are before the end. -/
theorem traceArgument_pieces {word contents rest : Bytes}
    (pieces : Pieces word contents) :
    ∀ (arg : Bytes),
      (∀ fuel, rest.length < fuel →
        Writes (traceArgument range fuel (arg ++ contents) rest) result
          others) →
      ∀ fuel, (word ++ rest).length < fuel →
        ∃ early, Inside (word ++ rest) early ∧ BeforeEnd early ∧
          Writes (traceArgument range fuel arg (word ++ rest)) result
            (early ++ others) := by
  induction pieces with
  | empty =>
      intro arg later fuel enough
      rw [List.append_nil] at later
      exact ⟨[], inside_nil, beforeEnd_nil, later fuel enough⟩
  | @cons first contents word _ piece _ induction =>
      intro arg later fuel enough
      obtain ⟨c, tail, start, -⟩ := piece.visible
      have some : 0 < first.length := by
        rw [start]
        exact Nat.zero_lt_succ _
      simp only [List.length_append] at enough
      obtain ⟨fuel, rfl⟩ : ∃ n, fuel = n + 1 := ⟨fuel - 1, by omega⟩
      rw [← List.append_assoc] at later
      obtain ⟨early, inside, beforeEnd, writes⟩ := induction _ later fuel (by
        rw [List.length_append]
        omega)
      have here : first ++ (word ++ rest) ≠ [] := by simp [start]
      rw [List.append_assoc]
      refine ⟨.dereferenced (first ++ (word ++ rest)) :: early, ?_, ?_,
        traceArgument_piece piece writes⟩
      · exact inside_dereferenced.mpr ⟨List.suffix_rfl,
          inside.mono (List.suffix_append _ _)⟩
      · exact beforeEnd_dereferenced.mpr ⟨here, beforeEnd⟩

theorem traceArgument_word (range : TextRange) {word contents rest : Bytes}
    (pieces : Pieces word contents) (ends : WordEnds rest) :
    ∃ early, Inside (word ++ rest) early ∧ BeforeEnd early ∧
      Writes (traceArgument range ((word ++ rest).length + 1) [] (word ++ rest))
        (some (contents, rest)) (early ++ [.dereferenced rest]) := by
  refine traceArgument_pieces pieces [] (fun fuel enough => ?_) _
    (Nat.lt_succ_self _)
  obtain ⟨fuel, rfl⟩ : ∃ n, fuel = n + 1 := ⟨fuel - 1, by omega⟩
  exact traceArgument_blank ends

theorem traceArgument_unclosed (range : TextRange)
    {word contents rest : Bytes} {c : UInt8} (pieces : Pieces word contents)
    (quote : IsQuote c) (inside : c ∉ rest) :
    ∃ early, Inside (word ++ c :: rest) early ∧ BeforeEnd early ∧
      Writes (traceArgument range ((word ++ c :: rest).length + 1) []
          (word ++ c :: rest)) none
        (early ++ [.dereferenced (c :: rest), .reported (unmatched range c)]) := by
  refine traceArgument_pieces pieces [] (fun fuel enough => ?_) _
    (Nat.lt_succ_self _)
  obtain ⟨fuel, rfl⟩ : ∃ n, fuel = n + 1 := ⟨fuel - 1, by omega⟩
  exact traceArgument_unmatched quote inside

/-! The quotes of a value. -/

theorem openQuote_blank {run : Bytes} (blank : Blank run) (rest : Bytes) :
    openQuote none (run ++ rest) = openQuote none rest := by
  induction run with
  | nil => rfl
  | cons c run induction =>
      obtain ⟨here, later⟩ := List.forall_mem_cons.mp blank
      have noQuote : ¬ (c = '\''.toUInt8 ∨ c = '"'.toUInt8) :=
        not_isQuote_of_blank here
      rw [List.cons_append, openQuote, if_neg noQuote]
      exact induction later

theorem openQuote_inside {c : UInt8} {contents : Bytes} (inside : c ∉ contents)
    (rest : Bytes) :
    openQuote (some c) (contents ++ rest) = openQuote (some c) rest := by
  induction contents with
  | nil => rfl
  | cons d contents induction =>
      obtain ⟨other, later⟩ := not_or.mp (List.mem_cons.not.mp inside)
      rw [List.cons_append, openQuote, if_neg (Ne.symm other)]
      exact induction later

theorem openQuote_piece {word contents : Bytes} (piece : Piece word contents)
    (rest : Bytes) : openQuote none (word ++ rest) = openQuote none rest := by
  cases piece with
  | bare c visible noQuote =>
      have other : ¬ (c = '\''.toUInt8 ∨ c = '"'.toUInt8) := noQuote
      rw [List.singleton_append, openQuote, if_neg other]
  | quoted c quote inside =>
      have same : c = '\''.toUInt8 ∨ c = '"'.toUInt8 := quote
      rw [List.cons_append, openQuote, if_pos same, List.append_assoc,
        openQuote_inside inside, List.singleton_append, openQuote, if_pos rfl]

theorem openQuote_pieces {word contents : Bytes} (pieces : Pieces word contents)
    (rest : Bytes) : openQuote none (word ++ rest) = openQuote none rest := by
  induction pieces with
  | empty => rfl
  | cons piece _ induction =>
      rw [List.append_assoc, openQuote_piece piece, induction]

theorem Piece.getLast? {word contents : Bytes} (piece : Piece word contents) :
    ∃ c, word.getLast? = some c ∧ isAsciiWhitespace c = false := by
  cases piece with
  | bare c visible _ => exact ⟨c, rfl, visible⟩
  | quoted c quote _ =>
      refine ⟨c, ?_, quote.visible⟩
      rw [← List.cons_append, List.getLast?_concat]

theorem Pieces.getLast? {word contents : Bytes} (pieces : Pieces word contents)
    (nonempty : word ≠ []) :
    ∃ c, word.getLast? = some c ∧ isAsciiWhitespace c = false := by
  induction pieces with
  | empty => exact absurd rfl nonempty
  | @cons first _ more _ piece _ induction =>
      by_cases last : more = []
      · rw [last, List.append_nil]
        exact piece.getLast?
      · rw [List.getLast?_append_of_ne_nil first last]
        exact induction last

/-- Only what follows the last argument matters, if something does. -/
theorem endsOutside_append {before rest : Bytes} (some : rest ≠ [])
    (same : openQuote none (before ++ rest) = openQuote none rest) :
    EndsOutside (before ++ rest) ↔ EndsOutside rest := by
  rw [EndsOutside, EndsOutside, same, List.getLast?_append_of_ne_nil before some]

theorem not_endsOutside_argument {before word contents : Bytes}
    (blank : Blank before) (pieces : Pieces word contents)
    (nonempty : word ≠ []) : ¬ EndsOutside (before ++ word) := by
  have closed : openQuote none (before ++ word) = none := by
    rw [openQuote_blank blank, ← List.append_nil word, openQuote_pieces pieces]
    rfl
  obtain ⟨c, last, visible⟩ := pieces.getLast? nonempty
  rw [EndsOutside, closed, List.getLast?_append_of_ne_nil before nonempty, last]
  simp [visible]

theorem endsOutside_unclosed {before word contents rest : Bytes} {c : UInt8}
    (blank : Blank before) (pieces : Pieces word contents) (quote : IsQuote c)
    (inside : c ∉ rest) : EndsOutside (before ++ (word ++ c :: rest)) := by
  have same : c = '\''.toUInt8 ∨ c = '"'.toUInt8 := quote
  have opened : openQuote none (before ++ (word ++ c :: rest)) = some c := by
    rw [openQuote_blank blank, openQuote_pieces pieces, openQuote, if_pos same,
      ← List.append_nil rest, openQuote_inside inside]
    rfl
  refine .inl ?_
  rw [opened]
  exact Option.some_ne_none c

/-- The iterators are those of the value, and before its end exactly where that
is known from the value. -/
structure Judges (value : Bytes) (events : List CmdLineEvent) : Prop where
  inside : Inside value events
  decided : BeforeEnd events ↔ EndsOutside value

theorem Judges.blank {value : Bytes} (blank : Blank value) :
    Judges value [] where
  inside := inside_nil
  decided := iff_of_true beforeEnd_nil
    (.inr fun c last => blank c (List.mem_of_getLast? last))

/-- The end of the last argument is the end of the value or before it. -/
theorem Judges.word {before word contents rest : Bytes}
    {early : List CmdLineEvent} (blank : Blank before)
    (pieces : Pieces word contents) (nonempty : word ≠ [])
    (inside : Inside (word ++ rest) early) (beforeEnd : BeforeEnd early)
    (later : Judges rest events) :
    Judges (before ++ (word ++ rest))
      (early ++ [.dereferenced rest] ++ events) where
  inside := by
    have whole : word ++ rest <:+ before ++ (word ++ rest) :=
      List.suffix_append _ _
    have last : rest <:+ before ++ (word ++ rest) :=
      (List.suffix_append word rest).trans whole
    rw [inside_append, inside_append, inside_dereferenced]
    exact ⟨⟨inside.mono whole, last, inside_nil⟩, later.inside.mono last⟩
  decided := by
    rw [beforeEnd_append, beforeEnd_append, beforeEnd_dereferenced,
      later.decided]
    by_cases last : rest = []
    · rw [last, List.append_nil]
      exact iff_of_false (fun holds => holds.1.2.1 rfl)
        (not_endsOutside_argument blank pieces nonempty)
    · have same : openQuote none ((before ++ word) ++ rest) =
          openQuote none rest := by
        rw [List.append_assoc, openQuote_blank blank, openQuote_pieces pieces]
      rw [← List.append_assoc, endsOutside_append last same]
      exact and_iff_right ⟨beforeEnd, last, beforeEnd_nil⟩

theorem Judges.unclosed {before word contents rest : Bytes} {c : UInt8}
    {early : List CmdLineEvent} {error : ErrorTag} (blank : Blank before)
    (pieces : Pieces word contents) (quote : IsQuote c) (unquoted : c ∉ rest)
    (inside : Inside (word ++ c :: rest) early) (beforeEnd : BeforeEnd early) :
    Judges (before ++ (word ++ c :: rest))
      (early ++ [.dereferenced (c :: rest), .reported error]) where
  inside := by
    refine Inside.mono ?_ (List.suffix_append before _)
    rw [inside_append, inside_dereferenced, inside_reported]
    exact ⟨inside, List.suffix_append word _, inside_nil⟩
  decided := by
    refine iff_of_true ?_ (endsOutside_unclosed blank pieces quote unquoted)
    rw [beforeEnd_append, beforeEnd_dereferenced, beforeEnd_reported]
    exact ⟨beforeEnd, List.cons_ne_nil c rest, beforeEnd_nil⟩

/-! The whole value. -/

variable {split : List Bytes} {words : Option (List Bytes)}

theorem traceSplit_blank (blank : Blank i) :
    Writes (traceSplit range (fuel + 1) split i) (some split) [] := by
  have none : i.dropWhile isAsciiWhitespace = [] :=
    List.dropWhile_eq_nil_iff.mpr blank
  rw [traceSplit]
  simp only [none, if_true]
  exact .pure _

/-- One round of the loop, past the whitespace before its argument. -/
theorem traceSplit_argument {before : Bytes} (blank : Blank before)
    (visible : isAsciiWhitespace (charAt i) = false)
    (reads : Writes (traceArgument range (i.length + 1) [] i) result events)
    (later : Writes (match result with
      | none => pure none
      | some (arg, rest) => traceSplit range fuel (split ++ [arg]) rest) words
      others) :
    Writes (traceSplit range (fuel + 1) split (before ++ i)) words
      (events ++ others) := by
  cases i with
  | nil => contradiction
  | cons d rest =>
      have start : (before ++ d :: rest).dropWhile isAsciiWhitespace =
          d :: rest := by
        rw [List.dropWhile_append_of_pos blank]
        exact List.dropWhile_cons_of_neg (by simpa [charAt] using visible)
      rw [traceSplit]
      simp only [start]
      rw [if_neg (List.cons_ne_nil d rest)]
      exact reads.bind later

theorem traceSplit_judges (range : TextRange) :
    ∀ (fuel : Nat) (split : List Bytes) (i : Bytes), i.length < fuel →
      ∃ words events, Writes (traceSplit range fuel split i) words events ∧
        Judges i events := by
  intro fuel
  induction fuel with
  | zero => exact fun _ _ enough => absurd enough (Nat.not_lt_zero _)
  | succ fuel induction =>
      intro split i enough
      obtain ⟨before, i, rfl, leading, empty | visible⟩ := exists_leading i
      · rw [empty, List.append_nil]
        exact ⟨_, [], traceSplit_blank leading, .blank leading⟩
      obtain ⟨word, contents, rest, rfl, pieces, ends |
        ⟨c, quoted, quote, unquoted, rfl⟩⟩ := argument_split i
      · have nonempty : word ≠ [] := by
          rintro rfl
          rw [WordEnds] at ends
          rw [List.nil_append, ends] at visible
          contradiction
        have shorter : rest.length < fuel := by
          have positive := List.length_pos_iff.mpr nonempty
          simp only [List.length_append] at enough
          omega
        obtain ⟨early, inside, beforeEnd, reads⟩ :=
          traceArgument_word range pieces ends
        obtain ⟨words, events, writes, later⟩ :=
          induction (split ++ [contents]) rest shorter
        exact ⟨words, _, traceSplit_argument leading visible reads writes,
          .word leading pieces nonempty inside beforeEnd later⟩
      · obtain ⟨early, inside, beforeEnd, reads⟩ :=
          traceArgument_unclosed range pieces quote unquoted
        have writes : Writes (traceSplit range (fuel + 1) split _) none _ :=
          traceSplit_argument leading visible reads (.pure none)
        rw [List.append_nil] at writes
        exact ⟨none, _, writes,
          .unclosed leading pieces quote unquoted inside beforeEnd⟩

/-- What the reader does with a value, and what it dereferences: iterators of
the value, and all of them before its end exactly where the value does not end
with the last byte of an argument. -/
theorem traceCmdLine_beforeEnd_iff (tok : StringLiteralToken) :
    ∃ result events, Writes (traceCmdLine tok) result events ∧
      Writes (readCmdLine.read (.string (some tok))) result (errorsOf events) ∧
      Inside tok.value events ∧
      (BeforeEnd events ↔ EndsOutside tok.value) := by
  obtain ⟨words, events, writes, inside, decided⟩ :=
    traceSplit_judges tok.range _ [] tok.value (Nat.lt_succ_self _)
  have silent : ∃ result errors,
      Writes (traceCmdLine tok) result (events ++ errors) ∧
        Inside tok.value errors ∧ BeforeEnd errors := by
    match words with
    | none =>
        exact ⟨none, [], writes.bind (.pure none), inside_nil, beforeEnd_nil⟩
    | some [] =>
        exact ⟨none, _, writes.bind ((report_writes tok.range _).bind_pure
          fun _ => none), inside_reported.mpr inside_nil,
          beforeEnd_reported.mpr beforeEnd_nil⟩
    | some (executable :: arguments) =>
        exact ⟨some ⟨executable, arguments⟩, [], writes.bind (.pure _),
          inside_nil, beforeEnd_nil⟩
  obtain ⟨result, errors, traced, insideErrors, beforeEndErrors⟩ := silent
  refine ⟨result, _, traced, (traceCmdLine_erases tok).writes traced,
    inside_append.mpr ⟨inside, insideErrors⟩, ?_⟩
  rw [beforeEnd_append, decided]
  exact and_iff_left beforeEndErrors

/-- An argument of one bare byte is read past the end of its value. -/
theorem bareByte_dereferences_end :
    ∃ events, traceCmdLine ⟨⟨0, 3⟩, [97]⟩ [] =
        .ok (some ⟨[97], []⟩, events) ∧
      ¬ BeforeEnd events := by
  refine ⟨[.dereferenced [97], .dereferenced []], rfl, fun beforeEnd => ?_⟩
  exact beforeEnd [] (List.mem_cons_of_mem _ List.mem_cons_self) rfl

end Initd.Reader
