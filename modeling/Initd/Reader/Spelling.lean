import Mathlib.Data.List.Forall2
import Initd.Lexer.Printable
import Initd.Reader.Meaning

namespace Initd.Reader

open Library Lexer

/-! Every data of a task but that of a mount is what some text means. -/

/-- There are tokens of a text that derive a node of this meaning, wherever
they stand. -/
def Spelled {Node : Type} (grammar : List Token → Node → Prop)
    (means : Node → Prop) : Prop :=
  ∃ kinds, PrintableTokens kinds ∧ ∀ tokens : List Token,
    tokens.map Token.kind = kinds → ∃ node, grammar tokens node ∧ means node

namespace Spelled

variable {Node : Type} {grammar : List Token → Node → Prop}
  {means weaker : Node → Prop}

theorem mono (spelled : Spelled grammar means)
    (weaken : ∀ node, means node → weaker node) : Spelled grammar weaker := by
  obtain ⟨kinds, printable, derives⟩ := spelled
  refine ⟨kinds, printable, fun tokens same => ?_⟩
  obtain ⟨node, derived, meant⟩ := derives tokens same
  exact ⟨node, derived, weaken node meant⟩

/-- One token. -/
theorem single {kind : TokenKind} (prints : ∃ word, Prints kind word)
    (derives : ∀ range, ∃ node, grammar [⟨range, kind⟩] node ∧ means node) :
    Spelled grammar means := by
  refine ⟨[kind], List.forall_mem_singleton.mpr prints, fun tokens same => ?_⟩
  obtain ⟨token, rfl, rfl⟩ := List.map_eq_singleton_iff.mp same
  exact derives token.range

/-- Tokens before a node, and after it. -/
theorem between {Inner : Type} {inner : List Token → Inner → Prop}
    {innerMeans : Inner → Prop} (spelled : Spelled inner innerMeans)
    {before after : List TokenKind} (first : PrintableTokens before)
    (last : PrintableTokens after)
    (derives : ∀ opening tokens closing node,
      opening.map Token.kind = before → closing.map Token.kind = after →
        inner tokens node → innerMeans node →
          ∃ outer, grammar (opening ++ (tokens ++ closing)) outer ∧
            means outer) :
    Spelled grammar means := by
  obtain ⟨kinds, printable, inside⟩ := spelled
  refine ⟨before ++ (kinds ++ after), ?_, fun tokens same => ?_⟩
  · exact List.forall_mem_append.mpr
      ⟨first, List.forall_mem_append.mpr ⟨printable, last⟩⟩
  · obtain ⟨opening, rest, rfl, opens, same⟩ := List.map_eq_append_iff.mp same
    obtain ⟨middle, closing, rfl, same, closes⟩ :=
      List.map_eq_append_iff.mp same
    obtain ⟨node, derived, meant⟩ := inside middle same
    exact derives opening middle closing node opens closes derived meant

end Spelled

theorem getType_of_kind {token : Token} {type : TokenType}
    {isSimple : type.isSimple = true}
    (same : token.kind = .simple type isSimple) : token.getType = type := by
  rw [Token.getType, same]
  rfl

/-! The values of properties. -/

theorem spelled_string (value : Bytes) :
    Spelled Grammar.Value fun node => DenotesString node value :=
  .single (exists_prints_string value) fun range =>
    ⟨_, .string ⟨range, value⟩, _, rfl, rfl⟩

theorem spelled_bool (value : Bool) :
    Spelled Grammar.Value fun node => DenotesBool node value := by
  cases value with
  | true =>
      exact .single (exists_prints_simple rfl (by decide)) fun range =>
        ⟨_, .true rfl, _, rfl⟩
  | false =>
      exact .single (exists_prints_simple rfl (by decide)) fun range =>
        ⟨_, .false rfl, _, rfl⟩

/-- Each byte is quoted on its own, by the quote that it is not. -/
theorem exists_pieces (argument : Bytes) :
    ∃ word, Pieces word argument := by
  induction argument with
  | nil => exact ⟨[], .empty⟩
  | cons c rest induction =>
      obtain ⟨word, pieces⟩ := induction
      obtain ⟨quote, isQuote, other⟩ : ∃ quote, IsQuote quote ∧ quote ≠ c := by
        by_cases double : '"'.toUInt8 = c
        · exact ⟨'\''.toUInt8, .inl rfl, by rw [← double]; decide⟩
        · exact ⟨'"'.toUInt8, .inr rfl, double⟩
      have piece : Piece (quote :: ([c] ++ [quote])) [c] :=
        .quoted quote isQuote (by simpa using other)
      exact ⟨_, .cons piece pieces⟩

theorem exists_encoding (argument : Bytes) :
    ∃ word, Encoding word argument := by
  obtain ⟨word, pieces⟩ := exists_pieces argument
  have nothing : Piece ('"'.toUInt8 :: ([] ++ ['"'.toUInt8])) [] :=
    .quoted _ (.inr rfl) List.not_mem_nil
  exact ⟨_, .cons nothing pieces, by simp⟩

theorem exists_separated (first : Bytes) (others : List Bytes) :
    ∃ value, Separated value (first :: others) := by
  induction others generalizing first with
  | nil =>
      obtain ⟨word, encoding⟩ := exists_encoding first
      exact ⟨word, .last encoding⟩
  | cons next others induction =>
      obtain ⟨word, encoding⟩ := exists_encoding first
      obtain ⟨value, separated⟩ := induction next
      have blank : Blank (ascii " ") := List.forall_mem_singleton.mpr rfl
      exact ⟨_, .cons encoding blank (by decide) separated⟩

theorem spelled_cmdLine (value : CmdLine) :
    Spelled Grammar.Value fun node => DenotesCmdLine node value := by
  obtain ⟨line, separated⟩ :=
    exists_separated value.executable value.arguments
  have commandLine : CommandLine line (value.executable :: value.arguments) :=
    ⟨[], line, [], List.forall_mem_nil _, List.forall_mem_nil _, by simp,
      separated⟩
  exact .single (exists_prints_string line) fun range =>
    ⟨_, .string ⟨range, line⟩, _, rfl, splitCmdLine_commandLine commandLine⟩

/-! Structs. -/

/-- A property of a struct by its name, and what its value means. -/
abbrev Field := Bytes × (ValueNode → Prop)

def Field.Of (field : Field) (property : PropertyNode) : Prop :=
  nameText property.key = some field.1 ∧
    ∃ node, property.value = some node ∧ field.2 node

theorem spelled_property {field : Field} (identifier : IsIdentifier field.1)
    (value : Spelled Grammar.Value field.2) :
    Spelled Grammar.Property field.Of := by
  have first : PrintableTokens [.identifier field.1, .simple .equals rfl] :=
    List.forall_mem_cons.mpr ⟨⟨_, identifier.prints⟩,
      List.forall_mem_singleton.mpr (exists_prints_simple rfl (by decide))⟩
  refine value.between first (List.forall_mem_nil _) ?_
  intro opening tokens closing node opens closes derived meant
  obtain ⟨key, rest, rfl, name, same⟩ := List.map_eq_cons_iff.mp opens
  obtain ⟨eq, rfl, equals⟩ := List.map_eq_singleton_iff.mp same
  obtain rfl := List.map_eq_nil_iff.mp closes
  obtain ⟨range, kind⟩ := key
  obtain rfl : kind = .identifier field.1 := name
  rw [List.append_nil]
  exact ⟨_, .intro ⟨range, field.1⟩ (getType_of_kind equals) derived, rfl, node,
    rfl, meant⟩

theorem spelled_propertyList (field : Field) (fields : List Field)
    (each : ∀ field' ∈ field :: fields,
      Spelled Grammar.Property field'.Of) :
    Spelled Grammar.PropertyList
      (List.Forall₂ Field.Of (field :: fields)) := by
  induction fields generalizing field with
  | nil =>
      have only := each field List.mem_cons_self
      refine only.between (List.forall_mem_nil _) (List.forall_mem_nil _) ?_
      intro opening tokens closing property opens closes derived meant
      obtain rfl := List.map_eq_nil_iff.mp opens
      obtain rfl := List.map_eq_nil_iff.mp closes
      rw [List.nil_append, List.append_nil]
      exact ⟨_, .last derived, .cons meant .nil⟩
  | cons next fields induction =>
      obtain ⟨here, later⟩ := List.forall_mem_cons.mp each
      obtain ⟨kinds, printable, first⟩ := here
      have before : PrintableTokens (kinds ++ [.simple .comma rfl]) :=
        List.forall_mem_append.mpr ⟨printable, List.forall_mem_singleton.mpr
          (exists_prints_simple rfl (by decide))⟩
      refine (induction next later).between before (List.forall_mem_nil _) ?_
      intro opening tokens closing properties opens closes derived meant
      obtain ⟨word, rest, rfl, same, ends⟩ := List.map_eq_append_iff.mp opens
      obtain ⟨token, rfl, separates⟩ := List.map_eq_singleton_iff.mp ends
      obtain rfl := List.map_eq_nil_iff.mp closes
      obtain ⟨property, derived', meant'⟩ := first word same
      rw [List.append_nil, List.append_assoc, List.singleton_append]
      exact ⟨_, .cons derived' (getType_of_kind separates) derived,
        .cons meant' meant⟩

theorem spelled_properties {fields : List Field}
    (each : ∀ field ∈ fields, Spelled Grammar.Property field.Of) :
    Spelled Grammar.Properties (List.Forall₂ Field.Of fields) := by
  cases fields with
  | nil =>
      refine ⟨[], List.forall_mem_nil _, fun tokens same => ?_⟩
      obtain rfl := List.map_eq_nil_iff.mp same
      exact ⟨_, .empty, .nil⟩
  | cons field fields =>
      obtain ⟨kinds, printable, derives⟩ :=
        spelled_propertyList field fields each
      refine ⟨kinds, printable, fun tokens same => ?_⟩
      obtain ⟨properties, derived, meant⟩ := derives tokens same
      exact ⟨properties, .list derived, meant⟩

theorem spelled_struct {typeName : Bytes} (identifier : IsIdentifier typeName)
    {inside : List PropertyNode → Prop}
    (properties : Spelled Grammar.Properties inside) :
    Spelled Grammar.Value fun node =>
      ∃ (tag : IdentifierToken) (properties : List PropertyNode),
        node = .struct (some tag) properties ∧ tag.text = typeName ∧
          inside properties := by
  have first : PrintableTokens [.identifier typeName, .simple .lbrace rfl] :=
    List.forall_mem_cons.mpr ⟨⟨_, identifier.prints⟩,
      List.forall_mem_singleton.mpr (exists_prints_simple rfl (by decide))⟩
  have last : PrintableTokens [.simple .rbrace rfl] :=
    List.forall_mem_singleton.mpr (exists_prints_simple rfl (by decide))
  refine properties.between first last ?_
  intro opening tokens closing node opens closes derived meant
  obtain ⟨tag, rest, rfl, name, same⟩ := List.map_eq_cons_iff.mp opens
  obtain ⟨lbrace, rfl, begins⟩ := List.map_eq_singleton_iff.mp same
  obtain ⟨rbrace, rfl, ends⟩ := List.map_eq_singleton_iff.mp closes
  obtain ⟨range, kind⟩ := tag
  obtain rfl : kind = .identifier typeName := name
  exact ⟨_, .struct ⟨range, typeName⟩ (getType_of_kind begins) derived
    (getType_of_kind ends), _, _, rfl, rfl, meant⟩

section Fields

variable {fields : List Field} {properties : List PropertyNode}

theorem namedOnce_of_fields
    (given : List.Forall₂ Field.Of fields properties)
    (unique : (fields.map Prod.fst).Nodup) :
    NamedOnce PropertyNodeOf.key properties := by
  have names : properties.map (fun property => nameText property.key) =
      (fields.map Prod.fst).map some := by
    clear unique
    induction given with
    | nil => rfl
    | cons here _ induction =>
        rw [List.map_cons, induction, here.1]
        rfl
  rw [NamedOnce, names]
  exact (List.nodup_map_iff fun _ _ => Option.some.inj).mpr unique

theorem given_of_fields {Value : Type} {means : ValueNode → Value → Prop}
    {name : Bytes} {value : Value}
    (given : List.Forall₂ Field.Of fields properties)
    (member : (name, fun node => means node value) ∈ fields) :
    Given means properties name value := by
  induction given with
  | nil => contradiction
  | @cons field property fields properties here _ induction =>
      cases List.mem_cons.mp member with
      | inl same =>
          obtain ⟨named, node, valued, meant⟩ := here
          refine ⟨property, List.mem_cons_self, by rw [named, ← same], node,
            valued, ?_⟩
          rw [← same] at meant
          exact meant
      | inr later =>
          obtain ⟨property', inside, rest⟩ := induction later
          exact ⟨property', List.mem_cons_of_mem _ inside, rest⟩

end Fields

/-- The names of the structs that describe tasks, and of their properties. -/
def structWords : List Bytes :=
  [ascii "sethostname", ascii "hostname", ascii "no_restore", ascii "command",
    ascii "cmd", ascii "working_directory", ascii "start_stop", ascii "start",
    ascii "stop", ascii "control", ascii "uds_filename", ascii "null"]

theorem isIdentifier_structWords : ∀ word ∈ structWords, IsIdentifier word := by
  have starts : ∀ word ∈ structWords,
      word.head?.any isIdentifierStart = true := by decide
  have runs : ∀ word ∈ structWords,
      word.all isIdentifierTrail = true := by decide
  have fresh : ∀ word ∈ structWords, ∀ entry ∈ keywords,
      word ≠ entry.2 := by decide
  exact fun word member => ⟨starts word member,
    List.all_eq_true.mp (runs word member), fresh word member⟩

theorem spelled_meansStruct {Value : Type} {typeName : Bytes}
    {inside : List PropertyNode → Value → Prop} {value : Value}
    (fields : List Field) (names : List Bytes)
    (same : fields.map Prod.fst = names)
    (known : ∀ word ∈ typeName :: names, word ∈ structWords)
    (unique : names.Nodup)
    (values : ∀ field ∈ fields, Spelled Grammar.Value field.2)
    (fits : ∀ properties, List.Forall₂ Field.Of fields properties →
      inside properties value) :
    Spelled Grammar.Value fun node =>
      MeansStruct typeName inside node value := by
  subst names
  obtain ⟨type, keys⟩ := List.forall_mem_cons.mp known
  have properties := spelled_properties fun field member =>
    spelled_property
      (isIdentifier_structWords _ (keys _ (List.mem_map_of_mem member)))
      (values field member)
  refine (spelled_struct (isIdentifier_structWords _ type) properties).mono
    fun node meant => ?_
  obtain ⟨tag, properties, same, named, given⟩ := meant
  exact ⟨tag, properties, same, named, namedOnce_of_fields given unique,
    fits properties given⟩

theorem spelled_hostname (data : HostnameTaskData) :
    Spelled Grammar.Value fun node => MeansHostname node data := by
  refine spelled_meansStruct
    [(ascii "hostname", fun node => DenotesString node data.hostname),
      (ascii "no_restore", fun node => DenotesBool node data.noRestore)]
    [ascii "hostname", ascii "no_restore"] rfl (by decide) (by decide) ?_ fun properties given => ?_
  · simp only [List.forall_mem_cons]
    exact ⟨spelled_string _, spelled_bool _, List.forall_mem_nil _⟩
  · exact ⟨given_of_fields given (by simp),
      .inl (given_of_fields given (by simp))⟩

theorem spelled_command (data : Command) :
    Spelled Grammar.Value fun node => MeansCommand node data := by
  refine spelled_meansStruct
    [(ascii "cmd", fun node => DenotesCmdLine node data.cmd),
      (ascii "working_directory",
        fun node => DenotesString node data.workingDirectory)]
    [ascii "cmd", ascii "working_directory"] rfl (by decide) (by decide) ?_
    fun properties given => ?_
  · simp only [List.forall_mem_cons]
    exact ⟨spelled_cmdLine _, spelled_string _, List.forall_mem_nil _⟩
  · exact ⟨given_of_fields given (by simp),
      .inl (given_of_fields given (by simp))⟩

theorem spelled_startStop (data : StartStopTaskData) :
    Spelled Grammar.Value fun node => MeansStartStop node data := by
  refine spelled_meansStruct
    [(ascii "start", fun node => MeansCommand node data.start),
      (ascii "stop", fun node => MeansCommand node data.stop)]
    [ascii "start", ascii "stop"] rfl (by decide) (by decide) ?_ fun properties given => ?_
  · simp only [List.forall_mem_cons]
    exact ⟨spelled_command _, spelled_command _, List.forall_mem_nil _⟩
  · exact ⟨given_of_fields given (by simp), given_of_fields given (by simp)⟩

theorem spelled_control (data : ControlTaskData) :
    Spelled Grammar.Value fun node => MeansControl node data :=
  spelled_meansStruct
    [(ascii "uds_filename", fun node => DenotesString node data.udsFilename)]
    [ascii "uds_filename"] rfl (by decide) (by decide)
    (List.forall_mem_singleton.mpr (spelled_string _))
    fun _ given => given_of_fields given (by simp)

theorem spelled_null : Spelled Grammar.Value fun node => MeansNull node ⟨⟩ :=
  spelled_meansStruct [] _ rfl (by decide) (by decide) (List.forall_mem_nil _)
    fun _ _ => trivial

/-- No value means a task that mounts. -/
theorem spelled_taskData {data : TaskData} :
    Spelled Grammar.Value (fun node => MeansTask node data) ↔
      ∀ mount, data ≠ .mount mount := by
  constructor
  · rintro ⟨kinds, printable, derives⟩ mount rfl
    obtain ⟨text, tokens, lexer, -, -, same⟩ := printable.exists_read
    obtain ⟨node, -, means⟩ := derives tokens same
    cases means
  · intro noMount
    cases data with
    | mount mount => exact absurd rfl (noMount mount)
    | hostname data => exact (spelled_hostname data).mono fun _ => .hostname
    | startStop data => exact (spelled_startStop data).mono fun _ => .startStop
    | control data => exact (spelled_control data).mono fun _ => .control
    | null => exact spelled_null.mono fun _ => .null

end Initd.Reader
