import Initd.Reader.CmdLineGrammar
import Initd.Reader.Denotes

namespace Initd.Reader

open Library

/-! On a tree that is complete every reader returns, pushes errors at the
tokens of the tree only, and reads what the tree means where it pushes none. -/

variable {known : TextRange → Prop}

/-- Where the tree is whole, the result is a value of this meaning. -/
def Yields {Value : Type} (whole : Prop) (denotes : Value → Prop)
    (result : Option Value) : Prop :=
  whole → ∃ value, result = some value ∧ denotes value

theorem Yields.some {Value : Type} {whole : Prop} {denotes : Value → Prop}
    {value : Value} (yields : Yields whole denotes (some value)) :
    whole → denotes value := by
  intro holds
  obtain ⟨_, same, here⟩ := yields holds
  rwa [Option.some.inj same]

theorem Yields.none {Value Result : Type} {whole : Prop}
    {denotes : Value → Prop} {result : Result → Prop} {other : Option Result}
    (yields : Yields whole denotes none) : Yields whole result other := by
  intro holds
  obtain ⟨_, same, -⟩ := yields holds
  contradiction

/-! Duplicates. -/

theorem reportDuplicates_writes {Value : Type} {f : Value → ReadM PUnit}
    {message : Bytes} :
    ∀ {map : Multimap Bytes Value} (lastReported : Bool),
      (∀ element ∈ map, ∃ range, known range ∧
        Writes (f element.2) ⟨⟩ [⟨range, message⟩]) →
        ∃ errors, Writes (reportDuplicates f lastReported map) ⟨⟩ errors ∧
          ∀ error ∈ errors, error.message = message ∧ known error.range
  | [], _, _ => ⟨[], .pure _, List.forall_mem_nil _⟩
  | [_], _, _ => ⟨[], .pure _, List.forall_mem_nil _⟩
  | previous :: element :: rest, lastReported, each => by
      obtain ⟨⟨place, here, first⟩, later⟩ := List.forall_mem_cons.mp each
      obtain ⟨place', here', second⟩ := later element List.mem_cons_self
      rw [reportDuplicates]
      split
      · obtain ⟨errors, writes, among⟩ := reportDuplicates_writes true later
        have reports : Writes (do
            f element.2
            reportDuplicates f true (element :: rest)) ⟨⟩
            (⟨place', message⟩ :: errors) := second.bind writes
        have both : ∀ error ∈ ErrorTag.mk place' message :: errors,
            error.message = message ∧ known error.range :=
          List.forall_mem_cons.mpr ⟨⟨rfl, here'⟩, among⟩
        split
        · exact ⟨⟨place, message⟩ :: ⟨place', message⟩ :: errors,
            first.bind reports, List.forall_mem_cons.mpr ⟨⟨rfl, here⟩, both⟩⟩
        · exact ⟨_, reports, both⟩
      · exact reportDuplicates_writes lastReported later

/-- The reports of the nodes that share a name. -/
theorem duplicates_writes {Node : Type} {name : Node → Option IdentifierToken}
    {nodes : List Node} {map : Multimap Bytes Node} (message : Bytes)
    (placed : ∀ node ∈ nodes, KnownToken known IdentifierToken.range (name node))
    (indexed : IndexedBy name nodes map) :
    ∃ errors,
      Writes (reportDuplicates (fun node => do
        push (← deref (name node)).range message) false map) ⟨⟩ errors ∧
      ∀ error ∈ errors, error.message = message ∧ known error.range := by
  refine reportDuplicates_writes false fun element member => ?_
  obtain ⟨token, found, here⟩ := placed _ (indexed.mem member)
  rw [found]
  exact ⟨token.range, here,
    (Writes.lift rfl).silent_bind (push_writes token.range message)⟩

/-! Values. -/

theorem getRange_placed {node : ValueNode} (placed : node.Placed known) :
    ∃ range, getRange node = .ok range ∧ known range := by
  cases placed with
  | integer tok here | string tok here | boolean tok _ here
  | pseudoIdentifier tok here | struct tok here => exact ⟨tok.range, rfl, here⟩

theorem getTypeByValueNode_placed {node : ValueNode}
    (placed : node.Placed known)
    (noIdentifier : ∀ tok, node ≠ .pseudoIdentifier tok) :
    ∃ name, getTypeByValueNode node = .ok name := by
  cases placed with
  | pseudoIdentifier tok => exact absurd rfl (noIdentifier (some tok))
  | struct tag => exact ⟨tag.text, rfl⟩
  | integer | string | boolean => exact ⟨_, rfl⟩

/-- A specialization reads every value that it says it can read. -/
structure ReadValueNodeImpl.Sound {Value : Type} (known : TextRange → Prop)
    (impl : ReadValueNodeImpl Value) (denotes : ValueNode → Value → Prop) :
    Prop where
  canRead : ∀ {node}, node.Placed known →
    ∃ answer, impl.canRead node = .ok answer
  read : ∀ {node}, node.Placed known → impl.canRead node = .ok true →
    Faithful (ErrorTag.At known) (impl.read node) (Yields node.Whole (denotes node))
  valueForPseudoIdentifier : ∀ {tok},
    KnownToken known IdentifierToken.range tok →
    Faithful (ErrorTag.At known) (impl.valueForPseudoIdentifier tok) fun _ => True

section Extract

variable {Value : Type} {impl : ReadValueNodeImpl Value}
  {denotes : ValueNode → Value → Prop}

theorem readPseudoIdentifier_faithful (sound : impl.Sound known denotes)
    {tok : Option IdentifierToken}
    (placed : KnownToken known IdentifierToken.range tok)
    {holds : Option Value → Prop} :
    Faithful (ErrorTag.At known) (readPseudoIdentifier impl tok) holds := by
  apply faithful_deref placed
  intro token _ here
  apply faithful_push here
  exact sound.valueForPseudoIdentifier placed

theorem extractProperty_faithful (sound : impl.Sound known denotes)
    (name : Bytes) {p : PropertyNode} (placed : p.Placed known) :
    Faithful (ErrorTag.At known) (extractProperty impl name p) fun result =>
      ∀ node, p.value = some node → Yields node.Whole (denotes node) result := by
  unfold extractProperty
  split
  · next missing =>
      refine Faithful.pure fun node found => ?_
      rw [missing] at found
      contradiction
  · next tok found =>
      cases placed.value _ found with
      | pseudoIdentifier tok here =>
          exact readPseudoIdentifier_faithful sound ⟨tok, rfl, here⟩
  · next value noIdentifier found =>
      have inside := placed.value _ found
      obtain ⟨answer, canRead⟩ := sound.canRead inside
      apply Faithful.lift_bind canRead
      cases answer with
      | true =>
          apply (sound.read inside canRead).mono
          intro result yields node found'
          obtain rfl := Option.some.inj (found.symm.trans found')
          exact yields
      | false =>
          obtain ⟨type, named⟩ := getTypeByValueNode_placed inside noIdentifier
          apply Faithful.lift_bind named
          apply faithful_deref placed.eq
          intro eq _ here
          exact faithful_push here (Faithful.pure trivial)

variable {tag : Option IdentifierToken} {properties : List PropertyNode}
  {propertiesByName : Multimap Bytes PropertyNode}

theorem given_of_found {name : Bytes} {element : Bytes × PropertyNode}
    (indexed : IndexedBy PropertyNodeOf.key properties propertiesByName)
    (found : propertiesByName.find name = some element)
    {result : Option Value}
    (yields : ∀ node, element.2.value = some node →
      Yields node.Whole (denotes node) result) :
    Yields (WholeProperties properties) (Given denotes properties name)
      result := by
  intro whole
  have member := Multimap.find_mem found
  have inside := indexed.mem member
  obtain ⟨node, valued, complete⟩ := whole element.2 inside
  obtain ⟨value, same, here⟩ := yields node valued complete
  have key : element.1 = name := by
    simpa using List.find?_some found
  refine ⟨value, same, element.2, inside, ?_, node, valued, here⟩
  rw [indexed.key element member, key]

theorem extractPropertyFromMap_faithful (sound : impl.Sound known denotes)
    (tagged : KnownToken known IdentifierToken.range tag)
    (placed : ∀ property ∈ properties, property.Placed known)
    (indexed : IndexedBy PropertyNodeOf.key properties propertiesByName)
    (name : Bytes) :
    Faithful (ErrorTag.At known) (extractPropertyFromMap impl tag propertiesByName name)
      (Yields (WholeProperties properties) (Given denotes properties name)) := by
  unfold extractPropertyFromMap
  split
  · apply faithful_deref tagged
    intro _ _ _
    apply faithful_deref tagged
    intro _ _ here
    exact faithful_push here (Faithful.pure trivial)
  · next key p found =>
      have inside := placed p (indexed.mem (Multimap.find_mem found))
      apply (extractProperty_faithful sound name inside).mono
      exact fun result yields => given_of_found indexed found yields

theorem extractPropertyFromMapOr_faithful (sound : impl.Sound known denotes)
    (placed : ∀ property ∈ properties, property.Placed known)
    (indexed : IndexedBy PropertyNodeOf.key properties propertiesByName)
    (name : Bytes) (defaultValue : Value) :
    Faithful (ErrorTag.At known)
      (extractPropertyFromMapOr impl propertiesByName name defaultValue)
      fun value => WholeProperties properties →
        GivenOr denotes properties name defaultValue value := by
  unfold extractPropertyFromMapOr
  split
  · next missing =>
      refine Faithful.pure fun _ => .inr ⟨?_, rfl⟩
      have none := indexed.find name
      rw [missing] at none
      intro property inside named
      have absent := List.find?_eq_none.mp none.symm property inside
      exact absent (decide_eq_true named)
  · next key p found =>
      have inside := placed p (indexed.mem (Multimap.find_mem found))
      apply (extractProperty_faithful sound name inside).bind
      intro result
      refine Faithful.pure fun yields whole => .inl ?_
      obtain ⟨value, rfl, here⟩ := given_of_found indexed found yields whole
      exact here

end Extract

theorem readString_sound : readString.Sound known DenotesString where
  canRead placed := by
    cases placed with
    | string | integer | boolean | pseudoIdentifier | struct => exact ⟨_, rfl⟩
  read placed can := by
    cases placed with
    | string tok here =>
        apply faithful_deref ⟨tok, rfl, here⟩
        intro token same _
        exact Faithful.pure fun _ =>
          ⟨token.value, rfl, tok, rfl, by rw [Option.some.inj same]⟩
    | integer | boolean | pseudoIdentifier | struct => cases can
  valueForPseudoIdentifier placed :=
    faithful_deref placed fun _ _ _ => Faithful.pure trivial

theorem readBool_sound : readBool.Sound known DenotesBool where
  canRead placed := by
    cases placed with
    | string | integer | boolean | pseudoIdentifier | struct => exact ⟨_, rfl⟩
  read placed can := by
    cases placed with
    | boolean tok value here =>
        exact Faithful.pure fun _ => ⟨value, rfl, tok, rfl⟩
    | string | integer | pseudoIdentifier | struct => cases can
  valueForPseudoIdentifier _ := Faithful.pure trivial

/-! Command lines. -/

/-- One error and no value, or a value and no error. -/
def EndsOnce {Value : Type} (range : TextRange) (program : ReadM (Option Value))
    (holds : Value → Prop) : Prop :=
  (∃ message, Writes program none [⟨range, message⟩]) ∨
    ∃ value, Writes program (some value) [] ∧ holds value

theorem splitCmdLine_ends (range : TextRange) (value : Bytes) :
    EndsOnce range (splitCmdLine range (value.length + 1) [] value)
      fun _ => True := by
  obtain blank | ⟨arguments, line⟩ | ⟨c, _, writes⟩ :=
    splitCmdLine_cases range _ [] value (Nat.lt_succ_self _)
  · exact .inr ⟨[], splitCmdLine_blank blank, trivial⟩
  · exact .inr ⟨arguments, splitCmdLine_commandLine line, trivial⟩
  · exact .inl ⟨_, writes⟩

theorem readCmdLine_sound : readCmdLine.Sound known DenotesCmdLine where
  canRead placed := by
    cases placed with
    | string | integer | boolean | pseudoIdentifier | struct => exact ⟨_, rfl⟩
  read placed can := by
    cases placed with
    | string tok here =>
        apply faithful_deref ⟨tok, rfl, here⟩
        intro token same _
        obtain rfl := Option.some.inj same
        cases splitCmdLine_ends tok.range tok.value with
        | inl failed =>
            obtain ⟨message, writes⟩ := failed
            refine ⟨none, _, writes.bind (.pure none),
              List.forall_mem_singleton.mpr here, fun silent => ?_⟩
            exact absurd silent (List.cons_ne_nil _ _)
        | inr returned =>
            obtain ⟨words, writes, -⟩ := returned
            apply Faithful.writes_bind writes (List.forall_mem_nil _)
            cases words with
            | nil => exact faithful_push here (Faithful.pure trivial)
            | cons executable arguments =>
                exact Faithful.pure fun _ => ⟨_, rfl, tok, rfl, writes⟩
    | integer | boolean | pseudoIdentifier | struct => cases can
  valueForPseudoIdentifier _ := Faithful.pure trivial

/-! Tasks. -/

/-- The map of the properties of a struct, and the reports of duplicates. -/
theorem getPropertiesMap_writes {properties : List PropertyNode}
    (placed : ∀ property ∈ properties, property.Placed known) :
    ∃ map errors, Writes (getPropertiesMap properties) map errors ∧
      IndexedBy PropertyNodeOf.key properties map ∧
      ∀ error ∈ errors, known error.range := by
  obtain ⟨map, filled, indexed⟩ :=
    nodesByName_indexed fun property member => (placed property member).key.isSome
  obtain ⟨errors, writes, among⟩ := duplicates_writes
    (ascii "duplicate property declaration")
    (fun property member => (placed property member).key) indexed
  refine ⟨map, errors, ?_, indexed, fun error member => (among error member).2⟩
  exact (Writes.lift filled).silent_bind (writes.bind_pure fun _ => map)

/-- The properties of a struct are read, as what they mean where nothing is
reported. -/
def ReadsStruct {Value : Type} (known : TextRange → Prop) (typeName : Bytes)
    (impl : ReadValueNodeImpl Value)
    (inside : List PropertyNode → Value → Prop) : Prop :=
  ∃ readProperties, impl = structImpl typeName readProperties ∧
    ∀ {tag properties map}, KnownToken known IdentifierToken.range tag →
      (∀ property ∈ properties, PropertyNodeOf.Placed known property) →
      IndexedBy PropertyNodeOf.key properties map →
      Faithful (ErrorTag.At known) (readProperties tag map)
        (Yields (WholeProperties properties) (inside properties))

theorem ReadsStruct.sound {Value : Type} {typeName : Bytes}
    {impl : ReadValueNodeImpl Value}
    {inside : List PropertyNode → Value → Prop}
    (struct : ReadsStruct known typeName impl inside) :
    impl.Sound known (DenotesStruct typeName inside) := by
  obtain ⟨readProperties, rfl, reads⟩ := struct
  refine ⟨fun placed => ?_, fun placed can => ?_,
    fun _ => Faithful.pure trivial⟩
  · cases placed with
    | string | integer | boolean | pseudoIdentifier | struct => exact ⟨_, rfl⟩
  · have whole := placed
    cases placed with
    | @struct tag here properties =>
        have same : tag.text = typeName := by
          simpa [structImpl, canReadStruct, deref] using can
        have held := whole.properties.2
        apply faithful_deref ⟨tag, rfl, here⟩
        intro token found _
        obtain rfl := Option.some.inj found
        rw [if_neg (not_not.mpr same)]
        obtain ⟨map, errors, writes, indexed, places⟩ :=
          getPropertiesMap_writes held
        apply Faithful.writes_bind writes places
        apply (reads ⟨tag, rfl, here⟩ held indexed).mono
        intro result yields complete
        obtain ⟨value, returned, meant⟩ := yields complete.properties
        exact ⟨value, returned, tag, properties, rfl, same, meant⟩
    | string | integer | boolean | pseudoIdentifier => cases can

theorem readHostname_reads : ReadsStruct known (ascii "sethostname") readHostname
    fun properties data =>
      Given DenotesString properties (ascii "hostname") data.hostname ∧
        GivenOr DenotesBool properties (ascii "no_restore") false
          data.noRestore := by
  refine ⟨_, rfl, fun {tag properties map} tagged placed indexed => ?_⟩
  apply (extractPropertyFromMap_faithful readString_sound tagged placed indexed
    _).bind
  intro hostname
  cases hostname with
  | none => exact Faithful.pure fun missing => missing.none
  | some hostname =>
      apply (extractPropertyFromMapOr_faithful readBool_sound placed indexed
        _ _).bind
      intro noRestore
      exact Faithful.pure fun restored given whole =>
        ⟨_, rfl, given.some whole, restored whole⟩

theorem readHostname_sound : readHostname.Sound known DenotesHostname :=
  readHostname_reads.sound

theorem readCommand_reads : ReadsStruct known (ascii "command") readCommand
    fun properties data =>
      Given DenotesCmdLine properties (ascii "cmd") data.cmd ∧
        GivenOr DenotesString properties (ascii "working_directory") (ascii "/")
          data.workingDirectory := by
  refine ⟨_, rfl, fun {tag properties map} tagged placed indexed => ?_⟩
  apply (extractPropertyFromMap_faithful readCmdLine_sound tagged placed indexed
    _).bind
  intro cmd
  apply (extractPropertyFromMapOr_faithful readString_sound placed indexed
    _ _).bind
  intro workingDirectory
  cases cmd with
  | none => exact Faithful.pure fun _ missing => missing.none
  | some cmd =>
      exact Faithful.pure fun directory given whole =>
        ⟨_, rfl, given.some whole, directory whole⟩

theorem readCommand_sound : readCommand.Sound known DenotesCommand :=
  readCommand_reads.sound

theorem readStartStop_reads {denotes : ValueNode → Command → Prop}
    (sound : readCommand.Sound known denotes) :
    ReadsStruct known (ascii "start_stop") readStartStop
      fun properties data =>
        Given denotes properties (ascii "start") data.start ∧
          Given denotes properties (ascii "stop") data.stop := by
  refine ⟨_, rfl, fun {tag properties map} tagged placed indexed => ?_⟩
  apply (extractPropertyFromMap_faithful sound tagged placed indexed _).bind
  intro startCmd
  apply (extractPropertyFromMap_faithful sound tagged placed indexed _).bind
  intro stopCmd
  cases startCmd with
  | none => exact Faithful.pure fun _ missing => missing.none
  | some startCmd =>
      cases stopCmd with
      | none => exact Faithful.pure fun missing _ => missing.none
      | some stopCmd =>
          exact Faithful.pure fun stop start whole =>
            ⟨_, rfl, start.some whole, stop.some whole⟩

theorem readStartStop_sound : readStartStop.Sound known DenotesStartStop :=
  (readStartStop_reads readCommand_sound).sound

theorem readControl_reads : ReadsStruct known (ascii "control") readControl
    fun properties data =>
      Given DenotesString properties (ascii "uds_filename")
        data.udsFilename := by
  refine ⟨_, rfl, fun {tag properties map} tagged placed indexed => ?_⟩
  apply (extractPropertyFromMap_faithful readString_sound tagged placed indexed
    _).bind
  intro udsFilename
  cases udsFilename with
  | none => exact Faithful.pure fun missing => missing.none
  | some udsFilename =>
      exact Faithful.pure fun given whole => ⟨_, rfl, given.some whole⟩

theorem readControl_sound : readControl.Sound known DenotesControl :=
  readControl_reads.sound

theorem readNull_reads :
    ReadsStruct known (ascii "null") readNull fun _ _ => True :=
  ⟨_, rfl, fun _ _ _ => Faithful.pure fun _ => ⟨_, rfl, trivial⟩⟩

theorem readNull_sound : readNull.Sound known DenotesNull :=
  readNull_reads.sound

theorem ReadValueNodeImpl.Sound.mono {Value : Type}
    {impl : ReadValueNodeImpl Value} {denotes weaker : ValueNode → Value → Prop}
    (sound : impl.Sound known denotes)
    (weaken : ∀ {node value}, denotes node value → weaker node value) :
    impl.Sound known weaker where
  canRead := sound.canRead
  read placed can := by
    apply (sound.read placed can).mono
    intro result yields whole
    obtain ⟨value, same, here⟩ := yields whole
    exact ⟨value, same, weaken here⟩
  valueForPseudoIdentifier := sound.valueForPseudoIdentifier

section Task

variable {denotes : ValueNode → TaskData → Prop}

theorem readAs_faithful {Value : Type} {impl : ReadValueNodeImpl Value}
    {toTask : Value → TaskData} {node : ValueNode}
    (sound : impl.Sound known fun node value => denotes node (toTask value))
    (placed : node.Placed known) (can : impl.canRead node = .ok true) :
    Faithful (ErrorTag.At known) (do return (← impl.read node).map toTask)
      (Yields node.Whole (denotes node)) := by
  apply (sound.read placed can).bind
  intro result
  refine Faithful.pure fun yields whole => ?_
  obtain ⟨value, rfl, here⟩ := yields whole
  exact ⟨_, rfl, here⟩

/-- The task is read as what its struct is read as. -/
theorem readTaskData_sound_of
    (hostname : readHostname.Sound known fun node data =>
      denotes node (.hostname data))
    (startStop : readStartStop.Sound known fun node data =>
      denotes node (.startStop data))
    (control : readControl.Sound known fun node data =>
      denotes node (.control data))
    (null : readNull.Sound known fun node _ => denotes node .null) :
    readTaskData.Sound known denotes where
  canRead {node} placed := by
    obtain ⟨isHostname, first⟩ := hostname.canRead placed
    obtain ⟨isStartStop, second⟩ := startStop.canRead placed
    obtain ⟨isControl, third⟩ := control.canRead placed
    obtain ⟨isNull, fourth⟩ := null.canRead placed
    refine ⟨isHostname || isStartStop || isControl || isNull, ?_⟩
    simp only [readTaskData, first, second, third, fourth]
    cases isHostname <;> cases isStartStop <;> cases isControl <;> rfl
  read {node} placed can := by
    obtain ⟨isHostname, first⟩ := hostname.canRead placed
    obtain ⟨isStartStop, second⟩ := startStop.canRead placed
    obtain ⟨isControl, third⟩ := control.canRead placed
    obtain ⟨isNull, fourth⟩ := null.canRead placed
    apply Faithful.lift_bind first
    cases isHostname with
    | true => exact readAs_faithful hostname placed first
    | false =>
        apply Faithful.lift_bind second
        cases isStartStop with
        | true => exact readAs_faithful startStop placed second
        | false =>
            apply Faithful.lift_bind third
            cases isControl with
            | true => exact readAs_faithful control placed third
            | false =>
                apply Faithful.lift_bind fourth
                cases isNull with
                | true => exact readAs_faithful null placed fourth
                | false =>
                    simp only [readTaskData, first, second, third, fourth] at can
                    cases can
  valueForPseudoIdentifier _ := Faithful.pure trivial

theorem readTask_faithful_of (sound : readTaskData.Sound known denotes)
    {node : TaskNode} (placed : node.Placed known) :
    Faithful (ErrorTag.At known) (readTask node) fun result =>
      ∀ value, node.value = some value →
        Yields value.Whole (denotes value) result := by
  unfold readTask
  split
  · next missing =>
      refine Faithful.pure fun value found => ?_
      rw [missing] at found
      contradiction
  · next tok found =>
      cases placed.value _ found with
      | pseudoIdentifier tok here =>
          exact readPseudoIdentifier_faithful sound ⟨tok, rfl, here⟩
  · next value noIdentifier found =>
      have inside := placed.value _ found
      obtain ⟨answer, canRead⟩ := sound.canRead inside
      apply Faithful.lift_bind canRead
      cases answer with
      | true =>
          apply (sound.read inside canRead).mono
          intro result yields value' found'
          obtain rfl := Option.some.inj (found.symm.trans found')
          exact yields
      | false =>
          obtain ⟨type, named⟩ := getTypeByValueNode_placed inside noIdentifier
          obtain ⟨range, place, here⟩ := getRange_placed inside
          apply Faithful.lift_bind named
          apply Faithful.lift_bind place
          exact faithful_push here (Faithful.pure trivial)

end Task

theorem readTaskData_sound : readTaskData.Sound known DenotesTask :=
  readTaskData_sound_of (readHostname_sound.mono .hostname)
    (readStartStop_sound.mono .startStop) (readControl_sound.mono .control)
    (readNull_sound.mono .null)

theorem readTask_faithful {node : TaskNode} (placed : node.Placed known) :
    Faithful (ErrorTag.At known) (readTask node) fun result =>
      ∀ value, node.value = some value →
        Yields value.Whole (DenotesTask value) result :=
  readTask_faithful_of readTaskData_sound placed

end Initd.Reader
