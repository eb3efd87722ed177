import Initd.Reader.Once

namespace Initd.Reader

open Library

/-! What a task has to be for its reader to report nothing: the value denotes
the data, and no struct in it gives a property twice. -/

def MeansStruct {Value : Type} (typeName : Bytes)
    (inside : List PropertyNode → Value → Prop) : ValueNode → Value → Prop :=
  DenotesStruct typeName fun properties value =>
    NamedOnce PropertyNodeOf.key properties ∧ inside properties value

def MeansHostname : ValueNode → HostnameTaskData → Prop :=
  MeansStruct (ascii "sethostname") fun properties data =>
    Given DenotesString properties (ascii "hostname") data.hostname ∧
      GivenOr DenotesBool properties (ascii "no_restore") false data.noRestore

def MeansCommand : ValueNode → Command → Prop :=
  MeansStruct (ascii "command") fun properties data =>
    Given DenotesCmdLine properties (ascii "cmd") data.cmd ∧
      GivenOr DenotesString properties (ascii "working_directory") (ascii "/")
        data.workingDirectory

def MeansStartStop : ValueNode → StartStopTaskData → Prop :=
  MeansStruct (ascii "start_stop") fun properties data =>
    Given MeansCommand properties (ascii "start") data.start ∧
      Given MeansCommand properties (ascii "stop") data.stop

def MeansControl : ValueNode → ControlTaskData → Prop :=
  MeansStruct (ascii "control") fun properties data =>
    Given DenotesString properties (ascii "uds_filename") data.udsFilename

def MeansNull : ValueNode → PUnit → Prop :=
  MeansStruct (ascii "null") fun _ _ => True

inductive MeansTask (node : ValueNode) : TaskData → Prop
  | hostname {data : HostnameTaskData} (means : MeansHostname node data) :
      MeansTask node (.hostname data)
  | startStop {data : StartStopTaskData} (means : MeansStartStop node data) :
      MeansTask node (.startStop data)
  | control {data : ControlTaskData} (means : MeansControl node data) :
      MeansTask node (.control data)
  | null (means : MeansNull node ⟨⟩) : MeansTask node .null

variable {known : TextRange → Prop}

/-- A specialization is silent exactly on what has a meaning, and reads it. -/
structure ReadValueNodeImpl.Exact {Value : Type} (known : TextRange → Prop)
    (impl : ReadValueNodeImpl Value) (means : ValueNode → Value → Prop) :
    Prop where
  sound : impl.Sound known means
  canRead : ∀ {node value}, means node value → impl.canRead node = .ok true
  read : ∀ {node value}, node.Placed known → means node value →
    Writes (impl.read node) (some value) []

section Extract

variable {Value : Type} {impl : ReadValueNodeImpl Value}
  {means : ValueNode → Value → Prop} {properties : List PropertyNode}
  {map : Multimap Bytes PropertyNode} {name : Bytes} {value : Value}

/-- The property that a struct gives is the one that is looked up. -/
theorem find_of_once (indexed : IndexedBy PropertyNodeOf.key properties map)
    (once : NamedOnce PropertyNodeOf.key properties) {property : PropertyNode}
    (inside : property ∈ properties)
    (named : nameText property.key = some name) :
    map.find name = some (name, property) := by
  obtain ⟨element, member, rfl⟩ :=
    List.mem_map.mp (indexed.perm.symm.subset inside)
  obtain rfl : element.1 = name :=
    Option.some.inj ((indexed.key element member).symm.trans named)
  exact Multimap.find_of_mem ((keys_nodup_iff indexed).mpr once) member

theorem find_of_absent (indexed : IndexedBy PropertyNodeOf.key properties map)
    (absent : ∀ property ∈ properties, nameText property.key ≠ some name) :
    map.find name = none := by
  refine List.find?_eq_none.mpr fun element member same => ?_
  refine absent element.2 (indexed.mem member) ?_
  rw [indexed.key element member, of_decide_eq_true same]

theorem extractProperty_writes (exact : impl.Exact known means)
    (noIdentifier : ∀ tok, ¬ means (.pseudoIdentifier tok) value)
    {p : PropertyNode} (placed : p.Placed known) {node : ValueNode}
    (valued : p.value = some node) (meant : means node value) :
    Writes (extractProperty impl name p) (some value) [] := by
  unfold extractProperty
  split
  · next missing =>
      rw [missing] at valued
      contradiction
  · next tok found =>
      obtain rfl := Option.some.inj (valued.symm.trans found)
      exact absurd meant (noIdentifier tok)
  · next other _ found =>
      obtain rfl := Option.some.inj (valued.symm.trans found)
      refine (Writes.lift (exact.canRead meant)).silent_bind ?_
      exact exact.read (placed.value node valued) meant

theorem extractPropertyFromMap_writes (exact : impl.Exact known means)
    (noIdentifier : ∀ tok, ¬ means (.pseudoIdentifier tok) value)
    (tag : Option IdentifierToken)
    (placed : ∀ property ∈ properties, property.Placed known)
    (indexed : IndexedBy PropertyNodeOf.key properties map)
    (once : NamedOnce PropertyNodeOf.key properties)
    (given : Given means properties name value) :
    Writes (extractPropertyFromMap impl tag map name) (some value) [] := by
  obtain ⟨property, inside, named, node, valued, meant⟩ := given
  simp only [extractPropertyFromMap, find_of_once indexed once inside named]
  exact extractProperty_writes exact noIdentifier (placed property inside)
    valued meant

theorem extractPropertyFromMapOr_writes (exact : impl.Exact known means)
    (noIdentifier : ∀ tok, ¬ means (.pseudoIdentifier tok) value)
    (placed : ∀ property ∈ properties, property.Placed known)
    (indexed : IndexedBy PropertyNodeOf.key properties map)
    (once : NamedOnce PropertyNodeOf.key properties) {defaultValue : Value}
    (given : GivenOr means properties name defaultValue value) :
    Writes (extractPropertyFromMapOr impl map name defaultValue) value [] := by
  unfold extractPropertyFromMapOr
  rcases given with ⟨property, inside, named, node, valued, meant⟩ |
    ⟨absent, rfl⟩
  · simp only [find_of_once indexed once inside named]
    exact (extractProperty_writes exact noIdentifier (placed property inside)
      valued meant).silent_bind (.pure value)
  · simp only [find_of_absent indexed absent]
    exact .pure _

end Extract

/-! The values of properties. -/

theorem readString_exact : readString.Exact known DenotesString where
  sound := readString_sound
  canRead denotes := by
    obtain ⟨tok, rfl, -⟩ := denotes
    rfl
  read _ denotes := by
    obtain ⟨tok, rfl, rfl⟩ := denotes
    exact .pure _

theorem readBool_exact : readBool.Exact known DenotesBool where
  sound := readBool_sound
  canRead denotes := by
    obtain ⟨tok, rfl⟩ := denotes
    rfl
  read _ denotes := by
    obtain ⟨tok, rfl⟩ := denotes
    exact .pure _

theorem readCmdLine_exact : readCmdLine.Exact known DenotesCmdLine where
  sound := readCmdLine_sound
  canRead denotes := by
    obtain ⟨tok, rfl, -⟩ := denotes
    rfl
  read _ denotes := by
    obtain ⟨tok, rfl, splits⟩ := denotes
    exact (Writes.lift rfl).silent_bind (splits.silent_bind (.pure _))

theorem denotesString_noIdentifier {value : Bytes}
    (tok : Option IdentifierToken) :
    ¬ DenotesString (.pseudoIdentifier tok) value := by
  simp [DenotesString]

theorem denotesBool_noIdentifier {value : Bool}
    (tok : Option IdentifierToken) :
    ¬ DenotesBool (.pseudoIdentifier tok) value := by
  simp [DenotesBool]

theorem denotesCmdLine_noIdentifier {value : CmdLine}
    (tok : Option IdentifierToken) :
    ¬ DenotesCmdLine (.pseudoIdentifier tok) value := by
  simp [DenotesCmdLine]

theorem meansStruct_noIdentifier {Value : Type} {typeName : Bytes}
    {inside : List PropertyNode → Value → Prop} {value : Value}
    (tok : Option IdentifierToken) :
    ¬ MeansStruct typeName inside (.pseudoIdentifier tok) value := by
  simp [MeansStruct, DenotesStruct]

/-! Structs. -/

section Struct

variable {Value : Type} {typeName : Bytes}
  {readProperties : Option IdentifierToken → Multimap Bytes PropertyNode →
    ReadM (Option Value)}
  {inside : List PropertyNode → Value → Prop} {properties : List PropertyNode}

theorem getPropertiesMap_reports
    (placed : ∀ property ∈ properties, property.Placed known) :
    ∃ map errors, Writes (getPropertiesMap properties) map errors ∧
      IndexedBy PropertyNodeOf.key properties map ∧
      (∀ error ∈ errors, known error.range) ∧
      (errors = [] ↔ NamedOnce PropertyNodeOf.key properties) := by
  obtain ⟨map, filled, indexed⟩ :=
    nodesByName_indexed fun property member => (placed property member).key.isSome
  obtain ⟨errors, writes, among, silent⟩ := duplicates_reports
    (ascii "duplicate property declaration")
    (fun property member => (placed property member).key) indexed
  refine ⟨map, errors, ?_, indexed, fun error member => (among error member).2,
    silent⟩
  exact (Writes.lift filled).silent_bind (writes.bind_pure fun _ => map)

theorem ReadsStruct.sound_once {impl : ReadValueNodeImpl Value}
    (struct : ReadsStruct known typeName impl inside) :
    impl.Sound known (MeansStruct typeName inside) := by
  refine ⟨struct.sound.canRead, fun {node} placed can => ?_,
    struct.sound.valueForPseudoIdentifier⟩
  obtain ⟨readProperties, rfl, reads⟩ := struct
  have whole := placed
  cases placed with
  | @struct tag here properties =>
      have same : tag.text = typeName := by
        simpa [structImpl, canReadStruct, deref] using can
      have held := whole.properties.2
      apply faithful_deref ⟨tag, rfl, here⟩
      intro token found _
      obtain rfl := Option.some.inj found
      rw [if_neg (not_not.mpr same)]
      obtain ⟨map, errors, writes, indexed, places, silent⟩ :=
        getPropertiesMap_reports held
      apply Faithful.reported_bind writes places
      apply (reads ⟨tag, rfl, here⟩ held indexed).mono
      intro result yields none complete
      obtain ⟨value, returned, meant⟩ := yields complete.properties
      exact ⟨value, returned, tag, properties, rfl, same, silent.mp none, meant⟩
  | string | integer | boolean | pseudoIdentifier => cases can

theorem structImpl_exact
    (struct : ReadsStruct known typeName (structImpl typeName readProperties)
      inside)
    (completes : ∀ {tag properties map value},
      (∀ property ∈ properties, PropertyNodeOf.Placed known property) →
      IndexedBy PropertyNodeOf.key properties map →
      NamedOnce PropertyNodeOf.key properties → inside properties value →
      Writes (readProperties tag map) (some value) []) :
    (structImpl typeName readProperties).Exact known
      (MeansStruct typeName inside) where
  sound := struct.sound_once
  canRead means := by
    obtain ⟨tag, properties, rfl, same, -⟩ := means
    simp [structImpl, canReadStruct, deref, same]
  read placed means := by
    obtain ⟨tag, properties, rfl, same, once, meant⟩ := means
    have held := placed.properties.2
    obtain ⟨map, errors, writes, indexed, -, silent⟩ :=
      getPropertiesMap_reports held
    obtain rfl := silent.mpr once
    refine (Writes.lift rfl).silent_bind ?_
    rw [if_neg (not_not.mpr same)]
    exact writes.silent_bind (completes held indexed once meant)

end Struct

theorem readHostname_exact : readHostname.Exact known MeansHostname := by
  refine structImpl_exact readHostname_reads
    fun {tag properties map data} placed indexed once meant => ?_
  obtain ⟨hostname, noRestore⟩ := meant
  refine (extractPropertyFromMap_writes readString_exact
    denotesString_noIdentifier tag placed indexed once hostname).silent_bind ?_
  exact (extractPropertyFromMapOr_writes readBool_exact
    denotesBool_noIdentifier placed indexed once noRestore).silent_bind
      (.pure _)

theorem readCommand_exact : readCommand.Exact known MeansCommand := by
  refine structImpl_exact readCommand_reads
    fun {tag properties map data} placed indexed once meant => ?_
  obtain ⟨cmd, workingDirectory⟩ := meant
  refine (extractPropertyFromMap_writes readCmdLine_exact
    denotesCmdLine_noIdentifier tag placed indexed once cmd).silent_bind ?_
  exact (extractPropertyFromMapOr_writes readString_exact
    denotesString_noIdentifier placed indexed once
    workingDirectory).silent_bind (.pure _)

theorem readStartStop_exact : readStartStop.Exact known MeansStartStop := by
  refine structImpl_exact (readStartStop_reads readCommand_exact.sound)
    fun {tag properties map data} placed indexed once meant => ?_
  obtain ⟨start, stop⟩ := meant
  refine (extractPropertyFromMap_writes readCommand_exact
    meansStruct_noIdentifier tag placed indexed once start).silent_bind ?_
  exact (extractPropertyFromMap_writes readCommand_exact
    meansStruct_noIdentifier tag placed indexed once stop).silent_bind
      (.pure _)

theorem readControl_exact : readControl.Exact known MeansControl := by
  refine structImpl_exact readControl_reads
    fun {tag properties map data} placed indexed once meant => ?_
  exact (extractPropertyFromMap_writes readString_exact
    denotesString_noIdentifier tag placed indexed once meant).silent_bind
      (.pure _)

theorem readNull_exact : readNull.Exact known MeansNull :=
  structImpl_exact readNull_reads fun _ _ _ _ => .pure _

/-! Tasks. -/

theorem canReadStruct_means {Value : Type} {typeName : Bytes}
    {inside : List PropertyNode → Value → Prop} {node : ValueNode}
    {value : Value} (means : MeansStruct typeName inside node value)
    (other : Bytes) :
    canReadStruct other node = .ok (decide (typeName = other)) := by
  obtain ⟨tag, properties, rfl, rfl, -⟩ := means
  rfl

theorem readAs_writes {Value : Type} {impl : ReadValueNodeImpl Value}
    {means : ValueNode → Value → Prop} {node : ValueNode} {value : Value}
    (exact : impl.Exact known means) (toTask : Value → TaskData)
    (placed : node.Placed known) (meant : means node value) :
    Writes (do return (← impl.read node).map toTask) (some (toTask value)) [] :=
  (exact.read placed meant).silent_bind (.pure _)

theorem readTaskData_exact : readTaskData.Exact known MeansTask where
  sound := readTaskData_sound_of (readHostname_exact.sound.mono .hostname)
    (readStartStop_exact.sound.mono .startStop)
    (readControl_exact.sound.mono .control) (readNull_exact.sound.mono .null)
  canRead {node data} means := by
    cases means with
    | hostname means | startStop means | control means | null means =>
        simp only [readTaskData, readHostname, readStartStop, readControl,
          readNull, structImpl, canReadStruct_means means]
        rfl
  read {node data} placed means := by
    cases means with
    | hostname means =>
        refine (Writes.lift (canReadStruct_means means _)).silent_bind ?_
        exact readAs_writes readHostname_exact .hostname placed means
    | startStop means =>
        refine (Writes.lift (canReadStruct_means means _)).silent_bind ?_
        refine (Writes.lift (canReadStruct_means means _)).silent_bind ?_
        exact readAs_writes readStartStop_exact .startStop placed means
    | control means =>
        refine (Writes.lift (canReadStruct_means means _)).silent_bind ?_
        refine (Writes.lift (canReadStruct_means means _)).silent_bind ?_
        refine (Writes.lift (canReadStruct_means means _)).silent_bind ?_
        exact readAs_writes readControl_exact .control placed means
    | null means =>
        refine (Writes.lift (canReadStruct_means means _)).silent_bind ?_
        refine (Writes.lift (canReadStruct_means means _)).silent_bind ?_
        refine (Writes.lift (canReadStruct_means means _)).silent_bind ?_
        refine (Writes.lift (canReadStruct_means means _)).silent_bind ?_
        exact readAs_writes readNull_exact (fun _ => .null) placed means

theorem readTask_writes {task : TaskNode} {value : ValueNode} {data : TaskData}
    (placed : task.Placed known) (found : task.value = some value)
    (means : MeansTask value data) : Writes (readTask task) (some data) [] := by
  have noIdentifier : ∀ tok, value ≠ .pseudoIdentifier tok := by
    rintro tok rfl
    cases means with
    | hostname means | startStop means | control means | null means =>
        exact meansStruct_noIdentifier tok means
  unfold readTask
  split
  · next missing =>
      rw [missing] at found
      contradiction
  · next tok found' =>
      exact absurd (Option.some.inj (found.symm.trans found'))
        (noIdentifier tok)
  · next other _ found' =>
      obtain rfl := Option.some.inj (found.symm.trans found')
      have exact : readTaskData.Exact known MeansTask := readTaskData_exact
      refine (Writes.lift (exact.canRead means)).silent_bind ?_
      exact exact.read (placed.value value found) means

theorem readTask_means {task : TaskNode} {value : ValueNode}
    (placed : task.Placed known) (found : task.value = some value)
    (whole : value.Whole) (silent : reported (readTask task) = []) :
    ∃ data, MeansTask value data ∧ Writes (readTask task) (some data) [] := by
  obtain ⟨result, errors, writes, -, right⟩ :=
    readTask_faithful_of readTaskData_exact.sound placed
  obtain rfl : errors = [] := writes.reported ▸ silent
  obtain ⟨data, rfl, means⟩ := right rfl value found whole
  exact ⟨data, means, writes⟩

/-- A value has one meaning at most. -/
theorem MeansTask.unique {value : ValueNode} {data other : TaskData}
    (placed : value.Placed known) (means : MeansTask value data)
    (means' : MeansTask value other) : data = other := by
  have first := readTaskData_exact.read placed means
  have second := readTaskData_exact.read placed means'
  exact Option.some.inj (first.unique second).1

end Initd.Reader
