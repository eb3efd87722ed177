import Initd.Parser.Grammar
import Initd.Reader.ReadTask
import Initd.Reader.Reports

namespace Initd

open Library

/-! What the value of a task means. -/

/-- No property of a struct has lost its value. -/
inductive ValueNode.Whole : ValueNode → Prop
  | integer (tok : Option IntegerLiteralToken) : Whole (.integer tok)
  | string (tok : Option StringLiteralToken) : Whole (.string tok)
  | boolean (tok : Option Token) (value : Bool) : Whole (.boolean tok value)
  | pseudoIdentifier (tok : Option IdentifierToken) :
      Whole (.pseudoIdentifier tok)
  | struct (tag : Option IdentifierToken) {properties : List PropertyNode}
      (present : ∀ property ∈ properties, property.value.isSome)
      (values : ∀ property ∈ properties, ∀ value,
        property.value = some value → Whole value) :
      Whole (.struct tag properties)

def WholeProperties (properties : List PropertyNode) : Prop :=
  ∀ property ∈ properties, ∃ value, property.value = some value ∧ value.Whole

theorem ValueNode.Whole.properties {tag : Option IdentifierToken}
    {properties : List PropertyNode}
    (whole : (ValueNode.struct tag properties).Whole) :
    WholeProperties properties := by
  cases whole with
  | struct tag present values =>
      intro property member
      obtain ⟨value, found⟩ :=
        Option.isSome_iff_exists.mp (present property member)
      exact ⟨value, found, values property member value found⟩

theorem ValueNode.whole_struct (tag : Option IdentifierToken)
    {properties : List PropertyNode} (whole : WholeProperties properties) :
    (ValueNode.struct tag properties).Whole := by
  refine .struct tag (fun property member => ?_)
    fun property member value found => ?_
  · obtain ⟨value, found, -⟩ := whole property member
    rw [found]
    rfl
  · obtain ⟨other, found', inside⟩ := whole property member
    obtain rfl := Option.some.inj (found'.symm.trans found)
    exact inside

namespace Reader

section Struct

variable {Value : Type}

/-- The struct has the property, and it means the value. -/
def Given (denotes : ValueNode → Value → Prop)
    (properties : List PropertyNode) (name : Bytes) (value : Value) : Prop :=
  ∃ property ∈ properties, nameText property.key = some name ∧
    ∃ node, property.value = some node ∧ denotes node value

/-- A default stands for a property that the struct has not. -/
def GivenOr (denotes : ValueNode → Value → Prop)
    (properties : List PropertyNode) (name : Bytes)
    (defaultValue value : Value) : Prop :=
  Given denotes properties name value ∨
    (∀ property ∈ properties, nameText property.key ≠ some name) ∧
      value = defaultValue

def DenotesStruct (typeName : Bytes)
    (inside : List PropertyNode → Value → Prop) (node : ValueNode)
    (value : Value) : Prop :=
  ∃ (tag : IdentifierToken) (properties : List PropertyNode),
    node = .struct (some tag) properties ∧ tag.text = typeName ∧
      inside properties value

end Struct

def DenotesString (node : ValueNode) (value : Bytes) : Prop :=
  ∃ tok : StringLiteralToken, node = .string (some tok) ∧ tok.value = value

def DenotesBool (node : ValueNode) (value : Bool) : Prop :=
  ∃ tok : Token, node = .boolean (some tok) value

/-- The string splits into the executable and its arguments. -/
def DenotesCmdLine (node : ValueNode) (value : CmdLine) : Prop :=
  ∃ tok : StringLiteralToken, node = .string (some tok) ∧
    Writes (splitCmdLine tok.range (tok.value.length + 1) [] tok.value)
      (some (value.executable :: value.arguments)) []

def DenotesHostname : ValueNode → HostnameTaskData → Prop :=
  DenotesStruct (ascii "sethostname") fun properties data =>
    Given DenotesString properties (ascii "hostname") data.hostname ∧
      GivenOr DenotesBool properties (ascii "no_restore") false data.noRestore

def DenotesCommand : ValueNode → Command → Prop :=
  DenotesStruct (ascii "command") fun properties data =>
    Given DenotesCmdLine properties (ascii "cmd") data.cmd ∧
      GivenOr DenotesString properties (ascii "working_directory") (ascii "/")
        data.workingDirectory

def DenotesStartStop : ValueNode → StartStopTaskData → Prop :=
  DenotesStruct (ascii "start_stop") fun properties data =>
    Given DenotesCommand properties (ascii "start") data.start ∧
      Given DenotesCommand properties (ascii "stop") data.stop

def DenotesControl : ValueNode → ControlTaskData → Prop :=
  DenotesStruct (ascii "control") fun properties data =>
    Given DenotesString properties (ascii "uds_filename") data.udsFilename

def DenotesNull : ValueNode → PUnit → Prop :=
  DenotesStruct (ascii "null") fun _ _ => True

inductive DenotesTask (node : ValueNode) : TaskData → Prop
  | hostname {data : HostnameTaskData} (denotes : DenotesHostname node data) :
      DenotesTask node (.hostname data)
  | startStop {data : StartStopTaskData} (denotes : DenotesStartStop node data) :
      DenotesTask node (.startStop data)
  | control {data : ControlTaskData} (denotes : DenotesControl node data) :
      DenotesTask node (.control data)
  | null (denotes : DenotesNull node ⟨⟩) : DenotesTask node .null

end Reader

/-! The trees of the grammar are whole. -/

namespace Grammar

mutual

theorem Value.whole : ∀ {word : List Token} {node : ValueNode},
    Value word node → node.Whole
  | _, _, .int lit => .integer (some lit)
  | _, _, .string lit => .string (some lit)
  | _, _, .true _ => .boolean _ _
  | _, _, .false _ => .boolean _ _
  | _, _, .id tag => .pseudoIdentifier (some tag)
  | _, _, .struct tag _ props _ => ValueNode.whole_struct (some tag) props.whole

theorem Properties.whole : ∀ {word : List Token} {properties : List PropertyNode},
    Properties word properties → WholeProperties properties
  | _, _, .empty => List.forall_mem_nil _
  | _, _, .list list => list.whole
  | _, _, .trailing list _ => list.whole

theorem PropertyList.whole :
    ∀ {word : List Token} {properties : List PropertyNode},
      PropertyList word properties → WholeProperties properties
  | _, _, .last prop => List.forall_mem_singleton.mpr prop.whole
  | _, _, .cons prop _ list =>
      List.forall_mem_cons.mpr ⟨prop.whole, list.whole⟩

theorem Property.whole : ∀ {word : List Token} {property : PropertyNode},
    Property word property → ∃ value, property.value = some value ∧ value.Whole
  | _, _, .intro _ _ denotes => ⟨_, rfl, denotes.whole⟩

end

/-- Every declaration of a file has its names and its value. -/
structure WholeFile (tree : TopLevelNode) : Prop where
  tasks : ∀ task ∈ tree.tasks,
    ∃ value, task.value = some value ∧ value.Whole
  named : tree.Named

theorem File.whole {word : List Token} {tree : TopLevelNode}
    (file : File word tree) : WholeFile tree := by
  induction file with
  | empty => exact ⟨List.forall_mem_nil _, List.forall_mem_nil _⟩
  | task task _ induction =>
      refine ⟨List.forall_mem_cons.mpr ⟨?_, induction.tasks⟩, induction.named⟩
      cases task with
      | intro name keyword equals denotes ends => exact ⟨_, rfl, denotes.whole⟩
  | dep _ _ induction => exact ⟨induction.tasks, induction.named⟩
  | level level _ induction =>
      refine ⟨induction.tasks, List.forall_mem_cons.mpr ⟨?_, induction.named⟩⟩
      cases level with
      | intro name keyword separates list ends => rfl

end Grammar

end Initd
