import Initd.Reader.ReadCmdLine

namespace Initd.Reader

open Library

/-! The structs that describe tasks.  All are read in one way, which differs in
the name of the tag and in the properties. -/

def canReadStruct (typeName : Bytes) : ValueNode → Except ConfigFault Bool
  | .struct tag _ => return (← deref tag).text = typeName
  | _ => return false

def getPropertiesMap (properties : List PropertyNode) :
    ReadM (Multimap Bytes PropertyNode) := do
  let propertiesByName ← getPropertiesByName properties
  reportDuplicates (fun p => do
    push (← deref p.key).range (ascii "duplicate property declaration"))
    false propertiesByName
  return propertiesByName

def structImpl {Value : Type} (typeName : Bytes)
    (readProperties : Option IdentifierToken → Multimap Bytes PropertyNode →
      ReadM (Option Value)) :
    ReadValueNodeImpl Value where
  getTypeName := typeName
  canRead := canReadStruct typeName
  read
    | .struct tag properties => do
        if (← deref tag).text ≠ typeName then
          throw .assertion
        readProperties tag (← getPropertiesMap properties)
    | _ => throw .assertion
  valueForPseudoIdentifier _ := return none

def readHostname : ReadValueNodeImpl HostnameTaskData :=
  structImpl (ascii "sethostname") fun tag propertiesByName => do
    match ← extractPropertyFromMap readString tag propertiesByName
        (ascii "hostname") with
    | none => return none
    | some hostname =>
        let noRestore ← extractPropertyFromMapOr readBool propertiesByName
          (ascii "no_restore") false
        return some ⟨hostname, noRestore⟩

def readCommand : ReadValueNodeImpl Command :=
  structImpl (ascii "command") fun tag propertiesByName => do
    let cmd ← extractPropertyFromMap readCmdLine tag propertiesByName
      (ascii "cmd")
    let workingDirectory ← extractPropertyFromMapOr readString propertiesByName
      (ascii "working_directory") (ascii "/")
    match cmd with
    | none => return none
    | some cmd => return some ⟨cmd, workingDirectory⟩

def readStartStop : ReadValueNodeImpl StartStopTaskData :=
  structImpl (ascii "start_stop") fun tag propertiesByName => do
    let startCmd ← extractPropertyFromMap readCommand tag propertiesByName
      (ascii "start")
    let stopCmd ← extractPropertyFromMap readCommand tag propertiesByName
      (ascii "stop")
    match startCmd, stopCmd with
    | some startCmd, some stopCmd => return some ⟨startCmd, stopCmd⟩
    | _, _ => return none

def readControl : ReadValueNodeImpl ControlTaskData :=
  structImpl (ascii "control") fun tag propertiesByName => do
    match ← extractPropertyFromMap readString tag propertiesByName
        (ascii "uds_filename") with
    | none => return none
    | some udsFilename => return some ⟨udsFilename⟩

def readNull : ReadValueNodeImpl PUnit :=
  structImpl (ascii "null") fun _ _ => return some ⟨⟩

def readTaskData : ReadValueNodeImpl TaskData where
  getTypeName := ascii "task"
  canRead node := do
    if ← readHostname.canRead node then
      return true
    if ← readStartStop.canRead node then
      return true
    if ← readControl.canRead node then
      return true
    readNull.canRead node
  read node := do
    if ← readHostname.canRead node then
      return (← readHostname.read node).map .hostname
    else if ← readStartStop.canRead node then
      return (← readStartStop.read node).map .startStop
    else if ← readControl.canRead node then
      return (← readControl.read node).map .control
    else if ← readNull.canRead node then
      return (← readNull.read node).map fun _ => .null
    else
      throw .assertion
  valueForPseudoIdentifier _ := return none

def readTask (node : TaskNode) : ReadM (Option TaskData) := do
  match node.value with
  | none => return none
  | some (.pseudoIdentifier tok) => readPseudoIdentifier readTaskData tok
  | some value =>
      if !(← readTaskData.canRead value) then
        let message := quote (← getTypeByValueNode value) ++
          ascii " is not a valid type for task"
        push (← getRange value) message
        return none
      readTaskData.read value

end Initd.Reader
