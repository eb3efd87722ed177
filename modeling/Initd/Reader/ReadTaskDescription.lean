import Initd.Reader.ReadTask

namespace Initd.Reader

open Library

/-! A pointer to a `task_description` is its index in `all_tasks`. -/

structure TaskDescription where
  name : Bytes
  data : TaskData
  dependencies : List Nat

structure TaskDescriptions where
  allTasks : List TaskDescription
  taskByName : Multimap Bytes Nat
  runLevelByName : Multimap Bytes (List Nat)

namespace TaskDescriptions

def createTaskDescription (name : Bytes) (data : TaskData)
    (tds : TaskDescriptions) : TaskDescriptions :=
  { tds with
    allTasks := tds.allTasks ++ [⟨name, data, []⟩]
    taskByName := tds.taskByName.insert (name, tds.allTasks.length) }

/-- `insert` of a `std::map` does nothing where the key is there. -/
def createRunLevel (name : Bytes) (requisites : List Nat)
    (tds : TaskDescriptions) : TaskDescriptions :=
  match tds.runLevelByName.find name with
  | some _ => tds
  | none =>
      { tds with runLevelByName := tds.runLevelByName.insert (name, requisites) }

def getDependencies (task : Nat) (tds : TaskDescriptions) : List Nat :=
  ((tds.allTasks[task]?).map TaskDescription.dependencies).getD []

def setDependencies (task : Nat) (dependencies : List Nat)
    (tds : TaskDescriptions) : TaskDescriptions :=
  { tds with
    allTasks := tds.allTasks.modify task fun description =>
      { description with dependencies := dependencies } }

end TaskDescriptions

def readTasks (node : TopLevelNode) (res : TaskDescriptions) :
    ReadM TaskDescriptions := do
  let tasks ← nodesByName TaskNode.name node.tasks
  reportDuplicates (fun node => do
    push (← deref node.name).range (ascii "duplicate task definition"))
    false tasks
  tasks.foldlM (fun res (name, node) => do
    match ← readTask node with
    | some t => return res.createTaskDescription name t
    | none => return res.createTaskDescription name .null) res

def resolveTask (tds : TaskDescriptions) (res : List Nat)
    (taskNameNode : Option IdentifierToken) : ReadM (List Nat) := do
  let taskName ← deref taskNameNode
  match tds.taskByName.find taskName.text with
  | none =>
      push taskName.range
        (ascii "task " ++ quote taskName.text ++ ascii " is not declared")
      return res
  | some (_, task) => return res ++ [task]

def readDependecies (node : TopLevelNode) (res : TaskDescriptions) :
    ReadM TaskDescriptions :=
  node.dependenciesDecls.foldlM (fun res dnode => do
    let dependant ← deref dnode.dependant
    match res.taskByName.find dependant.text with
    | none =>
        push dependant.range
          (ascii "task " ++ quote dependant.text ++ ascii " is not declared")
        return res
    | some (_, task) =>
        let dependencies ← dnode.dependencies.foldlM (resolveTask res)
          (res.getDependencies task)
        return res.setDependencies task dependencies) res

def readRunLevels (node : TopLevelNode) (res : TaskDescriptions) :
    ReadM TaskDescriptions := do
  let runLevels ← nodesByName RunLevelNode.name node.runLevels
  reportDuplicates (fun node => do
    push (← deref node.name).range (ascii "duplicate run level definition"))
    false runLevels
  runLevels.foldlM (fun res (name, node) => do
    let requisites ← node.dependencies.foldlM (resolveTask res) []
    return res.createRunLevel name requisites) res

/-- What `read_descriptions` does with the tree of a file. -/
def readTree (node : TopLevelNode) : ReadM TaskDescriptions := do
  let tds ← readTasks node ⟨[], [], []⟩
  let tds ← readDependecies node tds
  readRunLevels node tds

end Initd.Reader
