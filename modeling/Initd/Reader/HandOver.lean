import Initd.Reader.Resolution
import Initd.Runtime.Construction

namespace Initd.Reader

open Library

/-! The descriptions that the reader hands over to the constructor of
`initd_state`. -/

namespace TaskDescriptions

/-- Each pointer is one to a task of `all_tasks`, so that `descr_to_task` has
it. -/
structure Owned (tds : TaskDescriptions) : Prop where
  dependencies : ∀ task : Fin tds.allTasks.length,
    ∀ dependency ∈ tds.allTasks[task].dependencies,
      dependency < tds.allTasks.length
  runLevels : ∀ level ∈ tds.runLevelByName, ∀ requisite ∈ level.2,
    requisite < tds.allTasks.length

/-- The vectors of the descriptions lie in one address space. -/
structure FitsMemory (tds : TaskDescriptions) : Prop where
  dependencies_size :
    ∑ task : Fin tds.allTasks.length, tds.allTasks[task].dependencies.length <
      2 ^ 64
  tasks_size : tds.allTasks.length < 2 ^ 64

def findTasks {size : Nat} (pointers : List Nat)
    (owned : ∀ pointer ∈ pointers, pointer < size) : List (Fin size) :=
  pointers.pmap Fin.mk owned

@[simp] theorem findTasks_val {size : Nat} {pointers : List Nat}
    (owned : ∀ pointer ∈ pointers, pointer < size) :
    (findTasks pointers owned).map Fin.val = pointers := by
  simp [findTasks, List.map_pmap]

@[simp] theorem findTasks_length {size : Nat} {pointers : List Nat}
    (owned : ∀ pointer ∈ pointers, pointer < size) :
    (findTasks pointers owned).length = pointers.length :=
  List.length_pmap

theorem findTasks_count {size : Nat} {pointers : List Nat}
    (owned : ∀ pointer ∈ pointers, pointer < size) (task : Fin size) :
    (findTasks pointers owned).count task = pointers.count task.val := by
  have counted := List.count_map_of_injective (findTasks pointers owned) Fin.val
    Fin.val_injective task
  rw [← counted, findTasks_val]

variable (tds : TaskDescriptions)

def handOverTask (owned : tds.Owned) (task : Fin tds.allTasks.length) :
    Initd.TaskDescription tds.allTasks.length where
  name := tds.allTasks[task].name
  data := tds.allTasks[task].data
  dependencies :=
    findTasks tds.allTasks[task].dependencies (owned.dependencies task)

variable {tds}

theorem handOver_size (owned : tds.Owned) (fits : tds.FitsMemory) :
    ∑ task, (tds.handOverTask owned task).dependencies.length < 2 ^ 64 := by
  simpa only [handOverTask, findTasks_length] using fits.dependencies_size

/-- What the constructor of `initd_state` makes its tasks from. -/
def handOver (owned : tds.Owned) (fits : tds.FitsMemory) :
    Initd.TaskDescriptions tds.allTasks.length where
  allTasks := tds.handOverTask owned
  runLevelByName := tds.runLevelByName.pmap
    (fun level inside => (level.1, findTasks level.2 inside)) owned.runLevels
  dependencies_size := handOver_size owned fits
  tasks_size := fits.tasks_size

theorem lt_of_resolve {pointer : Option IdentifierToken} {task : Nat}
    (resolved : tds.resolve pointer = some task) :
    task < tds.allTasks.length := by
  obtain ⟨name, -, found⟩ := Option.bind_eq_some_iff.mp resolved
  obtain ⟨_, present, -⟩ := exists_of_taskNamed found
  exact (List.getElem?_eq_some_iff.mp present).1

end TaskDescriptions

theorem Resolved.owned {tree : TopLevelNode} {tds : TaskDescriptions}
    {tasks : Multimap Bytes TaskNode} {levels : Multimap Bytes RunLevelNode}
    {errors : List ErrorTag}
    (resolved : Resolved tree tds tasks levels errors) : tds.Owned where
  dependencies task dependency member := by
    have present : tds.allTasks[task.val]? = some tds.allTasks[task] :=
      List.getElem?_eq_getElem task.isLt
    rw [resolved.dependencies task _ present] at member
    obtain ⟨decl, -, edge⟩ := List.mem_flatMap.mp member
    unfold TaskDescriptions.edges at edge
    split at edge
    · obtain ⟨_, -, named⟩ := List.mem_filterMap.mp edge
      exact TaskDescriptions.lt_of_resolve named
    · contradiction
  runLevels level member requisite inside := by
    have found := Multimap.find_of_mem resolved.runLevelOnce member
    rw [resolved.runLevels] at found
    obtain ⟨node, -, same⟩ := Option.map_eq_some_iff.mp found
    rw [← same] at inside
    obtain ⟨_, -, named⟩ := List.mem_filterMap.mp inside
    exact TaskDescriptions.lt_of_resolve named

/-- On a tree with its names, the reader makes one description of each task,
resolves each name that is listed, or reports it once, and adds nothing else.
The run-time tasks have the same edges and requisites. -/
theorem names_resolved {tree : TopLevelNode} (complete : tree.Complete) :
    ∃ tds tasks levels errors, Writes (readTree tree) tds errors ∧
      Resolved tree tds tasks levels errors ∧
      ∃ owned : tds.Owned, ∀ fits : tds.FitsMemory,
        (∀ task, (((TaskDescriptions.handOver owned fits).graph.dependencies
            task).map Fin.val) = tds.allTasks[task].dependencies) ∧
        (∀ dependant dependency,
          ((TaskDescriptions.handOver owned fits).graph.dependants
              dependency).count dependant =
            tds.allTasks[dependant].dependencies.count dependency.val) ∧
        ((TaskDescriptions.handOver owned fits).graph.runLevels.map
            fun level => (level.1, level.2.map Fin.val)) =
          tds.runLevelByName := by
  have butNames := complete.butNames
  obtain ⟨tds, tasks, levels, errors, writes, resolved, -⟩ :=
    readTree_writes butNames.placed (butNames.complete_iff.mp complete)
  refine ⟨tds, tasks, levels, errors, writes, resolved, resolved.owned,
    fun fits => ?_⟩
  have edges : ∀ task,
      (TaskDescriptions.handOver resolved.owned fits).graph.dependencies task =
        TaskDescriptions.findTasks _ (resolved.owned.dependencies task) :=
    fun task => TaskDescriptions.wire_dependencies _ task
  refine ⟨fun task => ?_, fun dependant dependency => ?_, ?_⟩
  · rw [edges, TaskDescriptions.findTasks_val]
  · rw [← TaskGraph.mirrored, edges, TaskDescriptions.findTasks_count]
  · simp [Initd.TaskDescriptions.graph, TaskDescriptions.handOver,
      List.map_pmap]

def nameAt (start : Nat) (text : String) : IdentifierToken :=
  ⟨⟨start, start + text.length⟩, ascii text⟩

/-- Task `a` depends on `b` twice, on itself, and on a task that is not
declared. -/
def repeatedEdges : TopLevelNode where
  tasks := [⟨some (nameAt 0 "b"), none⟩, ⟨some (nameAt 2 "a"), none⟩]
  dependenciesDecls := [⟨some (nameAt 4 "a"), [some (nameAt 6 "b"),
    some (nameAt 8 "x"), some (nameAt 10 "b"), some (nameAt 12 "a")]⟩]
  runLevels := [⟨some (nameAt 14 "l"), [some (nameAt 16 "b")]⟩,
    ⟨some (nameAt 18 "l"), [some (nameAt 20 "a")]⟩]

theorem repeatedEdges_complete : repeatedEdges.Complete where
  tasks := List.forall_mem_cons.mpr ⟨⟨rfl, fun _ none => by contradiction⟩,
    List.forall_mem_singleton.mpr ⟨rfl, fun _ none => by contradiction⟩⟩
  dependenciesDecls := List.forall_mem_singleton.mpr
    ⟨rfl, List.all_eq_true.mp rfl⟩
  runLevels := List.forall_mem_cons.mpr ⟨⟨rfl, List.all_eq_true.mp rfl⟩,
    List.forall_mem_singleton.mpr ⟨rfl, List.all_eq_true.mp rfl⟩⟩

theorem names_resolved_repeatedEdges :
    ∃ tds errors, readTree repeatedEdges [] = .ok (tds, errors) ∧
      tds.allTasks.map TaskDescription.dependencies = [[1, 1, 0], []] ∧
      tds.runLevelByName = [(ascii "l", [1])] ∧ tds.Owned := by
  obtain ⟨tds, _, _, errors, writes, -, owned, -⟩ :=
    names_resolved repeatedEdges_complete
  have ran := writes []
  obtain ⟨rfl, -⟩ := Prod.mk.inj (Except.ok.inj ran)
  exact ⟨_, _, ran, rfl, rfl, owned⟩

end Initd.Reader
