import Initd.Config.TaskData
import Mathlib.Algebra.BigOperators.Group.Finset.Basic
import Mathlib.Data.Fintype.Basic

namespace Initd

/-! The configuration as `initd_state` receives it.  A pointer to a
`task_description` is the index of its owner in `all_tasks`. -/

structure TaskDescription (n : Nat) where
  name : Bytes
  data : TaskData
  dependencies : List (Fin n)

/-- The bound is what keeps the vectors of the run-time graph, which hold one
pointer for each dependency, inside an address space of `2 ^ 64` bytes. -/
structure TaskDescriptions (n : Nat) where
  allTasks : Fin n → TaskDescription n
  runLevelByName : List (Bytes × List (Fin n))
  dependencies_size : ∑ t, (allTasks t).dependencies.length < 2 ^ 64
  tasks_size : n < 2 ^ 64

end Initd
