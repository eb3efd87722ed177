import Initd.Library.StepSystem
import Initd.Tasks.AsyncStartStopTask

namespace Initd

open Library

/-! The commands of a task over its requests and the exits of their processes,
as long as `sysapi::fork` succeeds. -/

inductive CommandEvent
  | launched (operation : Operation) (command : Command)
  | exited (operation : Operation)
  deriving DecidableEq, Repr

def ForkResult.events : ForkResult → List CommandEvent
  | .launched operation command => [.launched operation command]
  | .notCalled | .threw => []

structure CommandRun where
  task : AsyncStartStopTask
  requests : List Bool
  events : List CommandEvent
  deriving DecidableEq, Repr

inductive CommandAction
  | setShouldWork (s : Bool)
  | childExits
  deriving DecidableEq, Repr

namespace CommandRun

def start (taskData : StartStopTaskData) : CommandRun :=
  ⟨.create taskData, [], []⟩

def setShouldWork (s : Bool) (run : CommandRun) : CommandRun :=
  let (task, result) := run.task.setShouldWork true s
  ⟨task, run.requests ++ [s], run.events ++ result.events⟩

/-- The process of the current operation exits, whatever its status.  A request
that comes from `current_state_changed` is an action of its own after this. -/
def childExits (run : CommandRun) : Option CommandRun := do
  let operation ← run.task.currentOperation
  let (task, result) ← run.task.operationCompleted true
  return ⟨task, run.requests, run.events ++ [.exited operation] ++ result.events⟩

def next : CommandAction → CommandRun → Option CommandRun
  | .setShouldWork s, run => some (run.setShouldWork s)
  | .childExits, run => run.childExits

def run (taskData : StartStopTaskData) (actions : List CommandAction) :
    Option CommandRun :=
  StepSystem.run next actions (start taskData)

/-- The events of a task that is started and stopped in turn. -/
def alternation (taskData : StartStopTaskData) (n : Nat) : CommandEvent :=
  match n % 4 with
  | 0 => .launched .start taskData.start
  | 1 => .exited .start
  | 2 => .launched .stop taskData.stop
  | _ => .exited .stop

/-- The commands are launched in turn, each after the exit of the one before,
the completion callbacks find `running` as they assert it, and at rest the task
does what was requested last. -/
structure Alternates (taskData : StartStopTaskData) (run : CommandRun) :
    Prop where
  inTurn : run.events =
    (List.range run.events.length).map (alternation taskData)
  outstanding : ∀ operation, run.task.currentOperation = some operation ↔
    ∃ command, run.events.getLast? = some (.launched operation command)
  asserted : run.task.currentOperation.isSome →
    (run.task.operationCompleted true).isSome
  direction : ∀ operation, run.task.currentOperation = some operation →
    (operation = .start ↔ run.task.running = false)
  lastRequest : run.task.currentOperation = none →
    run.task.running = run.requests.getLastD false

/-- The current operation and `running` after so many events. -/
def phase (n : Nat) : Option Operation × Bool :=
  match n % 4 with
  | 0 => (none, false)
  | 1 => (some .start, false)
  | 2 => (none, true)
  | _ => (some .stop, true)

structure Paced (taskData : StartStopTaskData) (run : CommandRun) : Prop where
  data : run.task.taskData = taskData
  told : run.task.shouldWork = run.requests.getLastD false
  inTurn : run.events =
    (List.range run.events.length).map (alternation taskData)
  phased : (run.task.currentOperation, run.task.running) =
    phase run.events.length

variable {taskData : StartStopTaskData} {task : AsyncStartStopTask}
  {requests : List Bool} {events : List CommandEvent} {run after : CommandRun}
  {action : CommandAction}

theorem inTurn_concat {event : CommandEvent}
    (inTurn : events = (List.range events.length).map (alternation taskData))
    (follows : event = alternation taskData events.length) :
    events ++ [event] = (List.range (events ++ [event]).length).map
      (alternation taskData) := by
  rw [List.length_append, List.length_singleton, List.range_succ,
    List.map_append, ← inTurn, follows]
  rfl

theorem phase_cases {n : Nat} {current : Option Operation} {running : Bool}
    (phased : (current, running) = phase n) :
    n % 4 = 0 ∧ current = none ∧ running = false ∨
      n % 4 = 1 ∧ current = some .start ∧ running = false ∨
      n % 4 = 2 ∧ current = none ∧ running = true ∨
      n % 4 = 3 ∧ current = some .stop ∧ running = true := by
  have four : n % 4 = 0 ∨ n % 4 = 1 ∨ n % 4 = 2 ∨ n % 4 = 3 := by omega
  rcases four with mod | mod | mod | mod
  all_goals simp_all [phase]

theorem alternation_of_mod {n k : Nat} (mod : n % 4 = k) :
    alternation taskData n = alternation taskData k := by
  rw [alternation, alternation, ← mod, Nat.mod_mod]

theorem phase_succ_of_mod {n k : Nat} (mod : n % 4 = k) :
    phase (n + 1) = phase (k + 1) := by
  rw [phase, phase, ← mod, Nat.mod_add_mod]

/-- One more event of the alternation. -/
theorem paced_concat {event : CommandEvent} {k : Nat}
    (data : task.taskData = taskData)
    (told : task.shouldWork = requests.getLastD false)
    (inTurn : events = (List.range events.length).map (alternation taskData))
    (mod : events.length % 4 = k) (follows : event = alternation taskData k)
    (phased : (task.currentOperation, task.running) = phase (k + 1)) :
    Paced taskData ⟨task, requests, events ++ [event]⟩ where
  data := data
  told := told
  inTurn := inTurn_concat inTurn (follows.trans (alternation_of_mod mod).symm)
  phased := by
    rw [List.length_append, List.length_singleton, phase_succ_of_mod mod]
    exact phased

theorem Paced.quiet (paced : Paced taskData ⟨task, requests, events⟩)
    (same : task.enqueueJob true = (task, .notCalled)) :
    Paced taskData ⟨(task.enqueueJob true).1, requests,
      events ++ (task.enqueueJob true).2.events⟩ := by
  rw [same]
  exact (List.append_nil events).symm ▸ paced

theorem Paced.enqueueJob (paced : Paced taskData ⟨task, requests, events⟩) :
    Paced taskData ⟨(task.enqueueJob true).1, requests,
      events ++ (task.enqueueJob true).2.events⟩ := by
  by_cases agree : task.running = task.shouldWork
  · exact paced.quiet (AsyncStartStopTask.enqueueJob_of_agree agree)
  have wanted : task.shouldWork = !task.running := Bool.eq_not.mpr (Ne.symm agree)
  obtain ⟨rfl, told, inTurn, phased⟩ := paced
  obtain ⟨mod, idle, stopped⟩ | ⟨-, current, -⟩ | ⟨mod, idle, running⟩ |
    ⟨-, current, -⟩ := phase_cases phased
  · rw [AsyncStartStopTask.enqueueJob_starts idle stopped
      (wanted.trans (congrArg not stopped))]
    exact paced_concat rfl told inTurn mod rfl (congrArg (Prod.mk _) stopped)
  · exact Paced.quiet ⟨rfl, told, inTurn, phased⟩
      (AsyncStartStopTask.enqueueJob_of_operation current)
  · rw [AsyncStartStopTask.enqueueJob_stops idle running
      (wanted.trans (congrArg not running))]
    exact paced_concat rfl told inTurn mod rfl (congrArg (Prod.mk _) running)
  · exact Paced.quiet ⟨rfl, told, inTurn, phased⟩
      (AsyncStartStopTask.enqueueJob_of_operation current)

theorem Paced.setShouldWork (paced : Paced taskData run) (s : Bool) :
    Paced taskData (run.setShouldWork s) := by
  have asked : Paced taskData ⟨{ run.task with shouldWork := s },
      run.requests ++ [s], run.events⟩ :=
    ⟨paced.data, (List.getLastD_concat ..).symm, paced.inTurn, paced.phased⟩
  exact asked.enqueueJob

theorem childExits_eq (exited : run.childExits = some after) :
    ∃ operation task result, run.task.currentOperation = some operation ∧
      run.task.operationCompleted true = some (task, result) ∧
      after = ⟨task, run.requests,
        run.events ++ [.exited operation] ++ result.events⟩ := by
  simp only [CommandRun.childExits, Option.bind_eq_bind, Option.bind_eq_some_iff,
    Option.pure_def, Option.some.injEq] at exited
  obtain ⟨operation, current, ⟨task, result⟩, completed, rfl⟩ := exited
  exact ⟨operation, task, result, current, completed, rfl⟩

theorem Paced.childExits (paced : Paced taskData run)
    (exited : run.childExits = some after) : Paced taskData after := by
  obtain ⟨operation, task, result, current, completed, rfl⟩ :=
    childExits_eq exited
  have job := AsyncStartStopTask.operationCompleted_eq completed
  have idle : Paced taskData ⟨{ run.task with
      running := !run.task.running
      currentOperation := none }, run.requests,
      run.events ++ [.exited operation]⟩ := by
    obtain ⟨-, none, -⟩ | ⟨mod, start, running⟩ | ⟨-, none, -⟩ |
      ⟨mod, stop, running⟩ := phase_cases paced.phased
    · rw [none] at current
      contradiction
    · rw [start] at current
      obtain rfl := Option.some.inj current
      exact paced_concat paced.data paced.told paced.inTurn mod rfl
        (by rw [running]; rfl)
    · rw [none] at current
      contradiction
    · rw [stop] at current
      obtain rfl := Option.some.inj current
      exact paced_concat paced.data paced.told paced.inTurn mod rfl
        (by rw [running]; rfl)
  have enqueued := idle.enqueueJob
  rwa [job] at enqueued

theorem outstanding_iff (n : Nat) (operation : Operation) :
    (phase (n + 1)).1 = some operation ↔
      ∃ command, alternation taskData n = .launched operation command := by
  have four : n % 4 = 0 ∨ n % 4 = 1 ∨ n % 4 = 2 ∨ n % 4 = 3 := by omega
  rcases four with mod | mod | mod | mod
  all_goals
    rw [phase_succ_of_mod mod, alternation_of_mod mod]
    cases operation <;> simp [phase, alternation]

theorem Paced.alternates (paced : Paced taskData run)
    (consistent : run.task.Consistent) : Alternates taskData run where
  inTurn := paced.inTurn
  outstanding operation := by
    have current : run.task.currentOperation = (phase run.events.length).1 :=
      congrArg Prod.fst paced.phased
    rw [current, paced.inTurn, List.getLast?_map, List.getLast?_range]
    cases run.events.length with
    | zero => simp [phase]
    | succ n => simpa using outstanding_iff n operation
  asserted outstanding := by
    obtain ⟨operation, current⟩ := Option.isSome_iff_exists.mp outstanding
    rw [AsyncStartStopTask.Consistent, current] at consistent
    cases operation <;>
      simp_all [AsyncStartStopTask.operationCompleted]
  direction operation current := by
    rw [AsyncStartStopTask.Consistent, current] at consistent
    cases operation <;> simp_all
  lastRequest idle := by
    rw [AsyncStartStopTask.Consistent, idle] at consistent
    exact consistent.trans paced.told

/-- However the requests and the exits follow one another, the commands of a
task are start, stop, start and so on. -/
theorem commands_alternate {taskData : StartStopTaskData}
    {actions : List CommandAction} {run : CommandRun}
    (ran : CommandRun.run taskData actions = some run) :
    Alternates taskData run := by
  have both : Paced taskData run ∧ run.task.Consistent := by
    refine StepSystem.run_invariant
      (fun run => Paced taskData run ∧ run.task.Consistent)
      ⟨⟨rfl, rfl, rfl, rfl⟩, AsyncStartStopTask.consistent_create taskData⟩
      ?_ (List.prefix_refl actions) ran
    intro _ action before after _ _ held moved
    cases action with
    | setShouldWork s =>
        obtain rfl := Option.some.inj moved
        exact ⟨held.1.setShouldWork s,
          AsyncStartStopTask.setShouldWork_consistent held.2⟩
    | childExits =>
        refine ⟨held.1.childExits moved, ?_⟩
        obtain ⟨_, _, _, -, completed, rfl⟩ := childExits_eq moved
        exact AsyncStartStopTask.operationCompleted_consistent completed
  exact both.1.alternates both.2

/-- A start that is cancelled while it runs. -/
theorem commands_alternate_cancelled :
    ∃ taskData run,
      CommandRun.run taskData [.setShouldWork true, .setShouldWork false,
        .childExits, .childExits] = some run ∧
      run.events = [.launched .start taskData.start, .exited .start,
        .launched .stop taskData.stop, .exited .stop] ∧
      Alternates taskData run := by
  have ran : CommandRun.run ⟨⟨⟨[], []⟩, []⟩, ⟨⟨[], []⟩, []⟩⟩
      [.setShouldWork true, .setShouldWork false, .childExits, .childExits] =
        some _ := rfl
  exact ⟨_, _, ran, rfl, commands_alternate ran⟩

end CommandRun

end Initd
