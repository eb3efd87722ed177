import Mathlib.Data.List.Perm.Basic
import Mathlib.Data.List.Nodup

namespace Initd.Sysapi

/-! The children of the process as the kernel keeps them. -/

/-- A child is known by how many there were before it: pids are used again. -/
structure Process where
  pid : Nat
  child : Nat
  deriving DecidableEq, Repr

structure ChildStatus where
  process : Process
  status : Int32
  deriving DecidableEq, Repr

/-- `SIGCHLD` is blocked, so all of its arrivals are one pending signal. -/
structure Kernel where
  children : Nat
  live : List Process
  exited : List ChildStatus
  pending : Bool
  deriving DecidableEq, Repr

namespace Kernel

def boot : Kernel := ⟨0, [], [], false⟩

/-- The processes that have a pid, up to the `waitpid` that they are reaped
with. -/
def processes (kernel : Kernel) : List Process :=
  kernel.live ++ kernel.exited.map ChildStatus.process

/-- A new child, forked or left by a process that exited before it. -/
def make (pid : Nat) (kernel : Kernel) : Option (Process × Kernel) :=
  if pid ∈ kernel.processes.map Process.pid then
    none
  else
    let process := ⟨pid, kernel.children⟩
    some (process, { kernel with
      children := kernel.children + 1
      live := process :: kernel.live })

def exit (process : Process) (status : Int32) (kernel : Kernel) :
    Option Kernel :=
  if process ∈ kernel.live then
    some { kernel with
      live := kernel.live.erase process
      exited := ⟨process, status⟩ :: kernel.exited
      pending := true }
  else
    none

/-- The read from the `signalfd`, which is not ready without a signal. -/
def readSignal (kernel : Kernel) : Option Kernel :=
  if kernel.pending then
    some { kernel with pending := false }
  else
    none

/-- The `waitpid` of `reap_child`, by what it returns. -/
def reapChild (child : Option ChildStatus) (kernel : Kernel) : Option Kernel :=
  match child with
  | none => if kernel.exited = [] then some kernel else none
  | some status =>
      if status ∈ kernel.exited then
        some { kernel with exited := kernel.exited.erase status }
      else
        none

/-- Neither pids nor children are there twice. -/
structure Sound (kernel : Kernel) : Prop where
  pids : (kernel.processes.map Process.pid).Nodup
  children : (kernel.processes.map Process.child).Nodup
  made : ∀ process ∈ kernel.processes, process.child < kernel.children

variable {kernel after : Kernel} {process other : Process}

theorem boot_sound : boot.Sound :=
  ⟨List.nodup_nil, List.nodup_nil, List.forall_mem_nil _⟩

theorem mem_processes_of_exited {status : ChildStatus}
    (member : status ∈ kernel.exited) : status.process ∈ kernel.processes :=
  List.mem_append_right _ (List.mem_map_of_mem member)

/-! What each call does to the processes. -/

theorem make_processes {pid : Nat}
    (made : kernel.make pid = some (process, after)) :
    pid ∉ kernel.processes.map Process.pid ∧
      process = ⟨pid, kernel.children⟩ ∧
      after.children = kernel.children + 1 ∧
      after.processes = process :: kernel.processes ∧
      after.exited = kernel.exited ∧ after.pending = kernel.pending := by
  unfold make at made
  split at made
  · contradiction
  · next unused =>
      obtain ⟨rfl, rfl⟩ := Prod.mk.inj (Option.some.inj made)
      exact ⟨unused, rfl, rfl, rfl, rfl, rfl⟩

theorem exit_processes {status : Int32}
    (exited : kernel.exit process status = some after) :
    process ∈ kernel.live ∧ after.children = kernel.children ∧
      after.processes.Perm kernel.processes ∧
      after.exited = ⟨process, status⟩ :: kernel.exited ∧
      after.pending = true := by
  unfold exit at exited
  split at exited
  · next live =>
      cases exited
      refine ⟨live, rfl, ?_, rfl, rfl⟩
      have back : (process :: kernel.live.erase process).Perm kernel.live :=
        (List.perm_cons_erase live).symm
      exact List.perm_middle.trans (back.append_right _)
  · contradiction

theorem readSignal_eq (read : kernel.readSignal = some after) :
    kernel.pending = true ∧ after = { kernel with pending := false } := by
  unfold readSignal at read
  split at read
  · next pending => exact ⟨pending, (Option.some.inj read).symm⟩
  · contradiction

theorem reapChild_none (reaped : kernel.reapChild none = some after) :
    kernel.exited = [] ∧ after = kernel := by
  simp only [reapChild] at reaped
  split at reaped
  · next empty => exact ⟨empty, (Option.some.inj reaped).symm⟩
  · contradiction

theorem reapChild_some {status : ChildStatus}
    (reaped : kernel.reapChild (some status) = some after) :
    status ∈ kernel.exited ∧
      after = { kernel with exited := kernel.exited.erase status } ∧
      kernel.processes.Perm (status.process :: after.processes) := by
  simp only [reapChild] at reaped
  split at reaped
  · next exited =>
      cases reaped
      refine ⟨exited, rfl, ?_⟩
      have first := (List.perm_cons_erase exited).map ChildStatus.process
      exact (first.append_left kernel.live).trans List.perm_middle
  · contradiction

namespace Sound

theorem perm (sound : kernel.Sound)
    (same : after.processes.Perm kernel.processes)
    (count : after.children = kernel.children) : after.Sound where
  pids := (same.map _).nodup_iff.mpr sound.pids
  children := (same.map _).nodup_iff.mpr sound.children
  made other member := by
    rw [count]
    exact sound.made other (same.mem_iff.mp member)

theorem make {pid : Nat} (sound : kernel.Sound)
    (made : kernel.make pid = some (process, after)) : after.Sound := by
  obtain ⟨unused, rfl, count, processes, -⟩ := make_processes made
  constructor
  · rw [processes]
    exact List.nodup_cons.mpr ⟨unused, sound.pids⟩
  · rw [processes]
    refine List.nodup_cons.mpr ⟨fun member => ?_, sound.children⟩
    obtain ⟨other, present, same⟩ := List.mem_map.mp member
    exact Nat.ne_of_lt (sound.made other present) same
  · rw [processes, count]
    refine List.forall_mem_cons.mpr ⟨Nat.lt_succ_self _, fun other member => ?_⟩
    exact Nat.lt_succ_of_lt (sound.made other member)

theorem exit {status : Int32} (sound : kernel.Sound)
    (exited : kernel.exit process status = some after) : after.Sound := by
  obtain ⟨-, count, same, -⟩ := exit_processes exited
  exact sound.perm same count

theorem reapChild {status : ChildStatus} (sound : kernel.Sound)
    (reaped : kernel.reapChild (some status) = some after) :
    after.Sound ∧ status.process.pid ∉ after.processes.map Process.pid ∧
      status.process.child ∉ after.processes.map Process.child := by
  obtain ⟨-, rfl, same⟩ := reapChild_some reaped
  have pids := (same.map _).nodup_iff.mp sound.pids
  have children := (same.map _).nodup_iff.mp sound.children
  rw [List.map_cons, List.nodup_cons] at pids children
  refine ⟨⟨pids.2, children.2, fun other member => ?_⟩, pids.1, children.1⟩
  exact sound.made other (same.mem_iff.mpr (List.mem_cons_of_mem _ member))

theorem eq_of_pid (sound : kernel.Sound) (first : process ∈ kernel.processes)
    (second : other ∈ kernel.processes) (same : process.pid = other.pid) :
    process = other :=
  List.inj_on_of_nodup_map sound.pids first second same

theorem eq_of_child (sound : kernel.Sound) (first : process ∈ kernel.processes)
    (second : other ∈ kernel.processes) (same : process.child = other.child) :
    process = other :=
  List.inj_on_of_nodup_map sound.children first second same

theorem ne_of_live {status : ChildStatus} (sound : kernel.Sound)
    (live : process ∈ kernel.live) (exited : status ∈ kernel.exited) :
    process.child ≠ status.process.child := by
  have apart := sound.children
  rw [processes, List.map_append, List.nodup_append] at apart
  exact apart.2.2 _ (List.mem_map_of_mem live) _
    (List.mem_map_of_mem (List.mem_map_of_mem exited))

end Sound

end Kernel

end Initd.Sysapi
