import Initd.Sysapi.SigchildHandler

namespace Initd.Sysapi

open Library

namespace ChildState

/-- The calls are those of registered children that have exited, each of them
at most once, no assertion fails, and without a signal all of them are there
outside of the handler. -/
structure Delivers (state : ChildState) : Prop where
  once : (state.called.map fun call => call.process.child).Nodup
  afterExit : ∀ call ∈ state.called,
    call ∈ state.exits ∧ call.process.child ∈ state.registered
  asserted : state.phase ≠ .aborted
  drained : state.phase.inHandler = false → state.kernel.pending = false →
    ∀ exit ∈ state.exits, exit.process.child ∈ state.registered →
      exit ∈ state.called

/-- The signal of a registered child that exited was read, but the child was
not reaped. -/
def LeavesBehind (state : ChildState) : Prop :=
  state.kernel.pending = false ∧ ∃ status ∈ state.kernel.exited,
    (state.handler.handlers status.process.pid).isSome

inductive Stepped (state : ChildState) : Action → ChildState → Prop
  | exit {process : Process} {status : Int32} {kernel : Kernel}
      (exited : state.kernel.exit process status = some kernel) :
      Stepped state (.exit process status) { state with
        kernel := kernel
        exits := ⟨process, status⟩ :: state.exits }
  | adopt {pid : Nat} {process : Process} {kernel : Kernel}
      (made : state.kernel.make pid = some (process, kernel)) :
      Stepped state (.adopt pid) { state with kernel := kernel }
  | fork {pid : Nat} {process : Process} {kernel : Kernel} {caller : Caller}
      (phase : state.phase = .running caller)
      (made : state.kernel.make pid = some (process, kernel)) :
      Stepped state (.fork pid) { state with
        kernel := kernel
        phase := .adding caller process }
  | add {process : Process} {caller : Caller}
      (phase : state.phase = .adding caller process)
      (free : state.handler.handlers process.pid = none) :
      Stepped state .add { state with
        handler := ⟨Function.update state.handler.handlers process.pid
          (some process.child)⟩
        phase := .running caller
        registered := process.child :: state.registered }
  | addAborts {process : Process} {caller : Caller} {waitChild : Nat}
      (phase : state.phase = .adding caller process)
      (taken : state.handler.handlers process.pid = some waitChild) :
      Stepped state .add { state with phase := .aborted }
  | deliver {kernel : Kernel} (phase : state.phase = .running .outside)
      (read : state.kernel.readSignal = some kernel) :
      Stepped state .deliver { state with kernel := kernel, phase := .reaping }
  | reapNone (phase : state.phase = .reaping) {kernel : Kernel}
      (reaped : state.kernel.reapChild none = some kernel) :
      Stepped state (.reap none) { state with
        kernel := kernel
        phase := .running .outside }
  | reapOrphan {process : Process} {status : Int32} {kernel : Kernel}
      (phase : state.phase = .reaping)
      (reaped : state.kernel.reapChild (some ⟨process, status⟩) = some kernel)
      (missing : state.handler.handlers process.pid = none) :
      Stepped state (.reap (some ⟨process, status⟩))
        { state with kernel := kernel }
  | reapChild {process : Process} {status : Int32} {kernel : Kernel}
      {waitChild : Nat} (phase : state.phase = .reaping)
      (reaped : state.kernel.reapChild (some ⟨process, status⟩) = some kernel)
      (found : state.handler.handlers process.pid = some waitChild) :
      Stepped state (.reap (some ⟨process, status⟩)) { state with
        kernel := kernel
        phase := .removing ⟨process.pid, waitChild⟩
        called := ⟨⟨process.pid, waitChild⟩, status⟩ :: state.called }
  | remove {process : Process} {waitChild : Nat}
      (phase : state.phase = .removing process)
      (found : state.handler.handlers process.pid = some waitChild) :
      Stepped state .remove { state with
        handler := ⟨Function.update state.handler.handlers process.pid none⟩
        phase := .running .callback }
  | removeAborts {process : Process} (phase : state.phase = .removing process)
      (missing : state.handler.handlers process.pid = none) :
      Stepped state .remove { state with phase := .aborted }
  | finish (phase : state.phase = .running .callback) :
      Stepped state .finish { state with phase := .reaping }
  | throw (phase : state.phase = .running .callback ∨
        ∃ process, state.phase = .adding .callback process) :
      Stepped state .throw { state with phase := .running .outside }

variable {action : Action} {state after : ChildState}

theorem stepped (moved : next action state = some after) :
    Stepped state action after := by
  cases action with
  | exit process status =>
      obtain ⟨kernel, exited, same⟩ := Option.bind_eq_some_iff.mp moved
      cases same
      exact .exit exited
  | adopt pid =>
      obtain ⟨⟨process, kernel⟩, made, same⟩ := Option.bind_eq_some_iff.mp moved
      cases same
      exact .adopt made
  | fork pid =>
      simp only [next, fork] at moved
      split at moved
      · next caller phase =>
          obtain ⟨⟨process, kernel⟩, made, same⟩ :=
            Option.bind_eq_some_iff.mp moved
          cases same
          exact .fork phase made
      · contradiction
  | add =>
      simp only [next, add, SigchildHandler.add] at moved
      split at moved
      · next caller process phase =>
          cases found : state.handler.handlers process.pid with
          | none =>
              rw [found] at moved
              cases moved
              exact .add phase found
          | some waitChild =>
              rw [found] at moved
              cases moved
              exact .addAborts phase found
      · contradiction
  | deliver =>
      simp only [next, deliver] at moved
      split at moved
      · next phase =>
          obtain ⟨kernel, read, same⟩ := Option.bind_eq_some_iff.mp moved
          cases same
          exact .deliver phase read
      · contradiction
  | reap child =>
      simp only [next, reap] at moved
      split at moved
      · next phase =>
          obtain ⟨kernel, reaped, moved⟩ := Option.bind_eq_some_iff.mp moved
          cases child with
          | none =>
              cases moved
              exact .reapNone phase reaped
          | some child =>
              obtain ⟨process, status⟩ := child
              cases found : state.handler.handlers process.pid with
              | none =>
                  simp only [found] at moved
                  cases moved
                  exact .reapOrphan phase reaped found
              | some waitChild =>
                  simp only [found] at moved
                  cases moved
                  exact .reapChild phase reaped found
      · contradiction
  | remove =>
      simp only [next, remove, SigchildHandler.remove] at moved
      split at moved
      · next process phase =>
          cases found : state.handler.handlers process.pid with
          | none =>
              rw [found] at moved
              cases moved
              exact .removeAborts phase found
          | some waitChild =>
              rw [found] at moved
              cases moved
              exact .remove phase found
      · contradiction
  | finish =>
      simp only [next, finish] at moved
      split at moved
      · next phase =>
          cases moved
          exact .finish phase
      · contradiction
  | throw =>
      simp only [next, throw] at moved
      split at moved
      · next phase =>
          cases moved
          exact .throw (.inl phase)
      · next process phase =>
          cases moved
          exact .throw (.inr ⟨process, phase⟩)
      · contradiction

/-! What is kept of the children agrees with the kernel. -/

structure Recorded (kernel : Kernel) (exits called : List ChildStatus) :
    Prop where
  sound : kernel.Sound
  zombies : ∀ status ∈ kernel.exited, status ∈ exits
  places : ∀ exit ∈ exits, exit.process.child < kernel.children ∧
    (exit ∈ kernel.exited ∨
      exit.process.child ∉ kernel.processes.map Process.child)
  calls : ∀ call ∈ called, call ∈ exits ∧
    call.process.child ∉ kernel.processes.map Process.child
  exitsOnce : (exits.map fun exit => exit.process.child).Nodup
  once : (called.map fun call => call.process.child).Nodup

namespace Recorded

variable {kernel later : Kernel} {exits called : List ChildStatus}

theorem boot : Recorded .boot [] [] :=
  ⟨Kernel.boot_sound, List.forall_mem_nil _, List.forall_mem_nil _,
    List.forall_mem_nil _, List.nodup_nil, List.nodup_nil⟩

theorem make {pid : Nat} {process : Process}
    (recorded : Recorded kernel exits called)
    (made : kernel.make pid = some (process, later)) :
    Recorded later exits called := by
  have sound := recorded.sound.make made
  obtain ⟨-, rfl, count, processes, exited, -⟩ := Kernel.make_processes made
  have gone : ∀ exit ∈ exits,
      exit.process.child ∉ kernel.processes.map Process.child →
        exit.process.child ∉ later.processes.map Process.child := by
    intro exit member missing
    rw [processes, List.map_cons, List.mem_cons, not_or]
    exact ⟨Nat.ne_of_lt (recorded.places exit member).1, missing⟩
  refine ⟨sound, ?_, fun exit member => ?_, fun call member => ?_,
    recorded.exitsOnce, recorded.once⟩
  · rw [exited]
    exact recorded.zombies
  · obtain ⟨before, present⟩ := recorded.places exit member
    rw [exited, count]
    exact ⟨Nat.lt_succ_of_lt before, present.imp_right (gone exit member)⟩
  · obtain ⟨logged, missing⟩ := recorded.calls call member
    exact ⟨logged, gone call logged missing⟩

theorem exit {process : Process} {status : Int32}
    (recorded : Recorded kernel exits called)
    (exited : kernel.exit process status = some later) :
    Recorded later (⟨process, status⟩ :: exits) called := by
  have sound := recorded.sound.exit exited
  obtain ⟨live, count, same, exited', -⟩ := Kernel.exit_processes exited
  have children := same.map Process.child
  refine ⟨sound, ?_, ?_, fun call member => ?_, ?_, recorded.once⟩
  · rw [exited']
    exact List.forall_mem_cons.mpr ⟨List.mem_cons_self, fun other member =>
      List.mem_cons_of_mem _ (recorded.zombies other member)⟩
  · rw [exited', count]
    refine List.forall_mem_cons.mpr ⟨⟨recorded.sound.made process
      (List.mem_append_left _ live), .inl List.mem_cons_self⟩,
      fun exit member => ?_⟩
    obtain ⟨before, present⟩ := recorded.places exit member
    exact ⟨before, present.imp (List.mem_cons_of_mem _)
      fun missing => children.mem_iff.not.mpr missing⟩
  · obtain ⟨logged, missing⟩ := recorded.calls call member
    exact ⟨List.mem_cons_of_mem _ logged, children.mem_iff.not.mpr missing⟩
  · rw [List.map_cons, List.nodup_cons]
    refine ⟨fun earlier => ?_, recorded.exitsOnce⟩
    obtain ⟨exit, logged, child⟩ := List.mem_map.mp earlier
    cases (recorded.places exit logged).2 with
    | inl zombie => exact recorded.sound.ne_of_live live zombie child.symm
    | inr missing =>
        rw [child] at missing
        exact missing (List.mem_map_of_mem (List.mem_append_left _ live))

theorem reap {status : ChildStatus} (recorded : Recorded kernel exits called)
    (reaped : kernel.reapChild (some status) = some later) :
    Recorded later exits called := by
  obtain ⟨sound, -, unreused⟩ := recorded.sound.reapChild reaped
  obtain ⟨member, rfl, same⟩ := Kernel.reapChild_some reaped
  have children := same.map Process.child
  refine ⟨sound, fun other inside => ?_, fun exit logged => ?_,
    fun call called => ?_, recorded.exitsOnce, recorded.once⟩
  · exact recorded.zombies other (List.mem_of_mem_erase inside)
  · obtain ⟨before, present⟩ := recorded.places exit logged
    refine ⟨before, ?_⟩
    by_cases this : exit = status
    · rw [this]
      exact .inr unreused
    · exact present.imp (List.mem_erase_of_ne this).mpr fun missing inside =>
        missing (children.mem_iff.mpr (List.mem_cons_of_mem _ inside))
  · obtain ⟨logged, missing⟩ := recorded.calls call called
    exact ⟨logged, fun inside =>
      missing (children.mem_iff.mpr (List.mem_cons_of_mem _ inside))⟩

theorem call {status : ChildStatus} (recorded : Recorded kernel exits called)
    (reaped : kernel.reapChild (some status) = some later) :
    Recorded later exits (status :: called) := by
  have kept := recorded.reap reaped
  obtain ⟨-, -, unreused⟩ := recorded.sound.reapChild reaped
  obtain ⟨member, -, same⟩ := Kernel.reapChild_some reaped
  have there : status.process.child ∈ kernel.processes.map Process.child :=
    List.mem_map_of_mem (same.mem_iff.mpr List.mem_cons_self)
  refine ⟨kept.sound, kept.zombies, kept.places, List.forall_mem_cons.mpr
    ⟨⟨recorded.zombies status member, unreused⟩, kept.calls⟩,
    kept.exitsOnce, ?_⟩
  rw [List.map_cons, List.nodup_cons]
  refine ⟨fun earlier => ?_, kept.once⟩
  obtain ⟨call, called, child⟩ := List.mem_map.mp earlier
  rw [← child] at there
  exact (recorded.calls call called).2 there

end Recorded

/-! The `wait_child`s are those of processes that were not reaped yet, but for
the one whose callback starts. -/

structure Registered (state : ChildState) : Prop where
  adding : ∀ caller process, state.phase = .adding caller process →
    process ∈ state.kernel.processes ∧
      state.handler.handlers process.pid = none
  removing : ∀ process, state.phase = .removing process →
    state.handler.handlers process.pid = some process.child ∧
      ∃ call ∈ state.called, call.process.child = process.child
  asserted : state.phase ≠ .aborted
  handled : ∀ pid child, state.handler.handlers pid = some child →
    child ∈ state.registered ∧ (⟨pid, child⟩ ∈ state.kernel.processes ∨
      state.phase = .removing ⟨pid, child⟩)
  found : ∀ child ∈ state.registered,
    (∃ pid, state.handler.handlers pid = some child) ∨
      ∃ call ∈ state.called, call.process.child = child
  called : ∀ call ∈ state.called, call.process.child ∈ state.registered

namespace Registered

theorem boot : boot.Registered where
  adding _ _ phase := by cases phase
  removing _ phase := by cases phase
  asserted same := by cases same
  handled _ _ handler := by cases handler
  found _ member := by cases member
  called _ member := by cases member

theorem grow (registered : state.Registered) {kernel : Kernel}
    {exits : List ChildStatus}
    (grows : ∀ process ∈ state.kernel.processes, process ∈ kernel.processes) :
    { state with kernel := kernel, exits := exits }.Registered where
  adding caller process phase :=
    (registered.adding caller process phase).imp_left (grows process)
  removing := registered.removing
  asserted := registered.asserted
  handled pid child handler :=
    (registered.handled pid child handler).imp_right
      (Or.imp_left (grows ⟨pid, child⟩))
  found := registered.found
  called := registered.called

theorem present (registered : state.Registered)
    (free : state.phase.isRemoving = false) {pid child : Nat}
    (handler : state.handler.handlers pid = some child) :
    ⟨pid, child⟩ ∈ state.kernel.processes := by
  refine (registered.handled pid child handler).2.resolve_right fun same => ?_
  rw [same] at free
  contradiction

theorem move (registered : state.Registered) {kernel : Kernel} {phase : Phase}
    (free : state.phase.isRemoving = false)
    (plain : phase = .reaping ∨ ∃ caller, phase = .running caller)
    (grows : ∀ process ∈ state.kernel.processes, process ∈ kernel.processes) :
    { state with kernel := kernel, phase := phase }.Registered where
  adding caller process same := by
    obtain rfl | ⟨_, rfl⟩ := plain <;> cases same
  removing process same := by
    obtain rfl | ⟨_, rfl⟩ := plain <;> cases same
  asserted same := by
    obtain rfl | ⟨_, rfl⟩ := plain <;> cases same
  handled pid child handler := by
    exact ⟨(registered.handled pid child handler).1,
      .inl (grows _ (registered.present free handler))⟩
  found := registered.found
  called := registered.called

theorem fork {pid : Nat} {process : Process} {kernel : Kernel} {caller : Caller}
    (registered : state.Registered) (phase : state.phase = .running caller)
    (made : state.kernel.make pid = some (process, kernel)) :
    { state with
      kernel := kernel
      phase := .adding caller process }.Registered := by
  obtain ⟨unused, rfl, -, processes, -⟩ := Kernel.make_processes made
  have free : state.phase.isRemoving = false := by
    rw [phase]
    rfl
  constructor
  · intro _ _ same
    cases same
    rw [processes]
    refine ⟨List.mem_cons_self, ?_⟩
    rw [Option.eq_none_iff_forall_ne_some]
    exact fun child handler =>
      unused (List.mem_map_of_mem (registered.present free handler))
  · intro _ same
    cases same
  · intro same
    cases same
  · intro pid child handler
    rw [processes]
    exact ⟨(registered.handled pid child handler).1,
      .inl (List.mem_cons_of_mem _ (registered.present free handler))⟩
  · exact registered.found
  · exact registered.called

theorem add {process : Process} {caller : Caller}
    (registered : state.Registered)
    (phase : state.phase = .adding caller process)
    (free : state.handler.handlers process.pid = none) :
    { state with
      handler := ⟨Function.update state.handler.handlers process.pid
        (some process.child)⟩
      phase := .running caller
      registered := process.child :: state.registered }.Registered := by
  constructor
  · intro _ _ same
    cases same
  · intro _ same
    cases same
  · intro same
    cases same
  · intro pid child handler
    change Function.update state.handler.handlers process.pid _ pid =
      some child at handler
    by_cases same : pid = process.pid
    · subst same
      rw [Function.update_self] at handler
      cases handler
      exact ⟨List.mem_cons_self, .inl (registered.adding _ _ phase).1⟩
    · rw [Function.update_of_ne same] at handler
      have free : state.phase.isRemoving = false := by
        rw [phase]
        rfl
      exact ⟨List.mem_cons_of_mem _ (registered.handled pid child handler).1,
        .inl (registered.present free handler)⟩
  · refine List.forall_mem_cons.mpr ⟨.inl ⟨process.pid,
      Function.update_self ..⟩, fun child known => ?_⟩
    refine (registered.found child known).imp_left ?_
    rintro ⟨pid, handler⟩
    refine ⟨pid, (Function.update_of_ne ?_ ..).trans handler⟩
    rintro rfl
    rw [free] at handler
    contradiction
  · exact fun call member =>
      List.mem_cons_of_mem _ (registered.called call member)

theorem eq_of_found {process : Process} {waitChild : Nat}
    (registered : state.Registered) (sound : state.kernel.Sound)
    (phase : state.phase = .reaping)
    (member : process ∈ state.kernel.processes)
    (found : state.handler.handlers process.pid = some waitChild) :
    process.child = waitChild := by
  have free : state.phase.isRemoving = false := by
    rw [phase]
    rfl
  have present := registered.present free found
  exact congrArg Process.child (sound.eq_of_pid member present rfl)

theorem remove {process : Process} (registered : state.Registered)
    (phase : state.phase = .removing process) :
    { state with
      handler := ⟨Function.update state.handler.handlers process.pid none⟩
      phase := .running .callback }.Registered := by
  obtain ⟨held, call, member, child⟩ := registered.removing process phase
  constructor
  · intro _ _ same
    cases same
  · intro _ same
    cases same
  · intro same
    cases same
  · intro pid child handler
    change Function.update state.handler.handlers process.pid _ pid =
      some child at handler
    by_cases same : pid = process.pid
    · subst same
      rw [Function.update_self] at handler
      contradiction
    · rw [Function.update_of_ne same] at handler
      obtain ⟨known, present⟩ := registered.handled pid child handler
      refine ⟨known, .inl (present.resolve_right fun removing => same ?_)⟩
      rw [phase] at removing
      cases removing
      rfl
  · intro other known
    cases registered.found other known with
    | inl handler =>
        obtain ⟨pid, handler⟩ := handler
        by_cases same : pid = process.pid
        · subst same
          rw [held] at handler
          cases handler
          exact .inr ⟨call, member, child⟩
        · exact .inl ⟨pid, (Function.update_of_ne same ..).trans handler⟩
    | inr called => exact .inr called
  · exact registered.called

theorem present_reaped {status : ChildStatus} {kernel : Kernel}
    (registered : state.Registered) (free : state.phase.isRemoving = false)
    (reaped : state.kernel.reapChild (some status) = some kernel)
    {pid child : Nat} (handler : state.handler.handlers pid = some child)
    (other : pid ≠ status.process.pid) : ⟨pid, child⟩ ∈ kernel.processes := by
  obtain ⟨-, -, same⟩ := Kernel.reapChild_some reaped
  have member := same.mem_iff.mp (registered.present free handler)
  refine (List.mem_cons.mp member).resolve_left fun this => other ?_
  rw [← this]

theorem reapOrphan {status : ChildStatus} {kernel : Kernel}
    (registered : state.Registered) (phase : state.phase = .reaping)
    (reaped : state.kernel.reapChild (some status) = some kernel)
    (missing : state.handler.handlers status.process.pid = none) :
    { state with kernel := kernel }.Registered := by
  have free : state.phase.isRemoving = false := by
    rw [phase]
    rfl
  constructor
  · intro _ _ same
    rw [phase] at same
    cases same
  · exact registered.removing
  · exact registered.asserted
  · intro pid child handler
    refine ⟨(registered.handled pid child handler).1, .inl ?_⟩
    refine registered.present_reaped free reaped handler ?_
    rintro rfl
    rw [missing] at handler
    contradiction
  · exact registered.found
  · exact registered.called

theorem reapChild {process : Process} {status : Int32} {kernel : Kernel}
    (registered : state.Registered) (phase : state.phase = .reaping)
    (reaped : state.kernel.reapChild (some ⟨process, status⟩) = some kernel)
    (found : state.handler.handlers process.pid = some process.child) :
    { state with
      kernel := kernel
      phase := .removing process
      called := ⟨process, status⟩ :: state.called }.Registered := by
  have free : state.phase.isRemoving = false := by
    rw [phase]
    rfl
  constructor
  · intro _ _ same
    cases same
  · intro _ same
    cases same
    exact ⟨found, _, List.mem_cons_self, rfl⟩
  · intro same
    cases same
  · intro pid child handler
    refine ⟨(registered.handled pid child handler).1, ?_⟩
    by_cases same : pid = process.pid
    · subst same
      cases Option.some.inj (found.symm.trans handler)
      exact .inr rfl
    · exact .inl (registered.present_reaped free reaped handler same)
  · intro child known
    refine (registered.found child known).imp_right ?_
    rintro ⟨call, member, same⟩
    exact ⟨call, List.mem_cons_of_mem _ member, same⟩
  · exact List.forall_mem_cons.mpr
      ⟨(registered.handled _ _ found).1, registered.called⟩

end Registered

structure Consistent (state : ChildState) : Prop where
  recorded : Recorded state.kernel state.exits state.called
  registered : state.Registered

theorem Consistent.step (consistent : state.Consistent)
    (step : Stepped state action after) : after.Consistent := by
  obtain ⟨recorded, registered⟩ := consistent
  have free : ∀ {phase}, state.phase = phase → phase.isRemoving = false →
      state.phase.isRemoving = false := by
    rintro _ rfl free
    exact free
  cases step with
  | exit exited =>
      obtain ⟨-, -, same, -⟩ := Kernel.exit_processes exited
      exact ⟨recorded.exit exited,
        registered.grow fun _ => same.mem_iff.mpr⟩
  | adopt made =>
      obtain ⟨-, -, -, processes, -⟩ := Kernel.make_processes made
      refine ⟨recorded.make made, registered.grow fun process member => ?_⟩
      rw [processes]
      exact List.mem_cons_of_mem _ member
  | fork phase made => exact ⟨recorded.make made, registered.fork phase made⟩
  | add phase free => exact ⟨recorded, registered.add phase free⟩
  | addAborts phase taken =>
      rw [(registered.adding _ _ phase).2] at taken
      contradiction
  | deliver phase read =>
      obtain ⟨-, rfl⟩ := Kernel.readSignal_eq read
      have sound : { state.kernel with pending := false }.Sound :=
        recorded.sound.perm (List.Perm.refl _) rfl
      exact ⟨⟨sound, recorded.zombies, recorded.places, recorded.calls,
        recorded.exitsOnce, recorded.once⟩, registered.move (free phase rfl) (.inl rfl) fun _ => id⟩
  | reapNone phase reaped =>
      obtain ⟨-, rfl⟩ := Kernel.reapChild_none reaped
      exact ⟨recorded,
        registered.move (free phase rfl) (.inr ⟨_, rfl⟩) fun _ => id⟩
  | reapOrphan phase reaped missing =>
      exact ⟨recorded.reap reaped, registered.reapOrphan phase reaped missing⟩
  | @reapChild process status kernel waitChild phase reaped found =>
      obtain ⟨-, -, same⟩ := Kernel.reapChild_some reaped
      obtain rfl := registered.eq_of_found recorded.sound phase
        (same.mem_iff.mpr List.mem_cons_self) found
      exact ⟨recorded.call reaped, registered.reapChild phase reaped found⟩
  | remove phase found => exact ⟨recorded, registered.remove phase⟩
  | removeAborts phase missing =>
      rw [(registered.removing _ phase).1] at missing
      contradiction
  | finish phase =>
      exact ⟨recorded, registered.move (free phase rfl) (.inl rfl) fun _ => id⟩
  | throw phase =>
      have free : state.phase.isRemoving = false := by
        obtain phase | ⟨_, phase⟩ := phase
        · exact free phase rfl
        · exact free phase rfl
      exact ⟨recorded, registered.move free (.inr ⟨_, rfl⟩) fun _ => id⟩

/-- Outside of the handler a child that has exited has its signal pending,
unless it is an orphan. -/
def Quiet (state : ChildState) : Prop :=
  state.phase.inHandler = false → state.kernel.pending = false →
    ∀ status ∈ state.kernel.exited,
      state.handler.handlers status.process.pid = none ∧
        ∀ caller, state.phase ≠ .adding caller status.process

theorem Quiet.step (quiet : state.Quiet) (consistent : state.Consistent)
    (step : Stepped state action after)
    (drained : action = .throw → ¬ state.LeavesBehind) : after.Quiet := by
  have sound := consistent.recorded.sound
  cases step with
  | exit exited =>
      intro _ silent
      obtain ⟨-, -, -, -, pending⟩ := Kernel.exit_processes exited
      rw [pending] at silent
      contradiction
  | adopt made =>
      obtain ⟨-, -, -, -, exited, pending⟩ := Kernel.make_processes made
      rw [Quiet, exited, pending]
      exact quiet
  | @fork pid process kernel caller phase made =>
      obtain ⟨unused, rfl, -, -, exited, pending⟩ := Kernel.make_processes made
      intro outside silent status member
      rw [exited] at member
      rw [pending] at silent
      have before : state.phase.inHandler = false := by
        rw [phase]
        cases caller with
        | outside => rfl
        | callback => contradiction
      refine ⟨(quiet before silent status member).1, fun other same => ?_⟩
      have process := (Phase.adding.inj same).2
      refine unused (List.mem_map.mpr
        ⟨status.process, Kernel.mem_processes_of_exited member, ?_⟩)
      rw [← process]
  | @add process caller phase free =>
      intro outside silent status member
      have before : state.phase.inHandler = false := by
        rw [phase]
        cases caller with
        | outside => rfl
        | callback => contradiction
      obtain ⟨missing, notAdding⟩ := quiet before silent status member
      refine ⟨(Function.update_of_ne (fun same => ?_) ..).trans missing,
        fun other same => by cases same⟩
      have present := (consistent.registered.adding _ _ phase).1
      obtain rfl := sound.eq_of_pid
        (Kernel.mem_processes_of_exited member) present same
      exact notAdding caller phase
  | addAborts phase taken =>
      rw [(consistent.registered.adding _ _ phase).2] at taken
      contradiction
  | deliver phase read => exact fun outside => by contradiction
  | reapNone phase reaped =>
      obtain ⟨empty, rfl⟩ := Kernel.reapChild_none reaped
      intro _ _ status member
      rw [empty] at member
      contradiction
  | reapOrphan phase reaped missing =>
      intro outside
      rw [phase] at outside
      contradiction
  | reapChild phase reaped found => exact fun outside => by contradiction
  | remove phase found => exact fun outside => by contradiction
  | removeAborts phase missing =>
      rw [(consistent.registered.removing _ phase).1] at missing
      contradiction
  | finish phase => exact fun outside => by contradiction
  | throw phase =>
      intro _ silent status member
      refine ⟨Option.eq_none_iff_forall_ne_some.mpr fun child found => ?_,
        fun other same => by cases same⟩
      exact drained rfl ⟨silent, status, member,
        Option.isSome_iff_exists.mpr ⟨child, found⟩⟩

theorem Consistent.delivers (consistent : state.Consistent)
    (quiet : state.Quiet) : state.Delivers where
  once := consistent.recorded.once
  afterExit call member :=
    ⟨(consistent.recorded.calls call member).1,
      consistent.registered.called call member⟩
  asserted := consistent.registered.asserted
  drained outside silent exit logged known := by
    obtain ⟨recorded, registered⟩ := consistent
    cases registered.found _ known with
    | inl found =>
        obtain ⟨pid, handler⟩ := found
        have free : state.phase.isRemoving = false := by
          cases phase : state.phase with
          | removing process =>
              rw [phase] at outside
              contradiction
          | _ => rfl
        have present := registered.present free handler
        cases (recorded.places exit logged).2 with
        | inl zombie =>
            have same := recorded.sound.eq_of_child
              (Kernel.mem_processes_of_exited zombie) present rfl
            have missing := (quiet outside silent exit zombie).1
            rw [same, handler] at missing
            contradiction
        | inr missing => exact absurd (List.mem_map_of_mem present) missing
    | inr called =>
        obtain ⟨call, member, child⟩ := called
        have same := List.inj_on_of_nodup_map recorded.exitsOnce
          (recorded.calls call member).1 logged child
        rwa [← same]

theorem Consistent.not_delivers (consistent : state.Consistent)
    (left : state.LeavesBehind) (outside : state.phase = .running .outside) :
    ¬ state.Delivers := by
  obtain ⟨recorded, registered⟩ := consistent
  obtain ⟨silent, status, zombie, found⟩ := left
  obtain ⟨child, handler⟩ := Option.isSome_iff_exists.mp found
  have free : state.phase.isRemoving = false := by
    rw [outside]
    rfl
  have member := Kernel.mem_processes_of_exited zombie
  have same := recorded.sound.eq_of_pid member
    (registered.present free handler) rfl
  have known := (registered.handled _ _ handler).1
  intro delivers
  have called := delivers.drained (by rw [outside]; rfl) silent status
    (recorded.zombies status zombie) (by rwa [same])
  exact (recorded.calls status called).2 (List.mem_map_of_mem member)

theorem consistent_run {actions : List Action}
    (ran : run actions = some state) : state.Consistent :=
  StepSystem.run_invariant Consistent ⟨.boot, .boot⟩
    (fun _ _ _ _ _ _ consistent moved => consistent.step (stepped moved))
    (List.prefix_refl actions) ran

/-- In each run the exits are delivered in all states exactly if no callback
throws while another registered child has exited and the signal is read. -/
theorem exits_delivered_iff (actions : List Action) :
    (∀ earlier state, earlier <+: actions → run earlier = some state →
      state.Delivers) ↔
      ∀ earlier before after, earlier ++ [.throw] <+: actions →
        run earlier = some before → before.throw = some after →
          ¬ before.LeavesBehind := by
  constructor
  · intro delivered earlier before after within ran thrown left
    have ran' : run (earlier ++ [.throw]) = some after := by
      have ran' := StepSystem.run_concat next earlier .throw boot
      rw [show StepSystem.run next earlier boot = _ from ran] at ran'
      exact ran'.trans thrown
    have consistent := consistent_run ran'
    have step : Stepped before .throw after := stepped thrown
    cases step with
    | throw phase =>
        exact consistent.not_delivers left rfl (delivered _ _ within ran')
  · intro drained earlier state within ran
    have quiet : state.Consistent ∧ state.Quiet := by
      refine StepSystem.run_invariant (fun state => state.Consistent ∧
        state.Quiet) ⟨⟨.boot, .boot⟩, fun _ _ _ member => by cases member⟩
        ?_ within ran
      intro earlier action before after within ran holds moved
      have step := stepped moved
      refine ⟨holds.1.step step, holds.2.step holds.1 step ?_⟩
      rintro rfl
      exact drained earlier before after within ran moved
    exact quiet.1.delivers quiet.2

/-- Two children exit for one signal, and the callback of the first throws. -/
def forkFailure : List Action :=
  [.fork 2, .add, .fork 3, .add, .exit ⟨2, 0⟩ 0, .exit ⟨3, 1⟩ 0, .deliver,
    .reap (some ⟨⟨2, 0⟩, 0⟩), .remove, .throw]

theorem exits_delivered_forkFailure :
    ∃ state, run forkFailure = some state ∧
      state.phase = .running .outside ∧ state.kernel.pending = false ∧
      state.registered = [1, 0] ∧ state.exits = [⟨⟨3, 1⟩, 0⟩, ⟨⟨2, 0⟩, 0⟩] ∧
      state.called = [⟨⟨2, 0⟩, 0⟩] ∧ ¬ state.Delivers := by
  refine ⟨_, rfl, rfl, rfl, rfl, rfl, rfl, fun delivers => ?_⟩
  have called := delivers.drained rfl rfl ⟨⟨3, 1⟩, 0⟩ List.mem_cons_self
    List.mem_cons_self
  revert called
  decide

end ChildState

end Initd.Sysapi
