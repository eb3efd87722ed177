import Mathlib.Init

namespace Initd.Library

universe u

/-! Programs that keep a journal: their state is a list that they only append
to and never look at. -/

variable {Entry Fault : Type u}

/-- What a program returns and what it appends, whatever the journal has. -/
def Writes {Value : Type u} (program : StateT (List Entry) (Except Fault) Value)
    (value : Value) (entries : List Entry) : Prop :=
  ∀ journal, program journal = .ok (value, journal ++ entries)

def reported {Value : Type u}
    (program : StateT (List Entry) (Except Fault) Value) : List Entry :=
  match program [] with
  | .ok (_, entries) => entries
  | .error _ => []

namespace Writes

variable {Value Result : Type u}
  {program : StateT (List Entry) (Except Fault) Value} {value : Value}
  {entries more : List Entry}
  {next : Value → StateT (List Entry) (Except Fault) Result} {result : Result}

theorem pure (value : Value) :
    Writes (Pure.pure value : StateT (List Entry) (Except Fault) Value) value
      [] := by
  intro journal
  rw [List.append_nil]
  rfl

theorem lift {action : Except Fault Value} (returned : action = .ok value) :
    Writes (liftM action : StateT (List Entry) (Except Fault) Value) value
      [] := by
  intro journal
  rw [List.append_nil, returned]
  rfl

theorem bind (first : Writes program value entries)
    (later : Writes (next value) result more) :
    Writes (program >>= next) result (entries ++ more) := by
  intro journal
  calc (program >>= next) journal
      = (program journal >>= fun pair => next pair.1 pair.2) := rfl
    _ = next value (journal ++ entries) := by rw [first]; rfl
    _ = .ok (result, journal ++ (entries ++ more)) := by
        rw [later, List.append_assoc]

theorem silent_bind (first : Writes program value [])
    (later : Writes (next value) result more) :
    Writes (program >>= next) result more :=
  first.bind later

theorem bind_pure (first : Writes program value entries)
    (result : Value → Result) :
    Writes (program >>= fun value => Pure.pure (result value)) (result value)
      entries := by
  rw [← List.append_nil entries]
  exact first.bind (Writes.pure (result value))

/-- A loop whose rounds append what goes by the item alone. -/
theorem foldlM {Item : Type u}
    {body : Value → Item → StateT (List Entry) (Except Fault) Value}
    {step : Value → Item → Value} {entriesOf : Item → List Entry}
    {inv : Value → Prop} {items : List Item}
    (each : ∀ item ∈ items, ∀ value, inv value →
      Writes (body value item) (step value item) (entriesOf item) ∧
        inv (step value item)) {value : Value} (start : inv value) :
    Writes (items.foldlM body value) (items.foldl step value)
        (items.flatMap entriesOf) ∧
      inv (items.foldl step value) := by
  induction items generalizing value with
  | nil => exact ⟨.pure value, start⟩
  | cons item rest induction =>
      obtain ⟨here, later⟩ := List.forall_mem_cons.mp each
      obtain ⟨first, kept⟩ := here value start
      obtain ⟨others, last⟩ := induction later kept
      rw [List.foldlM_cons, List.foldl_cons, List.flatMap_cons]
      exact ⟨first.bind others, last⟩

theorem unique {value' : Value} {entries' : List Entry}
    (first : Writes program value entries)
    (second : Writes program value' entries') :
    value = value' ∧ entries = entries' := by
  have same := (first []).symm.trans (second [])
  obtain ⟨values, journals⟩ := Prod.mk.inj (Except.ok.inj same)
  exact ⟨values, by simpa using journals⟩

theorem reported (writes : Writes program value entries) :
    reported program = entries := by
  rw [Library.reported, writes]
  rfl

end Writes

/-- The program returns, its entries are admissible, and the value is right
where there are none. -/
def Faithful {Value : Type u} (admissible : Entry → Prop)
    (program : StateT (List Entry) (Except Fault) Value)
    (holds : Value → Prop) : Prop :=
  ∃ value entries, Writes program value entries ∧
    (∀ entry ∈ entries, admissible entry) ∧ (entries = [] → holds value)

namespace Faithful

variable {Value Result : Type u} {admissible : Entry → Prop}
  {program : StateT (List Entry) (Except Fault) Value} {holds : Value → Prop}
  {next : Value → StateT (List Entry) (Except Fault) Result}
  {last : Result → Prop}

theorem pure {value : Value} (here : holds value) :
    Faithful admissible
      (Pure.pure value : StateT (List Entry) (Except Fault) Value) holds :=
  ⟨value, [], .pure value, List.forall_mem_nil _, fun _ => here⟩

theorem mono {weaker : Value → Prop}
    (faithful : Faithful admissible program holds)
    (weaken : ∀ value, holds value → weaker value) :
    Faithful admissible program weaker := by
  obtain ⟨value, entries, writes, among, right⟩ := faithful
  exact ⟨value, entries, writes, among, fun silent => weaken value (right silent)⟩

theorem bind (first : Faithful admissible program holds)
    (later : ∀ value, Faithful admissible (next value) fun result =>
      holds value → last result) :
    Faithful admissible (program >>= next) last := by
  obtain ⟨value, entries, writes, among, right⟩ := first
  obtain ⟨result, more, followed, others, ends⟩ := later value
  refine ⟨result, entries ++ more, writes.bind followed,
    List.forall_mem_append.mpr ⟨among, others⟩, fun silent => ?_⟩
  obtain ⟨none, nothing⟩ := List.append_eq_nil_iff.mp silent
  exact ends nothing (right none)

theorem writes_bind {value : Value} {entries : List Entry}
    (first : Writes program value entries)
    (among : ∀ entry ∈ entries, admissible entry)
    (later : Faithful admissible (next value) last) :
    Faithful admissible (program >>= next) last := by
  obtain ⟨result, more, followed, others, ends⟩ := later
  exact ⟨result, entries ++ more, first.bind followed,
    List.forall_mem_append.mpr ⟨among, others⟩,
    fun silent => ends (List.append_eq_nil_iff.mp silent).2⟩

/-- What the first program appends has a say in whether the value is right. -/
theorem reported_bind {value : Value} {entries : List Entry}
    (first : Writes program value entries)
    (among : ∀ entry ∈ entries, admissible entry)
    (later : Faithful admissible (next value) fun result =>
      entries = [] → last result) :
    Faithful admissible (program >>= next) last := by
  obtain ⟨result, more, followed, others, ends⟩ := later
  refine ⟨result, entries ++ more, first.bind followed,
    List.forall_mem_append.mpr ⟨among, others⟩, fun silent => ?_⟩
  obtain ⟨none, nothing⟩ := List.append_eq_nil_iff.mp silent
  exact ends nothing none

theorem entry_bind {value : Value} {entry : Entry}
    (first : Writes program value [entry]) (here : admissible entry)
    (later : Faithful admissible (next value) fun _ => True) :
    Faithful admissible (program >>= next) last := by
  obtain ⟨result, more, followed, others, -⟩ := later
  refine ⟨result, _, first.bind followed,
    List.forall_mem_cons.mpr ⟨here, others⟩, fun silent => ?_⟩
  exact absurd silent (List.cons_ne_nil _ _)

theorem lift_bind {action : Except Fault Value} {value : Value}
    (returned : action = .ok value)
    (later : Faithful admissible (next value) last) :
    Faithful admissible (liftM action >>= next) last :=
  writes_bind (.lift returned) (List.forall_mem_nil _) later

end Faithful

end Initd.Library
