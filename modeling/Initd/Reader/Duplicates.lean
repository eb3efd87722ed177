import Initd.Reader.Reports

namespace Initd.Reader

open Library

/-! Which elements `report_duplicates` reports. -/

variable {Value : Type} {map group rest : Multimap Bytes Value} {key : Bytes}

/-- The elements that share their key with another one. -/
def duplicated (map : Multimap Bytes Value) : Multimap Bytes Value :=
  map.filter fun element => 2 ≤ map.keys.count element.1

/-- The elements for which `f` is called, in the order of the calls. -/
def reportedElements : Bool → Multimap Bytes Value → Multimap Bytes Value
  | lastReported, previous :: element :: rest =>
      if previous.1 = element.1 then
        (if lastReported then [] else [previous]) ++
          element :: reportedElements true (element :: rest)
      else
        reportedElements lastReported (element :: rest)
  | _, _ => []

theorem reportDuplicates_eq (f : Value → ReadM PUnit) :
    ∀ (lastReported : Bool) (map : Multimap Bytes Value),
      reportDuplicates f lastReported map =
        forM (reportedElements lastReported map) fun element => f element.2
  | _, [] => rfl
  | _, [_] => rfl
  | lastReported, previous :: element :: rest => by
      rw [reportDuplicates, reportedElements]
      split
      · rw [List.forM_append, List.forM_cons, reportDuplicates_eq f true]
        cases lastReported with
        | true => rfl
        | false => simp
      · exact reportDuplicates_eq f lastReported (element :: rest)

/-! One group of elements with one key after another. -/

theorem reported_fresh (lastReported : Bool) {element : Bytes × Value}
    (fresh : ∀ other ∈ rest, other.1 ≠ element.1) :
    reportedElements lastReported (element :: rest) =
      reportedElements lastReported rest := by
  cases rest with
  | nil => rfl
  | cons next rest =>
      rw [reportedElements,
        if_neg fun same => fresh next List.mem_cons_self same.symm]

theorem reported_group_true (nonempty : group ≠ [])
    (same : ∀ element ∈ group, element.1 = key)
    (fresh : ∀ element ∈ rest, element.1 ≠ key) :
    reportedElements true (group ++ rest) =
      group.tail ++ reportedElements true rest := by
  induction group with
  | nil => exact absurd rfl nonempty
  | cons first group induction =>
      obtain ⟨here, later⟩ := List.forall_mem_cons.mp same
      cases group with
      | nil => exact reported_fresh true fun other member => here ▸ fresh other member
      | cons next group =>
          have joins : first.1 = next.1 :=
            here.trans (later next List.mem_cons_self).symm
          rw [List.cons_append, List.cons_append, reportedElements, if_pos joins,
            ← List.cons_append, induction (List.cons_ne_nil _ _) later]
          rfl

theorem reported_group_false (same : ∀ element ∈ group, element.1 = key)
    (fresh : ∀ element ∈ rest, element.1 ≠ key) (several : 2 ≤ group.length) :
    reportedElements false (group ++ rest) =
      group ++ reportedElements true rest := by
  match group, several with
  | first :: next :: group, _ =>
      obtain ⟨here, later⟩ := List.forall_mem_cons.mp same
      have joins : first.1 = next.1 :=
        here.trans (later next List.mem_cons_self).symm
      have others := reported_group_true (List.cons_ne_nil _ _) later fresh
      rw [List.cons_append] at others
      rw [List.cons_append, List.cons_append, reportedElements, if_pos joins,
        others]
      rfl

theorem count_group (same : ∀ element ∈ group, element.1 = key)
    (fresh : ∀ element ∈ rest, element.1 ≠ key) :
    (Multimap.keys (group ++ rest)).count key = group.length := by
  have all : ∀ other ∈ group.map Prod.fst, key = other := by
    intro other member
    obtain ⟨element, inside, rfl⟩ := List.mem_map.mp member
    exact (same element inside).symm
  have none : key ∉ rest.map Prod.fst := by
    intro member
    obtain ⟨element, inside, equal⟩ := List.mem_map.mp member
    exact fresh element inside equal
  rw [Multimap.keys, List.map_append, List.count_append,
    List.count_eq_length.mpr all, List.count_eq_zero_of_not_mem none,
    List.length_map, Nat.add_zero]

theorem count_rest (same : ∀ element ∈ group, element.1 = key) {other : Bytes}
    (different : other ≠ key) :
    (Multimap.keys (group ++ rest)).count other =
      (Multimap.keys rest).count other := by
  have none : other ∉ group.map Prod.fst := by
    intro member
    obtain ⟨element, inside, equal⟩ := List.mem_map.mp member
    exact different (equal.symm.trans (same element inside))
  rw [Multimap.keys, List.map_append, List.count_append,
    List.count_eq_zero_of_not_mem none, Nat.zero_add]
  rfl

theorem duplicated_group (same : ∀ element ∈ group, element.1 = key)
    (fresh : ∀ element ∈ rest, element.1 ≠ key) :
    duplicated (group ++ rest) =
      (if 2 ≤ group.length then group else []) ++ duplicated rest := by
  have inGroup : ∀ element ∈ group,
      (Multimap.keys (group ++ rest)).count element.1 = group.length := by
    intro element member
    rw [same element member]
    exact count_group same fresh
  have inRest : ∀ element ∈ rest,
      (Multimap.keys (group ++ rest)).count element.1 =
        (Multimap.keys rest).count element.1 :=
    fun element member => count_rest same (fresh element member)
  rw [duplicated, List.filter_append, duplicated]
  congr 1
  · split
    · next several =>
        refine List.filter_eq_self.mpr fun element member => ?_
        rw [inGroup element member]
        exact decide_eq_true several
    · next single =>
        refine List.filter_eq_nil_iff.mpr fun element member => ?_
        rw [inGroup element member]
        simpa using single
  · refine List.filter_congr fun element member => ?_
    rw [inRest element member]

/-! Once an element is reported, each further group lacks its first element. -/

theorem reported_true_shorter (grouped : map.Grouped) :
    duplicated map = [] ∧ reportedElements true map = [] ∨
      (reportedElements true map).length < (duplicated map).length := by
  induction grouped with
  | nil => exact .inl ⟨rfl, rfl⟩
  | @group key group rest nonempty same fresh later induction =>
      rw [duplicated_group same fresh, reported_group_true nonempty same fresh]
      have some := List.length_pos_iff.mpr nonempty
      split
      · right
        simp only [List.length_append, List.length_tail]
        obtain ⟨none, none'⟩ | shorter := induction
        · rw [none, none']
          simp only [List.length_nil]
          omega
        · omega
      · next single =>
          have alone : group.tail = [] := by
            rw [← List.length_eq_zero_iff, List.length_tail]
            omega
          rw [alone]
          exact induction

/-- At most one key has several elements. -/
def OneDuplicated (map : Multimap Bytes Value) : Prop :=
  ∀ first ∈ duplicated map, ∀ second ∈ duplicated map, first.1 = second.1

theorem oneDuplicated_group (same : ∀ element ∈ group, element.1 = key)
    (fresh : ∀ element ∈ rest, element.1 ≠ key) (several : 2 ≤ group.length) :
    OneDuplicated (group ++ rest) ↔ duplicated rest = [] := by
  rw [OneDuplicated, duplicated_group same fresh, if_pos several]
  constructor
  · intro one
    refine List.eq_nil_iff_forall_not_mem.mpr fun element member => ?_
    obtain ⟨first, more, rfl⟩ := List.exists_cons_of_length_pos
      (Nat.lt_of_lt_of_le Nat.zero_lt_two several)
    have equal := one element (List.mem_append_right _ member) first
      (List.mem_append_left _ List.mem_cons_self)
    exact fresh element (List.mem_of_mem_filter member)
      (equal.trans (same first List.mem_cons_self))
  · intro none first inside second inside'
    rw [none, List.append_nil] at inside inside'
    exact (same first inside).trans (same second inside').symm

theorem group_of_single (nonempty : group ≠ []) (single : ¬ 2 ≤ group.length) :
    ∃ element, group = [element] :=
  List.length_eq_one_iff.mp (by
    have some := List.length_pos_iff.mpr nonempty
    omega)

theorem duplicated_single {element : Bytes × Value}
    (fresh : ∀ other ∈ rest, other.1 ≠ element.1) :
    duplicated ([element] ++ rest) = duplicated rest :=
  duplicated_group (List.forall_mem_singleton.mpr rfl) fresh

theorem reported_of_one (grouped : map.Grouped) (one : OneDuplicated map) :
    reportedElements false map = duplicated map := by
  induction grouped with
  | nil => rfl
  | @group key group rest nonempty same fresh later induction =>
      by_cases several : 2 ≤ group.length
      · have none := (oneDuplicated_group same fresh several).mp one
        rw [reported_group_false same fresh several,
          duplicated_group same fresh, if_pos several, none]
        obtain ⟨-, nothing⟩ | shorter := reported_true_shorter later
        · rw [nothing]
        · rw [none] at shorter
          exact absurd shorter (Nat.not_lt_zero _)
      · obtain ⟨element, rfl⟩ := group_of_single nonempty several
        obtain rfl := same element List.mem_cons_self
        rw [OneDuplicated, duplicated_single fresh] at one
        rw [duplicated_single fresh, ← induction one]
        exact reported_fresh false fresh

theorem one_of_reported (grouped : map.Grouped)
    (full : (duplicated map).length ≤ (reportedElements false map).length) :
    OneDuplicated map := by
  induction grouped with
  | nil => exact List.forall_mem_nil _
  | @group key group rest nonempty same fresh later induction =>
      by_cases several : 2 ≤ group.length
      · refine (oneDuplicated_group same fresh several).mpr ?_
        rw [reported_group_false same fresh several,
          duplicated_group same fresh, if_pos several, List.length_append,
          List.length_append] at full
        obtain ⟨none, -⟩ | shorter := reported_true_shorter later
        · exact none
        · omega
      · obtain ⟨element, rfl⟩ := group_of_single nonempty several
        obtain rfl := same element List.mem_cons_self
        rw [OneDuplicated, duplicated_single fresh]
        rw [duplicated_single fresh, List.singleton_append,
          reported_fresh false fresh] at full
        exact induction full

theorem forM_push_writes (range : TextRange) (message : Bytes) :
    ∀ elements : Multimap Bytes Value,
      Writes (forM elements fun _ => push range message) ⟨⟩
        (elements.map fun _ => ⟨range, message⟩)
  | [] => .pure _
  | _ :: rest => by
      rw [List.forM_cons]
      exact (push_writes range message).bind (forM_push_writes range message rest)

/-- As many calls as there are elements to report. -/
theorem reported_full
    (exact : ∀ f : Value → ReadM PUnit, reportDuplicates f false map =
      forM (duplicated map) fun element => f element.2) :
    (duplicated map).length ≤ (reportedElements false map).length := by
  have same := exact fun _ => push ⟨0, 0⟩ []
  rw [reportDuplicates_eq] at same
  have writes := forM_push_writes ⟨0, 0⟩ [] (reportedElements false map)
  rw [same] at writes
  have lengths := congrArg List.length
    (writes.unique (forM_push_writes ⟨0, 0⟩ [] (duplicated map))).2
  rw [List.length_map, List.length_map] at lengths
  exact Nat.le_of_eq lengths.symm

/-- Exactly the elements that share their key are reported, each once and in
order, exactly if at most one key has several elements. -/
theorem reportDuplicates_iff (ordered : map.Ordered) :
    (∀ f : Value → ReadM PUnit, reportDuplicates f false map =
      forM (duplicated map) fun element => f element.2) ↔
      OneDuplicated map := by
  have grouped := ordered.grouped
  constructor
  · exact fun exact => one_of_reported grouped (reported_full exact)
  · intro one f
    rw [reportDuplicates_eq, reported_of_one grouped one]

theorem reportDuplicates_one :
    ∃ map : Multimap Bytes Nat,
      map = [(ascii "a", 0), (ascii "b", 1), (ascii "b", 2), (ascii "c", 3)] ∧
      duplicated map = [(ascii "b", 1), (ascii "b", 2)] ∧
      ∀ f : Nat → ReadM PUnit, reportDuplicates f false map =
        forM (duplicated map) fun element => f element.2 := by
  refine ⟨_, rfl, by decide, (reportDuplicates_iff ?_).mpr ?_⟩
  · unfold Multimap.Ordered
    decide
  · unfold OneDuplicated
    decide

/-- With two tasks of each of two names the first one of the second name is not
reported. -/
theorem reportDuplicates_two :
    ∃ map : Multimap Bytes Nat, map.Ordered ∧
      map = [(ascii "a", 0), (ascii "a", 1), (ascii "b", 2), (ascii "b", 3)] ∧
      reportedElements false map =
        [(ascii "a", 0), (ascii "a", 1), (ascii "b", 3)] ∧
      ¬ ∀ f : Nat → ReadM PUnit, reportDuplicates f false map =
        forM (duplicated map) fun element => f element.2 := by
  refine ⟨_, ?_, rfl, by decide, fun exact => ?_⟩
  · unfold Multimap.Ordered
    decide
  · have full := reported_full exact
    revert full
    decide

end Initd.Reader
