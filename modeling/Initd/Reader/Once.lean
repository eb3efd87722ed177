import Mathlib.Data.List.Nodup
import Initd.Reader.Duplicates
import Initd.Reader.Faithful

namespace Initd.Reader

open Library

/-! No duplicates are reported exactly if no name is used twice. -/

/-- No two of the nodes have the same name. -/
def NamedOnce {Node : Type} (name : Node → Option IdentifierToken)
    (nodes : List Node) : Prop :=
  (nodes.map fun node => nameText (name node)).Nodup

section Reported

variable {Value : Type} {map : Multimap Bytes Value}

theorem reported_eq_nil_iff (grouped : map.Grouped) :
    reportedElements false map = [] ↔ map.keys.Nodup := by
  induction grouped with
  | nil => exact iff_of_true rfl List.nodup_nil
  | @group key group rest nonempty same fresh later induction =>
      by_cases several : 2 ≤ group.length
      · rw [reported_group_false same fresh several]
        refine iff_of_false (fun none => ?_) fun unique => ?_
        · exact nonempty (List.append_eq_nil_iff.mp none).1
        · have once := List.nodup_iff_count_le_one.mp unique key
          rw [count_group same fresh] at once
          omega
      · obtain ⟨element, rfl⟩ := group_of_single nonempty several
        obtain rfl := same element List.mem_cons_self
        have absent : element.1 ∉ Multimap.keys rest := by
          intro inside
          obtain ⟨other, member, equal⟩ := List.mem_map.mp inside
          exact fresh other member equal
        rw [List.singleton_append, reported_fresh false fresh, induction]
        exact (List.nodup_cons.trans (and_iff_right absent)).symm

theorem mem_of_reported {element : Bytes × Value} :
    ∀ {lastReported : Bool} {map : Multimap Bytes Value},
      element ∈ reportedElements lastReported map → element ∈ map
  | _, [], inside => inside
  | _, [_], inside => by
      rw [reportedElements] at inside
      · contradiction
      · simp
  | lastReported, previous :: next :: rest, inside => by
      rw [reportedElements] at inside
      split at inside
      · rcases List.mem_append.mp inside with first | later
        · cases lastReported with
          | true => contradiction
          | false => exact List.mem_singleton.mp first ▸ List.mem_cons_self
        · cases List.mem_cons.mp later with
          | inl same => simp [same]
          | inr more => exact List.mem_cons_of_mem _ (mem_of_reported more)
      · exact List.mem_cons_of_mem _ (mem_of_reported inside)

/-- One entry for each element. -/
theorem forM_writes (f : Value → ReadM PUnit) {elements : Multimap Bytes Value}
    (each : ∀ element ∈ elements, ∃ error,
      Writes (f element.2) ⟨⟩ [error]) :
    ∃ errors, Writes (forM elements fun element => f element.2) ⟨⟩ errors ∧
      errors.length = elements.length := by
  induction elements with
  | nil => exact ⟨[], .pure _, rfl⟩
  | cons element rest induction =>
      obtain ⟨⟨error, here⟩, later⟩ := List.forall_mem_cons.mp each
      obtain ⟨errors, writes, many⟩ := induction later
      rw [List.forM_cons]
      exact ⟨error :: errors, here.bind writes, congrArg Nat.succ many⟩

end Reported

section Nodes

variable {Node : Type} {name : Node → Option IdentifierToken}
  {nodes : List Node} {map : Multimap Bytes Node}

theorem names_perm (indexed : IndexedBy name nodes map) :
    (map.keys.map some).Perm (nodes.map fun node => nameText (name node)) := by
  have texts : map.keys.map some =
      (map.map Prod.snd).map fun node => nameText (name node) := by
    rw [Multimap.keys, List.map_map, List.map_map]
    exact List.map_congr_left fun element member =>
      (indexed.key element member).symm
  rw [texts]
  exact indexed.perm.map _

theorem keys_nodup_iff (indexed : IndexedBy name nodes map) :
    map.keys.Nodup ↔ NamedOnce name nodes := by
  rw [NamedOnce, ← (names_perm indexed).nodup_iff,
    List.nodup_map_iff fun _ _ => Option.some.inj]

theorem duplicates_silent_iff {known : TextRange → Prop} {message : Bytes}
    (placed : ∀ node ∈ nodes, KnownToken known IdentifierToken.range (name node))
    (indexed : IndexedBy name nodes map) {errors : List ErrorTag}
    (writes : Writes (reportDuplicates (fun node => do
      push (← deref (name node)).range message) false map) ⟨⟩ errors) :
    errors = [] ↔ NamedOnce name nodes := by
  rw [← keys_nodup_iff indexed, ← reported_eq_nil_iff indexed.ordered.grouped]
  have each : ∀ element ∈ reportedElements false map, ∃ error : ErrorTag,
      Writes (do push (← deref (name element.2)).range message : ReadM PUnit)
        ⟨⟩ [error] := by
    intro element reported
    obtain ⟨token, found, -⟩ :=
      placed _ (indexed.mem (mem_of_reported reported))
    rw [found]
    exact ⟨_, (Writes.lift rfl).silent_bind (push_writes token.range message)⟩
  rw [reportDuplicates_eq] at writes
  obtain ⟨errors', writes', many⟩ := forM_writes
    (fun node => do push (← deref (name node)).range message) each
  obtain ⟨-, rfl⟩ := writes.unique writes'
  rw [← List.length_eq_zero_iff, many, List.length_eq_zero_iff]

/-- The reports of the nodes that share a name, of which there are none exactly
if no name is used twice. -/
theorem duplicates_reports {known : TextRange → Prop} (message : Bytes)
    (placed : ∀ node ∈ nodes, KnownToken known IdentifierToken.range (name node))
    (indexed : IndexedBy name nodes map) :
    ∃ errors,
      Writes (reportDuplicates (fun node => do
        push (← deref (name node)).range message) false map) ⟨⟩ errors ∧
      (∀ error ∈ errors, error.message = message ∧ known error.range) ∧
      (errors = [] ↔ NamedOnce name nodes) := by
  obtain ⟨errors, writes, among⟩ := duplicates_writes message placed indexed
  exact ⟨errors, writes, among, duplicates_silent_iff placed indexed writes⟩

end Nodes

end Initd.Reader
