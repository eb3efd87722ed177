import Mathlib.Init

namespace Initd.Library

universe u v

variable {Key : Type u} {Value : Type v}

/-- The elements of a `std::multimap` in its order. -/
abbrev Multimap (Key : Type u) (Value : Type v) := List (Key × Value)

namespace Multimap

/-- An element goes after those whose keys are not greater than its own. -/
def insert [LT Key] [DecidableLT Key] (element : Key × Value) :
    Multimap Key Value → Multimap Key Value
  | [] => [element]
  | first :: rest =>
      if element.1 < first.1 then
        element :: first :: rest
      else
        first :: insert element rest

def find [DecidableEq Key] (key : Key) (map : Multimap Key Value) :
    Option (Key × Value) :=
  List.find? (fun element => element.1 = key) map

theorem mem_insert [LT Key] [DecidableLT Key] {element other : Key × Value}
    {map : Multimap Key Value} :
    other ∈ insert element map ↔ other = element ∨ other ∈ map := by
  induction map with
  | nil => simp [insert]
  | cons first rest induction =>
      rw [insert]
      split
      · rw [List.mem_cons]
      · rw [List.mem_cons, induction, List.mem_cons, or_left_comm]

theorem find_mem [DecidableEq Key] {key : Key} {map : Multimap Key Value}
    {element : Key × Value} (found : find key map = some element) :
    element ∈ map :=
  List.mem_of_find?_eq_some found

def keys (map : Multimap Key Value) : List Key := map.map Prod.fst

theorem find_eq_none_iff [DecidableEq Key] {key : Key} {map : Multimap Key Value} :
    map.find key = none ↔ key ∉ map.keys := by
  rw [find, List.find?_eq_none, keys, List.mem_map]
  constructor
  · rintro absent ⟨element, member, same⟩
    exact absent element member (decide_eq_true same)
  · intro absent element member same
    exact absent ⟨element, member, of_decide_eq_true same⟩

theorem find_of_mem [DecidableEq Key] {map : Multimap Key Value}
    (unique : map.keys.Nodup) {element : Key × Value} (member : element ∈ map) :
    map.find element.1 = some element := by
  induction map with
  | nil => contradiction
  | cons first rest induction =>
      obtain ⟨fresh, later⟩ := List.nodup_cons.mp unique
      rw [find, List.find?_cons]
      cases List.mem_cons.mp member with
      | inl same => simp [same]
      | inr inside =>
          have other : first.1 ≠ element.1 := fun same =>
            fresh (same ▸ List.mem_map_of_mem inside)
          rw [decide_eq_false other]
          exact induction later inside

theorem insert_perm [LT Key] [DecidableLT Key] (element : Key × Value)
    (map : Multimap Key Value) : (insert element map).Perm (element :: map) := by
  induction map with
  | nil => exact .refl _
  | cons first rest induction =>
      rw [insert]
      split
      · exact .refl _
      · exact (induction.cons first).trans (.swap element first rest)

def Ordered [LT Key] (map : Multimap Key Value) : Prop :=
  map.Pairwise fun first second => ¬ second.1 < first.1

section Order

variable [LT Key] [DecidableLT Key]
  [Std.Asymm fun first second : Key => first < second]
  {element : Key × Value} {map : Multimap Key Value}

theorem Ordered.insert
    [Trans (fun first second : Key => first < second)
      (fun first second => first < second) fun first second => first < second]
    (ordered : map.Ordered) : (insert element map).Ordered := by
  induction map with
  | nil => exact List.pairwise_singleton _ _
  | cons first rest induction =>
      obtain ⟨least, later⟩ := List.pairwise_cons.mp ordered
      rw [Multimap.insert]
      split
      · next before =>
          refine List.pairwise_cons.mpr ⟨fun other member below => ?_, ordered⟩
          cases List.mem_cons.mp member with
          | inl same =>
              rw [same] at below
              exact Std.Asymm.asymm _ _ before below
          | inr inside => exact least other inside (Trans.trans below before)
      · next after =>
          refine List.pairwise_cons.mpr ⟨fun other member => ?_, induction later⟩
          cases mem_insert.mp member with
          | inl new => exact new ▸ after
          | inr old => exact least other old

variable [DecidableEq Key]

/-- Among equal keys an element is the last. -/
theorem filter_insert (ordered : map.Ordered) (key : Key) :
    (insert element map).filter (·.1 = key) =
      map.filter (·.1 = key) ++ [element].filter (·.1 = key) := by
  induction map with
  | nil => rfl
  | cons first rest induction =>
      obtain ⟨least, later⟩ := List.pairwise_cons.mp ordered
      rw [insert]
      split
      · next before =>
          by_cases same : element.1 = key
          · have none : (first :: rest).filter (·.1 = key) = [] := by
              refine List.filter_eq_nil_iff.mpr fun other member equal => ?_
              have below : other.1 < first.1 := by
                rwa [of_decide_eq_true equal, ← same]
              cases List.mem_cons.mp member with
              | inl same =>
                  rw [same] at below
                  exact Std.Asymm.asymm _ _ below below
              | inr inside => exact least other inside below
            simp [same, none]
          · simp [same]
      · rw [List.filter_cons, List.filter_cons, induction later]
        split <;> rfl

theorem find_insert (ordered : map.Ordered) (key : Key) :
    find key (insert element map) = (find key map).or (find key [element]) := by
  simp only [find, ← List.head?_filter, filter_insert ordered, List.head?_append]

end Order

/-- One group of elements after another, each with a key of its own. -/
inductive Grouped : Multimap Key Value → Prop
  | nil : Grouped []
  | group {key : Key} {group rest : Multimap Key Value} (nonempty : group ≠ [])
      (same : ∀ element ∈ group, element.1 = key)
      (fresh : ∀ element ∈ rest, element.1 ≠ key) (later : Grouped rest) :
      Grouped (group ++ rest)

theorem Grouped.cons [DecidableEq Key] {map : Multimap Key Value}
    (grouped : map.Grouped) {element : Key × Value}
    (next : ∀ first ∈ map.head?, first.1 ≠ element.1 →
      ∀ other ∈ map, other.1 ≠ element.1) :
    Grouped (element :: map) := by
  cases grouped with
  | nil =>
      exact .group (List.cons_ne_nil element [])
        (List.forall_mem_singleton.mpr rfl) (List.forall_mem_nil _) .nil
  | @group key group rest nonempty same fresh later =>
      by_cases joins : element.1 = key
      · rw [← List.cons_append]
        exact .group (List.cons_ne_nil _ _)
          (List.forall_mem_cons.mpr ⟨joins, same⟩) fresh later
      · have absent : ∀ other ∈ group ++ rest, other.1 ≠ element.1 := by
          obtain ⟨first, more, rfl⟩ := List.exists_cons_of_ne_nil nonempty
          refine next first rfl fun equal => joins ?_
          exact equal.symm.trans (same first List.mem_cons_self)
        exact .group (List.cons_ne_nil element [])
          (List.forall_mem_singleton.mpr rfl) absent
          (.group nonempty same fresh later)

/-- Elements with equal keys stand together. -/
theorem Ordered.grouped [LT Key] [DecidableEq Key]
    [Std.Trichotomous fun first second : Key => first < second]
    {map : Multimap Key Value} (ordered : map.Ordered) : map.Grouped := by
  induction map with
  | nil => exact .nil
  | cons element rest induction =>
      obtain ⟨least, later⟩ := List.pairwise_cons.mp ordered
      refine (induction later).cons fun first next different other member same => ?_
      obtain ⟨more, rfl⟩ := List.head?_eq_some_iff.mp next
      obtain ⟨before, _⟩ := List.pairwise_cons.mp later
      cases List.mem_cons.mp member with
      | inl equal => exact different (equal ▸ same)
      | inr inside =>
          have notBelow := before other inside
          rw [same] at notBelow
          exact different (Std.Trichotomous.trichotomous (r := fun a b => a < b) _ _
            (least first List.mem_cons_self) notBelow)

section Unique

variable [LT Key] [DecidableLT Key] [DecidableEq Key]

/-- `insert` of a `std::map` does nothing where the key is there. -/
def insertNew (element : Key × Value) (map : Multimap Key Value) :
    Multimap Key Value :=
  match map.find element.1 with
  | some _ => map
  | none => map.insert element

theorem nodup_insertNew {element : Key × Value} {map : Multimap Key Value}
    (unique : map.keys.Nodup) : (insertNew element map).keys.Nodup := by
  unfold insertNew
  split
  · exact unique
  · next absent =>
      have grown := (insert_perm element map).map Prod.fst
      exact grown.nodup_iff.mpr
        (List.nodup_cons.mpr ⟨find_eq_none_iff.mp absent, unique⟩)

theorem nodup_foldl_insertNew (elements : List (Key × Value))
    {map : Multimap Key Value} (unique : map.keys.Nodup) :
    (elements.foldl (fun map element => insertNew element map)
      map).keys.Nodup := by
  induction elements generalizing map with
  | nil => exact unique
  | cons element rest induction => exact induction (nodup_insertNew unique)

variable [Std.Asymm fun first second : Key => first < second]

theorem find_insertNew {element : Key × Value} {map : Multimap Key Value}
    (ordered : map.Ordered) (key : Key) :
    find key (insertNew element map) =
      (find key map).or (find key [element]) := by
  unfold insertNew
  split
  · next found =>
      by_cases same : element.1 = key
      · rw [← same, found]
        rfl
      · simp [find, same]
  · exact find_insert ordered key

variable [Trans (fun first second : Key => first < second)
  (fun first second => first < second) fun first second => first < second]

theorem Ordered.insertNew {element : Key × Value} {map : Multimap Key Value}
    (ordered : map.Ordered) : (insertNew element map).Ordered := by
  unfold Multimap.insertNew
  split
  · exact ordered
  · exact ordered.insert

/-- Of the elements with one key the first is kept. -/
theorem find_foldl_insertNew (elements : List (Key × Value))
    {map : Multimap Key Value} (ordered : map.Ordered) (key : Key) :
    find key (elements.foldl (fun map element => insertNew element map) map) =
      (find key map).or (find key elements) := by
  induction elements generalizing map with
  | nil => simp [find]
  | cons element rest induction =>
      rw [List.foldl_cons, induction ordered.insertNew, find_insertNew ordered,
        Option.or_assoc]
      congr 1
      simp only [find, List.find?_cons, List.find?_nil]
      split <;> simp

end Unique

/-- Each key once, in the order of the keys. -/
def Ascending [LT Key] (map : Multimap Key Value) : Prop :=
  map.keys.Pairwise fun first second => first < second

section Ascending

variable [LT Key] {map more : Multimap Key Value}

theorem Ordered.ascending
    [Std.Trichotomous fun first second : Key => first < second]
    (ordered : map.Ordered) (unique : map.keys.Nodup) : map.Ascending := by
  have distinct := List.pairwise_map.mp unique
  refine List.pairwise_map.mpr ((List.Pairwise.and ordered distinct).imp ?_)
  intro first second both
  obtain ⟨notAbove, different⟩ := both
  refine Classical.byContradiction fun notBelow => different ?_
  exact Std.Trichotomous.trichotomous (r := fun a b => a < b) _ _ notBelow
    notAbove

theorem Ascending.below {element : Key × Value}
    (ascending : (map ++ element :: more).Ascending) :
    ∀ other ∈ map, other.1 < element.1 := by
  intro other member
  have pairwise := List.pairwise_append.mp (List.pairwise_map.mp ascending)
  exact pairwise.2.2 other member element List.mem_cons_self

variable [Std.Asymm fun first second : Key => first < second]

theorem Ascending.nodup (ascending : map.Ascending) : map.keys.Nodup := by
  refine List.Pairwise.imp (fun {first second} below same => ?_) ascending
  rw [same] at below
  exact Std.Asymm.asymm _ _ below below

theorem Ascending.eq_of_perm (first : map.Ascending) (second : more.Ascending)
    (perm : map.Perm more) : map = more :=
  List.Perm.eq_of_pairwise
    (fun _ _ _ _ below above => absurd above (Std.Asymm.asymm _ _ below))
    (List.pairwise_map.mp first) (List.pairwise_map.mp second) perm

variable [DecidableLT Key] {element : Key × Value}

theorem insert_last (greatest : ∀ other ∈ map, other.1 < element.1) :
    insert element map = map ++ [element] := by
  induction map with
  | nil => rfl
  | cons first rest induction =>
      obtain ⟨below, later⟩ := List.forall_mem_cons.mp greatest
      rw [insert, if_neg (Std.Asymm.asymm _ _ below), induction later]
      rfl

/-- Elements that ascend are inserted one behind the other. -/
theorem Ascending.foldl_insertNew [DecidableEq Key]
    (ascending : (map ++ more).Ascending) :
    more.foldl (fun map element => insertNew element map) map = map ++ more := by
  induction more generalizing map with
  | nil => exact (List.append_nil map).symm
  | cons element rest induction =>
      have below := ascending.below
      have absent : map.find element.1 = none := by
        refine find_eq_none_iff.mpr fun inside => ?_
        obtain ⟨other, member, same⟩ := List.mem_map.mp inside
        have self := below other member
        rw [same] at self
        exact Std.Asymm.asymm _ _ self self
      have first : insertNew element map = map ++ [element] := by
        rw [insertNew, absent]
        exact insert_last below
      rw [List.foldl_cons, first, induction (by rwa [← List.append_cons]),
        ← List.append_cons]

end Ascending

/-- Where no key is there twice, each element is looked up. -/
theorem lookup_of_mem [BEq Key] [LawfulBEq Key] {elements : List (Key × Value)}
    (unique : (elements.map Prod.fst).Nodup) {key : Key} {value : Value}
    (member : (key, value) ∈ elements) : elements.lookup key = some value := by
  obtain ⟨before, after, rfl⟩ := List.append_of_mem member
  refine List.lookup_eq_some_iff.mpr
    ⟨before, after, rfl, fun other inside => bne_iff_ne.mpr ?_⟩
  rw [List.map_append, List.nodup_append] at unique
  exact (unique.2.2 other.1 (List.mem_map_of_mem inside) key
    List.mem_cons_self).symm

end Multimap

end Initd.Library
