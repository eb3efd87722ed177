import Mathlib.Data.Fintype.Card
import Mathlib.Data.Finset.Card
import Mathlib.Logic.Relation
import Mathlib.Order.WellFounded
import Mathlib.Data.Fintype.Order

namespace Initd.Library

namespace Digraph

variable {Node : Type}

/-! Directed multigraphs given by adjacency lists. -/

def Edge (successors : Node → List Node) (source target : Node) : Prop :=
  target ∈ successors source

abbrev Reaches (successors : Node → List Node) : Node → Node → Prop :=
  Relation.ReflTransGen (Edge successors)

/-- No node that `start` reaches lies on a cycle. -/
def AcyclicFrom (successors : Node → List Node) (start : Node) : Prop :=
  ∀ node, Reaches successors start node →
    ¬ Relation.TransGen (Edge successors) node node

/-! The depth-first walk that uses the flags it sets as its visited marks. -/

/-- How flags may differ after the walks from all of `roots`. -/
structure MarkedFrom (successors : Node → List Node) (roots : List Node)
    (before after : Node → Bool) : Prop where
  grows : ∀ node, before node = true → after node = true
  roots_marked : ∀ root ∈ roots, after root = true
  closed : ∀ node, after node = true → before node = true ∨
    ∀ successor ∈ successors node, after successor = true
  sound : ∀ node, after node = true → before node = true ∨
    ∃ root ∈ roots, Reaches successors root node

namespace MarkedFrom

variable {successors : Node → List Node}

theorem nil (flags : Node → Bool) : MarkedFrom successors [] flags flags where
  grows _ marked := marked
  roots_marked _ member := nomatch member
  closed _ marked := .inl marked
  sound _ marked := .inl marked

theorem append {first second : List Node} {start middle finish : Node → Bool}
    (left : MarkedFrom successors first start middle)
    (right : MarkedFrom successors second middle finish) :
    MarkedFrom successors (first ++ second) start finish where
  grows node marked := right.grows node (left.grows node marked)
  roots_marked root member := by
    rcases List.mem_append.mp member with early | late
    · exact right.grows root (left.roots_marked root early)
    · exact right.roots_marked root late
  closed node marked := by
    rcases right.closed node marked with earlier | expanded
    · rcases left.closed node earlier with original | expanded
      · exact .inl original
      · exact .inr fun successor member =>
          right.grows successor (expanded successor member)
    · exact .inr expanded
  sound node marked := by
    rcases right.sound node marked with earlier | ⟨root, member, path⟩
    · rcases left.sound node earlier with original | ⟨root, member, path⟩
      · exact .inl original
      · exact .inr ⟨root, List.mem_append_left _ member, path⟩
    · exact .inr ⟨root, List.mem_append_right _ member, path⟩

theorem already {node : Node} {flags : Node → Bool}
    (marked : flags node = true) :
    MarkedFrom successors [node] flags flags where
  grows _ marked := marked
  roots_marked root member := by simpa [List.mem_singleton.mp member]
  closed _ marked := .inl marked
  sound _ marked := .inl marked

/-- Walks over cleared flags mark exactly what the roots reach. -/
theorem iff_reaches {roots : List Node} {before after : Node → Bool}
    (walked : MarkedFrom successors roots before after)
    (cleared : ∀ node, before node = false) (node : Node) :
    after node = true ↔ ∃ root ∈ roots, Reaches successors root node := by
  constructor
  · intro marked
    rcases walked.sound node marked with earlier | path
    · simp [cleared node] at earlier
    · exact path
  · rintro ⟨root, member, path⟩
    induction path with
    | refl => exact walked.roots_marked root member
    | tail _ edge induction =>
        rcases walked.closed _ induction with earlier | expanded
        · simp [cleared] at earlier
        · exact expanded _ edge

end MarkedFrom

theorem foldlM_markedFrom {successors : Node → List Node}
    {walk : Node → (Node → Bool) → Option (Node → Bool)}
    (each : ∀ node before after, walk node before = some after →
      MarkedFrom successors [node] before after)
    (roots : List Node) (before after : Node → Bool)
    (walked : roots.foldlM (fun flags node => walk node flags) before =
      some after) :
    MarkedFrom successors roots before after := by
  induction roots generalizing before with
  | nil =>
      cases Option.some.inj walked
      exact .nil _
  | cons root rest induction =>
      simp only [List.foldlM_cons, Option.bind_eq_bind,
        Option.bind_eq_some_iff] at walked
      obtain ⟨middle, first, later⟩ := walked
      exact (each root before middle first).append
        (induction middle later)

def unmarked [Fintype Node] (flags : Node → Bool) : Finset Node :=
  Finset.univ.filter fun node => flags node = false

theorem unmarked_card_le [Fintype Node] {before after : Node → Bool}
    (grows : ∀ node, before node = true → after node = true) :
    (unmarked after).card ≤ (unmarked before).card := by
  refine Finset.card_le_card fun node member => ?_
  simp only [unmarked, Finset.mem_filter, Finset.mem_univ, true_and] at member ⊢
  by_contra marked
  simp [grows node (by simpa using marked)] at member

section Marking

variable [DecidableEq Node]

/-- `none` only where the fuel, which bounds the recursion depth, runs out. -/
def mark (successors : Node → List Node) :
    Nat → Node → (Node → Bool) → Option (Node → Bool)
  | 0, _, _ => none
  | fuel + 1, node, flags =>
      let old := flags node
      let flags := Function.update flags node true
      if !old then
        (successors node).foldlM
          (fun flags successor => mark successors fuel successor flags) flags
      else
        some flags

/-- Marking a node and then walking from all its successors walks from it. -/
theorem MarkedFrom.expand {successors : Node → List Node} {node : Node} {before after : Node → Bool}
    (walked : MarkedFrom successors (successors node)
      (Function.update before node true) after) :
    MarkedFrom successors [node] before after where
  grows other marked := by
    refine walked.grows other ?_
    by_cases same : other = node
    · simp [same]
    · simpa [same] using marked
  roots_marked root member := by
    rw [List.mem_singleton.mp member]
    exact walked.grows node (by simp)
  closed other marked := by
    by_cases same : other = node
    · subst other
      exact .inr walked.roots_marked
    · simpa [same] using walked.closed other marked
  sound other marked := by
    by_cases same : other = node
    · subst other
      exact .inr ⟨node, by simp, .refl⟩
    · rcases walked.sound other marked with original | ⟨root, member, path⟩
      · exact .inl (by simpa [same] using original)
      · exact .inr ⟨node, by simp, .head member path⟩

/-- One walk marks its root and expands every node it newly marks. -/
theorem mark_markedFrom (successors : Node → List Node) :
    ∀ fuel node before after,
      mark successors fuel node before = some after →
        MarkedFrom successors [node] before after
  | 0, _, _, _, walked => by simp [mark] at walked
  | fuel + 1, node, before, after, walked => by
      simp only [mark] at walked
      by_cases old : before node = true
      · simp only [old, Bool.not_true, Bool.false_eq_true, if_false,
          Option.some.injEq] at walked
        have same : Function.update before node true = before := by
          rw [← old, Function.update_eq_self]
        rw [← walked, same]
        exact .already old
      · simp only [old, Bool.not_false, if_true] at walked
        exact .expand (foldlM_markedFrom (mark_markedFrom successors fuel)
          (successors node) _ _ walked)

variable [Fintype Node]

theorem unmarked_card_update {flags : Node → Bool} {node : Node}
    (clear : flags node = false) :
    (unmarked (Function.update flags node true)).card <
      (unmarked flags).card := by
  refine Finset.card_lt_card ⟨fun other member => ?_, fun subset => ?_⟩
  · simp only [unmarked, Finset.mem_filter, Finset.mem_univ, true_and]
      at member ⊢
    by_cases same : other = node
    · rwa [same]
    · simpa [same] using member
  · have member := @subset node (by simp [unmarked, clear])
    simp [unmarked] at member

/-- Every call marks one more node before it recurses, so fuel above the
number of unmarked nodes is never used up. -/
theorem exists_mark (successors : Node → List Node) :
    ∀ fuel node flags, (unmarked flags).card < fuel →
      ∃ after, mark successors fuel node flags = some after
  | 0, _, _, enough => absurd enough (Nat.not_lt_zero _)
  | fuel + 1, node, flags, enough => by
      by_cases old : flags node = true
      · exact ⟨Function.update flags node true, by simp [mark, old]⟩
      · have clear : flags node = false := by simpa using old
        have shrinks := unmarked_card_update clear
        have loop : ∀ (roots : List Node) (flags : Node → Bool),
            (unmarked flags).card < fuel →
              ∃ after, roots.foldlM
                (fun flags root => mark successors fuel root flags) flags =
                  some after := by
          intro roots
          induction roots with
          | nil => exact fun flags _ => ⟨flags, rfl⟩
          | cons root rest induction =>
              intro flags enough
              obtain ⟨middle, walked⟩ :=
                exists_mark successors fuel root flags enough
              have smaller := unmarked_card_le
                (mark_markedFrom successors fuel root flags middle walked).grows
              obtain ⟨after, finished⟩ := induction middle (by omega)
              exact ⟨after, by simp [walked, finished]⟩
        obtain ⟨after, walked⟩ :=
          loop (successors node) (Function.update flags node true) (by omega)
        exact ⟨after, by simp [mark, old, walked]⟩

end Marking

/-! Acyclicity of finite graphs. -/

theorem AcyclicFrom.acc [Finite Node] {successors : Node → List Node}
    {start : Node} (acyclic : AcyclicFrom successors start) :
    Acc (fun target source => Edge successors source target) start := by
  let Below := { node // Reaches successors start node }
  let under : Below → Below → Prop := fun target source =>
    Relation.TransGen (Edge successors) source.val target.val
  have : IsTrans Below under :=
    ⟨fun _ _ _ first second => second.trans first⟩
  have : Std.Irrefl under :=
    ⟨fun node cycle => acyclic node.val node.property cycle⟩
  have wellFounded : WellFounded under :=
    Finite.wellFounded_of_trans_of_irrefl under
  have accessible : ∀ node : Below,
      Acc (fun target source => Edge successors source target) node.val := by
    intro node
    induction node using wellFounded.induction with
    | _ node induction =>
        refine ⟨_, fun target edge => ?_⟩
        exact induction ⟨target, node.property.tail edge⟩ (.single edge)
  exact accessible ⟨start, .refl⟩

theorem not_cycle_of_acc {successors : Node → List Node} {node : Node}
    (accessible : Acc (fun target source => Edge successors source target)
      node) : ¬ Relation.TransGen (Edge successors) node node := by
  induction accessible with
  | intro node _ induction =>
      intro cycle
      obtain ⟨next, edge, path⟩ := Relation.TransGen.head'_iff.mp cycle
      exact induction next edge (Relation.TransGen.tail' path edge)

theorem acyclicFrom_iff_acc [Finite Node] {successors : Node → List Node}
    {start : Node} :
    AcyclicFrom successors start ↔
      Acc (fun target source => Edge successors source target) start := by
  refine ⟨AcyclicFrom.acc, fun accessible node path => not_cycle_of_acc ?_⟩
  induction path with
  | refl => exact accessible
  | tail _ edge induction => exact induction.inv edge

/-- In a finite graph the edges out of well-founded nodes can be followed
backwards only finitely often. -/
theorem wellFounded_of_acc [Finite Node] {successors : Node → List Node}
    {live : Node → Prop}
    (accessible : ∀ node, live node →
      Acc (fun target source => Edge successors source target) node) :
    WellFounded fun source target => live source ∧
      Edge successors source target := by
  let into : Node → Node → Prop := fun source target =>
    live source ∧ Edge successors source target
  have edges : ∀ {source target}, Relation.TransGen into source target →
      live source ∧ Relation.TransGen (Edge successors) source target := by
    intro source target path
    induction path with
    | single edge => exact ⟨edge.1, .single edge.2⟩
    | tail _ edge induction => exact ⟨induction.1, induction.2.tail edge.2⟩
  have : IsTrans Node (Relation.TransGen into) :=
    ⟨fun _ _ _ first second => first.trans second⟩
  have : Std.Irrefl (Relation.TransGen into) :=
    ⟨fun node cycle => not_cycle_of_acc (accessible node (edges cycle).1)
      (edges cycle).2⟩
  exact (Finite.wellFounded_of_trans_of_irrefl
    (Relation.TransGen into)).mono fun _ _ edge => .single edge

/-! Graphs whose nodes have names that a relation is over. -/

section Names

variable {Name : Type} {successors : Node → List Node}
  {related : Name → Name → Prop} {name : Node → Name} {source target : Node}

structure NamedBy (successors : Node → List Node)
    (related : Name → Name → Prop) (name : Node → Name) : Prop where
  injective : Function.Injective name
  edge : ∀ source target, target ∈ successors source ↔
    related (name source) (name target)
  closed : ∀ source below, related (name source) below →
    ∃ target, name target = below

namespace NamedBy

theorem exists_target (named : NamedBy successors related name) {below : Name}
    (path : Relation.ReflTransGen related (name source) below) :
    ∃ target, name target = below ∧ Reaches successors source target := by
  induction path with
  | refl => exact ⟨source, rfl, .refl⟩
  | tail _ step induction =>
      obtain ⟨middle, rfl, path⟩ := induction
      obtain ⟨target, rfl⟩ := named.closed middle _ step
      exact ⟨target, rfl, path.tail ((named.edge middle target).mpr step)⟩

theorem reaches_iff (named : NamedBy successors related name) :
    Reaches successors source target ↔
      Relation.ReflTransGen related (name source) (name target) := by
  constructor
  · exact fun path => path.lift name fun source target edge =>
      (named.edge source target).mp edge
  · intro path
    obtain ⟨target', same, path⟩ := named.exists_target path
    exact named.injective same ▸ path

theorem transGen_iff (named : NamedBy successors related name) :
    Relation.TransGen (Edge successors) source target ↔
      Relation.TransGen related (name source) (name target) := by
  constructor
  · exact fun path => path.lift name fun source target edge =>
      (named.edge source target).mp edge
  · intro path
    obtain ⟨before, walk, step⟩ := Relation.TransGen.tail'_iff.mp path
    obtain ⟨middle, rfl, reached⟩ := named.exists_target walk
    exact .tail' reached ((named.edge middle target).mpr step)

theorem acyclicFrom_iff (named : NamedBy successors related name) :
    AcyclicFrom successors source ↔
      ∀ below, Relation.ReflTransGen related (name source) below →
        ¬ Relation.TransGen related below below := by
  constructor
  · intro acyclic below path
    obtain ⟨node, rfl, reached⟩ := named.exists_target path
    exact named.transGen_iff.not.mp (acyclic node reached)
  · exact fun acyclic node path => named.transGen_iff.not.mpr
      (acyclic (name node) (named.reaches_iff.mp path))

end NamedBy

end Names

end Digraph

end Initd.Library
