import Mathlib.Data.List.Nodup
import InfoFlow.ReverseFlow

/-! What an analysis relies on in a graph.

Qualifiers are kept by place, so a place has to belong to one leaf. Values are
told apart by number, so within one analysis a number has to belong to one
value. A graph that is made by its own operations, from its own values,
guarantees both. -/

namespace InfoFlow

/-- Leaves with the same place are the same leaf. -/
def SeparatePlaces (leaves : List Leaf) : Prop :=
  ∀ first second, first ∈ leaves → second ∈ leaves →
    Annotations.slot first = Annotations.slot second → first = second

/-- Values with the same number are the same value. Where values of another
graph occur whose numbers are also those of other values, this fails. -/
def Numbered (values : List Value) : Prop :=
  ∀ first second, first ∈ values → second ∈ values → first.same second = true → first = second

theorem SeparatePlaces.subset {fewer leaves : List Leaf} (separate : SeparatePlaces leaves)
    (included : fewer ⊆ leaves) : SeparatePlaces fewer :=
  fun first second firstMember secondMember =>
    separate first second (included firstMember) (included secondMember)

namespace Value

@[simp] theorem same_refl (value : Value) : value.same value = true :=
  decide_eq_true rfl

theorem declaration_mem_parts (value : Value) : value.declaration ∈ value.parts := by
  cases value with
  | leaf content => simp [declaration, parts]
  | adapted adaptation owner id declaration context =>
      simp [Value.declaration, parts, mem_parts_self]

theorem context_mem_parts (value : Value) : value.context ∈ value.parts := by
  cases value with
  | leaf content => simp [context, parts]
  | adapted adaptation owner id declaration context =>
      simp [Value.context, parts, mem_parts_self]

end Value

namespace ValueGraph

variable {graph : ValueGraph}

def parts (graph : ValueGraph) : List Value :=
  graph.values.flatMap Value.parts

def leafParts (graph : ValueGraph) : List Leaf :=
  graph.values.flatMap Value.leaves

theorem mem_parts_of_mem_values {value : Value} (member : value ∈ graph.values) :
    value ∈ graph.parts :=
  List.mem_flatMap.mpr ⟨value, member, value.mem_parts_self⟩

theorem mem_parts_of_mem_parts {part whole : Value} (below : part ∈ whole.parts)
    (member : whole ∈ graph.parts) : part ∈ graph.parts := by
  rcases List.mem_flatMap.mp member with ⟨value, valueMember, above⟩
  exact List.mem_flatMap.mpr ⟨value, valueMember, Value.mem_parts_trans below above⟩

theorem leaf_mem_parts_iff {leaf : Leaf} :
    Value.leaf leaf ∈ graph.parts ↔ leaf ∈ graph.leafParts := by
  simp only [parts, leafParts, List.mem_flatMap, Value.leaf_mem_parts_iff]

theorem leaves_subset_leafParts {value : Value} (member : value ∈ graph.parts) :
    value.leaves ⊆ graph.leafParts := by
  intro leaf below
  exact leaf_mem_parts_iff.mp
    (mem_parts_of_mem_parts (Value.leaf_mem_parts_iff.mpr below) member)

theorem leaves_subset (graph : ValueGraph) : graph.leaves ⊆ graph.leafParts := by
  intro leaf member
  rcases List.mem_filterMap.mp member with ⟨value, valueMember, isLeaf⟩
  cases value with
  | leaf content =>
      cases isLeaf
      exact leaf_mem_parts_iff.mp (mem_parts_of_mem_values valueMember)
  | adapted adaptation owner id declaration context => cases isLeaf

/-- The constraints of a graph lie between its values, and a place belongs to
one leaf. The values may be built from those of other graphs, whatever their
numbers. -/
structure Coherent (graph : ValueGraph) : Prop where
  sides : ∀ constraint, constraint ∈ graph.constraints.toList →
    constraint.left ∈ graph.values ∧ constraint.right ∈ graph.values
  places : SeparatePlaces graph.leafParts

/-- The constraints of a graph lie between its values and state how these are
related, and among all parts of its values a number belongs to one value. The
latter is so if a graph is made from its own values (`Built.wellFormed`), but
not if it adapts values of another graph whose numbers clash with its own. -/
structure WellFormed (graph : ValueGraph) : Prop where
  sides : ∀ constraint, constraint ∈ graph.constraints.toList →
    constraint.left ∈ graph.values ∧ constraint.right ∈ graph.values
  specified : ∀ constraint, constraint ∈ graph.constraints.toList →
    constraint.relation ≠ .unspecified
  numbered : Numbered graph.parts

def Specified (graph : ValueGraph) : Prop :=
  ∀ constraint, constraint ∈ graph.constraints.toList → constraint.relation ≠ .unspecified

instance (leaves : List Leaf) : Decidable (SeparatePlaces leaves) :=
  decidable_of_iff
    (∀ first, first ∈ leaves → ∀ second, second ∈ leaves →
      Annotations.slot first = Annotations.slot second → first = second)
    ⟨fun separate first second firstMember => separate first firstMember second,
      fun separate first firstMember second => separate first second firstMember⟩

instance (values : List Value) : Decidable (Numbered values) :=
  decidable_of_iff
    (∀ first, first ∈ values → ∀ second, second ∈ values →
      first.same second = true → first = second)
    ⟨fun numbered first second firstMember => numbered first firstMember second,
      fun numbered first firstMember second => numbered first second firstMember⟩

instance (graph : ValueGraph) : Decidable graph.Coherent :=
  decidable_of_iff
    ((∀ constraint, constraint ∈ graph.constraints.toList →
      constraint.left ∈ graph.values ∧ constraint.right ∈ graph.values) ∧
      SeparatePlaces graph.leafParts)
    ⟨fun both => ⟨both.1, both.2⟩, fun coherent => ⟨coherent.sides, coherent.places⟩⟩

instance (graph : ValueGraph) : Decidable graph.Specified :=
  inferInstanceAs (Decidable (∀ constraint, constraint ∈ graph.constraints.toList → _))

instance (graph : ValueGraph) : Decidable graph.WellFormed :=
  decidable_of_iff
    ((∀ constraint, constraint ∈ graph.constraints.toList →
      constraint.left ∈ graph.values ∧ constraint.right ∈ graph.values) ∧
      (∀ constraint, constraint ∈ graph.constraints.toList →
        constraint.relation ≠ .unspecified) ∧
      ∀ first, first ∈ graph.parts → ∀ second, second ∈ graph.parts →
        first.same second = true → first = second)
    ⟨fun all => ⟨all.1, all.2.1, fun first second firstMember =>
        all.2.2 first firstMember second⟩,
      fun wellFormed => ⟨wellFormed.sides, wellFormed.specified,
        fun first firstMember second => wellFormed.numbered first second firstMember⟩⟩

theorem WellFormed.leaf_eq_of_id (wellFormed : graph.WellFormed) (first second : Leaf)
    (firstMember : first ∈ graph.leafParts) (secondMember : second ∈ graph.leafParts)
    (sameNumber : first.id = second.id) : first = second :=
  Value.leaf.inj (wellFormed.numbered _ _ (leaf_mem_parts_iff.mpr firstMember)
    (leaf_mem_parts_iff.mpr secondMember) (decide_eq_true sameNumber))

theorem WellFormed.coherent (wellFormed : graph.WellFormed) : graph.Coherent where
  sides := wellFormed.sides
  places := by
    intro first second firstMember secondMember samePlace
    exact wellFormed.leaf_eq_of_id first second firstMember secondMember
      (congrArg Prod.snd samePlace)

/-! ## Graphs that are made by their operations -/

/-- A graph that was made from its own values: it began without values and
constraints, and leaves, adaptations and constraints were added to it. -/
inductive Built : ValueGraph → Prop
  | empty {graph : ValueGraph} (noValues : graph.values = [])
      (noConstraints : graph.constraints.toList = []) : Built graph
  | intern {graph : ValueGraph} (built : Built graph) (spec : LeafSpec) :
      Built (graph.intern spec).1
  | adapt {graph : ValueGraph} (built : Built graph) (adaptation : Adaptation)
      {declaration context : Value} (declarationMember : declaration ∈ graph.values)
      (contextMember : context ∈ graph.values) :
      Built (graph.adapt adaptation declaration context).1
  | add {graph next : ValueGraph} (built : Built graph) {relation : Relation}
      {left right : Value} (leftMember : left ∈ graph.values)
      (rightMember : right ∈ graph.values) (added : graph.add relation left right = .ok next) :
      Built next

private structure Ordered (graph : ValueGraph) : Prop where
  numbers : graph.values.map Value.id = List.range graph.values.length
  closed : ∀ value, value ∈ graph.values → value.parts ⊆ graph.values
  sides : ∀ constraint, constraint ∈ graph.constraints.toList →
    constraint.left ∈ graph.values ∧ constraint.right ∈ graph.values
  specified : ∀ constraint, constraint ∈ graph.constraints.toList →
    constraint.relation ≠ .unspecified

private theorem Ordered.append (ordered : graph.Ordered) {made : Value}
    (number : made.id = graph.size) (parts : made.parts ⊆ made :: graph.values) :
    Ordered { graph with values := graph.values ++ [made] } where
  numbers := by
    simp [ordered.numbers, number, size, List.range_succ]
  closed := by
    intro value member part below
    rcases List.mem_append.mp member with known | new
    · exact List.mem_append_left _ (ordered.closed value known below)
    · rw [List.mem_singleton] at new
      rw [new] at below
      rcases List.mem_cons.mp (parts below) with itself | known
      · exact List.mem_append_right _ (List.mem_singleton.mpr itself)
      · exact List.mem_append_left _ known
  sides := by
    intro constraint member
    have both := ordered.sides constraint member
    exact ⟨List.mem_append_left _ both.1, List.mem_append_left _ both.2⟩
  specified := ordered.specified

private theorem Ordered.add (ordered : graph.Ordered) {next : ValueGraph} {relation : Relation}
    {left right : Value} (leftMember : left ∈ graph.values) (rightMember : right ∈ graph.values)
    (added : graph.add relation left right = .ok next) : next.Ordered := by
  unfold ValueGraph.add at added
  split at added
  · cases added
  · next specified =>
      split at added
      · cases added
      · split at added
        · cases added
        · cases added
          have cases_of_mem : ∀ constraint,
              constraint ∈ (graph.constraints.add { relation, left, right }).toList →
                constraint ∈ graph.constraints.toList ∨
                  constraint = { relation, left, right } := by
            intro constraint member
            unfold ConstraintSet.add at member
            split at member
            · exact .inl member
            · simpa using member
          refine ⟨ordered.numbers, ordered.closed, ?_, ?_⟩
          · intro constraint member
            rcases cases_of_mem constraint member with known | new
            · exact ordered.sides constraint known
            · rw [new]
              exact ⟨leftMember, rightMember⟩
          · intro constraint member
            rcases cases_of_mem constraint member with known | new
            · exact ordered.specified constraint known
            · rw [new]
              exact specified

private theorem Built.ordered (built : graph.Built) : graph.Ordered := by
  induction built with
  | empty noValues noConstraints =>
      constructor <;> simp [noValues, noConstraints]
  | @intern graph built spec ordered =>
      unfold ValueGraph.intern
      split
      · exact ordered
      · exact ordered.append rfl (by simp [Value.parts])
  | @adapt graph built adaptation declaration context declarationMember contextMember ordered =>
      unfold ValueGraph.adapt
      split
      · exact ordered
      · refine ordered.append rfl fun part below => ?_
        simp only [Value.parts, List.mem_cons, List.mem_append] at below
        rcases below with itself | inContext | inDeclaration
        · exact List.mem_cons.mpr (.inl itself)
        · exact List.mem_cons_of_mem _ (ordered.closed context contextMember inContext)
        · exact List.mem_cons_of_mem _ (ordered.closed declaration declarationMember inDeclaration)
  | add built leftMember rightMember added ordered =>
      exact ordered.add leftMember rightMember added

theorem Built.parts_subset (built : graph.Built) : graph.parts ⊆ graph.values := by
  intro part member
  rcases List.mem_flatMap.mp member with ⟨value, valueMember, below⟩
  exact built.ordered.closed value valueMember below

theorem Built.leafParts_subset (built : graph.Built) : graph.leafParts ⊆ graph.leaves := by
  intro leaf member
  exact List.mem_filterMap.mpr
    ⟨.leaf leaf, built.parts_subset (leaf_mem_parts_iff.mpr member), rfl⟩

theorem leaf_numbers_sublist (graph : ValueGraph) :
    (graph.leaves.map Leaf.id).Sublist (graph.values.map Value.id) := by
  unfold leaves
  induction graph.values with
  | nil => exact .slnil
  | cons value rest induction =>
      cases value with
      | leaf content => exact induction.cons_cons content.id
      | adapted adaptation owner id declaration context => exact induction.cons id

theorem Built.nodup_leaves (built : graph.Built) : (graph.leaves.map Leaf.id).Nodup := by
  refine (leaf_numbers_sublist graph).nodup ?_
  rw [built.ordered.numbers]
  exact List.nodup_range

/-- Every graph that is made from its own values is well formed. -/
theorem Built.wellFormed (built : graph.Built) : graph.WellFormed := by
  have ordered := built.ordered
  refine ⟨ordered.sides, ordered.specified, ?_⟩
  have distinct : (graph.values.map Value.id).Nodup := by
    rw [ordered.numbers]
    exact List.nodup_range
  intro first second firstMember secondMember same
  exact List.inj_on_of_nodup_map distinct (built.parts_subset firstMember)
    (built.parts_subset secondMember) (of_decide_eq_true same)

end ValueGraph

end InfoFlow
