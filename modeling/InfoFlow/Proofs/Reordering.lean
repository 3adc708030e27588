import InfoFlow.Proofs.Solver.Consistency

/-! Graphs whose constraints were added in different orders.

Of constraints with one key a set keeps the one that was added first. As long
as a number belongs to one value, all of them say the same, so the order in
which constraints are added does not change what they say, nor do the reverse
flows that go with them. -/

namespace InfoFlow

/-- Constraints that say the same of the same values, whatever their causes. -/
structure Constraint.Alike (first second : Constraint) : Prop where
  relation : first.relation = second.relation
  left : first.left = second.left
  right : first.right = second.right

namespace Constraint

variable {first second : Constraint} {values : List Value}

theorem Alike.symm (alike : first.Alike second) : second.Alike first :=
  ⟨alike.relation.symm, alike.left.symm, alike.right.symm⟩

theorem Alike.between (alike : first.Alike second) (between : first.Between values) :
    second.Between values :=
  ⟨alike.left ▸ between.1, alike.right ▸ between.2⟩

theorem alike_of_key_eq (numbered : Numbered values) (firstBetween : first.Between values)
    (secondBetween : second.Between values) (sameKey : first.key = second.key) :
    first.Alike second where
  relation := congrArg ConstraintKey.relation sameKey
  left := numbered _ _ firstBetween.1 secondBetween.1
    (decide_eq_true (congrArg ConstraintKey.left sameKey))
  right := numbered _ _ firstBetween.2 secondBetween.2
    (decide_eq_true (congrArg ConstraintKey.right sameKey))

end Constraint

namespace ConstraintSet

variable {constraints : ConstraintSet} {constraint : Constraint} {values : List Value}

theorem exists_alike (numbered : Numbered values)
    (among : ∀ member, member ∈ constraints.toList → member.Between values)
    (between : constraint.Between values) (known : constraint.key ∈ constraints.keys) :
    ∃ member, member ∈ constraints.toList ∧ constraint.Alike member := by
  rcases List.mem_map.mp known with ⟨member, present, sameKey⟩
  exact ⟨member, present,
    Constraint.alike_of_key_eq numbered between (among member present) sameKey.symm⟩

end ConstraintSet

namespace ValueGraph

variable {graph base other next : ValueGraph} {first second member : Constraint}

/-! ## Reordered graphs -/

/-- A graph that differs from another in its constraints only, and these say
the same. -/
structure Reordered (graph other : ValueGraph) : Prop where
  only : ∃ constraints, other = { graph with constraints }
  forth : ∀ member, member ∈ graph.constraints.toList →
    ∃ twin, twin ∈ other.constraints.toList ∧ member.Alike twin
  back : ∀ member, member ∈ other.constraints.toList →
    ∃ twin, twin ∈ graph.constraints.toList ∧ member.Alike twin

theorem Reordered.symm (reordered : graph.Reordered other) : other.Reordered graph where
  only := by
    rcases reordered.only with ⟨constraints, rfl⟩
    exact ⟨graph.constraints, rfl⟩
  forth := reordered.back
  back := reordered.forth

theorem Reordered.values (reordered : graph.Reordered other) : other.values = graph.values := by
  rcases reordered.only with ⟨constraints, rfl⟩
  rfl

theorem Reordered.leafParts (reordered : graph.Reordered other) :
    other.leafParts = graph.leafParts := by
  rw [ValueGraph.leafParts, reordered.values, ValueGraph.leafParts]

theorem Reordered.wellFormed (reordered : graph.Reordered other)
    (wellFormed : graph.WellFormed) : other.WellFormed where
  sides := by
    intro constraint present
    rcases reordered.back constraint present with ⟨twin, twinPresent, alike⟩
    rw [reordered.values, alike.left, alike.right]
    exact wellFormed.sides twin twinPresent
  specified := by
    intro constraint present
    rcases reordered.back constraint present with ⟨twin, twinPresent, alike⟩
    rw [alike.relation]
    exact wellFormed.specified twin twinPresent
  numbered := by
    rw [parts, reordered.values]
    exact wellFormed.numbered

theorem withReverse_alike (alike : first.Alike second) (made : member ∈ graph.withReverse first) :
    ∃ twin, twin ∈ graph.withReverse second ∧ member.Alike twin := by
  have sameBack : graph.flowsBack second = graph.flowsBack first := by
    simp only [flowsBack, withinLibraryCall, alike.relation, alike.left, alike.right]
  rcases mem_withReverse.mp made with rfl | ⟨back, rfl⟩
  · exact ⟨second, mem_withReverse.mpr (.inl rfl), alike⟩
  · refine ⟨second.reverse, mem_withReverse.mpr (.inr ⟨sameBack.trans back, rfl⟩), ?_⟩
    constructor <;> simp [alike.left, alike.right]

theorem Reordered.upgraded (reordered : graph.Reordered other) (wellFormed : graph.WellFormed)
    (present : member ∈ graph.upgraded.toList) :
    ∃ twin, twin ∈ other.upgraded.toList ∧ member.Alike twin := by
  have coherent := wellFormed.coherent
  have otherWellFormed := reordered.wellFormed wellFormed
  have sameParts : other.parts = graph.parts := by rw [parts, reordered.values, parts]
  rcases mem_withReverse_of_mem_upgraded present with ⟨origin, originPresent, made⟩
  rcases reordered.forth origin originPresent with ⟨twin, twinPresent, alike⟩
  rcases withReverse_alike alike made with ⟨reverse, reverseMade, reverseAlike⟩
  have sameReverse : other.withReverse twin = graph.withReverse twin := by
    rcases reordered.only with ⟨constraints, rfl⟩
    rfl
  have known : reverse.key ∈ other.upgraded.keys := by
    refine ConstraintSet.mem_keys_addAll.mpr (.inr (List.mem_map_of_mem ?_))
    exact List.mem_flatMap.mpr ⟨twin, twinPresent, sameReverse.symm ▸ reverseMade⟩
  have among : ∀ known, known ∈ other.upgraded.toList → known.Between graph.parts :=
    fun known knownPresent => sameParts ▸ otherWellFormed.coherent.upgraded_between knownPresent
  rcases ConstraintSet.exists_alike wellFormed.numbered among
      (reverseAlike.between (coherent.upgraded_between present)) known with
    ⟨kept, keptPresent, keptAlike⟩
  exact ⟨kept, keptPresent, reverseAlike.relation.trans keptAlike.relation,
    reverseAlike.left.trans keptAlike.left, reverseAlike.right.trans keptAlike.right⟩

theorem Reordered.forall_upgraded (holds : Relation → Value → Value → Prop)
    (reordered : graph.Reordered other) (wellFormed : graph.WellFormed)
    (every : ∀ member, member ∈ graph.upgraded.toList →
      holds member.relation member.left member.right) :
    ∀ member, member ∈ other.upgraded.toList →
      holds member.relation member.left member.right := by
  intro member present
  rcases reordered.symm.upgraded (reordered.wellFormed wellFormed) present with
    ⟨twin, twinPresent, alike⟩
  rw [alike.relation, alike.left, alike.right]
  exact every twin twinPresent

/-! ## Orders of addition -/

abbrev Addition := Relation × Value × Value

def Addition.constraint (addition : Addition) : Constraint :=
  { relation := addition.1, left := addition.2.1, right := addition.2.2 }

def addAll (graph : ValueGraph) (additions : List Addition) : Except AdditionError ValueGraph :=
  additions.foldlM (fun current addition => current.add addition.1 addition.2.1 addition.2.2) graph

def Addable (graph : ValueGraph) (addition : Addition) : Prop :=
  addition.1 ≠ .unspecified ∧ graph.owns addition.2.1 = true ∧ graph.owns addition.2.2 = true

theorem add_eq_ok_iff {addition : Addition} :
    graph.add addition.1 addition.2.1 addition.2.2 = .ok next ↔
      graph.Addable addition ∧
        next = { graph with constraints := graph.constraints.add addition.constraint } := by
  unfold add Addable
  split
  · next unspecified => simp [unspecified]
  · next specified =>
      split
      · next foreign =>
          rw [Bool.not_eq_true'] at foreign
          simp [foreign]
      · next ownLeft =>
          split
          · next foreign =>
              rw [Bool.not_eq_true'] at foreign
              simp [foreign]
          · next ownRight =>
              rw [Bool.not_eq_true', Bool.not_eq_false] at ownLeft ownRight
              rw [Except.ok.injEq, and_iff_right ⟨specified, ownLeft, ownRight⟩]
              exact eq_comm

theorem addAll_eq_ok_iff {additions : List Addition} :
    graph.addAll additions = .ok next ↔
      (∀ addition, addition ∈ additions → graph.Addable addition) ∧
        next = { graph with
          constraints := graph.constraints.addAll (additions.map Addition.constraint) } := by
  induction additions generalizing graph with
  | nil =>
      have unfolded : graph.addAll [] = .ok graph := rfl
      rw [unfolded, Except.ok.injEq]
      simp [ConstraintSet.addAll, eq_comm]
  | cons addition rest induction =>
      have unfolded : graph.addAll (addition :: rest) =
          (graph.add addition.1 addition.2.1 addition.2.2).bind fun current =>
            current.addAll rest := rfl
      rw [unfolded]
      cases added : graph.add addition.1 addition.2.1 addition.2.2 with
      | error failure =>
          have refused : ¬ graph.Addable addition := by
            intro addable
            have accepted := add_eq_ok_iff.mpr ⟨addable, rfl⟩
            rw [added] at accepted
            cases accepted
          simp [Except.bind, refused]
      | ok current =>
          rcases add_eq_ok_iff.mp added with ⟨addable, rfl⟩
          have later : ∀ other, Addable
              { graph with constraints := graph.constraints.add addition.constraint } other ↔
                graph.Addable other := fun _ => Iff.rfl
          simp only [Except.bind, induction, later, List.forall_mem_cons, addable, true_and,
            List.map_cons, ConstraintSet.addAll_cons]

private theorem forall_exists_alike {first second : ConstraintSet} (numbered : Numbered graph.parts)
    (firstAmong : ∀ member, member ∈ first.toList → member.Between graph.parts)
    (secondAmong : ∀ member, member ∈ second.toList → member.Between graph.parts)
    (included : first.keys ⊆ second.keys) :
    ∀ member, member ∈ first.toList → ∃ twin, twin ∈ second.toList ∧ member.Alike twin :=
  fun member present => ConstraintSet.exists_alike numbered secondAmong
    (firstAmong member present) (included (ConstraintSet.mem_keys present))

theorem addAll_reordered {additions reordered : List Addition} (wellFormed : graph.WellFormed)
    (added : base.addAll additions = .ok graph)
    (own : ∀ addition, addition ∈ additions →
      addition.2.1 ∈ base.values ∧ addition.2.2 ∈ base.values)
    (same : additions.Perm reordered) :
    ∃ other, base.addAll reordered = .ok other ∧ graph.Reordered other := by
  rcases addAll_eq_ok_iff.mp added with ⟨addable, rfl⟩
  have reorderedAddable : ∀ addition, addition ∈ reordered → base.Addable addition :=
    fun addition present => addable addition (same.mem_iff.mpr present)
  refine ⟨_, addAll_eq_ok_iff.mpr ⟨reorderedAddable, rfl⟩, ?_⟩
  have sameKeys : ∀ key,
      key ∈ (base.constraints.addAll (additions.map Addition.constraint)).keys ↔
        key ∈ (base.constraints.addAll (reordered.map Addition.constraint)).keys := by
    intro key
    rw [ConstraintSet.mem_keys_addAll, ConstraintSet.mem_keys_addAll,
      ((same.map Addition.constraint).map Constraint.key).mem_iff]
  have among : ∀ order : List Addition, order ⊆ additions →
      ∀ member, member ∈ (base.constraints.addAll (order.map Addition.constraint)).toList →
        member.Between base.parts := by
    intro order included member present
    rcases ConstraintSet.mem_or_mem_of_mem_addAll present with known | new
    · have sides := wellFormed.sides member (ConstraintSet.subset_addAll known)
      exact ⟨mem_parts_of_mem_values sides.1, mem_parts_of_mem_values sides.2⟩
    · rcases List.mem_map.mp new with ⟨addition, ordered, rfl⟩
      have sides := own addition (included ordered)
      exact ⟨mem_parts_of_mem_values sides.1, mem_parts_of_mem_values sides.2⟩
  have firstAmong := among additions (List.Subset.refl _)
  have secondAmong := among reordered same.symm.subset
  have numbered : Numbered base.parts := wellFormed.numbered
  exact ⟨⟨_, rfl⟩,
    forall_exists_alike numbered firstAmong secondAmong fun key => (sameKeys key).mp,
    forall_exists_alike numbered secondAmong firstAmong fun key => (sameKeys key).mpr⟩

end ValueGraph

end InfoFlow
