import InfoFlow.Proofs.Restriction

/-! Derivation from some of the leaves.

The rules join values that a constraint mentions with values that meet them in
known constraints. So if no known constraint mentions leaves of both sorts, what
follows from a constraint about leaves of one sort is derived from the part of
the index that is about that sort, and stays there. -/

namespace InfoFlow.Derivation

variable {inside : Leaf → Bool} {graph : ValueGraph} {before after : Annotations}
  {index : ReferenceIndex} {constraint proposal : Constraint} {existing : ConstraintSet}
  {values : List Value}

/-! ## The rules -/

private theorem throughField?_of_agree {value : Value} (closed : ClosedUnderParts values)
    (agree : Annotations.Agree inside values before after) (member : value ∈ values)
    (accepted : value.within inside = true) :
    throughField? after value = throughField? before value := by
  have declared := value.declaration_mem_parts
  exact throughField?_of_view (agree _ (closed _ _ declared member)
    (Value.within_of_mem_parts declared accepted))

private theorem bridges_restrict (divided : index.Divided inside values)
    (between : constraint.Between values) (accepted : constraint.within inside = true) :
    bridges (index.restrict inside) constraint = bridges index constraint := by
  have sides := Constraint.within_iff.mp accepted
  have called : ∀ {side call}, side ∈ values → side.within inside = true →
      call ∈ (index.adaptedFromDeclaration side).filter Value.isMethodAdapted →
        call ∈ values ∧ call.within inside = true := by
    intro side call member whole noted
    have found := List.mem_filter.mp (List.mem_filter.mp noted).1
    exact ⟨divided.among.adaptations found.1,
      divided.within_of_direct found.1 member whole (.inl found.2)⟩
  unfold bridges
  rw [divided.adaptedFromDeclaration_restrict between.1 sides.1,
    divided.adaptedFromDeclaration_restrict between.2 sides.2]
  refine List.flatMap_congr fun entry entered => List.flatMap_congr fun exit returned => ?_
  have entrySort := called between.1 sides.1 entered
  have exitSort := called between.2 sides.2 (List.mem_filter.mp returned).1
  rw [divided.superSide_restrict entrySort.1 entrySort.2,
    divided.subSide_restrict exitSort.1 exitSort.2]

theorem candidates_restrict (divided : index.Divided inside values)
    (between : constraint.Between values) (accepted : constraint.within inside = true)
    (agree : Annotations.Agree inside values before after) :
    candidates graph after (index.restrict inside) constraint =
      candidates graph before index constraint := by
  have sides := Constraint.within_iff.mp accepted
  have read := throughField?_of_agree divided.closed agree between.1 sides.1
  have written := throughField?_of_agree divided.closed agree between.2 sides.2
  have below : ∀ skip, joinedBelow (index.restrict inside) constraint skip =
      joinedBelow index constraint skip := by
    intro skip
    rw [joinedBelow, joinedBelow, divided.superSide_restrict between.1 sides.1]
  have above : joinedAbove (index.restrict inside) constraint = joinedAbove index constraint := by
    rw [joinedAbove, joinedAbove, divided.subSide_restrict between.2 sides.2]
  simp only [candidates, read, written, below, above, bridges_restrict divided between accepted]

/-! ## The search -/

theorem confined_of_mem_candidates (divided : index.Divided inside values)
    (flow : constraint.relation = .subtype) (confined : constraint.Confined inside values)
    (proposed : proposal ∈ candidates graph after (index.restrict inside) constraint) :
    proposal.Confined inside values := by
  let accepted := values.filter (Value.within inside)
  have closed : ClosedUnderParts accepted := by
    intro part whole below member
    have both := List.mem_filter.mp member
    exact List.mem_filter.mpr ⟨divided.closed part whole below both.1,
      Value.within_of_mem_parts below both.2⟩
  have between_iff : ∀ known : Constraint,
      known.Between accepted ↔ known.Confined inside values := by
    intro known
    simp only [Constraint.Between, Constraint.Confined, Constraint.within_iff, accepted,
      List.mem_filter]
    exact ⟨fun both => ⟨⟨both.1.1, both.2.1⟩, both.1.2, both.2.2⟩,
      fun both => ⟨⟨both.1.1, both.2.1⟩, both.1.2, both.2.2⟩⟩
  have handedOn := handedOn_between graph after closed (List.Subset.refl accepted)
  refine (between_iff proposal).mp (handedOn.rules (index.restrict inside) constraint ?_ ?_ flow
    ((between_iff constraint).mpr confined) proposal proposed)
  · intro known present
    have both := ConstraintSet.mem_restrict.mp present
    exact (between_iff known).mpr ⟨divided.among.sides known both.1, both.2⟩
  · intro adaptation noted
    have both := List.mem_filter.mp noted
    exact List.mem_filter.mpr ⟨divided.among.adaptations both.1, both.2⟩

structure Search.Confined (inside : Leaf → Bool) (values : List Value) (whole part : Search) :
    Prop where
  pending : part.pending = whole.pending
  found : part.found = whole.found
  index : part.index = whole.index.restrict inside
  divided : whole.index.Divided inside values
  flows : ∀ constraint, constraint ∈ whole.pending → constraint.relation = .subtype
  waiting : ∀ constraint, constraint ∈ whole.pending →
    constraint.Confined inside values
  confined : ∀ constraint, constraint ∈ whole.found.toList →
    constraint.Confined inside values

namespace Search

variable {whole part : Search}

theorem Confined.accept (confined : Confined inside values whole part)
    (among : ∀ member, member ∈ existing.toList → member.Between values)
    (flow : proposal.relation = .subtype) (accepted : proposal.Confined inside values) :
    Confined inside values (whole.accept graph existing proposal)
      (part.accept graph (existing.restrict inside) proposal) := by
  have known : (existing.restrict inside).contains proposal = existing.contains proposal := by
    rw [Bool.eq_iff_iff, ConstraintSet.contains_iff, ConstraintSet.contains_iff]
    exact ConstraintSet.mem_keys_restrict confined.divided.numbered among accepted.1 accepted.2
  unfold Search.accept
  rw [known, confined.found]
  split
  · exact confined
  · have registered := ReferenceIndex.restrict_register confined.divided accepted.1
      (.inl accepted.2)
    rw [if_pos accepted.2] at registered
    refine ⟨by rw [confined.pending], rfl, by rw [confined.index, registered],
      confined.divided.register accepted.1 (.inl accepted.2), ?_, ?_, ?_⟩
    · intro member present
      rcases List.mem_append.mp present with earlier | equal
      · exact confined.flows member earlier
      · exact List.mem_singleton.mp equal ▸ flow
    · intro member present
      rcases List.mem_append.mp present with earlier | equal
      · exact confined.waiting member earlier
      · exact List.mem_singleton.mp equal ▸ accepted
    · intro member present
      rcases ConstraintSet.mem_or_eq_of_mem_add present with earlier | equal
      · exact confined.confined member earlier
      · exact equal ▸ accepted

theorem Confined.foldl_accept {proposals : List Constraint}
    (confined : Confined inside values whole part)
    (among : ∀ member, member ∈ existing.toList → member.Between values)
    (offered : ∀ proposal, proposal ∈ proposals →
      proposal.relation = .subtype ∧ proposal.Confined inside values) :
    Confined inside values (proposals.foldl (Search.accept graph existing) whole)
      (proposals.foldl (Search.accept graph (existing.restrict inside)) part) := by
  induction proposals generalizing whole part with
  | nil => exact confined
  | cons proposal rest induction =>
      have first := offered proposal List.mem_cons_self
      exact induction (confined.accept among first.1 first.2) fun later member =>
        offered later (List.mem_cons_of_mem _ member)

theorem Confined.step (confined : Confined inside values whole part)
    (among : ∀ member, member ∈ existing.toList → member.Between values)
    (agree : Annotations.Agree inside values before after) :
    (whole.step graph before existing = none ∧
        part.step graph after (existing.restrict inside) = none) ∨
      ∃ wholeNext partNext, whole.step graph before existing = some wholeNext ∧
        part.step graph after (existing.restrict inside) = some partNext ∧
        Confined inside values wholeNext partNext := by
  unfold Search.step
  rw [confined.pending]
  cases pending : whole.pending with
  | nil => exact .inl ⟨rfl, rfl⟩
  | cons current rest =>
      have flow := confined.flows current (pending ▸ List.mem_cons_self)
      have turn := confined.waiting current (pending ▸ List.mem_cons_self)
      have same : candidates graph after part.index current =
          candidates graph before whole.index current := by
        rw [confined.index]
        exact candidates_restrict confined.divided turn.1 turn.2 agree
      have popped : Confined inside values { whole with pending := rest }
          { part with pending := rest } :=
        { confined with
          pending := rfl
          flows := fun member later =>
            confined.flows member (pending ▸ List.mem_cons_of_mem _ later)
          waiting := fun member later =>
            confined.waiting member (pending ▸ List.mem_cons_of_mem _ later) }
      refine .inr ⟨_, _, rfl, rfl, ?_⟩
      rw [same]
      refine popped.foldl_accept among fun proposal proposed => ?_
      refine ⟨(joined_of_mem_candidates proposed).1, ?_⟩
      rw [← same, confined.index] at proposed
      exact confined_of_mem_candidates confined.divided flow turn proposed

end Search

/-! ## Derivations -/

/-- What follows from a constraint about accepted leaves is derived from the
part of the index that is about these, and is about these itself. -/
theorem derive_restrict (divided : index.Divided inside values)
    (among : ∀ member, member ∈ existing.toList → member.Between values)
    (agree : Annotations.Agree inside values before after)
    (confined : constraint.Confined inside values) :
    (derive graph after (index.restrict inside) constraint (existing.restrict inside)).1 =
        (derive graph before index constraint existing).1 ∧
      ∀ member, member ∈ (derive graph before index constraint existing).1.toList →
        member.Confined inside values := by
  unfold derive
  split
  · next flow =>
    have start : Search.Confined inside values ⟨[constraint], {}, index⟩
        ⟨[constraint], {}, index.restrict inside⟩ := by
      refine ⟨rfl, rfl, rfl, divided, ?_, ?_, fun member present => by cases present⟩
      all_goals
        intro member present
        rw [List.mem_singleton.mp present]
        assumption
    have finished : ∀ (annotations : Annotations) (index : ReferenceIndex)
        (existing : ConstraintSet),
        (iterate (Search.step graph annotations existing)
          (index.extent [constraint] * index.extent [constraint] + 2)
          ⟨[constraint], {}, index⟩).step graph annotations existing = none := by
      intro annotations index existing
      rw [Search.step, search_finishes graph annotations index existing flow]
    have ended := iterate_related (fun _ _ related => Search.Confined.step related among agree)
      start (finished before index existing)
      (finished after (index.restrict inside) (existing.restrict inside))
    exact ⟨ended.found, ended.confined⟩
  · exact ⟨rfl, fun member present => by cases present⟩

end InfoFlow.Derivation
