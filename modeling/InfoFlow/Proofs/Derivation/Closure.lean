import InfoFlow.Proofs.Derivation.Settlement

/-! What the closure of a set contains.

Each member of the growing set is used once, on what is known at that time. A
flow that is derived later can be joined with earlier members only in its own
turn. Some joints are proposed from one of their flows alone, and these are
overlooked if the other flow comes too late. All other joints are in the
closure. -/

namespace InfoFlow.Derivation

variable {graph : ValueGraph} {annotations : Annotations} {index : ReferenceIndex}
  {origin : ConstraintSet} {constraint : Constraint} {source target : Value}
  {values : List Value} {found : List Constraint}

/-! ## Joints that are overlooked -/

/-- The joints that a flow proposes and that are not proposed from the other
flow. The other flow is not of the original set, so it may come too late:

* into a field, from another field or if what is read belongs to a call;
* out of a field that was filled from a call;
* from a leaf into a field;
* a bridge between calls. -/
inductive Overlooked (graph : ValueGraph) (origin : ConstraintSet) (index : ReferenceIndex)
    (constraint : Constraint) : Value → Value → Prop
  | intoField {lower : Constraint} (field : constraint.left.isFieldAdapted = true)
      (known : lower ∈ index.superSide constraint.left) (late : ¬ lower.key ∈ origin.keys)
      (apart : (lesser lower constraint.left).same constraint.right = false)
      (notMethod : (lesser lower constraint.left).isMethodAdapted = false)
      (oneSided : (lesser lower constraint.left).isFieldAdapted = true ∨
        constraint.right.isMethodAdapted = true) :
      Overlooked graph origin index constraint (lesser lower constraint.left) constraint.right
  | outOfField {upper : Constraint} (method : constraint.left.isMethodAdapted = true)
      (field : constraint.right.isFieldAdapted = true)
      (known : upper ∈ index.subSide constraint.right) (late : ¬ upper.key ∈ origin.keys)
      (apart : constraint.left.same (greater upper constraint.right) = false)
      (notMethod : (greater upper constraint.right).isMethodAdapted = false) :
      Overlooked graph origin index constraint constraint.left (greater upper constraint.right)
  | carriedOut {upper : Constraint} (direct : Direct graph constraint)
      (carried : constraint.left.flowsThroughCalls = true)
      (known : upper ∈ index.subSide constraint.right) (late : ¬ upper.key ∈ origin.keys)
      (apart : constraint.left.same (greater upper constraint.right) = false)
      (field : (greater upper constraint.right).isFieldAdapted = true) :
      Overlooked graph origin index constraint constraint.left (greater upper constraint.right)
  | bridged {entry exit : Value} {lower upper : Constraint} (direct : Direct graph constraint)
      (leftCarried : constraint.left.flowsThroughCalls = true)
      (rightCarried : constraint.right.flowsThroughCalls = true)
      (entered : entry ∈ index.adaptedFromDeclaration constraint.left)
      (entryMethod : entry.isMethodAdapted = true)
      (returned : exit ∈ index.adaptedFromDeclaration constraint.right)
      (exitMethod : exit.isMethodAdapted = true)
      (sameCall : entry.context.same exit.context = true)
      (lowerKnown : lower ∈ index.superSide entry) (upperKnown : upper ∈ index.subSide exit)
      (late : ¬ lower.key ∈ origin.keys ∨ ¬ upper.key ∈ origin.keys) :
      Overlooked graph origin index constraint (lesser lower entry) (greater upper exit)

private theorem not_isMethodAdapted_of_field {value : Value}
    (field : value.isFieldAdapted = true) : value.isMethodAdapted = false := by
  cases value with
  | leaf content => rfl
  | adapted adaptation =>
      cases adaptation with
      | method => cases field
      | field => rfl

private theorem not_isFieldAdapted_of_method {value : Value}
    (method : value.isMethodAdapted = true) : value.isFieldAdapted = false := by
  cases value with
  | leaf content => rfl
  | adapted adaptation =>
      cases adaptation with
      | method => rfl
      | field => cases method

private theorem not_isLeaf_of_method {value : Value} (method : value.isMethodAdapted = true) :
    value.isLeaf = false := by
  cases value with
  | leaf content => cases method
  | adapted => rfl

theorem Overlooked.proposed (annotations : Annotations)
    (overlooked : Overlooked graph origin index constraint source target) :
    Proposed graph annotations index constraint source target := by
  cases overlooked with
  | intoField field known late apart notMethod => exact .intoField field known apart notMethod
  | outOfField method field known late apart notMethod =>
      exact .outOfField (not_isFieldAdapted_of_method method) field known apart notMethod
  | carriedOut direct carried known late apart field =>
      exact .carriedOut direct carried known apart (not_isMethodAdapted_of_field field)
  | bridged direct leftCarried rightCarried entered entryMethod returned exitMethod sameCall
      lowerKnown upperKnown =>
      exact .bridged direct leftCarried rightCarried entered entryMethod returned exitMethod
        sameCall lowerKnown upperKnown

theorem Overlooked.mono {more : ReferenceIndex}
    (overlooked : Overlooked graph origin index constraint source target)
    (registered : index.registered.toList ⊆ more.registered.toList)
    (adaptations : index.adaptations ⊆ more.adaptations) :
    Overlooked graph origin more constraint source target := by
  have subSide := ReferenceIndex.subSide_subset registered
  have superSide := ReferenceIndex.superSide_subset registered
  have adapted := ReferenceIndex.adaptedFromDeclaration_subset adaptations
  cases overlooked with
  | intoField field known late apart notMethod oneSided =>
      exact .intoField field (superSide _ known) late apart notMethod oneSided
  | outOfField method field known late apart notMethod =>
      exact .outOfField method field (subSide _ known) late apart notMethod
  | carriedOut direct carried known late apart field =>
      exact .carriedOut direct carried (subSide _ known) late apart field
  | bridged direct leftCarried rightCarried entered entryMethod returned exitMethod sameCall
      lowerKnown upperKnown late =>
      exact .bridged direct leftCarried rightCarried (adapted _ entered) entryMethod
        (adapted _ returned) exitMethod sameCall (superSide _ lowerKnown) (subSide _ upperKnown)
        late

/-! ## Flows that come later -/

private theorem lesser_of_subtype (relation : constraint.relation = .subtype) (value : Value) :
    lesser constraint value = constraint.left := by
  simp [lesser, relation]

private theorem greater_of_subtype (relation : constraint.relation = .subtype) (value : Value) :
    greater constraint value = constraint.right := by
  simp [greater, relation]

private theorem mem_superSide_of_subtype (relation : constraint.relation = .subtype)
    (value : Value) :
    constraint ∈ index.superSide value ↔
      constraint ∈ index.registered.toList ∧ constraint.right.same value = true := by
  simp [ReferenceIndex.mem_superSide, Constraint.FlowsTo, relation]

private theorem mem_subSide_of_subtype (relation : constraint.relation = .subtype)
    (value : Value) :
    constraint ∈ index.subSide value ↔
      constraint ∈ index.registered.toList ∧ constraint.left.same value = true := by
  simp [ReferenceIndex.mem_subSide, Constraint.FlowsFrom, relation]

private structure Meets (index : ReferenceIndex) (lower upper : Constraint) : Prop where
  lowerKnown : lower ∈ index.registered.toList
  upperKnown : upper ∈ index.registered.toList
  lowerFlow : lower.relation = .subtype
  upperFlow : upper.relation = .subtype
  meet : lower.right = upper.left

private theorem Meets.below {lower upper : Constraint} (meets : Meets index lower upper) :
    lower ∈ index.superSide upper.left :=
  (mem_superSide_of_subtype meets.lowerFlow _).mpr
    ⟨meets.lowerKnown, meets.meet ▸ Value.same_refl _⟩

private theorem Meets.above {lower upper : Constraint} (meets : Meets index lower upper) :
    upper ∈ index.subSide lower.right :=
  (mem_subSide_of_subtype meets.upperFlow _).mpr
    ⟨meets.upperKnown, meets.meet ▸ Value.same_refl _⟩

private theorem Meets.lower_proposes {lower upper : Constraint} (meets : Meets index lower upper)
    (late : ¬ lower.key ∈ origin.keys) (field : upper.left.isFieldAdapted = true)
    (apart : lower.left.same upper.right = false) (notMethod : lower.left.isMethodAdapted = false) :
    Proposed graph annotations index lower lower.left upper.right ∨
      Overlooked graph origin index upper lower.left upper.right := by
  by_cases oneSided : lower.left.isFieldAdapted = true ∨ upper.right.isMethodAdapted = true
  · have source := lesser_of_subtype meets.lowerFlow upper.left
    rw [← source] at apart notMethod oneSided ⊢
    exact .inr (.intoField field meets.below late apart notMethod oneSided)
  · rw [not_or, Bool.not_eq_true, Bool.not_eq_true] at oneSided
    have target := greater_of_subtype meets.upperFlow lower.right
    have meetField : lower.right.isFieldAdapted = true := meets.meet ▸ field
    rw [← target] at apart oneSided ⊢
    exact .inl (.outOfField oneSided.1 meetField meets.above apart oneSided.2)

private theorem Meets.upper_proposes {lower upper : Constraint} (meets : Meets index lower upper)
    (late : ¬ upper.key ∈ origin.keys) (field : lower.right.isFieldAdapted = true)
    (apart : lower.left.same upper.right = false)
    (notMethod : upper.right.isMethodAdapted = false) :
    Proposed graph annotations index upper lower.left upper.right ∨
      Overlooked graph origin index lower lower.left upper.right := by
  cases method : lower.left.isMethodAdapted with
  | true =>
      have target := greater_of_subtype meets.upperFlow lower.right
      rw [← target] at apart notMethod ⊢
      exact .inr (.outOfField method field meets.above late apart notMethod)
  | false =>
      have source := lesser_of_subtype meets.lowerFlow upper.left
      have meetField : upper.left.isFieldAdapted = true := meets.meet ▸ field
      rw [← source] at apart method ⊢
      exact .inl (.intoField meetField meets.below apart method)

private theorem Meets.lower_carries {lower upper : Constraint} (meets : Meets index lower upper)
    (connected : graph.canConnect lower.left lower.right = true) (direct : Direct graph upper)
    (apart : lower.left.same upper.right = false)
    (carried : lower.left.flowsThroughCalls = true) :
    Proposed graph annotations index lower lower.left upper.right := by
  have lowerDirect : Direct graph lower :=
    ⟨Value.isLeaf_of_flowsThroughCalls carried, meets.meet ▸ direct.left, connected⟩
  have target := greater_of_subtype meets.upperFlow lower.right
  have notMethod := (Value.isLeaf_iff.mp direct.right).2
  rw [← target] at apart notMethod ⊢
  exact .carriedOut lowerDirect carried meets.above apart notMethod

private theorem Meets.upper_carries {lower upper : Constraint} (meets : Meets index lower upper)
    (connected : graph.canConnect upper.left upper.right = true)
    (late : ¬ upper.key ∈ origin.keys) (direct : Direct graph lower)
    (carried : lower.left.flowsThroughCalls = true) (apart : lower.left.same upper.right = false)
    (notMethod : upper.right.isMethodAdapted = false) :
    Proposed graph annotations index upper lower.left upper.right ∨
      Overlooked graph origin index lower lower.left upper.right := by
  cases field : upper.right.isFieldAdapted with
  | true =>
      have target := greater_of_subtype meets.upperFlow lower.right
      rw [← target] at apart field ⊢
      exact .inr (.carriedOut direct carried meets.above late apart field)
  | false =>
      have upperDirect : Direct graph upper :=
        ⟨meets.meet ▸ direct.right, Value.isLeaf_iff.mpr ⟨field, notMethod⟩, connected⟩
      have source := lesser_of_subtype meets.lowerFlow upper.left
      rw [← source] at apart carried ⊢
      exact .inl (.carriedIn upperDirect meets.below apart carried)

/-- An index that is extended by flows, between values that can be connected,
which are not of the original set. -/
structure Extended (graph : ValueGraph) (origin : ConstraintSet) (values : List Value)
    (index : ReferenceIndex) (found : List Constraint) : Prop where
  numbered : Numbered values
  noted : index.Noted
  among : index.Among values
  amongAfter : (index.registerAll found).Among values
  registered : (index.registerAll found).registered.toList = index.registered.toList ++ found
  late : ∀ member, member ∈ found → ¬ member.key ∈ origin.keys
  flows : ∀ member, member ∈ found → member.relation = .subtype
  connected : ∀ member, member ∈ found → graph.canConnect member.left member.right = true

namespace Extended

private theorem mem_superSide (extended : Extended graph origin values index found)
    {lower : Constraint} {value : Value}
    (known : lower ∈ (index.registerAll found).superSide value) :
    lower ∈ index.superSide value ∨ lower ∈ found := by
  rcases List.mem_filter.mp known with ⟨present, side⟩
  rw [extended.registered, List.mem_append] at present
  exact present.imp_left fun earlier => List.mem_filter.mpr ⟨earlier, side⟩

private theorem mem_subSide (extended : Extended graph origin values index found)
    {upper : Constraint} {value : Value}
    (known : upper ∈ (index.registerAll found).subSide value) :
    upper ∈ index.subSide value ∨ upper ∈ found := by
  rcases List.mem_filter.mp known with ⟨present, side⟩
  rw [extended.registered, List.mem_append] at present
  exact present.imp_left fun earlier => List.mem_filter.mpr ⟨earlier, side⟩

private theorem meets_lower (extended : Extended graph origin values index found)
    (known : constraint ∈ (index.registerAll found).registered.toList)
    (flow : constraint.relation = .subtype) {lower : Constraint} (new : lower ∈ found)
    (side : lower ∈ (index.registerAll found).superSide constraint.left) :
    Meets (index.registerAll found) lower constraint := by
  have lowerFlow := extended.flows lower new
  rcases (mem_superSide_of_subtype lowerFlow _).mp side with ⟨lowerKnown, same⟩
  have lowerBetween := extended.amongAfter.sides lower lowerKnown
  have between := extended.amongAfter.sides constraint known
  exact ⟨lowerKnown, known, lowerFlow, flow,
    extended.numbered _ _ lowerBetween.2 between.1 same⟩

private theorem meets_upper (extended : Extended graph origin values index found)
    (known : constraint ∈ (index.registerAll found).registered.toList)
    (flow : constraint.relation = .subtype) {upper : Constraint} (new : upper ∈ found)
    (side : upper ∈ (index.registerAll found).subSide constraint.right) :
    Meets (index.registerAll found) constraint upper := by
  have upperFlow := extended.flows upper new
  rcases (mem_subSide_of_subtype upperFlow _).mp side with ⟨upperKnown, same⟩
  have upperBetween := extended.amongAfter.sides upper upperKnown
  have between := extended.amongAfter.sides constraint known
  exact ⟨known, upperKnown, flow, upperFlow,
    (extended.numbered _ _ upperBetween.1 between.2 same).symm⟩

private theorem mem_adaptedFromDeclaration (extended : Extended graph origin values index found)
    {call declaration : Value} (method : call.isMethodAdapted = true)
    (made : call ∈ (index.registerAll found).adaptedFromDeclaration declaration)
    (earlier : constraint ∈ index.registered.toList)
    (mentions : constraint.left.same call = true ∨ constraint.right.same call = true) :
    call ∈ index.adaptedFromDeclaration declaration := by
  rcases List.mem_filter.mp made with ⟨noted, declared⟩
  have member := extended.amongAfter.adaptations noted
  have between := extended.among.sides constraint earlier
  have side : call = constraint.left ∨ call = constraint.right :=
    mentions.imp (fun left => (extended.numbered _ _ between.1 member left).symm)
      (fun right => (extended.numbered _ _ between.2 member right).symm)
  have before : call ∈ index.adaptations := ReferenceIndex.mem_adaptations extended.among
    extended.noted extended.numbered earlier side (not_isLeaf_of_method method)
  exact List.mem_filter.mpr ⟨before, declared⟩

/-- What a flow proposes after the extension it proposed before, or one of the
new flows proposes it, or it is overlooked. -/
theorem proposed (extended : Extended graph origin values index found)
    (known : constraint ∈ (index.registerAll found).registered.toList)
    (flow : constraint.relation = .subtype)
    (proposed : Proposed graph annotations (index.registerAll found) constraint source target) :
    Proposed graph annotations index constraint source target ∨
      (∃ trigger, trigger ∈ found ∧
        Proposed graph annotations (index.registerAll found) trigger source target) ∨
      Overlooked graph origin (index.registerAll found) constraint source target := by
  cases proposed with
  | read through => exact .inl (.read through)
  | written notField through => exact .inl (.written notField through)
  | @intoField lower field side apart notMethod =>
      rcases extended.mem_superSide side with earlier | new
      · exact .inl (.intoField field earlier apart notMethod)
      · rw [lesser_of_subtype (extended.flows lower new)] at apart notMethod ⊢
        exact .inr (((extended.meets_lower known flow new side).lower_proposes
          (extended.late lower new) field apart notMethod).imp_left fun made => ⟨lower, new, made⟩)
  | @outOfField upper notField field side apart notMethod =>
      rcases extended.mem_subSide side with earlier | new
      · exact .inl (.outOfField notField field earlier apart notMethod)
      · rw [greater_of_subtype (extended.flows upper new)] at apart notMethod ⊢
        exact .inr (((extended.meets_upper known flow new side).upper_proposes
          (extended.late upper new) field apart notMethod).imp_left fun made => ⟨upper, new, made⟩)
  | @carriedIn lower direct side apart carried =>
      rcases extended.mem_superSide side with earlier | new
      · exact .inl (.carriedIn direct earlier apart carried)
      · rw [lesser_of_subtype (extended.flows lower new)] at apart carried ⊢
        exact .inr (.inl ⟨lower, new, (extended.meets_lower known flow new side).lower_carries
          (extended.connected lower new) direct apart carried⟩)
  | @carriedOut upper direct carried side apart notMethod =>
      rcases extended.mem_subSide side with earlier | new
      · exact .inl (.carriedOut direct carried earlier apart notMethod)
      · rw [greater_of_subtype (extended.flows upper new)] at apart notMethod ⊢
        exact .inr (((extended.meets_upper known flow new side).upper_carries
          (extended.connected upper new) (extended.late upper new) direct carried apart
          notMethod).imp_left fun made => ⟨upper, new, made⟩)
  | @bridged entry exit lower upper direct leftCarried rightCarried entered entryMethod returned
      exitMethod sameCall lowerKnown upperKnown =>
      have overlooked : ¬ lower.key ∈ origin.keys ∨ ¬ upper.key ∈ origin.keys →
          Overlooked graph origin (index.registerAll found) constraint (lesser lower entry)
            (greater upper exit) :=
        .bridged direct leftCarried rightCarried entered entryMethod returned exitMethod sameCall
          lowerKnown upperKnown
      rcases extended.mem_superSide lowerKnown with lowerEarlier | lowerNew
      · rcases extended.mem_subSide upperKnown with upperEarlier | upperNew
        · have entryBefore := extended.mem_adaptedFromDeclaration entryMethod entered
            (List.mem_filter.mp lowerEarlier).1 (ReferenceIndex.side_of_mem_superSide lowerEarlier)
          have exitBefore := extended.mem_adaptedFromDeclaration exitMethod returned
            (List.mem_filter.mp upperEarlier).1 (ReferenceIndex.side_of_mem_subSide upperEarlier)
          exact .inl (.bridged direct leftCarried rightCarried entryBefore entryMethod exitBefore
            exitMethod sameCall lowerEarlier upperEarlier)
        · exact .inr (.inr (overlooked (.inr (extended.late upper upperNew))))
      · exact .inr (.inr (overlooked (.inl (extended.late lower lowerNew))))

end Extended

/-! ## The run of a closure -/

structure Gain (graph : ValueGraph) (values : List Value) (members : ConstraintSet)
    (found : List Constraint) : Prop where
  distinct : (found.map Constraint.key).Nodup
  new : ∀ member, member ∈ found → ¬ member.key ∈ members.keys
  flows : ∀ member, member ∈ found → member.relation = .subtype
  between : ∀ member, member ∈ found → member.Between values
  connected : ∀ member, member ∈ found → graph.canConnect member.left member.right = true

theorem Gain.toList {members : ConstraintSet} (gain : Gain graph values members found) :
    (members.addAll found).toList = members.toList ++ found :=
  ConstraintSet.toList_addAll_of_new gain.distinct gain.new

namespace Closing

variable {closing next : Closing} {rest : List Constraint}

/-- The invariant of a closure: the set has grown by flows, and the index is
its own. -/
structure Valid (closing : Closing) (origin : ConstraintSet) (values : List Value) : Prop where
  index : closing.index = .ofList closing.members.toList
  distinct : closing.members.keys.Nodup
  between : ∀ member, member ∈ closing.members.toList → member.Between values
  pending : closing.pending ⊆ closing.members.toList
  grown : ∃ derived, closing.members.toList = origin.toList ++ derived ∧
    ∀ member, member ∈ derived → member.relation = .subtype

theorem Valid.registered (valid : closing.Valid origin values) :
    closing.index.registered = closing.members := by
  rw [valid.index]
  exact ReferenceIndex.registered_ofList valid.distinct

theorem Valid.among (valid : closing.Valid origin values) : closing.index.Among values := by
  rw [valid.index]
  exact ReferenceIndex.among_ofList valid.between

theorem Valid.registerAll (valid : closing.Valid origin values)
    (gain : Gain graph values closing.members found) :
    closing.index.registerAll found = .ofList (closing.members.addAll found).toList := by
  rw [gain.toList, valid.index]
  simp only [ReferenceIndex.ofList, ReferenceIndex.registerAll, List.foldl_append]

theorem Valid.extend (valid : closing.Valid origin values)
    (gain : Gain graph values closing.members found) (included : rest ⊆ closing.members.toList) :
    Valid ⟨rest ++ found, closing.members.addAll found, closing.index.registerAll found⟩ origin
      values where
  index := valid.registerAll gain
  distinct := ConstraintSet.nodup_keys_addAll valid.distinct found
  between := by
    intro member present
    rcases ConstraintSet.mem_or_mem_of_mem_addAll present with earlier | new
    · exact valid.between member earlier
    · exact gain.between member new
  pending := by
    intro member present
    rw [gain.toList]
    rcases List.mem_append.mp present with later | new
    · exact List.mem_append_left _ (included later)
    · exact List.mem_append_right _ new
  grown := by
    rcases valid.grown with ⟨derived, equal, flows⟩
    refine ⟨derived ++ found, ?_, ?_⟩
    · rw [gain.toList, equal, List.append_assoc]
    · intro member present
      rcases List.mem_append.mp present with earlier | new
      · exact flows member earlier
      · exact gain.flows member new

theorem Valid.extended (valid : closing.Valid origin values) (numbered : Numbered values)
    (gain : Gain graph values closing.members found) :
    Extended graph origin values closing.index found where
  numbered := numbered
  noted := by
    rw [valid.index]
    exact ReferenceIndex.noted_ofList _
  among := valid.among
  amongAfter := valid.among.registerAll gain.between
  registered := by
    rw [ReferenceIndex.registered_registerAll, valid.registered, gain.toList]
  late := by
    intro member new original
    rcases valid.grown with ⟨derived, equal, -⟩
    refine gain.new member new ?_
    rw [ConstraintSet.keys, equal, List.map_append]
    exact List.mem_append_left _ original
  flows := gain.flows
  connected := gain.connected

theorem Valid.step_eq (valid : closing.Valid origin values) (closed : ClosedUnderParts values)
    (stepped : closing.step graph annotations = some next) :
    ∃ current rest found, closing.pending = current :: rest ∧
      found = (derive graph annotations closing.index current closing.members).1.toList ∧
      Gain graph values closing.members found ∧
      next = ⟨rest ++ found, closing.members.addAll found, closing.index.registerAll found⟩ := by
  unfold Closing.step at stepped
  split at stepped
  · cases stepped
  · next current rest pending =>
      have known : ∀ member, member ∈ closing.index.registered.toList → member.Between values :=
        valid.registered.symm ▸ valid.between
      have holds := valid.between current (valid.pending (pending ▸ List.mem_cons_self))
      have derived : Found closing.members closing.index (Constraint.Between values)
          (derive graph annotations closing.index current closing.members) :=
        derive_found (handedOn_between graph annotations closed (List.Subset.refl _)) known
          valid.among.adaptations holds
      refine ⟨current, rest, _, pending, rfl,
        ⟨derived.distinct, derived.new, derived.flows, derived.holds, derive_connected⟩, ?_⟩
      rw [← derived.index]
      exact (Option.some.inj stepped).symm

theorem Valid.step (valid : closing.Valid origin values) (closed : ClosedUnderParts values)
    (stepped : closing.step graph annotations = some next) : next.Valid origin values := by
  rcases valid.step_eq closed stepped with ⟨current, rest, found, pending, -, gain, rfl⟩
  refine valid.extend gain fun member later => valid.pending ?_
  rw [pending]
  exact List.mem_cons_of_mem _ later

/-- Whatever a member proposes is settled, or is proposed by a flow that is
still pending, or is overlooked. -/
def Attended (closing : Closing) (graph : ValueGraph) (annotations : Annotations)
    (origin : ConstraintSet) : Prop :=
  ∀ member, member ∈ closing.members.toList → member.relation = .subtype →
    ∀ source target, Proposed graph annotations closing.index member source target →
      Settled graph closing.members.keys source target ∨
        (∃ trigger, trigger ∈ closing.pending ∧ trigger.relation = .subtype ∧
          Proposed graph annotations closing.index trigger source target) ∨
        Overlooked graph origin closing.index member source target

theorem Attended.step (attended : closing.Attended graph annotations origin)
    (valid : closing.Valid origin values) (numbered : Numbered values)
    (closed : ClosedUnderParts values) (stepped : closing.step graph annotations = some next) :
    next.Attended graph annotations origin := by
  rcases valid.step_eq closed stepped with
    ⟨current, rest, found, pending, derived, gain, rfl⟩
  have extended := valid.extended numbered gain
  have registered : closing.index.registered.toList ⊆
      (closing.index.registerAll found).registered.toList := by
    rw [extended.registered]
    exact List.subset_append_left _ _
  have adaptations := closing.index.adaptations_subset_registerAll found
  have keys : closing.members.keys ⊆ (closing.members.addAll found).keys :=
    fun _ present => ConstraintSet.mem_keys_addAll.mpr (.inl present)
  intro member present flow source target proposed
  have known : member ∈ (closing.index.registerAll found).registered.toList := by
    rw [ReferenceIndex.registered_registerAll, valid.registered]
    exact present
  rcases ConstraintSet.mem_or_mem_of_mem_addAll present with earlier | new
  · rcases extended.proposed known flow proposed with before | ⟨trigger, triggerNew, again⟩ | late
    · rcases attended member earlier flow source target before with
        settled | ⟨trigger, waits, triggerFlow, again⟩ | late
      · exact .inl (settled.mono keys)
      · rw [pending, List.mem_cons] at waits
        rcases waits with turn | later
        · rw [turn] at triggerFlow again
          exact .inl (derived ▸ derive_settles triggerFlow again)
        · exact .inr (.inl ⟨trigger, List.mem_append_left _ later, triggerFlow,
            again.mono registered adaptations⟩)
      · exact .inr (.inr (late.mono registered adaptations))
    · exact .inr (.inl ⟨trigger, List.mem_append_right _ triggerNew, gain.flows trigger triggerNew,
        again⟩)
    · exact .inr (.inr late)
  · exact .inr (.inl ⟨member, List.mem_append_right _ new, flow, proposed⟩)

/-- When nothing is pending any more, the set is closed exactly if what was
overlooked is settled. -/
theorem Attended.closed_iff (attended : closing.Attended graph annotations origin)
    (empty : closing.pending = []) :
    (∀ member, member ∈ closing.members.toList →
        (derive graph annotations closing.index member closing.members).1.toList = []) ↔
      ∀ member, member ∈ closing.members.toList → member.relation = .subtype →
        ∀ source target, Overlooked graph origin closing.index member source target →
          Settled graph closing.members.keys source target := by
  constructor
  · intro idle member present flow source target overlooked
    exact derive_eq_nil_iff.mp (idle member present) flow source target
      (overlooked.proposed annotations)
  · intro settled member present
    refine derive_eq_nil_iff.mpr fun flow source target proposed => ?_
    rcases attended member present flow source target proposed with
      known | ⟨trigger, waits, -⟩ | overlooked
    · exact known
    · rw [empty] at waits
      cases waits
    · exact settled member present flow source target overlooked

/-! ## The end of the run -/

def remaining (closing : Closing) (origin : ConstraintSet) (values : List Value) : Nat :=
  closing.pending.length +
    (values.length * values.length - (closing.members.size - origin.size))

theorem Valid.derived_le (valid : closing.Valid origin values) :
    origin.size ≤ closing.members.size ∧
      closing.members.size - origin.size ≤ values.length * values.length := by
  rcases valid.grown with ⟨derived, equal, flows⟩
  have sizes : closing.members.size = origin.size + derived.length := by
    rw [ConstraintSet.size, equal, List.length_append, ConstraintSet.size]
  have distinct := valid.distinct
  rw [ConstraintSet.keys, equal, List.map_append] at distinct
  have bound : ConstraintSet.size ⟨derived⟩ ≤ values.length * values.length :=
    size_le_of_flows (List.nodup_append.mp distinct).2.1 flows fun member present =>
      valid.between member (equal ▸ List.mem_append_right _ present)
  simp only [ConstraintSet.size] at bound sizes ⊢
  omega

theorem Valid.remaining_step (valid : closing.Valid origin values)
    (closed : ClosedUnderParts values) (stepped : closing.step graph annotations = some next) :
    next.remaining origin values < closing.remaining origin values := by
  have bound := (valid.step closed stepped).derived_le
  have before := valid.derived_le
  rcases valid.step_eq closed stepped with ⟨current, rest, found, pending, -, gain, rfl⟩
  have sizes : (closing.members.addAll found).size = closing.members.size + found.length := by
    rw [ConstraintSet.size, gain.toList, List.length_append, ConstraintSet.size]
  simp only [remaining, pending, sizes, List.length_append, List.length_cons] at bound ⊢
  omega

end Closing

def closure (graph : ValueGraph) (annotations : Annotations) (constraints : ConstraintSet) :
    Closing :=
  let index := ReferenceIndex.ofList constraints.toList
  let extent := index.extent constraints.toList
  iterate (Closing.step graph annotations) (constraints.size + extent * extent + 1)
    ⟨constraints.toList, constraints, index⟩

theorem close_eq (graph : ValueGraph) (annotations : Annotations) (constraints : ConstraintSet) :
    close graph annotations (.ofList constraints.toList) constraints =
      ((closure graph annotations constraints).members,
        (closure graph annotations constraints).index) := rfl

section

variable {constraints : ConstraintSet}

private theorem closing_start (distinct : constraints.keys.Nodup) :
    Closing.Valid ⟨constraints.toList, constraints, .ofList constraints.toList⟩ constraints
      (sideParts constraints.toList) where
  index := rfl
  distinct := distinct
  between := fun _ present => between_sideParts present
  pending := List.Subset.refl _
  grown := ⟨[], (List.append_nil _).symm, fun member present => by cases present⟩

theorem closure_valid (graph : ValueGraph) (annotations : Annotations)
    (distinct : constraints.keys.Nodup) :
    (closure graph annotations constraints).Valid constraints (sideParts constraints.toList) := by
  have kept : ∀ current next, Closing.step graph annotations current = some next →
      current.Valid constraints (sideParts constraints.toList) →
        next.Valid constraints (sideParts constraints.toList) :=
    fun _ _ stepped valid => valid.step (closed_sideParts _) stepped
  exact iterate_preserves kept _ (closing_start distinct)

/-- The rounds of a closure are enough to use all of its members. -/
theorem closure_pending (graph : ValueGraph) (annotations : Annotations)
    (distinct : constraints.keys.Nodup) :
    (closure graph annotations constraints).pending = [] := by
  let values := sideParts constraints.toList
  let index := ReferenceIndex.ofList constraints.toList
  have bound : values.length ≤ index.extent constraints.toList := by
    rw [ReferenceIndex.extent, List.flatMap_append, List.length_append]
    exact Nat.le_add_left _ _
  have squares := Nat.mul_le_mul bound bound
  have enough : Closing.remaining ⟨constraints.toList, constraints, index⟩ constraints values ≤
      constraints.size + index.extent constraints.toList * index.extent constraints.toList + 1 := by
    simp only [Closing.remaining, ConstraintSet.size]
    omega
  have kept : ∀ current next, Closing.step graph annotations current = some next →
      current.Valid constraints values → next.Valid constraints values :=
    fun _ _ stepped valid => valid.step (closed_sideParts _) stepped
  have finished : Closing.step graph annotations (closure graph annotations constraints) = none :=
    iterate_finishes (fun closing => closing.remaining constraints values) kept
      (fun _ _ stepped valid => valid.remaining_step (closed_sideParts _) stepped)
      (closing_start distinct) enough
  unfold Closing.step at finished
  split at finished
  · assumption
  · cases finished

theorem closure_attended (graph : ValueGraph) (annotations : Annotations)
    (numbered : Numbered (sideParts constraints.toList)) (distinct : constraints.keys.Nodup) :
    (closure graph annotations constraints).Attended graph annotations constraints := by
  have kept : ∀ current next, Closing.step graph annotations current = some next →
      current.Valid constraints (sideParts constraints.toList) ∧
          current.Attended graph annotations constraints →
        next.Valid constraints (sideParts constraints.toList) ∧
          next.Attended graph annotations constraints :=
    fun _ _ stepped both => ⟨both.1.step (closed_sideParts _) stepped,
      both.2.step both.1 numbered (closed_sideParts _) stepped⟩
  have start : Closing.Attended ⟨constraints.toList, constraints, .ofList constraints.toList⟩ graph
      annotations constraints :=
    fun member present flow _ _ proposed => .inr (.inl ⟨member, present, flow, proposed⟩)
  exact (iterate_preserves kept _ ⟨closing_start distinct, start⟩).2

/-- The closure of constraints between leaves is closed. -/
theorem close_closed_of_leaves (graph : ValueGraph) (annotations : Annotations)
    (numbered : Numbered (sideParts constraints.toList)) (distinct : constraints.keys.Nodup)
    (leaves : ∀ value, value ∈ sideParts constraints.toList → value.isLeaf = true) :
    let closed := close graph annotations (.ofList constraints.toList) constraints
    ∀ member, member ∈ closed.1.toList →
      (derive graph annotations closed.2 member closed.1).1.toList = [] := by
  have valid := closure_valid graph annotations distinct
  have attended := closure_attended graph annotations numbered distinct
  have notField := fun value member => (Value.isLeaf_iff.mp (leaves value member)).1
  rw [close_eq]
  refine (attended.closed_iff (closure_pending graph annotations distinct)).mpr ?_
  intro member present flow source target overlooked
  have between := valid.between member present
  cases overlooked with
  | intoField field =>
      rw [notField _ between.1] at field
      cases field
  | outOfField method field =>
      rw [notField _ between.2] at field
      cases field
  | carriedOut direct carried known late apart field =>
      have upperBetween := valid.among.sides _ (List.mem_filter.mp known).1
      rw [notField _ (greater_mem _ upperBetween.1 upperBetween.2)] at field
      cases field
  | bridged direct leftCarried rightCarried entered entryMethod =>
      have entryMember := valid.among.adaptations (List.mem_filter.mp entered).1
      rw [(Value.isLeaf_iff.mp (leaves _ entryMember)).2] at entryMethod
      cases entryMethod

/-- Close a set of constraints among whose sides and their parts a number
belongs to one value. All members are used in the end. The set is closed exactly
if it settles what was overlooked: nothing new can be derived from any member
except by joints that only one of their flows proposes, where the other flow was
derived. -/
theorem close_closed_iff (graph : ValueGraph) (annotations : Annotations)
    (constraints : ConstraintSet) (numbered : Numbered (sideParts constraints.toList))
    (distinct : constraints.keys.Nodup) :
    let closed := close graph annotations (.ofList constraints.toList) constraints
    (closure graph annotations constraints).pending = [] ∧
      ((∀ member, member ∈ closed.1.toList →
          (derive graph annotations closed.2 member closed.1).1.toList = []) ↔
        ∀ member, member ∈ closed.1.toList → member.relation = .subtype →
          ∀ source target, Overlooked graph constraints closed.2 member source target →
            graph.canConnect source target = true →
              ⟨.subtype, source.id, target.id⟩ ∈ closed.1.keys) := by
  have attended := closure_attended graph annotations numbered distinct
  have empty := closure_pending graph annotations distinct
  rw [close_eq]
  exact ⟨empty, attended.closed_iff empty⟩

end

/-- A parameter that is stored in a field, whose content is passed to another
method. -/
def passedContent : ValueGraph :=
  let main : Method := { declaringClass := "App", name := "main" }
  let run : Method := { declaringClass := "Box", name := "run" }
  let field : Value := .leaf (LeafSpec.leaf { identifier := "f", kind := .field } 0 0)
  let object : Value := .leaf (LeafSpec.leaf { identifier := "o", method := some main } 0 1)
  let parameter : Value := .leaf
    (LeafSpec.leaf { identifier := "q", kind := .parameter, method := some run } 0 2)
  let argument : Value := .leaf
    (LeafSpec.leaf { identifier := "p", kind := .parameter, method := some main } 0 3)
  let stored : Value := .leaf (LeafSpec.leaf { identifier := "x", method := some main } 0 4)
  let content : Value := .adapted .field 0 5 field object
  let passed : Value := .adapted .method 0 6 parameter object
  { values := [field, object, parameter, argument, stored, content, passed]
    constraints := .ofList
      [.inferred content passed [], .inferred argument stored [], .inferred stored content []] }

/-- The same, but the parameter is stored before the content is passed on. -/
def storedContent : ValueGraph :=
  { passedContent with constraints := .ofList passedContent.constraints.toList.reverse }

theorem close_closed_iff_storedContent :
    let late := passedContent.constraints
    let lateClosed := close passedContent {} (.ofList late.toList) late
    let early := storedContent.constraints
    let earlyClosed := close storedContent {} (.ofList early.toList) early
    (Numbered (sideParts late.toList) ∧ Numbered (sideParts early.toList)) ∧
      (late.keys.Nodup ∧ early.keys.Nodup) ∧
      earlyClosed.1.size = 6 ∧
      (∀ member, member ∈ earlyClosed.1.toList → member.relation = .subtype →
        ∀ source target, Overlooked storedContent early earlyClosed.2 member source target →
          storedContent.canConnect source target = true →
            ⟨.subtype, source.id, target.id⟩ ∈ earlyClosed.1.keys) ∧
      ¬ ∀ member, member ∈ lateClosed.1.toList → member.relation = .subtype →
        ∀ source target, Overlooked passedContent late lateClosed.2 member source target →
          passedContent.canConnect source target = true →
            ⟨.subtype, source.id, target.id⟩ ∈ lateClosed.1.keys := by
  intro late lateClosed early earlyClosed
  have numbered : ∀ constraints, constraints ∈ [late, early] →
      ∀ first, first ∈ sideParts constraints.toList →
        ∀ second, second ∈ sideParts constraints.toList →
          first.same second = true → first = second := by decide
  have lateNumbered : Numbered (sideParts late.toList) := fun first second firstMember =>
    numbered late List.mem_cons_self first firstMember second
  have earlyNumbered : Numbered (sideParts early.toList) := fun first second firstMember =>
    numbered early (List.mem_cons_of_mem _ List.mem_cons_self) first firstMember second
  have distinct : late.keys.Nodup ∧ early.keys.Nodup := by decide
  have lateIff := (close_closed_iff passedContent {} late lateNumbered distinct.1).2
  have earlyIff := (close_closed_iff storedContent {} early earlyNumbered distinct.2).2
  refine ⟨⟨lateNumbered, earlyNumbered⟩, distinct, by decide, earlyIff.mp (by decide),
    mt lateIff.mpr (by decide)⟩

/-- The stored parameter reaches the field after the content of the field was
passed on, so that the parameter is passed on too is found only afterwards. -/
theorem passedContent_not_closed :
    let constraints := passedContent.constraints
    let closed := close passedContent {} (.ofList constraints.toList) constraints
    ∃ member, member ∈ closed.1.toList ∧
      (derive passedContent {} closed.2 member closed.1).1.toList ≠ [] :=
  ⟨passedContent.constraints.toList[0], by decide, by decide⟩

end InfoFlow.Derivation
