import InfoFlow.Proofs.Derivation
import InfoFlow.Proofs.Narrowing.Solution

/-! Derived flows hold in every solution.

An assignment that lies within the annotations at the time of the derivation
and satisfies the known constraints also satisfies what follows from them. The
annotations count only where a field is seen through to its context: a
declaration that can only be polymorphic takes the qualifier of the context. For
fields of arrays this need not be so, so these are left out. -/

namespace InfoFlow

theorem Qualifier.adapt_mono {lower upper : Qualifier} (context : Qualifier)
    (below : lower.isSubtype upper = true) :
    (context.adapt lower).isSubtype (context.adapt upper) = true := by
  revert below
  cases context <;> cases lower <;> cases upper <;> decide

/-- No field among some values is seen through an array. -/
def FieldsOutsideArrays (values : List Value) : Prop :=
  ∀ value, value ∈ values → value.isFieldAdapted = true → value.context.isArray = false

instance (values : List Value) : Decidable (FieldsOutsideArrays values) :=
  inferInstanceAs (Decidable (∀ value, value ∈ values → _))

namespace Derivation

variable {graph : ValueGraph} {annotations : Annotations} {index : ReferenceIndex}
  {assignment : Assignment} {constraint lower upper : Constraint} {values : List Value}
  {value : Value}

def Holds (assignment : Assignment) (values : List Value) (constraint : Constraint) : Prop :=
  constraint.Between values ∧ assignment.Satisfies constraint

/-- A constraint lies between some values, and if it is a flow, an assignment
satisfies it. -/
def FlowHolds (assignment : Assignment) (values : List Value) (constraint : Constraint) : Prop :=
  constraint.Between values ∧ (constraint.isFlow = true → assignment.Satisfies constraint)

theorem Holds.flowHolds (holds : Holds assignment values constraint) :
    FlowHolds assignment values constraint :=
  ⟨holds.1, fun _ => holds.2⟩

theorem FlowHolds.conveyed {source target : Value} (holds : FlowHolds assignment values constraint)
    (conveys : constraint.Conveys source target) :
    (assignment.eval source).isSubtype (assignment.eval target) = true := by
  rcases conveys with ⟨flow, rfl, rfl⟩ | ⟨relation, rfl, rfl⟩
  · have satisfied := holds.2 flow
    unfold Assignment.Satisfies at satisfied
    cases relation : constraint.relation with
    | unspecified | unequality =>
        rw [Constraint.isFlow, relation] at flow
        cases flow
    | subtype =>
        rw [relation] at satisfied
        exact satisfied
    | equality =>
        rw [relation] at satisfied
        have both : assignment.eval constraint.left = assignment.eval constraint.right := satisfied
        rw [both]
        exact Qualifier.isSubtype_refl _
  · have satisfied := holds.2 (congrArg Relation.isFlow relation)
    rw [Assignment.Satisfies, relation] at satisfied
    have both : assignment.eval constraint.left = assignment.eval constraint.right := satisfied
    rw [both]
    exact Qualifier.isSubtype_refl _

theorem eval_lesser (numbered : Numbered values) (holds : FlowHolds assignment values lower)
    (valueMember : value ∈ values) (known : lower ∈ index.superSide value) :
    (assignment.eval (lesser lower value)).isSubtype (assignment.eval value) = true :=
  holds.conveyed (conveys_lesser numbered holds.1 valueMember known)

theorem eval_greater (numbered : Numbered values) (holds : FlowHolds assignment values upper)
    (valueMember : value ∈ values) (known : upper ∈ index.subSide value) :
    (assignment.eval value).isSubtype (assignment.eval (greater upper value)) = true :=
  holds.conveyed (conveys_greater numbered holds.1 valueMember known)

theorem eval_throughField {context : Value}
    (within : assignment.Within annotations value.leaves)
    (outside : value.isFieldAdapted = true → value.context.isArray = false)
    (through : throughField? annotations value = some context) :
    assignment.eval value = assignment.eval context := by
  cases value with
  | leaf content => cases through
  | adapted adaptation owner id declaration other =>
      cases adaptation with
      | method => cases through
      | field =>
          simp only [throughField?] at through
          split at through
          · next reason =>
              cases through
              have plain : context.isArray = false := outside rfl
              rw [plain, Bool.or_false, decide_eq_true_eq] at reason
              have declared := Assignment.eval_mem_view
                (within.subset (List.subset_append_right context.leaves declaration.leaves))
              rw [reason, QualifierSet.mem_only] at declared
              rw [Assignment.eval, declared, Qualifier.adapt_poly]
          · cases through

theorem eval_crossing {lesser greater entry exit : Value} (numbered : Numbered values)
    (closed : ClosedUnderParts values) (lesserMember : lesser ∈ values)
    (greaterMember : greater ∈ values) (entryMember : entry ∈ values)
    (exitMember : exit ∈ values)
    (isEntry : ReferenceIndex.hasDeclaration lesser entry = true)
    (isExit : ReferenceIndex.hasDeclaration greater exit = true)
    (sameContext : entry.context.same exit.context = true)
    (ordered : (assignment.eval lesser).isSubtype (assignment.eval greater) = true) :
    (assignment.eval entry).isSubtype (assignment.eval exit) = true := by
  cases entry with
  | leaf content => cases isEntry
  | adapted entryAdaptation entryOwner entryId entryDeclaration entryContext =>
      cases exit with
      | leaf content => cases isExit
      | adapted exitAdaptation exitOwner exitId exitDeclaration exitContext =>
          have entryDeclared : entryDeclaration = lesser :=
            ReferenceIndex.declaration_eq numbered
              (closed _ _ (Value.declaration_mem_parts _) entryMember) lesserMember isEntry
          have exitDeclared : exitDeclaration = greater :=
            ReferenceIndex.declaration_eq numbered
              (closed _ _ (Value.declaration_mem_parts _) exitMember) greaterMember isExit
          have oneContext : entryContext = exitContext :=
            numbered _ _ (closed _ _ (Value.context_mem_parts _) entryMember)
              (closed _ _ (Value.context_mem_parts _) exitMember) sameContext
          rw [Assignment.eval, Assignment.eval, entryDeclared, exitDeclared, oneContext]
          exact Qualifier.adapt_mono _ ordered

theorem Joined.sound {leaves : List Leaf} {source target : Value}
    (joined : Joined annotations index constraint source target)
    (numbered : Numbered values) (closed : ClosedUnderParts values)
    (outside : FieldsOutsideArrays values) (included : ∀ value, value ∈ values →
      value.leaves ⊆ leaves) (within : assignment.Within annotations leaves)
    (registered : ∀ known, known ∈ index.registered.toList → FlowHolds assignment values known)
    (noted : index.adaptations ⊆ values) (flow : constraint.relation = .subtype)
    (holds : FlowHolds assignment values constraint) :
    (assignment.eval source).isSubtype (assignment.eval target) = true := by
  have between := holds.1
  have ordered : (assignment.eval constraint.left).isSubtype
      (assignment.eval constraint.right) = true := by
    exact holds.conveyed (.inl ⟨congrArg Relation.isFlow flow, rfl, rfl⟩)
  cases joined with
  | read through =>
      have same := eval_throughField (within.subset (included _ between.1))
        (outside _ between.1) through
      rwa [← same]
  | written through =>
      have same := eval_throughField (within.subset (included _ between.2))
        (outside _ between.2) through
      rwa [← same]
  | @below lower known =>
      have lowerHolds := registered lower (List.mem_filter.mp known).1
      exact Qualifier.isSubtype_trans (eval_lesser numbered lowerHolds between.1 known) ordered
  | @above upper known =>
      have upperHolds := registered upper (List.mem_filter.mp known).1
      exact Qualifier.isSubtype_trans ordered (eval_greater numbered upperHolds between.2 known)
  | @bridged entry exit lower upper entered entryMethod left exitMethod sameCall lowerKnown
      upperKnown =>
      have entryMember : entry ∈ values := noted (List.mem_filter.mp entered).1
      have exitMember : exit ∈ values := noted (List.mem_filter.mp left).1
      have entering := eval_lesser numbered (registered lower (List.mem_filter.mp lowerKnown).1)
        entryMember lowerKnown
      have leaving := eval_greater numbered (registered upper (List.mem_filter.mp upperKnown).1)
        exitMember upperKnown
      have crossing := eval_crossing numbered closed between.1 between.2 entryMember exitMember
        (List.mem_filter.mp entered).2 (List.mem_filter.mp left).2 sameCall ordered
      exact Qualifier.isSubtype_trans entering (Qualifier.isSubtype_trans crossing leaving)

theorem handedOn_flowHolds {leaves : List Leaf} (graph : ValueGraph) (numbered : Numbered values)
    (closed : ClosedUnderParts values) (outside : FieldsOutsideArrays values)
    (included : ∀ value, value ∈ values → value.leaves ⊆ leaves)
    (within : assignment.Within annotations leaves) :
    HandedOn graph annotations values (FlowHolds assignment values) where
  sides := fun _ holds => holds.1
  rules := by
    intro index constraint registered noted flow holds proposal member
    have joined := joined_of_mem_candidates member
    refine ⟨joined.2.sides closed (fun known present => (registered known present).1) holds.1,
      fun _ => ?_⟩
    rw [Assignment.Satisfies, joined.1]
    exact joined.2.sound numbered closed outside included within registered noted flow holds

theorem handedOn_holds {leaves : List Leaf} (graph : ValueGraph) (numbered : Numbered values)
    (closed : ClosedUnderParts values) (outside : FieldsOutsideArrays values)
    (included : ∀ value, value ∈ values → value.leaves ⊆ leaves)
    (within : assignment.Within annotations leaves) :
    HandedOn graph annotations values (Holds assignment values) where
  sides := fun _ holds => holds.1
  rules := by
    intro index constraint registered noted flow holds proposal member
    have handedOn := handedOn_flowHolds graph numbered closed outside included within
    have offered := handedOn.rules index constraint
      (fun known present => (registered known present).flowHolds) noted flow holds.flowHolds
      proposal member
    have related := congrArg Relation.isFlow (joined_of_mem_candidates member).1
    exact ⟨offered.1, offered.2 related⟩

end Derivation

end InfoFlow
