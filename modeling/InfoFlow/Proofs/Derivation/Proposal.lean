import InfoFlow.Derivation
import InfoFlow.Proofs.ReferenceIndex

/-! What the rules propose, exactly.

Each rule has side conditions of its own. Two flows that meet in a field or in
a leaf can be joined from either of them, but the conditions differ: a field
read keeps its target although that belongs to a call, a field write does not,
and a flow between leaves is followed into a field from its own side only. -/

namespace InfoFlow

namespace Constraint

private theorem addCause_sides (constraint : Constraint) (cause : ConstraintKey) :
    (constraint.addCause cause).relation = constraint.relation ∧
      (constraint.addCause cause).left = constraint.left ∧
      (constraint.addCause cause).right = constraint.right := by
  unfold addCause
  split <;> exact ⟨rfl, rfl, rfl⟩

private theorem foldl_addCause_sides (causes : List ConstraintKey) (constraint : Constraint) :
    (causes.foldl addCause constraint).relation = constraint.relation ∧
      (causes.foldl addCause constraint).left = constraint.left ∧
      (causes.foldl addCause constraint).right = constraint.right := by
  induction causes generalizing constraint with
  | nil => exact ⟨rfl, rfl, rfl⟩
  | cons cause rest induction =>
      have later := induction (constraint.addCause cause)
      have once := addCause_sides constraint cause
      exact ⟨later.1.trans once.1, later.2.1.trans once.2.1, later.2.2.trans once.2.2⟩

@[simp] theorem inferred_relation (left right : Value) (causes : List Constraint) :
    (inferred left right causes).relation = .subtype :=
  (foldl_addCause_sides _ _).1

@[simp] theorem inferred_left (left right : Value) (causes : List Constraint) :
    (inferred left right causes).left = left :=
  (foldl_addCause_sides _ _).2.1

@[simp] theorem inferred_right (left right : Value) (causes : List Constraint) :
    (inferred left right causes).right = right :=
  (foldl_addCause_sides _ _).2.2

end Constraint

namespace Value

variable {value : Value}

theorem isLeaf_iff :
    value.isLeaf = true ↔ value.isFieldAdapted = false ∧ value.isMethodAdapted = false := by
  cases value with
  | leaf content => simp [isLeaf, isFieldAdapted, isMethodAdapted]
  | adapted adaptation => cases adaptation <;> simp [isLeaf, isFieldAdapted, isMethodAdapted]

theorem isLeaf_of_flowsThroughCalls (carried : value.flowsThroughCalls = true) :
    value.isLeaf = true := by
  cases value with
  | leaf content => rfl
  | adapted adaptation =>
      cases adaptation <;>
        simp [flowsThroughCalls, isParameterOrResult, isLocalReceiver, kind, Adaptation.kind]
          at carried

end Value

namespace Derivation

variable {graph : ValueGraph} {annotations : Annotations} {index : ReferenceIndex}
  {existing : ConstraintSet} {constraint proposal : Constraint} {source target : Value}

structure Direct (graph : ValueGraph) (constraint : Constraint) : Prop where
  left : constraint.left.isLeaf = true
  right : constraint.right.isLeaf = true
  connected : graph.canConnect constraint.left constraint.right = true

/-- The pairs of values that the rules propose to connect for one flow. -/
inductive Proposed (graph : ValueGraph) (annotations : Annotations) (index : ReferenceIndex)
    (constraint : Constraint) : Value → Value → Prop
  | read {context : Value} (through : throughField? annotations constraint.left = some context) :
      Proposed graph annotations index constraint context constraint.right
  | intoField {lower : Constraint} (field : constraint.left.isFieldAdapted = true)
      (known : lower ∈ index.superSide constraint.left)
      (apart : (lesser lower constraint.left).same constraint.right = false)
      (notMethod : (lesser lower constraint.left).isMethodAdapted = false) :
      Proposed graph annotations index constraint (lesser lower constraint.left) constraint.right
  | written {context : Value} (notField : constraint.left.isFieldAdapted = false)
      (through : throughField? annotations constraint.right = some context) :
      Proposed graph annotations index constraint constraint.left context
  | outOfField {upper : Constraint} (notField : constraint.left.isFieldAdapted = false)
      (field : constraint.right.isFieldAdapted = true)
      (known : upper ∈ index.subSide constraint.right)
      (apart : constraint.left.same (greater upper constraint.right) = false)
      (notMethod : (greater upper constraint.right).isMethodAdapted = false) :
      Proposed graph annotations index constraint constraint.left (greater upper constraint.right)
  | carriedIn {lower : Constraint} (direct : Direct graph constraint)
      (known : lower ∈ index.superSide constraint.left)
      (apart : (lesser lower constraint.left).same constraint.right = false)
      (carried : (lesser lower constraint.left).flowsThroughCalls = true) :
      Proposed graph annotations index constraint (lesser lower constraint.left) constraint.right
  | carriedOut {upper : Constraint} (direct : Direct graph constraint)
      (carried : constraint.left.flowsThroughCalls = true)
      (known : upper ∈ index.subSide constraint.right)
      (apart : constraint.left.same (greater upper constraint.right) = false)
      (notMethod : (greater upper constraint.right).isMethodAdapted = false) :
      Proposed graph annotations index constraint constraint.left (greater upper constraint.right)
  | bridged {entry exit : Value} {lower upper : Constraint} (direct : Direct graph constraint)
      (leftCarried : constraint.left.flowsThroughCalls = true)
      (rightCarried : constraint.right.flowsThroughCalls = true)
      (entered : entry ∈ index.adaptedFromDeclaration constraint.left)
      (entryMethod : entry.isMethodAdapted = true)
      (returned : exit ∈ index.adaptedFromDeclaration constraint.right)
      (exitMethod : exit.isMethodAdapted = true)
      (sameCall : entry.context.same exit.context = true)
      (lowerKnown : lower ∈ index.superSide entry) (upperKnown : upper ∈ index.subSide exit) :
      Proposed graph annotations index constraint (lesser lower entry) (greater upper exit)

/-! ## The parts of a proposal -/

theorem mem_joinedBelow {skip : Value → Bool} :
    proposal ∈ joinedBelow index constraint skip ↔
      ∃ lower, lower ∈ index.superSide constraint.left ∧
        (lesser lower constraint.left).same constraint.right = false ∧
        (lesser lower constraint.left).isMethodAdapted = false ∧
        skip (lesser lower constraint.left) = false ∧
        proposal = .inferred (lesser lower constraint.left) constraint.right
          [lower, constraint] := by
  rw [joinedBelow, List.mem_filterMap]
  refine exists_congr fun lower => and_congr_right fun _ => ?_
  rw [Option.ite_none_left_eq_some, Bool.or_eq_true, Bool.or_eq_true, not_or, not_or,
    Bool.not_eq_true, Bool.not_eq_true, Bool.not_eq_true, Option.some.injEq, and_assoc, and_assoc,
    eq_comm (a := proposal)]

theorem mem_joinedAbove :
    proposal ∈ joinedAbove index constraint ↔
      ∃ upper, upper ∈ index.subSide constraint.right ∧
        constraint.left.same (greater upper constraint.right) = false ∧
        (greater upper constraint.right).isMethodAdapted = false ∧
        proposal = .inferred constraint.left (greater upper constraint.right)
          [constraint, upper] := by
  rw [joinedAbove, List.mem_filterMap]
  refine exists_congr fun upper => and_congr_right fun _ => ?_
  rw [Option.ite_none_left_eq_some, Bool.or_eq_true, not_or, Bool.not_eq_true, Bool.not_eq_true,
    Option.some.injEq, and_assoc, eq_comm (a := proposal)]

theorem mem_bridges :
    proposal ∈ bridges index constraint ↔
      ∃ entry, (entry ∈ index.adaptedFromDeclaration constraint.left ∧
          entry.isMethodAdapted = true) ∧
        ∃ exit, ((exit ∈ index.adaptedFromDeclaration constraint.right ∧
            exit.isMethodAdapted = true) ∧ entry.context.same exit.context = true) ∧
          ∃ lower, lower ∈ index.superSide entry ∧ ∃ upper, upper ∈ index.subSide exit ∧
            .inferred (lesser lower entry) (greater upper exit) [lower, constraint, upper] =
              proposal := by
  simp only [bridges, List.mem_flatMap, List.mem_map, List.mem_filter]

theorem isFieldAdapted_of_through {value context : Value}
    (through : throughField? annotations value = some context) : value.isFieldAdapted = true := by
  unfold throughField? at through
  split at through
  · rfl
  · cases through

/-! ## The three kinds of flows -/

theorem candidates_of_field_left (field : constraint.left.isFieldAdapted = true) :
    candidates graph annotations index constraint =
      ((throughField? annotations constraint.left).map fun context =>
          Constraint.inferred context constraint.right [constraint]).toList ++
        joinedBelow index constraint fun _ => false := by
  simp only [candidates, if_pos field]

theorem candidates_of_field_right (notField : constraint.left.isFieldAdapted = false)
    (field : constraint.right.isFieldAdapted = true) :
    candidates graph annotations index constraint =
      ((throughField? annotations constraint.right).map fun context =>
          Constraint.inferred constraint.left context [constraint]).toList ++
        joinedAbove index constraint := by
  simp only [candidates, notField, field, Bool.false_eq_true, if_false, if_true]

theorem candidates_of_direct (direct : Direct graph constraint) :
    candidates graph annotations index constraint =
      joinedBelow index constraint (fun source => !source.flowsThroughCalls) ++
        (if constraint.left.flowsThroughCalls then joinedAbove index constraint else []) ++
        (if constraint.left.flowsThroughCalls && constraint.right.flowsThroughCalls then
          bridges index constraint
        else []) := by
  have left := Value.isLeaf_iff.mp direct.left
  have right := Value.isLeaf_iff.mp direct.right
  simp only [candidates, left, right, direct.connected, Bool.false_eq_true, if_false,
    Bool.not_false, Bool.and_self, if_true]

theorem candidates_of_indirect (leftNot : constraint.left.isFieldAdapted = false)
    (rightNot : constraint.right.isFieldAdapted = false) (indirect : ¬ Direct graph constraint) :
    candidates graph annotations index constraint = [] := by
  have refused : (!constraint.left.isMethodAdapted && !constraint.right.isMethodAdapted &&
      graph.canConnect constraint.left constraint.right) = false := by
    rw [← Bool.not_eq_true]
    intro all
    simp only [Bool.and_eq_true, Bool.not_eq_true'] at all
    exact indirect ⟨Value.isLeaf_iff.mpr ⟨leftNot, all.1.1⟩,
      Value.isLeaf_iff.mpr ⟨rightNot, all.1.2⟩, all.2⟩
  simp only [candidates, leftNot, rightNot, refused, Bool.false_eq_true, if_false]

/-! ## Proposals and candidates -/

theorem proposed_of_mem_candidates
    (member : proposal ∈ candidates graph annotations index constraint) :
    proposal.relation = .subtype ∧
      Proposed graph annotations index constraint proposal.left proposal.right := by
  cases leftField : constraint.left.isFieldAdapted with
  | true =>
      rw [candidates_of_field_left leftField, List.mem_append] at member
      rcases member with through | below
      · rw [Option.mem_toList, Option.map_eq_some_iff] at through
        rcases through with ⟨context, through, rfl⟩
        simpa using Proposed.read through
      · rcases mem_joinedBelow.mp below with ⟨lower, known, apart, notMethod, -, rfl⟩
        simpa using Proposed.intoField leftField known apart notMethod
  | false =>
      cases rightField : constraint.right.isFieldAdapted with
      | true =>
          rw [candidates_of_field_right leftField rightField, List.mem_append] at member
          rcases member with through | above
          · rw [Option.mem_toList, Option.map_eq_some_iff] at through
            rcases through with ⟨context, through, rfl⟩
            simpa using Proposed.written leftField through
          · rcases mem_joinedAbove.mp above with ⟨upper, known, apart, notMethod, rfl⟩
            simpa using Proposed.outOfField leftField rightField known apart notMethod
      | false =>
          by_cases direct : Direct graph constraint
          · rw [candidates_of_direct direct, List.mem_append, List.mem_append] at member
            rcases member with (below | above) | bridge
            · rcases mem_joinedBelow.mp below with ⟨lower, known, apart, -, kept, rfl⟩
              rw [Bool.not_eq_false'] at kept
              simpa using Proposed.carriedIn direct known apart kept
            · split at above
              · next carried =>
                  rcases mem_joinedAbove.mp above with ⟨upper, known, apart, notMethod, rfl⟩
                  simpa using Proposed.carriedOut direct carried known apart notMethod
              · cases above
            · split at bridge
              · next carried =>
                  rw [Bool.and_eq_true] at carried
                  rcases mem_bridges.mp bridge with ⟨entry, ⟨entered, entryMethod⟩, exit,
                    ⟨⟨returned, exitMethod⟩, sameCall⟩, lower, lowerKnown, upper, upperKnown, rfl⟩
                  simpa using Proposed.bridged direct carried.1 carried.2 entered entryMethod
                    returned exitMethod sameCall lowerKnown upperKnown
              · cases bridge
          · rw [candidates_of_indirect leftField rightField direct] at member
            cases member

theorem Proposed.exists_candidate
    (proposed : Proposed graph annotations index constraint source target) :
    ∃ proposal, proposal ∈ candidates graph annotations index constraint ∧
      proposal.left = source ∧ proposal.right = target := by
  cases proposed with
  | read through =>
      refine ⟨.inferred source constraint.right [constraint], ?_, by simp, by simp⟩
      rw [candidates_of_field_left (isFieldAdapted_of_through through), through]
      exact List.mem_append_left _ List.mem_cons_self
  | @intoField lower field known apart notMethod =>
      refine ⟨_, ?_, Constraint.inferred_left _ _ [lower, constraint],
        Constraint.inferred_right _ _ [lower, constraint]⟩
      rw [candidates_of_field_left field]
      exact List.mem_append_right _
        (mem_joinedBelow.mpr ⟨lower, known, apart, notMethod, rfl, rfl⟩)
  | written notField through =>
      refine ⟨.inferred constraint.left target [constraint], ?_, by simp, by simp⟩
      rw [candidates_of_field_right notField (isFieldAdapted_of_through through), through]
      exact List.mem_append_left _ List.mem_cons_self
  | @outOfField upper notField field known apart notMethod =>
      refine ⟨_, ?_, Constraint.inferred_left _ _ [constraint, upper],
        Constraint.inferred_right _ _ [constraint, upper]⟩
      rw [candidates_of_field_right notField field]
      exact List.mem_append_right _ (mem_joinedAbove.mpr ⟨upper, known, apart, notMethod, rfl⟩)
  | @carriedIn lower direct known apart carried =>
      have notMethod := (Value.isLeaf_iff.mp (Value.isLeaf_of_flowsThroughCalls carried)).2
      have kept : (!(lesser lower constraint.left).flowsThroughCalls) = false := by
        rw [carried]
        rfl
      refine ⟨_, ?_, Constraint.inferred_left _ _ [lower, constraint],
        Constraint.inferred_right _ _ [lower, constraint]⟩
      rw [candidates_of_direct direct]
      exact List.mem_append_left _ (List.mem_append_left _
        (mem_joinedBelow.mpr ⟨lower, known, apart, notMethod, kept, rfl⟩))
  | @carriedOut upper direct carried known apart notMethod =>
      refine ⟨_, ?_, Constraint.inferred_left _ _ [constraint, upper],
        Constraint.inferred_right _ _ [constraint, upper]⟩
      rw [candidates_of_direct direct, if_pos carried]
      exact List.mem_append_left _ (List.mem_append_right _
        (mem_joinedAbove.mpr ⟨upper, known, apart, notMethod, rfl⟩))
  | @bridged entry exit lower upper direct leftCarried rightCarried entered entryMethod returned
      exitMethod sameCall lowerKnown upperKnown =>
      refine ⟨_, ?_, Constraint.inferred_left _ _ [lower, constraint, upper],
        Constraint.inferred_right _ _ [lower, constraint, upper]⟩
      have both : (constraint.left.flowsThroughCalls && constraint.right.flowsThroughCalls) =
          true := by
        rw [leftCarried, rightCarried]
        rfl
      rw [candidates_of_direct direct, if_pos both]
      exact List.mem_append_right _ (mem_bridges.mpr ⟨entry, ⟨entered, entryMethod⟩, exit,
        ⟨⟨returned, exitMethod⟩, sameCall⟩, lower, lowerKnown, upper, upperKnown, rfl⟩)

theorem Proposed.mono {more : ReferenceIndex}
    (proposed : Proposed graph annotations index constraint source target)
    (registered : index.registered.toList ⊆ more.registered.toList)
    (adaptations : index.adaptations ⊆ more.adaptations) :
    Proposed graph annotations more constraint source target := by
  have subSide := ReferenceIndex.subSide_subset registered
  have superSide := ReferenceIndex.superSide_subset registered
  have adapted := ReferenceIndex.adaptedFromDeclaration_subset adaptations
  cases proposed with
  | read through => exact .read through
  | intoField field known apart notMethod =>
      exact .intoField field (superSide _ known) apart notMethod
  | written notField through => exact .written notField through
  | outOfField notField field known apart notMethod =>
      exact .outOfField notField field (subSide _ known) apart notMethod
  | carriedIn direct known apart carried =>
      exact .carriedIn direct (superSide _ known) apart carried
  | carriedOut direct carried known apart notMethod =>
      exact .carriedOut direct carried (subSide _ known) apart notMethod
  | bridged direct leftCarried rightCarried entered entryMethod returned exitMethod sameCall
      lowerKnown upperKnown =>
      exact .bridged direct leftCarried rightCarried (adapted _ entered) entryMethod
        (adapted _ returned) exitMethod sameCall (superSide _ lowerKnown) (subSide _ upperKnown)

end Derivation

end InfoFlow
