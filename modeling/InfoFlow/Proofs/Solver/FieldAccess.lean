import InfoFlow.Proofs.Derivation.Settlement
import InfoFlow.Proofs.Solver.Fixpoint

/-! Fields that are seen through.

A flow from a field that can only be polymorphic, or from a field of an array,
is also a flow from what the field belongs to, and likewise for a flow into such
a field. A field may come to be so after the flow was served, and a rollback may
take that back. But whatever changes the field queues the flow, and when the
flow is served and can be applied, its fields are seen through as they are then.
So at any time a flow waits, or fails, or its fields are seen through, and at
the end no flow waits. -/

namespace InfoFlow

theorem Value.leaves_declaration_subset (value : Value) :
    value.declaration.leaves ⊆ value.leaves := by
  cases value with
  | leaf content => exact List.Subset.refl _
  | adapted adaptation owner id declaration context => exact List.subset_append_right _ _

namespace Solver

variable {solver before after next : Solver} {constraint other : Constraint}

/-! ## What is known of a flow -/

/-- Where a flow reads a field that is seen through, the flow from what the field
belongs to is known, and where it writes one, the flow into that, as far as
these can be connected. A flow between two fields counts as a read. -/
structure SeenThrough (solver : Solver) (constraint : Constraint) : Prop where
  read : ∀ context, Derivation.throughField? solver.annotations constraint.left = some context →
    Derivation.Settled solver.graph solver.constraints.keys context constraint.right
  written : constraint.left.isFieldAdapted = false → ∀ context,
    Derivation.throughField? solver.annotations constraint.right = some context →
      Derivation.Settled solver.graph solver.constraints.keys constraint.left context

theorem SeenThrough.of_agree (seen : before.SeenThrough constraint)
    (graph : after.graph = before.graph)
    (known : before.constraints.keys ⊆ after.constraints.keys)
    (agree : ∀ leaf, leaf ∈ constraint.left.leaves ++ constraint.right.leaves →
      before.annotations.get leaf = after.annotations.get leaf) :
    after.SeenThrough constraint := by
  have same : ∀ side, side.leaves ⊆ constraint.left.leaves ++ constraint.right.leaves →
      Derivation.throughField? after.annotations side =
        Derivation.throughField? before.annotations side := by
    intro side included
    refine Derivation.throughField?_of_view (Annotations.view_eq_of_leaves fun leaf below => ?_)
    exact agree leaf (included (side.leaves_declaration_subset below))
  have left := same constraint.left constraint.left_below
  have right := same constraint.right constraint.right_below
  constructor
  · intro context through
    rw [graph]
    exact (seen.read context (left ▸ through)).mono known
  · intro notField context through
    rw [graph]
    exact (seen.written notField context (right ▸ through)).mono known

/-- A subtype flow waits, or fails, or its fields are seen through. -/
def Accessed (solver : Solver) (constraint : Constraint) : Prop :=
  constraint.relation = .subtype →
    constraint.key ∈ solver.worklist.keys ∨ solver.annotations.Fails constraint ∨
      solver.SeenThrough constraint

def AllAccessed (solver : Solver) : Prop :=
  ∀ member, member ∈ solver.constraints.toList → solver.Accessed member

/-! ## The operations of a solver -/

theorem Accessed.of_changed (accessed : before.Accessed constraint)
    (consistent : before.Consistent) (plain : before.graph.FlatFlows) (guarded : before.Guarded)
    (changed : Changed before after) (member : constraint ∈ before.constraints.toList) :
    after.Accessed constraint := by
  intro flow
  rcases consistent.agree_or_waiting plain.wellFormed.numbered (consistent.flatFlow plain member)
    guarded changed member with waiting | agree
  · exact .inl waiting
  · rcases accessed flow with waiting | fails | seen
    · exact .inl (changed.waiting waiting)
    · exact .inr (.inl (fails.of_agree constraint.left_below constraint.right_below
        agree))
    · have known : before.constraints.keys ⊆ after.constraints.keys := by
        rw [changed.constraints]
        exact List.Subset.refl _
      exact .inr (.inr (seen.of_agree changed.graph known agree))

theorem keys_subset_extend (solver : Solver) (constraint : Constraint) :
    solver.constraints.keys ⊆ (solver.extend constraint).constraints.keys :=
  fun _ known => ConstraintSet.mem_keys_addAll.mpr (.inl known)

theorem seenThrough_extend (flow : constraint.relation = .subtype) :
    (solver.extend constraint).SeenThrough constraint where
  read := fun _ through => Derivation.derive_settles flow (.read through)
  written := fun notField _ through => Derivation.derive_settles flow (.written notField through)

theorem Accessed.extend (accessed : solver.Accessed other) (constraint : Constraint) :
    (solver.extend constraint).Accessed other := by
  intro flow
  rcases accessed flow with waiting | fails | seen
  · exact .inl (Worklist.mem_keys_addAll.mpr (.inl waiting))
  · exact .inr (.inl fails)
  · exact .inr (.inr (seen.of_agree rfl (solver.keys_subset_extend constraint) fun _ _ => rfl))

theorem allAccessed_extend (others : ∀ member, member ∈ solver.constraints.toList →
      member ≠ constraint → solver.Accessed member) :
    (solver.extend constraint).AllAccessed := by
  intro member present
  rcases ConstraintSet.mem_or_mem_of_mem_addAll present with earlier | new
  · by_cases same : member = constraint
    · exact fun flow => .inr (.inr (same ▸ seenThrough_extend (same ▸ flow)))
    · exact (others member earlier same).extend constraint
  · exact fun _ => .inl (Worklist.mem_keys_addAll.mpr (.inr (List.mem_map_of_mem new)))

theorem AllAccessed.fail (accessed : solver.AllAccessed) (consistent : solver.Consistent)
    (plain : solver.graph.FlatFlows) (guarded : solver.Guarded)
    (member : constraint ∈ solver.constraints.toList) :
    (solver.fail constraint).AllAccessed := by
  have changed := changed_repair consistent.places (consistent.between constraint member)
  have repaired : (solver.repair constraint).1.AllAccessed := by
    intro other present
    rw [changed.constraints] at present
    exact (accessed other present).of_changed consistent plain guarded changed present
  rcases solver.fail_cases constraint with
    ⟨-, ⟨-, equal⟩ | ⟨-, equal⟩⟩ | ⟨-, warned, log, equal⟩
  · rw [equal]
    exact repaired
  · rw [equal]
    exact fun other present flow => (repaired other present flow).imp_right
      (Or.imp_right fun seen => ⟨seen.read, seen.written⟩)
  · rw [equal]
    exact fun other present flow => (accessed other present flow).imp_right
      (Or.imp_right fun seen => ⟨seen.read, seen.written⟩)

theorem allAccessed_serve (consistent : solver.Consistent) (plain : solver.graph.FlatFlows)
    (guarded : solver.Guarded) (member : constraint ∈ solver.constraints.toList)
    (others : ∀ member, member ∈ solver.constraints.toList → member ≠ constraint →
      solver.Accessed member) : (solver.serve constraint).AllAccessed := by
  unfold Solver.serve
  split
  · next applied outcome success =>
      have changed := changed_apply consistent.places (consistent.between constraint member) success
      refine allAccessed_extend fun other present different => ?_
      rw [changed.constraints] at present
      exact (others other present different).of_changed consistent plain guarded changed present
  · next failure failed =>
      have fails := consistent.fails_of_error plain.wellFormed.specified member failed
      have accessed : solver.AllAccessed := by
        intro other present
        by_cases same : other = constraint
        · exact fun _ => .inr (.inl (same ▸ fails))
        · exact others other present same
      exact accessed.fail consistent plain guarded member

theorem AllAccessed.step (accessed : solver.AllAccessed) (balanced : solver.Balanced)
    (stepped : solver.step = some next) : next.AllAccessed := by
  rcases step_eq_some stepped with ⟨constraint, rest, waiting, rfl⟩
  have popped := balanced.consistent.popped waiting
  refine allAccessed_serve popped.1 balanced.plain
    ⟨balanced.guarded.numbered, balanced.guarded.mutable⟩ popped.2 ?_
  intro other present different flow
  rcases accessed other present flow with waits | settled
  · exact .inl (balanced.consistent.keeps_waiting waiting present different waits)
  · exact .inr (settled.imp_right fun seen => ⟨seen.read, seen.written⟩)

theorem start_allAccessed (solver : Solver) : solver.start.AllAccessed :=
  fun _ present _ => .inl (start_waits present)

/-! ## The end of a solve -/

theorem Consistent.exists_flow {source target : Value} (consistent : solver.Consistent)
    (numbered : Numbered solver.graph.parts) (sourceMember : source ∈ solver.graph.parts)
    (targetMember : target ∈ solver.graph.parts)
    (known : ⟨.subtype, source.id, target.id⟩ ∈ solver.constraints.keys) :
    ∃ joined, joined ∈ solver.constraints.toList ∧ joined.relation = .subtype ∧
      joined.left = source ∧ joined.right = target := by
  rcases List.mem_map.mp known with ⟨joined, present, sameKey⟩
  have between := consistent.between joined present
  have parts := ConstraintKey.mk.inj sameKey
  exact ⟨joined, present, parts.1,
    numbered _ _ between.1 sourceMember (decide_eq_true parts.2.1),
    numbered _ _ between.2 targetMember (decide_eq_true parts.2.2)⟩

/-- At the end of a solve of flows between flat values, whatever it favours, a
subtype flow that does not fail and reads a field that can only be polymorphic,
or one of an array, is accompanied by the flow from what the field belongs to;
and if it writes such a field, by the flow into that, unless it also reads a
field; as far as these values can be connected. The graph is well formed, so it
does not adapt values of another one whose numbers clash with its own. -/
theorem solve_sees_through_fields (solver : Solver) (plain : solver.graph.FlatFlows) :
    ∀ member, member ∈ solver.solve.constraints.toList → member.relation = .subtype →
      (¬ ∃ left right, solver.solve.apply member = .error (.unsatisfiable member left right)) →
      ∀ owner id field receiver,
        solver.solve.annotations.view field = .only .poly ∨ receiver.isArray = true →
        (member.left = .adapted .field owner id field receiver →
          solver.graph.canConnect receiver member.right = true →
          ∃ joined, joined ∈ solver.solve.constraints.toList ∧ joined.relation = .subtype ∧
            joined.left = receiver ∧ joined.right = member.right) ∧
        (member.right = .adapted .field owner id field receiver →
          member.left.isFieldAdapted = false →
          solver.graph.canConnect member.left receiver = true →
          ∃ joined, joined ∈ solver.solve.constraints.toList ∧ joined.relation = .subtype ∧
            joined.left = member.left ∧ joined.right = receiver) := by
  have coherent := plain.wellFormed.coherent
  have graph := (iterate_consistent coherent solver.rounds).2
  have kept : ∀ current next : Solver, current.step = some next →
      current.Balanced ∧ current.AllAccessed → next.Balanced ∧ next.AllAccessed :=
    fun current next stepped both => ⟨both.1.step stepped, both.2.step both.1 stepped⟩
  have served : (iterate step solver.rounds solver.start).Balanced ∧
      (iterate step solver.rounds solver.start).AllAccessed :=
    iterate_preserves kept solver.rounds ⟨start_balanced plain, solver.start_allAccessed⟩
  have empty := iterate_waiting coherent
  rcases served with ⟨balanced, accessed⟩
  rcases balanced.finish empty with ⟨conflicts, log, finished, -⟩
  rw [solve, finished]
  intro member present flow holds owner id field receiver condition
  have between := balanced.consistent.between member present
  have numbered := balanced.plain.wellFormed.numbered
  have seen : (iterate step solver.rounds solver.start).SeenThrough member := by
    rcases accessed member present flow with waiting | ⟨left, right, failed⟩ | seen
    · rw [Worklist.keys, empty] at waiting
      cases waiting
    · exact absurd ⟨left, right, apply_eq_error.mpr failed⟩ holds
    · exact seen
  have through : Derivation.throughField?
      (iterate step solver.rounds solver.start).annotations
      (.adapted .field owner id field receiver) = some receiver := by
    simp only [Derivation.throughField?]
    rw [if_pos]
    rcases condition with polymorphic | array
    · exact Bool.or_eq_true_iff.mpr (.inl (decide_eq_true polymorphic))
    · exact Bool.or_eq_true_iff.mpr (.inr array)
  have receiverMember : ∀ side, side = Value.adapted .field owner id field receiver →
      side ∈ (iterate step solver.rounds solver.start).graph.parts →
        receiver ∈ (iterate step solver.rounds solver.start).graph.parts := by
    intro side isField sideMember
    have below : receiver ∈ side.parts := isField ▸ Value.context_mem_parts _
    exact ValueGraph.mem_parts_of_mem_parts below sideMember
  rw [← graph]
  constructor
  · intro isField connected
    have known := seen.read receiver (isField ▸ through) connected
    exact balanced.consistent.exists_flow numbered (receiverMember _ isField between.1) between.2
      known
  · intro isField notField connected
    have known := seen.written notField receiver (isField ▸ through) connected
    exact balanced.consistent.exists_flow numbered between.1 (receiverMember _ isField between.2)
      known

/-- What is stored in a field of a box, and shown from there. That the field is
polymorphic turns out when these flows have been served. -/
def polymorphicContent : ValueGraph :=
  let main : Method := { declaringClass := "App", name := "main" }
  let content : Value := .leaf (LeafSpec.leaf { identifier := "content", kind := .field } 0 0)
  let box : Value := .leaf (LeafSpec.leaf { identifier := "box", method := some main } 0 1)
  let stored : Value := .leaf (LeafSpec.leaf { identifier := "stored", method := some main } 0 2)
  let shown : Value := .leaf (LeafSpec.leaf { identifier := "shown", method := some main } 0 3)
  let seen : Value := .adapted .field 0 4 content box
  let generic : Value := .leaf
    (LeafSpec.leaf { identifier := "generic", kind := .constant, declared := .only .poly } 0 5)
  { values := [content, box, stored, shown, seen, generic]
    constraints := .ofList
      [.inferred stored seen [], .inferred seen shown [],
        { relation := .equality, left := content, right := generic }] }

theorem solve_sees_through_fields_polymorphicContent :
    let solved := solve { graph := polymorphicContent }
    polymorphicContent.FlatFlows ∧
      (∃ written, written ∈ solved.constraints.toList ∧ written.relation = .subtype ∧
        written.left.identifier = "stored" ∧ written.right.identifier = "box") ∧
      ∃ read, read ∈ solved.constraints.toList ∧ read.relation = .subtype ∧
        read.left.identifier = "box" ∧ read.right.identifier = "shown" := by
  intro solved
  have plain : polymorphicContent.FlatFlows := by decide
  have holds : ∀ member, (solved.apply member).isOk = true →
      ¬ ∃ left right, solved.apply member = .error (.unsatisfiable member left right) := by
    rintro member applied ⟨left, right, failed⟩
    rw [failed] at applied
    cases applied
  have through := solve_sees_through_fields { graph := polymorphicContent } plain
  let content : Value := polymorphicContent.values.get ⟨0, by decide⟩
  let box : Value := polymorphicContent.values.get ⟨1, by decide⟩
  have written := (through (polymorphicContent.constraints.toList.get ⟨0, by decide⟩) (by decide)
    (by decide) (holds _ (by decide)) 0 4 content box (.inl (by decide))).2 rfl (by decide)
    (by decide)
  have read := (through (polymorphicContent.constraints.toList.get ⟨1, by decide⟩) (by decide)
    (by decide) (holds _ (by decide)) 0 4 content box (.inl (by decide))).1 rfl (by decide)
  rcases written with ⟨writing, writingKnown, writingFlow, stored, into⟩
  rcases read with ⟨reading, readingKnown, readingFlow, outOf, shown⟩
  refine ⟨plain, ⟨writing, writingKnown, writingFlow, ?_, ?_⟩,
    reading, readingKnown, readingFlow, ?_, ?_⟩
  · rw [stored]; rfl
  · rw [into]; rfl
  · rw [outOf]; rfl
  · rw [shown]; rfl

end Solver

end InfoFlow
