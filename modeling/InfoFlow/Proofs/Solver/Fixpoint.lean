import InfoFlow.Proofs.Solver.Termination

/-! What holds when nothing waits any more.

A constraint is settled if it waits, or it could be applied without a change,
or it fails and counts among the conflicts if failures of it are errors. Every
step keeps all constraints settled: whatever changes a leaf, be it a write or a
repair, queues the flows that mention the leaf. That these include all
constraints that look at the leaf is so for adaptations of leaves to leaves;
the index does not list an adaptation under a placeholder context, but nothing
is ever written through that. -/

namespace InfoFlow

/-- A leaf, or an adaptation of a leaf to a leaf. -/
def Value.isFlat : Value → Bool
  | leaf _ => true
  | adapted _ _ _ declaration context => declaration.isLeaf && context.isLeaf

theorem Value.isFlat_of_mem_parts {part whole : Value} (below : part ∈ whole.parts)
    (flat : whole.isFlat = true) : part.isFlat = true := by
  cases whole with
  | leaf content =>
      rw [parts, List.mem_singleton] at below
      rw [below]
      rfl
  | adapted adaptation owner id declaration context =>
      cases declaration with
      | adapted => cases flat
      | leaf declared =>
          cases context with
          | adapted => cases flat
          | leaf outer =>
              simp only [parts, List.mem_cons, List.mem_append, List.not_mem_nil, or_false] at below
              rcases below with equal | equal | equal <;> rw [equal] <;> rfl

structure Constraint.FlatFlow (constraint : Constraint) : Prop where
  flow : constraint.isFlow = true
  left : constraint.left.isFlat = true
  right : constraint.right.isFlat = true

instance (constraint : Constraint) : Decidable constraint.FlatFlow :=
  decidable_of_iff
    (constraint.isFlow = true ∧ constraint.left.isFlat = true ∧ constraint.right.isFlat = true)
    ⟨fun all => ⟨all.1, all.2.1, all.2.2⟩, fun flat => ⟨flat.flow, flat.left, flat.right⟩⟩

/-- A well-formed graph of flows between flat values. Values of another graph
whose numbers clash with its own are excluded, as in any well-formed graph. -/
structure ValueGraph.FlatFlows (graph : ValueGraph) : Prop where
  wellFormed : graph.WellFormed
  flows : ∀ constraint, constraint ∈ graph.constraints.toList → constraint.isFlow = true
  flat : ∀ value, value ∈ graph.values → value.isFlat = true

instance (graph : ValueGraph) : Decidable graph.FlatFlows :=
  decidable_of_iff
    (graph.WellFormed ∧
      (∀ constraint, constraint ∈ graph.constraints.toList → constraint.isFlow = true) ∧
      ∀ value, value ∈ graph.values → value.isFlat = true)
    ⟨fun all => ⟨all.1, all.2.1, all.2.2⟩, fun plain => ⟨plain.wellFormed, plain.flows, plain.flat⟩⟩

namespace Solver

variable {solver before after next : Solver} {constraint other : Constraint} {leaf : Leaf}

/-! ## Mentions -/

theorem Consistent.isFlow (consistent : solver.Consistent) (plain : solver.graph.FlatFlows)
    (member : constraint ∈ solver.constraints.toList) : constraint.isFlow = true := by
  have ofSubtype : constraint.relation = .subtype → constraint.isFlow = true := by
    intro flow
    rw [Constraint.isFlow, flow]
    rfl
  rcases consistent.origin constraint member with original | flow
  · rcases ValueGraph.mem_upgraded original with known | ⟨-, -, flow, -⟩
    · exact plain.flows constraint known
    · exact ofSubtype flow
  · exact ofSubtype flow

theorem Consistent.flatFlow (consistent : solver.Consistent) (plain : solver.graph.FlatFlows)
    (member : constraint ∈ solver.constraints.toList) : constraint.FlatFlow := by
  have between := consistent.between constraint member
  have flat : ∀ side, side ∈ solver.graph.parts → side.isFlat = true := by
    intro side sideMember
    rcases List.mem_flatMap.mp sideMember with ⟨value, valueMember, inValue⟩
    exact Value.isFlat_of_mem_parts inValue (plain.flat value valueMember)
  exact ⟨consistent.isFlow plain member, flat _ between.1, flat _ between.2⟩

theorem direct_of_isFlat {adaptation : Adaptation} {owner id : Nat} {declaration context : Value}
    (flat : (Value.adapted adaptation owner id declaration context).isFlat = true)
    (below : leaf ∈ (Value.adapted adaptation owner id declaration context).leaves)
    (mutable : leaf.isImmutable = false) :
    ReferenceIndex.hasDeclaration (.leaf leaf)
        (.adapted adaptation owner id declaration context) = true ∨
      ReferenceIndex.hasContext (.leaf leaf)
        (.adapted adaptation owner id declaration context) = true := by
  have named : isSynthetic leaf.identifier = false := by
    simp only [Leaf.isImmutable, Bool.or_eq_false_iff] at mutable
    exact mutable.2
  cases declaration with
  | adapted => cases flat
  | leaf declared =>
      cases context with
      | adapted => cases flat
      | leaf outer =>
          simp only [Value.leaves, List.mem_append, List.mem_singleton] at below
          rcases below with equal | equal
          · right
            rw [← equal]
            simp [ReferenceIndex.hasContext, Value.same, Value.identifier, named]
          · left
            rw [← equal]
            simp [ReferenceIndex.hasDeclaration, Value.same]

theorem Consistent.mem_referencing (consistent : solver.Consistent)
    (numbered : Numbered solver.graph.parts) (flatFlow : constraint.FlatFlow)
    (member : constraint ∈ solver.constraints.toList)
    (below : leaf ∈ constraint.left.leaves ∨ leaf ∈ constraint.right.leaves)
    (mutable : leaf.isImmutable = false) :
    constraint ∈ solver.index.referencing (.leaf leaf) := by
  have registered : constraint ∈ solver.index.registered.toList :=
    consistent.registered.symm ▸ member
  have found : ∀ side : Value, side = constraint.left ∨ side = constraint.right →
      side.isFlat = true → leaf ∈ side.leaves →
        constraint ∈ solver.index.referencing (.leaf leaf) := by
    intro side isSide flat inSide
    cases side with
    | leaf content =>
        rw [Value.leaves, List.mem_singleton] at inSide
        refine ReferenceIndex.mem_referencing_of_side registered flatFlow.flow ?_
        rcases isSide with equal | equal
        · left
          rw [← equal, inSide]
          exact Value.same_refl _
        · right
          rw [← equal, inSide]
          exact Value.same_refl _
    | adapted adaptation owner id declaration context =>
        have direct := direct_of_isFlat flat inSide mutable
        exact ReferenceIndex.mem_referencing_of_direct consistent.among consistent.noted
          numbered registered flatFlow.flow isSide direct
  rcases below with inLeft | inRight
  · exact found _ (.inl rfl) flatFlow.left inLeft
  · exact found _ (.inr rfl) flatFlow.right inRight

/-! ## Settled constraints -/

/-- A constraint waits, or can be applied without a change, or fails and is a
conflict if its failure is an error. -/
def Settled (solver : Solver) (constraint : Constraint) : Prop :=
  constraint.key ∈ solver.worklist.keys ∨ solver.annotations.Stable constraint ∨
    (solver.annotations.Fails constraint ∧
      (solver.graph.failureStatus constraint = some .error →
        constraint.key ∈ solver.conflicts.keys))

/-- The changes of a repair, or of a constraint that is applied, leave the
leaves of a flow as they are or queue it. -/
theorem Consistent.agree_or_waiting (consistent : before.Consistent)
    (numbered : Numbered before.graph.parts) (flatFlow : constraint.FlatFlow)
    (guarded : before.Guarded) (changed : Changed before after)
    (member : constraint ∈ before.constraints.toList) :
    constraint.key ∈ after.worklist.keys ∨
      ∀ leaf, leaf ∈ constraint.left.leaves ++ constraint.right.leaves →
        before.annotations.get leaf = after.annotations.get leaf := by
  by_cases waiting : constraint.key ∈ after.worklist.keys
  · exact .inl waiting
  · right
    intro leaf below
    have included := leaves_subset_of_between (consistent.between constraint member)
    have leafMember : leaf ∈ before.graph.leafParts := by
      rcases List.mem_append.mp below with inLeft | inRight
      · exact included.1 inLeft
      · exact included.2 inRight
    cases frozen : leaf.isImmutable with
    | true => exact ((changed.spared guarded).2 leaf leafMember frozen).symm
    | false =>
        rcases changed.touched leaf leafMember with same | queued
        · exact same.symm
        · have mention :=
            consistent.mem_referencing numbered flatFlow member (List.mem_append.mp below) frozen
          exact absurd (queued (List.mem_map_of_mem mention)) waiting

theorem Settled.of_changed (settled : before.Settled constraint)
    (consistent : before.Consistent) (plain : before.graph.FlatFlows) (guarded : before.Guarded)
    (changed : Changed before after) (member : constraint ∈ before.constraints.toList) :
    after.Settled constraint := by
  rcases consistent.agree_or_waiting plain.wellFormed.numbered (consistent.flatFlow plain member)
    guarded changed member with waiting | agree
  · exact .inl waiting
  · have included := leaves_subset_of_between (consistent.between constraint member)
    have separate := consistent.places.subset (List.append_subset.mpr included)
    rcases settled with waiting | stable | ⟨fails, conflict⟩
    · exact .inl (changed.waiting waiting)
    · exact .inr (.inl (stable.of_agree separate constraint.left_below constraint.right_below
        agree))
    · refine .inr (.inr ⟨fails.of_agree constraint.left_below constraint.right_below agree, ?_⟩)
      rw [changed.graph, changed.conflicts]
      exact conflict

theorem Settled.addConflict (settled : solver.Settled other) :
    Settled { solver with conflicts := solver.conflicts.add constraint } other := by
  rcases settled with waiting | stable | ⟨fails, conflict⟩
  · exact .inl waiting
  · exact .inr (.inl stable)
  · exact .inr (.inr ⟨fails, fun status =>
      ConstraintSet.mem_keys_add.mpr (.inl (conflict status))⟩)

theorem Consistent.waiting_of_applied {changed : Bool} (consistent : solver.Consistent)
    (numbered : Numbered solver.graph.parts) (flatFlow : constraint.FlatFlow)
    (member : constraint ∈ solver.constraints.toList)
    (applied : solver.apply constraint = .ok (after, changed)) :
    changed = true ∧ constraint.key ∈ after.worklist.keys ∨
      changed = false ∧ after = solver ∧ solver.annotations.Stable constraint := by
  rcases apply_eq_ok applied with ⟨narrowing, outcome, rfl, rfl⟩
  have included := leaves_subset_of_between (consistent.between constraint member)
  have separate := consistent.places.subset (List.append_subset.mpr included)
  have reached :=
    Annotations.apply_from separate constraint.left_below constraint.right_below outcome
  cases reached with
  | unwritten => exact .inr ⟨rfl, rfl, outcome⟩
  | @written narrowing leaf qualifiers earlier below mutable =>
      left
      refine ⟨by simp [Narrowing.changed], ?_⟩
      have mention :=
        consistent.mem_referencing numbered flatFlow member (List.mem_append.mp below) mutable
      have index : (solver.absorb narrowing).index = solver.index := by
        rcases solver.absorb_eq narrowing with ⟨worklist, snapshots, absorbed⟩
        rw [absorbed]
      have recorded := solver.absorb_written narrowing
        ⟨leaf, narrowing.annotations.get leaf, qualifiers⟩
      rw [recorded, record, note_eq]
      refine Worklist.mem_keys_addAll.mpr (.inr (List.mem_map_of_mem ?_))
      rw [index]
      exact StableSort.mem_sort.mpr mention

theorem Consistent.waiting_of_repaired (consistent : solver.Consistent)
    (plain : solver.graph.FlatFlows) (member : constraint ∈ solver.constraints.toList)
    (repaired : (solver.repair constraint).2 = .ok true) :
    constraint.key ∈ (solver.repair constraint).1.worklist.keys := by
  have between := consistent.between constraint member
  unfold repair at repaired ⊢
  split at repaired
  · cases repaired
  · next value demotes =>
      have demoted := changed_demoteAll consistent.places (targets_subset between demotes)
      have afterDemotion := consistent.of_changed demoted
      dsimp only at repaired ⊢
      split at repaired
      · next progressed =>
          rw [if_pos progressed]
          split at repaired
          · next applied changed again =>
              rcases afterDemotion.waiting_of_applied
                (demoted.graph.symm ▸ plain.wellFormed.numbered)
                (consistent.flatFlow plain member) (demoted.constraints.symm ▸ member) again with
                ⟨-, waiting⟩ | ⟨unchanged, -, -⟩
              · exact waiting
              · rw [unchanged] at repaired
                cases repaired
          · cases repaired
          · cases repaired
      · cases repaired

/-! ## Balance -/

/-- The invariant of a solve: all members of the working set are settled, and
only errors are conflicts. -/
structure Balanced (solver : Solver) : Prop where
  consistent : solver.Consistent
  plain : solver.graph.FlatFlows
  guarded : solver.Guarded
  settled : ∀ member, member ∈ solver.constraints.toList → solver.Settled member
  errors : ∀ member, member ∈ solver.conflicts.toList →
    solver.graph.failureStatus member = some .error

/-- What is left to settle when a constraint was taken off the queue: that
constraint itself. -/
structure AlmostBalanced (solver : Solver) (constraint : Constraint) : Prop where
  consistent : solver.Consistent
  plain : solver.graph.FlatFlows
  guarded : solver.Guarded
  settled : ∀ member, member ∈ solver.constraints.toList → member ≠ constraint →
    solver.Settled member
  errors : ∀ member, member ∈ solver.conflicts.toList →
    solver.graph.failureStatus member = some .error

theorem AlmostBalanced.of_changed (balanced : before.AlmostBalanced constraint)
    (changed : Changed before after) : after.AlmostBalanced constraint where
  consistent := balanced.consistent.of_changed changed
  plain := changed.graph ▸ balanced.plain
  guarded := (changed.spared balanced.guarded).1
  settled := by
    intro member present different
    rw [changed.constraints] at present
    exact (balanced.settled member present different).of_changed balanced.consistent
      balanced.plain balanced.guarded changed present
  errors := by
    rw [changed.conflicts, changed.graph]
    exact balanced.errors

theorem AlmostBalanced.balanced (almost : solver.AlmostBalanced constraint)
    (settled : solver.Settled constraint) : solver.Balanced where
  consistent := almost.consistent
  plain := almost.plain
  guarded := almost.guarded
  settled := by
    intro member present
    by_cases same : member = constraint
    · exact same ▸ settled
    · exact almost.settled member present same
  errors := almost.errors

theorem AlmostBalanced.addConflict (almost : solver.AlmostBalanced constraint)
    (member : constraint ∈ solver.constraints.toList)
    (error : solver.graph.failureStatus constraint = some .error) :
    AlmostBalanced { solver with conflicts := solver.conflicts.add constraint } constraint where
  consistent := almost.consistent.addConflict member
  plain := almost.plain
  guarded := ⟨almost.guarded.numbered, almost.guarded.mutable⟩
  settled := fun other present different => (almost.settled other present different).addConflict
  errors := by
    intro conflict present
    rcases ConstraintSet.mem_or_eq_of_mem_add present with earlier | equal
    · exact almost.errors conflict earlier
    · exact equal ▸ error

theorem Balanced.extend (balanced : solver.Balanced)
    (member : constraint ∈ solver.constraints.toList) : (solver.extend constraint).Balanced := by
  rcases balanced.consistent.extend_eq solver.handedOn_between balanced.consistent.between
    member with ⟨found, extension⟩
  have consistent := balanced.consistent.extension extension fun _ between => between
  rw [extension.equal] at consistent ⊢
  refine ⟨consistent, balanced.plain, ⟨balanced.guarded.numbered, balanced.guarded.mutable⟩, ?_,
    balanced.errors⟩
  intro other present
  rcases ConstraintSet.mem_or_mem_of_mem_addAll present with earlier | new
  · rcases balanced.settled other earlier with waiting | settled
    · exact .inl (Worklist.mem_keys_addAll.mpr (.inl waiting))
    · exact .inr settled
  · exact .inl (Worklist.mem_keys_addAll.mpr (.inr (List.mem_map_of_mem new)))

theorem AlmostBalanced.fail (almost : solver.AlmostBalanced constraint)
    (member : constraint ∈ solver.constraints.toList)
    (fails : solver.annotations.Fails constraint) : (solver.fail constraint).Balanced := by
  have changed := changed_repair almost.consistent.places
    (almost.consistent.between constraint member)
  have repaired := almost.of_changed changed
  have memberAfter := changed.constraints.symm ▸ member
  rcases solver.fail_cases constraint with
    ⟨status, ⟨succeeded, equal⟩ | ⟨-, equal⟩⟩ | ⟨status, warned, log, equal⟩
  · rw [equal]
    exact repaired.balanced
      (.inl (almost.consistent.waiting_of_repaired almost.plain member succeeded))
  · rw [equal]
    have error : (solver.repair constraint).1.graph.failureStatus constraint = some .error :=
      changed.graph.symm ▸ status
    have conflict : constraint.key ∈
        ((solver.repair constraint).1.conflicts.add constraint).keys :=
      ConstraintSet.mem_keys_add.mpr (.inr rfl)
    refine (repaired.addConflict memberAfter error).balanced ?_
    rcases almost.consistent.agree_or_waiting almost.plain.wellFormed.numbered
      (almost.consistent.flatFlow almost.plain member) almost.guarded changed member with
      waiting | agree
    · exact .inl waiting
    · exact .inr (.inr ⟨fails.of_agree constraint.left_below constraint.right_below agree,
        fun _ => conflict⟩)
  · rw [equal]
    have same : AlmostBalanced { solver with warned, log } constraint :=
      ⟨{ almost.consistent with }, almost.plain,
        ⟨almost.guarded.numbered, almost.guarded.mutable⟩, almost.settled, almost.errors⟩
    exact same.balanced (.inr (.inr ⟨fails, fun error => absurd error status⟩))

theorem AlmostBalanced.serve (almost : solver.AlmostBalanced constraint)
    (member : constraint ∈ solver.constraints.toList) : (solver.serve constraint).Balanced := by
  unfold Solver.serve
  split
  · next applied outcome success =>
      have changed := changed_apply almost.consistent.places
        (almost.consistent.between constraint member) success
      have afterApply := almost.of_changed changed
      have settled : applied.Settled constraint := by
        rcases almost.consistent.waiting_of_applied almost.plain.wellFormed.numbered
          (almost.consistent.flatFlow almost.plain member) member success with
          ⟨-, waiting⟩ | ⟨-, same, stable⟩
        · exact .inl waiting
        · rw [same]
          exact .inr (.inl stable)
      exact (afterApply.balanced settled).extend (changed.constraints.symm ▸ member)
  · next failure failed =>
      exact almost.fail member
        (almost.consistent.fails_of_error almost.plain.wellFormed.specified member failed)

theorem Balanced.step (balanced : solver.Balanced) (stepped : solver.step = some next) :
    next.Balanced := by
  rcases step_eq_some stepped with ⟨constraint, rest, waiting, rfl⟩
  have popped := balanced.consistent.popped waiting
  have almost : AlmostBalanced { solver with worklist := rest } constraint := by
    refine ⟨popped.1, balanced.plain, ⟨balanced.guarded.numbered, balanced.guarded.mutable⟩, ?_,
      balanced.errors⟩
    intro other present different
    exact (balanced.settled other present).imp_left
      (balanced.consistent.keeps_waiting waiting present different)
  exact almost.serve popped.2

theorem start_guarded (wellFormed : solver.graph.WellFormed) : solver.start.Guarded := by
  rcases solver.start_eq with ⟨log, started⟩
  rw [started]
  exact ⟨wellFormed.leaf_eq_of_id, fun leaf member updated => by cases updated⟩

theorem start_balanced (plain : solver.graph.FlatFlows) : solver.start.Balanced where
  consistent := start_consistent plain.wellFormed.coherent
  plain := solver.start_graph.symm ▸ plain
  guarded := start_guarded plain.wellFormed
  settled := fun _ present => .inl (start_waits present)
  errors := by
    rcases solver.start_eq with ⟨log, started⟩
    rw [started]
    intro member present
    cases present

/-! ## The final retry -/

theorem apply_of_stable (stable : solver.annotations.Stable constraint) :
    solver.apply constraint = .ok (solver, false) :=
  apply_of_ok stable

private theorem retry_of_stable (stable : solver.annotations.Stable constraint) :
    solver.retry constraint =
      { solver with conflicts := solver.conflicts.discard constraint } := by
  rw [retry, apply_of_stable stable]

theorem retry_of_fails (fails : solver.annotations.Fails constraint) :
    solver.retry constraint = solver := by
  rcases fails with ⟨left, right, failed⟩
  rw [retry, apply_eq_error.mpr failed]

private theorem foldl_retry (retried : List Constraint)
    (outcome : ∀ member, member ∈ retried →
      solver.annotations.Stable member ∨ solver.annotations.Fails member) :
    ∃ conflicts, retried.foldl retry solver = { solver with conflicts } ∧
      conflicts.toList ⊆ solver.conflicts.toList ∧
      ∀ key, key ∈ conflicts.keys ↔ key ∈ solver.conflicts.keys ∧
        ∀ member, member ∈ retried → solver.annotations.Stable member → key ≠ member.key := by
  induction retried generalizing solver with
  | nil => exact ⟨solver.conflicts, rfl, List.Subset.refl _, by simp⟩
  | cons first rest induction =>
      have later := fun member present => outcome member (List.mem_cons_of_mem first present)
      rw [List.foldl_cons]
      rcases outcome first List.mem_cons_self with stable | fails
      · rw [retry_of_stable stable]
        have remaining := @induction
          { solver with conflicts := solver.conflicts.discard first } later
        rcases remaining with ⟨conflicts, equal, fewer, members⟩
        have discarded : (solver.conflicts.discard first).toList ⊆ solver.conflicts.toList :=
          fun _ present => (List.mem_filter.mp present).1
        refine ⟨conflicts, equal, List.Subset.trans fewer discarded, fun key => ?_⟩
        rw [members key, ConstraintSet.mem_keys_discard, and_assoc, List.forall_mem_cons]
        exact ⟨fun all => ⟨all.1, fun _ => all.2.1, all.2.2⟩,
          fun all => ⟨all.1, all.2.1 stable, all.2.2⟩⟩
      · rw [retry_of_fails fails]
        rcases induction later with ⟨conflicts, equal, fewer, members⟩
        refine ⟨conflicts, equal, fewer, fun key => ?_⟩
        rw [members key, List.forall_mem_cons]
        exact ⟨fun all => ⟨all.1, fun stable => absurd stable fails.not_stable, all.2⟩,
          fun all => ⟨all.1, all.2.2⟩⟩

theorem finish_eq (solver : Solver) :
    ∃ log, solver.finish = { solver.conflicts.toList.foldl retry solver with log } := by
  simp only [finish]
  rcases report_eq (solver.conflicts.toList.foldl retry solver) .info
    ("Total restore number: " ++
      toString (solver.conflicts.toList.foldl retry solver).restoreCounter) with ⟨first, reported⟩
  rw [reported]
  rcases report_eq { solver.conflicts.toList.foldl retry solver with log := first } .info
    ("Finish solving constraints. " ++
      toString (solver.conflicts.toList.foldl retry solver).conflicts.size ++ " error(s)") with
    ⟨second, finished⟩
  rw [finished]
  exact ⟨second, rfl⟩

theorem Settled.outcome (settled : solver.Settled constraint)
    (empty : solver.worklist.toList = []) :
    solver.annotations.Stable constraint ∨ solver.annotations.Fails constraint := by
  rcases settled with waiting | stable | fails
  · rw [Worklist.keys, empty] at waiting
    cases waiting
  · exact .inl stable
  · exact .inr fails.1

theorem Balanced.finish (balanced : solver.Balanced) (empty : solver.worklist.toList = []) :
    ∃ conflicts log, solver.finish = { solver with conflicts, log } ∧
      conflicts.toList ⊆ solver.constraints.toList ∧
      ∀ member, member ∈ solver.constraints.toList →
        (member.key ∈ conflicts.keys ↔ solver.annotations.Fails member ∧
          solver.graph.failureStatus member = some .error) := by
  have outcome := fun member present =>
    (balanced.settled member (balanced.consistent.conflicts present)).outcome empty
  rcases foldl_retry solver.conflicts.toList outcome with ⟨conflicts, retried, fewer, members⟩
  rcases solver.finish_eq with ⟨log, finished⟩
  rw [retried] at finished
  refine ⟨conflicts, log, finished, List.Subset.trans fewer balanced.consistent.conflicts,
    fun member present => ?_⟩
  have distinct := balanced.consistent.distinct
  rw [members]
  constructor
  · rintro ⟨conflict, kept⟩
    rcases List.mem_map.mp conflict with ⟨known, knownConflict, sameKey⟩
    have same : known = member := ConstraintSet.eq_of_key_eq distinct
      (balanced.consistent.conflicts knownConflict) present sameKey
    rw [same] at knownConflict
    rcases outcome member knownConflict with stable | fails
    · exact absurd rfl (kept member knownConflict stable)
    · exact ⟨fails, balanced.errors member knownConflict⟩
  · rintro ⟨fails, error⟩
    have settled := balanced.settled member present
    rw [Settled, Worklist.keys, empty] at settled
    rcases settled with waiting | stable | ⟨-, conflict⟩
    · cases waiting
    · exact absurd stable fails.not_stable
    · refine ⟨conflict error, fun other otherConflict stable sameKey => ?_⟩
      have same := ConstraintSet.eq_of_key_eq distinct present
        (balanced.consistent.conflicts otherConflict) sameKey
      rw [same] at fails
      exact fails.not_stable stable

/-! ## The end of a solve -/

/-- A solve of flows between flat values ends in a fixpoint, whatever it
favours: nothing waits, no constraint that the solve began with is missing from
the working set, each member of it fails or can be applied without a change, and
the conflicts are exactly the members that fail and whose failure is an error.
The graph is well formed, so it does not adapt values of another one whose
numbers clash with its own. -/
theorem solve_fixpoint (solver : Solver) (plain : solver.graph.FlatFlows) :
    solver.solve.worklist.toList = [] ∧
      solver.graph.upgraded.toList ⊆ solver.solve.constraints.toList ∧
      (∀ member, member ∈ solver.solve.constraints.toList →
        (∃ left right, solver.solve.apply member = .error (.unsatisfiable member left right)) ∨
          solver.solve.apply member = .ok (solver.solve, false)) ∧
      solver.solve.conflicts.toList ⊆ solver.solve.constraints.toList ∧
      ∀ member, member ∈ solver.solve.constraints.toList →
        (solver.solve.conflicts.contains member = true ↔
          (∃ left right, solver.solve.apply member = .error (.unsatisfiable member left right)) ∧
            solver.graph.failureStatus member = some .error) := by
  have coherent := plain.wellFormed.coherent
  have empty := iterate_waiting coherent
  have graph := (iterate_consistent coherent solver.rounds).2
  have balanced : (iterate step solver.rounds solver.start).Balanced :=
    iterate_preserves (fun _ _ stepped balanced => Balanced.step balanced stepped) solver.rounds
      (start_balanced plain)
  rcases balanced.finish empty with ⟨conflicts, log, finished, included, exactly⟩
  have outcome := fun member present => (balanced.settled member present).outcome empty
  rw [← graph, solve, finished]
  refine ⟨empty, balanced.consistent.started, fun member present => ?_, included,
    fun member present => ?_⟩
  · rcases outcome member present with stable | ⟨left, right, failed⟩
    · exact .inr (apply_of_stable stable)
    · exact .inl ⟨left, right, apply_eq_error.mpr failed⟩
  · rw [ConstraintSet.contains_iff, exactly member present]
    simp only [Annotations.Fails, apply_eq_error]

/-- As `storedSecret`, and the secret also goes straight to where only clear
values are. -/
def leakedSecret : ValueGraph :=
  let secret : Value := .leaf
    (LeafSpec.leaf { identifier := "secret", kind := .constant, declared := .only .sensitive } 0 0)
  let published : Value := .leaf
    (LeafSpec.leaf { identifier := "published", kind := .constant, declared := .only .clear } 0 5)
  { storedSecret with
    values := storedSecret.values ++ [published]
    constraints := storedSecret.constraints.add (.inferred secret published []) }

/-- One value is eliminated, so that the secret can be stored. The leak remains. -/
theorem solve_fixpoint_leakedSecret :
    let biased : Solver := { graph := leakedSecret, policy := ⟨.sink, 3⟩ }
    leakedSecret.FlatFlows ∧ biased.solve.worklist.toList = [] ∧
      leakedSecret.upgraded.toList ⊆ biased.solve.constraints.toList ∧
      biased.solve.constraints.size = 8 ∧
      biased.solve.eliminated.map Leaf.id = [4] ∧
      biased.solve.conflicts.toList.map (fun conflict => (conflict.left.id, conflict.right.id)) =
        [(0, 5)] ∧
      ∀ member, member ∈ biased.solve.constraints.toList →
        (biased.solve.conflicts.contains member = true ↔
          (∃ left right, biased.solve.apply member = .error (.unsatisfiable member left right)) ∧
            leakedSecret.failureStatus member = some .error) := by
  intro biased
  have plain : leakedSecret.FlatFlows := by decide
  have fixpoint := solve_fixpoint biased plain
  exact ⟨plain, fixpoint.1, fixpoint.2.1, by decide, by decide, by decide, fixpoint.2.2.2.2⟩

end Solver

end InfoFlow
