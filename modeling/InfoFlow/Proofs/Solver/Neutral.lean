import InfoFlow.Proofs.Narrowing.Shrinking
import InfoFlow.Proofs.Solver.Fixpoint

/-! Solves that repair nothing.

Without a favoured side a constraint that fails changes no leaf. So annotations
only shrink, and a conflict stays one. The constraints at the start are served
in their order, each in a turn of its own, and only flows are queued behind
them. -/

namespace InfoFlow

structure ValueGraph.Plain (graph : ValueGraph) : Prop where
  wellFormed : graph.WellFormed
  leaves : ∀ value, value ∈ graph.values → value.isLeaf = true

instance (graph : ValueGraph) : Decidable graph.Plain :=
  decidable_of_iff (graph.WellFormed ∧ ∀ value, value ∈ graph.values → value.isLeaf = true)
    ⟨fun both => ⟨both.1, both.2⟩, fun plain => ⟨plain.wellFormed, plain.leaves⟩⟩

theorem ValueGraph.Plain.leaf_of_mem_parts {graph : ValueGraph} (plain : graph.Plain)
    {value : Value} (member : value ∈ graph.parts) :
    ∃ leaf, value = .leaf leaf ∧ leaf ∈ graph.leafParts := by
  rcases List.mem_flatMap.mp member with ⟨whole, wholeMember, below⟩
  cases whole with
  | leaf content =>
      have equal : value = .leaf content := by simpa [Value.parts] using below
      rw [equal] at member
      exact ⟨content, equal, leaf_mem_parts_iff.mp member⟩
  | adapted adaptation owner id declaration context => cases plain.leaves _ wholeMember

namespace Solver

variable {solver next : Solver} {constraint : Constraint}

/-! ## One turn -/

/-- What serving a constraint does if nothing is repaired. -/
structure Turn (solver : Solver) (constraint : Constraint) (next : Solver) : Prop where
  graph : next.graph = solver.graph
  policy : next.policy = solver.policy
  queued : ∃ more, next.worklist.toList = solver.worklist.toList ++ more ∧
    ∀ member, member ∈ more → member.isFlow = true
  outcome :
    (∃ narrowing, solver.annotations.apply Leaf.isImmutable constraint = .ok narrowing ∧
        next.annotations = narrowing.annotations ∧ next.conflicts = solver.conflicts) ∨
      (solver.annotations.Fails constraint ∧ next.annotations = solver.annotations ∧
        next.conflicts =
          if solver.graph.failureStatus constraint = some .error then
            solver.conflicts.add constraint
          else solver.conflicts)

theorem fail_of_neutral (neutral : solver.policy.bias = .neutral) :
    ∃ warned log, solver.fail constraint =
      { solver with
        warned
        log
        conflicts :=
          if solver.graph.failureStatus constraint = some .error then
            solver.conflicts.add constraint
          else solver.conflicts } := by
  have unrepaired : solver.repair constraint = (solver, .ok false) := by
    simp only [repair, demoted?, neutral]
  rcases solver.fail_cases constraint with
    ⟨status, ⟨succeeded, -⟩ | ⟨-, equal⟩⟩ | ⟨status, warned, log, equal⟩
  · rw [unrepaired] at succeeded
    cases succeeded
  · rw [equal, unrepaired, if_pos status]
    exact ⟨solver.warned, solver.log, rfl⟩
  · rw [equal, if_neg status]
    exact ⟨warned, log, rfl⟩

theorem serve_failed {failure : Failure} (neutral : solver.policy.bias = .neutral)
    (outcome : solver.annotations.apply Leaf.isImmutable constraint = .error failure) :
    ∃ warned log, solver.serve constraint =
      { solver with
        warned
        log
        conflicts :=
          if solver.graph.failureStatus constraint = some .error then
            solver.conflicts.add constraint
          else solver.conflicts } := by
  rw [serve, apply_eq_error.mpr outcome]
  exact fail_of_neutral neutral

theorem Consistent.turn (consistent : solver.Consistent)
    (neutral : solver.policy.bias = .neutral) (member : constraint ∈ solver.constraints.toList)
    (specified : constraint.relation ≠ .unspecified) :
    solver.Turn constraint (solver.serve constraint) := by
  unfold Solver.serve
  split
  · next applied changed success =>
      have reached := changed_apply consistent.places (consistent.between constraint member) success
      have afterApply := consistent.of_changed reached
      rcases afterApply.extend_eq applied.handedOn_between afterApply.between
        (reached.constraints.symm ▸ member) with ⟨found, extension⟩
      rcases reached.queued with ⟨more, equal, flows⟩
      rcases applied.worklist.toList_addAll_eq found with ⟨derived, laterEqual, included⟩
      rcases apply_eq_ok success with ⟨narrowing, outcome, absorbed, -⟩
      have annotations : applied.annotations = narrowing.annotations := by
        rw [absorbed, absorb_annotations]
      rw [extension.equal]
      refine ⟨reached.graph, reached.policy, ⟨more ++ derived, ?_, ?_⟩,
        .inl ⟨narrowing, outcome, annotations, reached.conflicts⟩⟩
      · rw [← List.append_assoc, ← equal]
        exact laterEqual
      · intro other present
        rcases List.mem_append.mp present with queued | new
        · exact (flows other queued).2
        · rw [Constraint.isFlow, extension.flows other (included new)]
          rfl
  · next failure failed =>
      have fails := Annotations.fails_of_error specified (apply_eq_error.mp failed)
      rcases fail_of_neutral neutral with ⟨warned, log, equal⟩
      rw [equal]
      exact ⟨rfl, rfl, ⟨[], (List.append_nil _).symm, by simp⟩, .inr ⟨fails, rfl, rfl⟩⟩

theorem Turn.mem_conflicts_self (turn : solver.Turn constraint next)
    (error : solver.graph.failureStatus constraint = some .error) :
    constraint.key ∈ next.conflicts.keys ↔
      constraint.key ∈ solver.conflicts.keys ∨ solver.annotations.Fails constraint := by
  rcases turn.outcome with ⟨narrowing, applied, -, conflicts⟩ | ⟨fails, -, conflicts⟩
  · have succeeds : ¬ solver.annotations.Fails constraint := by
      rintro ⟨_, _, failed⟩
      rw [failed] at applied
      cases applied
    rw [conflicts]
    exact (or_iff_left succeeds).symm
  · rw [conflicts, if_pos error, ConstraintSet.mem_keys_add]
    exact ⟨fun _ => .inr fails, fun _ => .inr rfl⟩

theorem Turn.mem_conflicts_other (turn : solver.Turn constraint next) {key : ConstraintKey}
    (other : key ≠ constraint.key) :
    key ∈ next.conflicts.keys ↔ key ∈ solver.conflicts.keys := by
  rcases turn.outcome with ⟨narrowing, -, -, conflicts⟩ | ⟨-, -, conflicts⟩
  · rw [conflicts]
  · rw [conflicts]
    split
    · rw [ConstraintSet.mem_keys_add]
      exact or_iff_left other
    · exact Iff.rfl

theorem Turn.fails_of_conflict (turn : solver.Turn constraint next)
    (kept : ∀ member, member ∈ solver.conflicts.toList → next.annotations.Fails member) :
    ∀ member, member ∈ next.conflicts.toList → next.annotations.Fails member := by
  intro member present
  rcases turn.outcome with ⟨narrowing, -, -, conflicts⟩ | ⟨fails, annotations, conflicts⟩
  · rw [conflicts] at present
    exact kept member present
  · rw [conflicts] at present
    split at present
    · rcases ConstraintSet.mem_or_eq_of_mem_add present with earlier | new
      · exact kept member earlier
      · rw [annotations, new]
        exact fails
    · exact kept member present

theorem Turn.fewer (turn : solver.Turn constraint next)
    (places : SeparatePlaces solver.graph.leafParts)
    (between : constraint.Between solver.graph.parts) :
    Annotations.Fewer solver.graph.leafParts solver.annotations next.annotations := by
  have included := leaves_subset_of_between between
  rcases turn.outcome with ⟨narrowing, applied, annotations, -⟩ | ⟨-, annotations, -⟩
  · rw [annotations]
    exact Annotations.fewer_apply places included.1 included.2 applied
  · rw [annotations]
    exact .refl _ _

theorem Consistent.conflicts_fail (consistent : solver.Consistent)
    (specified : solver.graph.Specified) (member : constraint ∈ solver.constraints.toList)
    (turn : solver.Turn constraint next)
    (fails : ∀ conflict, conflict ∈ solver.conflicts.toList →
      solver.annotations.Fails conflict) :
    ∀ conflict, conflict ∈ next.conflicts.toList → next.annotations.Fails conflict := by
  refine turn.fails_of_conflict fun conflict present => ?_
  have known := consistent.conflicts present
  have included := leaves_subset_of_between (consistent.between conflict known)
  exact (fails conflict present).of_fewer (consistent.specified specified known)
    (turn.fewer consistent.places (consistent.between constraint member)) included.1 included.2

/-! ## Many turns -/

def afterServing (solver : Solver) (count : Nat) : Solver :=
  iterate step count solver.start

theorem afterServing_succ (solver : Solver) (count : Nat) :
    (solver.afterServing (count + 1) = solver.afterServing count ∧
        (solver.afterServing count).worklist.toList = []) ∨
      ∃ constraint rest,
        (solver.afterServing count).worklist.toList = constraint :: rest.toList ∧
        solver.afterServing (count + 1) =
          ({ solver.afterServing count with worklist := rest } : Solver).serve constraint := by
  unfold afterServing
  rw [iterate_succ]
  cases stepped : step (iterate step count solver.start) with
  | none => exact .inl ⟨rfl, step_eq_none stepped⟩
  | some next =>
      rcases step_eq_some stepped with ⟨constraint, rest, waiting, equal⟩
      exact .inr ⟨constraint, rest, waiting, equal⟩

theorem afterServing_of_rounds_le (coherent : solver.graph.Coherent) {count : Nat}
    (enough : solver.rounds ≤ count) :
    solver.afterServing count = solver.afterServing solver.rounds := by
  rw [← Nat.add_sub_cancel' enough, afterServing, iterate_add]
  exact iterate_of_finished (step_of_empty (iterate_waiting coherent)) _

/-- The invariant of a neutral solve after some turns. -/
structure Undisturbed (solver : Solver) (count : Nat) : Prop where
  consistent : (solver.afterServing count).Consistent
  graph : (solver.afterServing count).graph = solver.graph
  neutral : (solver.afterServing count).policy.bias = .neutral
  queue : ∃ later, (solver.afterServing count).worklist.toList =
      solver.graph.upgraded.toList.drop count ++ later ∧
    ∀ member, member ∈ later → member.isFlow = true
  conflicts : ∀ member, member ∈ (solver.afterServing count).conflicts.toList →
    (solver.afterServing count).annotations.Fails member

theorem undisturbed_start (coherent : solver.graph.Coherent)
    (neutral : solver.policy.bias = .neutral) : solver.Undisturbed 0 := by
  have consistent := start_consistent coherent
  have none : solver.start.conflicts.toList = [] := by
    rcases solver.start_eq with ⟨log, started⟩
    rw [started]
    rfl
  refine ⟨consistent, solver.start_graph, solver.start_policy.symm ▸ neutral, ?_, ?_⟩
  · exact ⟨[], by rw [List.drop_zero, List.append_nil]; exact solver.start_waiting, by simp⟩
  · intro member present
    have conflict : member ∈ solver.start.conflicts.toList := present
    rw [none] at conflict
    cases conflict

theorem Undisturbed.served {count : Nat} {rest : Worklist}
    (undisturbed : solver.Undisturbed count)
    (waiting : (solver.afterServing count).worklist.toList = constraint :: rest.toList) :
    (solver.graph.upgraded.toList[count]? = some constraint ∨
        solver.graph.upgraded.toList.length ≤ count ∧ constraint.isFlow = true) ∧
      ∃ later, rest.toList = solver.graph.upgraded.toList.drop (count + 1) ++ later ∧
        ∀ member, member ∈ later → member.isFlow = true := by
  rcases undisturbed.queue with ⟨later, queue, flows⟩
  rw [waiting] at queue
  by_cases inRange : count < solver.graph.upgraded.toList.length
  · rw [List.drop_eq_getElem_cons inRange, List.cons_append] at queue
    have parts := List.cons.inj queue
    refine ⟨.inl ?_, later, parts.2, flows⟩
    rw [List.getElem?_eq_getElem inRange, parts.1]
  · rw [Nat.not_lt] at inRange
    rw [List.drop_eq_nil_of_le inRange, List.nil_append] at queue
    have head : constraint ∈ later := queue ▸ List.mem_cons_self
    refine ⟨.inr ⟨inRange, flows constraint head⟩, rest.toList, ?_, ?_⟩
    · rw [List.drop_eq_nil_of_le (Nat.le_succ_of_le inRange), List.nil_append]
    · intro member present
      exact flows member (queue ▸ List.mem_cons_of_mem _ present)

theorem Undisturbed.length_le_of_empty {count : Nat} (undisturbed : solver.Undisturbed count)
    (empty : (solver.afterServing count).worklist.toList = []) :
    solver.graph.upgraded.toList.length ≤ count := by
  rcases undisturbed.queue with ⟨later, queue, -⟩
  rw [empty] at queue
  exact List.drop_eq_nil_iff.mp (List.append_eq_nil_iff.mp queue.symm).1

theorem Undisturbed.turn {count : Nat} {rest : Worklist} (undisturbed : solver.Undisturbed count)
    (specified : solver.graph.Specified)
    (waiting : (solver.afterServing count).worklist.toList = constraint :: rest.toList)
    (equal : solver.afterServing (count + 1) =
      ({ solver.afterServing count with worklist := rest } : Solver).serve constraint) :
    Turn { solver.afterServing count with worklist := rest } constraint
      (solver.afterServing (count + 1)) := by
  have popped := undisturbed.consistent.popped waiting
  rw [← undisturbed.graph] at specified
  rw [equal]
  exact popped.1.turn undisturbed.neutral popped.2
    (undisturbed.consistent.specified specified popped.2)

theorem Undisturbed.succ {count : Nat} (specified : solver.graph.Specified)
    (undisturbed : solver.Undisturbed count) :
    solver.Undisturbed (count + 1) ∧
      Annotations.Fewer solver.graph.leafParts (solver.afterServing count).annotations
        (solver.afterServing (count + 1)).annotations := by
  rcases solver.afterServing_succ count with ⟨same, empty⟩ | ⟨constraint, rest, waiting, equal⟩
  · refine ⟨?_, by rw [same]; exact .refl _ _⟩
    have consistent := undisturbed.consistent
    have passed := undisturbed.length_le_of_empty empty
    have beyond : solver.graph.upgraded.toList.drop (count + 1) = [] :=
      List.drop_eq_nil_of_le (Nat.le_succ_of_le passed)
    refine ⟨same ▸ consistent, same ▸ undisturbed.graph, same ▸ undisturbed.neutral, ?_,
      same ▸ undisturbed.conflicts⟩
    exact ⟨[], by rw [same, empty, beyond, List.append_nil], by simp⟩
  · have popped := undisturbed.consistent.popped waiting
    have turn := undisturbed.turn specified waiting equal
    have fewer := turn.fewer popped.1.places (popped.1.between constraint popped.2)
    have consistent := popped.1.serve popped.2
    rw [← equal] at consistent
    have specifiedAfter : (solver.afterServing count).graph.Specified :=
      undisturbed.graph.symm ▸ specified
    have fails := popped.1.conflicts_fail specifiedAfter popped.2 turn undisturbed.conflicts
    refine ⟨⟨consistent, turn.graph.trans undisturbed.graph, ?_, ?_, fails⟩,
      undisturbed.graph ▸ fewer⟩
    · rw [turn.policy]
      exact undisturbed.neutral
    · rcases (undisturbed.served waiting).2 with ⟨later, queue, flows⟩
      rcases turn.queued with ⟨more, appended, moreFlows⟩
      refine ⟨later ++ more, by rw [appended, ← List.append_assoc, ← queue], ?_⟩
      intro member present
      rcases List.mem_append.mp present with earlier | new
      · exact flows member earlier
      · exact moreFlows member new

theorem undisturbed (coherent : solver.graph.Coherent) (specified : solver.graph.Specified)
    (neutral : solver.policy.bias = .neutral) (count : Nat) : solver.Undisturbed count := by
  induction count with
  | zero => exact undisturbed_start coherent neutral
  | succ count induction => exact (induction.succ specified).1

theorem afterServing_fewer (coherent : solver.graph.Coherent)
    (specified : solver.graph.Specified) (neutral : solver.policy.bias = .neutral)
    (count more : Nat) :
    Annotations.Fewer solver.graph.leafParts (solver.afterServing count).annotations
      (solver.afterServing (count + more)).annotations := by
  induction more with
  | zero => exact .refl _ _
  | succ more induction =>
      exact induction.trans
        ((undisturbed coherent specified neutral (count + more)).succ specified).2

theorem finish_of_fails
    (fails : ∀ member, member ∈ solver.conflicts.toList → solver.annotations.Fails member) :
    ∃ log, solver.finish = { solver with log } := by
  have retried : ∀ members : List Constraint,
      (∀ member, member ∈ members → solver.annotations.Fails member) →
        members.foldl retry solver = solver := by
    intro members
    induction members with
    | nil => exact fun _ => rfl
    | cons first rest induction =>
        intro all
        rw [List.foldl_cons, retry_of_fails (all first List.mem_cons_self)]
        exact induction fun member later => all member (List.mem_cons_of_mem _ later)
  rcases solver.finish_eq with ⟨log, finished⟩
  rw [retried _ fails] at finished
  exact ⟨log, finished⟩

theorem solve_eq_afterServing (coherent : solver.graph.Coherent)
    (specified : solver.graph.Specified) (neutral : solver.policy.bias = .neutral) :
    ∃ log, solver.solve = { solver.afterServing solver.rounds with log } :=
  finish_of_fails (undisturbed coherent specified neutral solver.rounds).conflicts

theorem afterServing_zero_annotations (solver : Solver) :
    (solver.afterServing 0).annotations = solver.annotations :=
  solver.start_annotations

/-! ## Plain graphs -/

theorem Turn.shrinks (turn : solver.Turn constraint next) (plain : solver.graph.Plain)
    (between : constraint.Between solver.graph.parts) :
    Annotations.Shrinks solver.graph.leafParts solver.annotations next.annotations := by
  rcases turn.outcome with ⟨narrowing, applied, annotations, -⟩ | ⟨-, annotations, -⟩
  · rw [annotations]
    exact Annotations.shrinks_apply plain.wellFormed.coherent.places
      (ValueGraph.leaves_subset_leafParts between.1)
      (ValueGraph.leaves_subset_leafParts between.2) applied
  · rw [annotations]
    exact .refl _ _

theorem Undisturbed.shrinks {count : Nat} (plain : solver.graph.Plain)
    (undisturbed : solver.Undisturbed count) :
    Annotations.Shrinks solver.graph.leafParts (solver.afterServing count).annotations
      (solver.afterServing (count + 1)).annotations := by
  rcases solver.afterServing_succ count with ⟨same, -⟩ | ⟨constraint, rest, waiting, equal⟩
  · rw [same]
    exact .refl _ _
  · have popped := undisturbed.consistent.popped waiting
    have turn := undisturbed.turn plain.wellFormed.specified waiting equal
    have plainAfter : (solver.afterServing count).graph.Plain := undisturbed.graph.symm ▸ plain
    have shrinks := turn.shrinks plainAfter (popped.1.between constraint popped.2)
    exact undisturbed.graph ▸ shrinks

theorem afterServing_shrinks (plain : solver.graph.Plain)
    (neutral : solver.policy.bias = .neutral) (count more : Nat) :
    Annotations.Shrinks solver.graph.leafParts (solver.afterServing count).annotations
      (solver.afterServing (count + more)).annotations := by
  induction more with
  | zero => exact .refl _ _
  | succ more induction =>
      exact induction.trans ((undisturbed plain.wellFormed.coherent plain.wellFormed.specified
        neutral (count + more)).shrinks plain)

/-- A solve of a plain graph takes qualifiers from leaves, but not all, and none from
immutable ones. -/
theorem solve_shrinks (plain : solver.graph.Plain) (neutral : solver.policy.bias = .neutral) :
    Annotations.Shrinks solver.graph.leafParts solver.annotations solver.solve.annotations := by
  have shrinks := afterServing_shrinks plain neutral 0 solver.rounds
  rw [afterServing_zero_annotations, Nat.zero_add] at shrinks
  rcases solve_eq_afterServing plain.wellFormed.coherent plain.wellFormed.specified neutral with
    ⟨log, solved⟩
  rw [solved]
  exact shrinks

end Solver

end InfoFlow
