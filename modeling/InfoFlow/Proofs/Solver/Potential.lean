import Mathlib.Algebra.Order.BigOperators.Group.List
import Mathlib.Algebra.Order.Ring.Nat
import InfoFlow.Proofs.Solver.Consistency

/-! How much a solve can still do.

Three things are used up in the course of a solve and are never given back
together: the flows that could still be derived, the demotions that the policy
still permits, and the qualifiers that leaves still carry. A demotion gives
qualifiers back, so it counts for more than all leaves can carry. -/

namespace InfoFlow

namespace QualifierSet

theorem size_le (qualifiers : QualifierSet) : qualifiers.size ≤ 3 := by
  rcases qualifiers with ⟨_ | _, _ | _, _ | _⟩ <;> decide

theorem size_lt_of_subset {fewer qualifiers : QualifierSet} (included : fewer ⊆ qualifiers)
    (different : qualifiers ≠ fewer) : fewer.size < qualifiers.size := by
  revert included different
  rcases fewer with ⟨_ | _, _ | _, _ | _⟩ <;> rcases qualifiers with ⟨_ | _, _ | _, _ | _⟩ <;>
    decide

end QualifierSet

namespace Annotations

def total (annotations : Annotations) (leaves : List Leaf) : Nat :=
  (leaves.map fun leaf => (annotations.get leaf).size).sum

theorem total_le (annotations : Annotations) (leaves : List Leaf) :
    annotations.total leaves ≤ 3 * leaves.length := by
  have bound := List.sum_le_card_nsmul (leaves.map fun leaf => (annotations.get leaf).size) 3 (by
    intro size member
    rcases List.mem_map.mp member with ⟨leaf, -, rfl⟩
    exact (annotations.get leaf).size_le)
  rw [List.length_map, Nat.nsmul_eq_mul] at bound
  rw [total]
  omega

theorem total_set_lt {annotations : Annotations} {leaves : List Leaf} {leaf : Leaf}
    {after : QualifierSet} (places : SeparatePlaces leaves) (member : leaf ∈ leaves)
    (smaller : after ⊆ annotations.get leaf) (different : annotations.get leaf ≠ after) :
    (annotations.set leaf after).total leaves < annotations.total leaves := by
  have less : after.size < (annotations.get leaf).size :=
    QualifierSet.size_lt_of_subset smaller different
  apply List.sum_lt_sum
  · intro other otherMember
    by_cases same : other = leaf
    · rw [same, set_same]
      exact Nat.le_of_lt less
    · rw [set_other _ fun samePlace => same (places other leaf otherMember member samePlace)]
  · refine ⟨leaf, member, ?_⟩
    rw [set_same]
    exact less

end Annotations

namespace Narrowing

theorem From.total_lt {frozen : Leaf → Bool} {leaves : List Leaf} {start : Annotations}
    {narrowing : Narrowing} (places : SeparatePlaces leaves)
    (reached : From frozen leaves start narrowing) :
    narrowing = { annotations := start } ∨
      narrowing.annotations.total leaves < start.total leaves := by
  induction reached with
  | unwritten => exact .inl rfl
  | @written narrowing leaf after earlier member mutable smaller different induction =>
      right
      have less := Annotations.total_set_lt places member smaller different
      rcases induction with unwritten | fewer
      · rw [unwritten] at less ⊢
        exact less
      · exact Nat.lt_trans less fewer

end Narrowing

namespace ValueGraph

theorem length_leafParts_le (graph : ValueGraph) : graph.leafParts.length ≤ graph.extent := by
  have each : ∀ value : Value, value.leaves.length ≤ value.parts.length := by
    intro value
    induction value with
    | leaf content => simp [Value.leaves, Value.parts]
    | adapted adaptation owner id declaration context onDeclaration onContext =>
        simp only [Value.leaves, Value.parts, List.length_append, List.length_cons]
        omega
  rw [leafParts, extent, List.length_flatMap, List.length_flatMap]
  exact List.sum_le_sum fun value _ => each value

end ValueGraph

namespace Solver

variable {solver before middle after : Solver} {leaf : Leaf} {constraint : Constraint}

/-! ## Demotions -/

def demotions (solver : Solver) (leaf : Leaf) : Nat :=
  (solver.policy.maxRestores - solver.restoreCount leaf.id) +
    if solver.isEliminated leaf then 0 else 1

def demotionsLeft (solver : Solver) : Nat :=
  (solver.graph.leafParts.map solver.demotions).sum

theorem demotionsLeft_le (solver : Solver) :
    solver.demotionsLeft ≤ (solver.policy.maxRestores + 1) * solver.graph.extent := by
  have each : ∀ leaf, solver.demotions leaf ≤ solver.policy.maxRestores + 1 := by
    intro leaf
    unfold demotions
    split <;> omega
  have bound := List.sum_le_card_nsmul (solver.graph.leafParts.map solver.demotions)
    (solver.policy.maxRestores + 1) (by
      intro count member
      rcases List.mem_map.mp member with ⟨leaf, -, rfl⟩
      exact each leaf)
  rw [List.length_map, Nat.nsmul_eq_mul, Nat.mul_comm] at bound
  exact bound.trans (Nat.mul_le_mul_left _ solver.graph.length_leafParts_le)

private theorem demotionsLeft_eq (graph : after.graph = before.graph)
    (policy : after.policy = before.policy) (restores : after.restores = before.restores)
    (eliminated : after.eliminated = before.eliminated) :
    after.demotionsLeft = before.demotionsLeft := by
  unfold demotionsLeft demotions restoreCount isEliminated
  rw [graph, policy, restores, eliminated]

private theorem demotionsLeft_lt (graph : after.graph = before.graph)
    (member : leaf ∈ before.graph.leafParts)
    (others : ∀ other, after.demotions other ≤ before.demotions other)
    (less : after.demotions leaf < before.demotions leaf) :
    after.demotionsLeft < before.demotionsLeft := by
  unfold demotionsLeft
  rw [graph]
  exact List.sum_lt_sum _ _ (fun other _ => others other) ⟨leaf, member, less⟩

theorem demotionsLeft_restore {snapshot : QualifierSet} (member : leaf ∈ solver.graph.leafParts)
    (permitted : solver.restoreCount leaf.id < solver.policy.maxRestores) :
    (solver.restore leaf snapshot).demotionsLeft < solver.demotionsLeft := by
  have counted := solver.restoreCount_restore leaf snapshot
  have eliminated : ∀ other, (solver.restore leaf snapshot).isEliminated other =
      solver.isEliminated other := by
    intro other
    rw [isEliminated, restore_eliminated, isEliminated]
  refine demotionsLeft_lt (solver.restore_graph leaf snapshot) member ?_ ?_
  · intro other
    simp only [demotions, restore_policy, eliminated, counted]
    omega
  · simp only [demotions, restore_policy, eliminated, counted, if_true]
    omega

theorem rollBack_eq (solver : Solver) (leaf : Leaf) :
    ∃ annotations worklist snapshots, solver.rollBack leaf =
      { solver with annotations, worklist, snapshots } := by
  unfold rollBack
  split
  · exact ⟨solver.annotations, solver.worklist, solver.snapshots, rfl⟩
  · exact ⟨_, _, _, rfl⟩

theorem foldl_rollBack_eq (solver : Solver) (leaves : List Leaf) :
    ∃ annotations worklist snapshots, leaves.foldl rollBack solver =
      { solver with annotations, worklist, snapshots } := by
  induction leaves generalizing solver with
  | nil => exact ⟨solver.annotations, solver.worklist, solver.snapshots, rfl⟩
  | cons leaf rest induction =>
      rcases induction (solver.rollBack leaf) with ⟨annotations, worklist, snapshots, later⟩
      rcases solver.rollBack_eq leaf with ⟨_, _, _, once⟩
      rw [List.foldl_cons, later, once]
      exact ⟨annotations, worklist, snapshots, rfl⟩

theorem eliminate_eq_appended (solver : Solver) (leaf : Leaf) :
    ∃ annotations worklist snapshots log, solver.eliminate leaf =
      { solver with
        annotations, worklist, snapshots, log, eliminated := solver.eliminated ++ [leaf] } := by
  rcases solver.eliminate_eq leaf with ⟨log, lowered⟩
  rcases foldl_rollBack_eq { solver.lower leaf with log } solver.graph.leaves with
    ⟨annotations, worklist, snapshots, rolledBack⟩
  rw [lowered, rolledBack]
  exact ⟨annotations, worklist, snapshots, log, rfl⟩

theorem demotionsLeft_eliminate (member : leaf ∈ solver.graph.leafParts)
    (permitted : solver.isEliminated leaf = false) :
    (solver.eliminate leaf).demotionsLeft < solver.demotionsLeft := by
  rcases solver.eliminate_eq_appended leaf with ⟨_, _, _, _, equal⟩
  have policy : (solver.eliminate leaf).policy = solver.policy := by rw [equal]
  have counts : ∀ id, (solver.eliminate leaf).restoreCount id = solver.restoreCount id := by
    intro id
    rw [equal]
    rfl
  have eliminated : ∀ other, (solver.eliminate leaf).isEliminated other =
      (solver.isEliminated other || decide (leaf.id = other.id)) := by
    intro other
    rw [equal]
    exact solver.isEliminated_lower leaf other
  refine demotionsLeft_lt (by rw [equal]) member ?_ ?_
  · intro other
    simp only [demotions, policy, counts, eliminated]
    cases solver.isEliminated other <;> cases decide (leaf.id = other.id) <;> simp
  · simp [demotions, policy, counts, eliminated, permitted]

theorem demotionsLeft_demote {demoted : Solver} (member : leaf ∈ solver.graph.leafParts)
    (demotes : solver.demote? leaf = some demoted) :
    demoted.demotionsLeft < solver.demotionsLeft := by
  unfold demote? at demotes
  split at demotes
  · split at demotes
    · next permitted =>
        cases demotes
        exact demotionsLeft_restore member permitted
    · cases demotes
  · split at demotes
    · cases demotes
    · next permitted =>
        cases demotes
        simp only [Bool.or_eq_true, not_or, Bool.not_eq_true] at permitted
        exact demotionsLeft_eliminate member permitted.2

/-! ## Effort -/

def capacity (graph : ValueGraph) : Nat :=
  graph.upgraded.size + graph.extent * graph.extent

/-- The flows that can still be derived, the demotions that are still
permitted, each with all that leaves can carry after it, and the qualifiers
that leaves carry. -/
def effort (solver : Solver) : Nat :=
  (capacity solver.graph - solver.constraints.size) +
    solver.demotionsLeft * (3 * solver.graph.extent + 1) +
    solver.annotations.total solver.graph.leafParts

/-- Either effort was used up, or no constraint was queued. -/
inductive Spends (before after : Solver) : Prop
  | nothing (worklist : after.worklist = before.worklist) (effort : after.effort = before.effort)
  | effort (less : after.effort < before.effort)

theorem Spends.trans (first : Spends before middle) (second : Spends middle after) :
    Spends before after := by
  cases first with
  | nothing worklist same =>
      cases second with
      | nothing laterWorklist laterSame =>
          exact .nothing (laterWorklist.trans worklist) (laterSame.trans same)
      | effort less => exact .effort (same ▸ less)
  | effort less =>
      cases second with
      | nothing laterWorklist laterSame => exact .effort (laterSame ▸ less)
      | effort laterLess => exact .effort (Nat.lt_trans laterLess less)

/-- A demotion uses up effort, whatever qualifiers it gives back. -/
theorem effort_lt_of_demotion (graph : after.graph = before.graph)
    (constraints : after.constraints = before.constraints)
    (demoted : after.demotionsLeft < before.demotionsLeft) : after.effort < before.effort := by
  have carried := after.annotations.total_le before.graph.leafParts
  have leaves := before.graph.length_leafParts_le
  have paid : (after.demotionsLeft + 1) * (3 * before.graph.extent + 1) ≤
      before.demotionsLeft * (3 * before.graph.extent + 1) := Nat.mul_le_mul_right _ demoted
  rw [Nat.add_mul] at paid
  simp only [effort, graph, constraints]
  omega

theorem spends_absorb {narrowing : Narrowing} (places : SeparatePlaces solver.graph.leafParts)
    (reached : Narrowing.From Leaf.isImmutable solver.graph.leafParts solver.annotations
      narrowing) : Spends solver (solver.absorb narrowing) := by
  rcases reached.total_lt places with unwritten | less
  · rw [unwritten]
    exact .nothing rfl rfl
  · rcases solver.absorb_eq narrowing with ⟨worklist, snapshots, absorbed⟩
    have permitted : (solver.absorb narrowing).demotionsLeft = solver.demotionsLeft := by
      rw [absorbed]
      exact demotionsLeft_eq rfl rfl rfl rfl
    apply Spends.effort
    rw [effort, permitted, absorbed, effort]
    dsimp only
    omega

theorem spends_apply {changed : Bool} (places : SeparatePlaces solver.graph.leafParts)
    (between : constraint.Between solver.graph.parts)
    (applied : solver.apply constraint = .ok (after, changed)) : Spends solver after := by
  rcases apply_eq_ok applied with ⟨narrowing, outcome, rfl, -⟩
  have included := leaves_subset_of_between between
  exact spends_absorb places (Annotations.apply_from places included.1 included.2 outcome)

private theorem demotionsLeft_foldl (progress : Solver × Bool) {leaves : List Leaf}
    (places : SeparatePlaces progress.1.graph.leafParts)
    (included : leaves ⊆ progress.1.graph.leafParts) :
    leaves.foldl demoteNext progress = progress ∨
      (leaves.foldl demoteNext progress).1.demotionsLeft < progress.1.demotionsLeft := by
  induction leaves generalizing progress with
  | nil => exact .inl rfl
  | cons leaf rest induction =>
      rw [List.foldl_cons]
      cases demotes : progress.1.demote? leaf with
      | none =>
          have same : demoteNext progress leaf = progress := by simp only [demoteNext, demotes]
          rw [same]
          exact induction progress places fun other member =>
            included (List.mem_cons_of_mem _ member)
      | some demoted =>
          have equal : demoteNext progress leaf = (demoted, true) := by
            simp only [demoteNext, demotes]
          have member := included List.mem_cons_self
          have changed := changed_demote places member demotes
          have less := demotionsLeft_demote member demotes
          rw [equal]
          right
          have later := induction (demoted, true) (changed.graph.symm ▸ places) (by
            simp only [changed.graph]
            exact fun other member => included (List.mem_cons_of_mem _ member))
          rcases later with same | fewer
          · rw [same]
            exact less
          · exact Nat.lt_trans fewer less

theorem demotionsLeft_demoteAll {leaves : List Leaf}
    (places : SeparatePlaces solver.graph.leafParts) (included : leaves ⊆ solver.graph.leafParts) :
    solver.demoteAll leaves = (solver, false) ∨
      (solver.demoteAll leaves).1.demotionsLeft < solver.demotionsLeft :=
  demotionsLeft_foldl (solver, false) places included

theorem Spends.report (spends : Spends before after) (severity : Log.Severity) (text : String) :
    Spends before (after.report severity text) := by
  rcases after.report_eq severity text with ⟨log, reported⟩
  rw [reported]
  exact spends.trans (.nothing rfl rfl)

theorem spends_repair (places : SeparatePlaces solver.graph.leafParts)
    (between : constraint.Between solver.graph.parts) :
    Spends solver (solver.repair constraint).1 := by
  unfold repair
  split
  · exact .nothing rfl rfl
  · next value demotes =>
      have included := targets_subset between demotes
      have changed := changed_demoteAll places included
      rcases demotionsLeft_demoteAll places included with same | less
      · rw [same]
        exact .nothing rfl rfl
      · have spent : Spends solver (solver.demoteAll (solver.targets value)).1 :=
          .effort (effort_lt_of_demotion changed.graph changed.constraints less)
        dsimp only
        split
        · split
          · next applied outcome again =>
              exact spent.trans (spends_apply (changed.graph.symm ▸ places)
                (changed.graph.symm ▸ between) again)
          · exact spent
          · exact spent.report _ _
        · exact spent

theorem spends_fail (places : SeparatePlaces solver.graph.leafParts)
    (between : constraint.Between solver.graph.parts) :
    Spends solver (solver.fail constraint) := by
  have repaired := spends_repair places between
  rcases solver.fail_cases constraint with ⟨-, ⟨-, equal⟩ | ⟨-, equal⟩⟩ | ⟨-, warned, log, equal⟩
  · rw [equal]
    exact repaired
  · rw [equal]
    exact repaired.trans (.nothing rfl rfl)
  · rw [equal]
    exact .nothing rfl rfl

theorem Consistent.size_le (consistent : solver.Consistent) :
    solver.constraints.size ≤ capacity solver.graph := by
  have included : solver.constraints.keys ⊆
      solver.graph.upgraded.keys ++ Derivation.flowKeys solver.graph.parts := by
    intro key present
    rcases List.mem_map.mp present with ⟨member, memberPresent, rfl⟩
    rcases consistent.origin member memberPresent with original | flow
    · exact List.mem_append_left _ (ConstraintSet.mem_keys original)
    · exact List.mem_append_right _
        (Derivation.key_mem_flowKeys flow (consistent.between member memberPresent))
  have bound := consistent.distinct.length_le_of_subset included
  rwa [List.length_append, Derivation.length_flowKeys, ConstraintSet.keys, List.length_map,
    ConstraintSet.keys, List.length_map] at bound

theorem Consistent.length_worklist_le (consistent : solver.Consistent) :
    solver.worklist.toList.length ≤ capacity solver.graph := by
  have bound := consistent.waitingDistinct.length_le_of_subset
    (List.map_subset Constraint.key consistent.waiting)
  rw [Worklist.keys, List.length_map, List.length_map] at bound
  exact bound.trans consistent.size_le

theorem spends_extend (consistent : solver.Consistent)
    (member : constraint ∈ solver.constraints.toList) :
    Spends solver (solver.extend constraint) := by
  rcases consistent.extend_eq solver.handedOn_between consistent.between member with
    ⟨found, extension⟩
  have bound := (consistent.extension extension fun _ between => between).size_le
  have grown := congrArg List.length extension.toList
  have permitted : (solver.extend constraint).demotionsLeft = solver.demotionsLeft := by
    rw [extension.equal]
    exact demotionsLeft_eq rfl rfl rfl rfl
  rw [extension.equal] at bound
  rw [List.length_append] at grown
  cases found with
  | nil =>
      rw [extension.equal]
      exact .nothing rfl rfl
  | cons first rest =>
      apply Spends.effort
      rw [List.length_cons] at grown
      rw [effort, permitted, extension.equal, effort]
      simp only [ConstraintSet.size] at bound grown ⊢
      omega

theorem spends_serve (consistent : solver.Consistent)
    (member : constraint ∈ solver.constraints.toList) :
    Spends solver (solver.serve constraint) := by
  have between := consistent.between constraint member
  unfold serve
  split
  · next applied changed outcome =>
      have reached := changed_apply consistent.places between outcome
      exact (spends_apply consistent.places between outcome).trans
        (spends_extend (consistent.of_changed reached) (reached.constraints.symm ▸ member))
  · exact spends_fail consistent.places between

end Solver

end InfoFlow
