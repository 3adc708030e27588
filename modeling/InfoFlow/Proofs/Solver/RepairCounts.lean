import Mathlib.Algebra.BigOperators.Group.Finset.Piecewise
import Mathlib.Algebra.Order.BigOperators.Group.Finset
import InfoFlow.Proofs.Solver.Course

/-! How often leaves are restored and eliminated.

A restore counts for the restored leaf and for the solver, and an elimination
adds the leaf to the eliminated ones. Nothing else counts, and a rollback takes
no count back, although it takes away the snapshot without which a leaf is not
restored. Only leaves that may be written have snapshots, and only such leaves
are eliminated, each once. So the counts of all leaves add up to the number of
restores, and the policy bounds what repairs can do in a solve. -/

namespace InfoFlow

namespace ValueGraph

def leafNumbers (graph : ValueGraph) : Finset Nat :=
  (graph.leafParts.map Leaf.id).toFinset

def mutableNumbers (graph : ValueGraph) : Finset Nat :=
  ((graph.leafParts.filter fun leaf => !leaf.isImmutable).map Leaf.id).toFinset

variable {graph : ValueGraph} {leaf : Leaf}

theorem mem_mutableNumbers (member : leaf ∈ graph.leafParts)
    (mutable : leaf.isImmutable = false) : leaf.id ∈ graph.mutableNumbers := by
  simp only [mutableNumbers, List.mem_toFinset, List.mem_map, List.mem_filter]
  exact ⟨leaf, ⟨member, by rw [mutable]; rfl⟩, rfl⟩

theorem mutableNumbers_subset (graph : ValueGraph) :
    graph.mutableNumbers ⊆ graph.leafNumbers := by
  intro id member
  simp only [mutableNumbers, leafNumbers, List.mem_toFinset, List.mem_map,
    List.mem_filter] at member ⊢
  rcases member with ⟨leaf, ⟨present, -⟩, number⟩
  exact ⟨leaf, present, number⟩

theorem Built.leafNumbers_eq (built : graph.Built) :
    graph.leafNumbers = (graph.leaves.map Leaf.id).toFinset := by
  ext id
  simp only [leafNumbers, List.mem_toFinset, List.mem_map]
  constructor
  · rintro ⟨leaf, member, number⟩
    exact ⟨leaf, built.leafParts_subset member, number⟩
  · rintro ⟨leaf, member, number⟩
    exact ⟨leaf, graph.leaves_subset member, number⟩

theorem Built.card_mutableNumbers_le (built : graph.Built) :
    graph.mutableNumbers.card ≤ (graph.leaves.filter fun leaf => !leaf.isImmutable).length := by
  have included : graph.mutableNumbers ⊆
      ((graph.leaves.filter fun leaf => !leaf.isImmutable).map Leaf.id).toFinset := by
    intro id member
    simp only [mutableNumbers, List.mem_toFinset, List.mem_map, List.mem_filter] at member ⊢
    rcases member with ⟨leaf, ⟨present, mutable⟩, number⟩
    exact ⟨leaf, ⟨built.leafParts_subset present, mutable⟩, number⟩
  have bound := (Finset.card_le_card included).trans (List.toFinset_card_le _)
  rwa [List.length_map] at bound

end ValueGraph

namespace Solver

variable {solver before after : Solver} {leaf : Leaf}

/-! ## Accounts -/

/-- What the counts of a solver say about the repairs that it made. -/
structure Accounted (solver : Solver) : Prop where
  updated : ∀ id, solver.isUpdated id = true → id ∈ solver.graph.mutableNumbers
  bounded : ∀ id, solver.restoreCount id ≤ solver.policy.maxRestores
  unmoved : ∀ id, id ∉ solver.graph.mutableNumbers → solver.restoreCount id = 0
  total : solver.restoreCounter = ∑ id ∈ solver.graph.mutableNumbers, solver.restoreCount id
  members : ∀ leaf, leaf ∈ solver.eliminated →
    leaf ∈ solver.graph.leafParts ∧ leaf.isImmutable = false
  distinct : (solver.eliminated.map Leaf.id).Nodup
  neutral : solver.policy.bias = .neutral → solver.restoreCounter = 0 ∧ solver.eliminated = []

theorem Accounted.of_eq (accounted : before.Accounted) (graph : after.graph = before.graph)
    (policy : after.policy = before.policy) (restores : after.restores = before.restores)
    (eliminated : after.eliminated = before.eliminated)
    (restoreCounter : after.restoreCounter = before.restoreCounter)
    (updated : ∀ id, after.isUpdated id = true → id ∈ before.graph.mutableNumbers) :
    after.Accounted where
  updated := graph.symm ▸ updated
  bounded := by
    simp only [restoreCount, restores, policy]
    exact accounted.bounded
  unmoved := by
    simp only [restoreCount, restores, graph]
    exact accounted.unmoved
  total := by
    simp only [restoreCount, restores, graph, restoreCounter]
    exact accounted.total
  members := by
    rw [eliminated, graph]
    exact accounted.members
  distinct := by
    rw [eliminated]
    exact accounted.distinct
  neutral := by
    rw [policy, eliminated, restoreCounter]
    exact accounted.neutral

theorem Accounted.restore {snapshot : QualifierSet} (accounted : solver.Accounted)
    (biased : solver.policy.bias ≠ .neutral) (kept : solver.snapshot? leaf.id = some snapshot)
    (permitted : solver.restoreCount leaf.id < solver.policy.maxRestores) :
    (solver.restore leaf snapshot).Accounted := by
  have counted := solver.restoreCount_restore leaf snapshot
  have member := accounted.updated leaf.id (isUpdated_of_snapshot kept)
  constructor
  case updated =>
    intro id updated
    rw [isUpdated, restore_snapshots] at updated
    rw [restore_graph]
    exact accounted.updated id updated
  case bounded =>
    intro id
    have bound := accounted.bounded id
    rw [counted, restore_policy]
    split
    · next same =>
        rw [same]
        exact permitted
    · exact bound
  case unmoved =>
    intro id outside
    rw [restore_graph] at outside
    have different : id ≠ leaf.id := fun same => outside (same ▸ member)
    rw [counted, accounted.unmoved id outside, if_neg different]
  case total =>
    have once : ∑ id ∈ solver.graph.mutableNumbers, (if id = leaf.id then 1 else 0) = 1 := by
      rw [Finset.sum_ite_eq', if_pos member]
    simp only [restore_restoreCounter, restore_graph, counted, Finset.sum_add_distrib, once,
      accounted.total]
  case members =>
    rw [restore_eliminated, restore_graph]
    exact accounted.members
  case distinct =>
    rw [restore_eliminated]
    exact accounted.distinct
  case neutral =>
    rw [restore_policy]
    exact fun neutral => absurd neutral biased

theorem Accounted.lower (accounted : solver.Accounted) (biased : solver.policy.bias ≠ .neutral)
    (member : leaf ∈ solver.graph.leafParts) (mutable : leaf.isImmutable = false)
    (permitted : solver.isEliminated leaf = false) : (solver.lower leaf).Accounted where
  updated := accounted.updated
  bounded := accounted.bounded
  unmoved := accounted.unmoved
  total := accounted.total
  members := by
    intro other present
    rcases List.mem_append.mp present with earlier | new
    · exact accounted.members other earlier
    · cases List.mem_singleton.mp new
      exact ⟨member, mutable⟩
  distinct := by
    have apart : leaf.id ∉ solver.eliminated.map Leaf.id := by
      intro known
      rcases List.mem_map.mp known with ⟨other, present, same⟩
      have again : solver.isEliminated leaf = true :=
        List.any_eq_true.mpr ⟨other, present, decide_eq_true same⟩
      rw [permitted] at again
      cases again
    have extended : ((solver.lower leaf).eliminated.map Leaf.id) =
        solver.eliminated.map Leaf.id ++ [leaf.id] := List.map_append
    rw [extended]
    exact List.nodup_append.mpr ⟨accounted.distinct, List.nodup_singleton _,
      fun known present new isNew same =>
        apart (List.mem_singleton.mp isNew ▸ same ▸ present)⟩
  neutral := fun neutral => absurd neutral biased

theorem Accounted.evolves {assigned : List (Value × QualifierSet)} (accounted : before.Accounted)
    (evolves : Evolves before assigned after) : after.Accounted := by
  induction evolves with
  | apart graph policy annotations snapshots restores eliminated restoreCounter =>
      refine accounted.of_eq graph policy restores eliminated restoreCounter fun id updated => ?_
      rw [isUpdated, snapshots] at updated
      exact accounted.updated id updated
  | @record solver leaf qualifiers member mutable =>
      rw [Solver.record, note_eq]
      refine accounted.of_eq rfl rfl rfl rfl rfl fun id updated => ?_
      rcases isUpdated_keepSnapshot updated with earlier | itself
      · exact accounted.updated id earlier
      · exact itself ▸ ValueGraph.mem_mutableNumbers member mutable
  | restore biased member kept permitted => exact accounted.restore biased kept permitted
  | lower biased member missing mutable permitted =>
      exact accounted.lower biased member mutable permitted
  | rollBack member kept =>
      rw [rollBack_of_kept kept]
      exact accounted.of_eq rfl rfl rfl rfl rfl fun id updated =>
        accounted.updated id (contains_erase updated)
  | trans first second earlier later => exact later (earlier accounted)

theorem Evolves.restoreCount_le {assigned : List (Value × QualifierSet)}
    (evolves : Evolves before assigned after) (id : Nat) :
    before.restoreCount id ≤ after.restoreCount id := by
  induction evolves with
  | apart graph policy annotations snapshots restores =>
      rw [restoreCount, restoreCount, restores]
  | record => rw [Solver.record, note_eq]; exact Nat.le_refl _
  | restore => rw [restoreCount_restore]; exact Nat.le_add_right _ _
  | lower => exact Nat.le_refl _
  | rollBack member kept => rw [rollBack_of_kept kept]; exact Nat.le_refl _
  | trans first second earlier later => exact earlier.trans later

/-! ## The points of a solve -/

theorem start_accounted (solver : Solver) : solver.start.Accounted := by
  rcases solver.start_eq with ⟨log, started⟩
  rw [started]
  refine ⟨?_, fun id => Nat.zero_le _, fun id _ => rfl, ?_, ?_, List.nodup_nil,
    fun _ => ⟨rfl, rfl⟩⟩
  · intro id updated
    cases updated
  · exact (Finset.sum_eq_zero fun id _ => rfl).symm
  · intro leaf member
    cases member

theorem accounted_of_mem_points (coherent : solver.graph.Coherent) {point : Solver}
    (member : point ∈ solver.points) : point.Accounted := by
  rcases start_leadsTo coherent member with ⟨assigned, evolves⟩
  exact solver.start_accounted.evolves evolves

/-- Restores and eliminations together are at most one more than the permitted
restores for each leaf that may be written. -/
theorem Accounted.repairs_le (accounted : solver.Accounted) :
    solver.restoreCounter + solver.eliminated.length ≤
      (solver.policy.maxRestores + 1) * solver.graph.mutableNumbers.card := by
  have restores : solver.restoreCounter ≤
      solver.graph.mutableNumbers.card * solver.policy.maxRestores := by
    rw [accounted.total]
    exact Finset.sum_le_card_nsmul _ _ _ fun id _ => accounted.bounded id
  have eliminations : solver.eliminated.length ≤ solver.graph.mutableNumbers.card := by
    have included : (solver.eliminated.map Leaf.id).toFinset ⊆ solver.graph.mutableNumbers := by
      intro id present
      rcases List.mem_map.mp (List.mem_toFinset.mp present) with ⟨leaf, member, rfl⟩
      have permitted := accounted.members leaf member
      exact ValueGraph.mem_mutableNumbers permitted.1 permitted.2
    have bound := Finset.card_le_card included
    rwa [List.toFinset_card_of_nodup accounted.distinct, List.length_map] at bound
  calc solver.restoreCounter + solver.eliminated.length
      ≤ solver.graph.mutableNumbers.card * solver.policy.maxRestores +
          solver.graph.mutableNumbers.card := Nat.add_le_add restores eliminations
    _ = (solver.policy.maxRestores + 1) * solver.graph.mutableNumbers.card := by
        rw [Nat.add_mul, Nat.mul_comm, Nat.one_mul]

theorem Accounted.sum_leafNumbers (accounted : solver.Accounted) :
    ∑ id ∈ solver.graph.leafNumbers, solver.restoreCount id = solver.restoreCounter := by
  rw [accounted.total]
  exact (Finset.sum_subset solver.graph.mutableNumbers_subset
    fun id _ outside => accounted.unmoved id outside).symm

/-- At every point of a solve, whatever it favours, no leaf was restored more
often than is permitted, the restores of all leaves add up to the number of
restores, and the eliminated leaves are distinct and may be written; all of this
is bounded by the policy, and nothing happens without a bias. The counts of a
later point are no less. If the graph is made from its own values then its own
leaves are those that are counted. -/
theorem points_repair_counts (solver : Solver) (coherent : solver.graph.Coherent) :
    (∀ point, point ∈ solver.points →
      (∀ id, point.restoreCount id ≤ solver.policy.maxRestores) ∧
        point.restoreCounter = ∑ id ∈ solver.graph.leafNumbers, point.restoreCount id ∧
        (point.eliminated.map Leaf.id).Nodup ∧
        (∀ leaf, leaf ∈ point.eliminated →
          leaf ∈ solver.graph.leafParts ∧ leaf.isImmutable = false) ∧
        point.restoreCounter + point.eliminated.length ≤
          (solver.policy.maxRestores + 1) * solver.graph.mutableNumbers.card ∧
        (solver.policy.bias = .neutral → point.restoreCounter = 0 ∧ point.eliminated = [])) ∧
      solver.points.Pairwise (fun earlier later =>
        ∀ id, earlier.restoreCount id ≤ later.restoreCount id) ∧
      (solver.graph.Built → ∀ point, point ∈ solver.points →
        point.restoreCounter =
            (solver.graph.leaves.map fun leaf => point.restoreCount leaf.id).sum ∧
          point.restoreCounter + point.eliminated.length ≤ (solver.policy.maxRestores + 1) *
            (solver.graph.leaves.filter fun leaf => !leaf.isImmutable).length) := by
  have atPoint : ∀ point, point ∈ solver.points → point.Accounted ∧
      point.graph = solver.graph ∧ point.policy = solver.policy := by
    intro point member
    have leads := start_leadsTo coherent member
    exact ⟨accounted_of_mem_points coherent member, leads.graph.trans solver.start_graph,
      leads.policy.trans solver.start_policy⟩
  refine ⟨?_, ?_, ?_⟩
  · intro point member
    rcases atPoint point member with ⟨accounted, graph, policy⟩
    rw [← graph, ← policy]
    exact ⟨accounted.bounded, accounted.sum_leafNumbers.symm, accounted.distinct,
      accounted.members, accounted.repairs_le, accounted.neutral⟩
  · refine (points_ordered coherent).imp fun leads id => ?_
    rcases leads with ⟨assigned, evolves⟩
    exact evolves.restoreCount_le id
  · intro built point member
    rcases atPoint point member with ⟨accounted, graph, policy⟩
    constructor
    · have counted := accounted.sum_leafNumbers
      rw [graph, built.leafNumbers_eq, List.sum_toFinset _ built.nodup_leaves,
        List.map_map] at counted
      exact counted.symm
    · have bound := accounted.repairs_le
      rw [graph, policy] at bound
      exact bound.trans (Nat.mul_le_mul_left _ built.card_mutableNumbers_le)

/-- One leaf is restored and another eliminated, of the twelve repairs that
three leaves permit. -/
theorem points_repair_counts_storedSecret :
    storedSecret.Coherent ∧
      (∀ point, point ∈ points { graph := storedSecret, policy := ⟨.sink, 3⟩ } →
        (∀ id, point.restoreCount id ≤ 3) ∧
          point.restoreCounter = ∑ id ∈ storedSecret.leafNumbers, point.restoreCount id ∧
          point.restoreCounter + point.eliminated.length ≤
            (3 + 1) * storedSecret.mutableNumbers.card) ∧
      (solve { graph := storedSecret, policy := ⟨.sink, 3⟩ }).restoreCounter = 1 ∧
      (solve { graph := storedSecret, policy := ⟨.sink, 3⟩ }).eliminated.map Leaf.id = [4] ∧
      storedSecret.mutableNumbers = {1, 2, 4} := by
  have counts :=
    (points_repair_counts { graph := storedSecret, policy := ⟨.sink, 3⟩ } (by decide)).1
  refine ⟨by decide, fun point member => ?_, by decide, by decide, by decide⟩
  have atPoint := counts point member
  exact ⟨atPoint.1, atPoint.2.1, atPoint.2.2.2.2.1⟩

end Solver

end InfoFlow
