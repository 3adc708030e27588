import InfoFlow.Proofs.Derivation.Settlement
import InfoFlow.Proofs.Solver.Course
import InfoFlow.Proofs.Solver.Satisfiability

/-! The working set, the index and the queue.

They grow in different places. A derivation registers what it finds while it is
still searching, and only afterwards its results join the working set and the
queue; a write puts what the index finds back on the queue. Whenever a solve
looks at its queue, and at its end, they say the same: the index knows the
members of the working set and no others, under both of their sides, and only
members wait or are conflicts. A member with which the solve did not start was
derived, so it is a flow between values that can be connected. -/

namespace InfoFlow

theorem ValueGraph.sides_of_canConnect {graph : ValueGraph} {left right : Value}
    (connected : graph.canConnect left right = true) :
    (left.kind ≠ .literal ∧ left.method.isSome = true) ∧
      right.kind ≠ .literal ∧ right.method.isSome = true := by
  unfold canConnect at connected
  split at connected
  · cases connected
  · next kinds =>
      have noLiterals := not_or.mp kinds
      split at connected
      · next leftMethod rightMethod isLeft isRight =>
          rw [isLeft, isRight]
          exact ⟨⟨noLiterals.1, rfl⟩, noLiterals.2, rfl⟩
      · cases connected

namespace Solver

variable {solver next : Solver}

/-! ## Connections -/

def Connected (solver : Solver) : Prop :=
  ∀ member, member ∈ solver.constraints.toList →
    member ∈ solver.graph.upgraded.toList ∨
      solver.graph.canConnect member.left member.right = true

theorem Connected.step (connected : solver.Connected) (consistent : solver.Consistent)
    (stepped : solver.step = some next) : next.Connected := by
  have sameGraph := (consistent.step_graph stepped).1
  rw [Connected, sameGraph]
  rcases consistent.step_constraints stepped with same | ⟨constraint, annotations, -, grown⟩
  · rw [same]
    exact connected
  · intro member present
    rw [grown] at present
    rcases ConstraintSet.mem_or_mem_of_mem_addAll present with earlier | new
    · exact connected member earlier
    · exact .inr (Derivation.derive_connected member new)

theorem start_connected (solver : Solver) : solver.start.Connected := by
  rcases solver.start_eq with ⟨log, started⟩
  rw [started]
  exact fun member present => .inl present

/-! ## Registration -/

/-- The working set, the index and the queue agree. -/
structure Registered (solver : Solver) : Prop where
  started : solver.graph.upgraded.toList ⊆ solver.constraints.toList
  registered : solver.index.registered = solver.constraints
  remade : solver.index = .ofList solver.constraints.toList
  below : ∀ value constraint, constraint ∈ solver.index.subSide value ↔
    constraint ∈ solver.constraints.toList ∧ constraint.FlowsFrom value
  above : ∀ value constraint, constraint ∈ solver.index.superSide value ↔
    constraint ∈ solver.constraints.toList ∧ constraint.FlowsTo value
  waiting : solver.worklist.toList ⊆ solver.constraints.toList
  conflicts : solver.conflicts.toList ⊆ solver.constraints.toList
  derived : ∀ member, member ∈ solver.constraints.toList →
    member ∉ solver.graph.upgraded.toList →
      member.relation = .subtype ∧
        solver.graph.canConnect member.left member.right = true ∧
        (member.left.kind ≠ .literal ∧ member.left.method.isSome = true) ∧
        member.right.kind ≠ .literal ∧ member.right.method.isSome = true

theorem Consistent.isRegistered (consistent : solver.Consistent) (connected : solver.Connected) :
    solver.Registered where
  started := consistent.started
  registered := consistent.registered
  remade := consistent.index
  below := fun _ _ => consistent.registered ▸ ReferenceIndex.mem_subSide
  above := fun _ _ => consistent.registered ▸ ReferenceIndex.mem_superSide
  waiting := consistent.waiting
  conflicts := consistent.conflicts
  derived := by
    intro member present new
    have flow := (consistent.origin member present).resolve_left new
    have joined := (connected member present).resolve_left new
    exact ⟨flow, joined, ValueGraph.sides_of_canConnect joined⟩

theorem Consistent.foldl_retry (consistent : solver.Consistent) {retried : List Constraint}
    (members : retried ⊆ solver.constraints.toList) :
    (retried.foldl Solver.retry solver).Consistent ∧
      (retried.foldl Solver.retry solver).constraints = solver.constraints ∧
      (retried.foldl Solver.retry solver).graph = solver.graph := by
  induction retried generalizing solver with
  | nil => exact ⟨consistent, rfl, rfl⟩
  | cons first rest induction =>
      rcases consistent.retry (members List.mem_cons_self) with ⟨once, same, sameGraph⟩
      have later : rest ⊆ (solver.retry first).constraints.toList := by
        rw [same]
        exact fun other present => members (List.mem_cons_of_mem _ present)
      rcases induction once later with ⟨all, constraints, graph⟩
      exact ⟨all, constraints.trans same, graph.trans sameGraph⟩

theorem Consistent.finish (consistent : solver.Consistent) :
    solver.finish.Consistent ∧ solver.finish.constraints = solver.constraints ∧
      solver.finish.graph = solver.graph := by
  rcases consistent.foldl_retry consistent.conflicts with ⟨retried, constraints, graph⟩
  rcases solver.finish_eq with ⟨log, finished⟩
  rw [finished]
  exact ⟨{ retried with }, constraints, graph⟩

/-- Whenever a solve looks at its queue, after however many turns, and when it
returns, the working set, the index and the queue agree, whatever the solve
favours and however many constraints have failed. -/
theorem solve_registered (solver : Solver) (coherent : solver.graph.Coherent) :
    (∀ count, (iterate step count solver.start).graph = solver.graph ∧
        (iterate step count solver.start).Registered) ∧
      solver.solve.graph = solver.graph ∧ solver.solve.Registered := by
  have kept : ∀ current next : Solver, current.step = some next →
      current.Consistent ∧ current.Connected → next.Consistent ∧ next.Connected :=
    fun current next stepped both => ⟨both.1.step stepped, both.2.step both.1 stepped⟩
  have atHead : ∀ count, (iterate step count solver.start).Consistent ∧
      (iterate step count solver.start).Connected := fun count =>
    iterate_preserves kept count ⟨start_consistent coherent, solver.start_connected⟩
  refine ⟨fun count => ?_, ?_⟩
  · exact ⟨(iterate_consistent coherent count).2, (atHead count).1.isRegistered (atHead count).2⟩
  · have served := atHead solver.rounds
    rcases served.1.finish with ⟨finished, constraints, graph⟩
    have connected : solver.solve.Connected := by
      rw [solve, Connected, constraints, graph]
      exact served.2
    exact ⟨graph.trans (iterate_consistent coherent solver.rounds).2,
      finished.isRegistered connected⟩

theorem solve_registered_passedSecret :
    passedSecret.Coherent ∧ (solve { graph := passedSecret }).Registered ∧
      ∃ member, member ∈ (solve { graph := passedSecret }).constraints.toList ∧
        member ∉ passedSecret.upgraded.toList := by
  have registered := solve_registered { graph := passedSecret } (by decide)
  exact ⟨by decide, registered.2.2, by decide⟩

end Solver

end InfoFlow
