import InfoFlow.Proofs.Solver.Neutral

/-! Reported conflicts.

The retry at the end of a solve goes through the conflicts once and writes
leaves while it does so. Since it only takes qualifiers away, a conflict that
is kept still fails when all others have been applied again. A neutral solve
never gives a leaf a qualifier back, so its retry keeps every conflict, and
what it reports are the errors that were met when constraints were served. -/

namespace InfoFlow.Solver

variable {solver next : Solver} {constraint : Constraint}

/-! ## The retry -/

theorem Consistent.retry_cases (consistent : solver.Consistent)
    (specified : constraint.relation ≠ .unspecified)
    (member : constraint ∈ solver.constraints.toList) :
    (solver.annotations.Fails constraint ∧ solver.retry constraint = solver) ∨
      ∃ applied, Changed solver applied ∧
        Annotations.Fewer solver.graph.leafParts solver.annotations applied.annotations ∧
        solver.retry constraint =
          { applied with conflicts := applied.conflicts.discard constraint } := by
  have between := consistent.between constraint member
  have included := leaves_subset_of_between between
  cases outcome : solver.apply constraint with
  | error failure =>
      have fails := Annotations.fails_of_error specified (apply_eq_error.mp outcome)
      exact .inl ⟨fails, retry_of_fails fails⟩
  | ok result =>
      rcases result with ⟨applied, changed⟩
      refine .inr ⟨applied, changed_apply consistent.places between outcome, ?_, ?_⟩
      · rcases apply_eq_ok outcome with ⟨narrowing, narrowed, rfl, -⟩
        rw [absorb_annotations]
        exact Annotations.fewer_apply consistent.places included.1 included.2 narrowed
      · simp only [Solver.retry, outcome]

theorem Consistent.retry_fails (consistent : solver.Consistent)
    (specified : solver.graph.Specified) {rest : List Constraint}
    (member : constraint ∈ solver.constraints.toList)
    (fails : ∀ conflict, conflict ∈ solver.conflicts.toList →
      conflict ∈ constraint :: rest ∨ solver.annotations.Fails conflict) :
    ∀ conflict, conflict ∈ (solver.retry constraint).conflicts.toList →
      conflict ∈ rest ∨ (solver.retry constraint).annotations.Fails conflict := by
  have stated : ∀ {known}, known ∈ solver.constraints.toList → known.relation ≠ .unspecified :=
    fun present => consistent.specified specified present
  rcases consistent.retry_cases (stated member) member with
    ⟨failed, unchanged⟩ | ⟨applied, changed, fewer, equal⟩
  · rw [unchanged]
    intro conflict present
    rcases fails conflict present with waiting | known
    · rcases List.mem_cons.mp waiting with same | later
      · exact .inr (same ▸ failed)
      · exact .inl later
    · exact .inr known
  · rw [equal]
    intro conflict present
    have kept := List.mem_filter.mp present
    rw [changed.conflicts] at kept
    rcases fails conflict kept.1 with waiting | known
    · rcases List.mem_cons.mp waiting with same | later
      · have other := kept.2
        rw [same] at other
        simp [Constraint.same] at other
      · exact .inl later
    · have included := leaves_subset_of_between
        (consistent.between conflict (consistent.conflicts kept.1))
      exact .inr (known.of_fewer (stated (consistent.conflicts kept.1)) fewer included.1
        included.2)

theorem Consistent.foldl_retry_fails {members : List Constraint}
    (consistent : solver.Consistent) (specified : solver.graph.Specified)
    (included : members ⊆ solver.constraints.toList)
    (fails : ∀ conflict, conflict ∈ solver.conflicts.toList →
      conflict ∈ members ∨ solver.annotations.Fails conflict) :
    ∀ conflict, conflict ∈ (members.foldl Solver.retry solver).conflicts.toList →
      (members.foldl Solver.retry solver).annotations.Fails conflict := by
  induction members generalizing solver with
  | nil =>
      intro conflict present
      exact (fails conflict present).resolve_left List.not_mem_nil
  | cons constraint rest induction =>
      have member := included List.mem_cons_self
      rcases consistent.retry member with ⟨again, constraints, graph⟩
      refine induction again (graph.symm ▸ specified) ?_
        (consistent.retry_fails specified member fails)
      rw [constraints]
      exact fun member present => included (List.mem_cons_of_mem _ present)

/-- The conflicts at the end of a solve fail, whatever led to them. -/
theorem Consistent.finish_fails (consistent : solver.Consistent)
    (specified : solver.graph.Specified) :
    ∀ conflict, conflict ∈ solver.finish.conflicts.toList →
      solver.finish.annotations.Fails conflict := by
  rcases solver.finish_eq with ⟨log, finished⟩
  rw [finished]
  exact consistent.foldl_retry_fails specified consistent.conflicts fun _ present => .inl present

/-! ## The conflicts of a neutral solve -/

def FailsInTurn (solver : Solver) (turn : Nat) (constraint : Constraint) : Prop :=
  (solver.afterServing turn).worklist.toList.head? = some constraint ∧
    (solver.afterServing turn).annotations.Fails constraint

private theorem mem_conflicts_add (consistent : solver.Consistent)
    (member : constraint ∈ solver.constraints.toList) {other : Constraint} :
    other ∈ (solver.conflicts.add constraint).toList ↔
      other ∈ solver.conflicts.toList ∨ other = constraint := by
  refine ⟨ConstraintSet.mem_or_eq_of_mem_add, fun either => ?_⟩
  rcases either with present | equal
  · exact ConstraintSet.subset_add present
  · rw [equal]
    by_cases known : constraint.key ∈ solver.conflicts.keys
    · rcases List.mem_map.mp known with ⟨conflict, present, sameKey⟩
      have same := ConstraintSet.eq_of_key_eq consistent.distinct (consistent.conflicts present)
        member sameKey
      rw [ConstraintSet.add_of_contains known]
      exact same ▸ present
    · rw [ConstraintSet.toList_add_of_new known]
      exact List.mem_append_right _ List.mem_cons_self

theorem Turn.mem_conflicts_iff (turn : solver.Turn constraint next)
    (consistent : solver.Consistent) (member : constraint ∈ solver.constraints.toList)
    {other : Constraint} :
    other ∈ next.conflicts.toList ↔ other ∈ solver.conflicts.toList ∨
      other = constraint ∧ solver.annotations.Fails constraint ∧
        solver.graph.failureStatus constraint = some .error := by
  rcases turn.outcome with ⟨narrowing, applied, -, conflicts⟩ | ⟨fails, -, conflicts⟩
  · have succeeds : ¬ solver.annotations.Fails constraint := by
      rintro ⟨_, _, failed⟩
      rw [failed] at applied
      cases applied
    rw [conflicts]
    exact (or_iff_left fun both => succeeds both.2.1).symm
  · rw [conflicts]
    split
    · next error =>
        rw [mem_conflicts_add consistent member]
        exact or_congr_right (and_iff_left ⟨fails, error⟩).symm
    · next noError => exact (or_iff_left fun both => noError both.2.2).symm

/-- The conflicts after some turns are the errors that were met in these. -/
theorem mem_conflicts_afterServing_iff (coherent : solver.graph.Coherent)
    (specified : solver.graph.Specified) (neutral : solver.policy.bias = .neutral) (count : Nat) :
    constraint ∈ (solver.afterServing count).conflicts.toList ↔
      solver.graph.failureStatus constraint = some .error ∧
        ∃ turn, turn < count ∧ solver.FailsInTurn turn constraint := by
  induction count with
  | zero =>
      rcases solver.start_eq with ⟨log, started⟩
      have none : solver.start.conflicts.toList = [] := by rw [started]; rfl
      have atStart : (solver.afterServing 0).conflicts.toList = [] := none
      simp [atStart]
  | succ count induction =>
      have undisturbed := undisturbed coherent specified neutral count
      have split : (∃ turn, turn < count + 1 ∧ solver.FailsInTurn turn constraint) ↔
          (∃ turn, turn < count ∧ solver.FailsInTurn turn constraint) ∨
            solver.FailsInTurn count constraint := by
        simp only [Nat.lt_succ_iff_lt_or_eq, or_and_right, exists_or, exists_eq_left]
      rw [split, and_or_left, ← induction]
      rcases solver.afterServing_succ count with ⟨same, empty⟩ | ⟨served, rest, waiting, equal⟩
      · have idle : ¬ solver.FailsInTurn count constraint := by
          rintro ⟨head, -⟩
          rw [empty] at head
          cases head
        rw [same]
        exact (or_iff_left fun both => idle both.2).symm
      · have popped := undisturbed.consistent.popped waiting
        have turn := undisturbed.turn specified waiting equal
        have graph := undisturbed.graph
        have reported := @Turn.mem_conflicts_iff _ _ _ turn popped.1 popped.2 constraint
        have head : (solver.afterServing count).worklist.toList.head? = some served := by
          rw [waiting]
          rfl
        rw [reported, FailsInTurn, head, Option.some.injEq]
        refine or_congr_right ⟨?_, ?_⟩
        · rintro ⟨same, fails, error⟩
          rw [same]
          exact ⟨graph ▸ error, rfl, fails⟩
        · rintro ⟨error, same, fails⟩
          rw [same]
          exact ⟨rfl, fails, graph.symm ▸ error⟩

theorem FailsInTurn.lt_rounds (coherent : solver.graph.Coherent) {turn : Nat}
    (fails : solver.FailsInTurn turn constraint) : turn < solver.rounds := by
  by_contra late
  have empty : (solver.afterServing solver.rounds).worklist.toList = [] :=
    iterate_waiting coherent
  have head := fails.1
  rw [afterServing_of_rounds_le coherent (Nat.not_lt.mp late), empty] at head
  cases head

/-- Every conflict that a solve reports fails on the final annotations,
whatever the policy. In a neutral solve the retry keeps all conflicts, and they
are exactly the errors that were met in the turns. -/
theorem solve_reports_failures (solver : Solver) (coherent : solver.graph.Coherent)
    (specified : solver.graph.Specified) :
    (∀ conflict, conflict ∈ solver.solve.conflicts.toList →
        ∃ left right,
          solver.solve.apply conflict = .error (.unsatisfiable conflict left right)) ∧
      (solver.policy.bias = .neutral →
        (solver.afterServing solver.rounds).worklist.toList = [] ∧
        solver.solve.conflicts = (solver.afterServing solver.rounds).conflicts ∧
        ∀ constraint, constraint ∈ solver.solve.conflicts.toList ↔
          solver.graph.failureStatus constraint = some .error ∧
            ∃ turn, solver.FailsInTurn turn constraint) := by
  refine ⟨fun conflict present => ?_, fun neutral => ?_⟩
  · rcases iterate_consistent coherent solver.rounds with ⟨consistent, graph⟩
    rcases consistent.finish_fails (graph.symm ▸ specified) conflict present with
      ⟨left, right, failed⟩
    exact ⟨left, right, apply_eq_error.mpr failed⟩
  · rcases solve_eq_afterServing coherent specified neutral with ⟨log, solved⟩
    have conflicts : solver.solve.conflicts = (solver.afterServing solver.rounds).conflicts := by
      rw [solved]
    refine ⟨iterate_waiting coherent, conflicts, fun constraint => ?_⟩
    rw [conflicts, mem_conflicts_afterServing_iff coherent specified neutral]
    refine and_congr_right fun _ => exists_congr fun turn => ?_
    exact and_iff_right_of_imp fun fails => fails.lt_rounds coherent

theorem solve_reports_failures_storedSecret :
    let biased : Solver := { graph := storedSecret, policy := ⟨.source, 1⟩ }
    let unbiased : Solver := { graph := storedSecret }
    storedSecret.Coherent ∧ storedSecret.Specified ∧
      biased.solve.conflicts.toList ≠ [] ∧
      (∀ conflict, conflict ∈ biased.solve.conflicts.toList →
        ∃ left right,
          biased.solve.apply conflict = .error (.unsatisfiable conflict left right)) ∧
      unbiased.solve.conflicts.toList ≠ [] ∧
      unbiased.solve.conflicts = (unbiased.afterServing unbiased.rounds).conflicts ∧
      ∀ constraint, constraint ∈ unbiased.solve.conflicts.toList ↔
        storedSecret.failureStatus constraint = some .error ∧
          ∃ turn, unbiased.FailsInTurn turn constraint := by
  intro biased unbiased
  have reported := solve_reports_failures biased (by decide) (by decide)
  have met := (solve_reports_failures unbiased (by decide) (by decide)).2 rfl
  exact ⟨by decide, by decide, by decide, reported.1, by decide, met.2⟩

end InfoFlow.Solver
