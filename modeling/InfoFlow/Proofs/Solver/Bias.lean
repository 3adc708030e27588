import InfoFlow.Proofs.Solver.Neutral
import InfoFlow.Proofs.Solver.Soundness

/-! What a bias changes.

The repair policy is consulted only when an error is met. A neutral solve makes
each error a conflict for good, since without repairs a constraint that failed
keeps failing. So if a neutral solve ends without conflicts, it met no error,
and a solve from the same start that favours a side takes the same steps. This
holds also if the treatment of failing constraints is decided anew at every
step. -/

namespace InfoFlow.Solver

variable {solver next : Solver} {constraint : Constraint}

def withPolicy (solver : Solver) (policy : RepairPolicy) : Solver :=
  { solver with policy }

/-! ## Operations that do not consult the policy -/

section

variable (solver) (policy : RepairPolicy)

theorem report_withPolicy (severity : Log.Severity) (text : String) :
    (solver.withPolicy policy).report severity text =
      (solver.report severity text).withPolicy policy := by
  have same : (solver.withPolicy policy).verbosity = solver.verbosity := rfl
  unfold report
  rw [same]
  split <;> rfl

theorem start_withPolicy :
    (solver.withPolicy policy).start = solver.start.withPolicy policy := by
  have reset : (solver.withPolicy policy).reset = solver.reset.withPolicy policy := rfl
  simp only [start, reset, report_withPolicy]
  rfl

private theorem note_withPolicy (write : Write) :
    (solver.withPolicy policy).note write = (solver.note write).withPolicy policy := by
  have same : (solver.withPolicy policy).isUpdated write.leaf.id =
      solver.isUpdated write.leaf.id := rfl
  unfold note keepSnapshot
  rw [same]
  split <;> rfl

theorem absorb_withPolicy (narrowing : Narrowing) :
    (solver.withPolicy policy).absorb narrowing =
      (solver.absorb narrowing).withPolicy policy := by
  have noted : ∀ (writes : List Write) (before : Solver),
      writes.foldl note (before.withPolicy policy) =
        (writes.foldl note before).withPolicy policy := by
    intro writes
    induction writes with
    | nil => exact fun _ => rfl
    | cons write rest induction =>
        intro before
        rw [List.foldl_cons, note_withPolicy, induction, List.foldl_cons]
  exact noted narrowing.writes { solver with annotations := narrowing.annotations }

theorem extend_withPolicy (constraint : Constraint) :
    (solver.withPolicy policy).extend constraint =
      (solver.extend constraint).withPolicy policy := rfl

theorem fail_withPolicy (noError : solver.graph.failureStatus constraint ≠ some .error) :
    (solver.withPolicy policy).fail constraint =
      (solver.fail constraint).withPolicy policy := by
  have same : (solver.withPolicy policy).graph.failureStatus constraint =
      solver.graph.failureStatus constraint := rfl
  cases status : solver.graph.failureStatus constraint with
  | none => simp only [fail, same, status]
  | some kind =>
      cases kind with
      | error => exact absurd status noError
      | warning =>
          simp only [fail, same, status, report_withPolicy]
          split
          · next known => rw [if_pos (show constraint.key ∈ solver.warned from known)]
          · next unknown =>
              rw [if_neg (show ¬ constraint.key ∈ solver.warned from unknown)]
              rfl

theorem finish_withPolicy (clean : solver.conflicts.toList = []) :
    (solver.withPolicy policy).finish = solver.finish.withPolicy policy := by
  have sameClean : (solver.withPolicy policy).conflicts.toList = [] := clean
  simp only [finish, clean, sameClean, List.foldl_nil, report_withPolicy]
  rfl

end

/-! ## Neutral solves -/

/-- The state of a neutral solve: nothing was repaired, and every conflict
still fails. -/
structure Steadfast (solver : Solver) : Prop where
  consistent : solver.Consistent
  specified : solver.graph.Specified
  neutral : solver.policy.bias = .neutral
  restoreCounter : solver.restoreCounter = 0
  eliminated : solver.eliminated = []
  conflicts : ∀ conflict, conflict ∈ solver.conflicts.toList →
    solver.annotations.Fails conflict

private theorem serve_of_neutral (neutral : solver.policy.bias = .neutral) :
    (solver.serve constraint).restoreCounter = solver.restoreCounter ∧
      (solver.serve constraint).eliminated = solver.eliminated := by
  cases outcome : solver.annotations.apply Leaf.isImmutable constraint with
  | ok narrowing =>
      rcases serve_applied outcome with ⟨index, worklist, snapshots, served, -⟩
      rw [served]
      exact ⟨rfl, rfl⟩
  | error failure =>
      rcases serve_failed neutral outcome with ⟨warned, log, served⟩
      rw [served]
      exact ⟨rfl, rfl⟩

theorem Steadfast.step (steadfast : solver.Steadfast) (stepped : solver.step = some next) :
    next.Steadfast ∧ solver.conflicts.toList ⊆ next.conflicts.toList := by
  rcases step_eq_some stepped with ⟨constraint, rest, waiting, rfl⟩
  have popped := steadfast.consistent.popped waiting
  have stated := steadfast.consistent.specified steadfast.specified popped.2
  have turn := popped.1.turn steadfast.neutral popped.2 stated
  have unrepaired := @serve_of_neutral { solver with worklist := rest } constraint
    steadfast.neutral
  refine ⟨⟨popped.1.serve popped.2, turn.graph.symm ▸ steadfast.specified,
    turn.policy.symm ▸ steadfast.neutral, unrepaired.1.trans steadfast.restoreCounter,
    unrepaired.2.trans steadfast.eliminated,
    popped.1.conflicts_fail steadfast.specified popped.2 turn steadfast.conflicts⟩, ?_⟩
  rcases turn.outcome with ⟨-, -, -, conflicts⟩ | ⟨-, -, conflicts⟩
  · rw [conflicts]
    exact List.Subset.refl _
  · rw [conflicts]
    split
    · exact ConstraintSet.subset_add
    · exact List.Subset.refl _

theorem start_steadfast (coherent : solver.graph.Coherent) (specified : solver.graph.Specified)
    (neutral : solver.policy.bias = .neutral) : solver.start.Steadfast := by
  have consistent := start_consistent coherent
  rcases solver.start_eq with ⟨log, started⟩
  rw [started] at consistent ⊢
  refine ⟨consistent, specified, neutral, rfl, rfl, fun conflict present => ?_⟩
  cases present

theorem Steadfast.decideBy (steadfast : solver.Steadfast) (failurePolicy : FailurePolicy) :
    (solver.decideBy failurePolicy).Steadfast where
  consistent :=
    { steadfast.consistent with
      coherent := ⟨steadfast.consistent.coherent.sides, steadfast.consistent.coherent.places⟩ }
  specified := steadfast.specified
  neutral := steadfast.neutral
  restoreCounter := steadfast.restoreCounter
  eliminated := steadfast.eliminated
  conflicts := steadfast.conflicts

def advance (solver : Solver) (failurePolicy : FailurePolicy) : Solver :=
  (solver.decideBy failurePolicy).step.getD solver

theorem serveUnder_cons (solver : Solver) (failurePolicy : FailurePolicy)
    (rest : List FailurePolicy) :
    solver.serveUnder (failurePolicy :: rest) = (solver.advance failurePolicy).serveUnder rest :=
  rfl

theorem Steadfast.advance (steadfast : solver.Steadfast) (failurePolicy : FailurePolicy) :
    (solver.advance failurePolicy).Steadfast ∧
      solver.conflicts.toList ⊆ (solver.advance failurePolicy).conflicts.toList := by
  unfold Solver.advance
  cases stepped : (solver.decideBy failurePolicy).step with
  | none => exact ⟨steadfast, List.Subset.refl _⟩
  | some next => exact (steadfast.decideBy failurePolicy).step stepped

theorem Steadfast.serveUnder (steadfast : solver.Steadfast) (policies : List FailurePolicy) :
    (solver.serveUnder policies).Steadfast ∧
      solver.conflicts.toList ⊆ (solver.serveUnder policies).conflicts.toList := by
  induction policies generalizing solver with
  | nil => exact ⟨steadfast, List.Subset.refl _⟩
  | cons failurePolicy rest induction =>
      have once := steadfast.advance failurePolicy
      have later := induction once.1
      exact ⟨later.1, List.Subset.trans once.2 later.2⟩

theorem Steadfast.conflicts_of_finish (steadfast : solver.Steadfast)
    (clean : solver.finish.conflicts.toList = []) : solver.conflicts.toList = [] := by
  rcases finish_of_fails steadfast.conflicts with ⟨log, finished⟩
  rwa [finished] at clean

/-! ## Two solves in step -/

/-- If serving a constraint adds no conflict, the policy is not consulted. -/
private theorem serve_withPolicy (neutral : solver.policy.bias = .neutral) (policy : RepairPolicy)
    (clean : (solver.serve constraint).conflicts.toList = []) :
    (solver.withPolicy policy).serve constraint =
      (solver.serve constraint).withPolicy policy := by
  cases outcome : solver.annotations.apply Leaf.isImmutable constraint with
  | ok narrowing =>
      have applied := apply_of_ok outcome
      have appliedToo : (solver.withPolicy policy).apply constraint =
          .ok ((solver.withPolicy policy).absorb narrowing, narrowing.changed) :=
        apply_of_ok outcome
      simp only [serve, applied, appliedToo, absorb_withPolicy, extend_withPolicy]
  | error failure =>
      have failed := apply_eq_error.mpr outcome
      have failedToo : (solver.withPolicy policy).apply constraint = .error failure :=
        apply_eq_error.mpr outcome
      simp only [serve, failed] at clean
      simp only [serve, failed, failedToo]
      refine fail_withPolicy solver policy fun error => ?_
      rcases @fail_of_neutral solver constraint neutral with ⟨warned, log, equal⟩
      rw [equal, if_pos error] at clean
      have added : constraint.key ∈ (solver.conflicts.add constraint).keys :=
        ConstraintSet.mem_keys_add.mpr (.inr rfl)
      rw [ConstraintSet.keys, clean] at added
      cases added

private theorem advance_withPolicy (neutral : solver.policy.bias = .neutral)
    (policy : RepairPolicy) (failurePolicy : FailurePolicy)
    (clean : (solver.advance failurePolicy).conflicts.toList = []) :
    (solver.withPolicy policy).advance failurePolicy =
      (solver.advance failurePolicy).withPolicy policy := by
  have sameQueue : ((solver.withPolicy policy).decideBy failurePolicy).worklist =
      (solver.decideBy failurePolicy).worklist := rfl
  unfold advance at clean ⊢
  unfold step at clean ⊢
  rw [sameQueue]
  cases popped : (solver.decideBy failurePolicy).worklist.pop? with
  | none => rfl
  | some served =>
      rw [popped] at clean
      exact @serve_withPolicy { solver.decideBy failurePolicy with worklist := served.2 } served.1
        neutral policy clean

theorem Steadfast.serveUnder_withPolicy (steadfast : solver.Steadfast) (policy : RepairPolicy)
    (policies : List FailurePolicy)
    (clean : (solver.serveUnder policies).conflicts.toList = []) :
    (solver.withPolicy policy).serveUnder policies =
      (solver.serveUnder policies).withPolicy policy := by
  induction policies generalizing solver with
  | nil => rfl
  | cons failurePolicy rest induction =>
      have once := steadfast.advance failurePolicy
      have later := once.1.serveUnder rest
      rw [serveUnder_cons] at clean ⊢
      have cleanNow : (solver.advance failurePolicy).conflicts.toList = [] :=
        List.subset_nil.mp (clean ▸ later.2)
      rw [serveUnder_cons, advance_withPolicy steadfast.neutral policy failurePolicy cleanNow]
      exact induction once.1 clean

theorem iterate_eq_serveUnder (consistent : solver.Consistent) (count : Nat) :
    iterate step count solver =
      solver.serveUnder (List.replicate count solver.graph.failurePolicy) := by
  induction count generalizing solver with
  | zero => rfl
  | succ count induction =>
      have own : solver.decideBy solver.graph.failurePolicy = solver := rfl
      rw [List.replicate_succ, serveUnder_cons, advance, own]
      cases stepped : solver.step with
      | none =>
          rw [iterate_of_finished stepped]
          exact (serveUnder_of_empty _ (step_eq_none stepped)).symm
      | some next =>
          have graph := (consistent.step_graph stepped).1
          simp only [iterate, stepped, Option.getD_some]
          rw [induction (consistent.step stepped), graph]

private theorem conflicts_afterServing (coherent : solver.graph.Coherent)
    (specified : solver.graph.Specified) (neutral : solver.policy.bias = .neutral)
    (clean : solver.solve.conflicts.toList = []) (count : Nat) :
    (solver.afterServing count).conflicts.toList = [] := by
  have start := start_steadfast coherent specified neutral
  have steadfast : ∀ turns, (solver.afterServing turns).Steadfast := by
    intro turns
    rw [afterServing, iterate_eq_serveUnder start.consistent]
    exact (start.serveUnder _).1
  have atEnd := (steadfast solver.rounds).conflicts_of_finish clean
  have included := ((steadfast count).serveUnder
    (List.replicate solver.rounds (solver.afterServing count).graph.failurePolicy)).2
  rw [← iterate_eq_serveUnder (steadfast count).consistent, afterServing, ← iterate_add] at included
  have same : iterate step (count + solver.rounds) solver.start =
      solver.afterServing solver.rounds :=
    afterServing_of_rounds_le coherent (Nat.le_add_left _ _)
  rw [same, atEnd] at included
  exact List.subset_nil.mp included

theorem afterServing_withPolicy (coherent : solver.graph.Coherent)
    (specified : solver.graph.Specified) (neutral : solver.policy.bias = .neutral)
    (clean : solver.solve.conflicts.toList = []) (policy : RepairPolicy) (count : Nat) :
    (solver.withPolicy policy).afterServing count =
      (solver.afterServing count).withPolicy policy := by
  have start := start_steadfast coherent specified neutral
  have cleanThen := conflicts_afterServing coherent specified neutral clean count
  have biased : (solver.start.withPolicy policy).Consistent := by
    rw [← start_withPolicy]
    exact start_consistent coherent
  have own : solver.afterServing count =
      solver.start.serveUnder (List.replicate count solver.start.graph.failurePolicy) :=
    iterate_eq_serveUnder start.consistent count
  rw [own] at cleanThen ⊢
  rw [afterServing, start_withPolicy, iterate_eq_serveUnder biased]
  exact start.serveUnder_withPolicy policy _ cleanThen

/-- A solve ends with the annotations and the working set of another one, and
has neither conflicts nor repairs. -/
structure EndsLike (other solver : Solver) : Prop where
  annotations : solver.annotations = other.annotations
  constraints : solver.constraints = other.constraints
  conflicts : solver.conflicts.toList = []
  restoreCounter : solver.restoreCounter = 0
  eliminated : solver.eliminated = []

private theorem Steadfast.endsLike (steadfast : solver.Steadfast) (policy : RepairPolicy)
    (clean : solver.finish.conflicts.toList = []) :
    solver.finish.EndsLike (solver.withPolicy policy).finish := by
  have cleanBefore := steadfast.conflicts_of_finish clean
  rcases finish_of_fails steadfast.conflicts with ⟨log, finished⟩
  have unrepaired : solver.finish.restoreCounter = 0 ∧ solver.finish.eliminated = [] := by
    rw [finished]
    exact ⟨steadfast.restoreCounter, steadfast.eliminated⟩
  rw [finish_withPolicy solver policy cleanBefore]
  exact ⟨rfl, rfl, clean, unrepaired.1, unrepaired.2⟩

/-- If a neutral solve ends without conflicts, then a solve from the same start
under any policy ends in the same way and without a repair, also if each
failing constraint is treated as a policy of its own step says. -/
theorem solve_unbiased (solver : Solver) (coherent : solver.graph.Coherent)
    (specified : solver.graph.Specified) (neutral : solver.policy.bias = .neutral)
    (policy : RepairPolicy) :
    (solver.solve.conflicts.toList = [] →
        solver.solve.EndsLike (solver.withPolicy policy).solve) ∧
      ∀ policies : List FailurePolicy,
        (solver.start.serveUnder policies).worklist.toList = [] →
        (solver.start.serveUnder policies).finish.conflicts.toList = [] →
          ((solver.withPolicy policy).start.serveUnder policies).worklist.toList = [] ∧
            (solver.start.serveUnder policies).finish.EndsLike
              ((solver.withPolicy policy).start.serveUnder policies).finish := by
  have start := start_steadfast coherent specified neutral
  constructor
  · intro clean
    have steadfast : (solver.afterServing solver.rounds).Steadfast := by
      rw [afterServing, iterate_eq_serveUnder start.consistent]
      exact (start.serveUnder _).1
    have sameTurns := afterServing_withPolicy coherent specified neutral clean policy
    have biasedEmpty : ((solver.withPolicy policy).afterServing
        (solver.withPolicy policy).rounds).worklist.toList = [] := iterate_waiting coherent
    rw [sameTurns] at biasedEmpty
    have sameEnd : solver.afterServing (solver.withPolicy policy).rounds =
        solver.afterServing solver.rounds :=
      iterate_eq_of_finished (step_of_empty biasedEmpty)
        (step_of_empty (iterate_waiting coherent))
    have ended : (solver.withPolicy policy).solve =
        ((solver.afterServing solver.rounds).withPolicy policy).finish := by
      rw [← sameEnd, ← sameTurns]
      rfl
    rw [ended]
    exact steadfast.endsLike policy clean
  · intro policies waiting clean
    have reached := start.serveUnder policies
    have cleanEnd := reached.1.conflicts_of_finish clean
    rw [start_withPolicy, start.serveUnder_withPolicy policy policies cleanEnd]
    exact ⟨waiting, reached.1.endsLike policy clean⟩

theorem solve_unbiased_linkedBoxes :
    let neutral : Solver := { graph := linkedBoxes }
    let favouring : Solver := neutral.withPolicy ⟨.sink, 3⟩
    let policies : List FailurePolicy :=
      [none, some fun _ => some .warning, some fun _ => none] ++ List.replicate 4 none
    linkedBoxes.Coherent ∧ linkedBoxes.Specified ∧
      neutral.solve.EndsLike favouring.solve ∧
      (favouring.start.serveUnder policies).worklist.toList = [] ∧
      (neutral.start.serveUnder policies).finish.EndsLike
        (favouring.start.serveUnder policies).finish := by
  intro neutral favouring policies
  have coherent : linkedBoxes.Coherent := by decide
  have specified : linkedBoxes.Specified := by decide
  have unbiased := solve_unbiased neutral coherent specified rfl ⟨.sink, 3⟩
  have varying := unbiased.2 policies (by decide) (by decide)
  exact ⟨coherent, specified, unbiased.1 (by decide), varying.1, varying.2⟩

end InfoFlow.Solver
