import InfoFlow.Proofs.Solver.Potential

/-! The end of a solve.

Serving a constraint either takes it off the queue and queues nothing, or uses
up effort. So the effort, weighted by the greatest length of the queue, and the
length of the queue together become smaller with every step. How a failing
constraint is treated does not enter into this, so it may be decided anew each
time. -/

namespace InfoFlow.Solver

variable {solver after next : Solver} {constraint : Constraint}

abbrev FailurePolicy := Option (Constraint → Option FailureStatus)

def decideBy (solver : Solver) (failurePolicy : FailurePolicy) : Solver :=
  { solver with graph := { solver.graph with failurePolicy } }

/-- Serve waiting constraints, each under a failure policy of its own. -/
def serveUnder (solver : Solver) (policies : List FailurePolicy) : Solver :=
  policies.foldl (fun current policy => (current.decideBy policy).step.getD current) solver

def remaining (solver : Solver) : Nat :=
  solver.effort * (capacity solver.graph + 1) + solver.worklist.toList.length

private theorem remaining_lt {effort less capacity length longer : Nat} (spent : less < effort)
    (bound : longer ≤ capacity) :
    less * (capacity + 1) + longer < effort * (capacity + 1) + (length + 1) := by
  have paid : (less + 1) * (capacity + 1) ≤ effort * (capacity + 1) :=
    Nat.mul_le_mul_right _ spent
  rw [Nat.add_mul] at paid
  omega

theorem Consistent.remaining_step (consistent : solver.Consistent)
    (stepped : solver.step = some next) : next.remaining < solver.remaining := by
  have graph := (consistent.step_graph stepped).1
  have bound := (consistent.step stepped).length_worklist_le
  rcases step_eq_some stepped with ⟨constraint, rest, waiting, equal⟩
  have popped := consistent.popped waiting
  have spends := spends_serve popped.1 popped.2
  rw [← equal] at spends
  rw [graph] at bound
  simp only [remaining, graph, waiting, List.length_cons]
  cases spends with
  | nothing worklist effort =>
      have same : next.effort = solver.effort := effort
      have shorter : next.worklist = rest := worklist
      rw [same, shorter]
      omega
  | effort less => exact remaining_lt less bound

theorem remaining_start_le (coherent : solver.graph.Coherent) :
    solver.start.remaining ≤ solver.rounds := by
  have consistent := start_consistent coherent
  have queue := consistent.length_worklist_le
  have demotions := solver.start.demotionsLeft_le
  have carried := solver.start.annotations.total_le solver.graph.leafParts
  have leaves := solver.graph.length_leafParts_le
  have upgraded := solver.graph.size_upgraded_le
  have graph := solver.start_graph
  have constraints := solver.start_constraints
  rw [graph] at queue demotions
  rw [solver.start_policy] at demotions
  have effort : solver.start.effort + 1 ≤ solver.graph.extent * solver.graph.extent +
      ((solver.policy.maxRestores + 1) * solver.graph.extent + 1) *
        (3 * solver.graph.extent + 1) + 1 := by
    have paid := Nat.mul_le_mul_right (3 * solver.graph.extent + 1) demotions
    simp only [Solver.effort, graph, constraints, capacity, Nat.add_mul] at paid ⊢
    omega
  have known : capacity solver.graph ≤
      2 * solver.graph.constraints.size + solver.graph.extent * solver.graph.extent := by
    unfold capacity
    omega
  have whole := Nat.mul_le_mul effort (Nat.succ_le_succ known)
  rw [Nat.add_mul] at whole
  simp only [remaining, rounds, graph, Nat.succ_eq_add_one] at whole queue ⊢
  omega

/-- The rounds of a solve are enough to serve all that waits. -/
theorem iterate_waiting (coherent : solver.graph.Coherent) :
    (iterate step solver.rounds solver.start).worklist.toList = [] :=
  step_eq_none (iterate_finishes remaining
    (fun _ _ stepped consistent => Consistent.step consistent stepped)
    (fun _ _ stepped consistent => Consistent.remaining_step consistent stepped)
    (start_consistent coherent) (remaining_start_le coherent))

/-! ## Undecided failure policies -/

theorem step_of_empty (empty : solver.worklist.toList = []) : solver.step = none := by
  cases stepped : solver.step with
  | none => rfl
  | some next =>
      rcases step_eq_some stepped with ⟨constraint, rest, waiting, -⟩
      rw [empty] at waiting
      cases waiting

theorem serveUnder_of_empty (policies : List FailurePolicy)
    (empty : solver.worklist.toList = []) : solver.serveUnder policies = solver := by
  induction policies with
  | nil => rfl
  | cons policy rest induction =>
      have finished : (solver.decideBy policy).step = none := step_of_empty empty
      rw [serveUnder, List.foldl_cons, finished]
      exact induction

private theorem Consistent.remaining_serveUnder (policies : List FailurePolicy)
    (consistent : solver.Consistent) :
    (solver.serveUnder policies).worklist.toList = [] ∨
      (solver.serveUnder policies).remaining + policies.length ≤ solver.remaining := by
  induction policies generalizing solver with
  | nil => exact .inr (Nat.le_refl _)
  | cons policy rest induction =>
      have decided : (solver.decideBy policy).Consistent :=
        { consistent with coherent := ⟨consistent.coherent.sides, consistent.coherent.places⟩ }
      have sameRemaining : (solver.decideBy policy).remaining = solver.remaining := rfl
      cases stepped : (solver.decideBy policy).step with
      | none =>
          have decidedEmpty := step_eq_none stepped
          have empty : solver.worklist.toList = [] := decidedEmpty
          rw [serveUnder_of_empty _ empty]
          exact .inl empty
      | some next =>
          have unfolded : solver.serveUnder (policy :: rest) = next.serveUnder rest := by
            rw [serveUnder, List.foldl_cons, stepped]
            rfl
          have smaller := decided.remaining_step stepped
          rw [unfolded, List.length_cons]
          rcases induction (decided.step stepped) with empty | bound
          · exact .inl empty
          · right
            omega

theorem serveUnder_waiting {policies : List FailurePolicy}
    (coherent : solver.graph.Coherent) (enough : solver.rounds ≤ policies.length) :
    (solver.start.serveUnder policies).worklist.toList = [] := by
  have bound := remaining_start_le coherent
  rcases (start_consistent coherent).remaining_serveUnder policies with empty | less
  · exact empty
  · have none : (solver.start.serveUnder policies).worklist.toList.length = 0 := by
      rw [remaining] at less
      omega
    exact List.length_eq_zero_iff.mp none

/-- Every loop of a solve ends: the queue is served within the rounds, also if
the failure policy answers differently each time; a derivation uses up what it
finds; the search for what mentions a value follows all that it reaches; and the
targets of a demotion are leaves of the demoted value. -/
theorem solve_terminates (solver : Solver) (coherent : solver.graph.Coherent) :
    (iterate step solver.rounds solver.start).worklist.toList = [] ∧
      (∀ policies : List FailurePolicy, solver.rounds ≤ policies.length →
        (solver.start.serveUnder policies).worklist.toList = []) ∧
      (∀ (annotations : Annotations) (index : ReferenceIndex) (constraint : Constraint)
        (existing : ConstraintSet), constraint.relation = .subtype →
        (iterate (Derivation.Search.step solver.graph annotations existing)
          (index.extent [constraint] * index.extent [constraint] + 2)
          ⟨[constraint], {}, index⟩).pending = []) ∧
      (∀ (index : ReferenceIndex) (value : Value),
        (iterate (ReferenceIndex.Search.step index) (index.adaptations.length + 1)
          ⟨[value], [value]⟩).pending = []) ∧
      (∀ (state : Solver) (value : Value), (state.targets value).Sublist value.leaves) := by
  refine ⟨iterate_waiting coherent, ?_, ?_, ?_, ?_⟩
  · intro policies enough
    exact serveUnder_waiting coherent enough
  · intro annotations index constraint existing flow
    exact Derivation.search_finishes solver.graph annotations index existing flow
  · intro index value
    exact index.search_finishes value
  · intro state value
    exact state.targets_sublist value

/-- A secret that is stored in a field of a variable, from where it is shown. -/
def storedSecret : ValueGraph :=
  let secret : Value := .leaf
    (LeafSpec.leaf { identifier := "secret", kind := .constant, declared := .only .sensitive } 0 0)
  let box : Value := .leaf (LeafSpec.leaf { identifier := "box" } 0 1)
  let content : Value := .leaf (LeafSpec.leaf { identifier := "content", kind := .field } 0 2)
  let stored : Value := .adapted .field 0 3 content box
  let shown : Value := .leaf
    (LeafSpec.leaf { identifier := "shown", declared := .only .clear } 0 4)
  { values := [secret, box, content, stored, shown]
    constraints := .ofList
      [.inferred secret stored [], .inferred stored shown [], .inferred shown box []] }

theorem solve_terminates_storedSecret :
    storedSecret.Coherent ∧
      (iterate step (rounds { graph := storedSecret, policy := ⟨.sink, 3⟩ })
        (start { graph := storedSecret, policy := ⟨.sink, 3⟩ })).worklist.toList = [] :=
  ⟨by decide, (solve_terminates { graph := storedSecret, policy := ⟨.sink, 3⟩ } (by decide)).1⟩

end InfoFlow.Solver
