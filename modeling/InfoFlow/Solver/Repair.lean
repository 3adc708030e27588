import InfoFlow.Solver.State

/-! Repair of a failing constraint.

A biased solver demotes the side that it does not favour. The leaves behind
that side are rolled back: one that was updated is restored to its snapshot,
as often as the policy permits, and one that was not updated is a source or
sink and is eliminated, at most once. Then the constraint is applied again. -/

namespace InfoFlow.Solver

/-- The side of a failing constraint that is given up. A solver that favours
sources gives up a source only if the sink is clear, or polymorphic against a
sensitive source; one that favours sinks gives up a sink only if the source is
sensitive, or polymorphic against a clear sink. -/
def demoted? (solver : Solver) (constraint : Constraint) : Option Value :=
  let left := solver.annotations.view constraint.left
  let right := solver.annotations.view constraint.right
  match solver.policy.bias with
  | .neutral => none
  | .sink =>
      if left.sensitive || (left.poly && right.clear) then some constraint.right
      else some constraint.left
  | .source =>
      if right.clear || (right.poly && left.sensitive) then some constraint.left
      else some constraint.right

/-- The leaves whose rollback demotes a value. A method adaptation is demoted
through both of its sides. A field adaptation is demoted through its context,
but through its declaration if sources are favoured and that can only be
sensitive. -/
def targets (solver : Solver) : Value → List Leaf
  | .leaf content => [content]
  | .adapted .method _ _ declaration context =>
      solver.targets context ++ solver.targets declaration
  | .adapted .field _ _ declaration context =>
      if solver.policy.bias = .source ∧
          solver.annotations.view declaration = .only .sensitive then
        solver.targets declaration
      else solver.targets context

def restore (solver : Solver) (leaf : Leaf) (snapshot : QualifierSet) : Solver :=
  let reported := solver.report .debug
    ("Restoring " ++ solver.annotations.describe (.leaf leaf) ++ " to " ++ snapshot.literal)
  let requeued := reported.requeue leaf
  { requeued with
    annotations := requeued.annotations.set leaf snapshot
    restores := requeued.restores.set leaf.id (requeued.restoreCount leaf.id + 1)
    restoreCounter := requeued.restoreCounter + 1 }

def rollBack (solver : Solver) (leaf : Leaf) : Solver :=
  match solver.snapshot? leaf.id with
  | none => solver
  | some snapshot =>
      let requeued := solver.requeue leaf
      { requeued with
        annotations := requeued.annotations.set leaf snapshot
        snapshots := requeued.snapshots.erase leaf.id }

/-- Eliminate a source or sink: it falls back to the source level, and every
updated leaf of the graph is rolled back. -/
def eliminate (solver : Solver) (leaf : Leaf) : Solver :=
  let reported := solver.report .info
    ("Eliminating a SOURCE/SINK: " ++ solver.annotations.describe (.leaf leaf))
  let requeued := reported.requeue leaf
  let lowered :=
    { requeued with
      eliminated := requeued.eliminated ++ [leaf]
      annotations := requeued.annotations.set leaf requeued.graph.sourceLevel }
  lowered.graph.leaves.foldl rollBack lowered

def demote? (solver : Solver) (leaf : Leaf) : Option Solver :=
  match solver.snapshot? leaf.id with
  | some snapshot =>
      if solver.restoreCount leaf.id < solver.policy.maxRestores then
        some (solver.restore leaf snapshot)
      else none
  | none =>
      if leaf.isImmutable || solver.isEliminated leaf then none
      else some (solver.eliminate leaf)

def demoteAll (solver : Solver) (leaves : List Leaf) : Solver × Bool :=
  leaves.foldl
    (fun progress leaf =>
      match progress.1.demote? leaf with
      | some demoted => (demoted, true)
      | none => progress)
    (solver, false)

/-- Repair a failing constraint and apply it again. The result says whether
that changed any leaf; it did not if nothing could be demoted or the
constraint still fails. -/
def repair (solver : Solver) (constraint : Constraint) : Solver × Except Failure Bool :=
  match solver.demoted? constraint with
  | none => (solver, .ok false)
  | some value =>
      let (demoted, progressed) := solver.demoteAll (solver.targets value)
      if progressed then
        match demoted.apply constraint with
        | .ok (applied, changed) => (applied, .ok changed)
        | .error .unspecified => (demoted, .error .unspecified)
        | .error failure =>
            (demoted.report .debug ("Repair failed: " ++ failure.message), .ok false)
      else (demoted, .ok false)

end InfoFlow.Solver
