import InfoFlow.Derivation
import InfoFlow.Log
import InfoFlow.Narrowing
import InfoFlow.ReverseFlow
import InfoFlow.Solver.Policy
import InfoFlow.Worklist

/-! The state of a solver, and how it reacts to writes.

Before the first write of a value in a solve, its qualifiers are kept as a
snapshot to which it can be restored; a value counts as updated as long as
there is a snapshot. After a write every constraint that mentions the value
waits to be applied again. -/

namespace InfoFlow

/-- A solver for a graph. `constraints` is the working set, `conflicts` are
the members found unsatisfiable, and `log` holds what was reported. -/
structure Solver where
  graph : ValueGraph
  policy : RepairPolicy := {}
  verbosity : Log.Verbosity := .quiet
  annotations : Annotations := {}
  constraints : ConstraintSet := {}
  conflicts : ConstraintSet := {}
  index : ReferenceIndex := {}
  worklist : Worklist := {}
  snapshots : FiniteMap Nat QualifierSet := {}
  restores : FiniteMap Nat Nat := {}
  warned : List ConstraintKey := []
  eliminated : List Leaf := []
  restoreCounter : Nat := 0
  log : List String := []

namespace Solver

def attach (solver : Solver) (graph : ValueGraph) (annotations : Annotations) : Solver :=
  { solver with graph, annotations, log := [] }

def reset (solver : Solver) : Solver where
  graph := solver.graph
  policy := solver.policy
  verbosity := solver.verbosity
  annotations := solver.annotations
  log := solver.log

def report (solver : Solver) (severity : Log.Severity) (text : String) : Solver :=
  if solver.verbosity.shows severity then
    { solver with log := solver.log ++ [severity.label ++ text] }
  else solver

/-! ## Snapshots and counts

These are kept by the number of a value. -/

def snapshot? (solver : Solver) (id : Nat) : Option QualifierSet :=
  solver.snapshots.get? id

def isUpdated (solver : Solver) (id : Nat) : Bool :=
  solver.snapshots.contains id

def restoreCount (solver : Solver) (id : Nat) : Nat :=
  (solver.restores.get? id).getD 0

def isEliminated (solver : Solver) (leaf : Leaf) : Bool :=
  solver.eliminated.any fun other => decide (other.id = leaf.id)

/-! ## Writes -/

def requeue (solver : Solver) (leaf : Leaf) : Solver :=
  { solver with
    worklist := solver.worklist.addAll (Constraint.sort (solver.index.referencing (.leaf leaf))) }

def keepSnapshot (solver : Solver) (id : Nat) (qualifiers : QualifierSet) : Solver :=
  if solver.isUpdated id then solver
  else { solver with snapshots := solver.snapshots.set id qualifiers }

def note (solver : Solver) (write : Write) : Solver :=
  (solver.keepSnapshot write.leaf.id write.before).requeue write.leaf

def absorb (solver : Solver) (narrowing : Narrowing) : Solver :=
  narrowing.writes.foldl note { solver with annotations := narrowing.annotations }

/-- Give a value the allowed qualifiers. Immutable leaves keep theirs. The
result says whether any leaf was changed. -/
def write (solver : Solver) (value : Value) (allowed : QualifierSet) : Solver × Bool :=
  let narrowing := solver.annotations.write Leaf.isImmutable value allowed
  (solver.absorb narrowing, narrowing.changed)

def apply (solver : Solver) (constraint : Constraint) : Except Failure (Solver × Bool) :=
  (solver.annotations.apply Leaf.isImmutable constraint).map fun narrowing =>
    (solver.absorb narrowing, narrowing.changed)

end Solver

end InfoFlow
