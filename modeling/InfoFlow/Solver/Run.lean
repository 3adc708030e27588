import InfoFlow.Solver.Repair

/-! Solving the constraints of a graph.

The working set starts as the graph's constraints with their reverse flows.
Each waiting constraint is applied; what follows from one that could be
applied joins the working set and waits too. One that fails is repaired or
becomes a conflict, is reported, or is passed over, as its failure status
says. In the end the conflicts are applied once more, because repairs
elsewhere may have made some of them satisfiable. -/

namespace InfoFlow.Solver

/-- Treat a constraint that failed as its failure status says. A warning is
reported once in a solve. -/
def fail (solver : Solver) (constraint : Constraint) : Solver :=
  match solver.graph.failureStatus constraint with
  | some .error =>
      let (repaired, result) := solver.repair constraint
      match result with
      | .ok true => repaired
      | _ => { repaired with conflicts := repaired.conflicts.add constraint }
  | some .warning =>
      if constraint.key ∈ solver.warned then solver
      else
        let warned := solver.report .warning
          ("handling constraint " ++ constraint.describe solver.annotations ++ " failed.")
        { warned with warned := warned.warned ++ [constraint.key] }
  | none => solver

def extend (solver : Solver) (constraint : Constraint) : Solver :=
  let (found, index) :=
    Derivation.derive solver.graph solver.annotations solver.index constraint solver.constraints
  { solver with
    index := index
    worklist := solver.worklist.addAll found.toList
    constraints := solver.constraints.addAll found.toList }

def serve (solver : Solver) (constraint : Constraint) : Solver :=
  match solver.apply constraint with
  | .ok (applied, _) => applied.extend constraint
  | .error _ => solver.fail constraint

def step (solver : Solver) : Option Solver :=
  solver.worklist.pop?.map fun (constraint, rest) =>
    { solver with worklist := rest }.serve constraint

def start (solver : Solver) : Solver :=
  let fresh := solver.reset.report .info
    ("Solving qualifier constraints: " ++ toString solver.graph.constraints.size ++
      " in total...")
  let upgraded := fresh.graph.withReverseFlows fresh.graph.constraints
  { fresh with
    constraints := upgraded
    index := fresh.index.registerAll upgraded.toList
    worklist := fresh.worklist.addAll upgraded.toList }

/-- A bound on the number of constraints that are served. Let a program have
`extent` values. It has at most `extent * extent` derived constraints; each
value is restored or eliminated at most `maxRestores + 1` times; and between
two such repairs each value loses at most its three qualifiers. Between two of
these events every constraint is served at most once. -/
def rounds (solver : Solver) : Nat :=
  let extent := solver.graph.extent
  let repairs := (solver.policy.maxRestores + 1) * extent
  let known := 2 * solver.graph.constraints.size + extent * extent
  (extent * extent + (repairs + 1) * (3 * extent + 1) + 1) * (known + 1) + 1

def retry (solver : Solver) (constraint : Constraint) : Solver :=
  match solver.apply constraint with
  | .ok (applied, _) => { applied with conflicts := applied.conflicts.discard constraint }
  | .error _ => solver

def finish (solver : Solver) : Solver :=
  let retried := solver.conflicts.toList.foldl retry solver
  (retried.report .info ("Total restore number: " ++ toString retried.restoreCounter)).report
    .info ("Finish solving constraints. " ++ toString retried.conflicts.size ++ " error(s)")

/-- Solve the constraints of the graph. What could not be satisfied is left
among the conflicts, and the inferred qualifiers are in the annotations. -/
def solve (solver : Solver) : Solver :=
  (iterate step solver.rounds solver.start).finish

def drain (solver : Solver) : List Constraint × Solver :=
  (solver.worklist.toList, { solver with worklist := {} })

end InfoFlow.Solver
