import InfoFlow.Release
import InfoFlow.Proofs.ClassHierarchy
import InfoFlow.Proofs.View
import InfoFlow.Proofs.Narrowing.Solution
import InfoFlow.Proofs.Narrowing.Removal
import InfoFlow.Proofs.Narrowing.Locality
import InfoFlow.Proofs.ConstraintSet
import InfoFlow.Proofs.ReferenceIndex
import InfoFlow.Proofs.Derivation
import InfoFlow.Proofs.ReferenceIndex.Mentions
import InfoFlow.Proofs.Solver.Changes
import InfoFlow.Proofs.Solver.Consistency
import InfoFlow.Proofs.Solver.Potential
import InfoFlow.Proofs.Solver.Termination
import InfoFlow.Proofs.Solver.Fixpoint
import InfoFlow.Proofs.Solver.Course
import InfoFlow.Proofs.Solver.Snapshots
import InfoFlow.Proofs.Solver.RepairCounts
import InfoFlow.Proofs.Solver.Frame
import InfoFlow.Proofs.Derivation.Soundness
import InfoFlow.Proofs.Solver.Soundness
import InfoFlow.Proofs.Narrowing.Shrinking
import InfoFlow.Proofs.Solver.Neutral
import InfoFlow.Proofs.Narrowing.Unequality
import InfoFlow.Proofs.Solver.Unequality
import InfoFlow.Proofs.Solver.Conflicts
import InfoFlow.Proofs.Solver.Bias
import InfoFlow.Proofs.Narrowing.Support
import InfoFlow.Proofs.Solver.Satisfiability
import InfoFlow.Proofs.Reordering
import InfoFlow.Proofs.Solver.GreatestFamily
import InfoFlow.Proofs.Derivation.Proposal
import InfoFlow.Proofs.Derivation.Closure
import InfoFlow.Proofs.Derivation.Provenance
import InfoFlow.Proofs.Solver.Repetition
import InfoFlow.Proofs.Restriction
import InfoFlow.Proofs.Derivation.Restriction
import InfoFlow.Proofs.Solver.Modularity
import InfoFlow.Proofs.Solver.Registration
import InfoFlow.Proofs.Solver.FieldAccess
import InfoFlow.Proofs.Narrowing.InPlace
import InfoFlow.Proofs.Solver.InPlace
import InfoFlow.Proofs.Solver.Provenance
import InfoFlow.Proofs.Solver.RepairTargets
import InfoFlow.Proofs.Derivation.Consequence
import InfoFlow.Proofs.Derivation.FieldRules
import InfoFlow.Proofs.Solver.Solutions
import InfoFlow.Proofs.Narrowing.Monotone
import InfoFlow.Proofs.Solver.Acceptance
import InfoFlow.Proofs.ReverseFlow
import InfoFlow.Proofs.StableSort.Insertion
import InfoFlow.Proofs.StableSort.Merge
import InfoFlow.Proofs.StableSort
import InfoFlow.Proofs.StableSort.Enumeration
import InfoFlow.Proofs.ConstraintOrder
import InfoFlow.Proofs.ValueGraph.Arena
import InfoFlow.Proofs.View.LeafSequence
import InfoFlow.Proofs.ValueGraph.ReadOnly
import InfoFlow.Proofs.ValueGraph.Ownership
import InfoFlow.Proofs.Worklist
import InfoFlow.Proofs.Diagram
import InfoFlow.Proofs.Diagram.Dot
import InfoFlow.Proofs.StaticType
