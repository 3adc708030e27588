import InfoFlow.Assignment
import InfoFlow.Diagram.Dot
import InfoFlow.Solver.Run

/-! The analysis as it is released.

A program is a `ValueGraph`: its values, each with the qualifiers it may have, and
the constraints between them. Leaves are values of their own, adaptations show a
declaration through a context and have no qualifiers but those of what they are
made of. What the qualifiers are at some time is said by `Annotations`, and one
qualifier for each leaf is an `Assignment`.

`Narrowing` applies one constraint and takes away what no solution can have.
`Derivation` finds the flows that follow from a flow, with the help of a
`ReferenceIndex` that tells which constraints mention a value. A `Solver` applies
constraints from its `Worklist` until none waits, repairs what fails if its
`RepairPolicy` favours a side, and reports what cannot be repaired. Constraints can
be drawn as a `Diagram` and reports are written to a `Log`.

What is proved of all this stands under `Proofs`, in modules named for what they are
about. -/

namespace InfoFlow.Release

def name : String := "qualflow"

def version : String := "0.3.0"

end InfoFlow.Release
