import InfoFlow.Annotations
import InfoFlow.StableSort

/-! Constraints between two values.

A constraint stands for its key, the relation and the numbers of its two
sides. The causes of a derived constraint, the keys of those it was inferred
from, are kept for reports and take no part in comparisons. -/

namespace InfoFlow

inductive Relation
  | unspecified
  | subtype
  | equality
  | unequality
deriving DecidableEq, Repr

namespace Relation

def rank : Relation → Nat
  | unspecified => 0
  | subtype => 1
  | equality => 2
  | unequality => 3

def symbol : Relation → String
  | unspecified => "?"
  | subtype => "<:"
  | equality => "=="
  | unequality => "!="

def isFlow : Relation → Bool
  | subtype | equality => true
  | unspecified | unequality => false

def unknown : String :=
  "Unknown constraint type <class 'qualflow.schema.Constraint'>"

end Relation

/-- What identifies a constraint. -/
structure ConstraintKey where
  relation : Relation
  left : Nat
  right : Nat
deriving DecidableEq, Repr

def ConstraintKey.text (key : ConstraintKey) : String :=
  toString key.left ++ key.relation.symbol ++ toString key.right

/-- A relation between two values. Copies that carry the same mark are copies
of one constraint, whose causes may still grow. -/
structure Constraint where
  relation : Relation
  left : Value
  right : Value
  causes : List ConstraintKey := []
  mark : Option Nat := none
deriving DecidableEq, Repr

namespace Constraint

def key (constraint : Constraint) : ConstraintKey :=
  ⟨constraint.relation, constraint.left.id, constraint.right.id⟩

def same (left right : Constraint) : Bool :=
  decide (left.key = right.key)

def addCause (constraint : Constraint) (cause : ConstraintKey) : Constraint :=
  if cause ∈ constraint.causes then constraint
  else { constraint with causes := constraint.causes ++ [cause] }

def inferred (left right : Value) (causes : List Constraint) : Constraint :=
  (causes.map key).foldl addCause { relation := .subtype, left, right }

def isDerived (constraint : Constraint) : Bool :=
  !constraint.causes.isEmpty

def isFlow (constraint : Constraint) : Bool :=
  constraint.relation.isFlow

/-- The order of constraints: by relation, then by the right sides if the left
sides are the same value, and by the left sides otherwise. -/
def precedes (first second : Constraint) : Bool :=
  if first.relation = second.relation then
    if first.left.same second.left then first.right.precedes second.right
    else first.left.precedes second.left
  else decide (first.relation.rank < second.relation.rank)

def sort (constraints : List Constraint) : List Constraint :=
  StableSort.sort precedes constraints

def describe (annotations : Annotations) (constraint : Constraint) : String :=
  annotations.describe constraint.left ++ " " ++ constraint.relation.symbol ++ " " ++
    annotations.describe constraint.right

theorem addCause_key (constraint : Constraint) (cause : ConstraintKey) :
    (constraint.addCause cause).key = constraint.key := by
  unfold addCause
  split <;> rfl

private theorem foldl_addCause_key (causes : List ConstraintKey) (constraint : Constraint) :
    (causes.foldl addCause constraint).key = constraint.key := by
  induction causes generalizing constraint with
  | nil => rfl
  | cons cause rest induction => rw [List.foldl_cons, induction, addCause_key]

@[simp] theorem inferred_key (left right : Value) (causes : List Constraint) :
    (inferred left right causes).key = ⟨.subtype, left.id, right.id⟩ :=
  foldl_addCause_key _ _

end Constraint

end InfoFlow
