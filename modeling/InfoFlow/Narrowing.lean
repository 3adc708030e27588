import InfoFlow.Constraint

/-! Narrowing: applying one constraint to the qualifiers of its sides.

A constraint removes from each side the qualifiers that take part in no
solution of it. What remains for an adaptation is turned into writes of its
declaration and its context. Some leaves may be frozen; a write of a frozen
leaf is left out. The result lists the writes that were made, so that whoever
asked for the narrowing can react to each of them. -/

namespace InfoFlow

structure Write where
  leaf : Leaf
  before : QualifierSet
  after : QualifierSet
deriving DecidableEq, Repr

/-- The annotations after some writes, and the writes in order. -/
structure Narrowing where
  annotations : Annotations
  writes : List Write := []

/-- Why a constraint cannot be applied. The sets are the qualifiers of its
sides at that time. -/
inductive Failure
  | unspecified
  | unsatisfiable (constraint : Constraint) (left right : QualifierSet)
deriving DecidableEq, Repr

namespace Failure

def unsatisfiableText (constraint : Constraint) (left right : QualifierSet) : String :=
  "Unsatisfiable constraint: " ++ constraint.left.identifier ++ left.braced ++ " " ++
    constraint.relation.symbol ++ " " ++ constraint.right.identifier ++ right.braced

def withReason (complaint reason : String) : String :=
  if reason = "" then complaint else complaint ++ " (" ++ reason ++ ")"

def message : Failure → String
  | unspecified => Relation.unknown
  | unsatisfiable constraint left right =>
      withReason (unsatisfiableText constraint left right)
        (left.literal ++ " vs. " ++ right.literal)

end Failure

namespace Relation

/-- What a relation leaves of the qualifiers of its sides. The sides of a
subtype keep what has a partner, the right side looking at what the left one
kept; the sides of an equality keep what they share; a side of an unequality
loses the only qualifier of the other. -/
def narrow (relation : Relation) (left right : QualifierSet) :
    Option (QualifierSet × QualifierSet) :=
  match relation with
  | unspecified => none
  | subtype =>
      let newLeft := left.filter fun sub => right.any fun sup => sub.isSubtype sup
      let newRight := right.filter fun sup => newLeft.any fun sub => sub.isSubtype sup
      some (newLeft, newRight)
  | equality => some (left.inter right, left.inter right)
  | unequality =>
      some (if right.size = 1 then left.diff right else left,
        if left.size = 1 then right.diff left else right)

end Relation

namespace Narrowing

def assign (frozen : Leaf → Bool) (narrowing : Narrowing) (leaf : Leaf)
    (qualifiers : QualifierSet) : Narrowing :=
  let before := narrowing.annotations.get leaf
  if before = qualifiers || frozen leaf then narrowing
  else
    { annotations := narrowing.annotations.set leaf qualifiers
      writes := narrowing.writes ++ [⟨leaf, before, qualifiers⟩] }

def keptDeclared (contexts declared allowed : QualifierSet) : QualifierSet :=
  declared.filter fun declaration =>
    contexts.any fun context => allowed.contains (context.adapt declaration)

/-- The qualifiers of the context that still adapt some declared one to an
allowed one. -/
def keptContexts (contexts declared allowed : QualifierSet) : QualifierSet :=
  contexts.filter fun context =>
    declared.any fun declaration => allowed.contains (context.adapt declaration)

/-- Give a value the allowed qualifiers. A leaf gets exactly these. Both sides
of an adaptation are looked at first; then its declaration is written, if it
has to change, and then its context. -/
def write (frozen : Leaf → Bool) (narrowing : Narrowing) (value : Value)
    (allowed : QualifierSet) : Narrowing :=
  match value with
  | .leaf leaf => narrowing.assign frozen leaf allowed
  | .adapted _ _ _ declaration context =>
      let contexts := narrowing.annotations.view context
      let declared := narrowing.annotations.view declaration
      let newDeclared := keptDeclared contexts declared allowed
      let newContexts := keptContexts contexts newDeclared allowed
      let declarationWritten :=
        if newDeclared = declared then narrowing
        else write frozen narrowing declaration newDeclared
      if newContexts = contexts then declarationWritten
      else write frozen declarationWritten context newContexts

def changed (narrowing : Narrowing) : Bool :=
  !narrowing.writes.isEmpty

end Narrowing

namespace Annotations

/-- Give a value the allowed qualifiers, as far as its parts permit. -/
def write (annotations : Annotations) (frozen : Leaf → Bool) (value : Value)
    (allowed : QualifierSet) : Narrowing :=
  Narrowing.write frozen { annotations } value allowed

/-- Apply a constraint. It fails without a write if one side would be left
without qualifiers. The left side is written first, and a side that keeps its
qualifiers is not written at all. -/
def apply (annotations : Annotations) (frozen : Leaf → Bool) (constraint : Constraint) :
    Except Failure Narrowing :=
  let left := annotations.view constraint.left
  let right := annotations.view constraint.right
  match constraint.relation.narrow left right with
  | none => .error .unspecified
  | some (newLeft, newRight) =>
      if newLeft.isEmpty || newRight.isEmpty then
        .error (.unsatisfiable constraint left right)
      else
        let start : Narrowing := { annotations }
        let leftWritten :=
          if newLeft = left then start else start.write frozen constraint.left newLeft
        .ok <|
          if newRight = right then leftWritten
          else leftWritten.write frozen constraint.right newRight

end Annotations

end InfoFlow
