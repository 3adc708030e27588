import InfoFlow.FiniteMap
import InfoFlow.Value

/-! The qualifiers that values currently carry.

Annotations record what was written to leaves; a leaf that was never written
carries what it declares. An adaptation is a view: its qualifiers are those of
its declaration, adapted by those of its context. -/

namespace InfoFlow

/-- The writes that leaves have received, by graph and number. -/
structure Annotations where
  written : FiniteMap (Nat × Nat) QualifierSet := {}

namespace Annotations

def slot (leaf : Leaf) : Nat × Nat := (leaf.owner, leaf.id)

def get (annotations : Annotations) (leaf : Leaf) : QualifierSet :=
  (annotations.written.get? (slot leaf)).getD leaf.declared

def set (annotations : Annotations) (leaf : Leaf) (qualifiers : QualifierSet) : Annotations :=
  ⟨annotations.written.set (slot leaf) qualifiers⟩

def view (annotations : Annotations) : Value → QualifierSet
  | .leaf content => annotations.get content
  | .adapted _ _ _ declaration context =>
      (annotations.view context).adapt (annotations.view declaration)

@[simp] theorem set_same (annotations : Annotations) (leaf : Leaf) (qualifiers : QualifierSet) :
    (annotations.set leaf qualifiers).get leaf = qualifiers := by
  simp [get, set]

theorem set_other (annotations : Annotations) {leaf other : Leaf}
    (different : slot other ≠ slot leaf) (qualifiers : QualifierSet) :
    (annotations.set leaf qualifiers).get other = annotations.get other := by
  simp [get, set, FiniteMap.set_other _ different]

theorem view_eq_of_leaves {before after : Annotations} {value : Value}
    (equal : ∀ leaf, leaf ∈ value.leaves → before.get leaf = after.get leaf) :
    before.view value = after.view value := by
  induction value with
  | leaf content => exact equal content (by simp [Value.leaves])
  | adapted adaptation owner id declaration context onDeclaration onContext =>
      simp only [view]
      rw [onDeclaration fun leaf member => equal leaf (by simp [Value.leaves, member]),
        onContext fun leaf member => equal leaf (by simp [Value.leaves, member])]

/-- Only a leaf can be assigned; the qualifiers of an adaptation follow from
its parts. -/
def assign? (annotations : Annotations) (value : Value) (qualifiers : QualifierSet) :
    Option Annotations :=
  match value with
  | .leaf content => some (annotations.set content qualifiers)
  | .adapted _ _ _ _ _ => none

def refusal (value : Value) : String :=
  value.display ++ " is adapted; write to its declaration or context instead"

def describe (annotations : Annotations) (value : Value) : String :=
  value.identifier ++ (annotations.view value).braced

end Annotations

end InfoFlow
