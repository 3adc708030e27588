/-! The qualifiers of the information-flow lattice.

Clear data may be stored wherever sensitive data is allowed, and polymorphic
data stands between the two: clear <: poly <: sensitive. -/

namespace InfoFlow

/-- What is known about the confidentiality of a value. A `poly` declaration
takes the qualifier of the context it is observed through. -/
inductive Qualifier
  | sensitive
  | poly
  | clear
deriving DecidableEq, Repr

namespace Qualifier

def rank : Qualifier → Nat
  | clear => 0
  | poly => 1
  | sensitive => 2

def isSubtype (sub sup : Qualifier) : Bool :=
  decide (sub.rank ≤ sup.rank)

def top : Qualifier := sensitive

def bottom : Qualifier := clear

def adapt (context declared : Qualifier) : Qualifier :=
  match declared with
  | poly => context
  | fixed => fixed

def word : Qualifier → String
  | sensitive => "sensitive"
  | poly => "poly"
  | clear => "clear"

def ofWord? (word : String) : Option Qualifier :=
  if word = "sensitive" then some sensitive
  else if word = "poly" then some poly
  else if word = "clear" then some clear
  else none

def text : Qualifier → String
  | sensitive => "@Sensitive"
  | poly => "@Poly"
  | clear => "@Clear"

theorem forall_iff (statement : Qualifier → Prop) :
    (∀ qualifier, statement qualifier) ↔
      statement sensitive ∧ statement poly ∧ statement clear :=
  ⟨fun every => ⟨every sensitive, every poly, every clear⟩, fun three qualifier =>
    match qualifier with
    | sensitive => three.1
    | poly => three.2.1
    | clear => three.2.2⟩

theorem isSubtype_refl (qualifier : Qualifier) : qualifier.isSubtype qualifier = true := by
  cases qualifier <;> rfl

theorem isSubtype_trans {low middle high : Qualifier}
    (lower : low.isSubtype middle = true) (upper : middle.isSubtype high = true) :
    low.isSubtype high = true := by
  simp only [isSubtype, decide_eq_true_eq] at *
  omega

theorem isSubtype_antisymm {left right : Qualifier}
    (forth : left.isSubtype right = true) (back : right.isSubtype left = true) :
    left = right := by
  revert forth back
  cases left <;> cases right <;> decide

theorem isSubtype_top (qualifier : Qualifier) : qualifier.isSubtype top = true := by
  cases qualifier <;> rfl

theorem bottom_isSubtype (qualifier : Qualifier) : bottom.isSubtype qualifier = true := by
  cases qualifier <;> rfl

/-- Adaptation is associative, so only the order of the viewpoints matters. -/
theorem adapt_adapt (outer context declared : Qualifier) :
    adapt outer (adapt context declared) = adapt (adapt outer context) declared := by
  cases declared <;> rfl

@[simp] theorem ofWord?_word (qualifier : Qualifier) : ofWord? qualifier.word = some qualifier := by
  cases qualifier <;> decide

end Qualifier

end InfoFlow
