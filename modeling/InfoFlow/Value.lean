import InfoFlow.QualifierSet
import InfoFlow.StaticType
import InfoFlow.Method
import InfoFlow.Text.Quoted

/-! Values of the analysed program.

A value is a leaf, which carries qualifiers of its own, or an adaptation: a
declaration observed through a context, such as a field read through a
receiver. An adaptation has no qualifiers of its own, and all that is said
about it comes from its two sides.

Each graph numbers its values from zero. Within an analysis a value stands for
its number, and values are put in order by their identifiers. -/

namespace InfoFlow

inductive ValueKind
  | variable
  | parameter
  | receiver
  | result
  | field
  | constant
  | literal
  | allocation
  | methodAdaptation
  | fieldAdaptation
deriving DecidableEq, Repr

/-- What is observed through a context: a method's parameter or result, or a
field. -/
inductive Adaptation
  | method
  | field
deriving DecidableEq, Repr

def Adaptation.kind : Adaptation → ValueKind
  | method => .methodAdaptation
  | field => .fieldAdaptation

/-- Identifiers of placeholders for call sites and invented values, through
which nothing is ever written. -/
def isSynthetic (identifier : String) : Bool :=
  "callsite-".toList.isPrefixOf identifier.toList || "fake-".toList.isPrefixOf identifier.toList

/-- A value with qualifiers of its own. `owner` is the number of the graph that
made it and `id` its number in that graph; `declared` are the qualifiers it
has until a write changes them. -/
structure Leaf where
  owner : Nat
  id : Nat
  identifier : String
  kind : ValueKind
  declared : QualifierSet
  method : Option Method
  enclosingClass : Option String
  type : Option StaticType
  name : String
deriving DecidableEq, Repr

def Leaf.isImmutable (leaf : Leaf) : Bool :=
  decide (leaf.kind = .constant) || isSynthetic leaf.identifier

/-- A program quantity: a leaf, or a declaration observed through a context. -/
inductive Value
  | leaf (leaf : Leaf)
  | adapted (adaptation : Adaptation) (owner id : Nat) (declaration context : Value)
deriving DecidableEq, Repr

namespace Value

/-! ## Attributes -/

def owner : Value → Nat
  | leaf content => content.owner
  | adapted _ owner _ _ _ => owner

def id : Value → Nat
  | leaf content => content.id
  | adapted _ _ id _ _ => id

/-- The identifier of an adaptation names its context first. -/
def identifier : Value → String
  | leaf content => content.identifier
  | adapted _ _ _ declaration context => context.identifier ++ "|>" ++ declaration.identifier

def kind : Value → ValueKind
  | leaf content => content.kind
  | adapted adaptation _ _ _ _ => adaptation.kind

def method : Value → Option Method
  | leaf content => content.method
  | adapted _ _ _ declaration context => context.method.or declaration.method

def preferredClass (first second : Option String) : Option String :=
  if first = none ∨ first = some "" then second else first

/-- The class a value lives in: that of the context, else that of the
declaration, else the one that declares the method. -/
def enclosingClass : Value → Option String
  | leaf content => content.enclosingClass
  | adapted _ _ _ declaration context =>
      (preferredClass context.enclosingClass declaration.enclosingClass).or
        ((context.method.or declaration.method).map Method.declaringClass)

def type : Value → Option StaticType
  | leaf content => content.type
  | adapted _ _ _ declaration _ => declaration.type

def name : Value → String
  | leaf content => content.name
  | adapted _ _ _ declaration _ => declaration.name

/-! ## Identity and order -/

def same (left right : Value) : Bool :=
  decide (left.id = right.id)

def precedes (left right : Value) : Bool :=
  decide (left.identifier < right.identifier)

/-! ## Tests -/

def isLeaf : Value → Bool
  | leaf _ => true
  | adapted _ _ _ _ _ => false

def isFieldAdapted : Value → Bool
  | adapted .field _ _ _ _ => true
  | _ => false

def isMethodAdapted : Value → Bool
  | adapted .method _ _ _ _ => true
  | _ => false

def isParameterOrResult (value : Value) : Bool :=
  match value.kind with
  | .parameter | .receiver | .result => true
  | _ => false

def isLocalReceiver (value : Value) : Bool :=
  decide (value.kind = .variable) && decide (value.name = "this")

def isImmutable (value : Value) : Bool :=
  decide (value.kind = .constant) || isSynthetic value.identifier

def isNull (value : Value) : Bool :=
  value.type.any StaticType.isNull

def isArray (value : Value) : Bool :=
  value.type.any StaticType.isArray

def flowsThroughCalls (value : Value) : Bool :=
  value.isParameterOrResult || value.isLocalReceiver

/-! ## Parts -/

def parts : Value → List Value
  | leaf content => [leaf content]
  | adapted adaptation owner id declaration context =>
      adapted adaptation owner id declaration context :: (context.parts ++ declaration.parts)

/-- The leaves of a value; those of a context stand before those of its
declaration. -/
def leaves : Value → List Leaf
  | leaf content => [content]
  | adapted _ _ _ declaration context => context.leaves ++ declaration.leaves

def innermostDeclaration : Value → Leaf
  | leaf content => content
  | adapted _ _ _ declaration _ => declaration.innermostDeclaration

/-- What an adaptation declares, one step down; a leaf declares itself. -/
def declaration : Value → Value
  | leaf content => leaf content
  | adapted _ _ _ declaration _ => declaration

def context : Value → Value
  | leaf content => leaf content
  | adapted _ _ _ _ context => context

theorem mem_parts_self (value : Value) : value ∈ value.parts := by
  cases value <;> simp [parts]

theorem leaf_mem_parts_iff {value : Value} {content : Leaf} :
    leaf content ∈ value.parts ↔ content ∈ value.leaves := by
  induction value with
  | leaf other => simp [parts, leaves]
  | adapted adaptation owner id declaration context onDeclaration onContext =>
      simp [parts, leaves, onDeclaration, onContext]

theorem mem_parts_trans {inner middle outer : Value} (below : inner ∈ middle.parts)
    (above : middle ∈ outer.parts) : inner ∈ outer.parts := by
  induction outer with
  | leaf content =>
      have equal : middle = leaf content := by simpa [parts] using above
      exact equal ▸ below
  | adapted adaptation owner id declaration context onDeclaration onContext =>
      simp only [parts, List.mem_cons, List.mem_append] at above
      rcases above with equal | inContext | inDeclaration
      · exact equal ▸ below
      · simp [parts, onContext inContext]
      · simp [parts, onDeclaration inDeclaration]

/-! ## Display -/

def form : Value → String
  | leaf _ => "AnnotatedValue"
  | adapted .field _ _ _ _ => "FieldAdaptValue"
  | adapted .method _ _ _ _ => "MethodAdaptValue"

def display (value : Value) : String :=
  value.form ++ "(" ++ toString value.id ++ ", " ++ Text.quoted value.identifier ++ ")"

end Value

end InfoFlow
