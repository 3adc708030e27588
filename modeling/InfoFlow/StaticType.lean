/-! Static types of program values.

Only the outermost kind of a type and its text matter to an analysis: null can
never be written through, and an array hides its elements behind one value. -/

namespace InfoFlow

/-- A static type. An array states its element type and how many dimensions it
adds; a count that is not positive adds none. -/
inductive StaticType
  | null
  | primitive (name : String)
  | reference (name : String)
  | array (element : StaticType) (dimensions : Int)
deriving DecidableEq, Repr

namespace StaticType

inductive Kind
  | null
  | primitive
  | reference
  | array
deriving DecidableEq, Repr

def kind : StaticType → Kind
  | null => .null
  | primitive _ => .primitive
  | reference _ => .reference
  | array _ _ => .array

def text : StaticType → String
  | null => "null_type"
  | primitive name => name
  | reference name => name
  | array element dimensions =>
      element.text ++ String.join (List.replicate dimensions.toNat "[]")

/-- Types are the same if their outermost kinds and their texts agree. -/
def same (left right : StaticType) : Bool :=
  decide (left.kind = right.kind) && decide (left.text = right.text)

def isNull (type : StaticType) : Bool :=
  decide (type.kind = .null)

def isArray (type : StaticType) : Bool :=
  decide (type.kind = .array)

example : text (array (primitive "int") 2) = "int[][]" := by decide

example : same (array (array (primitive "int") 1) 2) (array (primitive "int") 3) = true := by decide

theorem same_refl (type : StaticType) : type.same type = true := by
  simp [same]

theorem same_comm (left right : StaticType) : left.same right = right.same left := by
  simp only [same, eq_comm]

theorem same_trans {left middle right : StaticType}
    (forth : left.same middle = true) (onward : middle.same right = true) :
    left.same right = true := by
  simp only [same, Bool.and_eq_true, decide_eq_true_eq] at *
  exact ⟨forth.1.trans onward.1, forth.2.trans onward.2⟩

end StaticType

end InfoFlow
