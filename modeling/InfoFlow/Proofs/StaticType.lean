import InfoFlow.StaticType
import Mathlib.Tactic.WLOG

/-! Sameness of array types.

Two types are compared by their outermost kinds and their texts, so what an
array hides is compared by text alone. An array over an array therefore is the
same as one array with all their dimensions, and arrays may agree although their
elements are of different kinds. They do not where names tell kinds apart: there
a text can be read back, and sameness is equality up to the nesting of arrays. -/

namespace InfoFlow
namespace StaticType

/-! Texts of arrays. -/

def brackets (count : Nat) : String :=
  String.join (List.replicate count "[]")

theorem brackets_zero : brackets 0 = "" := rfl

theorem brackets_add (inner outer : Nat) :
    brackets (inner + outer) = brackets inner ++ brackets outer := by
  rw [brackets, ← List.replicate_append_replicate, String.join_append]
  rfl

theorem text_array (element : StaticType) (dimensions : Int) :
    (array element dimensions).text =
      element.text ++ brackets dimensions.toNat := rfl

theorem same_iff (left right : StaticType) :
    left.same right = true ↔ left.kind = right.kind ∧ left.text = right.text := by
  simp only [same, Bool.and_eq_true, decide_eq_true_eq]

theorem same_array_iff_text (left right : StaticType) (dimensions : Int) :
    (array left dimensions).same (array right dimensions) = true ↔
      left.text = right.text := by
  rw [same_iff, text_array, text_array, String.append_left_inj]
  exact and_iff_right rfl

theorem text_array_array (element : StaticType) {inner outer : Int}
    (innerCounts : 0 ≤ inner) (outerCounts : 0 ≤ outer) :
    (array (array element inner) outer).text =
      (array element (inner + outer)).text := by
  rw [text_array, text_array, text_array, Int.toNat_add innerCounts outerCounts,
    brackets_add, String.append_assoc]

/-! Names that tell kinds apart. -/

/-- A way to tell the kind of a type from its text. The text of null and the
brackets of an array are not free to be names. -/
structure Naming where
  kindOf : String → Kind
  kindOf_null : kindOf "null_type" = .null
  kindOf_brackets : ∀ stem, kindOf (stem ++ "[]") = .array

def Naming.ofPrimitives (primitives : List String) : Naming where
  kindOf text :=
    if "[]".toList <:+ text.toList then .array
    else if text = "null_type" then .null
    else if text ∈ primitives then .primitive
    else .reference
  kindOf_null := by
    rw [if_neg (by decide), if_pos rfl]
  kindOf_brackets stem := by
    rw [if_pos]
    rw [String.toList_append]
    exact List.suffix_append _ _

/-- A type is written in a naming when its names are read as the kinds they
stand for, and each of its arrays adds a dimension. -/
def WrittenIn (naming : Naming) : StaticType → Prop
  | null => True
  | primitive name => naming.kindOf name = .primitive
  | reference name => naming.kindOf name = .reference
  | array element dimensions => element.WrittenIn naming ∧ 1 ≤ dimensions

instance decidableWrittenIn (naming : Naming) :
    (type : StaticType) → Decidable (type.WrittenIn naming)
  | null => inferInstanceAs (Decidable True)
  | primitive name => inferInstanceAs (Decidable (naming.kindOf name = .primitive))
  | reference name => inferInstanceAs (Decidable (naming.kindOf name = .reference))
  | array element dimensions =>
      have := decidableWrittenIn naming element
      inferInstanceAs (Decidable (element.WrittenIn naming ∧ 1 ≤ dimensions))

theorem Naming.kindOf_array (naming : Naming) (element : String) {count : Nat}
    (positive : 1 ≤ count) :
    naming.kindOf (element ++ brackets count) = .array := by
  obtain ⟨fewer, rfl⟩ := Nat.exists_eq_add_of_le' positive
  rw [brackets_add, ← String.append_assoc]
  exact naming.kindOf_brackets _

theorem WrittenIn.kindOf_text {naming : Naming} {type : StaticType}
    (written : type.WrittenIn naming) : naming.kindOf type.text = type.kind := by
  cases type with
  | null => exact naming.kindOf_null
  | primitive name => exact written
  | reference name => exact written
  | array element dimensions =>
      rw [text_array]
      exact naming.kindOf_array element.text (Int.pos_iff_toNat_pos.mp written.2)

theorem same_iff_text {naming : Naming} {left right : StaticType}
    (leftWritten : left.WrittenIn naming) (rightWritten : right.WrittenIn naming) :
    left.same right = true ↔ left.text = right.text := by
  rw [same_iff]
  refine and_iff_right_of_imp fun texts => ?_
  rw [← leftWritten.kindOf_text, ← rightWritten.kindOf_text, texts]

/-! Types up to the nesting of arrays. -/

def innermost : StaticType → StaticType
  | array element _ => element.innermost
  | null => null
  | primitive name => primitive name
  | reference name => reference name

def rank : StaticType → Nat
  | array element dimensions => element.rank + dimensions.toNat
  | null | primitive _ | reference _ => 0

theorem text_eq_innermost (type : StaticType) :
    type.text = type.innermost.text ++ brackets type.rank := by
  induction type with
  | null | primitive _ | reference _ => exact String.append_empty.symm
  | array element dimensions hypothesis =>
      rw [text_array, innermost, rank, brackets_add, ← String.append_assoc, ← hypothesis]

theorem kind_innermost_ne_array (type : StaticType) : type.innermost.kind ≠ .array := by
  induction type with
  | null | primitive _ | reference _ => exact nofun
  | array _ _ hypothesis => exact hypothesis

theorem WrittenIn.innermost {naming : Naming} {type : StaticType}
    (written : type.WrittenIn naming) : type.innermost.WrittenIn naming := by
  induction type with
  | null | primitive _ | reference _ => exact written
  | array _ _ hypothesis => exact hypothesis written.1

theorem eq_of_kind_of_text {left right : StaticType} (plain : left.kind ≠ .array)
    (kinds : left.kind = right.kind) (texts : left.text = right.text) :
    left = right := by
  cases left <;> cases right <;> simp_all [kind, text]

/-- Brackets behind texts that are not read as arrays can be counted. -/
theorem Naming.append_brackets_inj (naming : Naming) {left right : String}
    (leftPlain : naming.kindOf left ≠ .array) (rightPlain : naming.kindOf right ≠ .array)
    {fewer more : Nat}
    (texts : left ++ brackets fewer = right ++ brackets more) :
    left = right ∧ fewer = more := by
  wlog ordered : fewer ≤ more generalizing left right fewer more
  · exact (this rightPlain leftPlain texts.symm (by omega)).imp Eq.symm Eq.symm
  obtain ⟨extra, rfl⟩ := Nat.exists_eq_add_of_le' ordered
  rw [brackets_add, ← String.append_assoc, String.append_left_inj] at texts
  rcases Nat.eq_zero_or_pos extra with none | positive
  · subst none
    rw [brackets_zero, String.append_empty] at texts
    exact ⟨texts, (Nat.zero_add fewer).symm⟩
  · rw [texts] at leftPlain
    exact absurd (naming.kindOf_array right positive) leftPlain

/-- Types written in one naming are the same exactly if they agree up to the
nesting of their arrays. -/
theorem same_iff_innermost_rank {naming : Naming} {left right : StaticType}
    (leftWritten : left.WrittenIn naming) (rightWritten : right.WrittenIn naming) :
    left.same right = true ↔
      left.innermost = right.innermost ∧ left.rank = right.rank := by
  rw [same_iff_text leftWritten rightWritten, text_eq_innermost left, text_eq_innermost right]
  constructor
  · intro texts
    have leftKind := leftWritten.innermost.kindOf_text
    have rightKind := rightWritten.innermost.kindOf_text
    obtain ⟨plain, ranks⟩ := naming.append_brackets_inj
      (leftKind ▸ kind_innermost_ne_array left)
      (rightKind ▸ kind_innermost_ne_array right) texts
    have kinds : left.innermost.kind = right.innermost.kind := by
      rw [← leftKind, ← rightKind, plain]
    exact ⟨eq_of_kind_of_text (kind_innermost_ne_array left) kinds plain, ranks⟩
  · rintro ⟨types, ranks⟩
    rw [types, ranks]

/-! Sameness of arrays. -/

/-- Arrays with as many dimensions are the same exactly if their elements are, or
are types of different kinds that are written alike, which no naming allows.
Dimensions may be split between nested arrays. -/
theorem same_array_iff :
    (∀ (left right : StaticType) (dimensions : Int),
      (array left dimensions).same (array right dimensions) = true ↔
        left.same right = true ∨ (left.kind ≠ right.kind ∧ left.text = right.text)) ∧
    (∀ (naming : Naming) (left right : StaticType) (dimensions : Int),
      left.WrittenIn naming → right.WrittenIn naming →
        ((array left dimensions).same (array right dimensions) = true ↔
          left.same right = true)) ∧
    (∀ (element : StaticType) (inner outer : Int), 0 ≤ inner → 0 ≤ outer →
      (array (array element inner) outer).same (array element (inner + outer)) = true) := by
  refine ⟨?_, ?_, ?_⟩
  · intro left right dimensions
    rw [same_array_iff_text, same_iff]
    by_cases kinds : left.kind = right.kind <;> simp [kinds]
  · intro naming left right dimensions leftWritten rightWritten
    rw [same_array_iff_text, same_iff_text leftWritten rightWritten]
  · intro element inner outer innerCounts outerCounts
    rw [same_iff]
    exact ⟨rfl, text_array_array element innerCounts outerCounts⟩

/-- A primitive type and a reference type of one name differ, their arrays do
not. -/
theorem same_array_intPrimitive_intReference :
    (array (primitive "int") 1).same (array (reference "int") 1) = true ∧
      (primitive "int").same (reference "int") = false := by
  decide

theorem same_array_iff_intMatrix :
    (array (array (primitive "int") 1) 1).WrittenIn (.ofPrimitives ["int"]) ∧
      (reference "A").WrittenIn (.ofPrimitives ["int"]) ∧
      (array (array (array (primitive "int") 1) 1) 2).same (array (reference "A") 2) = false ∧
      (array (array (primitive "int") 2) 3).same (array (primitive "int") 5) = true := by
  have matrix : (array (array (primitive "int") 1) 1).WrittenIn (.ofPrimitives ["int"]) := by
    decide
  have object : (reference "A").WrittenIn (.ofPrimitives ["int"]) := by decide
  refine ⟨matrix, object, ?_, same_array_iff.2.2 (primitive "int") 2 3 (by decide) (by decide)⟩
  rw [Bool.eq_false_iff, Ne, same_array_iff.2.1 _ _ _ 2 matrix object]
  decide

end StaticType
end InfoFlow
