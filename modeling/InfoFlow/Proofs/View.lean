import InfoFlow.Assignment
import InfoFlow.Proofs.WellFormed

/-! What the qualifiers of a value say about those of its leaves.

Only a polymorphic declaration in a polymorphic context is polymorphic. So a
value that may be polymorphic has leaves that all may be, and it may carry
whatever any of its leaves may carry. An assignment that gives each leaf a
wanted qualifier wherever possible, and poly as the next best, gives the value
the wanted qualifier too, although leaves can occur in it more than once. -/

namespace InfoFlow

namespace Qualifier

theorem adapt_eq_poly {context declared : Qualifier} :
    context.adapt declared = poly ↔ context = poly ∧ declared = poly := by
  cases context <;> cases declared <;> decide

theorem adapt_poly (context : Qualifier) : context.adapt poly = context := rfl

theorem poly_adapt (declared : Qualifier) : poly.adapt declared = declared := by
  cases declared <;> rfl

theorem adapt_of_ne_poly {declared : Qualifier} (fixed : declared ≠ poly)
    (context : Qualifier) : context.adapt declared = declared := by
  cases declared with
  | poly => exact absurd rfl fixed
  | sensitive => rfl
  | clear => rfl

theorem adapt_self (qualifier : Qualifier) : qualifier.adapt qualifier = qualifier := by
  cases qualifier <;> rfl

end Qualifier

namespace QualifierSet

theorem exists_mem {qualifiers : QualifierSet} (inhabited : qualifiers ≠ empty) :
    ∃ qualifier, qualifier ∈ qualifiers := by
  by_contra none
  exact inhabited (ext fun qualifier =>
    ⟨fun member => absurd ⟨qualifier, member⟩ none, fun member => absurd member (not_mem_empty _)⟩)

theorem ne_empty {qualifiers : QualifierSet} {qualifier : Qualifier}
    (member : qualifier ∈ qualifiers) : qualifiers ≠ empty :=
  fun nothing => not_mem_empty _ (nothing ▸ member)

/-- A wanted member if it is one, else poly, else any member. -/
def prefer (qualifiers : QualifierSet) (wanted : Qualifier) : Qualifier :=
  if wanted ∈ qualifiers then wanted
  else if .poly ∈ qualifiers then .poly
  else if .sensitive ∈ qualifiers then .sensitive
  else .clear

theorem prefer_of_mem {qualifiers : QualifierSet} {wanted : Qualifier}
    (member : wanted ∈ qualifiers) : qualifiers.prefer wanted = wanted := by
  rw [prefer, if_pos member]

theorem prefer_mem {qualifiers : QualifierSet} {member : Qualifier}
    (inhabited : member ∈ qualifiers) (wanted : Qualifier) :
    qualifiers.prefer wanted ∈ qualifiers := by
  unfold prefer
  split
  · assumption
  · split
    · assumption
    · next noPoly =>
        split
        · assumption
        · next noSensitive =>
            cases member with
            | sensitive => exact absurd inhabited noSensitive
            | poly => exact absurd inhabited noPoly
            | clear => exact inhabited

theorem prefer_of_poly {qualifiers : QualifierSet} (polymorphic : .poly ∈ qualifiers)
    (wanted : Qualifier) :
    qualifiers.prefer wanted = wanted ∨ qualifiers.prefer wanted = .poly := by
  by_cases member : wanted ∈ qualifiers
  · exact .inl (prefer_of_mem member)
  · exact .inr (by rw [prefer, if_neg member, if_pos polymorphic])

theorem poly_mem_adapt {contexts declared : QualifierSet} :
    .poly ∈ contexts.adapt declared ↔ .poly ∈ contexts ∧ .poly ∈ declared := by
  simp only [mem_adapt, Qualifier.adapt_eq_poly]
  constructor
  · rintro ⟨_, contextMember, _, declaredMember, rfl, rfl⟩
    exact ⟨contextMember, declaredMember⟩
  · rintro ⟨contextPoly, declaredPoly⟩
    exact ⟨.poly, contextPoly, .poly, declaredPoly, rfl, rfl⟩

end QualifierSet

namespace Annotations

variable {annotations : Annotations} {value : Value}

theorem poly_mem_view_adapted {adaptation : Adaptation} {owner id : Nat}
    {declaration context : Value} :
    .poly ∈ annotations.view (.adapted adaptation owner id declaration context) ↔
      .poly ∈ annotations.view context ∧ .poly ∈ annotations.view declaration := by
  rw [view]
  exact QualifierSet.poly_mem_adapt

theorem leaf_inhabited {qualifier : Qualifier} (member : qualifier ∈ annotations.view value)
    {leaf : Leaf} (below : leaf ∈ value.leaves) : ∃ other, other ∈ annotations.get leaf := by
  induction value generalizing qualifier with
  | leaf content =>
      rw [Value.leaves, List.mem_singleton] at below
      exact ⟨qualifier, below ▸ member⟩
  | adapted adaptation owner id declaration context onDeclaration onContext =>
      rw [view, QualifierSet.mem_adapt] at member
      rcases member with ⟨outer, outerMember, declared, declaredMember, -⟩
      rcases List.mem_append.mp below with inContext | inDeclaration
      · exact onContext outerMember inContext
      · exact onDeclaration declaredMember inDeclaration

theorem mem_view_of_poly {qualifier : Qualifier} {leaf : Leaf}
    (polymorphic : .poly ∈ annotations.view value) (below : leaf ∈ value.leaves)
    (member : qualifier ∈ annotations.get leaf) : qualifier ∈ annotations.view value := by
  induction value with
  | leaf content =>
      rw [Value.leaves, List.mem_singleton] at below
      exact below ▸ member
  | adapted adaptation owner id declaration context onDeclaration onContext =>
      have both := poly_mem_view_adapted.mp polymorphic
      rw [view, QualifierSet.mem_adapt]
      rcases List.mem_append.mp below with inContext | inDeclaration
      · exact ⟨qualifier, onContext both.1 inContext, .poly, both.2, rfl⟩
      · exact ⟨.poly, both.1, qualifier, onDeclaration both.2 inDeclaration,
          Qualifier.poly_adapt qualifier⟩

end Annotations

namespace Assignment

def preferring (annotations : Annotations) (leaves : List Leaf) (wanted : Qualifier) :
    Assignment := fun place =>
  match leaves.find? fun leaf => decide (Annotations.slot leaf = place) with
  | none => wanted
  | some leaf => (annotations.get leaf).prefer wanted

variable {annotations : Annotations} {leaves : List Leaf} {value : Value} {wanted : Qualifier}

theorem preferring_slot (separate : SeparatePlaces leaves) {leaf : Leaf}
    (member : leaf ∈ leaves) :
    preferring annotations leaves wanted (Annotations.slot leaf) =
      (annotations.get leaf).prefer wanted := by
  unfold preferring
  cases search : leaves.find? fun other =>
      decide (Annotations.slot other = Annotations.slot leaf) with
  | none =>
      have missing := List.find?_eq_none.mp search leaf member
      simp at missing
  | some found =>
      have samePlace : Annotations.slot found = Annotations.slot leaf := by
        simpa using List.find?_some search
      have equal : found = leaf :=
        separate found leaf (List.mem_of_find?_eq_some search) member samePlace
      simp [equal]

theorem preferring_within (separate : SeparatePlaces leaves)
    (inhabited : ∀ leaf, leaf ∈ leaves → ∃ qualifier, qualifier ∈ annotations.get leaf) :
    (preferring annotations leaves wanted).Within annotations leaves := by
  intro leaf member
  rcases inhabited leaf member with ⟨qualifier, qualifierMember⟩
  rw [preferring_slot separate member]
  exact QualifierSet.prefer_mem qualifierMember wanted

theorem preferring_within_both {first second : Value} {one other : Qualifier}
    (separate : SeparatePlaces (first.leaves ++ second.leaves))
    (firstMember : one ∈ annotations.view first) (secondMember : other ∈ annotations.view second)
    (wanted : Qualifier) :
    (preferring annotations (first.leaves ++ second.leaves) wanted).Within annotations
      (first.leaves ++ second.leaves) := by
  refine preferring_within separate fun leaf member => ?_
  rcases List.mem_append.mp member with below | below
  · exact Annotations.leaf_inhabited firstMember below
  · exact Annotations.leaf_inhabited secondMember below

theorem eval_preferring_of_poly (separate : SeparatePlaces leaves)
    (included : value.leaves ⊆ leaves) (polymorphic : .poly ∈ annotations.view value) :
    (preferring annotations leaves wanted).eval value = wanted ∨
      (preferring annotations leaves wanted).eval value = .poly := by
  induction value with
  | leaf content =>
      rw [eval, preferring_slot separate (included (by simp [Value.leaves]))]
      exact QualifierSet.prefer_of_poly polymorphic wanted
  | adapted adaptation owner id declaration context onDeclaration onContext =>
      have both := Annotations.poly_mem_view_adapted.mp polymorphic
      have declared := onDeclaration
        (fun leaf member => included (List.mem_append_right _ member)) both.2
      have outer := onContext
        (fun leaf member => included (List.mem_append_left _ member)) both.1
      rw [eval]
      rcases declared with declared | declared <;> rcases outer with outer | outer <;>
        rw [declared, outer]
      · exact .inl (Qualifier.adapt_self wanted)
      · exact .inl (Qualifier.poly_adapt wanted)
      · exact .inl rfl
      · exact .inr rfl

theorem eval_preferring (separate : SeparatePlaces leaves) (included : value.leaves ⊆ leaves)
    (member : wanted ∈ annotations.view value) :
    (preferring annotations leaves wanted).eval value = wanted := by
  induction value with
  | leaf content =>
      rw [eval, preferring_slot separate (included (by simp [Value.leaves]))]
      exact QualifierSet.prefer_of_mem member
  | adapted adaptation owner id declaration context onDeclaration onContext =>
      have declarationIncluded : declaration.leaves ⊆ leaves :=
        fun leaf below => included (List.mem_append_right _ below)
      have contextIncluded : context.leaves ⊆ leaves :=
        fun leaf below => included (List.mem_append_left _ below)
      rw [Annotations.view, QualifierSet.mem_adapt] at member
      rcases member with ⟨outer, outerMember, declared, declaredMember, equal⟩
      rw [eval]
      by_cases polymorphic : declared = .poly
      · rw [polymorphic, Qualifier.adapt_poly] at equal
        rw [polymorphic] at declaredMember
        rw [onContext contextIncluded (equal ▸ outerMember)]
        rcases eval_preferring_of_poly separate declarationIncluded declaredMember with
          result | result <;> rw [result]
        · exact Qualifier.adapt_self wanted
        · rfl
      · rw [Qualifier.adapt_of_ne_poly polymorphic] at equal
        rw [onDeclaration declarationIncluded (equal ▸ declaredMember)]
        exact Qualifier.adapt_of_ne_poly (equal ▸ polymorphic) _

end Assignment

end InfoFlow
