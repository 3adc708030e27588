import InfoFlow.Qualifier

/-! Sets of qualifiers: what a value may still turn out to be.

A set is the table of its three members, so equality is decidable, two sets
with the same members are equal, and a law about sets can be checked on all of
them. -/

namespace InfoFlow

structure QualifierSet where
  sensitive : Bool
  poly : Bool
  clear : Bool
deriving DecidableEq, Repr

namespace QualifierSet

def contains (qualifiers : QualifierSet) : Qualifier → Bool
  | .sensitive => qualifiers.sensitive
  | .poly => qualifiers.poly
  | .clear => qualifiers.clear

instance : Membership Qualifier QualifierSet where
  mem qualifiers qualifier := qualifiers.contains qualifier = true

instance (qualifier : Qualifier) (qualifiers : QualifierSet) :
    Decidable (qualifier ∈ qualifiers) :=
  inferInstanceAs (Decidable (qualifiers.contains qualifier = true))

def ofPredicate (keep : Qualifier → Bool) : QualifierSet :=
  ⟨keep .sensitive, keep .poly, keep .clear⟩

def empty : QualifierSet := ⟨false, false, false⟩

def all : QualifierSet := ⟨true, true, true⟩

def only (qualifier : Qualifier) : QualifierSet :=
  ofPredicate fun other => decide (other = qualifier)

def ofList (members : List Qualifier) : QualifierSet :=
  ofPredicate fun qualifier => decide (qualifier ∈ members)

def toList (qualifiers : QualifierSet) : List Qualifier :=
  [.sensitive, .poly, .clear].filter qualifiers.contains

def size (qualifiers : QualifierSet) : Nat :=
  qualifiers.toList.length

def isEmpty (qualifiers : QualifierSet) : Bool :=
  decide (qualifiers = empty)

def any (qualifiers : QualifierSet) (test : Qualifier → Bool) : Bool :=
  (qualifiers.sensitive && test .sensitive) || (qualifiers.poly && test .poly) ||
    (qualifiers.clear && test .clear)

def filter (qualifiers : QualifierSet) (keep : Qualifier → Bool) : QualifierSet :=
  ofPredicate fun qualifier => qualifiers.contains qualifier && keep qualifier

def inter (left right : QualifierSet) : QualifierSet :=
  left.filter right.contains

def diff (left right : QualifierSet) : QualifierSet :=
  left.filter fun qualifier => !right.contains qualifier

def Subset (left right : QualifierSet) : Prop :=
  ∀ qualifier, qualifier ∈ left → qualifier ∈ right

instance : HasSubset QualifierSet := ⟨Subset⟩

instance (left right : QualifierSet) : Decidable (left ⊆ right) :=
  decidable_of_iff
    ((.sensitive ∈ left → .sensitive ∈ right) ∧ (.poly ∈ left → .poly ∈ right) ∧
      (.clear ∈ left → .clear ∈ right))
    (Qualifier.forall_iff fun qualifier => qualifier ∈ left → qualifier ∈ right).symm

def adapt (contexts declared : QualifierSet) : QualifierSet :=
  ofPredicate fun qualifier =>
    contexts.any fun context =>
      declared.any fun declaration => decide (context.adapt declaration = qualifier)

/-! ## Laws -/

theorem ext {left right : QualifierSet}
    (same : ∀ qualifier, qualifier ∈ left ↔ qualifier ∈ right) : left = right := by
  cases left
  cases right
  simp only [mk.injEq]
  exact ⟨Bool.eq_iff_iff.mpr (same .sensitive), Bool.eq_iff_iff.mpr (same .poly),
    Bool.eq_iff_iff.mpr (same .clear)⟩

@[simp] theorem mem_ofPredicate {keep : Qualifier → Bool} {qualifier : Qualifier} :
    qualifier ∈ ofPredicate keep ↔ keep qualifier = true := by
  cases qualifier <;> rfl

@[simp] theorem not_mem_empty (qualifier : Qualifier) : ¬ qualifier ∈ empty := by
  cases qualifier <;> exact Bool.noConfusion

@[simp] theorem mem_all (qualifier : Qualifier) : qualifier ∈ all := by
  cases qualifier <;> rfl

@[simp] theorem mem_only {member qualifier : Qualifier} :
    member ∈ only qualifier ↔ member = qualifier := by
  simp [only]

@[simp] theorem mem_ofList {members : List Qualifier} {qualifier : Qualifier} :
    qualifier ∈ ofList members ↔ qualifier ∈ members := by
  simp [ofList]

@[simp] theorem any_eq_true {qualifiers : QualifierSet} {test : Qualifier → Bool} :
    qualifiers.any test = true ↔ ∃ qualifier, qualifier ∈ qualifiers ∧ test qualifier = true := by
  constructor
  · intro holds
    simp only [any, Bool.or_eq_true, Bool.and_eq_true] at holds
    rcases holds with (holds | holds) | holds
    · exact ⟨.sensitive, holds⟩
    · exact ⟨.poly, holds⟩
    · exact ⟨.clear, holds⟩
  · rintro ⟨qualifier, member, holds⟩
    simp only [any, Bool.or_eq_true, Bool.and_eq_true]
    cases qualifier with
    | sensitive => exact .inl (.inl ⟨member, holds⟩)
    | poly => exact .inl (.inr ⟨member, holds⟩)
    | clear => exact .inr ⟨member, holds⟩

@[simp] theorem mem_filter {qualifiers : QualifierSet} {keep : Qualifier → Bool}
    {qualifier : Qualifier} :
    qualifier ∈ qualifiers.filter keep ↔ qualifier ∈ qualifiers ∧ keep qualifier = true := by
  rw [filter, mem_ofPredicate, Bool.and_eq_true]
  exact Iff.rfl

@[simp] theorem mem_inter {left right : QualifierSet} {qualifier : Qualifier} :
    qualifier ∈ left.inter right ↔ qualifier ∈ left ∧ qualifier ∈ right := by
  rw [inter, mem_filter]
  exact Iff.rfl

@[simp] theorem mem_diff {left right : QualifierSet} {qualifier : Qualifier} :
    qualifier ∈ left.diff right ↔ qualifier ∈ left ∧ ¬ qualifier ∈ right := by
  rw [diff, mem_filter, Bool.not_eq_true', ← Bool.not_eq_true]
  exact Iff.rfl

@[simp] theorem mem_adapt {contexts declared : QualifierSet} {qualifier : Qualifier} :
    qualifier ∈ contexts.adapt declared ↔
      ∃ context, context ∈ contexts ∧ ∃ declaration, declaration ∈ declared ∧
        context.adapt declaration = qualifier := by
  simp [adapt]

theorem adapt_eq_empty {contexts declared : QualifierSet} :
    contexts.adapt declared = empty ↔ contexts = empty ∨ declared = empty := by
  rcases contexts with ⟨_ | _, _ | _, _ | _⟩ <;>
    rcases declared with ⟨_ | _, _ | _, _ | _⟩ <;> decide

/-! ## Packed form

A set as a small number: one bit for each qualifier. -/

def mask : Qualifier → Nat
  | .sensitive => 1
  | .poly => 2
  | .clear => 4

def toBits (qualifiers : QualifierSet) : Nat :=
  (qualifiers.toList.map mask).foldr Nat.add 0

/-- The qualifiers whose bit is set in a number. Only the three low bits
count, and a negative number has the bits of its two's complement. -/
def ofBits (bits : Int) : QualifierSet :=
  let low := (bits % 8).toNat
  ofPredicate fun qualifier => decide (low / mask qualifier % 2 = 1)

example : ofBits (-1) = all := rfl

example : ofBits 12 = only .clear := rfl

@[simp] theorem ofBits_toBits (qualifiers : QualifierSet) :
    ofBits qualifiers.toBits = qualifiers := by
  rcases qualifiers with ⟨_ | _, _ | _, _ | _⟩ <;> rfl

/-! ## Text -/

def words (qualifiers : QualifierSet) : List String :=
  ([.clear, .poly, .sensitive].filter qualifiers.contains).map Qualifier.text

def braced (qualifiers : QualifierSet) : String :=
  "\x7b" ++ String.intercalate " " qualifiers.words ++ "\x7d"

def literal (qualifiers : QualifierSet) : String :=
  if qualifiers.isEmpty then "frozenset()"
  else "frozenset(\x7b" ++ String.intercalate ", " qualifiers.words ++ "\x7d)"

example : braced (ofList [.sensitive, .clear]) = "\x7b@Clear @Sensitive\x7d" := by decide

example : literal empty = "frozenset()" := by decide

end QualifierSet

end InfoFlow
