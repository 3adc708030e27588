import InfoFlow.Constraint

/-! Sets of constraints in the order in which they were first added.

Of two constraints with the same key a set keeps the one it met first, with
its causes. -/

namespace InfoFlow

structure ConstraintSet where
  toList : List Constraint := []

namespace ConstraintSet

def keys (constraints : ConstraintSet) : List ConstraintKey :=
  constraints.toList.map Constraint.key

def contains (constraints : ConstraintSet) (constraint : Constraint) : Bool :=
  decide (constraint.key ∈ constraints.keys)

def size (constraints : ConstraintSet) : Nat :=
  constraints.toList.length

def add (constraints : ConstraintSet) (constraint : Constraint) : ConstraintSet :=
  if constraints.contains constraint then constraints
  else ⟨constraints.toList ++ [constraint]⟩

def addAll (constraints : ConstraintSet) (added : List Constraint) : ConstraintSet :=
  added.foldl add constraints

def ofList (constraints : List Constraint) : ConstraintSet :=
  addAll {} constraints

def discard (constraints : ConstraintSet) (constraint : Constraint) : ConstraintSet :=
  ⟨constraints.toList.filter fun member => !member.same constraint⟩

def union (left right : ConstraintSet) : ConstraintSet :=
  left.addAll right.toList

def same (left right : ConstraintSet) : Bool :=
  left.toList.all right.contains && right.toList.all left.contains

def addCause (constraints : ConstraintSet) (mark : Nat) (cause : ConstraintKey) : ConstraintSet :=
  ⟨constraints.toList.map fun member =>
    if member.mark = some mark then member.addCause cause else member⟩

def describe (annotations : Annotations) (constraints : ConstraintSet) : String :=
  "ConstraintSet:\n\t" ++
    String.intercalate "\n\t" (constraints.toList.map (Constraint.describe annotations))

def display (annotations : Annotations) (constraints : ConstraintSet) : String :=
  "ConstraintSet([" ++
    String.intercalate ", " (constraints.toList.map (Constraint.describe annotations)) ++ "])"

/-! ## Laws -/

theorem contains_iff {constraints : ConstraintSet} {constraint : Constraint} :
    constraints.contains constraint = true ↔ constraint.key ∈ constraints.keys := by
  simp [contains]

theorem add_of_contains {constraints : ConstraintSet} {constraint : Constraint}
    (known : constraint.key ∈ constraints.keys) : constraints.add constraint = constraints := by
  unfold add
  rw [if_pos (contains_iff.mpr known)]

theorem toList_add_of_new {constraints : ConstraintSet} {constraint : Constraint}
    (new : ¬ constraint.key ∈ constraints.keys) :
    (constraints.add constraint).toList = constraints.toList ++ [constraint] := by
  unfold add
  rw [if_neg fun known => new (contains_iff.mp known)]

theorem keys_add_of_new {constraints : ConstraintSet} {constraint : Constraint}
    (new : ¬ constraint.key ∈ constraints.keys) :
    (constraints.add constraint).keys = constraints.keys ++ [constraint.key] := by
  simp [keys, toList_add_of_new new]

@[simp] theorem mem_keys_add {constraints : ConstraintSet} {constraint : Constraint}
    {key : ConstraintKey} :
    key ∈ (constraints.add constraint).keys ↔ key ∈ constraints.keys ∨ key = constraint.key := by
  by_cases known : constraint.key ∈ constraints.keys
  · rw [add_of_contains known]
    exact ⟨.inl, fun either => either.elim (fun present => present) fun equal => equal ▸ known⟩
  · simp [keys_add_of_new known]

theorem nodup_keys_add {constraints : ConstraintSet} (distinct : constraints.keys.Nodup)
    (constraint : Constraint) : (constraints.add constraint).keys.Nodup := by
  by_cases known : constraint.key ∈ constraints.keys
  · rw [add_of_contains known]
    exact distinct
  · rw [keys_add_of_new known, List.nodup_append]
    refine ⟨distinct, by simp, fun key present other equal same => ?_⟩
    rw [List.mem_singleton] at equal
    exact known (equal ▸ same ▸ present)

@[simp] theorem mem_keys_addAll {constraints : ConstraintSet} {added : List Constraint}
    {key : ConstraintKey} :
    key ∈ (constraints.addAll added).keys ↔
      key ∈ constraints.keys ∨ key ∈ added.map Constraint.key := by
  induction added generalizing constraints with
  | nil => simp [addAll]
  | cons constraint rest induction =>
      have unfolded : constraints.addAll (constraint :: rest) =
          (constraints.add constraint).addAll rest := rfl
      simp [unfolded, induction, or_assoc]

theorem nodup_keys_addAll {constraints : ConstraintSet} (distinct : constraints.keys.Nodup)
    (added : List Constraint) : (constraints.addAll added).keys.Nodup := by
  induction added generalizing constraints with
  | nil => exact distinct
  | cons constraint rest induction => exact induction (nodup_keys_add distinct constraint)

@[simp] theorem mem_keys_discard {constraints : ConstraintSet} {constraint : Constraint}
    {key : ConstraintKey} :
    key ∈ (constraints.discard constraint).keys ↔
      key ∈ constraints.keys ∧ key ≠ constraint.key := by
  simp only [keys, discard, List.mem_map, List.mem_filter, Constraint.same, Bool.not_eq_true',
    decide_eq_false_iff_not]
  constructor
  · rintro ⟨member, ⟨present, different⟩, rfl⟩
    exact ⟨⟨member, present, rfl⟩, different⟩
  · rintro ⟨⟨member, present, rfl⟩, different⟩
    exact ⟨member, ⟨present, different⟩, rfl⟩

end ConstraintSet

end InfoFlow
