import Mathlib.Data.List.Nodup
import InfoFlow.Worklist

/-! Members of sets and queues of constraints.

A queue grows exactly as a set does: a constraint goes to the end unless its
key is known. So the laws of sets carry over to queues. -/

namespace InfoFlow

def Constraint.Between (values : List Value) (constraint : Constraint) : Prop :=
  constraint.left ∈ values ∧ constraint.right ∈ values

namespace ConstraintSet

variable {constraints : ConstraintSet} {constraint other : Constraint}
  {added : List Constraint}

theorem mem_keys {member : Constraint} (present : member ∈ constraints.toList) :
    member.key ∈ constraints.keys :=
  List.mem_map_of_mem present

theorem eq_of_key_eq (distinct : constraints.keys.Nodup) (member : constraint ∈ constraints.toList)
    (otherMember : other ∈ constraints.toList) (sameKey : constraint.key = other.key) :
    constraint = other :=
  List.inj_on_of_nodup_map distinct member otherMember sameKey

theorem subset_add : constraints.toList ⊆ (constraints.add constraint).toList := by
  intro member present
  by_cases known : constraint.key ∈ constraints.keys
  · rwa [add_of_contains known]
  · rw [toList_add_of_new known]
    exact List.mem_append_left _ present

theorem mem_or_eq_of_mem_add (member : other ∈ (constraints.add constraint).toList) :
    other ∈ constraints.toList ∨ other = constraint := by
  by_cases known : constraint.key ∈ constraints.keys
  · rw [add_of_contains known] at member
    exact .inl member
  · rw [toList_add_of_new known] at member
    simpa using member

theorem forall_mem_add {Holds : Constraint → Prop}
    (known : ∀ member, member ∈ constraints.toList → Holds member)
    (new : constraint.key ∉ constraints.keys → Holds constraint) :
    ∀ member, member ∈ (constraints.add constraint).toList → Holds member := by
  intro member present
  by_cases taken : constraint.key ∈ constraints.keys
  · rw [add_of_contains taken] at present
    exact known member present
  · rw [toList_add_of_new taken] at present
    rcases List.mem_append.mp present with before | itself
    · exact known member before
    · exact List.mem_singleton.mp itself ▸ new taken

theorem addAll_cons (constraints : ConstraintSet) (constraint : Constraint)
    (rest : List Constraint) :
    constraints.addAll (constraint :: rest) = (constraints.add constraint).addAll rest := rfl

theorem addAll_append (constraints : ConstraintSet) (first second : List Constraint) :
    constraints.addAll (first ++ second) = (constraints.addAll first).addAll second :=
  List.foldl_append

theorem subset_addAll : constraints.toList ⊆ (constraints.addAll added).toList := by
  induction added generalizing constraints with
  | nil => exact fun _ present => present
  | cons constraint rest induction =>
      rw [addAll_cons]
      exact fun member present => induction (subset_add present)

theorem mem_or_mem_of_mem_addAll (member : other ∈ (constraints.addAll added).toList) :
    other ∈ constraints.toList ∨ other ∈ added := by
  induction added generalizing constraints with
  | nil => exact .inl member
  | cons constraint rest induction =>
      rw [addAll_cons] at member
      rcases induction member with known | later
      · rcases mem_or_eq_of_mem_add known with known | equal
        · exact .inl known
        · exact .inr (equal ▸ List.mem_cons_self)
      · exact .inr (List.mem_cons_of_mem _ later)

theorem ofList_subset : (ofList added).toList ⊆ added := by
  intro member present
  rcases mem_or_mem_of_mem_addAll present with none | known
  · cases none
  · exact known

theorem toList_addAll_eq (constraints : ConstraintSet) (added : List Constraint) :
    ∃ more, (constraints.addAll added).toList = constraints.toList ++ more ∧ more ⊆ added := by
  induction added generalizing constraints with
  | nil => exact ⟨[], (List.append_nil _).symm, List.nil_subset _⟩
  | cons constraint rest induction =>
      rcases induction (constraints.add constraint) with ⟨more, equal, included⟩
      rw [addAll_cons, equal]
      by_cases known : constraint.key ∈ constraints.keys
      · rw [add_of_contains known]
        exact ⟨more, rfl, List.subset_cons_of_subset _ included⟩
      · rw [toList_add_of_new known, List.append_assoc]
        refine ⟨constraint :: more, rfl, ?_⟩
        exact List.cons_subset_cons constraint included

theorem toList_addAll_of_new (fresh : (added.map Constraint.key).Nodup)
    (unknown : ∀ member, member ∈ added → ¬ member.key ∈ constraints.keys) :
    (constraints.addAll added).toList = constraints.toList ++ added := by
  induction added generalizing constraints with
  | nil => simp [addAll]
  | cons constraint rest induction =>
      have parts := List.nodup_cons.mp fresh
      have new : ¬ constraint.key ∈ constraints.keys := unknown constraint List.mem_cons_self
      rw [addAll_cons, induction parts.2, toList_add_of_new new, List.append_assoc]
      · rfl
      · intro member later known
        rw [keys_add_of_new new] at known
        rcases List.mem_append.mp known with known | equal
        · exact unknown member (List.mem_cons_of_mem _ later) known
        · rw [List.mem_singleton] at equal
          exact parts.1 (equal ▸ List.mem_map_of_mem later)

theorem addAll_toList (distinct : constraints.keys.Nodup) :
    ({} : ConstraintSet).addAll constraints.toList = constraints := by
  have whole : (({} : ConstraintSet).addAll constraints.toList).toList = constraints.toList :=
    toList_addAll_of_new distinct (by simp [keys])
  exact congrArg ConstraintSet.mk whole

theorem nodup_keys_ofList (members : List Constraint) : (ofList members).keys.Nodup := by
  have none : ({} : ConstraintSet).keys.Nodup := List.nodup_nil
  exact nodup_keys_addAll none members

theorem size_addAll_le : (constraints.addAll added).size ≤ constraints.size + added.length := by
  induction added generalizing constraints with
  | nil => exact Nat.le_refl _
  | cons constraint rest induction =>
      have onward : ((constraints.add constraint).addAll rest).size ≤
          (constraints.add constraint).size + rest.length := induction
      have grown : (constraints.add constraint).size ≤ constraints.size + 1 := by
        by_cases known : constraint.key ∈ constraints.keys
        · rw [add_of_contains known]
          omega
        · simp [size, toList_add_of_new known]
      rw [addAll_cons, List.length_cons]
      omega

end ConstraintSet

namespace Worklist

def members (worklist : Worklist) : ConstraintSet := ⟨worklist.toList⟩

variable {worklist : Worklist} {constraint other : Constraint} {added : List Constraint}

theorem members_add : (worklist.add constraint).members = worklist.members.add constraint := by
  by_cases waiting : constraint.key ∈ worklist.keys
  · have known : constraint.key ∈ worklist.members.keys := waiting
    rw [add_of_contains waiting, ConstraintSet.add_of_contains known]
  · have appended := @ConstraintSet.toList_add_of_new worklist.members constraint waiting
    exact congrArg ConstraintSet.mk ((toList_add_of_new waiting).trans appended.symm)

theorem members_addAll : (worklist.addAll added).members = worklist.members.addAll added := by
  induction added generalizing worklist with
  | nil => rfl
  | cons constraint rest induction =>
      have unfolded : worklist.addAll (constraint :: rest) =
          (worklist.add constraint).addAll rest := rfl
      rw [unfolded, induction, members_add, ConstraintSet.addAll_cons]

theorem keys_addAll : (worklist.addAll added).keys = (worklist.members.addAll added).keys :=
  congrArg ConstraintSet.keys members_addAll

theorem mem_keys_addAll {key : ConstraintKey} :
    key ∈ (worklist.addAll added).keys ↔
      key ∈ worklist.keys ∨ key ∈ added.map Constraint.key := by
  rw [keys_addAll]
  exact ConstraintSet.mem_keys_addAll

theorem nodup_keys_addAll (distinct : worklist.keys.Nodup) (added : List Constraint) :
    (worklist.addAll added).keys.Nodup := by
  rw [keys_addAll]
  exact ConstraintSet.nodup_keys_addAll distinct added

theorem toList_addAll_eq (worklist : Worklist) (added : List Constraint) :
    ∃ more, (worklist.addAll added).toList = worklist.toList ++ more ∧ more ⊆ added := by
  rcases worklist.members.toList_addAll_eq added with ⟨more, equal, included⟩
  exact ⟨more, (congrArg ConstraintSet.toList members_addAll).trans equal, included⟩

theorem toList_addAll_of_new (fresh : (added.map Constraint.key).Nodup)
    (unknown : ∀ member, member ∈ added → ¬ member.key ∈ worklist.keys) :
    (worklist.addAll added).toList = worklist.toList ++ added := by
  have appended := @ConstraintSet.toList_addAll_of_new worklist.members added fresh unknown
  exact (congrArg ConstraintSet.toList members_addAll).trans appended

theorem mem_or_mem_of_mem_addAll (member : other ∈ (worklist.addAll added).toList) :
    other ∈ worklist.toList ∨ other ∈ added := by
  have inMembers : other ∈ (worklist.members.addAll added).toList := members_addAll ▸ member
  exact ConstraintSet.mem_or_mem_of_mem_addAll inMembers

theorem toList_eq_of_pop? {rest : Worklist} (popped : worklist.pop? = some (constraint, rest)) :
    worklist.toList = constraint :: rest.toList := by
  have served := pop?_eq worklist
  rwa [popped] at served

theorem toList_eq_nil_of_pop? (empty : worklist.pop? = none) : worklist.toList = [] := by
  have served := pop?_eq worklist
  rwa [empty] at served

end Worklist

end InfoFlow
