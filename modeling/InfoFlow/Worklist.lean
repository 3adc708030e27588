import InfoFlow.ConstraintSet

/-! Queues of constraints that still have to be applied.

A queue serves its oldest member first and ignores a constraint that is
already waiting. It is kept in two parts so that both ends are at hand; the
laws are about the list that the parts stand for. -/

namespace InfoFlow

/-- A queue without duplicates: the members to serve next, oldest first, and
those that came later, newest first. -/
structure Worklist where
  front : List Constraint := []
  back : List Constraint := []

namespace Worklist

def toList (worklist : Worklist) : List Constraint :=
  worklist.front ++ worklist.back.reverse

def keys (worklist : Worklist) : List ConstraintKey :=
  worklist.toList.map Constraint.key

def contains (worklist : Worklist) (constraint : Constraint) : Bool :=
  worklist.front.any constraint.same || worklist.back.any constraint.same

def size (worklist : Worklist) : Nat :=
  worklist.front.length + worklist.back.length

def isEmpty (worklist : Worklist) : Bool :=
  worklist.front.isEmpty && worklist.back.isEmpty

def add (worklist : Worklist) (constraint : Constraint) : Worklist :=
  if worklist.contains constraint then worklist
  else { worklist with back := constraint :: worklist.back }

def addAll (worklist : Worklist) (added : List Constraint) : Worklist :=
  added.foldl add worklist

def ofList (constraints : List Constraint) : Worklist :=
  addAll {} constraints

def pop? (worklist : Worklist) : Option (Constraint × Worklist) :=
  match worklist.front with
  | served :: rest => some (served, { worklist with front := rest })
  | [] =>
      match worklist.back.reverse with
      | [] => none
      | served :: rest => some (served, { front := rest })

/-! ## Laws -/

theorem contains_iff {worklist : Worklist} {constraint : Constraint} :
    worklist.contains constraint = true ↔ constraint.key ∈ worklist.keys := by
  simp only [contains, keys, toList, Constraint.same, Bool.or_eq_true, List.any_eq_true,
    decide_eq_true_eq, List.map_append, List.map_reverse, List.mem_append, List.mem_reverse,
    List.mem_map]
  exact or_congr
    ⟨fun found => found.elim fun member known => ⟨member, known.1, known.2.symm⟩,
      fun found => found.elim fun member known => ⟨member, known.1, known.2.symm⟩⟩
    ⟨fun found => found.elim fun member known => ⟨member, known.1, known.2.symm⟩,
      fun found => found.elim fun member known => ⟨member, known.1, known.2.symm⟩⟩

theorem add_of_contains {worklist : Worklist} {constraint : Constraint}
    (waiting : constraint.key ∈ worklist.keys) : worklist.add constraint = worklist := by
  unfold add
  rw [if_pos (contains_iff.mpr waiting)]

theorem toList_add_of_new {worklist : Worklist} {constraint : Constraint}
    (new : ¬ constraint.key ∈ worklist.keys) :
    (worklist.add constraint).toList = worklist.toList ++ [constraint] := by
  unfold add
  rw [if_neg fun waiting => new (contains_iff.mp waiting)]
  simp [toList]

theorem pop?_eq (worklist : Worklist) :
    match worklist.pop? with
    | none => worklist.toList = []
    | some (served, rest) => worklist.toList = served :: rest.toList := by
  rcases worklist with ⟨_ | ⟨served, rest⟩, back⟩
  · cases newestLast : back.reverse with
    | nil => simp [pop?, toList, newestLast]
    | cons served rest => simp [pop?, toList, newestLast]
  · simp [pop?, toList]

@[simp] theorem length_toList (worklist : Worklist) :
    worklist.toList.length = worklist.size := by
  simp [toList, size]

end Worklist

end InfoFlow
