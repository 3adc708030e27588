import InfoFlow.Proofs.Narrowing.Shrinking

/-! Constraints that are applied in place.

A narrowing is made before anyone takes it over. An engine instead changes its
state write by write and reports at each of them whether it changed anything.
Both come to the same: the state takes over the writes in their order, and a
constraint that cannot be applied leaves it alone. What a constraint leaves to
its sides is always possible for all leaves of them together, so no leaf loses
its last qualifier, however the leaves are shared. -/

namespace InfoFlow

/-- A state that holds annotations and takes over writes of leaves. Writes of
frozen leaves do not reach it. -/
structure Store (State : Type) where
  annotations : State → Annotations
  frozen : Leaf → Bool
  record : State → Write → State
  annotations_record : ∀ state write,
    annotations (record state write) = (annotations state).set write.leaf write.after

namespace Store

variable {State : Type}

def assign (store : Store State) (state : State) (leaf : Leaf) (qualifiers : QualifierSet) :
    State × Bool :=
  let before := (store.annotations state).get leaf
  if before = qualifiers || store.frozen leaf then (state, false)
  else (store.record state ⟨leaf, before, qualifiers⟩, true)

def write (store : Store State) (state : State) (value : Value) (allowed : QualifierSet) :
    State × Bool :=
  match value with
  | .leaf leaf => store.assign state leaf allowed
  | .adapted _ _ _ declaration context =>
      let contexts := (store.annotations state).view context
      let declared := (store.annotations state).view declaration
      let newDeclared := Narrowing.keptDeclared contexts declared allowed
      let newContexts := Narrowing.keptContexts contexts newDeclared allowed
      let onDeclaration :=
        if newDeclared = declared then (state, false)
        else write store state declaration newDeclared
      if newContexts = contexts then onDeclaration
      else
        let onContext := write store onDeclaration.1 context newContexts
        (onContext.1, onContext.2 || onDeclaration.2)

def carryOut (store : Store State) (state : State) (constraint : Constraint)
    (newLeft newRight : QualifierSet) : State × Bool :=
  let left := (store.annotations state).view constraint.left
  let right := (store.annotations state).view constraint.right
  let onLeft :=
    if newLeft = left then (state, false) else store.write state constraint.left newLeft
  if newRight = right then onLeft
  else
    let onRight := store.write onLeft.1 constraint.right newRight
    (onRight.1, onRight.2 || onLeft.2)

/-- Apply a constraint. The result says whether that changed anything, or why
it is impossible. -/
def handle (store : Store State) (state : State) (constraint : Constraint) :
    State × Except Failure Bool :=
  let left := (store.annotations state).view constraint.left
  let right := (store.annotations state).view constraint.right
  match constraint.relation.narrow left right with
  | none => (state, .error .unspecified)
  | some (newLeft, newRight) =>
      if newLeft.isEmpty || newRight.isEmpty then
        (state, .error (.unsatisfiable constraint left right))
      else
        let result := store.carryOut state constraint newLeft newRight
        (result.1, .ok result.2)

/-! ## Narrowings in place -/

structure Holds (store : Store State) (start : State) (narrowing : Narrowing) (state : State) :
    Prop where
  annotations : store.annotations state = narrowing.annotations
  writes : state = narrowing.writes.foldl store.record start

/-- A step in place that takes over what a narrowing gained, and says whether
that is anything. -/
structure Follows (store : Store State) (start : State) (before after : Narrowing)
    (result : State × Bool) : Prop where
  holds : store.Holds start after result.1
  gained : ∃ more, after.writes = before.writes ++ more ∧ result.2 = !more.isEmpty

variable {store : Store State} {start state : State} {before middle after narrowing : Narrowing}
  {first second : State × Bool}

theorem Holds.refl (store : Store State) (state : State) :
    store.Holds state { annotations := store.annotations state } state :=
  ⟨rfl, rfl⟩

theorem Holds.follows (holds : store.Holds start narrowing state) :
    store.Follows start narrowing narrowing (state, false) :=
  ⟨holds, [], (List.append_nil _).symm, rfl⟩

theorem Follows.trans (earlier : store.Follows start before middle first)
    (later : store.Follows start middle after second) :
    store.Follows start before after (second.1, second.2 || first.2) := by
  rcases earlier.gained with ⟨more, writes, gained⟩
  rcases later.gained with ⟨rest, laterWrites, laterGained⟩
  refine ⟨later.holds, more ++ rest, ?_, ?_⟩
  · rw [laterWrites, writes, List.append_assoc]
  · rw [gained, laterGained]
    cases more <;> simp

theorem Holds.assign (holds : store.Holds start narrowing state) (leaf : Leaf)
    (qualifiers : QualifierSet) :
    store.Follows start narrowing (narrowing.assign store.frozen leaf qualifiers)
      (store.assign state leaf qualifiers) := by
  simp only [Store.assign, Narrowing.assign, holds.annotations]
  split
  · exact holds.follows
  · refine ⟨⟨?_, ?_⟩, [_], rfl, rfl⟩
    · rw [store.annotations_record, holds.annotations]
    · rw [List.foldl_append, ← holds.writes]
      rfl

theorem Holds.write (holds : store.Holds start narrowing state) (value : Value)
    (allowed : QualifierSet) :
    store.Follows start narrowing (narrowing.write store.frozen value allowed)
      (store.write state value allowed) := by
  induction value generalizing narrowing state allowed with
  | leaf content => exact holds.assign content allowed
  | adapted adaptation owner id declaration context onDeclaration onContext =>
      simp only [Store.write, Narrowing.write, holds.annotations]
      split <;> split
      · exact holds.follows
      · exact onDeclaration holds _
      · exact holds.follows.trans (onContext holds _)
      · exact (onDeclaration holds _).trans (onContext (onDeclaration holds _).holds _)

theorem Follows.eq {annotations : Annotations}
    (follows : store.Follows state { annotations } narrowing first) :
    first = (narrowing.writes.foldl store.record state, narrowing.changed) := by
  rcases follows.gained with ⟨more, writes, gained⟩
  have all : narrowing.writes = more := writes
  rw [Narrowing.changed, all, ← gained, ← all, ← follows.holds.writes]

theorem carryOut_follows (store : Store State) (state : State) (constraint : Constraint)
    (newLeft newRight : QualifierSet) :
    store.Follows state { annotations := store.annotations state }
      ((store.annotations state).carryOut store.frozen constraint newLeft newRight)
      (store.carryOut state constraint newLeft newRight) := by
  let start : Narrowing := { annotations := store.annotations state }
  have holds : store.Holds state start state := .refl store state
  have onLeft : store.Follows state start
      (if newLeft = (store.annotations state).view constraint.left then start
        else start.write store.frozen constraint.left newLeft)
      (if newLeft = (store.annotations state).view constraint.left then (state, false)
        else store.write state constraint.left newLeft) := by
    split
    · exact holds.follows
    · exact holds.write constraint.left newLeft
  simp only [carryOut, Annotations.carryOut]
  split
  · exact onLeft
  · exact onLeft.trans (onLeft.holds.write constraint.right newRight)

theorem handle_eq (store : Store State) (state : State) (constraint : Constraint) :
    store.handle state constraint =
      match (store.annotations state).apply store.frozen constraint with
      | .ok narrowing => (narrowing.writes.foldl store.record state, .ok narrowing.changed)
      | .error failure => (state, .error failure) := by
  cases narrowed : constraint.relation.narrow ((store.annotations state).view constraint.left)
      ((store.annotations state).view constraint.right) with
  | none => simp only [handle, narrowed, Annotations.apply_of_narrow_none narrowed]
  | some kept =>
      rcases kept with ⟨newLeft, newRight⟩
      by_cases exhausted : newLeft = .empty ∨ newRight = .empty
      · rw [Annotations.apply_of_exhausted narrowed exhausted]
        simp [handle, narrowed, QualifierSet.isEmpty, exhausted]
      · rw [not_or] at exhausted
        rw [Annotations.apply_of_inhabited narrowed exhausted.1 exhausted.2]
        simp [handle, narrowed, QualifierSet.isEmpty, exhausted,
          (store.carryOut_follows state constraint newLeft newRight).eq]

theorem annotations_foldl_record {constraint : Constraint}
    (applied : (store.annotations state).apply store.frozen constraint = .ok narrowing) :
    store.annotations (narrowing.writes.foldl store.record state) = narrowing.annotations := by
  rcases Annotations.apply_eq_ok applied with ⟨newLeft, newRight, -, -, -, rfl⟩
  have follows := store.carryOut_follows state constraint newLeft newRight
  rw [← follows.holds.writes]
  exact follows.holds.annotations

/-! ## What a constraint does to leaves -/

/-- A constraint was applied to a state, or refused. Some leaves lost
qualifiers, but none of them all, and the result says whether any did. A refusal
leaves the state as it was. -/
structure Handled (store : Store State) (leaves : List Leaf) (before : State)
    (result : State × Except Failure Bool) : Prop where
  refused : ∀ failure, result.2 = .error failure → result.1 = before
  subset : ∀ leaf, leaf ∈ leaves →
    (store.annotations result.1).get leaf ⊆ (store.annotations before).get leaf
  inhabited : ∀ leaf, leaf ∈ leaves → (store.annotations before).get leaf ≠ .empty →
    (store.annotations result.1).get leaf ≠ .empty
  changed : ∀ changed, result.2 = .ok changed →
    (changed = true ↔ ∃ leaf, leaf ∈ leaves ∧
      (store.annotations result.1).get leaf ≠ (store.annotations before).get leaf)

theorem handle_handled (store : Store State) (state : State) {leaves : List Leaf}
    {constraint : Constraint} (places : SeparatePlaces leaves)
    (leftIncluded : constraint.left.leaves ⊆ leaves)
    (rightIncluded : constraint.right.leaves ⊆ leaves) :
    store.Handled leaves state (store.handle state constraint) := by
  rw [handle_eq]
  cases outcome : (store.annotations state).apply store.frozen constraint with
  | error failure =>
      exact ⟨fun _ _ => rfl, fun _ _ => QualifierSet.subset_refl _, fun _ _ inhabited => inhabited,
        fun _ accepted => nomatch accepted⟩
  | ok narrowing =>
      have reached := Annotations.apply_from places leftIncluded rightIncluded outcome
      have annotations := annotations_foldl_record outcome
      constructor
      · intro failure refused
        cases refused
      · intro leaf member
        rw [annotations]
        exact (reached.get places member).1
      · intro leaf member inhabited
        rw [annotations]
        exact Annotations.apply_inhabited places leftIncluded rightIncluded outcome member
          inhabited
      · intro changed accepted
        cases accepted
        rw [annotations]
        exact reached.changed_iff places

end Store

namespace Annotations

def store : Store Annotations where
  annotations := id
  frozen := fun _ => false
  record := fun annotations write => annotations.set write.leaf write.after
  annotations_record := fun _ _ => rfl

def applied (annotations : Annotations) (constraint : Constraint) :
    Annotations × Except Failure Bool :=
  match annotations.apply (fun _ => false) constraint with
  | .ok narrowing => (narrowing.annotations, .ok narrowing.changed)
  | .error failure => (annotations, .error failure)

theorem handle_eq_applied (annotations : Annotations) (constraint : Constraint) :
    store.handle annotations constraint = annotations.applied constraint := by
  rw [Store.handle_eq, applied]
  cases outcome : (store.annotations annotations).apply store.frozen constraint with
  | error failure =>
      have failed : annotations.apply (fun _ => false) constraint = .error failure := outcome
      rw [failed]
  | ok narrowing =>
      have accepted : annotations.apply (fun _ => false) constraint = .ok narrowing := outcome
      have written : narrowing.writes.foldl store.record annotations = narrowing.annotations :=
        Store.annotations_foldl_record outcome
      rw [accepted]
      simp only [written]

end Annotations

end InfoFlow
