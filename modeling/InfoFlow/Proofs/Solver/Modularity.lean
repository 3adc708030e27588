import InfoFlow.Proofs.Derivation.Restriction
import InfoFlow.Proofs.Solver.Neutral

/-! Solves of independent constraints.

Let a test divide the leaves in two so that no constraint of a graph mentions
leaves of both sorts. A solve of the whole graph then takes turns of two kinds.
A turn of a constraint about accepted leaves is a turn of the solve of these
constraints alone. All other turns leave what concerns the accepted leaves as it
is: their qualifiers, the constraints about them, and the order in which these
wait. Hence constraints that share no leaf are solved independently of each
other, however they are interleaved. -/

namespace InfoFlow

/-! ## Interleaved constraints -/

/-- A list of the members of two lists, which keeps the order of both. -/
inductive Interleaved {Element : Type} : List Element → List Element → List Element → Prop
  | nil : Interleaved [] [] []
  | first {element : Element} {first second all : List Element}
      (later : Interleaved first second all) :
      Interleaved (element :: first) second (element :: all)
  | second {element : Element} {first second all : List Element}
      (later : Interleaved first second all) :
      Interleaved first (element :: second) (element :: all)

namespace Interleaved

variable {Element : Type} {first second all : List Element} {element : Element}

theorem mem_iff (interleaved : Interleaved first second all) :
    element ∈ all ↔ element ∈ first ∨ element ∈ second := by
  induction interleaved with
  | nil => simp
  | first later induction => rw [List.mem_cons, List.mem_cons, induction, or_assoc]
  | second later induction => rw [List.mem_cons, List.mem_cons, induction, or_left_comm]

theorem filter_eq {accepts : Element → Bool} (interleaved : Interleaved first second all)
    (accepted : ∀ element, element ∈ first → accepts element = true)
    (refused : ∀ element, element ∈ second → accepts element = false) :
    all.filter accepts = first := by
  induction interleaved with
  | nil => rfl
  | first later induction =>
      rw [List.filter_cons_of_pos (accepted _ List.mem_cons_self), induction
        (fun element member => accepted element (List.mem_cons_of_mem _ member)) refused]
  | second later induction =>
      rw [List.filter_cons_of_neg (by simp [refused _ List.mem_cons_self]), induction accepted
        fun element member => refused element (List.mem_cons_of_mem _ member)]

end Interleaved

/-- The leaves that constraints mention, in their sides or in what these are
built from. -/
def mentioned (constraints : List Constraint) : List Leaf :=
  constraints.flatMap fun constraint => constraint.left.leaves ++ constraint.right.leaves

def areAbout (constraints : List Constraint) (leaf : Leaf) : Bool :=
  decide (leaf ∈ mentioned constraints)

theorem Constraint.within_areAbout {constraints : List Constraint} {constraint : Constraint}
    (member : constraint ∈ constraints) : constraint.within (areAbout constraints) = true := by
  have below : ∀ leaf, leaf ∈ constraint.left.leaves ++ constraint.right.leaves →
      areAbout constraints leaf = true :=
    fun leaf side => decide_eq_true (List.mem_flatMap.mpr ⟨constraint, member, side⟩)
  refine within_iff.mpr ⟨List.all_eq_true.mpr fun leaf left => ?_,
    List.all_eq_true.mpr fun leaf right => ?_⟩
  · exact below leaf (List.mem_append_left _ left)
  · exact below leaf (List.mem_append_right _ right)

theorem Constraint.beyond_areAbout {first second : List Constraint} {constraint : Constraint}
    (apart : ∀ leaf, leaf ∈ mentioned first → ¬ leaf ∈ mentioned second)
    (member : constraint ∈ second) : constraint.within (beyond (areAbout first)) = true := by
  have outside : ∀ side : Value, side.leaves ⊆ mentioned second →
      side.within (beyond (areAbout first)) = true := by
    intro side included
    refine List.all_eq_true.mpr fun leaf below => ?_
    rw [beyond, areAbout, decide_eq_false fun common => apart leaf common (included below)]
    rfl
  have sides : constraint.left.leaves ++ constraint.right.leaves ⊆ mentioned second :=
    fun leaf side => List.mem_flatMap.mpr ⟨constraint, member, side⟩
  exact within_iff.mpr ⟨outside _ fun leaf left => sides (List.mem_append_left _ left),
    outside _ fun leaf right => sides (List.mem_append_right _ right)⟩

namespace Solver

variable {solver next whole part : Solver} {constraint : Constraint} {inside : Leaf → Bool}

/-! ## Constraints about one sort of leaves -/

theorem mentions_restrict {index : ReferenceIndex} {graph : ValueGraph} {writes : List Write}
    (divided : index.Divided inside graph.parts)
    (accepted : ∀ write, write ∈ writes → write.leaf ∈ graph.leafParts.filter inside) :
    mentions (index.restrict inside) writes = mentions index writes ∧
      ∀ member, member ∈ mentions index writes → member.Confined inside graph.parts := by
  have about : ∀ write, write ∈ writes → Value.leaf write.leaf ∈ graph.parts ∧
      (Value.leaf write.leaf).within inside = true := by
    intro write made
    have both := List.mem_filter.mp (accepted write made)
    exact ⟨ValueGraph.leaf_mem_parts_iff.mpr both.1,
      (Value.within_leaf inside write.leaf).trans both.2⟩
  constructor
  · refine List.flatMap_congr fun write made => ?_
    rw [(divided.referencing_restrict (about write made).1 (about write made).2).1]
  · intro member present
    rcases List.mem_flatMap.mp present with ⟨write, made, sorted⟩
    have found := StableSort.mem_sort.mp sorted
    have registered := (ReferenceIndex.of_mem_referencing found).1
    exact ⟨divided.among.sides member registered,
      (divided.referencing_restrict (about write made).1 (about write made).2).2 member found⟩

theorem agree_of_apply {graph : ValueGraph} {before : Annotations} {narrowing : Narrowing}
    (places : SeparatePlaces graph.leafParts)
    (confined : constraint.Confined (beyond inside) graph.parts)
    (applied : before.apply Leaf.isImmutable constraint = .ok narrowing) :
    Annotations.Agree inside graph.parts narrowing.annotations before := by
  have included := ValueGraph.leaves_subset_of_confined confined
  have separate : SeparatePlaces (graph.leafParts.filter (beyond inside)) :=
    places.subset (List.filter_subset_self _)
  have reached := Annotations.apply_from separate included.1 included.2 applied
  refine ValueGraph.agree_iff.mpr fun leaf member =>
    reached.get_other fun written refused same => ?_
  have accepted := List.mem_filter.mp member
  have outside := List.mem_filter.mp refused
  have equal := places leaf written accepted.1 outside.1 same
  rw [beyond, ← equal, accepted.2] at outside
  cases outside.2

/-- All that a turn writes, derives and queues is about accepted leaves. -/
structure AddsConfined (solver : Solver) (inside : Leaf → Bool) (constraint : Constraint)
    (narrowing : Narrowing) : Prop where
  writes : ∀ write, write ∈ narrowing.writes →
    write.leaf ∈ solver.graph.leafParts.filter inside
  derived : ∀ member, member ∈ solver.derived narrowing.annotations constraint →
    member.Confined inside solver.graph.parts
  queued : ∀ member, member ∈ mentions solver.index narrowing.writes ++
      solver.derived narrowing.annotations constraint →
    member.Confined inside solver.graph.parts

theorem addsConfined {narrowing : Narrowing} (consistent : solver.Consistent)
    (divided : solver.index.Divided inside solver.graph.parts)
    (confined : constraint.Confined inside solver.graph.parts)
    (applied : solver.annotations.apply Leaf.isImmutable constraint = .ok narrowing) :
    solver.AddsConfined inside constraint narrowing := by
  have included := ValueGraph.leaves_subset_of_confined confined
  have separate : SeparatePlaces (solver.graph.leafParts.filter inside) :=
    consistent.places.subset (List.filter_subset_self _)
  have reached := Annotations.apply_from separate included.1 included.2 applied
  have writes : ∀ write, write ∈ narrowing.writes →
      write.leaf ∈ solver.graph.leafParts.filter inside := fun _ made => reached.mem_of_write made
  have same : Annotations.Agree inside solver.graph.parts narrowing.annotations
      narrowing.annotations := fun _ _ _ => rfl
  have derived : ∀ member, member ∈ solver.derived narrowing.annotations constraint →
      member.Confined inside solver.graph.parts :=
    (Derivation.derive_restrict divided consistent.between same confined).2
  refine ⟨writes, derived, fun member present => ?_⟩
  rcases List.mem_append.mp present with queued | new
  · exact (mentions_restrict divided writes).2 member queued
  · exact derived member new

/-! ## Two solves side by side -/

/-- What concerns the accepted leaves is the same in a solve of a graph and in
a solve of the constraints about these leaves. -/
structure Projects (inside : Leaf → Bool) (whole part : Solver) : Prop where
  consistent : whole.Consistent
  partConsistent : part.Consistent
  neutral : whole.policy.bias = .neutral
  partNeutral : part.policy.bias = .neutral
  numbered : Numbered whole.graph.parts
  graph : part.graph = whole.graph.restrict inside
  parted : ∀ constraint, constraint ∈ whole.constraints.toList → constraint.Parted inside
  agree : Annotations.Agree inside whole.graph.parts whole.annotations part.annotations
  constraints : part.constraints = whole.constraints.restrict inside
  worklist : part.worklist.members = whole.worklist.members.restrict inside
  conflicts : part.conflicts = whole.conflicts.restrict inside

namespace Projects

theorem divided (projects : Projects inside whole part) :
    whole.index.Divided inside whole.graph.parts ∧
      part.index = whole.index.restrict inside := by
  have indexed := ReferenceIndex.divided_ofList projects.numbered whole.graph.closed_parts
    projects.consistent.between projects.parted
  rw [projects.consistent.index, projects.partConsistent.index, projects.constraints]
  exact ⟨indexed.1, indexed.2.symm⟩

theorem waiting_between (projects : Projects inside whole part) :
    ∀ member, member ∈ whole.worklist.members.toList → member.Between whole.graph.parts :=
  fun member later => projects.consistent.between member (projects.consistent.waiting later)

theorem conflicts_between (projects : Projects inside whole part) :
    ∀ member, member ∈ whole.conflicts.toList → member.Between whole.graph.parts :=
  fun member failed => projects.consistent.between member (projects.consistent.conflicts failed)

theorem derived_eq {before after : Annotations} (projects : Projects inside whole part)
    (confined : constraint.Confined inside whole.graph.parts)
    (agree : Annotations.Agree inside whole.graph.parts before after) :
    part.derived after constraint = whole.derived before constraint := by
  have restricted : (Derivation.derive whole.graph after (whole.index.restrict inside) constraint
      (whole.constraints.restrict inside)).1 = _ :=
    (Derivation.derive_restrict projects.divided.1 projects.consistent.between agree confined).1
  rw [derived, projects.graph, projects.divided.2, projects.constraints]
  exact congrArg ConstraintSet.toList restricted

theorem mentions_eq {writes : List Write} (projects : Projects inside whole part)
    (accepted : ∀ write, write ∈ writes → write.leaf ∈ whole.graph.leafParts.filter inside) :
    mentions part.index writes = mentions whole.index writes := by
  rw [projects.divided.2]
  exact (mentions_restrict projects.divided.1 accepted).1

/-- A turn of a constraint about other leaves leaves the accepted part alone. -/
theorem serve_beyond (projects : Projects inside whole part)
    (member : constraint ∈ whole.constraints.toList)
    (refused : constraint.within (beyond inside) = true) :
    Projects inside (whole.serve constraint) part := by
  have between := projects.consistent.between constraint member
  have confined : constraint.Confined (beyond inside) whole.graph.parts := ⟨between, refused⟩
  have consistent := projects.consistent.serve member
  cases outcome : whole.annotations.apply Leaf.isImmutable constraint with
  | ok narrowing =>
      have added := addsConfined projects.consistent projects.divided.1.symm confined outcome
      have untouched := agree_of_apply projects.consistent.places confined outcome
      rcases serve_applied outcome with ⟨index, worklist, snapshots, served, queued⟩
      rw [served] at consistent ⊢
      refine { projects with
        consistent := consistent
        parted := ?_
        agree := fun value below accepted =>
          (untouched value below accepted).trans (projects.agree value below accepted)
        constraints := ?_
        worklist := ?_ }
      · intro other present
        rcases ConstraintSet.mem_or_mem_of_mem_addAll present with earlier | new
        · exact projects.parted other earlier
        · exact .inr (added.derived other new).2
      · rw [ConstraintSet.restrict_addAll_of_beyond projects.numbered projects.consistent.between
          added.derived]
        exact projects.constraints
      · rw [queued, ConstraintSet.restrict_addAll_of_beyond projects.numbered
          projects.waiting_between added.queued]
        exact projects.worklist
  | error failure =>
      rcases serve_failed projects.neutral outcome with ⟨warned, log, served⟩
      rw [served] at consistent ⊢
      refine { projects with consistent := consistent, conflicts := ?_ }
      dsimp only
      rw [projects.conflicts]
      split
      · rw [ConstraintSet.restrict_add projects.numbered projects.conflicts_between between,
          Constraint.not_within_of_beyond refused, if_neg Bool.false_ne_true]
      · rfl

theorem serve_within (projects : Projects inside whole part)
    (member : constraint ∈ whole.constraints.toList)
    (accepted : constraint.within inside = true) :
    Projects inside (whole.serve constraint) (part.serve constraint) := by
  have between := projects.consistent.between constraint member
  have confined : constraint.Confined inside whole.graph.parts := ⟨between, accepted⟩
  have included := ValueGraph.leaves_subset_of_confined confined
  have agree := ValueGraph.agree_iff.mp projects.agree
  have partMember : constraint ∈ part.constraints.toList := by
    rw [projects.constraints]
    exact ConstraintSet.mem_restrict.mpr ⟨member, accepted⟩
  have consistent := projects.consistent.serve member
  have partConsistent := projects.partConsistent.serve partMember
  cases outcome : whole.annotations.apply Leaf.isImmutable constraint with
  | ok narrowing =>
      rcases Annotations.apply_alike_of_agree included.1 included.2 agree outcome with
        ⟨partNarrowing, partOutcome, alike⟩
      have added := addsConfined projects.consistent projects.divided.1 confined outcome
      have agreeAfter : Annotations.Agree inside whole.graph.parts narrowing.annotations
          partNarrowing.annotations := ValueGraph.agree_iff.mpr alike.agree
      have derived := projects.derived_eq confined agreeAfter
      have mentioned := projects.mentions_eq (alike.writes ▸ added.writes)
      rcases serve_applied outcome with ⟨index, worklist, snapshots, served, queued⟩
      rcases serve_applied partOutcome with
        ⟨partIndex, partWorklist, partSnapshots, partServed, partQueued⟩
      rw [served] at consistent ⊢
      rw [partServed] at partConsistent ⊢
      refine { projects with
        consistent := consistent
        partConsistent := partConsistent
        parted := ?_
        agree := agreeAfter
        constraints := ?_
        worklist := ?_ }
      · intro other present
        rcases ConstraintSet.mem_or_mem_of_mem_addAll present with earlier | new
        · exact projects.parted other earlier
        · exact .inl (added.derived other new).2
      · dsimp only
        rw [derived, projects.constraints, ConstraintSet.restrict_addAll_of_confined
          projects.numbered projects.consistent.between added.derived]
      · dsimp only
        rw [partQueued, queued, mentioned, ← alike.writes, derived, projects.worklist,
          ConstraintSet.restrict_addAll_of_confined projects.numbered projects.waiting_between
            added.queued]
  | error failure =>
      have partOutcome := Annotations.apply_error_of_agree included.1 included.2 agree outcome
      have status : part.graph.failureStatus constraint = whole.graph.failureStatus constraint := by
        rw [projects.graph]
        rfl
      rcases serve_failed projects.neutral outcome with ⟨warned, log, served⟩
      rcases serve_failed projects.partNeutral partOutcome with ⟨partWarned, partLog, partServed⟩
      rw [served] at consistent ⊢
      rw [partServed] at partConsistent ⊢
      refine { projects with
        consistent := consistent
        partConsistent := partConsistent
        conflicts := ?_ }
      dsimp only
      rw [status, projects.conflicts]
      split
      · rw [ConstraintSet.restrict_add projects.numbered projects.conflicts_between between,
          if_pos accepted]
      · rfl

/-! ## Solves side by side -/

theorem restrict_members_cons {worklist rest : Worklist}
    (waiting : worklist.toList = constraint :: rest.toList) :
    (worklist.members.restrict inside).toList =
      if constraint.within inside then constraint :: (rest.members.restrict inside).toList
      else (rest.members.restrict inside).toList := by
  have unfolded : (worklist.members.restrict inside).toList =
      (constraint :: rest.toList).filter (Constraint.within inside) := by
    rw [← waiting]
    rfl
  rw [unfolded, List.filter_cons]
  rfl

theorem step (projects : Projects inside whole part) (stepped : whole.step = some next) :
    Projects inside next part ∨
      ∃ partNext, part.step = some partNext ∧ Projects inside next partNext := by
  rcases step_eq_some stepped with ⟨constraint, rest, waiting, rfl⟩
  have popped := projects.consistent.popped waiting
  have kept := @restrict_members_cons constraint inside _ _ waiting
  have partWaiting : part.worklist.toList = _ :=
    (congrArg ConstraintSet.toList projects.worklist).trans kept
  rcases projects.parted constraint popped.2 with accepted | refused
  · rw [if_pos accepted] at partWaiting
    cases partStepped : part.step with
    | none =>
        rw [step_eq_none partStepped] at partWaiting
        cases partWaiting
    | some partNext =>
        rcases step_eq_some partStepped with ⟨served, partRest, partQueue, rfl⟩
        rw [partQueue] at partWaiting
        rcases List.cons.inj partWaiting with ⟨rfl, sameRest⟩
        have both : Projects inside { whole with worklist := rest }
            { part with worklist := partRest } :=
          { projects with
            consistent := popped.1
            partConsistent := (projects.partConsistent.popped partQueue).1
            worklist := congrArg ConstraintSet.mk sameRest }
        exact .inr ⟨_, rfl, both.serve_within popped.2 accepted⟩
  · rw [Constraint.not_within_of_beyond refused, if_neg Bool.false_ne_true] at partWaiting
    have both : Projects inside { whole with worklist := rest } part :=
      { projects with
        consistent := popped.1
        worklist := congrArg ConstraintSet.mk partWaiting }
    exact .inl (both.serve_beyond popped.2 refused)

theorem iterate_step (projects : Projects inside whole part) (count : Nat) :
    ∃ partCount, Projects inside (iterate Solver.step count whole)
      (iterate Solver.step partCount part) := by
  induction count with
  | zero => exact ⟨0, projects⟩
  | succ count induction =>
      rcases induction with ⟨partCount, before⟩
      rw [iterate_succ]
      cases stepped : (iterate Solver.step count whole).step with
      | none => exact ⟨partCount, before⟩
      | some next =>
          rcases before.step stepped with same | ⟨partNext, partStepped, after⟩
          · exact ⟨partCount, same⟩
          · refine ⟨partCount + 1, ?_⟩
            rw [iterate_succ, partStepped]
            exact after

end Projects

/-! ## Whole solves -/

def restrict (inside : Leaf → Bool) (solver : Solver) : Solver :=
  { solver with graph := solver.graph.restrict inside }

theorem start_projects (divided : solver.graph.Divided inside)
    (neutral : solver.policy.bias = .neutral) :
    Projects inside solver.start (solver.restrict inside).start := by
  have consistent := start_consistent divided.wellFormed.coherent
  have partConsistent : (solver.restrict inside).start.Consistent :=
    start_consistent divided.restrict.coherent
  have waiting := solver.start_waiting
  have partWaiting : (solver.restrict inside).start.worklist.toList =
      (solver.graph.restrict inside).upgraded.toList := (solver.restrict inside).start_waiting
  rw [divided.upgraded_restrict] at partWaiting
  rcases solver.start_eq with ⟨log, started⟩
  rcases (solver.restrict inside).start_eq with ⟨partLog, partStarted⟩
  rw [started] at consistent waiting ⊢
  rw [partStarted] at partConsistent partWaiting ⊢
  exact
    { consistent := consistent
      partConsistent := partConsistent
      neutral := neutral
      partNeutral := neutral
      numbered := divided.wellFormed.numbered
      graph := rfl
      parted := fun constraint member => divided.parted_upgraded member
      agree := fun _ _ _ => rfl
      constraints := divided.upgraded_restrict
      worklist := congrArg ConstraintSet.mk
        (partWaiting.trans (congrArg (List.filter (Constraint.within inside)) waiting.symm))
      conflicts := rfl }

/-- A solve of a divided graph contains the solve of its accepted part. -/
theorem solve_restrict (divided : solver.graph.Divided inside)
    (neutral : solver.policy.bias = .neutral) :
    Annotations.Agree inside solver.graph.parts solver.solve.annotations
        (solver.restrict inside).solve.annotations ∧
      (solver.restrict inside).solve.constraints = solver.solve.constraints.restrict inside ∧
      (solver.restrict inside).solve.conflicts = solver.solve.conflicts.restrict inside := by
  have coherent := divided.wellFormed.coherent
  have partCoherent : (solver.restrict inside).graph.Coherent := divided.restrict.coherent
  have ended := iterate_waiting coherent
  have partEnded := iterate_waiting partCoherent
  rcases (start_projects divided neutral).iterate_step solver.rounds with ⟨partCount, projects⟩
  have partEmpty :
      (iterate step partCount (solver.restrict inside).start).worklist.toList = [] := by
    have none : (iterate step solver.rounds solver.start).worklist.toList.filter
        (Constraint.within inside) = [] := by
      rw [ended]
      rfl
    exact (congrArg ConstraintSet.toList projects.worklist).trans none
  have same : iterate step partCount (solver.restrict inside).start =
      iterate step (solver.restrict inside).rounds (solver.restrict inside).start :=
    iterate_eq_of_finished (step_of_empty partEmpty) (step_of_empty partEnded)
  rw [same] at projects
  rcases solve_eq_afterServing coherent divided.wellFormed.specified neutral with ⟨log, solved⟩
  rcases @solve_eq_afterServing (solver.restrict inside) partCoherent divided.restrict.specified
    neutral with ⟨partLog, partSolved⟩
  rw [solved, partSolved]
  refine ⟨?_, projects.constraints, projects.conflicts⟩
  have graph := (iterate_consistent coherent solver.rounds).2
  have agree := projects.agree
  rw [graph] at agree
  exact agree

def withConstraints (solver : Solver) (constraints : List Constraint) : Solver :=
  { solver with graph := { solver.graph with constraints := .ofList constraints } }

/-- Constraints that have no leaf in common with others are solved as if these
were not there, however the two are interleaved. What a neutral solve says of
the values that they mention, and the constraints and conflicts between these,
in their order, are those of a solve on their own. That a number belongs to one
value excludes values of another graph whose numbers clash with those of this
one; a graph that is made from its own values has none. -/
theorem solve_modular {first second all : List Constraint} (solver : Solver)
    (interleaved : Interleaved first second all)
    (sides : ∀ constraint, constraint ∈ all →
      constraint.left ∈ solver.graph.values ∧ constraint.right ∈ solver.graph.values)
    (specified : ∀ constraint, constraint ∈ all → constraint.relation ≠ .unspecified)
    (numbered : Numbered solver.graph.parts) (neutral : solver.policy.bias = .neutral)
    (apart : ∀ leaf, leaf ∈ mentioned first → ¬ leaf ∈ mentioned second) :
    let joint := solver.withConstraints all
    let alone := solver.withConstraints first
    (∀ value : Value, value.leaves ⊆ mentioned first →
        joint.solve.annotations.view value = alone.solve.annotations.view value) ∧
      joint.solve.constraints.toList.filter (Constraint.within (areAbout first)) =
        alone.solve.constraints.toList ∧
      joint.solve.conflicts.toList.filter (Constraint.within (areAbout first)) =
        alone.solve.conflicts.toList := by
  intro joint alone
  have between : ∀ constraint, constraint ∈ all → constraint.Between solver.graph.parts :=
    fun constraint member => ⟨ValueGraph.mem_parts_of_mem_values (sides constraint member).1,
      ValueGraph.mem_parts_of_mem_values (sides constraint member).2⟩
  have known : (ConstraintSet.ofList all).toList ⊆ all := ConstraintSet.ofList_subset
  have parted : ∀ constraint, constraint ∈ all → constraint.Parted (areAbout first) := by
    intro constraint member
    rcases interleaved.mem_iff.mp member with own | other
    · exact .inl (Constraint.within_areAbout own)
    · exact .inr (Constraint.beyond_areAbout apart other)
  have wellFormed : joint.graph.WellFormed :=
    ⟨fun constraint member => sides constraint (known member),
      fun constraint member => specified constraint (known member), numbered⟩
  have divided : joint.graph.Divided (areAbout first) :=
    ⟨wellFormed, fun constraint member => parted constraint (known member)⟩
  have restricted : joint.restrict (areAbout first) = alone := by
    have own : all.filter (Constraint.within (areAbout first)) = first :=
      interleaved.filter_eq (fun _ member => Constraint.within_areAbout member) fun _ member =>
        Constraint.not_within_of_beyond (Constraint.beyond_areAbout apart member)
    have kept : (ConstraintSet.ofList all).restrict (areAbout first) = _ :=
      ConstraintSet.restrict_ofList numbered between
    rw [own] at kept
    exact congrArg (fun constraints =>
      { solver with graph := { solver.graph with constraints } }) kept
  have solved := solve_restrict divided neutral
  rw [restricted] at solved
  refine ⟨fun value included => ?_, (congrArg ConstraintSet.toList solved.2.1).symm,
    (congrArg ConstraintSet.toList solved.2.2).symm⟩
  have agree := ValueGraph.agree_iff.mp solved.1
  refine Annotations.view_eq_of_leaves fun leaf below => agree leaf ?_
  rcases List.mem_flatMap.mp (included below) with ⟨constraint, member, side⟩
  have sideBetween := between constraint (interleaved.mem_iff.mpr (.inl member))
  refine List.mem_filter.mpr ⟨?_, decide_eq_true (included below)⟩
  rcases List.mem_append.mp side with left | right
  · exact ValueGraph.leaves_subset_leafParts sideBetween.1 left
  · exact ValueGraph.leaves_subset_leafParts sideBetween.2 right

/-- A secret is shown from where it was stored, and meanwhile a key is
copied. -/
theorem solve_modular_storedSecret :
    let secret : Value := .leaf (LeafSpec.leaf
      { identifier := "secret", kind := .constant, declared := .only .sensitive } 0 0)
    let box : Value := .leaf (LeafSpec.leaf { identifier := "box" } 0 1)
    let content : Value := .leaf (LeafSpec.leaf { identifier := "content", kind := .field } 0 2)
    let stored : Value := .adapted .field 0 3 content box
    let shown : Value := .leaf (LeafSpec.leaf
      { identifier := "shown", kind := .constant, declared := .only .clear } 0 4)
    let key : Value := .leaf (LeafSpec.leaf { identifier := "key" } 0 5)
    let copy : Value := .leaf (LeafSpec.leaf { identifier := "copy" } 0 6)
    let solver : Solver :=
      { graph := { values := [secret, box, content, stored, shown, key, copy] } }
    let store : Constraint := .inferred secret stored []
    let reveal : Constraint := .inferred stored shown []
    let copying : Constraint := .inferred key copy []
    let joint := solver.withConstraints [store, copying, reveal]
    let alone := solver.withConstraints [store, reveal]
    Interleaved [store, reveal] [copying] [store, copying, reveal] ∧
      joint.solve.annotations.view stored = alone.solve.annotations.view stored ∧
      joint.solve.constraints.toList.filter (Constraint.within (areAbout [store, reveal])) =
        alone.solve.constraints.toList ∧
      joint.solve.conflicts.toList.filter (Constraint.within (areAbout [store, reveal])) =
        alone.solve.conflicts.toList := by
  intro secret box content stored shown key copy solver store reveal copying
  have interleaved : Interleaved [store, reveal] [copying] [store, copying, reveal] :=
    .first (.second (.first .nil))
  have wellFormed : (solver.withConstraints [store, copying, reveal]).graph.WellFormed := by decide
  have modular := solve_modular solver interleaved (by decide) (by decide) wellFormed.numbered
    rfl (by decide)
  exact ⟨interleaved, modular.1 stored (by decide), modular.2⟩

end Solver

end InfoFlow
