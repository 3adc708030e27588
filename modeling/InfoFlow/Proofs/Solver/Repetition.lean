import InfoFlow.Proofs.Derivation.Closure
import InfoFlow.Proofs.Solver.Conflicts

/-! Solving again.

A second solve starts from the annotations that the first one left. As long as
it changes nothing, all that it does is derive constraints, so it runs like the
closure of the constraints at the start under these annotations. Hence it
changes nothing exactly if all members of the closure can be applied without a
change.

A flow between flat values that the first solve knew can be, because a change
of a leaf queues it again. All others may have been left behind: the index
lists no unequality, and finds a value below an adaptation of an adaptation
only in part; and a flow that the first solve did not derive it never served. -/

namespace InfoFlow

namespace Annotations

variable {before : Annotations} {leaves : List Leaf} {constraint : Constraint}

theorem stable_of_get_eq {narrowing : Narrowing} (places : SeparatePlaces leaves)
    (leftIncluded : constraint.left.leaves ⊆ leaves)
    (rightIncluded : constraint.right.leaves ⊆ leaves)
    (applied : before.apply Leaf.isImmutable constraint = .ok narrowing)
    (unchanged : ∀ leaf, leaf ∈ leaves →
      narrowing.annotations.get leaf = before.get leaf) : before.Stable constraint := by
  have reached := apply_from places leftIncluded rightIncluded applied
  cases reached with
  | unwritten => exact applied
  | @written narrowing leaf qualifiers earlier member mutable smaller different =>
      have fewer := (earlier.get places member).1
      have same := unchanged leaf member
      rw [set_same] at same
      rw [← same] at fewer
      exact absurd (QualifierSet.ext fun qualifier =>
        ⟨fewer qualifier, smaller qualifier⟩) different

end Annotations

namespace Solver

variable {solver next : Solver} {constraint : Constraint} {closing : Derivation.Closing}

/-- No constraint fails when it is served. -/
def Clean (solver : Solver) : Prop :=
  ∀ turn constraint, ¬ solver.FailsInTurn turn constraint

theorem failureStatus_of_noLibraries {graph : ValueGraph} (noPolicy : graph.failurePolicy = none)
    (noLibraries : graph.libraryMethods = []) (constraint : Constraint) :
    graph.failureStatus constraint = some .error := by
  have known : ∀ method, graph.isLibraryMethod method = false := by
    intro method
    cases method <;> simp [ValueGraph.isLibraryMethod, noLibraries]
  simp [ValueGraph.failureStatus, noPolicy, known]

theorem clean_iff (coherent : solver.graph.Coherent) (specified : solver.graph.Specified)
    (neutral : solver.policy.bias = .neutral)
    (errors : ∀ constraint, solver.graph.failureStatus constraint = some .error) :
    solver.Clean ↔ solver.solve.conflicts.toList = [] := by
  have met := fun constraint =>
    @mem_conflicts_afterServing_iff _ constraint coherent specified neutral solver.rounds
  rcases solve_eq_afterServing coherent specified neutral with ⟨log, solved⟩
  rw [solved, List.eq_nil_iff_forall_not_mem]
  constructor
  · intro clean conflict present
    rcases (met conflict).mp present with ⟨-, turn, -, fails⟩
    exact clean turn conflict fails
  · intro none turn constraint fails
    exact none constraint
      ((met constraint).mpr ⟨errors constraint, turn, fails.lt_rounds coherent, fails⟩)

/-! ## Turns that change nothing -/

/-- The queue, the working set and the index are those of a closure in
progress. -/
structure Mirrors (solver : Solver) (closing : Derivation.Closing) : Prop where
  pending : solver.worklist.toList = closing.pending
  members : solver.constraints = closing.members
  index : solver.index = closing.index

theorem Mirrors.serve {rest : Worklist} (mirrors : solver.Mirrors closing)
    (consistent : solver.Consistent)
    (waiting : solver.worklist.toList = constraint :: rest.toList)
    (stable : solver.annotations.Stable constraint)
    (served : next = ({ solver with worklist := rest } : Solver).serve constraint) :
    next.annotations = solver.annotations ∧
      ∃ following, closing.step solver.graph solver.annotations = some following ∧
        next.Mirrors following := by
  have popped := consistent.popped waiting
  have applied : ({ solver with worklist := rest } : Solver).apply constraint =
      .ok ({ solver with worklist := rest }, false) := apply_of_stable stable
  rw [Solver.serve, applied] at served
  have found : Derivation.Found solver.constraints solver.index
      (Constraint.Between solver.graph.parts)
      (Derivation.derive solver.graph solver.annotations solver.index constraint
        solver.constraints) :=
    Derivation.derive_found solver.handedOn_between
      (consistent.registered.symm ▸ consistent.between) consistent.among.adaptations
      (consistent.between constraint popped.2)
  have queued := @Worklist.toList_addAll_of_new rest _ found.distinct fun member new =>
    fun waits => by
      rcases List.mem_map.mp waits with ⟨known, later, sameKey⟩
      exact found.new member new (sameKey ▸ ConstraintSet.mem_keys (popped.1.waiting later))
  have pending : closing.pending = constraint :: rest.toList := mirrors.pending ▸ waiting
  rw [served]
  refine ⟨rfl, _, by rw [Derivation.Closing.step, pending], ?_⟩
  rw [← mirrors.members, ← mirrors.index]
  exact ⟨queued, rfl, rfl⟩

private theorem closing_step_eq {graph : ValueGraph} {annotations : Annotations}
    {following : Derivation.Closing} (stepped : closing.step graph annotations = some following) :
    ∃ current rest found, closing.pending = current :: rest ∧
      following.pending = rest ++ found ∧ following.members = closing.members.addAll found := by
  unfold Derivation.Closing.step at stepped
  split at stepped
  · cases stepped
  · next current rest pending =>
      rw [← Option.some.inj stepped]
      exact ⟨current, rest, _, pending, rfl, rfl⟩

def closingAfter (solver : Solver) (count : Nat) : Derivation.Closing :=
  iterate (Derivation.Closing.step solver.graph solver.annotations) count
    ⟨solver.graph.upgraded.toList, solver.graph.upgraded, .ofList solver.graph.upgraded.toList⟩

theorem closingAfter_subset (solver : Solver) (count : Nat) :
    (solver.closingAfter count).members.toList ⊆
      (Derivation.closure solver.graph solver.annotations
        solver.graph.upgraded).members.toList := by
  have grows : ∀ current following : Derivation.Closing,
      current.step solver.graph solver.annotations = some following →
        (solver.closingAfter count).members.toList ⊆ current.members.toList →
          (solver.closingAfter count).members.toList ⊆ following.members.toList := by
    intro current following stepped included
    rcases closing_step_eq stepped with ⟨-, -, found, -, -, members⟩
    rw [members]
    exact List.Subset.trans included ConstraintSet.subset_addAll
  have ended := Derivation.closure_pending solver.graph solver.annotations
    solver.graph.upgraded_distinct
  have finished : (Derivation.closure solver.graph solver.annotations solver.graph.upgraded).step
      solver.graph solver.annotations = none := by
    rw [Derivation.Closing.step, ended]
  unfold Derivation.closure at finished ⊢
  rw [← iterate_of_finished finished count, ← iterate_add, Nat.add_comm, iterate_add]
  exact iterate_preserves grows _ (List.Subset.refl _)

/-- The state of a solve that has changed nothing so far. -/
structure Idle (solver : Solver) (count : Nat) : Prop where
  annotations : (solver.afterServing count).annotations = solver.annotations
  mirrors : (solver.afterServing count).Mirrors (solver.closingAfter count)
  served : ∀ member, member ∈ (solver.closingAfter count).members.toList →
    member ∈ (solver.closingAfter count).pending ∨ solver.annotations.Stable member

theorem idle_zero (solver : Solver) : solver.Idle 0 := by
  have index : solver.start.index = .ofList solver.graph.upgraded.toList := by
    rcases solver.start_eq with ⟨log, started⟩
    rw [started]
  exact ⟨solver.start_annotations, ⟨solver.start_waiting, solver.start_constraints, index⟩,
    fun _ present => .inl present⟩

theorem Idle.succ {count : Nat} (idle : solver.Idle count) (coherent : solver.graph.Coherent)
    (stable : ∀ constraint,
      (solver.afterServing count).worklist.toList.head? = some constraint →
        solver.annotations.Stable constraint) : solver.Idle (count + 1) := by
  have unfolded : solver.closingAfter (count + 1) =
      ((solver.closingAfter count).step solver.graph solver.annotations).getD
        (solver.closingAfter count) := iterate_succ _ _
  rcases iterate_consistent coherent count with ⟨consistent, graph⟩
  rcases solver.afterServing_succ count with ⟨same, empty⟩ | ⟨constraint, rest, waiting, equal⟩
  · have finished : (solver.closingAfter count).step solver.graph solver.annotations = none := by
      rw [Derivation.Closing.step, ← idle.mirrors.pending, empty]
    rw [finished, Option.getD_none] at unfolded
    refine ⟨same ▸ idle.annotations, ?_, unfolded ▸ idle.served⟩
    rw [same, unfolded]
    exact idle.mirrors
  · have now : solver.annotations.Stable constraint := stable constraint (by rw [waiting]; rfl)
    have popped := Consistent.popped consistent waiting
    rcases idle.mirrors.serve consistent waiting (idle.annotations.symm ▸ now) equal with
      ⟨annotations, following, stepped, mirrors⟩
    have sameGraph : (solver.afterServing count).graph = solver.graph := graph
    rw [sameGraph, idle.annotations] at stepped
    rw [stepped, Option.getD_some] at unfolded
    refine ⟨annotations.trans idle.annotations, unfolded ▸ mirrors, ?_⟩
    rcases closing_step_eq stepped with ⟨current, others, found, pending, afterwards, members⟩
    have head : current = constraint := by
      rw [← idle.mirrors.pending, waiting] at pending
      exact (List.cons.inj pending).1.symm
    rw [unfolded, members, afterwards]
    intro member present
    rcases ConstraintSet.mem_or_mem_of_mem_addAll present with earlier | new
    · rcases idle.served member earlier with waits | settled
      · rw [pending, head, List.mem_cons] at waits
        rcases waits with turn | later
        · exact .inr (turn ▸ now)
        · exact .inl (List.mem_append_left _ later)
      · exact .inr settled
    · exact .inl (List.mem_append_right _ new)

theorem Idle.closure_eq {count : Nat} (idle : solver.Idle count)
    (empty : (solver.afterServing count).worklist.toList = []) :
    solver.closingAfter count =
      Derivation.closure solver.graph solver.annotations solver.graph.upgraded := by
  have ended := Derivation.closure_pending solver.graph solver.annotations
    solver.graph.upgraded_distinct
  have finished : (solver.closingAfter count).step solver.graph solver.annotations = none := by
    rw [Derivation.Closing.step, ← idle.mirrors.pending, empty]
  refine iterate_eq_of_finished finished ?_
  unfold Derivation.closure at ended
  rw [Derivation.Closing.step, ended]

theorem Idle.mem_closure {count : Nat} (idle : solver.Idle count)
    (coherent : solver.graph.Coherent)
    (waits : (solver.afterServing count).worklist.toList.head? = some constraint) :
    constraint ∈ (Derivation.closure solver.graph solver.annotations
      solver.graph.upgraded).members.toList := by
  have known := (iterate_consistent coherent count).1.waiting (List.mem_of_mem_head? waits)
  refine solver.closingAfter_subset count ?_
  rw [← idle.mirrors.members]
  exact known

/-- If a solve changes nothing in the end, it changes nothing in its next turn
either. -/
theorem Idle.stable_of_unchanged {count : Nat} (idle : solver.Idle count)
    (coherent : solver.graph.Coherent) (specified : solver.graph.Specified)
    (neutral : solver.policy.bias = .neutral) (clean : solver.Clean)
    (unchanged : ∀ leaf, leaf ∈ solver.graph.leafParts →
      (solver.afterServing solver.rounds).annotations.get leaf = solver.annotations.get leaf)
    (waits : (solver.afterServing count).worklist.toList.head? = some constraint) :
    solver.annotations.Stable constraint := by
  have undisturbed := undisturbed coherent specified neutral count
  rcases solver.afterServing_succ count with ⟨-, empty⟩ | ⟨served, rest, waiting, equal⟩
  · rw [empty] at waits
    cases waits
  · have same : served = constraint := by
      rw [waiting] at waits
      exact Option.some.inj waits
    rw [same] at waiting equal
    have popped := undisturbed.consistent.popped waiting
    have between := undisturbed.consistent.between constraint popped.2
    rw [undisturbed.graph] at between
    have included := leaves_subset_of_between between
    rcases (undisturbed.turn specified waiting equal).outcome with
      ⟨narrowing, applied, annotations, -⟩ | ⟨fails, -, -⟩
    · have before := afterServing_fewer coherent specified neutral 0 (count + 1)
      have after := afterServing_fewer coherent specified neutral (count + 1) solver.rounds
      rw [Nat.zero_add, afterServing_zero_annotations] at before
      rw [afterServing_of_rounds_le coherent (Nat.le_add_left _ _)] at after
      have startApplied : solver.annotations.apply Leaf.isImmutable constraint =
          .ok narrowing := idle.annotations ▸ applied
      refine Annotations.stable_of_get_eq coherent.places included.1 included.2 startApplied
        fun leaf member => QualifierSet.ext fun qualifier => ?_
      rw [← annotations]
      refine ⟨before leaf member qualifier, fun carried => after leaf member qualifier ?_⟩
      rwa [unchanged leaf member]
    · exact absurd ⟨waits, fails⟩ (clean count constraint)

/-- A neutral solve in which nothing fails changes no leaf exactly if all that
follows from the constraints at the start, and they themselves, can be applied
without a change. -/
theorem unchanged_iff (coherent : solver.graph.Coherent) (specified : solver.graph.Specified)
    (neutral : solver.policy.bias = .neutral) :
    (solver.Clean ∧ ∀ leaf, leaf ∈ solver.graph.leafParts →
        solver.solve.annotations.get leaf = solver.annotations.get leaf) ↔
      ∀ member, member ∈ (Derivation.closure solver.graph solver.annotations
        solver.graph.upgraded).members.toList → solver.annotations.Stable member := by
  have atEnd : solver.solve.annotations = (solver.afterServing solver.rounds).annotations := by
    rcases solve_eq_afterServing coherent specified neutral with ⟨log, solved⟩
    rw [solved]
  rw [atEnd]
  constructor
  · rintro ⟨clean, unchanged⟩
    have idle : ∀ count, solver.Idle count := by
      intro count
      induction count with
      | zero => exact solver.idle_zero
      | succ count induction =>
          exact induction.succ coherent fun constraint waits =>
            induction.stable_of_unchanged coherent specified neutral clean unchanged waits
    have ended := idle solver.rounds
    have empty : (solver.afterServing solver.rounds).worklist.toList = [] :=
      iterate_waiting coherent
    intro member present
    rw [← ended.closure_eq empty] at present
    rcases ended.served member present with waits | stable
    · rw [← ended.mirrors.pending, empty] at waits
      cases waits
    · exact stable
  · intro stable
    have idle : ∀ count, solver.Idle count := by
      intro count
      induction count with
      | zero => exact solver.idle_zero
      | succ count induction =>
          exact induction.succ coherent fun constraint waits =>
            stable constraint (induction.mem_closure coherent waits)
    refine ⟨fun turn constraint fails => ?_, fun leaf _ => by rw [(idle solver.rounds).annotations]⟩
    have failed := fails.2
    rw [(idle turn).annotations] at failed
    exact failed.not_stable (stable constraint ((idle turn).mem_closure coherent fails.1))

/-! ## Flows that come to rest -/

theorem Consistent.rests_of_changed {after : Solver} (consistent : solver.Consistent)
    (numbered : Numbered solver.graph.parts) (guarded : solver.Guarded)
    (changed : Changed solver after) (member : constraint ∈ solver.constraints.toList)
    (flatFlow : constraint.FlatFlow) (stable : solver.annotations.Stable constraint) :
    constraint.key ∈ after.worklist.keys ∨ after.annotations.Stable constraint := by
  rcases consistent.agree_or_waiting numbered flatFlow guarded changed member with waiting | agree
  · exact .inl waiting
  · have included := leaves_subset_of_between (consistent.between constraint member)
    have separate := consistent.places.subset (List.append_subset.mpr included)
    exact .inr (stable.of_agree separate constraint.left_below constraint.right_below
      agree)

/-- The invariant of a solve in which nothing fails: each flow between flat
values waits, or could be applied without a change. -/
structure Rested (solver : Solver) : Prop where
  consistent : solver.Consistent
  numbered : Numbered solver.graph.parts
  guarded : solver.Guarded
  rested : ∀ member, member ∈ solver.constraints.toList → member.FlatFlow →
    member.key ∈ solver.worklist.keys ∨ solver.annotations.Stable member

theorem Rested.serve {rest : Worklist} (rested : solver.Rested)
    (specified : solver.graph.Specified)
    (waiting : solver.worklist.toList = constraint :: rest.toList)
    (succeeds : ¬ solver.annotations.Fails constraint) :
    (({ solver with worklist := rest } : Solver).serve constraint).Rested := by
  have popped := rested.consistent.popped waiting
  have unserved : Guarded { solver with worklist := rest } :=
    ⟨rested.guarded.numbered, rested.guarded.mutable⟩
  unfold Solver.serve
  split
  · next applied changed success =>
      have reached := changed_apply popped.1.places (popped.1.between constraint popped.2) success
      have consistent := popped.1.of_changed reached
      have numbered : Numbered applied.graph.parts := reached.graph.symm ▸ rested.numbered
      have guarded := (reached.spared unserved).1
      have atRest : ∀ member, member ∈ applied.constraints.toList → member.FlatFlow →
          member.key ∈ applied.worklist.keys ∨ applied.annotations.Stable member := by
        intro member present flatFlow
        rw [reached.constraints] at present
        by_cases same : member = constraint
        · rw [same] at flatFlow ⊢
          rcases popped.1.waiting_of_applied rested.numbered flatFlow popped.2 success with
            ⟨-, waits⟩ | ⟨-, unchanged, stable⟩
          · exact .inl waits
          · exact .inr (unchanged.symm ▸ stable)
        · rcases rested.rested member present flatFlow with waits | stable
          · have later := rested.consistent.keeps_waiting waiting present same waits
            exact .inl (reached.waiting later)
          · exact popped.1.rests_of_changed rested.numbered unserved reached present flatFlow stable
      rcases consistent.extend_eq applied.handedOn_between consistent.between
        (reached.constraints.symm ▸ popped.2) with ⟨found, extension⟩
      have extended := consistent.extension extension fun _ between => between
      rw [extension.equal] at extended ⊢
      refine ⟨extended, numbered, ⟨guarded.numbered, guarded.mutable⟩, ?_⟩
      intro member present flatFlow
      rcases ConstraintSet.mem_or_mem_of_mem_addAll present with earlier | new
      · exact (atRest member earlier flatFlow).imp_left fun waits =>
          Worklist.mem_keys_addAll.mpr (.inl waits)
      · exact .inl (Worklist.mem_keys_addAll.mpr (.inr (List.mem_map_of_mem new)))
  · next failure failed =>
      exact absurd (popped.1.fails_of_error specified popped.2 failed) succeeds

theorem Clean.rested (clean : solver.Clean) (wellFormed : solver.graph.WellFormed) (count : Nat) :
    (solver.afterServing count).Rested := by
  induction count with
  | zero =>
      exact ⟨start_consistent wellFormed.coherent, solver.start_graph.symm ▸ wellFormed.numbered,
        start_guarded wellFormed, fun _ present _ => .inl (start_waits present)⟩
  | succ count induction =>
      have graph : (solver.afterServing count).graph = solver.graph :=
        (iterate_consistent wellFormed.coherent count).2
      rcases solver.afterServing_succ count with ⟨same, -⟩ | ⟨constraint, rest, waiting, equal⟩
      · exact same ▸ induction
      · rw [equal]
        refine induction.serve (graph.symm ▸ wellFormed.specified) waiting fun fails => ?_
        exact clean count constraint ⟨by rw [waiting]; rfl, fails⟩

theorem Clean.stable (clean : solver.Clean) (wellFormed : solver.graph.WellFormed)
    (neutral : solver.policy.bias = .neutral) (known : constraint ∈ solver.solve.constraints.toList)
    (flatFlow : constraint.FlatFlow) : solver.solve.annotations.Stable constraint := by
  have ended := clean.rested wellFormed solver.rounds
  have empty : (solver.afterServing solver.rounds).worklist.toList = [] :=
    iterate_waiting wellFormed.coherent
  rcases solve_eq_afterServing wellFormed.coherent wellFormed.specified neutral with ⟨log, solved⟩
  rw [solved] at known ⊢
  refine (ended.rested constraint known flatFlow).resolve_left fun waits => ?_
  rw [Worklist.keys, empty] at waits
  cases waits

theorem solve_neutral (coherent : solver.graph.Coherent) (specified : solver.graph.Specified)
    (neutral : solver.policy.bias = .neutral) :
    solver.solve.graph = solver.graph ∧ solver.solve.policy.bias = .neutral := by
  have ended := undisturbed coherent specified neutral solver.rounds
  rcases solve_eq_afterServing coherent specified neutral with ⟨log, solved⟩
  rw [solved]
  exact ⟨ended.graph, ended.neutral⟩

/-- A second neutral solve, after one in which nothing failed, changes nothing
exactly if the constraints that the first one may have left behind can be
applied without a change. These are, in the closure of the constraints at the
start under the annotations that the first solve left, the unequalities, the
constraints with a side that adapts an adaptation, and the flows that the first
solve did not derive. -/
theorem solve_again_iff (solver : Solver) (wellFormed : solver.graph.WellFormed)
    (neutral : solver.policy.bias = .neutral) (clean : solver.Clean) :
    let first := solver.solve
    let closed := Derivation.close solver.graph first.annotations
      (.ofList solver.graph.upgraded.toList) solver.graph.upgraded
    (first.Clean ∧ ∀ leaf, leaf ∈ solver.graph.leafParts →
        first.solve.annotations.get leaf = first.annotations.get leaf) ↔
      ∀ constraint, constraint ∈ closed.1.toList →
        (constraint ∈ first.constraints.toList → ¬ constraint.FlatFlow) →
          first.annotations.Stable constraint := by
  intro first closed
  have kept := solve_neutral wellFormed.coherent wellFormed.specified neutral
  have again := @unchanged_iff first (kept.1.symm ▸ wellFormed.coherent)
    (kept.1.symm ▸ wellFormed.specified) kept.2
  rw [kept.1] at again
  refine again.trans ⟨fun stable member present _ => stable member present, ?_⟩
  intro stable member present
  by_cases known : member ∈ first.constraints.toList ∧ member.FlatFlow
  · exact clean.stable wellFormed neutral known.1 known.2
  · exact stable member present fun derived flatFlow => known ⟨derived, flatFlow⟩

/-- A content that is reached through a link of a link is copied, and the box
from where it is reached is secret. -/
def linkedTwice : ValueGraph :=
  let link : Value := .leaf
    (LeafSpec.leaf { identifier := "link", kind := .field, declared := .only .poly } 0 0)
  let box : Value := .leaf (LeafSpec.leaf { identifier := "box" } 0 1)
  let copy : Value := .leaf (LeafSpec.leaf { identifier := "copy" } 0 2)
  let secret : Value := .leaf
    (LeafSpec.leaf { identifier := "secret", kind := .constant, declared := .only .sensitive } 0 3)
  let linked : Value := .adapted .field 0 4 link box
  let reached : Value := .adapted .field 0 5 link linked
  { values := [link, box, copy, secret, linked, reached]
    constraints := .ofList
      [{ relation := .equality, left := reached, right := copy },
        { relation := .equality, left := box, right := secret }] }

/-- The same, but the box becomes secret before the copy is made. -/
def secretFirst : ValueGraph :=
  { linkedTwice with constraints := .ofList linkedTwice.constraints.toList.reverse }

private theorem linkedTwice_clean : Clean { graph := linkedTwice } :=
  (clean_iff (by decide) (by decide) rfl (failureStatus_of_noLibraries rfl rfl)).mpr (by decide)

private theorem secretFirst_clean : Clean { graph := secretFirst } :=
  (clean_iff (by decide) (by decide) rfl (failureStatus_of_noLibraries rfl rfl)).mpr (by decide)

private theorem linkedTwice_changed :
    let first := solve { graph := linkedTwice }
    ¬ (first.Clean ∧ ∀ leaf, leaf ∈ linkedTwice.leafParts →
        first.solve.annotations.get leaf = first.annotations.get leaf) := by
  intro first unchanged
  have same := unchanged.2
  revert same
  decide

private theorem secretFirst_stable {constraint : Constraint}
    (member : constraint ∈ secretFirst.constraints.toList) :
    (solve { graph := secretFirst }).annotations.Stable constraint := by
  rcases List.mem_cons.mp member with rfl | last
  · rfl
  · rw [List.mem_singleton.mp last]
    rfl

theorem solve_again_iff_secretFirst :
    let first := solve { graph := linkedTwice }
    let closed := Derivation.close linkedTwice first.annotations
      (.ofList linkedTwice.upgraded.toList) linkedTwice.upgraded
    let settled := solve { graph := secretFirst }
    (linkedTwice.WellFormed ∧ secretFirst.WellFormed) ∧
      (Clean { graph := linkedTwice } ∧ Clean { graph := secretFirst }) ∧
      (settled.Clean ∧ ∀ leaf, leaf ∈ secretFirst.leafParts →
        settled.solve.annotations.get leaf = settled.annotations.get leaf) ∧
      ¬ ∀ constraint, constraint ∈ closed.1.toList →
        (constraint ∈ first.constraints.toList → ¬ constraint.FlatFlow) →
          first.annotations.Stable constraint := by
  intro first closed settled
  have wellFormed : linkedTwice.WellFormed ∧ secretFirst.WellFormed := by decide
  have linkedIff := solve_again_iff { graph := linkedTwice } wellFormed.1 rfl linkedTwice_clean
  have secretIff := solve_again_iff { graph := secretFirst } wellFormed.2 rfl secretFirst_clean
  refine ⟨wellFormed, ⟨linkedTwice_clean, secretFirst_clean⟩, secretIff.mpr ?_,
    mt linkedIff.mpr linkedTwice_changed⟩
  have listed : (Derivation.close secretFirst (solve { graph := secretFirst }).annotations
      (.ofList secretFirst.upgraded.toList) secretFirst.upgraded).1.toList =
        secretFirst.constraints.toList := by decide
  rw [listed]
  exact fun member present _ => secretFirst_stable present

/-- The copy was made before the box became secret, and only a second solve
takes note of that. -/
theorem linkedTwice_changed_again :
    let first := solve { graph := linkedTwice }
    Clean { graph := linkedTwice } ∧
      ¬ (first.Clean ∧ ∀ leaf, leaf ∈ linkedTwice.leafParts →
          first.solve.annotations.get leaf = first.annotations.get leaf) :=
  ⟨linkedTwice_clean, linkedTwice_changed⟩

end Solver

end InfoFlow
