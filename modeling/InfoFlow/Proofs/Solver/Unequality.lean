import InfoFlow.Proofs.Narrowing.Unequality
import InfoFlow.Proofs.Solver.Neutral

/-! The one turn of an unequality.

The index does not list unequalities, so a write of a side does not queue them:
each is served once, in its turn. If a side has a single qualifier by then, the
unequality fails or its sides stay apart for the rest of the solve. Otherwise
its turn changes nothing, and what happens to its sides afterwards goes
unnoticed. -/

namespace InfoFlow.Solver

variable {solver : Solver} {constraint : Constraint} {index : Nat}

/-- A constraint that fails is a conflict, and any other can be applied without
a change. -/
def Accounts (solver : Solver) (constraint : Constraint) : Prop :=
  (solver.annotations.Fails constraint → solver.conflicts.contains constraint = true) ∧
    (¬ solver.annotations.Fails constraint → solver.annotations.Stable constraint)

theorem Undisturbed.key_ne {count : Nat} {served : Constraint} {rest : Worklist}
    (undisturbed : solver.Undisturbed count)
    (position : solver.graph.upgraded.toList[index]? = some constraint)
    (relation : constraint.relation = .unequality) (another : count ≠ index)
    (waiting : (solver.afterServing count).worklist.toList = served :: rest.toList) :
    constraint.key ≠ served.key := by
  intro sameKey
  rcases (undisturbed.served waiting).1 with servedPosition | ⟨-, flow⟩
  · have distinct := solver.graph.upgraded_distinct
    have keyAt : solver.graph.upgraded.keys[index]? = some constraint.key := by
      rw [ConstraintSet.keys, List.getElem?_map, position]
      rfl
    have servedKeyAt : solver.graph.upgraded.keys[count]? = some constraint.key := by
      rw [ConstraintSet.keys, List.getElem?_map, servedPosition, sameKey]
      rfl
    rcases List.getElem?_eq_some_iff.mp keyAt with ⟨inRange, atIndex⟩
    rcases List.getElem?_eq_some_iff.mp servedKeyAt with ⟨servedInRange, atCount⟩
    exact another ((distinct.getElem_inj_iff).mp (atCount.trans atIndex.symm))
  · have sameRelation : constraint.relation = served.relation :=
      congrArg ConstraintKey.relation sameKey
    rw [Constraint.isFlow, ← sameRelation, relation] at flow
    cases flow

theorem mem_conflicts_iff (plain : solver.graph.Plain) (neutral : solver.policy.bias = .neutral)
    (position : solver.graph.upgraded.toList[index]? = some constraint)
    (relation : constraint.relation = .unequality)
    (error : solver.graph.failureStatus constraint = some .error) (count : Nat) :
    constraint.key ∈ (solver.afterServing count).conflicts.keys ↔
      index < count ∧ (solver.afterServing index).annotations.Fails constraint := by
  have inRange : index < solver.graph.upgraded.toList.length :=
    (List.getElem?_eq_some_iff.mp position).1
  induction count with
  | zero =>
      rcases solver.start_eq with ⟨log, started⟩
      have none : solver.start.conflicts.keys = [] := by rw [started]; rfl
      have atStart : (solver.afterServing 0).conflicts.keys = [] := none
      simp [atStart]
  | succ count induction =>
      have undisturbed :=
        undisturbed plain.wellFormed.coherent plain.wellFormed.specified neutral count
      rcases solver.afterServing_succ count with ⟨same, empty⟩ | ⟨served, rest, waiting, equal⟩
      · have passed := undisturbed.length_le_of_empty empty
        have sameTime : index < count ↔ index < count + 1 := by omega
        rw [same]
        exact induction.trans (and_congr_left' sameTime)
      · have turn := undisturbed.turn plain.wellFormed.specified waiting equal
        by_cases its : count = index
        · rcases (undisturbed.served waiting).1 with servedPosition | ⟨beyond, -⟩
          · rw [its, position] at servedPosition
            rw [← Option.some.inj servedPosition] at turn
            have reported := turn.mem_conflicts_self (undisturbed.graph.symm ▸ error)
            have before : ¬ constraint.key ∈ (solver.afterServing count).conflicts.keys := by
              intro present
              exact absurd (induction.mp present).1 (its ▸ Nat.lt_irrefl index)
            have now : index < count + 1 := its ▸ Nat.lt_succ_self count
            rw [← its] at now ⊢
            exact reported.trans ((or_iff_right before).trans (and_iff_right now).symm)
          · omega
        · have unchanged := turn.mem_conflicts_other
            (undisturbed.key_ne position relation its waiting)
          have sameTime : index < count ↔ index < count + 1 := by omega
          exact unchanged.trans (induction.trans (and_congr_left' sameTime))

theorem turn_at (plain : solver.graph.Plain) (neutral : solver.policy.bias = .neutral)
    (position : solver.graph.upgraded.toList[index]? = some constraint) :
    ∃ rest, Turn { solver.afterServing index with worklist := rest } constraint
      (solver.afterServing (index + 1)) := by
  have undisturbed :=
    undisturbed plain.wellFormed.coherent plain.wellFormed.specified neutral index
  rcases List.getElem?_eq_some_iff.mp position with ⟨inRange, -⟩
  rcases solver.afterServing_succ index with ⟨-, empty⟩ | ⟨served, rest, waiting, equal⟩
  · have passed := undisturbed.length_le_of_empty empty
    omega
  · have turn := undisturbed.turn plain.wellFormed.specified waiting equal
    rcases (undisturbed.served waiting).1 with servedPosition | ⟨beyond, -⟩
    · rw [position] at servedPosition
      rw [← Option.some.inj servedPosition] at turn
      exact ⟨rest, turn⟩
    · omega

/-- If a side of an unequality of leaves has a single qualifier left in its
turn, and it does not fail, then it is stable from then on. -/
theorem Turn.stable_of_few {next : Solver} {later : Annotations} {leaves : List Leaf}
    {left right : Leaf} (turn : solver.Turn constraint next) (places : SeparatePlaces leaves)
    (leftMember : left ∈ leaves) (rightMember : right ∈ leaves)
    (relation : constraint.relation = .unequality) (leftSide : constraint.left = .leaf left)
    (rightSide : constraint.right = .leaf right)
    (succeeds : ¬ solver.annotations.Fails constraint)
    (few : (solver.annotations.get left).size ≤ 1 ∨ (solver.annotations.get right).size ≤ 1)
    (shrinks : Annotations.Shrinks leaves next.annotations later) :
    later.Stable constraint := by
  rcases turn.outcome with ⟨narrowing, applied, annotations, -⟩ | ⟨fails, -, -⟩
  · rw [annotations] at shrinks
    rcases Annotations.apart_of_single places leftMember rightMember relation leftSide rightSide
      applied few with apart | apart
    · exact (apart.of_shrinks shrinks leftMember rightMember).stable relation
        (.inl ⟨leftSide, rightSide⟩)
    · exact (apart.of_shrinks shrinks rightMember leftMember).stable relation
        (.inr ⟨leftSide, rightSide⟩)
  · exact absurd fails succeeds

theorem accounts_iff (plain : solver.graph.Plain) (neutral : solver.policy.bias = .neutral)
    (position : solver.graph.upgraded.toList[index]? = some constraint)
    (relation : constraint.relation = .unequality)
    (error : solver.graph.failureStatus constraint = some .error) :
    solver.solve.Accounts constraint ↔
      ((solver.afterServing index).annotations.view constraint.left).size ≤ 1 ∨
        ((solver.afterServing index).annotations.view constraint.right).size ≤ 1 ∨
        solver.solve.annotations.Stable constraint := by
  have specified : constraint.relation ≠ .unspecified := by
    rw [relation]
    decide
  have between := plain.wellFormed.coherent.upgraded_between (List.mem_of_getElem? position)
  rcases plain.leaf_of_mem_parts between.1 with ⟨left, leftSide, leftMember⟩
  rcases plain.leaf_of_mem_parts between.2 with ⟨right, rightSide, rightMember⟩
  have beforeEnd : index < solver.rounds := by
    have empty := iterate_waiting plain.wellFormed.coherent
    have passed := (undisturbed plain.wellFormed.coherent plain.wellFormed.specified neutral
      solver.rounds).length_le_of_empty empty
    have inRange := (List.getElem?_eq_some_iff.mp position).1
    omega
  have conflict := mem_conflicts_iff plain neutral position relation error solver.rounds
  rcases solve_eq_afterServing plain.wellFormed.coherent plain.wellFormed.specified neutral with
    ⟨log, solved⟩
  have toEnd : ∀ count, count ≤ solver.rounds →
      Annotations.Shrinks solver.graph.leafParts (solver.afterServing count).annotations
        solver.solve.annotations := by
    intro count earlier
    have shrinks := afterServing_shrinks plain neutral count (solver.rounds - count)
    rw [solved]
    rwa [Nat.add_sub_cancel' earlier] at shrinks
  have reported : solver.solve.conflicts.contains constraint = true ↔
      (solver.afterServing index).annotations.Fails constraint := by
    rw [ConstraintSet.contains_iff, solved]
    exact conflict.trans (and_iff_right beforeEnd)
  rcases turn_at plain neutral position with ⟨rest, turn⟩
  constructor
  · rintro ⟨failsReported, stable⟩
    by_cases leftFew : ((solver.afterServing index).annotations.view constraint.left).size ≤ 1
    · exact .inl leftFew
    · by_cases rightFew : ((solver.afterServing index).annotations.view constraint.right).size ≤ 1
      · exact .inr (.inl rightFew)
      · have stableThen := Annotations.stable_of_many relation leftFew rightFew
        refine .inr (.inr (stable fun fails => ?_))
        exact (reported.mp (failsReported fails)).not_stable stableThen
  · intro condition
    by_cases fails : (solver.afterServing index).annotations.Fails constraint
    · have failsAtEnd := fails.of_fewer specified (toEnd index (Nat.le_of_lt beforeEnd)).subset
        (ValueGraph.leaves_subset_leafParts between.1)
        (ValueGraph.leaves_subset_leafParts between.2)
      exact ⟨fun _ => reported.mpr fails, fun succeeds => absurd failsAtEnd succeeds⟩
    · rw [leftSide, rightSide] at condition
      have ofFew := fun few =>
        turn.stable_of_few plain.wellFormed.coherent.places leftMember rightMember relation
          leftSide rightSide fails few (toEnd (index + 1) beforeEnd)
      have stable : solver.solve.annotations.Stable constraint := by
        rcases condition with few | few | stable
        · exact ofFew (.inl few)
        · exact ofFew (.inr few)
        · exact stable
      exact ⟨fun failsAtEnd => absurd stable failsAtEnd.not_stable, fun _ => stable⟩

/-- A neutral solve of a plain graph whose failures are errors accounts for all
unequalities exactly if each of them has a side with at most one qualifier in
its turn or is stable at the end. -/
theorem solve_accounts_iff (solver : Solver) (plain : solver.graph.Plain)
    (neutral : solver.policy.bias = .neutral)
    (errors : ∀ member, member ∈ solver.graph.constraints.toList →
      solver.graph.failureStatus member = some .error) :
    (∀ member, member ∈ solver.solve.constraints.toList → member.relation = .unequality →
        solver.solve.Accounts member) ↔
      ∀ index member, solver.graph.upgraded.toList[index]? = some member →
        member.relation = .unequality →
          ((solver.afterServing index).annotations.view member.left).size ≤ 1 ∨
            ((solver.afterServing index).annotations.view member.right).size ≤ 1 ∨
            solver.solve.annotations.Stable member := by
  have undisturbed :=
    undisturbed plain.wellFormed.coherent plain.wellFormed.specified neutral solver.rounds
  have consistent := undisturbed.consistent
  have graph := undisturbed.graph
  have notFlow : ∀ member : Constraint, member.relation = .unequality →
      member.relation ≠ .subtype := by
    intro member relation
    rw [relation]
    decide
  have error : ∀ (index : Nat) (member : Constraint),
      solver.graph.upgraded.toList[index]? = some member → member.relation = .unequality →
        solver.graph.failureStatus member = some .error := by
    intro index member position relation
    rcases ValueGraph.mem_upgraded (List.mem_of_getElem? position) with known | ⟨-, -, flow, -⟩
    · exact errors member known
    · exact absurd flow (notFlow member relation)
  rcases solve_eq_afterServing plain.wellFormed.coherent plain.wellFormed.specified neutral with
    ⟨log, solved⟩
  have members : solver.solve.constraints = (solver.afterServing solver.rounds).constraints := by
    rw [solved]
  rw [members]
  constructor
  · intro accounts index member position relation
    have started := consistent.started
    rw [graph] at started
    have present := started (List.mem_of_getElem? position)
    exact (accounts_iff plain neutral position relation (error index member position relation)).mp
      (accounts member present relation)
  · intro condition member present relation
    have original : member ∈ solver.graph.upgraded.toList := by
      rcases consistent.origin member present with original | flow
      · exact graph ▸ original
      · exact absurd flow (notFlow member relation)
    rcases List.getElem?_of_mem original with ⟨index, position⟩
    exact (accounts_iff plain neutral position relation (error index member position relation)).mpr
      (condition index member position relation)

/-- Two variables that must differ, and each of which equals one secret. The
difference is served before the equalities. -/
def forgottenDifference : ValueGraph :=
  let first : Value := .leaf (LeafSpec.leaf { identifier := "x" } 0 0)
  let second : Value := .leaf (LeafSpec.leaf { identifier := "y" } 0 1)
  let secret : Value := .leaf
    (LeafSpec.leaf { identifier := "secret", kind := .constant, declared := .only .sensitive } 0 2)
  { values := [first, second, secret]
    constraints := .ofList
      [{ relation := .unequality, left := first, right := second },
        { relation := .equality, left := first, right := secret },
        { relation := .equality, left := second, right := secret }] }

/-- The same, but the difference is served last. -/
def keptDifference : ValueGraph :=
  { forgottenDifference with
    constraints := .ofList forgottenDifference.constraints.toList.reverse }

theorem solve_accounts_iff_keptDifference :
    (forgottenDifference.Plain ∧ keptDifference.Plain) ∧
      (∀ graph, graph ∈ [forgottenDifference, keptDifference] →
        ∀ member, member ∈ graph.constraints.toList → graph.failureStatus member = some .error) ∧
      (∀ member, member ∈ (solve { graph := keptDifference }).constraints.toList →
        member.relation = .unequality → (solve { graph := keptDifference }).Accounts member) ∧
      (solve { graph := keptDifference }).conflicts.size = 1 ∧
      ¬ ∀ member, member ∈ (solve { graph := forgottenDifference }).constraints.toList →
        member.relation = .unequality → (solve { graph := forgottenDifference }).Accounts member := by
  have plain : forgottenDifference.Plain ∧ keptDifference.Plain := by decide
  have errors : ∀ graph, graph ∈ [forgottenDifference, keptDifference] →
      ∀ member, member ∈ graph.constraints.toList → graph.failureStatus member = some .error := by
    decide
  have forgotten := solve_accounts_iff { graph := forgottenDifference } plain.1 rfl
    (errors _ List.mem_cons_self)
  have kept := solve_accounts_iff { graph := keptDifference } plain.2 rfl
    (errors _ (List.mem_cons_of_mem _ List.mem_cons_self))
  refine ⟨plain, errors, kept.mpr ?_, by decide, mt forgotten.mp ?_⟩
  · have single : ∀ index, (inside : index < keptDifference.upgraded.toList.length) →
        keptDifference.upgraded.toList[index].relation = .unequality →
          ((afterServing { graph := keptDifference } index).annotations.view
            keptDifference.upgraded.toList[index].left).size ≤ 1 := by decide
    intro index member position relation
    rcases List.getElem?_eq_some_iff.mp position with ⟨inside, rfl⟩
    exact .inl (single index inside relation)
  · intro condition
    let difference := forgottenDifference.constraints.toList[0]
    have left : ¬ ((afterServing { graph := forgottenDifference } 0).annotations.view
        difference.left).size ≤ 1 := by decide
    have right : ¬ ((afterServing { graph := forgottenDifference } 0).annotations.view
        difference.right).size ≤ 1 := by decide
    rcases condition 0 difference (by decide) rfl with few | few | stable
    · exact left few
    · exact right few
    · exact Annotations.Fails.not_stable ⟨_, _, rfl⟩ stable

/-- At the end the variables do not differ, and there is no conflict. -/
theorem forgottenDifference_unaccounted :
    forgottenDifference.Plain ∧
      (∀ member, member ∈ forgottenDifference.constraints.toList →
        forgottenDifference.failureStatus member = some .error) ∧
      ∃ member, member ∈ (solve { graph := forgottenDifference }).constraints.toList ∧
        member.relation = .unequality ∧
        (solve { graph := forgottenDifference }).annotations.Fails member ∧
        (solve { graph := forgottenDifference }).conflicts.contains member = false := by
  refine ⟨by decide, by decide, forgottenDifference.constraints.toList[0], ?_, rfl, ?_, ?_⟩
  · decide
  · exact ⟨_, _, rfl⟩
  · decide

end InfoFlow.Solver
