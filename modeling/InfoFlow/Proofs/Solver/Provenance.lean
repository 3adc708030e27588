import InfoFlow.Proofs.Derivation.Provenance
import InfoFlow.Proofs.Reordering
import InfoFlow.Proofs.ReverseFlow
import InfoFlow.Proofs.Solver.Registration
import InfoFlow.Proofs.Solver.Satisfiability

/-! Where the members of a working set come from.

A solve starts with the constraints of its graph, each of which may be followed
by its reverse flow, and adds what it derives. A reverse flow and a derived one
name what they were inferred from, and all of that was a member before them. Of
members with one key only the first is kept. So a constraint of the graph names
a cause after all if the reverse of an earlier one came before it. -/

namespace InfoFlow

namespace ValueGraph

variable {graph : ValueGraph} {constraint forth back member : Constraint}
  {originals : List Constraint} {key : ConstraintKey}

def Uncaused (graph : ValueGraph) : Prop :=
  ∀ constraint, constraint ∈ graph.constraints.toList → constraint.causes = []

instance (graph : ValueGraph) : Decidable graph.Uncaused :=
  inferInstanceAs (Decidable (∀ constraint, constraint ∈ graph.constraints.toList → _))

theorem Built.uncaused (built : graph.Built) : graph.Uncaused := by
  induction built with
  | empty noValues noConstraints =>
      intro constraint member
      rw [noConstraints] at member
      cases member
  | @intern graph built spec uncaused =>
      unfold ValueGraph.intern
      split
      · exact uncaused
      · exact uncaused
  | @adapt graph built adaptation declaration context _ _ uncaused =>
      unfold ValueGraph.adapt
      split
      · exact uncaused
      · exact uncaused
  | @add graph next built relation left right _ _ added uncaused =>
      have accepted : graph.add relation left right = .ok next := added
      rcases (@add_eq_ok_iff graph next (relation, left, right)).mp accepted with ⟨-, rfl⟩
      intro constraint member
      rcases ConstraintSet.mem_or_eq_of_mem_add member with known | rfl
      · exact uncaused constraint known
      · rfl

/-- The flow of one constraint also runs backwards, and that is another
constraint. -/
structure Mirrors (graph : ValueGraph) (forth back : Constraint) : Prop where
  flowsBack : graph.flowsBack forth = true
  key : back.key = ⟨.subtype, forth.right.id, forth.left.id⟩
  apart : forth.key ≠ back.key

instance (graph : ValueGraph) (forth back : Constraint) : Decidable (graph.Mirrors forth back) :=
  decidable_of_iff
    (graph.flowsBack forth = true ∧ back.key = ⟨.subtype, forth.right.id, forth.left.id⟩ ∧
      forth.key ≠ back.key)
    ⟨fun all => ⟨all.1, all.2.1, all.2.2⟩,
      fun mirrors => ⟨mirrors.flowsBack, mirrors.key, mirrors.apart⟩⟩

/-! ## Constraints with their reverse flows -/

theorem upgrade_grounded
    (uncaused : ∀ constraint, constraint ∈ originals → constraint.causes = []) :
    Grounded (graph.upgrade originals).toList := by
  induction originals using List.reverseRecOn with
  | nil => exact .nil
  | append_singleton earlier last induction =>
      have grounded := induction fun constraint member =>
        uncaused constraint (List.mem_append_left _ member)
      have noCauses : last.causes = [] := uncaused last (List.mem_append_right _ List.mem_cons_self)
      have added : Grounded ((graph.upgrade earlier).add last).toList :=
        grounded.add (noCauses ▸ List.nil_subset _)
      rw [upgrade_append]
      split
      · refine added.add fun cause caused => ?_
        rw [Constraint.mem_causes_inferred, List.map_singleton, List.mem_singleton] at caused
        exact ConstraintSet.mem_keys_add.mpr (.inr caused)
      · exact added

/-- Among some constraints one with the same key is not preceded by any that it
mirrors. -/
def GivenFirst (graph : ValueGraph) (originals : List Constraint) (member : Constraint) : Prop :=
  ∃ before original after, originals = before ++ original :: after ∧ original.key = member.key ∧
    ∀ earlier, earlier ∈ before → ¬ graph.Mirrors earlier original

theorem Mirrors.of_key_eq (mirrors : graph.Mirrors forth back) (sameKey : back.key = member.key) :
    graph.Mirrors forth member :=
  ⟨mirrors.flowsBack, sameKey ▸ mirrors.key, sameKey ▸ mirrors.apart⟩

theorem GivenFirst.of_key_eq (given : graph.GivenFirst originals constraint)
    (sameKey : constraint.key = member.key) : graph.GivenFirst originals member := by
  rcases given with ⟨before, original, after, parts, same, first⟩
  exact ⟨before, original, after, parts, same.trans sameKey, first⟩

theorem GivenFirst.exists_original (given : graph.GivenFirst originals member) :
    ∃ original, original ∈ originals ∧ original.key = member.key := by
  rcases given with ⟨before, original, after, rfl, sameKey, -⟩
  exact ⟨original, List.mem_append_right _ List.mem_cons_self, sameKey⟩

private theorem givenFirst_append (present : member.key ∈ (graph.upgrade originals).keys) :
    graph.GivenFirst (originals ++ [constraint]) member ↔ graph.GivenFirst originals member := by
  constructor
  · rintro ⟨before, original, after, split, sameKey, first⟩
    rcases List.eq_nil_or_concat after with rfl | ⟨earlier, last, rfl⟩
    · rcases List.append_inj' split rfl with ⟨rfl, equal⟩
      have same : ∃ origin, origin ∈ originals ∧ origin.key = member.key := by
        rcases mem_keys_upgrade.mp present with ⟨origin, known, itself | ⟨back, reverse⟩⟩
        · exact ⟨origin, known, itself.symm⟩
        · refine ⟨origin, known, ?_⟩
          by_contra apart
          exact first origin known
            ⟨back, sameKey.trans reverse, fun same => apart (same.trans sameKey)⟩
      rcases same with ⟨origin, known, itself⟩
      rcases List.append_of_mem known with ⟨sooner, later, rfl⟩
      refine ⟨sooner, origin, later, rfl, itself, fun earlier isEarlier mirrors => ?_⟩
      exact first earlier (List.mem_append_left _ isEarlier)
        (mirrors.of_key_eq (itself.trans sameKey.symm))
    · have inside : originals ++ [constraint] = (before ++ original :: earlier) ++ [last] := by
        rw [split, List.concat_eq_append, List.append_assoc, List.cons_append]
      exact ⟨before, original, earlier, (List.append_inj' inside rfl).1, sameKey, first⟩
  · rintro ⟨before, original, after, rfl, sameKey, first⟩
    exact ⟨before, original, after ++ [constraint], by simp, sameKey, first⟩

/-- A member has no causes exactly if it was given before it could be the
reverse flow of another. -/
theorem causes_upgrade_iff
    (uncaused : ∀ constraint, constraint ∈ originals → constraint.causes = []) :
    ∀ member, member ∈ (graph.upgrade originals).toList →
      (member.causes = [] ↔ graph.GivenFirst originals member) := by
  induction originals using List.reverseRecOn with
  | nil =>
      intro member present
      cases present
  | append_singleton earlier last induction =>
      have known := induction fun constraint member =>
        uncaused constraint (List.mem_append_left _ member)
      have noCauses : last.causes = [] := uncaused last (List.mem_append_right _ List.mem_cons_self)
      have old : ∀ member, member ∈ (graph.upgrade earlier).toList →
          (member.causes = [] ↔ graph.GivenFirst (earlier ++ [last]) member) :=
        fun member present => (known member present).trans
          (givenFirst_append (List.mem_map_of_mem present)).symm
      have given : ∀ member, member ∈ ((graph.upgrade earlier).add last).toList →
          (member.causes = [] ↔ graph.GivenFirst (earlier ++ [last]) member) := by
        refine ConstraintSet.forall_mem_add old fun new => iff_of_true noCauses ?_
        refine ⟨earlier, last, [], rfl, rfl, fun origin isOrigin mirrors => new ?_⟩
        exact mem_keys_upgrade.mpr ⟨origin, isOrigin, .inr ⟨mirrors.flowsBack, mirrors.key⟩⟩
      rw [upgrade_append]
      split
      · refine ConstraintSet.forall_mem_add given fun new => iff_of_false ?_ fun first => new ?_
        · exact List.ne_nil_of_mem (Constraint.mem_causes_inferred.mpr List.mem_cons_self)
        · rcases first.exists_original with ⟨original, isGiven, sameKey⟩
          refine sameKey ▸ ConstraintSet.mem_keys_add.mpr ?_
          rcases List.mem_append.mp isGiven with sooner | itself
          · exact .inl (mem_keys_upgrade.mpr ⟨original, sooner, .inl rfl⟩)
          · exact .inr (congrArg Constraint.key (List.mem_singleton.mp itself))
      · exact given

theorem Mirrors.symm (wellFormed : graph.WellFormed)
    (forthMember : forth ∈ graph.constraints.toList)
    (backMember : back ∈ graph.constraints.toList) (mirrors : graph.Mirrors forth back) :
    graph.Mirrors back forth := by
  have between : ∀ constraint, constraint ∈ graph.constraints.toList →
      constraint.Between graph.parts := fun constraint member =>
    ⟨mem_parts_of_mem_values (wellFormed.sides constraint member).1,
      mem_parts_of_mem_values (wellFormed.sides constraint member).2⟩
  have reverse : back.Alike (.inferred forth.right forth.left [forth]) :=
    Constraint.alike_of_key_eq wellFormed.numbered (between back backMember)
      (by simpa [Constraint.Between] using (between forth forthMember).symm)
      (by simpa using mirrors.key)
  have backFlows : back.relation = .subtype := by simpa using reverse.relation
  have left : back.left = forth.right := by simpa using reverse.left
  have right : back.right = forth.left := by simpa using reverse.right
  have flows := mirrors.flowsBack
  simp only [ValueGraph.flowsBack, withinLibraryCall, Bool.and_eq_true, decide_eq_true_eq] at flows
  refine ⟨?_, ?_, mirrors.apart.symm⟩
  · simp only [ValueGraph.flowsBack, withinLibraryCall, backFlows, left, right]
    grind
  · rw [left, right, Constraint.key, flows.1.1]

private theorem mem_before_or {first second : Constraint} {before after sooner later : List Constraint}
    (parts : before ++ first :: after = sooner ++ second :: later) (apart : first ≠ second) :
    first ∈ sooner ∨ second ∈ before := by
  rcases List.append_eq_append_iff.mp parts with ⟨between, rfl, rest⟩ | ⟨between, rfl, rest⟩
  · rcases List.cons_eq_append_iff.mp rest with ⟨-, equal⟩ | ⟨more, rfl, -⟩
    · exact absurd (List.cons.inj equal).1.symm apart
    · exact .inl (List.mem_append_right _ List.mem_cons_self)
  · rcases List.cons_eq_append_iff.mp rest with ⟨-, equal⟩ | ⟨more, rfl, -⟩
    · exact absurd (List.cons.inj equal).1 apart
    · exact .inr (List.mem_append_right _ List.mem_cons_self)

/-- All constraints of a graph are given first exactly if none mirrors another. -/
theorem givenFirst_iff (wellFormed : graph.WellFormed) :
    (∀ member, member ∈ graph.constraints.toList →
        graph.GivenFirst graph.constraints.toList member) ↔
      ∀ forth, forth ∈ graph.constraints.toList → ∀ back, back ∈ graph.constraints.toList →
        ¬ graph.Mirrors forth back := by
  constructor
  · intro every forth forthMember back backMember mirrors
    rcases every forth forthMember with ⟨before, first, after, parts, isForth, noneBefore⟩
    rcases every back backMember with ⟨sooner, second, later, others, isBack, noneSooner⟩
    have firstMember : first ∈ graph.constraints.toList :=
      parts ▸ List.mem_append_right _ List.mem_cons_self
    have secondMember : second ∈ graph.constraints.toList :=
      others ▸ List.mem_append_right _ List.mem_cons_self
    have backwards : graph.Mirrors second first :=
      ((mirrors.of_key_eq isBack.symm).symm wellFormed forthMember secondMember).of_key_eq
        isForth.symm
    have apart : first ≠ second := fun equal => backwards.apart (equal ▸ rfl)
    rcases mem_before_or (parts.symm.trans others) apart with firstSooner | secondBefore
    · exact noneSooner first firstSooner (backwards.symm wellFormed secondMember firstMember)
    · exact noneBefore second secondBefore backwards
  · intro none member present
    rcases List.append_of_mem present with ⟨before, after, parts⟩
    refine ⟨before, member, after, parts, rfl, fun earlier isEarlier => ?_⟩
    exact none earlier (parts ▸ List.mem_append_left _ isEarlier) member present

end ValueGraph

namespace Solver

variable {solver next : Solver}

/-! ## The run -/

/-- What a solve did not start with has causes, and they all stand before it. -/
private structure Traced (solver : Solver) : Prop where
  grounded : Grounded solver.constraints.toList
  inferred : ∀ member, member ∈ solver.constraints.toList →
    member ∈ solver.graph.upgraded.toList ∨ member.causes ≠ []

private theorem start_traced (uncaused : solver.graph.Uncaused) : solver.start.Traced := by
  constructor
  · rw [start_constraints]
    exact ValueGraph.upgrade_grounded uncaused
  · intro member present
    rw [start_graph]
    exact .inl (solver.start_constraints ▸ present)

private theorem Traced.step (traced : solver.Traced) (consistent : solver.Consistent)
    (stepped : solver.step = some next) : next.Traced := by
  have sameGraph := (consistent.step_graph stepped).1
  rcases consistent.step_constraints stepped with
    same | ⟨constraint, annotations, member, grown⟩
  · constructor
    · rw [same]
      exact traced.grounded
    · rw [same, sameGraph]
      exact traced.inferred
  · have known : solver.index.registered.keys ⊆ solver.constraints.keys := by
      rw [consistent.registered]
      exact List.Subset.refl _
    have derived := @Derivation.derive_grounded solver.graph annotations _ _ _ traced.grounded
      known (ConstraintSet.mem_keys member)
    constructor
    · rw [grown]
      exact derived.1
    · intro other present
      rw [sameGraph]
      rw [grown] at present
      rcases ConstraintSet.mem_or_mem_of_mem_addAll present with earlier | new
      · exact traced.inferred other earlier
      · exact .inr (derived.2 other new)

private theorem solve_traced (coherent : solver.graph.Coherent)
    (uncaused : solver.graph.Uncaused) :
    solver.solve.Consistent ∧ solver.solve.Traced ∧ solver.solve.graph = solver.graph := by
  have kept : ∀ current next : Solver, current.step = some next →
      current.Consistent ∧ current.Traced → next.Consistent ∧ next.Traced :=
    fun current next stepped both => ⟨both.1.step stepped, both.2.step both.1 stepped⟩
  have served := iterate_preserves kept solver.rounds
    ⟨start_consistent coherent, start_traced uncaused⟩
  rcases served.1.finish with ⟨finished, constraints, graph⟩
  refine ⟨finished, ⟨?_, ?_⟩, graph.trans (iterate_consistent coherent solver.rounds).2⟩
  · rw [solve, constraints]
    exact served.2.grounded
  · rw [solve, constraints, graph]
    exact served.2.inferred

/-- Every cause of a constraint of the working set is that of one before it. A
way from constraints to their causes comes to none of them twice, and it ends
where there are no causes. -/
theorem solve_provenance (solver : Solver) (coherent : solver.graph.Coherent)
    (uncaused : solver.graph.Uncaused) :
    (∀ (position : Nat) (constraint : Constraint),
      solver.solve.constraints.toList[position]? = some constraint →
      ∀ cause, cause ∈ constraint.causes →
        ∃ (earlier : Nat) (premise : Constraint), earlier < position ∧
          solver.solve.constraints.toList[earlier]? = some premise ∧ premise.key = cause) ∧
      ∀ chain, CauseChain solver.solve.constraints.toList chain →
        chain.Nodup ∧ chain.length ≤ solver.solve.constraints.size ∧
          ∀ last, last ∈ chain.getLast? →
            (last.causes = [] ↔
              ∀ premise, ¬ CauseChain solver.solve.constraints.toList (chain ++ [premise])) := by
  rcases solve_traced coherent uncaused with ⟨consistent, traced, -⟩
  constructor
  · intro position constraint found cause caused
    exact traced.grounded.cause_before found caused
  · intro chain descends
    have ends := traced.grounded.chain_ends consistent.distinct descends
    exact ⟨ends.1, ends.2, fun last isLast => traced.grounded.chain_stops_iff descends isLast⟩

theorem solve_provenance_passedSecret :
    passedSecret.Coherent ∧ passedSecret.Uncaused ∧
      ∃ chain, CauseChain (solve { graph := passedSecret }).constraints.toList chain ∧
        chain.length = 4 ∧ chain.Nodup := by
  have coherent : passedSecret.Coherent := by decide
  have uncaused : passedSecret.Uncaused := by decide
  let chain := [7, 6, 3, 2].filterMap fun position =>
    (solve { graph := passedSecret }).constraints.toList[position]?
  have descends : CauseChain (solve { graph := passedSecret }).constraints.toList chain :=
    ⟨by decide, by decide⟩
  have traced := solve_provenance { graph := passedSecret } coherent uncaused
  exact ⟨coherent, uncaused, chain, descends, by decide, (traced.2 chain descends).1⟩

/-- A constraint of the working set has no causes exactly if its graph gives it
before any constraint that it mirrors. So just the constraints of the graph have
no causes if and only if none of them mirrors another. -/
theorem solve_causes_iff (solver : Solver) (wellFormed : solver.graph.WellFormed)
    (uncaused : solver.graph.Uncaused) :
    (∀ constraint, constraint ∈ solver.solve.constraints.toList →
      (constraint.causes = [] ↔
        solver.graph.GivenFirst solver.graph.constraints.toList constraint)) ∧
      ((∀ constraint, constraint ∈ solver.solve.constraints.toList →
          (constraint.causes = [] ↔ constraint.key ∈ solver.graph.constraints.keys)) ↔
        ∀ forth, forth ∈ solver.graph.constraints.toList →
          ∀ back, back ∈ solver.graph.constraints.toList → ¬ solver.graph.Mirrors forth back) := by
  rcases solve_traced wellFormed.coherent uncaused with ⟨consistent, traced, sameGraph⟩
  have started : solver.graph.upgraded.toList ⊆ solver.solve.constraints.toList :=
    sameGraph ▸ consistent.started
  have originals : ∀ original, original ∈ solver.graph.constraints.toList →
      ∃ kept, kept ∈ solver.graph.upgraded.toList ∧ kept.key = original.key := fun original given =>
    List.mem_map.mp (ValueGraph.mem_keys_upgrade.mpr ⟨original, given, .inl rfl⟩)
  have first : ∀ constraint, constraint ∈ solver.solve.constraints.toList →
      (constraint.causes = [] ↔
        solver.graph.GivenFirst solver.graph.constraints.toList constraint) := by
    intro constraint member
    rcases traced.inferred constraint member with original | caused
    · exact ValueGraph.causes_upgrade_iff uncaused constraint (sameGraph ▸ original)
    · refine ⟨fun noCauses => absurd noCauses caused, fun given => ?_⟩
      rcases given.exists_original with ⟨original, isGiven, sameKey⟩
      rcases originals original isGiven with ⟨kept, isKept, keptKey⟩
      have equal : kept = constraint :=
        ConstraintSet.eq_of_key_eq consistent.distinct (started isKept) member
          (keptKey.trans sameKey)
      exact (ValueGraph.causes_upgrade_iff uncaused constraint (equal ▸ isKept)).mpr given
  refine ⟨first, Iff.trans ⟨fun every original given => ?_, fun every constraint member => ?_⟩
    (ValueGraph.givenFirst_iff wellFormed)⟩
  · rcases originals original given with ⟨kept, isKept, sameKey⟩
    have isGiven : kept.key ∈ solver.graph.constraints.keys :=
      sameKey ▸ ConstraintSet.mem_keys given
    have noCauses := (every kept (started isKept)).mpr isGiven
    exact ((first kept (started isKept)).mp noCauses).of_key_eq sameKey
  · rw [first constraint member]
    constructor
    · intro given
      exact List.mem_map.mpr given.exists_original
    · intro known
      rcases List.mem_map.mp known with ⟨original, given, sameKey⟩
      exact (every original given).of_key_eq sameKey

theorem solve_causes_iff_passedSecret :
    passedSecret.WellFormed ∧ passedSecret.Uncaused ∧
      ∀ constraint, constraint ∈ (solve { graph := passedSecret }).constraints.toList →
        (constraint.causes = [] ↔ constraint.key ∈ passedSecret.constraints.keys) := by
  have wellFormed : passedSecret.WellFormed := by decide
  have uncaused : passedSecret.Uncaused := by decide
  have given := solve_causes_iff { graph := passedSecret } wellFormed uncaused
  exact ⟨wellFormed, uncaused, given.2.mpr (by decide)⟩

/-- Two variables that flow into each other. -/
def mutualFlow : ValueGraph :=
  let first : Value := .leaf (LeafSpec.leaf { identifier := "x" } 0 0)
  let second : Value := .leaf (LeafSpec.leaf { identifier := "y" } 0 1)
  { values := [first, second]
    constraints := .ofList [.inferred first second [], .inferred second first []] }

/-- The second flow is one of the graph, but the solve has it as the reverse of
the first, with a cause. -/
theorem mutualFlow_caused :
    mutualFlow.WellFormed ∧ mutualFlow.Uncaused ∧
      ∃ constraint, constraint ∈ (solve { graph := mutualFlow }).constraints.toList ∧
        constraint.key ∈ mutualFlow.constraints.keys ∧ constraint.causes ≠ [] := by
  decide

end Solver

end InfoFlow
