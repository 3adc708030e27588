import InfoFlow.Proofs.ReverseFlow
import InfoFlow.Proofs.Solver.Changes

/-! What every state of a solve has in common.

The index is that of the working set, whose members lie between parts of the
graph's values, and the waiting constraints and the conflicts are members of
it. The working set starts as the constraints of the graph with their reverse
flows, and only flows are added. -/

namespace InfoFlow

namespace ValueGraph

def upgraded (graph : ValueGraph) : ConstraintSet :=
  graph.withReverseFlows graph.constraints

variable {graph : ValueGraph} {constraint : Constraint}

theorem mem_withReverse_of_mem_upgraded (member : constraint ∈ graph.upgraded.toList) :
    ∃ forth, forth ∈ graph.constraints.toList ∧ constraint ∈ graph.withReverse forth :=
  List.mem_flatMap.mp (ConstraintSet.ofList_subset member)

theorem mem_upgraded (member : constraint ∈ graph.upgraded.toList) :
    constraint ∈ graph.constraints.toList ∨
      ∃ forth, forth ∈ graph.constraints.toList ∧ constraint.relation = .subtype ∧
        constraint.left = forth.right ∧ constraint.right = forth.left := by
  rcases mem_upgrade member with known | ⟨forth, known, -, rfl⟩
  · exact .inl known
  · exact .inr ⟨forth, known, rfl, rfl, rfl⟩

theorem size_upgraded_le (graph : ValueGraph) :
    graph.upgraded.size ≤ 2 * graph.constraints.size := by
  have bound : ∀ constraints : List Constraint,
      (constraints.flatMap graph.withReverse).length ≤ 2 * constraints.length := by
    intro constraints
    induction constraints with
    | nil => simp
    | cons constraint rest induction =>
        have once : (graph.withReverse constraint).length ≤ 2 := by
          unfold withReverse
          split <;> simp
        simp only [List.flatMap_cons, List.length_append, List.length_cons]
        omega
  have added : (ConstraintSet.addAll {} (graph.constraints.toList.flatMap graph.withReverse)).size
      ≤ 0 + (graph.constraints.toList.flatMap graph.withReverse).length :=
    ConstraintSet.size_addAll_le
  have all := bound graph.constraints.toList
  simp only [upgraded, withReverseFlows, ConstraintSet.ofList, ConstraintSet.size] at added all ⊢
  omega

theorem upgraded_distinct (graph : ValueGraph) : graph.upgraded.keys.Nodup :=
  ConstraintSet.nodup_keys_ofList _

theorem closed_parts (graph : ValueGraph) : Derivation.ClosedUnderParts graph.parts :=
  fun _ _ below member => mem_parts_of_mem_parts below member

theorem Coherent.upgraded_between (coherent : graph.Coherent)
    (member : constraint ∈ graph.upgraded.toList) : constraint.Between graph.parts := by
  rcases mem_upgraded member with known | ⟨forth, known, -, left, right⟩
  · have both := coherent.sides constraint known
    exact ⟨mem_parts_of_mem_values both.1, mem_parts_of_mem_values both.2⟩
  · have both := coherent.sides forth known
    exact ⟨left ▸ mem_parts_of_mem_values both.2, right ▸ mem_parts_of_mem_values both.1⟩

end ValueGraph

namespace Solver

variable {solver before after next : Solver} {constraint : Constraint}

/-- The invariant of the states of a solve. -/
structure Consistent (solver : Solver) : Prop where
  coherent : solver.graph.Coherent
  distinct : solver.constraints.keys.Nodup
  index : solver.index = .ofList solver.constraints.toList
  between : ∀ member, member ∈ solver.constraints.toList → member.Between solver.graph.parts
  origin : ∀ member, member ∈ solver.constraints.toList →
    member ∈ solver.graph.upgraded.toList ∨ member.relation = .subtype
  started : solver.graph.upgraded.toList ⊆ solver.constraints.toList
  waiting : solver.worklist.toList ⊆ solver.constraints.toList
  waitingDistinct : solver.worklist.keys.Nodup
  conflicts : solver.conflicts.toList ⊆ solver.constraints.toList
  conflictsDistinct : solver.conflicts.keys.Nodup

theorem Consistent.places (consistent : solver.Consistent) :
    SeparatePlaces solver.graph.leafParts :=
  consistent.coherent.places

theorem Consistent.registered (consistent : solver.Consistent) :
    solver.index.registered = solver.constraints := by
  rw [consistent.index]
  exact ReferenceIndex.registered_ofList consistent.distinct

theorem Consistent.among (consistent : solver.Consistent) :
    solver.index.Among solver.graph.parts := by
  rw [consistent.index]
  exact ReferenceIndex.among_ofList consistent.between

theorem Consistent.noted (consistent : solver.Consistent) : solver.index.Noted := by
  rw [consistent.index]
  exact ReferenceIndex.noted_ofList _

theorem Consistent.specified (consistent : solver.Consistent)
    (specified : solver.graph.Specified) (member : constraint ∈ solver.constraints.toList) :
    constraint.relation ≠ .unspecified := by
  intro unspecified
  have notFlow : constraint.relation ≠ .subtype := by
    rw [unspecified]
    decide
  rcases consistent.origin constraint member with original | flow
  · rcases ValueGraph.mem_upgraded original with known | ⟨-, -, flow, -⟩
    · exact specified constraint known unspecified
    · exact notFlow flow
  · exact notFlow flow

theorem Consistent.fails_of_error {failure : Failure} (consistent : solver.Consistent)
    (specified : solver.graph.Specified) (member : constraint ∈ solver.constraints.toList)
    (failed : solver.apply constraint = .error failure) : solver.annotations.Fails constraint :=
  Annotations.fails_of_error (consistent.specified specified member) (apply_eq_error.mp failed)

/-! ## The operations of a solver -/

theorem Consistent.of_changed (consistent : before.Consistent) (changed : Changed before after) :
    after.Consistent where
  coherent := changed.graph ▸ consistent.coherent
  distinct := changed.constraints ▸ consistent.distinct
  index := by rw [changed.index, changed.constraints]; exact consistent.index
  between := by rw [changed.constraints, changed.graph]; exact consistent.between
  origin := by rw [changed.constraints, changed.graph]; exact consistent.origin
  started := by rw [changed.constraints, changed.graph]; exact consistent.started
  waiting := by
    intro member present
    rw [changed.constraints]
    rcases changed.queued with ⟨more, equal, flows⟩
    rw [equal] at present
    rcases List.mem_append.mp present with earlier | new
    · exact consistent.waiting earlier
    · exact consistent.registered ▸ (flows member new).1
  waitingDistinct := changed.distinct consistent.waitingDistinct
  conflicts := by rw [changed.constraints, changed.conflicts]; exact consistent.conflicts
  conflictsDistinct := changed.conflicts ▸ consistent.conflictsDistinct

theorem Consistent.addConflict (consistent : solver.Consistent)
    (member : constraint ∈ solver.constraints.toList) :
    Consistent { solver with conflicts := solver.conflicts.add constraint } :=
  { consistent with
    conflicts := by
      intro conflict present
      rcases ConstraintSet.mem_or_eq_of_mem_add present with earlier | equal
      · exact consistent.conflicts earlier
      · exact equal ▸ member
    conflictsDistinct := ConstraintSet.nodup_keys_add consistent.conflictsDistinct constraint }

theorem Consistent.discardConflict (consistent : solver.Consistent) (constraint : Constraint) :
    Consistent { solver with conflicts := solver.conflicts.discard constraint } :=
  { consistent with
    conflicts := fun _ present => consistent.conflicts (List.mem_filter.mp present).1
    conflictsDistinct :=
      consistent.conflictsDistinct.sublist (List.filter_sublist.map Constraint.key) }

theorem fail_cases (solver : Solver) (constraint : Constraint) :
    (solver.graph.failureStatus constraint = some .error ∧
      ((solver.repair constraint).2 = .ok true ∧
          solver.fail constraint = (solver.repair constraint).1 ∨
        (solver.repair constraint).2 ≠ .ok true ∧
          solver.fail constraint =
            { (solver.repair constraint).1 with
              conflicts := (solver.repair constraint).1.conflicts.add constraint })) ∨
      (solver.graph.failureStatus constraint ≠ some .error ∧
        ∃ warned log, solver.fail constraint = { solver with warned, log }) := by
  cases status : solver.graph.failureStatus constraint with
  | none =>
      refine .inr ⟨by decide, solver.warned, solver.log, ?_⟩
      simp only [fail, status]
  | some kind =>
      cases kind with
      | error =>
          refine .inl ⟨rfl, ?_⟩
          simp only [fail, status]
          split
          · next repaired => exact .inl ⟨repaired, rfl⟩
          · next repaired => exact .inr ⟨fun succeeded => repaired succeeded, rfl⟩
      | warning =>
          refine .inr ⟨by decide, ?_⟩
          simp only [fail, status]
          split
          · exact ⟨solver.warned, solver.log, rfl⟩
          · rcases solver.report_eq .warning ("handling constraint " ++
              constraint.describe solver.annotations ++ " failed.") with ⟨log, reported⟩
            rw [reported]
            exact ⟨_, log, rfl⟩

theorem Consistent.fail (consistent : solver.Consistent)
    (member : constraint ∈ solver.constraints.toList) : (solver.fail constraint).Consistent := by
  have repaired := changed_repair consistent.places (consistent.between constraint member)
  have afterRepair := consistent.of_changed repaired
  rcases solver.fail_cases constraint with ⟨-, ⟨-, equal⟩ | ⟨-, equal⟩⟩ | ⟨-, warned, log, equal⟩
  · rw [equal]
    exact afterRepair
  · rw [equal]
    exact afterRepair.addConflict (repaired.constraints.symm ▸ member)
  · rw [equal]
    exact { consistent with }

structure Extension (solver : Solver) (property : Constraint → Prop) (after : Solver)
    (found : List Constraint) : Prop where
  equal : after =
    { solver with
      index := solver.index.registerAll found
      worklist := solver.worklist.addAll found
      constraints := solver.constraints.addAll found }
  toList : (solver.constraints.addAll found).toList = solver.constraints.toList ++ found
  flows : ∀ member, member ∈ found → member.relation = .subtype
  holds : ∀ member, member ∈ found → property member

theorem Consistent.extend_eq {property : Constraint → Prop} (consistent : solver.Consistent)
    (handedOn : Derivation.HandedOn solver.graph solver.annotations solver.graph.parts property)
    (known : ∀ member, member ∈ solver.constraints.toList → property member)
    (member : constraint ∈ solver.constraints.toList) :
    ∃ found, Extension solver property (solver.extend constraint) found := by
  have found : Derivation.Found solver.constraints solver.index property _ :=
    Derivation.derive_found handedOn (consistent.registered.symm ▸ known)
      consistent.among.adaptations (known constraint member)
  refine ⟨_, ?_, ConstraintSet.toList_addAll_of_new found.distinct found.new, found.flows,
    found.holds⟩
  rw [← found.index]
  rfl

theorem Consistent.extension {property : Constraint → Prop} {found : List Constraint}
    (consistent : solver.Consistent) (extension : Extension solver property after found)
    (between : ∀ member, property member → member.Between solver.graph.parts) :
    after.Consistent := by
  have cases_of_mem : ∀ member, member ∈ (solver.constraints.addAll found).toList →
      member ∈ solver.constraints.toList ∨ member ∈ found :=
    fun member present => ConstraintSet.mem_or_mem_of_mem_addAll present
  rw [extension.equal]
  constructor
  · exact consistent.coherent
  · exact ConstraintSet.nodup_keys_addAll consistent.distinct found
  · simp only [extension.toList, consistent.index, ReferenceIndex.ofList,
      ReferenceIndex.registerAll, List.foldl_append]
  · intro member present
    rcases cases_of_mem member present with earlier | new
    · exact consistent.between member earlier
    · exact between member (extension.holds member new)
  · intro member present
    rcases cases_of_mem member present with earlier | new
    · exact consistent.origin member earlier
    · exact .inr (extension.flows member new)
  · exact List.Subset.trans consistent.started ConstraintSet.subset_addAll
  · intro member present
    simp only [extension.toList, List.mem_append]
    rcases Worklist.mem_or_mem_of_mem_addAll present with earlier | new
    · exact .inl (consistent.waiting earlier)
    · exact .inr new
  · exact Worklist.nodup_keys_addAll consistent.waitingDistinct found
  · exact List.Subset.trans consistent.conflicts ConstraintSet.subset_addAll
  · exact consistent.conflictsDistinct

theorem handedOn_between (solver : Solver) :
    Derivation.HandedOn solver.graph solver.annotations solver.graph.parts
      (Constraint.Between solver.graph.parts) :=
  Derivation.handedOn_between _ _ solver.graph.closed_parts (List.Subset.refl _)

theorem Consistent.extend (consistent : solver.Consistent)
    (member : constraint ∈ solver.constraints.toList) : (solver.extend constraint).Consistent := by
  rcases consistent.extend_eq solver.handedOn_between consistent.between member with
    ⟨found, extension⟩
  exact consistent.extension extension fun _ between => between

def derived (solver : Solver) (annotations : Annotations) (constraint : Constraint) :
    List Constraint :=
  (Derivation.derive solver.graph annotations solver.index constraint solver.constraints).1.toList

theorem serve_applied {narrowing : Narrowing}
    (outcome : solver.annotations.apply Leaf.isImmutable constraint = .ok narrowing) :
    ∃ index worklist snapshots,
      solver.serve constraint =
        { solver with
          annotations := narrowing.annotations
          constraints :=
            solver.constraints.addAll (solver.derived narrowing.annotations constraint)
          index
          worklist
          snapshots } ∧
        worklist.members = solver.worklist.members.addAll
          (mentions solver.index narrowing.writes ++
            solver.derived narrowing.annotations constraint) := by
  have queued := solver.members_absorb narrowing
  have extended : solver.serve constraint = (solver.absorb narrowing).extend constraint := by
    rw [serve, apply_of_ok outcome]
  rcases solver.absorb_eq narrowing with ⟨worklist, snapshots, absorbed⟩
  rw [absorbed] at queued extended
  refine ⟨_, _, _, extended, ?_⟩
  rw [ConstraintSet.addAll_append, ← queued]
  exact Worklist.members_addAll

theorem Consistent.serve (consistent : solver.Consistent)
    (member : constraint ∈ solver.constraints.toList) : (solver.serve constraint).Consistent := by
  unfold Solver.serve
  split
  · next applied changed outcome =>
      have reached := changed_apply consistent.places (consistent.between constraint member) outcome
      exact (consistent.of_changed reached).extend (reached.constraints.symm ▸ member)
  · exact consistent.fail member

theorem Consistent.retry (consistent : solver.Consistent)
    (member : constraint ∈ solver.constraints.toList) :
    (solver.retry constraint).Consistent ∧
      (solver.retry constraint).constraints = solver.constraints ∧
      (solver.retry constraint).graph = solver.graph := by
  unfold Solver.retry
  split
  · next applied changed outcome =>
      have reached := changed_apply consistent.places (consistent.between constraint member) outcome
      exact ⟨(consistent.of_changed reached).discardConflict constraint, reached.constraints,
        reached.graph⟩
  · exact ⟨consistent, rfl, rfl⟩

/-! ## A step -/

theorem step_eq_some (stepped : solver.step = some next) :
    ∃ constraint rest, solver.worklist.toList = constraint :: rest.toList ∧
      next = ({ solver with worklist := rest } : Solver).serve constraint := by
  rcases Option.map_eq_some_iff.mp stepped with ⟨⟨constraint, rest⟩, popped, equal⟩
  exact ⟨constraint, rest, Worklist.toList_eq_of_pop? popped, equal.symm⟩

theorem step_eq_none (finished : solver.step = none) : solver.worklist.toList = [] :=
  Worklist.toList_eq_nil_of_pop? (Option.map_eq_none_iff.mp finished)

theorem Consistent.popped {rest : Worklist} (consistent : solver.Consistent)
    (waiting : solver.worklist.toList = constraint :: rest.toList) :
    Consistent { solver with worklist := rest } ∧ constraint ∈ solver.constraints.toList := by
  have all := consistent.waiting
  have distinct := consistent.waitingDistinct
  rw [Worklist.keys, waiting, List.map_cons, List.nodup_cons] at distinct
  rw [waiting] at all
  refine ⟨{ consistent with waiting := ?_, waitingDistinct := distinct.2 },
    all List.mem_cons_self⟩
  exact fun member later => all (List.mem_cons_of_mem _ later)

theorem Consistent.keeps_waiting {rest : Worklist} {other : Constraint}
    (consistent : solver.Consistent)
    (waiting : solver.worklist.toList = constraint :: rest.toList)
    (present : other ∈ solver.constraints.toList) (different : other ≠ constraint)
    (waits : other.key ∈ solver.worklist.keys) : other.key ∈ rest.keys := by
  rw [Worklist.keys, waiting, List.map_cons, List.mem_cons] at waits
  rcases waits with sameKey | later
  · have member := (consistent.popped waiting).2
    exact absurd (ConstraintSet.eq_of_key_eq consistent.distinct present member sameKey) different
  · exact later

theorem Consistent.step (consistent : solver.Consistent) (stepped : solver.step = some next) :
    next.Consistent := by
  rcases step_eq_some stepped with ⟨constraint, rest, waiting, rfl⟩
  have popped := consistent.popped waiting
  exact popped.1.serve popped.2

theorem Consistent.step_graph (consistent : solver.Consistent)
    (stepped : solver.step = some next) :
    next.graph = solver.graph ∧ next.policy = solver.policy := by
  rcases step_eq_some stepped with ⟨constraint, rest, waiting, rfl⟩
  have popped := consistent.popped waiting
  have between := popped.1.between constraint popped.2
  unfold Solver.serve
  split
  · next applied changed outcome =>
      have reached := changed_apply popped.1.places between outcome
      exact ⟨reached.graph, reached.policy⟩
  · have repaired := changed_repair popped.1.places between
    rcases fail_cases { solver with worklist := rest } constraint with
      ⟨-, ⟨-, equal⟩ | ⟨-, equal⟩⟩ | ⟨-, warned, log, equal⟩
    · rw [equal]
      exact ⟨repaired.graph, repaired.policy⟩
    · rw [equal]
      exact ⟨repaired.graph, repaired.policy⟩
    · rw [equal]
      exact ⟨rfl, rfl⟩

theorem Consistent.step_constraints (consistent : solver.Consistent)
    (stepped : solver.step = some next) :
    next.constraints = solver.constraints ∨
      ∃ constraint annotations, constraint ∈ solver.constraints.toList ∧
        next.constraints =
          solver.constraints.addAll (solver.derived annotations constraint) := by
  rcases step_eq_some stepped with ⟨constraint, rest, waiting, rfl⟩
  have popped := consistent.popped waiting
  cases outcome : ({ solver with worklist := rest } : Solver).apply constraint with
  | ok result =>
      rcases apply_eq_ok outcome with ⟨narrowing, narrowed, -⟩
      rcases serve_applied narrowed with ⟨index, worklist, snapshots, served, -⟩
      rw [served]
      exact .inr ⟨constraint, narrowing.annotations, popped.2, rfl⟩
  | error failure =>
      have repaired := changed_repair popped.1.places (popped.1.between constraint popped.2)
      rw [Solver.serve, outcome]
      rcases fail_cases { solver with worklist := rest } constraint with
        ⟨-, ⟨-, equal⟩ | ⟨-, equal⟩⟩ | ⟨-, warned, log, equal⟩
      · rw [equal]
        exact .inl repaired.constraints
      · rw [equal]
        exact .inl repaired.constraints
      · rw [equal]
        exact .inl rfl

/-! ## The start -/

theorem start_eq (solver : Solver) :
    ∃ log, solver.start =
      { solver.reset with
        constraints := solver.graph.upgraded
        index := .ofList solver.graph.upgraded.toList
        worklist := .ofList solver.graph.upgraded.toList
        log } := by
  simp only [start]
  rcases solver.reset.report_eq .info ("Solving qualifier constraints: " ++
    toString solver.graph.constraints.size ++ " in total...") with ⟨log, reported⟩
  rw [reported]
  exact ⟨log, rfl⟩

theorem start_graph (solver : Solver) : solver.start.graph = solver.graph := by
  rcases solver.start_eq with ⟨log, started⟩
  rw [started]
  rfl

theorem start_policy (solver : Solver) : solver.start.policy = solver.policy := by
  rcases solver.start_eq with ⟨log, started⟩
  rw [started]
  rfl

theorem start_annotations (solver : Solver) :
    solver.start.annotations = solver.annotations := by
  rcases solver.start_eq with ⟨log, started⟩
  rw [started]
  rfl

theorem start_constraints (solver : Solver) :
    solver.start.constraints = solver.graph.upgraded := by
  rcases solver.start_eq with ⟨log, started⟩
  rw [started]

theorem start_waiting (solver : Solver) :
    solver.start.worklist.toList = solver.graph.upgraded.toList := by
  rcases solver.start_eq with ⟨log, started⟩
  have members : (Worklist.ofList solver.graph.upgraded.toList).members =
      ({} : ConstraintSet).addAll solver.graph.upgraded.toList := Worklist.members_addAll
  rw [ConstraintSet.addAll_toList solver.graph.upgraded_distinct] at members
  rw [started]
  exact congrArg ConstraintSet.toList members

theorem start_waits (present : constraint ∈ solver.start.constraints.toList) :
    constraint.key ∈ solver.start.worklist.keys := by
  rw [start_constraints, ← start_waiting] at present
  exact List.mem_map_of_mem present

theorem start_consistent (coherent : solver.graph.Coherent) : solver.start.Consistent := by
  have waiting := solver.start_waiting
  have distinct := solver.graph.upgraded_distinct
  have keys : solver.start.worklist.keys = solver.graph.upgraded.keys :=
    congrArg (List.map Constraint.key) waiting
  rcases solver.start_eq with ⟨log, started⟩
  rw [started] at waiting keys ⊢
  refine ⟨coherent, distinct, rfl, fun _ member => coherent.upgraded_between member,
    fun _ member => .inl member, List.Subset.refl _, ?_, keys ▸ distinct, List.nil_subset _,
    List.nodup_nil⟩
  intro member present
  rwa [waiting] at present

/-- Every state of a solve is consistent and has the graph of the solver. -/
theorem iterate_consistent (coherent : solver.graph.Coherent) (count : Nat) :
    (iterate step count solver.start).Consistent ∧
      (iterate step count solver.start).graph = solver.graph := by
  have kept : ∀ current next, step current = some next →
      current.Consistent ∧ current.graph = solver.graph →
        next.Consistent ∧ next.graph = solver.graph := by
    intro current next stepped both
    exact ⟨both.1.step stepped, (both.1.step_graph stepped).1.trans both.2⟩
  exact iterate_preserves kept count ⟨start_consistent coherent, solver.start_graph⟩

end Solver

end InfoFlow
