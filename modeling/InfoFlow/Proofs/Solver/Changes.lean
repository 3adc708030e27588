import InfoFlow.Proofs.Derivation
import InfoFlow.Proofs.Narrowing.Locality
import InfoFlow.Solver.Run

/-! How a solver changes leaves.

All that a solver does to annotations is done by setting one leaf after
another: recording a write, restoring, eliminating and rolling back. Each time
the constraints that mention the leaf are queued. So between any two states of
a repair, or before and after a constraint is applied, a leaf carries the same
qualifiers or what mentions it is waiting. -/

namespace InfoFlow.Solver

variable {solver before middle after : Solver} {leaf : Leaf} {constraint : Constraint}

/-! ## Single changes -/

theorem report_eq (solver : Solver) (severity : Log.Severity) (text : String) :
    ∃ log, solver.report severity text = { solver with log } := by
  unfold report
  split
  · exact ⟨_, rfl⟩
  · exact ⟨solver.log, rfl⟩

theorem keepSnapshot_eq (solver : Solver) (id : Nat) (qualifiers : QualifierSet) :
    solver.keepSnapshot id qualifiers =
      { solver with snapshots := (solver.keepSnapshot id qualifiers).snapshots } := by
  unfold keepSnapshot
  split <;> rfl

theorem note_eq (solver : Solver) (write : Write) :
    solver.note write =
      { solver.requeue write.leaf with
        snapshots := (solver.keepSnapshot write.leaf.id write.before).snapshots } := by
  unfold note
  rw [keepSnapshot_eq]
  rfl

def record (solver : Solver) (write : Write) : Solver :=
  { solver.note write with annotations := solver.annotations.set write.leaf write.after }

private theorem note_annotations (solver : Solver) (annotations : Annotations) (write : Write) :
    ({ solver with annotations } : Solver).note write =
      { solver.note write with annotations } := by
  unfold note keepSnapshot requeue isUpdated
  split <;> rfl

private theorem foldl_note_annotations (solver : Solver) (annotations : Annotations)
    (writes : List Write) :
    writes.foldl note { solver with annotations } =
      { writes.foldl note solver with annotations } := by
  induction writes generalizing solver with
  | nil => rfl
  | cons write rest induction => rw [List.foldl_cons, note_annotations, induction, List.foldl_cons]

theorem absorb_eq (solver : Solver) (narrowing : Narrowing) :
    ∃ worklist snapshots, solver.absorb narrowing =
      { solver with annotations := narrowing.annotations, worklist, snapshots } := by
  have noted : ∀ (writes : List Write) (before : Solver), ∃ worklist snapshots,
      writes.foldl note before = { before with worklist, snapshots } := by
    intro writes
    induction writes with
    | nil => exact fun before => ⟨before.worklist, before.snapshots, rfl⟩
    | cons write rest induction =>
        intro before
        rcases induction (before.note write) with ⟨worklist, snapshots, later⟩
        rw [List.foldl_cons, later, note_eq]
        exact ⟨worklist, snapshots, rfl⟩
  rcases noted narrowing.writes { solver with annotations := narrowing.annotations } with
    ⟨worklist, snapshots, equal⟩
  exact ⟨worklist, snapshots, equal⟩

theorem absorb_annotations (solver : Solver) (narrowing : Narrowing) :
    (solver.absorb narrowing).annotations = narrowing.annotations := by
  rcases solver.absorb_eq narrowing with ⟨worklist, snapshots, absorbed⟩
  rw [absorbed]

def mentions (index : ReferenceIndex) (writes : List Write) : List Constraint :=
  writes.flatMap fun write => Constraint.sort (index.referencing (.leaf write.leaf))

theorem members_absorb (solver : Solver) (narrowing : Narrowing) :
    (solver.absorb narrowing).worklist.members =
      solver.worklist.members.addAll (mentions solver.index narrowing.writes) := by
  have noted : ∀ (writes : List Write) (before : Solver),
      (writes.foldl note before).worklist.members =
        before.worklist.members.addAll (mentions before.index writes) := by
    intro writes
    induction writes with
    | nil => exact fun _ => rfl
    | cons write rest induction =>
        intro before
        have queued : (before.note write).worklist.members = before.worklist.members.addAll
            (Constraint.sort (before.index.referencing (.leaf write.leaf))) := by
          rw [note_eq]
          exact Worklist.members_addAll
        have index : (before.note write).index = before.index := by
          rw [note_eq]
          rfl
        rw [List.foldl_cons, induction, queued, index, mentions, mentions, List.flatMap_cons,
          ConstraintSet.addAll_append]
  exact noted narrowing.writes { solver with annotations := narrowing.annotations }

theorem absorb_written (solver : Solver) (narrowing : Narrowing) (write : Write) :
    solver.absorb
        { annotations := narrowing.annotations.set write.leaf write.after
          writes := narrowing.writes ++ [write] } =
      (solver.absorb narrowing).record write := by
  simp only [absorb, record, List.foldl_append, List.foldl_cons, List.foldl_nil,
    foldl_note_annotations, note_annotations]

theorem restore_eq (solver : Solver) (leaf : Leaf) (snapshot : QualifierSet) :
    ∃ log, solver.restore leaf snapshot =
      { solver.requeue leaf with
        annotations := solver.annotations.set leaf snapshot
        restores := solver.restores.set leaf.id (solver.restoreCount leaf.id + 1)
        restoreCounter := solver.restoreCounter + 1
        log } := by
  simp only [restore]
  rcases solver.report_eq .debug ("Restoring " ++ solver.annotations.describe (.leaf leaf) ++
    " to " ++ snapshot.literal) with ⟨log, reported⟩
  rw [reported]
  exact ⟨log, rfl⟩

@[simp] theorem restore_graph (solver : Solver) (leaf : Leaf) (snapshot : QualifierSet) :
    (solver.restore leaf snapshot).graph = solver.graph := by
  rcases solver.restore_eq leaf snapshot with ⟨log, restored⟩
  rw [restored]
  rfl

@[simp] theorem restore_policy (solver : Solver) (leaf : Leaf) (snapshot : QualifierSet) :
    (solver.restore leaf snapshot).policy = solver.policy := by
  rcases solver.restore_eq leaf snapshot with ⟨log, restored⟩
  rw [restored]
  rfl

@[simp] theorem restore_snapshots (solver : Solver) (leaf : Leaf) (snapshot : QualifierSet) :
    (solver.restore leaf snapshot).snapshots = solver.snapshots := by
  rcases solver.restore_eq leaf snapshot with ⟨log, restored⟩
  rw [restored]
  rfl

@[simp] theorem restore_eliminated (solver : Solver) (leaf : Leaf) (snapshot : QualifierSet) :
    (solver.restore leaf snapshot).eliminated = solver.eliminated := by
  rcases solver.restore_eq leaf snapshot with ⟨log, restored⟩
  rw [restored]
  rfl

@[simp] theorem restore_restoreCounter (solver : Solver) (leaf : Leaf)
    (snapshot : QualifierSet) :
    (solver.restore leaf snapshot).restoreCounter = solver.restoreCounter + 1 := by
  rcases solver.restore_eq leaf snapshot with ⟨log, restored⟩
  rw [restored]

def lower (solver : Solver) (leaf : Leaf) : Solver :=
  { solver.requeue leaf with
    eliminated := solver.eliminated ++ [leaf]
    annotations := solver.annotations.set leaf solver.graph.sourceLevel }

theorem eliminate_eq (solver : Solver) (leaf : Leaf) :
    ∃ log, solver.eliminate leaf =
      solver.graph.leaves.foldl rollBack { solver.lower leaf with log } := by
  simp only [eliminate]
  rcases solver.report_eq .info ("Eliminating a SOURCE/SINK: " ++
    solver.annotations.describe (.leaf leaf)) with ⟨log, reported⟩
  rw [reported]
  exact ⟨log, rfl⟩

theorem restoreCount_restore (solver : Solver) (leaf : Leaf) (snapshot : QualifierSet) (id : Nat) :
    (solver.restore leaf snapshot).restoreCount id =
      solver.restoreCount id + if id = leaf.id then 1 else 0 := by
  rcases solver.restore_eq leaf snapshot with ⟨log, restored⟩
  rw [restored]
  by_cases same : id = leaf.id
  · simp [restoreCount, same]
  · simp [restoreCount, same, FiniteMap.set_other _ same]

theorem isEliminated_lower (solver : Solver) (leaf other : Leaf) :
    (solver.lower leaf).isEliminated other =
      (solver.isEliminated other || decide (leaf.id = other.id)) := by
  simp [isEliminated, lower, List.any_append]

/-! ## What changes leave alone -/

/-- Only leaves that may be written count as updated, and among the leaves a
number belongs to one. -/
structure Guarded (solver : Solver) : Prop where
  numbered : ∀ first second, first ∈ solver.graph.leafParts →
    second ∈ solver.graph.leafParts → first.id = second.id → first = second
  mutable : ∀ leaf, leaf ∈ solver.graph.leafParts → solver.isUpdated leaf.id = true →
    leaf.isImmutable = false

/-- What holds of two states if the second arises from the first by changes of
leaves. -/
structure Changed (before after : Solver) : Prop where
  graph : after.graph = before.graph
  policy : after.policy = before.policy
  constraints : after.constraints = before.constraints
  conflicts : after.conflicts = before.conflicts
  index : after.index = before.index
  queued : ∃ more, after.worklist.toList = before.worklist.toList ++ more ∧
    ∀ member, member ∈ more → member ∈ before.index.registered.toList ∧ member.isFlow = true
  distinct : before.worklist.keys.Nodup → after.worklist.keys.Nodup
  touched : ∀ leaf, leaf ∈ before.graph.leafParts →
    after.annotations.get leaf = before.annotations.get leaf ∨
      (before.index.referencing (.leaf leaf)).map Constraint.key ⊆ after.worklist.keys
  spared : before.Guarded → after.Guarded ∧
    ∀ leaf, leaf ∈ before.graph.leafParts → leaf.isImmutable = true →
      after.annotations.get leaf = before.annotations.get leaf

theorem Changed.waiting (changed : Changed before after) :
    before.worklist.keys ⊆ after.worklist.keys := by
  rcases changed.queued with ⟨more, equal, -⟩
  rw [Worklist.keys, Worklist.keys, equal, List.map_append]
  exact List.subset_append_left _ _

theorem Changed.refl (solver : Solver) : Changed solver solver where
  graph := rfl
  policy := rfl
  constraints := rfl
  conflicts := rfl
  index := rfl
  queued := ⟨[], (List.append_nil _).symm, by simp⟩
  distinct := fun distinct => distinct
  touched := fun _ _ => .inl rfl
  spared := fun guarded => ⟨guarded, fun _ _ _ => rfl⟩

theorem Changed.trans (first : Changed before middle) (second : Changed middle after) :
    Changed before after where
  graph := second.graph.trans first.graph
  policy := second.policy.trans first.policy
  constraints := second.constraints.trans first.constraints
  conflicts := second.conflicts.trans first.conflicts
  index := second.index.trans first.index
  queued := by
    rcases first.queued with ⟨more, equal, flows⟩
    rcases second.queued with ⟨later, laterEqual, laterFlows⟩
    refine ⟨more ++ later, by rw [laterEqual, equal, List.append_assoc], ?_⟩
    intro member present
    rcases List.mem_append.mp present with earlier | new
    · exact flows member earlier
    · exact first.index ▸ laterFlows member new
  distinct := fun distinct => second.distinct (first.distinct distinct)
  touched := by
    intro leaf member
    rcases second.touched leaf (first.graph ▸ member) with same | queued
    · rcases first.touched leaf member with earlier | queued
      · exact .inl (same.trans earlier)
      · exact .inr (List.Subset.trans queued second.waiting)
    · exact .inr (first.index ▸ queued)
  spared := by
    intro guarded
    have once := first.spared guarded
    have twice := second.spared once.1
    refine ⟨twice.1, fun leaf member immutable => ?_⟩
    exact (twice.2 leaf (first.graph ▸ member) immutable).trans (once.2 leaf member immutable)

theorem Changed.report (changed : Changed before after) (severity : Log.Severity)
    (text : String) : Changed before (after.report severity text) := by
  rcases after.report_eq severity text with ⟨log, reported⟩
  rw [reported]
  exact ⟨changed.graph, changed.policy, changed.constraints, changed.conflicts, changed.index,
    changed.queued, changed.distinct, changed.touched, fun guarded =>
      ⟨⟨(changed.spared guarded).1.numbered, (changed.spared guarded).1.mutable⟩,
        (changed.spared guarded).2⟩⟩

theorem changed_of_set {qualifiers : QualifierSet}
    (places : SeparatePlaces before.graph.leafParts) (member : leaf ∈ before.graph.leafParts)
    (graph : after.graph = before.graph) (policy : after.policy = before.policy)
    (constraints : after.constraints = before.constraints)
    (conflicts : after.conflicts = before.conflicts) (index : after.index = before.index)
    (worklist : after.worklist = (before.requeue leaf).worklist)
    (annotations : after.annotations = before.annotations.set leaf qualifiers)
    (updated : ∀ id, after.isUpdated id = true → before.isUpdated id = true ∨ id = leaf.id)
    (mutable : before.Guarded → leaf.isImmutable = false) : Changed before after := by
  have others : ∀ other, other ∈ before.graph.leafParts → other ≠ leaf →
      after.annotations.get other = before.annotations.get other := by
    intro other otherMember different
    rw [annotations]
    refine Annotations.set_other _ (fun samePlace => different ?_) _
    exact places other leaf otherMember member samePlace
  refine ⟨graph, policy, constraints, conflicts, index, ?_, ?_, ?_, ?_⟩
  · rcases before.worklist.toList_addAll_eq
      (Constraint.sort (before.index.referencing (.leaf leaf))) with ⟨more, equal, included⟩
    refine ⟨more, by rw [worklist]; exact equal, fun member present => ?_⟩
    exact ReferenceIndex.of_mem_referencing (StableSort.mem_sort.mp (included present))
  · intro distinct
    rw [worklist]
    exact Worklist.nodup_keys_addAll distinct _
  · intro other otherMember
    by_cases same : other = leaf
    · right
      intro key present
      rcases List.mem_map.mp present with ⟨mention, mentioned, rfl⟩
      rw [same] at mentioned
      rw [worklist]
      exact Worklist.mem_keys_addAll.mpr
        (.inr (List.mem_map_of_mem (StableSort.mem_sort.mpr mentioned)))
    · exact .inl (others other otherMember same)
  · intro guarded
    have writable := mutable guarded
    refine ⟨⟨graph.symm ▸ guarded.numbered, ?_⟩, ?_⟩
    · intro other otherMember otherUpdated
      rw [graph] at otherMember
      rcases updated other.id otherUpdated with earlier | sameNumber
      · exact guarded.mutable other otherMember earlier
      · rw [guarded.numbered other leaf otherMember member sameNumber]
        exact writable
    · intro other otherMember immutable
      refine others other otherMember fun same => ?_
      rw [same, writable] at immutable
      cases immutable

/-! ## The operations of a solver -/

private theorem contains_set {snapshots : FiniteMap Nat QualifierSet} {id other : Nat}
    {qualifiers : QualifierSet} (bound : (snapshots.set id qualifiers).contains other = true) :
    snapshots.contains other = true ∨ other = id := by
  by_cases same : other = id
  · exact .inr same
  · rw [FiniteMap.contains, FiniteMap.set_other _ same] at bound
    exact .inl bound

theorem contains_erase {snapshots : FiniteMap Nat QualifierSet} {id other : Nat}
    (bound : (snapshots.erase id).contains other = true) : snapshots.contains other = true := by
  by_cases same : other = id
  · rw [same, FiniteMap.contains, FiniteMap.erase_same] at bound
    cases bound
  · rwa [FiniteMap.contains, FiniteMap.erase_other _ same] at bound

theorem isUpdated_keepSnapshot {id other : Nat} {qualifiers : QualifierSet}
    (updated : (solver.keepSnapshot id qualifiers).isUpdated other = true) :
    solver.isUpdated other = true ∨ other = id := by
  unfold keepSnapshot at updated
  split at updated
  · exact .inl updated
  · exact contains_set updated

theorem changed_record (write : Write) (places : SeparatePlaces solver.graph.leafParts)
    (member : write.leaf ∈ solver.graph.leafParts) (mutable : write.leaf.isImmutable = false) :
    Changed solver (solver.record write) := by
  rw [record, note_eq]
  exact changed_of_set places member rfl rfl rfl rfl rfl rfl rfl
    (fun _ updated => isUpdated_keepSnapshot updated) fun _ => mutable

theorem changed_absorb {leaves : List Leaf} {narrowing : Narrowing}
    (places : SeparatePlaces solver.graph.leafParts) (included : leaves ⊆ solver.graph.leafParts)
    (reached : Narrowing.From Leaf.isImmutable leaves solver.annotations narrowing) :
    Changed solver (solver.absorb narrowing) := by
  induction reached with
  | unwritten => exact .refl solver
  | @written narrowing leaf qualifiers earlier member mutable smaller different induction =>
      have once := changed_record ⟨leaf, narrowing.annotations.get leaf, qualifiers⟩
        (induction.graph.symm ▸ places) (induction.graph.symm ▸ included member) mutable
      rw [← absorb_written] at once
      exact induction.trans once

theorem changed_restore {snapshot : QualifierSet} (places : SeparatePlaces solver.graph.leafParts)
    (member : leaf ∈ solver.graph.leafParts) (updated : solver.isUpdated leaf.id = true) :
    Changed solver (solver.restore leaf snapshot) := by
  rcases solver.restore_eq leaf snapshot with ⟨log, restored⟩
  rw [restored]
  exact changed_of_set places member rfl rfl rfl rfl rfl rfl rfl (fun _ updated => .inl updated)
    fun guarded => guarded.mutable leaf member updated

theorem isUpdated_of_snapshot {id : Nat} {snapshot : QualifierSet}
    (kept : solver.snapshot? id = some snapshot) : solver.isUpdated id = true := by
  have bound : solver.snapshots.get? id = some snapshot := kept
  simp [isUpdated, FiniteMap.contains, bound]

theorem changed_rollBack (places : SeparatePlaces solver.graph.leafParts)
    (member : leaf ∈ solver.graph.leafParts) : Changed solver (solver.rollBack leaf) := by
  unfold rollBack
  split
  · exact .refl solver
  · next snapshot kept =>
      exact changed_of_set places member rfl rfl rfl rfl rfl rfl rfl
        (fun _ updated => .inl (contains_erase updated))
        fun guarded => guarded.mutable leaf member (isUpdated_of_snapshot kept)

theorem changed_foldl_rollBack {leaves : List Leaf}
    (places : SeparatePlaces solver.graph.leafParts) (included : leaves ⊆ solver.graph.leafParts) :
    Changed solver (leaves.foldl rollBack solver) := by
  induction leaves generalizing solver with
  | nil => exact .refl solver
  | cons leaf rest induction =>
      have once := changed_rollBack places (included List.mem_cons_self)
      have later : rest ⊆ (solver.rollBack leaf).graph.leafParts := by
        rw [once.graph]
        exact fun other member => included (List.mem_cons_of_mem _ member)
      exact once.trans (induction (once.graph.symm ▸ places) later)

theorem changed_eliminate (places : SeparatePlaces solver.graph.leafParts)
    (member : leaf ∈ solver.graph.leafParts) (mutable : leaf.isImmutable = false) :
    Changed solver (solver.eliminate leaf) := by
  rcases solver.eliminate_eq leaf with ⟨log, eliminated⟩
  rw [eliminated]
  have lowered : Changed solver { solver.lower leaf with log } :=
    changed_of_set places member rfl rfl rfl rfl rfl rfl rfl (fun _ updated => .inl updated)
      fun _ => mutable
  exact lowered.trans (changed_foldl_rollBack places solver.graph.leaves_subset)

theorem changed_demote {demoted : Solver} (places : SeparatePlaces solver.graph.leafParts)
    (member : leaf ∈ solver.graph.leafParts) (demotes : solver.demote? leaf = some demoted) :
    Changed solver demoted := by
  unfold demote? at demotes
  split at demotes
  · next snapshot kept =>
      split at demotes
      · cases demotes
        exact changed_restore places member (isUpdated_of_snapshot kept)
      · cases demotes
  · split at demotes
    · cases demotes
    · next permitted =>
        cases demotes
        simp only [Bool.or_eq_true, not_or, Bool.not_eq_true] at permitted
        exact changed_eliminate places member permitted.1

def demoteNext (progress : Solver × Bool) (leaf : Leaf) : Solver × Bool :=
  match progress.1.demote? leaf with
  | some demoted => (demoted, true)
  | none => progress

theorem demoteAll_eq (solver : Solver) (leaves : List Leaf) :
    solver.demoteAll leaves = leaves.foldl demoteNext (solver, false) := rfl

private theorem changed_demoteNext {progress : Solver × Bool}
    (places : SeparatePlaces progress.1.graph.leafParts)
    (member : leaf ∈ progress.1.graph.leafParts) :
    Changed progress.1 (demoteNext progress leaf).1 := by
  unfold demoteNext
  split
  · next demoted demotes => exact changed_demote places member demotes
  · exact .refl _

private theorem changed_foldl_demoteNext (progress : Solver × Bool) {leaves : List Leaf}
    (places : SeparatePlaces progress.1.graph.leafParts)
    (included : leaves ⊆ progress.1.graph.leafParts) :
    Changed progress.1 (leaves.foldl demoteNext progress).1 := by
  induction leaves generalizing progress with
  | nil => exact .refl _
  | cons leaf rest induction =>
      have once := changed_demoteNext places (included List.mem_cons_self)
      have later : rest ⊆ (demoteNext progress leaf).1.graph.leafParts := by
        rw [once.graph]
        exact fun other member => included (List.mem_cons_of_mem _ member)
      exact once.trans (induction _ (once.graph.symm ▸ places) later)

theorem changed_demoteAll {leaves : List Leaf} (places : SeparatePlaces solver.graph.leafParts)
    (included : leaves ⊆ solver.graph.leafParts) :
    Changed solver (solver.demoteAll leaves).1 := by
  rw [demoteAll_eq]
  exact changed_foldl_demoteNext (solver, false) places included

theorem targets_sublist (solver : Solver) (value : Value) :
    (solver.targets value).Sublist value.leaves := by
  induction value with
  | leaf content => exact .refl _
  | adapted adaptation owner id declaration context onDeclaration onContext =>
      cases adaptation with
      | method => exact onContext.append onDeclaration
      | field =>
          rw [targets]
          split
          · exact onDeclaration.trans (List.sublist_append_right _ _)
          · exact onContext.trans (List.sublist_append_left _ _)

theorem demoted?_eq {value : Value} (demotes : solver.demoted? constraint = some value) :
    value = constraint.left ∨ value = constraint.right := by
  unfold demoted? at demotes
  dsimp only at demotes
  split at demotes
  · cases demotes
  · split at demotes
    · exact .inr (Option.some.inj demotes).symm
    · exact .inl (Option.some.inj demotes).symm
  · split at demotes
    · exact .inl (Option.some.inj demotes).symm
    · exact .inr (Option.some.inj demotes).symm

/-! ## Constraints -/

theorem apply_eq_ok {changed : Bool} (applied : solver.apply constraint = .ok (after, changed)) :
    ∃ narrowing, solver.annotations.apply Leaf.isImmutable constraint = .ok narrowing ∧
      after = solver.absorb narrowing ∧ changed = narrowing.changed := by
  unfold apply at applied
  cases outcome : solver.annotations.apply Leaf.isImmutable constraint with
  | error failure =>
      rw [outcome] at applied
      cases applied
  | ok narrowing =>
      rw [outcome] at applied
      cases applied
      exact ⟨narrowing, rfl, rfl, rfl⟩

theorem apply_of_ok {narrowing : Narrowing}
    (outcome : solver.annotations.apply Leaf.isImmutable constraint = .ok narrowing) :
    solver.apply constraint = .ok (solver.absorb narrowing, narrowing.changed) := by
  rw [apply, outcome]
  rfl

theorem apply_eq_error {failure : Failure} :
    solver.apply constraint = .error failure ↔
      solver.annotations.apply Leaf.isImmutable constraint = .error failure := by
  unfold apply
  cases solver.annotations.apply Leaf.isImmutable constraint <;> simp [Except.map]

theorem leaves_subset_of_between (between : constraint.Between solver.graph.parts) :
    constraint.left.leaves ⊆ solver.graph.leafParts ∧
      constraint.right.leaves ⊆ solver.graph.leafParts :=
  ⟨ValueGraph.leaves_subset_leafParts between.1, ValueGraph.leaves_subset_leafParts between.2⟩

theorem changed_apply {changed : Bool} (places : SeparatePlaces solver.graph.leafParts)
    (between : constraint.Between solver.graph.parts)
    (applied : solver.apply constraint = .ok (after, changed)) : Changed solver after := by
  rcases apply_eq_ok applied with ⟨narrowing, outcome, rfl, -⟩
  have included := leaves_subset_of_between between
  exact changed_absorb places (List.Subset.refl _)
    (Annotations.apply_from places included.1 included.2 outcome)

theorem targets_subset {value : Value} (between : constraint.Between solver.graph.parts)
    (demotes : solver.demoted? constraint = some value) :
    solver.targets value ⊆ solver.graph.leafParts := by
  have included := leaves_subset_of_between between
  have ofValue := (solver.targets_sublist value).subset
  rcases demoted?_eq demotes with equal | equal
  · exact List.Subset.trans ofValue (equal ▸ included.1)
  · exact List.Subset.trans ofValue (equal ▸ included.2)

theorem changed_repair (places : SeparatePlaces solver.graph.leafParts)
    (between : constraint.Between solver.graph.parts) :
    Changed solver (solver.repair constraint).1 := by
  unfold repair
  split
  · exact .refl solver
  · next value demotes =>
      have demoted := changed_demoteAll places (targets_subset between demotes)
      dsimp only
      split
      · split
        · next applied changed again =>
            exact demoted.trans (changed_apply (demoted.graph.symm ▸ places)
              (demoted.graph.symm ▸ between) again)
        · exact demoted
        · exact demoted.report _ _
      · exact demoted

end InfoFlow.Solver
