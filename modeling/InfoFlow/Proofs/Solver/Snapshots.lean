import InfoFlow.Proofs.Solver.Course

/-! What snapshots hold.

Each leaf has a base: the source level if it was eliminated in this solve, and
what it carried at the start otherwise. A leaf that counts as updated has its
base as its snapshot and carries no more than that, and every other leaf
carries exactly its base. This is so at every point of a solve, also between the
demotions of a repair: a write takes the snapshot before it takes qualifiers, a
restore and a rollback return to the base, and an elimination moves the base of
a leaf that has no snapshot. -/

namespace InfoFlow.Solver

variable {origin solver before after : Solver} {leaf : Leaf}

/-! ## Bases -/

/-- What a leaf returns to if it is rolled back, in a solve that began with the
given solver: the source level if it was eliminated, else what it carried
then. -/
def base (solver origin : Solver) (leaf : Leaf) : QualifierSet :=
  if solver.isEliminated leaf then origin.graph.sourceLevel else origin.annotations.get leaf

/-- A leaf carries no more than its base. A snapshot of it is the base, and
without one it carries all of the base. -/
structure AnchoredAt (solver origin : Solver) (leaf : Leaf) : Prop where
  within : solver.annotations.get leaf ⊆ solver.base origin leaf
  snapshot : ∀ snapshot, solver.snapshot? leaf.id = some snapshot →
    snapshot = solver.base origin leaf
  untouched : solver.snapshot? leaf.id = none →
    solver.annotations.get leaf = solver.base origin leaf

theorem AnchoredAt.of_eq (anchored : before.AnchoredAt origin leaf)
    (annotations : after.annotations.get leaf = before.annotations.get leaf)
    (snapshot : after.snapshot? leaf.id = before.snapshot? leaf.id)
    (base : after.base origin leaf = before.base origin leaf) :
    after.AnchoredAt origin leaf where
  within := by
    rw [annotations, base]
    exact anchored.within
  snapshot := by
    rw [snapshot, base]
    exact anchored.snapshot
  untouched := by
    rw [annotations, snapshot, base]
    exact anchored.untouched

structure Anchored (solver origin : Solver) : Prop where
  graph : solver.graph = origin.graph
  numbered : ∀ first second, first ∈ solver.graph.leafParts →
    second ∈ solver.graph.leafParts → first.id = second.id → first = second
  leaves : ∀ leaf, leaf ∈ solver.graph.leafParts → solver.AnchoredAt origin leaf

theorem Anchored.of_eq (anchored : before.Anchored origin) (graph : after.graph = before.graph)
    (annotations : after.annotations = before.annotations)
    (snapshots : after.snapshots = before.snapshots)
    (eliminated : after.eliminated = before.eliminated) : after.Anchored origin where
  graph := graph.trans anchored.graph
  numbered := graph.symm ▸ anchored.numbered
  leaves := by
    intro leaf member
    refine (anchored.leaves leaf (graph ▸ member)).of_eq (by rw [annotations]) ?_ ?_
    · rw [snapshot?, snapshots, snapshot?]
    · rw [base, isEliminated, eliminated, base, isEliminated]

theorem Anchored.of_set {qualifiers : QualifierSet} (anchored : before.Anchored origin)
    (member : leaf ∈ before.graph.leafParts) (graph : after.graph = before.graph)
    (annotations : after.annotations = before.annotations.set leaf qualifiers)
    (snapshots : ∀ id, id ≠ leaf.id → after.snapshot? id = before.snapshot? id)
    (eliminated : ∀ other : Leaf, other.id ≠ leaf.id →
      after.isEliminated other = before.isEliminated other)
    (itself : after.AnchoredAt origin leaf) : after.Anchored origin where
  graph := graph.trans anchored.graph
  numbered := graph.symm ▸ anchored.numbered
  leaves := by
    intro other otherMember
    rw [graph] at otherMember
    by_cases sameNumber : other.id = leaf.id
    · exact anchored.numbered other leaf otherMember member sameNumber ▸ itself
    · refine (anchored.leaves other otherMember).of_eq ?_ (snapshots _ sameNumber) ?_
      · rw [annotations]
        exact Annotations.set_other _ (fun samePlace =>
          sameNumber (congrArg Prod.snd samePlace)) _
      · rw [base, eliminated other sameNumber, base]

/-! ## The operations of a solver -/

private theorem snapshot?_keepSnapshot_self (solver : Solver) (id : Nat)
    (qualifiers : QualifierSet) :
    (solver.keepSnapshot id qualifiers).snapshot? id =
      some ((solver.snapshot? id).getD qualifiers) := by
  unfold keepSnapshot
  split
  · next updated =>
      rcases Option.isSome_iff_exists.mp updated with ⟨snapshot, kept⟩
      simp only [snapshot?, kept, Option.getD_some]
  · next missing =>
      have none : solver.snapshots.get? id = none :=
        Option.not_isSome_iff_eq_none.mp missing
      simp only [snapshot?, FiniteMap.set_same, none, Option.getD_none]

private theorem snapshot?_keepSnapshot_other {id other : Nat} (different : other ≠ id)
    (qualifiers : QualifierSet) :
    (solver.keepSnapshot id qualifiers).snapshot? other = solver.snapshot? other := by
  unfold keepSnapshot
  split
  · rfl
  · exact FiniteMap.set_other _ different _

theorem Anchored.record {qualifiers : QualifierSet} (anchored : solver.Anchored origin)
    (member : leaf ∈ solver.graph.leafParts)
    (smaller : qualifiers ⊆ solver.annotations.get leaf) :
    (solver.record ⟨leaf, solver.annotations.get leaf, qualifiers⟩).Anchored origin := by
  have recorded : solver.record ⟨leaf, solver.annotations.get leaf, qualifiers⟩ =
      { solver.requeue leaf with
        snapshots := (solver.keepSnapshot leaf.id (solver.annotations.get leaf)).snapshots
        annotations := solver.annotations.set leaf qualifiers } := by
    rw [Solver.record, note_eq]
  rw [recorded]
  refine anchored.of_set member rfl rfl ?_ (fun _ _ => rfl) ?_
  · intro id different
    exact snapshot?_keepSnapshot_other different _
  · have before := anchored.leaves leaf member
    have taken := snapshot?_keepSnapshot_self solver leaf.id (solver.annotations.get leaf)
    have kept : (solver.snapshot? leaf.id).getD (solver.annotations.get leaf) =
        solver.base origin leaf := by
      cases earlier : solver.snapshot? leaf.id with
      | none => exact before.untouched earlier
      | some snapshot => exact before.snapshot snapshot earlier
    constructor
    · simp only [Annotations.set_same]
      exact QualifierSet.subset_trans smaller before.within
    · intro snapshot isKept
      exact (Option.some.inj (taken.symm.trans isKept)).symm.trans kept
    · intro missing
      cases taken.symm.trans missing

theorem Anchored.restore {snapshot : QualifierSet} (anchored : solver.Anchored origin)
    (member : leaf ∈ solver.graph.leafParts)
    (kept : solver.snapshot? leaf.id = some snapshot) :
    (solver.restore leaf snapshot).Anchored origin := by
  rcases solver.restore_eq leaf snapshot with ⟨log, restored⟩
  rw [restored]
  refine anchored.of_set member rfl rfl (fun _ _ => rfl) (fun _ _ => rfl) ?_
  have isBase := (anchored.leaves leaf member).snapshot snapshot kept
  constructor
  · simp only [Annotations.set_same]
    exact fun qualifier present => isBase ▸ present
  · exact (anchored.leaves leaf member).snapshot
  · intro missing
    cases kept.symm.trans missing

theorem Anchored.rollBack (anchored : solver.Anchored origin)
    (member : leaf ∈ solver.graph.leafParts) : (solver.rollBack leaf).Anchored origin := by
  unfold Solver.rollBack
  split
  · exact anchored
  · next snapshot kept =>
      refine anchored.of_set member rfl rfl ?_ (fun _ _ => rfl) ?_
      · intro id different
        exact FiniteMap.erase_other _ different
      · have isBase := (anchored.leaves leaf member).snapshot snapshot kept
        have erased : (solver.snapshots.erase leaf.id).get? leaf.id = none :=
          FiniteMap.erase_same _ _
        constructor
        · simp only [Annotations.set_same]
          exact fun qualifier present => isBase ▸ present
        · intro other present
          cases erased.symm.trans present
        · intro _
          simp only [Annotations.set_same]
          exact isBase

theorem Anchored.lower (anchored : solver.Anchored origin)
    (member : leaf ∈ solver.graph.leafParts) (missing : solver.snapshot? leaf.id = none) :
    (solver.lower leaf).Anchored origin := by
  have eliminated := solver.isEliminated_lower leaf
  refine anchored.of_set member rfl rfl (fun _ _ => rfl) ?_ ?_
  · intro other different
    have apart : leaf.id ≠ other.id := fun same => different same.symm
    simp [eliminated, apart]
  · have lowered : (solver.lower leaf).base origin leaf = origin.graph.sourceLevel := by
      simp [base, eliminated]
    have carried : (solver.lower leaf).annotations.get leaf = origin.graph.sourceLevel := by
      rw [← anchored.graph]
      exact Annotations.set_same _ _ _
    constructor
    · rw [carried, lowered]
      exact QualifierSet.subset_refl _
    · intro snapshot present
      cases missing.symm.trans present
    · intro _
      exact carried.trans lowered.symm

theorem Anchored.evolves {assigned : List (Value × QualifierSet)}
    (anchored : before.Anchored origin) (evolves : Evolves before assigned after) :
    after.Anchored origin := by
  induction evolves with
  | apart graph policy annotations snapshots restores eliminated =>
      exact anchored.of_eq graph annotations snapshots eliminated
  | record member mutable smaller => exact anchored.record member smaller
  | restore biased member kept => exact anchored.restore member kept
  | lower biased member missing => exact anchored.lower member missing
  | rollBack member => exact anchored.rollBack member
  | trans first second earlier later => exact later (earlier anchored)

/-! ## The points of a solve -/

theorem start_anchored (wellFormed : solver.graph.WellFormed) :
    solver.start.Anchored solver := by
  rcases solver.start_eq with ⟨log, started⟩
  rw [started]
  refine ⟨rfl, wellFormed.leaf_eq_of_id, fun leaf _ => ?_⟩
  refine ⟨QualifierSet.subset_refl _, ?_, fun _ => rfl⟩
  intro snapshot present
  cases present

theorem anchored_of_mem_points (wellFormed : solver.graph.WellFormed) {point : Solver}
    (member : point ∈ solver.points) : point.Anchored solver := by
  rcases start_leadsTo wellFormed.coherent member with ⟨assigned, evolves⟩
  exact (start_anchored wellFormed).evolves evolves

/-- At every point of a solve, whatever it favours, a leaf of the graph that
counts as updated has its base as its snapshot and carries no more, and any
other has no snapshot and carries its base. The states between the turns are
among these points. -/
theorem points_snapshots (solver : Solver) (wellFormed : solver.graph.WellFormed) :
    (∀ count, count ≤ solver.rounds → iterate step count solver.start ∈ solver.points) ∧
      ∀ point, point ∈ solver.points → ∀ leaf, leaf ∈ solver.graph.leaves →
        (point.isUpdated leaf.id = true →
          point.snapshot? leaf.id = some (point.base solver leaf) ∧
            point.annotations.get leaf ⊆ point.base solver leaf) ∧
        (point.isUpdated leaf.id = false →
          point.snapshot? leaf.id = none ∧
            point.annotations.get leaf = point.base solver leaf) := by
  refine ⟨fun count inRange => iterate_mem_points inRange, ?_⟩
  intro point present leaf member
  have anchored := anchored_of_mem_points wellFormed present
  have atLeaf := anchored.leaves leaf (anchored.graph ▸ solver.graph.leaves_subset member)
  constructor
  · intro updated
    rcases Option.isSome_iff_exists.mp updated with ⟨snapshot, kept⟩
    have isBase := atLeaf.snapshot snapshot kept
    exact ⟨isBase ▸ kept, atLeaf.within⟩
  · intro missing
    have none : point.snapshot? leaf.id = none :=
      Option.isNone_iff_eq_none.mp (Option.isSome_eq_false_iff.mp missing)
    exact ⟨none, atLeaf.untouched none⟩

theorem points_snapshots_storedSecret :
    storedSecret.WellFormed ∧
      ∀ point, point ∈ points { graph := storedSecret, policy := ⟨.sink, 3⟩ } →
        ∀ leaf, leaf ∈ storedSecret.leaves →
          (point.isUpdated leaf.id = true →
            point.snapshot? leaf.id =
                some (point.base { graph := storedSecret, policy := ⟨.sink, 3⟩ } leaf) ∧
              point.annotations.get leaf ⊆
                point.base { graph := storedSecret, policy := ⟨.sink, 3⟩ } leaf) ∧
          (point.isUpdated leaf.id = false →
            point.snapshot? leaf.id = none ∧
              point.annotations.get leaf =
                point.base { graph := storedSecret, policy := ⟨.sink, 3⟩ } leaf) :=
  ⟨by decide, (points_snapshots { graph := storedSecret, policy := ⟨.sink, 3⟩ } (by decide)).2⟩

end InfoFlow.Solver
