import InfoFlow.Proofs.Solver.Fixpoint

/-! The course of a solve.

All that happens to leaves in a solve happens by assignments of four kinds: a
write takes qualifiers from a leaf, a restore and a rollback return a leaf to its
snapshot, and an elimination lets a leaf fall back to the source level. The
points of a solve are the states between these, as far as a repair or a turn has
come, and from each of them the later ones arise by such assignments, which are
listed in order. So whatever an assignment keeps holds from any point on. -/

namespace InfoFlow.Solver

/-! ## Assignments -/

/-- A state arises from another by assigning the listed values, in order, and by
changes that leave alone what is known of leaves. -/
inductive Evolves : Solver → List (Value × QualifierSet) → Solver → Prop
  | apart {before after : Solver} (graph : after.graph = before.graph)
      (policy : after.policy = before.policy)
      (annotations : after.annotations = before.annotations)
      (snapshots : after.snapshots = before.snapshots)
      (restores : after.restores = before.restores)
      (eliminated : after.eliminated = before.eliminated)
      (restoreCounter : after.restoreCounter = before.restoreCounter) :
      Evolves before [] after
  | record {solver : Solver} {leaf : Leaf} {qualifiers : QualifierSet}
      (member : leaf ∈ solver.graph.leafParts) (mutable : leaf.isImmutable = false)
      (smaller : qualifiers ⊆ solver.annotations.get leaf) :
      Evolves solver [(.leaf leaf, qualifiers)]
        (solver.record ⟨leaf, solver.annotations.get leaf, qualifiers⟩)
  | restore {solver : Solver} {leaf : Leaf} {snapshot : QualifierSet}
      (biased : solver.policy.bias ≠ .neutral) (member : leaf ∈ solver.graph.leafParts)
      (kept : solver.snapshot? leaf.id = some snapshot)
      (permitted : solver.restoreCount leaf.id < solver.policy.maxRestores) :
      Evolves solver [(.leaf leaf, snapshot)] (solver.restore leaf snapshot)
  | lower {solver : Solver} {leaf : Leaf} (biased : solver.policy.bias ≠ .neutral)
      (member : leaf ∈ solver.graph.leafParts) (missing : solver.snapshot? leaf.id = none)
      (mutable : leaf.isImmutable = false) (permitted : solver.isEliminated leaf = false) :
      Evolves solver [(.leaf leaf, solver.graph.sourceLevel)] (solver.lower leaf)
  | rollBack {solver : Solver} {leaf : Leaf} {snapshot : QualifierSet}
      (member : leaf ∈ solver.graph.leafParts)
      (kept : solver.snapshot? leaf.id = some snapshot) :
      Evolves solver [(.leaf leaf, snapshot)] (solver.rollBack leaf)
  | trans {before middle after : Solver} {earlier later : List (Value × QualifierSet)}
      (first : Evolves before earlier middle) (second : Evolves middle later after) :
      Evolves before (earlier ++ later) after

def LeadsTo (before after : Solver) : Prop :=
  ∃ assigned, Evolves before assigned after

variable {solver before middle after next : Solver} {leaf : Leaf} {constraint : Constraint}
  {assigned : List (Value × QualifierSet)} {path further : List Solver}

theorem rollBack_of_kept {snapshot : QualifierSet}
    (kept : solver.snapshot? leaf.id = some snapshot) :
    solver.rollBack leaf =
      { solver.requeue leaf with
        annotations := solver.annotations.set leaf snapshot
        snapshots := solver.snapshots.erase leaf.id } := by
  rw [rollBack, kept]
  rfl

theorem Evolves.graph (evolves : Evolves before assigned after) :
    after.graph = before.graph := by
  induction evolves with
  | apart graph => exact graph
  | record => rw [Solver.record, note_eq]; rfl
  | restore => exact restore_graph _ _ _
  | lower => rfl
  | rollBack member kept => rw [rollBack_of_kept kept]; rfl
  | trans first second earlier later => exact later.trans earlier

theorem Evolves.policy (evolves : Evolves before assigned after) :
    after.policy = before.policy := by
  induction evolves with
  | apart graph policy => exact policy
  | record => rw [Solver.record, note_eq]; rfl
  | restore => exact restore_policy _ _ _
  | lower => rfl
  | rollBack member kept => rw [rollBack_of_kept kept]; rfl
  | trans first second earlier later => exact later.trans earlier

theorem LeadsTo.refl (solver : Solver) : solver.LeadsTo solver :=
  ⟨[], .apart rfl rfl rfl rfl rfl rfl rfl⟩

theorem LeadsTo.trans (first : before.LeadsTo middle) (second : middle.LeadsTo after) :
    before.LeadsTo after := by
  rcases first with ⟨earlier, first⟩
  rcases second with ⟨later, second⟩
  exact ⟨earlier ++ later, first.trans second⟩

theorem LeadsTo.graph (leads : before.LeadsTo after) : after.graph = before.graph := by
  rcases leads with ⟨assigned, evolves⟩
  exact evolves.graph

theorem LeadsTo.policy (leads : before.LeadsTo after) : after.policy = before.policy := by
  rcases leads with ⟨assigned, evolves⟩
  exact evolves.policy

/-! ## The operations of a solver -/

theorem leadsTo_report (solver : Solver) (severity : Log.Severity) (text : String) :
    solver.LeadsTo (solver.report severity text) := by
  rcases solver.report_eq severity text with ⟨log, reported⟩
  rw [reported]
  exact ⟨[], .apart rfl rfl rfl rfl rfl rfl rfl⟩

theorem leadsTo_absorb {leaves : List Leaf} {narrowing : Narrowing}
    (included : leaves ⊆ solver.graph.leafParts)
    (reached : Narrowing.From Leaf.isImmutable leaves solver.annotations narrowing) :
    solver.LeadsTo (solver.absorb narrowing) := by
  induction reached with
  | unwritten => exact .refl solver
  | @written narrowing leaf qualifiers earlier member mutable smaller different induction =>
      have annotations := solver.absorb_annotations narrowing
      have recorded := solver.absorb_written narrowing
        ⟨leaf, narrowing.annotations.get leaf, qualifiers⟩
      have once : Evolves (solver.absorb narrowing) [(.leaf leaf, qualifiers)] _ :=
        .record (induction.graph.symm ▸ included member) mutable (annotations.symm ▸ smaller)
      rw [annotations, ← recorded] at once
      exact induction.trans ⟨_, once⟩

theorem leadsTo_apply {changed : Bool} (places : SeparatePlaces solver.graph.leafParts)
    (between : constraint.Between solver.graph.parts)
    (applied : solver.apply constraint = .ok (after, changed)) : solver.LeadsTo after := by
  rcases apply_eq_ok applied with ⟨narrowing, outcome, rfl, -⟩
  have included := leaves_subset_of_between between
  exact leadsTo_absorb (List.Subset.refl _)
    (Annotations.apply_from places included.1 included.2 outcome)

theorem leadsTo_foldl_rollBack {leaves : List Leaf}
    (included : leaves ⊆ solver.graph.leafParts) :
    solver.LeadsTo (leaves.foldl Solver.rollBack solver) := by
  induction leaves generalizing solver with
  | nil => exact .refl solver
  | cons leaf rest induction =>
      have once : solver.LeadsTo (solver.rollBack leaf) := by
        cases kept : solver.snapshot? leaf.id with
        | none =>
            rw [Solver.rollBack, kept]
            exact .refl solver
        | some snapshot => exact ⟨_, .rollBack (included List.mem_cons_self) kept⟩
      refine once.trans (induction ?_)
      rw [once.graph]
      exact fun other later => included (List.mem_cons_of_mem _ later)

theorem leadsTo_eliminate (biased : solver.policy.bias ≠ .neutral)
    (member : leaf ∈ solver.graph.leafParts) (missing : solver.snapshot? leaf.id = none)
    (mutable : leaf.isImmutable = false) (permitted : solver.isEliminated leaf = false) :
    solver.LeadsTo (solver.eliminate leaf) := by
  rcases solver.eliminate_eq leaf with ⟨log, eliminated⟩
  rw [eliminated]
  have lowered : solver.LeadsTo { solver.lower leaf with log } :=
    LeadsTo.trans ⟨_, .lower biased member missing mutable permitted⟩
      ⟨[], .apart rfl rfl rfl rfl rfl rfl rfl⟩
  exact lowered.trans (leadsTo_foldl_rollBack solver.graph.leaves_subset)

theorem leadsTo_demote {demoted : Solver} (biased : solver.policy.bias ≠ .neutral)
    (member : leaf ∈ solver.graph.leafParts) (demotes : solver.demote? leaf = some demoted) :
    solver.LeadsTo demoted := by
  unfold demote? at demotes
  split at demotes
  · next snapshot kept =>
      split at demotes
      · next permitted =>
          cases demotes
          exact ⟨_, .restore biased member kept permitted⟩
      · cases demotes
  · next missing =>
      split at demotes
      · cases demotes
      · next permitted =>
          cases demotes
          simp only [Bool.or_eq_true, not_or, Bool.not_eq_true] at permitted
          exact leadsTo_eliminate biased member missing permitted.1 permitted.2

theorem biased_of_demoted? {value : Value} (demotes : solver.demoted? constraint = some value) :
    solver.policy.bias ≠ .neutral := by
  intro neutral
  rw [demoted?, neutral] at demotes
  cases demotes

/-! ## The points of a solve -/

def demotionPoints (solver : Solver) (leaves : List Leaf) : List Solver :=
  leaves.scanl (fun current leaf => (current.demote? leaf).getD current) solver

def repairPoints (solver : Solver) (constraint : Constraint) : List Solver :=
  match solver.demoted? constraint with
  | none => []
  | some value =>
      solver.demotionPoints (solver.targets value) ++ [(solver.repair constraint).1]

def servePoints (solver : Solver) (constraint : Constraint) : List Solver :=
  match solver.apply constraint with
  | .ok (applied, _) => [applied, solver.serve constraint]
  | .error _ =>
      (if solver.graph.failureStatus constraint = some .error then
        solver.repairPoints constraint
      else []) ++ [solver.serve constraint]

def turnPoints (solver : Solver) : List Solver :=
  match solver.worklist.pop? with
  | none => []
  | some (constraint, rest) => ({ solver with worklist := rest } : Solver).servePoints constraint

/-- The states that a solve passes through: its start, those of its turns, those
between the retries of conflicts, and its end. -/
def points (solver : Solver) : List Solver :=
  let served := iterate step solver.rounds solver.start
  solver.start ::
    ((List.range solver.rounds).flatMap fun count => (iterate step count solver.start).turnPoints) ++
      served.conflicts.toList.scanl retry served ++ [solver.solve]

theorem serve_mem_servePoints (solver : Solver) (constraint : Constraint) :
    solver.serve constraint ∈ solver.servePoints constraint := by
  unfold servePoints
  split <;> simp

theorem step_mem_turnPoints (stepped : solver.step = some next) : next ∈ solver.turnPoints := by
  rcases Option.map_eq_some_iff.mp stepped with ⟨⟨constraint, rest⟩, popped, rfl⟩
  simp only [turnPoints, popped]
  exact serve_mem_servePoints _ constraint

theorem iterate_mem_points {count : Nat} (inRange : count ≤ solver.rounds) :
    iterate step count solver.start ∈ solver.points := by
  induction count with
  | zero => simp [points, iterate]
  | succ count induction =>
      rw [iterate_succ]
      cases stepped : step (iterate step count solver.start) with
      | none => exact induction (Nat.le_of_succ_le inRange)
      | some next =>
          have turn : next ∈ (List.range solver.rounds).flatMap fun count =>
              (iterate step count solver.start).turnPoints :=
            List.mem_flatMap.mpr
              ⟨count, List.mem_range.mpr inRange, step_mem_turnPoints stepped⟩
          simp only [points, Option.getD_some, List.mem_append, List.mem_cons]
          exact .inl (.inl (.inr turn))

/-! ## Passages -/

/-- The states of a path lie on the way from one state to another, in order. -/
structure Passes (before : Solver) (path : List Solver) (after : Solver) : Prop where
  ordered : (before :: path).Pairwise LeadsTo
  onward : ∀ point, point ∈ before :: path → point.LeadsTo after

theorem Passes.leadsTo (passes : Passes before path after) : before.LeadsTo after :=
  passes.onward before List.mem_cons_self

theorem Passes.direct (leads : before.LeadsTo after) : Passes before [] after where
  ordered := List.pairwise_singleton _ _
  onward := by
    intro point member
    exact List.mem_singleton.mp member ▸ leads

theorem Passes.append (first : Passes before path middle)
    (second : Passes middle further after) : Passes before (path ++ further) after where
  ordered := by
    have later := List.pairwise_cons.mp second.ordered
    rw [← List.cons_append, List.pairwise_append]
    refine ⟨first.ordered, later.2, fun point pointMember other otherMember => ?_⟩
    exact (first.onward point pointMember).trans (later.1 other otherMember)
  onward := by
    intro point member
    rw [← List.cons_append, List.mem_append] at member
    rcases member with earlier | later
    · exact (first.onward point earlier).trans second.leadsTo
    · exact second.onward point (List.mem_cons_of_mem _ later)

theorem Passes.onto (passes : Passes before path middle) (leads : middle.LeadsTo after) :
    Passes before path after where
  ordered := passes.ordered
  onward := fun point member => (passes.onward point member).trans leads

theorem Passes.ended (passes : Passes before path after) :
    Passes before (path ++ [after]) after where
  ordered := by
    rw [← List.cons_append, List.pairwise_append]
    refine ⟨passes.ordered, List.pairwise_singleton _ _, fun point member last isLast => ?_⟩
    exact List.mem_singleton.mp isLast ▸ passes.onward point member
  onward := by
    intro point member
    rw [← List.cons_append, List.mem_append] at member
    rcases member with earlier | last
    · exact passes.onward point earlier
    · exact List.mem_singleton.mp last ▸ .refl after

theorem Passes.scanl {Item : Type} {act : Solver → Item → Solver} {items : List Item}
    (Fits : Solver → List Item → Prop)
    (kept : ∀ current item rest, Fits current (item :: rest) →
      current.LeadsTo (act current item) ∧ Fits (act current item) rest)
    (fits : Fits solver items) :
    Passes solver (items.scanl act solver) (items.foldl act solver) := by
  induction items generalizing solver with
  | nil => exact (Passes.direct (.refl solver)).ended
  | cons item rest induction =>
      have once := kept solver item rest fits
      have begun := (Passes.direct (.refl solver)).ended.onto once.1
      rw [List.scanl_cons, List.foldl_cons]
      exact begun.append (induction once.2)

/-! ## Repairs -/

theorem foldl_demoteNext_fst (progress : Solver × Bool) (leaves : List Leaf) :
    (leaves.foldl demoteNext progress).1 =
      leaves.foldl (fun current leaf => (current.demote? leaf).getD current) progress.1 := by
  induction leaves generalizing progress with
  | nil => rfl
  | cons leaf rest induction =>
      have once : (demoteNext progress leaf).1 =
          (progress.1.demote? leaf).getD progress.1 := by
        unfold demoteNext
        split
        · next demoted demotes => rw [demotes, Option.getD_some]
        · next refused => rw [refused, Option.getD_none]
      rw [List.foldl_cons, List.foldl_cons, induction, once]

theorem passes_demotionPoints {leaves : List Leaf} (biased : solver.policy.bias ≠ .neutral)
    (included : leaves ⊆ solver.graph.leafParts) :
    Passes solver (solver.demotionPoints leaves) (solver.demoteAll leaves).1 := by
  rw [demoteAll_eq, foldl_demoteNext_fst]
  refine Passes.scanl (fun current rest =>
    current.policy.bias ≠ .neutral ∧ rest ⊆ current.graph.leafParts) ?_ ⟨biased, included⟩
  intro current leaf rest fits
  have later : rest ⊆ current.graph.leafParts :=
    fun other member => fits.2 (List.mem_cons_of_mem _ member)
  cases demotes : current.demote? leaf with
  | none => exact ⟨.refl current, fits.1, later⟩
  | some demoted =>
      have leads := leadsTo_demote fits.1 (fits.2 List.mem_cons_self) demotes
      rw [Option.getD_some, leads.policy, leads.graph]
      exact ⟨leads, fits.1, later⟩

theorem passes_repairPoints (places : SeparatePlaces solver.graph.leafParts)
    (between : constraint.Between solver.graph.parts) :
    Passes solver (solver.repairPoints constraint) (solver.repair constraint).1 := by
  unfold repairPoints
  split
  · next spared =>
      rw [repair, spared]
      exact .direct (.refl solver)
  · next value demotes =>
      have demoted := passes_demotionPoints (biased_of_demoted? demotes)
        (targets_subset between demotes)
      have graph := demoted.leadsTo.graph
      have applied : (solver.demoteAll (solver.targets value)).1.LeadsTo
          (solver.repair constraint).1 := by
        rw [repair, demotes]
        dsimp only
        split
        · split
          · next applied changed again =>
              exact leadsTo_apply (graph.symm ▸ places) (graph.symm ▸ between) again
          · exact .refl _
          · exact leadsTo_report _ _ _
        · exact .refl _
      exact (demoted.onto applied).ended

/-! ## Turns -/

theorem repair_leadsTo_fail (error : solver.graph.failureStatus constraint = some .error) :
    (solver.repair constraint).1.LeadsTo (solver.fail constraint) := by
  rcases solver.fail_cases constraint with ⟨-, ⟨-, equal⟩ | ⟨-, equal⟩⟩ | ⟨status, -⟩
  · rw [equal]
    exact .refl _
  · rw [equal]
    exact ⟨[], .apart rfl rfl rfl rfl rfl rfl rfl⟩
  · exact absurd error status

theorem leadsTo_fail (spared : solver.graph.failureStatus constraint ≠ some .error) :
    solver.LeadsTo (solver.fail constraint) := by
  rcases solver.fail_cases constraint with ⟨status, -⟩ | ⟨-, warned, log, equal⟩
  · exact absurd status spared
  · rw [equal]
    exact ⟨[], .apart rfl rfl rfl rfl rfl rfl rfl⟩

theorem passes_servePoints (consistent : solver.Consistent)
    (member : constraint ∈ solver.constraints.toList) :
    Passes solver (solver.servePoints constraint) (solver.serve constraint) := by
  have between := consistent.between constraint member
  cases outcome : solver.apply constraint with
  | ok result =>
      rcases result with ⟨applied, changed⟩
      have reached := leadsTo_apply consistent.places between outcome
      have extended : applied.LeadsTo (applied.extend constraint) :=
        ⟨[], .apart rfl rfl rfl rfl rfl rfl rfl⟩
      rw [servePoints, serve, outcome]
      exact ((Passes.direct reached).ended.onto extended).ended
  | error failure =>
      rw [servePoints, serve, outcome]
      by_cases error : solver.graph.failureStatus constraint = some .error
      · have repaired := passes_repairPoints consistent.places between
        rw [if_pos error]
        exact (repaired.onto (repair_leadsTo_fail error)).ended
      · rw [if_neg error]
        exact (Passes.direct (leadsTo_fail error)).ended

theorem passes_turnPoints (consistent : solver.Consistent) :
    Passes solver solver.turnPoints (solver.step.getD solver) := by
  cases popped : solver.worklist.pop? with
  | none =>
      rw [turnPoints, step, popped]
      exact .direct (.refl solver)
  | some served =>
      rcases served with ⟨constraint, rest⟩
      have turn := consistent.popped (Worklist.toList_eq_of_pop? popped)
      have taken : solver.LeadsTo { solver with worklist := rest } :=
        ⟨[], .apart rfl rfl rfl rfl rfl rfl rfl⟩
      rw [turnPoints, step, popped]
      exact (Passes.direct taken).append (passes_servePoints turn.1 turn.2)

theorem passes_iterate (coherent : solver.graph.Coherent) (count : Nat) :
    Passes solver.start
      ((List.range count).flatMap fun turn => (iterate step turn solver.start).turnPoints)
      (iterate step count solver.start) := by
  induction count with
  | zero => exact .direct (.refl _)
  | succ count induction =>
      have turn := passes_turnPoints (iterate_consistent coherent count).1
      rw [List.range_succ, List.flatMap_append, List.flatMap_singleton, iterate_succ]
      exact induction.append turn

/-! ## The end -/

theorem Consistent.leadsTo_retry (consistent : solver.Consistent)
    (member : constraint ∈ solver.constraints.toList) :
    solver.LeadsTo (solver.retry constraint) := by
  have between := consistent.between constraint member
  unfold Solver.retry
  split
  · next applied changed outcome =>
      have leads := leadsTo_apply consistent.places between outcome
      exact leads.trans ⟨[], .apart rfl rfl rfl rfl rfl rfl rfl⟩
  · exact .refl solver

theorem Consistent.passes_retries (consistent : solver.Consistent) {retried : List Constraint}
    (members : retried ⊆ solver.constraints.toList) :
    Passes solver (retried.scanl Solver.retry solver) (retried.foldl Solver.retry solver) := by
  refine Passes.scanl (fun current rest =>
    current.Consistent ∧ rest ⊆ current.constraints.toList) ?_ ⟨consistent, members⟩
  intro current constraint rest fits
  have member := fits.2 List.mem_cons_self
  rcases fits.1.retry member with ⟨again, constraints, -⟩
  refine ⟨fits.1.leadsTo_retry member, again, ?_⟩
  rw [constraints]
  exact fun other later => fits.2 (List.mem_cons_of_mem _ later)

theorem points_ordered (coherent : solver.graph.Coherent) :
    solver.points.Pairwise LeadsTo := by
  have consistent := (iterate_consistent coherent solver.rounds).1
  have served := passes_iterate coherent solver.rounds
  have retried := consistent.passes_retries consistent.conflicts
  have finished : ((iterate step solver.rounds solver.start).conflicts.toList.foldl Solver.retry
      (iterate step solver.rounds solver.start)).LeadsTo solver.solve := by
    rcases (iterate step solver.rounds solver.start).finish_eq with ⟨log, equal⟩
    rw [solve, equal]
    exact ⟨[], .apart rfl rfl rfl rfl rfl rfl rfl⟩
  exact ((served.append retried).onto finished).ended.ordered

theorem start_leadsTo {point : Solver} (coherent : solver.graph.Coherent)
    (member : point ∈ solver.points) : solver.start.LeadsTo point := by
  have ordered := points_ordered coherent
  have unfolded : ∃ later, solver.points = solver.start :: later := ⟨_, rfl⟩
  rcases unfolded with ⟨later, equal⟩
  rw [equal] at ordered member
  rcases List.mem_cons.mp member with same | further
  · exact same ▸ .refl _
  · exact (List.pairwise_cons.mp ordered).1 point further

end InfoFlow.Solver
