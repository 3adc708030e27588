import Mathlib.Data.List.TakeWhile
import InfoFlow.Proofs.Solver.Course

/-! What a repair does to the leaves that it demotes.

A repair comes to its targets one after another. One that is updated when its
turn comes is restored, as long as the policy permits; one that is not is
eliminated, unless it is immutable or was eliminated before. The first
elimination rolls back all leaves of the graph, which are then no longer
updated: those that the repair comes to later are eliminated in their turn. And
a leaf that is a target twice is restored twice before that. So a repair treats
each target once, as it found it, only if no updated one comes late or often. -/

namespace InfoFlow.Solver

variable {solver before middle after : Solver} {leaf : Leaf} {leaves first second : List Leaf}
  {constraint : Constraint} {id : Nat}

/-! ## One target -/

def demoteOnce (solver : Solver) (leaf : Leaf) : Solver :=
  (solver.demote? leaf).getD solver

theorem demoteAll_fst (solver : Solver) (leaves : List Leaf) :
    (solver.demoteAll leaves).1 = leaves.foldl demoteOnce solver := by
  rw [demoteAll_eq, foldl_demoteNext_fst]
  rfl

def eliminations (solver : Solver) (id : Nat) : Nat :=
  (solver.eliminated.map Leaf.id).count id

def isSource (solver : Solver) (leaf : Leaf) : Bool :=
  !solver.isUpdated leaf.id && !leaf.isImmutable && !solver.isEliminated leaf

theorem isEliminated_eq (solver : Solver) (leaf : Leaf) :
    solver.isEliminated leaf = decide (0 < solver.eliminations leaf.id) := by
  rw [Bool.eq_iff_iff, isEliminated, List.any_eq_true, decide_eq_true_eq, eliminations,
    List.count_pos_iff, List.mem_map]
  simp only [decide_eq_true_eq]

theorem isUpdated_rollBack (solver : Solver) (leaf : Leaf) (id : Nat) :
    (solver.rollBack leaf).isUpdated id = (solver.isUpdated id && decide (id ≠ leaf.id)) := by
  by_cases same : id = leaf.id
  · cases kept : solver.snapshot? leaf.id with
    | none =>
        have missing : solver.snapshots.get? leaf.id = none := kept
        simp [rollBack, kept, same, isUpdated, FiniteMap.contains, missing]
    | some snapshot =>
        rw [rollBack_of_kept kept]
        simp [same, isUpdated, FiniteMap.contains]
  · cases kept : solver.snapshot? leaf.id with
    | none => simp [rollBack, kept, same]
    | some snapshot =>
        rw [rollBack_of_kept kept]
        simp [same, isUpdated, FiniteMap.contains, FiniteMap.erase_other]

theorem isUpdated_foldl_rollBack (solver : Solver) (leaves : List Leaf) (id : Nat) :
    (leaves.foldl rollBack solver).isUpdated id =
      (solver.isUpdated id && decide (id ∉ leaves.map Leaf.id)) := by
  induction leaves generalizing solver with
  | nil => simp
  | cons leaf rest induction =>
      rw [List.foldl_cons, induction, isUpdated_rollBack]
      simp [Bool.and_assoc]

theorem isSource_iff :
    solver.isSource leaf = true ↔ solver.isUpdated leaf.id = false ∧ leaf.isImmutable = false ∧
      solver.eliminations leaf.id = 0 := by
  simp [isSource, isEliminated_eq, and_assoc]

/-! ## Eliminations -/

@[simp] theorem eliminate_graph (solver : Solver) (leaf : Leaf) :
    (solver.eliminate leaf).graph = solver.graph := by
  rcases solver.eliminate_eq_appended leaf with ⟨_, _, _, _, equal⟩
  rw [equal]

@[simp] theorem eliminate_policy (solver : Solver) (leaf : Leaf) :
    (solver.eliminate leaf).policy = solver.policy := by
  rcases solver.eliminate_eq_appended leaf with ⟨_, _, _, _, equal⟩
  rw [equal]

@[simp] theorem restoreCount_eliminate (solver : Solver) (leaf : Leaf) (id : Nat) :
    (solver.eliminate leaf).restoreCount id = solver.restoreCount id := by
  rcases solver.eliminate_eq_appended leaf with ⟨_, _, _, _, equal⟩
  rw [equal]
  rfl

theorem eliminations_eliminate (solver : Solver) (leaf : Leaf) (id : Nat) :
    (solver.eliminate leaf).eliminations id =
      solver.eliminations id + if leaf.id = id then 1 else 0 := by
  rcases solver.eliminate_eq_appended leaf with ⟨_, _, _, _, equal⟩
  rw [equal]
  simp [eliminations, List.count_singleton]

theorem isUpdated_eliminate (solver : Solver) (leaf : Leaf) (id : Nat) :
    (solver.eliminate leaf).isUpdated id =
      (solver.isUpdated id && decide (id ∉ solver.graph.leaves.map Leaf.id)) := by
  rcases solver.eliminate_eq leaf with ⟨log, lowered⟩
  rw [lowered]
  exact isUpdated_foldl_rollBack { solver.lower leaf with log } solver.graph.leaves id

/-! ## Targets that find what is updated unchanged -/

/-- Leaves were demoted one after another, and none of them lost its snapshot by
that. Each that was updated has been restored as often as it was listed, as far
as the policy permits, and each source has been eliminated once. -/
structure Treated (before : Solver) (leaves : List Leaf) (after : Solver) : Prop where
  graph : after.graph = before.graph
  policy : after.policy = before.policy
  updated : ∀ id, after.isUpdated id = before.isUpdated id
  restored : ∀ id, after.restoreCount id = before.restoreCount id +
    if before.isUpdated id = true then
      min ((leaves.map Leaf.id).count id) (before.policy.maxRestores - before.restoreCount id)
    else 0
  eliminated : ∀ id, after.eliminations id = before.eliminations id +
    if ∃ leaf, leaf ∈ leaves ∧ leaf.id = id ∧ before.isSource leaf = true then 1 else 0

theorem Treated.isSource_iff (treated : Treated before leaves after) :
    after.isSource leaf = true ↔ before.isSource leaf = true ∧
      ¬ ∃ other, other ∈ leaves ∧ other.id = leaf.id ∧ before.isSource other = true := by
  rw [Solver.isSource_iff, Solver.isSource_iff, treated.updated, treated.eliminated leaf.id]
  split <;> simp [*]

theorem Treated.trans (earlier : Treated before first middle)
    (later : Treated middle second after) : Treated before (first ++ second) after where
  graph := later.graph.trans earlier.graph
  policy := later.policy.trans earlier.policy
  updated := fun id => (later.updated id).trans (earlier.updated id)
  restored := by
    intro id
    rw [later.restored, earlier.restored, earlier.updated, earlier.policy, List.map_append,
      List.count_append]
    split
    · omega
    · rfl
  eliminated := by
    intro id
    rw [later.eliminated, earlier.eliminated]
    by_cases among : ∃ leaf, leaf ∈ first ∧ leaf.id = id ∧ before.isSource leaf = true
    · have none : ¬ ∃ leaf, leaf ∈ second ∧ leaf.id = id ∧ middle.isSource leaf = true := by
        rintro ⟨leaf, -, number, source⟩
        exact (earlier.isSource_iff.mp source).2 (number ▸ among)
      have both : ∃ leaf, leaf ∈ first ++ second ∧ leaf.id = id ∧ before.isSource leaf = true := by
        rcases among with ⟨leaf, member, isLeaf⟩
        exact ⟨leaf, List.mem_append_left _ member, isLeaf⟩
      rw [if_pos among, if_neg none, if_pos both]
    · have same : (∃ leaf, leaf ∈ second ∧ leaf.id = id ∧ middle.isSource leaf = true) ↔
          ∃ leaf, leaf ∈ first ++ second ∧ leaf.id = id ∧ before.isSource leaf = true := by
        constructor
        · rintro ⟨leaf, member, number, source⟩
          exact ⟨leaf, List.mem_append_right _ member, number, (earlier.isSource_iff.mp source).1⟩
        · rintro ⟨leaf, member, number, source⟩
          rcases List.mem_append.mp member with inFirst | inSecond
          · exact absurd ⟨leaf, inFirst, number, source⟩ among
          · exact ⟨leaf, inSecond, number,
              earlier.isSource_iff.mpr ⟨source, number.symm ▸ among⟩⟩
      rw [if_neg among, if_congr same rfl rfl, Nat.add_zero]

theorem Treated.nil (solver : Solver) : Treated solver [] solver where
  graph := rfl
  policy := rfl
  updated := fun _ => rfl
  restored := by simp
  eliminated := by simp

private theorem treated_refused (spared : solver.isSource leaf = false)
    (exhausted : solver.isUpdated leaf.id = true →
      solver.policy.maxRestores ≤ solver.restoreCount leaf.id) : Treated solver [leaf] solver where
  graph := rfl
  policy := rfl
  updated := fun _ => rfl
  restored := by
    intro id
    by_cases same : leaf.id = id
    · subst same
      split
      · next updated =>
          have none := exhausted updated
          omega
      · rfl
    · simp [same]
  eliminated := by simp [spared]

private theorem treated_restore {snapshot : QualifierSet}
    (updated : solver.isUpdated leaf.id = true)
    (permitted : solver.restoreCount leaf.id < solver.policy.maxRestores) :
    Treated solver [leaf] (solver.restore leaf snapshot) where
  graph := restore_graph _ _ _
  policy := restore_policy _ _ _
  updated := by
    intro id
    rw [isUpdated, restore_snapshots, isUpdated]
  restored := by
    intro id
    rw [restoreCount_restore]
    by_cases same : id = leaf.id
    · subst same
      rw [if_pos rfl, if_pos updated, List.map_singleton, List.count_singleton_self]
      omega
    · simp [same, Ne.symm same]
  eliminated := by
    intro id
    have spared : solver.isSource leaf = false := by simp [isSource, updated]
    simp [eliminations, restore_eliminated, spared]

private theorem treated_eliminate (source : solver.isSource leaf = true)
    (idle : ∀ id, id ∈ solver.graph.leaves.map Leaf.id → solver.isUpdated id = false) :
    Treated solver [leaf] (solver.eliminate leaf) where
  graph := eliminate_graph _ _
  policy := eliminate_policy _ _
  updated := by
    intro id
    rw [isUpdated_eliminate]
    by_cases own : id ∈ solver.graph.leaves.map Leaf.id
    · rw [idle id own, Bool.false_and]
    · simp [own]
  restored := by
    intro id
    rw [restoreCount_eliminate]
    by_cases same : leaf.id = id
    · rw [← same, (isSource_iff.mp source).1, if_neg Bool.false_ne_true, Nat.add_zero]
    · simp [same]
  eliminated := by
    intro id
    rw [eliminations_eliminate]
    simp [source]

/-- In a steady state no target takes away a snapshot: none is a source, or no
leaf of the graph is updated. -/
def Steady (solver : Solver) (leaves : List Leaf) : Prop :=
  ∀ leaf, leaf ∈ leaves → solver.isSource leaf = true →
    ∀ id, id ∈ solver.graph.leaves.map Leaf.id → solver.isUpdated id = false

theorem demoteOnce_of_missing (missing : solver.isUpdated leaf.id = false) :
    solver.demoteOnce leaf = if solver.isSource leaf then solver.eliminate leaf else solver := by
  have kept : solver.snapshot? leaf.id = none := by
    cases kept : solver.snapshot? leaf.id with
    | none => rfl
    | some snapshot =>
        rw [isUpdated_of_snapshot kept] at missing
        cases missing
  simp only [demoteOnce, demote?, kept, isSource, missing]
  cases leaf.isImmutable <;> cases solver.isEliminated leaf <;> rfl

theorem treated_demoteOnce (steady : solver.Steady [leaf]) :
    Treated solver [leaf] (solver.demoteOnce leaf) := by
  cases kept : solver.snapshot? leaf.id with
  | some snapshot =>
      have updated := isUpdated_of_snapshot kept
      by_cases permitted : solver.restoreCount leaf.id < solver.policy.maxRestores
      · have restored : solver.demoteOnce leaf = solver.restore leaf snapshot := by
          simp [demoteOnce, demote?, kept, permitted]
        rw [restored]
        exact treated_restore updated permitted
      · have refused : solver.demoteOnce leaf = solver := by
          simp [demoteOnce, demote?, kept, permitted]
        rw [refused]
        exact treated_refused (by simp [isSource, updated]) fun _ => not_lt.mp permitted
  | none =>
      have missing : solver.isUpdated leaf.id = false := by
        have unbound : solver.snapshots.get? leaf.id = none := kept
        simp [isUpdated, FiniteMap.contains, unbound]
      rw [demoteOnce_of_missing missing]
      split
      · next source => exact treated_eliminate source (steady leaf List.mem_cons_self source)
      · next spared =>
          refine treated_refused (Bool.eq_false_iff.mpr spared) fun updated => ?_
          rw [missing] at updated
          cases updated

theorem treated_foldl (steady : solver.Steady leaves) :
    Treated solver leaves (leaves.foldl demoteOnce solver) := by
  induction leaves generalizing solver with
  | nil => exact .nil solver
  | cons leaf rest induction =>
      have once : Treated solver [leaf] (solver.demoteOnce leaf) :=
        treated_demoteOnce fun other member =>
          steady other (List.mem_singleton.mp member ▸ List.mem_cons_self)
      have later : (solver.demoteOnce leaf).Steady rest := by
        intro other member source id own
        rw [once.updated]
        rw [once.graph] at own
        exact steady other (List.mem_cons_of_mem _ member) (once.isSource_iff.mp source).1 id own
      exact once.trans (induction later)

/-! ## All targets -/

def beforeElimination (solver : Solver) (targets : List Leaf) : List Leaf :=
  targets.takeWhile fun target => !solver.isSource target

def fromElimination (solver : Solver) (targets : List Leaf) : List Leaf :=
  targets.dropWhile fun target => !solver.isSource target

theorem beforeElimination_append (solver : Solver) (targets : List Leaf) :
    solver.beforeElimination targets ++ solver.fromElimination targets = targets :=
  List.takeWhile_append_dropWhile

theorem not_isSource_of_mem_beforeElimination {targets : List Leaf}
    (early : leaf ∈ solver.beforeElimination targets) : ¬ solver.isSource leaf = true := by
  intro source
  have spared := List.mem_takeWhile_imp early
  rw [source] at spared
  cases spared

theorem isSource_of_head_fromElimination {targets : List Leaf}
    (isFirst : leaf ∈ (solver.fromElimination targets).head?) : solver.isSource leaf = true := by
  have head := List.head?_dropWhile_not (fun target => !solver.isSource target) targets
  rw [← fromElimination, Option.mem_def.mp isFirst] at head
  simpa using head

/-- How often a repair comes to a leaf before its snapshot is lost. Eliminations
take away those of the graph's own leaves. -/
def chances (solver : Solver) (targets : List Leaf) (id : Nat) : Nat :=
  let reached :=
    if id ∈ solver.graph.leaves.map Leaf.id then solver.beforeElimination targets else targets
  (reached.map Leaf.id).count id

/-- When leaves of the graph are no longer updated, a repair that comes to such
a leaf eliminates it. -/
def Exposed (solver : Solver) (leaf : Leaf) : Prop :=
  leaf.isImmutable = false ∧ solver.eliminations leaf.id = 0 ∧
    (solver.isUpdated leaf.id = true → leaf.id ∈ solver.graph.leaves.map Leaf.id)

instance (solver : Solver) (leaf : Leaf) : Decidable (solver.Exposed leaf) :=
  inferInstanceAs (Decidable (_ ∧ _ ∧ (_ → _)))

def Loses (solver : Solver) (targets : List Leaf) (id : Nat) : Prop :=
  ∃ target, target ∈ solver.fromElimination targets ∧ target.id = id ∧ solver.Exposed target

instance (solver : Solver) (targets : List Leaf) (id : Nat) :
    Decidable (solver.Loses targets id) :=
  inferInstanceAs (Decidable (∃ target, target ∈ solver.fromElimination targets ∧ _))

theorem exposed_of_isSource (source : solver.isSource leaf = true) : solver.Exposed leaf := by
  rcases isSource_iff.mp source with ⟨missing, mutable, never⟩
  refine ⟨mutable, never, fun updated => ?_⟩
  rw [missing] at updated
  cases updated

theorem isSource_eliminate_iff {other : Leaf} :
    (solver.eliminate leaf).isSource other = true ↔ solver.Exposed other ∧ leaf.id ≠ other.id := by
  rw [isSource_iff, eliminations_eliminate, isUpdated_eliminate, Exposed]
  grind

/-- From the first elimination on only leaves of other graphs are restored, and
all exposed ones are eliminated. -/
private theorem counts_of_source_first (eliminates : ∀ first, first ∈ leaves.head? →
      solver.isSource first = true) (id : Nat) :
    (leaves.foldl demoteOnce solver).restoreCount id = solver.restoreCount id +
        (if solver.isUpdated id = true ∧ id ∉ solver.graph.leaves.map Leaf.id then
          min ((leaves.map Leaf.id).count id)
            (solver.policy.maxRestores - solver.restoreCount id)
        else 0) ∧
      (leaves.foldl demoteOnce solver).eliminations id = solver.eliminations id +
        if ∃ target, target ∈ leaves ∧ target.id = id ∧ solver.Exposed target then 1 else 0 := by
  cases leaves with
  | nil => simp
  | cons first later =>
      have source := eliminates first rfl
      have missing := (isSource_iff.mp source).1
      have rest : Treated (solver.eliminate first) later
          (later.foldl demoteOnce (solver.eliminate first)) := by
        refine treated_foldl fun leaf member isSource id own => ?_
        rw [eliminate_graph] at own
        rw [isUpdated_eliminate]
        simp [own]
      rw [List.foldl_cons, demoteOnce_of_missing missing, if_pos source]
      constructor
      · rw [rest.restored, restoreCount_eliminate, eliminate_policy, isUpdated_eliminate]
        by_cases here : first.id = id
        · rw [← here, missing]
          simp
        · simp [here]
      · rw [rest.eliminated, eliminations_eliminate]
        by_cases here : first.id = id
        · have none : ¬ ∃ leaf, leaf ∈ later ∧ leaf.id = id ∧
              (solver.eliminate first).isSource leaf = true := by
            rintro ⟨leaf, -, number, again⟩
            exact (isSource_eliminate_iff.mp again).2 (here.trans number.symm)
          have lost : ∃ target, target ∈ first :: later ∧ target.id = id ∧
              solver.Exposed target :=
            ⟨first, List.mem_cons_self, here, exposed_of_isSource source⟩
          rw [if_pos here, if_neg none, if_pos lost]
        · have same : (∃ leaf, leaf ∈ later ∧ leaf.id = id ∧
              (solver.eliminate first).isSource leaf = true) ↔
              ∃ target, target ∈ first :: later ∧ target.id = id ∧ solver.Exposed target := by
            constructor
            · rintro ⟨leaf, member, number, again⟩
              exact ⟨leaf, List.mem_cons_of_mem _ member, number,
                (isSource_eliminate_iff.mp again).1⟩
            · rintro ⟨leaf, member, number, exposed⟩
              rcases List.mem_cons.mp member with rfl | inLater
              · exact absurd number here
              · exact ⟨leaf, inLater, number,
                  isSource_eliminate_iff.mpr ⟨exposed, number.symm ▸ here⟩⟩
          rw [if_neg here, if_congr same rfl rfl, Nat.add_zero]

/-- Leaves that were updated have been restored as often as there were chances
for it, as far as the policy permits, and those that are lost were eliminated. -/
structure Tallied (before after : Solver) (targets : List Leaf) : Prop where
  restored : ∀ id, after.restoreCount id = before.restoreCount id +
    if before.isUpdated id = true then
      min (before.chances targets id) (before.policy.maxRestores - before.restoreCount id)
    else 0
  eliminated : ∀ id, after.eliminations id = before.eliminations id +
    if before.Loses targets id then 1 else 0

theorem foldl_demoteOnce_tallied (solver : Solver) (targets : List Leaf) :
    solver.Tallied (targets.foldl demoteOnce solver) targets := by
  have early : Treated solver (solver.beforeElimination targets)
      ((solver.beforeElimination targets).foldl demoteOnce solver) :=
    treated_foldl fun _ member source =>
      absurd source (not_isSource_of_mem_beforeElimination member)
  have noSource : ∀ id, ¬ ∃ leaf, leaf ∈ solver.beforeElimination targets ∧ leaf.id = id ∧
      solver.isSource leaf = true := by
    rintro id ⟨leaf, member, -, source⟩
    exact not_isSource_of_mem_beforeElimination member source
  have same : ∀ id, ((solver.beforeElimination targets).foldl demoteOnce solver).eliminations id =
      solver.eliminations id := by
    intro id
    rw [early.eliminated, if_neg (noSource id), Nat.add_zero]
  have begins : ∀ first, first ∈ (solver.fromElimination targets).head? →
      ((solver.beforeElimination targets).foldl demoteOnce solver).isSource first = true :=
    fun first isFirst =>
      early.isSource_iff.mpr ⟨isSource_of_head_fromElimination isFirst, noSource first.id⟩
  have late := counts_of_source_first begins
  rw [← List.foldl_append, beforeElimination_append] at late
  simp only [Exposed, early.updated, early.graph, early.policy, same, early.restored] at late
  constructor
  · intro id
    rw [(late id).1]
    have all : (targets.map Leaf.id).count id =
        ((solver.beforeElimination targets).map Leaf.id).count id +
          ((solver.fromElimination targets).map Leaf.id).count id := by
      rw [← List.count_append, ← List.map_append, beforeElimination_append]
    by_cases own : id ∈ solver.graph.leaves.map Leaf.id
    · simp [chances, own]
    · simp only [chances, own, not_false_eq_true, and_true, if_false, all]
      split
      · omega
      · rfl
  · exact fun id => (late id).2

/-! ## Repairs -/

theorem exists_demoted? (biased : solver.policy.bias ≠ .neutral) (constraint : Constraint) :
    ∃ value, solver.demoted? constraint = some value := by
  unfold demoted?
  cases bias : solver.policy.bias with
  | neutral => exact absurd bias biased
  | sink =>
      dsimp only
      split <;> exact ⟨_, rfl⟩
  | source =>
      dsimp only
      split <;> exact ⟨_, rfl⟩

theorem repair_counts {value : Value} (demotes : solver.demoted? constraint = some value) :
    (solver.repair constraint).1.restores = (solver.demoteAll (solver.targets value)).1.restores ∧
      (solver.repair constraint).1.eliminated =
        (solver.demoteAll (solver.targets value)).1.eliminated := by
  rw [repair, demotes]
  dsimp only
  split
  · split
    · next applied changed again =>
        rcases apply_eq_ok again with ⟨narrowing, -, rfl, -⟩
        rcases absorb_eq _ narrowing with ⟨worklist, snapshots, absorbed⟩
        rw [absorbed]
        exact ⟨rfl, rfl⟩
    · exact ⟨rfl, rfl⟩
    · next failure _ _ =>
        rcases report_eq (solver.demoteAll (solver.targets value)).1 .debug
          ("Repair failed: " ++ failure.message) with ⟨log, reported⟩
        rw [reported]
        exact ⟨rfl, rfl⟩
  · exact ⟨rfl, rfl⟩

/-- Each target is restored once if it was updated and the policy permits it,
and eliminated once if it was a source. No other leaf is restored or
eliminated. -/
structure TreatsOnce (before after : Solver) (targets : List Leaf) : Prop where
  restored : ∀ id, after.restoreCount id = before.restoreCount id +
    if id ∈ targets.map Leaf.id ∧ before.isUpdated id = true ∧
        before.restoreCount id < before.policy.maxRestores then 1
    else 0
  eliminated : ∀ id, after.eliminations id = before.eliminations id +
    if ∃ target, target ∈ targets ∧ target.id = id ∧ before.isSource target = true then 1 else 0

theorem chances_of_not_mem {targets : List Leaf} (outside : id ∉ targets.map Leaf.id) :
    solver.chances targets id = 0 := by
  have early : id ∉ (solver.beforeElimination targets).map Leaf.id := fun member =>
    outside (((List.takeWhile_sublist _).map Leaf.id).subset member)
  unfold chances
  dsimp only
  split
  · exact List.count_eq_zero.mpr early
  · exact List.count_eq_zero.mpr outside

/-- Of the leaves that are not updated a repair loses just the sources. -/
theorem loses_iff_of_missing {targets : List Leaf} (missing : solver.isUpdated id = false) :
    solver.Loses targets id ↔
      ∃ target, target ∈ targets ∧ target.id = id ∧ solver.isSource target = true := by
  constructor
  · rintro ⟨target, member, number, mutable, never, -⟩
    exact ⟨target, (List.dropWhile_sublist _).subset member, number,
      isSource_iff.mpr ⟨number ▸ missing, mutable, never⟩⟩
  · rintro ⟨target, member, number, source⟩
    rw [← beforeElimination_append solver targets] at member
    rcases List.mem_append.mp member with early | late
    · exact absurd source (not_isSource_of_mem_beforeElimination early)
    · exact ⟨target, late, number, exposed_of_isSource source⟩

theorem Tallied.treatsOnce_iff {targets : List Leaf} (tallied : solver.Tallied after targets) :
    solver.TreatsOnce after targets ↔
      ∀ target, target ∈ targets → solver.isUpdated target.id = true →
        ¬ solver.Loses targets target.id ∧
          (solver.restoreCount target.id < solver.policy.maxRestores →
            solver.chances targets target.id = 1 ∨
              1 < solver.chances targets target.id ∧
                solver.restoreCount target.id + 1 = solver.policy.maxRestores) := by
  constructor
  · intro treats target member updated
    have noSource : ¬ ∃ other, other ∈ targets ∧ other.id = target.id ∧
        solver.isSource other = true := by
      rintro ⟨other, -, number, source⟩
      rw [isSource_iff, number, updated] at source
      cases source.1
    constructor
    · intro lost
      have once := treats.eliminated target.id
      rw [tallied.eliminated, if_pos lost, if_neg noSource] at once
      omega
    · intro permitted
      have once := treats.restored target.id
      have among : target.id ∈ targets.map Leaf.id := List.mem_map_of_mem member
      rw [tallied.restored, if_pos updated, if_pos ⟨among, updated, permitted⟩] at once
      omega
  · intro every
    constructor
    · intro id
      rw [tallied.restored]
      cases updated : solver.isUpdated id with
      | false => simp
      | true =>
          by_cases among : id ∈ targets.map Leaf.id
          · rcases List.mem_map.mp among with ⟨target, member, rfl⟩
            by_cases permitted : solver.restoreCount target.id < solver.policy.maxRestores
            · have chance := (every target member updated).2 permitted
              rw [if_pos rfl, if_pos ⟨among, rfl, permitted⟩]
              omega
            · rw [if_pos rfl, if_neg fun all => permitted all.2.2]
              omega
          · simp [chances_of_not_mem among, among]
    · intro id
      rw [tallied.eliminated]
      cases updated : solver.isUpdated id with
      | false => rw [if_congr (loses_iff_of_missing updated) rfl rfl]
      | true =>
          have kept : ¬ solver.Loses targets id := by
            rintro ⟨target, late, rfl, exposed⟩
            have member := (List.dropWhile_sublist _).subset late
            exact (every target member updated).1 ⟨target, late, rfl, exposed⟩
          have noSource : ¬ ∃ target, target ∈ targets ∧ target.id = id ∧
              solver.isSource target = true := by
            rintro ⟨target, -, rfl, source⟩
            rw [isSource_iff, updated] at source
            cases source.1
          rw [if_neg kept, if_neg noSource]

/-- What a repair restores and eliminates. It treats each target once if and
only if it loses no updated one and has one chance to restore each of them, or
more where a single restore is left. -/
theorem repair_treats_once_iff (solver : Solver) (constraint : Constraint)
    (biased : solver.policy.bias ≠ .neutral) :
    ∃ value, solver.demoted? constraint = some value ∧
      solver.Tallied (solver.repair constraint).1 (solver.targets value) ∧
      (solver.TreatsOnce (solver.repair constraint).1 (solver.targets value) ↔
        ∀ target, target ∈ solver.targets value → solver.isUpdated target.id = true →
          ¬ solver.Loses (solver.targets value) target.id ∧
            (solver.restoreCount target.id < solver.policy.maxRestores →
              solver.chances (solver.targets value) target.id = 1 ∨
                1 < solver.chances (solver.targets value) target.id ∧
                  solver.restoreCount target.id + 1 = solver.policy.maxRestores)) := by
  rcases exists_demoted? biased constraint with ⟨value, demotes⟩
  have demoted := foldl_demoteOnce_tallied solver (solver.targets value)
  have kept := repair_counts demotes
  rw [demoteAll_fst] at kept
  have tallied : solver.Tallied (solver.repair constraint).1 (solver.targets value) := by
    constructor
    · intro id
      rw [restoreCount, kept.1]
      exact demoted.restored id
    · intro id
      rw [eliminations, kept.2]
      exact demoted.eliminated id
  exact ⟨value, demotes, tallied, tallied.treatsOnce_iff⟩

/-- What a method returns of the box that it is called on flows into a clear
constant. -/
def clearedCall : ValueGraph :=
  let method : Method := { declaringClass := "Box", name := "get" }
  let result : Value := .leaf
    (LeafSpec.leaf { identifier := "result", kind := .result, method := some method } 0 0)
  let box : Value := .leaf (LeafSpec.leaf { identifier := "box" } 0 1)
  let sink : Value := .leaf
    (LeafSpec.leaf { identifier := "sink", kind := .constant, declared := .only .clear } 0 2)
  let returned : Value := .adapted .method 0 3 result box
  { values := [result, box, sink, returned]
    constraints := .ofList [.inferred returned sink []] }

def afterWrites (written : List Value) : Solver :=
  written.foldl (fun solver value => (solver.write value (.only .sensitive)).1)
    { graph := clearedCall, policy := { bias := .source } }

theorem repair_treats_once_iff_clearedCall :
    let solver := afterWrites (clearedCall.values.take 2)
    solver.policy.bias ≠ .neutral ∧
      ∀ constraint, constraint ∈ clearedCall.constraints.toList →
        solver.TreatsOnce (solver.repair constraint).1 (solver.targets constraint.left) := by
  intro solver
  have biased : solver.policy.bias ≠ .neutral := by decide
  refine ⟨biased, fun constraint member => ?_⟩
  have givenUp : ∀ constraint, constraint ∈ clearedCall.constraints.toList →
      solver.demoted? constraint = some constraint.left := by decide
  have fit : ∀ constraint, constraint ∈ clearedCall.constraints.toList →
      ∀ target, target ∈ solver.targets constraint.left → solver.isUpdated target.id = true →
        ¬ solver.Loses (solver.targets constraint.left) target.id ∧
          solver.chances (solver.targets constraint.left) target.id = 1 := by decide
  rcases repair_treats_once_iff solver constraint biased with ⟨value, demotes, -, once⟩
  cases (givenUp constraint member).symm.trans demotes
  refine once.mpr fun target isTarget updated => ?_
  have fits := fit constraint member target isTarget updated
  exact ⟨fits.1, fun _ => .inl fits.2⟩

/-- If only the result was written, the box is eliminated first. That rolls back
the result, which is then eliminated too and not restored. -/
theorem clearedCall_loses_result :
    let solver := afterWrites (clearedCall.values.take 1)
    ∃ constraint, constraint ∈ clearedCall.constraints.toList ∧
      solver.demoted? constraint = some constraint.left ∧
      ∃ target, target ∈ solver.targets constraint.left ∧ solver.isUpdated target.id = true ∧
        solver.restoreCount target.id < solver.policy.maxRestores ∧
        (solver.repair constraint).1.restoreCount target.id = solver.restoreCount target.id ∧
        (solver.repair constraint).1.eliminations target.id =
          solver.eliminations target.id + 1 := by
  decide

end InfoFlow.Solver
