import InfoFlow.Proofs.ConstraintSet
import InfoFlow.Proofs.WellFormed
import InfoFlow.ReferenceIndex

/-! What an index knows.

Registered constraints are never forgotten, and the adaptations among their
sides are noted. The search for what is built from a value follows each noted
adaptation at most once, so it ends within its rounds. It reaches the value
itself and every noted adaptation that is made of it directly. -/

namespace InfoFlow

def Constraint.FlowsFrom (constraint : Constraint) (value : Value) : Prop :=
  constraint.relation = .subtype ∧ constraint.left.same value = true ∨
    constraint.relation = .equality ∧
      (constraint.left.same value = true ∨ constraint.right.same value = true)

def Constraint.FlowsTo (constraint : Constraint) (value : Value) : Prop :=
  constraint.relation = .subtype ∧ constraint.right.same value = true ∨
    constraint.relation = .equality ∧
      (constraint.left.same value = true ∨ constraint.right.same value = true)

namespace ReferenceIndex

variable {index : ReferenceIndex} {constraint other : Constraint} {value : Value}

/-! ## Registration -/

theorem registered_registerAll (index : ReferenceIndex) (constraints : List Constraint) :
    (index.registerAll constraints).registered = index.registered.addAll constraints := by
  induction constraints generalizing index with
  | nil => rfl
  | cons constraint rest induction => exact induction (index.register constraint)

theorem mem_note {adaptations : List Value} {side : Value}
    (member : value ∈ note adaptations side) : value ∈ adaptations ∨ value = side := by
  unfold note at member
  split at member
  · exact .inl member
  · simpa using member

private theorem subset_note (adaptations : List Value) (side : Value) :
    adaptations ⊆ note adaptations side := by
  intro member present
  unfold note
  split
  · exact present
  · exact List.mem_append_left _ present

private theorem any_same_note (adaptations : List Value) {side : Value}
    (adapted : side.isLeaf = false) : (note adaptations side).any side.same = true := by
  unfold note
  split
  · next known => simpa [adapted] using known
  · simp [Value.same]

structure Among (index : ReferenceIndex) (values : List Value) : Prop where
  sides : ∀ constraint, constraint ∈ index.registered.toList → constraint.Between values
  adaptations : index.adaptations ⊆ values

theorem Among.register {values : List Value} (among : index.Among values)
    (between : constraint.Between values) : (index.register constraint).Among values where
  sides := by
    intro member present
    rcases ConstraintSet.mem_or_eq_of_mem_add present with known | equal
    · exact among.sides member known
    · exact equal ▸ between
  adaptations := by
    intro member present
    rcases mem_note present with earlier | equal
    · rcases mem_note earlier with known | equal
      · exact among.adaptations known
      · exact equal ▸ between.1
    · exact equal ▸ between.2

theorem Among.registerAll {values : List Value} {constraints : List Constraint}
    (among : index.Among values)
    (sides : ∀ constraint, constraint ∈ constraints → constraint.Between values) :
    (index.registerAll constraints).Among values := by
  induction constraints generalizing index with
  | nil => exact among
  | cons constraint rest induction =>
      have first := sides constraint List.mem_cons_self
      exact induction (among.register first) fun member later =>
        sides member (List.mem_cons_of_mem _ later)

def Noted (index : ReferenceIndex) : Prop :=
  ∀ constraint, constraint ∈ index.registered.toList →
    ∀ side, side = constraint.left ∨ side = constraint.right → side.isLeaf = false →
      index.adaptations.any side.same = true

theorem Noted.register (noted : index.Noted) : (index.register constraint).Noted := by
  intro member present side isSide adapted
  rcases ConstraintSet.mem_or_eq_of_mem_add present with known | equal
  · rcases List.any_eq_true.mp (noted member known side isSide adapted) with ⟨found, known, same⟩
    exact List.any_eq_true.mpr ⟨found, subset_note _ _ (subset_note _ _ known), same⟩
  · rw [equal] at isSide
    rcases isSide with equal | equal
    · rcases List.any_eq_true.mp (any_same_note index.adaptations (equal ▸ adapted)) with
        ⟨found, known, same⟩
      exact List.any_eq_true.mpr ⟨found, subset_note _ _ known, equal ▸ same⟩
    · rw [equal] at adapted ⊢
      exact any_same_note _ adapted

theorem Noted.registerAll {constraints : List Constraint} (noted : index.Noted) :
    (index.registerAll constraints).Noted := by
  induction constraints generalizing index with
  | nil => exact noted
  | cons constraint rest induction => exact induction noted.register

theorem adaptations_subset_registerAll (index : ReferenceIndex) (constraints : List Constraint) :
    index.adaptations ⊆ (index.registerAll constraints).adaptations := by
  induction constraints generalizing index with
  | nil => exact fun _ present => present
  | cons constraint rest induction =>
      exact fun _ present =>
        induction (index.register constraint) (subset_note _ _ (subset_note _ _ present))

theorem mem_adaptations {values : List Value} (among : index.Among values) (noted : index.Noted)
    (numbered : Numbered values) (present : constraint ∈ index.registered.toList)
    (side : value = constraint.left ∨ value = constraint.right) (adapted : value.isLeaf = false) :
    value ∈ index.adaptations := by
  have member : value ∈ values := by
    rcases side with equal | equal
    · exact equal ▸ (among.sides constraint present).1
    · exact equal ▸ (among.sides constraint present).2
  rcases List.any_eq_true.mp (noted constraint present value side adapted) with
    ⟨found, known, same⟩
  exact numbered value found member (among.adaptations known) same ▸ known

/-! ## What flows from and to a value -/

theorem mem_subSide :
    constraint ∈ index.subSide value ↔
      constraint ∈ index.registered.toList ∧ constraint.FlowsFrom value := by
  rw [subSide, List.mem_filter, Constraint.FlowsFrom]
  cases constraint.relation <;> simp

theorem mem_superSide :
    constraint ∈ index.superSide value ↔
      constraint ∈ index.registered.toList ∧ constraint.FlowsTo value := by
  rw [superSide, List.mem_filter, Constraint.FlowsTo]
  cases constraint.relation <;> simp

theorem side_of_mem_subSide (member : constraint ∈ index.subSide value) :
    constraint.left.same value = true ∨ constraint.right.same value = true := by
  rcases (mem_subSide.mp member).2 with ⟨-, left⟩ | ⟨-, either⟩
  · exact .inl left
  · exact either

theorem side_of_mem_superSide (member : constraint ∈ index.superSide value) :
    constraint.left.same value = true ∨ constraint.right.same value = true := by
  rcases (mem_superSide.mp member).2 with ⟨-, right⟩ | ⟨-, either⟩
  · exact .inr right
  · exact either

/-! ## Direct parts -/

theorem declaration_eq {values : List Value} {inner outer : Value} (numbered : Numbered values)
    (part : outer.declaration ∈ values) (member : inner ∈ values)
    (direct : hasDeclaration inner outer = true) : outer.declaration = inner := by
  cases outer with
  | leaf content => cases direct
  | adapted adaptation owner id declaration context => exact numbered _ _ part member direct

theorem context_eq {values : List Value} {inner outer : Value} (numbered : Numbered values)
    (part : outer.context ∈ values) (member : inner ∈ values)
    (direct : hasContext inner outer = true) :
    outer.context = inner ∧ isSynthetic outer.context.identifier = false := by
  cases outer with
  | leaf content => cases direct
  | adapted adaptation owner id declaration context =>
      rw [hasContext, Bool.and_eq_true, Bool.not_eq_true'] at direct
      exact ⟨numbered _ _ part member direct.1, direct.2⟩

/-! ## Indices that know more -/

variable {more : ReferenceIndex}

theorem subSide_subset (registered : index.registered.toList ⊆ more.registered.toList)
    (value : Value) : index.subSide value ⊆ more.subSide value := fun _ known =>
  List.mem_filter.mpr ⟨registered (List.mem_filter.mp known).1, (List.mem_filter.mp known).2⟩

theorem superSide_subset (registered : index.registered.toList ⊆ more.registered.toList)
    (value : Value) : index.superSide value ⊆ more.superSide value := fun _ known =>
  List.mem_filter.mpr ⟨registered (List.mem_filter.mp known).1, (List.mem_filter.mp known).2⟩

theorem adaptedFromDeclaration_subset (adaptations : index.adaptations ⊆ more.adaptations)
    (declaration : Value) :
    index.adaptedFromDeclaration declaration ⊆ more.adaptedFromDeclaration declaration :=
  fun _ known =>
    List.mem_filter.mpr ⟨adaptations (List.mem_filter.mp known).1, (List.mem_filter.mp known).2⟩

/-! ## The index of a set -/

theorem registered_ofList {constraints : ConstraintSet} (distinct : constraints.keys.Nodup) :
    (ofList constraints.toList).registered = constraints := by
  rw [ofList, registered_registerAll]
  exact ConstraintSet.addAll_toList distinct

theorem among_ofList {values : List Value} {constraints : List Constraint}
    (sides : ∀ constraint, constraint ∈ constraints → constraint.Between values) :
    (ofList constraints).Among values := by
  have start : ({} : ReferenceIndex).Among values := by
    constructor
    · intro member present
      cases present
    · exact List.nil_subset _
  exact start.registerAll sides

theorem noted_ofList (constraints : List Constraint) : (ofList constraints).Noted := by
  have start : ({} : ReferenceIndex).Noted := by
    intro member present
    cases present
  exact start.registerAll

/-! ## What is reached -/

namespace Search

variable {search next : Search}

private theorem any_reached_visit (search : Search) (value : Value) :
    (search.visit value).reached.any value.same = true := by
  unfold visit
  split
  · assumption
  · simp [Value.same]

theorem foldl_visit_eq (search : Search) (values : List Value) :
    ∃ added, added ⊆ values ∧ (values.foldl visit search).pending = search.pending ++ added ∧
      (values.foldl visit search).reached = search.reached ++ added := by
  induction values generalizing search with
  | nil => exact ⟨[], List.Subset.refl _, (List.append_nil _).symm, (List.append_nil _).symm⟩
  | cons head rest induction =>
      rcases induction (search.visit head) with ⟨added, included, pending, reached⟩
      rw [List.foldl_cons, pending, reached, visit]
      split
      · exact ⟨added, List.subset_cons_of_subset _ included, rfl, rfl⟩
      · refine ⟨head :: added, List.cons_subset_cons _ included, ?_, ?_⟩
        · exact List.append_assoc _ [head] added
        · exact List.append_assoc _ [head] added

private theorem reached_subset_foldl (search : Search) (values : List Value) :
    search.reached ⊆ (values.foldl visit search).reached := by
  rcases search.foldl_visit_eq values with ⟨added, -, -, reached⟩
  rw [reached]
  exact List.subset_append_left _ _

theorem any_reached_foldl (search : Search) {values : List Value}
    (member : value ∈ values) : (values.foldl visit search).reached.any value.same = true := by
  induction values generalizing search with
  | nil => cases member
  | cons head rest induction =>
      rcases List.mem_cons.mp member with equal | later
      · rw [equal]
        rcases List.any_eq_true.mp (any_reached_visit search head) with ⟨found, present, same⟩
        exact List.any_eq_true.mpr ⟨found, reached_subset_foldl _ rest present, same⟩
      · exact induction _ later

private theorem reached_subset_step (stepped : step index search = some next) :
    search.reached ⊆ next.reached := by
  unfold step at stepped
  split at stepped
  · cases stepped
  · next current rest pending =>
      cases stepped
      exact reached_subset_foldl ⟨rest, search.reached⟩ _

end Search

private theorem reached_subset_iterate (rounds : Nat) (search : Search) :
    search.reached ⊆ (iterate (Search.step index) rounds search).reached := by
  have kept : ∀ later next, Search.step index later = some next →
      search.reached ⊆ later.reached → search.reached ⊆ next.reached :=
    fun _ _ stepped grown => List.Subset.trans grown (Search.reached_subset_step stepped)
  exact iterate_preserves kept rounds (List.Subset.refl _)

theorem mem_builtFrom_self : value ∈ index.builtFrom value :=
  reached_subset_iterate _ ⟨[value], [value]⟩ List.mem_cons_self

theorem any_builtFrom_of_direct {adaptation : Value} (noted : adaptation ∈ index.adaptations)
    (direct : hasDeclaration value adaptation = true ∨ hasContext value adaptation = true) :
    (index.builtFrom value).any adaptation.same = true := by
  have member : adaptation ∈
      index.adaptedFromDeclaration value ++ index.adaptedFromContext value := by
    rcases direct with direct | direct
    · exact List.mem_append_left _ (List.mem_filter.mpr ⟨noted, direct⟩)
    · exact List.mem_append_right _ (List.mem_filter.mpr ⟨noted, direct⟩)
  rcases List.any_eq_true.mp (Search.any_reached_foldl ⟨[], [value]⟩ member) with
    ⟨found, present, same⟩
  refine List.any_eq_true.mpr ⟨found, ?_, same⟩
  exact reached_subset_iterate index.adaptations.length _ present

theorem mem_referencing :
    constraint ∈ index.referencing value ↔ constraint ∈ index.registered.toList ∧
      ∃ member, member ∈ index.builtFrom value ∧ flowsAt member constraint = true := by
  rw [referencing, List.mem_filter, List.any_eq_true]

theorem of_mem_referencing (member : constraint ∈ index.referencing value) :
    constraint ∈ index.registered.toList ∧ constraint.isFlow = true := by
  rcases mem_referencing.mp member with ⟨registered, reached, -, flows⟩
  rw [flowsAt, Bool.and_eq_true] at flows
  exact ⟨registered, flows.1⟩

theorem mem_referencing_of_side (registered : constraint ∈ index.registered.toList)
    (flow : constraint.isFlow = true)
    (side : constraint.left.same value = true ∨ constraint.right.same value = true) :
    constraint ∈ index.referencing value :=
  mem_referencing.mpr ⟨registered, value, mem_builtFrom_self, by
    rw [flowsAt, flow, Bool.true_and, Bool.or_eq_true]
    exact side⟩

theorem mem_referencing_of_direct {values : List Value} (among : index.Among values)
    (noted : index.Noted) (numbered : Numbered values)
    (registered : constraint ∈ index.registered.toList) (flow : constraint.isFlow = true)
    {side : Value} (isSide : side = constraint.left ∨ side = constraint.right)
    (direct : hasDeclaration value side = true ∨ hasContext value side = true) :
    constraint ∈ index.referencing value := by
  have adapted : side.isLeaf = false := by
    cases side with
    | leaf content => rcases direct with direct | direct <;> cases direct
    | adapted adaptation owner id declaration context => rfl
  rcases List.any_eq_true.mp (noted constraint registered side isSide adapted) with
    ⟨known, knownNoted, same⟩
  have sideMember : side ∈ values := by
    have both := among.sides constraint registered
    rcases isSide with equal | equal
    · exact equal ▸ both.1
    · exact equal ▸ both.2
  have equal : side = known :=
    numbered side known sideMember (among.adaptations knownNoted) same
  rcases List.any_eq_true.mp (any_builtFrom_of_direct (equal.symm ▸ knownNoted) direct) with
    ⟨member, reached, sameMember⟩
  refine mem_referencing.mpr ⟨registered, member, reached, ?_⟩
  rw [flowsAt, flow, Bool.true_and, Bool.or_eq_true]
  rcases isSide with equal | equal
  · exact .inl (equal ▸ sameMember)
  · exact .inr (equal ▸ sameMember)

/-! ## The end of the search -/

namespace Search

private structure Fair (index : ReferenceIndex) (origin : Value) (search : Search) : Prop where
  distinct : (search.reached.map Value.id).Nodup
  known : search.reached ⊆ origin :: index.adaptations

private theorem Fair.length_le {origin : Value} {search : Search}
    (fair : Fair index origin search) :
    search.reached.length ≤ index.adaptations.length + 1 := by
  have bound := fair.distinct.length_le_of_subset (List.map_subset Value.id fair.known)
  simpa using bound

private def remaining (index : ReferenceIndex) (search : Search) : Nat :=
  search.pending.length + (index.adaptations.length + 1 - search.reached.length)

private theorem Fair.visit {origin : Value} {search : Search}
    (fair : Fair index origin search) (noted : value ∈ index.adaptations) :
    Fair index origin (search.visit value) ∧
      remaining index (search.visit value) = remaining index search := by
  unfold Search.visit
  split
  · exact ⟨fair, rfl⟩
  · next new =>
      have distinct : ((search.reached ++ [value]).map Value.id).Nodup := by
        rw [List.map_append, List.nodup_append]
        refine ⟨fair.distinct, by simp, ?_⟩
        intro known member number single equal
        rw [List.map_singleton, List.mem_singleton] at single
        rcases List.mem_map.mp member with ⟨found, present, sameNumber⟩
        refine new (List.any_eq_true.mpr ⟨found, present, decide_eq_true ?_⟩)
        rw [← single, ← equal, sameNumber]
      have known : search.reached ++ [value] ⊆ origin :: index.adaptations := by
        intro member present
        rcases List.mem_append.mp present with earlier | equal
        · exact fair.known earlier
        · rw [List.mem_singleton] at equal
          exact List.mem_cons_of_mem _ (equal ▸ noted)
      have next : Fair index origin ⟨search.pending ++ [value], search.reached ++ [value]⟩ :=
        ⟨distinct, known⟩
      refine ⟨next, ?_⟩
      have bound := next.length_le
      simp only [remaining, List.length_append, List.length_singleton] at bound ⊢
      omega

private theorem Fair.foldl_visit {origin : Value} {search : Search} {values : List Value}
    (fair : Fair index origin search) (noted : values ⊆ index.adaptations) :
    Fair index origin (values.foldl Search.visit search) ∧
      remaining index (values.foldl Search.visit search) = remaining index search := by
  induction values generalizing search with
  | nil => exact ⟨fair, rfl⟩
  | cons head rest induction =>
      have visited := fair.visit (noted List.mem_cons_self)
      have followed := induction visited.1 fun _ later => noted (List.mem_cons_of_mem _ later)
      exact ⟨followed.1, followed.2.trans visited.2⟩

private theorem Fair.step {origin : Value} {search next : Search}
    (fair : Fair index origin search) (stepped : step index search = some next) :
    Fair index origin next ∧ remaining index next < remaining index search := by
  unfold Search.step at stepped
  split at stepped
  · cases stepped
  · next current rest pending =>
      cases stepped
      have start : Fair index origin ⟨rest, search.reached⟩ := ⟨fair.distinct, fair.known⟩
      have noted : index.adaptedFromDeclaration current ++ index.adaptedFromContext current ⊆
          index.adaptations := by
        intro member present
        rcases List.mem_append.mp present with present | present
        · exact (List.mem_filter.mp present).1
        · exact (List.mem_filter.mp present).1
      have followed := start.foldl_visit noted
      refine ⟨followed.1, ?_⟩
      rw [followed.2]
      simp only [remaining, pending, List.length_cons]
      omega

end Search

theorem search_finishes (index : ReferenceIndex) (value : Value) :
    (iterate (Search.step index) (index.adaptations.length + 1) ⟨[value], [value]⟩).pending =
      [] := by
  have start : Search.Fair index value ⟨[value], [value]⟩ :=
    ⟨by simp, by simp⟩
  have enough : Search.remaining index ⟨[value], [value]⟩ ≤ index.adaptations.length + 1 := by
    simp only [Search.remaining, List.length_singleton]
    omega
  have finished := iterate_finishes (Search.remaining index)
    (fun _ _ stepped fair => (Search.Fair.step fair stepped).1)
    (fun _ _ stepped fair => (Search.Fair.step fair stepped).2) start enough
  unfold Search.step at finished
  split at finished
  · assumption
  · cases finished

end ReferenceIndex

end InfoFlow
