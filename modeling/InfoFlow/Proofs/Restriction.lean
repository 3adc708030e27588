import InfoFlow.Proofs.Reordering

/-! What sets and indices of constraints say about some of the leaves.

A test divides the leaves in two. If no constraint and no adaptation at hand
mentions leaves of both sorts, then whatever an index knows of a value of one
sort is known to the part of the index that is about that sort. Adding and
registering constraints respects this division, because a key belongs to
constraints between the same values. -/

namespace InfoFlow

def beyond (inside : Leaf → Bool) (leaf : Leaf) : Bool :=
  !inside leaf

theorem beyond_beyond (inside : Leaf → Bool) : beyond (beyond inside) = inside := by
  funext leaf
  exact Bool.not_not _

/-! ## Values -/

namespace Value

variable {inside : Leaf → Bool} {value part whole : Value}

def within (inside : Leaf → Bool) (value : Value) : Bool :=
  value.leaves.all inside

@[simp] theorem within_leaf (inside : Leaf → Bool) (leaf : Leaf) :
    (Value.leaf leaf).within inside = inside leaf := by
  simp [within, leaves]

def Parted (inside : Leaf → Bool) (value : Value) : Prop :=
  value.within inside = true ∨ value.within (beyond inside) = true

theorem innermostDeclaration_mem_leaves (value : Value) :
    value.innermostDeclaration ∈ value.leaves := by
  induction value with
  | leaf content => simp [innermostDeclaration, leaves]
  | adapted adaptation owner id declaration context onDeclaration =>
      exact List.mem_append_right _ onDeclaration

theorem within_of_mem_parts (below : part ∈ whole.parts) (accepted : whole.within inside = true) :
    part.within inside = true := by
  rw [within, List.all_eq_true] at accepted ⊢
  intro leaf member
  exact accepted leaf
    (leaf_mem_parts_iff.mp (mem_parts_trans (leaf_mem_parts_iff.mpr member) below))

theorem not_within_of_beyond (refused : value.within (beyond inside) = true) :
    value.within inside = false := by
  rw [within, List.all_eq_true] at refused
  have outside := refused _ value.innermostDeclaration_mem_leaves
  rw [beyond, Bool.not_eq_true'] at outside
  exact List.all_eq_false.mpr ⟨_, value.innermostDeclaration_mem_leaves, by simp [outside]⟩

theorem Parted.symm (parted : value.Parted inside) : value.Parted (beyond inside) := by
  rw [Parted, beyond_beyond]
  exact Or.symm parted

theorem Parted.within_of_part (parted : whole.Parted inside) (below : part ∈ whole.parts)
    (accepted : part.within inside = true) : whole.within inside = true := by
  rcases parted with whole | refused
  · exact whole
  · have outside := not_within_of_beyond (within_of_mem_parts below refused)
    rw [accepted] at outside
    cases outside

end Value

/-! ## Constraints -/

namespace Constraint

variable {inside : Leaf → Bool} {constraint first second : Constraint} {values : List Value}

def within (inside : Leaf → Bool) (constraint : Constraint) : Bool :=
  constraint.left.within inside && constraint.right.within inside

def Parted (inside : Leaf → Bool) (constraint : Constraint) : Prop :=
  constraint.within inside = true ∨ constraint.within (beyond inside) = true

theorem within_iff : constraint.within inside = true ↔
    constraint.left.within inside = true ∧ constraint.right.within inside = true := by
  rw [within, Bool.and_eq_true]

theorem not_within_of_beyond (refused : constraint.within (beyond inside) = true) :
    constraint.within inside = false := by
  rw [within, Value.not_within_of_beyond (within_iff.mp refused).1, Bool.false_and]

theorem Parted.symm (parted : constraint.Parted inside) : constraint.Parted (beyond inside) := by
  rw [Parted, beyond_beyond]
  exact Or.symm parted

theorem Parted.sides (parted : constraint.Parted inside) :
    constraint.left.Parted inside ∧ constraint.right.Parted inside := by
  rcases parted with accepted | refused
  · exact ⟨.inl (within_iff.mp accepted).1, .inl (within_iff.mp accepted).2⟩
  · exact ⟨.inr (within_iff.mp refused).1, .inr (within_iff.mp refused).2⟩

theorem Parted.within_of_side (parted : constraint.Parted inside)
    (accepted : constraint.left.within inside = true ∨ constraint.right.within inside = true) :
    constraint.within inside = true := by
  rcases parted with whole | refused
  · exact whole
  · have left := Value.not_within_of_beyond (within_iff.mp refused).1
    have right := Value.not_within_of_beyond (within_iff.mp refused).2
    simp [left, right] at accepted

theorem within_eq_of_key_eq (numbered : Numbered values) (firstBetween : first.Between values)
    (secondBetween : second.Between values) (sameKey : first.key = second.key) :
    first.within inside = second.within inside := by
  have alike := alike_of_key_eq numbered firstBetween secondBetween sameKey
  rw [within, within, alike.left, alike.right]

end Constraint

def Constraint.Confined (inside : Leaf → Bool) (values : List Value) (constraint : Constraint) :
    Prop :=
  constraint.Between values ∧ constraint.within inside = true

def Annotations.Agree (inside : Leaf → Bool) (values : List Value) (before after : Annotations) :
    Prop :=
  ∀ value, value ∈ values → value.within inside = true → before.view value = after.view value

/-! ## Sets -/

namespace ConstraintSet

variable {inside : Leaf → Bool} {constraints : ConstraintSet} {constraint : Constraint}
  {added : List Constraint} {values : List Value}

def restrict (inside : Leaf → Bool) (constraints : ConstraintSet) : ConstraintSet :=
  ⟨constraints.toList.filter (Constraint.within inside)⟩

theorem mem_restrict : constraint ∈ (constraints.restrict inside).toList ↔
    constraint ∈ constraints.toList ∧ constraint.within inside = true :=
  List.mem_filter

theorem mem_keys_restrict (numbered : Numbered values)
    (among : ∀ member, member ∈ constraints.toList → member.Between values)
    (between : constraint.Between values) (accepted : constraint.within inside = true) :
    constraint.key ∈ (constraints.restrict inside).keys ↔ constraint.key ∈ constraints.keys := by
  constructor
  · intro known
    rcases List.mem_map.mp known with ⟨member, present, sameKey⟩
    exact List.mem_map.mpr ⟨member, (mem_restrict.mp present).1, sameKey⟩
  · intro known
    rcases List.mem_map.mp known with ⟨member, present, sameKey⟩
    have same : member.within inside = constraint.within inside :=
      Constraint.within_eq_of_key_eq numbered (among member present) between sameKey
    exact List.mem_map.mpr ⟨member, mem_restrict.mpr ⟨present, same.trans accepted⟩, sameKey⟩

theorem restrict_add (numbered : Numbered values)
    (among : ∀ member, member ∈ constraints.toList → member.Between values)
    (between : constraint.Between values) :
    (constraints.add constraint).restrict inside =
      if constraint.within inside then (constraints.restrict inside).add constraint
      else constraints.restrict inside := by
  cases accepted : constraint.within inside with
  | true =>
      have knows := mem_keys_restrict numbered among between accepted
      by_cases known : constraint.key ∈ constraints.keys
      · rw [add_of_contains known, if_pos rfl, add_of_contains (knows.mpr known)]
      · have new := toList_add_of_new (mt knows.mp known)
        rw [if_pos rfl]
        refine congrArg ConstraintSet.mk (Eq.trans ?_ new.symm)
        rw [toList_add_of_new known, List.filter_append, List.filter_singleton, accepted]
        rfl
  | false =>
      rw [if_neg Bool.false_ne_true]
      by_cases known : constraint.key ∈ constraints.keys
      · rw [add_of_contains known]
      · refine congrArg ConstraintSet.mk ?_
        rw [toList_add_of_new known, List.filter_append, List.filter_singleton, accepted]
        exact List.append_nil _

theorem restrict_addAll (numbered : Numbered values)
    (among : ∀ member, member ∈ constraints.toList → member.Between values)
    (between : ∀ member, member ∈ added → member.Between values) :
    (constraints.addAll added).restrict inside =
      (constraints.restrict inside).addAll (added.filter (Constraint.within inside)) := by
  induction added generalizing constraints with
  | nil => rfl
  | cons constraint rest induction =>
      have first := between constraint List.mem_cons_self
      have among' : ∀ member, member ∈ (constraints.add constraint).toList →
          member.Between values := by
        intro member present
        rcases mem_or_eq_of_mem_add present with known | equal
        · exact among member known
        · exact equal ▸ first
      rw [addAll_cons, induction among' fun member later =>
        between member (List.mem_cons_of_mem _ later), restrict_add numbered among first]
      cases accepted : constraint.within inside with
      | true => rw [List.filter_cons_of_pos accepted, addAll_cons, if_pos rfl]
      | false =>
          rw [List.filter_cons_of_neg (by simp [accepted]), if_neg Bool.false_ne_true]

theorem restrict_ofList (numbered : Numbered values)
    (between : ∀ member, member ∈ added → member.Between values) :
    (ofList added).restrict inside = .ofList (added.filter (Constraint.within inside)) :=
  restrict_addAll numbered (fun _ none => by cases none) between

theorem restrict_addAll_of_confined (numbered : Numbered values)
    (among : ∀ member, member ∈ constraints.toList → member.Between values)
    (confined : ∀ member, member ∈ added → member.Confined inside values) :
    (constraints.addAll added).restrict inside = (constraints.restrict inside).addAll added := by
  have all : added.filter (Constraint.within inside) = added :=
    List.filter_eq_self.mpr fun member present => (confined member present).2
  rw [restrict_addAll numbered among fun member present => (confined member present).1, all]

theorem restrict_addAll_of_beyond (numbered : Numbered values)
    (among : ∀ member, member ∈ constraints.toList → member.Between values)
    (confined : ∀ member, member ∈ added → member.Confined (beyond inside) values) :
    (constraints.addAll added).restrict inside = constraints.restrict inside := by
  have none : added.filter (Constraint.within inside) = [] := by
    rw [List.filter_eq_nil_iff]
    intro member present
    rw [Constraint.not_within_of_beyond (confined member present).2]
    exact Bool.false_ne_true
  rw [restrict_addAll numbered among fun member present => (confined member present).1, none]
  rfl

end ConstraintSet

/-! ## Indices -/

namespace ReferenceIndex

variable {inside : Leaf → Bool} {index : ReferenceIndex} {constraint : Constraint}
  {value : Value} {values : List Value}

def restrict (inside : Leaf → Bool) (index : ReferenceIndex) : ReferenceIndex where
  registered := index.registered.restrict inside
  adaptations := index.adaptations.filter (Value.within inside)

/-- An index of values whose constraints and adaptations mention leaves of one
sort each. -/
structure Divided (inside : Leaf → Bool) (values : List Value) (index : ReferenceIndex) :
    Prop where
  numbered : Numbered values
  closed : Derivation.ClosedUnderParts values
  among : index.Among values
  constraints : ∀ constraint, constraint ∈ index.registered.toList → constraint.Parted inside
  adaptations : ∀ adaptation, adaptation ∈ index.adaptations → adaptation.Parted inside

theorem Divided.symm (divided : index.Divided inside values) :
    index.Divided (beyond inside) values :=
  { divided with
    constraints := fun constraint known => (divided.constraints constraint known).symm
    adaptations := fun adaptation noted => (divided.adaptations adaptation noted).symm }

/-! ### Registration -/

private theorem filter_note {adaptations : List Value} {side : Value}
    (numbered : Numbered values) (among : adaptations ⊆ values) (member : side ∈ values) :
    (note adaptations side).filter (Value.within inside) =
      if side.within inside then note (adaptations.filter (Value.within inside)) side
      else adaptations.filter (Value.within inside) := by
  cases accepted : side.within inside with
  | true =>
      have finds : (adaptations.filter (Value.within inside)).any side.same =
          adaptations.any side.same := by
        rw [Bool.eq_iff_iff, List.any_eq_true, List.any_eq_true]
        constructor
        · rintro ⟨found, noted, same⟩
          exact ⟨found, (List.mem_filter.mp noted).1, same⟩
        · rintro ⟨found, noted, same⟩
          have equal := numbered side found member (among noted) same
          exact ⟨found, List.mem_filter.mpr ⟨noted, equal ▸ accepted⟩, same⟩
      rw [if_pos rfl, note, note, finds]
      split
      · rfl
      · rw [List.filter_append, List.filter_singleton, accepted]
        rfl
  | false =>
      rw [if_neg Bool.false_ne_true, note]
      split
      · rfl
      · rw [List.filter_append, List.filter_singleton, accepted]
        exact List.append_nil _

theorem restrict_register (divided : index.Divided inside values)
    (between : constraint.Between values) (parted : constraint.Parted inside) :
    (index.register constraint).restrict inside =
      if constraint.within inside then (index.restrict inside).register constraint
      else index.restrict inside := by
  have noted : note index.adaptations constraint.left ⊆ values := by
    intro adaptation member
    rcases mem_note member with known | equal
    · exact divided.among.adaptations known
    · exact equal ▸ between.1
  have registered : (index.registered.add constraint).restrict inside = _ :=
    ConstraintSet.restrict_add divided.numbered divided.among.sides between
  have adaptations : (note (note index.adaptations constraint.left) constraint.right).filter
      (Value.within inside) = _ := filter_note divided.numbered noted between.2
  rw [filter_note divided.numbered divided.among.adaptations between.1] at adaptations
  rcases parted with accepted | refused
  · have sides := Constraint.within_iff.mp accepted
    rw [accepted, if_pos rfl] at registered
    rw [sides.1, sides.2, if_pos rfl, if_pos rfl] at adaptations
    rw [accepted, if_pos rfl, restrict, register, registered, adaptations]
    rfl
  · have sides := Constraint.within_iff.mp refused
    rw [Constraint.not_within_of_beyond refused, if_neg Bool.false_ne_true] at registered
    rw [Value.not_within_of_beyond sides.1, Value.not_within_of_beyond sides.2,
      if_neg Bool.false_ne_true, if_neg Bool.false_ne_true] at adaptations
    rw [Constraint.not_within_of_beyond refused, if_neg Bool.false_ne_true, restrict, register,
      registered, adaptations]
    rfl

theorem Divided.register (divided : index.Divided inside values)
    (between : constraint.Between values) (parted : constraint.Parted inside) :
    (index.register constraint).Divided inside values where
  numbered := divided.numbered
  closed := divided.closed
  among := divided.among.register between
  constraints := by
    intro member present
    rcases ConstraintSet.mem_or_eq_of_mem_add present with known | equal
    · exact divided.constraints member known
    · exact equal ▸ parted
  adaptations := by
    intro adaptation noted
    rcases mem_note noted with earlier | equal
    · rcases mem_note earlier with known | equal
      · exact divided.adaptations adaptation known
      · exact equal ▸ parted.sides.1
    · exact equal ▸ parted.sides.2

/-- Registering constraints that mention leaves of one sort each keeps an index
divided, and its part is as if only the accepted ones had been registered. -/
theorem Divided.registerAll {constraints : List Constraint} (divided : index.Divided inside values)
    (between : ∀ constraint, constraint ∈ constraints → constraint.Between values)
    (parted : ∀ constraint, constraint ∈ constraints → constraint.Parted inside) :
    (index.registerAll constraints).Divided inside values ∧
      (index.registerAll constraints).restrict inside =
        (index.restrict inside).registerAll (constraints.filter (Constraint.within inside)) := by
  induction constraints generalizing index with
  | nil => exact ⟨divided, rfl⟩
  | cons constraint rest induction =>
      have firstBetween := between constraint List.mem_cons_self
      have firstParted := parted constraint List.mem_cons_self
      have later := induction (divided.register firstBetween firstParted)
        (fun member present => between member (List.mem_cons_of_mem _ present))
        (fun member present => parted member (List.mem_cons_of_mem _ present))
      refine ⟨later.1, later.2.trans ?_⟩
      rw [restrict_register divided firstBetween firstParted]
      cases accepted : constraint.within inside with
      | true =>
          rw [List.filter_cons_of_pos accepted, if_pos rfl]
          rfl
      | false =>
          rw [List.filter_cons_of_neg (by simp [accepted]), if_neg Bool.false_ne_true]

theorem divided_ofList {constraints : List Constraint} (numbered : Numbered values)
    (closed : Derivation.ClosedUnderParts values)
    (between : ∀ constraint, constraint ∈ constraints → constraint.Between values)
    (parted : ∀ constraint, constraint ∈ constraints → constraint.Parted inside) :
    (ofList constraints).Divided inside values ∧
      (ofList constraints).restrict inside =
        .ofList (constraints.filter (Constraint.within inside)) := by
  have none : (({} : ReferenceIndex)).Divided inside values := by
    refine ⟨numbered, closed, ⟨?_, List.nil_subset _⟩, ?_, ?_⟩
    all_goals
      intro member present
      cases present
  exact none.registerAll between parted

/-! ### Queries -/

private theorem filter_filter_of_imp {Element : Type} {accepts finds : Element → Bool}
    {members : List Element}
    (accepted : ∀ member, member ∈ members → finds member = true → accepts member = true) :
    (members.filter accepts).filter finds = members.filter finds := by
  rw [List.filter_filter]
  refine List.filter_congr fun member present => ?_
  cases found : finds member with
  | true => rw [accepted member present found, Bool.and_self]
  | false => rw [Bool.false_and]

namespace Divided

theorem within_of_mentions (divided : index.Divided inside values)
    (known : constraint ∈ index.registered.toList) (member : value ∈ values)
    (accepted : value.within inside = true)
    (mentions : constraint.left.same value = true ∨ constraint.right.same value = true) :
    constraint.within inside = true := by
  have between := divided.among.sides constraint known
  refine (divided.constraints constraint known).within_of_side ?_
  rcases mentions with left | right
  · exact .inl (divided.numbered _ _ between.1 member left ▸ accepted)
  · exact .inr (divided.numbered _ _ between.2 member right ▸ accepted)

theorem subSide_restrict (divided : index.Divided inside values) (member : value ∈ values)
    (accepted : value.within inside = true) :
    (index.restrict inside).subSide value = index.subSide value := by
  refine filter_filter_of_imp fun constraint known found => ?_
  have below : constraint ∈ index.subSide value := List.mem_filter.mpr ⟨known, found⟩
  exact divided.within_of_mentions known member accepted (side_of_mem_subSide below)

theorem superSide_restrict (divided : index.Divided inside values) (member : value ∈ values)
    (accepted : value.within inside = true) :
    (index.restrict inside).superSide value = index.superSide value := by
  refine filter_filter_of_imp fun constraint known found => ?_
  have above : constraint ∈ index.superSide value := List.mem_filter.mpr ⟨known, found⟩
  exact divided.within_of_mentions known member accepted (side_of_mem_superSide above)

theorem within_of_direct {adaptation : Value} (divided : index.Divided inside values)
    (noted : adaptation ∈ index.adaptations) (member : value ∈ values)
    (accepted : value.within inside = true)
    (direct : hasDeclaration value adaptation = true ∨ hasContext value adaptation = true) :
    adaptation.within inside = true := by
  have parted := divided.adaptations _ noted
  have whole := divided.among.adaptations noted
  rcases direct with declared | observed
  · have part := adaptation.declaration_mem_parts
    have equal := declaration_eq divided.numbered (divided.closed _ _ part whole) member declared
    exact parted.within_of_part part (equal ▸ accepted)
  · have part := adaptation.context_mem_parts
    have equal := context_eq divided.numbered (divided.closed _ _ part whole) member observed
    exact parted.within_of_part part (equal.1 ▸ accepted)

theorem adaptedFromDeclaration_restrict (divided : index.Divided inside values)
    (member : value ∈ values) (accepted : value.within inside = true) :
    (index.restrict inside).adaptedFromDeclaration value = index.adaptedFromDeclaration value :=
  filter_filter_of_imp fun _ noted found =>
    divided.within_of_direct noted member accepted (.inl found)

theorem adaptedFromContext_restrict (divided : index.Divided inside values)
    (member : value ∈ values) (accepted : value.within inside = true) :
    (index.restrict inside).adaptedFromContext value = index.adaptedFromContext value :=
  filter_filter_of_imp fun _ noted found =>
    divided.within_of_direct noted member accepted (.inr found)

/-! ### Mentions -/

private structure Kept (inside : Leaf → Bool) (values : List Value) (search : Search) : Prop where
  pending : ∀ value, value ∈ search.pending → value ∈ values ∧ value.within inside = true
  reached : ∀ value, value ∈ search.reached → value ∈ values ∧ value.within inside = true

private theorem Kept.foldl_visit {search : Search} {found : List Value}
    (kept : Kept inside values search)
    (accepted : ∀ value, value ∈ found → value ∈ values ∧ value.within inside = true) :
    Kept inside values (found.foldl Search.visit search) := by
  rcases search.foldl_visit_eq found with ⟨added, included, pending, reached⟩
  constructor
  · rw [pending]
    intro member present
    rcases List.mem_append.mp present with earlier | new
    · exact kept.pending member earlier
    · exact accepted member (included new)
  · rw [reached]
    intro member present
    rcases List.mem_append.mp present with earlier | new
    · exact kept.reached member earlier
    · exact accepted member (included new)

private theorem Kept.step {search : Search} (divided : index.Divided inside values)
    (kept : Kept inside values search) :
    (search.step (index.restrict inside) = none ∧ search.step index = none) ∨
      ∃ next, search.step (index.restrict inside) = some next ∧ search.step index = some next ∧
        Kept inside values next := by
  unfold Search.step
  cases pending : search.pending with
  | nil => exact .inl ⟨rfl, rfl⟩
  | cons current rest =>
      have turn := kept.pending current (pending ▸ List.mem_cons_self)
      have declared := divided.adaptedFromDeclaration_restrict turn.1 turn.2
      have observed := divided.adaptedFromContext_restrict turn.1 turn.2
      refine .inr ⟨_, by dsimp only; rw [declared, observed], rfl,
        Kept.foldl_visit ⟨?_, kept.reached⟩ ?_⟩
      · exact fun value later => kept.pending value (pending ▸ List.mem_cons_of_mem _ later)
      · intro value built
        rcases List.mem_append.mp built with declared | observed
        · have found := List.mem_filter.mp declared
          exact ⟨divided.among.adaptations found.1,
            divided.within_of_direct found.1 turn.1 turn.2 (.inl found.2)⟩
        · have found := List.mem_filter.mp observed
          exact ⟨divided.among.adaptations found.1,
            divided.within_of_direct found.1 turn.1 turn.2 (.inr found.2)⟩

theorem builtFrom_restrict (divided : index.Divided inside values) (member : value ∈ values)
    (accepted : value.within inside = true) :
    (index.restrict inside).builtFrom value = index.builtFrom value ∧
      ∀ built, built ∈ index.builtFrom value → built ∈ values ∧ built.within inside = true := by
  let Related : Search → Search → Prop := fun first second =>
    first = second ∧ Kept inside values second
  have kept : ∀ first second, Related first second →
      (first.step (index.restrict inside) = none ∧ second.step index = none) ∨
        ∃ firstNext secondNext, first.step (index.restrict inside) = some firstNext ∧
          second.step index = some secondNext ∧ Related firstNext secondNext := by
    rintro first second ⟨rfl, kept⟩
    rcases kept.step divided with ended | ⟨next, partly, wholly, later⟩
    · exact .inl ended
    · exact .inr ⟨next, next, partly, wholly, rfl, later⟩
  have start : Related ⟨[value], [value]⟩ ⟨[value], [value]⟩ := by
    refine ⟨rfl, ?_, ?_⟩
    all_goals
      intro other present
      exact List.mem_singleton.mp present ▸ ⟨member, accepted⟩
  have finished : ∀ index : ReferenceIndex,
      (iterate (Search.step index) (index.adaptations.length + 1) ⟨[value], [value]⟩).step index =
        none := by
    intro index
    rw [Search.step, index.search_finishes value]
  have related := iterate_related kept start (finished (index.restrict inside)) (finished index)
  exact ⟨congrArg Search.reached related.1, related.2.reached⟩

/-- The flows that mention an accepted value are found in the accepted part,
and are accepted. -/
theorem referencing_restrict (divided : index.Divided inside values) (member : value ∈ values)
    (accepted : value.within inside = true) :
    (index.restrict inside).referencing value = index.referencing value ∧
      ∀ constraint, constraint ∈ index.referencing value → constraint.within inside = true := by
  have built := divided.builtFrom_restrict member accepted
  have about : ∀ constraint, constraint ∈ index.registered.toList →
      (index.builtFrom value).any (fun reached => flowsAt reached constraint) = true →
        constraint.within inside = true := by
    intro constraint known found
    rcases List.any_eq_true.mp found with ⟨reached, reachedMember, flows⟩
    have sort := built.2 reached reachedMember
    rw [flowsAt, Bool.and_eq_true, Bool.or_eq_true] at flows
    exact divided.within_of_mentions known sort.1 sort.2 flows.2
  constructor
  · unfold referencing
    rw [built.1]
    exact filter_filter_of_imp about
  · intro constraint found
    have both := List.mem_filter.mp found
    exact about constraint both.1 both.2

end Divided

end ReferenceIndex

/-! ## Graphs -/

namespace ValueGraph

variable {inside : Leaf → Bool} {graph : ValueGraph} {constraint made : Constraint}

theorem agree_iff {before after : Annotations} :
    Annotations.Agree inside graph.parts before after ↔
      ∀ leaf, leaf ∈ graph.leafParts.filter inside → before.get leaf = after.get leaf := by
  constructor
  · intro agree leaf member
    have both := List.mem_filter.mp member
    exact agree (.leaf leaf) (leaf_mem_parts_iff.mpr both.1)
      ((Value.within_leaf inside leaf).trans both.2)
  · intro agree value member accepted
    refine Annotations.view_eq_of_leaves fun leaf below => agree leaf (List.mem_filter.mpr ?_)
    exact ⟨leaves_subset_leafParts member below, List.all_eq_true.mp accepted leaf below⟩

theorem leaves_subset_of_confined (confined : constraint.Confined inside graph.parts) :
    constraint.left.leaves ⊆ graph.leafParts.filter inside ∧
      constraint.right.leaves ⊆ graph.leafParts.filter inside := by
  have sides := Constraint.within_iff.mp confined.2
  exact ⟨fun leaf below => List.mem_filter.mpr
      ⟨leaves_subset_leafParts confined.1.1 below, List.all_eq_true.mp sides.1 leaf below⟩,
    fun leaf below => List.mem_filter.mpr
      ⟨leaves_subset_leafParts confined.1.2 below, List.all_eq_true.mp sides.2 leaf below⟩⟩

def restrict (inside : Leaf → Bool) (graph : ValueGraph) : ValueGraph :=
  { graph with constraints := graph.constraints.restrict inside }

theorem between_of_mem_withReverse {values : List Value}
    (member : made ∈ graph.withReverse constraint) (between : constraint.Between values) :
    made.Between values := by
  rcases mem_withReverse.mp member with rfl | ⟨-, rfl⟩
  · exact between
  · exact And.symm between

theorem within_of_mem_withReverse (member : made ∈ graph.withReverse constraint) :
    made.within inside = constraint.within inside := by
  rcases mem_withReverse.mp member with rfl | ⟨-, rfl⟩
  · rfl
  · simp [Constraint.within, Bool.and_comm]

private theorem flatMap_withReverse_filter (constraints : List Constraint) :
    (constraints.filter (Constraint.within inside)).flatMap graph.withReverse =
      (constraints.flatMap graph.withReverse).filter (Constraint.within inside) := by
  induction constraints with
  | nil => rfl
  | cons constraint rest induction =>
      rw [List.flatMap_cons, List.filter_append, ← induction]
      cases accepted : constraint.within inside with
      | true =>
          have all : (graph.withReverse constraint).filter (Constraint.within inside) =
              graph.withReverse constraint :=
            List.filter_eq_self.mpr fun made member =>
              (within_of_mem_withReverse member).trans accepted
          rw [List.filter_cons_of_pos accepted, List.flatMap_cons, all]
      | false =>
          have none : (graph.withReverse constraint).filter (Constraint.within inside) = [] := by
            rw [List.filter_eq_nil_iff]
            intro made member
            rw [within_of_mem_withReverse member, accepted]
            exact Bool.false_ne_true
          rw [List.filter_cons_of_neg (by simp [accepted]), none, List.nil_append]

/-- A graph whose constraints mention leaves of one sort each. -/
structure Divided (inside : Leaf → Bool) (graph : ValueGraph) : Prop where
  wellFormed : graph.WellFormed
  parted : ∀ constraint, constraint ∈ graph.constraints.toList → constraint.Parted inside

theorem Divided.parted_upgraded (divided : graph.Divided inside)
    (member : constraint ∈ graph.upgraded.toList) : constraint.Parted inside := by
  rcases mem_withReverse_of_mem_upgraded member with ⟨forth, known, made⟩
  exact (divided.parted forth known).imp (fun accepted =>
    (within_of_mem_withReverse made).trans accepted) fun refused =>
      (within_of_mem_withReverse made).trans refused

theorem Divided.upgraded_restrict (divided : graph.Divided inside) :
    (graph.restrict inside).upgraded = graph.upgraded.restrict inside := by
  have between : ∀ made, made ∈ graph.constraints.toList.flatMap graph.withReverse →
      made.Between graph.parts := by
    intro made member
    rcases List.mem_flatMap.mp member with ⟨forth, known, reversed⟩
    have both := divided.wellFormed.sides forth known
    exact between_of_mem_withReverse reversed
      ⟨mem_parts_of_mem_values both.1, mem_parts_of_mem_values both.2⟩
  have restricted : graph.upgraded.restrict inside = _ :=
    ConstraintSet.restrict_ofList divided.wellFormed.numbered between
  rw [restricted, ← flatMap_withReverse_filter]
  rfl

theorem Divided.restrict (divided : graph.Divided inside) :
    (graph.restrict inside).WellFormed where
  sides := fun constraint member =>
    divided.wellFormed.sides constraint (ConstraintSet.mem_restrict.mp member).1
  specified := fun constraint member =>
    divided.wellFormed.specified constraint (ConstraintSet.mem_restrict.mp member).1
  numbered := divided.wellFormed.numbered

end ValueGraph

end InfoFlow
