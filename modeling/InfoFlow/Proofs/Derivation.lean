import InfoFlow.Proofs.Derivation.Proposal

/-! What a derivation finds.

Each rule joins two values that are at hand: sides of known constraints or
parts of these. So a property that the rules hand on holds of all that is
found, and the sides of what is found stay within any collection of values that
is closed under parts. Since nothing is found twice, a derivation runs out of
pairs of values and ends within its rounds. -/

namespace InfoFlow

/-- Qualifiers pass from one value to another along a constraint: a flow leads
from its left side to its right side, and an equality also back. -/
def Constraint.Conveys (constraint : Constraint) (source target : Value) : Prop :=
  constraint.isFlow = true ∧ constraint.left = source ∧ constraint.right = target ∨
    constraint.relation = .equality ∧ constraint.right = source ∧ constraint.left = target

namespace Derivation

variable {graph : ValueGraph} {annotations : Annotations} {index : ReferenceIndex}
  {constraint proposal : Constraint} {existing : ConstraintSet}

/-! ## The rules -/

/-- The pairs of values that the rules join for one constraint, whatever else they
ask for. -/
inductive Joined (annotations : Annotations) (index : ReferenceIndex) (constraint : Constraint) :
    Value → Value → Prop
  | read {context : Value} (through : throughField? annotations constraint.left = some context) :
      Joined annotations index constraint context constraint.right
  | written {context : Value}
      (through : throughField? annotations constraint.right = some context) :
      Joined annotations index constraint constraint.left context
  | below {lower : Constraint} (known : lower ∈ index.superSide constraint.left) :
      Joined annotations index constraint (lesser lower constraint.left) constraint.right
  | above {upper : Constraint} (known : upper ∈ index.subSide constraint.right) :
      Joined annotations index constraint constraint.left (greater upper constraint.right)
  | bridged {entry exit : Value} {lower upper : Constraint}
      (entered : entry ∈ index.adaptedFromDeclaration constraint.left)
      (entryMethod : entry.isMethodAdapted = true)
      (left : exit ∈ index.adaptedFromDeclaration constraint.right)
      (exitMethod : exit.isMethodAdapted = true)
      (sameCall : entry.context.same exit.context = true)
      (lowerKnown : lower ∈ index.superSide entry) (upperKnown : upper ∈ index.subSide exit) :
      Joined annotations index constraint (lesser lower entry) (greater upper exit)

theorem Proposed.joined {source target : Value}
    (proposed : Proposed graph annotations index constraint source target) :
    Joined annotations index constraint source target := by
  cases proposed with
  | read through => exact .read through
  | written notField through => exact .written through
  | intoField field known => exact .below known
  | carriedIn direct known => exact .below known
  | outOfField notField field known => exact .above known
  | carriedOut direct carried known => exact .above known
  | bridged direct leftCarried rightCarried entered entryMethod returned exitMethod sameCall
      lowerKnown upperKnown =>
      exact .bridged entered entryMethod returned exitMethod sameCall lowerKnown upperKnown

theorem joined_of_mem_candidates
    (member : proposal ∈ candidates graph annotations index constraint) :
    proposal.relation = .subtype ∧
      Joined annotations index constraint proposal.left proposal.right := by
  have proposed := proposed_of_mem_candidates member
  exact ⟨proposed.1, proposed.2.joined⟩

theorem lesser_mem {values : List Value} {lower : Constraint} (value : Value)
    (left : lower.left ∈ values) (right : lower.right ∈ values) :
    lesser lower value ∈ values := by
  unfold lesser
  split
  · exact right
  · exact left

theorem greater_mem {values : List Value} {upper : Constraint} (value : Value)
    (left : upper.left ∈ values) (right : upper.right ∈ values) :
    greater upper value ∈ values := by
  unfold greater
  split
  · exact left
  · exact right

section

variable {values : List Value} {source target : Value} (numbered : Numbered values)
  (between : constraint.Between values)

include numbered between

theorem mem_superSide_iff_conveys (targetMember : target ∈ values) :
    constraint ∈ index.superSide target ∧ lesser constraint target = source ↔
      constraint ∈ index.registered.toList ∧ constraint.Conveys source target := by
  rw [ReferenceIndex.mem_superSide, and_assoc]
  refine and_congr_right fun _ => ?_
  have left : constraint.left.same target = true ↔ constraint.left = target :=
    ⟨numbered _ _ between.1 targetMember, fun equal => equal ▸ Value.same_refl _⟩
  have right : constraint.right.same target = true ↔ constraint.right = target :=
    ⟨numbered _ _ between.2 targetMember, fun equal => equal ▸ Value.same_refl _⟩
  unfold Constraint.FlowsTo Constraint.Conveys Constraint.isFlow
  cases relation : constraint.relation with
  | unspecified | unequality => simp [Relation.isFlow]
  | subtype => simp [Relation.isFlow, lesser, relation, right, and_comm]
  | equality =>
      by_cases isLeft : constraint.left = target
      · have onward : target = source → constraint.right = target → constraint.right = source :=
          fun same toTarget => toTarget.trans same
        simpa [Relation.isFlow, lesser, relation, left, right, isLeft] using onward
      · simp [Relation.isFlow, lesser, relation, left, right, isLeft, and_comm]

theorem mem_subSide_iff_conveys (sourceMember : source ∈ values) :
    constraint ∈ index.subSide source ∧ greater constraint source = target ↔
      constraint ∈ index.registered.toList ∧ constraint.Conveys source target := by
  rw [ReferenceIndex.mem_subSide, and_assoc]
  refine and_congr_right fun _ => ?_
  have left : constraint.left.same source = true ↔ constraint.left = source :=
    ⟨numbered _ _ between.1 sourceMember, fun equal => equal ▸ Value.same_refl _⟩
  have right : constraint.right.same source = true ↔ constraint.right = source :=
    ⟨numbered _ _ between.2 sourceMember, fun equal => equal ▸ Value.same_refl _⟩
  unfold Constraint.FlowsFrom Constraint.Conveys Constraint.isFlow
  cases relation : constraint.relation with
  | unspecified | unequality => simp [Relation.isFlow]
  | subtype => simp [Relation.isFlow, greater, relation, left]
  | equality =>
      by_cases isRight : constraint.right = source
      · have onward : constraint.left = source → source = target → constraint.left = target :=
          Eq.trans
        simpa [Relation.isFlow, greater, relation, right, isRight] using onward
      · simp [Relation.isFlow, greater, relation, left, right, isRight]

theorem conveys_lesser (targetMember : target ∈ values)
    (known : constraint ∈ index.superSide target) :
    constraint.Conveys (lesser constraint target) target :=
  ((mem_superSide_iff_conveys numbered between targetMember).mp ⟨known, rfl⟩).2

theorem conveys_greater (sourceMember : source ∈ values)
    (known : constraint ∈ index.subSide source) :
    constraint.Conveys source (greater constraint source) :=
  ((mem_subSide_iff_conveys numbered between sourceMember).mp ⟨known, rfl⟩).2

end

theorem throughField?_mem_parts {value context : Value}
    (through : throughField? annotations value = some context) : context ∈ value.parts := by
  unfold throughField? at through
  split at through
  · split at through
    · cases through
      exact Value.context_mem_parts (.adapted _ _ _ _ context)
    · cases through
  · cases through

theorem throughField?_of_view {before after : Annotations} {value : Value}
    (same : before.view value.declaration = after.view value.declaration) :
    throughField? after value = throughField? before value := by
  cases value with
  | leaf content => rfl
  | adapted adaptation owner id declaration context =>
      have declared : before.view declaration = after.view declaration := same
      cases adaptation with
      | method => rfl
      | field => simp only [throughField?, declared]

def ClosedUnderParts (values : List Value) : Prop :=
  ∀ part whole, part ∈ whole.parts → whole ∈ values → part ∈ values

theorem Joined.sides {values : List Value} {source target : Value}
    (joined : Joined annotations index constraint source target)
    (closed : ClosedUnderParts values)
    (registered : ∀ known, known ∈ index.registered.toList → known.Between values)
    (between : constraint.Between values) : source ∈ values ∧ target ∈ values := by
  rcases between with ⟨left, right⟩
  have ofSuper : ∀ {lower value}, lower ∈ index.superSide value → lesser lower value ∈ values := by
    intro lower value known
    have both := registered lower (List.mem_filter.mp known).1
    exact lesser_mem value both.1 both.2
  have ofSub : ∀ {upper value}, upper ∈ index.subSide value → greater upper value ∈ values := by
    intro upper value known
    have both := registered upper (List.mem_filter.mp known).1
    exact greater_mem value both.1 both.2
  cases joined with
  | read through => exact ⟨closed _ _ (throughField?_mem_parts through) left, right⟩
  | written through => exact ⟨left, closed _ _ (throughField?_mem_parts through) right⟩
  | below known => exact ⟨ofSuper known, right⟩
  | above known => exact ⟨left, ofSub known⟩
  | bridged _ _ _ _ _ lowerKnown upperKnown => exact ⟨ofSuper lowerKnown, ofSub upperKnown⟩

def sideParts (constraints : List Constraint) : List Value :=
  constraints.flatMap fun constraint => constraint.left.parts ++ constraint.right.parts

theorem closed_sideParts (constraints : List Constraint) :
    ClosedUnderParts (sideParts constraints) := by
  intro part whole below member
  rcases List.mem_flatMap.mp member with ⟨constraint, present, above⟩
  refine List.mem_flatMap.mpr ⟨constraint, present, ?_⟩
  rcases List.mem_append.mp above with above | above
  · exact List.mem_append_left _ (Value.mem_parts_trans below above)
  · exact List.mem_append_right _ (Value.mem_parts_trans below above)

theorem between_sideParts {constraints : List Constraint} (present : constraint ∈ constraints) :
    constraint.Between (sideParts constraints) :=
  ⟨List.mem_flatMap.mpr ⟨constraint, present, List.mem_append_left _ (Value.mem_parts_self _)⟩,
    List.mem_flatMap.mpr ⟨constraint, present, List.mem_append_right _ (Value.mem_parts_self _)⟩⟩

/-! ## The search -/

/-- A property of constraints between the given values that the rules hand on
when they are used on a flow. -/
structure HandedOn (graph : ValueGraph) (annotations : Annotations) (values : List Value)
    (property : Constraint → Prop) : Prop where
  sides : ∀ constraint, property constraint → constraint.Between values
  rules : ∀ index constraint, (∀ known, known ∈ index.registered.toList → property known) →
    index.adaptations ⊆ values → constraint.relation = .subtype → property constraint →
      ∀ proposal, proposal ∈ candidates graph annotations index constraint → property proposal

private structure Search.Valid (existing : ConstraintSet) (origin : ReferenceIndex)
    (property : Constraint → Prop) (search : Search) : Prop where
  index : search.index = origin.registerAll search.found.toList
  distinct : search.found.keys.Nodup
  new : ∀ member, member ∈ search.found.toList → ¬ member.key ∈ existing.keys
  flows : ∀ member, member ∈ search.found.toList → member.relation = .subtype
  found : ∀ member, member ∈ search.found.toList → property member
  pending : ∀ member, member ∈ search.pending → member.relation = .subtype ∧ property member

section

variable {origin : ReferenceIndex} {property : Constraint → Prop} {search next : Search}
  {values : List Value}

theorem accept_cases (graph : ValueGraph) (existing : ConstraintSet) (search : Search)
    (proposal : Constraint) :
    search.accept graph existing proposal = search ∧
        (graph.canConnect proposal.left proposal.right = true →
          proposal.key ∈ existing.keys ∨ proposal.key ∈ search.found.keys) ∨
      (¬ proposal.key ∈ existing.keys ∧ ¬ proposal.key ∈ search.found.keys ∧
        graph.canConnect proposal.left proposal.right = true ∧
        search.accept graph existing proposal =
          { pending := search.pending ++ [proposal]
            found := search.found.add proposal
            index := search.index.register proposal }) := by
  unfold Search.accept
  split
  · next refused =>
      refine .inl ⟨rfl, fun connected => ?_⟩
      simpa [connected, ConstraintSet.contains_iff] using refused
  · next accepted =>
      simp only [Bool.or_eq_true, not_or, ConstraintSet.contains_iff, Bool.not_eq_true',
        Bool.not_eq_false] at accepted
      exact .inr ⟨accepted.1.1, accepted.1.2, accepted.2, rfl⟩

private theorem Search.Valid.accept (valid : search.Valid existing origin property)
    (graph : ValueGraph) (flow : proposal.relation = .subtype) (holds : property proposal) :
    (search.accept graph existing proposal).Valid existing origin property := by
  rcases accept_cases graph existing search proposal with
    ⟨same, -⟩ | ⟨unknown, new, -, accepted⟩
  · rw [same]
    exact valid
  · rw [accepted]
    have appended := ConstraintSet.toList_add_of_new new
    have cases_of_mem : ∀ {member}, member ∈ (search.found.add proposal).toList →
        member ∈ search.found.toList ∨ member = proposal := ConstraintSet.mem_or_eq_of_mem_add
    constructor
    · simp only [appended, ReferenceIndex.registerAll, List.foldl_append, List.foldl_cons,
        List.foldl_nil]
      rw [valid.index]
      rfl
    · exact ConstraintSet.nodup_keys_add valid.distinct proposal
    · intro member present
      rcases cases_of_mem present with known | rfl
      · exact valid.new member known
      · exact unknown
    · intro member present
      rcases cases_of_mem present with known | rfl
      · exact valid.flows member known
      · exact flow
    · intro member present
      rcases cases_of_mem present with known | rfl
      · exact valid.found member known
      · exact holds
    · intro member present
      rcases List.mem_append.mp present with earlier | equal
      · exact valid.pending member earlier
      · exact List.mem_singleton.mp equal ▸ ⟨flow, holds⟩

private theorem Search.Valid.foldl_accept {proposals : List Constraint}
    (valid : search.Valid existing origin property)
    (offered : ∀ proposal, proposal ∈ proposals →
      proposal.relation = .subtype ∧ property proposal) :
    (proposals.foldl (Search.accept graph existing) search).Valid existing origin property := by
  induction proposals generalizing search with
  | nil => exact valid
  | cons proposal rest induction =>
      have first := offered proposal List.mem_cons_self
      exact induction (valid.accept graph first.1 first.2) fun later member =>
        offered later (List.mem_cons_of_mem _ member)

private theorem Search.Valid.registered (valid : search.Valid existing origin property)
    (known : ∀ member, member ∈ origin.registered.toList → property member) :
    ∀ member, member ∈ search.index.registered.toList → property member := by
  intro member present
  rw [valid.index, ReferenceIndex.registered_registerAll] at present
  rcases ConstraintSet.mem_or_mem_of_mem_addAll present with earlier | found
  · exact known member earlier
  · exact valid.found member found

private theorem Search.Valid.among (handedOn : HandedOn graph annotations values property)
    (valid : search.Valid existing origin property)
    (known : ∀ member, member ∈ origin.registered.toList → property member)
    (noted : origin.adaptations ⊆ values) : search.index.Among values := by
  have start : origin.Among values :=
    ⟨fun member present => handedOn.sides member (known member present), noted⟩
  rw [valid.index]
  exact start.registerAll fun member present => handedOn.sides member (valid.found member present)

private theorem Search.Valid.offered (handedOn : HandedOn graph annotations values property)
    (valid : search.Valid existing origin property)
    (known : ∀ member, member ∈ origin.registered.toList → property member)
    (noted : origin.adaptations ⊆ values) {current : Constraint}
    (flow : current.relation = .subtype) (holds : property current) :
    ∀ proposal, proposal ∈ candidates graph annotations search.index current →
      proposal.relation = .subtype ∧ property proposal := by
  intro proposal member
  have among := valid.among handedOn known noted
  exact ⟨(joined_of_mem_candidates member).1,
    handedOn.rules _ _ (valid.registered known) among.adaptations flow holds proposal member⟩

private theorem Search.Valid.step (handedOn : HandedOn graph annotations values property)
    (known : ∀ member, member ∈ origin.registered.toList → property member)
    (noted : origin.adaptations ⊆ values) (valid : search.Valid existing origin property)
    (stepped : search.step graph annotations existing = some next) :
    next.Valid existing origin property := by
  unfold Search.step at stepped
  split at stepped
  · cases stepped
  · next current rest pending =>
      cases stepped
      have holds := valid.pending current (pending ▸ List.mem_cons_self)
      have popped : Search.Valid existing origin property { search with pending := rest } :=
        ⟨valid.index, valid.distinct, valid.new, valid.flows, valid.found, fun member later =>
          valid.pending member (pending ▸ List.mem_cons_of_mem _ later)⟩
      exact popped.foldl_accept (valid.offered handedOn known noted holds.1 holds.2)

private theorem Search.valid_start (existing : ConstraintSet) (origin : ReferenceIndex)
    (flow : constraint.relation = .subtype) (holds : property constraint) :
    Search.Valid existing origin property ⟨[constraint], {}, origin⟩ where
  index := rfl
  distinct := List.nodup_nil
  new := by intro member present; cases present
  flows := by intro member present; cases present
  found := by intro member present; cases present
  pending := by
    intro member present
    exact List.mem_singleton.mp present ▸ ⟨flow, holds⟩

end

/-! ## The results of a derivation -/

/-- A derivation from an index finds new flows, each once, registers them, and
hands a property on to them. -/
structure Found (existing : ConstraintSet) (index : ReferenceIndex)
    (property : Constraint → Prop) (result : ConstraintSet × ReferenceIndex) : Prop where
  index : result.2 = index.registerAll result.1.toList
  distinct : result.1.keys.Nodup
  new : ∀ member, member ∈ result.1.toList → ¬ member.key ∈ existing.keys
  flows : ∀ member, member ∈ result.1.toList → member.relation = .subtype
  holds : ∀ member, member ∈ result.1.toList → property member

theorem derive_found {values : List Value} {property : Constraint → Prop}
    (handedOn : HandedOn graph annotations values property)
    (known : ∀ member, member ∈ index.registered.toList → property member)
    (noted : index.adaptations ⊆ values) (holds : property constraint) :
    Found existing index property (derive graph annotations index constraint existing) := by
  unfold derive
  split
  · next flow =>
    have valid := iterate_preserves
      (fun _ _ stepped valid => Search.Valid.step handedOn known noted valid stepped)
      (index.extent [constraint] * index.extent [constraint] + 2)
      (Search.valid_start existing index flow holds)
    exact ⟨valid.index, valid.distinct, valid.new, valid.flows, valid.found⟩
  · refine ⟨rfl, List.nodup_nil, ?_, ?_, ?_⟩
    all_goals
      intro member present
      cases present

/-! ## The end of a derivation -/

def flowKeys (values : List Value) : List ConstraintKey :=
  values.flatMap fun left => values.map fun right => ⟨.subtype, left.id, right.id⟩

theorem length_flowKeys (values : List Value) :
    (flowKeys values).length = values.length * values.length := by
  simp [flowKeys]

theorem key_mem_flowKeys {values : List Value} (flow : constraint.relation = .subtype)
    (between : constraint.Between values) : constraint.key ∈ flowKeys values := by
  refine List.mem_flatMap.mpr ⟨constraint.left, between.1, List.mem_map.mpr
    ⟨constraint.right, between.2, ?_⟩⟩
  rw [Constraint.key, flow]

theorem size_le_of_flows {values : List Value} {flows : ConstraintSet}
    (distinct : flows.keys.Nodup)
    (related : ∀ member, member ∈ flows.toList → member.relation = .subtype)
    (between : ∀ member, member ∈ flows.toList → member.Between values) :
    flows.size ≤ values.length * values.length := by
  have included : flows.keys ⊆ flowKeys values := by
    intro key present
    rcases List.mem_map.mp present with ⟨member, member_mem, rfl⟩
    exact key_mem_flowKeys (related member member_mem) (between member member_mem)
  have bound := distinct.length_le_of_subset included
  rwa [length_flowKeys, ConstraintSet.keys, List.length_map] at bound

section

variable {origin : ReferenceIndex} {search next : Search} {values noted : List Value}

theorem handedOn_between (graph : ValueGraph) (annotations : Annotations)
    (closed : ClosedUnderParts values) (included : values ⊆ noted) :
    HandedOn graph annotations noted (Constraint.Between values) where
  sides := fun _ both => ⟨included both.1, included both.2⟩
  rules := fun _ _ registered _ _ both _ member =>
    (joined_of_mem_candidates member).2.sides closed registered both

theorem derive_between (graph : ValueGraph) (annotations : Annotations)
    (existing : ConstraintSet) (closed : ClosedUnderParts values) (among : index.Among values)
    (between : constraint.Between values) :
    Found existing index (Constraint.Between values)
      (derive graph annotations index constraint existing) :=
  derive_found (handedOn_between graph annotations closed (List.Subset.refl _)) among.sides
    among.adaptations between

private def Search.remaining (values : List Value) (search : Search) : Nat :=
  search.pending.length + (values.length * values.length - search.found.size)

private theorem Search.Valid.remaining_accept
    (valid : search.Valid existing origin (Constraint.Between values))
    (flow : proposal.relation = .subtype) (both : proposal.Between values) :
    (search.accept graph existing proposal).remaining values = search.remaining values := by
  have accepted := valid.accept graph flow both
  have bound := size_le_of_flows accepted.distinct accepted.flows accepted.found
  rcases accept_cases graph existing search proposal with ⟨same, -⟩ | ⟨-, new, -, equal⟩
  · rw [same]
  · rw [equal] at bound ⊢
    simp only [Search.remaining, ConstraintSet.size, ConstraintSet.toList_add_of_new new,
      List.length_append, List.length_singleton] at bound ⊢
    omega

private theorem Search.Valid.remaining_foldl {proposals : List Constraint}
    (valid : search.Valid existing origin (Constraint.Between values))
    (offered : ∀ proposal, proposal ∈ proposals →
      proposal.relation = .subtype ∧ proposal.Between values) :
    (proposals.foldl (Search.accept graph existing) search).remaining values =
      search.remaining values := by
  induction proposals generalizing search with
  | nil => rfl
  | cons proposal rest induction =>
      have first := offered proposal List.mem_cons_self
      rw [List.foldl_cons, induction (valid.accept graph first.1 first.2) fun later member =>
        offered later (List.mem_cons_of_mem _ member)]
      exact valid.remaining_accept first.1 first.2

private theorem Search.Valid.remaining_step
    (closed : ClosedUnderParts values) (included : values ⊆ noted)
    (known : ∀ member, member ∈ origin.registered.toList → member.Between values)
    (adaptations : origin.adaptations ⊆ noted)
    (valid : search.Valid existing origin (Constraint.Between values))
    (stepped : search.step graph annotations existing = some next) :
    next.remaining values < search.remaining values := by
  unfold Search.step at stepped
  split at stepped
  · cases stepped
  · next current rest pending =>
      cases stepped
      have holds := valid.pending current (pending ▸ List.mem_cons_self)
      have popped : Search.Valid existing origin (Constraint.Between values)
          { search with pending := rest } :=
        ⟨valid.index, valid.distinct, valid.new, valid.flows, valid.found, fun member later =>
          valid.pending member (pending ▸ List.mem_cons_of_mem _ later)⟩
      have handedOn := handedOn_between graph annotations closed included
      rw [popped.remaining_foldl (valid.offered handedOn known adaptations holds.1 holds.2)]
      simp only [Search.remaining, pending, List.length_cons]
      omega

end

/-- A derivation from a flow ends with nothing left to use, whatever the index
holds. -/
theorem search_finishes (graph : ValueGraph) (annotations : Annotations) (index : ReferenceIndex)
    (existing : ConstraintSet) (flow : constraint.relation = .subtype) :
    (iterate (Search.step graph annotations existing)
      (index.extent [constraint] * index.extent [constraint] + 2)
      ⟨[constraint], {}, index⟩).pending = [] := by
  let values := sideParts (index.registered.toList ++ [constraint])
  have closed : ClosedUnderParts values := closed_sideParts _
  have known : ∀ member, member ∈ index.registered.toList → member.Between values :=
    fun member present => between_sideParts (List.mem_append_left [constraint] present)
  have included : values ⊆ values ++ index.adaptations := List.subset_append_left _ _
  have noted : index.adaptations ⊆ values ++ index.adaptations := List.subset_append_right _ _
  have handedOn := handedOn_between graph annotations closed included
  have start : Search.Valid existing index (Constraint.Between values)
      ⟨[constraint], {}, index⟩ :=
    Search.valid_start existing index flow
      (between_sideParts (List.mem_append_right _ List.mem_cons_self))
  have enough : Search.remaining values ⟨[constraint], {}, index⟩ ≤
      index.extent [constraint] * index.extent [constraint] + 2 := by
    simp only [Search.remaining, List.length_singleton, ConstraintSet.size, List.length_nil,
      ReferenceIndex.extent, values, sideParts]
    omega
  have finished := iterate_finishes (Search.remaining values)
    (fun _ _ stepped valid => Search.Valid.step handedOn known noted valid stepped)
    (fun _ _ stepped valid => valid.remaining_step closed included known noted stepped)
    start enough
  unfold Search.step at finished
  split at finished
  · assumption
  · cases finished

end Derivation

end InfoFlow
