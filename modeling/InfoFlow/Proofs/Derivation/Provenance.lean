import Mathlib.Data.List.Chain
import InfoFlow.Proofs.Derivation

/-! Where inferred flows come from.

Each rule cites the flow that it is used on and flows that the index has
registered. A flow is registered and used in its turn only after it was found.
So in a set that grows by what is derived from its members all causes of a
member stand before it, and whoever goes from a member to a cause of it, and on
to a cause of that, moves towards the front. -/

namespace InfoFlow

namespace Constraint

private theorem mem_causes_addCause {constraint : Constraint} {cause other : ConstraintKey} :
    other ∈ (constraint.addCause cause).causes ↔ other ∈ constraint.causes ∨ other = cause := by
  unfold addCause
  split
  · next known =>
      exact ⟨.inl, fun either => either.elim (fun present => present) fun equal => equal ▸ known⟩
  · simp

private theorem mem_causes_foldl {causes : List ConstraintKey} {constraint : Constraint}
    {cause : ConstraintKey} :
    cause ∈ (causes.foldl addCause constraint).causes ↔
      cause ∈ constraint.causes ∨ cause ∈ causes := by
  induction causes generalizing constraint with
  | nil => simp
  | cons first rest induction =>
      rw [List.foldl_cons, induction, mem_causes_addCause, List.mem_cons, or_assoc]

@[simp] theorem mem_causes_inferred {left right : Value} {causes : List Constraint}
    {cause : ConstraintKey} :
    cause ∈ (inferred left right causes).causes ↔ cause ∈ causes.map key := by
  rw [inferred, mem_causes_foldl]
  exact or_iff_right List.not_mem_nil

end Constraint

/-! ## Grounded lists -/

/-- Lists in which every cause of a member is the key of one before it. -/
inductive Grounded : List Constraint → Prop
  | nil : Grounded []
  | append {earlier : List Constraint} {constraint : Constraint} (grounded : Grounded earlier)
      (cited : constraint.causes ⊆ earlier.map Constraint.key) :
      Grounded (earlier ++ [constraint])

/-- A way through some constraints from each to one of its causes. -/
structure CauseChain (constraints chain : List Constraint) : Prop where
  members : chain ⊆ constraints
  causes : chain.IsChain fun constraint premise => premise.key ∈ constraint.causes

namespace Grounded

variable {constraints chain : List Constraint} {constraint premise : Constraint}
  {cause : ConstraintKey} {known : ConstraintSet}

theorem add (grounded : Grounded known.toList) (cited : constraint.causes ⊆ known.keys) :
    Grounded (known.add constraint).toList := by
  by_cases present : constraint.key ∈ known.keys
  · rw [ConstraintSet.add_of_contains present]
    exact grounded
  · rw [ConstraintSet.toList_add_of_new present]
    exact grounded.append cited

theorem cause_before (grounded : Grounded constraints) {position : Nat}
    (found : constraints[position]? = some constraint) (caused : cause ∈ constraint.causes) :
    ∃ earlier premise, earlier < position ∧ constraints[earlier]? = some premise ∧
      premise.key = cause := by
  induction grounded generalizing position with
  | nil => cases found
  | @append before last grounded cited induction =>
      by_cases inside : position < before.length
      · rw [List.getElem?_append_left inside] at found
        rcases induction found with ⟨earlier, premise, sooner, present, sameKey⟩
        refine ⟨earlier, premise, sooner, ?_, sameKey⟩
        rw [List.getElem?_append_left (sooner.trans inside)]
        exact present
      · rw [List.getElem?_append_right (not_lt.mp inside)] at found
        have equal := List.mem_singleton.mp (List.mem_of_getElem? found)
        rcases List.mem_map.mp (cited (equal ▸ caused)) with ⟨premise, member, sameKey⟩
        rcases List.mem_iff_getElem?.mp member with ⟨earlier, present⟩
        have bound : earlier < before.length := (List.getElem?_eq_some_iff.mp present).1
        refine ⟨earlier, premise, lt_of_lt_of_le bound (not_lt.mp inside), ?_, sameKey⟩
        rw [List.getElem?_append_left bound]
        exact present

theorem exists_premise (grounded : Grounded constraints) (member : constraint ∈ constraints)
    (caused : cause ∈ constraint.causes) :
    ∃ premise, premise ∈ constraints ∧ premise.key = cause := by
  rcases List.mem_iff_getElem?.mp member with ⟨position, found⟩
  rcases grounded.cause_before found caused with ⟨earlier, premise, -, present, sameKey⟩
  exact ⟨premise, List.mem_of_getElem? present, sameKey⟩

private theorem idxOf_key (distinct : (constraints.map Constraint.key).Nodup) {position : Nat}
    (found : constraints[position]? = some constraint) :
    (constraints.map Constraint.key).idxOf constraint.key = position := by
  rcases List.getElem?_eq_some_iff.mp found with ⟨bound, rfl⟩
  have inside : position < (constraints.map Constraint.key).length := by rwa [List.length_map]
  have index := distinct.idxOf_getElem position inside
  rwa [List.getElem_map] at index

theorem idxOf_lt (grounded : Grounded constraints)
    (distinct : (constraints.map Constraint.key).Nodup) (member : constraint ∈ constraints)
    (caused : premise.key ∈ constraint.causes) :
    (constraints.map Constraint.key).idxOf premise.key <
      (constraints.map Constraint.key).idxOf constraint.key := by
  rcases List.mem_iff_getElem?.mp member with ⟨position, found⟩
  rcases grounded.cause_before found caused with ⟨earlier, other, sooner, present, sameKey⟩
  rw [idxOf_key distinct found, ← sameKey, idxOf_key distinct present]
  exact sooner

theorem chain_ends (grounded : Grounded constraints)
    (distinct : (constraints.map Constraint.key).Nodup) (descends : CauseChain constraints chain) :
    chain.Nodup ∧ chain.length ≤ constraints.length := by
  let position : Constraint → Nat := fun member =>
    (constraints.map Constraint.key).idxOf member.key
  have falling : chain.IsChain fun constraint premise => position premise < position constraint :=
    descends.causes.imp_of_mem_imp fun constraint premise member _ caused =>
      grounded.idxOf_lt distinct (descends.members member) caused
  have ordered : (chain.map position).Pairwise (· > ·) :=
    List.isChain_iff_pairwise.mp ((List.isChain_map position).mpr falling)
  have apart : chain.Nodup :=
    List.Nodup.of_map position (ordered.imp fun later same => absurd same (ne_of_gt later))
  exact ⟨apart, apart.length_le_of_subset descends.members⟩

theorem chain_continues (grounded : Grounded constraints) (descends : CauseChain constraints chain)
    (last : constraint ∈ chain.getLast?) (caused : cause ∈ constraint.causes) :
    ∃ premise, premise.key = cause ∧ CauseChain constraints (chain ++ [premise]) := by
  have member := descends.members (List.mem_of_getLast? last)
  rcases grounded.exists_premise member caused with ⟨premise, present, sameKey⟩
  refine ⟨premise, sameKey, List.append_subset.mpr ⟨descends.members, ?_⟩, ?_⟩
  · exact List.cons_subset.mpr ⟨present, List.nil_subset _⟩
  · refine descends.causes.append (List.isChain_singleton premise) ?_
    intro other isLast first isFirst
    rw [List.head?_cons, Option.mem_some_iff] at isFirst
    rw [← isFirst, sameKey, Option.mem_unique isLast last]
    exact caused

theorem chain_stops_iff (grounded : Grounded constraints) (descends : CauseChain constraints chain)
    (last : constraint ∈ chain.getLast?) :
    constraint.causes = [] ↔ ∀ premise, ¬ CauseChain constraints (chain ++ [premise]) := by
  constructor
  · intro noCauses premise continued
    have cited := (List.isChain_append.mp continued.causes).2.2 constraint last premise rfl
    rw [noCauses] at cited
    cases cited
  · intro stopped
    rw [List.eq_nil_iff_forall_not_mem]
    intro cause caused
    rcases grounded.chain_continues descends last caused with ⟨premise, -, continued⟩
    exact stopped premise continued

end Grounded

namespace Derivation

variable {graph : ValueGraph} {annotations : Annotations} {index : ReferenceIndex}
  {existing : ConstraintSet} {constraint proposal : Constraint}

/-! ## The rules -/

def Cites (index : ReferenceIndex) (constraint proposal : Constraint) : Prop :=
  ∃ left right causes, proposal = .inferred left right causes ∧ constraint ∈ causes ∧
    ∀ cause, cause ∈ causes → cause = constraint ∨ cause ∈ index.registered.toList

private theorem cites_of_joinedBelow {skip : Value → Bool}
    (member : proposal ∈ joinedBelow index constraint skip) : Cites index constraint proposal := by
  rcases mem_joinedBelow.mp member with ⟨lower, known, -, -, -, inferred⟩
  have registered := (List.mem_filter.mp known).1
  refine ⟨_, _, _, inferred, by simp, fun cause cited => ?_⟩
  rcases List.mem_pair.mp cited with rfl | rfl
  · exact .inr registered
  · exact .inl rfl

private theorem cites_of_joinedAbove (member : proposal ∈ joinedAbove index constraint) :
    Cites index constraint proposal := by
  rcases mem_joinedAbove.mp member with ⟨upper, known, -, -, inferred⟩
  have registered := (List.mem_filter.mp known).1
  refine ⟨_, _, _, inferred, by simp, fun cause cited => ?_⟩
  rcases List.mem_pair.mp cited with rfl | rfl
  · exact .inl rfl
  · exact .inr registered

private theorem cites_of_bridges (member : proposal ∈ bridges index constraint) :
    Cites index constraint proposal := by
  rcases mem_bridges.mp member with
    ⟨entry, -, exit, -, lower, lowerKnown, upper, upperKnown, inferred⟩
  have lowerRegistered := (List.mem_filter.mp lowerKnown).1
  have upperRegistered := (List.mem_filter.mp upperKnown).1
  refine ⟨_, _, _, inferred.symm, by simp, fun cause cited => ?_⟩
  rcases List.mem_cons.mp cited with rfl | cited
  · exact .inr lowerRegistered
  · rcases List.mem_pair.mp cited with rfl | rfl
    · exact .inl rfl
    · exact .inr upperRegistered

private theorem cites_of_through {context : Option Value} (sides : Value → Value × Value)
    (member : proposal ∈ (context.map fun value =>
      Constraint.inferred (sides value).1 (sides value).2 [constraint]).toList) :
    Cites index constraint proposal := by
  rcases Option.map_eq_some_iff.mp (Option.mem_toList.mp member) with ⟨value, -, inferred⟩
  exact ⟨_, _, _, inferred.symm, List.mem_cons_self, fun cause cited =>
    .inl (List.mem_singleton.mp cited)⟩

theorem cites_of_mem_candidates
    (member : proposal ∈ candidates graph annotations index constraint) :
    Cites index constraint proposal := by
  simp only [candidates] at member
  split at member
  · rcases List.mem_append.mp member with through | below
    · exact cites_of_through (fun context => (context, constraint.right)) through
    · exact cites_of_joinedBelow below
  · split at member
    · rcases List.mem_append.mp member with through | above
      · exact cites_of_through (fun context => (constraint.left, context)) through
      · exact cites_of_joinedAbove above
    · split at member
      · rcases List.mem_append.mp member with joined | bridge
        · rcases List.mem_append.mp joined with below | above
          · exact cites_of_joinedBelow below
          · split at above
            · exact cites_of_joinedAbove above
            · cases above
        · split at bridge
          · exact cites_of_bridges bridge
          · cases bridge
      · cases member

/-! ## The search -/

private def Search.known (existing : ConstraintSet) (search : Search) : ConstraintSet :=
  existing.addAll search.found.toList

private structure Search.Traced (existing : ConstraintSet) (search : Search) : Prop where
  grounded : Grounded (search.known existing).toList
  pending : ∀ member, member ∈ search.pending → member.key ∈ (search.known existing).keys
  registered : search.index.registered.keys ⊆ (search.known existing).keys
  inferred : ∀ member, member ∈ search.found.toList → member.causes ≠ []

section

variable {search next : Search} {proposals : List Constraint}

private def Search.Supports (existing : ConstraintSet) (search : Search) (proposal : Constraint) :
    Prop :=
  proposal.causes ≠ [] ∧ proposal.causes ⊆ (search.known existing).keys

private theorem Search.Traced.supports (traced : search.Traced existing)
    (present : constraint.key ∈ (search.known existing).keys)
    (cites : Cites search.index constraint proposal) : search.Supports existing proposal := by
  rcases cites with ⟨left, right, causes, rfl, cited, every⟩
  constructor
  · exact List.ne_nil_of_mem (Constraint.mem_causes_inferred.mpr (List.mem_map_of_mem cited))
  · intro key isCause
    rcases List.mem_map.mp (Constraint.mem_causes_inferred.mp isCause) with ⟨cause, member, rfl⟩
    rcases every cause member with rfl | registered
    · exact present
    · exact traced.registered (List.mem_map_of_mem registered)

private theorem Search.Traced.accept (traced : search.Traced existing) (graph : ValueGraph)
    (supported : search.Supports existing proposal) :
    (search.accept graph existing proposal).Traced existing ∧
      (search.known existing).keys ⊆
        ((search.accept graph existing proposal).known existing).keys := by
  rcases accept_cases graph existing search proposal with ⟨same, -⟩ | ⟨-, new, -, accepted⟩
  · rw [same]
    exact ⟨traced, List.Subset.refl _⟩
  · have known : Search.known existing ⟨search.pending ++ [proposal], search.found.add proposal,
        search.index.register proposal⟩ = (search.known existing).add proposal := by
      rw [Search.known, ConstraintSet.toList_add_of_new new, ConstraintSet.addAll_append]
      rfl
    have more : (search.known existing).keys ⊆ ((search.known existing).add proposal).keys :=
      fun _ present => ConstraintSet.mem_keys_add.mpr (.inl present)
    have itself : proposal.key ∈ ((search.known existing).add proposal).keys :=
      ConstraintSet.mem_keys_add.mpr (.inr rfl)
    rw [accepted, known]
    refine ⟨⟨?_, ?_, ?_, ?_⟩, more⟩
    · rw [known]
      exact traced.grounded.add supported.2
    · intro member present
      rw [known]
      rcases List.mem_append.mp present with earlier | last
      · exact more (traced.pending member earlier)
      · exact List.mem_singleton.mp last ▸ itself
    · intro key present
      rw [known]
      rcases ConstraintSet.mem_keys_add.mp present with earlier | last
      · exact more (traced.registered earlier)
      · exact last ▸ itself
    · intro member present
      rcases ConstraintSet.mem_or_eq_of_mem_add present with earlier | last
      · exact traced.inferred member earlier
      · exact last ▸ supported.1

private theorem Search.Traced.foldl (traced : search.Traced existing)
    (supported : ∀ proposal, proposal ∈ proposals → search.Supports existing proposal) :
    (proposals.foldl (Search.accept graph existing) search).Traced existing := by
  induction proposals generalizing search with
  | nil => exact traced
  | cons first rest induction =>
      have once := traced.accept graph (supported first List.mem_cons_self)
      refine induction once.1 fun later member => ?_
      have before := supported later (List.mem_cons_of_mem _ member)
      exact ⟨before.1, List.Subset.trans before.2 once.2⟩

private theorem Search.Traced.step (traced : search.Traced existing)
    (stepped : search.step graph annotations existing = some next) : next.Traced existing := by
  unfold Search.step at stepped
  split at stepped
  · cases stepped
  · next current rest pending =>
      cases stepped
      have present := traced.pending current (pending ▸ List.mem_cons_self)
      have popped : Search.Traced existing { search with pending := rest } :=
        ⟨traced.grounded, fun member later =>
          traced.pending member (pending ▸ List.mem_cons_of_mem _ later), traced.registered,
          traced.inferred⟩
      exact popped.foldl fun proposal candidate =>
        popped.supports present (cites_of_mem_candidates candidate)

end

theorem derive_grounded (grounded : Grounded existing.toList)
    (registered : index.registered.keys ⊆ existing.keys) (member : constraint.key ∈ existing.keys) :
    Grounded (existing.addAll
        (derive graph annotations index constraint existing).1.toList).toList ∧
      ∀ found, found ∈ (derive graph annotations index constraint existing).1.toList →
        found.causes ≠ [] := by
  unfold derive
  split
  · have start : Search.Traced existing ⟨[constraint], {}, index⟩ := by
      refine ⟨grounded, fun other pending => ?_, registered, fun other present => ?_⟩
      · exact List.mem_singleton.mp pending ▸ member
      · cases present
    have kept : ∀ search next : Search, search.step graph annotations existing = some next →
        search.Traced existing → next.Traced existing :=
      fun _ _ stepped traced => traced.step stepped
    have traced := iterate_preserves kept
      (index.extent [constraint] * index.extent [constraint] + 2) start
    exact ⟨traced.grounded, traced.inferred⟩
  · exact ⟨grounded, fun found present => by cases present⟩

end Derivation

end InfoFlow
