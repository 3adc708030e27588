import InfoFlow.Proofs.Derivation

/-! What a derivation settles.

A derivation offers all that is proposed for its flow before anything else, so
afterwards each proposal is known, unless its sides cannot be connected. It
finds nothing exactly if that was so before. -/

namespace InfoFlow.Derivation

variable {graph : ValueGraph} {annotations : Annotations} {index : ReferenceIndex}
  {existing : ConstraintSet} {constraint : Constraint} {source target : Value}

/-- The flow between two values is known, unless these cannot be connected. -/
def Settled (graph : ValueGraph) (keys : List ConstraintKey) (source target : Value) : Prop :=
  graph.canConnect source target = true → ⟨.subtype, source.id, target.id⟩ ∈ keys

theorem Settled.mono {keys more : List ConstraintKey} (settled : Settled graph keys source target)
    (included : keys ⊆ more) : Settled graph more source target :=
  fun connected => included (settled connected)

section

variable {search next : Search} {proposals : List Constraint}

private theorem keys_subset_accept (proposal : Constraint) :
    search.found.keys ⊆ (search.accept graph existing proposal).found.keys := by
  intro key present
  rcases accept_cases graph existing search proposal with ⟨same, -⟩ | ⟨-, -, -, accepted⟩
  · rw [same]
    exact present
  · rw [accepted]
    exact ConstraintSet.mem_keys_add.mpr (.inl present)

private theorem keys_subset_foldl (graph : ValueGraph) (existing : ConstraintSet) (search : Search)
    (proposals : List Constraint) :
    search.found.keys ⊆ (proposals.foldl (Search.accept graph existing) search).found.keys := by
  induction proposals generalizing search with
  | nil => exact fun _ present => present
  | cons proposal rest induction =>
      exact List.Subset.trans (keys_subset_accept proposal) (induction _)

private theorem step_eq (stepped : search.step graph annotations existing = some next) :
    ∃ current rest, next = (candidates graph annotations search.index current).foldl
      (Search.accept graph existing) { search with pending := rest } := by
  unfold Search.step at stepped
  split at stepped
  · cases stepped
  · next current rest pending =>
      cases stepped
      exact ⟨current, rest, rfl⟩

private theorem keys_subset_step
    (stepped : search.step graph annotations existing = some next) :
    search.found.keys ⊆ next.found.keys := by
  rcases step_eq stepped with ⟨current, rest, rfl⟩
  exact keys_subset_foldl graph existing { search with pending := rest } _

private theorem known_foldl (proposals : List Constraint) :
    ∀ proposal, proposal ∈ proposals →
      graph.canConnect proposal.left proposal.right = true →
        proposal.key ∈ existing.keys ∨
          proposal.key ∈ (proposals.foldl (Search.accept graph existing) search).found.keys := by
  induction proposals generalizing search with
  | nil =>
      intro proposal member
      cases member
  | cons first rest induction =>
      intro proposal member connected
      rcases List.mem_cons.mp member with equal | later
      · rw [equal] at connected ⊢
        rcases accept_cases graph existing search first with
          ⟨same, known⟩ | ⟨-, -, -, accepted⟩
        · rw [List.foldl_cons, same]
          exact (known connected).imp_right fun present => keys_subset_foldl _ _ _ rest present
        · rw [List.foldl_cons, accepted]
          exact .inr (keys_subset_foldl _ _ _ rest (ConstraintSet.mem_keys_add.mpr (.inr rfl)))
      · exact induction proposal later connected

private theorem foldl_of_known
    (known : ∀ proposal, proposal ∈ proposals →
      graph.canConnect proposal.left proposal.right = true → proposal.key ∈ existing.keys) :
    proposals.foldl (Search.accept graph existing) search = search := by
  induction proposals with
  | nil => rfl
  | cons first rest induction =>
      have accepted : search.accept graph existing first = search := by
        rcases accept_cases graph existing search first with ⟨same, -⟩ | ⟨new, -, connected, -⟩
        · exact same
        · exact absurd (known first List.mem_cons_self connected) new
      rw [List.foldl_cons, accepted]
      exact induction fun proposal later => known proposal (List.mem_cons_of_mem _ later)

private def Search.Connected (graph : ValueGraph) (search : Search) : Prop :=
  ∀ member, member ∈ search.found.toList → graph.canConnect member.left member.right = true

private theorem Search.Connected.foldl (connected : search.Connected graph)
    (proposals : List Constraint) :
    (proposals.foldl (Search.accept graph existing) search).Connected graph := by
  induction proposals generalizing search with
  | nil => exact connected
  | cons first rest induction =>
      refine induction fun member present => ?_
      rcases accept_cases graph existing search first with ⟨same, -⟩ | ⟨-, -, new, accepted⟩
      · rw [same] at present
        exact connected member present
      · rw [accepted] at present
        rcases ConstraintSet.mem_or_eq_of_mem_add present with earlier | equal
        · exact connected member earlier
        · exact equal ▸ new

private theorem Search.Connected.step (connected : search.Connected graph)
    (stepped : search.step graph annotations existing = some next) : next.Connected graph := by
  rcases step_eq stepped with ⟨current, rest, rfl⟩
  have popped : Search.Connected graph { search with pending := rest } := connected
  exact popped.foldl _

end

theorem derive_connected :
    ∀ member, member ∈ (derive graph annotations index constraint existing).1.toList →
      graph.canConnect member.left member.right = true := by
  unfold derive
  split
  · have start : Search.Connected graph ⟨[constraint], {}, index⟩ := by
      intro member present
      cases present
    exact iterate_preserves (fun _ _ stepped connected => Search.Connected.step connected stepped)
      _ start
  · intro member present
    cases present

private def offered (graph : ValueGraph) (annotations : Annotations) (index : ReferenceIndex)
    (constraint : Constraint) (existing : ConstraintSet) : Search :=
  (candidates graph annotations index constraint).foldl (Search.accept graph existing)
    ⟨[], {}, index⟩

private theorem derive_eq (flow : constraint.relation = .subtype) :
    (derive graph annotations index constraint existing).1 =
      (iterate (Search.step graph annotations existing)
        (index.extent [constraint] * index.extent [constraint] + 1)
        (offered graph annotations index constraint existing)).found := by
  unfold derive
  rw [if_pos flow]
  rfl

theorem derive_settles (flow : constraint.relation = .subtype)
    (proposed : Proposed graph annotations index constraint source target) :
    Settled graph
      (existing.addAll (derive graph annotations index constraint existing).1.toList).keys
      source target := by
  intro connected
  rcases proposed.exists_candidate with ⟨proposal, candidate, rfl, rfl⟩
  have key : proposal.key = ⟨.subtype, proposal.left.id, proposal.right.id⟩ := by
    rw [Constraint.key, (proposed_of_mem_candidates candidate).1]
  rw [← key, ConstraintSet.mem_keys_addAll]
  have offer : proposal.key ∈ existing.keys ∨
      proposal.key ∈ (offered graph annotations index constraint existing).found.keys :=
    known_foldl _ proposal candidate connected
  refine offer.imp_right fun present => ?_
  rw [derive_eq flow]
  exact iterate_preserves
    (fun _ _ stepped earlier => List.Subset.trans earlier (keys_subset_step stepped)) _
    (List.Subset.refl (offered graph annotations index constraint existing).found.keys) present

theorem derive_eq_nil_iff :
    (derive graph annotations index constraint existing).1.toList = [] ↔
      (constraint.relation = .subtype → ∀ source target,
        Proposed graph annotations index constraint source target →
          Settled graph existing.keys source target) := by
  constructor
  · intro nothing flow source target proposed
    have settled : Settled graph
        (existing.addAll (derive graph annotations index constraint existing).1.toList).keys
        source target := derive_settles flow proposed
    rw [nothing] at settled
    exact settled
  · intro settled
    by_cases flow : constraint.relation = .subtype
    · have idle : offered graph annotations index constraint existing = ⟨[], {}, index⟩ := by
        refine foldl_of_known fun proposal candidate connected => ?_
        have known := settled flow _ _ (proposed_of_mem_candidates candidate).2 connected
        rwa [Constraint.key, (proposed_of_mem_candidates candidate).1]
      rw [derive_eq flow, idle, iterate_of_finished rfl]
    · rw [derive, if_neg flow]

end InfoFlow.Derivation
