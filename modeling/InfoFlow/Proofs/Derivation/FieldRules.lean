import InfoFlow.Proofs.Derivation.Settlement

/-! How far the field rules are carried out.

A field read asks for the flows from what the field belongs to and from what
flows into the field, a field write for those to what the field belongs to and
to what flows out of it. A flow from one field to another is both. But it is
used as a read only, and what is derived from it either keeps its target or does
not start from a field. So what it asks for as a write comes to be known only if
a bridge between calls happens to find it. -/

namespace InfoFlow

/-- A field whose declaration can only be polymorphic, or the field of an
array. -/
def Value.IsOpenField (annotations : Annotations) (value : Value) : Prop :=
  value.isFieldAdapted = true ∧
    (annotations.view value.declaration = .only .poly ∨ value.context.isArray = true)

/-- An index has registered the members of a set and nothing else, in whatever
order. -/
structure ReferenceIndex.Registers (index : ReferenceIndex) (constraints : ConstraintSet) :
    Prop where
  registered : ∀ constraint,
    constraint ∈ index.registered.toList ↔ constraint ∈ constraints.toList
  adaptations : index.adaptations ⊆ Derivation.sideParts constraints.toList

theorem ReferenceIndex.registers_ofList {constraints : ConstraintSet}
    (distinct : constraints.keys.Nodup) : (ofList constraints.toList).Registers constraints where
  registered := by
    intro constraint
    rw [registered_ofList distinct]
  adaptations :=
    (among_ofList fun _ present => Derivation.between_sideParts present).adaptations

theorem ReferenceIndex.Registers.among {index : ReferenceIndex} {constraints : ConstraintSet}
    (registers : index.Registers constraints) :
    index.Among (Derivation.sideParts constraints.toList) where
  sides := fun _ present =>
    Derivation.between_sideParts ((registers.registered _).mp present)
  adaptations := registers.adaptations

theorem Constraint.Conveys.mem_values {constraint : Constraint} {source target : Value}
    {values : List Value} (conveys : constraint.Conveys source target)
    (between : constraint.Between values) : source ∈ values ∧ target ∈ values := by
  rcases conveys with ⟨-, rfl, rfl⟩ | ⟨-, rfl, rfl⟩
  · exact between
  · exact ⟨between.2, between.1⟩

namespace Derivation

variable {graph : ValueGraph} {annotations : Annotations} {index : ReferenceIndex}
  {existing : ConstraintSet} {constraint : Constraint} {source target : Value}
  {values : List Value} {known : List Constraint}

theorem throughField?_eq_some_iff {value context : Value} :
    throughField? annotations value = some context ↔
      value.IsOpenField annotations ∧ value.context = context := by
  cases value with
  | leaf content => simp [throughField?, Value.IsOpenField, Value.isFieldAdapted]
  | adapted adaptation owner id declaration other =>
      cases adaptation with
      | method => simp [throughField?, Value.IsOpenField, Value.isFieldAdapted]
      | field =>
          simp [throughField?, Value.IsOpenField, Value.isFieldAdapted, Value.declaration,
            Value.context]

/-- The values whose flow to the right side is asked for if the left side of a
constraint is a field that is read. -/
inductive ReadFrom (annotations : Annotations) (known : List Constraint)
    (constraint : Constraint) : Value → Prop
  | context (seen : constraint.left.IsOpenField annotations) :
      ReadFrom annotations known constraint constraint.left.context
  | flow {lower : Constraint} {source : Value} (field : constraint.left.isFieldAdapted = true)
      (member : lower ∈ known) (conveys : lower.Conveys source constraint.left)
      (notMethod : source.isMethodAdapted = false) : ReadFrom annotations known constraint source

/-- The values to which a flow from the left side is asked for if the right side
of a constraint is a field that is written. -/
inductive WrittenTo (annotations : Annotations) (known : List Constraint)
    (constraint : Constraint) : Value → Prop
  | context (seen : constraint.right.IsOpenField annotations) :
      WrittenTo annotations known constraint constraint.right.context
  | flow {upper : Constraint} {target : Value} (field : constraint.right.isFieldAdapted = true)
      (member : upper ∈ known) (conveys : upper.Conveys constraint.right target)
      (notMethod : target.isMethodAdapted = false) : WrittenTo annotations known constraint target

def ReadsSettled (graph : ValueGraph) (annotations : Annotations) (known : List Constraint)
    (keys : List ConstraintKey) (constraint : Constraint) : Prop :=
  ∀ source, ReadFrom annotations known constraint source →
    source.same constraint.right = false → Settled graph keys source constraint.right

def WritesSettled (graph : ValueGraph) (annotations : Annotations) (known : List Constraint)
    (keys : List ConstraintKey) (constraint : Constraint) : Prop :=
  ∀ target, WrittenTo annotations known constraint target →
    constraint.left.same target = false → Settled graph keys constraint.left target

/-! ## Reads and writes -/

section

variable (numbered : Numbered (sideParts existing.toList)) (registers : index.Registers existing)
  (member : constraint ∈ existing.toList) (flow : constraint.relation = .subtype)

include numbered registers member flow

theorem derive_settles_reads :
    ReadsSettled graph annotations existing.toList
      (existing.addAll (derive graph annotations index constraint existing).1.toList).keys
      constraint := by
  intro source read apart
  cases read with
  | context seen =>
      exact derive_settles flow (.read (throughField?_eq_some_iff.mpr ⟨seen, rfl⟩))
  | @flow lower source field lowerMember conveys notMethod =>
      have registered := (registers.registered lower).mpr lowerMember
      rcases (mem_superSide_iff_conveys numbered (between_sideParts lowerMember)
        (between_sideParts member).1).mpr ⟨registered, conveys⟩ with ⟨above, rfl⟩
      exact derive_settles flow (.intoField field above apart notMethod)

/-- A derivation settles what a flow into a field asks for, unless it also comes
from one. -/
theorem derive_settles_writes (notField : constraint.left.isFieldAdapted = false) :
    WritesSettled graph annotations existing.toList
      (existing.addAll (derive graph annotations index constraint existing).1.toList).keys
      constraint := by
  intro target written apart
  cases written with
  | context seen =>
      exact derive_settles flow (.written notField (throughField?_eq_some_iff.mpr ⟨seen, rfl⟩))
  | @flow upper target field upperMember conveys notMethod =>
      have registered := (registers.registered upper).mpr upperMember
      rcases (mem_subSide_iff_conveys numbered (between_sideParts upperMember)
        (between_sideParts member).2).mpr ⟨registered, conveys⟩ with ⟨below, rfl⟩
      exact derive_settles flow (.outOfField notField field below apart notMethod)

end

/-! ## Flows from fields -/

private structure Search.Descends (values : List Value) (property : Value → Value → Prop)
    (search : Search) : Prop where
  among : search.index.Among values
  found : ∀ member, member ∈ search.found.toList → property member.left member.right
  pending : ∀ member, member ∈ search.pending →
    member.Between values ∧ property member.left member.right

private theorem Search.Descends.foldl_accept {property : Value → Value → Prop} {search : Search}
    {proposals : List Constraint} (descends : search.Descends values property)
    (offered : ∀ proposal, proposal ∈ proposals →
      proposal.Between values ∧ property proposal.left proposal.right) :
    (proposals.foldl (Search.accept graph existing) search).Descends values property := by
  induction proposals generalizing search with
  | nil => exact descends
  | cons proposal rest induction =>
      have first := offered proposal List.mem_cons_self
      refine induction ?_ fun later present => offered later (List.mem_cons_of_mem _ present)
      rcases accept_cases graph existing search proposal with ⟨same, -⟩ | ⟨-, -, -, accepted⟩
      · rw [same]
        exact descends
      · rw [accepted]
        refine ⟨descends.among.register first.1, ?_, ?_⟩
        · intro member present
          rcases ConstraintSet.mem_or_eq_of_mem_add present with earlier | rfl
          · exact descends.found member earlier
          · exact first.2
        · intro member present
          rcases List.mem_append.mp present with earlier | equal
          · exact descends.pending member earlier
          · exact List.mem_singleton.mp equal ▸ first

theorem derive_descends {property : Value → Value → Prop} (closed : ClosedUnderParts values)
    (among : index.Among values) (between : constraint.Between values)
    (start : property constraint.left constraint.right)
    (handedDown : ∀ (later : ReferenceIndex) (current : Constraint) (source target : Value),
      later.Among values → property current.left current.right →
        Proposed graph annotations later current source target → property source target) :
    ∀ member, member ∈ (derive graph annotations index constraint existing).1.toList →
      property member.left member.right := by
  have step : ∀ search next, Search.step graph annotations existing search = some next →
      search.Descends values property → next.Descends values property := by
    intro search next stepped descends
    unfold Search.step at stepped
    split at stepped
    · cases stepped
    · next current rest waiting =>
        cases stepped
        have served := descends.pending current (waiting ▸ List.mem_cons_self)
        have popped : Search.Descends values property { search with pending := rest } :=
          ⟨descends.among, descends.found, fun member later =>
            descends.pending member (waiting ▸ List.mem_cons_of_mem _ later)⟩
        refine popped.foldl_accept fun proposal candidate => ?_
        have proposed := (proposed_of_mem_candidates candidate).2
        exact ⟨proposed.joined.sides closed descends.among.sides served.1,
          handedDown _ current _ _ descends.among served.2 proposed⟩
  unfold derive
  split
  · have initially : Search.Descends values property ⟨[constraint], {}, index⟩ := by
      refine ⟨among, fun member present => ?_, fun member present => ?_⟩
      · cases present
      · exact List.mem_singleton.mp present ▸ ⟨between, start⟩
    exact (iterate_preserves step _ initially).found
  · intro member present
    cases present

private def KeepsTarget (sink source target : Value) : Prop :=
  source.isFieldAdapted = true → target = sink

theorem derived_target (closed : ClosedUnderParts values) (among : index.Among values)
    (between : constraint.Between values)
    (noCalls : ∀ value, value ∈ values → value.isMethodAdapted = false) :
    ∀ member, member ∈ (derive graph annotations index constraint existing).1.toList →
      member.left.isFieldAdapted = true → member.right = constraint.right := by
  have handedDown : ∀ (later : ReferenceIndex) (current : Constraint) (source target : Value),
      later.Among values → KeepsTarget constraint.right current.left current.right →
        Proposed graph annotations later current source target →
          KeepsTarget constraint.right source target := by
    intro later current source target laterAmong kept proposed field
    have noField : source.isFieldAdapted = false → target = constraint.right := by
      intro notField
      rw [notField] at field
      cases field
    cases proposed with
    | read through => exact kept (isFieldAdapted_of_through through)
    | intoField leftField known apart notMethod => exact kept leftField
    | written notField through => exact noField notField
    | outOfField notField rightField known apart notMethod => exact noField notField
    | carriedIn direct known apart carried =>
        exact noField (Value.isLeaf_iff.mp (Value.isLeaf_of_flowsThroughCalls carried)).1
    | carriedOut direct carried known apart notMethod =>
        exact noField (Value.isLeaf_iff.mp direct.left).1
    | @bridged entry exit lower upper direct leftCarried rightCarried entered entryMethod =>
        have entryMember := laterAmong.adaptations (List.mem_filter.mp entered).1
        rw [noCalls entry entryMember] at entryMethod
        cases entryMethod
  exact derive_descends closed among between (fun _ => rfl) handedDown

theorem settled_of_writes (numbered : Numbered (sideParts existing.toList))
    (registers : index.Registers existing) (member : constraint ∈ existing.toList)
    (flow : constraint.relation = .subtype) (field : constraint.left.isFieldAdapted = true)
    (noCalls : ∀ value, value ∈ sideParts existing.toList → value.isMethodAdapted = false)
    (written : WrittenTo annotations existing.toList constraint target)
    (settled : Settled graph
      (existing.addAll (derive graph annotations index constraint existing).1.toList).keys
      constraint.left target) :
    Settled graph existing.keys constraint.left target := by
  have between := between_sideParts member
  have targetMember : target ∈ sideParts existing.toList := by
    cases written with
    | context seen =>
        exact closed_sideParts _ _ _ constraint.right.context_mem_parts between.2
    | flow rightField upperMember conveys notMethod =>
        exact (conveys.mem_values (between_sideParts upperMember)).2
  intro connected
  rcases ConstraintSet.mem_keys_addAll.mp (settled connected) with earlier | derived
  · exact earlier
  · rcases List.mem_map.mp derived with ⟨found, present, key⟩
    have derivation := derive_between graph annotations existing (closed_sideParts _)
      registers.among between
    have foundBetween := derivation.holds found present
    have left : found.left = constraint.left :=
      numbered _ _ foundBetween.1 between.1 (decide_eq_true (congrArg ConstraintKey.left key))
    have right : found.right = target :=
      numbered _ _ foundBetween.2 targetMember (decide_eq_true (congrArg ConstraintKey.right key))
    have kept := derived_target (closed_sideParts _) registers.among between noCalls found present
      (left ▸ field)
    have own : constraint.key = ⟨.subtype, constraint.left.id, target.id⟩ := by
      rw [Constraint.key, flow, ← right, kept]
    exact own ▸ ConstraintSet.mem_keys member

/-- A derivation from a member of a set settles what the flow asks for as a read.
It settles all that the field rules ask for exactly if the flow does not come
from a field, or what it asks for as a write is settled; and without calls the
derivation itself contributes nothing to the latter. -/
theorem derive_settles_fields_iff (graph : ValueGraph) (annotations : Annotations)
    (index : ReferenceIndex) (existing : ConstraintSet) (constraint : Constraint)
    (numbered : Numbered (sideParts existing.toList)) (registers : index.Registers existing)
    (member : constraint ∈ existing.toList) (flow : constraint.relation = .subtype) :
    let keys :=
      (existing.addAll (derive graph annotations index constraint existing).1.toList).keys
    ReadsSettled graph annotations existing.toList keys constraint ∧
    (ReadsSettled graph annotations existing.toList keys constraint ∧
        WritesSettled graph annotations existing.toList keys constraint ↔
      (constraint.left.isFieldAdapted = true →
        WritesSettled graph annotations existing.toList keys constraint)) ∧
    ((∀ value, value ∈ sideParts existing.toList → value.isMethodAdapted = false) →
      (ReadsSettled graph annotations existing.toList keys constraint ∧
          WritesSettled graph annotations existing.toList keys constraint ↔
        (constraint.left.isFieldAdapted = true →
          WritesSettled graph annotations existing.toList existing.keys constraint))) := by
  intro keys
  have reads : ReadsSettled graph annotations existing.toList keys constraint :=
    derive_settles_reads numbered registers member flow
  have writes : constraint.left.isFieldAdapted = false →
      WritesSettled graph annotations existing.toList keys constraint :=
    derive_settles_writes numbered registers member flow
  have all_iff : ReadsSettled graph annotations existing.toList keys constraint ∧
      WritesSettled graph annotations existing.toList keys constraint ↔
        (constraint.left.isFieldAdapted = true →
          WritesSettled graph annotations existing.toList keys constraint) := by
    refine ⟨fun settled _ => settled.2, fun settled => ⟨reads, ?_⟩⟩
    cases field : constraint.left.isFieldAdapted with
    | true => exact settled field
    | false => exact writes field
  refine ⟨reads, all_iff, fun noCalls => all_iff.trans ?_⟩
  refine forall_congr' fun field => ⟨fun settled target written apart => ?_,
    fun settled target written apart => ?_⟩
  · exact settled_of_writes numbered registers member flow field noCalls written
      (settled target written apart)
  · exact (settled target written apart).mono fun key present =>
      ConstraintSet.mem_keys_addAll.mpr (.inl present)

/-- The content of a box is put into another one, whose content is
polymorphic. -/
def repackedContent : ValueGraph :=
  let main : Method := { declaringClass := "App", name := "main" }
  let content : Value := .leaf (LeafSpec.leaf { identifier := "content", kind := .field } 0 0)
  let wrapped : Value := .leaf
    (LeafSpec.leaf { identifier := "wrapped", kind := .field, declared := .only .poly } 0 1)
  let box : Value := .leaf (LeafSpec.leaf { identifier := "box", method := some main } 0 2)
  let package : Value := .leaf (LeafSpec.leaf { identifier := "package", method := some main } 0 3)
  let unpacked : Value := .adapted .field 0 4 content box
  let packed : Value := .adapted .field 0 5 wrapped package
  { values := [content, wrapped, box, package, unpacked, packed]
    constraints := .ofList [.inferred unpacked packed []] }

/-- As `repackedContent`, but the content is known to be put into the package. -/
def knownPackage : ValueGraph :=
  let repacked := repackedContent.constraints.toList[0]
  { repackedContent with
    constraints := repackedContent.constraints.add
      (.inferred repacked.left repacked.right.context []) }

private theorem repackedContent_unsettled {keys : List ConstraintKey}
    (unknown : ⟨.subtype, 4, 3⟩ ∉ keys) :
    let existing := repackedContent.constraints
    ¬ WritesSettled repackedContent {} existing.toList keys existing.toList[0] := by
  intro existing settled
  have written : WrittenTo {} existing.toList existing.toList[0] existing.toList[0].right.context :=
    .context ⟨by decide, .inl (by decide)⟩
  exact unknown (settled _ written (by decide) (by decide))

private theorem knownPackage_settled :
    let existing := knownPackage.constraints
    WritesSettled knownPackage {} existing.toList existing.keys existing.toList[0] := by
  intro existing target written apart
  cases written with
  | context seen => exact fun _ => by decide
  | @flow upper target field member conveys notMethod =>
      exfalso
      have missing : ∀ upper, upper ∈ existing.toList →
          upper.relation = .subtype ∧ upper.left ≠ existing.toList[0].right := by decide
      rcases conveys with ⟨-, left, -⟩ | ⟨equality, -⟩
      · exact (missing upper member).2 left
      · rw [(missing upper member).1] at equality
        cases equality

theorem derive_settles_fields_iff_knownPackage :
    let unknown := repackedContent.constraints
    let unknownKeys := (unknown.addAll
      (derive repackedContent {} (.ofList unknown.toList) unknown.toList[0] unknown).1.toList).keys
    let known := knownPackage.constraints
    let knownKeys := (known.addAll
      (derive knownPackage {} (.ofList known.toList) known.toList[0] known).1.toList).keys
    (Numbered (sideParts unknown.toList) ∧ Numbered (sideParts known.toList)) ∧
      ((ReferenceIndex.ofList unknown.toList).Registers unknown ∧
        (ReferenceIndex.ofList known.toList).Registers known) ∧
      (unknown.toList[0].relation = .subtype ∧ known.toList[0].relation = .subtype) ∧
      known.toList[0].left.isFieldAdapted = true ∧
      (ReadsSettled knownPackage {} known.toList knownKeys known.toList[0] ∧
        WritesSettled knownPackage {} known.toList knownKeys known.toList[0]) ∧
      ¬ (ReadsSettled repackedContent {} unknown.toList unknownKeys unknown.toList[0] ∧
        WritesSettled repackedContent {} unknown.toList unknownKeys unknown.toList[0]) := by
  intro unknown unknownKeys known knownKeys
  have numbered : Numbered (sideParts unknown.toList) ∧ Numbered (sideParts known.toList) := by
    decide
  have registers : (ReferenceIndex.ofList unknown.toList).Registers unknown ∧
      (ReferenceIndex.ofList known.toList).Registers known :=
    ⟨ReferenceIndex.registers_ofList (by decide), ReferenceIndex.registers_ofList (by decide)⟩
  have unknownIff := (derive_settles_fields_iff repackedContent {} (.ofList unknown.toList) unknown
    unknown.toList[0] numbered.1 registers.1 (by decide) (by decide)).2.2 (by decide)
  have knownIff := (derive_settles_fields_iff knownPackage {} (.ofList known.toList) known
    known.toList[0] numbered.2 registers.2 (by decide) (by decide)).2.2 (by decide)
  exact ⟨numbered, registers, by decide, by decide, knownIff.mpr fun _ => knownPackage_settled,
    mt unknownIff.mp fun settled =>
      repackedContent_unsettled (by decide) (settled (by decide))⟩

/-- The flow to the package can be connected, but is not derived. -/
theorem repackedContent_not_written :
    let existing := repackedContent.constraints
    let constraint := existing.toList[0]
    let derived := derive repackedContent {} (.ofList existing.toList) constraint existing
    let keys := (existing.addAll derived.1.toList).keys
    (ReferenceIndex.ofList existing.toList).Registers existing ∧
      constraint ∈ existing.toList ∧ constraint.relation = .subtype ∧
      ¬ (ReadsSettled repackedContent {} existing.toList keys constraint ∧
        WritesSettled repackedContent {} existing.toList keys constraint) := by
  intro existing constraint derived keys
  exact ⟨ReferenceIndex.registers_ofList (by decide), by decide, by decide, fun settled =>
    repackedContent_unsettled (by decide) settled.2⟩

end Derivation

end InfoFlow
