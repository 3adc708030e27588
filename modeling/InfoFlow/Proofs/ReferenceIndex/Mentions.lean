import InfoFlow.Proofs.Derivation

/-! Which mentions an index finds.

The search for what is built from a value goes from side to side: from a value
to the adaptations among the sides of registered constraints that have it as
their own declaration or context. So it finds exactly the constraints that are
linked to the value by such steps. An adaptation that occurs only inside of
another one is no side of its own and breaks the chain, and so does a
placeholder that an adaptation is observed through. -/

namespace InfoFlow

namespace Constraint

def HasSide (constraint : Constraint) (side : Value) : Prop :=
  side = constraint.left ∨ side = constraint.right

/-- A side of a constraint is the value, or is built from it at some depth. -/
def Mentions (constraint : Constraint) (value : Value) : Prop :=
  ∃ side, constraint.HasSide side ∧ value ∈ side.parts

end Constraint

def SideOf (constraints : List Constraint) (side : Value) : Prop :=
  ∃ constraint, constraint ∈ constraints ∧ constraint.HasSide side

/-- What is linked to a value among the sides of some constraints: the value
itself, and every side whose own declaration is linked to it, or whose own
context, unless that is a placeholder. -/
inductive Linked (constraints : List Constraint) (value : Value) : Value → Prop
  | itself : Linked constraints value value
  | declaration {side : Value} (isSide : SideOf constraints side)
      (below : Linked constraints value side.declaration) : Linked constraints value side
  | context {side : Value} (isSide : SideOf constraints side)
      (real : isSynthetic side.context.identifier = false)
      (below : Linked constraints value side.context) : Linked constraints value side

theorem SideOf.mem_sideParts {constraints : List Constraint} {side : Value}
    (isSide : SideOf constraints side) : side ∈ Derivation.sideParts constraints := by
  rcases isSide with ⟨constraint, present, rfl | rfl⟩
  · exact (Derivation.between_sideParts present).1
  · exact (Derivation.between_sideParts present).2

theorem Linked.mem_parts {constraints : List Constraint} {value side : Value}
    (linked : Linked constraints value side) : value ∈ side.parts := by
  induction linked with
  | itself => exact value.mem_parts_self
  | @declaration side isSide below induction =>
      exact Value.mem_parts_trans induction side.declaration_mem_parts
  | @context side isSide real below induction =>
      exact Value.mem_parts_trans induction side.context_mem_parts

theorem Linked.mem_values {constraints : List Constraint} {value side : Value}
    (linked : Linked constraints value side) :
    side ∈ value :: Derivation.sideParts constraints := by
  cases linked with
  | itself => exact List.mem_cons_self
  | declaration isSide below => exact List.mem_cons_of_mem _ isSide.mem_sideParts
  | context isSide real below => exact List.mem_cons_of_mem _ isSide.mem_sideParts

theorem Linked.of_mem_parts {constraints : List Constraint} {value side : Value}
    (closed : ∀ part, part ∈ side.parts → part.isLeaf = false → SideOf constraints part)
    (real : ∀ part, part ∈ side.parts → isSynthetic part.context.identifier = false)
    (below : value ∈ side.parts) : Linked constraints value side := by
  induction side with
  | leaf content =>
      have equal : value = .leaf content := by simpa [Value.parts] using below
      exact equal ▸ .itself
  | adapted adaptation owner id declaration context onDeclaration onContext =>
      have isSide := closed _ (Value.mem_parts_self _) rfl
      have inDeclaration : declaration.parts ⊆
          (Value.adapted adaptation owner id declaration context).parts :=
        fun part member => List.mem_cons_of_mem _ (List.mem_append_right _ member)
      have inContext : context.parts ⊆
          (Value.adapted adaptation owner id declaration context).parts :=
        fun part member => List.mem_cons_of_mem _ (List.mem_append_left _ member)
      rcases List.mem_cons.mp below with equal | within
      · exact equal ▸ .itself
      · rcases List.mem_append.mp within with within | within
        · refine .context isSide (real _ (Value.mem_parts_self _)) ?_
          exact onContext (fun part member => closed part (inContext member))
            (fun part member => real part (inContext member)) within
        · refine .declaration isSide ?_
          exact onDeclaration (fun part member => closed part (inDeclaration member))
            (fun part member => real part (inDeclaration member)) within

namespace ReferenceIndex

variable {index : ReferenceIndex} {constraint : Constraint} {constraints : List Constraint}
  {value side : Value}

/-! ## What the search reaches -/

def Direct (inner outer : Value) : Prop :=
  hasDeclaration inner outer = true ∨ hasContext inner outer = true

theorem Direct.of_same {inner other outer : Value} (direct : Direct inner outer)
    (same : inner.same other = true) : Direct other outer := by
  have number : inner.id = other.id := of_decide_eq_true same
  cases outer with
  | leaf content => rcases direct with direct | direct <;> cases direct
  | adapted adaptation owner id declaration context =>
      simpa only [Direct, hasDeclaration, hasContext, Value.same, number] using direct

theorem mem_adapted_iff {inner outer : Value} :
    outer ∈ index.adaptedFromDeclaration inner ++ index.adaptedFromContext inner ↔
      outer ∈ index.adaptations ∧ Direct inner outer := by
  rw [List.mem_append, adaptedFromDeclaration, adaptedFromContext, List.mem_filter,
    List.mem_filter, Direct, and_or_left]

namespace Search

structure Follows (index : ReferenceIndex) (property : Value → Prop) (search : Search) :
    Prop where
  pending : search.pending ⊆ search.reached
  holds : ∀ member, member ∈ search.reached → property member
  followed : ∀ inner, inner ∈ search.reached → inner ∈ search.pending ∨
    ∀ outer, outer ∈ index.adaptations → Direct inner outer →
      search.reached.any outer.same = true

theorem Follows.step {property : Value → Prop} {search next : Search}
    (kept : ∀ inner outer, outer ∈ index.adaptations → Direct inner outer → property inner →
      property outer)
    (follows : search.Follows index property) (stepped : search.step index = some next) :
    next.Follows index property := by
  unfold Search.step at stepped
  split at stepped
  · cases stepped
  · next current rest waiting =>
      cases stepped
      have reachedCurrent : current ∈ search.reached :=
        follows.pending (waiting ▸ List.mem_cons_self)
      have found := fun outer => @any_reached_foldl outer ⟨rest, search.reached⟩
        (index.adaptedFromDeclaration current ++ index.adaptedFromContext current)
      rcases foldl_visit_eq ⟨rest, search.reached⟩
          (index.adaptedFromDeclaration current ++ index.adaptedFromContext current) with
        ⟨added, included, pending, reached⟩
      simp only [reached] at found
      constructor
      · rw [pending, reached]
        intro member present
        rcases List.mem_append.mp present with earlier | new
        · refine List.mem_append_left _ (follows.pending ?_)
          exact waiting ▸ List.mem_cons_of_mem _ earlier
        · exact List.mem_append_right _ new
      · rw [reached]
        intro member present
        rcases List.mem_append.mp present with earlier | new
        · exact follows.holds member earlier
        · rcases mem_adapted_iff.mp (included new) with ⟨noted, direct⟩
          exact kept current member noted direct (follows.holds current reachedCurrent)
      · rw [pending, reached]
        intro inner present
        rcases List.mem_append.mp present with earlier | new
        · rcases follows.followed inner earlier with still | followed
          · rw [waiting] at still
            rcases List.mem_cons.mp still with equal | later
            · rw [equal]
              exact .inr fun outer noted direct =>
                found outer (mem_adapted_iff.mpr ⟨noted, direct⟩)
            · exact .inl (List.mem_append_left _ later)
          · refine .inr fun outer noted direct => ?_
            rw [List.any_append, followed outer noted direct, Bool.true_or]
        · exact .inl (List.mem_append_right _ new)

end Search

/-- The search reaches the least collection with the value in it that has, with
every member, the noted adaptations of which this is a direct part. -/
theorem builtFrom_follows {property : Value → Prop} (itself : property value)
    (kept : ∀ inner outer, outer ∈ index.adaptations → Direct inner outer → property inner →
      property outer) :
    (∀ member, member ∈ index.builtFrom value → property member) ∧
      ∀ inner outer, inner ∈ index.builtFrom value → outer ∈ index.adaptations →
        Direct inner outer → (index.builtFrom value).any outer.same = true := by
  have start : Search.Follows index property ⟨[value], [value]⟩ := by
    refine ⟨List.Subset.refl _, fun member present => ?_, fun inner present => .inl present⟩
    exact List.mem_singleton.mp present ▸ itself
  have done := iterate_preserves
    (fun _ _ stepped follows => Search.Follows.step kept follows stepped)
    (index.adaptations.length + 1) start
  refine ⟨done.holds, fun inner outer reached noted direct => ?_⟩
  rcases done.followed inner reached with pending | followed
  · rw [search_finishes] at pending
    cases pending
  · exact followed outer noted direct

/-! ## What the index finds -/

theorem sideOf_of_mem_adaptations (noted : side ∈ (ofList constraints).adaptations) :
    SideOf constraints side := by
  have sides : ∀ constraint, constraint ∈ constraints →
      constraint.Between (constraints.flatMap fun constraint =>
        [constraint.left, constraint.right]) := by
    intro constraint present
    exact ⟨List.mem_flatMap.mpr ⟨constraint, present, by simp⟩,
      List.mem_flatMap.mpr ⟨constraint, present, by simp⟩⟩
  rcases List.mem_flatMap.mp ((among_ofList sides).adaptations noted) with
    ⟨constraint, present, isSide⟩
  exact ⟨constraint, present, by simpa [Constraint.HasSide] using isSide⟩

theorem exists_registered (numbered : Numbered (Derivation.sideParts constraints))
    (present : constraint ∈ constraints) :
    ∃ known, known ∈ (ofList constraints).registered.toList ∧
      known.left = constraint.left ∧ known.right = constraint.right := by
  have key : constraint.key ∈ (ofList constraints).registered.keys := by
    rw [ofList, registered_registerAll, ConstraintSet.mem_keys_addAll]
    exact .inr (List.mem_map_of_mem present)
  rcases List.mem_map.mp key with ⟨known, registered, sameKey⟩
  have listed : known ∈ constraints := by
    rw [ofList, registered_registerAll] at registered
    exact ConstraintSet.ofList_subset registered
  have knownSides := Derivation.between_sideParts listed
  have sides := Derivation.between_sideParts present
  refine ⟨known, registered, ?_, ?_⟩
  · exact numbered _ _ knownSides.1 sides.1
      (decide_eq_true (congrArg ConstraintKey.left sameKey))
  · exact numbered _ _ knownSides.2 sides.2
      (decide_eq_true (congrArg ConstraintKey.right sameKey))

theorem mem_adaptations_of_sideOf (numbered : Numbered (Derivation.sideParts constraints))
    (isSide : SideOf constraints side) (adapted : side.isLeaf = false) :
    side ∈ (ofList constraints).adaptations := by
  rcases isSide with ⟨constraint, present, isSide⟩
  rcases exists_registered numbered present with ⟨known, registered, left, right⟩
  have sides : ∀ constraint, constraint ∈ constraints →
      constraint.Between (Derivation.sideParts constraints) :=
    fun _ member => Derivation.between_sideParts member
  exact mem_adaptations (among_ofList sides) (noted_ofList constraints) numbered registered
    (left ▸ right ▸ isSide) adapted

section

variable (numbered : Numbered (value :: Derivation.sideParts constraints))

include numbered

theorem linked_of_mem_builtFrom {member : Value}
    (reached : member ∈ (ofList constraints).builtFrom value) :
    Linked constraints value member := by
  refine (builtFrom_follows .itself ?_).1 member reached
  intro inner outer noted direct linked
  have isSide := sideOf_of_mem_adaptations noted
  have outerParts : ∀ part, part ∈ outer.parts →
      part ∈ value :: Derivation.sideParts constraints := fun part below =>
    List.mem_cons_of_mem _ (Derivation.closed_sideParts _ part outer below isSide.mem_sideParts)
  rcases direct with declared | observed
  · have equal := declaration_eq numbered (outerParts _ outer.declaration_mem_parts)
      linked.mem_values declared
    exact .declaration isSide (equal ▸ linked)
  · have equal := context_eq numbered (outerParts _ outer.context_mem_parts)
      linked.mem_values observed
    exact .context isSide equal.2 (equal.1 ▸ linked)

theorem any_builtFrom_of_linked (linked : Linked constraints value side) :
    ((ofList constraints).builtFrom value).any side.same = true := by
  have sidesNumbered : Numbered (Derivation.sideParts constraints) :=
    fun first second firstMember secondMember => numbered first second
      (List.mem_cons_of_mem _ firstMember) (List.mem_cons_of_mem _ secondMember)
  have onward : ∀ inner outer, ((ofList constraints).builtFrom value).any inner.same = true →
      SideOf constraints outer → outer.isLeaf = false → Direct inner outer →
        ((ofList constraints).builtFrom value).any outer.same = true := by
    intro inner outer known isSide adapted direct
    rcases List.any_eq_true.mp known with ⟨twin, twinReached, same⟩
    have follows := @builtFrom_follows (ofList constraints) value (fun _ => True) trivial
      fun _ _ _ _ _ => trivial
    exact follows.2 twin outer twinReached
      (mem_adaptations_of_sideOf sidesNumbered isSide adapted) (direct.of_same same)
  induction linked with
  | itself => exact List.any_eq_true.mpr ⟨value, mem_builtFrom_self, value.same_refl⟩
  | @declaration side isSide below induction =>
      cases side with
      | leaf content => exact induction
      | adapted adaptation owner id declaration context =>
          exact onward declaration _ induction isSide rfl (.inl declaration.same_refl)
  | @context side isSide real below induction =>
      cases side with
      | leaf content => exact induction
      | adapted adaptation owner id declaration context =>
          have notPlaceholder : isSynthetic context.identifier = false := real
          refine onward context _ induction isSide rfl (.inr ?_)
          rw [hasContext, context.same_refl, notPlaceholder]
          rfl

theorem mem_referencing_iff_linked
    (flows : ∀ constraint, constraint ∈ constraints → constraint.isFlow = true) :
    constraint ∈ (ofList constraints).referencing value ↔
      constraint ∈ (ConstraintSet.ofList constraints).toList ∧
        ∃ side, constraint.HasSide side ∧ Linked constraints value side := by
  have registered : (ofList constraints).registered = ConstraintSet.ofList constraints :=
    registered_registerAll {} constraints
  rw [mem_referencing, registered]
  refine and_congr_right fun present => ?_
  have listed : constraint ∈ constraints := ConstraintSet.ofList_subset present
  have sideMember : ∀ side, constraint.HasSide side →
      side ∈ value :: Derivation.sideParts constraints := fun side isSide =>
    List.mem_cons_of_mem _ (SideOf.mem_sideParts ⟨constraint, listed, isSide⟩)
  constructor
  · rintro ⟨member, reached, found⟩
    have linked := linked_of_mem_builtFrom numbered reached
    rw [flowsAt, flows constraint listed, Bool.true_and, Bool.or_eq_true] at found
    rcases found with same | same
    · have equal := numbered _ _ (sideMember _ (.inl rfl)) linked.mem_values same
      exact ⟨member, .inl equal.symm, linked⟩
    · have equal := numbered _ _ (sideMember _ (.inr rfl)) linked.mem_values same
      exact ⟨member, .inr equal.symm, linked⟩
  · rintro ⟨side, isSide, linked⟩
    rcases List.any_eq_true.mp (any_builtFrom_of_linked numbered linked) with
      ⟨member, reached, same⟩
    refine ⟨member, reached, ?_⟩
    rw [flowsAt, flows constraint listed, Bool.true_and, Bool.or_eq_true]
    rcases isSide with rfl | rfl
    · exact .inl same
    · exact .inr same

end

/-- An index finds exactly the flows with a side that is linked to the given
value. So it finds all mentions of the value, at whatever depth, exactly if every
constraint that mentions it has such a side. -/
theorem referencing_complete_iff (constraints : List Constraint) (value : Value)
    (flows : ∀ constraint, constraint ∈ constraints → constraint.isFlow = true)
    (numbered : Numbered (value :: Derivation.sideParts constraints)) :
    (∀ constraint, constraint ∈ (ofList constraints).referencing value ↔
        constraint ∈ (ConstraintSet.ofList constraints).toList ∧
          ∃ side, constraint.HasSide side ∧ Linked constraints value side) ∧
      ((∀ constraint, constraint ∈ (ofList constraints).referencing value ↔
          constraint ∈ (ConstraintSet.ofList constraints).toList ∧ constraint.Mentions value) ↔
        ∀ constraint, constraint ∈ (ConstraintSet.ofList constraints).toList →
          constraint.Mentions value →
            ∃ side, constraint.HasSide side ∧ Linked constraints value side) := by
  have found : ∀ constraint, constraint ∈ (ofList constraints).referencing value ↔
      constraint ∈ (ConstraintSet.ofList constraints).toList ∧
        ∃ side, constraint.HasSide side ∧ Linked constraints value side :=
    fun _ => mem_referencing_iff_linked numbered flows
  refine ⟨found, fun complete constraint present mentions => ?_, fun linked constraint => ?_⟩
  · exact ((found constraint).mp ((complete constraint).mpr ⟨present, mentions⟩)).2
  · rw [found constraint]
    refine and_congr_right fun present => ⟨?_, linked constraint present⟩
    rintro ⟨side, isSide, below⟩
    exact ⟨side, isSide, below.mem_parts⟩

/-- A box that is linked through another one. Only what the outer link reaches
is a side of the constraint. -/
def nestedLink : Value × List Constraint :=
  let link : Value := .leaf (LeafSpec.leaf { identifier := "link", kind := .field } 0 0)
  let box : Value := .leaf (LeafSpec.leaf { identifier := "box" } 0 1)
  let copy : Value := .leaf (LeafSpec.leaf { identifier := "copy" } 0 2)
  let linked : Value := .adapted .field 0 3 link box
  let reached : Value := .adapted .field 0 4 link linked
  (box, [{ relation := .equality, left := reached, right := copy }])

/-- As `nestedLink`, but the inner link is a side of another constraint. -/
def knownLink : Value × List Constraint :=
  let linked := nestedLink.2[0].left.context
  (nestedLink.1, nestedLink.2 ++ [.inferred linked nestedLink.2[0].right []])

private theorem nestedLink_incomplete :
    let (value, constraints) := nestedLink
    ¬ ∀ constraint, constraint ∈ (ofList constraints).referencing value ↔
      constraint ∈ (ConstraintSet.ofList constraints).toList ∧ constraint.Mentions value := by
  intro complete
  have mentions : nestedLink.2[0].Mentions nestedLink.1 :=
    ⟨nestedLink.2[0].left, .inl rfl, by decide⟩
  have found := (complete nestedLink.2[0]).mpr ⟨by decide, mentions⟩
  revert found
  decide

theorem referencing_complete_iff_knownLink :
    let (value, constraints) := knownLink
    let (overlooked, others) := nestedLink
    (∀ constraint, constraint ∈ constraints ++ others → constraint.isFlow = true) ∧
      (Numbered (value :: Derivation.sideParts constraints) ∧
        Numbered (overlooked :: Derivation.sideParts others)) ∧
      (ofList constraints).referencing value ≠ [] ∧
      (∀ constraint, constraint ∈ (ofList constraints).referencing value ↔
        constraint ∈ (ConstraintSet.ofList constraints).toList ∧ constraint.Mentions value) ∧
      ¬ ∀ constraint, constraint ∈ (ConstraintSet.ofList others).toList →
        constraint.Mentions overlooked →
          ∃ side, constraint.HasSide side ∧ Linked others overlooked side := by
  have flows : ∀ constraint, constraint ∈ knownLink.2 ++ nestedLink.2 →
      constraint.isFlow = true := by decide
  have numbered : Numbered (knownLink.1 :: Derivation.sideParts knownLink.2) ∧
      Numbered (nestedLink.1 :: Derivation.sideParts nestedLink.2) := by decide
  have known := (referencing_complete_iff _ _
    (fun constraint member => flows constraint (List.mem_append_left _ member)) numbered.1).2
  have nested := (referencing_complete_iff _ _
    (fun constraint member => flows constraint (List.mem_append_right _ member)) numbered.2).2
  refine ⟨flows, numbered, by decide, known.mpr fun constraint present _ => ?_,
    mt nested.mpr nestedLink_incomplete⟩
  have linked : Linked knownLink.2 knownLink.1 knownLink.2[1].left :=
    .context ⟨knownLink.2[1], by decide, .inl rfl⟩ (by decide) .itself
  have reached : Linked knownLink.2 knownLink.1 knownLink.2[0].left :=
    .context ⟨knownLink.2[0], by decide, .inl rfl⟩ (by decide) linked
  have listed : constraint = knownLink.2[0] ∨ constraint = knownLink.2[1] := by
    have member := ConstraintSet.ofList_subset present
    simpa [knownLink, nestedLink] using member
  rcases listed with rfl | rfl
  · exact ⟨_, .inl rfl, reached⟩
  · exact ⟨_, .inl rfl, linked⟩

/-- The inner link was never noted, so the box is not found. -/
theorem nestedLink_overlooked :
    let (value, constraints) := nestedLink
    value.isLeaf = true ∧ isSynthetic value.identifier = false ∧
      ¬ ∀ constraint, constraint ∈ (ofList constraints).referencing value ↔
        constraint ∈ (ConstraintSet.ofList constraints).toList ∧ constraint.Mentions value :=
  ⟨rfl, by decide, nestedLink_incomplete⟩

/-- Where every adaptation that a side is built from is a side itself, and no
side is observed through a placeholder, all mentions are found. -/
theorem referencing_of_closed
    (flows : ∀ constraint, constraint ∈ constraints → constraint.isFlow = true)
    (numbered : Numbered (value :: Derivation.sideParts constraints))
    (closed : ∀ part, part ∈ Derivation.sideParts constraints → part.isLeaf = false →
      SideOf constraints part)
    (real : ∀ part, part ∈ Derivation.sideParts constraints →
      isSynthetic part.context.identifier = false) :
    constraint ∈ (ofList constraints).referencing value ↔
      constraint ∈ (ConstraintSet.ofList constraints).toList ∧ constraint.Mentions value := by
  rw [mem_referencing_iff_linked numbered flows]
  refine and_congr_right fun present => ⟨?_, ?_⟩
  · rintro ⟨side, isSide, linked⟩
    exact ⟨side, isSide, linked.mem_parts⟩
  rintro ⟨side, isSide, below⟩
  have sideMember := SideOf.mem_sideParts
    ⟨constraint, ConstraintSet.ofList_subset present, isSide⟩
  have inside := fun part member =>
    Derivation.closed_sideParts constraints part side member sideMember
  refine ⟨side, isSide, .of_mem_parts ?_ ?_ below⟩
  · exact fun part member => closed part (inside part member)
  · exact fun part member => real part (inside part member)

end ReferenceIndex

end InfoFlow
