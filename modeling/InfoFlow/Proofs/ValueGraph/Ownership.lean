import InfoFlow.Proofs.ReferenceIndex.Mentions
import InfoFlow.Proofs.ValueGraph.Arena

/-! How the values of other graphs get into a graph.

A constraint is added only between values of the graph itself. An adaptation is made of
whatever it is asked for, and known by the numbers of its sides, which every graph
counts from zero. So a value of another graph gets in as a side of an adaptation, or
else is taken for the value with its number. Both are the only ways. -/

namespace InfoFlow.ValueGraph

variable {graph : ValueGraph} {calls before earlier : List Call} {request : Request}
  {value side : Value} {adaptation : Adaptation} {declaration context : Value}
  {constraint : Constraint} {owner id : Nat}

/-- Every call is made with values that the graph answered with before, or with those
of other graphs. -/
def CalledFromAnywhere : ValueGraph → List Call → Prop :=
  EachCall fun graph call => ∀ argument, argument ∈ call.arguments →
    argument ∈ graph.values ∨ argument.owner ≠ graph.owner

instance (graph : ValueGraph) (calls : List Call) : Decidable (graph.CalledFromAnywhere calls) :=
  decidableEachCall graph calls

def AdaptsOwn : ValueGraph → List Call → Prop :=
  EachCall fun graph call => ∀ argument, argument ∈ call.adapted → argument ∈ graph.values

instance (graph : ValueGraph) (calls : List Call) : Decidable (graph.AdaptsOwn calls) :=
  decidableEachCall graph calls

def AskedAfter (calls before : List Call) (request : Request) : Prop :=
  ∃ after, calls = before ++ .ask request :: after

/-- The constraints of a graph mention its own values only, at any depth. -/
def MentionsOwn (graph : ValueGraph) : Prop :=
  ∀ constraint, constraint ∈ graph.constraints.toList →
    ∀ value, constraint.Mentions value → value ∈ graph.values

/-- An adaptation that was asked for has exactly the sides that were given. -/
def AdaptsAsAsked (graph : ValueGraph) (calls : List Call) : Prop :=
  ∀ before adaptation declaration context,
    AskedAfter calls before (.adapted adaptation declaration context) →
      ∃ id, ((graph.run before).answer (.adapted adaptation declaration context)).2 =
        .adapted adaptation graph.owner id declaration context

/-- What is made of another graph's value is not mentioned by the constraints that are
kept in the end. -/
def MixedUnrelated (graph : ValueGraph) (calls : List Call) : Prop :=
  ∀ before adaptation declaration context,
    AskedAfter calls before (.adapted adaptation declaration context) →
      declaration.owner ≠ graph.owner ∨ context.owner ≠ graph.owner →
        let made := ((graph.run before).answer (.adapted adaptation declaration context)).2
        made ∉ (graph.run before).values →
          ∀ constraint, constraint ∈ (graph.run calls).constraints.toList →
            ¬ constraint.Mentions made

/-- Adaptations of one kind that are asked for with the same numbers are asked for with
the same values. -/
def NumbersTellApart (calls : List Call) : Prop :=
  ∀ before adaptation declaration context,
    AskedAfter calls before (.adapted adaptation declaration context) →
      ∀ earlier otherDeclaration otherContext,
        AskedAfter before earlier (.adapted adaptation otherDeclaration otherContext) →
          otherDeclaration.id = declaration.id → otherContext.id = context.id →
            otherDeclaration = declaration ∧ otherContext = context

/-! ## Requests of a sequence of calls -/

theorem AskedAfter.trans (later : AskedAfter calls before request) {other : Request}
    (asked : AskedAfter before earlier other) : AskedAfter calls earlier other := by
  rcases later with ⟨after, rfl⟩
  rcases asked with ⟨between, rfl⟩
  exact ⟨between ++ .ask request :: after, by simp⟩

theorem AskedAfter.concat (asked : AskedAfter calls before request) (last : Call) :
    AskedAfter (calls ++ [last]) before request := by
  rcases asked with ⟨after, rfl⟩
  exact ⟨after ++ [last], by simp⟩

theorem AskedAfter.allowed {allowed : ValueGraph → Call → Prop}
    (asked : AskedAfter calls before request) (called : EachCall allowed graph calls) :
    allowed (graph.run before) (.ask request) := by
  rcases asked with ⟨after, rfl⟩
  exact (eachCall_append.mp called).2.1

theorem AskedAfter.values_subset (graph : ValueGraph) (asked : AskedAfter calls before request) :
    (graph.run before).values ⊆ (graph.run calls).values := by
  rcases asked with ⟨after, rfl⟩
  rw [run_append]
  exact values_subset_run _ _

theorem AskedAfter.answer_mem (graph : ValueGraph) (asked : AskedAfter calls before request) :
    ((graph.run before).answer request).2 ∈ (graph.run calls).values := by
  rcases asked with ⟨after, rfl⟩
  rw [run_append]
  exact values_subset_run _ after ((graph.run before).answer_mem request)

theorem exists_asked (noValues : graph.values = []) (member : value ∈ (graph.run calls).values) :
    ∃ before request, AskedAfter calls before request ∧
      value ∉ (graph.run before).values ∧
        value = request.made (graph.run before).owner (graph.run before).size ∧
          ((graph.run before).answer request).2 = value := by
  induction calls using List.reverseRecOn with
  | nil => simp [noValues] at member
  | append_singleton known last induction =>
      by_cases present : value ∈ (graph.run known).values
      · rcases induction present with ⟨before, request, asked, new, made⟩
        exact ⟨before, request, asked.concat last, new, made⟩
      · rw [run_concat] at member
        cases last with
        | ask request =>
            rcases answer_cases (graph.run known) request with
              ⟨found, -, -, equal⟩ | ⟨-, equal⟩
            · rw [next, equal] at member
              exact absurd member present
            · rw [next, equal] at member
              have itself := (List.mem_append.mp member).resolve_left present
              rw [List.mem_singleton] at itself
              exact ⟨known, request, ⟨[], rfl⟩, present, itself, by rw [equal, itself]⟩
        | relate relation left right =>
            rw [next_relate_values] at member
            exact absurd member present

theorem exists_asked_adapted (noValues : graph.values = [])
    (member : .adapted adaptation owner id declaration context ∈ (graph.run calls).values) :
    ∃ before, AskedAfter calls before (.adapted adaptation declaration context) ∧
      .adapted adaptation owner id declaration context ∉ (graph.run before).values ∧
        ((graph.run before).answer (.adapted adaptation declaration context)).2 =
          .adapted adaptation owner id declaration context := by
  rcases exists_asked noValues member with ⟨before, request, asked, new, made, answered⟩
  cases request with
  | leaf spec => cases made
  | adapted asAdaptation asDeclaration asContext =>
      cases made
      exact ⟨before, asked, new, answered⟩

/-! ## Constraints -/

theorem run_between (noConstraints : graph.constraints.toList = [])
    (called : graph.CalledFromAnywhere calls) :
    ∀ constraint, constraint ∈ (graph.run calls).constraints.toList →
      constraint.Between (graph.run calls).values := by
  refine run_preserves_of_eachCall
    (fun later => ∀ constraint, constraint ∈ later.constraints.toList →
      constraint.Between later.values) ?_ called ?_
  · simp [noConstraints]
  · intro later call between known
    cases call with
    | ask request =>
        rcases answer_frame later request with ⟨values, equal⟩
        intro constraint member
        rw [next, equal] at member
        have sides := between constraint member
        have grown := values_subset_next later (.ask request)
        exact ⟨grown sides.1, grown sides.2⟩
    | relate relation left right =>
        rcases next_relate_cases later relation left right with
          equal | ⟨ownsLeft, ownsRight, equal⟩ <;> rw [equal]
        · exact between
        · have own : ∀ argument, argument ∈ (Call.relate relation left right).arguments →
              later.owns argument = true → argument ∈ later.values := by
            intro argument given owned
            have sameOwner : argument.owner = later.owner := by
              have both := owned
              simp only [owns, Bool.and_eq_true, decide_eq_true_eq] at both
              exact both.1
            exact (known argument given).resolve_right fun foreign => foreign sameOwner
          intro constraint member
          rcases ConstraintSet.mem_or_eq_of_mem_add member with present | new
          · exact between constraint present
          · rw [new]
            exact ⟨own left (by simp) ownsLeft, own right (by simp) ownsRight⟩

theorem mentions_of_mem_parts {inner outer : Value} (mentions : constraint.Mentions outer)
    (below : inner ∈ outer.parts) : constraint.Mentions inner := by
  rcases mentions with ⟨side, isSide, above⟩
  exact ⟨side, isSide, Value.mem_parts_trans below above⟩

/-- A value that the constraints mention has parts of the graph alone, if nothing that
was made of foreign values is mentioned. -/
theorem MixedUnrelated.parts_subset (noValues : graph.values = [])
    (called : graph.CalledFromAnywhere calls) (unrelated : graph.MixedUnrelated calls)
    (kept : constraint ∈ (graph.run calls).constraints.toList)
    (mentions : constraint.Mentions value) (member : value ∈ (graph.run calls).values) :
    value.parts ⊆ (graph.run calls).values := by
  induction value with
  | leaf content =>
      rw [Value.parts, List.cons_subset]
      exact ⟨member, List.nil_subset _⟩
  | adapted adaptation owner id declaration context onDeclaration onContext =>
      rcases exists_asked_adapted noValues member with ⟨before, asked, new, answered⟩
      have given := asked.allowed called
      have ownSides : declaration.owner = graph.owner ∧ context.owner = graph.owner := by
        by_contra foreign
        have mixed := unrelated before adaptation declaration context asked
          (by simpa only [not_and_or] using foreign)
        rw [answered] at mixed
        exact mixed new constraint kept mentions
      have known : ∀ argument, argument ∈ (Request.adapted adaptation declaration context).arguments →
          argument.owner = graph.owner → argument ∈ (graph.run calls).values := by
        intro argument isArgument own
        refine asked.values_subset graph ((given argument isArgument).resolve_right fun foreign => ?_)
        exact foreign (own.trans (graph.run_owner before).symm)
      have declarationBelow : declaration ∈ (Value.adapted adaptation owner id declaration
          context).parts := Value.declaration_mem_parts _
      have contextBelow : context ∈ (Value.adapted adaptation owner id declaration
          context).parts := Value.context_mem_parts _
      rw [Value.parts, List.cons_subset, List.append_subset]
      exact ⟨member,
        onContext (mentions_of_mem_parts mentions contextBelow)
          (known context (by simp) ownSides.2),
        onDeclaration (mentions_of_mem_parts mentions declarationBelow)
          (known declaration (by simp) ownSides.1)⟩

theorem mentionsOwn_iff (noValues : graph.values = [])
    (noConstraints : graph.constraints.toList = []) (called : graph.CalledFromAnywhere calls) :
    (graph.run calls).MentionsOwn ↔ graph.MixedUnrelated calls := by
  have indexed := run_indexed noValues calls
  constructor
  · intro own before adaptation declaration context asked foreign made new constraint kept mentions
    have ownPart : ∀ part, part ∈ made.parts → part.owner = graph.owner := by
      intro part below
      have member := own constraint kept part (mentions_of_mem_parts mentions below)
      exact (indexed.owned part member).trans (graph.run_owner calls)
    rcases answer_cases (graph.run before) (.adapted adaptation declaration context) with
      ⟨known, member, -, equal⟩ | ⟨-, equal⟩
    · refine new ?_
      simpa only [made, equal] using member
    · have shape : made = .adapted adaptation (graph.run before).owner (graph.run before).size
          declaration context := by simp only [made, equal, Request.made]
      rw [shape] at ownPart
      rcases foreign with foreign | foreign
      · exact foreign (ownPart declaration (Value.declaration_mem_parts _))
      · exact foreign (ownPart context (Value.context_mem_parts _))
  · intro unrelated constraint kept value mentions
    rcases mentions with ⟨side, isSide, below⟩
    have sides := run_between noConstraints called constraint kept
    have member : side ∈ (graph.run calls).values := by
      rcases isSide with rfl | rfl
      · exact sides.1
      · exact sides.2
    exact unrelated.parts_subset noValues called kept
      ⟨side, isSide, side.mem_parts_self⟩ member below

/-! ## Answers -/

theorem adaptsAsAsked_iff (noValues : graph.values = []) :
    graph.AdaptsAsAsked calls ↔ NumbersTellApart calls := by
  constructor
  · intro asAsked before adaptation declaration context asked earlier otherDeclaration otherContext
      askedBefore sameDeclaration sameContext
    rcases asAsked before adaptation declaration context asked with ⟨id, answered⟩
    rcases asAsked earlier adaptation otherDeclaration otherContext (asked.trans askedBefore) with
      ⟨otherId, answeredBefore⟩
    have known := askedBefore.answer_mem graph
    rw [answeredBefore] at known
    have fitting : (Request.adapted adaptation declaration context).fits
        (.adapted adaptation graph.owner otherId otherDeclaration otherContext) = true :=
      Request.fits_adapted_iff.mpr ⟨_, _, _, _, rfl, sameDeclaration, sameContext⟩
    rw [(run_indexed noValues before).answer_of_fits known fitting] at answered
    cases answered
    exact ⟨rfl, rfl⟩
  · intro apart before adaptation declaration context asked
    rcases answer_cases (graph.run before) (.adapted adaptation declaration context) with
      ⟨known, member, fitting, equal⟩ | ⟨-, equal⟩
    · rcases Request.fits_adapted_iff.mp fitting with
        ⟨owner, id, knownDeclaration, knownContext, rfl, sameDeclaration, sameContext⟩
      rcases exists_asked_adapted noValues member with ⟨earlier, askedBefore, -, -⟩
      have same := apart before adaptation declaration context asked earlier knownDeclaration
        knownContext askedBefore sameDeclaration sameContext
      have ownOwner : owner = (graph.run before).owner :=
        (run_indexed noValues before).owned _ member
      rw [equal, same.1, same.2, ownOwner, run_owner]
      exact ⟨id, rfl⟩
    · exact ⟨(graph.run before).size, by rw [equal, ← graph.run_owner before]; rfl⟩

theorem AdaptsOwn.mixedUnrelated (noValues : graph.values = []) (own : graph.AdaptsOwn calls) :
    graph.MixedUnrelated calls := by
  intro before adaptation declaration context asked foreign
  have given := asked.allowed own
  have owned := (run_indexed noValues before).owned
  rw [run_owner] at owned
  rcases foreign with foreign | foreign
  · exact absurd (owned declaration (given declaration (by simp))) foreign
  · exact absurd (owned context (given context (by simp))) foreign

theorem AdaptsOwn.numbersTellApart (noValues : graph.values = []) (own : graph.AdaptsOwn calls) :
    NumbersTellApart calls := by
  intro before adaptation declaration context asked earlier otherDeclaration otherContext
    askedBefore sameDeclaration sameContext
  have given := asked.allowed own
  have givenBefore := (asked.trans askedBefore).allowed own
  have indexed := run_indexed noValues before
  constructor
  · refine indexed.eq_of_id_eq (askedBefore.values_subset graph (givenBefore otherDeclaration ?_))
      (given declaration ?_) sameDeclaration <;> simp
  · refine indexed.eq_of_id_eq (askedBefore.values_subset graph (givenBefore otherContext ?_))
      (given context ?_) sameContext <;> simp

/-- Of a graph that is called with its own values and those of other graphs: the
constraints that it keeps lie between its own values. They mention its own values alone
exactly if they mention nothing that it made of another graph's value, and its
adaptations are as they were asked for exactly if numbers tell apart what was asked for.
Where only its own values are adapted, both are true. -/
theorem ownership_iff (noValues : graph.values = [])
    (noConstraints : graph.constraints.toList = []) (called : graph.CalledFromAnywhere calls) :
    (∀ constraint, constraint ∈ (graph.run calls).constraints.toList →
        constraint.Between (graph.run calls).values) ∧
      ((graph.run calls).MentionsOwn ↔ graph.MixedUnrelated calls) ∧
      (graph.AdaptsAsAsked calls ↔ NumbersTellApart calls) ∧
      (graph.AdaptsOwn calls → (graph.run calls).MentionsOwn ∧ graph.AdaptsAsAsked calls) := by
  have mentions := mentionsOwn_iff noValues noConstraints called
  have answers := @adaptsAsAsked_iff graph calls noValues
  refine ⟨run_between noConstraints called, mentions, answers, fun own => ?_⟩
  exact ⟨mentions.mpr (own.mixedUnrelated noValues), answers.mpr (own.numbersTellApart noValues)⟩

/-- What is read from an object flows back to it. Before that, a flow of the field to a
value of another graph is refused. -/
theorem ownership_iff_refusedFlow :
    let field := Value.leaf (LeafSpec.leaf { identifier := "f", kind := .field } 0 0)
    let object := Value.leaf (LeafSpec.leaf { identifier := "o" } 0 1)
    let read := Value.adapted .field 0 2 field object
    let foreign := Value.leaf (LeafSpec.leaf { identifier := "b" } 1 0)
    let calls : List Call :=
      [.ask (.leaf { identifier := "f", kind := .field }), .ask (.leaf { identifier := "o" }),
        .relate .subtype field foreign, .ask (.adapted .field field object),
        .relate .subtype read object]
    let graph : ValueGraph := {}
    graph.values = [] ∧ graph.constraints.toList = [] ∧ graph.CalledFromAnywhere calls ∧
      graph.AdaptsOwn calls ∧ (graph.run calls).constraints.size = 1 ∧
      (graph.run calls).MentionsOwn ∧ graph.AdaptsAsAsked calls := by
  intro field object read foreign calls graph
  have called : graph.CalledFromAnywhere calls := by decide
  have own : graph.AdaptsOwn calls := by decide
  have ownership := @ownership_iff graph calls rfl rfl called
  exact ⟨rfl, rfl, called, own, by decide, ownership.2.2.2 own⟩

/-- A value of another graph is observed through one of this graph with the same number,
and the two are related. The value that was made is found again when the own value is to
be observed through itself. -/
theorem foreignDeclaration_mixed :
    let own := Value.leaf (LeafSpec.leaf { identifier := "a", declared := .only .clear } 0 0)
    let foreign := Value.leaf (LeafSpec.leaf { identifier := "b" } 1 0)
    let mixed := Value.adapted .field 0 1 foreign own
    let calls : List Call :=
      [.ask (.leaf { identifier := "a", declared := .only .clear }),
        .ask (.adapted .field foreign own), .relate .subtype mixed own,
        .ask (.adapted .field own own)]
    let graph : ValueGraph := {}
    graph.CalledFromAnywhere calls ∧ ¬ (graph.run calls).MentionsOwn ∧
      ¬ graph.AdaptsAsAsked calls := by
  intro own foreign mixed calls graph
  refine ⟨by decide, fun mentionsOwn => ?_, fun asAsked => ?_⟩
  · have member : foreign ∈ (graph.run calls).values :=
      mentionsOwn { relation := .subtype, left := mixed, right := own } (by decide) foreign
        ⟨mixed, .inl rfl, by decide⟩
    revert member
    decide
  · rcases asAsked (calls.take 3) .field own own ⟨[], rfl⟩ with ⟨id, answered⟩
    have found : ((graph.run (calls.take 3)).answer (.adapted .field own own)).2 = mixed := by
      decide
    rw [found] at answered
    have same : foreign = own := congrArg Value.declaration answered
    revert same
    decide

end InfoFlow.ValueGraph
