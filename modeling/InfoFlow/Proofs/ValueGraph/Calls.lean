import Mathlib.Data.List.Induction
import InfoFlow.Proofs.WellFormed

/-! Sequences of calls of a graph.

A graph looks for what it is asked for among its values, and makes it only if it is
not there. So leaves and adaptations are found or made in one way, and a request does
one of two things. A call is a request or relates two values, which leaves the values
as they are. What each call keeps is kept by any sequence of calls. -/

namespace InfoFlow

inductive Request
  | leaf (spec : LeafSpec)
  | adapted (adaptation : Adaptation) (declaration context : Value)

namespace Request

variable {request other : Request} {owner id : Nat} {value : Value}

@[simp] def arguments : Request → List Value
  | leaf _ => []
  | adapted _ declaration context => [declaration, context]

def fits : Request → Value → Bool
  | leaf spec, .leaf known => decide (known.identifier = spec.identifier)
  | leaf _, .adapted _ _ _ _ _ => false
  | adapted adaptation declaration context, value =>
      ValueGraph.isAdaptationOf adaptation declaration context value

def made (owner id : Nat) : Request → Value
  | leaf spec => .leaf (spec.leaf owner id)
  | adapted adaptation declaration context =>
      .adapted adaptation owner id declaration context

@[simp] theorem made_id (request : Request) : (request.made owner id).id = id := by
  cases request <;> rfl

@[simp] theorem made_owner (request : Request) : (request.made owner id).owner = owner := by
  cases request <;> rfl

@[simp] theorem fits_made (request : Request) (owner id : Nat) :
    request.fits (request.made owner id) = true := by
  cases request <;> simp [fits, made, LeafSpec.leaf, ValueGraph.isAdaptationOf]

theorem fits_of_fits_made (alike : other.fits (request.made owner id) = true)
    (fitting : other.fits value = true) : request.fits value = true := by
  cases request with
  | leaf spec =>
      cases other with
      | leaf otherSpec =>
          cases value with
          | leaf known => simp_all [fits, made, LeafSpec.leaf]
          | adapted adaptation owner id declaration context => cases fitting
      | adapted adaptation declaration context => cases alike
  | adapted adaptation declaration context =>
      cases other with
      | leaf otherSpec => cases alike
      | adapted otherAdaptation otherDeclaration otherContext =>
          cases value with
          | leaf known => cases fitting
          | adapted valueAdaptation valueOwner valueId valueDeclaration valueContext =>
              simp_all [fits, made, ValueGraph.isAdaptationOf, Value.same]

theorem fits_adapted_iff {adaptation : Adaptation} {declaration context : Value} :
    (adapted adaptation declaration context).fits value = true ↔
      ∃ owner id knownDeclaration knownContext,
        value = .adapted adaptation owner id knownDeclaration knownContext ∧
          knownDeclaration.id = declaration.id ∧ knownContext.id = context.id := by
  cases value with
  | leaf known => simp [fits, ValueGraph.isAdaptationOf]
  | adapted other owner id knownDeclaration knownContext =>
      simp [fits, ValueGraph.isAdaptationOf, Value.same, and_assoc]

end Request

/-- A call of a graph: for a value, or to relate two values by a constraint. -/
inductive Call
  | ask (request : Request)
  | relate (relation : Relation) (left right : Value)

@[simp] def Call.arguments : Call → List Value
  | ask request => request.arguments
  | relate _ left right => [left, right]

@[simp] def Call.adapted : Call → List Value
  | ask request => request.arguments
  | relate _ _ _ => []

namespace ValueGraph

variable {graph : ValueGraph} {request : Request} {value : Value} {call : Call}
  {calls before after : List Call} {allowed : ValueGraph → Call → Prop}

theorem mem_leaves {leaf : Leaf} : leaf ∈ graph.leaves ↔ .leaf leaf ∈ graph.values := by
  constructor
  · intro member
    rcases List.mem_filterMap.mp member with ⟨value, present, isLeaf⟩
    cases value with
    | leaf content =>
        cases isLeaf
        exact present
    | adapted adaptation owner id declaration context => cases isLeaf
  · exact fun present => List.mem_filterMap.mpr ⟨.leaf leaf, present, rfl⟩

/-! ## Requests -/

def enlarge (graph : ValueGraph) (made : Value) : ValueGraph :=
  { graph with values := graph.values ++ [made] }

def answer (graph : ValueGraph) : Request → ValueGraph × Value
  | .leaf spec => graph.intern spec
  | .adapted adaptation declaration context => graph.adapt adaptation declaration context

theorem answer_cases (graph : ValueGraph) (request : Request) :
    (∃ known, known ∈ graph.values ∧ request.fits known = true ∧
        graph.answer request = (graph, known)) ∨
      (∀ value, value ∈ graph.values → request.fits value = false) ∧
        graph.answer request = (graph.enlarge (request.made graph.owner graph.size),
          request.made graph.owner graph.size) := by
  cases request with
  | leaf spec =>
      rw [answer, intern]
      split
      · next known search =>
          refine .inl ⟨.leaf known, mem_leaves.mp (List.mem_of_find?_eq_some search), ?_, rfl⟩
          simpa [Request.fits] using List.find?_some search
      · next search =>
          refine .inr ⟨fun value member => ?_, rfl⟩
          cases value with
          | leaf known =>
              simpa [Request.fits] using List.find?_eq_none.mp search known (mem_leaves.mpr member)
          | adapted adaptation owner id declaration context => rfl
  | adapted adaptation declaration context =>
      rw [answer, adapt]
      split
      · next known search =>
          exact .inl ⟨known, List.mem_of_find?_eq_some search, List.find?_some search, rfl⟩
      · next search =>
          refine .inr ⟨fun value member => ?_, rfl⟩
          exact Bool.eq_false_iff.mpr (List.find?_eq_none.mp search value member)

theorem answer_frame (graph : ValueGraph) (request : Request) :
    ∃ values, (graph.answer request).1 = { graph with values } := by
  rcases answer_cases graph request with ⟨known, -, -, equal⟩ | ⟨-, equal⟩ <;> rw [equal]
  · exact ⟨graph.values, rfl⟩
  · exact ⟨_, rfl⟩

theorem answer_fits (graph : ValueGraph) (request : Request) :
    request.fits (graph.answer request).2 = true := by
  rcases answer_cases graph request with ⟨known, -, fitting, equal⟩ | ⟨-, equal⟩ <;> rw [equal]
  · exact fitting
  · exact request.fits_made _ _

theorem answer_mem (graph : ValueGraph) (request : Request) :
    (graph.answer request).2 ∈ (graph.answer request).1.values := by
  rcases answer_cases graph request with ⟨known, member, -, equal⟩ | ⟨-, equal⟩ <;> rw [equal]
  · exact member
  · simp [enlarge]

theorem answer_values (graph : ValueGraph) (request : Request) :
    (graph.answer request).1.values =
      if (graph.answer request).2 ∈ graph.values then graph.values
      else graph.values ++ [(graph.answer request).2] := by
  rcases answer_cases graph request with ⟨known, member, -, equal⟩ | ⟨unfit, equal⟩
  · rw [equal, if_pos member]
  · rw [equal, if_neg]
    · rfl
    · intro member
      have fitting := request.fits_made graph.owner graph.size
      rw [unfit _ member] at fitting
      cases fitting

/-! ## Calls -/

/-- The graph after a call. If a constraint is refused, it stays as it was. -/
def next (graph : ValueGraph) : Call → ValueGraph
  | .ask request => (graph.answer request).1
  | .relate relation left right => (graph.add relation left right).toOption.getD graph

def answered (graph : ValueGraph) : Call → List Value
  | .ask request => [(graph.answer request).2]
  | .relate _ _ _ => []

def run (graph : ValueGraph) (calls : List Call) : ValueGraph :=
  calls.foldl next graph

def answers : ValueGraph → List Call → List Value
  | _, [] => []
  | graph, call :: rest => graph.answered call ++ (graph.next call).answers rest

def EachCall (allowed : ValueGraph → Call → Prop) : ValueGraph → List Call → Prop
  | _, [] => True
  | graph, call :: rest => allowed graph call ∧ EachCall allowed (graph.next call) rest

/-- Every call is made with values that the graph answered with before. -/
def CalledWithOwn : ValueGraph → List Call → Prop :=
  EachCall fun graph call => ∀ argument, argument ∈ call.arguments → argument ∈ graph.values

instance decidableEachCall [∀ graph call, Decidable (allowed graph call)] :
    ∀ (graph : ValueGraph) (calls : List Call), Decidable (EachCall allowed graph calls)
  | _, [] => isTrue trivial
  | graph, call :: rest =>
      @instDecidableAnd _ _ inferInstance (decidableEachCall (graph.next call) rest)

instance (graph : ValueGraph) (calls : List Call) : Decidable (graph.CalledWithOwn calls) :=
  decidableEachCall graph calls

@[simp] theorem run_nil (graph : ValueGraph) : graph.run [] = graph := rfl

theorem run_append (graph : ValueGraph) (before after : List Call) :
    graph.run (before ++ after) = (graph.run before).run after :=
  List.foldl_append

@[simp] theorem run_concat (graph : ValueGraph) (calls : List Call) (call : Call) :
    graph.run (calls ++ [call]) = (graph.run calls).next call :=
  graph.run_append calls [call]

theorem answers_concat (graph : ValueGraph) (calls : List Call) (call : Call) :
    graph.answers (calls ++ [call]) = graph.answers calls ++ (graph.run calls).answered call := by
  induction calls generalizing graph with
  | nil => simp [answers]
  | cons first rest induction =>
      rw [List.cons_append, answers, answers, induction, List.append_assoc]
      rfl

theorem eachCall_append : EachCall allowed graph (before ++ after) ↔
    EachCall allowed graph before ∧ EachCall allowed (graph.run before) after := by
  induction before generalizing graph with
  | nil => simp [EachCall]
  | cons first rest induction =>
      rw [List.cons_append, EachCall, EachCall, induction, and_assoc]
      rfl

theorem eachCall_concat : EachCall allowed graph (calls ++ [call]) ↔
    EachCall allowed graph calls ∧ allowed (graph.run calls) call := by
  simp [eachCall_append, EachCall]

theorem run_preserves (Holds : ValueGraph → Prop) (initially : Holds graph)
    (kept : ∀ (graph : ValueGraph) (call : Call), Holds graph → Holds (graph.next call))
    (calls : List Call) : Holds (graph.run calls) := by
  induction calls using List.reverseRecOn with
  | nil => exact initially
  | append_singleton earlier last induction =>
      rw [run_concat]
      exact kept _ last induction

theorem run_preserves_of_eachCall (Holds : ValueGraph → Prop) (initially : Holds graph)
    (called : EachCall allowed graph calls)
    (kept : ∀ (graph : ValueGraph) (call : Call), Holds graph → allowed graph call →
      Holds (graph.next call)) : Holds (graph.run calls) := by
  induction calls using List.reverseRecOn with
  | nil => exact initially
  | append_singleton earlier last induction =>
      have both := eachCall_concat.mp called
      rw [run_concat]
      exact kept _ last (induction both.1) both.2

theorem next_relate_cases (graph : ValueGraph) (relation : Relation) (left right : Value) :
    graph.next (.relate relation left right) = graph ∨
      graph.owns left = true ∧ graph.owns right = true ∧
        graph.next (.relate relation left right) =
          { graph with constraints := graph.constraints.add { relation, left, right } } := by
  simp only [next, add]
  split
  · exact .inl rfl
  · split
    · exact .inl rfl
    · next ownLeft =>
        split
        · exact .inl rfl
        · next ownRight => exact .inr ⟨by simpa using ownLeft, by simpa using ownRight, rfl⟩

theorem next_relate_values (graph : ValueGraph) (relation : Relation) (left right : Value) :
    (graph.next (.relate relation left right)).values = graph.values := by
  rcases next_relate_cases graph relation left right with equal | ⟨-, -, equal⟩ <;> rw [equal]

theorem next_frame (graph : ValueGraph) (call : Call) :
    ∃ values constraints, graph.next call = { graph with values, constraints } := by
  cases call with
  | ask request =>
      rcases answer_frame graph request with ⟨values, equal⟩
      exact ⟨values, graph.constraints, equal⟩
  | relate relation left right =>
      rcases next_relate_cases graph relation left right with equal | ⟨-, -, equal⟩ <;> rw [equal]
      · exact ⟨graph.values, graph.constraints, rfl⟩
      · exact ⟨graph.values, _, rfl⟩

theorem run_frame (graph : ValueGraph) (calls : List Call) :
    ∃ values constraints, graph.run calls = { graph with values, constraints } := by
  refine run_preserves (fun later => ∃ values constraints, later =
    { graph with values, constraints }) ⟨graph.values, graph.constraints, rfl⟩ ?_ calls
  rintro later call ⟨values, constraints, rfl⟩
  exact next_frame _ call

theorem run_owner (graph : ValueGraph) (calls : List Call) :
    (graph.run calls).owner = graph.owner := by
  rcases graph.run_frame calls with ⟨values, constraints, equal⟩
  rw [equal]

theorem run_readOnly (graph : ValueGraph) (calls : List Call) :
    (graph.run calls).readOnly = graph.readOnly := by
  rcases graph.run_frame calls with ⟨values, constraints, equal⟩
  rw [equal]

theorem values_subset_next (graph : ValueGraph) (call : Call) :
    graph.values ⊆ (graph.next call).values := by
  cases call with
  | ask request =>
      rw [next, answer_values]
      split
      · exact List.Subset.refl _
      · exact List.subset_append_left _ _
  | relate relation left right =>
      rw [next_relate_values]
      exact List.Subset.refl _

theorem values_subset_run (graph : ValueGraph) (calls : List Call) :
    graph.values ⊆ (graph.run calls).values :=
  run_preserves (fun later => graph.values ⊆ later.values) (List.Subset.refl _)
    (fun later call known => List.Subset.trans known (later.values_subset_next call)) calls

/-- A graph that began without values has those that it answered with, in the order
in which they were first answers. -/
theorem run_values (noValues : graph.values = []) (calls : List Call) :
    (graph.run calls).values = (graph.answers calls).eraseDups := by
  induction calls using List.reverseRecOn with
  | nil => exact noValues
  | append_singleton earlier last induction =>
      rw [run_concat, answers_concat, List.eraseDups_append, ← induction]
      cases last with
      | ask request =>
          have known : (graph.run earlier).values.Subset (graph.answers earlier) := by
            intro value member
            rw [induction] at member
            exact List.mem_eraseDups.mp member
          rw [next, answer_values, answered]
          by_cases present : ((graph.run earlier).answer request).2 ∈ graph.answers earlier
          · rw [if_pos (by rw [induction]; exact List.mem_eraseDups.mpr present)]
            simp [List.removeAll, present]
          · rw [if_neg fun member => present (known member)]
            simp [List.removeAll, present, List.eraseDups_cons]
      | relate relation left right => simp [next_relate_values, answered, List.removeAll]

/-! ## Graphs that are built -/

/-- Calls with the graph's own values lead to it, from one that has neither values nor
constraints. -/
def ReachedByCalls (graph : ValueGraph) : Prop :=
  ∃ (start : ValueGraph) (calls : List Call), start.values = [] ∧
    start.constraints.toList = [] ∧ start.CalledWithOwn calls ∧ start.run calls = graph

theorem ReachedByCalls.next (reached : graph.ReachedByCalls) (call : Call)
    (known : ∀ argument, argument ∈ call.arguments → argument ∈ graph.values) :
    (graph.next call).ReachedByCalls := by
  rcases reached with ⟨start, calls, noValues, noConstraints, called, rfl⟩
  exact ⟨start, calls ++ [call], noValues, noConstraints, eachCall_concat.mpr ⟨called, known⟩,
    start.run_concat calls call⟩

theorem Built.next (built : graph.Built)
    (known : ∀ argument, argument ∈ call.arguments → argument ∈ graph.values) :
    (graph.next call).Built := by
  cases call with
  | ask request =>
      cases request with
      | leaf spec => exact built.intern spec
      | adapted adaptation declaration context =>
          exact built.adapt adaptation (known declaration (by simp)) (known context (by simp))
  | relate relation left right =>
      rw [ValueGraph.next]
      cases added : graph.add relation left right with
      | error problem => exact built
      | ok later =>
          exact built.add (known left (by simp)) (known right (by simp)) added

/-- The graphs that are built step by step are those that calls lead to. -/
theorem built_iff_reachedByCalls : graph.Built ↔ graph.ReachedByCalls := by
  constructor
  · intro built
    induction built with
    | @empty graph noValues noConstraints =>
        exact ⟨graph, [], noValues, noConstraints, trivial, rfl⟩
    | intern built spec reached =>
        exact reached.next (.ask (.leaf spec)) (by simp)
    | adapt built adaptation declarationMember contextMember reached =>
        exact reached.next (.ask (.adapted adaptation _ _))
          (by simp [declarationMember, contextMember])
    | @add _ later built relation left right leftMember rightMember added reached =>
        have afterCall := reached.next (.relate relation left right)
          (by simp [leftMember, rightMember])
        rw [ValueGraph.next, added] at afterCall
        exact afterCall
  · rintro ⟨start, calls, noValues, noConstraints, called, rfl⟩
    exact run_preserves_of_eachCall Built (.empty noValues noConstraints) called
      fun later call built known => built.next known

end ValueGraph

end InfoFlow
