import Mathlib.Data.List.MinMax
import InfoFlow.Proofs.ValueGraph.Arena

/-! Which declaration decides whether a value is read-only.

How a failure is treated depends on the declarations that are left when all contexts
are taken away. Whether a value is read-only is decided one step down. What is declared
there may be an adaptation itself, and then it is looked for by an identifier that
names its contexts too. A list of identifiers cannot have them all. -/

namespace InfoFlow

namespace Value

/-- What a value is observed through, one context for each step to its innermost
declaration, the outermost first. -/
def viewpoints : Value → List Value
  | leaf _ => []
  | adapted _ _ _ declaration context => context :: declaration.viewpoints

def seenThrough (contexts : List Value) (identifier : String) : String :=
  contexts.foldr (fun context inner => context.identifier ++ "|>" ++ inner) identifier

theorem identifier_eq_seenThrough (value : Value) :
    value.identifier = seenThrough value.viewpoints value.innermostDeclaration.identifier := by
  induction value with
  | leaf content => rfl
  | adapted adaptation owner id declaration context onDeclaration onContext =>
      rw [identifier, onDeclaration]
      rfl

@[simp] theorem viewpoints_declaration (value : Value) :
    value.declaration.viewpoints = value.viewpoints.tail := by
  cases value <;> rfl

@[simp] theorem innermostDeclaration_declaration (value : Value) :
    value.declaration.innermostDeclaration = value.innermostDeclaration := by
  cases value <;> rfl

theorem isNull_innermostDeclaration (value : Value) :
    (leaf value.innermostDeclaration).isNull = value.isNull := by
  induction value with
  | leaf content => rfl
  | adapted adaptation owner id declaration context onDeclaration onContext =>
      exact onDeclaration

theorem iterate_declaration (value : Value) :
    Value.declaration^[value.viewpoints.length] value = leaf value.innermostDeclaration := by
  induction value with
  | leaf content => rfl
  | adapted adaptation owner id declaration context onDeclaration onContext =>
      rw [viewpoints, List.length_cons, Function.iterate_succ_apply]
      exact onDeclaration

end Value

namespace ReadOnly

/-- An oracle says the same of an identifier and of what has it, seen through a context. -/
def IgnoresContexts (oracle : ReadOnly) : Prop :=
  ∀ context identifier : String,
    oracle.covers (context ++ "|>" ++ identifier) = oracle.covers identifier

theorem IgnoresContexts.covers_seenThrough {oracle : ReadOnly} (ignores : oracle.IgnoresContexts)
    (contexts : List Value) (identifier : String) :
    oracle.covers (Value.seenThrough contexts identifier) = oracle.covers identifier := by
  induction contexts with
  | nil => rfl
  | cons context rest induction => exact (ignores _ _).trans induction

/-- The longest identifier of a list is not on it as seen through a context. -/
theorem only_ignoresContexts_iff (identifiers : List String) :
    (only identifiers).IgnoresContexts ↔ identifiers = [] := by
  constructor
  · intro ignores
    cases found : identifiers.argmax String.length with
    | none => exact List.argmax_eq_none.mp found
    | some longest =>
        have member := List.argmax_mem found
        have seen := ignores "" longest
        simp only [only, member, decide_true, decide_eq_true_eq] at seen
        have bounded := List.le_of_mem_argmax seen found
        have separator : "|>".length = 2 := by decide
        rw [String.length_append, String.length_append, separator] at bounded
        omega
  · rintro rfl context identifier
    simp [only]

end ReadOnly

namespace ValueGraph

variable {graph : ValueGraph} {value : Value}

theorem isReadOnly_eq (graph : ValueGraph) (value : Value) :
    graph.isReadOnly value = ((Value.leaf value.innermostDeclaration).isNull ||
      graph.readOnly.covers (Value.seenThrough value.viewpoints.tail
        value.innermostDeclaration.identifier)) := by
  rw [isReadOnly, ← Value.isNull_innermostDeclaration, Value.identifier_eq_seenThrough,
    Value.innermostDeclaration_declaration, Value.viewpoints_declaration]

def FollowsDeclaration (graph : ValueGraph) (value : Value) : Prop :=
  graph.isReadOnly value = graph.isReadOnly (.leaf value.innermostDeclaration)

theorem followsDeclaration_iff_covers : graph.FollowsDeclaration value ↔
    (Value.leaf value.innermostDeclaration).isNull = true ∨
      graph.readOnly.covers (Value.seenThrough value.viewpoints.tail
          value.innermostDeclaration.identifier) =
        graph.readOnly.covers value.innermostDeclaration.identifier := by
  have plain : graph.isReadOnly (.leaf value.innermostDeclaration) =
      ((Value.leaf value.innermostDeclaration).isNull ||
        graph.readOnly.covers value.innermostDeclaration.identifier) := rfl
  rw [FollowsDeclaration, isReadOnly_eq, plain]
  cases (Value.leaf value.innermostDeclaration).isNull <;> simp

/-! ## What an oracle says of all graphs -/

theorem exists_observed (noValues : graph.values = []) {calls : List Call}
    (called : graph.CalledWithOwn calls) {declaration context : Value}
    (declarationMember : declaration ∈ (graph.run calls).values)
    (contextMember : context ∈ (graph.run calls).values) :
    ∃ call, graph.CalledWithOwn (calls ++ [call]) ∧
      ∃ value, value ∈ (graph.run (calls ++ [call])).values ∧
        value.innermostDeclaration = declaration.innermostDeclaration ∧
        value.viewpoints = context :: declaration.viewpoints := by
  let request : Request := .adapted .field declaration context
  rcases (run_descending noValues called).answer_adapted (run_indexed noValues calls)
    .field declarationMember contextMember with ⟨id, answered⟩
  have answerMember := (graph.run calls).answer_mem request
  rw [answered] at answerMember
  refine ⟨.ask request, eachCall_concat.mpr ⟨called, ?_⟩,
    .adapted .field (graph.run calls).owner id declaration context, ?_, rfl, rfl⟩
  · simp [request, declarationMember, contextMember]
  · rw [run_concat]
    exact answerMember

/-- A graph without values can be asked for a leaf and for the same seen twice through
a leaf with any identifier. -/
theorem exists_observed_twice (noValues : graph.values = []) (context identifier : String) :
    ∃ calls, graph.CalledWithOwn calls ∧ ∃ value, value ∈ (graph.run calls).values ∧
      value.innermostDeclaration = LeafSpec.leaf { identifier } graph.owner 0 ∧
      ∃ contextLeaf : Leaf, contextLeaf.identifier = context ∧
        value.viewpoints = [.leaf contextLeaf, .leaf contextLeaf] := by
  let first : Call := .ask (.leaf { identifier })
  let second : Call := .ask (.leaf { identifier := context })
  have called : graph.CalledWithOwn [first, second] := by
    simp [CalledWithOwn, EachCall, first, second]
  have declarationMember : .leaf (LeafSpec.leaf { identifier } graph.owner 0) ∈
      (graph.run [first, second]).values := by
    refine values_subset_next (graph.run [first]) second ?_
    rw [run_values noValues]
    simp [answers, answered, answer, intern, lookup?, leaves, size, noValues, first,
      List.eraseDups_cons]
  have contextMember : ∃ contextLeaf : Leaf, contextLeaf.identifier = context ∧
      .leaf contextLeaf ∈ (graph.run [first, second]).values := by
    have fitting := (graph.run [first]).answer_fits (.leaf { identifier := context })
    have member := (graph.run [first]).answer_mem (.leaf { identifier := context })
    cases answered : ((graph.run [first]).answer (.leaf { identifier := context })).2 with
    | leaf contextLeaf =>
        rw [answered] at fitting member
        exact ⟨contextLeaf, by simpa [Request.fits] using fitting, member⟩
    | adapted adaptation owner id declaration context =>
        rw [answered] at fitting
        cases fitting
  rcases contextMember with ⟨contextLeaf, named, contextMember⟩
  rcases exists_observed noValues called declarationMember contextMember with
    ⟨third, calledOnce, once, onceMember, onceInnermost, onceViewpoints⟩
  have contextStays := values_subset_next (graph.run [first, second]) third contextMember
  rw [← run_concat] at contextStays
  rcases exists_observed noValues calledOnce onceMember contextStays with
    ⟨fourth, calledTwice, twice, twiceMember, twiceInnermost, twiceViewpoints⟩
  refine ⟨_, calledTwice, twice, twiceMember, twiceInnermost.trans onceInnermost, contextLeaf,
    named, ?_⟩
  rw [twiceViewpoints, onceViewpoints]
  rfl

/-- All values of all graphs with the read-only identifiers of this one follow their
innermost declarations. -/
def AllFollowDeclarations (graph : ValueGraph) : Prop :=
  ∀ (start : ValueGraph) (calls : List Call), start.values = [] →
    start.readOnly = graph.readOnly → start.CalledWithOwn calls →
      ∀ value, value ∈ (start.run calls).values → (start.run calls).FollowsDeclaration value

theorem allFollowDeclarations_iff :
    graph.AllFollowDeclarations ↔ graph.readOnly.IgnoresContexts := by
  constructor
  · intro follow context identifier
    let start : ValueGraph := { readOnly := graph.readOnly }
    rcases @exists_observed_twice start rfl context identifier with
      ⟨calls, called, value, member, innermost, contextLeaf, named, viewpoints⟩
    have follows := followsDeclaration_iff_covers.mp (follow start calls rfl rfl called value member)
    rw [run_readOnly, innermost, viewpoints] at follows
    rcases follows with null | alike
    · cases null
    · rw [← named]
      exact alike
  · intro ignores start calls noValues sameOracle called value member
    rw [followsDeclaration_iff_covers, run_readOnly, sameOracle]
    exact .inr (ignores.covers_seenThrough _ _)

theorem failureStatus_innermostDeclaration (noPolicy : graph.failurePolicy = none)
    (constraint : Constraint) : graph.failureStatus constraint =
      graph.failureStatus { constraint with
        left := .leaf constraint.left.innermostDeclaration
        right := .leaf constraint.right.innermostDeclaration } := by
  simp [failureStatus, noPolicy, Value.innermostDeclaration]

/-- A value is as read-only as its innermost declaration, to which the treatment of
failures goes back too, exactly if its type is null or the read-only identifiers answer
alike for that declaration and for the same seen through all contexts but the first.
So one context never matters. Through more of them all values of all graphs follow
their declarations only if what is read-only is so through every context. A list of
identifiers is like that only if it is empty. -/
theorem readOnly_followsDeclaration_iff (graph : ValueGraph) (value : Value) :
    Value.declaration^[value.viewpoints.length] value = .leaf value.innermostDeclaration ∧
      (graph.FollowsDeclaration value ↔
        (Value.leaf value.innermostDeclaration).isNull = true ∨
          graph.readOnly.covers (Value.seenThrough value.viewpoints.tail
              value.innermostDeclaration.identifier) =
            graph.readOnly.covers value.innermostDeclaration.identifier) ∧
      (value.viewpoints.length ≤ 1 → graph.FollowsDeclaration value) ∧
      (graph.AllFollowDeclarations ↔ graph.readOnly.IgnoresContexts) ∧
      (∀ identifiers, (ReadOnly.only identifiers).IgnoresContexts ↔ identifiers = []) ∧
      (graph.failurePolicy = none → ∀ constraint : Constraint,
        graph.failureStatus constraint = graph.failureStatus { constraint with
          left := .leaf constraint.left.innermostDeclaration
          right := .leaf constraint.right.innermostDeclaration }) := by
  refine ⟨value.iterate_declaration, followsDeclaration_iff_covers, ?_,
    allFollowDeclarations_iff, ReadOnly.only_ignoresContexts_iff,
    failureStatus_innermostDeclaration⟩
  intro single
  have direct : value.viewpoints.tail = [] := by
    apply List.eq_nil_of_length_eq_zero
    rw [List.length_tail]
    omega
  rw [followsDeclaration_iff_covers, direct]
  exact .inr rfl

theorem readOnly_followsDeclaration_iff_read :
    let field := Value.leaf (LeafSpec.leaf { identifier := "f", kind := .field } 0 0)
    let object := Value.leaf (LeafSpec.leaf { identifier := "o" } 0 1)
    let read := Value.adapted .field 0 2 field object
    let graph : ValueGraph := { values := [field, object, read], readOnly := .only ["f"] }
    read.viewpoints.length ≤ 1 ∧ graph.FollowsDeclaration read ∧
      graph.isReadOnly read = true := by
  intro field object read graph
  have single : read.viewpoints.length ≤ 1 := by decide
  exact ⟨single, (readOnly_followsDeclaration_iff graph read).2.2.1 single, by decide⟩

/-- What is read from one object, observed through another one, is looked for as the
field of the first, which is not on the list. -/
theorem readOnlyField_forgotten :
    let field := Value.leaf (LeafSpec.leaf { identifier := "f", kind := .field } 0 0)
    let object := Value.leaf (LeafSpec.leaf { identifier := "x" } 0 1)
    let other := Value.leaf (LeafSpec.leaf { identifier := "y" } 0 2)
    let read := Value.adapted .field 0 3 field object
    let again := Value.adapted .field 0 4 read other
    let calls : List Call :=
      [.ask (.leaf { identifier := "f", kind := .field }), .ask (.leaf { identifier := "x" }),
        .ask (.leaf { identifier := "y" }), .ask (.adapted .field field object),
        .ask (.adapted .field read other)]
    let start : ValueGraph := { readOnly := .only ["f"] }
    start.CalledWithOwn calls ∧ again ∈ (start.run calls).values ∧
      Value.leaf again.innermostDeclaration = field ∧
      (start.run calls).isReadOnly field = true ∧ (start.run calls).isReadOnly read = true ∧
      (start.run calls).isReadOnly again = false := by
  decide

end ValueGraph

end InfoFlow
