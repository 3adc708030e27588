import InfoFlow.Proofs.ValueGraph.Calls

/-! The values of a graph after any sequence of calls.

Since a value is made only if nothing fits the request, no request fits two values of a
graph. What tells values apart follows from that. Where a graph is called with its own
values alone, adaptations are made of what was there before, so the numbers of their
sides are smaller than their own. -/

namespace InfoFlow.ValueGraph

variable {graph : ValueGraph} {request : Request} {value : Value} {calls : List Call}

/-! ## What tells values apart -/

/-- The values of a graph are its own and stand in the order of their numbers, and no
request fits two of them. -/
structure Indexed (graph : ValueGraph) : Prop where
  owned : ∀ value, value ∈ graph.values → value.owner = graph.owner
  numbers : graph.values.map Value.id = List.range graph.size
  single : ∀ (request : Request) (first second : Value), first ∈ graph.values →
    second ∈ graph.values → request.fits first = true → request.fits second = true →
      first = second

theorem Indexed.of_values {later : ValueGraph} (indexed : graph.Indexed)
    (sameValues : later.values = graph.values) (sameOwner : later.owner = graph.owner) :
    later.Indexed where
  owned := by
    rw [sameValues, sameOwner]
    exact indexed.owned
  numbers := by
    rw [size, sameValues]
    exact indexed.numbers
  single := by
    rw [sameValues]
    exact indexed.single

theorem Indexed.enlarge (indexed : graph.Indexed)
    (unfit : ∀ value, value ∈ graph.values → request.fits value = false) :
    (graph.enlarge (request.made graph.owner graph.size)).Indexed where
  owned := by
    intro value member
    rcases List.mem_append.mp member with known | new
    · exact indexed.owned value known
    · rw [List.mem_singleton.mp new]
      exact request.made_owner
  numbers := by
    simp [ValueGraph.enlarge, size, indexed.numbers, List.range_succ]
  single := by
    have other : ∀ (probe : Request) (value : Value), value ∈ graph.values →
        probe.fits value = true →
          probe.fits (request.made graph.owner graph.size) = true → False := by
      intro probe value member fitting alike
      have unfitting := unfit value member
      rw [Request.fits_of_fits_made alike fitting] at unfitting
      cases unfitting
    intro probe first second firstMember secondMember fitsFirst fitsSecond
    rcases List.mem_append.mp firstMember with firstKnown | firstNew <;>
      rcases List.mem_append.mp secondMember with secondKnown | secondNew
    · exact indexed.single probe first second firstKnown secondKnown fitsFirst fitsSecond
    · rw [List.mem_singleton.mp secondNew] at fitsSecond
      exact (other probe first firstKnown fitsFirst fitsSecond).elim
    · rw [List.mem_singleton.mp firstNew] at fitsFirst
      exact (other probe second secondKnown fitsSecond fitsFirst).elim
    · rw [List.mem_singleton.mp firstNew, List.mem_singleton.mp secondNew]

theorem Indexed.answer (indexed : graph.Indexed) (request : Request) :
    (graph.answer request).1.Indexed := by
  rcases answer_cases graph request with ⟨known, -, -, equal⟩ | ⟨unfit, equal⟩ <;> rw [equal]
  · exact indexed
  · exact indexed.enlarge unfit

theorem Indexed.next (indexed : graph.Indexed) (call : Call) : (graph.next call).Indexed := by
  cases call with
  | ask request => exact indexed.answer request
  | relate relation left right =>
      exact indexed.of_values (graph.next_relate_values relation left right)
        (graph.run_owner [.relate relation left right])

theorem run_indexed (noValues : graph.values = []) (calls : List Call) :
    (graph.run calls).Indexed := by
  refine run_preserves Indexed ?_ (fun later call indexed => indexed.next call) calls
  constructor <;> simp [noValues, size]

namespace Indexed

theorem id_lt_size (indexed : graph.Indexed) (member : value ∈ graph.values) :
    value.id < graph.size := by
  have listed := List.mem_map_of_mem (f := Value.id) member
  rw [indexed.numbers] at listed
  exact List.mem_range.mp listed

theorem eq_of_id_eq (indexed : graph.Indexed) {first second : Value}
    (firstMember : first ∈ graph.values) (secondMember : second ∈ graph.values)
    (sameNumber : first.id = second.id) : first = second := by
  have distinct : (graph.values.map Value.id).Nodup := by
    rw [indexed.numbers]
    exact List.nodup_range
  exact List.inj_on_of_nodup_map distinct firstMember secondMember sameNumber

theorem answer_of_fits (indexed : graph.Indexed) (member : value ∈ graph.values)
    (fitting : request.fits value = true) : graph.answer request = (graph, value) := by
  rcases answer_cases graph request with ⟨known, knownMember, knownFits, equal⟩ | ⟨unfit, -⟩
  · rw [equal, indexed.single request known value knownMember member knownFits fitting]
  · rw [unfit value member] at fitting
    cases fitting

theorem get?_eq_some_iff (indexed : graph.Indexed) {number : Int} :
    graph.get? number = some value ↔ value ∈ graph.values ∧ (value.id : Int) = number := by
  have numberAt : ∀ position, graph.values[position]? = some value → value.id = position := by
    intro position found
    have inside : position < graph.size := (List.getElem?_eq_some_iff.mp found).1
    have listed := congrArg (Option.map Value.id) found
    rw [← List.getElem?_map, indexed.numbers, List.getElem?_range inside] at listed
    exact (Option.some.inj listed).symm
  rw [get?]
  constructor
  · intro found
    split at found
    · cases found
    · have place := numberAt _ found
      exact ⟨List.mem_of_getElem? found, by omega⟩
  · rintro ⟨member, rfl⟩
    rcases List.getElem?_of_mem member with ⟨position, found⟩
    rw [if_neg (by omega), Int.toNat_natCast, numberAt position found]
    exact found

theorem lookup?_eq_some_iff (indexed : graph.Indexed) {identifier : String} {leaf : Leaf} :
    graph.lookup? identifier = some leaf ↔
      .leaf leaf ∈ graph.values ∧ leaf.identifier = identifier := by
  have found_spec : ∀ {found : Leaf}, graph.lookup? identifier = some found →
      .leaf found ∈ graph.values ∧ found.identifier = identifier := by
    intro found search
    exact ⟨mem_leaves.mp (List.mem_of_find?_eq_some search),
      by simpa using List.find?_some search⟩
  refine ⟨found_spec, ?_⟩
  rintro ⟨member, named⟩
  cases search : graph.lookup? identifier with
  | none =>
      have missing := List.find?_eq_none.mp search leaf (mem_leaves.mpr member)
      simp [named] at missing
  | some found =>
      have spec := found_spec search
      have same := indexed.single (.leaf { identifier }) (.leaf found) (.leaf leaf) spec.1 member
        (by simp [Request.fits, spec.2]) (by simp [Request.fits, named])
      cases same
      rfl

theorem leaves_ordered (indexed : graph.Indexed) :
    (graph.leaves.map Leaf.id).Pairwise (· < ·) := by
  refine List.Pairwise.sublist (leaf_numbers_sublist graph) ?_
  rw [indexed.numbers]
  exact List.pairwise_lt_range

end Indexed

/-! ## Calls with the graph's own values -/

def Descending (graph : ValueGraph) : Prop :=
  ∀ adaptation owner id declaration context,
    Value.adapted adaptation owner id declaration context ∈ graph.values →
      (declaration ∈ graph.values ∧ declaration.id < id) ∧
        context ∈ graph.values ∧ context.id < id

theorem Descending.answer (descending : graph.Descending) (indexed : graph.Indexed)
    (known : ∀ argument, argument ∈ request.arguments → argument ∈ graph.values) :
    (graph.answer request).1.Descending := by
  rcases answer_cases graph request with ⟨value, -, -, equal⟩ | ⟨-, equal⟩ <;> rw [equal]
  · exact descending
  · intro adaptation owner id declaration context member
    rcases List.mem_append.mp member with present | new
    · have sides := descending adaptation owner id declaration context present
      exact ⟨⟨List.mem_append_left _ sides.1.1, sides.1.2⟩,
        List.mem_append_left _ sides.2.1, sides.2.2⟩
    · have itself := List.mem_singleton.mp new
      cases request with
      | leaf spec => cases itself
      | adapted asked askedDeclaration askedContext =>
          cases itself
          have declarationKnown := known declaration (by simp)
          have contextKnown := known context (by simp)
          exact ⟨⟨List.mem_append_left _ declarationKnown, indexed.id_lt_size declarationKnown⟩,
            List.mem_append_left _ contextKnown, indexed.id_lt_size contextKnown⟩

theorem Descending.answer_adapted (descending : graph.Descending) (indexed : graph.Indexed)
    (adaptation : Adaptation) {declaration context : Value}
    (declarationKnown : declaration ∈ graph.values) (contextKnown : context ∈ graph.values) :
    ∃ id, (graph.answer (.adapted adaptation declaration context)).2 =
      .adapted adaptation graph.owner id declaration context := by
  rcases answer_cases graph (.adapted adaptation declaration context) with
    ⟨known, member, fitting, equal⟩ | ⟨-, equal⟩
  · rcases Request.fits_adapted_iff.mp fitting with
      ⟨owner, id, knownDeclaration, knownContext, rfl, sameDeclaration, sameContext⟩
    have sides := descending _ _ _ _ _ member
    have sameOwner : owner = graph.owner := indexed.owned _ member
    rw [equal, sameOwner, indexed.eq_of_id_eq sides.1.1 declarationKnown sameDeclaration,
      indexed.eq_of_id_eq sides.2.1 contextKnown sameContext]
    exact ⟨id, rfl⟩
  · exact ⟨graph.size, by rw [equal]; rfl⟩

theorem run_descending (noValues : graph.values = []) (called : graph.CalledWithOwn calls) :
    (graph.run calls).Descending := by
  have both : (graph.run calls).Indexed ∧ (graph.run calls).Descending := by
    refine run_preserves_of_eachCall
      (fun later => later.Indexed ∧ later.Descending) ?_ called ?_
    · refine ⟨run_indexed noValues [], ?_⟩
      simp [Descending, noValues]
    · rintro later call ⟨indexed, descending⟩ known
      refine ⟨indexed.next call, ?_⟩
      cases call with
      | ask request => exact descending.answer indexed known
      | relate relation left right =>
          rw [Descending, next_relate_values]
          exact descending
  exact both.2

/-- What holds of the values of a graph that was called with its own values, and
answered with the given ones. Values have the numbers from zero in the order in which
they were first answers. Leaves are told apart by their identifiers, and found by
them; adaptations by what is observed and through what, which both have smaller
numbers. -/
structure Arena (graph : ValueGraph) (answers : List Value) : Prop where
  values : graph.values = answers.eraseDups
  numbers : graph.values.map Value.id = List.range graph.size
  numbered : ∀ (number : Int) (value : Value), graph.get? number = some value ↔
    value ∈ graph.values ∧ (value.id : Int) = number
  identified : ∀ first second : Leaf, .leaf first ∈ graph.values → .leaf second ∈ graph.values →
    first.identifier = second.identifier → first = second
  found : ∀ (identifier : String) (leaf : Leaf), graph.lookup? identifier = some leaf ↔
    .leaf leaf ∈ graph.values ∧ leaf.identifier = identifier
  observed : ∀ (adaptation : Adaptation) (owner id otherOwner otherId : Nat)
    (declaration context : Value),
      .adapted adaptation owner id declaration context ∈ graph.values →
        .adapted adaptation otherOwner otherId declaration context ∈ graph.values →
          owner = otherOwner ∧ id = otherId
  descending : graph.Descending
  leaves : ∀ leaf, leaf ∈ graph.leaves ↔ .leaf leaf ∈ graph.values
  leavesOrdered : (graph.leaves.map Leaf.id).Pairwise (· < ·)

/-- After any calls with its own values, a graph that began without values has them in
order and tells them apart. Each request that it was given before is answered as it
was then, and nothing is made for it. -/
theorem run_arena (noValues : graph.values = []) (called : graph.CalledWithOwn calls) :
    (graph.run calls).Arena (graph.answers calls) ∧
      ∀ before request after, calls = before ++ .ask request :: after →
        (graph.run calls).answer request =
          (graph.run calls, ((graph.run before).answer request).2) := by
  have indexed := run_indexed noValues calls
  constructor
  · refine {
      values := run_values noValues calls
      numbers := indexed.numbers
      numbered := fun number value => indexed.get?_eq_some_iff
      identified := ?_
      found := fun identifier leaf => indexed.lookup?_eq_some_iff
      observed := ?_
      descending := run_descending noValues called
      leaves := fun leaf => mem_leaves
      leavesOrdered := indexed.leaves_ordered }
    · intro first second firstMember secondMember sameIdentifier
      have same := indexed.single (.leaf { identifier := second.identifier }) _ _ firstMember
        secondMember (by simp [Request.fits, sameIdentifier]) (by simp [Request.fits])
      exact Value.leaf.inj same
    · intro adaptation owner id otherOwner otherId declaration context member otherMember
      have same := indexed.single (.adapted adaptation declaration context) _ _ member
        otherMember (by simp [Request.fits, isAdaptationOf])
        (by simp [Request.fits, isAdaptationOf])
      cases same
      exact ⟨rfl, rfl⟩
  · rintro before request after rfl
    refine indexed.answer_of_fits ?_ (answer_fits _ request)
    rw [run_append]
    exact values_subset_run _ after ((graph.run before).answer_mem request)

/-- A field is read from an object, and what was read is passed to a method. In between
the field is asked for again, with another kind. -/
theorem run_arena_passedRead :
    let field := Value.leaf (LeafSpec.leaf { identifier := "f", kind := .field } 0 0)
    let object := Value.leaf (LeafSpec.leaf { identifier := "o" } 0 1)
    let read := Value.adapted .field 0 2 field object
    let passed := Value.adapted .method 0 3 field read
    let calls : List Call :=
      [.ask (.leaf { identifier := "f", kind := .field }), .ask (.leaf { identifier := "o" }),
        .ask (.adapted .field field object), .ask (.leaf { identifier := "f" }),
        .ask (.adapted .method field read)]
    let graph : ValueGraph := {}
    graph.values = [] ∧ graph.CalledWithOwn calls ∧
      (graph.run calls).values = [field, object, read, passed] ∧
      (graph.run calls).answer (.adapted .field field object) = (graph.run calls, read) := by
  intro field object read passed calls graph
  have called : graph.CalledWithOwn calls := by decide
  have arena := @run_arena graph calls rfl called
  have first : ((graph.run (calls.take 2)).answer (.adapted .field field object)).2 = read := by
    decide
  refine ⟨rfl, called, ?_, ?_⟩
  · rw [arena.1.values]
    decide
  · rw [arena.2 (calls.take 2) (.adapted .field field object) (calls.drop 3) rfl, first]

end InfoFlow.ValueGraph
