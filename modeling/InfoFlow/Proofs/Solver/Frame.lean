import InfoFlow.Proofs.Solver.RepairCounts

/-! What a solve leaves alone.

A solve changes qualifiers by assigning leaves, and an assignment of anything
else would be refused. Writes leave out constants and placeholders, and so do
eliminations. Restores and rollbacks do not look at what they assign, but they
need a snapshot, and there is none of a leaf that is never written. So constants
and placeholders keep their qualifiers, and the graph stays as it is. What is
seen through a placeholder is no leaf: its qualifiers follow from its
declaration, which may be narrowed. -/

namespace InfoFlow

namespace Annotations

def assignAll? (annotations : Annotations) (assigned : List (Value × QualifierSet)) :
    Option Annotations :=
  assigned.foldlM (fun current entry => current.assign? entry.1 entry.2) annotations

variable {before middle after : Annotations} {earlier later assigned : List (Value × QualifierSet)}
  {leaf : Leaf}

theorem assignAll?_append (first : before.assignAll? earlier = some middle)
    (second : middle.assignAll? later = some after) :
    before.assignAll? (earlier ++ later) = some after := by
  rw [assignAll?, List.foldlM_append]
  exact (congrArg (Option.bind · _) first).trans second

theorem get_of_assignAll? (assigns : before.assignAll? assigned = some after)
    (apart : ∀ other qualifiers, (Value.leaf other, qualifiers) ∈ assigned →
      slot leaf ≠ slot other) : after.get leaf = before.get leaf := by
  induction assigned generalizing before with
  | nil =>
      cases assigns
      rfl
  | cons entry rest induction =>
      rcases entry with ⟨_ | ⟨adaptation, owner, id, declaration, context⟩, qualifiers⟩
      · next other =>
          have different := apart other qualifiers List.mem_cons_self
          have kept : after.get leaf = (before.set other qualifiers).get leaf :=
            induction assigns fun further allowed member =>
              apart further allowed (List.mem_cons_of_mem _ member)
          exact kept.trans (set_other before different qualifiers)
      · cases assigns

end Annotations

namespace Solver

variable {solver before after : Solver} {leaf : Leaf}
  {assigned : List (Value × QualifierSet)}

def OnlyMutable (graph : ValueGraph) (assigned : List (Value × QualifierSet)) : Prop :=
  ∀ value qualifiers, (value, qualifiers) ∈ assigned →
    ∃ leaf, value = .leaf leaf ∧ leaf ∈ graph.leafParts ∧ leaf.isImmutable = false

theorem onlyMutable_single {graph : ValueGraph} {qualifiers : QualifierSet}
    (member : leaf ∈ graph.leafParts) (mutable : leaf.isImmutable = false) :
    OnlyMutable graph [(.leaf leaf, qualifiers)] := by
  intro value allowed present
  cases List.mem_singleton.mp present
  exact ⟨leaf, rfl, member, mutable⟩

theorem mutable_of_mem_mutableNumbers {graph : ValueGraph} (wellFormed : graph.WellFormed)
    (member : leaf ∈ graph.leafParts) (number : leaf.id ∈ graph.mutableNumbers) :
    leaf.isImmutable = false := by
  simp only [ValueGraph.mutableNumbers, List.mem_toFinset, List.mem_map, List.mem_filter,
    Bool.not_eq_true'] at number
  rcases number with ⟨other, ⟨otherMember, mutable⟩, same⟩
  exact wellFormed.leaf_eq_of_id other leaf otherMember member same ▸ mutable

private theorem Accounted.mutable_of_snapshot {snapshot : QualifierSet}
    (accounted : solver.Accounted) (wellFormed : solver.graph.WellFormed)
    (member : leaf ∈ solver.graph.leafParts) (kept : solver.snapshot? leaf.id = some snapshot) :
    leaf.isImmutable = false :=
  mutable_of_mem_mutableNumbers wellFormed member
    (accounted.updated leaf.id (isUpdated_of_snapshot kept))

theorem Evolves.assigns (evolves : Evolves before assigned after)
    (wellFormed : before.graph.WellFormed) (accounted : before.Accounted) :
    OnlyMutable before.graph assigned ∧
      before.annotations.assignAll? assigned = some after.annotations := by
  induction evolves with
  | apart graph policy annotations =>
      refine ⟨fun value qualifiers present => ?_, ?_⟩
      · cases present
      · rw [annotations]
        rfl
  | record member mutable =>
      refine ⟨onlyMutable_single member mutable, ?_⟩
      rw [Solver.record, note_eq]
      rfl
  | @restore solver leaf snapshot biased member kept =>
      have mutable := accounted.mutable_of_snapshot wellFormed member kept
      rcases solver.restore_eq leaf snapshot with ⟨log, restored⟩
      rw [restored]
      exact ⟨onlyMutable_single member mutable, rfl⟩
  | lower biased member missing mutable =>
      exact ⟨onlyMutable_single member mutable, rfl⟩
  | rollBack member kept =>
      have mutable := accounted.mutable_of_snapshot wellFormed member kept
      rw [rollBack_of_kept kept]
      exact ⟨onlyMutable_single member mutable, rfl⟩
  | trans first second onFirst onSecond =>
      have earlier := onFirst wellFormed accounted
      have later := onSecond (first.graph.symm ▸ wellFormed) (accounted.evolves first)
      rw [first.graph] at later
      refine ⟨?_, Annotations.assignAll?_append earlier.2 later.2⟩
      intro value qualifiers present
      rcases List.mem_append.mp present with before | after
      · exact earlier.1 value qualifiers before
      · exact later.1 value qualifiers after

theorem Accounted.spares (accounted : solver.Accounted) (wellFormed : solver.graph.WellFormed)
    (member : leaf ∈ solver.graph.leafParts) (immutable : leaf.isImmutable = true) :
    solver.isUpdated leaf.id = false ∧ solver.restoreCount leaf.id = 0 ∧
      solver.isEliminated leaf = false := by
  have outside : leaf.id ∉ solver.graph.mutableNumbers := by
    intro number
    rw [mutable_of_mem_mutableNumbers wellFormed member number] at immutable
    cases immutable
  refine ⟨?_, accounted.unmoved leaf.id outside, ?_⟩
  · rw [← Bool.not_eq_true]
    exact fun updated => outside (accounted.updated leaf.id updated)
  · rw [← Bool.not_eq_true]
    intro eliminated
    rcases List.any_eq_true.mp eliminated with ⟨other, present, same⟩
    have permitted := accounted.members other present
    exact outside (of_decide_eq_true same ▸
      ValueGraph.mem_mutableNumbers permitted.1 permitted.2)

/-! ## The points of a solve -/

theorem solve_mem_points (solver : Solver) : solver.solve ∈ solver.points :=
  List.mem_append_right _ (List.mem_singleton.mpr rfl)

/-- At every point of a solve, whatever it favours, the graph is what it was, and
constants and placeholders carry what they carried at the start and were neither
updated nor restored nor eliminated. What any other value carries then comes
from assignments that were made one after another, only of leaves, and none of
which was refused. -/
theorem solve_frame (solver : Solver) (wellFormed : solver.graph.WellFormed) :
    ∀ point, point ∈ solver.points →
      point.graph = solver.graph ∧
        (∀ value, value ∈ solver.graph.parts →
          (value.kind = .constant ∨
            value.isLeaf = true ∧ isSynthetic value.identifier = true) →
          point.annotations.view value = solver.annotations.view value ∧
            point.isUpdated value.id = false ∧ point.restoreCount value.id = 0 ∧
            ∀ leaf, leaf ∈ point.eliminated → leaf.id ≠ value.id) ∧
        ∃ assigned, Evolves solver.start assigned point ∧ OnlyMutable solver.graph assigned ∧
          solver.annotations.assignAll? assigned = some point.annotations := by
  intro point present
  rcases start_leadsTo wellFormed.coherent present with ⟨assigned, evolves⟩
  have graph : point.graph = solver.graph := evolves.graph.trans solver.start_graph
  have accounted := accounted_of_mem_points wellFormed.coherent present
  have assigns := evolves.assigns (solver.start_graph.symm ▸ wellFormed) solver.start_accounted
  rw [solver.start_annotations, solver.start_graph] at assigns
  refine ⟨graph, ?_, assigned, evolves, assigns⟩
  intro value member kept
  cases value with
  | adapted adaptation owner id declaration context =>
      rcases kept with constant | ⟨plain, -⟩
      · cases adaptation <;> cases constant
      · cases plain
  | leaf leaf =>
      have leafMember := ValueGraph.leaf_mem_parts_iff.mp member
      have immutable : leaf.isImmutable = true := by
        rcases kept with constant | ⟨-, placeholder⟩
        · exact Bool.or_eq_true_iff.mpr (.inl (decide_eq_true constant))
        · exact Bool.or_eq_true_iff.mpr (.inr placeholder)
      have spared := accounted.spares (graph.symm ▸ wellFormed) (graph.symm ▸ leafMember) immutable
      refine ⟨Annotations.get_of_assignAll? assigns.2 ?_, spared.1, spared.2.1, ?_⟩
      · intro other qualifiers isAssigned samePlace
        rcases assigns.1 _ _ isAssigned with ⟨found, same, foundMember, mutable⟩
        cases same
        rw [wellFormed.leaf_eq_of_id leaf other leafMember foundMember
          (congrArg Prod.snd samePlace), mutable] at immutable
        cases immutable
      · intro other eliminated same
        have isEliminated : point.isEliminated leaf = true :=
          List.any_eq_true.mpr ⟨other, eliminated, decide_eq_true same⟩
        rw [spared.2.2] at isEliminated
        cases isEliminated

theorem solve_frame_storedSecret :
    storedSecret.WellFormed ∧
      ∃ secret, secret ∈ storedSecret.parts ∧ secret.kind = .constant ∧
        ∀ point, point ∈ points { graph := storedSecret, policy := ⟨.sink, 3⟩ } →
          point.annotations.view secret = .only .sensitive ∧
            point.isUpdated secret.id = false ∧ point.restoreCount secret.id = 0 := by
  have frame := solve_frame { graph := storedSecret, policy := ⟨.sink, 3⟩ } (by decide)
  refine ⟨by decide, storedSecret.values.get ⟨0, by decide⟩, by decide, by decide, ?_⟩
  intro point present
  have kept := (frame point present).2.1 (storedSecret.values.get ⟨0, by decide⟩) (by decide)
    (.inl (by decide))
  exact ⟨kept.1.trans (by decide), kept.2.1, kept.2.2.1⟩

/-- A field that is seen through the placeholder of a call site. -/
def seenThroughPlaceholder : ValueGraph :=
  let content : Value := .leaf (LeafSpec.leaf { identifier := "content", kind := .field } 0 0)
  let call : Value := .leaf (LeafSpec.leaf { identifier := "callsite-1" } 0 1)
  let clear : Value := .leaf
    (LeafSpec.leaf { identifier := "clear", kind := .constant, declared := .only .clear } 0 2)
  { values := [content, call, clear, .adapted .field 0 3 content call]
    constraints := .ofList [{ relation := .equality, left := content, right := clear }] }

/-- What has the identifier of a placeholder need not be one: the view of a field
through a placeholder changes with the field. -/
theorem seenThroughPlaceholder_changes :
    seenThroughPlaceholder.WellFormed ∧
      ∃ value, value ∈ seenThroughPlaceholder.values ∧ isSynthetic value.identifier = true ∧
        ∃ point, point ∈ points { graph := seenThroughPlaceholder } ∧
          point.annotations.view value ≠
            (start { graph := seenThroughPlaceholder }).annotations.view value := by
  refine ⟨by decide, seenThroughPlaceholder.values.get ⟨3, by decide⟩, List.get_mem _ _,
    by decide, solve { graph := seenThroughPlaceholder }, solve_mem_points _, by decide⟩

end Solver

end InfoFlow
