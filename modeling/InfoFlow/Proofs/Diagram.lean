import Mathlib.Data.List.Induction
import InfoFlow.Diagram
import InfoFlow.Proofs.ConstraintSet

/-! What a diagram states.

A diagram is drawn constraint by constraint, and nodes are numbered as they are
needed. In the end there is an edge for each distinct constraint and a node for each
value that is a side of one, both in the order of first occurrence, and wherever the
statements are cut off, the edges up to there have their nodes. -/

namespace InfoFlow

/-! ## First occurrences -/

section

variable {Element Key : Type} {same : Element → Element → Bool} {keyOf : Element → Key}

/-! Elements are the same if they have the same key. -/

variable (same_iff : ∀ first second, same first second = true ↔ keyOf first = keyOf second)
include same_iff

theorem any_filter_other {sought excluded : Element}
    (different : same sought excluded = false) (elements : List Element) :
    (elements.filter fun other => decide (same other excluded = false)).any (same sought) =
      elements.any (same sought) := by
  rw [Bool.eq_iff_iff, List.any_eq_true, List.any_eq_true]
  constructor
  · rintro ⟨other, member, found⟩
    exact ⟨other, List.mem_of_mem_filter member, found⟩
  · rintro ⟨other, member, found⟩
    refine ⟨other, List.mem_filter.mpr ⟨member, ?_⟩, found⟩
    rw [decide_eq_true_eq, Bool.eq_false_iff]
    rw [Bool.eq_false_iff] at different
    intro alike
    exact different ((same_iff _ _).mpr
      (((same_iff _ _).mp found).trans ((same_iff _ _).mp alike)))

theorem eraseDupsBy_concat (elements : List Element) (last : Element) :
    (elements ++ [last]).eraseDupsBy same =
      if elements.any (same last) then elements.eraseDupsBy same
      else elements.eraseDupsBy same ++ [last] := by
  induction length : elements.length using Nat.strongRecOn generalizing elements with
  | _ count induction =>
      cases elements with
      | nil => simp [List.eraseDupsBy_cons]
      | cons first rest =>
          let others := rest.filter fun other => decide (same other first = false)
          rw [List.cons_append, List.eraseDupsBy_cons, List.eraseDupsBy_cons, List.filter_append,
            List.any_cons]
          cases alike : same last first with
          | true => simp [alike]
          | false =>
              have fewer : others.length < count := by
                have bounded : others.length ≤ rest.length := List.length_filter_le _ _
                rw [List.length_cons] at length
                omega
              have sought := any_filter_other same_iff alike rest
              have kept : [last].filter (fun other => decide (same other first = false)) =
                  [last] := by
                simp [alike]
              rw [kept, induction _ fewer others rfl, sought, Bool.false_or]
              split <;> rfl

theorem any_eraseDupsBy (elements : List Element) (sought : Element) :
    (elements.eraseDupsBy same).any (same sought) = elements.any (same sought) := by
  induction elements using List.reverseRecOn with
  | nil => rfl
  | append_singleton earlier last induction =>
      rw [eraseDupsBy_concat same_iff]
      split
      · next known =>
          rw [induction, List.any_append, List.any_cons, List.any_nil, Bool.or_false]
          cases alike : same sought last with
          | false => rw [Bool.or_false]
          | true =>
              rcases List.any_eq_true.mp known with ⟨other, member, found⟩
              have reached : same sought other = true := (same_iff _ _).mpr
                (((same_iff _ _).mp alike).trans ((same_iff _ _).mp found))
              rw [Bool.or_true]
              exact List.any_eq_true.mpr ⟨other, member, reached⟩
      · rw [List.any_append, List.any_append, induction]

end

theorem Value.same_iff (first second : Value) :
    first.same second = true ↔ first.id = second.id :=
  decide_eq_true_iff

theorem Value.same_congr {first second : Value} (sameNumber : first.id = second.id) :
    first.same = second.same := by
  funext value
  rw [same, same, sameNumber]

theorem Constraint.same_iff (first second : Constraint) :
    first.same second = true ↔ first.key = second.key :=
  decide_eq_true_iff

namespace Diagram

variable {annotations : Annotations} {constraints : List Constraint} {constraint : Constraint}
  {values : List Value} {value : Value} {sketch : Sketch} {statements : List Statement}

def distinct (constraints : List Constraint) : List Constraint :=
  constraints.eraseDupsBy Constraint.same

def sides (constraints : List Constraint) : List Value :=
  constraints.flatMap fun constraint => [constraint.left, constraint.right]

/-- The values that are sides of constraints, each where it is first used. -/
def ends (constraints : List Constraint) : List Value :=
  (sides constraints).eraseDupsBy Value.same

theorem sides_concat (constraints : List Constraint) (last : Constraint) :
    sides (constraints ++ [last]) = sides constraints ++ [last.left] ++ [last.right] := by
  simp [sides]

/-! ## Statements -/

structure Edge where
  source : Nat
  target : Nat
  relation : Relation
  derived : Bool
deriving DecidableEq

def Statement.edge? : Statement → Option Edge
  | node _ _ => none
  | edge source target relation derived => some ⟨source, target, relation, derived⟩

def Statement.node? : Statement → Option (Nat × String)
  | node number label => some (number, label)
  | edge _ _ _ _ => none

def edgesOf (statements : List Statement) : List Edge :=
  statements.filterMap Statement.edge?

def nodesOf (statements : List Statement) : List (Nat × String) :=
  statements.filterMap Statement.node?

def Closed (statements : List Statement) : Prop :=
  ∀ edge, edge ∈ edgesOf statements →
    edge.source ∈ (nodesOf statements).map Prod.fst ∧ edge.target ∈ (nodesOf statements).map Prod.fst

section

variable {number source target : Nat} {label : String} {relation : Relation} {derived : Bool}

theorem edgesOf_concat_node :
    edgesOf (statements ++ [.node number label]) = edgesOf statements := by
  rw [edgesOf, List.filterMap_append]
  exact List.append_nil _

theorem edgesOf_concat_edge :
    edgesOf (statements ++ [.edge source target relation derived]) =
      edgesOf statements ++ [⟨source, target, relation, derived⟩] :=
  List.filterMap_append

theorem nodesOf_concat_node :
    nodesOf (statements ++ [.node number label]) = nodesOf statements ++ [(number, label)] :=
  List.filterMap_append

theorem nodesOf_concat_edge :
    nodesOf (statements ++ [.edge source target relation derived]) = nodesOf statements := by
  rw [nodesOf, List.filterMap_append]
  exact List.append_nil _

end

def numbered (annotations : Annotations) (values : List Value) : List (Nat × String) :=
  values.mapIdx fun number value => (number, annotations.describe value)

/-- The edge of a constraint, if nodes have the numbers of their values' places. -/
def edgeAmong (values : List Value) (constraint : Constraint) : Edge :=
  ⟨values.findIdx constraint.left.same, values.findIdx constraint.right.same,
    constraint.relation, constraint.isDerived⟩

theorem numbered_concat : numbered annotations (values ++ [value]) =
    numbered annotations values ++ [(values.length, annotations.describe value)] :=
  List.mapIdx_concat

theorem mem_numbered_iff {number : Nat} :
    number ∈ (numbered annotations values).map Prod.fst ↔ number < values.length := by
  induction values using List.reverseRecOn with
  | nil => simp [numbered]
  | append_singleton earlier last induction =>
      rw [numbered_concat, List.map_append, List.mem_append, induction]
      simp
      omega

theorem edgeAmong_append (more : List Value)
    (left : values.any constraint.left.same = true)
    (right : values.any constraint.right.same = true) :
    edgeAmong (values ++ more) constraint = edgeAmong values constraint := by
  have leftFound := List.findIdx_lt_length.mpr (List.any_eq_true.mp left)
  have rightFound := List.findIdx_lt_length.mpr (List.any_eq_true.mp right)
  rw [edgeAmong, List.findIdx_append, List.findIdx_append, if_pos leftFound, if_pos rightFound,
    edgeAmong]

/-- A sketch is faithful to what has been drawn: its nodes are those of its values and
its edges those of its constraints, whose sides all have nodes. -/
structure Sketch.Faithful (annotations : Annotations) (sketch : Sketch) : Prop where
  nodes : nodesOf sketch.statements = numbered annotations sketch.nodes
  edges : edgesOf sketch.statements = sketch.drawn.toList.map (edgeAmong sketch.nodes)
  placed : ∀ constraint, constraint ∈ sketch.drawn.toList →
    sketch.nodes.any constraint.left.same = true ∧
      sketch.nodes.any constraint.right.same = true
  ordered : ∀ part, part <+: sketch.statements → Closed part

namespace Sketch

theorem faithful_empty : Faithful annotations {} where
  nodes := rfl
  edges := rfl
  placed := by simp
  ordered := by
    intro part initial
    rw [List.prefix_nil.mp initial]
    intro edge member
    cases member

theorem Faithful.closed (faithful : sketch.Faithful annotations) : Closed sketch.statements :=
  faithful.ordered _ (List.prefix_refl _)

theorem place_of_any (annotations : Annotations) (known : sketch.nodes.any value.same = true) :
    sketch.place annotations value = sketch := by
  rw [place, if_pos known]

theorem place_of_not_any (annotations : Annotations)
    (new : ¬ sketch.nodes.any value.same = true) :
    sketch.place annotations value =
      { sketch with
        nodes := sketch.nodes ++ [value]
        statements := sketch.statements ++
          [.node sketch.nodes.length (annotations.describe value)] } := by
  rw [place, if_neg new]

theorem place_nodes (annotations : Annotations) (sketch : Sketch) (value : Value) :
    (sketch.place annotations value).nodes =
      if sketch.nodes.any value.same then sketch.nodes else sketch.nodes ++ [value] := by
  rw [place]
  split <;> rfl

theorem place_drawn (annotations : Annotations) (sketch : Sketch) (value : Value) :
    (sketch.place annotations value).drawn = sketch.drawn := by
  rw [place]
  split <;> rfl

theorem any_place (annotations : Annotations) (sketch : Sketch) (value : Value) :
    (sketch.place annotations value).nodes.any value.same = true := by
  rw [place_nodes]
  split
  · next known => exact known
  · simp [Value.same]

theorem any_place_of_any (annotations : Annotations) (other : Value)
    (known : sketch.nodes.any value.same = true) :
    (sketch.place annotations other).nodes.any value.same = true := by
  rw [place_nodes]
  split
  · exact known
  · rw [List.any_append, known, Bool.true_or]

theorem Faithful.place (faithful : sketch.Faithful annotations) (value : Value) :
    (sketch.place annotations value).Faithful annotations := by
  by_cases known : sketch.nodes.any value.same = true
  · rw [place_of_any annotations known]
    exact faithful
  · rw [place_of_not_any annotations known]
    refine ⟨?_, ?_, fun constraint member => ?_, fun part initial => ?_⟩
    · rw [nodesOf_concat_node, faithful.nodes, numbered_concat]
    · rw [edgesOf_concat_node, faithful.edges]
      exact List.map_congr_left fun constraint member =>
        (edgeAmong_append _ (faithful.placed _ member).1 (faithful.placed _ member).2).symm
    · have before := faithful.placed constraint member
      simp only [List.any_append, before.1, before.2, Bool.true_or, and_self]
    · rcases List.prefix_concat_iff.mp initial with rfl | earlier
      · intro edge member
        rw [edgesOf_concat_node] at member
        rw [nodesOf_concat_node, List.map_append]
        have before := faithful.closed edge member
        exact ⟨List.mem_append_left _ before.1, List.mem_append_left _ before.2⟩
      · exact faithful.ordered part earlier

theorem Faithful.join (faithful : sketch.Faithful annotations)
    (new : constraint.key ∉ sketch.drawn.keys)
    (left : sketch.nodes.any constraint.left.same = true)
    (right : sketch.nodes.any constraint.right.same = true) :
    Faithful annotations { sketch with
      drawn := sketch.drawn.add constraint
      statements := sketch.statements ++
        [.edge (sketch.number constraint.left) (sketch.number constraint.right)
          constraint.relation constraint.isDerived] } := by
  refine ⟨?_, ?_, ?_, fun part initial => ?_⟩
  · rw [nodesOf_concat_edge, faithful.nodes]
  · rw [edgesOf_concat_edge, faithful.edges, ConstraintSet.toList_add_of_new new, List.map_append]
    rfl
  · exact ConstraintSet.forall_mem_add faithful.placed fun _ => ⟨left, right⟩
  · rcases List.prefix_concat_iff.mp initial with rfl | earlier
    · intro edge member
      rw [edgesOf_concat_edge] at member
      rw [nodesOf_concat_edge]
      rcases List.mem_append.mp member with known | itself
      · exact faithful.closed edge known
      · rw [List.mem_singleton.mp itself, faithful.nodes, mem_numbered_iff, mem_numbered_iff]
        exact ⟨List.findIdx_lt_length.mpr (List.any_eq_true.mp left),
          List.findIdx_lt_length.mpr (List.any_eq_true.mp right)⟩
    · exact faithful.ordered part earlier

theorem draw_of_known (known : constraint.key ∈ sketch.drawn.keys) :
    sketch.draw annotations constraint = sketch := by
  rw [draw, if_pos (ConstraintSet.contains_iff.mpr known)]

theorem draw_of_new (new : constraint.key ∉ sketch.drawn.keys) :
    sketch.draw annotations constraint =
      let placed := (sketch.place annotations constraint.left).place annotations constraint.right
      { placed with
        drawn := placed.drawn.add constraint
        statements := placed.statements ++
          [.edge (placed.number constraint.left) (placed.number constraint.right)
            constraint.relation constraint.isDerived] } := by
  rw [draw, if_neg fun known => new (ConstraintSet.contains_iff.mp known)]

theorem draw_drawn (annotations : Annotations) (sketch : Sketch) (constraint : Constraint) :
    (sketch.draw annotations constraint).drawn = sketch.drawn.add constraint := by
  by_cases known : constraint.key ∈ sketch.drawn.keys
  · rw [draw_of_known known, ConstraintSet.add_of_contains known]
  · rw [draw_of_new known]
    simp only [place_drawn]

theorem Faithful.draw (faithful : sketch.Faithful annotations) (constraint : Constraint) :
    (sketch.draw annotations constraint).Faithful annotations := by
  by_cases known : constraint.key ∈ sketch.drawn.keys
  · rw [draw_of_known known]
    exact faithful
  · rw [draw_of_new known]
    refine ((faithful.place constraint.left).place constraint.right).join ?_ ?_ ?_
    · rwa [place_drawn, place_drawn]
    · exact any_place_of_any _ _ (any_place _ _ _)
    · exact any_place _ _ _

end Sketch

/-! ## Whole diagrams -/

def sketchOf (annotations : Annotations) (constraints : List Constraint) : Sketch :=
  constraints.foldl (Sketch.draw annotations) {}

theorem sketchOf_concat (annotations : Annotations) (constraints : List Constraint)
    (last : Constraint) :
    sketchOf annotations (constraints ++ [last]) =
      (sketchOf annotations constraints).draw annotations last :=
  List.foldl_concat _ _ _ _

theorem sketchOf_faithful (annotations : Annotations) (constraints : List Constraint) :
    (sketchOf annotations constraints).Faithful annotations := by
  induction constraints using List.reverseRecOn with
  | nil => exact Sketch.faithful_empty
  | append_singleton earlier last induction =>
      rw [sketchOf_concat]
      exact induction.draw last

theorem any_same_iff : constraints.any constraint.same = true ↔
    constraint.key ∈ constraints.map Constraint.key := by
  simp only [List.any_eq_true, Constraint.same_iff, List.mem_map]
  exact ⟨fun ⟨other, member, equal⟩ => ⟨other, member, equal.symm⟩,
    fun ⟨other, member, equal⟩ => ⟨other, member, equal.symm⟩⟩

theorem sketchOf_drawn (annotations : Annotations) (constraints : List Constraint) :
    (sketchOf annotations constraints).drawn.toList = distinct constraints := by
  induction constraints using List.reverseRecOn with
  | nil => rfl
  | append_singleton earlier last induction =>
      rw [sketchOf_concat, Sketch.draw_drawn, distinct,
        eraseDupsBy_concat Constraint.same_iff, ← any_eraseDupsBy Constraint.same_iff]
      change _ = if (distinct earlier).any last.same = true then distinct earlier
        else distinct earlier ++ [last]
      rw [← induction]
      split
      · next known => rw [ConstraintSet.add_of_contains (any_same_iff.mp known)]
      · next new =>
          exact ConstraintSet.toList_add_of_new fun known => new (any_same_iff.mpr known)

theorem place_ends {used : List Value} (nodes : sketch.nodes = used.eraseDupsBy Value.same)
    (annotations : Annotations) (value : Value) :
    (sketch.place annotations value).nodes = (used ++ [value]).eraseDupsBy Value.same := by
  rw [Sketch.place_nodes, nodes, any_eraseDupsBy Value.same_iff,
    eraseDupsBy_concat Value.same_iff]

theorem sketchOf_nodes (annotations : Annotations) (constraints : List Constraint) :
    (sketchOf annotations constraints).nodes = ends constraints := by
  induction constraints using List.reverseRecOn with
  | nil => rfl
  | append_singleton earlier last induction =>
      have placed := place_ends (place_ends induction annotations last.left) annotations last.right
      rw [sketchOf_concat, ends, sides_concat]
      by_cases known : last.key ∈ (sketchOf annotations earlier).drawn.keys
      · rcases List.mem_map.mp known with ⟨drawn, member, sameKey⟩
        have sidesPlaced := (sketchOf_faithful annotations earlier).placed drawn member
        rw [Value.same_congr (congrArg ConstraintKey.left sameKey),
          Value.same_congr (congrArg ConstraintKey.right sameKey)] at sidesPlaced
        rw [Sketch.place_of_any annotations sidesPlaced.1,
          Sketch.place_of_any annotations sidesPlaced.2] at placed
        rw [Sketch.draw_of_known known]
        exact placed
      · rw [Sketch.draw_of_new known]
        exact placed

theorem nodesOf_ofConstraints (annotations : Annotations) (constraints : List Constraint)
    (title : String) : nodesOf (ofConstraints annotations constraints title).statements =
      numbered annotations (ends constraints) := by
  rw [← sketchOf_nodes annotations]
  exact (sketchOf_faithful annotations constraints).nodes

theorem edgesOf_ofConstraints (annotations : Annotations) (constraints : List Constraint)
    (title : String) : edgesOf (ofConstraints annotations constraints title).statements =
      (distinct constraints).map (edgeAmong (ends constraints)) := by
  rw [← sketchOf_nodes annotations, ← sketchOf_drawn annotations]
  exact (sketchOf_faithful annotations constraints).edges

/-- Wherever a diagram is cut off, the edges up to there have their nodes. -/
theorem closed_of_prefix {title : String} {part : List Statement}
    (initial : part <+: (ofConstraints annotations constraints title).statements) :
    Closed part :=
  (sketchOf_faithful annotations constraints).ordered part initial

theorem getElem?_ends (used : value ∈ sides constraints) :
    (ends constraints)[(ends constraints).findIdx value.same]?.map Value.id = some value.id := by
  have present : (ends constraints).any value.same = true := by
    rw [ends, any_eraseDupsBy Value.same_iff]
    exact List.any_eq_true.mpr ⟨value, used, (Value.same_iff _ _).mpr rfl⟩
  rw [← List.find?_eq_getElem?_findIdx]
  cases search : (ends constraints).find? value.same with
  | none =>
      rw [List.find?_eq_none] at search
      rcases List.any_eq_true.mp present with ⟨known, member, found⟩
      exact (search known member found).elim
  | some known => exact congrArg some ((Value.same_iff _ _).mp (List.find?_some search)).symm

theorem lookup_numbered (annotations : Annotations) (values : List Value) (number : Nat) :
    (numbered annotations values).lookup number = values[number]?.map annotations.describe := by
  induction values using List.reverseRecOn with
  | nil => rfl
  | append_singleton earlier last induction =>
      rw [numbered_concat, List.lookup_append, induction, List.getElem?_append]
      split
      · next inside => simp [List.getElem?_eq_getElem inside]
      · next outside =>
          have missing : earlier[number]? = none := List.getElem?_eq_none (by omega)
          by_cases place : number = earlier.length
          · simp [place]
          · have beyond : number - earlier.length ≠ 0 := by omega
            simp [missing, place, beyond]

theorem distinct_subset (constraints : List Constraint) : distinct constraints ⊆ constraints := by
  rw [← sketchOf_drawn {} constraints]
  induction constraints using List.reverseRecOn with
  | nil => exact List.Subset.refl _
  | append_singleton earlier last induction =>
      rw [sketchOf_concat, Sketch.draw_drawn]
      exact ConstraintSet.forall_mem_add
        (fun member present => List.mem_append_left _ (induction present))
        fun _ => List.mem_append_right _ (List.mem_singleton.mpr rfl)

end Diagram

end InfoFlow
