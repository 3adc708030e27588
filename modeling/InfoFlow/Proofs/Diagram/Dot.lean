import InfoFlow.Diagram.Dot
import InfoFlow.Proofs.Diagram

/-! Reading the lines of a diagram.

From the line of a statement the statement is read back, but for the label of a node,
which stays quoted. So the lines of a diagram show what the diagram states: the distinct
constraints, each with the nodes of its own sides. -/

namespace InfoFlow.Dot

open Diagram (Statement Edge distinct sides ends edgeAmong)

variable {annotations : Annotations} {constraints : List Constraint} {statement : Statement}
  {statements : List Statement}

/-! ## Reading a line -/

def readNumber (text : List Char) : Nat × List Char :=
  (Nat.ofDigitChars 10 (text.takeWhile Char.isDigit) 0, text.dropWhile Char.isDigit)

def readName? (text : List Char) : Option (Nat × List Char) :=
  (['n'].isPrefixOf? text).map readNumber

def edgeEnd (relation : Relation) (derived : Bool) : String :=
  " [label=" ++ identifier relation.symbol ++ " style=" ++
    (if derived then "dashed" else "solid") ++ "]\n"

def readEnd? (text : List Char) : Option (Relation × Bool) :=
  ([.unspecified, .subtype, .equality, .unequality].product [false, true]).find? fun kind =>
    (edgeEnd kind.1 kind.2).toList = text

/-- What a line states. The label of a node is read as it stands, with its quotes. -/
def read? (line : String) : Option Statement := do
  let named ← ['\t'].isPrefixOf? line.toList
  let (number, attributes) ← readName? named
  match " [label=".toList.isPrefixOf? attributes with
  | some label => some (.node number (String.ofList label.dropLast.dropLast))
  | none =>
      let onward ← " -> ".toList.isPrefixOf? attributes
      let (target, ending) ← readName? onward
      let (relation, derived) ← readEnd? ending
      some (.edge number target relation derived)

def quoted : Statement → Statement
  | .node number label => .node number (identifier label)
  | .edge source target relation derived => .edge source target relation derived

theorem readNumber_append (number : Nat) (rest : List Char)
    (ends : ∀ character, rest.head? = some character → character.isDigit = false) :
    readNumber ((toString number).toList ++ rest) = (number, rest) := by
  have digits : ∀ character, character ∈ Nat.toDigits 10 number → character.isDigit = true :=
    fun character member => Nat.isDigit_of_mem_toDigits (by decide) (by decide) member
  have shown : (toString number).toList = Nat.toDigits 10 number := Nat.toList_repr
  have taken : rest.takeWhile Char.isDigit = [] := by
    cases rest with
    | nil => rfl
    | cons first later => simp [ends first rfl]
  have dropped : rest.dropWhile Char.isDigit = rest := by
    cases rest with
    | nil => rfl
    | cons first later => simp [ends first rfl]
  rw [readNumber, shown, List.takeWhile_append_of_pos digits, List.dropWhile_append_of_pos digits,
    taken, dropped, List.append_nil, Nat.ofDigitChars_toDigits (by decide) (by decide)]

theorem isPrefixOf?_append (start rest : List Char) :
    start.isPrefixOf? (start ++ rest) = some rest :=
  List.isPrefixOf?_eq_some_iff_append_eq.mpr rfl

theorem readName?_append (number : Nat) (rest : List Char)
    (ends : ∀ character, rest.head? = some character → character.isDigit = false) :
    readName? ((nodeName number).toList ++ rest) = some (number, rest) := by
  have shown : (nodeName number).toList ++ rest = ['n'] ++ ((toString number).toList ++ rest) := by
    rw [nodeName, String.toList_append, List.append_assoc]
    rfl
  rw [readName?, shown, isPrefixOf?_append, Option.map_some,
    readNumber_append number rest ends]

theorem readEnd?_edgeEnd (relation : Relation) (derived : Bool) :
    readEnd? (edgeEnd relation derived).toList = some (relation, derived) := by
  cases relation <;> cases derived <;> decide

theorem line_node (number : Nat) (label : String) :
    (line (.node number label)).toList =
      ['\t'] ++ ((nodeName number).toList ++
        (" [label=".toList ++ ((identifier label).toList ++ ['\x5d', '\n']))) := by
  simp [line, String.toList_append]

theorem line_edge (source target : Nat) (relation : Relation) (derived : Bool) :
    (line (.edge source target relation derived)).toList =
      ['\t'] ++ ((nodeName source).toList ++
        (" -> ".toList ++ ((nodeName target).toList ++ (edgeEnd relation derived).toList))) := by
  simp [line, edgeEnd, String.toList_append]

theorem read?_line (statement : Statement) : read? (line statement) = some (quoted statement) := by
  cases statement with
  | node number label =>
      have named := readName?_append number
        (" [label=".toList ++ ((identifier label).toList ++ ['\x5d', '\n'])) (by simp)
      have text : ((identifier label).toList ++ ['\x5d', '\n']).dropLast.dropLast =
          (identifier label).toList := by
        simp
      simp only [read?, line_node, isPrefixOf?_append, named, Option.bind_eq_bind,
        Option.bind_some, text, String.ofList_toList, quoted]
  | edge source target relation derived =>
      have named := readName?_append source
        (" -> ".toList ++ ((nodeName target).toList ++ (edgeEnd relation derived).toList)) (by simp)
      have headed := readName?_append target (edgeEnd relation derived).toList
        (by simp [edgeEnd])
      have unlabelled (rest : List Char) :
          " [label=".toList.isPrefixOf? (" -> ".toList ++ rest) = none := rfl
      simp only [read?, line_edge, isPrefixOf?_append, named, Option.bind_eq_bind,
        Option.bind_some, unlabelled, headed, readEnd?_edgeEnd, quoted]

/-! ## Reading all lines -/

def edge? (line : String) : Option Edge :=
  (read? line).bind Statement.edge?

def node? (line : String) : Option (Nat × String) :=
  (read? line).bind Statement.node?

theorem edge?_line (statement : Statement) : edge? (line statement) = statement.edge? := by
  rw [edge?, read?_line]
  cases statement <;> rfl

theorem node?_line (statement : Statement) :
    node? (line statement) = statement.node?.map (Prod.map id identifier) := by
  rw [node?, read?_line]
  cases statement <;> rfl

theorem filterMap_edge?_lines (statements : List Statement) :
    (statements.map line).filterMap edge? = Diagram.edgesOf statements := by
  rw [List.filterMap_map, Diagram.edgesOf]
  exact List.filterMap_congr fun statement _ => edge?_line statement

theorem filterMap_node?_lines (statements : List Statement) :
    (statements.map line).filterMap node? =
      (Diagram.nodesOf statements).map (Prod.map id identifier) := by
  rw [List.filterMap_map, Diagram.nodesOf, List.map_filterMap]
  exact List.filterMap_congr fun statement _ => node?_line statement

theorem filter_edge_lines (statements : List Statement) :
    (statements.map line).filter (fun shown => (edge? shown).isSome) =
      (Diagram.edgesOf statements).map fun edge =>
        line (.edge edge.source edge.target edge.relation edge.derived) := by
  induction statements with
  | nil => rfl
  | cons statement rest induction =>
      rw [List.map_cons, List.filter_cons, edge?_line, induction]
      cases statement <;> rfl

theorem filter_node_lines (statements : List Statement) :
    (statements.map line).filter (fun shown => (node? shown).isSome) =
      (Diagram.nodesOf statements).map fun node => line (.node node.1 node.2) := by
  induction statements with
  | nil => rfl
  | cons statement rest induction =>
      rw [List.map_cons, List.filter_cons, node?_line, induction]
      cases statement <;> rfl

/-! ## Diagrams -/

def labelOf? (lines : List String) (number : Nat) : Option String :=
  (lines.filterMap node?).lookup number

/-- The relations that lines show, each between the labels of its two nodes. -/
def readAll (lines : List String) : List (Option String × Relation × Option String) :=
  (lines.filterMap edge?).map fun edge =>
    (labelOf? lines edge.source, edge.relation, labelOf? lines edge.target)

/-- The label of the node that stands for a value: that of the first value that was used
with its number. -/
def labelAmong (annotations : Annotations) (values : List Value) (value : Value) :
    Option String :=
  (values.find? value.same).map fun known => identifier (annotations.describe known)

theorem lookup_map (nodes : List (Nat × String)) (number : Nat) :
    (nodes.map (Prod.map id identifier)).lookup number = (nodes.lookup number).map identifier := by
  induction nodes with
  | nil => rfl
  | cons node rest induction =>
      rw [List.map_cons, List.lookup_cons, List.lookup_cons, induction]
      cases same : number == node.1 <;> simp [same]

theorem labelOf?_ofConstraints (annotations : Annotations) (constraints : List Constraint)
    (title : String) (value : Value) :
    labelOf? ((Diagram.ofConstraints annotations constraints title).statements.map line)
        ((ends constraints).findIdx value.same) =
      labelAmong annotations (ends constraints) value := by
  rw [labelOf?, filterMap_node?_lines, Diagram.nodesOf_ofConstraints, lookup_map,
    Diagram.lookup_numbered, ← List.find?_eq_getElem?_findIdx, labelAmong, Option.map_map]
  rfl

/-- What lines show of constraints. They are an edge for each distinct constraint, with its
symbol and the style that it has where it first occurs, and a node for each value that is
a side of one, named by its place in the order of first use; nothing else. The nodes of an
edge stand before it, and are those of its own sides. So the sides and relations of the
distinct constraints can be read from the lines. -/
structure Depicts (annotations : Annotations) (constraints : List Constraint)
    (lines : List String) : Prop where
  edges : lines.filter (fun shown => (edge? shown).isSome) =
    (distinct constraints).map fun constraint =>
      line (.edge ((ends constraints).findIdx constraint.left.same)
        ((ends constraints).findIdx constraint.right.same) constraint.relation
        constraint.isDerived)
  nodes : lines.filter (fun shown => (node? shown).isSome) =
    (ends constraints).mapIdx fun number value => line (.node number (annotations.describe value))
  either : ∀ shown, shown ∈ lines → (node? shown).isSome = !(edge? shown).isSome
  ordered : ∀ before shown after edge, lines = before ++ shown :: after →
    edge? shown = some edge → edge.source ∈ (before.filterMap node?).map Prod.fst ∧
      edge.target ∈ (before.filterMap node?).map Prod.fst
  joins : (lines.filterMap edge?).map (fun edge =>
      ((ends constraints)[edge.source]?.map Value.id, edge.relation,
        (ends constraints)[edge.target]?.map Value.id)) =
    (distinct constraints).map fun constraint =>
      (some constraint.left.id, constraint.relation, some constraint.right.id)
  readBack : readAll lines = (distinct constraints).map fun constraint =>
    (labelAmong annotations (ends constraints) constraint.left, constraint.relation,
      labelAmong annotations (ends constraints) constraint.right)

/-- The lines of a diagram show the constraints that it was made of. -/
theorem lines_depict (annotations : Annotations) (constraints : List Constraint)
    (title : String) :
    Depicts annotations constraints
      ((Diagram.ofConstraints annotations constraints title).statements.map line) where
  edges := by
    rw [filter_edge_lines, Diagram.edgesOf_ofConstraints, List.map_map]
    rfl
  nodes := by
    rw [filter_node_lines, Diagram.nodesOf_ofConstraints, Diagram.numbered]
    simp [List.mapIdx_eq_zipIdx_map]
  either := by
    intro shown member
    rcases List.mem_map.mp member with ⟨statement, -, rfl⟩
    rw [edge?_line, node?_line]
    cases statement <;> rfl
  ordered := by
    intro before shown after edge split isEdge
    rcases List.map_eq_append_iff.mp split with ⟨earlier, others, whole, rfl, othersShown⟩
    rcases List.map_eq_cons_iff.mp othersShown with ⟨statement, later, rfl, rfl, rfl⟩
    have initial : earlier ++ [statement] <+:
        (Diagram.ofConstraints annotations constraints title).statements :=
      ⟨later, by rw [whole, List.append_assoc, List.singleton_append]⟩
    rw [edge?_line] at isEdge
    rw [filterMap_node?_lines, List.map_map]
    change edge.source ∈ (Diagram.nodesOf earlier).map Prod.fst ∧
      edge.target ∈ (Diagram.nodesOf earlier).map Prod.fst
    cases statement with
    | node number label => cases isEdge
    | edge source target relation derived =>
        have closed := Diagram.closed_of_prefix initial edge
        rw [Diagram.edgesOf_concat_edge, Diagram.nodesOf_concat_edge] at closed
        cases isEdge
        exact closed (List.mem_append_right _ (List.mem_singleton.mpr rfl))
  joins := by
    rw [filterMap_edge?_lines, Diagram.edgesOf_ofConstraints, List.map_map]
    refine List.map_congr_left fun constraint member => ?_
    have used := Diagram.distinct_subset constraints member
    have left : constraint.left ∈ sides constraints :=
      List.mem_flatMap.mpr ⟨constraint, used, by simp⟩
    have right : constraint.right ∈ sides constraints :=
      List.mem_flatMap.mpr ⟨constraint, used, by simp⟩
    simp only [Function.comp_apply, edgeAmong, Diagram.getElem?_ends left,
      Diagram.getElem?_ends right]
  readBack := by
    rw [readAll, filterMap_edge?_lines, Diagram.edgesOf_ofConstraints, List.map_map]
    refine List.map_congr_left fun constraint _ => ?_
    simp only [Function.comp_apply, edgeAmong, labelOf?_ofConstraints]

end InfoFlow.Dot
