import InfoFlow.StableSort.Insertion
import InfoFlow.StableSort.Merge

/-! Sorting by a strict comparison.

The list is split into runs of a shortest length or more. The leading run of
what is left is made up to that length by insertion, and the runs are merged so
that the merges are nearly balanced. A list of fewer than sixty-four members is
a single run. Members that do not differ in order keep their places. The result
is fixed for every comparison, also for one that is no order. -/

namespace InfoFlow.StableSort

universe u

variable {Element : Type u}

/-! ## Splitting into runs -/

/-- The shortest run of a list: its size, halved until it is below sixty-four
and rounded up. -/
def shortestRun (size : Nat) : Nat :=
  let parts := Nat.pow 2 (size.log2 - 5)
  (size + parts - 1) / parts

example : [0, 1, 63, 64, 65, 127, 128, 1000].map shortestRun = [0, 1, 63, 32, 33, 64, 32, 63] :=
  rfl

def nextRun (less : Element → Element → Bool) (shortest : Nat) (elements : List Element) :
    List Element × List Element :=
  let leading := leadingRun less elements
  let missing := shortest - leading.1.length
  ((leading.2.take missing).foldl (insert less) leading.1, leading.2.drop missing)

/-! ## Merging runs -/

structure Run (Element : Type u) where
  start : Nat
  depth : Nat
  members : List Element

namespace Run

def size (run : Run Element) : Nat :=
  run.members.length

def middle (run : Run Element) : Nat :=
  2 * run.start + run.size

end Run

/-- How deep the boundary between two neighbouring runs is when the list is
halved again and again: the number of halvings that leave the middles of both
runs in one part. -/
def boundaryDepth (size : Nat) (left right : Run Element) : Nat :=
  ((List.range (size.log2 + 1)).find? fun halvings =>
    left.middle * Nat.pow 2 halvings / size != right.middle * Nat.pow 2 halvings / size).getD 0

def Run.merge (less : Element → Element → Bool) (left right : Run Element) (patience : Nat) :
    Run Element × Nat :=
  let merged := mergeRuns less left.members right.members patience
  ({ left with members := merged.1 }, merged.2)

/-- The runs that wait to be merged, last run first, and the patience of the
next merge. -/
structure Waiting (Element : Type u) where
  runs : List (Run Element) := []
  patience : Nat := firstPatience

def mergeDeeper (less : Element → Element → Bool) (depth : Nat) (last : Run Element) :
    List (Run Element) → Nat → Waiting Element
  | [], patience => { runs := [last], patience }
  | left :: before, patience =>
      if depth < last.depth then
        let merged := left.merge less last patience
        mergeDeeper less depth merged.1 before merged.2
      else { runs := last :: left :: before, patience }

def Waiting.push (less : Element → Element → Bool) (size : Nat) (waiting : Waiting Element)
    (members : List Element) : Waiting Element :=
  match waiting.runs with
  | [] => { waiting with runs := [{ start := 0, depth := 0, members }] }
  | last :: before =>
      let run : Run Element := { start := last.start + last.size, depth := 0, members }
      let depth := boundaryDepth size last run
      let merged := mergeDeeper less depth last before waiting.patience
      { merged with runs := { run with depth } :: merged.runs }

def membersOf (runs : List (Run Element)) : List Element :=
  runs.reverse.flatMap Run.members

/-- Merge all runs, from the last one to the first. Of three runs the one in the
middle goes with the shorter of its neighbours. Each of the `fuel` rounds merges
two runs. -/
def mergeAll (less : Element → Element → Bool) :
    Nat → List (Run Element) → Nat → List Element
  | fuel + 1, last :: middle :: first :: before, patience =>
      if first.size < last.size then
        let merged := first.merge less middle patience
        mergeAll less fuel (last :: merged.1 :: before) merged.2
      else
        let merged := middle.merge less last patience
        mergeAll less fuel (merged.1 :: first :: before) merged.2
  | _ + 1, [last, first], patience => (first.merge less last patience).1.members
  | _, runs, _ => membersOf runs

/-! ## Whole lists -/

def collect (less : Element → Element → Bool) (size : Nat) :
    Nat → List Element → Waiting Element → Waiting Element
  | 0, _, waiting => waiting
  | _ + 1, [], waiting => waiting
  | fuel + 1, elements, waiting =>
      let next := nextRun less (shortestRun size) elements
      collect less size fuel next.2 (waiting.push less size next.1)

def sort (less : Element → Element → Bool) (elements : List Element) : List Element :=
  let size := elements.length
  let waiting := collect less size size elements {}
  mergeAll less waiting.runs.length waiting.runs waiting.patience

example : sort (fun left right => decide (left < right)) [3, 1, 2, 3, 0] = [0, 1, 2, 3, 3] := rfl

example :
    sort (fun left right => decide (left.1 < right.1)) [(2, 'a'), (1, 'b'), (2, 'c'), (1, 'd')] =
      [(1, 'b'), (1, 'd'), (2, 'a'), (2, 'c')] := rfl

/-! ## Sorting rearranges -/

theorem nextRun_perm (less : Element → Element → Bool) (shortest : Nat)
    (elements : List Element) :
    ((nextRun less shortest elements).1 ++ (nextRun less shortest elements).2).Perm elements := by
  unfold nextRun
  dsimp only
  refine ((foldl_insert_perm less _ _).append_right _).trans ?_
  rw [List.append_assoc, List.take_append_drop]
  exact leadingRun_perm less elements

private theorem length_nextRun_lt (less : Element → Element → Bool) (shortest : Nat)
    (first : Element) (rest : List Element) :
    (nextRun less shortest (first :: rest)).2.length < (first :: rest).length := by
  have whole := (leadingRun_perm less (first :: rest)).length_eq
  have nonempty := List.length_pos_iff.mpr (leadingRun_fst_ne_nil less first rest)
  simp only [List.length_append] at whole
  simp only [nextRun, List.length_drop]
  omega

private theorem membersOf_cons (last : Run Element) (before : List (Run Element)) :
    membersOf (last :: before) = membersOf before ++ last.members := by
  simp [membersOf]

private theorem merge_members (less : Element → Element → Bool) (left right : Run Element)
    (patience : Nat) :
    (left.merge less right patience).1.members.Perm (left.members ++ right.members) :=
  mergeRuns_perm less left.members right.members patience

private theorem mergeDeeper_perm (less : Element → Element → Bool) (depth : Nat)
    (last : Run Element) (before : List (Run Element)) (patience : Nat) :
    (membersOf (mergeDeeper less depth last before patience).runs).Perm
      (membersOf (last :: before)) := by
  induction before generalizing last patience with
  | nil => exact List.Perm.refl _
  | cons left before induction =>
      rw [mergeDeeper]
      split
      · refine (induction _ _).trans ?_
        simp only [membersOf_cons, List.append_assoc]
        exact (merge_members less left last patience).append_left _
      · exact List.Perm.refl _

private theorem push_perm (less : Element → Element → Bool) (size : Nat)
    (waiting : Waiting Element) (members : List Element) :
    (membersOf (waiting.push less size members).runs).Perm
      (membersOf waiting.runs ++ members) := by
  unfold Waiting.push
  split
  · next empty => simp [empty, membersOf]
  · next last before known =>
      rw [known, membersOf_cons]
      exact (mergeDeeper_perm less _ last before _).append_right members

private theorem mergeAll_perm (less : Element → Element → Bool) (fuel : Nat)
    (runs : List (Run Element)) (patience : Nat) :
    (mergeAll less fuel runs patience).Perm (membersOf runs) := by
  induction fuel generalizing runs patience with
  | zero => exact List.Perm.refl _
  | succ fuel induction =>
      match runs with
      | [] => exact List.Perm.refl _
      | [only] => exact List.Perm.refl _
      | [last, first] => simpa [mergeAll, membersOf] using merge_members less first last patience
      | last :: middle :: first :: before =>
          rw [mergeAll]
          split
          · refine (induction _ _).trans ?_
            simp only [membersOf_cons]
            refine List.Perm.append_right last.members ?_
            rw [List.append_assoc]
            exact (merge_members less first middle patience).append_left _
          · refine (induction _ _).trans ?_
            simp only [membersOf_cons]
            rw [List.append_assoc _ middle.members]
            exact (merge_members less middle last patience).append_left _

private theorem collect_perm (less : Element → Element → Bool) (size fuel : Nat)
    (elements : List Element) (waiting : Waiting Element) (enough : elements.length ≤ fuel) :
    (membersOf (collect less size fuel elements waiting).runs).Perm
      (membersOf waiting.runs ++ elements) := by
  induction fuel generalizing elements waiting with
  | zero => simp [List.length_eq_zero_iff.mp (Nat.le_zero.mp enough), collect]
  | succ fuel induction =>
      match elements with
      | [] => simp [collect]
      | first :: rest =>
          have shorter := length_nextRun_lt less (shortestRun size) first rest
          rw [collect]
          · refine (induction _ _ (by omega)).trans ?_
            refine ((push_perm less size waiting _).append_right _).trans ?_
            rw [List.append_assoc]
            exact (nextRun_perm less _ _).append_left _
          · simp

theorem sort_perm (less : Element → Element → Bool) (elements : List Element) :
    (sort less elements).Perm elements :=
  (mergeAll_perm less _ _ _).trans
    (collect_perm less elements.length elements.length elements {} (Nat.le_refl _))

@[simp] theorem mem_sort {less : Element → Element → Bool} {elements : List Element}
    {element : Element} : element ∈ sort less elements ↔ element ∈ elements :=
  (sort_perm less elements).mem_iff

end InfoFlow.StableSort
