import InfoFlow.Proofs.StableSort.Merge
import InfoFlow.StableSort

/-! Sorted lists are in order.

Every run that waits to be merged is ascending, whatever runs were merged before
it, and enough rounds leave one of them. So a list whose members the comparison
can put in order is put in order. If it tells all of them apart there is one way
to do so, and the order in which they came makes no difference. A list that never
steps down stays as it is, whatever the comparison. -/

namespace InfoFlow.StableSort

universe u

variable {Element : Type u} {less : Element → Element → Bool}
  {among members elements other : List Element}

theorem nextRun_ascending (ranks : Ranks less among) (within : members ⊆ among) (shortest : Nat) :
    Ascending less among (nextRun less shortest members).1 ∧
      (nextRun less shortest members).2 ⊆ among := by
  have rest : (leadingRun less members).2 ⊆ among := by
    intro member later
    exact within ((leadingRun_perm less members).mem_iff.mp (List.mem_append_right _ later))
  constructor
  · refine foldl_insert_ascending ranks ?_ (leadingRun_ascending ranks within)
    exact fun member taken => rest (List.mem_of_mem_take taken)
  · exact fun member dropped => rest (List.mem_of_mem_drop dropped)

def Ascend (less : Element → Element → Bool) (among : List Element) (runs : List (Run Element)) :
    Prop :=
  ∀ run, run ∈ runs → Ascending less among run.members

namespace Ascend

variable {runs : List (Run Element)} {run left right : Run Element}

@[simp] theorem cons_iff : Ascend less among (run :: runs) ↔
    Ascending less among run.members ∧ Ascend less among runs :=
  List.forall_mem_cons

theorem merge (ranks : Ranks less among) (leftAscending : Ascending less among left.members)
    (rightAscending : Ascending less among right.members) (patience : Nat) :
    Ascending less among (left.merge less right patience).1.members :=
  mergeRuns_ascending ranks leftAscending rightAscending patience

theorem mergeDeeper (ranks : Ranks less among) (depth patience : Nat)
    (ascend : Ascend less among (run :: runs)) :
    Ascend less among (mergeDeeper less depth run runs patience).runs := by
  induction runs generalizing run patience with
  | nil => exact ascend
  | cons left before induction =>
      rw [StableSort.mergeDeeper]
      split
      · simp only [cons_iff] at ascend
        apply induction
        exact cons_iff.mpr ⟨merge ranks ascend.2.1 ascend.1 patience, ascend.2.2⟩
      · exact ascend

theorem push {waiting : Waiting Element} (ranks : Ranks less among) (size : Nat)
    (ascend : Ascend less among waiting.runs) (ascending : Ascending less among members) :
    Ascend less among (waiting.push less size members).runs := by
  rw [Waiting.push]
  split
  · simpa [Ascend] using ascending
  · next last before known =>
      rw [known] at ascend
      exact cons_iff.mpr ⟨ascending, mergeDeeper ranks _ _ ascend⟩

theorem collect {waiting : Waiting Element} (ranks : Ranks less among) (size fuel : Nat)
    (within : members ⊆ among) (ascend : Ascend less among waiting.runs) :
    Ascend less among (collect less size fuel members waiting).runs := by
  induction fuel generalizing members waiting with
  | zero => exact ascend
  | succ fuel induction =>
      cases members with
      | nil => exact ascend
      | cons first rest =>
          have next := nextRun_ascending ranks within (shortestRun size)
          exact induction next.2 (push ranks size ascend next.1)

theorem mergeAll (ranks : Ranks less among) {fuel : Nat} (enough : runs.length ≤ fuel)
    (patience : Nat) (ascend : Ascend less among runs) :
    Ascending less among (mergeAll less fuel runs patience) := by
  induction fuel generalizing runs patience with
  | zero =>
      have empty : runs = [] := List.length_eq_zero_iff.mp (by omega)
      rw [empty]
      exact .nil
  | succ fuel induction =>
      match runs with
      | [] => exact .nil
      | [only] => simpa [StableSort.mergeAll, membersOf, Ascend] using ascend
      | [last, first] =>
          simp only [cons_iff] at ascend
          exact merge ranks ascend.2.1 ascend.1 patience
      | last :: middle :: first :: before =>
          simp only [cons_iff] at ascend
          rcases ascend with ⟨lastAscending, middleAscending, firstAscending, rest⟩
          simp only [List.length_cons] at enough
          rw [StableSort.mergeAll]
          split
          · apply induction
            · simp
              omega
            · simp only [cons_iff]
              exact ⟨lastAscending, merge ranks firstAscending middleAscending patience, rest⟩
          · apply induction
            · simp
              omega
            · simp only [cons_iff]
              exact ⟨merge ranks middleAscending lastAscending patience, firstAscending, rest⟩

end Ascend

theorem sort_ordered (ranks : Ranks less elements) :
    (sort less elements).Pairwise (InOrder less) := by
  have started : Ascend less elements ({} : Waiting Element).runs := by simp [Ascend]
  have collected := started.collect ranks elements.length elements.length
    (List.Subset.refl elements)
  exact (collected.mergeAll ranks (Nat.le_refl _) _).ordered

/-- If the comparison tells the members apart, the order in which they came makes
no difference. -/
theorem sort_eq_of_perm (ranks : Ranks less elements)
    (apart : ∀ first second, first ∈ elements → second ∈ elements →
      InOrder less first second → InOrder less second first → first = second)
    (perm : other.Perm elements) : sort less other = sort less elements := by
  have otherRanks : Ranks less other :=
    ⟨fun first second firstMember secondMember =>
        ranks.total first second (perm.mem_iff.mp firstMember) (perm.mem_iff.mp secondMember),
      fun first second third firstMember secondMember thirdMember =>
        ranks.trans first second third (perm.mem_iff.mp firstMember) (perm.mem_iff.mp secondMember)
          (perm.mem_iff.mp thirdMember)⟩
  have rearranged : (sort less other).Perm (sort less elements) :=
    (sort_perm less other).trans (perm.trans (sort_perm less elements).symm)
  refine rearranged.eq_of_pairwise ?_ (sort_ordered otherRanks) (sort_ordered ranks)
  intro first second firstMember secondMember
  exact apart first second (perm.mem_iff.mp (mem_sort.mp firstMember)) (mem_sort.mp secondMember)

/-! ## Lists that are in order already -/

private theorem ascendingRun_of_ordered {first : Element}
    (ordered : (first :: members).Pairwise (InOrder less)) :
    ascendingRun less first members = (members, []) := by
  induction members generalizing first with
  | nil => rfl
  | cons next rest induction =>
      rw [List.pairwise_cons] at ordered
      have notLess : less next first = false := ordered.1 next List.mem_cons_self
      simp [ascendingRun, notLess, induction ordered.2]

theorem leadingRun_of_ordered (ordered : members.Pairwise (InOrder less)) :
    leadingRun less members = (members, []) := by
  match members with
  | [] => rfl
  | [only] => rfl
  | first :: second :: rest =>
      rw [List.pairwise_cons] at ordered
      have notLess : less second first = false := ordered.1 second List.mem_cons_self
      simp [leadingRun, notLess, ascendingRun_of_ordered ordered.2]

theorem sort_of_ordered (ordered : elements.Pairwise (InOrder less)) :
    sort less elements = elements := by
  cases elements with
  | nil => rfl
  | cons first rest =>
      have whole : nextRun less (shortestRun (first :: rest).length) (first :: rest) =
          (first :: rest, []) := by
        simp [nextRun, leadingRun_of_ordered ordered]
      have ended : ∀ fuel (waiting : Waiting Element),
          collect less (first :: rest).length fuel [] waiting = waiting := by
        intro fuel waiting
        cases fuel <;> rfl
      have collected :
          collect less (first :: rest).length (first :: rest).length (first :: rest) {} =
            { runs := [{ start := 0, depth := 0, members := first :: rest }] } := by
        rw [List.length_cons, collect, ← List.length_cons, whole, ended]
        · rfl
        · simp
      rw [sort]
      simp only [collected]
      simp [mergeAll, membersOf]

end InfoFlow.StableSort
