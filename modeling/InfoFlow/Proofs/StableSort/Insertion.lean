import InfoFlow.StableSort.Insertion

/-! Ascending runs, and insertion into them.

A comparison can put some elements in order if of any two of them one can stand
before the other, and what can stand before one that can stand before a third
can stand before the third. It need not do so beyond these elements. Then a
leading run is ascending, and stays so when an element goes into it. -/

namespace InfoFlow.StableSort

universe u

variable {Element : Type u} {less : Element → Element → Bool}
  {among front back members sorted : List Element} {element first second third : Element}

def InOrder (less : Element → Element → Bool) (first second : Element) : Prop :=
  less second first = false

/-- A comparison can put some elements in order. -/
structure Ranks (less : Element → Element → Bool) (among : List Element) : Prop where
  total : ∀ first second, first ∈ among → second ∈ among →
    InOrder less first second ∨ InOrder less second first
  trans : ∀ first second third, first ∈ among → second ∈ among → third ∈ among →
    InOrder less first second → InOrder less second third → InOrder less first third

structure Ascending (less : Element → Element → Bool) (among members : List Element) : Prop where
  within : members ⊆ among
  ordered : members.Pairwise (InOrder less)

def swap (less : Element → Element → Bool) (first second : Element) : Bool :=
  less second first

@[simp] theorem inOrder_swap : InOrder (swap less) first second ↔ InOrder less second first :=
  Iff.rfl

theorem inOrder_of_not_less (larger : ¬ less second first = true) : InOrder less first second :=
  Bool.eq_false_iff.mpr larger

theorem Ranks.swap (ranks : Ranks less among) : Ranks (swap less) among where
  total := fun first second firstMember secondMember =>
    ranks.total second first secondMember firstMember
  trans := fun first second third firstMember secondMember thirdMember lower upper =>
    ranks.trans third second first thirdMember secondMember firstMember upper lower

theorem Ranks.inOrder_of_less (ranks : Ranks less among) (firstMember : first ∈ among)
    (secondMember : second ∈ among) (smaller : less first second = true) :
    InOrder less first second := by
  apply (ranks.total first second firstMember secondMember).resolve_right
  intro inOrder
  rw [InOrder, smaller] at inOrder
  cases inOrder

theorem Ranks.refl (ranks : Ranks less among) (member : element ∈ among) :
    InOrder less element element := by
  simpa using ranks.total element element member member

namespace Ascending

@[simp] theorem nil : Ascending less among [] :=
  ⟨List.nil_subset _, .nil⟩

theorem singleton (member : element ∈ among) : Ascending less among [element] :=
  ⟨by simpa using member, by simp⟩

theorem append_iff : Ascending less among (front ++ back) ↔
    Ascending less among front ∧ Ascending less among back ∧
      ∀ first, first ∈ front → ∀ second, second ∈ back → InOrder less first second := by
  constructor
  · rintro ⟨within, ordered⟩
    rw [List.append_subset] at within
    rw [List.pairwise_append] at ordered
    exact ⟨⟨within.1, ordered.1⟩, ⟨within.2, ordered.2.1⟩, ordered.2.2⟩
  · rintro ⟨lower, upper, across⟩
    exact ⟨List.append_subset.mpr ⟨lower.within, upper.within⟩,
      List.pairwise_append.mpr ⟨lower.ordered, upper.ordered, across⟩⟩

theorem extend {rest : List Element} (ascending : Ascending less among (front ++ back))
    (onward : Ascending less among (front ++ rest))
    (before : ∀ first, first ∈ back → ∀ second, second ∈ rest → InOrder less first second) :
    Ascending less among (front ++ back ++ rest) := by
  rcases append_iff.mp onward with ⟨-, rest, across⟩
  refine append_iff.mpr ⟨ascending, rest, fun member present => ?_⟩
  rcases List.mem_append.mp present with earlier | later
  · exact across member earlier
  · exact before member later

theorem cons_iff : Ascending less among (first :: members) ↔
    first ∈ among ∧ Ascending less among members ∧
      ∀ second, second ∈ members → InOrder less first second := by
  constructor
  · rintro ⟨within, ordered⟩
    rw [List.cons_subset] at within
    rw [List.pairwise_cons] at ordered
    exact ⟨within.1, ⟨within.2, ordered.2⟩, ordered.1⟩
  · rintro ⟨member, rest, before⟩
    exact ⟨List.cons_subset.mpr ⟨member, rest.within⟩,
      List.pairwise_cons.mpr ⟨before, rest.ordered⟩⟩

theorem reverse (ascending : Ascending less among members) :
    Ascending (swap less) among members.reverse where
  within := by simpa using ascending.within
  ordered := List.pairwise_reverse.mpr ascending.ordered

theorem before_all (ascending : Ascending less among (first :: members)) (ranks : Ranks less among)
    (elementMember : element ∈ among) (before : InOrder less element first) :
    ∀ member, member ∈ first :: members → InOrder less element member := by
  rw [cons_iff] at ascending
  rcases ascending with ⟨firstMember, rest, follows⟩
  intro member present
  rcases List.mem_cons.mp present with rfl | later
  · exact before
  · exact ranks.trans element first member elementMember firstMember (rest.within later) before
      (follows member later)

theorem before_last (ascending : Ascending less among members) (ranks : Ranks less among)
    (isLast : members.getLast? = some element) :
    ∀ member, member ∈ members → InOrder less member element := by
  rcases List.getLast?_eq_some_iff.mp isLast with ⟨earlier, rfl⟩
  rcases append_iff.mp ascending with ⟨-, single, across⟩
  intro member present
  rcases List.mem_append.mp present with before | itself
  · exact across member before element List.mem_cons_self
  · rw [List.mem_singleton.mp itself]
    exact ranks.refl (single.within List.mem_cons_self)

theorem cons (ascending : Ascending less among (first :: members)) (ranks : Ranks less among)
    (elementMember : element ∈ among) (before : InOrder less element first) :
    Ascending less among (element :: first :: members) :=
  cons_iff.mpr ⟨elementMember, ascending, ascending.before_all ranks elementMember before⟩

end Ascending

/-! ## Insertion -/

theorem bisect_ascending (ranks : Ranks less among) (elementMember : element ∈ among)
    {halvings : Nat} (enough : sorted.length ≤ halvings)
    (ascending : Ascending less among sorted) :
    Ascending less among (bisect less element halvings sorted) := by
  induction halvings generalizing sorted with
  | zero =>
      have empty : sorted = [] := List.length_eq_zero_iff.mp (by omega)
      rw [empty]
      exact .singleton elementMember
  | succ halvings induction =>
      rw [bisect]
      split
      · exact .singleton elementMember
      · next pivot above dropped =>
          have halves : sorted.take (sorted.length / 2) ++ pivot :: above = sorted := by
            rw [← dropped, List.take_append_drop]
          have sizes := congrArg List.length halves
          simp only [List.length_append, List.length_cons] at sizes
          rw [← halves] at ascending
          rcases Ascending.append_iff.mp ascending with ⟨lower, upper, across⟩
          rcases Ascending.cons_iff.mp upper with ⟨pivotMember, rest, follows⟩
          split
          · next smaller =>
              have before := ranks.inOrder_of_less elementMember pivotMember smaller
              apply Ascending.append_iff.mpr
              refine ⟨induction (by omega) lower, upper, fun member present => ?_⟩
              rcases List.mem_cons.mp ((bisect_perm less element halvings _ (by omega)).mem_iff.mp
                present) with rfl | below
              · exact upper.before_all ranks elementMember before
              · exact across member below
          · next larger =>
              have behind : InOrder less pivot element := inOrder_of_not_less larger
              have inserted : ∀ member, member ∈ bisect less element halvings above →
                  member = element ∨ member ∈ above := fun member present =>
                List.mem_cons.mp ((bisect_perm less element halvings above (by omega)).mem_iff.mp
                  present)
              have ascends :
                  Ascending less among (pivot :: bisect less element halvings above) := by
                refine Ascending.cons_iff.mpr ⟨pivotMember, induction (by omega) rest, ?_⟩
                intro member present
                rcases inserted member present with rfl | known
                · exact behind
                · exact follows member known
              refine Ascending.append_iff.mpr ⟨lower, ascends, fun member below => ?_⟩
              exact ascends.before_all ranks (lower.within below)
                (across member below pivot List.mem_cons_self)

theorem insert_ascending (ranks : Ranks less among) (elementMember : element ∈ among)
    (ascending : Ascending less among sorted) : Ascending less among (insert less sorted element) :=
  bisect_ascending ranks elementMember (Nat.le_refl _) ascending

theorem foldl_insert_ascending (ranks : Ranks less among) (within : members ⊆ among)
    (ascending : Ascending less among sorted) :
    Ascending less among (members.foldl (insert less) sorted) := by
  induction members generalizing sorted with
  | nil => exact ascending
  | cons element rest induction =>
      rw [List.cons_subset] at within
      exact induction within.2 (insert_ascending ranks within.1 ascending)

/-! ## Leading runs -/

private theorem ascendingRun_ascending (ranks : Ranks less among)
    (within : first :: members ⊆ among) :
    Ascending less among (first :: (ascendingRun less first members).1) := by
  induction members generalizing first with
  | nil => exact .singleton (within List.mem_cons_self)
  | cons next rest induction =>
      rw [List.cons_subset] at within
      rw [ascendingRun]
      split
      · exact .singleton within.1
      · next larger =>
          exact (induction within.2).cons ranks within.1 (inOrder_of_not_less larger)

private theorem descendingRun_ascending (ranks : Ranks less among)
    (within : first :: members ⊆ among) :
    Ascending (swap less) among (first :: (descendingRun less first members).1) := by
  induction members generalizing first with
  | nil => exact .singleton (within List.mem_cons_self)
  | cons next rest induction =>
      rw [List.cons_subset] at within
      rw [descendingRun]
      split
      · next smaller =>
          have nextMember := within.2 List.mem_cons_self
          exact (induction within.2).cons ranks.swap within.1
            (ranks.inOrder_of_less nextMember within.1 smaller)
      · exact .singleton within.1

theorem leadingRun_ascending (ranks : Ranks less among) (within : members ⊆ among) :
    Ascending less among (leadingRun less members).1 := by
  match members with
  | [] => exact .nil
  | [only] => exact .singleton (within List.mem_cons_self)
  | first :: next :: rest =>
      rw [List.cons_subset] at within
      have nextMember := within.2 List.mem_cons_self
      rw [leadingRun]
      split
      · next smaller =>
          have descending := (descendingRun_ascending ranks within.2).cons ranks.swap within.1
            (ranks.inOrder_of_less nextMember within.1 smaller)
          exact descending.reverse
      · next larger =>
          exact (ascendingRun_ascending ranks within.2).cons ranks within.1
            (inOrder_of_not_less larger)

end InfoFlow.StableSort
