import Mathlib.Tactic.ByContra
import InfoFlow.Proofs.StableSort

/-! Lists that are sorted alike in whatever order they come.

A strict order need not tell all elements apart. Where it does, sorting depends
on the elements alone. Where it does not, there are two enumerations of the same
elements in which nothing steps down and two of them are exchanged. Sorting
keeps both as they are. -/

namespace InfoFlow.StableSort

universe u

variable {Element : Type u} {less : Element → Element → Bool}
  {among elements members lower upper : List Element} {element first second : Element}

structure StrictlyOrders (less : Element → Element → Bool) (among : List Element) : Prop where
  irrefl : ∀ element, element ∈ among → less element element = false
  trans : ∀ first second third, first ∈ among → second ∈ among → third ∈ among →
    less first second = true → less second third = true → less first third = true

namespace StrictlyOrders

theorem inOrder (strict : StrictlyOrders less among) (firstMember : first ∈ among)
    (secondMember : second ∈ among) (smaller : less first second = true) :
    InOrder less first second := by
  apply inOrder_of_not_less
  intro larger
  have itself := strict.trans first second first firstMember secondMember firstMember smaller larger
  rw [strict.irrefl first firstMember] at itself
  cases itself

theorem ranks (strict : StrictlyOrders less among)
    (apart : ∀ first second, first ∈ among → second ∈ among → first ≠ second →
      less first second = true ∨ less second first = true) : Ranks less among where
  total := by
    intro first second firstMember secondMember
    by_cases same : first = second
    · rw [same]
      exact .inl (strict.irrefl second secondMember)
    · rcases apart first second firstMember secondMember same with smaller | larger
      · exact .inl (strict.inOrder firstMember secondMember smaller)
      · exact .inr (strict.inOrder secondMember firstMember larger)
  trans := by
    intro first second third firstMember secondMember thirdMember lower upper
    by_cases sameLower : first = second
    · rwa [sameLower]
    · by_cases sameUpper : second = third
      · rwa [← sameUpper]
      · have before := (apart first second firstMember secondMember sameLower).resolve_right
          (Bool.eq_false_iff.mp lower)
        have behind := (apart second third secondMember thirdMember sameUpper).resolve_right
          (Bool.eq_false_iff.mp upper)
        exact strict.inOrder firstMember thirdMember
          (strict.trans first second third firstMember secondMember thirdMember before behind)

private theorem exists_placed (strict : StrictlyOrders less among) (elementMember : element ∈ among)
    (within : members ⊆ among) (ordered : members.Pairwise (InOrder less)) :
    ∃ placed : List Element, placed.Perm (element :: members) ∧
      placed.Pairwise (InOrder less) := by
  induction members with
  | nil => exact ⟨[element], .refl _, by simp⟩
  | cons head tail induction =>
      rw [List.cons_subset] at within
      have parts := List.pairwise_cons.mp ordered
      by_cases smaller : less element head = true
      · refine ⟨element :: head :: tail, .refl _, List.pairwise_cons.mpr ⟨?_, ordered⟩⟩
        intro member present
        rcases List.mem_cons.mp present with rfl | later
        · exact strict.inOrder elementMember within.1 smaller
        · apply inOrder_of_not_less
          intro larger
          have before := strict.trans member element head (within.2 later) elementMember within.1
            larger smaller
          exact Bool.eq_false_iff.mp (parts.1 member later) before
      · rcases induction within.2 parts.2 with ⟨placed, perm, inOrder⟩
        refine ⟨head :: placed, (perm.cons head).trans (.swap element head tail),
          List.pairwise_cons.mpr ⟨fun member present => ?_, inOrder⟩⟩
        rcases List.mem_cons.mp (perm.mem_iff.mp present) with rfl | later
        · exact inOrder_of_not_less smaller
        · exact parts.1 member later

theorem exists_ordered (strict : StrictlyOrders less among) (within : members ⊆ among) :
    ∃ ordered : List Element, ordered.Perm members ∧ ordered.Pairwise (InOrder less) := by
  induction members with
  | nil => exact ⟨[], .refl _, .nil⟩
  | cons element rest induction =>
      rw [List.cons_subset] at within
      rcases induction within.2 with ⟨ordered, perm, inOrder⟩
      have orderedWithin : ordered ⊆ among := fun member present =>
        within.2 (perm.mem_iff.mp present)
      rcases strict.exists_placed within.1 orderedWithin inOrder with ⟨placed, placedPerm, done⟩
      exact ⟨placed, placedPerm.trans (perm.cons element), done⟩

end StrictlyOrders

/-- Two elements between the others, in two parts that never step down: what comes
before one of the two, and what comes before neither. -/
structure Around (less : Element → Element → Bool) (elements : List Element)
    (first second : Element) (lower upper : List Element) : Prop where
  perm : (lower ++ first :: second :: upper).Perm elements
  lowerOrdered : lower.Pairwise (InOrder less)
  upperOrdered : upper.Pairwise (InOrder less)
  below : ∀ member, member ∈ lower → less member first = true ∨ less member second = true
  others : ∀ member, member ∈ upper → less member first = false ∧ less member second = false

theorem StrictlyOrders.exists_around (strict : StrictlyOrders less elements)
    (firstMember : first ∈ elements) (secondMember : second ∈ elements)
    (different : first ≠ second) :
    ∃ lower upper, Around less elements first second lower upper := by
  classical
  let rest := (elements.erase first).erase second
  have split : elements.Perm (first :: second :: rest) :=
    (List.perm_cons_erase firstMember).trans (.cons first
      (List.perm_cons_erase ((List.mem_erase_of_ne different.symm).mpr secondMember)))
  have part : ∀ test : Element → Bool, rest.filter test ⊆ elements := fun test member kept =>
    List.mem_of_mem_erase (List.mem_of_mem_erase (List.mem_filter.mp kept).1)
  let below : Element → Bool := fun member => less member first || less member second
  rcases strict.exists_ordered (part below) with ⟨lower, lowerPerm, lowerOrdered⟩
  rcases strict.exists_ordered (part fun member => !below member) with
    ⟨upper, upperPerm, upperOrdered⟩
  have whole : (lower ++ upper).Perm rest :=
    (lowerPerm.append upperPerm).trans (List.filter_append_perm below rest)
  refine ⟨lower, upper, ?_, lowerOrdered, upperOrdered, ?_, ?_⟩
  · refine List.perm_middle.trans (.trans (.cons first ?_) split.symm)
    exact List.perm_middle.trans (whole.cons second)
  · intro member present
    simpa [below] using (List.mem_filter.mp (lowerPerm.mem_iff.mp present)).2
  · intro member present
    simpa [below] using (List.mem_filter.mp (upperPerm.mem_iff.mp present)).2

namespace Around

theorem exchange (around : Around less elements first second lower upper) :
    Around less elements second first lower upper where
  perm := (List.Perm.append_left lower (.swap first second upper)).trans around.perm
  lowerOrdered := around.lowerOrdered
  upperOrdered := around.upperOrdered
  below := fun member present => (around.below member present).symm
  others := fun member present => (around.others member present).symm

theorem before_first (around : Around less elements first second lower upper)
    (strict : StrictlyOrders less elements) (neither : less first second = false)
    {member : Element} (present : member ∈ lower) : InOrder less member first := by
  have firstMember : first ∈ elements := around.perm.mem_iff.mp (by simp)
  have secondMember : second ∈ elements := around.perm.mem_iff.mp (by simp)
  have known : member ∈ elements := around.perm.mem_iff.mp (by simp [present])
  rcases around.below member present with smaller | smaller
  · exact strict.inOrder known firstMember smaller
  · apply inOrder_of_not_less
    intro larger
    have reached := strict.trans first member second firstMember known secondMember larger smaller
    exact Bool.eq_false_iff.mp neither reached

theorem across (around : Around less elements first second lower upper)
    (strict : StrictlyOrders less elements) {member other : Element} (present : member ∈ lower)
    (otherPresent : other ∈ upper) : InOrder less member other := by
  have firstMember : first ∈ elements := around.perm.mem_iff.mp (by simp)
  have secondMember : second ∈ elements := around.perm.mem_iff.mp (by simp)
  have known : member ∈ elements := around.perm.mem_iff.mp (by simp [present])
  have otherKnown : other ∈ elements := around.perm.mem_iff.mp (by simp [otherPresent])
  have neither := around.others other otherPresent
  apply inOrder_of_not_less
  intro larger
  rcases around.below member present with smaller | smaller
  · have reached := strict.trans other member first otherKnown known firstMember larger smaller
    exact Bool.eq_false_iff.mp neither.1 reached
  · have reached := strict.trans other member second otherKnown known secondMember larger smaller
    exact Bool.eq_false_iff.mp neither.2 reached

theorem ordered (around : Around less elements first second lower upper)
    (strict : StrictlyOrders less elements) (neither : less first second = false)
    (nor : less second first = false) :
    (lower ++ first :: second :: upper).Pairwise (InOrder less) := by
  simp only [List.pairwise_append, List.pairwise_cons, List.mem_cons, forall_eq_or_imp]
  refine ⟨around.lowerOrdered, ⟨⟨nor, ?_⟩, ?_, around.upperOrdered⟩, ?_⟩
  · exact fun member present => (around.others member present).1
  · exact fun member present => (around.others member present).2
  · intro member present
    exact ⟨around.before_first strict neither present,
      around.exchange.before_first strict nor present,
      fun other otherPresent => around.across strict present otherPresent⟩

end Around

theorem exists_sorted_differently (strict : StrictlyOrders less elements)
    (firstMember : first ∈ elements) (secondMember : second ∈ elements)
    (different : first ≠ second) (neither : less first second = false)
    (nor : less second first = false) :
    ∃ one other : List Element, one.Perm elements ∧ other.Perm elements ∧
      sort less one ≠ sort less other := by
  rcases strict.exists_around firstMember secondMember different with ⟨lower, upper, around⟩
  refine ⟨_, _, around.perm, around.exchange.perm, ?_⟩
  rw [sort_of_ordered (around.ordered strict neither nor),
    sort_of_ordered (around.exchange.ordered strict nor neither)]
  intro same
  exact different (List.cons.inj (List.append_cancel_left same)).1

/-- Sorting by a strict order depends on the elements alone exactly if the order
tells them apart. -/
theorem sort_determined_iff_apart (strict : StrictlyOrders less elements) :
    (∀ other : List Element, other.Perm elements → sort less other = sort less elements) ↔
      ∀ first second, first ∈ elements → second ∈ elements → first ≠ second →
        less first second = true ∨ less second first = true := by
  constructor
  · intro determined first second firstMember secondMember different
    by_contra neither
    simp only [not_or, Bool.not_eq_true] at neither
    rcases exists_sorted_differently strict firstMember secondMember different neither.1
      neither.2 with ⟨one, other, onePerm, otherPerm, unequal⟩
    exact unequal ((determined one onePerm).trans (determined other otherPerm).symm)
  · intro apart other perm
    refine sort_eq_of_perm (strict.ranks apart) ?_ perm
    intro first second firstMember secondMember before behind
    by_contra different
    rcases apart first second firstMember secondMember different with smaller | larger
    · exact Bool.eq_false_iff.mp behind smaller
    · exact Bool.eq_false_iff.mp before larger

end InfoFlow.StableSort
