import InfoFlow.Proofs.StableSort.Insertion
import InfoFlow.StableSort.Merge

/-! Merging ascending runs.

Leaps find the number of leading members that pass a test if none passes behind
one that fails. In a merge what was taken stands before all that is left, and
the last held member behind all that is left to draw. Both runs keep that
whether they are read forwards or backwards, and whether members are taken one
by one or a stretch at a time. -/

namespace InfoFlow.StableSort

universe u

variable {Element : Type u}

/-! ## Leaps -/

section Leaps

variable {passes : Element → Bool} {members : List Element} {bound low high known offset fuel : Nat}

structure PassBefore (passes : Element → Bool) (members : List Element) (bound : Nat) : Prop where
  within : bound ≤ members.length
  passes_iff : ∀ index member, members[index]? = some member →
    (passes member = true ↔ index < bound)

theorem leap_bounds (pass : PassBefore passes members bound) (knownPass : known ≤ bound)
    (some : 0 < fuel) (enough : members.length < fuel + offset) :
    (leap passes members fuel known offset).1 ≤ bound ∧
      bound ≤ (leap passes members fuel known offset).2 ∧
      (leap passes members fuel known offset).2 ≤ members.length := by
  induction fuel generalizing known offset with
  | zero => omega
  | succ fuel induction =>
      rw [leap]
      split
      · exact ⟨knownPass, pass.within, Nat.le_refl _⟩
      · next member position =>
          have inside : offset < members.length := (List.getElem?_eq_some_iff.mp position).1
          have tested := pass.passes_iff offset member position
          split
          · next passed =>
              have below := tested.mp passed
              exact induction (by omega) (by omega) (by omega)
          · next failed =>
              have above := mt tested.mpr failed
              exact ⟨knownPass, by omega, by omega⟩

theorem narrow_eq (backward : Bool) (pass : PassBefore passes members bound) (lower : low ≤ bound)
    (upper : bound ≤ high) (inside : high ≤ members.length) (enough : high - low ≤ fuel) :
    narrow backward passes members fuel low high = bound := by
  induction fuel generalizing low high with
  | zero =>
      rw [narrow]
      omega
  | succ fuel induction =>
      have oneOff := backward.toNat_le
      rw [narrow]
      split
      · dsimp only
        split
        · next beyond =>
            rw [List.getElem?_eq_none_iff] at beyond
            omega
        · next member position =>
            have tested := pass.passes_iff _ member position
            split
            · next passed =>
                have below := tested.mp passed
                exact induction (by omega) upper inside (by omega)
            · next failed =>
                have above := mt tested.mpr failed
                exact induction lower (by omega) (by omega) (by omega)
      · omega

theorem countLeading_eq (backward : Bool) (pass : PassBefore passes members bound) :
    countLeading backward passes members = bound := by
  cases members with
  | nil => exact (Nat.le_zero.mp pass.within).symm
  | cons first rest =>
      have tested := pass.passes_iff 0 first rfl
      rw [countLeading]
      split
      · next passed =>
          have bounds := @leap_bounds Element passes (first :: rest) bound 1 1
            (first :: rest).length pass (tested.mp passed) (by simp) (by simp)
          exact narrow_eq backward pass bounds.1 bounds.2.1 bounds.2.2 (Nat.le_refl _)
      · next failed =>
          have above := mt tested.mpr failed
          omega

theorem passBefore_takeWhile
    (closed : members.Pairwise fun first second => passes second = true → passes first = true) :
    PassBefore passes members (members.takeWhile passes).length := by
  refine ⟨(List.takeWhile_sublist passes).length_le, ?_⟩
  induction members with
  | nil => simp
  | cons first rest induction =>
      rw [List.pairwise_cons] at closed
      intro index member position
      cases passed : passes first with
      | true =>
          cases index with
          | zero =>
              cases position
              simp [passed]
          | succ index => simpa [passed] using induction closed.2 index member position
      | false =>
          have failed : ¬ passes member = true := by
            intro later
            rcases List.mem_cons.mp (List.mem_of_getElem? position) with rfl | behind
            · simp [passed] at later
            · simp [closed.1 member behind later] at passed
          simp [passed, failed]

theorem countLeading_spec (backward : Bool)
    (closed : members.Pairwise fun first second => passes second = true → passes first = true) :
    (∀ member, member ∈ members.take (countLeading backward passes members) →
        passes member = true) ∧
      ∀ member, member ∈ members.drop (countLeading backward passes members) →
        passes member = false := by
  have pass := passBefore_takeWhile closed
  rw [countLeading_eq backward pass]
  constructor
  · intro member taken
    rcases List.mem_take_iff_getElem.mp taken with ⟨index, inside, rfl⟩
    exact (pass.passes_iff index _ (List.getElem?_eq_getElem _)).mpr (by omega)
  · intro member dropped
    rcases List.mem_drop_iff_getElem.mp dropped with ⟨index, inside, rfl⟩
    have tested := pass.passes_iff ((members.takeWhile passes).length + index) _
      (List.getElem?_eq_getElem (by omega))
    rw [← Bool.not_eq_true, tested]
    omega

theorem Ascending.countLeading_not_less {less : Element → Element → Bool} {among : List Element}
    {element : Element} (ascending : Ascending less among members) (ranks : Ranks less among)
    (elementMember : element ∈ among) (backward : Bool) :
    (∀ member, member ∈ members.take
        (countLeading backward (fun member => !less element member) members) →
      InOrder less member element) ∧
      ∀ member, member ∈ members.drop
          (countLeading backward (fun member => !less element member) members) →
        less element member = true := by
  have closed : members.Pairwise fun first second =>
      (!less element second) = true → (!less element first) = true := by
    refine ascending.ordered.imp_of_mem fun firstMember secondMember inOrder => ?_
    simp only [Bool.not_eq_true']
    exact ranks.trans _ _ element (ascending.within firstMember) (ascending.within secondMember)
      elementMember inOrder
  have counted := countLeading_spec backward closed
  simp only [Bool.not_eq_true', Bool.not_eq_false'] at counted
  exact counted

theorem Ascending.countLeading_less {less : Element → Element → Bool} {among : List Element}
    {element : Element} (ascending : Ascending less among members) (ranks : Ranks less among)
    (elementMember : element ∈ among) (backward : Bool) :
    (∀ member, member ∈ members.take
        (countLeading backward (fun member => less member element) members) →
      less member element = true) ∧
      ∀ member, member ∈ members.drop
          (countLeading backward (fun member => less member element) members) →
        InOrder less element member := by
  have closed : members.Pairwise fun first second =>
      less second element = true → less first element = true := by
    refine ascending.ordered.imp_of_mem fun firstMember secondMember inOrder smaller => ?_
    apply eq_true_of_ne_false
    intro behind
    have larger := ranks.trans element _ _ elementMember (ascending.within firstMember)
      (ascending.within secondMember) behind inOrder
    exact Bool.eq_false_iff.mp larger smaller
  exact countLeading_spec backward closed

end Leaps

/-! ## Merges under way -/

variable {direction : Direction Element} {among : List Element} {merge : Merge Element}

def Direction.takes (direction : Direction Element) (first second : Element) : Bool :=
  direction.drawsFirst second first

theorem Direction.ranks_takes (ranks : Ranks direction.less among) :
    Ranks direction.takes among := by
  rcases direction with ⟨_ | _, less⟩
  · exact ranks
  · exact ranks.swap

/-- A merge of some elements where what was taken stands before all that is left
and the last member that is held behind all that is left to draw. -/
structure Merge.Ordered (direction : Direction Element) (among : List Element)
    (merge : Merge Element) : Prop where
  held : Ascending direction.takes among (merge.taken.reverse ++ merge.held)
  drawn : Ascending direction.takes among (merge.taken.reverse ++ merge.drawn)
  last : ∀ final, merge.held.getLast? = some final → ∀ member, member ∈ merge.drawn →
    InOrder direction.takes member final

namespace Merge

def remaining (merge : Merge Element) : Nat :=
  merge.held.length + merge.drawn.length

theorem isSettled_eq_false_iff : merge.isSettled = false ↔
    ∃ held next rest drawn later,
      merge.held = held :: next :: rest ∧ merge.drawn = drawn :: later := by
  rcases merge with ⟨taken, _ | ⟨held, _ | ⟨next, rest⟩⟩, _ | ⟨drawn, later⟩⟩ <;> simp [isSettled]

theorem Ordered.heldRun (ordered : merge.Ordered direction among) :
    Ascending direction.takes among merge.held :=
  (Ascending.append_iff.mp ordered.held).2.1

theorem Ordered.drawnRun (ordered : merge.Ordered direction among) :
    Ascending direction.takes among merge.drawn :=
  (Ascending.append_iff.mp ordered.drawn).2.1

theorem Ordered.takeHeld (ordered : merge.Ordered direction among) {amount : Nat}
    (before : ∀ held, held ∈ merge.held.take amount → ∀ drawn, drawn ∈ merge.drawn →
      InOrder direction.takes held drawn) : (merge.takeHeld amount).Ordered direction among := by
  have parts := ordered.held
  rw [← List.take_append_drop amount merge.held, ← List.append_assoc] at parts
  refine ⟨?_, ?_, ?_⟩
  · simpa [Merge.takeHeld] using parts
  · simp only [Merge.takeHeld, List.reverse_append, List.reverse_reverse]
    exact (Ascending.append_iff.mp parts).1.extend ordered.drawn before
  · intro final isLast
    simp only [Merge.takeHeld, List.getLast?_drop] at isLast
    split at isLast
    · cases isLast
    · exact ordered.last final isLast

theorem Ordered.takeDrawn (ordered : merge.Ordered direction among) {amount : Nat}
    (before : ∀ drawn, drawn ∈ merge.drawn.take amount → ∀ held, held ∈ merge.held →
      InOrder direction.takes drawn held) : (merge.takeDrawn amount).Ordered direction among := by
  have parts := ordered.drawn
  rw [← List.take_append_drop amount merge.drawn, ← List.append_assoc] at parts
  refine ⟨?_, ?_, ?_⟩
  · simp only [Merge.takeDrawn, List.reverse_append, List.reverse_reverse]
    exact (Ascending.append_iff.mp parts).1.extend ordered.held before
  · simpa [Merge.takeDrawn] using parts
  · exact fun final isLast member present =>
      ordered.last final isLast member (List.mem_of_mem_drop present)

/-- The stretch of held members comes before what is left to draw, and the next
one to draw before the held members behind the stretch. -/
theorem Ordered.heldStretch (ordered : merge.Ordered direction among)
    (ranks : Ranks direction.takes among) :
    (∀ held, held ∈ merge.held.take (merge.heldStretch direction) →
        ∀ drawn, drawn ∈ merge.drawn → InOrder direction.takes held drawn) ∧
      ∀ drawn, drawn ∈ merge.drawn.take 1 →
        ∀ held, held ∈ merge.held.drop (merge.heldStretch direction) →
          InOrder direction.takes drawn held := by
  have held := ordered.heldRun
  have drawn := ordered.drawnRun
  rw [Merge.heldStretch]
  cases toDraw : merge.drawn with
  | nil => simp
  | cons next later =>
      rw [toDraw] at drawn
      have nextMember : next ∈ among := drawn.within List.mem_cons_self
      have counted := held.countLeading_not_less ranks nextMember direction.backward
      constructor
      · intro member taken
        exact drawn.before_all ranks (held.within (List.mem_of_mem_take taken))
          (counted.1 member taken)
      · intro first isNext member dropped
        have same : first = next := by simpa using isNext
        rw [same]
        exact ranks.inOrder_of_less nextMember (held.within (List.mem_of_mem_drop dropped))
          (counted.2 member dropped)

theorem Ordered.drawnStretch (ordered : merge.Ordered direction among)
    (ranks : Ranks direction.takes among) :
    (∀ drawn, drawn ∈ merge.drawn.take (merge.drawnStretch direction) →
        ∀ held, held ∈ merge.held → InOrder direction.takes drawn held) ∧
      ∀ held, held ∈ merge.held.take 1 →
        ∀ drawn, drawn ∈ merge.drawn.drop (merge.drawnStretch direction) →
          InOrder direction.takes held drawn := by
  have held := ordered.heldRun
  have drawn := ordered.drawnRun
  rw [Merge.drawnStretch]
  cases onHold : merge.held with
  | nil => simp
  | cons next later =>
      rw [onHold] at held
      have nextMember : next ∈ among := held.within List.mem_cons_self
      have counted := drawn.countLeading_less ranks nextMember direction.backward
      constructor
      · intro member taken
        have memberMember := drawn.within (List.mem_of_mem_take taken)
        exact held.before_all ranks memberMember
          (ranks.inOrder_of_less memberMember nextMember (counted.1 member taken))
      · intro first isNext member dropped
        have same : first = next := by simpa using isNext
        rw [same]
        exact counted.2 member dropped

def heldTurn (direction : Direction Element) (merge : Merge Element) : Merge Element :=
  (merge.takeHeld (merge.heldStretch direction)).unlessSettled fun merge => merge.takeDrawn 1

def drawnTurn (direction : Direction Element) (merge : Merge Element) : Merge Element :=
  (merge.takeDrawn (merge.drawnStretch direction)).unlessSettled fun merge => merge.takeHeld 1

theorem takeStretches_eq (direction : Direction Element) (merge : Merge Element) :
    (merge.takeStretches direction).1 =
      if direction.backward then (merge.drawnTurn direction).unlessSettled (heldTurn direction)
      else (merge.heldTurn direction).unlessSettled (drawnTurn direction) := by
  rw [takeStretches]
  split <;> rfl

theorem Ordered.unlessSettled {go : Merge Element → Merge Element}
    (ordered : merge.Ordered direction among) (gone : (go merge).Ordered direction among) :
    (merge.unlessSettled go).Ordered direction among := by
  rw [Merge.unlessSettled]
  split
  · exact ordered
  · exact gone

theorem Ordered.heldTurn (ordered : merge.Ordered direction among)
    (ranks : Ranks direction.takes among) : (merge.heldTurn direction).Ordered direction among := by
  have stretch := ordered.heldStretch ranks
  have taken := ordered.takeHeld stretch.1
  exact taken.unlessSettled (taken.takeDrawn stretch.2)

theorem Ordered.drawnTurn (ordered : merge.Ordered direction among)
    (ranks : Ranks direction.takes among) :
    (merge.drawnTurn direction).Ordered direction among := by
  have stretch := ordered.drawnStretch ranks
  have taken := ordered.takeDrawn stretch.1
  exact taken.unlessSettled (taken.takeHeld stretch.2)

theorem Ordered.takeStretches (ordered : merge.Ordered direction among)
    (ranks : Ranks direction.takes among) :
    (merge.takeStretches direction).1.Ordered direction among := by
  rw [takeStretches_eq]
  split
  · have drawn := ordered.drawnTurn ranks
    exact drawn.unlessSettled (drawn.heldTurn ranks)
  · have held := ordered.heldTurn ranks
    exact held.unlessSettled (held.drawnTurn ranks)

/-! ## Whole merges -/

theorem unlessSettled_remaining {go : Merge Element → Merge Element}
    (gone : (go merge).remaining ≤ merge.remaining) :
    (merge.unlessSettled go).remaining ≤ merge.remaining := by
  rw [unlessSettled]
  split
  · exact Nat.le_refl _
  · exact gone

theorem heldTurn_remaining (direction : Direction Element) (merge : Merge Element) :
    (merge.heldTurn direction).remaining ≤ merge.remaining := by
  have stretch : (merge.takeHeld (merge.heldStretch direction)).remaining ≤ merge.remaining := by
    simp [remaining, takeHeld]
  refine Nat.le_trans (unlessSettled_remaining ?_) stretch
  simp [remaining, takeDrawn]

theorem drawnTurn_remaining (direction : Direction Element) (merge : Merge Element) :
    (merge.drawnTurn direction).remaining ≤ merge.remaining := by
  have stretch : (merge.takeDrawn (merge.drawnStretch direction)).remaining ≤ merge.remaining := by
    simp [remaining, takeDrawn]
  refine Nat.le_trans (unlessSettled_remaining ?_) stretch
  simp [remaining, takeHeld]

theorem heldTurn_remaining_lt (direction : Direction Element)
    (unsettled : merge.isSettled = false) :
    (merge.heldTurn direction).remaining < merge.remaining := by
  rcases isSettled_eq_false_iff.mp unsettled with ⟨held, next, rest, drawn, later, onHold, toDraw⟩
  rw [heldTurn, unlessSettled]
  cases stretch : merge.heldStretch direction with
  | zero =>
      have unchanged : merge.takeHeld 0 = merge := by simp [takeHeld]
      simp [unchanged, unsettled, remaining, takeDrawn, toDraw]
  | succ stretch =>
      split <;> simp [remaining, takeHeld, takeDrawn, onHold] <;> omega

theorem drawnTurn_remaining_lt (direction : Direction Element)
    (unsettled : merge.isSettled = false) :
    (merge.drawnTurn direction).remaining < merge.remaining := by
  rcases isSettled_eq_false_iff.mp unsettled with ⟨held, next, rest, drawn, later, onHold, toDraw⟩
  rw [drawnTurn, unlessSettled]
  cases stretch : merge.drawnStretch direction with
  | zero =>
      have unchanged : merge.takeDrawn 0 = merge := by simp [takeDrawn]
      simp [unchanged, unsettled, remaining, takeHeld, onHold]
  | succ stretch =>
      split <;> simp [remaining, takeHeld, takeDrawn, toDraw] <;> omega

theorem takeStretches_remaining_lt (direction : Direction Element)
    (unsettled : merge.isSettled = false) :
    (merge.takeStretches direction).1.remaining < merge.remaining := by
  rw [takeStretches_eq]
  split
  · exact Nat.lt_of_le_of_lt (unlessSettled_remaining (heldTurn_remaining direction _))
      (drawnTurn_remaining_lt direction unsettled)
  · exact Nat.lt_of_le_of_lt (unlessSettled_remaining (drawnTurn_remaining direction _))
      (heldTurn_remaining_lt direction unsettled)

end Merge

theorem mergeRest_ordered (ranks : Ranks direction.takes among) (fuel : Nat) (pace : Pace)
    (patience : Nat) (ordered : merge.Ordered direction among) :
    (mergeRest direction fuel pace merge patience).1.Ordered direction among := by
  induction fuel generalizing pace merge patience with
  | zero => exact ordered
  | succ fuel induction =>
      have held := ordered.heldRun
      have drawn := ordered.drawnRun
      unfold mergeRest
      split
      · next heldWins drawnWins onHold next rest toDraw later heldIs drawnIs =>
          rw [heldIs] at held
          rw [drawnIs] at drawn
          have onHoldMember : onHold ∈ among := held.within List.mem_cons_self
          have toDrawMember : toDraw ∈ among := drawn.within List.mem_cons_self
          dsimp only
          split
          · next wins =>
              refine induction _ _ (ordered.takeDrawn fun member taken => ?_)
              have same : member = toDraw := by simpa [drawnIs] using taken
              rw [same, heldIs]
              exact held.before_all ranks toDrawMember
                (ranks.inOrder_of_less toDrawMember onHoldMember wins)
          · next loses =>
              refine induction _ _ (ordered.takeHeld fun member taken => ?_)
              have same : member = onHold := by simpa [heldIs] using taken
              rw [same, drawnIs]
              exact drawn.before_all ranks onHoldMember (inOrder_of_not_less loses)
      · have stretches := ordered.takeStretches ranks
        dsimp only
        split
        · exact stretches
        · split
          · exact induction _ _ stretches
          · exact induction _ _ stretches
      · exact ordered

theorem mergeRest_settled (fuel : Nat) (pace : Pace) (patience : Nat)
    (enough : merge.remaining ≤ fuel) :
    (mergeRest direction fuel pace merge patience).1.isSettled = true := by
  induction fuel generalizing pace merge patience with
  | zero =>
      change merge.isSettled = true
      apply eq_true_of_ne_false
      intro unsettled
      rcases Merge.isSettled_eq_false_iff.mp unsettled with
        ⟨held, next, rest, drawn, later, onHold, toDraw⟩
      simp [Merge.remaining, onHold] at enough
  | succ fuel induction =>
      unfold mergeRest
      split
      · next heldWins drawnWins onHold next rest toDraw later heldIs drawnIs =>
          simp only [Merge.remaining, heldIs, drawnIs, List.length_cons] at enough
          dsimp only
          split
          · apply induction
            simp [Merge.remaining, Merge.takeDrawn, heldIs, drawnIs]
            omega
          · apply induction
            simp [Merge.remaining, Merge.takeHeld, heldIs, drawnIs]
            omega
      · next held next rest drawn later heldIs drawnIs =>
          have unsettled : merge.isSettled = false :=
            Merge.isSettled_eq_false_iff.mpr ⟨held, next, rest, drawn, later, heldIs, drawnIs⟩
          have fewer := Merge.takeStretches_remaining_lt direction unsettled
          dsimp only
          split
          · assumption
          · split
            · exact induction _ _ (by omega)
            · exact induction _ _ (by omega)
      · next pace _ _ _ neither both =>
          apply eq_true_of_ne_false
          intro unsettled
          rcases Merge.isSettled_eq_false_iff.mp unsettled with
            ⟨held, next, rest, drawn, later, onHold, toDraw⟩
          cases pace with
          | pairs heldWins drawnWins => exact neither _ _ _ _ _ _ _ rfl onHold toDraw
          | stretches => exact both _ _ _ _ _ rfl onHold toDraw

theorem Merge.Ordered.result (ordered : merge.Ordered direction among)
    (settled : merge.isSettled = true) :
    Ascending direction.less among (merge.result direction) := by
  have whole : Ascending direction.takes among (merge.taken.reverse ++ merge.rest) := by
    have across : ∀ drawn, drawn ∈ merge.drawn → ∀ held, held ∈ merge.held →
        InOrder direction.takes drawn held := by
      intro toDraw drawnPresent onHold heldPresent
      rcases merge with ⟨taken, _ | ⟨final, _ | ⟨next, rest⟩⟩, _ | ⟨first, later⟩⟩
      · cases drawnPresent
      · cases heldPresent
      · cases drawnPresent
      · rw [List.mem_singleton.mp heldPresent]
        exact ordered.last final rfl toDraw drawnPresent
      · cases drawnPresent
      · cases settled
    rw [rest, ← List.append_assoc]
    exact ordered.drawn.extend ordered.held across
  rw [Merge.result]
  rcases direction with ⟨_ | _, less⟩
  · exact whole
  · have reversed := whole.reverse
    rw [List.reverse_append, List.reverse_reverse] at reversed
    exact reversed

theorem mergeHeld_ascending (direction : Direction Element) {held drawn : List Element}
    (ranks : Ranks direction.less among)
    (heldAscending : Ascending direction.takes among held)
    (drawnAscending : Ascending direction.takes among drawn)
    (firstDrawn : ∀ first, drawn.head? = some first → ∀ member, member ∈ held →
      InOrder direction.takes first member)
    (lastHeld : ∀ final, held.getLast? = some final → ∀ member, member ∈ drawn →
      InOrder direction.takes member final) (patience : Nat) :
    Ascending direction.less among (mergeHeld direction held drawn patience).1 := by
  let start : Merge Element := { taken := [], held, drawn }
  have started : start.Ordered direction among := ⟨heldAscending, drawnAscending, lastHeld⟩
  have first : (start.takeDrawn 1).Ordered direction among := by
    refine started.takeDrawn fun member taken => ?_
    cases drawn with
    | nil => cases taken
    | cons next later =>
        have same : member = next := by simpa [start] using taken
        exact same ▸ firstDrawn next rfl
  have enough : (start.takeDrawn 1).remaining ≤ held.length + drawn.length := by
    simp [start, Merge.remaining, Merge.takeDrawn]
  exact (mergeRest_ordered (Direction.ranks_takes ranks) _ _ _ first).result
    (mergeRest_settled _ _ _ enough)

def mergeMiddle (less : Element → Element → Bool) (front back : List Element) (patience : Nat) :
    List Element × Nat :=
  if back.isEmpty then (front, patience)
  else if front.length ≤ back.length then
    mergeHeld { backward := false, less } front back patience
  else mergeHeld { backward := true, less } back.reverse front.reverse patience

section Runs

variable {less : Element → Element → Bool} {left right front back : List Element} {patience : Nat}

theorem mem_mergeMiddle {member : Element}
    (present : member ∈ (mergeMiddle less front back patience).1) :
    member ∈ front ∨ member ∈ back := by
  rw [mergeMiddle] at present
  split at present
  · exact .inl present
  · split at present
    · exact (List.mem_append.mp ((mergeHeld_perm _ _ _ _).mem_iff.mp present)).symm
    · simpa using (mergeHeld_perm _ _ _ _).mem_iff.mp present

theorem mergeMiddle_ascending (ranks : Ranks less among)
    (frontAscending : Ascending less among front) (backAscending : Ascending less among back)
    (firstFirst : ∀ first, back.head? = some first → ∀ member, member ∈ front →
      InOrder less first member)
    (lastLast : ∀ last, front.getLast? = some last → ∀ member, member ∈ back →
      InOrder less member last) :
    Ascending less among (mergeMiddle less front back patience).1 := by
  rw [mergeMiddle]
  split
  · exact frontAscending
  · split
    · exact mergeHeld_ascending { backward := false, less } ranks frontAscending backAscending
        firstFirst lastLast patience
    · apply mergeHeld_ascending { backward := true, less } ranks backAscending.reverse
        frontAscending.reverse
      · intro last isLast member present
        exact lastLast last (by simpa using isLast) member (by simpa using present)
      · intro first isFirst member present
        exact firstFirst first (by simpa using isFirst) member (by simpa using present)

/-- Some members of the left run stay in front, since they can stand before the
whole right run, and some of the right run at the back, since they can stand
behind the last member of the left one. -/
theorem mergeAround_ascending {stay rest : List Element} {first last : Element}
    (ranks : Ranks less among) (leftAscending : Ascending less among (stay ++ front))
    (rightAscending : Ascending less among (back ++ rest))
    (isFirst : (back ++ rest).head? = some first) (isLast : front.getLast? = some last)
    (stayBefore : ∀ member, member ∈ stay → InOrder less member first)
    (firstFirst : ∀ member, member ∈ front → less first member = true)
    (lastLast : ∀ member, member ∈ back → less member last = true)
    (restBehind : ∀ member, member ∈ rest → InOrder less last member) (patience : Nat) :
    Ascending less among (stay ++ (mergeMiddle less front back patience).1 ++ rest) := by
  rcases Ascending.append_iff.mp leftAscending with ⟨inPlace, frontAscending, frontBehind⟩
  rcases Ascending.append_iff.mp rightAscending with ⟨backAscending, behind, backBefore⟩
  have firstMember : first ∈ among := rightAscending.within (List.mem_of_head? isFirst)
  have lastMember : last ∈ among := frontAscending.within (List.mem_of_getLast? isLast)
  have beforeRight : ∀ member, member ∈ stay → ∀ other, other ∈ back ++ rest →
      InOrder less member other := by
    cases whole : back ++ rest with
    | nil => simp
    | cons head tail =>
        rw [whole] at isFirst rightAscending
        cases isFirst
        exact fun member stays =>
          rightAscending.before_all ranks (inPlace.within stays) (stayBefore member stays)
  have merged : Ascending less among (mergeMiddle less front back patience).1 := by
    apply mergeMiddle_ascending ranks frontAscending backAscending
    · intro other isHead member present
      have same : (back ++ rest).head? = some other := by simp [isHead]
      cases isFirst.symm.trans same
      exact ranks.inOrder_of_less firstMember (frontAscending.within present)
        (firstFirst member present)
    · intro other isOther member present
      cases isLast.symm.trans isOther
      exact ranks.inOrder_of_less (backAscending.within present) lastMember
        (lastLast member present)
  rw [List.append_assoc]
  refine Ascending.append_iff.mpr ⟨inPlace, Ascending.append_iff.mpr ⟨merged, behind, ?_⟩, ?_⟩
  · intro member present other later
    rcases mem_mergeMiddle present with inFront | inBack
    · exact ranks.trans member last other (frontAscending.within inFront) lastMember
        (behind.within later) (frontAscending.before_last ranks isLast member inFront)
        (restBehind other later)
    · exact backBefore member inBack other later
  · intro member stays other present
    rcases List.mem_append.mp present with middle | later
    · rcases mem_mergeMiddle middle with inFront | inBack
      · exact frontBehind member stays other inFront
      · exact beforeRight member stays other (List.mem_append_left _ inBack)
    · exact beforeRight member stays other (List.mem_append_right _ later)

theorem mergeRuns_ascending (ranks : Ranks less among) (leftAscending : Ascending less among left)
    (rightAscending : Ascending less among right) (patience : Nat) :
    Ascending less among (mergeRuns less left right patience).1 := by
  cases right with
  | nil => exact leftAscending
  | cons first rest =>
      have firstMember : first ∈ among := rightAscending.within List.mem_cons_self
      have countedLeft := leftAscending.countLeading_not_less ranks firstMember false
      rw [mergeRuns]
      dsimp only
      generalize countLeading false (fun member => !less first member) left = before
        at countedLeft ⊢
      have leftParts := leftAscending
      rw [← List.take_append_drop before left] at leftParts
      split
      · next nothing =>
          have whole : left.take before = left := by
            have dropped := List.getLast?_eq_none_iff.mp nothing
            simpa [dropped] using List.take_append_drop before left
          rw [whole] at countedLeft
          refine Ascending.append_iff.mpr ⟨leftAscending, rightAscending, fun member present => ?_⟩
          exact rightAscending.before_all ranks (leftAscending.within present)
            (countedLeft.1 member present)
      · next last isLast =>
          have lastMember : last ∈ among :=
            leftAscending.within (List.mem_of_mem_drop (List.mem_of_getLast? isLast))
          have countedRight :=
            rightAscending.reverse.countLeading_not_less ranks.swap lastMember true
          simp only [swap, inOrder_swap, List.take_reverse, List.drop_reverse,
            List.mem_reverse] at countedRight
          generalize (first :: rest).length -
            countLeading true (fun member => !less member last) (first :: rest).reverse = kept
            at countedRight ⊢
          have whole := List.take_append_drop kept (first :: rest)
          exact mergeAround_ascending ranks leftParts (whole.symm ▸ rightAscending)
            (whole.symm ▸ rfl) isLast countedLeft.1 countedLeft.2 countedRight.2 countedRight.1
            patience

end Runs

end InfoFlow.StableSort
