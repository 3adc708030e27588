/-! Merging two neighbouring runs.

The shorter run is held and the other one is drawn against it. A merge starts
at the front if the left run is held and at the back if the right run is, where
both runs are read backwards. Members are first compared pair by pair. Once one
run has won often enough in a row, whole stretches are taken at a time, and
their ends are found by leaps of doubling length. How many wins are enough is
the patience of the merge. It shrinks while stretches stay long, grows when they
become short, and is handed on to the next merge. -/

namespace InfoFlow.StableSort

universe u

variable {Element : Type u}

/-! ## Leaps -/

/-- Two bounds for the number of leading members that pass, if those before
`known` do: the members at `offset`, twice as far and so on are tested until one
fails. A list of `fuel` members needs no more than `fuel` tests. -/
def leap (passes : Element → Bool) (members : List Element) :
    Nat → Nat → Nat → Nat × Nat
  | 0, known, offset => (known, offset)
  | fuel + 1, known, offset =>
      match members[offset]? with
      | none => (known, members.length)
      | some member =>
          if passes member then leap passes members fuel (offset + 1) (2 * offset + 1)
          else (known, offset)

/-- Narrow two bounds for the number of leading members that pass, by halving.
If two members are in the middle, the one nearer to the start is tested when
`backward` holds, and the other one when it does not. -/
def narrow (backward : Bool) (passes : Element → Bool) (members : List Element) :
    Nat → Nat → Nat → Nat
  | 0, _, high => high
  | fuel + 1, low, high =>
      if low < high then
        let middle := low + (high - low - backward.toNat) / 2
        match members[middle]? with
        | none => high
        | some member =>
            if passes member then narrow backward passes members fuel (middle + 1) high
            else narrow backward passes members fuel low middle
      else high

def countLeading (backward : Bool) (passes : Element → Bool) (members : List Element) : Nat :=
  match members with
  | [] => 0
  | first :: _ =>
      if passes first then
        let (low, high) := leap passes members members.length 1 1
        narrow backward passes members (high - low) low high
      else 0

example : countLeading false (· < 7) [1, 2, 3, 5, 6, 6, 8, 9] = 6 := rfl

example : countLeading true (· < 7) [1, 2, 3, 5, 6, 6, 8, 9] = 6 := rfl

/-! ## Merges under way -/

structure Direction (Element : Type u) where
  backward : Bool
  less : Element → Element → Bool

/-- Whether a member of the drawn run comes before one of the held run. Members
of the left run come first where the order does not tell. -/
def Direction.drawsFirst (direction : Direction Element) (held drawn : Element) : Bool :=
  if direction.backward then direction.less held drawn else direction.less drawn held

/-- The members taken so far, latest first, and what is left of both runs. -/
structure Merge (Element : Type u) where
  taken : List Element
  held : List Element
  drawn : List Element

namespace Merge

def isSettled (merge : Merge Element) : Bool :=
  match merge.held, merge.drawn with
  | _ :: _ :: _, _ :: _ => false
  | _, _ => true

def takeHeld (merge : Merge Element) (amount : Nat) : Merge Element :=
  { merge with
    taken := (merge.held.take amount).reverse ++ merge.taken
    held := merge.held.drop amount }

def takeDrawn (merge : Merge Element) (amount : Nat) : Merge Element :=
  { merge with
    taken := (merge.drawn.take amount).reverse ++ merge.taken
    drawn := merge.drawn.drop amount }

def heldStretch (direction : Direction Element) (merge : Merge Element) : Nat :=
  match merge.drawn with
  | [] => 0
  | next :: _ =>
      countLeading direction.backward (fun held => !direction.drawsFirst held next) merge.held

def drawnStretch (direction : Direction Element) (merge : Merge Element) : Nat :=
  match merge.held with
  | [] => 0
  | next :: _ =>
      countLeading direction.backward (fun drawn => direction.drawsFirst next drawn) merge.drawn

def unlessSettled (merge : Merge Element) (go : Merge Element → Merge Element) : Merge Element :=
  if merge.isSettled then merge else go merge

/-- Take a stretch of each run, and after each stretch the member of the other
run that ended it. The left run has the first turn. The length of the longer
stretch is told with the result. -/
def takeStretches (direction : Direction Element) (merge : Merge Element) :
    Merge Element × Nat :=
  if direction.backward then
    let drawn := merge.drawnStretch direction
    let between := (merge.takeDrawn drawn).unlessSettled fun merge => merge.takeHeld 1
    let held := between.heldStretch direction
    (between.unlessSettled fun merge =>
      (merge.takeHeld held).unlessSettled fun merge => merge.takeDrawn 1, max drawn held)
  else
    let held := merge.heldStretch direction
    let between := (merge.takeHeld held).unlessSettled fun merge => merge.takeDrawn 1
    let drawn := between.drawnStretch direction
    (between.unlessSettled fun merge =>
      (merge.takeDrawn drawn).unlessSettled fun merge => merge.takeHeld 1, max held drawn)

def rest (merge : Merge Element) : List Element :=
  merge.drawn ++ merge.held

def result (direction : Direction Element) (merge : Merge Element) : List Element :=
  if direction.backward then merge.rest.reverse ++ merge.taken
  else merge.taken.reverse ++ merge.rest

end Merge

/-! ## Whole merges -/

/-- How a merge goes on: pair by pair, with the number of wins in a row of
either run, or by stretches. -/
inductive Pace
  | pairs (heldWins drawnWins : Nat)
  | stretches

def longStretch : Nat := 7

def firstPatience : Nat := 7

def mergeRest (direction : Direction Element) :
    Nat → Pace → Merge Element → Nat → Merge Element × Nat
  | 0, _, merge, patience => (merge, patience)
  | fuel + 1, pace, merge, patience =>
      match pace, merge.held, merge.drawn with
      | .pairs heldWins drawnWins, held :: _ :: _, drawn :: _ =>
          let paceAfter (wins : Nat) (pairs : Pace) : Pace :=
            if patience ≤ wins then .stretches else pairs
          if direction.drawsFirst held drawn then
            let wins := drawnWins + 1
            mergeRest direction fuel (paceAfter wins (.pairs 0 wins)) (merge.takeDrawn 1) patience
          else
            let wins := heldWins + 1
            mergeRest direction fuel (paceAfter wins (.pairs wins 0)) (merge.takeHeld 1) patience
      | .stretches, _ :: _ :: _, _ :: _ =>
          let (merge, longer) := merge.takeStretches direction
          if merge.isSettled then (merge, patience)
          else if longStretch ≤ longer then
            mergeRest direction fuel .stretches merge (max 1 (patience - 1))
          else mergeRest direction fuel (.pairs 0 0) merge (patience + 1)
      | _, _, _ => (merge, patience)

def mergeHeld (direction : Direction Element) (held drawn : List Element) (patience : Nat) :
    List Element × Nat :=
  let start : Merge Element := { taken := [], held, drawn }
  let (merge, patience) :=
    mergeRest direction (held.length + drawn.length) (.pairs 0 0) (start.takeDrawn 1) patience
  (merge.result direction, patience)

/-- Merge two neighbouring runs, and tell the patience at the end. Members of
the left run that come before the whole right run stay where they are, and so
do members of the right run that come after the whole left run. -/
def mergeRuns (less : Element → Element → Bool) (left right : List Element) (patience : Nat) :
    List Element × Nat :=
  match right with
  | [] => (left, patience)
  | first :: _ =>
      let before := countLeading false (fun member => !less first member) left
      match (left.drop before).getLast? with
      | none => (left ++ right, patience)
      | some last =>
          let after := countLeading true (fun member => !less member last) right.reverse
          let front := left.drop before
          let back := right.take (right.length - after)
          let (merged, patience) :=
            if back.isEmpty then (front, patience)
            else if front.length ≤ back.length then
              mergeHeld { backward := false, less } front back patience
            else mergeHeld { backward := true, less } back.reverse front.reverse patience
          (left.take before ++ merged ++ right.drop (right.length - after), patience)

/-! ## Merging rearranges -/

namespace Merge

def members (merge : Merge Element) : List Element :=
  merge.taken ++ merge.rest

theorem takeHeld_members (merge : Merge Element) (amount : Nat) :
    (merge.takeHeld amount).members.Perm merge.members := by
  have stretch := (List.reverse_perm (merge.held.take amount)).append_right
    (merge.taken ++ (merge.drawn ++ merge.held.drop amount))
  have whole := List.take_append_drop amount merge.held
  simp only [members, rest, takeHeld, List.append_assoc]
  refine stretch.trans ?_
  conv => rhs; rw [← whole]
  simp only [← List.append_assoc]
  refine List.Perm.append_right _ ?_
  simp only [List.append_assoc]
  rw [← List.append_assoc merge.taken]
  exact List.perm_append_comm

theorem takeDrawn_members (merge : Merge Element) (amount : Nat) :
    (merge.takeDrawn amount).members.Perm merge.members := by
  have stretch := (List.reverse_perm (merge.drawn.take amount)).append_right
    (merge.taken ++ (merge.drawn.drop amount ++ merge.held))
  have whole := List.take_append_drop amount merge.drawn
  simp only [members, rest, takeDrawn, List.append_assoc]
  refine stretch.trans ?_
  conv => rhs; rw [← whole]
  simp only [← List.append_assoc]
  refine List.Perm.append_right _ (List.Perm.append_right _ List.perm_append_comm)

theorem unlessSettled_members {go : Merge Element → Merge Element}
    (keeps : ∀ merge, (go merge).members.Perm merge.members) (merge : Merge Element) :
    (merge.unlessSettled go).members.Perm merge.members := by
  unfold unlessSettled
  split
  · exact List.Perm.refl _
  · exact keeps merge

theorem takeStretches_members (direction : Direction Element) (merge : Merge Element) :
    (merge.takeStretches direction).1.members.Perm merge.members := by
  unfold takeStretches
  split
  · exact (unlessSettled_members (fun between =>
        (unlessSettled_members (fun late => takeDrawn_members late 1) _).trans
          (takeHeld_members between _)) _).trans
      ((unlessSettled_members (fun late => takeHeld_members late 1) _).trans
        (takeDrawn_members merge _))
  · exact (unlessSettled_members (fun between =>
        (unlessSettled_members (fun late => takeHeld_members late 1) _).trans
          (takeDrawn_members between _)) _).trans
      ((unlessSettled_members (fun late => takeDrawn_members late 1) _).trans
        (takeHeld_members merge _))

theorem result_perm (direction : Direction Element) (merge : Merge Element) :
    (merge.result direction).Perm merge.members := by
  unfold result
  split
  · exact ((List.reverse_perm merge.rest).append_right merge.taken).trans List.perm_append_comm
  · exact (List.reverse_perm merge.taken).append_right merge.rest

end Merge

theorem mergeRest_members (direction : Direction Element) (fuel : Nat) (pace : Pace)
    (merge : Merge Element) (patience : Nat) :
    (mergeRest direction fuel pace merge patience).1.members.Perm merge.members := by
  induction fuel generalizing pace merge patience with
  | zero => exact List.Perm.refl _
  | succ fuel induction =>
      unfold mergeRest
      split
      · dsimp only
        split
        · exact (induction _ _ _).trans (merge.takeDrawn_members 1)
        · exact (induction _ _ _).trans (merge.takeHeld_members 1)
      · have stretches := merge.takeStretches_members direction
        dsimp only
        split
        · exact stretches
        · split
          · exact (induction _ _ _).trans stretches
          · exact (induction _ _ _).trans stretches
      · exact List.Perm.refl _

theorem mergeHeld_perm (direction : Direction Element) (held drawn : List Element)
    (patience : Nat) : (mergeHeld direction held drawn patience).1.Perm (drawn ++ held) :=
  (Merge.result_perm direction _).trans
    ((mergeRest_members direction _ _ _ _).trans (Merge.takeDrawn_members _ 1))

theorem mergeRuns_perm (less : Element → Element → Bool) (left right : List Element)
    (patience : Nat) : (mergeRuns less left right patience).1.Perm (left ++ right) := by
  unfold mergeRuns
  split
  · simp
  · next first rest =>
      dsimp only
      split
      · exact List.Perm.refl _
      · next last _ =>
          generalize countLeading false (fun member => !less first member) left = before
          generalize (first :: rest).length -
            countLeading true (fun member => !less member last) (first :: rest).reverse = kept
          have front := List.take_append_drop before left
          have back := List.take_append_drop kept (first :: rest)
          conv => rhs; rw [← front, ← back]
          simp only [List.append_assoc]
          refine List.Perm.append_left _ ?_
          simp only [← List.append_assoc]
          refine List.Perm.append_right _ ?_
          split
          · next empty => simp [List.isEmpty_iff.mp empty]
          · split
            · exact (mergeHeld_perm _ _ _ _).trans List.perm_append_comm
            · exact (mergeHeld_perm _ _ _ _).trans
                ((List.reverse_perm _).append (List.reverse_perm _))

end InfoFlow.StableSort
