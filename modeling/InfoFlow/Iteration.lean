/-! Repetition of a step until it has nothing left to do.

A step answers `none` when its state is finished. Every loop of this library
is an `iterate` with a number of rounds computed from its input, so an
invariant of the step is an invariant of the loop. -/

namespace InfoFlow

universe u

/-- Repeat `step` until it answers `none`, for at most the given number of
rounds. -/
def iterate {State : Type u} (step : State → Option State) : Nat → State → State
  | 0, state => state
  | rounds + 1, state =>
      match step state with
      | none => state
      | some next => iterate step rounds next

example : iterate (fun number => if number < 5 then some (number + 2) else none) 9 0 = 6 := rfl

theorem iterate_of_finished {State : Type u} {step : State → Option State}
    {state : State} (finished : step state = none) (rounds : Nat) :
    iterate step rounds state = state := by
  cases rounds with
  | zero => rfl
  | succ rounds => simp [iterate, finished]

theorem iterate_preserves {State : Type u} {step : State → Option State}
    {Invariant : State → Prop}
    (kept : ∀ state next, step state = some next → Invariant state → Invariant next)
    (rounds : Nat) {state : State} (initially : Invariant state) :
    Invariant (iterate step rounds state) := by
  induction rounds generalizing state with
  | zero => exact initially
  | succ rounds induction =>
      cases stepped : step state with
      | none => simpa [iterate, stepped] using initially
      | some next =>
          simpa [iterate, stepped] using induction (kept state next stepped initially)

/-- If every step from a state of the invariant makes `measure` smaller, a
repetition with at least as many rounds as the measure ends in a finished
state. -/
theorem iterate_finishes {State : Type u} {step : State → Option State}
    {Invariant : State → Prop} (measure : State → Nat)
    (kept : ∀ state next, step state = some next → Invariant state → Invariant next)
    (decreasing : ∀ state next, step state = some next → Invariant state →
      measure next < measure state)
    {rounds : Nat} {state : State} (initially : Invariant state)
    (enough : measure state ≤ rounds) : step (iterate step rounds state) = none := by
  induction rounds generalizing state with
  | zero =>
      cases stepped : step state with
      | none => simpa [iterate] using stepped
      | some next =>
          have smaller := decreasing state next stepped initially
          omega
  | succ rounds induction =>
      cases stepped : step state with
      | none => simp [iterate, stepped]
      | some next =>
          have smaller := decreasing state next stepped initially
          have fewer : measure next ≤ rounds := by omega
          simpa [iterate, stepped] using induction (kept state next stepped initially) fewer

theorem iterate_succ {State : Type u} {step : State → Option State} (rounds : Nat)
    (state : State) :
    iterate step (rounds + 1) state = (step (iterate step rounds state)).getD
      (iterate step rounds state) := by
  induction rounds generalizing state with
  | zero => cases stepped : step state <;> simp [iterate, stepped]
  | succ rounds induction =>
      cases stepped : step state with
      | none => simp [iterate, stepped]
      | some next =>
          have unfolded : iterate step (rounds + 1) state = iterate step rounds next := by
            simp [iterate, stepped]
          rw [unfolded, ← induction next]
          simp [iterate, stepped]

theorem iterate_add {State : Type u} {step : State → Option State} (first second : Nat)
    (state : State) :
    iterate step (first + second) state = iterate step second (iterate step first state) := by
  induction second with
  | zero => rfl
  | succ second induction => rw [← Nat.add_assoc, iterate_succ, iterate_succ, induction]

theorem iterate_eq_of_finished {State : Type u} {step : State → Option State} {state : State}
    {first second : Nat} (firstFinished : step (iterate step first state) = none)
    (secondFinished : step (iterate step second state) = none) :
    iterate step first state = iterate step second state := by
  have forth : iterate step (first + second) state = _ := iterate_add first second state
  have back : iterate step (second + first) state = _ := iterate_add second first state
  rw [iterate_of_finished firstFinished] at forth
  rw [iterate_of_finished secondFinished, Nat.add_comm] at back
  exact forth.symm.trans back

/-- If states that are related stay so, one step after the other, and finish
together, then repetitions that end in finished states end in related ones. -/
theorem iterate_related {First Second : Type u} {firstStep : First → Option First}
    {secondStep : Second → Option Second} {Related : First → Second → Prop}
    (kept : ∀ first second, Related first second →
      (firstStep first = none ∧ secondStep second = none) ∨
        ∃ firstNext secondNext, firstStep first = some firstNext ∧
          secondStep second = some secondNext ∧ Related firstNext secondNext)
    {first : First} {second : Second} (initially : Related first second)
    {firstRounds secondRounds : Nat}
    (firstFinished : firstStep (iterate firstStep firstRounds first) = none)
    (secondFinished : secondStep (iterate secondStep secondRounds second) = none) :
    Related (iterate firstStep firstRounds first) (iterate secondStep secondRounds second) := by
  have lockstep : ∀ (rounds : Nat) (first : First) (second : Second), Related first second →
      Related (iterate firstStep rounds first) (iterate secondStep rounds second) := by
    intro rounds
    induction rounds with
    | zero => exact fun _ _ related => related
    | succ rounds induction =>
        intro first second related
        rcases kept first second related with
          ⟨firstEnd, secondEnd⟩ | ⟨firstNext, secondNext, firstStepped, secondStepped, later⟩
        · simp only [iterate, firstEnd, secondEnd]
          exact related
        · simp only [iterate, firstStepped, secondStepped]
          exact induction firstNext secondNext later
  have both := lockstep (firstRounds + secondRounds) first second initially
  rwa [iterate_add, iterate_of_finished firstFinished, Nat.add_comm, iterate_add,
    iterate_of_finished secondFinished] at both

end InfoFlow
