import Mathlib.Data.Finset.Basic
import Mathlib.Data.List.Induction
import InfoFlow.Proofs.ConstraintSet

/-! Queues over time.

A queue is used by moves: a constraint comes, or the queue is asked for one. A
discipline says how the queue is kept. Three of them are compared over all sequences
of moves: the two parts of a worklist, the plain list of what is waiting, and that
list with a table of its keys beside it. They give the same answers, and what is
served is what has been waiting longest. -/

namespace InfoFlow

inductive Move
  | add (constraint : Constraint)
  | pop

/-- A way to keep a queue: how a constraint is let in, and how one is served, if
there is any. -/
structure Discipline (State : Type) where
  add : State → Constraint → State
  pop? : State → Option (Constraint × State)

namespace Discipline

variable {State Other : Type} {discipline : Discipline State} {other : Discipline Other}
  {related : State → Other → Prop} {state : State} {otherState : Other} {waiting : List Constraint}
  {moves : List Move}

def next (discipline : Discipline State) (state : State) : Move → State
  | .add constraint => discipline.add state constraint
  | .pop => ((discipline.pop? state).map Prod.snd).getD state

def answer (discipline : Discipline State) (state : State) : Move → List (Option Constraint)
  | .add _ => []
  | .pop => [(discipline.pop? state).map Prod.fst]

def run (discipline : Discipline State) (state : State) (moves : List Move) : State :=
  moves.foldl discipline.next state

def answers (discipline : Discipline State) : State → List Move → List (Option Constraint)
  | _, [] => []
  | state, move :: rest =>
      discipline.answer state move ++ discipline.answers (discipline.next state move) rest

theorem next_pop_of_none (empty : discipline.pop? state = none) :
    discipline.next state .pop = state := by
  rw [next, empty]
  rfl

theorem next_pop_of_some {served : Constraint} {rest : State}
    (popped : discipline.pop? state = some (served, rest)) :
    discipline.next state .pop = rest := by
  rw [next, popped]
  rfl

theorem run_append (discipline : Discipline State) (state : State) (before after : List Move) :
    discipline.run state (before ++ after) = discipline.run (discipline.run state before) after :=
  List.foldl_append

theorem run_concat (discipline : Discipline State) (state : State) (moves : List Move)
    (move : Move) :
    discipline.run state (moves ++ [move]) = discipline.next (discipline.run state moves) move :=
  discipline.run_append state moves [move]

theorem answers_append (discipline : Discipline State) (state : State)
    (before after : List Move) :
    discipline.answers state (before ++ after) =
      discipline.answers state before ++ discipline.answers (discipline.run state before) after := by
  induction before generalizing state with
  | nil => rfl
  | cons move rest induction =>
      rw [List.cons_append, answers, answers, induction, List.append_assoc]
      rfl

/-! ## Agreement -/

/-- Related states of two disciplines serve the same, and stay related. -/
structure Agrees (discipline : Discipline State) (other : Discipline Other)
    (related : State → Other → Prop) : Prop where
  add : ∀ state otherState constraint, related state otherState →
    related (discipline.add state constraint) (other.add otherState constraint)
  pop : ∀ state otherState, related state otherState →
    (discipline.pop? state = none ∧ other.pop? otherState = none) ∨
      ∃ served rest otherRest, discipline.pop? state = some (served, rest) ∧
        other.pop? otherState = some (served, otherRest) ∧ related rest otherRest

theorem Agrees.next (agrees : discipline.Agrees other related) (alike : related state otherState)
    (move : Move) : related (discipline.next state move) (other.next otherState move) ∧
      discipline.answer state move = other.answer otherState move := by
  cases move with
  | add constraint => exact ⟨agrees.add state otherState constraint alike, rfl⟩
  | pop =>
      rcases agrees.pop state otherState alike with
        ⟨none, otherNone⟩ | ⟨served, rest, otherRest, some, otherSome, restAlike⟩
      · simpa [Discipline.next, answer, none, otherNone] using alike
      · simpa [Discipline.next, answer, some, otherSome] using restAlike

theorem Agrees.run (agrees : discipline.Agrees other related) (alike : related state otherState)
    (moves : List Move) : related (discipline.run state moves) (other.run otherState moves) ∧
      discipline.answers state moves = other.answers otherState moves := by
  induction moves generalizing state otherState with
  | nil => exact ⟨alike, rfl⟩
  | cons move rest induction =>
      have first := agrees.next alike move
      have later := induction first.1
      exact ⟨later.1, by rw [answers, answers, first.2, later.2]⟩

/-! ## Disciplines -/

def worklist : Discipline Worklist where
  add := Worklist.add
  pop? := Worklist.pop?

def line : Discipline (List Constraint) where
  add waiting constraint :=
    if constraint.key ∈ waiting.map Constraint.key then waiting else waiting ++ [constraint]
  pop?
    | [] => none
    | served :: rest => some (served, rest)

structure Tabled where
  order : List Constraint := []
  keys : Finset ConstraintKey := ∅

/-- A list with a table. Whether a constraint is waiting is looked up in the table
alone, and what is served is taken out of both. -/
def tabled : Discipline Tabled where
  add queue constraint :=
    if constraint.key ∈ queue.keys then queue
    else ⟨queue.order ++ [constraint], insert constraint.key queue.keys⟩
  pop? queue :=
    match queue.order with
    | [] => none
    | served :: rest => some (served, ⟨rest, queue.keys.erase served.key⟩)

/-- A table is in step with a list that has no key twice if it holds the keys of just
that list. -/
structure Tabled.InStep (queue : Tabled) (waiting : List Constraint) : Prop where
  order : queue.order = waiting
  keys : ∀ key, key ∈ queue.keys ↔ key ∈ waiting.map Constraint.key
  distinct : (waiting.map Constraint.key).Nodup

theorem Tabled.inStep_empty : Tabled.InStep {} [] where
  order := rfl
  keys := by simp
  distinct := List.nodup_nil

theorem worklist_add (queue : Worklist) (constraint : Constraint) :
    worklist.add queue constraint = queue.add constraint := rfl

theorem worklist_pop? (queue : Worklist) : worklist.pop? queue = queue.pop? := rfl

theorem line_add_of_known {constraint : Constraint}
    (known : constraint.key ∈ waiting.map Constraint.key) :
    line.add waiting constraint = waiting :=
  if_pos known

theorem line_add_of_new {constraint : Constraint}
    (new : constraint.key ∉ waiting.map Constraint.key) :
    line.add waiting constraint = waiting ++ [constraint] :=
  if_neg new

theorem tabled_add_of_known {queue : Tabled} {constraint : Constraint}
    (known : constraint.key ∈ queue.keys) : tabled.add queue constraint = queue :=
  if_pos known

theorem tabled_add_of_new {queue : Tabled} {constraint : Constraint}
    (new : constraint.key ∉ queue.keys) :
    tabled.add queue constraint =
      ⟨queue.order ++ [constraint], insert constraint.key queue.keys⟩ :=
  if_neg new

theorem worklist_agrees : worklist.Agrees line fun queue waiting => queue.toList = waiting where
  add := by
    rintro queue waiting constraint rfl
    rw [worklist_add]
    by_cases known : constraint.key ∈ queue.keys
    · rw [Worklist.add_of_contains known, line_add_of_known known]
    · rw [Worklist.toList_add_of_new known, line_add_of_new known]
  pop := by
    rintro queue waiting rfl
    rw [worklist_pop?]
    cases popped : queue.pop? with
    | none =>
        refine .inl ⟨rfl, ?_⟩
        rw [Worklist.toList_eq_nil_of_pop? popped]
        rfl
    | some pair =>
        rcases pair with ⟨served, rest⟩
        refine .inr ⟨served, rest, rest.toList, rfl, ?_, rfl⟩
        rw [Worklist.toList_eq_of_pop? popped]
        rfl

theorem tabled_agrees : tabled.Agrees line Tabled.InStep where
  add := by
    rintro queue waiting constraint ⟨rfl, keys, distinct⟩
    by_cases known : constraint.key ∈ queue.order.map Constraint.key
    · rw [tabled_add_of_known ((keys _).mpr known), line_add_of_known known]
      exact ⟨rfl, keys, distinct⟩
    · rw [tabled_add_of_new fun listed => known ((keys _).mp listed), line_add_of_new known]
      refine ⟨rfl, fun key => ?_, ?_⟩
      · rw [Finset.mem_insert, keys, List.map_append, List.mem_append, List.map_singleton,
          List.mem_singleton, or_comm]
      · rw [List.map_append, List.map_singleton]
        exact distinct.append (List.nodup_singleton _) (List.disjoint_singleton.mpr known)
  pop := by
    rintro ⟨order, table⟩ waiting ⟨rfl, keys, distinct⟩
    cases order with
    | nil => exact .inl ⟨rfl, rfl⟩
    | cons served rest =>
        have parts := List.nodup_cons.mp distinct
        refine .inr ⟨served, _, rest, rfl, rfl, rfl, fun key => ?_, parts.2⟩
        rw [Finset.mem_erase, keys, List.map_cons, List.mem_cons]
        constructor
        · rintro ⟨different, itself | later⟩
          · exact (different itself).elim
          · exact later
        · exact fun later => ⟨fun itself => parts.1 (itself ▸ later), .inr later⟩

theorem line_drains (waiting : List Constraint) :
    line.run waiting (List.replicate waiting.length .pop) = [] ∧
      line.answers waiting (List.replicate waiting.length .pop) = waiting.map some := by
  induction waiting with
  | nil => exact ⟨rfl, rfl⟩
  | cons served rest induction =>
      rw [List.length_cons, List.replicate_succ]
      exact ⟨induction.1, congrArg (some served :: ·) induction.2⟩

end Discipline

namespace Worklist

open Discipline (worklist line tabled)

variable {queue : Worklist} {first second constraint : Constraint} {history : List Move}

/-! ## Time of waiting -/

theorem contains_of_mem (member : constraint ∈ queue.toList) : queue.contains constraint = true :=
  contains_iff.mpr (List.mem_map_of_mem member)

theorem toList_run (queue : Worklist) (moves : List Move) :
    (worklist.run queue moves).toList = line.run queue.toList moves :=
  (Discipline.worklist_agrees.run rfl moves).1

theorem answers_eq (queue : Worklist) (moves : List Move) :
    worklist.answers queue moves = line.answers queue.toList moves :=
  (Discipline.worklist_agrees.run rfl moves).2

/-- At some time the second constraint was not waiting, and since then the first one
has been waiting without a break. -/
def WaitsLonger (history : List Move) (first second : Constraint) : Prop :=
  ∃ before after, history = before ++ after ∧
    (worklist.run {} before).contains second = false ∧
      ∀ part, part <+: after → (worklist.run {} (before ++ part)).contains first = true

theorem WaitsLonger.concat {move : Move} (longer : WaitsLonger history first second)
    (waiting : (worklist.run {} (history ++ [move])).contains first = true) :
    WaitsLonger (history ++ [move]) first second := by
  rcases longer with ⟨before, after, rfl, missing, since⟩
  refine ⟨before, after ++ [move], List.append_assoc _ _ _, missing, fun part initial => ?_⟩
  rcases List.prefix_concat_iff.mp initial with rfl | earlier
  · rwa [← List.append_assoc]
  · exact since part earlier

theorem WaitsLonger.of_new (member : first ∈ (worklist.run {} history).toList)
    (new : second.key ∉ (worklist.run {} history).keys) :
    WaitsLonger (history ++ [.add second]) first second := by
  refine ⟨history, [.add second], rfl, ?_, fun part initial => ?_⟩
  · exact Bool.eq_false_iff.mpr fun present => new (contains_iff.mp present)
  · apply contains_of_mem
    have either : part = [] ∨ part = [.add second] := by
      cases part with
      | nil => exact .inl rfl
      | cons move rest => simpa using List.cons_prefix_cons.mp initial
    rcases either with rfl | rfl
    · rwa [List.append_nil]
    · rw [Discipline.run_concat, Discipline.next, Discipline.worklist_add, toList_add_of_new new]
      exact List.mem_append_left _ member

theorem WaitsLonger.pairwise_concat {move : Move} {waiting remaining : List Constraint}
    (ordered : waiting.Pairwise (WaitsLonger history)) (sublist : remaining.Sublist waiting)
    (still : remaining ⊆ (worklist.run {} (history ++ [move])).toList) :
    remaining.Pairwise (WaitsLonger (history ++ [move])) :=
  (ordered.sublist sublist).imp_of_mem fun member _ longer =>
    longer.concat (contains_of_mem (still member))

theorem pairwise_waitsLonger (history : List Move) :
    (worklist.run {} history).toList.Pairwise (WaitsLonger history) := by
  induction history using List.reverseRecOn with
  | nil => exact List.Pairwise.nil
  | append_singleton earlier last induction =>
      have after := worklist.run_concat {} earlier last
      cases last with
      | add constraint =>
          rw [Discipline.next, Discipline.worklist_add] at after
          by_cases present : constraint.key ∈ (worklist.run {} earlier).keys
          · rw [add_of_contains present] at after
            exact WaitsLonger.pairwise_concat induction (by rw [after]) (List.Subset.refl _)
          · have extended := congrArg toList after
            rw [toList_add_of_new present] at extended
            rw [extended, List.pairwise_append]
            refine ⟨WaitsLonger.pairwise_concat induction (List.Sublist.refl _) ?_,
              List.pairwise_singleton _ _, ?_⟩
            · rw [extended]
              exact List.subset_append_left _ _
            · intro member listed other itself
              rw [List.mem_singleton.mp itself]
              exact .of_new listed present
      | pop =>
          refine WaitsLonger.pairwise_concat induction ?_ (List.Subset.refl _)
          rw [after]
          cases popped : worklist.pop? (worklist.run {} earlier) with
          | none => rw [Discipline.next_pop_of_none popped]
          | some pair =>
              rw [Discipline.next_pop_of_some popped, toList_eq_of_pop? popped]
              exact List.sublist_cons_self _ _

/-! ## Operations -/

inductive Operation
  | add (constraint : Constraint)
  | extend (constraints : List Constraint)
  | pop

def Operation.moves : Operation → List Move
  | add constraint => [.add constraint]
  | extend constraints => constraints.map .add
  | pop => [.pop]

def perform (queue : Worklist) : Operation → Worklist
  | .add constraint => queue.add constraint
  | .extend constraints => queue.addAll constraints
  | .pop =>
      match queue.pop? with
      | some (_, rest) => rest
      | none => queue

def performAll (queue : Worklist) (operations : List Operation) : Worklist :=
  operations.foldl perform queue

def served : Worklist → List Operation → List (Option Constraint)
  | _, [] => []
  | queue, .pop :: rest => queue.pop?.map Prod.fst :: (queue.perform .pop).served rest
  | queue, operation :: rest => (queue.perform operation).served rest

theorem run_adds (queue : Worklist) (constraints : List Constraint) :
    worklist.run queue (constraints.map .add) = queue.addAll constraints := by
  rw [Discipline.run, List.foldl_map]
  rfl

theorem answers_adds (queue : Worklist) (constraints : List Constraint) :
    worklist.answers queue (constraints.map .add) = [] := by
  induction constraints generalizing queue with
  | nil => rfl
  | cons constraint rest induction => exact induction _

theorem perform_eq (queue : Worklist) (operation : Operation) :
    queue.perform operation = worklist.run queue operation.moves := by
  cases operation with
  | add constraint => rfl
  | extend constraints => exact (queue.run_adds constraints).symm
  | pop =>
      change _ = worklist.next queue .pop
      cases popped : queue.pop? with
      | none => rw [Discipline.next_pop_of_none popped, perform, popped]
      | some pair => rw [Discipline.next_pop_of_some popped, perform, popped]

theorem performAll_eq (queue : Worklist) (operations : List Operation) :
    queue.performAll operations = worklist.run queue (operations.flatMap Operation.moves) := by
  induction operations generalizing queue with
  | nil => rfl
  | cons operation rest induction =>
      rw [List.flatMap_cons, Discipline.run_append, ← perform_eq, ← induction]
      rfl

theorem served_eq (queue : Worklist) (operations : List Operation) :
    queue.served operations = worklist.answers queue (operations.flatMap Operation.moves) := by
  induction operations generalizing queue with
  | nil => rfl
  | cons operation rest induction =>
      rw [List.flatMap_cons, Discipline.answers_append, ← perform_eq, ← induction]
      cases operation with
      | add constraint => rfl
      | extend constraints =>
          change _ = worklist.answers queue (constraints.map .add) ++ _
          rw [answers_adds]
          rfl
      | pop => rfl

/-- What a queue shows after some moves on an empty one. No key is waiting twice, and
what is asked of the queue is answered from what is waiting. Members stand in the order
of the times for which they have been waiting; the first one is served, or nothing is
if none is waiting. Served until it is empty, the queue gives each member once. -/
structure FirstComeFirstServed (history : List Move) (queue : Worklist) : Prop where
  distinct : queue.keys.Nodup
  contains : ∀ constraint, queue.contains constraint = true ↔
    ∃ member, member ∈ queue.toList ∧ member.same constraint = true
  size : queue.size = queue.toList.length
  isEmpty : queue.isEmpty = true ↔ queue.toList = []
  order : queue.toList.Pairwise (WaitsLonger history)
  pop : ∀ constraint rest, queue.pop? = some (constraint, rest) →
    queue.toList = constraint :: rest.toList
  fails : queue.pop? = none ↔ queue.toList = []
  unchanged : queue.pop? = none → queue.perform .pop = queue
  drains : queue.served (List.replicate queue.size .pop) = queue.toList.map some ∧
    (queue.performAll (List.replicate queue.size .pop)).toList = []

theorem drains (queue : Worklist) :
    queue.served (List.replicate queue.size .pop) = queue.toList.map some ∧
      (queue.performAll (List.replicate queue.size .pop)).toList = [] := by
  have moves : (List.replicate queue.size Operation.pop).flatMap Operation.moves =
      List.replicate queue.toList.length .pop := by
    rw [length_toList]
    induction queue.size with
    | zero => rfl
    | succ count induction => exact congrArg (Move.pop :: ·) induction
  have drained := Discipline.line_drains queue.toList
  rw [served_eq, performAll_eq, moves, answers_eq, toList_run]
  exact ⟨drained.2, drained.1⟩

theorem isEmpty_iff : queue.isEmpty = true ↔ queue.toList = [] := by
  simp [isEmpty, toList]

theorem pop?_eq_none_iff : queue.pop? = none ↔ queue.toList = [] := by
  refine ⟨toList_eq_nil_of_pop?, fun empty => ?_⟩
  cases popped : queue.pop? with
  | none => rfl
  | some pair =>
      rw [toList_eq_of_pop? popped] at empty
      cases empty

/-- A table beside a list stays in step with the queue, and so no key waits twice. -/
theorem inStep_run (history : List Move) :
    (tabled.run {} history).InStep (worklist.run {} history).toList ∧
      tabled.answers {} history = line.answers [] history := by
  rw [toList_run]
  exact Discipline.tabled_agrees.run Discipline.Tabled.inStep_empty history

theorem run_firstComeFirstServed (history : List Move) :
    (worklist.run {} history).FirstComeFirstServed history where
  distinct := (inStep_run history).1.distinct
  contains constraint := by
    simp [contains_iff, keys, Constraint.same]
  size := (length_toList _).symm
  isEmpty := isEmpty_iff
  order := pairwise_waitsLonger history
  pop _ _ := toList_eq_of_pop?
  fails := pop?_eq_none_iff
  unchanged failed := by
    rw [perform, failed]
  drains := drains _

/-- A queue that some constraints were put into at first and that was then used in any
way serves who came first. It holds and answers just what a plain list does, and a
table of what is waiting, kept beside that list, stays in step with it. -/
theorem performAll_firstComeFirstServed (initial : List Constraint)
    (operations : List Operation) :
    let queue := (ofList initial).performAll operations
    let history := initial.map .add ++ operations.flatMap Operation.moves
    queue.FirstComeFirstServed history ∧
      queue.toList = line.run [] history ∧
      (ofList initial).served operations = line.answers [] history ∧
      (tabled.run {} history).InStep queue.toList ∧
      tabled.answers {} history = line.answers [] history := by
  intro queue history
  have began : worklist.run {} (initial.map .add) = ofList initial := run_adds {} initial
  have reached : queue = worklist.run {} history := by
    rw [Discipline.run_append, began]
    exact performAll_eq _ operations
  have answered : (ofList initial).served operations = worklist.answers {} history := by
    rw [served_eq, Discipline.answers_append, answers_adds, began, List.nil_append]
  rw [reached, answered]
  exact ⟨run_firstComeFirstServed history, toList_run {} history, answers_eq {} history,
    inStep_run history⟩

end Worklist

end InfoFlow
