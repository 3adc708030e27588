/-! Runs, and insertion into a run.

A run is a stretch of a list that is in order already. The leading run of a
list never steps down, or steps down every time and is then turned round. An
element goes into a run by bisection, behind the members it is not less than,
so members that do not differ in order keep their places. -/

namespace InfoFlow.StableSort

universe u

variable {Element : Type u}

def ascendingRun (less : Element → Element → Bool) (previous : Element) :
    List Element → List Element × List Element
  | [] => ([], [])
  | next :: rest =>
      if less next previous then ([], next :: rest)
      else
        let (run, remaining) := ascendingRun less next rest
        (next :: run, remaining)

def descendingRun (less : Element → Element → Bool) (previous : Element) :
    List Element → List Element × List Element
  | [] => ([], [])
  | next :: rest =>
      if less next previous then
        let (run, remaining) := descendingRun less next rest
        (next :: run, remaining)
      else ([], next :: rest)

def leadingRun (less : Element → Element → Bool) :
    List Element → List Element × List Element
  | [] => ([], [])
  | [only] => ([only], [])
  | first :: second :: rest =>
      if less second first then
        let (run, remaining) := descendingRun less second rest
        ((first :: second :: run).reverse, remaining)
      else
        let (run, remaining) := ascendingRun less second rest
        (first :: second :: run, remaining)

/-- Insert an element into a sorted list by halving the list, behind the
members it is not less than. A list of `size` members needs no more than
`size` halvings. -/
def bisect (less : Element → Element → Bool) (element : Element) :
    Nat → List Element → List Element
  | 0, sorted => element :: sorted
  | halvings + 1, sorted =>
      match sorted.drop (sorted.length / 2) with
      | [] => [element]
      | pivot :: above =>
          let below := sorted.take (sorted.length / 2)
          if less element pivot then bisect less element halvings below ++ pivot :: above
          else below ++ pivot :: bisect less element halvings above

def insert (less : Element → Element → Bool) (sorted : List Element)
    (element : Element) : List Element :=
  bisect less element sorted.length sorted

theorem bisect_perm (less : Element → Element → Bool) (element : Element)
    (halvings : Nat) (sorted : List Element) (enough : sorted.length ≤ halvings) :
    (bisect less element halvings sorted).Perm (element :: sorted) := by
  induction halvings generalizing sorted with
  | zero => exact List.Perm.refl _
  | succ halvings induction =>
      rw [bisect]
      split
      · next dropped =>
          have short := List.drop_eq_nil_iff.mp dropped
          have empty : sorted = [] := List.length_eq_zero_iff.mp (by omega)
          simp [empty]
      · next pivot above dropped =>
          have halves : sorted.take (sorted.length / 2) ++ pivot :: above = sorted := by
            rw [← dropped, List.take_append_drop]
          have sizes := congrArg List.length halves
          simp only [List.length_append, List.length_cons] at sizes
          split
          · have lower := induction (sorted.take (sorted.length / 2)) (by omega)
            conv => rhs; rw [← halves]
            exact lower.append_right (pivot :: above)
          · have upper := induction above (by omega)
            conv => rhs; rw [← halves]
            refine ((upper.cons pivot).append_left _).trans ?_
            refine (List.Perm.append_left _ (List.Perm.swap element pivot above)).trans ?_
            exact List.perm_middle

theorem insert_perm (less : Element → Element → Bool) (sorted : List Element)
    (element : Element) : (insert less sorted element).Perm (element :: sorted) :=
  bisect_perm less element sorted.length sorted (Nat.le_refl _)

private theorem ascendingRun_append (less : Element → Element → Bool)
    (previous : Element) (elements : List Element) :
    (ascendingRun less previous elements).1 ++ (ascendingRun less previous elements).2 =
      elements := by
  induction elements generalizing previous with
  | nil => rfl
  | cons next rest induction =>
      by_cases smaller : less next previous <;> simp [ascendingRun, smaller, induction]

private theorem descendingRun_append (less : Element → Element → Bool)
    (previous : Element) (elements : List Element) :
    (descendingRun less previous elements).1 ++ (descendingRun less previous elements).2 =
      elements := by
  induction elements generalizing previous with
  | nil => rfl
  | cons next rest induction =>
      by_cases smaller : less next previous <;> simp [descendingRun, smaller, induction]

theorem leadingRun_perm (less : Element → Element → Bool)
    (elements : List Element) :
    ((leadingRun less elements).1 ++ (leadingRun less elements).2).Perm elements := by
  match elements with
  | [] => exact List.Perm.refl _
  | [only] => exact List.Perm.refl _
  | first :: second :: rest =>
      by_cases smaller : less second first
      · have whole := descendingRun_append less second rest
        simp only [leadingRun, smaller, if_true]
        refine ((List.reverse_perm _).append_right _).trans ?_
        simp [whole]
      · have whole := ascendingRun_append less second rest
        simp [leadingRun, smaller, whole]

theorem leadingRun_fst_ne_nil (less : Element → Element → Bool) (first : Element)
    (rest : List Element) : (leadingRun less (first :: rest)).1 ≠ [] := by
  cases rest with
  | nil => simp [leadingRun]
  | cons second rest =>
      by_cases smaller : less second first <;> simp [leadingRun, smaller]

theorem foldl_insert_perm (less : Element → Element → Bool)
    (elements sorted : List Element) :
    (elements.foldl (insert less) sorted).Perm (sorted ++ elements) := by
  induction elements generalizing sorted with
  | nil => simp
  | cons element rest induction =>
      refine (induction (insert less sorted element)).trans ?_
      refine ((insert_perm less sorted element).append_right rest).trans ?_
      exact List.perm_middle.symm

end InfoFlow.StableSort
