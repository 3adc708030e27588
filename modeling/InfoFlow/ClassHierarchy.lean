import InfoFlow.Iteration

/-! Classes of the analysed program and their superclasses. -/

namespace InfoFlow

/-- The direct superclasses of classes: an edge leads from a class to one of
its direct superclasses. -/
structure ClassHierarchy where
  edges : List (String × String) := []

namespace ClassHierarchy

def ofBindings (bindings : List (String × List String)) : ClassHierarchy :=
  ⟨bindings.flatMap fun binding => binding.2.map fun superclass => (binding.1, superclass)⟩

structure Search where
  pending : List String
  found : List String

def Search.visit (origin : String) (search : Search) (candidate : String) : Search :=
  if candidate = origin ∨ candidate ∈ search.found then search
  else ⟨search.pending ++ [candidate], search.found ++ [candidate]⟩

def Search.step (hierarchy : ClassHierarchy) (origin : String) (search : Search) :
    Option Search :=
  match search.pending with
  | [] => none
  | current :: rest =>
      let direct := (hierarchy.edges.filter fun edge => decide (edge.1 = current)).map Prod.snd
      some (direct.foldl (visit origin) ⟨rest, search.found⟩)

/-- All proper superclasses of a class. A class is never a proper superclass of
itself. Each class is followed at most once, so one round for each edge and one
for the class itself are enough. -/
def supertypes (hierarchy : ClassHierarchy) (origin : String) : List String :=
  (iterate (Search.step hierarchy origin) (hierarchy.edges.length + 1) ⟨[origin], []⟩).found

example : (ofBindings [("C", ["B"]), ("B", ["A", "C"])]).supertypes "C" = ["B", "A"] := by decide

end ClassHierarchy

end InfoFlow
