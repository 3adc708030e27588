/-! Methods of the analysed program. -/

namespace InfoFlow

/-- A method. Two methods of the same name in different classes may override
one another; the signature, if given, tells overloads apart. -/
structure Method where
  name : String
  declaringClass : String
  signature : String := ""
deriving DecidableEq, Repr

namespace Method

def text (method : Method) : String :=
  let member := if method.signature = "" then method.name else method.signature
  "<" ++ method.declaringClass ++ ": " ++ member ++ ">"

example : text ⟨"main", "App", ""⟩ = "<App: main>" := by decide

example : text ⟨"main", "App", "void main()"⟩ = "<App: void main()>" := by decide

end Method

end InfoFlow
