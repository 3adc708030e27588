import InfoFlow.Diagram

/-! Diagrams as text in the DOT language.

The text is laid out by the graphviz library. `line`, `identifier` and `render`
stand for it and assume the following. A graph opens with its attributes. Then
each node and each edge that is stated adds one line, in the order of the
statements, and nothing else does. Attributes are written in the order of their
names. Every name, label and title is quoted where the language asks for quotes,
and between these only double quotes are escaped. -/

namespace InfoFlow.Dot

/-! ## Identifiers

An identifier is written bare if it is markup in angle brackets, or a name or
numeral that is no keyword. Any other stands between double quotes. One line
feed at the very end is blank space to a reader of the language and asks for no
quotes; it does count when the text is compared with the keywords. -/

def isLetter (character : Char) : Bool :=
  ('a' ≤ character && character ≤ 'z') || ('A' ≤ character && character ≤ 'Z') ||
    character = '_'

def isDigit (character : Char) : Bool :=
  '0' ≤ character && character ≤ '9'

def isMarkup : List Char → Bool
  | '<' :: rest => decide (rest.getLast? = some '>')
  | _ => false

def isName : List Char → Bool
  | [] => false
  | first :: rest =>
      isLetter first && rest.all fun character => isLetter character || isDigit character

def isUnsigned (text : List Char) : Bool :=
  let whole := text.takeWhile isDigit
  match text.dropWhile isDigit with
  | [] => !whole.isEmpty
  | '.' :: fraction => fraction.all isDigit && !(whole.isEmpty && fraction.isEmpty)
  | _ => false

def isNumeral : List Char → Bool
  | '-' :: rest => isUnsigned rest
  | text => isUnsigned text

def isKeyword (text : List Char) : Bool :=
  ["node", "edge", "graph", "digraph", "subgraph", "strict"].contains
    (String.ofList (text.map Char.toLower))

/-- Put a backslash before every double quote. An odd backslash that stands
before the quote already is dropped first; all others stay. `run` is the
number of backslashes just passed. -/
def escapeQuotes (run : Nat) : List Char → List Char
  | [] => List.replicate run '\\'
  | '\\' :: rest => escapeQuotes (run + 1) rest
  | '"' :: rest => List.replicate (run / 2 * 2) '\\' ++ '\\' :: '"' :: escapeQuotes 0 rest
  | character :: rest => List.replicate run '\\' ++ character :: escapeQuotes 0 rest

def withoutFinalBreak (text : List Char) : List Char :=
  if text.getLast? = some '\n' then text.dropLast else text

def identifier (text : String) : String :=
  let characters := text.toList
  let word := withoutFinalBreak characters
  if isMarkup word || ((isName word || isNumeral word) && !isKeyword characters) then text
  else String.ofList ('"' :: escapeQuotes 0 characters ++ ['"'])

example : ["flows", "2.5", "-.5", "<b>"].map identifier = ["flows", "2.5", "-.5", "<b>"] := by
  decide

example : ["", "2a", "Node", "."].map identifier = ["\"\"", "\"2a\"", "\"Node\"", "\".\""] := by
  decide

example : ["flows\n", "edge\n", "2\n\n"].map identifier = ["flows\n", "edge\n", "\"2\n\n\""] := by
  decide

/-! ## Statements -/

def nodeName (number : Nat) : String :=
  "n" ++ toString number

/-- A statement on a line of its own. The edge of a derived constraint is
dashed. -/
def line : Diagram.Statement → String
  | .node number label =>
      "\t" ++ nodeName number ++ " [label=" ++ identifier label ++ "]\n"
  | .edge source target relation derived =>
      "\t" ++ nodeName source ++ " -> " ++ nodeName target ++ " [label=" ++
        identifier relation.symbol ++ " style=" ++ (if derived then "dashed" else "solid") ++ "]\n"

/-- A diagram as text. The title names the graph, unless it is empty, and
stands at its top left. -/
def render (diagram : Diagram) : String :=
  let name := if diagram.title = "" then "" else identifier diagram.title ++ " "
  "digraph " ++ name ++ "\x7b\n" ++
    "\tlabel=" ++ identifier diagram.title ++ " labeljust=l labelloc=t\n" ++
    String.join (diagram.statements.map line) ++ "\x7d\n"

end InfoFlow.Dot
