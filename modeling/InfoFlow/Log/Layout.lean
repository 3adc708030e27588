import InfoFlow.Log.Argument
import InfoFlow.Text.Numeral

/-! How one argument is laid out in a report. -/

namespace InfoFlow.Log

def largestText : Nat := Nat.pow 2 30

def largestPrecision : Nat := Nat.pow 2 31 - 1

/-- The flags, the width and the precision of a directive. -/
structure Layout where
  leftJustified : Bool := false
  zeroFilled : Bool := false
  signed : Bool := false
  spaced : Bool := false
  alternate : Bool := false
  width : Nat := 0
  precision : Option Nat := none
deriving DecidableEq, Repr

namespace Layout

/-! ## Filling up -/

def make (layout : Layout) (size : Nat) (text : Unit → List Char) :
    Except TemplateError (List Char) :=
  if max layout.width size ≤ largestText then .ok (text ()) else .error .textTooLong

def place (layout : Layout) (zeros : Bool) (lead body : List Char) : List Char :=
  let gap := layout.width - (lead.length + body.length)
  if layout.leftJustified then lead ++ body ++ List.replicate gap ' '
  else if zeros then lead ++ List.replicate gap '0' ++ body
  else List.replicate gap ' ' ++ lead ++ body

def placeNumber (layout : Layout) (value : Int) (mark digits : List Char) : List Char :=
  let sign :=
    if value < 0 then ['-']
    else if layout.signed then ['+']
    else if layout.spaced then [' ']
    else []
  layout.place layout.zeroFilled (sign ++ mark) digits

/-! ## Kinds of contents -/

def text (layout : Layout) (content : String) : Except TemplateError (List Char) :=
  layout.make 0 fun _ =>
    let body :=
      match layout.precision with
      | none => content.toList
      | some precision => content.toList.take precision
    layout.place false [] body

def numeral (layout : Layout) (base : Nat) (mark : List Char) (value : Int) :
    Except TemplateError (List Char) :=
  let precision := layout.precision.getD 0
  if largestPrecision < precision + 3 then .error .tooManyDigits
  else
    layout.make precision fun _ =>
      layout.placeNumber value (if layout.alternate then mark else [])
        (Text.zerosBefore precision (Nat.toDigits base value.natAbs))

/-- A numeral with a point, in one of three forms. The precision is six if none
is given. The scientific form needs one digit more than the precision, and the
greatest precision leaves no room for it, so it counts as none. -/
def realNumeral (layout : Layout) (letter : Char) (value : Int) :
    Except TemplateError (List Char) :=
  let magnitude := Text.nearestReal value.natAbs
  let precision := layout.precision.getD 6
  if Text.realBound ≤ magnitude then .error .tooLargeForReal
  else if letter = 'f' ∨ letter = 'F' then
    layout.make precision fun _ =>
      layout.placeNumber value [] (Text.fixedPoint layout.alternate precision magnitude)
  else if letter = 'e' ∨ letter = 'E' then
    let places := if precision = largestPrecision then 0 else precision
    layout.make places fun _ =>
      layout.placeNumber value [] (Text.scientific layout.alternate letter places magnitude)
  else
    let count := max 1 precision
    let mark := if letter = 'G' then 'E' else 'e'
    layout.make (if layout.alternate then count else 0) fun _ =>
      layout.placeNumber value [] (Text.general layout.alternate mark count magnitude)

end Layout

/-! ## Conversions -/

def convert (layout : Layout) (letter : Char) (position : Nat) (argument : Argument) :
    Except TemplateError (List Char) :=
  match letter with
  | 's' => layout.text argument.shown
  | 'r' => layout.text argument.display
  | 'a' => layout.text (Text.toAscii argument.display)
  | 'c' => do
      let character ← argument.character
      layout.make 0 fun _ => layout.place false [] [character]
  | 'd' | 'i' | 'u' => do
      layout.numeral 10 [] (← argument.numberOr (.notNumeric letter argument.kind))
  | 'o' => do
      layout.numeral 8 ['0', 'o'] (← argument.numberOr (.notInteger letter argument.kind))
  | 'x' => do
      layout.numeral 16 ['0', 'x'] (← argument.numberOr (.notInteger letter argument.kind))
  | 'X' => do
      let value ← argument.numberOr (.notInteger letter argument.kind)
      return (← layout.numeral 16 ['0', 'x'] value).map Char.toUpper
  | 'f' | 'F' | 'e' | 'E' | 'g' | 'G' => do
      layout.realNumeral letter (← argument.numberOr (.notReal argument.kind))
  | _ => .error (.unknownDirective letter position)

end InfoFlow.Log
