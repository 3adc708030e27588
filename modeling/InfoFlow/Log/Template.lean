import InfoFlow.Log.Layout

/-! Templates for reports.

A directive in a template shows the next argument. It starts with a percent
sign and ends with the letter of a conversion, as in `%s` for text and `%d` for
a numeral. In between stand, in this order, flags, a width, a point with a
precision, and one letter for a length, which says nothing here. A star in the
place of the width or the precision takes it from the arguments. Two percent
signs are one that is shown. -/

namespace InfoFlow.Log

/-! ## Directives -/

inductive Stage
  | flags
  | width
  | givenWidth
  | point
  | precision
  | givenPrecision
  | length
deriving DecidableEq, Repr

structure Directive where
  stage : Stage := .flags
  layout : Layout := {}
deriving DecidableEq, Repr

namespace Directive

def largestWidth : Nat := Nat.pow 2 63 - 1

def withWidth (directive : Directive) (stage : Stage) (width : Nat) :
    Except TemplateError Directive :=
  if width ≤ largestWidth then .ok { stage, layout := { directive.layout with width } }
  else .error .widthTooBig

def withPrecision (directive : Directive) (stage : Stage) (precision : Nat) :
    Except TemplateError Directive :=
  if precision ≤ largestPrecision then
    .ok { stage, layout := { directive.layout with precision := some precision } }
  else .error .precisionTooBig

/-- The directive with the width that an argument gives. A negative one asks for
blanks behind; the least of all has no magnitude and asks for none. -/
def withGivenWidth (directive : Directive) (value : Int) : Except TemplateError Directive :=
  let layout := directive.layout
  if value < -largestWidth - 1 ∨ largestWidth < value then .error .givenWidthRange
  else
    .ok
      { stage := .givenWidth
        layout :=
          { layout with
            leftJustified := layout.leftJustified || decide (value < 0)
            width := if value.natAbs ≤ largestWidth then value.natAbs else 0 } }

def withGivenPrecision (directive : Directive) (value : Int) : Except TemplateError Directive :=
  if value < -largestPrecision - 1 ∨ largestPrecision < value then .error .givenPrecisionRange
  else
    .ok
      { stage := .givenPrecision
        layout := { directive.layout with precision := some value.toNat } }

def readStar (directive : Directive) (arguments : List Argument) :
    Except TemplateError (Directive × List Argument) :=
  match arguments with
  | [] => .error .missingArgument
  | argument :: arguments =>
      match argument.number? with
      | none => .error .notWidth
      | some value =>
          let read :=
            if directive.stage = .point then directive.withGivenPrecision value
            else directive.withGivenWidth value
          read.map fun directive => (directive, arguments)

def readDigit (directive : Directive) (digit : Nat) : Except TemplateError (Option Directive) :=
  match directive.stage with
  | .flags => (directive.withWidth .width digit).map some
  | .width => (directive.withWidth .width (10 * directive.layout.width + digit)).map some
  | .point => (directive.withPrecision .precision digit).map some
  | .precision =>
      let before := directive.layout.precision.getD 0
      (directive.withPrecision .precision (10 * before + digit)).map some
  | _ => .ok none

def read (directive : Directive) (character : Char) (arguments : List Argument) :
    Except TemplateError (Option (Directive × List Argument)) :=
  let layout := directive.layout
  let goOn (stage : Stage) (layout : Layout) := .ok (some ({ stage, layout }, arguments))
  match directive.stage, character with
  | .flags, '-' => goOn .flags { layout with leftJustified := true }
  | .flags, '0' => goOn .flags { layout with zeroFilled := true }
  | .flags, '+' => goOn .flags { layout with signed := true }
  | .flags, ' ' => goOn .flags { layout with spaced := true }
  | .flags, '#' => goOn .flags { layout with alternate := true }
  | .flags, '*' => (directive.readStar arguments).map some
  | .point, '*' => (directive.readStar arguments).map some
  | .flags, '.' => goOn .point { layout with precision := some 0 }
  | .width, '.' => goOn .point { layout with precision := some 0 }
  | .givenWidth, '.' => goOn .point { layout with precision := some 0 }
  | .length, _ => .ok none
  | _, 'h' => goOn .length layout
  | _, 'l' => goOn .length layout
  | _, 'L' => goOn .length layout
  | _, _ =>
      if '0' ≤ character ∧ character ≤ '9' then
        (directive.readDigit (character.toNat - '0'.toNat)).map fun read =>
          read.map fun directive => (directive, arguments)
      else .ok none

end Directive

/-! ## Filling -/

/-- Fill what is left of a template, where a directive may have been read in
part. A directive that has no letter is a fault before the argument for it is
looked for. Every argument has to be used. -/
def fill (position : Nat) : Option Directive → List Char → List Argument →
    Except TemplateError (List Char)
  | none, [], [] => .ok []
  | none, [], _ :: _ => .error .unusedArgument
  | some _, [], _ => .error .incompleteDirective
  | none, '%' :: '%' :: rest, arguments => do
      let filled ← fill (position + 2) none rest arguments
      return '%' :: filled
  | none, '%' :: '(' :: _, _ => .error .needsNames
  | none, '%' :: rest, arguments => fill (position + 1) (some {}) rest arguments
  | none, character :: rest, arguments => do
      let filled ← fill (position + 1) none rest arguments
      return character :: filled
  | some directive, character :: rest, arguments => do
      match ← directive.read character arguments, arguments with
      | some (directive, arguments), _ => fill (position + 1) (some directive) rest arguments
      | none, [] => .error .missingArgument
      | none, argument :: arguments => do
          let shown ← convert directive.layout character position argument
          let filled ← fill (position + 1) none rest arguments
          return shown ++ filled

def filled (template : String) (arguments : List Argument) : Except TemplateError String :=
  (fill 0 none template.toList arguments).map String.ofList

example : filled "%s of %d%%" [.text "half", .number 9] = .ok "half of 9%" := rfl

example : filled "%-5s|%05d" [.text "no", .number (-7)] = .ok "no   |-0007" := rfl

example : filled "%5" [] = .error .incompleteDirective := rfl

example : filled "%5s" [] = .error .missingArgument := rfl

example : filled "%y" [.absent] = .error (.unknownDirective 'y' 1) := rfl

end InfoFlow.Log
