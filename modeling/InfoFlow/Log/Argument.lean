import InfoFlow.Text.Quoted

/-! What a report is about, and why it may be impossible to make. -/

namespace InfoFlow.Log

/-! ## Faults -/

inductive TemplateError
  | noTemplate
  | missingArgument
  | unusedArgument
  | needsNames
  | notNumeric (conversion : Char) (kind : String)
  | notInteger (conversion : Char) (kind : String)
  | notReal (kind : String)
  | tooLargeForReal
  | notCharacter
  | characterRange
  | notWidth
  | givenWidthRange
  | givenPrecisionRange
  | widthTooBig
  | precisionTooBig
  | tooManyDigits
  | textTooLong
  | incompleteDirective
  | unknownDirective (directive : Char) (position : Nat)
deriving DecidableEq, Repr

def TemplateError.message : TemplateError → String
  | noTemplate => "tuple index out of range"
  | missingArgument => "not enough arguments for format string"
  | unusedArgument => "not all arguments converted during string formatting"
  | needsNames => "format requires a mapping"
  | notNumeric conversion kind =>
      "%" ++ String.singleton conversion ++ " format: a real number is required, not " ++ kind
  | notInteger conversion kind =>
      "%" ++ String.singleton conversion ++ " format: an integer is required, not " ++ kind
  | notReal kind => "must be real number, not " ++ kind
  | tooLargeForReal => "int too large to convert to float"
  | notCharacter => "%c requires int or char"
  | characterRange => "%c arg not in range(0x110000)"
  | notWidth => "* wants int"
  | givenWidthRange => "Python int too large to convert to C ssize_t"
  | givenPrecisionRange => "Python int too large to convert to C int"
  | widthTooBig => "width too big"
  | precisionTooBig => "precision too big"
  | tooManyDigits => "precision too large"
  | textTooLong => ""
  | incompleteDirective => "incomplete format"
  | unknownDirective directive position =>
      let shown := if 31 ≤ directive.toNat ∧ directive.toNat ≤ 126 then directive else '?'
      "unsupported format character '" ++ String.singleton shown ++ "' (0x" ++
        String.ofList (Nat.toDigits 16 directive.toNat) ++ ") at index " ++ toString position

/-! ## Arguments -/

inductive Argument
  | text (content : String)
  | number (value : Int)
  | truth (value : Bool)
  | absent
  | other (kind content : String)
deriving DecidableEq, Inhabited, Repr

namespace Argument

def kind : Argument → String
  | text _ => "str"
  | number _ => "int"
  | truth _ => "bool"
  | absent => "NoneType"
  | other kind _ => kind

def shown : Argument → String
  | text content => content
  | number value => toString value
  | truth true => "True"
  | truth false => "False"
  | absent => "None"
  | other _ content => content

def display : Argument → String
  | text content => Text.quoted content
  | argument => argument.shown

def list (members : List Argument) : Argument :=
  other "list" ("[" ++ ", ".intercalate (members.map display) ++ "]")

def record (fields : List (String × Argument)) : Argument :=
  let entries := fields.map fun field => Text.quoted field.1 ++ ": " ++ field.2.display
  other "dict" ("\x7b" ++ ", ".intercalate entries ++ "\x7d")

def number? : Argument → Option Int
  | number value => some value
  | truth value => some value.toNat
  | _ => none

def numberOr (argument : Argument) (fault : TemplateError) : Except TemplateError Int :=
  match argument.number? with
  | some value => .ok value
  | none => .error fault

def character (argument : Argument) : Except TemplateError Char :=
  match argument, argument.number? with
  | text content, _ =>
      match content.toList with
      | [only] => .ok only
      | _ => .error .notCharacter
  | _, some value =>
      if 0 ≤ value ∧ value < 0x110000 then .ok (Char.ofNat value.toNat)
      else .error .characterRange
  | _, none => .error .notCharacter

end Argument

end InfoFlow.Log
