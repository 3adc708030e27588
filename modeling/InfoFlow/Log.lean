import InfoFlow.Log.Template

/-! Reports to the user.

A report has a severity, a template and arguments. Whether it is shown depends
on the verbosity alone, and a template is filled only if it is shown, so a
faulty template that is never shown is no fault. -/

namespace InfoFlow.Log

inductive Verbosity
  | quiet
  | info
  | debug
deriving DecidableEq, Repr

def Verbosity.ofNumber? (number : Int) : Option Verbosity :=
  if number = 0 then some .quiet
  else if number = 1 then some .info
  else if number = 2 then some .debug
  else none

inductive Severity
  | info
  | debug
  | warning
deriving DecidableEq, Repr

def Severity.label : Severity → String
  | info => "INFO: "
  | debug => "DEBUG: "
  | warning => "WARN: "

def Verbosity.shows : Verbosity → Severity → Bool
  | _, .warning => true
  | quiet, _ => false
  | info, .info => true
  | info, .debug => false
  | debug, _ => true

/-! ## Reports -/

/-- The text of a report: the first argument is the template and the others
are shown in it. -/
def message (severity : Severity) : List Argument → Except TemplateError String
  | [] => .error .noTemplate
  | template :: arguments => do
      let text ← filled template.shown arguments
      return severity.label ++ text

def report (verbosity : Verbosity) (severity : Severity) (arguments : List Argument) :
    Except TemplateError (List String) := do
  if verbosity.shows severity then
    let text ← message severity arguments
    return [text]
  else
    return []

def lines (reports : List String) : List String :=
  reports.flatMap fun text => text.splitOn "\n"

example : report .info .info [.text "%s of %d%%", .text "half", .number 9] =
    .ok ["INFO: half of 9%"] := rfl

example : report .quiet .info [.text "%s"] = .ok [] := rfl

example : report .quiet .warning [.text "%s"] = .error .missingArgument := rfl

end InfoFlow.Log
