import LoxSyntax.Number.Decimal

/-!
# Diagnostics

A diagnostic says what is wrong and where. It has a short form of one line and a
report of several lines; the report leaves out whatever is absent or empty.
-/

namespace LoxSyntax

/-- A message about a line of the source, with its severity and, where known, a
code, a help text and suggestions. -/
structure Diagnostic where
  message : String
  line : Int
  severity : String
  code : Option String := none
  help : Option String := none
  suggestions : Option (List String) := none
deriving DecidableEq, Repr

namespace Diagnostic

/-- The form of one line: the line number and the message. -/
def short (d : Diagnostic) : String :=
  "[Line " ++ integerText d.line ++ "] " ++ d.message

/-- What is written of an optional text: nothing when it is absent or empty. -/
def unlessEmpty (text : Option String) (write : String → String) : String :=
  match text with
  | some s => if s = "" then "" else write s
  | none => ""

/-- The suggestions of a report, a line each under a heading. -/
def suggestionLines (suggestions : List String) : String :=
  match suggestions with
  | [] => ""
  | _ => "  suggestions:\n" ++
      String.join (suggestions.map fun suggestion => "    - " ++ suggestion ++ "\n")

/-- The report of several lines. -/
def report (d : Diagnostic) : String :=
  d.severity.toUpper ++ unlessEmpty d.code (fun code => "[" ++ code ++ "]") ++
    ": " ++ d.message ++ "\n" ++
    "  --> line " ++ integerText d.line ++ "\n" ++
    unlessEmpty d.help (fun help => "  help: " ++ help ++ "\n") ++
    suggestionLines (d.suggestions.getD [])

end Diagnostic

end LoxSyntax
