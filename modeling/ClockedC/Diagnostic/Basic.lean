import ClockedC.Location

/-!
# Diagnostics

A message to the user, with its severity, the stage of the compilation it comes from, and where known its
location, its file and a hint.
-/

namespace ClockedC

/-- How grave a diagnostic is. -/
inductive Severity where
  | info
  | warning
  | error
  deriving DecidableEq, Repr

/-- How a severity is written. -/
def Severity.label : Severity → String
  | info => "info"
  | warning => "warning"
  | error => "error"

/-- The stage a diagnostic comes from. -/
inductive Category where
  | lexer
  | parser
  | semantic
  | codegen
  | general
  deriving DecidableEq, Repr

/-- How a category is written. -/
def Category.label : Category → String
  | lexer => "lexer"
  | parser => "parser"
  | semantic => "semantic"
  | codegen => "codegen"
  | general => "general"

/-- A message to the user. -/
structure Diagnostic where
  severity : Severity
  category : Category
  message : String
  loc : Option Location := none
  file : Option String := none
  hint : Option String := none
  deriving DecidableEq, Repr

namespace Diagnostic

/-- The severity and the category, as every report of a diagnostic begins. -/
def header (d : Diagnostic) : String :=
  d.severity.label ++ "[" ++ d.category.label ++ "]"

/-- The form in which a diagnostic is logged. -/
def logText (d : Diagnostic) : String :=
  match d.loc with
  | some loc => d.header ++ " line " ++ toString loc.line ++ ": " ++ d.message
  | none => d.header ++ " " ++ d.message

end Diagnostic

/-! ## Counting -/

/-- A number with the word it counts. -/
def counted (n : Nat) (word : String) : String :=
  if n = 1 then "1 " ++ word else toString n ++ " " ++ word ++ "s"

/-- One line that counts the errors and warnings, if there are any. -/
def summary? (diagnostics : List Diagnostic) : Option String :=
  let errors := diagnostics.countP (·.severity = .error)
  let warnings := diagnostics.countP (·.severity = .warning)
  match errors, warnings with
  | 0, 0 => none
  | 0, w => some (counted w "warning" ++ " emitted")
  | e, 0 => some (counted e "error" ++ " emitted")
  | e, w => some (counted e "error" ++ " and " ++ counted w "warning" ++ " emitted")

end ClockedC
