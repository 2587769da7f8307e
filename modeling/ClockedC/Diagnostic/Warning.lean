import ClockedC.Diagnostic.Basic
import ClockedC.Token.Basic

/-!
# Warnings

What a compilation passes over or renames without stopping. A warning is a cause; its wording stands in
`Warning.message` alone.
-/

namespace ClockedC

/-- Why a warning is given. -/
inductive Warning where
  /-- A line that begins with a hash sign is skipped. -/
  | directive (text : String)
  | missingStructName
  | strayToken (found : Lexeme)
  | globalVariable
  | missingDeclarator (found : Lexeme)
  | prototype (function : String)
  /-- A local variable has the name of a parameter and gets another signal. -/
  | shadowedPort (name function signal : String)
  | undefinedCall (function : String)
  | unusedValue (function : String)
  deriving DecidableEq, Repr

namespace Warning

/-- The stage that gives a warning. -/
def category : Warning → Category
  | directive _ => .lexer
  | missingStructName => .parser
  | strayToken _ => .parser
  | globalVariable => .parser
  | missingDeclarator _ => .parser
  | prototype _ => .parser
  | shadowedPort .. => .codegen
  | undefinedCall _ => .codegen
  | unusedValue _ => .codegen

/-- The wording of a warning. -/
def message : Warning → String
  | directive text => "Preprocessor directive ignored: " ++ text
  | missingStructName => "Expected struct name after 'struct'"
  | strayToken found => "Skipping unexpected " ++ found.describe ++ " at top level"
  | globalVariable => "Global variable declarations not yet implemented"
  | missingDeclarator found => "Expected identifier after type, found " ++ found.describe
  | prototype name => "Function prototype for '" ++ name ++ "' ignored"
  | shadowedPort name function signal =>
    "Local '" ++ name ++ "' in '" ++ function ++ "' shadows a port and is emitted as '" ++ signal ++ "'"
  | undefinedCall name => "Call to undefined function '" ++ name ++ "' emitted as-is"
  | unusedValue function => "Expression statement in '" ++ function ++ "' has no hardware equivalent"

/-- The diagnostic of a warning about what stands at `loc`. -/
def diagnostic (warning : Warning) (loc : Location) : Diagnostic where
  severity := .warning
  category := warning.category
  message := warning.message
  loc := some loc

@[simp] theorem severity_diagnostic (warning : Warning) (loc : Location) :
    (warning.diagnostic loc).severity = .warning := rfl

@[simp] theorem loc_diagnostic (warning : Warning) (loc : Location) :
    (warning.diagnostic loc).loc = some loc := rfl

end Warning

end ClockedC
