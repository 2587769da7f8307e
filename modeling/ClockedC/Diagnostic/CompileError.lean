import ClockedC.Diagnostic.Basic
import ClockedC.Diagnostic.Fault

/-!
# Compile errors

What ends a compilation without a result: a fault and its location. `CompileError.diagnostic` is the report
shown to the user.
-/

namespace ClockedC

/-- What ends a compilation. -/
inductive CompileError where
  | lexical (fault : LexicalFault) (loc : Location)
  | syntactic (fault : SyntacticFault) (loc : Location)
  /-- A constant index misses the array it selects from. -/
  | outOfBounds (index : Int) (array : String) (size : Nat) (loc : Location)
  /-- A jump keyword stands outside every loop. -/
  | strayJump (keyword : String) (loc : Location)
  | declaration (fault : DeclarationFault) (loc : Location)
  deriving DecidableEq, Repr

namespace CompileError

/-- Where the fault is. -/
def loc : CompileError → Location
  | lexical _ loc => loc
  | syntactic _ loc => loc
  | outOfBounds _ _ _ loc => loc
  | strayJump _ loc => loc
  | declaration _ loc => loc

/-- The stage that finds the fault. -/
def category : CompileError → Category
  | lexical .. => .lexer
  | syntactic .. => .parser
  | outOfBounds .. => .semantic
  | strayJump .. => .semantic
  | declaration .. => .semantic

/-- What is wrong, without the location. -/
def message : CompileError → String
  | lexical fault _ => fault.message
  | syntactic fault _ => fault.message
  | outOfBounds index array size _ =>
    "Array index " ++ toString index ++ " out of bounds for '" ++ array ++ "' with size " ++ toString size
  | strayJump keyword _ => "'" ++ keyword ++ "' not within a loop"
  | declaration fault _ => fault.message

/-- What is wrong and where. -/
def describe (e : CompileError) : String :=
  let line := "line " ++ toString e.loc.line
  let position := line ++ ", column " ++ toString e.loc.column
  match e with
  | lexical .. => "Lexer error at " ++ position ++ ": " ++ e.message
  | syntactic .. => "Parse error at " ++ position ++ ": " ++ e.message
  | outOfBounds .. => e.message ++ " (" ++ line ++ ")"
  | strayJump .. => e.message ++ " (" ++ line ++ ")"
  | declaration .. => "Invalid declaration at " ++ position ++ ": " ++ e.message

/-- How the fault may be mended. -/
def hint? : CompileError → Option String
  | strayJump .. => some "'break' and 'continue' may only appear inside a while or for body"
  | outOfBounds _ _ size _ => some ("valid indices are 0 to " ++ toString (size - 1))
  | _ => none

/-- The report of an error. -/
def diagnostic (e : CompileError) : Diagnostic where
  severity := .error
  category := e.category
  message := e.message
  loc := some e.loc
  hint := e.hint?

end CompileError

end ClockedC
