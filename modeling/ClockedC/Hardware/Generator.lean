import ClockedC.Diagnostic.Warning
import ClockedC.Hardware.Expression
import ClockedC.Hardware.Signals
import ClockedC.Log
import ClockedC.Tables

/-!
# Generators

A generator goes through a program once. On the way it makes what becomes of the program, and reports what it comes to.

* `Generator` : a generator that works on one program after the other and keeps its reports;
* `Generator.emitExpr` : what it makes of an expression, node by node;
* `Generator.expr`, `Generator.operand`, `Generator.condition` : the value, also as a number and as a condition.
-/

namespace ClockedC

/-- The diagnostic that an event reports. -/
def Event.diagnostic? : Event → Option Diagnostic
  | .reported d => some d
  | _ => none

/-- A generator: the layouts it works with, the program and function at hand, and all its reports. -/
structure Generator where
  layouts : Layouts
  /-- The functions that are defined. -/
  defined : List String := []
  /-- The signals of the function at hand. -/
  signals : Signals := {}
  /-- What has been made of the program at hand. -/
  made : Vhdl.Design := ⟨[], []⟩
  diagnostics : List Diagnostic := []
  log : List Event := []

namespace Generator

/-- Adds reports. -/
def report (generator : Generator) (events : List Event) : Generator :=
  { generator with
    diagnostics := generator.diagnostics ++ events.filterMap Event.diagnostic?
    log := generator.log ++ events }

/-- A step on the way to a design. -/
abbrev EmitM := StateM Generator

/-- Gives a warning. -/
def warn (warning : Warning) (loc : Location) : EmitM Unit :=
  modify (·.report [.reported (warning.diagnostic loc)])

/-- The signal that a name stands for. -/
def signal (name : String) : EmitM String := return (← get).signals.signal name

/-! ## Expressions -/

/-- Reports a call at `loc` of a function that is not defined. -/
def emitCall (name : String) (loc : Location) : EmitM Unit := do
  if name ∉ (← get).defined then
    warn (.undefinedCall name) loc

mutual

/-- Makes the value of an expression, and reports its calls on the way: a call before its arguments, and what is in the
amount of a shift before what is shifted. -/
def emitExpr : Expr → EmitM Vhdl.Expr
  | .number text _ => return hardwareLiteral text
  | .ident name _ => return .name (← signal name)
  | .field base name _ => return .field (← emitExpr base) name
  | .element base index _ => return .apply (← emitExpr base) [← emitExpr index]
  | .negate operand _ => return .negate (.unsigned (← emitExpr operand))
  | .binary op l r _ => do
    if op.isShift then
      let amount ← emitExpr r
      return hardwareBinary op l r (← emitExpr l) amount
    else
      return hardwareBinary op l r (← emitExpr l) (← emitExpr r)
  | .unary op operand _ => return hardwareUnary op operand (← emitExpr operand)
  | .call name args loc => do
    emitCall name loc
    return .apply (.name name) (← emitExprs args)

/-- Makes the values of several expressions in turn. -/
def emitExprs : List Expr → EmitM (List Vhdl.Expr)
  | [] => return []
  | e :: es => return (← emitExpr e) :: (← emitExprs es)

end

/-- Makes the value of an expression as a number. -/
def emitOperand (e : Expr) : EmitM Vhdl.Expr := return asOperand e (← emitExpr e)

/-- Makes the value of an expression as a condition. -/
def emitCondition (e : Expr) : EmitM Vhdl.Expr := return asCondition e (← emitExpr e)

/-- The value of an expression. -/
def expr (generator : Generator) (e : Expr) : Vhdl.Expr × Generator := (emitExpr e).run generator

/-- The value of an expression as a number. -/
def operand (generator : Generator) (e : Expr) : Vhdl.Expr × Generator := (emitOperand e).run generator

/-- The value of an expression as a condition. -/
def condition (generator : Generator) (e : Expr) : Vhdl.Expr × Generator := (emitCondition e).run generator

end Generator

end ClockedC
