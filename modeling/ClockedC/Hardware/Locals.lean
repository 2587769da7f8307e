import ClockedC.Ast.Program
import ClockedC.Hardware.Generator

/-!
# Local variables in hardware

Every local variable of a function becomes a signal of its architecture, wherever in the body it is declared.
Of several declarations of one name the first counts.

* `Generator.emitDeclaration` : makes the signal of a declaration, and reports what is to be said about it;
* `Generator.emitLocals` : makes the signals of the declarations that count.
-/

namespace ClockedC

/-- An element of an array of type `type`, `value` being the value of the expression given for it. Elements that are
whole numbers are written bit by bit. -/
def asElement (type : DataType) (e : Expr) (value : Vhdl.Expr) : Vhdl.Expr :=
  if type.hasBitStrings then
    match e.integer? with
    | some n => .bits type.width n
    | none => value
  else
    match e with
    | .number text _ => .literal text
    | _ => value

/-- An element for which no expression is given: it is zero. -/
def emptyElement (type : DataType) : Vhdl.Expr := if type.hasBitStrings then .bits type.width 0 else .zeros

namespace Generator

/-- Makes an element of an array of type `type` from what is given for it. -/
def emitElement (type : DataType) : Option Expr → EmitM Vhdl.Expr
  | some e => return asElement type e (← emitExpr e)
  | none => return emptyElement type

/-- Makes the first values of an array of `length` elements, if any are given. -/
def emitContents (type : DataType) (length : Nat) : Option Initializer → EmitM (Option (List Vhdl.Expr))
  | some (.elements values) => some <$> (List.range length).mapM fun i => emitElement type values[i]?
  | _ => return none

/-- The signal that a local variable becomes. -/
def localSignal (name : String) : EmitM String := return (← get).signals.localSignal name

/-- Makes the signal of a local variable. -/
def emitSignal (decl : Variable) : EmitM Vhdl.Declaration := do
  let name ← localSignal decl.name
  match decl.length with
  | none => return .signal name decl.type.signalType
  | some length => return .array name length decl.type.signalType (← emitContents decl.type length decl.init)

/-- Reports a local variable of the function called `function` that has the name of a parameter. -/
def warnShadow (function : String) (decl : Variable) : EmitM Unit := do
  ((← get).signals.shadow? decl.name).forM fun signal => warn (.shadowedPort decl.name function signal) decl.loc

/-- Makes the signal of a local variable of the function called `function`. -/
def emitDeclaration (function : String) (decl : Variable) : EmitM Vhdl.Declaration := do
  warnShadow function decl
  emitSignal decl

/-- Makes the signals of the declarations of the function called `function`; those of a name in `seen` do not count. -/
def emitLocals (function : String) (seen : List String) : List Variable → EmitM (List Vhdl.Declaration)
  | [] => return []
  | decl :: decls => do
    if decl.name ∈ seen then
      modify (·.report [.declaredAgain decl.name function])
      emitLocals function seen decls
    else
      let first ← emitDeclaration function decl
      return first :: (← emitLocals function (decl.name :: seen) decls)

end Generator

end ClockedC
