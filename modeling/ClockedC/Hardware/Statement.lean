import ClockedC.Ast.Program
import ClockedC.Hardware.Generator

/-!
# Statements in hardware

Each statement of a function becomes sequential statements of its process. A `for` loop becomes its start
followed by a loop whose body ends with the step. Which signal a name stands for is kept while the statements
are gone through, and restored where a block ends.

* `Generator.emitStatement` : makes the sequential statements of a statement, and reports its calls and unused values;
* `Generator.emitBlock` : those of a block.
-/

namespace ClockedC

/-! ## Fields -/

/-- The fields of a layout, each with the value given for it. -/
def givenFields : List Field → List Expr → List (Field × Option Expr)
  | [], _ => []
  | field :: fields, [] => (field, none) :: givenFields fields []
  | field :: fields, value :: values => (field, some value) :: givenFields fields values

/-- The first value of a field, `value` being the value of the expression given for it. A literal for an `int` is
converted. -/
def asField (field : Field) (e : Expr) (value : Vhdl.Expr) : Vhdl.Expr :=
  match e with
  | .number text _ => if field.type = .int then .convertLiteral text else value
  | _ => value

/-- The first value of a field for which none is given: it is zero, and a field that is itself a struct is left alone.
-/
def emptyField? (field : Field) : Option Vhdl.Expr :=
  match field.type with
  | .int => some (.convertLiteral "0")
  | .struct _ => none
  | _ => some .zeros

/-- The layout of the struct that a type names. -/
def Layouts.ofType? (layouts : Layouts) (type : DataType) : Option Layout :=
  type.structName?.bind layouts.lookup?

namespace Generator

/-- The layout of the struct that a type names. -/
def layoutOf? (type : DataType) : EmitM (Option Layout) := return (← get).layouts.ofType? type

/-! ## Assignments -/

/-- Makes the first value of a field from what is given for it. -/
def emitField (field : Field) : Option Expr → EmitM (Option Vhdl.Expr)
  | some e => return some (asField field e (← emitExpr e))
  | none => return emptyField? field

/-- Makes the assignments that give the fields of `target` their first values. -/
def emitFields (target : Vhdl.Expr) : List (Field × Option Expr) → EmitM (List Vhdl.Stmt)
  | [] => return []
  | (field, given) :: rest => do
    let value ← emitField field given
    return (value.map (.assign (.field target field.name))).toList ++ (← emitFields target rest)

/-- Makes the assignments that give a variable its first value. -/
def emitInitializer (decl : Variable) : EmitM (List Vhdl.Stmt) := do
  let target := Vhdl.Expr.name (← signal decl.name)
  match decl.init with
  | some (.value value) => return [.assign target (← emitExpr value)]
  | some (.fields values) =>
    match ← layoutOf? decl.type with
    | some layout => emitFields target (givenFields layout.fields values)
    | none => return []
  | some (.elements _) => return []
  | none => return []

/-- Makes an assignment. -/
def emitAssignment (assignment : Assignment) : EmitM Vhdl.Stmt :=
  return .assign (← emitExpr assignment.target) (← emitExpr assignment.value)

/-- Makes the assignments that give back a value of type `type`: a struct in a variable is given back field by
field. -/
def emitReturn (type : DataType) (value : Expr) : EmitM (List Vhdl.Stmt) := do
  let result := Vhdl.Expr.name Vhdl.resultPort
  match ← layoutOf? type, value with
  | some layout, .ident name _ =>
    let source := Vhdl.Expr.name (← signal name)
    return layout.fields.map fun field => .assign (.field result field.name) (.field source field.name)
  | _, value => return [.assign result (← emitExpr value)]

/-- Makes the condition of a `for` loop; one that is left out always holds. -/
def emitLoopCondition : Option Expr → EmitM Vhdl.Expr
  | some condition => emitCondition condition
  | none => return .literal "true"

/-- Makes the step of a `for` loop, if it has one. -/
def emitStep : Option Assignment → EmitM (List Vhdl.Stmt)
  | some step => return [← emitAssignment step]
  | none => return []

/-! ## Statements -/

/-- Takes a step inside a block: what it brings into sight goes out of sight at the end. -/
def inBlock {α : Type} (step : EmitM α) : EmitM α := do
  let saved := (← get).signals.enterBlock
  let a ← step
  modify fun g => { g with signals := g.signals.leaveBlock saved }
  return a

/-- Brings the declaration of a local variable into sight. -/
def declare (name : String) : EmitM Unit := modify fun g => { g with signals := g.signals.declare name }

mutual

/-- Makes the sequential statements of a statement of the function called `name` that gives back a value of type
`type`. -/
def emitStatement (name : String) (type : DataType) : Statement → EmitM (List Vhdl.Stmt)
  | .declare decl => do
    declare decl.name
    emitInitializer decl
  | .assign assignment => return [← emitAssignment assignment]
  | .branch condition body alternative _ => do
    let condition ← emitCondition condition
    let body ← inBlock (emitStatements name type body)
    return [.ifThen condition body (← emitArms name type alternative)]
  | .whileLoop condition body _ => do
    let condition ← emitCondition condition
    let body ← inBlock (emitStatements name type body)
    return [.loop condition body]
  | .forLoop none condition step body _ => inBlock do
    let condition ← emitLoopCondition condition
    let body ← inBlock (emitStatements name type body)
    return [.loop condition (body ++ (← emitStep step))]
  | .forLoop (some start) condition step body _ => inBlock do
    let start ← emitStatement name type start
    let condition ← emitLoopCondition condition
    let body ← inBlock (emitStatements name type body)
    return start ++ [.loop condition (body ++ (← emitStep step))]
  | .giveBack (some value) _ => emitReturn type value
  | .giveBack none _ => return []
  | .leaveLoop _ => return [.exit]
  | .nextRound _ => return [.next]
  | .evaluate e => do
    let value ← emitExpr e
    warn (.unusedValue name) e.loc
    return [.unsynthesized value]

/-- Makes the further arms of a branch. -/
def emitArms (name : String) (type : DataType) : Alternative → EmitM Vhdl.Arms
  | .nothing => return .done
  | .elseIf condition body alternative => do
    let condition ← emitCondition condition
    let body ← inBlock (emitStatements name type body)
    return .elsif condition body (← emitArms name type alternative)
  | .otherwise body => return .otherwise (← inBlock (emitStatements name type body))

/-- Makes the sequential statements of several statements in turn. -/
def emitStatements (name : String) (type : DataType) : List Statement → EmitM (List Vhdl.Stmt)
  | [] => return []
  | s :: ss => do
    let first ← emitStatement name type s
    return first ++ (← emitStatements name type ss)

end

/-- Makes the sequential statements of a block. -/
def emitBlock (name : String) (type : DataType) (body : List Statement) : EmitM (List Vhdl.Stmt) :=
  inBlock (emitStatements name type body)

end Generator

end ClockedC
