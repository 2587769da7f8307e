import ClockedC.Ast.Expr
import ClockedC.Ast.DataType
import ClockedC.Vhdl.Design

/-!
# Operators in hardware

A vector has no arithmetic meaning in VHDL, so operands are converted where an operator needs a number. Here is what
becomes of one node of an expression, the values of the nodes below being given.

* `asOperand` : the value as a number;
* `asCondition` : the value as a condition;
* `hardwareLiteral`, `hardwareUnary`, `hardwareBinary` : the values of literals and operations.
-/

namespace ClockedC

/-- The types of signals that hold values of a type. -/
def DataType.signalType : DataType → Vhdl.SignalType
  | .struct name => .record name
  | type => .vector type.width

/-! ## Operands -/

/-- The number that an expression stands for, `value` being its value. A literal is converted by its sign. -/
def asOperand (e : Expr) (value : Vhdl.Expr) : Vhdl.Expr :=
  match e with
  | .number text _ => .convertLiteral text
  | _ => .unsigned value

/-- The test that an expression is not zero. -/
def isNonzero (e : Expr) (value : Vhdl.Expr) : Vhdl.Expr :=
  .binary .ne (asOperand e value) (.literal "0")

/-- The condition that an expression stands for. -/
def asCondition (e : Expr) (value : Vhdl.Expr) : Vhdl.Expr :=
  if e.isTruth then value else isNonzero e value

/-- The condition that an expression stands for, as an input of a gate. -/
def asGateInput (e : Expr) (value : Vhdl.Expr) : Vhdl.Expr :=
  if e.isTruth then .paren value else isNonzero e value

/-- The amount of a shift: a literal stands for itself unless it is negative. -/
def asShiftAmount (e : Expr) (value : Vhdl.Expr) : Vhdl.Expr :=
  match e.integer? with
  | some (.ofNat n) => .ofNat n
  | _ => .toInteger (asOperand e value)

/-- Whether an operand of the arithmetic operator `parent` must stand in parentheses. -/
def needsParens (parent : Operator) (isRight : Bool) : Expr → Bool
  | .binary op _ _ _ =>
    !op.isArithmetic || op.precedence < parent.precedence ||
      (isRight && op.precedence = parent.precedence)
  | .negate _ _ => true
  | _ => false

/-- An operand of the arithmetic operator `parent`. -/
def asTerm (parent : Operator) (isRight : Bool) (e : Expr) (value : Vhdl.Expr) : Vhdl.Expr :=
  if needsParens parent isRight e then .paren value else value

/-! ## Operators -/

/-- A comparison of two numbers. -/
def compareOperands (op : Vhdl.Operator) (l r : Expr) (lv rv : Vhdl.Expr) : Vhdl.Expr :=
  .binary op (asOperand l lv) (asOperand r rv)

/-- A gate over two conditions. -/
def joinConditions (op : Vhdl.Operator) (l r : Expr) (lv rv : Vhdl.Expr) : Vhdl.Expr :=
  .paren (.binary op (asGateInput l lv) (asGateInput r rv))

/-- A shift by the function called `name`. -/
def shiftOperand (name : String) (l r : Expr) (lv rv : Vhdl.Expr) : Vhdl.Expr :=
  .apply (.name name) [asOperand l lv, asShiftAmount r rv]

/-- An arithmetic operation, grouped as in the source. -/
def joinTerms (op : Operator) (vop : Vhdl.Operator) (l r : Expr) (lv rv : Vhdl.Expr) : Vhdl.Expr :=
  .binary vop (asTerm op false l lv) (asTerm op true r rv)

/-- The value of a binary operation, `lv` and `rv` being the values of its operands. -/
def hardwareBinary (op : Operator) (l r : Expr) (lv rv : Vhdl.Expr) : Vhdl.Expr :=
  match op with
  | .eq => compareOperands .eq l r lv rv
  | .ne => compareOperands .ne l r lv rv
  | .lt => compareOperands .lt l r lv rv
  | .le => compareOperands .le l r lv rv
  | .gt => compareOperands .gt l r lv rv
  | .ge => compareOperands .ge l r lv rv
  | .and => joinConditions .and l r lv rv
  | .or => joinConditions .or l r lv rv
  | .bitAnd => compareOperands .and l r lv rv
  | .bitOr => compareOperands .or l r lv rv
  | .bitXor => compareOperands .xor l r lv rv
  | .shiftLeft => shiftOperand "shift_left" l r lv rv
  | .shiftRight => shiftOperand "shift_right" l r lv rv
  | .add => joinTerms .add .add l r lv rv
  | .sub => joinTerms .sub .sub l r lv rv
  | .mul => joinTerms .mul .mul l r lv rv
  | .div => joinTerms .div .div l r lv rv

/-- The value of a literal: one with a minus sign is converted. -/
def hardwareLiteral (text : String) : Vhdl.Expr :=
  if text.toList.head? = some '-' then .convertLiteral text else .literal text

/-- The value of a unary operation. -/
def hardwareUnary (op : UnaryOperator) (e : Expr) (value : Vhdl.Expr) : Vhdl.Expr :=
  match op with
  | .not =>
    if e.isTruth then .not (.paren value)
    else .paren (.binary .eq (asOperand e value) (.literal "0"))
  | .bitNot => .not (asOperand e value)

end ClockedC
