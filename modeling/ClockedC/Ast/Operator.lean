import ClockedC.Token.Basic

/-!
# Operators

Binary operators group by precedence, the higher number binding tighter, and to the left among equals.
-/

namespace ClockedC

/-- The binary operators. -/
inductive Operator where
  | add
  | sub
  | mul
  | div
  | eq
  | ne
  | lt
  | le
  | gt
  | ge
  | and
  | or
  | bitAnd
  | bitOr
  | bitXor
  | shiftLeft
  | shiftRight
  deriving DecidableEq, Repr

namespace Operator

/-- How tightly an operator binds. -/
def precedence : Operator → Int
  | mul | div => 7
  | add | sub => 6
  | shiftLeft | shiftRight => 5
  | lt | le | gt | ge => 4
  | eq | ne => 3
  | bitAnd => 2
  | bitXor => 1
  | bitOr => 0
  | and => -1
  | or => -2

/-- The precedence of the loosest operator: every operator may stand in a full expression. -/
def lowestPrecedence : Int := -2

/-- The loosest precedence allowed right inside parentheses. -/
def parenthesisedPrecedence : Int := 1

/-- Whether an operator compares two values. -/
def isComparison : Operator → Bool
  | eq | ne | lt | le | gt | ge => true
  | _ => false

/-- Whether an operator joins two truth values. -/
def isLogical : Operator → Bool
  | and | or => true
  | _ => false

/-- Whether an operator is one of `+`, `-`, `*` and `/`. -/
def isArithmetic : Operator → Bool
  | add | sub | mul | div => true
  | _ => false

/-- Whether an operator is one of `<<` and `>>`. -/
def isShift : Operator → Bool
  | shiftLeft | shiftRight => true
  | _ => false

/-- The symbol an operator is written with. -/
def symbol : Operator → Symbol
  | add => .plus
  | sub => .minus
  | mul => .star
  | div => .slash
  | eq => .equal
  | ne => .notEqual
  | lt => .less
  | le => .lessEqual
  | gt => .greater
  | ge => .greaterEqual
  | and => .andAnd
  | or => .orOr
  | bitAnd => .ampersand
  | bitOr => .bar
  | bitXor => .caret
  | shiftLeft => .shiftLeft
  | shiftRight => .shiftRight

/-- How an operator is written. -/
def spelling (op : Operator) : String := op.symbol.spelling

/-- The binary operator a symbol stands for between two operands. -/
def ofSymbol? : Symbol → Option Operator
  | .plus => some add
  | .minus => some sub
  | .star => some mul
  | .slash => some div
  | .equal => some eq
  | .notEqual => some ne
  | .less => some lt
  | .lessEqual => some le
  | .greater => some gt
  | .greaterEqual => some ge
  | .andAnd => some and
  | .orOr => some or
  | .ampersand => some bitAnd
  | .bar => some bitOr
  | .caret => some bitXor
  | .shiftLeft => some shiftLeft
  | .shiftRight => some shiftRight
  | _ => none

/-- The binary operator a lexeme stands for between two operands. -/
def ofLexeme? : Lexeme → Option Operator
  | .symbol s => ofSymbol? s
  | _ => none

/-- A symbol is read as an operator exactly if the operator is written with it. -/
theorem ofSymbol?_eq_some_iff {s : Symbol} {op : Operator} : ofSymbol? s = some op ↔ op.symbol = s := by
  constructor
  · intro h
    cases s <;> cases h <;> rfl
  · rintro rfl
    cases op <;> rfl

theorem lowestPrecedence_le (op : Operator) : lowestPrecedence ≤ op.precedence := by
  cases op <;> decide

end Operator

/-- The operators with one operand, the minus sign left out. -/
inductive UnaryOperator where
  /-- `!`, which holds of zero. -/
  | not
  /-- `~`, which inverts every bit. -/
  | bitNot
  deriving DecidableEq, Repr

/-- How an operator with one operand is written. -/
def UnaryOperator.spelling : UnaryOperator → String
  | not => "!"
  | bitNot => "~"

end ClockedC
