import ClockedC.Grammar.Reader

/-!
# Reading expressions

Binary operators are read by precedence: after an operator, its right operand takes all tighter operators.
Inside parentheses the operators `|`, `&&` and `||` are not read.

Productions that call each other are bounded by a depth. What such a production does is said in a definition of its own
(`fieldsBy`, `operandBy` and so on), which is given the productions that it calls.

* `expressionAt` : an expression without operators looser than a precedence;
* `primary` : an operand;
* `place` : a variable, its fields and at most one index.
-/

namespace ClockedC.Grammar

/-! ## Places -/

/-- Reads the fields selected from `base`; `fields` reads those behind the first. -/
def fieldsBy (fields : Expr → ReadM Expr) (loc : Location) (base : Expr) : ReadM Expr := do
  if ← accept .dot then
    let name ← identifier
    fields (.field base name loc)
  else
    return base

/-- Reads the fields selected from `base`, each of them placed at `loc`. -/
def fieldsOf (loc : Location) : Nat → Expr → ReadM Expr
  | 0, _ => refuseDepth
  | depth + 1, base => fieldsBy (fieldsOf loc depth) loc base

/-- Refuses a constant index that misses an array of known size. -/
def checkIndex (base index : Expr) (loc : Location) : ReadM Unit := do
  let arrays := (← get).tables.arrays
  match index.integer?, base.flatName? with
  | some value, some name =>
    match arrays.size? name with
    | some size => if value < 0 ∨ size ≤ value then throw (.outOfBounds value name size loc)
    | none => return ()
  | _, _ => return ()

/-- Reads a place whose fields are read by `fields` and whose index is read by `index`. -/
def placeBy (fields : Location → Expr → ReadM Expr) (index : ReadM Expr) : ReadM Expr := do
  let loc := (← current).loc
  let name ← identifier
  let base ← fields loc (.ident name loc)
  if ← accept .openBracket then
    let position ← index
    expect .closeBracket "after array index"
    checkIndex base position loc
    return .element base position loc
  else
    return base

/-- Reads a place whose index is read by `index`. -/
def placeWith (depth : Nat) (index : ReadM Expr) : ReadM Expr := placeBy (fun loc => fieldsOf loc depth) index

/-! ## Operands and operators -/

/-- Reads an item, and behind a comma more of them by `items`. -/
def commaSeparatedBy {α : Type} (items : ReadM (List α)) (item : ReadM α) : ReadM (List α) := do
  let first ← item
  if ← accept .comma then
    return first :: (← items)
  else
    return [first]

/-- Reads one or more items between commas. -/
def commaSeparated {α : Type} (item : ReadM α) : Nat → ReadM (List α)
  | 0 => refuseDepth
  | depth + 1 => commaSeparatedBy (commaSeparated item depth) item

/-- Reads the arguments of a call up to its closing parenthesis; if there are any, `list` reads them. -/
def argumentsBy (list : ReadM (List Expr)) : ReadM (List Expr) := do
  let args ← if ← nextIs (.symbol .closeParen) then pure [] else list
  expect .closeParen "after call arguments"
  return args

/-- Reads the arguments of a call up to its closing parenthesis. -/
def argumentsWith (depth : Nat) (argument : ReadM Expr) : ReadM (List Expr) :=
  argumentsBy (commaSeparated argument depth)

/-- The binary operator that is next, if it binds at least as tightly as `least`. -/
def operatorFrom? (least : Int) : ReadM (Option Operator) :=
  return (Operator.ofLexeme? (← current).lexeme).filter (least ≤ ·.precedence)

/-- Reads an expression: an operand, and the operators behind it. -/
def expressionBy (operand : ReadM Expr) (operators : Int → Expr → ReadM Expr) (least : Int) : ReadM Expr := do
  let left ← operand
  operators least left

/-- Reads the operator behind `left` and its right operand, and by `operators` what follows. -/
def operatorsBy (expression : Int → ReadM Expr) (operators : Int → Expr → ReadM Expr) (least : Int) (left : Expr) :
    ReadM Expr := do
  let loc := (← current).loc
  match ← operatorFrom? least with
  | none => return left
  | some op =>
    advance
    let right ← expression (op.precedence + 1)
    operators least (.binary op left right loc)

/-- Reads an operand: one behind a sign by `operand`, one in parentheses by `expression`. -/
def operandBy (operand : ReadM Expr) (expression : Int → ReadM Expr) (arguments : ReadM (List Expr))
    (place : ReadM Expr) : ReadM Expr := do
  let token ← current
  match token.lexeme with
  | .symbol .bang =>
    advance
    return .unary .not (← operand) token.loc
  | .symbol .tilde =>
    advance
    return .unary .bitNot (← operand) token.loc
  | .symbol .minus =>
    advance
    return (← operand).negated token.loc
  | .symbol .openParen =>
    advance
    let inner ← expression Operator.parenthesisedPrecedence
    expect .closeParen "after expression"
    return inner
  | .number text =>
    advance
    return .number text token.loc
  | .identifier name =>
    if (← lexemeAhead 1) = .symbol .openParen then
      advance
      advance
      let args ← arguments
      return .call name args token.loc
    else
      place
  | .string _ => refuse .stringLiteral token.loc
  | found => refuse (.noExpression found) token.loc

mutual

/-- Reads an expression whose operators bind at least as tightly as `least`. -/
def expressionAt : Nat → Int → ReadM Expr
  | 0, _ => refuseDepth
  | depth + 1, least => expressionBy (primary depth) (operatorsFrom depth) least

/-- Reads the operators that follow the operand `left`, from the left to the right. -/
def operatorsFrom : Nat → Int → Expr → ReadM Expr
  | 0, _, _ => refuseDepth
  | depth + 1, least, left => operatorsBy (expressionAt depth) (operatorsFrom depth) least left

/-- Reads an operand. -/
def primary : Nat → ReadM Expr
  | 0 => refuseDepth
  | depth + 1 =>
    operandBy (primary depth) (expressionAt depth) (argumentsWith depth (expressionAt depth Operator.lowestPrecedence))
      (placeWith depth (expressionAt depth Operator.lowestPrecedence))

end

/-- Reads a full expression. -/
def expression : ReadM Expr := do
  expressionAt (← get).depth Operator.lowestPrecedence

/-- Reads a place. -/
def place : ReadM Expr := do
  placeWith (← get).depth expression

end ClockedC.Grammar
