import ClockedC.Grammar.Variable

/-!
# Reading statements

A nested block adds its statements to the list around it, and an empty statement adds nothing. Increments and
decrements are read as assignments.

* `statements` : the statements up to a closing brace;
* `statement` : one statement.
-/

namespace ClockedC.Grammar

/-! ## Assignments -/

/-- The assignment that `++` or `--` stands for. -/
def stepBy (op : Operator) (target : Expr) (loc : Location) : Assignment where
  target := target
  value := .binary op target (.number "1" loc) loc
  loc := loc

/-- The operator that `++` or `--` applies. -/
def stepOperator? : Lexeme → Option Operator
  | .symbol .increment => some .add
  | .symbol .decrement => some .sub
  | _ => none

/-- Reads `++x`, `--x`, `x++`, `x--` or `x = e`. -/
def step : ReadM Assignment := do
  let token ← current
  match stepOperator? token.lexeme with
  | some op =>
    advance
    return stepBy op (← place) token.loc
  | none =>
    let target ← place
    let mark ← current
    match stepOperator? mark.lexeme with
    | some op =>
      advance
      return stepBy op target token.loc
    | none =>
      if ← accept .assign then
        let value ← expression
        return { target, value, loc := token.loc }
      else
        refuse (.noStep mark.lexeme) mark.loc

/-- Reads a statement that is an expression. -/
def expressionStatement : ReadM Statement := do
  let value ← expression
  expect .semicolon "after expression"
  return .evaluate value

/-- Reads a statement that begins with an identifier: an assignment, or else an expression read from the
beginning again. -/
def assignmentOrExpression : ReadM Statement := do
  let start ← get
  let loc := start.next.loc
  if (← lexemeAhead 1) = .symbol .openParen then
    expressionStatement
  else
    let target ← place
    let mark ← current
    match stepOperator? mark.lexeme with
    | some op =>
      advance
      expect .semicolon "after increment"
      return .assign (stepBy op target loc)
    | none =>
      if ← accept .assign then
        let value ← expression
        expect .semicolon "after assignment"
        return .assign { target, value, loc }
      else
        modify fun r => { r with queue := start.queue }
        expressionStatement

/-- Reads the value given back by a function, after its keyword. -/
def returned (loc : Location) : ReadM Statement := do
  if ← accept .semicolon then
    return .giveBack none loc
  else
    let value ← expression
    expect .semicolon "after return value"
    return .giveBack (some value) loc

/-! ## The head of a `for` loop -/

/-- Reads what is done before the first round. -/
def forStart : ReadM (Option Statement) := do
  let token ← current
  if ← accept .semicolon then
    return none
  else if startsVariable token.lexeme then
    return some (.declare (← variableDeclaration))
  else
    match token.lexeme with
    | .identifier _ =>
      let target ← place
      expect .assign "in for initializer"
      let value ← expression
      expect .semicolon "after for initializer"
      return some (.assign { target, value, loc := token.loc })
    | found => refuse (.noForStart found) token.loc

/-- Reads the condition of a round; without one the loop has no end. -/
def forCondition : ReadM (Option Expr) := do
  let condition ← if ← nextIs (.symbol .semicolon) then pure none else some <$> expression
  expect .semicolon "after for condition"
  return condition

/-- Reads what is done after every round. -/
def forStep : ReadM (Option Assignment) := do
  let increment ← if ← nextIs (.symbol .closeParen) then pure none else some <$> step
  expect .closeParen "after for clauses"
  return increment

/-- Reads a condition in parentheses; `keyword` and `construct` name what it belongs to. -/
def parenthesisedCondition (keyword construct : String) : ReadM Expr := do
  expect .openParen ("after '" ++ keyword ++ "'")
  let condition ← expression
  expect .closeParen ("after " ++ construct ++ " condition")
  return condition

/-! ## Statements

What statements are put together to is left open here: `nested` says what a nested block leaves in the list around it,
and the constructors of trees are arguments. -/

section Open

variable {σ τ α : Type}

/-- Reads what is in front of a closing brace or the end: a nested block or a statement, and more by `statements`. -/
def statementsBy (nested : List σ → List σ) (statements : ReadM (List σ)) (statement : ReadM σ) : ReadM (List σ) := do
  match (← current).lexeme with
  | .symbol .closeBrace => return []
  | .eof => return []
  | .symbol .openBrace =>
    advance
    let inner ← statements
    expect .closeBrace "after block"
    return nested inner ++ (← statements)
  | .symbol .semicolon =>
    advance
    statements
  | _ =>
    let first ← statement
    return first :: (← statements)

/-- Reads the statements between braces, or else a single statement. -/
def bodyBy (statements : ReadM (List σ)) (statement : ReadM σ) (context : String) : ReadM (List σ) := do
  if ← accept .openBrace then
    let inner ← statements
    expect .closeBrace context
    return inner
  else
    return [← statement]

/-- Reads a branch, its keyword read already. -/
def branchBy (branch : Expr → List σ → α → Location → τ) (body : String → ReadM (List σ)) (alternative : ReadM α)
    (loc : Location) : ReadM τ := do
  let condition ← parenthesisedCondition "if" "if"
  let block ← body "after if body"
  return branch condition block (← alternative) loc

/-- Reads a `while` loop, its keyword read already. -/
def whileBy (whileLoop : Expr → List σ → Location → τ) (body : String → ReadM (List σ)) (loc : Location) : ReadM τ := do
  let condition ← parenthesisedCondition "while" "while"
  let block ← insideLoop (body "after while body")
  return whileLoop condition block loc

/-- Reads a `for` loop, its keyword read already. -/
def forBy (forLoop : Option Statement → Option Expr → Option Assignment → List σ → Location → τ)
    (body : String → ReadM (List σ)) (loc : Location) : ReadM τ := do
  expect .openParen "after 'for'"
  let start ← forStart
  let condition ← forCondition
  let increment ← forStep
  let block ← insideLoop (body "after for body")
  return forLoop start condition increment block loc

/-- Reads an arm behind the first one of a branch, if there is one, and more by `alternative`. -/
def alternativeBy (nothing : α) (elseIf : Expr → List σ → α → α) (otherwise : List σ → α)
    (body : String → ReadM (List σ)) (alternative : ReadM α) : ReadM α := do
  if ← acceptKeyword .elseWord then
    if ← acceptKeyword .ifWord then
      let condition ← parenthesisedCondition "else if" "else if"
      let block ← body "after else if body"
      return elseIf condition block (← alternative)
    else
      return otherwise (← body "after else body")
  else
    return nothing

end Open

/-- Reads a statement; `body` and `alternative` read what has statements inside. -/
def statementBy (body : String → ReadM (List Statement)) (alternative : ReadM Alternative) : ReadM Statement := do
  let token ← current
  match token.lexeme with
  | .keyword .returnWord =>
    advance
    returned token.loc
  | .keyword .ifWord =>
    advance
    branchBy .branch body alternative token.loc
  | .keyword .whileWord =>
    advance
    whileBy .whileLoop body token.loc
  | .keyword .forWord =>
    advance
    forBy .forLoop body token.loc
  | .keyword .breakWord =>
    advance
    requireLoop .breakWord token.loc
    expect .semicolon "after 'break'"
    return .leaveLoop token.loc
  | .keyword .continueWord =>
    advance
    requireLoop .continueWord token.loc
    expect .semicolon "after 'continue'"
    return .nextRound token.loc
  | .symbol .increment =>
    let assignment ← step
    expect .semicolon "after increment"
    return .assign assignment
  | .symbol .decrement =>
    let assignment ← step
    expect .semicolon "after increment"
    return .assign assignment
  | .identifier _ => assignmentOrExpression
  | found =>
    if startsVariable found then
      return .declare (← variableDeclaration)
    else
      refuse (.noStatement found) token.loc

mutual

/-- Reads statements up to a closing brace or the end. -/
def statements : Nat → ReadM (List Statement)
  | 0 => refuseDepth
  | depth + 1 => statementsBy (fun inner => inner) (statements depth) (statement depth)

/-- Reads a statement. -/
def statement : Nat → ReadM Statement
  | 0 => refuseDepth
  | depth + 1 => statementBy (body depth) (alternative depth)

/-- Reads a block in braces or a single statement. -/
def body : Nat → String → ReadM (List Statement)
  | 0, _ => refuseDepth
  | depth + 1, context => bodyBy (statements depth) (statement depth) context

/-- Reads the arms that follow the first arm of a branch. -/
def alternative : Nat → ReadM Alternative
  | 0 => refuseDepth
  | depth + 1 => alternativeBy .nothing .elseIf .otherwise (body depth) (alternative depth)

end

/-- Reads the statements of a block, its opening brace read already. -/
def block : ReadM (List Statement) := do
  statements (← get).depth

end ClockedC.Grammar
