import ClockedC.Grammar.Expression

/-!
# Reading types and local variables

A variable has a type, a name, for an array its length, and what it holds at first. An array that is declared
gets its size registered, so that constant indices can be checked.
-/

namespace ClockedC.Grammar

/-- Reads a type; a struct must be defined before it is named. -/
def dataType : ReadM DataType := do
  let token ← current
  match token.lexeme with
  | .keyword .int =>
    advance
    return .int
  | .keyword .float =>
    advance
    return .float
  | .keyword .double =>
    advance
    return .double
  | .keyword .char =>
    advance
    return .char
  | .keyword .void =>
    advance
    return .void
  | .keyword .struct =>
    advance
    let name ← identifier
    if ((← get).tables.structs.index? name).isNone then
      refuseDeclaration (.undefinedStruct name) token.loc
    return .struct name
  | found => refuse (.noType found) token.loc

/-- Whether a declaration of a variable may begin with a lexeme. -/
def startsVariable : Lexeme → Bool
  | .keyword .int => true
  | .keyword .float => true
  | .keyword .double => true
  | .keyword .char => true
  | .keyword .struct => true
  | _ => false

/-- Reads the length of the array called `name`. -/
def arrayLength (name : String) : ReadM Nat := do
  let token ← current
  match token.lexeme with
  | .number text =>
    advance
    match (Text.natural64? text).filter (0 < ·) with
    | some length => return length
    | none => refuseDeclaration (.badArraySize name text) token.loc
  | found => refuseDeclaration (.noArraySize found) token.loc

/-- Reads the brackets of an array and registers its size; there need not be any. -/
def arrayBrackets (name : String) : ReadM (Option Nat) := do
  if ← accept .openBracket then
    let length ← arrayLength name
    expect .closeBracket "after array size"
    modify fun r => { r with tables.arrays := r.tables.arrays.register name length }
    return some length
  else
    return none

/-- Reads a value of a brace list, and behind a comma more of them by `values`; there need not be any. -/
def braceValuesBy (values : ReadM (List Expr)) : ReadM (List Expr) := do
  if ← nextIs (.symbol .closeBrace) then
    return []
  else
    let value ← expression
    if ← accept .comma then
      return value :: (← values)
    else
      return [value]

/-- Reads the values of a brace list; a comma may follow the last one. -/
def braceValues : Nat → ReadM (List Expr)
  | 0 => refuseDepth
  | depth + 1 => braceValuesBy (braceValues depth)

/-- Reads a brace list whose opening brace has been read. -/
def braceList : ReadM (List Expr) := do
  let values ← braceValues (← get).depth
  expect .closeBrace "after initializer list"
  return values

/-- Reads what the variable `name`, declared at `loc`, holds at first. -/
def initializer (name : String) (type : DataType) (length : Option Nat) (loc : Location) :
    ReadM Initializer := do
  if ← accept .openBrace then
    let values ← braceList
    match length, type with
    | some length, _ =>
      if length < values.length then
        refuseDeclaration (.tooManyElements name values.length length) loc
      return .elements values
    | none, .struct struct =>
      let count := (((← get).tables.structs.lookup? struct).map (·.fields.length)).getD 0
      if count < values.length then
        refuseDeclaration (.tooManyFields struct values.length count) loc
      return .fields values
    | none, _ => refuseDeclaration (.bracedScalar name) loc
  else
    if length.isSome then
      refuseDeclaration (.bareArrayInitializer name) loc
    return .value (← expression)

/-- Reads the declaration of a variable. -/
def variableDeclaration : ReadM Variable := do
  let loc := (← current).loc
  let type ← dataType
  let name ← identifier
  if type = .void then
    refuseDeclaration (.voidVariable name) loc
  let length ← arrayBrackets name
  let init ← if ← accept .assign then some <$> initializer name type length loc else pure none
  expect .semicolon "after variable declaration"
  return { name, type, length, init, loc }

end ClockedC.Grammar
