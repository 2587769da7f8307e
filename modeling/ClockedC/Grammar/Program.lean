import ClockedC.Grammar.Statement

/-!
# Reading programs

A program is read item by item. What is neither a struct nor a function (prototypes, global variables, stray
tokens) is skipped with a warning.

* `topLevel` : one item, or what is skipped in its place;
* `program` : all items;
* `Reader.ofSource` : a reader at the beginning of a source text.
-/

namespace ClockedC.Grammar

/-! ## Structs -/

/-- Reads a field of a struct behind `fields`, and by `more` those that follow; there need not be any. -/
def structFieldsBy (more : List Field → ReadM (List Field)) (struct : String) (fields : List Field) :
    ReadM (List Field) := do
  let token ← current
  match token.lexeme with
  | .symbol .closeBrace => return fields
  | .eof => return fields
  | _ =>
    let type ← dataType
    let name ← identifier
    if type = .void then
      refuseDeclaration (.voidField name struct) token.loc
    if fields.any (·.name = name) then
      refuseDeclaration (.duplicateField name struct) token.loc
    expect .semicolon "after struct field"
    more (fields ++ [⟨name, type⟩])

/-- Reads the fields of a struct up to a closing brace or the end; `fields` are those before. -/
def structFields (struct : String) : Nat → List Field → ReadM (List Field)
  | 0, _ => refuseDepth
  | depth + 1, fields => structFieldsBy (structFields struct depth) struct fields

/-- Reads the definition of a struct, its keyword read already. -/
def structDefinition : ReadM Struct := do
  let loc := (← current).loc
  let name ← identifier
  if ((← get).tables.structs.index? name).isSome then
    refuseDeclaration (.redefinedStruct name) loc
  expect .openBrace "after struct name"
  let fields ← structFields name (← get).depth []
  expect .closeBrace "after struct fields"
  expect .semicolon "after struct definition"
  if fields.isEmpty then
    refuseDeclaration (.emptyStruct name) loc
  modify fun r => { r with tables.structs := r.tables.structs.define name fields }
  note (.definedStruct name fields.length)
  return { name, fields, loc }

/-! ## Functions -/

/-- Reads one parameter; `others` are those before. -/
def parameter (others : List Parameter) : ReadM Parameter := do
  let loc := (← current).loc
  let type ← dataType
  let name ← identifier
  if type = .void then
    refuseDeclaration (.voidParameter name) loc
  if ← nextIs (.symbol .openBracket) then
    refuseDeclaration (.arrayParameter name) loc
  if others.any (·.name = name) then
    refuseDeclaration (.duplicateParameter name) loc
  return { name, type, loc }

/-- Reads a parameter behind `others`, and behind a comma more of them by `more`. -/
def parametersBy (more : List Parameter → ReadM (List Parameter)) (others : List Parameter) :
    ReadM (List Parameter) := do
  let p ← parameter others
  if ← accept .comma then
    more (others ++ [p])
  else
    return others ++ [p]

/-- Reads parameters between commas; `others` are those before. -/
def parametersFrom : Nat → List Parameter → ReadM (List Parameter)
  | 0, _ => refuseDepth
  | depth + 1, others => parametersBy (parametersFrom depth) others

/-- Reads the parameters of a function; `(void)` and `()` have none. -/
def parameters : ReadM (List Parameter) := do
  if ← nextIs (.symbol .closeParen) then
    return []
  else if (← nextIs (.keyword .void)) && (← lexemeAhead 1) = .symbol .closeParen then
    advance
    return []
  else
    parametersFrom (← get).depth []

/-- Reads a function; a prototype is skipped with a warning. Its body is read by `block` as a tree, `body` gives the
statements of the tree, and `make` puts the function and the tree together. -/
def functionBy {β γ : Type} (block : ReadM β) (body : β → List Statement) (make : Function → β → γ) :
    ReadM (Option γ) := do
  let result ← dataType
  let loc := (← current).loc
  let name ← identifier
  expect .openParen "after function name"
  modify fun r => { r with tables.arrays := .empty }
  let parameters ← parameters
  expect .closeParen "after parameters"
  if ← accept .semicolon then
    warn (.prototype name) loc
    return none
  else
    expect .openBrace "before function body"
    modify fun r => { r with loopDepth := 0 }
    let tree ← block
    expect .closeBrace "after function body"
    note (.readFunction name parameters.length (body tree).length)
    return some (make { name, result, parameters, body := body tree, loc } tree)

/-- Reads a function. -/
def functionDefinition : ReadM (Option Function) := functionBy block (fun body => body) fun f _ => f

/-! ## Items -/

/-- Skips the next token with a warning. -/
def skipWarning (warning : Warning) (loc : Location) : ReadM (Option Item) := do
  warn warning loc
  advance
  return none

/-- Reads an item that begins with a type of `length` tokens at `loc`. -/
def typedItem (length : Nat) (loc : Location) : ReadM (Option Item) := do
  match ← lexemeAhead length, ← lexemeAhead (length + 1) with
  | .identifier _, .symbol .openParen => return (← functionDefinition).map .function
  | .identifier _, _ =>
    warn .globalVariable loc
    skipPastSemicolon
    return none
  | found, _ => skipWarning (.missingDeclarator found) loc

/-- Reads an item, or skips what is none. -/
def topLevel : ReadM (Option Item) := do
  let token ← current
  match token.lexeme with
  | .keyword .struct =>
    match ← lexemeAhead 1, ← lexemeAhead 2 with
    | .identifier _, .symbol .openBrace =>
      advance
      return some (.struct (← structDefinition))
    | .identifier _, _ => typedItem 2 token.loc
    | _, _ => skipWarning .missingStructName token.loc
  | .keyword .int => typedItem 1 token.loc
  | .keyword .float => typedItem 1 token.loc
  | .keyword .double => typedItem 1 token.loc
  | .keyword .char => typedItem 1 token.loc
  | .keyword .void => typedItem 1 token.loc
  | found => skipWarning (.strayToken found) token.loc

/-- Reads an item unless there are no more tokens, and by `items` those that follow. -/
def itemsBy (items : ReadM (List Item)) : ReadM (List Item) := do
  if ← nextIs .eof then
    return []
  else
    let item ← topLevel
    return item.toList ++ (← items)

/-- Reads items up to the end. -/
def items : Nat → ReadM (List Item)
  | 0 => refuseDepth
  | depth + 1 => itemsBy (items depth)

/-- Reads a program. -/
def program : ReadM Program := do
  let items ← items (← get).depth
  note (.readProgram items.length (← get).tables.structs.count)
  return ⟨items⟩

end ClockedC.Grammar

namespace ClockedC

/-- All that is logged about a scan: what was logged on the way, and how many tokens there are if it came to the
end. -/
def Scan.events (scan : Scan) : List Event :=
  scan.log ++
    match scan.outcome with
    | .ok stream => [.tokenised stream.toList.length]
    | .error _ => []

/-- A reader at the beginning of a scanned source, or the error that stopped the scan. -/
def Reader.ofScan (scan : Scan) : Except CompileError Reader :=
  scan.outcome.map fun stream =>
    { Reader.ofStream stream with diagnostics := scan.warnings, log := scan.events }

/-- A reader at the beginning of a source text. -/
def Reader.ofSource (source : String) : Except CompileError Reader :=
  Reader.ofScan (Scan.ofSource source)

end ClockedC
