import ClockedC.Log
import ClockedC.Tables
import ClockedC.Token.Queue
import ClockedC.Token.Stream

/-!
# Reading tokens

The grammar reads a token stream from left to right. A `Reader` is where it stands: the tokens not yet read,
the nesting of loops, the symbol tables, and the diagnostics and log events so far. A production is a step
`ReadM α`; one that fails keeps the reader where the fault was found, so that reading may go on from there.

* `current`, `advance`, `accept`, `expect` : the moves from token to token;
* `warn`, `note` : the records kept on the way;
* `insideLoop` : a step during which one more loop is open.
-/

namespace ClockedC

/-- Where the grammar stands. -/
structure Reader where
  /-- The tokens not yet read, counted. -/
  queue : TokenQueue
  /-- The location of the end of the source. -/
  eof : Location
  /-- The tokens behind the end. -/
  beyond : List Token := []
  /-- How many loop bodies are open. -/
  loopDepth : Nat := 0
  tables : Tables := {}
  diagnostics : List Diagnostic := []
  log : List Event := []

namespace Reader

/-- A reader at the beginning of a stream. -/
def ofStream (stream : TokenStream) : Reader where
  queue := .ofList stream.front
  eof := (stream.ending.head?.map (·.loc)).getD stream.eof
  beyond := stream.ending.tail

/-- The tokens not yet read. -/
def rest (r : Reader) : List Token := r.queue.tokens

/-- The end and the tokens behind it. -/
def ending (r : Reader) : List Token := ⟨.eof, r.eof⟩ :: r.beyond

/-- The token `n` places ahead, which may lie behind the end; behind all tokens there is the end again. -/
def ahead (r : Reader) (n : Nat) : Token :=
  match r.rest[n]? with
  | some token => token
  | none => r.ending[n - r.queue.size]?.getD ⟨.eof, r.eof⟩

/-- The next token. -/
def next (r : Reader) : Token := r.ahead 0

/-- How deep productions may nest: every nesting costs a token, and no production needs more than four
steps for one. -/
def depth (r : Reader) : Nat := 4 * (r.queue.size + 1)

theorem depth_eq (r : Reader) : r.depth = 4 * (r.rest.length + 1) := by
  rw [depth, r.queue.size_eq, rest]

end Reader

/-- A step of the grammar. -/
abbrev ReadM := EStateM CompileError Reader

namespace Grammar

/-! ## Looking at tokens -/

/-- The next token. -/
def current : ReadM Token := return (← get).next

/-- The lexeme `n` places ahead. -/
def lexemeAhead (n : Nat) : ReadM Lexeme := return ((← get).ahead n).lexeme

/-- Whether the next lexeme is `lexeme`. -/
def nextIs (lexeme : Lexeme) : ReadM Bool := return (← current).lexeme = lexeme

/-! ## Moving on -/

/-- Goes past the next token; at the end there is none. -/
def advance : ReadM Unit := modify fun r => { r with queue := r.queue.tail }

/-- Goes past the next token if it is `lexeme`, and tells whether it was. -/
def acceptLexeme (lexeme : Lexeme) : ReadM Bool := do
  if ← nextIs lexeme then
    advance
    return true
  else
    return false

/-- Goes past a symbol if it is next, and tells whether it was. -/
def accept (symbol : Symbol) : ReadM Bool := acceptLexeme (.symbol symbol)

/-- Goes past a keyword if it is next, and tells whether it was. -/
def acceptKeyword (keyword : Keyword) : ReadM Bool := acceptLexeme (.keyword keyword)

/-- Goes past the next semicolon, or to the end if there is none. -/
def skipPastSemicolon : ReadM Unit :=
  modify fun r => { r with queue := r.queue.dropThrough (·.lexeme = .symbol .semicolon) }

/-! ## Faults -/

/-- Stops at a fault of the grammar found at `loc`. -/
def refuse {α : Type} (fault : SyntacticFault) (loc : Location) : ReadM α := throw (.syntactic fault loc)

/-- Stops at a fault of a declaration found at `loc`. -/
def refuseDeclaration {α : Type} (fault : DeclarationFault) (loc : Location) : ReadM α :=
  throw (.declaration fault loc)

/-- Stops because productions nest deeper than the tokens allow. -/
def refuseDepth {α : Type} : ReadM α := do refuse .tooDeep (← current).loc

/-- Goes past a symbol that must be next; `context` says where it is missed. -/
def expect (symbol : Symbol) (context : String) : ReadM Unit := do
  unless ← accept symbol do
    let token ← current
    refuse (.missing symbol context token.lexeme) token.loc

/-- Goes past an identifier, which must be next. -/
def identifier : ReadM String := do
  let token ← current
  match token.lexeme with
  | .identifier name =>
    advance
    return name
  | found => refuse (.noIdentifier found) token.loc

/-! ## Records -/

/-- Adds an event to the log. -/
def note (event : Event) : ReadM Unit := modify fun r => { r with log := r.log ++ [event] }

/-- Gives a warning about what stands at `loc`. -/
def warn (warning : Warning) (loc : Location) : ReadM Unit := do
  let diagnostic := warning.diagnostic loc
  note (.reported diagnostic)
  modify fun r => { r with diagnostics := r.diagnostics ++ [diagnostic] }

/-! ## Loops -/

/-- Takes a step while one more loop is open. The loop is closed again whether the step fails or not. -/
def insideLoop {α : Type} (step : ReadM α) : ReadM α := fun r =>
  match step { r with loopDepth := r.loopDepth + 1 } with
  | .ok a r => .ok a { r with loopDepth := r.loopDepth - 1 }
  | .error e r => .error e { r with loopDepth := r.loopDepth - 1 }

/-- Refuses a jump at `loc` unless a loop is open. -/
def requireLoop (keyword : Keyword) (loc : Location) : ReadM Unit := do
  if (← get).loopDepth = 0 then
    throw (.strayJump keyword.spelling loc)

end Grammar

end ClockedC
