import ClockedC.Diagnostic.Basic

/-!
# The log

What a compilation tells about its progress. Each event has a level, the part of the program it belongs to and
a text; a reader of the log chooses the least level to see.
-/

namespace ClockedC

/-- How much a log shows; `off` shows nothing. -/
inductive LogLevel where
  | off
  | error
  | warn
  | info
  | debug
  | trace
  deriving DecidableEq, Repr

namespace LogLevel

/-- Levels by rank: a log at one level shows the events of that rank and below. -/
def rank : LogLevel → Nat
  | off => 0
  | error => 1
  | warn => 2
  | info => 3
  | debug => 4
  | trace => 5

/-- How a level is written. -/
def label : LogLevel → String
  | off => "off"
  | error => "error"
  | warn => "warn"
  | info => "info"
  | debug => "debug"
  | trace => "trace"

/-- The level written `text`. -/
def ofLabel? (text : String) : Option LogLevel :=
  [off, error, warn, info, debug, trace].find? fun level => level.label = text

end LogLevel

/-- What is logged. -/
inductive Event where
  | openedFile (name : String)
  | started
  /-- The source has that many tokens, its end included. -/
  | tokenised (tokens : Nat)
  | reported (diagnostic : Diagnostic)
  | definedStruct (name : String) (fields : Nat)
  | readFunction (name : String) (parameters statements : Nat)
  | readProgram (items structs : Nat)
  | generating (functions structs : Nat)
  | emittingRecord (struct : String)
  | emittingEntity (function : String)
  /-- A local variable is declared once more. -/
  | declaredAgain (name function : String)
  | finished
  | wrote (path : String)
  deriving DecidableEq, Repr

namespace Event

/-- The level of an event. -/
def level : Event → LogLevel
  | openedFile _ => .info
  | started => .info
  | generating .. => .info
  | finished => .info
  | wrote _ => .info
  | _ => .debug

/-- The part of the program an event belongs to. -/
def target : Event → String
  | openedFile _ => "compi"
  | started => "compi"
  | tokenised _ => "compi::parser::lexer"
  | reported _ => "compi::diagnostics"
  | definedStruct .. => "compi::parser::declarations"
  | readFunction .. => "compi::parser::declarations"
  | readProgram .. => "compi::parser::parse"
  | generating .. => "compi"
  | emittingRecord _ => "compi::codegen"
  | emittingEntity _ => "compi::codegen"
  | declaredAgain .. => "compi::codegen::declarations"
  | finished => "compi"
  | wrote _ => "compi"

/-- The text of an event. -/
def text : Event → String
  | openedFile name => "parsing " ++ name
  | started => "parsing input"
  | tokenised n => "lexed " ++ toString n ++ " tokens"
  | reported d => d.logText
  | definedStruct name n => "registered struct '" ++ name ++ "' with " ++ toString n ++ " fields"
  | readFunction name p s =>
    "parsed function '" ++ name ++ "' (" ++ toString p ++ " parameters, " ++ toString s ++ " statements)"
  | readProgram items structs =>
    "parsed " ++ toString items ++ " top-level declarations (" ++ toString structs ++ " structs registered)"
  | generating f s =>
    "generating VHDL for " ++ toString f ++ " functions and " ++ toString s ++ " structs"
  | emittingRecord name => "emitting record for struct '" ++ name ++ "'"
  | emittingEntity name => "emitting entity for function '" ++ name ++ "'"
  | declaredAgain name function => "'" ++ name ++ "' already declared in '" ++ function ++ "'"
  | finished => "compilation finished"
  | wrote path => "wrote " ++ path

/-- Whether a log at `limit` shows an event. -/
def visible (limit : LogLevel) (event : Event) : Bool := event.level.rank ≤ limit.rank

end Event

end ClockedC
