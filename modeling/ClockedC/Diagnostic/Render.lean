import ClockedC.Diagnostic.Basic
import ClockedC.Text.Lines

/-!
# Rendering diagnostics

The text of a diagnostic for a terminal: a header, the location, the message, the line of the source with a
caret below the column, and the hint.

* `Painter` : how a device shows colours, a parameter of every renderer;
* `Renderer.render` : the whole text;
* `Renderer.snippet` : the line and its caret.
-/

namespace ClockedC

/-! ## Colours -/

/-- The colours in use. -/
inductive Colour where
  | red
  | yellow
  | cyan
  | green
  deriving DecidableEq, Repr

/-- The number of a colour in the palette of 256. -/
def Colour.code : Colour → Nat
  | red => 9
  | yellow => 11
  | cyan => 14
  | green => 10

/-- The sequence that selects a colour on a terminal. -/
def Colour.select (colour : Colour) : String := "\x1b[38;5;" ++ toString colour.code ++ "m"

/-- What a device makes of a text in colour, and of one in colour and bold. -/
structure Painter where
  paint : Colour → String → String
  paintBold : Colour → String → String

/-- A terminal is sent the sequences that select a colour and bold in front of a text, and those that reset behind. -/
def Painter.terminal : Painter where
  paint colour text := colour.select ++ text ++ "\x1b[39m"
  paintBold colour text := colour.select ++ "\x1b[1m" ++ text ++ "\x1b[0m"

/-- The colour of a severity. -/
def Severity.colour : Severity → Colour
  | error => .red
  | warning => .yellow
  | info => .cyan

/-! ## Rendering -/

/-- The lines of a source text and the name of its file. -/
structure SourceFile where
  name : String
  lines : List String

/-- A source text as a file. -/
def SourceFile.ofText (name text : String) : SourceFile := ⟨name, Text.lines text⟩

/-- How diagnostics are rendered: in colour or not, beside which source, and by whom colours are painted. -/
structure Renderer where
  colour : Bool
  source : Option SourceFile := none
  painter : Painter := .terminal

namespace Renderer

/-- A text in bold colour, if colours are wanted. -/
def bold (r : Renderer) (colour : Colour) (text : String) : String :=
  if r.colour then r.painter.paintBold colour text else text

/-- The file and the location in front of a message. -/
def position (r : Renderer) (d : Diagnostic) : String :=
  let file := d.file.orElse fun _ => r.source.map (·.name)
  let place := d.loc.map fun loc => toString loc.line ++ ":" ++ toString loc.column
  String.join ((file.toList ++ place.toList).map fun part => part ++ ":") ++
    if file.isSome || place.isSome then " " else ""

/-- The line of the source at a location. -/
def lineAt? (r : Renderer) (loc : Location) : Option String := do
  let source ← r.source
  match loc.line with
  | 0 => none
  | n + 1 => source.lines[n]?

/-- The line of the source at a location, and a caret below the column. -/
def snippet (r : Renderer) (loc : Location) : String :=
  match r.lineAt? loc with
  | none => ""
  | some line =>
    let gutter := toString loc.line
    let caret := "".pushn ' ' (loc.column - 1) ++ "^"
    " " ++ gutter ++ " | " ++ line ++ "\n" ++
      " " ++ "".pushn ' ' gutter.length ++ " | " ++ r.bold .green caret ++ "\n"

/-- The line that shows a hint. -/
def hintLine (r : Renderer) (hint : String) : String :=
  (if r.colour then r.painter.paint .cyan "hint" else "hint") ++ ": " ++ hint ++ "\n"

/-- The text of a diagnostic. -/
def render (r : Renderer) (d : Diagnostic) : String :=
  r.bold d.severity.colour d.header ++ ": " ++ r.position d ++ d.message ++ "\n" ++
    (d.loc.map r.snippet).getD "" ++ (d.hint.map r.hintLine).getD ""

/-- The texts of several diagnostics in turn. -/
def renderAll (r : Renderer) (diagnostics : List Diagnostic) : String :=
  String.join (diagnostics.map r.render)

end Renderer

end ClockedC
