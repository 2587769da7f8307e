import ClockedC.Ast.Outline
import ClockedC.CommandLine.Disk
import ClockedC.CommandLine.Options
import ClockedC.Compile
import ClockedC.Diagnostic.Render
import ClockedC.Text.Control

/-!
# A run of the command line

Reads the input, compiles it, reports what was found, and writes the design.

* `run` : what the program does with its arguments, over any `Host`;
* `Desk` : a host that is a plain value, in which runs can be evaluated and reasoned about.
-/

namespace ClockedC.CommandLine

/-- What a run needs from its surroundings. Files go by their paths. -/
structure Host (m : Type → Type) where
  read : String → m (Except FileFault String)
  write : String → String → m (Except FileFault Unit)
  /-- Writes to standard output. -/
  print : String → m (Except FileFault Unit)
  /-- Writes to standard error. -/
  report : String → m Unit

/-- How a run ends. -/
inductive ExitStatus where
  | success
  | failure
  /-- The arguments were refused. -/
  | usage
  deriving DecidableEq, Repr

/-- The number of an exit status. -/
def ExitStatus.code : ExitStatus → Nat
  | success => 0
  | failure => 1
  | usage => 2

/-! ## Texts -/

/-- The answer to a question for the version. -/
def versionLine : String := "compi 0.1.0\n"

/-- The answer to a question for help. -/
def helpText : String :=
  "Compile a C subset to synchronous VHDL\n\n" ++
  "Usage: compi [OPTIONS] <INPUT> [OUTPUT]\n\n" ++
  "Options:\n" ++
  "  -o, --output <FILE>  VHDL output file, alternative to the positional OUTPUT\n" ++
  "      --dump-ast       Print the parsed AST to stderr before generating code\n" ++
  "      --color <WHEN>   When to color diagnostics: auto, always or never\n" ++
  "  -v, --verbose...     Increase log verbosity (-v info, -vv debug)\n" ++
  "  -h, --help           Print help\n" ++
  "  -V, --version        Print version\n"

/-- A line of the log. The level fills five columns, further lines of a text are set in by four, and terminal
controls are left out. -/
def logLine (event : Event) : String :=
  let level := event.level.label.toUpper
  Text.withoutControls ("[" ++ level.pushn ' ' (5 - level.length) ++ " " ++ event.target ++ "] " ++
    event.text.replace "\n" "\n    " ++ "\n")

/-- The lines of a log that are shown at a level. -/
def logLines (limit : LogLevel) (log : List Event) : String :=
  String.join ((log.filter (Event.visible limit)).map logLine)

/-- An error without a place in the source. -/
def generalError (message : String) (file : Option String) : Diagnostic :=
  { severity := .error, category := .general, message, loc := none, file, hint := none }

/-- The line that counts diagnostics, if there is anything to count. -/
def summaryLine (diagnostics : List Diagnostic) : String :=
  match summary? diagnostics with
  | some text => text ++ "\n"
  | none => ""

/-! ## Running -/

section

variable {m : Type → Type} [Monad m]

/-- Writes the design where the options say, and tells the log. -/
def deliver (host : Host m) (limit : LogLevel) (output : Option String) (text : String) :
    m (Except FileFault Unit) := do
  match output with
  | none => host.print text
  | some path =>
    match ← host.write path text with
    | .error fault => return .error fault
    | .ok () =>
      host.report (logLines limit [.wrote path])
      return .ok ()

/-- Compiles the input that the options name. -/
def Options.run (options : Options) (host : Host m) (colour : Bool) (limit : LogLevel) : m ExitStatus := do
  match ← host.read options.input with
  | .error fault =>
    let error := generalError ("cannot read input: " ++ fault.message) (some options.input)
    host.report (({ colour } : Renderer).render error)
    return .failure
  | .ok source =>
    let renderer : Renderer := { colour, source := some (.ofText options.input source) }
    let compilation := compile source
    host.report (logLines limit (.openedFile options.input :: compilation.log))
    match compilation.outcome with
    | .error error =>
      host.report (renderer.render error.diagnostic ++ summaryLine [error.diagnostic])
      return .failure
    | .ok compilation =>
      host.report (renderer.renderAll compilation.diagnostics)
      if options.dumpTree then host.report compilation.program.drawing
      match ← deliver host limit options.output compilation.vhdl with
      | .error fault =>
        host.report (renderer.render (generalError ("cannot write output: " ++ fault.message) none))
        return .failure
      | .ok () =>
        host.report (summaryLine compilation.diagnostics)
        return .success

/-- What the program does with its arguments. The level of the log is the one set from outside or else what the
arguments ask for; `terminal` says whether standard error is one. -/
def run (host : Host m) (level : Option LogLevel) (terminal : Bool) (arguments : List String) : m ExitStatus := do
  match Options.ofArguments arguments with
  | .error .version =>
    let _ ← host.print versionLine
    return .success
  | .error .help =>
    let _ ← host.print helpText
    return .success
  | .error (.refused error) =>
    host.report ("error: " ++ error.message ++ "\n")
    return .usage
  | .ok options =>
    let colour := match options.colour with
      | .always => true
      | .never => false
      | .auto => terminal
    options.run host colour (level.getD options.logLevel)

end

/-! ## A host as a value -/

/-- A disk and what was written to the standard streams. -/
structure Desk where
  disk : Disk
  stdout : String := ""
  stderr : String := ""

namespace Desk

/-- A desk serves a run. -/
def host : Host (StateM Desk) where
  read path := return (← get).disk.read (Path.ofText path)
  write path text := do
    match (← get).disk.write (Path.ofText path) text with
    | .error fault => return .error fault
    | .ok disk =>
      modify fun desk => { desk with disk }
      return .ok ()
  print text := do
    modify fun desk => { desk with stdout := desk.stdout ++ text }
    return .ok ()
  report text := modify fun desk => { desk with stderr := desk.stderr ++ text }

/-- Runs the program at a desk, where standard error is no terminal. -/
def run (desk : Desk) (level : Option LogLevel) (arguments : List String) : ExitStatus × Desk :=
  (CommandLine.run host level false arguments).run desk

end Desk

end ClockedC.CommandLine
