import ClockedC.Log

/-!
# Options of the command line

The arguments are read from left to right. A word is a plain text, a long option such as `--output=FILE`, a
bundle of one-letter options such as `-vvo`, or the two dashes after which every argument is plain.

* `Options.ofArguments` : the options of a list of arguments, or how reading them ends early.

A question such as `--version` is answered as soon as it is reached, so an error before it wins over it and an
error after it does not. What only the whole list shows (that there is an input, and one output at most) is
looked at in the end.
-/

namespace ClockedC.CommandLine

/-- When diagnostics are coloured. -/
inductive ColourChoice where
  /-- On a terminal. -/
  | auto
  | always
  | never
  deriving DecidableEq, Repr

namespace ColourChoice

/-- How a choice is written. -/
def label : ColourChoice → String
  | auto => "auto"
  | always => "always"
  | never => "never"

/-- The choice written `text`. -/
def ofLabel? (text : String) : Option ColourChoice :=
  [auto, always, never].find? fun choice => choice.label = text

end ColourChoice

/-- What the arguments ask for. -/
structure Options where
  input : String
  /-- Where the design is written; `none` for standard output. -/
  output : Option String
  dumpTree : Bool
  colour : ColourChoice
  verbosity : Nat
  deriving DecidableEq, Repr

/-- The least level shown at a verbosity. -/
def Options.logLevel (options : Options) : LogLevel :=
  match options.verbosity with
  | 0 => .warn
  | 1 => .info
  | _ => .debug

/-! ## The options there are -/

/-- Options without a value. -/
inductive Flag where
  | dumpTree
  | verbose
  | version
  | help
  deriving DecidableEq, Repr

/-- Options with a value. -/
inductive Setting where
  | output
  | colour
  deriving DecidableEq, Repr

/-- The long spelling of a setting. -/
def Setting.label : Setting → String
  | output => "--output"
  | colour => "--color"

/-- An option of either kind. -/
inductive Switch where
  | flag (flag : Flag)
  | setting (setting : Setting)
  deriving DecidableEq, Repr

namespace Switch

/-- The option with that long name; names are never abbreviated. -/
def ofName? : String → Option Switch
  | "dump-ast" => some (.flag .dumpTree)
  | "verbose" => some (.flag .verbose)
  | "version" => some (.flag .version)
  | "help" => some (.flag .help)
  | "output" => some (.setting .output)
  | "color" => some (.setting .colour)
  | _ => none

/-- The option with that letter. -/
def ofLetter? : Char → Option Switch
  | 'v' => some (.flag .verbose)
  | 'V' => some (.flag .version)
  | 'h' => some (.flag .help)
  | 'o' => some (.setting .output)
  | _ => none

end Switch

/-! ## Arguments as words -/

/-- An argument by its form. -/
inductive Word where
  | plain (text : String)
  /-- Two dashes, a name and maybe an equals sign and a value. -/
  | long (name : String) (value : Option String)
  /-- One dash and letters. -/
  | bundle (letters : List Char)
  /-- Two dashes alone: all arguments after them are plain. -/
  | terminator
  deriving DecidableEq, Repr

/-- The form of an argument. One dash alone is plain. -/
def Word.ofArgument (argument : String) : Word :=
  match argument.toList with
  | ['-', '-'] => .terminator
  | '-' :: '-' :: cs =>
    let name := String.ofList (cs.takeWhile (· ≠ '='))
    match cs.dropWhile (· ≠ '=') with
    | [] => .long name none
    | _ :: value => .long name (some (String.ofList value))
  | '-' :: c :: cs => .bundle (c :: cs)
  | _ => .plain argument

/-! ## Reading arguments -/

/-- What is wrong with the arguments. -/
inductive UsageError where
  | unknownOption (text : String)
  | missingValue (setting : Setting)
  | emptyValue
  | unwantedValue (name : String)
  | repeated (name : String)
  | unknownColour (text : String)
  | extraArgument (text : String)
  | missingInput
  | twoOutputs
  deriving DecidableEq, Repr

/-- The wording of a usage error. -/
def UsageError.message : UsageError → String
  | unknownOption text => "unexpected argument '" ++ text ++ "' found"
  | missingValue setting => "a value is required for '" ++ setting.label ++ "' but none was supplied"
  | emptyValue => "a value is required but an empty one was supplied"
  | unwantedValue name => "unexpected value for '--" ++ name ++ "' found; no more were expected"
  | repeated name => "the argument '--" ++ name ++ "' cannot be used multiple times"
  | unknownColour text => "invalid value '" ++ text ++ "' for '--color': expected auto, always or never"
  | extraArgument text => "unexpected argument '" ++ text ++ "' found"
  | missingInput => "the input file was not provided"
  | twoOutputs => "the second file cannot be used with '--output'"

/-- How reading the arguments ends early. -/
inductive Ending where
  | version
  | help
  | refused (error : UsageError)
  deriving DecidableEq, Repr

/-- What has been read of the arguments so far. -/
structure Draft where
  input : Option String := none
  /-- The output given as a plain argument. -/
  secondFile : Option String := none
  /-- The output given as an option. -/
  outputFile : Option String := none
  dumpTree : Bool := false
  colour : Option ColourChoice := none
  verbosity : Nat := 0
  deriving DecidableEq, Repr

namespace Draft

/-- Takes a plain argument: the input first, then the output. -/
def place (draft : Draft) (text : String) : Except Ending Draft :=
  if draft.input.isSome ∧ draft.secondFile.isSome then .error (.refused (.extraArgument text))
  else if text = "" then .error (.refused .emptyValue)
  else if draft.input.isSome then .ok { draft with secondFile := some text }
  else .ok { draft with input := some text }

/-- Takes a flag. Only `verbose` may be repeated. -/
def raise (draft : Draft) : Flag → Except Ending Draft
  | .verbose => .ok { draft with verbosity := draft.verbosity + 1 }
  | .version => .error .version
  | .help => .error .help
  | .dumpTree =>
    if draft.dumpTree then .error (.refused (.repeated "dump-ast"))
    else .ok { draft with dumpTree := true }

/-- Gives a setting its value. -/
def set (draft : Draft) (setting : Setting) (value : String) : Except Ending Draft :=
  if value = "" then .error (.refused .emptyValue)
  else
    match setting with
    | .output =>
      if draft.outputFile.isSome then .error (.refused (.repeated "output"))
      else .ok { draft with outputFile := some value }
    | .colour =>
      match ColourChoice.ofLabel? value with
      | none => .error (.refused (.unknownColour value))
      | some choice =>
        if draft.colour.isSome then .error (.refused (.repeated "color"))
        else .ok { draft with colour := some choice }

/-- Takes a long option. A setting without a value waits for the next argument. -/
def long (draft : Draft) (name : String) (value : Option String) :
    Except Ending (Draft × Option Setting) :=
  match Switch.ofName? name, value with
  | none, _ => .error (.refused (.unknownOption ("--" ++ name)))
  | some (.flag _), some _ => .error (.refused (.unwantedValue name))
  | some (.flag flag), none => return (← draft.raise flag, none)
  | some (.setting setting), some value => return (← draft.set setting value, none)
  | some (.setting setting), none => .ok (draft, some setting)

/-- Takes a bundle of letters. What follows the letter of a setting is its value, less one equals sign in
front; with nothing behind it the setting waits for the next argument. -/
def bundle : Draft → List Char → Except Ending (Draft × Option Setting)
  | draft, [] => .ok (draft, none)
  | draft, c :: cs =>
    match Switch.ofLetter? c with
    | none => .error (.refused (.unknownOption (String.ofList ['-', c])))
    | some (.flag flag) => do (← draft.raise flag).bundle cs
    | some (.setting setting) =>
      match cs with
      | [] => .ok (draft, some setting)
      | '=' :: value => return (← draft.set setting (String.ofList value), none)
      | value => return (← draft.set setting (String.ofList value), none)

/-- Takes all arguments; `waiting` is a setting whose value comes next. -/
def readAll : Draft → Option Setting → List String → Except Ending Draft
  | draft, none, [] => .ok draft
  | _, some setting, [] => .error (.refused (.missingValue setting))
  | draft, some setting, argument :: rest =>
    match Word.ofArgument argument with
    | .plain text => do (← draft.set setting text).readAll none rest
    | _ => .error (.refused (.missingValue setting))
  | draft, none, argument :: rest =>
    match Word.ofArgument argument with
    | .plain text => do (← draft.place text).readAll none rest
    | .long name value => do
      let (draft, waiting) ← draft.long name value
      draft.readAll waiting rest
    | .bundle letters => do
      let (draft, waiting) ← draft.bundle letters
      draft.readAll waiting rest
    | .terminator => rest.foldlM place draft

/-- The options of a complete draft. -/
def finish (draft : Draft) : Except Ending Options :=
  match draft.input with
  | none => .error (.refused .missingInput)
  | some input =>
    if draft.secondFile.isSome ∧ draft.outputFile.isSome then .error (.refused .twoOutputs)
    else .ok { input
               output := draft.secondFile.or draft.outputFile
               dumpTree := draft.dumpTree
               colour := draft.colour.getD .auto
               verbosity := draft.verbosity }

end Draft

/-- The options of a list of arguments. -/
def Options.ofArguments (arguments : List String) : Except Ending Options := do
  (← Draft.readAll {} none arguments).finish

end ClockedC.CommandLine
