import ClockedC.Grammar.Program
import ClockedC.Hardware.Program

/-!
# Compilation

From a source text to a design.

* `parse` : the program of a source text;
* `compile` : its design.

Both keep a log, also where they fail.
-/

namespace ClockedC

/-- The outcome of a stage, and what it has logged. -/
structure Logged (α : Type) where
  outcome : Except CompileError α
  log : List Event

/-- A program with what was learnt while it was read. -/
structure Parsed where
  program : Program
  tables : Tables
  diagnostics : List Diagnostic

/-- Reads a source text as a program. -/
def parse (source : String) : Logged Parsed :=
  let scan := Scan.ofSource source
  match Reader.ofScan scan with
  | .error e => ⟨.error e, scan.events⟩
  | .ok reader =>
    match Grammar.program reader with
    | .ok program reader => ⟨.ok ⟨program, reader.tables, reader.diagnostics⟩, reader.log⟩
    | .error e reader => ⟨.error e, reader.log⟩

/-- What a compilation makes of a source text. -/
structure Compilation where
  program : Program
  tables : Tables
  design : Vhdl.Design
  diagnostics : List Diagnostic

/-- The text of the design. -/
def Compilation.vhdl (compilation : Compilation) : String := compilation.design.text

/-- Compiles a source text. -/
def compile (source : String) : Logged Compilation :=
  let parsed := parse source
  let log := .started :: parsed.log
  match parsed.outcome with
  | .error e => ⟨.error e, log⟩
  | .ok ⟨program, tables, diagnostics⟩ =>
    let start := Event.generating program.functions.length tables.structs.count
    let (design, generator) := Generator.generate { layouts := tables.structs } program
    { outcome := .ok { program, tables, design, diagnostics := diagnostics ++ generator.diagnostics }
      log := log ++ [start] ++ generator.log ++ [.finished] }

end ClockedC
