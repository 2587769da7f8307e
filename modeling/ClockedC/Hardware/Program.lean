import ClockedC.Hardware.Locals
import ClockedC.Hardware.Statement

/-!
# Programs in hardware

Every struct becomes a record and every function an entity with one clocked process.

* `Generator.emitEntity` : makes the entity of a function;
* `Generator.generate` : what a generator makes of a program, record by record and entity by entity.
-/

namespace ClockedC

/-- The record of a struct. -/
def Layout.hardwareRecord (layout : Layout) : Vhdl.Record where
  struct := layout.name
  fields := layout.fields.map fun field => (field.name, field.type.signalType)

/-- The names of the functions of a program. -/
def Program.functionNames (program : Program) : List String := program.functions.map (·.name)

namespace Generator

/-- Makes the record of a struct. -/
def emitRecord (layout : Layout) : EmitM Unit := do
  modify (·.report [.emittingRecord layout.name])
  modify fun g => { g with made.records := g.made.records ++ [layout.hardwareRecord] }

/-- Makes the entity of a function: its ports, the signals of its local variables and its body. -/
def emitEntity (f : Function) : EmitM Vhdl.Entity := do
  modify fun g => { g with signals := .ofFunction f }
  let signals := (← get).signals
  let inputs := f.parameters.map fun p => (signals.signal p.name, p.type.signalType)
  let locals ← emitLocals f.name [] f.locals
  let body ← emitBlock f.name f.result f.body
  return { name := f.name, inputs, output := f.result.signalType, signals := locals, body }

/-- Adds the entity of a function to what has been made. -/
def emitFunction (f : Function) : EmitM Unit := do
  modify (·.report [.emittingEntity f.name])
  let entity ← emitEntity f
  modify fun g => { g with made.entities := g.made.entities ++ [entity] }

/-- Makes the design of a program. -/
def emitProgram (program : Program) : EmitM Vhdl.Design := do
  modify fun g => { g with made := ⟨[], []⟩, defined := program.functionNames }
  (← get).layouts.all.forM emitRecord
  program.functions.forM emitFunction
  let design := (← get).made
  modify fun g => { g with made := ⟨[], []⟩ }
  return design

/-- The design of a program. -/
def generate (generator : Generator) (program : Program) : Vhdl.Design × Generator :=
  (emitProgram program).run generator

end Generator

end ClockedC
