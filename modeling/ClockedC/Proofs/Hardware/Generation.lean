import ClockedC.Proofs.Hardware.Entities

/-!
# Generators keep nothing but their reports

A generator is used for one program after the other, and for the functions of a program in turn. Its signals, the
functions it knows and what it has made are set anew each time, so that no program and no function has an effect on
those behind it.

* `generator_is_stateless` : programs in turn are generated as each of them alone.
-/

namespace ClockedC

/-- The design of a program over the given layouts. -/
def hardwareDesign (layouts : Layouts) (program : Program) : Vhdl.Design :=
  (({ layouts } : Generator).generate program).1

/-- What is reported about a program. -/
def programEvents (layouts : Layouts) (program : Program) : List Event :=
  (({ layouts } : Generator).generate program).2.log

namespace Generator

/-! ## What is added to a generator -/

/-- The generator with more reports, and with more records and entities made. -/
def adding (g : Generator) (events : List Event) (records : List Vhdl.Record) (entities : List Vhdl.Entity) :
    Generator :=
  { g.report events with made := ⟨g.made.records ++ records, g.made.entities ++ entities⟩ }

theorem adding_nil (g : Generator) : g.adding [] [] [] = g := by simp [adding, report]

/-- What is added in turn is added at once. -/
theorem adding_adding (g : Generator) (events events' : List Event) (records records' : List Vhdl.Record)
    (entities entities' : List Vhdl.Entity) :
    (g.adding events records entities).adding events' records' entities' =
      g.adding (events ++ events') (records ++ records') (entities ++ entities') := by
  simp [adding, report]

/-! ## Records -/

/-- A struct adds a record and its report. -/
theorem run_emitRecord (layout : Layout) (g : Generator) :
    (emitRecord layout).run g = ((), g.adding [.emittingRecord layout.name] [layout.hardwareRecord] []) := by
  rw [adding, List.append_nil]
  rfl

/-- Structs add their records and reports in turn. -/
theorem run_emitRecords (layouts : List Layout) (g : Generator) :
    (layouts.forM emitRecord).run g =
      ((), g.adding (layouts.map (.emittingRecord ·.name)) (layouts.map Layout.hardwareRecord) []) := by
  induction layouts generalizing g with
  | nil =>
    rw [List.map_nil, List.map_nil, adding_nil]
    rfl
  | cons layout layouts ih =>
    show (layouts.forM emitRecord).run ((emitRecord layout).run g).2 = _
    rw [run_emitRecord, ih, adding_adding]
    rfl

/-! ## Entities -/

/-- Whatever the generator was used for before, it makes the entity of the function over its layouts, and its signals
are those at the beginning of the function. -/
theorem run_emitFunction (f : Function) (g : Generator) :
    (emitFunction f).run g =
      ((), ({ g with signals := .ofFunction f } : Generator).adding (functionEvents g.layouts g.defined f) []
        [hardwareEntity g.layouts f]) := by
  let begun := g.report [.emittingEntity f.name]
  have hrun : (emitFunction f).run g =
      ((), { ((emitEntity f).run begun).2 with
        made.entities := ((emitEntity f).run begun).2.made.entities ++ [((emitEntity f).run begun).1] }) := rfl
  have hreports : ({ g with signals := .ofFunction f } : Generator).report (functionEvents g.layouts g.defined f) =
      ({ begun with signals := .ofFunction f } : Generator).report
        (declarationEvents (.ofFunction f) g.defined f.name [] f.locals ++
          (blockWarnings g.layouts g.defined f.name f.body).map .reported) := by
    rw [functionEvents_eq]
    exact (report_report _ [.emittingEntity f.name] _).symm
  rw [hrun, run_emitEntity, adding, hreports, List.append_nil]
  rfl

/-- The functions of a program in turn. -/
theorem run_emitFunctions (fs : List Function) (g : Generator) :
    (fs.forM emitFunction).run g =
      ((), ({ g with signals := (fs.getLast?.map Signals.ofFunction).getD g.signals } : Generator).adding
        (fs.flatMap (functionEvents g.layouts g.defined)) [] (fs.map (hardwareEntity g.layouts))) := by
  induction fs generalizing g with
  | nil =>
    rw [List.flatMap_nil, List.map_nil, adding_nil]
    rfl
  | cons f fs ih =>
    have hsignals : ((f :: fs).getLast?.map Signals.ofFunction).getD g.signals =
        (fs.getLast?.map Signals.ofFunction).getD (.ofFunction f) := by
      rw [List.getLast?_cons]
      cases fs.getLast? <;> rfl
    show (fs.forM emitFunction).run ((emitFunction f).run g).2 = _
    rw [run_emitFunction, ih, hsignals]
    -- the functions behind see the layouts and the program as the first one does
    show ((), (({ g with signals := (fs.getLast?.map Signals.ofFunction).getD (.ofFunction f) } : Generator).adding
      (functionEvents g.layouts g.defined f) [] [hardwareEntity g.layouts f]).adding
      (fs.flatMap (functionEvents g.layouts g.defined)) [] (fs.map (hardwareEntity g.layouts))) = _
    rw [adding_adding]
    rfl

/-! ## Programs -/

/-- What is made begins with nothing, so that all of it is of this program. -/
theorem generate_parts (g : Generator) (program : Program) :
    g.generate program =
      (⟨g.layouts.all.map Layout.hardwareRecord, program.functions.map (hardwareEntity g.layouts)⟩,
        { g.report (g.layouts.all.map (.emittingRecord ·.name) ++
            program.functions.flatMap (functionEvents g.layouts program.functionNames)) with
          defined := program.functionNames
          signals := (program.functions.getLast?.map Signals.ofFunction).getD g.signals
          made := ⟨[], []⟩ }) := by
  let begun : Generator := { g with made := ⟨[], []⟩, defined := program.functionNames }
  let ended := ((program.functions.forM emitFunction).run ((g.layouts.all.forM emitRecord).run begun).2).2
  show (ended.made, { ended with made := ⟨[], []⟩ }) = _
  simp only [ended, run_emitRecords, run_emitFunctions]
  simp [begun, adding, report]

end Generator

/-- Every struct becomes a record and every function an entity. -/
theorem hardwareDesign_eq (layouts : Layouts) (program : Program) :
    hardwareDesign layouts program =
      ⟨layouts.all.map Layout.hardwareRecord, program.functions.map (hardwareEntity layouts)⟩ := by
  rw [hardwareDesign, Generator.generate_parts]

/-- The reports of a program are those of its records and then those of its functions. -/
theorem programEvents_eq (layouts : Layouts) (program : Program) :
    programEvents layouts program =
      layouts.all.map (fun layout => .emittingRecord layout.name) ++
        program.functions.flatMap (functionEvents layouts program.functionNames) := by
  rw [programEvents, Generator.generate_parts]
  rfl

namespace Generator

/-- The design of a program is that over the layouts of the generator, and nothing is kept but what is reported, the
functions of the program and the signals of the last of them. -/
theorem generate_eq (g : Generator) (program : Program) :
    g.generate program =
      (hardwareDesign g.layouts program,
        { g.report (programEvents g.layouts program) with
          defined := program.functionNames
          signals := (program.functions.getLast?.map Signals.ofFunction).getD g.signals
          made := ⟨[], []⟩ }) := by
  rw [generate_parts, hardwareDesign_eq, programEvents_eq]

/-- The designs of programs in turn, and the generator behind them. -/
def generateAll : Generator → List Program → List Vhdl.Design × Generator
  | g, [] => ([], g)
  | g, program :: programs =>
    let (design, g) := g.generate program
    let (designs, g) := g.generateAll programs
    (design :: designs, g)

theorem diagnostics_generate (g : Generator) (program : Program) :
    (g.generate program).2.diagnostics =
      g.diagnostics ++ (programEvents g.layouts program).filterMap Event.diagnostic? := by
  rw [generate_eq]
  rfl

/-- Programs in turn have the designs they have alone, and what is reported about each of them is put behind the reports
before. -/
theorem generateAll_eq (g : Generator) (programs : List Program) :
    (g.generateAll programs).1 = programs.map (hardwareDesign g.layouts) ∧
      (g.generateAll programs).2.diagnostics = g.diagnostics ++
        programs.flatMap fun program => (programEvents g.layouts program).filterMap Event.diagnostic? := by
  induction programs generalizing g with
  | nil => exact ⟨rfl, (List.append_nil _).symm⟩
  | cons program programs ih =>
    have hlayouts : (g.generate program).2.layouts = g.layouts := by
      rw [generate_eq]
      rfl
    obtain ⟨hdesigns, hdiagnostics⟩ := ih (g.generate program).2
    rw [hlayouts] at hdesigns hdiagnostics
    constructor
    · show (g.generate program).1 :: ((g.generate program).2.generateAll programs).1 = _
      rw [hdesigns, generate_eq, List.map_cons]
    · show ((g.generate program).2.generateAll programs).2.diagnostics = _
      rw [hdiagnostics, diagnostics_generate, List.append_assoc, List.flatMap_cons]

end Generator

/-! ## Texts -/

namespace Vhdl

theorem Line.renderAll_append (lines lines' : List Line) :
    renderAll (lines ++ lines') = renderAll lines ++ renderAll lines' := by
  rw [renderAll, List.map_append, String.join_append]
  rfl

theorem Line.renderAll_flatMap {α : Type} (f : α → List Line) (xs : List α) :
    renderAll (xs.flatMap f) = String.join (xs.map fun x => renderAll (f x)) := by
  induction xs with
  | nil => rfl
  | cons x xs ih => rw [List.flatMap_cons, renderAll_append, ih, List.map_cons, String.join_cons]

/-- The text of a design is put together from the texts of its parts. -/
theorem Design.text_eq (design : Design) :
    design.text = Line.renderAll preamble ++ String.join (design.records.map fun r => Line.renderAll r.lines) ++
      String.join (design.entities.map fun e => Line.renderAll e.lines) := by
  rw [text, lines, Line.renderAll_append, Line.renderAll_append, Line.renderAll_flatMap, Line.renderAll_flatMap]

end Vhdl

/-- Each function has a text of its own, which depends on the function and the layouts alone. Of programs that are given
to one generator in turn, each has for its text the preamble, the records of the layouts in order and the texts of its
functions in order, and its design is what a fresh generator makes of it. The diagnostics at the end are those of fresh
generators, one program after the other. -/
theorem generator_is_stateless :
    ∃ functionText : Layouts → Function → String, ∀ (layouts : Layouts) (programs : List Program),
      let fresh : Generator := { layouts }
      let generated := fresh.generateAll programs
      generated.1.map Vhdl.Design.text = programs.map (fun program =>
          Vhdl.Line.renderAll Vhdl.Design.preamble ++
            String.join (layouts.all.map fun layout => Vhdl.Line.renderAll layout.hardwareRecord.lines) ++
            String.join (program.functions.map (functionText layouts))) ∧
        generated.1 = programs.map (fun program => (fresh.generate program).1) ∧
        generated.2.diagnostics = programs.flatMap fun program => (fresh.generate program).2.diagnostics := by
  refine ⟨fun layouts f => Vhdl.Line.renderAll (hardwareEntity layouts f).lines, ?_⟩
  intro layouts programs fresh generated
  obtain ⟨hdesigns, hdiagnostics⟩ := fresh.generateAll_eq programs
  refine ⟨?_, ?_, ?_⟩
  · show (fresh.generateAll programs).1.map Vhdl.Design.text = _
    rw [hdesigns, List.map_map]
    apply List.map_congr_left
    intro program _
    rw [Function.comp_apply, Vhdl.Design.text_eq, hardwareDesign_eq, List.map_map, List.map_map]
    rfl
  · show (fresh.generateAll programs).1 = _
    rw [hdesigns]
    apply List.map_congr_left
    intro program _
    rw [Generator.generate_eq]
  · show (fresh.generateAll programs).2.diagnostics = _
    rw [hdiagnostics]
    simp only [Generator.diagnostics_generate]
    rfl

end ClockedC
