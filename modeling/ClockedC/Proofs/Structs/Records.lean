import ClockedC.Proofs.Hardware.DistinctNames
import ClockedC.Proofs.Scanning.RoundTrip
import ClockedC.Proofs.Structs.Table
import ClockedC.Proofs.Structs.Uses

/-!
# Record types are declared before they are used

The structs of a source text that is compiled are the structs in the table at its end, so the design has their records,
in source order. Every type that a struct or a function names was in the table when it was read; in the text of the
design its record stands before every use.

* `records_before_use` : record types in the design of a source text.
-/

namespace ClockedC

/-! ## The table of a program -/

/-- The layout of a struct. -/
def Struct.layout (decl : Struct) : Layout := ⟨decl.name, decl.fields⟩

/-- The layouts of the structs of a program. -/
def Program.layouts (program : Program) : List Layout := program.structs.map Struct.layout

/-- Behind several items the table has their structs behind those from before. -/
theorem Item.AllAdmissible.all_behindAll {structs : Layouts} {items : List Item} (h : AllAdmissible structs items) :
    (structs.behindAll items).all = structs.all ++ (Program.mk items).layouts := by
  induction items generalizing structs with
  | nil => simp [Program.layouts, Program.structs]
  | cons item items ih =>
    have hrest := ih h.2
    cases item with
    | struct decl =>
      have hall := Layouts.all_define h.1.fresh decl.fields
      calc (structs.behindAll (.struct decl :: items)).all
          = (structs.define decl.name decl.fields).all ++ (Program.mk items).layouts := hrest
        _ = structs.all ++ (Program.mk (.struct decl :: items)).layouts := by
          rw [hall, List.append_assoc]
          rfl
    | function f => exact hrest

/-- A type that is defined stays defined. -/
theorem DataType.Known.of_isPrefix {table table' : Layouts} {type : DataType} (h : type.Known table)
    (hbegins : table.all <+: table'.all) : type.Known table' := by
  cases type with
  | struct name =>
    obtain ⟨i, hi⟩ := Option.isSome_iff_exists.1 h
    exact Option.isSome_iff_exists.2 ⟨i, Layouts.index?_of_isPrefix hbegins hi⟩
  | _ => trivial

/-! ## Types in a function -/

mutual

/-- The declarations in an admissible statement are admissible with some arrays in sight. -/
theorem Statement.Admissible.exists_of_mem_locals {structs : Layouts} {inLoop : Prop} {arrays : ArraySizes} :
    ∀ {s : Statement}, s.Admissible structs inLoop arrays →
      ∀ decl ∈ s.locals, ∃ arrays, decl.Admissible structs arrays
  | .declare decl, h => by
    rw [Statement.locals, List.forall_mem_singleton]
    exact ⟨arrays, h⟩
  | .assign _, _ => by simp [Statement.locals]
  | .branch _ body alternative _, h => by
    rw [Statement.locals, List.forall_mem_append]
    exact ⟨Statement.AllAdmissible.exists_of_mem_localsOf h.2.1, Alternative.Admissible.exists_of_mem_locals h.2.2⟩
  | .whileLoop _ body _, h => Statement.AllAdmissible.exists_of_mem_localsOf h.2
  | .forLoop none _ _ body _, h => Statement.AllAdmissible.exists_of_mem_localsOf h.2.2
  | .forLoop (some start) _ _ body _, h => by
    rw [Statement.locals, List.forall_mem_append]
    exact ⟨Statement.Admissible.exists_of_mem_locals h.2.1,
      Statement.AllAdmissible.exists_of_mem_localsOf h.2.2.2.2⟩
  | .giveBack _ _, _ => by simp [Statement.locals]
  | .leaveLoop _, _ => by simp [Statement.locals]
  | .nextRound _, _ => by simp [Statement.locals]
  | .evaluate _, _ => by simp [Statement.locals]

theorem Alternative.Admissible.exists_of_mem_locals {structs : Layouts} {inLoop : Prop} {arrays : ArraySizes} :
    ∀ {a : Alternative}, a.Admissible structs inLoop arrays →
      ∀ decl ∈ a.locals, ∃ arrays, decl.Admissible structs arrays
  | .nothing, _ => by simp [Alternative.locals]
  | .elseIf _ body alternative, h => by
    rw [Alternative.locals, List.forall_mem_append]
    exact ⟨Statement.AllAdmissible.exists_of_mem_localsOf h.2.1, Alternative.Admissible.exists_of_mem_locals h.2.2⟩
  | .otherwise body, h => Statement.AllAdmissible.exists_of_mem_localsOf h

/-- Every variable declared in admissible statements is admissible where it is declared. -/
theorem Statement.AllAdmissible.exists_of_mem_localsOf {structs : Layouts} {inLoop : Prop} {arrays : ArraySizes} :
    ∀ {ss : List Statement}, Statement.AllAdmissible structs inLoop arrays ss →
      ∀ decl ∈ Statement.localsOf ss, ∃ arrays, decl.Admissible structs arrays
  | [], _ => by simp
  | s :: ss, h => by
    rw [Statement.localsOf_cons, List.forall_mem_append]
    exact ⟨Statement.Admissible.exists_of_mem_locals h.1, Statement.AllAdmissible.exists_of_mem_localsOf h.2⟩

end

/-- The types in a function are defined: those of its result, its parameters and its variables. -/
structure Function.KnowsTypes (table : Layouts) (f : Function) : Prop where
  result : f.result.Known table
  parameters : ∀ p ∈ f.parameters, p.type.Known table
  locals : ∀ decl ∈ f.locals, decl.type.Known table

/-- The types in a function that is admissible are still defined when more structs are. -/
theorem Function.Admissible.knowsTypes {before table : Layouts} {f : Function} (h : f.Admissible before)
    (hbegins : before.all <+: table.all) : f.KnowsTypes table where
  result := h.result.of_isPrefix hbegins
  parameters := by
    intro p hp
    have hknown := (h.parameters.known p.toField (List.mem_map_of_mem hp)).1
    exact hknown.of_isPrefix hbegins
  locals := by
    intro decl hdecl
    obtain ⟨arrays, hadmissible⟩ := h.body.exists_of_mem_localsOf decl hdecl
    exact hadmissible.known.of_isPrefix hbegins

/-! ## The design of a program -/

theorem type_hardwareDeclaration (signals : Signals) (decl : Variable) :
    (hardwareDeclaration signals decl).type = decl.type.signalType := by
  rw [hardwareDeclaration_eq]
  cases decl.length <;> rfl

/-- The record of a struct that is defined is one of the records of the table. -/
theorem DataType.Known.declaredBy {table : Layouts} {type : DataType} (h : type.Known table) :
    type.signalType.DeclaredBy (table.all.map Layout.hardwareRecord) := by
  cases type with
  | struct name =>
    obtain ⟨i, hi⟩ := Option.isSome_iff_exists.1 h
    obtain ⟨layout, hlayout, hname⟩ := Layouts.index?_eq_some_iff.1 hi
    exact ⟨layout.hardwareRecord, List.mem_map_of_mem (List.mem_of_getElem? hlayout), hname⟩
  | _ => trivial

/-- The record types in an entity are those of structs in the table. -/
theorem Function.KnowsTypes.declaredBy {table : Layouts} {f : Function} (h : f.KnowsTypes table) :
    ∀ type ∈ (hardwareEntity table f).types, type.DeclaredBy (table.all.map Layout.hardwareRecord) := by
  intro type htype
  rw [hardwareEntity_eq] at htype
  rcases List.mem_append.1 htype with htype | htype
  · obtain ⟨_, hinput, rfl⟩ := List.mem_map.1 htype
    obtain ⟨p, hp, rfl⟩ := List.mem_map.1 hinput
    exact (h.parameters p hp).declaredBy
  · rcases List.mem_cons.1 htype with rfl | htype
    · exact h.result.declaredBy
    · obtain ⟨_, hsignal, rfl⟩ := List.mem_map.1 htype
      obtain ⟨decl, hdecl, rfl⟩ := List.mem_map.1 hsignal
      rw [type_hardwareDeclaration]
      exact (h.locals decl (mem_of_mem_firstDeclarations hdecl)).declaredBy

/-- The records that a record contains are those of structs before it in the table. -/
theorem Layouts.WellFormed.declaredBy_earlier {table : Layouts} (h : table.WellFormed) {earlier later : List Layout}
    {layout : Layout} (hsplit : table.all = earlier ++ layout :: later) :
    ∀ field ∈ layout.fields, field.type.signalType.DeclaredBy (earlier.map Layout.hardwareRecord) := by
  intro field hfield
  cases htype : field.type with
  | struct name =>
    have hget : table.get? earlier.length = some layout := by simp [Layouts.get?, hsplit]
    -- the struct has a smaller position, so it is among those before
    obtain ⟨j, hj, hindex⟩ := h.earlier _ layout hget field hfield name htype
    obtain ⟨inner, hinner, hname⟩ := Layouts.index?_eq_some_iff.1 hindex
    rw [Layouts.get?, hsplit, List.getElem?_append_left hj] at hinner
    exact ⟨inner.hardwareRecord, List.mem_map_of_mem (List.mem_of_getElem? hinner), hname⟩
  | _ => trivial

/-- In the design of a program over a well-formed table, records are declared before they are used. -/
theorem isOrdered_hardwareDesign {table : Layouts} {program : Program} (h : table.WellFormed)
    (hnames : ∀ layout ∈ table.all, ' ' ∉ layout.name.toList)
    (hfunctions : ∀ f ∈ program.functions, f.KnowsTypes table) : (hardwareDesign table program).IsOrdered where
  isWord := by
    intro record hrecord
    rw [hardwareDesign_eq] at hrecord
    obtain ⟨layout, hlayout, rfl⟩ := List.mem_map.1 hrecord
    exact hnames layout hlayout
  records := by
    intro earlier record later hsplit field hfield
    rw [hardwareDesign_eq] at hsplit
    obtain ⟨before, rest, hall, rfl, hrest⟩ := List.map_eq_append_iff.1 hsplit
    obtain ⟨layout, after, rfl, rfl, rfl⟩ := List.map_eq_cons_iff.1 hrest
    obtain ⟨declared, hdeclared, rfl⟩ := List.mem_map.1 hfield
    exact h.declaredBy_earlier hall declared hdeclared
  entities := by
    intro entity hentity
    rw [hardwareDesign_eq] at hentity ⊢
    obtain ⟨f, hf, rfl⟩ := List.mem_map.1 hentity
    exact (hfunctions f hf).declaredBy

/-! ## Source texts that are compiled -/

/-- An identifier has no blank. -/
theorem not_mem_blank_of_isIdentifier {name : String} (h : isIdentifier name) : ' ' ∉ name.toList := by
  obtain ⟨c, cs, hname, hstart, hparts, -⟩ := Piece.exists_of_isIdentifier h
  rw [hname]
  intro hblank
  rcases List.mem_cons.1 hblank with rfl | hblank
  · exact absurd hstart (by decide)
  · exact absurd (hparts _ hblank) (by decide)

/-- The table at the end of a source text that is compiled holds the structs of the program, in source order; it is well
formed, and all types in functions are in it. -/
theorem structs_of_compile {source : String} {c : Compilation} (h : (compile source).outcome = .ok c) :
    c.tables.structs.all = c.program.layouts ∧ c.tables.structs.WellFormed ∧
      ∀ f ∈ c.program.functions, f.KnowsTypes c.tables.structs := by
  obtain ⟨r, r', hr, hrun, htables, -⟩ := exists_run_of_compile h
  obtain ⟨hpasses, hadmissible⟩ := Grammar.run_program_eq_ok (.of_ofSource hr) hrun
  obtain ⟨stream, -, rfl⟩ := Reader.ofSource_eq_ok hr
  have hadmissible : Item.AllAdmissible {} c.program.items := hadmissible
  have htable : c.tables.structs = Layouts.behindAll {} c.program.items := by
    rw [htables]
    exact hpasses.structs_eq
  refine ⟨?_, ?_, ?_⟩
  · rw [htable]
    exact hadmissible.all_behindAll
  · rw [htable]
    exact Layouts.wellFormed_empty.of_grows hadmissible.grows
  · intro f hf
    rw [htable]
    obtain ⟨before, hf, hbegins⟩ := hadmissible.exists_isPrefix (Program.mem_functions.1 hf)
    exact hf.knowsTypes hbegins

/-- Different structs have records of different names. -/
theorem recordName_injective : Function.Injective Vhdl.recordName := by
  intro s t h
  have hlist : s.toList ++ "_t".toList = t.toList ++ "_t".toList := by
    rw [← String.toList_append, ← String.toList_append]
    exact congrArg String.toList h
  exact String.toList_inj.1 (List.append_cancel_right hlist)

/-- The records of a source text that is compiled are its structs, in source order, and its text declares no others.
Their names differ, and each has at least one field, fields of different names, and none that is `void`. Before every
line that gives the record type of a name without blanks to a field, a port, a signal or the elements of an array
stands the whole declaration of that record. So no struct contains itself. -/
theorem records_before_use {source : String} {c : Compilation} (h : (compile source).outcome = .ok c) :
    c.design.records = c.program.structs.map (fun decl =>
        ⟨decl.name, decl.fields.map fun field => (field.name, field.type.signalType)⟩) ∧
      c.design.lines.filter (·.IsRecordHead) = c.program.structs.map (fun decl =>
        ⟨0, "type " ++ Vhdl.recordName decl.name ++ " is record"⟩) ∧
      (c.program.structs.map fun decl => Vhdl.recordName decl.name).Nodup ∧
      (∀ decl ∈ c.program.structs, decl.fields ≠ [] ∧ (decl.fields.map (·.name)).Nodup ∧
        ∀ field ∈ decl.fields, field.type ≠ .void) ∧
      (∀ before line after struct, c.design.lines = before ++ line :: after → ' ' ∉ struct.toList →
        line.Gives (.record struct) →
          ∃ record ∈ c.design.records, record.struct = struct ∧ record.lines <:+: before) ∧
      ∀ name, ¬ Relation.TransGen (Layout.Contains c.program.layouts) name name := by
  obtain ⟨hstructs, hwell, hfunctions⟩ := structs_of_compile h
  obtain ⟨-, -, -, -, -, hdesign⟩ := exists_run_of_compile h
  have hrecords : c.design.records = c.program.structs.map (fun decl =>
      ⟨decl.name, decl.fields.map fun field => (field.name, field.type.signalType)⟩) := by
    rw [hdesign, hardwareDesign_eq, hstructs, Program.layouts, List.map_map]
    rfl
  have hnames : ∀ layout ∈ c.tables.structs.all, ' ' ∉ layout.name.toList := by
    intro layout hlayout
    rw [hstructs] at hlayout
    obtain ⟨decl, hdecl, rfl⟩ := List.mem_map.1 hlayout
    exact not_mem_blank_of_isIdentifier (Struct.named_of_compile h hdecl).name
  have hordered : c.design.IsOrdered := by
    rw [hdesign]
    exact isOrdered_hardwareDesign hwell hnames hfunctions
  -- all that is said of structs holds of the table, which is well formed
  refine ⟨hrecords, ?_, ?_, ?_, ?_, hstructs ▸ hwell.acyclic⟩
  · rw [Vhdl.Design.filter_isRecordHead, hrecords, List.map_map]
    rfl
  · have hnodup : (c.program.structs.map (·.name)).Nodup := by
      have := hwell.nodup
      rwa [hstructs, Program.layouts, List.map_map] at this
    have := hnodup.map recordName_injective
    rwa [List.map_map] at this
  · intro decl hdecl
    have hlayout := hwell.layouts decl.layout (hstructs ▸ List.mem_map_of_mem hdecl)
    exact ⟨hlayout.ne_nil, hlayout.nodup, hlayout.ne_void⟩
  · intro before line after struct hlines hstruct huse
    exact hordered.exists_lines_before hlines hstruct huse

/-- A source text with a struct inside of another, and both as types of ports and signals. -/
def nestedStructsSource : String :=
  "struct point\x7bint x;char tag;\x7d;struct line\x7bstruct point start;struct point stop;\x7d;" ++
    "struct line join(struct point p)\x7bstruct point ends[2];struct line l;return l;\x7d"

theorem records_before_use_nestedStructsSource :
    ∃ c, (compile nestedStructsSource).outcome = .ok c ∧ c.program.structs.map (·.name) = ["point", "line"] ∧
      ∃ before after, c.design.lines = before ++ ⟨1, "start" ++ " : " ++ Vhdl.recordName "point" ++ ";"⟩ :: after ∧
        ∃ record ∈ c.design.records, record.struct = "point" ∧ record.lines <:+: before := by
  have hchecked : (compile nestedStructsSource).outcome.toOption.any (fun c =>
      c.program.structs.map (·.name) = ["point", "line"] &&
      (⟨1, "start" ++ " : " ++ Vhdl.recordName "point" ++ ";"⟩ : Vhdl.Line) ∈ c.design.lines) := by decide +kernel
  obtain ⟨c, hc, hpassed⟩ := exists_compilation_of_any hchecked
  simp only [Bool.and_eq_true, decide_eq_true_eq] at hpassed
  obtain ⟨hnames, hline⟩ := hpassed
  obtain ⟨before, after, hsplit⟩ := List.append_of_mem hline
  obtain ⟨-, -, -, -, huses, -⟩ := records_before_use hc
  exact ⟨c, hc, hnames, before, after, hsplit, huses before _ after "point" hsplit (by decide) (.field "start")⟩

end ClockedC
