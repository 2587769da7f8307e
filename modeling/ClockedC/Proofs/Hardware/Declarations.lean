import ClockedC.Proofs.Hardware.LocalSignals

/-!
# Declarations of a source text that is read

What reading checks of a declaration: its type, its length, and that its value has the right form and is not too long.
The hardware of a declaration relies on these checks. An array has at least one element, so that its last index is a
number, and no value is left out of the constant with its contents.

* `declarations_wellFormed` : the declarations of a source text, and the signals made of them.
-/

namespace ClockedC

/-! ## Well-formed declarations -/

/-- The value has the right form for a variable of the given type and length, and is not longer than the variable. -/
def Initializer.Fits (structs : Layouts) (type : DataType) (length : Option Nat) : Initializer → Prop
  | value _ => length = none
  | elements values => ∃ n, length = some n ∧ values.length ≤ n
  | fields values => length = none ∧ ∃ layout, type = .struct layout.name ∧
      structs.lookup? layout.name = some layout ∧ values.length ≤ layout.fields.length

/-- The declaration is not `void`, an array has elements, and the value fits. -/
structure Variable.WellFormed (structs : Layouts) (decl : Variable) : Prop where
  ne_void : decl.type ≠ .void
  length : ∀ n ∈ decl.length, 1 ≤ n ∧ n ≤ 2 ^ 64 - 1
  init : ∀ init ∈ decl.init, init.Fits structs decl.type decl.length

/-- The declarations of a function are well formed, those of its variables and those of its parameters. -/
structure Function.WellFormed (structs : Layouts) (f : Function) : Prop where
  locals : ∀ decl ∈ f.locals, decl.WellFormed structs
  parameters_nodup : (f.parameters.map (·.name)).Nodup
  parameters_ne_void : ∀ p ∈ f.parameters, p.type ≠ .void

/-- A struct that is defined stays as it is when more are. -/
theorem Layouts.lookup?_of_isPrefix {table table' : Layouts} (h : table.all <+: table'.all) {name : String}
    {layout : Layout} (hlookup : table.lookup? name = some layout) : table'.lookup? name = some layout := by
  obtain ⟨hmem, hname⟩ := lookup?_eq_some_iff.1 hlookup
  exact lookup?_eq_some_iff.2 ⟨h.subset hmem, hname⟩

/-- A struct type that is known has a layout of its name. -/
theorem DataType.Known.exists_lookup? {table : Layouts} {name : String} (h : (DataType.struct name).Known table) :
    ∃ layout, table.lookup? name = some layout ∧ layout.name = name := by
  obtain ⟨i, hi⟩ := Option.isSome_iff_exists.1 h
  obtain ⟨layout, hlayout, hname⟩ := Layouts.index?_eq_some_iff.1 hi
  exact ⟨layout, Layouts.lookup?_eq_some_iff.2 ⟨List.mem_of_getElem? hlayout, hname⟩, hname⟩

section

variable {before table : Layouts} {arrays : ArraySizes}

/-- A value that can be read fits, also when more structs are defined. -/
theorem Initializer.Admissible.fits {type : DataType} {length : Option Nat} {init : Initializer}
    (h : init.Admissible before arrays type length) (hknown : type.Known before) (hbegins : before.all <+: table.all) :
    init.Fits table type length := by
  cases init with
  | value e => exact h.1
  | elements es => exact h.1
  | fields es =>
    obtain ⟨hlength, ⟨name, rfl, hcount⟩, -⟩ := h
    -- the fields are counted in the table of the moment, where the struct is defined
    obtain ⟨layout, hlookup, rfl⟩ := hknown.exists_lookup?
    rw [Layouts.fieldCount, hlookup] at hcount
    exact ⟨hlength, layout, rfl, Layouts.lookup?_of_isPrefix hbegins hlookup, hcount⟩

theorem Variable.Admissible.wellFormed {decl : Variable} (h : decl.Admissible before arrays)
    (hbegins : before.all <+: table.all) : decl.WellFormed table where
  ne_void := h.ne_void
  length := by
    intro n hn
    obtain ⟨hpos, hlt⟩ := h.length n hn
    exact ⟨hpos, Nat.le_sub_one_of_lt hlt⟩
  init init hinit := (h.init init hinit).fits h.known hbegins

/-- The declarations of a function that can be read are well formed, also when more structs are defined. -/
theorem Function.Admissible.wellFormed {f : Function} (h : f.Admissible before) (hbegins : before.all <+: table.all) :
    f.WellFormed table where
  locals := by
    intro decl hdecl
    obtain ⟨arrays, hadmissible⟩ := h.body.exists_of_mem_localsOf decl hdecl
    exact hadmissible.wellFormed hbegins
  parameters_nodup := by simpa [Parameter.toField, Function.comp_def] using h.parameters.nodup
  parameters_ne_void p hp := (h.parameters.known p.toField (List.mem_map_of_mem hp)).2

end

/-! ## Signals of well-formed declarations -/

/-- An array has elements, and its first contents are as many as it has. -/
def Vhdl.Declaration.WellSized : Vhdl.Declaration → Prop
  | .signal _ _ => True
  | .array _ length _ contents => 0 < length ∧ ∀ values ∈ contents, values.length = length

/-- The first contents of an array are the values given to the variable, each in its place. -/
def Vhdl.Declaration.Holds (signals : Signals) (decl : Variable) : Vhdl.Declaration → Prop
  | .signal _ _ => decl.length = none
  | .array _ length _ contents => decl.length = some length ∧
    ∀ values, decl.init = some (.elements values) → ∃ elements, contents = some elements ∧
      elements.take values.length = values.map fun value => hardwareElement signals decl.type (some value)

/-- An array is given as many first values as it has elements. -/
theorem length_of_hardwareContents {signals : Signals} {type : DataType} {length : Nat} {init : Option Initializer}
    {values : List Vhdl.Expr} (h : hardwareContents signals type length init = some values) :
    values.length = length := by
  rcases init with _ | e | given | given
  · cases h
  · cases h
  · rw [hardwareContents_elements] at h
    cases h
    simp
  · cases h

/-- The signal of a well-formed declaration is well sized and holds all values of the variable. -/
theorem Variable.WellFormed.wellSized_and_holds {structs : Layouts} {decl : Variable} (h : decl.WellFormed structs)
    (signals : Signals) :
    (hardwareDeclaration signals decl).WellSized ∧ (hardwareDeclaration signals decl).Holds signals decl := by
  cases hlength : decl.length with
  | none =>
    rw [hardwareDeclaration_scalar signals hlength]
    exact ⟨trivial, hlength⟩
  | some n =>
    rw [hardwareDeclaration_array signals hlength]
    refine ⟨⟨(h.length n hlength).1, ?_⟩, hlength, ?_⟩
    · intro values hvalues
      exact length_of_hardwareContents hvalues
    · intro values hvalues
      rw [hvalues, hardwareContents_elements]
      refine ⟨_, rfl, ?_⟩
      -- there are not more values than elements
      obtain ⟨m, hm, hle⟩ := h.init _ hvalues
      obtain rfl : n = m := Option.some.inj (hlength.symm.trans hm)
      apply List.ext_getElem
      · simpa using hle
      · intro i hi hi'
        have hlt : i < values.length := by simpa using hi'
        simp [hlt]

/-! ## Lines of well-formed declarations -/

/-- The line declares the type of an array of the function. Its indices start at 0, and the last of them is one below
the length of the array. -/
def Function.GivesBounds (f : Function) (line : Vhdl.Line) : Prop :=
  ∃ decl ∈ f.locals, ∃ n, decl.length = some n ∧ 1 ≤ n ∧
    line.text = "type " ++ Vhdl.Declaration.arrayTypeName ((Signals.ofFunction f).localSignal decl.name) ++
      " is array (0 to " ++ toString (n - 1) ++ ") of " ++ decl.type.signalType.text ++ ";"

/-- The line declares the first contents of an array of the function. They are as many as the array has elements, and
begin with the values given to the variable. -/
def Function.GivesContents (f : Function) (line : Vhdl.Line) : Prop :=
  ∃ decl ∈ f.locals, ∃ n values elements, decl.length = some n ∧ decl.init = some (.elements values) ∧
    elements.length = n ∧
    elements.take values.length =
      values.map (fun value => hardwareElement (Signals.ofFunction f) decl.type (some value)) ∧
    line.text = "constant " ++ Vhdl.Declaration.contentsName ((Signals.ofFunction f).localSignal decl.name) ++ " : " ++
      Vhdl.Declaration.arrayTypeName ((Signals.ofFunction f).localSignal decl.name) ++ " := " ++
      Vhdl.Declaration.aggregate elements ++ ";"

/-- Only an array that is given a list of elements has first contents. -/
theorem exists_elements_of_hardwareContents {signals : Signals} {type : DataType} {length : Nat}
    {init : Option Initializer} {elements : List Vhdl.Expr}
    (h : hardwareContents signals type length init = some elements) : ∃ values, init = some (.elements values) := by
  rcases init with _ | e | values | values
  · cases h
  · cases h
  · exact ⟨values, rfl⟩
  · cases h

section

variable {structs : Layouts} {f : Function} {decl : Variable} {line : Vhdl.Line}

/-- The type of a well-formed array gives its bounds. -/
theorem Variable.WellFormed.givesBounds (h : decl.WellFormed structs) (hdecl : decl ∈ f.locals)
    (hline : (hardwareDeclaration (Signals.ofFunction f) decl).typeLine? = some line) : f.GivesBounds line := by
  cases hlength : decl.length with
  | none =>
    rw [hardwareDeclaration_scalar _ hlength] at hline
    cases hline
  | some n =>
    rw [hardwareDeclaration_array _ hlength] at hline
    cases hline
    exact ⟨decl, hdecl, n, hlength, (h.length n hlength).1, rfl⟩

/-- The constant of a well-formed array gives all its contents. -/
theorem Variable.WellFormed.givesContents (h : decl.WellFormed structs) (hdecl : decl ∈ f.locals)
    (hline : (hardwareDeclaration (Signals.ofFunction f) decl).contentsLine? = some line) : f.GivesContents line := by
  obtain ⟨hsized, hholds⟩ := h.wellSized_and_holds (Signals.ofFunction f)
  cases hlength : decl.length with
  | none =>
    rw [hardwareDeclaration_scalar _ hlength] at hline
    cases hline
  | some n =>
    rw [hardwareDeclaration_array _ hlength] at hline hsized hholds
    obtain ⟨elements, helements, rfl⟩ := Option.map_eq_some_iff.1 hline
    obtain ⟨values, hvalues⟩ := exists_elements_of_hardwareContents helements
    obtain ⟨elements', helements', htake⟩ := hholds.2 values hvalues
    obtain rfl : elements = elements' := Option.some.inj (helements.symm.trans helements')
    exact ⟨decl, hdecl, n, values, elements, hlength, hvalues, hsized.2 elements helements, htake, rfl⟩

/-- The lines that declare types and constants give the bounds and the contents of the arrays. -/
theorem Function.WellFormed.gives_of_mem_lines (h : f.WellFormed structs) (layouts : Layouts)
    (hline : line ∈ (hardwareEntity layouts f).lines) :
    (line.declares "type" → f.GivesBounds line) ∧ (line.declares "constant" → f.GivesContents line) := by
  -- the signals are those of the declarations that count
  have hsignals : ∀ signal ∈ (hardwareEntity layouts f).signals,
      ∃ decl ∈ f.locals, signal = hardwareDeclaration (Signals.ofFunction f) decl := by
    rw [hardwareEntity_signals, List.forall_mem_map]
    exact fun decl hfirst => ⟨decl, mem_of_mem_firstDeclarations hfirst, rfl⟩
  constructor
  · intro htype
    obtain ⟨signal, hsignal, hmem⟩ := Vhdl.Entity.exists_mem_of_declares (by decide) hline htype
    obtain ⟨decl, hdecl, rfl⟩ := hsignals signal hsignal
    rw [Vhdl.Declaration.filter_declares_type, Option.mem_toList] at hmem
    exact (h.locals decl hdecl).givesBounds hdecl hmem
  · intro hconstant
    obtain ⟨signal, hsignal, hmem⟩ := Vhdl.Entity.exists_mem_of_declares (by decide) hline hconstant
    obtain ⟨decl, hdecl, rfl⟩ := hsignals signal hsignal
    rw [Vhdl.Declaration.filter_declares_constant, Option.mem_toList] at hmem
    exact (h.locals decl hdecl).givesContents hdecl hmem

end

/-! ## Source texts that are read -/

/-- A source text that is read is compiled. -/
theorem exists_compilation_of_parse {source : String} {parsed : Parsed} (h : (parse source).outcome = .ok parsed) :
    ∃ c, (compile source).outcome = .ok c ∧ c.program = parsed.program ∧ c.tables = parsed.tables := by
  simp only [compile, h]
  exact ⟨_, rfl, rfl, rfl⟩

/-- A source text that is compiled was read. -/
theorem exists_parsed_of_compile {source : String} {c : Compilation} (h : (compile source).outcome = .ok c) :
    ∃ parsed, (parse source).outcome = .ok parsed ∧ parsed.program = c.program := by
  cases hparsed : (parse source).outcome with
  | error e => simp [compile, hparsed] at h
  | ok parsed =>
    obtain ⟨c', hc', hprogram, -⟩ := exists_compilation_of_parse hparsed
    obtain rfl : c = c' := Except.ok.inj (h.symm.trans hc')
    exact ⟨parsed, rfl, hprogram.symm⟩

/-- Every function of a source text that is compiled is well formed over the structs at its end. -/
theorem Function.wellFormed_of_compile {source : String} {c : Compilation} {f : Function}
    (h : (compile source).outcome = .ok c) (hf : f ∈ c.program.functions) : f.WellFormed c.tables.structs := by
  obtain ⟨r, r', hr, hrun, htables, -⟩ := exists_run_of_compile h
  obtain ⟨hpasses, hadmissible⟩ := Grammar.run_program_eq_ok (.of_ofSource hr) hrun
  obtain ⟨before, hf, hbegins⟩ := hadmissible.exists_isPrefix (Program.mem_functions.1 hf)
  rw [htables, hpasses.structs_eq]
  exact hf.wellFormed hbegins

/-- A source text with a declaration of every form: a struct with fewer values than fields, arrays with fewer values
than elements and with none, and a variable in the head of a loop. -/
def declaringSource : String :=
  "struct P\x7bint x;char y;\x7d;int f(int n,char c)\x7bstruct P p=\x7b1\x7d;int a[3]=\x7bn,2\x7d;" ++
    "for(char i=0;i<n;i=i+1)\x7bdouble d[1];\x7dreturn a[0];\x7d"

end ClockedC
