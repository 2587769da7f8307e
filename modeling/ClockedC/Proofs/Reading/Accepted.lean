import ClockedC.Compile
import ClockedC.Proofs.Hardware.Generation
import ClockedC.Proofs.Reading.Names
import ClockedC.Proofs.Reading.Program
import ClockedC.Proofs.Structs.Table

/-!
# Source texts that are compiled

The program of a source text that is compiled was read from its tokens. So the program is admissible, its names are
identifiers, and the design is that of the program.
-/

namespace ClockedC

variable {f : Function} {source : String} {c : Compilation}

/-- A text that can be scanned is compiled by reading its tokens and generating the hardware of the program. -/
theorem outcome_compile {r : Reader} (h : Reader.ofSource source = .ok r) :
    (compile source).outcome =
      match Grammar.program.run r with
      | .ok program r' =>
        let generated := Generator.generate { layouts := r'.tables.structs } program
        .ok { program, tables := r'.tables, design := generated.1
              diagnostics := r'.diagnostics ++ generated.2.diagnostics }
      | .error e _ => .error e := by
  rw [Reader.ofSource] at h
  simp only [compile, parse, h, EStateM.run]
  cases Grammar.program r <;> rfl

/-- A source text that is compiled is read to the program, of which the design is made. -/
theorem exists_run_of_compile (h : (compile source).outcome = .ok c) :
    ∃ r r', Reader.ofSource source = .ok r ∧ Grammar.program.run r = .ok c.program r' ∧ c.tables = r'.tables ∧
      c.design = hardwareDesign c.tables.structs c.program := by
  cases hr : Reader.ofSource source with
  | error e =>
    rw [Reader.ofSource] at hr
    simp [compile, parse, hr] at h
  | ok r =>
    rw [outcome_compile hr] at h
    cases hrun : Grammar.program.run r with
    | error e r' => simp [hrun] at h
    | ok program r' =>
      rw [hrun] at h
      cases h
      exact ⟨r, r', rfl, hrun, rfl, rfl⟩

/-! ## Structs and functions -/

/-- The structs of a program are its items that are structs. -/
theorem Program.mem_structs {p : Program} {decl : Struct} : decl ∈ p.structs ↔ .struct decl ∈ p.items := by
  rw [structs, List.mem_filterMap]
  constructor
  · rintro ⟨item, hitem, hdecl⟩
    cases item with
    | struct decl' =>
      cases hdecl
      exact hitem
    | function f => cases hdecl
  · intro h
    exact ⟨_, h, rfl⟩

/-- The functions of a program are its items that are functions. -/
theorem Program.mem_functions {p : Program} : f ∈ p.functions ↔ .function f ∈ p.items := by
  rw [functions, List.mem_filterMap]
  constructor
  · rintro ⟨item, hitem, hf⟩
    cases item with
    | struct decl => cases hf
    | function g =>
      cases hf
      exact hitem
  · intro h
    exact ⟨_, h, rfl⟩

namespace Item.AllAdmissible

variable {structs : Layouts} {items : List Item}

/-- Items only add structs to those that are defined. -/
theorem grows (h : AllAdmissible structs items) : structs.Grows (structs.behindAll items) := by
  induction items generalizing structs with
  | nil => exact .refl
  | cons item items ih =>
    have hrest := ih h.2
    cases item with
    | struct decl => exact .head ⟨decl, h.1, rfl⟩ hrest
    | function f => exact hrest

/-- A function among admissible items is admissible over the structs before it. -/
theorem exists_isPrefix (h : AllAdmissible structs items) (hf : .function f ∈ items) :
    ∃ before : Layouts, f.Admissible before ∧ before.all <+: (structs.behindAll items).all := by
  induction items generalizing structs with
  | nil => cases hf
  | cons item items ih =>
    rcases List.mem_cons.1 hf with rfl | hf
    · exact ⟨structs, h.1, h.2.grows.isPrefix⟩
    · exact ih h.2 hf

end Item.AllAdmissible

/-- Every name in a struct of a source text that is compiled is an identifier. -/
theorem Struct.named_of_compile {decl : Struct} (h : (compile source).outcome = .ok c)
    (hdecl : decl ∈ c.program.structs) : decl.Named := by
  obtain ⟨r, r', hr, hrun, -, -⟩ := exists_run_of_compile h
  exact (Grammar.Yields.program.of_ok (.of_ofSource hr) hrun).1 _ (Program.mem_structs.1 hdecl)

/-- Every name in a function of a source text that is compiled is an identifier. -/
theorem Function.named_of_compile (h : (compile source).outcome = .ok c) (hf : f ∈ c.program.functions) : f.Named := by
  obtain ⟨r, r', hr, hrun, -, -⟩ := exists_run_of_compile h
  exact (Grammar.Yields.program.of_ok (.of_ofSource hr) hrun).1 _ (Program.mem_functions.1 hf)

/-- Every function of a source text that is compiled is admissible. -/
theorem Function.admissible_of_compile (h : (compile source).outcome = .ok c) (hf : f ∈ c.program.functions) :
    ∃ structs, f.Admissible structs := by
  obtain ⟨r, r', hr, hrun, -, -⟩ := exists_run_of_compile h
  have hadmissible := (Grammar.run_program_eq_ok (.of_ofSource hr) hrun).2
  obtain ⟨structs, hf, -⟩ := hadmissible.exists_isPrefix (Program.mem_functions.1 hf)
  exact ⟨structs, hf⟩

/-- The entity of a function stands in the design where the function stands in the program. -/
theorem getElem?_entities_of_compile {i : Nat} (h : (compile source).outcome = .ok c)
    (hf : c.program.functions[i]? = some f) : c.design.entities[i]? = some (hardwareEntity c.tables.structs f) := by
  obtain ⟨-, -, -, -, -, hdesign⟩ := exists_run_of_compile h
  rw [hdesign, hardwareDesign_eq, List.getElem?_map, hf]
  rfl

/-- What is checked by compiling a source text holds of what it is compiled to. -/
theorem exists_compilation_of_any {p : Compilation → Bool} (h : (compile source).outcome.toOption.any p) :
    ∃ c, (compile source).outcome = .ok c ∧ p c := by
  cases hc : (compile source).outcome with
  | error e =>
    rw [hc] at h
    cases h
  | ok c =>
    rw [hc] at h
    exact ⟨c, rfl, h⟩

/-- What is checked of a function by compiling its source text holds of a function that is compiled. -/
theorem exists_function_of_any {i : Nat} {p : Compilation → Function → Bool}
    (h : (compile source).outcome.toOption.any fun c => c.program.functions[i]?.any (p c)) :
    ∃ c f, (compile source).outcome = .ok c ∧ c.program.functions[i]? = some f ∧ p c f := by
  obtain ⟨c, hc, hany⟩ := exists_compilation_of_any h
  obtain ⟨f, hf, hp⟩ := (Option.any_eq_true ..).1 hany
  exact ⟨c, f, hc, hf, hp⟩

end ClockedC
