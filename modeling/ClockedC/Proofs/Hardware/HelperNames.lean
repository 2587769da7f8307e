import ClockedC.Proofs.Hardware.Declarations

/-!
# Names of array types and array constants

The declaration of an array takes two more names: one for its type, and one for the constant with its first contents.
They are made of the name of its signal by putting something behind it, whatever else is called so. They differ from
each other and from every replacement, but a variable may have such a name.

* `helper_names_distinct` : all names of an entity differ exactly if no variable has the name of a helper.
-/

namespace ClockedC

variable {helper name : String}

/-! ## Helpers -/

/-- The names of the type and of the constant that a declaration makes on the side. -/
def Vhdl.Declaration.helperNames : Vhdl.Declaration → List String
  | .signal _ _ => []
  | .array name _ _ none => [arrayTypeName name]
  | .array name _ _ (some _) => [arrayTypeName name, contentsName name]

/-- The names of all types and constants of the architecture. -/
def Vhdl.Entity.helperNames (entity : Vhdl.Entity) : List String :=
  entity.signals.flatMap Vhdl.Declaration.helperNames

/-- The names of all ports and signals. -/
def Vhdl.Entity.names (entity : Vhdl.Entity) : List String :=
  Vhdl.reservedPorts ++ entity.inputs.map Prod.fst ++ entity.signals.map Vhdl.Declaration.name

/-- The name is made like that of a helper. -/
def IsHelper (name : String) : Prop :=
  ∃ signal, name = Vhdl.Declaration.arrayTypeName signal ∨ name = Vhdl.Declaration.contentsName signal

/-- The helpers of a declaration are named for its array type and its constant. -/
theorem Vhdl.Declaration.eq_of_mem_helperNames {d : Vhdl.Declaration} (h : helper ∈ d.helperNames) :
    helper = arrayTypeName d.name ∨ helper = contentsName d.name := by
  cases d with
  | signal name type => cases h
  | array name length element contents =>
    cases contents with
    | none => exact .inl (List.mem_singleton.1 h)
    | some es => simpa [helperNames, Vhdl.Declaration.name] using h

/-- The helpers of an entity have names of helpers. -/
theorem Vhdl.Entity.isHelper_of_mem {entity : Vhdl.Entity} (h : helper ∈ entity.helperNames) : IsHelper helper := by
  obtain ⟨d, -, hd⟩ := List.mem_flatMap.1 h
  exact ⟨d.name, d.eq_of_mem_helperNames hd⟩

/-! ## Last letters -/

theorem toList_arrayTypeName (signal : String) :
    (Vhdl.Declaration.arrayTypeName signal).toList = signal.toList ++ ['_', 't', 'y', 'p', 'e'] :=
  String.toList_append

theorem toList_contentsName (signal : String) :
    (Vhdl.Declaration.contentsName signal).toList = signal.toList ++ ['_', 'i', 'n', 'i', 't'] :=
  String.toList_append

/-- A type is never called like a constant. -/
theorem arrayTypeName_ne_contentsName (signal signal' : String) :
    Vhdl.Declaration.arrayTypeName signal ≠ Vhdl.Declaration.contentsName signal' := by
  intro h
  have hlast := congrArg (fun name => name.toList.getLast?) h
  simp [toList_arrayTypeName, toList_contentsName] at hlast

/-- A helper tells its signal. -/
theorem Vhdl.Declaration.name_eq_of_mem_helperNames {d d' : Vhdl.Declaration} (h : helper ∈ d.helperNames)
    (h' : helper ∈ d'.helperNames) : d.name = d'.name := by
  rcases d.eq_of_mem_helperNames h with rfl | rfl
  · rcases d'.eq_of_mem_helperNames h' with heq | heq
    · exact (String.append_left_inj _).1 heq
    · exact absurd heq (arrayTypeName_ne_contentsName _ _)
  · rcases d'.eq_of_mem_helperNames h' with heq | heq
    · exact absurd heq.symm (arrayTypeName_ne_contentsName _ _)
    · exact (String.append_left_inj _).1 heq

/-- The type and the constant of one array have different names. -/
theorem Vhdl.Declaration.nodup_helperNames (d : Vhdl.Declaration) : d.helperNames.Nodup := by
  cases d with
  | signal name type => exact List.nodup_nil
  | array name length element contents =>
    cases contents with
    | none => exact List.nodup_singleton _
    | some es => simpa [helperNames] using arrayTypeName_ne_contentsName name name

/-- A replacement ends with the letter `l` or a digit. -/
theorem getLast?_candidateName (base : String) (n : Nat) :
    ∃ c, (candidateName base n).toList.getLast? = some c ∧ (c = 'l' ∨ c.isDigit) := by
  cases n with
  | zero => exact ⟨'l', by simp [candidateName], .inl rfl⟩
  | succ n =>
    have hdigits : (toString (n + 1)).toList = Nat.toDigits 10 (n + 1) := by
      rw [Nat.toString_eq_ofList_toDigits, String.toList_ofList]
    have hne : (Nat.toDigits 10 (n + 1)).getLast? ≠ none := mt List.getLast?_eq_none_iff.1 Nat.toDigits_ne_nil
    obtain ⟨c, hc⟩ := Option.ne_none_iff_exists'.1 hne
    refine ⟨c, ?_, .inr (Nat.isDigit_of_mem_toDigits (by decide) (by decide) (List.mem_of_getLast? hc))⟩
    rw [candidateName, String.toList_append, List.getLast?_append, hdigits, hc]
    rfl

/-- No replacement is called like a helper. -/
theorem IsHelper.ne_candidateName (h : IsHelper name) (base : String) (n : Nat) : name ≠ candidateName base n := by
  rintro rfl
  obtain ⟨c, hlast, hc⟩ := getLast?_candidateName base n
  obtain ⟨signal, hname | hname⟩ := h
  · rw [hname, toList_arrayTypeName, List.getLast?_append] at hlast
    cases hlast
    exact absurd hc (by decide)
  · rw [hname, toList_contentsName, List.getLast?_append] at hlast
    cases hlast
    exact absurd hc (by decide)

/-- No port that every entity has is called like a helper: these have an underscore. -/
theorem IsHelper.not_mem_reservedPorts (h : IsHelper name) : name ∉ Vhdl.reservedPorts := by
  have hunderscore : '_' ∈ name.toList := by
    obtain ⟨signal, rfl | rfl⟩ := h
    · simp [toList_arrayTypeName]
    · simp [toList_contentsName]
  have hport : ∀ port ∈ Vhdl.reservedPorts, '_' ∉ port.toList := by decide
  exact fun hmem => hport _ hmem hunderscore

/-! ## Signals with the name of a helper -/

theorem AreCandidates.ne_of_lookup {pairs : List (String × String)} (h : AreCandidates pairs) {signal : String}
    (hlookup : pairs.lookup name = some signal) : ¬ IsHelper signal := by
  intro hhelper
  obtain ⟨n, hn⟩ := h _ (mem_of_lookup hlookup)
  exact hhelper.ne_candidateName name n hn

/-- Reserved names are replaced by candidates. -/
theorem areCandidates_fixed_ofFunction (f : Function) : AreCandidates (Signals.ofFunction f).fixed :=
  (Renaming.avoids_addAll ..).areCandidates

theorem areCandidates_shadows_ofFunction (f : Function) : AreCandidates (Signals.ofFunction f).shadows :=
  (Renaming.avoids_addAll ..).areCandidates

/-- A port that is called like a helper has the name of its parameter. -/
theorem IsHelper.outer_eq {f : Function} (hname : name ∈ f.variableNames)
    (h : IsHelper ((Signals.ofFunction f).outer name)) : (Signals.ofFunction f).outer name = name := by
  rcases (Signals.Separates.ofFunction f).outer_cases hname with hfixed | ⟨hsame, -⟩
  · exact absurd h ((areCandidates_fixed_ofFunction f).ne_of_lookup hfixed)
  · exact hsame

/-- A signal that is called like a helper has the name of its variable. -/
theorem IsHelper.localSignal_eq {f : Function} (hname : name ∈ f.variableNames)
    (h : IsHelper ((Signals.ofFunction f).localSignal name)) : (Signals.ofFunction f).localSignal name = name := by
  rcases Signals.Separates.localSignal_cases (Signals.ofFunction f) name with hshadow | ⟨-, houter⟩
  · exact absurd h ((areCandidates_shadows_ofFunction f).ne_of_lookup hshadow)
  · rw [houter] at h ⊢
    exact h.outer_eq hname

/-- A variable that is called like a helper keeps its name. -/
theorem IsHelper.outer_eq_self {f : Function} (h : IsHelper name) (hname : name ∈ f.variableNames) :
    (Signals.ofFunction f).outer name = name := by
  have hseparates := Signals.Separates.ofFunction f
  rcases hseparates.outer_cases hname with hfixed | ⟨hsame, -⟩
  · have hreserved := ((hseparates.fixed_iff name).1 (by rw [hfixed]; rfl)).2
    exact absurd (of_decide_eq_true hreserved) h.not_mem_reservedPorts
  · exact hsame

/-! ## Entities -/

theorem names_hardwareEntity (layouts : Layouts) (f : Function) :
    (hardwareEntity layouts f).names =
      Vhdl.reservedPorts ++ (f.parameters.map fun p => (Signals.ofFunction f).outer p.name) ++
        (firstDeclarations [] f.locals).map fun decl => (Signals.ofFunction f).localSignal decl.name := by
  simp [Vhdl.Entity.names, hardwareEntity_eq, signal_ofFunction, name_hardwareDeclaration, Function.comp_def]

/-- The helpers of an architecture differ from each other. -/
theorem nodup_helperNames (layouts : Layouts) (f : Function) : (hardwareEntity layouts f).helperNames.Nodup := by
  refine List.nodup_flatMap.2 ⟨fun d _ => d.nodup_helperNames, ?_⟩
  refine (List.pairwise_map.1 (nodup_map_name_signals layouts f)).imp ?_
  intro d d' hne helper h h'
  exact hne (Vhdl.Declaration.name_eq_of_mem_helperNames h h')

/-- A port or signal has the name of a helper only if a variable has it, and then it is the one of that variable. -/
theorem IsHelper.mem_names_iff (layouts : Layouts) (f : Function) (h : IsHelper helper) :
    helper ∈ (hardwareEntity layouts f).names ↔ helper ∈ f.variableNames := by
  rw [names_hardwareEntity, List.mem_append, List.mem_append]
  constructor
  · rintro ((hport | hinput) | hsignal)
    · exact absurd hport h.not_mem_reservedPorts
    · obtain ⟨p, hp, rfl⟩ := List.mem_map.1 hinput
      have hname : p.name ∈ f.variableNames := List.mem_append_left _ (List.mem_map_of_mem hp)
      rwa [h.outer_eq hname]
    · obtain ⟨decl, hdecl, rfl⟩ := List.mem_map.1 hsignal
      have hname : decl.name ∈ f.variableNames :=
        List.mem_append_right _ (List.mem_map_of_mem (mem_of_mem_firstDeclarations hdecl))
      rwa [h.localSignal_eq hname]
  · intro hname
    have houter := h.outer_eq_self hname
    by_cases hparameter : helper ∈ f.parameters.map (·.name)
    · obtain ⟨p, hp, rfl⟩ := List.mem_map.1 hparameter
      exact .inl (.inr (List.mem_map.2 ⟨p, hp, houter⟩))
    · have hlocal : helper ∈ f.locals.map (·.name) := (List.mem_append.1 hname).resolve_left hparameter
      obtain ⟨decl, hdecl, rfl⟩ := exists_mem_firstDeclarations hlocal List.not_mem_nil
      refine .inr (List.mem_map.2 ⟨decl, hdecl, ?_⟩)
      -- its signal is not one of its own, because no parameter is called so
      rcases Signals.Separates.localSignal_cases (Signals.ofFunction f) decl.name with hshadow | ⟨-, hsame⟩
      · exact absurd (((Signals.Separates.ofFunction f).shadow_iff decl.name).1 (by rw [hshadow]; rfl)).2 hparameter
      · exact hsame.trans houter

/-- **Array types and constants have names of their own, unless a variable is called so.** In the entity of a function
that is compiled, the names of the array types and array constants differ from each other and from the ports `clk`,
`reset` and `result`. A port of a parameter or a signal has one of these names exactly if a variable of the function has
it: what is put in place of the name of a variable never does. So all names of the entity differ exactly if no variable
is called like a helper. -/
theorem helper_names_distinct {source : String} {c : Compilation} {i : Nat} {f : Function}
    (hc : (compile source).outcome = .ok c) (hf : c.program.functions[i]? = some f) :
    ∃ entity, c.design.entities[i]? = some entity ∧ entity.helperNames.Nodup ∧
      (∀ helper ∈ entity.helperNames,
        helper ∉ Vhdl.reservedPorts ∧ (helper ∈ entity.names ↔ helper ∈ f.variableNames)) ∧
      ((entity.names ++ entity.helperNames).Nodup ↔ ∀ name ∈ f.variableNames, name ∉ entity.helperNames) := by
  refine ⟨_, getElem?_entities_of_compile hc hf, nodup_helperNames _ f, ?_, ?_⟩
  · intro helper hhelper
    have h := Vhdl.Entity.isHelper_of_mem hhelper
    exact ⟨h.not_mem_reservedPorts, h.mem_names_iff _ f⟩
  · have hparameters := (Function.wellFormed_of_compile hc (List.mem_of_getElem? hf)).parameters_nodup
    have hnames : (hardwareEntity c.tables.structs f).names.Nodup := by
      rw [names_hardwareEntity]
      exact (Signals.Separates.ofFunction f).nodup_names hparameters
    rw [List.nodup_append']
    constructor
    · rintro ⟨-, -, hdisjoint⟩ name hname hhelper
      have h := Vhdl.Entity.isHelper_of_mem hhelper
      exact hdisjoint ((h.mem_names_iff _ f).2 hname) hhelper
    · intro hfree
      refine ⟨hnames, nodup_helperNames _ f, ?_⟩
      intro name hname hhelper
      have h := Vhdl.Entity.isHelper_of_mem hhelper
      exact hfree name ((h.mem_names_iff _ f).1 hname) hhelper

/-- A source text whose arrays have replaced names. The parameter `b_type` looks like the type of an array, but `b` is
none, and `a` is not the name of a signal with a type. -/
def replacedArraysSource : String :=
  "int f(int a,int b_type,int a_init)\x7bint b=1;int a[2]=\x7b1,2\x7d;int clk[3];return a[b];\x7d"

theorem helper_names_distinct_replacedArraysSource :
    ∃ (c : Compilation) (f : Function) (entity : Vhdl.Entity), (compile replacedArraysSource).outcome = .ok c ∧
      c.program.functions[0]? = some f ∧ c.design.entities[0]? = some entity ∧
      entity.names = ["clk", "reset", "result", "a", "b_type", "a_init", "b", "a_local", "clk_local"] ∧
      entity.helperNames = ["a_local_type", "a_local_init", "clk_local_type"] ∧
      (entity.names ++ entity.helperNames).Nodup := by
  have hchecked : (compile replacedArraysSource).outcome.toOption.any (fun c => c.program.functions[0]?.any fun f =>
      (hardwareEntity c.tables.structs f).names =
        ["clk", "reset", "result", "a", "b_type", "a_init", "b", "a_local", "clk_local"] &&
      (hardwareEntity c.tables.structs f).helperNames = ["a_local_type", "a_local_init", "clk_local_type"] &&
      f.variableNames.all (· ∉ (hardwareEntity c.tables.structs f).helperNames)) := by decide +kernel
  obtain ⟨c, f, hc, hf, hnames⟩ := exists_function_of_any hchecked
  simp only [Bool.and_eq_true, decide_eq_true_eq, List.all_eq_true] at hnames
  obtain ⟨⟨hnames, hhelpers⟩, hfree⟩ := hnames
  have hentity := getElem?_entities_of_compile hc hf
  obtain ⟨entity, hentity', -, -, hiff⟩ := helper_names_distinct hc hf
  obtain rfl : hardwareEntity c.tables.structs f = entity := Option.some.inj (hentity.symm.trans hentity')
  exact ⟨c, f, _, hc, hf, hentity, hnames, hhelpers, hiff.2 hfree⟩

/-- A source text with a local variable that is called like the type of an array, and a parameter that is called like
its constant. -/
def clashingSource : String :=
  "int f(int a_init)\x7bint a[2]=\x7b1,2\x7d;int a_type;return a[0];\x7d"

/-- Both names are declared twice in one entity. -/
theorem helper_names_clash :
    ∃ (c : Compilation) (entity : Vhdl.Entity), (compile clashingSource).outcome = .ok c ∧
      c.design.entities[0]? = some entity ∧
      entity.helperNames = ["a_type", "a_init"] ∧
      entity.names = ["clk", "reset", "result", "a_init", "a", "a_type"] ∧
      ¬ (entity.names ++ entity.helperNames).Nodup ∧
      ⟨2, "a_init : in std_logic_vector(31 downto 0);"⟩ ∈ entity.lines ∧
      ⟨1, "signal a : a_type := a_init;"⟩ ∈ entity.lines ∧
      ⟨1, "type a_type is array (0 to 1) of std_logic_vector(31 downto 0);"⟩ ∈ entity.lines ∧
      ⟨1, "signal a_type : std_logic_vector(31 downto 0);"⟩ ∈ entity.lines := by
  have hchecked : (compile clashingSource).outcome.toOption.any fun c =>
      c.design.entities[0]?.any fun entity : Vhdl.Entity => decide (entity.helperNames = ["a_type", "a_init"] ∧
        entity.names = ["clk", "reset", "result", "a_init", "a", "a_type"] ∧
        ¬ (entity.names ++ entity.helperNames).Nodup ∧
        ⟨2, "a_init : in std_logic_vector(31 downto 0);"⟩ ∈ entity.lines ∧
        ⟨1, "signal a : a_type := a_init;"⟩ ∈ entity.lines ∧
        ⟨1, "type a_type is array (0 to 1) of std_logic_vector(31 downto 0);"⟩ ∈ entity.lines ∧
        ⟨1, "signal a_type : std_logic_vector(31 downto 0);"⟩ ∈ entity.lines) := by decide +kernel
  obtain ⟨c, hc, hany⟩ := exists_compilation_of_any hchecked
  obtain ⟨entity, hentity, hnames⟩ := (Option.any_eq_true ..).1 hany
  exact ⟨c, entity, hc, hentity, of_decide_eq_true hnames⟩

end ClockedC
