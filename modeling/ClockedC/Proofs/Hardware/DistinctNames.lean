import ClockedC.Proofs.Hardware.Emission
import ClockedC.Proofs.Hardware.SignalNames
import ClockedC.Proofs.Reading.Accepted

/-!
# No two signals have one name

An entity has ports of its own, a port for every parameter and a signal for every local variable. Three kinds of names
meet there: names as they stand in the source, replacements of reserved names, and replacements of names that belong to
a parameter and to a local variable. Each kind avoids the kinds before it.

* `signal_names_distinct` : names differ in the entity of a function, and a variable is read from a port or signal of
  its own.
-/

namespace ClockedC

/-! ## Variables -/

/-- The names of the parameters and local variables of a function. -/
def Function.variableNames (f : Function) : List String :=
  f.parameters.map (·.name) ++ f.locals.map (·.name)

/-- The name of the signal that is declared. -/
def Vhdl.Declaration.name : Vhdl.Declaration → String
  | .signal name _ => name
  | .array name _ _ _ => name

theorem name_hardwareDeclaration (signals : Signals) (decl : Variable) :
    (hardwareDeclaration signals decl).name = signals.localSignal decl.name := by
  rw [hardwareDeclaration_eq]
  cases decl.length <;> rfl

/-- The declarations that count have different names, none of which was seen before. -/
theorem nodup_firstDeclarations (seen : List String) (decls : List Variable) :
    ((firstDeclarations seen decls).map (·.name)).Nodup ∧ ∀ decl ∈ firstDeclarations seen decls, decl.name ∉ seen := by
  induction decls generalizing seen with
  | nil => simp [firstDeclarations]
  | cons decl decls ih =>
    rw [firstDeclarations]
    split
    · exact ih seen
    · next hnew =>
      obtain ⟨hnodup, hseen⟩ := ih (decl.name :: seen)
      refine ⟨List.nodup_cons.2 ⟨?_, hnodup⟩, ?_⟩
      · intro hmem
        obtain ⟨later, hlater, heq⟩ := List.mem_map.1 hmem
        exact hseen later hlater (by simp [heq])
      · intro later hlater
        rcases List.mem_cons.1 hlater with rfl | hlater
        · exact hnew
        · exact fun hmem => hseen later hlater (List.mem_cons_of_mem _ hmem)

/-- Every variable that was not seen before has a declaration that counts. -/
theorem exists_mem_firstDeclarations {seen : List String} {decls : List Variable} {name : String}
    (h : name ∈ decls.map (·.name)) (hseen : name ∉ seen) :
    ∃ decl ∈ firstDeclarations seen decls, decl.name = name := by
  induction decls generalizing seen with
  | nil => cases h
  | cons decl decls ih =>
    rw [firstDeclarations]
    rw [List.map_cons, List.mem_cons] at h
    split
    · next hmem =>
      rcases h with rfl | h
      · exact absurd hmem hseen
      · exact ih h hseen
    · by_cases hname : decl.name = name
      · exact ⟨decl, by simp, hname⟩
      · rcases h with h | h
        · exact absurd h.symm hname
        · have hseen' : name ∉ decl.name :: seen := List.not_mem_cons_of_ne_of_not_mem (Ne.symm hname) hseen
          obtain ⟨later, hlater, heq⟩ := ih h hseen'
          exact ⟨later, List.mem_cons_of_mem _ hlater, heq⟩

/-- The declarations that count are among all declarations. -/
theorem mem_of_mem_firstDeclarations {seen : List String} {decls : List Variable} {decl : Variable}
    (h : decl ∈ firstDeclarations seen decls) : decl ∈ decls := by
  induction decls generalizing seen with
  | nil => exact h
  | cons first decls ih =>
    rw [firstDeclarations] at h
    split at h
    · exact List.mem_cons_of_mem _ (ih h)
    · rcases List.mem_cons.1 h with rfl | h
      · exact List.mem_cons_self
      · exact List.mem_cons_of_mem _ (ih h)

/-- A declaration that counts is the first one of its name, and the name was not seen before. -/
theorem find?_of_mem_firstDeclarations {seen : List String} {decls : List Variable} {decl : Variable}
    (h : decl ∈ firstDeclarations seen decls) :
    decl.name ∉ seen ∧ decls.find? (·.name = decl.name) = some decl := by
  induction decls generalizing seen with
  | nil => cases h
  | cons first decls ih =>
    rw [firstDeclarations] at h
    split at h
    next hseen =>
      obtain ⟨hnot, hfind⟩ := ih h
      refine ⟨hnot, ?_⟩
      rw [List.find?_cons_of_neg _ , hfind]
      simp only [decide_eq_true_eq]
      rintro heq
      exact hnot (heq ▸ hseen)
    next hseen =>
      rcases List.mem_cons.1 h with rfl | h
      · exact ⟨hseen, by simp⟩
      · obtain ⟨hnot, hfind⟩ := ih h
        rw [List.mem_cons, not_or] at hnot
        refine ⟨hnot.2, ?_⟩
        rw [List.find?_cons_of_neg _ , hfind]
        simpa using Ne.symm hnot.1

/-! ## Replacements -/

/-- No port has a name that is tried as a replacement: these have an underscore. -/
theorem candidateName_not_mem_reservedPorts (base : String) (n : Nat) : candidateName base n ∉ Vhdl.reservedPorts := by
  have hunderscore : '_' ∈ (candidateName base n).toList := by
    cases n <;> simp [candidateName]
  intro hmem
  have hport : ∀ port ∈ Vhdl.reservedPorts, '_' ∉ port.toList := by decide
  exact hport _ hmem hunderscore

/-- The replacements of a function: those of reserved names avoid all variables, and those of local variables with the
name of a parameter avoid these as well. -/
structure Signals.Separates (f : Function) (signals : Signals) : Prop where
  /-- The reserved names among the variables are replaced. -/
  fixed_iff : ∀ name, (signals.fixed.lookup name).isSome ↔ name ∈ f.variableNames ∧ isReserved name
  fixed_nodup : (signals.fixed.map Prod.snd).Nodup
  fixed_not_mem : ∀ fresh ∈ signals.fixed.map Prod.snd, fresh ∉ f.variableNames ∧ fresh ∉ Vhdl.reservedPorts
  /-- The local variables with the name of a parameter have a signal of their own. -/
  shadow_iff : ∀ name, (signals.shadow? name).isSome ↔
    name ∈ f.locals.map (·.name) ∧ name ∈ f.parameters.map (·.name)
  shadow_nodup : (signals.shadows.map Prod.snd).Nodup
  shadow_not_mem : ∀ fresh ∈ signals.shadows.map Prod.snd,
    fresh ∉ f.variableNames ∧ fresh ∉ signals.fixed.map Prod.snd ∧ fresh ∉ Vhdl.reservedPorts

/-- A candidate ends like none of the reserved ports. -/
theorem AreCandidates.not_mem_reservedPorts {pairs : List (String × String)} (h : AreCandidates pairs) {fresh : String}
    (hfresh : fresh ∈ pairs.map Prod.snd) : fresh ∉ Vhdl.reservedPorts := by
  obtain ⟨pair, hpair, rfl⟩ := List.mem_map.1 hfresh
  obtain ⟨n, hn⟩ := h pair hpair
  rw [hn]
  exact candidateName_not_mem_reservedPorts pair.1 n

namespace Signals.Separates

/-- The replacements of a function are separated from the start. -/
theorem ofFunction (f : Function) : (Signals.ofFunction f).Separates f := by
  have hfixed := Renaming.avoids_addAll f.variableNames (f.variableNames.filter isReserved)
  have hshadows := Renaming.avoids_addAll
    ((Renaming.mk [] f.variableNames).addAll (f.variableNames.filter isReserved)).taken
    ((f.locals.map (·.name)).filter (· ∈ f.parameters.map (·.name)))
  refine ⟨?_, hfixed.nodup, ?_, ?_, hshadows.nodup, ?_⟩
  · intro name
    refine (Renaming.isSome_lookup_addAll _ _ name).trans ?_
    rw [← List.mem_filter]
    exact ⟨fun h => h.resolve_left (by simp), .inr⟩
  · intro fresh hfresh
    exact ⟨hfixed.not_mem fresh hfresh, hfixed.areCandidates.not_mem_reservedPorts hfresh⟩
  · intro name
    refine (Renaming.isSome_lookup_addAll _ _ name).trans ?_
    simp
  · intro fresh hfresh
    -- what the replacements of reserved names took is avoided
    have havoids := hshadows.not_mem fresh hfresh
    rw [hfixed.mem_taken, not_or] at havoids
    exact ⟨havoids.1, havoids.2, hshadows.areCandidates.not_mem_reservedPorts hfresh⟩

variable {f : Function} {signals signals' : Signals}

theorem of_sameNames (h : signals.Separates f) (hsame : signals.SameNames signals') : signals'.Separates f := by
  obtain ⟨fixed, shadows, active⟩ := signals
  obtain ⟨fixed', shadows', active'⟩ := signals'
  obtain ⟨rfl, rfl⟩ := hsame
  exact ⟨h.fixed_iff, h.fixed_nodup, h.fixed_not_mem, h.shadow_iff, h.shadow_nodup, h.shadow_not_mem⟩

/-- Away from the local variables with the name of a parameter, a variable has a replacement or its own name. -/
theorem outer_cases (h : signals.Separates f) {name : String} (hname : name ∈ f.variableNames) :
    signals.fixed.lookup name = some (signals.outer name) ∨
      (signals.outer name = name ∧ name ∉ Vhdl.reservedPorts) := by
  unfold outer
  cases hlookup : signals.fixed.lookup name with
  | some fresh => exact .inl rfl
  | none =>
    have hreserved : ¬ isReserved name := by
      intro hreserved
      have hsome := (h.fixed_iff name).2 ⟨hname, hreserved⟩
      rw [hlookup] at hsome
      cases hsome
    refine .inr ⟨if_neg hreserved, ?_⟩
    simpa [isReserved] using hreserved

theorem outer_not_mem_reservedPorts (h : signals.Separates f) {name : String} (hname : name ∈ f.variableNames) :
    signals.outer name ∉ Vhdl.reservedPorts := by
  rcases h.outer_cases hname with hfixed | ⟨hsame, hfree⟩
  · exact (h.fixed_not_mem _ (List.mem_map_of_mem (mem_of_lookup hfixed))).2
  · rwa [hsame]

/-- Away from them, variables are kept apart. -/
theorem outer_injective (h : signals.Separates f) {name name' : String} (hname : name ∈ f.variableNames)
    (hname' : name' ∈ f.variableNames) (heq : signals.outer name = signals.outer name') : name = name' := by
  have hnew {x : String} (hx : signals.fixed.lookup x = some (signals.outer x)) : signals.outer x ∉ f.variableNames :=
    (h.fixed_not_mem _ (List.mem_map_of_mem (mem_of_lookup hx))).1
  rcases h.outer_cases hname with hfixed | ⟨hsame, -⟩
  · rcases h.outer_cases hname' with hfixed' | ⟨hsame', -⟩
    · exact eq_of_lookup_eq h.fixed_nodup hfixed (heq ▸ hfixed')
    · exact absurd hname' (hsame' ▸ heq ▸ hnew hfixed)
  · rcases h.outer_cases hname' with hfixed' | ⟨hsame', -⟩
    · exact absurd hname (hsame ▸ heq ▸ hnew hfixed')
    · rw [← hsame, heq, hsame']

/-- The signal of a local variable with the name of a parameter is the signal of no other variable. -/
theorem shadow_ne_outer (h : signals.Separates f) {name name' shadow : String}
    (hshadow : signals.shadow? name = some shadow) (hname' : name' ∈ f.variableNames) :
    shadow ≠ signals.outer name' := by
  have hnew := h.shadow_not_mem shadow (List.mem_map_of_mem (mem_of_lookup hshadow))
  rcases h.outer_cases hname' with hfixed | ⟨hsame, -⟩
  · rintro rfl
    exact hnew.2.1 (List.mem_map_of_mem (mem_of_lookup hfixed))
  · rw [hsame]
    rintro rfl
    exact hnew.1 hname'

/-- A signal is the shadow of one variable only, or the signal of one variable away from shadows. -/
theorem eq_of_cases (h : signals.Separates f) {name name' signal : String} (hname : name ∈ f.variableNames)
    (hname' : name' ∈ f.variableNames) (hcases : signals.shadow? name = some signal ∨ signal = signals.outer name)
    (hcases' : signals.shadow? name' = some signal ∨ signal = signals.outer name') : name = name' := by
  rcases hcases with hshadow | houter
  · rcases hcases' with hshadow' | houter'
    · exact eq_of_lookup_eq h.shadow_nodup hshadow hshadow'
    · exact absurd houter' (h.shadow_ne_outer hshadow hname')
  · rcases hcases' with hshadow' | houter'
    · exact absurd houter (h.shadow_ne_outer hshadow' hname)
    · exact h.outer_injective hname hname' (houter.symm.trans houter')

/-- Where a statement stands, a variable is read from its own shadow or as everywhere else. -/
theorem signal_cases (signals : Signals) (name : String) :
    signals.shadow? name = some (signals.signal name) ∨ signals.signal name = signals.outer name := by
  unfold signal
  split
  · cases signals.shadow? name with
    | some shadow => exact .inl rfl
    | none => exact .inr rfl
  · exact .inr rfl

/-- Wherever a statement stands, variables are kept apart. -/
theorem signal_injective (h : signals.Separates f) {name name' : String} (hname : name ∈ f.variableNames)
    (hname' : name' ∈ f.variableNames) (heq : signals.signal name = signals.signal name') : name = name' :=
  h.eq_of_cases hname hname' (signal_cases signals name) (heq ▸ signal_cases signals name')

/-! ## All names of an entity -/

/-- A local variable has a shadow of its own, or the signal it has everywhere. -/
theorem localSignal_cases (signals : Signals) (name : String) :
    signals.shadow? name = some (signals.localSignal name) ∨
      (signals.shadow? name = none ∧ signals.localSignal name = signals.outer name) := by
  unfold localSignal signal
  cases signals.shadow? name with
  | some shadow => exact .inl rfl
  | none => exact .inr ⟨rfl, by simp⟩

/-- The signal of a local variable has no reserved name. -/
theorem localSignal_not_mem_reservedPorts (h : signals.Separates f) {name : String} (hname : name ∈ f.variableNames) :
    signals.localSignal name ∉ Vhdl.reservedPorts := by
  rcases localSignal_cases signals name with hshadow | ⟨-, houter⟩
  · exact (h.shadow_not_mem _ (List.mem_map_of_mem (mem_of_lookup hshadow))).2.2
  · rw [houter]
    exact h.outer_not_mem_reservedPorts hname

theorem localSignal_injective (h : signals.Separates f) {name name' : String} (hname : name ∈ f.variableNames)
    (hname' : name' ∈ f.variableNames) (heq : signals.localSignal name = signals.localSignal name') : name = name' :=
  h.eq_of_cases hname hname' ((localSignal_cases signals name).imp_right And.right)
    (heq ▸ (localSignal_cases signals name').imp_right And.right)

/-- A local variable never has the signal of a parameter, not even of the one whose name it has. -/
theorem outer_ne_localSignal (h : signals.Separates f) {parameter name : String}
    (hparameter : parameter ∈ f.parameters.map (·.name)) (hname : name ∈ f.locals.map (·.name)) :
    signals.outer parameter ≠ signals.localSignal name := by
  have hparameter' : parameter ∈ f.variableNames := List.mem_append_left _ hparameter
  intro heq
  rcases localSignal_cases signals name with hshadow | ⟨hnone, houter⟩
  · exact h.shadow_ne_outer hshadow hparameter' heq.symm
  · -- a local variable without a signal of its own has not the name of a parameter
    have hsame := h.outer_injective hparameter' (List.mem_append_right _ hname) (heq.trans houter)
    have hsome := (h.shadow_iff name).2 ⟨hname, hsame ▸ hparameter⟩
    rw [hnone] at hsome
    cases hsome

/-- The names of all ports and signals differ if the names of the parameters do. -/
theorem nodup_names (h : signals.Separates f) (hparameters : (f.parameters.map (·.name)).Nodup) :
    (Vhdl.reservedPorts ++ (f.parameters.map fun p => signals.outer p.name) ++
      (firstDeclarations [] f.locals).map fun decl => signals.localSignal decl.name).Nodup := by
  have hvariable {p : Parameter} (hp : p ∈ f.parameters) : p.name ∈ f.variableNames :=
    List.mem_append_left _ (List.mem_map_of_mem hp)
  have hlocal {decl : Variable} (hdecl : decl ∈ firstDeclarations [] f.locals) : decl.name ∈ f.locals.map (·.name) :=
    List.mem_map_of_mem (mem_of_mem_firstDeclarations hdecl)
  have hlocal' {decl : Variable} (hdecl : decl ∈ firstDeclarations [] f.locals) : decl.name ∈ f.variableNames :=
    List.mem_append_right _ (hlocal hdecl)
  rw [List.nodup_append', List.nodup_append']
  -- ports of parameters differ, also from the reserved ones; signals differ, also from all ports
  refine ⟨⟨by decide, ?_, ?_⟩, ?_, ?_⟩
  · show (f.parameters.map (signals.outer ∘ fun p => p.name)).Nodup
    rw [← List.map_map]
    refine List.Nodup.map_on ?_ hparameters
    intro name hname name' hname' heq
    exact h.outer_injective (List.mem_append_left _ hname) (List.mem_append_left _ hname') heq
  · intro port hport hmem
    obtain ⟨p, hp, rfl⟩ := List.mem_map.1 hmem
    exact h.outer_not_mem_reservedPorts (hvariable hp) hport
  · show ((firstDeclarations [] f.locals).map (signals.localSignal ∘ fun decl => decl.name)).Nodup
    rw [← List.map_map]
    refine List.Nodup.map_on ?_ (nodup_firstDeclarations [] f.locals).1
    intro name hname name' hname' heq
    obtain ⟨decl, hdecl, rfl⟩ := List.mem_map.1 hname
    obtain ⟨decl', hdecl', rfl⟩ := List.mem_map.1 hname'
    exact h.localSignal_injective (hlocal' hdecl) (hlocal' hdecl') heq
  · intro port hport hmem
    obtain ⟨decl, hdecl, rfl⟩ := List.mem_map.1 hmem
    rcases List.mem_append.1 hport with hport | hport
    · exact h.localSignal_not_mem_reservedPorts (hlocal' hdecl) hport
    · obtain ⟨p, hp, heq⟩ := List.mem_map.1 hport
      exact h.outer_ne_localSignal (List.mem_map_of_mem hp) (hlocal hdecl) heq

end Signals.Separates

/-! ## Entities -/

/-- At the beginning of a function no local variable is in sight. -/
theorem signal_ofFunction (f : Function) (name : String) :
    (Signals.ofFunction f).signal name = (Signals.ofFunction f).outer name :=
  if_neg List.not_mem_nil

/-- The signal is the port of a parameter called `name`, or it was declared for a local variable called so. -/
def Function.MadeFor (layouts : Layouts) (f : Function) (name signal : String) : Prop :=
  (∃ (i : Nat) (p : Parameter), f.parameters[i]? = some p ∧ p.name = name ∧
      (hardwareEntity layouts f).inputs[i]? = some (signal, p.type.signalType)) ∨
    ∃ decl ∈ f.locals, decl.name = name ∧
      hardwareDeclaration (Signals.ofFunction f) decl ∈ (hardwareEntity layouts f).signals ∧
      (hardwareDeclaration (Signals.ofFunction f) decl).name = signal

/-- Wherever a statement stands, a variable is read from a signal that was made for it. -/
theorem Function.InSight.madeFor {f : Function} {signals : Signals} (h : f.InSight signals) (layouts : Layouts)
    {name : String} (hname : name ∈ f.variableNames) : f.MadeFor layouts name (signals.signal name) := by
  have hseparates := Signals.Separates.ofFunction f
  have hsame := h.sameNames
  have houter : signals.outer name = (Signals.ofFunction f).outer name := by
    unfold Signals.outer
    rw [hsame.fixed]
  have hshadow : signals.shadow? name = (Signals.ofFunction f).shadow? name := by
    unfold Signals.shadow?
    rw [hsame.shadows]
  -- the signal of a local variable is the one it has at its declaration
  have hlocal (hmem : name ∈ f.locals.map (·.name))
      (hsignal : signals.signal name = (Signals.ofFunction f).localSignal name) :
      f.MadeFor layouts name (signals.signal name) := by
    obtain ⟨decl, hdecl, rfl⟩ := exists_mem_firstDeclarations hmem List.not_mem_nil
    refine .inr ⟨decl, mem_of_mem_firstDeclarations hdecl, rfl, ?_,
      (name_hardwareDeclaration _ decl).trans hsignal.symm⟩
    rw [hardwareEntity_signals]
    exact List.mem_map_of_mem hdecl
  rcases Signals.Separates.signal_cases signals name with hown | hown
  · rw [hshadow] at hown
    have hmem := (hseparates.shadow_iff name).1 (by rw [hown]; rfl)
    refine hlocal hmem.1 ?_
    rw [Signals.localSignal, hown]
    rfl
  · rw [houter] at hown
    by_cases hparameter : name ∈ f.parameters.map (·.name)
    · obtain ⟨p, hp, rfl⟩ := List.mem_map.1 hparameter
      obtain ⟨i, hi⟩ := List.getElem?_of_mem hp
      refine .inl ⟨i, p, hi, rfl, ?_⟩
      rw [hown, ← signal_ofFunction]
      simp [hardwareEntity_inputs, hi]
    · have hmem : name ∈ f.locals.map (·.name) := (List.mem_append.1 hname).resolve_left hparameter
      refine hlocal hmem ?_
      rcases Signals.Separates.localSignal_cases (Signals.ofFunction f) name with hsome | ⟨-, hsame⟩
      · exact absurd ((hseparates.shadow_iff name).1 (by rw [hsome]; rfl)).2 hparameter
      · rw [hown, hsame]

/-- **No two signals have one name.** In the entity of a function whose parameters have different names, the names of
the ports `clk`, `reset` and `result`, of the ports of the parameters and of the signals of the local variables all
differ. Wherever a statement of the body is emitted, different variables are read from different signals, and each one
from a port or a signal that was made for it. -/
theorem signal_names_distinct (layouts : Layouts) {f : Function} (hparameters : (f.parameters.map (·.name)).Nodup) :
    (Vhdl.reservedPorts ++ (hardwareEntity layouts f).inputs.map Prod.fst ++
        (hardwareEntity layouts f).signals.map Vhdl.Declaration.name).Nodup ∧
      ∀ signals, f.InSight signals →
        (∀ x ∈ f.variableNames, ∀ y ∈ f.variableNames, signals.signal x = signals.signal y → x = y) ∧
        ∀ x ∈ f.variableNames, f.MadeFor layouts x (signals.signal x) := by
  have hseparates := Signals.Separates.ofFunction f
  refine ⟨?_, ?_⟩
  · have hinputs : (hardwareEntity layouts f).inputs.map Prod.fst =
        f.parameters.map fun p => (Signals.ofFunction f).outer p.name := by
      simp [hardwareEntity_inputs, signal_ofFunction]
    have hsignals : (hardwareEntity layouts f).signals.map Vhdl.Declaration.name =
        (firstDeclarations [] f.locals).map fun decl => (Signals.ofFunction f).localSignal decl.name := by
      simp [hardwareEntity_signals, name_hardwareDeclaration]
    rw [hinputs, hsignals]
    exact hseparates.nodup_names hparameters
  · intro signals hsight
    have hhere := hseparates.of_sameNames hsight.sameNames
    exact ⟨fun x hx y hy => hhere.signal_injective hx hy, fun x hx => hsight.madeFor layouts hx⟩

/-- A source text whose variables compete for the same names: `clk` is reserved and belongs to a parameter and to a
local variable, and the first replacements of `result` are taken. -/
def crowdedSource : String :=
  "int f(int result_local1,int clk)\x7bint result=1;int result_local=2;" ++
    "if(clk)\x7bint clk=3;result=clk;\x7dreturn result;\x7d"

theorem signal_names_distinct_crowdedSource :
    ∃ c f, (compile crowdedSource).outcome = .ok c ∧ c.program.functions[0]? = some f ∧
      (f.parameters.map (·.name)).Nodup ∧
      (hardwareEntity c.tables.structs f).inputs.map Prod.fst = ["result_local1", "clk_local"] ∧
      (hardwareEntity c.tables.structs f).signals.map Vhdl.Declaration.name =
        ["result_local2", "result_local", "clk_local1"] ∧
      (Vhdl.reservedPorts ++ (hardwareEntity c.tables.structs f).inputs.map Prod.fst ++
        (hardwareEntity c.tables.structs f).signals.map Vhdl.Declaration.name).Nodup ∧
      ∀ signals, f.InSight signals →
        (∀ x ∈ f.variableNames, ∀ y ∈ f.variableNames, signals.signal x = signals.signal y → x = y) ∧
        ∀ x ∈ f.variableNames, f.MadeFor c.tables.structs x (signals.signal x) := by
  have hchecked : (compile crowdedSource).outcome.toOption.any (fun c => c.program.functions[0]?.any fun f =>
      decide (f.parameters.map (·.name)).Nodup &&
      (hardwareEntity c.tables.structs f).inputs.map Prod.fst = ["result_local1", "clk_local"] &&
      (hardwareEntity c.tables.structs f).signals.map Vhdl.Declaration.name =
        ["result_local2", "result_local", "clk_local1"]) := by decide +kernel
  obtain ⟨c, f, hc, hf, hnames⟩ := exists_function_of_any hchecked
  simp only [Bool.and_eq_true, decide_eq_true_eq] at hnames
  obtain ⟨⟨hparameters, hinputs⟩, hsignals⟩ := hnames
  exact ⟨c, f, hc, hf, hparameters, hinputs, hsignals, signal_names_distinct c.tables.structs hparameters⟩

end ClockedC
