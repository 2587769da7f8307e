import ClockedC.Proofs.Hardware.DistinctNames
import ClockedC.Proofs.Scoping.Renaming

/-!
# Lexical scope

A local variable with the name of a parameter has a signal of its own. Which of the two a name stands for follows from
the declarations before it in the list of statements around it, in the header of a `for` loop around it, or in a list
or header further out. Replacing every variable by its signal in this way leaves statements that are emitted word for
word.

* `lexical_scope` : the body of an entity is that of the resolved statements.
-/

namespace ClockedC

/-! ## Resolving names -/

/-- The names that a statement declares for the statements behind it. -/
def Statement.declares : Statement → List String
  | .declare decl => [decl.name]
  | _ => []

mutual

/-- The statement with its variables renamed, where `declared` names are in scope. A declaration is in scope in its own
first value; what the header of a `for` loop declares is in scope in the loop. -/
def Statement.resolve (ρ : List String → String → String) (declared : List String) : Statement → Statement
  | .declare decl => .declare (decl.rename (ρ (decl.name :: declared)))
  | .assign assignment => .assign (assignment.rename (ρ declared))
  | .branch condition body alternative loc =>
    .branch (condition.rename (ρ declared)) (Statement.resolveAll ρ declared body) (alternative.resolve ρ declared) loc
  | .whileLoop condition body loc =>
    .whileLoop (condition.rename (ρ declared)) (Statement.resolveAll ρ declared body) loc
  | .forLoop none condition step body loc =>
    .forLoop none (condition.map (Expr.rename (ρ declared))) (step.map (Assignment.rename (ρ declared)))
      (Statement.resolveAll ρ declared body) loc
  | .forLoop (some start) condition step body loc =>
    let inner := start.declares ++ declared
    .forLoop (some (start.resolve ρ declared)) (condition.map (Expr.rename (ρ inner)))
      (step.map (Assignment.rename (ρ inner))) (Statement.resolveAll ρ inner body) loc
  | .giveBack value loc => .giveBack (value.map (Expr.rename (ρ declared))) loc
  | .leaveLoop loc => .leaveLoop loc
  | .nextRound loc => .nextRound loc
  | .evaluate value => .evaluate (value.rename (ρ declared))

/-- The remaining arms of a branch with their variables renamed. -/
def Alternative.resolve (ρ : List String → String → String) (declared : List String) : Alternative → Alternative
  | .nothing => .nothing
  | .elseIf condition body alternative =>
    .elseIf (condition.rename (ρ declared)) (Statement.resolveAll ρ declared body) (alternative.resolve ρ declared)
  | .otherwise body => .otherwise (Statement.resolveAll ρ declared body)

/-- The statements of a list with their variables renamed: each declares for those behind it. -/
def Statement.resolveAll (ρ : List String → String → String) (declared : List String) :
    List Statement → List Statement
  | [] => []
  | s :: ss => s.resolve ρ declared :: Statement.resolveAll ρ (s.declares ++ declared) ss

end

/-- The signal of a variable of a function where `declared` names are in scope: a parameter whose name is declared again
gives way to the local variable. -/
def Function.signalAt (f : Function) (declared : List String) (name : String) : String :=
  if name ∈ f.parameters.map (·.name) ∧ name ∈ declared then (Signals.ofFunction f).localSignal name
  else (Signals.ofFunction f).outer name

/-! ## Names that are emitted word for word -/

namespace Signals

/-- No variable has a replacement. -/
def verbatim : Signals := {}

/-- A name that is not reserved is emitted word for word. -/
theorem signal_verbatim {name : String} (h : ¬ isReserved name) : verbatim.signal name = name :=
  (if_neg List.not_mem_nil).trans (if_neg h)

theorem localSignal_verbatim {name : String} (h : ¬ isReserved name) : verbatim.localSignal name = name :=
  signal_verbatim h

/-- Emitting word for word brings nothing into sight. -/
theorem behind_verbatim (s : Statement) : verbatim.behind s = verbatim := by
  cases s <;> rfl

theorem behindStart_verbatim (start : Option Statement) : verbatim.behindStart start = verbatim := by
  cases start with
  | none => rfl
  | some s => exact behind_verbatim s

end Signals

/-- No variable has the signal of a port that every entity has. -/
theorem not_isReserved_outer (f : Function) (name : String) : ¬ isReserved ((Signals.ofFunction f).outer name) := by
  have hseparates := Signals.Separates.ofFunction f
  rw [isReserved, decide_eq_true_eq, Signals.outer]
  split
  · next hlookup => exact (hseparates.fixed_not_mem _ (List.mem_map_of_mem (mem_of_lookup hlookup))).2
  · split
    · exact candidateName_not_mem_reservedPorts name 0
    · next hfree => simpa [isReserved] using hfree

/-- The signal of a local variable is not reserved. -/
theorem not_isReserved_localSignal (f : Function) (name : String) :
    ¬ isReserved ((Signals.ofFunction f).localSignal name) := by
  rcases Signals.Separates.localSignal_cases (Signals.ofFunction f) name with hshadow | ⟨-, houter⟩
  · have hnew := (Signals.Separates.ofFunction f).shadow_not_mem _ (List.mem_map_of_mem (mem_of_lookup hshadow))
    simpa [isReserved] using hnew.2.2
  · rw [houter]
    exact not_isReserved_outer f name

/-- No signal of a variable is reserved. -/
theorem Function.not_isReserved_signalAt (f : Function) (declared : List String) (name : String) :
    ¬ isReserved (f.signalAt declared name) := by
  unfold signalAt
  split
  · exact not_isReserved_localSignal f name
  · exact not_isReserved_outer f name

/-! ## What is in sight -/

/-- Where `declared` names are in scope, those of them that have a signal of their own are in sight. -/
structure Function.Sees (f : Function) (declared : List String) (signals : Signals) : Prop where
  sameNames : (Signals.ofFunction f).SameNames signals
  active : ∀ name, name ∈ signals.active ↔ name ∈ declared ∧ ((Signals.ofFunction f).shadow? name).isSome

namespace Function.Sees

variable {f : Function} {declared : List String} {signals : Signals}

theorem ofFunction (f : Function) : f.Sees [] (Signals.ofFunction f) := ⟨.refl _, by simp [Signals.ofFunction]⟩

/-- What is in sight does not change which names are replaced. -/
theorem shadow?_eq (h : f.Sees declared signals) (name : String) :
    signals.shadow? name = (Signals.ofFunction f).shadow? name := by
  rw [Signals.shadow?, Signals.shadow?, h.sameNames.shadows]

theorem outer_eq (h : f.Sees declared signals) (name : String) :
    signals.outer name = (Signals.ofFunction f).outer name := by
  rw [Signals.outer, Signals.outer, h.sameNames.fixed]

/-- A declaration comes into sight where it comes into scope. -/
theorem declare (h : f.Sees declared signals) (name : String) : f.Sees (name :: declared) (signals.declare name) where
  sameNames := h.sameNames.trans (.declare signals name)
  active := by
    intro other
    rw [Signals.declare, h.shadow?_eq]
    split
    · next hnew =>
      rw [List.mem_append, List.mem_singleton, h.active, List.mem_cons]
      constructor
      · rintro (⟨hother, hshadow⟩ | rfl)
        · exact ⟨.inr hother, hshadow⟩
        · exact ⟨.inl rfl, hnew.1⟩
      · rintro ⟨rfl | hother, hshadow⟩
        · exact .inr rfl
        · exact .inl ⟨hother, hshadow⟩
    · next hold =>
      rw [h.active, List.mem_cons]
      constructor
      · exact And.imp_left .inr
      · rintro ⟨rfl | hother, hshadow⟩
        · -- the name was in sight before
          exact (h.active other).1 (not_not.1 fun hmem => hold ⟨hshadow, hmem⟩)
        · exact ⟨hother, hshadow⟩

theorem behind (h : f.Sees declared signals) (s : Statement) : f.Sees (s.declares ++ declared) (signals.behind s) := by
  cases s with
  | declare decl => exact h.declare decl.name
  | _ => exact h

/-- A name stands for the signal that the declarations in scope give it. -/
theorem signal_eq (h : f.Sees declared signals) (name : String) : signals.signal name = f.signalAt declared name := by
  have hseparates := Signals.Separates.ofFunction f
  rw [Signals.signal, Function.signalAt, h.shadow?_eq, h.outer_eq, Signals.localSignal, signal_ofFunction]
  by_cases hdeclared : name ∈ declared
  · cases hshadow : (Signals.ofFunction f).shadow? name with
    | none => simp
    | some shadow =>
      have hsome : ((Signals.ofFunction f).shadow? name).isSome := by rw [hshadow]; rfl
      rw [if_pos ((h.active name).2 ⟨hdeclared, hsome⟩), if_pos ⟨((hseparates.shadow_iff name).1 hsome).2, hdeclared⟩]
  · rw [if_neg fun hmem => hdeclared ((h.active name).1 hmem).1, if_neg fun hmem => hdeclared hmem.2]

/-- So the resolved name is emitted word for word. -/
theorem renames (h : f.Sees declared signals) : signals.Renames (f.signalAt declared) Signals.verbatim := by
  intro name
  rw [Signals.signal_verbatim (f.not_isReserved_signalAt declared name), h.signal_eq]

end Function.Sees

/-! ## Emission -/

section Emission

variable (layouts : Layouts) (type : DataType) {f : Function}

mutual

/-- A statement is emitted as the resolved statement word for word. -/
theorem fst_run_resolve (s : Statement) {declared : List String} {signals : Signals} (h : f.Sees declared signals) :
    ((hardwareStatement layouts type (s.resolve f.signalAt declared)).run .verbatim).1 =
      ((hardwareStatement layouts type s).run signals).1 := by
  cases s with
  | declare decl =>
    rw [Statement.resolve, run_declare, run_declare]
    exact hardwareInitializer_rename (h.declare decl.name).renames layouts decl
  | assign assignment => rw [Statement.resolve, run_assign, run_assign, hardwareAssignment_rename h.renames]
  | branch condition body alternative loc =>
    rw [Statement.resolve, run_branch (run_block _ .verbatim) (run_hardwareArms _ .verbatim),
      run_branch (run_block body signals) (run_hardwareArms alternative signals), hardwareCondition_rename h.renames,
      fst_run_resolveAll body h, fst_run_resolveArms alternative h]
  | whileLoop condition body loc =>
    rw [Statement.resolve, run_whileLoop (run_block _ .verbatim), run_whileLoop (run_block body signals),
      hardwareCondition_rename h.renames, fst_run_resolveAll body h]
  | forLoop start condition step body loc =>
    cases start with
    | none =>
      rw [Statement.resolve, fst_run_forLoop, fst_run_forLoop]
      simp only [Signals.behindStart, Option.elim, startStatements, loopCondition_rename h.renames,
        hardwareStep_rename h.renames, fst_run_resolveAll body h]
    | some start =>
      -- what the start declares is in scope in the rest of the loop
      have hinner := h.behind start
      rw [Statement.resolve, fst_run_forLoop, fst_run_forLoop, Signals.behindStart_verbatim]
      simp only [Signals.behindStart, Option.elim, startStatements, loopCondition_rename hinner.renames,
        hardwareStep_rename hinner.renames, fst_run_resolve start h, fst_run_resolveAll body hinner]
  | giveBack value loc =>
    cases value with
    | none => rfl
    | some e => rw [Statement.resolve, Option.map_some, run_giveBack, run_giveBack, hardwareReturn_rename h.renames]
  | leaveLoop loc => rfl
  | nextRound loc => rfl
  | evaluate value => rw [Statement.resolve, run_evaluate, run_evaluate, hardwareExpr_rename h.renames]

/-- Further arms whose variables are replaced by their signals are emitted word for word. -/
theorem fst_run_resolveArms (alternative : Alternative) {declared : List String} {signals : Signals}
    (h : f.Sees declared signals) :
    ((hardwareArms layouts type (alternative.resolve f.signalAt declared)).run .verbatim).1 =
      ((hardwareArms layouts type alternative).run signals).1 := by
  cases alternative with
  | nothing => rfl
  | elseIf condition body rest =>
    rw [Alternative.resolve, run_elseIf (run_block _ .verbatim) (run_hardwareArms _ .verbatim),
      run_elseIf (run_block body signals) (run_hardwareArms rest signals), hardwareCondition_rename h.renames,
      fst_run_resolveAll body h, fst_run_resolveArms rest h]
  | otherwise body =>
    rw [Alternative.resolve, run_otherwise (run_block _ .verbatim), run_otherwise (run_block body signals),
      fst_run_resolveAll body h]

/-- Statements whose variables are replaced by their signals are emitted word for word. -/
theorem fst_run_resolveAll (ss : List Statement) {declared : List String} {signals : Signals}
    (h : f.Sees declared signals) :
    ((hardwareStatements layouts type (Statement.resolveAll f.signalAt declared ss)).run .verbatim).1 =
      ((hardwareStatements layouts type ss).run signals).1 := by
  cases ss with
  | nil => rfl
  | cons s ss =>
    rw [Statement.resolveAll, fst_run_cons, fst_run_cons, Signals.behind_verbatim, fst_run_resolve s h,
      fst_run_resolveAll ss (h.behind s)]

end

/-- The body of the entity of a function is emitted from its resolved statements word for word. -/
theorem body_hardwareEntity (layouts : Layouts) (f : Function) :
    (hardwareEntity layouts f).body =
      ((hardwareBlock layouts f.result (Statement.resolveAll f.signalAt [] f.body)).run .verbatim).1 := by
  rw [hardwareEntity_body, hardwareBlock, run_block, fst_run_resolveAll _ _ f.body (.ofFunction f)]

end Emission

/-! ## Scope and sight -/

/-- A local variable with the name of a parameter has a signal of its own. -/
theorem shadow?_ofFunction {f : Function} {name : String} (hparameter : name ∈ f.parameters.map (·.name))
    (hlocal : name ∈ f.locals.map (·.name)) :
    (Signals.ofFunction f).shadow? name = some ((Signals.ofFunction f).localSignal name) ∧
      (Signals.ofFunction f).localSignal name ≠ (Signals.ofFunction f).outer name := by
  have hseparates := Signals.Separates.ofFunction f
  obtain ⟨shadow, hshadow⟩ := Option.isSome_iff_exists.1 ((hseparates.shadow_iff name).2 ⟨hlocal, hparameter⟩)
  have hsignal : (Signals.ofFunction f).localSignal name = shadow := by
    rw [Signals.localSignal, hshadow, Option.getD_some]
  rw [hsignal]
  exact ⟨hshadow, hseparates.shadow_ne_outer hshadow (List.mem_append_left _ hparameter)⟩

/-- Every name in the body of a function is emitted as its lexical scope tells: as the signal of the local variable if
it is the name of a parameter and a declaration of it is in scope, and as everywhere else otherwise. Blocks and `for`
loops leave in sight what was in sight before them. -/
theorem lexical_scope (layouts : Layouts) (f : Function) :
    (hardwareEntity layouts f).body =
        ((hardwareBlock layouts f.result (Statement.resolveAll f.signalAt [] f.body)).run .verbatim).1 ∧
      (∀ declared name loc, hardwareExpr .verbatim ((Expr.ident name loc).rename (f.signalAt declared)) =
        .name (if name ∈ f.parameters.map (·.name) ∧ name ∈ declared then (Signals.ofFunction f).localSignal name
          else (Signals.ofFunction f).outer name)) ∧
      (∀ name ∈ f.parameters.map (·.name), name ∈ f.locals.map (·.name) →
        (Signals.ofFunction f).shadow? name = some ((Signals.ofFunction f).localSignal name) ∧
          (Signals.ofFunction f).localSignal name ≠ (Signals.ofFunction f).outer name) ∧
      (∀ ss signals, ((hardwareBlock layouts f.result ss).run signals).2 = signals) ∧
      ∀ start condition step body loc signals,
        ((hardwareStatement layouts f.result (.forLoop start condition step body loc)).run signals).2 = signals := by
  refine ⟨body_hardwareEntity layouts f, ?_, ?_, ?_, ?_⟩
  · intro declared name loc
    exact congrArg Vhdl.Expr.name (Signals.signal_verbatim (f.not_isReserved_signalAt declared name))
  · intro name hparameter hlocal
    exact shadow?_ofFunction hparameter hlocal
  · intro ss signals
    rw [hardwareBlock, run_block]
  · intro start condition step body loc signals
    exact snd_run_hardwareStatement ..

/-- A function whose local variables take over the names of its parameters in a branch and in a `for` loop. -/
def shadowingSource : String :=
  "int f(int a, int b) \x7b int s = a; if (b) \x7b s = a; int a = a + 1; s = a; \x7d " ++
    "for (int b = a; b < 9; b++) \x7b int a = b; s = a; \x7d s = a + b; return s; \x7d"

/-- The lines of the body of the entity of that function. -/
def shadowingLines : List String :=
  ["s <= a;", "if unsigned(b) /= 0 then", "s <= a;", "a_local <= a_local + 1;", "s <= a_local;", "end if;",
    "b_local <= a;", "while unsigned(b_local) < to_unsigned(9, 32) loop", "a_local <= b_local;", "s <= a_local;",
    "b_local <= b_local + 1;", "end loop;", "s <= a + b;", "result <= s;"]

theorem lexical_scope_shadowingSource :
    ∃ c f, (compile shadowingSource).outcome = .ok c ∧ c.program.functions[0]? = some f ∧
      (Vhdl.Stmt.linesOf 0 (hardwareEntity c.tables.structs f).body).map (·.text) = shadowingLines ∧
      (hardwareEntity c.tables.structs f).body = ((hardwareBlock c.tables.structs f.result
        (Statement.resolveAll f.signalAt [] f.body)).run .verbatim).1 ∧
      (Signals.ofFunction f).shadow? "a" = some ((Signals.ofFunction f).localSignal "a") ∧
      (Signals.ofFunction f).localSignal "a" ≠ (Signals.ofFunction f).outer "a" := by
  have hchecked : (compile shadowingSource).outcome.toOption.any fun c =>
      c.program.functions[0]?.any fun f =>
        (Vhdl.Stmt.linesOf 0 (hardwareEntity c.tables.structs f).body).map (·.text) = shadowingLines ∧
          "a" ∈ f.parameters.map (·.name) ∧ "a" ∈ f.locals.map (·.name) := by decide +kernel
  obtain ⟨c, f, hc, hf, hfacts⟩ := exists_function_of_any hchecked
  obtain ⟨hlines, hparameter, hlocal⟩ := of_decide_eq_true hfacts
  obtain ⟨hbody, -, hshadow, -⟩ := lexical_scope c.tables.structs f
  exact ⟨c, f, hc, hf, hlines, hbody, hshadow "a" hparameter hlocal⟩

end ClockedC
