import ClockedC.Proofs.Scoping.Braces
import ClockedC.Proofs.Scoping.Lexical

/-!
# Scope as it is written

In the source text, a declaration is in scope up to the end of the block it stands in. The statements of a block that
only braces make stand in the list around it, so what they declare stays in sight there; and the elements of an array
are emitted where no local variable is in sight. Apart from these two, names are emitted as their scope tells.

* `source_scope` : where names are emitted as their scope tells;
* `source_scope_lost` : a function with both exceptions.
-/

namespace ClockedC

/-! ## Names in expressions -/

mutual

/-- The variables of an expression. -/
def Expr.names : Expr → List String
  | .number _ _ => []
  | .ident name _ => [name]
  | .field base _ _ => base.names
  | .element base index _ => base.names ++ index.names
  | .negate operand _ => operand.names
  | .binary _ left right _ => left.names ++ right.names
  | .unary _ operand _ => operand.names
  | .call _ args _ => Expr.namesAll args

/-- The variables of several expressions. -/
def Expr.namesAll : List Expr → List String
  | [] => []
  | e :: es => e.names ++ Expr.namesAll es

end

/-- The names in one of several expressions are among the names in all. -/
theorem Expr.mem_namesAll {es : List Expr} {e : Expr} {name : String} (he : e ∈ es) (hname : name ∈ e.names) :
    name ∈ Expr.namesAll es := by
  induction es with
  | nil => cases he
  | cons e' es ih =>
    rw [Expr.namesAll, List.mem_append]
    rcases List.mem_cons.1 he with rfl | he
    · exact .inl hname
    · exact .inr (ih he)

/-- Renaming depends on the new names of the variables of the expression alone. -/
theorem Expr.rename_congr {ρ ρ' : String → String} {e : Expr} (h : ∀ name ∈ e.names, ρ name = ρ' name) :
    e.rename ρ = e.rename ρ' := by
  induction e with
  | number text loc => rfl
  | ident name loc => rw [rename, rename, h name (List.mem_singleton_self name)]
  | field base name loc ih => rw [rename, rename, ih h]
  | element base index loc ihb ihi =>
    rw [names, List.forall_mem_append] at h
    rw [rename, rename, ihb h.1, ihi h.2]
  | negate operand loc ih => rw [rename, rename, ih h]
  | binary op left right loc ihl ihr =>
    rw [names, List.forall_mem_append] at h
    rw [rename, rename, ihl h.1, ihr h.2]
  | unary op operand loc ih => rw [rename, rename, ih h]
  | call name args loc ih =>
    rw [rename, rename, renameAll_eq_map, renameAll_eq_map]
    congr 1
    exact List.map_congr_left fun e he => ih e he fun name hname => h name (mem_namesAll he hname)

/-! ## Scope -/

/-- The names that a statement declares for the statements behind it: what a block declares ends with it. -/
def Braced.declares : Braced → List String
  | .plain s => s.declares
  | _ => []

mutual

/-- The statement with its variables renamed, where `declared` names are in scope. -/
def Braced.resolve (ρ : List String → String → String) (declared : List String) : Braced → Braced
  | .plain s => .plain (s.resolve ρ declared)
  | .block inner => .block (Braced.resolveAll ρ declared inner)
  | .branch condition body alternative loc =>
    .branch (condition.rename (ρ declared)) (Braced.resolveAll ρ declared body) (alternative.resolve ρ declared) loc
  | .whileLoop condition body loc => .whileLoop (condition.rename (ρ declared)) (Braced.resolveAll ρ declared body) loc
  | .forLoop start condition step body loc =>
    let inner := start.elim [] Statement.declares ++ declared
    .forLoop (start.map (Statement.resolve ρ declared)) (condition.map (Expr.rename (ρ inner)))
      (step.map (Assignment.rename (ρ inner))) (Braced.resolveAll ρ inner body) loc

/-- The remaining arms of a branch with their variables renamed. -/
def BracedAlternative.resolve (ρ : List String → String → String) (declared : List String) :
    BracedAlternative → BracedAlternative
  | .nothing => .nothing
  | .elseIf condition body alternative =>
    .elseIf (condition.rename (ρ declared)) (Braced.resolveAll ρ declared body) (alternative.resolve ρ declared)
  | .otherwise body => .otherwise (Braced.resolveAll ρ declared body)

/-- The statements of a list with their variables renamed: each declares for those behind it. -/
def Braced.resolveAll (ρ : List String → String → String) (declared : List String) : List Braced → List Braced
  | [] => []
  | b :: bs => b.resolve ρ declared :: Braced.resolveAll ρ (b.declares ++ declared) bs

end

mutual

/-- The names declared in blocks that only braces make. -/
def Braced.looseNames : Braced → List String
  | .plain _ => []
  | .block inner => (Braced.spliceAll inner).flatMap Statement.declares ++ Braced.looseNamesAll inner
  | .branch _ body alternative _ => Braced.looseNamesAll body ++ alternative.looseNames
  | .whileLoop _ body _ => Braced.looseNamesAll body
  | .forLoop _ _ _ body _ => Braced.looseNamesAll body

/-- The names declared in such blocks inside the remaining arms of a branch. -/
def BracedAlternative.looseNames : BracedAlternative → List String
  | .nothing => []
  | .elseIf _ body alternative => Braced.looseNamesAll body ++ alternative.looseNames
  | .otherwise body => Braced.looseNamesAll body

/-- The names declared in such blocks inside several statements. -/
def Braced.looseNamesAll : List Braced → List String
  | [] => []
  | b :: bs => b.looseNames ++ Braced.looseNamesAll bs

end

/-- The declarations of a statement without statements inside, with the names in scope. -/
def Statement.declarations (declared : List String) (s : Statement) : List (Variable × List String) :=
  s.locals.map fun decl => (decl, declared)

mutual

/-- The declarations inside a statement, in source order, each with the names in scope where it stands. -/
def Braced.declarations (declared : List String) : Braced → List (Variable × List String)
  | .plain s => s.declarations declared
  | .block inner => Braced.declarationsAll declared inner
  | .branch _ body alternative _ => Braced.declarationsAll declared body ++ alternative.declarations declared
  | .whileLoop _ body _ => Braced.declarationsAll declared body
  | .forLoop start _ _ body _ =>
    start.elim [] (Statement.declarations declared) ++
      Braced.declarationsAll (start.elim [] Statement.declares ++ declared) body

/-- The declarations inside the remaining arms of a branch. -/
def BracedAlternative.declarations (declared : List String) : BracedAlternative → List (Variable × List String)
  | .nothing => []
  | .elseIf _ body alternative => Braced.declarationsAll declared body ++ alternative.declarations declared
  | .otherwise body => Braced.declarationsAll declared body

/-- The declarations inside several statements. -/
def Braced.declarationsAll (declared : List String) : List Braced → List (Variable × List String)
  | [] => []
  | b :: bs => b.declarations declared ++ Braced.declarationsAll (b.declares ++ declared) bs

end

theorem Statement.map_fst_declarations (declared : List String) (s : Statement) :
    (s.declarations declared).map Prod.fst = s.locals := by
  rw [declarations, List.map_map]
  exact List.map_id _

mutual

/-- The variables declared in a statement are those of what it leaves in the list around it. -/
theorem Braced.map_fst_declarations (b : Braced) (declared : List String) :
    (b.declarations declared).map Prod.fst = Statement.localsOf b.splice := by
  cases b with
  | plain s =>
    rw [Braced.declarations, s.map_fst_declarations]
    exact (List.append_nil _).symm
  | block inner => exact Braced.map_fst_declarationsAll inner declared
  | branch condition body alternative loc =>
    rw [Braced.declarations, List.map_append, Braced.map_fst_declarationsAll body declared,
      alternative.map_fst_declarations declared]
    exact (List.append_nil _).symm
  | whileLoop condition body loc =>
    rw [Braced.declarations, Braced.map_fst_declarationsAll body declared]
    exact (List.append_nil _).symm
  | forLoop start condition step body loc =>
    rw [Braced.declarations, List.map_append, Braced.map_fst_declarationsAll body]
    cases start with
    | none => exact (List.append_nil _).symm
    | some start =>
      rw [Option.elim_some, start.map_fst_declarations]
      exact (List.append_nil _).symm

/-- The declarations in further arms are their local variables. -/
theorem BracedAlternative.map_fst_declarations (a : BracedAlternative) (declared : List String) :
    (a.declarations declared).map Prod.fst = a.splice.locals := by
  cases a with
  | nothing => rfl
  | elseIf condition body alternative =>
    rw [BracedAlternative.declarations, List.map_append, Braced.map_fst_declarationsAll body declared,
      alternative.map_fst_declarations declared]
    rfl
  | otherwise body => exact Braced.map_fst_declarationsAll body declared

/-- The declarations in statements with braces are those without the braces. -/
theorem Braced.map_fst_declarationsAll (bs : List Braced) (declared : List String) :
    (Braced.declarationsAll declared bs).map Prod.fst = Statement.localsOf (Braced.spliceAll bs) := by
  cases bs with
  | nil => rfl
  | cons b bs =>
    rw [Braced.declarationsAll, Braced.spliceAll, List.map_append, Statement.localsOf_append,
      b.map_fst_declarations declared, Braced.map_fst_declarationsAll bs]

end

/-! ## Statements -/

theorem Signals.behindAll_verbatim (ss : List Statement) : verbatim.behindAll ss = verbatim := by
  induction ss with
  | nil => rfl
  | cons s ss ih =>
    show (verbatim.behind s).behindAll ss = verbatim
    rw [behind_verbatim, ih]

/-- Declarations of names that have no signal of their own bring nothing into sight. -/
theorem Signals.behindAll_eq_self {signals : Signals} {ss : List Statement}
    (h : ∀ name ∈ ss.flatMap Statement.declares, signals.shadow? name = none) : signals.behindAll ss = signals := by
  induction ss with
  | nil => rfl
  | cons s ss ih =>
    rw [List.flatMap_cons, List.forall_mem_append] at h
    have hs : signals.behind s = signals := by
      cases s with
      | declare decl =>
        have hnone := h.1 decl.name (List.mem_singleton_self _)
        exact if_neg fun hnew => by simp [hnone] at hnew
      | _ => rfl
    show (signals.behind s).behindAll ss = signals
    rw [hs, ih h.2]

/-- Statements in two parts are emitted in turn. -/
theorem fst_run_append (layouts : Layouts) (type : DataType) (ss ts : List Statement) (signals : Signals) :
    ((hardwareStatements layouts type (ss ++ ts)).run signals).1 =
      ((hardwareStatements layouts type ss).run signals).1 ++
        ((hardwareStatements layouts type ts).run (signals.behindAll ss)).1 := by
  induction ss generalizing signals with
  | nil => rfl
  | cons s ss ih =>
    rw [List.cons_append, fst_run_cons, fst_run_cons, ih, List.append_assoc]
    rfl

section Statements

variable (layouts : Layouts) (type : DataType) {f : Function}

/-- What stays in sight behind a statement is what stays in scope, unless a block declares the name of a parameter. -/
theorem Function.Sees.behindSplice {declared : List String} {signals : Signals} (h : f.Sees declared signals)
    {b : Braced} (hloose : ∀ name ∈ b.looseNames, name ∉ f.parameters.map (·.name)) :
    f.Sees (b.declares ++ declared) (signals.behindAll b.splice) := by
  cases b with
  | plain s => exact h.behind s
  | block inner =>
    have hself : signals.behindAll (Braced.spliceAll inner) = signals := by
      apply Signals.behindAll_eq_self
      intro name hname
      rw [h.shadow?_eq, Option.eq_none_iff_forall_ne_some]
      intro shadow hshadow
      -- only the name of a parameter has a signal of its own
      have hsome : ((Signals.ofFunction f).shadow? name).isSome := by rw [hshadow]; rfl
      exact hloose name (List.mem_append_left _ hname) (((Signals.Separates.ofFunction f).shadow_iff name).1 hsome).2
    rw [Braced.splice, hself]
    exact h
  | _ => exact h

mutual

/-- A statement is emitted as the statement resolved by its scope, unless a block declares the name of a parameter. -/
theorem fst_run_resolveBraced (b : Braced) {declared : List String} {signals : Signals}
    (hloose : ∀ name ∈ b.looseNames, name ∉ f.parameters.map (·.name)) (h : f.Sees declared signals) :
    ((hardwareStatements layouts type (b.resolve f.signalAt declared).splice).run .verbatim).1 =
      ((hardwareStatements layouts type b.splice).run signals).1 := by
  cases b with
  | plain s =>
    rw [Braced.resolve, Braced.splice, Braced.splice, fst_run_singleton, fst_run_singleton, fst_run_resolve _ _ s h]
  | block inner =>
    exact fst_run_resolveAllBraced inner (fun name hname => hloose name (List.mem_append_right _ hname)) h
  | branch condition body alternative loc =>
    rw [Braced.looseNames, List.forall_mem_append] at hloose
    rw [Braced.resolve, Braced.splice, Braced.splice, fst_run_singleton, fst_run_singleton,
      run_branch (run_block _ .verbatim) (run_hardwareArms _ .verbatim),
      run_branch (run_block _ signals) (run_hardwareArms _ signals), hardwareCondition_rename h.renames,
      fst_run_resolveAllBraced body hloose.1 h, fst_run_resolveBracedArms alternative hloose.2 h]
  | whileLoop condition body loc =>
    rw [Braced.resolve, Braced.splice, Braced.splice, fst_run_singleton, fst_run_singleton,
      run_whileLoop (run_block _ .verbatim), run_whileLoop (run_block _ signals), hardwareCondition_rename h.renames,
      fst_run_resolveAllBraced body hloose h]
  | forLoop start condition step body loc =>
    have hinner : f.Sees (start.elim [] Statement.declares ++ declared) (signals.behindStart start) := by
      cases start with
      | none => exact h
      | some start => exact h.behind start
    have hstart : startStatements layouts type .verbatim (start.map (Statement.resolve f.signalAt declared)) =
        startStatements layouts type signals start := by
      cases start with
      | none => rfl
      | some start => exact fst_run_resolve layouts type start h
    rw [Braced.resolve, Braced.splice, Braced.splice, fst_run_singleton, fst_run_singleton, fst_run_forLoop,
      fst_run_forLoop, Signals.behindStart_verbatim, hstart, loopCondition_rename hinner.renames,
      hardwareStep_rename hinner.renames, fst_run_resolveAllBraced body hloose hinner]

/-- Further arms are emitted as their scope tells, if braces alone declare no parameter anew. -/
theorem fst_run_resolveBracedArms (a : BracedAlternative) {declared : List String} {signals : Signals}
    (hloose : ∀ name ∈ a.looseNames, name ∉ f.parameters.map (·.name)) (h : f.Sees declared signals) :
    ((hardwareArms layouts type (a.resolve f.signalAt declared).splice).run .verbatim).1 =
      ((hardwareArms layouts type a.splice).run signals).1 := by
  cases a with
  | nothing => rfl
  | elseIf condition body alternative =>
    rw [BracedAlternative.looseNames, List.forall_mem_append] at hloose
    rw [BracedAlternative.resolve, BracedAlternative.splice, BracedAlternative.splice,
      run_elseIf (run_block _ .verbatim) (run_hardwareArms _ .verbatim),
      run_elseIf (run_block _ signals) (run_hardwareArms _ signals), hardwareCondition_rename h.renames,
      fst_run_resolveAllBraced body hloose.1 h, fst_run_resolveBracedArms alternative hloose.2 h]
  | otherwise body =>
    rw [BracedAlternative.resolve, BracedAlternative.splice, BracedAlternative.splice,
      run_otherwise (run_block _ .verbatim), run_otherwise (run_block _ signals),
      fst_run_resolveAllBraced body hloose h]

/-- Statements are emitted as their scope tells, if braces alone declare no parameter anew. -/
theorem fst_run_resolveAllBraced (bs : List Braced) {declared : List String} {signals : Signals}
    (hloose : ∀ name ∈ Braced.looseNamesAll bs, name ∉ f.parameters.map (·.name)) (h : f.Sees declared signals) :
    ((hardwareStatements layouts type (Braced.spliceAll (Braced.resolveAll f.signalAt declared bs))).run .verbatim).1 =
      ((hardwareStatements layouts type (Braced.spliceAll bs)).run signals).1 := by
  cases bs with
  | nil => rfl
  | cons b bs =>
    rw [Braced.looseNamesAll, List.forall_mem_append] at hloose
    rw [Braced.resolveAll, Braced.spliceAll, Braced.spliceAll, fst_run_append, fst_run_append,
      Signals.behindAll_verbatim, fst_run_resolveBraced b hloose.1 h,
      fst_run_resolveAllBraced bs hloose.2 (h.behindSplice hloose.1)]

end

end Statements

/-! ## Declarations -/

/-- The variables in the elements of an array. -/
def Variable.elementNames (decl : Variable) : List String :=
  match decl.init with
  | some (.elements values) => Expr.namesAll values
  | _ => []

/-- No element of the array names a parameter that a local variable in scope takes the name of. A declaration is in
scope in its own first value. -/
def Function.ElementsClear (f : Function) (declared : List String) (decl : Variable) : Prop :=
  ∀ name ∈ decl.elementNames, name ∈ f.parameters.map (·.name) → name ∉ decl.name :: declared

instance (f : Function) (declared : List String) (decl : Variable) : Decidable (f.ElementsClear declared decl) :=
  inferInstanceAs (Decidable (∀ name ∈ decl.elementNames, name ∈ f.parameters.map (·.name) →
    name ∉ decl.name :: declared))

/-- A local variable is resolved to its own signal. -/
theorem Function.signalAt_of_mem (f : Function) {declared : List String} {name : String} (h : name ∈ declared) :
    f.signalAt declared name = (Signals.ofFunction f).localSignal name := by
  unfold signalAt
  split
  · rfl
  · next hnot =>
    rcases Signals.Separates.localSignal_cases (Signals.ofFunction f) name with hshadow | ⟨-, houter⟩
    · have hsome : ((Signals.ofFunction f).shadow? name).isSome := by rw [hshadow]; rfl
      exact absurd ⟨(((Signals.Separates.ofFunction f).shadow_iff name).1 hsome).2, h⟩ hnot
    · exact houter.symm

/-- A signal is declared as its resolved declaration says, unless an element names a parameter that gives way. -/
theorem hardwareDeclaration_resolved {f : Function} {declared : List String} {decl : Variable}
    (h : f.ElementsClear declared decl) :
    hardwareDeclaration (Signals.ofFunction f) decl =
      hardwareDeclaration .verbatim (decl.rename (f.signalAt (decl.name :: declared))) := by
  have hname : Signals.verbatim.localSignal (f.signalAt (decl.name :: declared) decl.name) =
      (Signals.ofFunction f).localSignal decl.name := by
    rw [f.signalAt_of_mem List.mem_cons_self, Signals.localSignal_verbatim (not_isReserved_localSignal f decl.name)]
  obtain ⟨name, type, length, init, loc⟩ := decl
  rw [hardwareDeclaration_eq, hardwareDeclaration_eq]
  simp only [Variable.rename, hname]
  cases length with
  | none => rfl
  | some length =>
    refine congrArg (Vhdl.Declaration.array _ _ _) (Eq.symm ?_)
    have hcontents := hardwareContents_rename (Function.Sees.ofFunction f).renames type length init
    rcases init with _ | value | values | values
    · rfl
    · rfl
    · have hvalues : values.map (Expr.rename (f.signalAt (name :: declared))) =
          values.map (Expr.rename (f.signalAt [])) := by
        refine List.map_congr_left fun e he => Expr.rename_congr fun x hx => ?_
        have hclear := h x (Expr.mem_namesAll he hx)
        rw [Function.signalAt, Function.signalAt, if_neg fun hx => hclear hx.1 hx.2, if_neg (by simp)]
      rw [Option.map_some, Initializer.rename] at hcontents ⊢
      rw [hvalues, hcontents]
    · rfl

/-! ## Source texts -/

/-- In a function of a source text that is compiled, names are emitted as the scope of the declarations in the text
tells: in statements if no block that only braces make declares the name of a parameter, and in the elements of an
array if none of them names a parameter that a local variable in scope takes the name of. -/
theorem source_scope {source : String} {c : Compilation} {f : Function} (h : (compile source).outcome = .ok c)
    (hf : f ∈ c.program.functions) :
    (∃ tree, f.ReadAs source tree) ∧ ∀ tree, f.ReadAs source tree →
      ((∀ name ∈ Braced.looseNamesAll tree, name ∉ f.parameters.map (·.name)) →
        (hardwareEntity c.tables.structs f).body = ((hardwareBlock c.tables.structs f.result
          (Braced.spliceAll (Braced.resolveAll f.signalAt [] tree))).run .verbatim).1) ∧
      (hardwareEntity c.tables.structs f).signals =
        (firstDeclarations [] f.locals).map (hardwareDeclaration (Signals.ofFunction f)) ∧
      (Braced.declarationsAll [] tree).map Prod.fst = f.locals ∧
      ∀ decl declared, (decl, declared) ∈ Braced.declarationsAll [] tree → f.ElementsClear declared decl →
        hardwareDeclaration (Signals.ofFunction f) decl =
          hardwareDeclaration .verbatim (decl.rename (f.signalAt (decl.name :: declared))) := by
  refine ⟨Function.exists_readAs h hf, ?_⟩
  intro tree htree
  refine ⟨?_, hardwareEntity_signals c.tables.structs f, ?_, ?_⟩
  · intro hloose
    rw [hardwareEntity_body, hardwareBlock, run_block, ← htree.spliceAll_eq,
      fst_run_resolveAllBraced _ _ tree hloose (.ofFunction f)]
  · rw [Braced.map_fst_declarationsAll, htree.spliceAll_eq]
    rfl
  · intro decl declared _ hclear
    exact hardwareDeclaration_resolved hclear

/-- The texts of the lines of sequential statements. -/
def Vhdl.Stmt.texts (ss : List Vhdl.Stmt) : List String := (Vhdl.Stmt.linesOf 0 ss).map (·.text)

/-- The texts of the lines of declarations. -/
def Vhdl.Declaration.texts (decls : List Vhdl.Declaration) : List String :=
  (decls.flatMap Vhdl.Declaration.lines).map (·.text)

/-- A function with a block that only braces make, an array of parameters, and parameters that give way to local
variables in a branch and in a `for` loop. -/
def scopedSource : String :=
  "int f(int a, int b) \x7b int t[2] = \x7ba, b\x7d; \x7b int u = a; t[0] = u; \x7d " ++
    "if (b) \x7b int a = 1; t[1] = a; \x7d for (int b = a; b < 2; b++) t[0] = b; return a + b; \x7d"

/-- The lines of the body of the entity of that function. -/
def scopedLines : List String :=
  ["u <= a;", "t(0) <= u;", "if unsigned(b) /= 0 then", "a_local <= 1;", "t(1) <= a_local;", "end if;",
    "b_local <= a;", "while unsigned(b_local) < to_unsigned(2, 32) loop", "t(0) <= b_local;", "b_local <= b_local + 1;",
    "end loop;", "result <= a + b;"]

theorem source_scope_scopedSource :
    ∃ c f tree, (compile scopedSource).outcome = .ok c ∧ f ∈ c.program.functions ∧ f.ReadAs scopedSource tree ∧
      Vhdl.Stmt.texts (hardwareEntity c.tables.structs f).body = scopedLines ∧
      (hardwareEntity c.tables.structs f).body = ((hardwareBlock c.tables.structs f.result
        (Braced.spliceAll (Braced.resolveAll f.signalAt [] tree))).run .verbatim).1 ∧
      ∀ decl declared, (decl, declared) ∈ Braced.declarationsAll [] tree →
        hardwareDeclaration (Signals.ofFunction f) decl =
          hardwareDeclaration .verbatim (decl.rename (f.signalAt (decl.name :: declared))) := by
  have hchecked : (compile scopedSource).outcome.toOption.any fun c =>
      (Reader.ofSource scopedSource).toOption.any fun r =>
        r.beginsFunction && r.bracedFunction?.any fun read =>
          Vhdl.Stmt.texts (hardwareEntity c.tables.structs read.1).body = scopedLines ∧
            (∀ name ∈ Braced.looseNamesAll read.2, name ∉ read.1.parameters.map (·.name)) ∧
            ∀ decl ∈ Braced.declarationsAll [] read.2, read.1.ElementsClear decl.2 decl.1 := by decide +kernel
  obtain ⟨c, f, tree, hc, hf, htree, hfacts⟩ := exists_readAs_of_any hchecked
  obtain ⟨hlines, hloose, hclear⟩ := of_decide_eq_true hfacts
  obtain ⟨hbody, -, -, hdeclarations⟩ := (source_scope hc hf).2 tree htree
  exact ⟨c, f, tree, hc, hf, htree, hlines, hbody hloose, fun decl declared hdecl =>
    hdeclarations decl declared hdecl (hclear _ hdecl)⟩

/-- A function that uses its parameter behind a block that only braces make and inside of which a local variable has
the name of the parameter. -/
def bareBlockSource : String := "int f(int a)\x7b\x7bint a=1;int b[2]=\x7ba,0\x7d;\x7dreturn a;\x7d"

/-- The local variable stays in sight behind its block, and it is not in sight in the elements of an array. -/
theorem source_scope_lost :
    ∃ c f tree, (compile bareBlockSource).outcome = .ok c ∧ f ∈ c.program.functions ∧ f.ReadAs bareBlockSource tree ∧
      Vhdl.Stmt.texts (hardwareEntity c.tables.structs f).body = ["a_local <= 1;", "result <= a_local;"] ∧
      Vhdl.Stmt.texts ((hardwareBlock c.tables.structs f.result
        (Braced.spliceAll (Braced.resolveAll f.signalAt [] tree))).run .verbatim).1 =
          ["a_local <= 1;", "result <= a;"] ∧
      "constant b_init : b_type := (a, \"00000000000000000000000000000000\");" ∈
        Vhdl.Declaration.texts (hardwareEntity c.tables.structs f).signals ∧
      "constant b_init : b_type := (a_local, \"00000000000000000000000000000000\");" ∈
        Vhdl.Declaration.texts ((Braced.declarationsAll [] tree).map fun decl =>
          hardwareDeclaration .verbatim (decl.1.rename (f.signalAt (decl.1.name :: decl.2)))) := by
  have hchecked : (compile bareBlockSource).outcome.toOption.any fun c =>
      (Reader.ofSource bareBlockSource).toOption.any fun r =>
        r.beginsFunction && r.bracedFunction?.any fun read =>
          Vhdl.Stmt.texts (hardwareEntity c.tables.structs read.1).body = ["a_local <= 1;", "result <= a_local;"] ∧
            Vhdl.Stmt.texts ((hardwareBlock c.tables.structs read.1.result
              (Braced.spliceAll (Braced.resolveAll read.1.signalAt [] read.2))).run .verbatim).1 =
                ["a_local <= 1;", "result <= a;"] ∧
            "constant b_init : b_type := (a, \"00000000000000000000000000000000\");" ∈
              Vhdl.Declaration.texts (hardwareEntity c.tables.structs read.1).signals ∧
            "constant b_init : b_type := (a_local, \"00000000000000000000000000000000\");" ∈
              Vhdl.Declaration.texts ((Braced.declarationsAll [] read.2).map fun decl =>
                hardwareDeclaration .verbatim (decl.1.rename (read.1.signalAt (decl.1.name :: decl.2)))) := by
    decide +kernel
  obtain ⟨c, f, tree, hc, hf, htree, hfacts⟩ := exists_readAs_of_any hchecked
  exact ⟨c, f, tree, hc, hf, htree, of_decide_eq_true hfacts⟩

end ClockedC
