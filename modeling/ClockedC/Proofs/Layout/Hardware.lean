import ClockedC.Proofs.Hardware.Heads
import ClockedC.Proofs.Layout.Unlocated

/-!
# Hardware does not depend on locations

The design of a program is the design of the program placed nowhere, and what is reported about it is the same up
to locations.
-/

namespace ClockedC

/-! ## Local variables -/

@[simp] theorem Variable.name_unlocated (decl : Variable) : decl.unlocated.name = decl.name := rfl

mutual

theorem Statement.locals_unlocated (s : Statement) : s.unlocated.locals = s.locals.map Variable.unlocated := by
  cases s with
  | branch condition body alternative loc =>
    rw [Statement.unlocated, Statement.locals, Statement.locals, List.map_append,
      Statement.localsOf_unlocatedAll body, alternative.locals_unlocated]
  | whileLoop condition body loc => exact Statement.localsOf_unlocatedAll body
  | forLoop start condition step body loc =>
    cases start with
    | none => exact Statement.localsOf_unlocatedAll body
    | some start =>
      rw [Statement.unlocated, Statement.locals, Statement.locals, List.map_append,
        start.locals_unlocated, Statement.localsOf_unlocatedAll body]
  | _ => rfl

theorem Alternative.locals_unlocated (a : Alternative) :
    a.unlocated.locals = a.locals.map Variable.unlocated := by
  cases a with
  | nothing => rfl
  | elseIf condition body alternative =>
    rw [Alternative.unlocated, Alternative.locals, Alternative.locals, List.map_append,
      Statement.localsOf_unlocatedAll body, alternative.locals_unlocated]
  | otherwise body => exact Statement.localsOf_unlocatedAll body

theorem Statement.localsOf_unlocatedAll (ss : List Statement) :
    Statement.localsOf (Statement.unlocatedAll ss) = (Statement.localsOf ss).map Variable.unlocated := by
  cases ss with
  | nil => rfl
  | cons s ss =>
    rw [Statement.unlocatedAll, Statement.localsOf_cons, Statement.localsOf_cons, List.map_append,
      s.locals_unlocated, Statement.localsOf_unlocatedAll ss]

end

@[simp] theorem Function.locals_unlocated (f : Function) :
    f.unlocated.locals = f.locals.map Variable.unlocated := by
  rw [locals, locals, unlocated, ← Statement.unlocatedAll_eq_map, Statement.localsOf_unlocatedAll]

/-! ## Signals and expressions -/

/-- Signals are named by names alone. -/
@[simp] theorem Signals.ofFunction_unlocated (f : Function) : ofFunction f.unlocated = ofFunction f := by
  have hlocals : f.unlocated.locals.map (·.name) = f.locals.map (·.name) := by
    rw [Function.locals_unlocated, List.map_map]
    rfl
  have hparameters : f.unlocated.parameters.map (·.name) = f.parameters.map (·.name) := by
    rw [Function.unlocated, List.map_map]
    rfl
  simp only [ofFunction, hlocals, hparameters]

/-- The outermost node does not say where it stands. -/
@[simp] theorem Expr.head_unlocated (e : Expr) : e.unlocated.head = e.head := by
  cases e <;> rfl

/-- The hardware of an expression does not depend on locations. -/
@[simp] theorem hardwareExpr_unlocated (signals : Signals) (e : Expr) :
    hardwareExpr signals e.unlocated = hardwareExpr signals e := by
  induction e with
  | number text loc => rfl
  | ident name loc => rfl
  | field base name loc ih => rw [Expr.unlocated, hardwareExpr_field, hardwareExpr_field, ih]
  | element base index loc ihbase ihindex =>
    rw [Expr.unlocated, hardwareExpr_element, hardwareExpr_element, ihbase, ihindex]
  | negate operand loc ih => rw [Expr.unlocated, hardwareExpr_negate, hardwareExpr_negate, ih]
  | binary op l r loc ihl ihr =>
    rw [Expr.unlocated, hardwareExpr_binary, hardwareExpr_binary, ihl, ihr,
      hardwareBinary_of_head l.head_unlocated r.head_unlocated]
  | unary op operand loc ih =>
    rw [Expr.unlocated, hardwareExpr_unary, hardwareExpr_unary, ih, hardwareUnary_of_head operand.head_unlocated]
  | call name args loc ih =>
    rw [Expr.unlocated, hardwareExpr_call, hardwareExpr_call, Expr.unlocatedAll_eq_map, List.map_map]
    exact congrArg _ (List.map_congr_left ih)

@[simp] theorem hardwareCondition_unlocated (signals : Signals) (e : Expr) :
    hardwareCondition signals e.unlocated = hardwareCondition signals e :=
  hardwareCondition_of_head Expr.head_unlocated (hardwareExpr_unlocated signals) e

/-! ## Declarations -/

/-- Leaving locations out of a first value is doing so in its expressions. -/
theorem Initializer.unlocated_eq_map : unlocated = map Expr.unlocated := by
  funext init
  cases init <;> rfl

theorem Variable.init_unlocated (decl : Variable) :
    decl.unlocated.init = decl.init.map (Initializer.map Expr.unlocated) := by
  rw [← Initializer.unlocated_eq_map]
  rfl

theorem hardwareDeclaration_unlocated (signals : Signals) (decl : Variable) :
    hardwareDeclaration signals decl.unlocated = hardwareDeclaration signals decl := by
  have hsame : decl.unlocated.length = decl.length := rfl
  cases hlength : decl.length with
  | none =>
    rw [hardwareDeclaration_scalar signals (hsame.trans hlength), hardwareDeclaration_scalar signals hlength]
    rfl
  | some length =>
    have hcontents := hardwareContents_of_head Expr.head_unlocated (hardwareExpr_unlocated signals) decl.type length
      decl.init
    rw [hardwareDeclaration_array signals (hsame.trans hlength), hardwareDeclaration_array signals hlength,
      Variable.init_unlocated, ← hcontents]
    rfl

/-- Which declarations count is told by their names. -/
theorem firstDeclarations_unlocated (seen : List String) (decls : List Variable) :
    firstDeclarations seen (decls.map Variable.unlocated) =
      (firstDeclarations seen decls).map Variable.unlocated := by
  induction decls generalizing seen with
  | nil => rfl
  | cons decl decls ih =>
    simp only [List.map_cons, firstDeclarations, Variable.name_unlocated, ih]
    split <;> rfl

/-! ## Statements -/

theorem hardwareInitializer_unlocated (layouts : Layouts) (signals : Signals) (decl : Variable) :
    hardwareInitializer layouts signals decl.unlocated = hardwareInitializer layouts signals decl :=
  hardwareInitializer_of_head Expr.head_unlocated (hardwareExpr_unlocated signals) layouts rfl rfl decl.init_unlocated

theorem hardwareAssignment_unlocated (signals : Signals) (assignment : Assignment) :
    hardwareAssignment signals assignment.unlocated = hardwareAssignment signals assignment := by
  simp only [hardwareAssignment_eq, Assignment.unlocated, hardwareExpr_unlocated]

theorem hardwareReturn_unlocated (layouts : Layouts) (signals : Signals) (type : DataType) (value : Expr) :
    hardwareReturn layouts signals type value.unlocated = hardwareReturn layouts signals type value := by
  obtain ⟨layout, name, loc, hlayout, rfl⟩ | hvalue := return_cases layouts type value
  · rw [Expr.unlocated, hardwareReturn_fields signals hlayout, hardwareReturn_fields signals hlayout]
  · have hunlocated : layouts.ofType? type = none ∨ ∀ name loc, value.unlocated ≠ .ident name loc := by
      refine hvalue.imp_right fun hname name loc he => ?_
      cases value with
      | ident name loc => exact hname name loc rfl
      | _ => cases he
    rw [hardwareReturn_value signals hunlocated, hardwareReturn_value signals hvalue, hardwareExpr_unlocated]

theorem loopCondition_unlocated (signals : Signals) (condition : Option Expr) :
    loopCondition signals (condition.map Expr.unlocated) = loopCondition signals condition :=
  loopCondition_of_head Expr.head_unlocated (hardwareExpr_unlocated signals) condition

mutual

/-- The hardware of a statement does not depend on locations. -/
theorem hardwareStatement_unlocated (layouts : Layouts) (type : DataType) (s : Statement) :
    hardwareStatement layouts type s.unlocated = hardwareStatement layouts type s := by
  cases s with
  | declare decl =>
    simp only [Statement.unlocated, hardwareStatement_declare, hardwareInitializer_unlocated, Variable.name_unlocated]
  | assign assignment => simp only [Statement.unlocated, hardwareStatement_assign, hardwareAssignment_unlocated]
  | branch condition body alternative loc =>
    simp only [Statement.unlocated, hardwareStatement_branch, hardwareCondition_unlocated]
    rw [hardwareStatements_unlocatedAll layouts type body, hardwareArms_unlocated layouts type alternative]
  | whileLoop condition body loc =>
    simp only [Statement.unlocated, hardwareStatement_whileLoop, hardwareCondition_unlocated]
    rw [hardwareStatements_unlocatedAll layouts type body]
  | forLoop start condition step body loc =>
    have hstep : ∀ signals, (step.map Assignment.unlocated).toList.map (hardwareAssignment signals) =
        step.toList.map (hardwareAssignment signals) := by
      intro signals
      cases step with
      | none => rfl
      | some a => exact congrArg (fun l => [l]) (hardwareAssignment_unlocated signals a)
    cases start with
    | none =>
      simp only [Statement.unlocated, hardwareStatement_forLoop_none, loopCondition_unlocated, hstep]
      rw [hardwareStatements_unlocatedAll layouts type body]
    | some start =>
      simp only [Statement.unlocated, hardwareStatement_forLoop_some, loopCondition_unlocated, hstep]
      rw [hardwareStatement_unlocated layouts type start, hardwareStatements_unlocatedAll layouts type body]
  | giveBack value loc =>
    cases value with
    | none => rfl
    | some e => simp only [Statement.unlocated, Option.map_some, hardwareStatement_giveBack, hardwareReturn_unlocated]
  | leaveLoop loc => rfl
  | nextRound loc => rfl
  | evaluate value => simp only [Statement.unlocated, hardwareStatement_evaluate, hardwareExpr_unlocated]

theorem hardwareArms_unlocated (layouts : Layouts) (type : DataType) (a : Alternative) :
    hardwareArms layouts type a.unlocated = hardwareArms layouts type a := by
  cases a with
  | nothing => rfl
  | elseIf condition body alternative =>
    simp only [Alternative.unlocated, hardwareArms_elseIf, hardwareCondition_unlocated]
    rw [hardwareStatements_unlocatedAll layouts type body, hardwareArms_unlocated layouts type alternative]
  | otherwise body =>
    rw [Alternative.unlocated, hardwareArms_otherwise, hardwareArms_otherwise,
      hardwareStatements_unlocatedAll layouts type body]

theorem hardwareStatements_unlocatedAll (layouts : Layouts) (type : DataType) (ss : List Statement) :
    hardwareStatements layouts type (Statement.unlocatedAll ss) = hardwareStatements layouts type ss := by
  cases ss with
  | nil => rfl
  | cons s ss =>
    rw [Statement.unlocatedAll, hardwareStatements_cons, hardwareStatements_cons,
      hardwareStatement_unlocated layouts type s, hardwareStatements_unlocatedAll layouts type ss]

end

/-! ## Designs -/

/-- The entity of a function does not depend on locations. -/
theorem hardwareEntity_unlocated (layouts : Layouts) (f : Function) :
    hardwareEntity layouts f.unlocated = hardwareEntity layouts f := by
  have hinputs : ∀ signals : Signals,
      f.unlocated.parameters.map (fun p => (signals.signal p.name, p.type.signalType)) =
        f.parameters.map fun p => (signals.signal p.name, p.type.signalType) := by
    intro signals
    rw [Function.unlocated, List.map_map]
    rfl
  have hsignals : ∀ signals : Signals,
      (firstDeclarations [] f.unlocated.locals).map (hardwareDeclaration signals) =
        (firstDeclarations [] f.locals).map (hardwareDeclaration signals) := by
    intro signals
    rw [Function.locals_unlocated, firstDeclarations_unlocated, List.map_map]
    congr 1
    funext decl
    exact hardwareDeclaration_unlocated signals decl
  have hbody : hardwareBlock layouts f.result (f.body.map Statement.unlocated) =
      hardwareBlock layouts f.result f.body := by
    rw [hardwareBlock, hardwareBlock, ← Statement.unlocatedAll_eq_map, hardwareStatements_unlocatedAll]
  simp only [hardwareEntity_eq, Signals.ofFunction_unlocated, hinputs, hsignals]
  simp only [Function.unlocated, hbody]

/-- The design of a program does not depend on where its parts stand. -/
theorem hardwareDesign_unlocated (layouts : Layouts) (program : Program) :
    hardwareDesign layouts program.unlocated = hardwareDesign layouts program := by
  simp only [hardwareDesign_eq, Program.functions_unlocated, List.map_map]
  congr 2
  funext f
  exact hardwareEntity_unlocated layouts f

/-! ## Reports -/

@[simp] theorem laterDiagnostics_nil : laterDiagnostics [] = [] := rfl

/-- A warning that the scanner does not give stays, placed nowhere. -/
theorem laterDiagnostics_singleton {warning : Warning} (loc : Location) (h : warning.category ≠ .lexer) :
    laterDiagnostics [warning.diagnostic loc] = [warning.diagnostic .nowhere] := by
  have hcategory : (warning.diagnostic loc).category ≠ .lexer := h
  simp [laterDiagnostics, hcategory]

/-- What is reported about each of many is what is reported about all. -/
theorem laterDiagnostics_flatMap {α β : Type} (f : α → List Diagnostic) (g : β → List Diagnostic) (h : α → β)
    (xs : List α) (hf : ∀ x ∈ xs, g (h x) = laterDiagnostics (f x)) :
    (xs.map h).flatMap g = laterDiagnostics (xs.flatMap f) := by
  induction xs with
  | nil => rfl
  | cons x xs ih =>
    rw [List.map_cons, List.flatMap_cons, List.flatMap_cons, laterDiagnostics_append, hf x (by simp),
      ih fun y hy => hf y (by simp [hy])]

/-- Calls are reported alike up to locations. -/
theorem undefinedCalls_unlocated (defined : List String) (e : Expr) :
    undefinedCalls defined e.unlocated = laterDiagnostics (undefinedCalls defined e) := by
  induction e with
  | number text loc => rfl
  | ident name loc => rfl
  | field base name loc ih => exact ih
  | element base index loc ihbase ihindex =>
    rw [Expr.unlocated, undefinedCalls_element, undefinedCalls_element, laterDiagnostics_append, ihbase, ihindex]
  | negate operand loc ih => exact ih
  | binary op l r loc ihl ihr =>
    rw [Expr.unlocated, undefinedCalls_binary, undefinedCalls_binary, ihl, ihr]
    split
    · rw [laterDiagnostics_append]
    · rw [laterDiagnostics_append]
  | unary op operand loc ih => exact ih
  | call name args loc ih =>
    rw [Expr.unlocated, undefinedCalls_call, undefinedCalls_call, laterDiagnostics_append, Expr.unlocatedAll_eq_map,
      laterDiagnostics_flatMap _ _ _ args ih]
    congr 1
    split
    · rfl
    · exact (laterDiagnostics_singleton loc (by simp [Warning.category])).symm

theorem flatMap_undefinedCalls_unlocated (defined : List String) (es : List Expr) :
    (es.map Expr.unlocated).flatMap (undefinedCalls defined) =
      laterDiagnostics (es.flatMap (undefinedCalls defined)) :=
  laterDiagnostics_flatMap _ _ _ es fun e _ => undefinedCalls_unlocated defined e

theorem initializerWarnings_unlocated (layouts : Layouts) (defined : List String) (decl : Variable) :
    initializerWarnings layouts defined decl.unlocated =
      laterDiagnostics (initializerWarnings layouts defined decl) := by
  have hinit := decl.init_unlocated
  obtain ⟨e, he⟩ | ⟨values, layout, hvalues, hlayout⟩ | hnone := decl.init_cases layouts
  · rw [he] at hinit
    rw [initializerWarnings_value defined hinit, initializerWarnings_value defined he, undefinedCalls_unlocated]
  · rw [hvalues] at hinit
    rw [initializerWarnings_fields defined hinit hlayout, initializerWarnings_fields defined hvalues hlayout,
      ← List.map_take, flatMap_undefinedCalls_unlocated]
  · have hnone' : decl.unlocated.Unassigned layouts := hnone.map rfl hinit
    rw [initializerWarnings_none defined hnone', initializerWarnings_none defined hnone]
    rfl

theorem assignmentWarnings_unlocated (defined : List String) (assignment : Assignment) :
    assignmentWarnings defined assignment.unlocated =
      laterDiagnostics (assignmentWarnings defined assignment) := by
  simp only [assignmentWarnings_eq, Assignment.unlocated, laterDiagnostics_append, undefinedCalls_unlocated]

theorem conditionWarnings_unlocated (defined : List String) (condition : Option Expr) :
    (condition.map Expr.unlocated).toList.flatMap (undefinedCalls defined) =
      laterDiagnostics (condition.toList.flatMap (undefinedCalls defined)) := by
  rw [← flatMap_undefinedCalls_unlocated]
  cases condition <;> rfl

theorem stepWarnings_unlocated (defined : List String) (step : Option Assignment) :
    (step.map Assignment.unlocated).toList.flatMap (assignmentWarnings defined) =
      laterDiagnostics (step.toList.flatMap (assignmentWarnings defined)) := by
  cases step with
  | none => rfl
  | some a => simp [assignmentWarnings_unlocated]

mutual

/-- Statements are reported alike up to locations. -/
theorem statementWarnings_unlocated (layouts : Layouts) (defined : List String) (name : String) (s : Statement) :
    statementWarnings layouts defined name s.unlocated =
      laterDiagnostics (statementWarnings layouts defined name s) := by
  cases s with
  | declare decl =>
    rw [Statement.unlocated, statementWarnings_declare, statementWarnings_declare, initializerWarnings_unlocated]
  | assign assignment =>
    rw [Statement.unlocated, statementWarnings_assign, statementWarnings_assign, assignmentWarnings_unlocated]
  | branch condition body alternative loc =>
    rw [Statement.unlocated, statementWarnings_branch, statementWarnings_branch, laterDiagnostics_append,
      laterDiagnostics_append, undefinedCalls_unlocated, blockWarnings_unlocatedAll layouts defined name body,
      armWarnings_unlocated layouts defined name alternative]
  | whileLoop condition body loc =>
    rw [Statement.unlocated, statementWarnings_whileLoop, statementWarnings_whileLoop, laterDiagnostics_append,
      undefinedCalls_unlocated, blockWarnings_unlocatedAll layouts defined name body]
  | forLoop start condition step body loc =>
    have hcondition := conditionWarnings_unlocated defined condition
    have hstep := stepWarnings_unlocated defined step
    have hbody := blockWarnings_unlocatedAll layouts defined name body
    cases start with
    | none =>
      simp only [Statement.unlocated, statementWarnings_forLoop_none, laterDiagnostics_append, hcondition, hstep, hbody]
    | some start =>
      have hstart := statementWarnings_unlocated layouts defined name start
      simp only [Statement.unlocated, statementWarnings_forLoop_some, statementWarnings_forLoop_none,
        laterDiagnostics_append, hstart, hcondition, hstep, hbody]
  | giveBack value loc =>
    rw [Statement.unlocated, statementWarnings_giveBack, statementWarnings_giveBack, conditionWarnings_unlocated]
  | leaveLoop loc => rfl
  | nextRound loc => rfl
  | evaluate value =>
    rw [Statement.unlocated, statementWarnings_evaluate, statementWarnings_evaluate, laterDiagnostics_append,
      undefinedCalls_unlocated, laterDiagnostics_singleton _ (by simp [Warning.category]), Expr.loc_unlocated]

theorem armWarnings_unlocated (layouts : Layouts) (defined : List String) (name : String) (a : Alternative) :
    armWarnings layouts defined name a.unlocated = laterDiagnostics (armWarnings layouts defined name a) := by
  cases a with
  | nothing => rfl
  | elseIf condition body alternative =>
    rw [Alternative.unlocated, armWarnings_elseIf, armWarnings_elseIf, laterDiagnostics_append, laterDiagnostics_append,
      undefinedCalls_unlocated, blockWarnings_unlocatedAll layouts defined name body,
      armWarnings_unlocated layouts defined name alternative]
  | otherwise body =>
    rw [Alternative.unlocated, armWarnings_otherwise, armWarnings_otherwise,
      blockWarnings_unlocatedAll layouts defined name body]

theorem blockWarnings_unlocatedAll (layouts : Layouts) (defined : List String) (name : String)
    (ss : List Statement) :
    blockWarnings layouts defined name (Statement.unlocatedAll ss) =
      laterDiagnostics (blockWarnings layouts defined name ss) := by
  cases ss with
  | nil => rfl
  | cons s ss =>
    rw [Statement.unlocatedAll, blockWarnings_cons, blockWarnings_cons, laterDiagnostics_append,
      statementWarnings_unlocated layouts defined name s, blockWarnings_unlocatedAll layouts defined name ss]

end

/-! ## Events -/

/-- Events that report diagnostics are the reports of the later diagnostics. -/
theorem filterMap_later?_reported (ds : List Diagnostic) :
    (ds.map Event.reported).filterMap Event.later? = (laterDiagnostics ds).map .reported := by
  induction ds with
  | nil => rfl
  | cons d ds ih =>
    by_cases h : d.category = .lexer <;> simp_all [laterDiagnostics, Event.later?]

/-- The diagnostics of later events are the later diagnostics of the events. -/
theorem filterMap_diagnostic?_later? (events : List Event) :
    (events.filterMap Event.later?).filterMap Event.diagnostic? =
      laterDiagnostics (events.filterMap Event.diagnostic?) := by
  induction events with
  | nil => rfl
  | cons event events ih =>
    cases event with
    | reported d =>
      by_cases h : d.category = .lexer <;> simp_all [laterDiagnostics, Event.later?, Event.diagnostic?]
    | _ => exact ih

theorem contentsWarnings_unlocated (defined : List String) (decl : Variable) :
    contentsWarnings defined decl.unlocated = laterDiagnostics (contentsWarnings defined decl) := by
  have hgiven : givenElements decl.unlocated.init = (givenElements decl.init).map Expr.unlocated := by
    rw [decl.init_unlocated]
    rcases decl.init with _ | e | values | values <;> rfl
  have hsame : decl.unlocated.length = decl.length := rfl
  cases hlength : decl.length with
  | none =>
    rw [contentsWarnings_scalar defined (hsame.trans hlength), contentsWarnings_scalar defined hlength]
    rfl
  | some length =>
    rw [contentsWarnings_array defined (hsame.trans hlength), contentsWarnings_array defined hlength, hgiven,
      ← List.map_take, flatMap_undefinedCalls_unlocated]

theorem declarationWarnings_unlocated (signals : Signals) (defined : List String) (function : String)
    (decl : Variable) :
    declarationWarnings signals defined function decl.unlocated =
      laterDiagnostics (declarationWarnings signals defined function decl) := by
  have hshadow : shadowWarnings signals function decl.unlocated =
      laterDiagnostics (shadowWarnings signals function decl) := by
    rw [shadowWarnings, shadowWarnings, Variable.name_unlocated]
    cases signals.shadow? decl.name with
    | none => rfl
    | some signal => exact (laterDiagnostics_singleton decl.loc (by simp [Warning.category])).symm
  rw [declarationWarnings, declarationWarnings, laterDiagnostics_append, hshadow, contentsWarnings_unlocated]

/-- The declarations of a function are reported alike up to locations. -/
theorem declarationEvents_unlocated (signals : Signals) (defined : List String) (function : String)
    (seen : List String) (decls : List Variable) :
    declarationEvents signals defined function seen (decls.map Variable.unlocated) =
      (declarationEvents signals defined function seen decls).filterMap Event.later? := by
  induction decls generalizing seen with
  | nil => rfl
  | cons decl decls ih =>
    rw [List.map_cons]
    by_cases h : decl.name ∈ seen
    · rw [declarationEvents_again signals defined _ (show decl.unlocated.name ∈ seen from h),
        declarationEvents_again signals defined _ h, ih]
      rfl
    · rw [declarationEvents_first signals defined _ (show decl.unlocated.name ∉ seen from h),
        declarationEvents_first signals defined _ h, List.filterMap_append, filterMap_later?_reported,
        declarationWarnings_unlocated, Variable.name_unlocated, ih]

/-- Functions are reported alike up to locations. -/
theorem functionEvents_unlocated (layouts : Layouts) (defined : List String) (f : Function) :
    functionEvents layouts defined f.unlocated =
      (functionEvents layouts defined f).filterMap Event.later? := by
  have hblock : blockWarnings layouts defined f.name (f.body.map Statement.unlocated) =
      laterDiagnostics (blockWarnings layouts defined f.name f.body) := by
    rw [← Statement.unlocatedAll_eq_map, blockWarnings_unlocatedAll]
  have hname : f.unlocated.name = f.name := rfl
  have hbody : f.unlocated.body = f.body.map Statement.unlocated := rfl
  rw [functionEvents_eq, functionEvents_eq, Signals.ofFunction_unlocated, Function.locals_unlocated,
    declarationEvents_unlocated, hname, hbody, hblock, ← filterMap_later?_reported, ← List.filterMap_append]
  rfl

@[simp] theorem Program.functionNames_unlocated (program : Program) :
    program.unlocated.functionNames = program.functionNames := by
  rw [functionNames, functionNames, functions_unlocated, List.map_map]
  rfl

/-- What is reported about a program is the same up to locations wherever its parts stand. -/
theorem programEvents_unlocated (layouts : Layouts) (program : Program) :
    programEvents layouts program.unlocated =
      (programEvents layouts program).filterMap Event.later? := by
  have hrecords : (layouts.all.map fun layout => Event.emittingRecord layout.name).filterMap Event.later? =
      layouts.all.map fun layout => .emittingRecord layout.name := by
    rw [List.filterMap_map]
    exact congrFun (List.filterMap_eq_map (f := fun layout : Layout => Event.emittingRecord layout.name))
      layouts.all
  rw [programEvents_eq, programEvents_eq, List.filterMap_append, hrecords, Program.functionNames_unlocated,
    Program.functions_unlocated]
  congr 1
  rw [List.flatMap_map, List.filterMap_flatMap]
  congr 1
  funext f
  exact functionEvents_unlocated layouts program.functionNames f

end ClockedC
