import Mathlib
import ClockedC.Ast.Trees
import ClockedC.Hardware.Program

/-!
# What a generator makes and reports

A generator goes through a program once, and both makes and reports on the way. What it makes depends on the layouts and
on the signals in sight, and not on what has been reported; what it reports about expressions and statements depends on
the layouts and on the functions that are defined, and not on the signals. So each of the two can be told without the
other, and from what a step does in one generator it is known what it does in all.
-/

namespace ClockedC

variable {e : Expr} {layout : Layout}

/-! ## Steps on signals -/

/-- A step during which declarations come into sight. -/
abbrev ScopeM := StateM Signals

/-- Looks at the signals in sight. -/
def looking {α : Type} (value : Signals → α) : ScopeM α := return value (← get)

/-- Takes a step inside a block: what it brings into sight goes out of sight at the end. -/
def inBlock {α : Type} (step : ScopeM α) : ScopeM α := do
  let saved := (← get).enterBlock
  let a ← step
  modify (·.leaveBlock saved)
  return a

theorem filterMap_reported (ds : List Diagnostic) : (ds.map Event.reported).filterMap Event.diagnostic? = ds := by
  rw [List.filterMap_map]
  exact List.filterMap_some

namespace Generator

variable {α β : Type} {layouts : Layouts}

theorem report_nil (g : Generator) : g.report [] = g := by simp [report]

/-- Reports in turn are one longer report. -/
theorem report_report (g : Generator) (events events' : List Event) :
    (g.report events).report events' = g.report (events ++ events') := by
  simp [report]

/-! ## Steps that are told by what they make and report -/

/-- What a step makes over the layouts, and what it leaves in sight. -/
def madeBy (step : EmitM α) (layouts : Layouts) : ScopeM α := fun signals =>
  ((step.run { layouts, signals }).1, (step.run { layouts, signals }).2.signals)

/-- The warnings that a step gives over the layouts where the functions are `defined`. -/
def warnedBy (step : EmitM α) (layouts : Layouts) (defined : List String) : List Diagnostic :=
  (step.run { layouts, defined }).2.diagnostics

/-- In every generator over the layouts, the step makes what `scope` makes of the signals in sight and leaves the same
in sight, and it reports the warnings about the functions that are defined. Nothing else is read or changed. -/
structure Emits (layouts : Layouts) (step : EmitM α) (scope : ScopeM α) (warnings : List String → List Diagnostic) :
    Prop where
  run_eq : ∀ g : Generator, g.layouts = layouts → step.run g =
    ((scope.run g.signals).1,
      { g.report ((warnings g.defined).map .reported) with signals := (scope.run g.signals).2 })

namespace Emits

variable {step : EmitM α} {scope : ScopeM α} {value : Signals → α} {warnings : List String → List Diagnostic}

/-- What a step makes is what it is told by. -/
theorem madeBy_eq (h : Emits layouts step scope warnings) : madeBy step layouts = scope := by
  funext signals
  rw [madeBy, h.run_eq _ rfl]
  rfl

/-- The warnings of a step are those it is told by. -/
theorem warnedBy_eq (h : Emits layouts step scope warnings) (defined : List String) :
    warnedBy step layouts defined = warnings defined := by
  rw [warnedBy, h.run_eq _ rfl]
  exact filterMap_reported _

theorem value_eq (h : Emits layouts step (looking value) warnings) (signals : Signals) :
    ((madeBy step layouts).run signals).1 = value signals := by
  rw [h.madeBy_eq]
  rfl

/-- A step that changes nothing in sight is told by its value. -/
theorem looking_made (h : Emits layouts step (looking value) warnings) :
    Emits layouts step (looking fun signals => ((madeBy step layouts).run signals).1) warnings := by
  rwa [funext h.value_eq]

theorem pure (a : α) : Emits layouts (Pure.pure a) (Pure.pure a) fun _ => [] := by
  constructor
  intro g _
  rw [List.map_nil, report_nil]
  rfl

/-- Two steps, the second of which gives the same warnings whatever the first has made. -/
theorem bind {next : α → EmitM β} {scope' : α → ScopeM β} {warnings' : List String → List Diagnostic}
    (h : Emits layouts step scope warnings) (hnext : ∀ a, Emits layouts (next a) (scope' a) warnings') :
    Emits layouts (step >>= next) (scope >>= scope') fun defined => warnings defined ++ warnings' defined := by
  constructor
  intro g hg
  rw [StateT.run_bind, h.run_eq g hg]
  show (next (scope.run g.signals).1).run _ = _
  rw [(hnext _).run_eq _ (by exact hg), List.map_append, ← report_report]
  rfl

/-- A step and a function of what it has made. -/
theorem returns (h : Emits layouts step scope warnings) (f : α → β) :
    Emits layouts (do return f (← step)) (do return f (← scope)) warnings := by
  have hbind := h.bind fun a => .pure (f a)
  simpa only [List.append_nil] using hbind

/-- A step that gives no warnings, and another one. -/
theorem silent {next : α → EmitM β} {scope' : α → ScopeM β} (h : Emits layouts step scope fun _ => [])
    (hnext : ∀ a, Emits layouts (next a) (scope' a) warnings) :
    Emits layouts (step >>= next) (scope >>= scope') warnings := by
  have hbind := h.bind hnext
  simpa only [List.nil_append] using hbind

/-- Looking up a name depends on the signals only. -/
theorem signal (name : String) : Emits layouts (signal name) (looking (·.signal name)) fun _ => [] := by
  constructor
  intro g _
  rw [List.map_nil, report_nil]
  rfl

/-- A step that begins with a look at the signal of a name. -/
theorem signal_bind {name : String} {next : String → EmitM α} (v : String → Signals → α)
    (h : ∀ target, Emits layouts (next target) (looking (v target)) warnings) :
    Emits layouts (Generator.signal name >>= next) (looking fun signals => v (signals.signal name) signals) warnings :=
  (signal name).silent h

/-- A warning is reported, and nothing is made. -/
theorem warn (warning : Warning) (loc : Location) :
    Emits layouts (warn warning loc) (Pure.pure ()) fun _ => [warning.diagnostic loc] := ⟨fun _ _ => rfl⟩

theorem declare (name : String) : Emits layouts (declare name) (modify (·.declare name)) fun _ => [] := by
  constructor
  intro g _
  rw [List.map_nil, report_nil]
  rfl

/-- A block makes what its step makes, and reports the same. -/
theorem inBlock (h : Emits layouts step scope warnings) :
    Emits layouts (Generator.inBlock step) (ClockedC.inBlock scope) warnings := by
  constructor
  intro g hg
  have hrun : (Generator.inBlock step).run g = ((step.run g).1,
      { (step.run g).2 with signals := (step.run g).2.signals.leaveBlock g.signals.enterBlock }) := rfl
  rw [hrun, h.run_eq g hg]
  rfl

/-- A layout is looked up among those of the generator. -/
theorem layoutOf? {type : DataType} {next : Option Layout → EmitM α}
    (h : Emits layouts (next (layouts.ofType? type)) scope warnings) :
    Emits layouts (layoutOf? type >>= next) scope warnings := by
  constructor
  intro g hg
  show (next (g.layouts.ofType? type)).run g = _
  rw [hg]
  exact h.run_eq g hg

end Emits

/-! ## Expressions -/

end Generator

/-- The value of an expression. -/
def hardwareExpr (signals : Signals) (e : Expr) : Vhdl.Expr :=
  ((Generator.madeBy (Generator.emitExpr e) {}).run signals).1

/-- The value of an expression as a number. -/
def hardwareOperand (signals : Signals) (e : Expr) : Vhdl.Expr := asOperand e (hardwareExpr signals e)

/-- The value of an expression as a condition. -/
def hardwareCondition (signals : Signals) (e : Expr) : Vhdl.Expr := asCondition e (hardwareExpr signals e)

/-- The warnings about calls of functions that are not `defined`. -/
def undefinedCalls (defined : List String) (e : Expr) : List Diagnostic :=
  Generator.warnedBy (Generator.emitExpr e) {} defined

namespace Generator

variable {layouts : Layouts}

namespace Emits

variable {base index operand l r : Expr} {v v' : Signals → Vhdl.Expr} {ws ws' : List String → List Diagnostic}

/-- A number becomes a literal. -/
theorem number (text : String) (loc : Location) :
    Emits layouts (emitExpr (.number text loc)) (looking fun _ => hardwareLiteral text) fun _ => [] :=
  .pure (hardwareLiteral text)

/-- A name becomes the signal that is in sight for it. -/
theorem ident (name : String) (loc : Location) :
    Emits layouts (emitExpr (.ident name loc)) (looking fun signals => .name (signals.signal name)) fun _ => [] :=
  (signal name).returns Vhdl.Expr.name

/-- A field is told by the value it is taken of. -/
theorem field (h : Emits layouts (emitExpr base) (looking v) ws) (name : String) (loc : Location) :
    Emits layouts (emitExpr (.field base name loc)) (looking fun signals => .field (v signals) name) ws :=
  h.returns (Vhdl.Expr.field · name)

/-- An element is told by the array and then by the index. -/
theorem element (hbase : Emits layouts (emitExpr base) (looking v) ws)
    (hindex : Emits layouts (emitExpr index) (looking v') ws') (loc : Location) :
    Emits layouts (emitExpr (.element base index loc)) (looking fun signals => .apply (v signals) [v' signals])
      fun defined => ws defined ++ ws' defined :=
  hbase.bind fun b => hindex.returns fun i => Vhdl.Expr.apply b [i]

/-- A negation is told by its operand. -/
theorem negate (h : Emits layouts (emitExpr operand) (looking v) ws) (loc : Location) :
    Emits layouts (emitExpr (.negate operand loc)) (looking fun signals => .negate (.unsigned (v signals))) ws :=
  h.returns fun value => Vhdl.Expr.negate (.unsigned value)

/-- The amount of a shift is gone into first. -/
theorem binary (hl : Emits layouts (emitExpr l) (looking v) ws) (hr : Emits layouts (emitExpr r) (looking v') ws')
    (op : Operator) (loc : Location) :
    Emits layouts (emitExpr (.binary op l r loc))
      (looking fun signals => hardwareBinary op l r (v signals) (v' signals))
      fun defined => if op.isShift then ws' defined ++ ws defined else ws defined ++ ws' defined := by
  rw [emitExpr]
  cases op.isShift with
  | true => exact hr.bind fun amount => hl.returns (hardwareBinary op l r · amount)
  | false => exact hl.bind fun left => hr.returns (hardwareBinary op l r left)

/-- A unary operation is told by its operand. -/
theorem unary (h : Emits layouts (emitExpr operand) (looking v) ws) (op : UnaryOperator) (loc : Location) :
    Emits layouts (emitExpr (.unary op operand loc)) (looking fun signals => hardwareUnary op operand (v signals)) ws :=
  h.returns (hardwareUnary op operand)

/-- A call is reported if the function is not defined. -/
theorem emitCall (name : String) (loc : Location) :
    Emits layouts (emitCall name loc) (Pure.pure ())
      fun defined => if name ∈ defined then [] else [(Warning.undefinedCall name).diagnostic loc] := by
  constructor
  intro g _
  show (if name ∉ g.defined then Generator.warn (.undefinedCall name) loc else Pure.pure () : EmitM Unit).run g = _
  by_cases hname : name ∈ g.defined
  · rw [if_neg (not_not.2 hname), if_pos hname, List.map_nil, report_nil]
    rfl
  · rw [if_pos hname, if_neg hname]
    rfl

/-- Expressions in turn are told by each of them. -/
theorem exprs {es : List Expr}
    (h : ∀ e ∈ es, Emits layouts (emitExpr e) (looking (hardwareExpr · e)) (undefinedCalls · e)) :
    Emits layouts (emitExprs es) (looking fun signals => es.map (hardwareExpr signals))
      fun defined => es.flatMap (undefinedCalls defined) := by
  induction es with
  | nil => exact .pure []
  | cons e es ih =>
    obtain ⟨he, hes⟩ := List.forall_mem_cons.1 h
    exact he.bind fun value => (ih hes).returns (value :: ·)

/-- A call is reported before its arguments are gone through. -/
theorem call {args : List Expr}
    (h : ∀ e ∈ args, Emits layouts (emitExpr e) (looking (hardwareExpr · e)) (undefinedCalls · e)) (name : String)
    (loc : Location) :
    Emits layouts (emitExpr (.call name args loc))
      (looking fun signals => .apply (.name name) (args.map (hardwareExpr signals)))
      fun defined => (if name ∈ defined then [] else [(Warning.undefinedCall name).diagnostic loc]) ++
        args.flatMap (undefinedCalls defined) :=
  (emitCall name loc).bind fun _ => (exprs h).returns (Vhdl.Expr.apply (.name name))

end Emits

/-- An expression that is told in the same way over all layouts is told by its value and its warnings. -/
theorem emits_expr_of {value : Signals → Vhdl.Expr} {ws : List String → List Diagnostic}
    (h : ∀ layouts, Emits layouts (emitExpr e) (looking value) ws) (layouts : Layouts) :
    Emits layouts (emitExpr e) (looking (hardwareExpr · e)) (undefinedCalls · e) := by
  have hvalue : (hardwareExpr · e) = value := funext (h {}).value_eq
  have hwarnings : (undefinedCalls · e) = ws := funext (h {}).warnedBy_eq
  rw [hvalue, hwarnings]
  exact h layouts

/-- An expression is told by its value and its warnings. -/
theorem emits_expr (e : Expr) (layouts : Layouts) :
    Emits layouts (emitExpr e) (looking (hardwareExpr · e)) (undefinedCalls · e) := by
  induction e generalizing layouts with
  | number text loc => exact emits_expr_of (fun _ => .number text loc) layouts
  | ident name loc => exact emits_expr_of (fun _ => .ident name loc) layouts
  | field base name loc ih => exact emits_expr_of (fun layouts => (ih layouts).field name loc) layouts
  | element base index loc ihbase ihindex =>
    exact emits_expr_of (fun layouts => (ihbase layouts).element (ihindex layouts) loc) layouts
  | negate operand loc ih => exact emits_expr_of (fun layouts => (ih layouts).negate loc) layouts
  | binary op l r loc ihl ihr => exact emits_expr_of (fun layouts => (ihl layouts).binary (ihr layouts) op loc) layouts
  | unary op operand loc ih => exact emits_expr_of (fun layouts => (ih layouts).unary op loc) layouts
  | call name args loc ih =>
    exact emits_expr_of (fun layouts => .call (fun e he => ih e he layouts) name loc) layouts

/-- An operand is reported as its expression is. -/
theorem emits_operand (e : Expr) (layouts : Layouts) :
    Emits layouts (emitOperand e) (looking (hardwareOperand · e)) (undefinedCalls · e) :=
  (emits_expr e layouts).returns (asOperand e)

/-- A condition is reported as its expression is. -/
theorem emits_condition (e : Expr) (layouts : Layouts) :
    Emits layouts (emitCondition e) (looking (hardwareCondition · e)) (undefinedCalls · e) :=
  (emits_expr e layouts).returns (asCondition e)

end Generator

section Expressions

variable (signals : Signals) (defined : List String) (loc : Location)

theorem hardwareExpr_number (text : String) : hardwareExpr signals (.number text loc) = hardwareLiteral text := rfl

theorem hardwareExpr_ident (name : String) : hardwareExpr signals (.ident name loc) = .name (signals.signal name) := rfl

theorem hardwareExpr_field (base : Expr) (name : String) :
    hardwareExpr signals (.field base name loc) = .field (hardwareExpr signals base) name := rfl

/-- An element is an application of the array to its index. -/
theorem hardwareExpr_element (base index : Expr) :
    hardwareExpr signals (.element base index loc) = .apply (hardwareExpr signals base) [hardwareExpr signals index] :=
  ((Generator.emits_expr base {}).element (Generator.emits_expr index {}) loc).value_eq signals

theorem hardwareExpr_negate (operand : Expr) :
    hardwareExpr signals (.negate operand loc) = .negate (.unsigned (hardwareExpr signals operand)) := rfl

/-- A binary operation is made of its operands. -/
theorem hardwareExpr_binary (op : Operator) (l r : Expr) :
    hardwareExpr signals (.binary op l r loc) =
      hardwareBinary op l r (hardwareExpr signals l) (hardwareExpr signals r) :=
  ((Generator.emits_expr l {}).binary (Generator.emits_expr r {}) op loc).value_eq signals

theorem hardwareExpr_unary (op : UnaryOperator) (operand : Expr) :
    hardwareExpr signals (.unary op operand loc) = hardwareUnary op operand (hardwareExpr signals operand) := rfl

/-- A call is an application of the function to the arguments. -/
theorem hardwareExpr_call (name : String) (args : List Expr) :
    hardwareExpr signals (.call name args loc) = .apply (.name name) (args.map (hardwareExpr signals)) :=
  (Generator.Emits.call (fun e _ => Generator.emits_expr e {}) name loc).value_eq signals

/-- The array is gone through before its index. -/
theorem undefinedCalls_element (base index : Expr) :
    undefinedCalls defined (.element base index loc) = undefinedCalls defined base ++ undefinedCalls defined index :=
  ((Generator.emits_expr base {}).element (Generator.emits_expr index {}) loc).warnedBy_eq defined

theorem undefinedCalls_binary (op : Operator) (l r : Expr) :
    undefinedCalls defined (.binary op l r loc) =
      if op.isShift then undefinedCalls defined r ++ undefinedCalls defined l
      else undefinedCalls defined l ++ undefinedCalls defined r :=
  ((Generator.emits_expr l {}).binary (Generator.emits_expr r {}) op loc).warnedBy_eq defined

/-- A call is reported in front of the calls in its arguments. -/
theorem undefinedCalls_call (name : String) (args : List Expr) :
    undefinedCalls defined (.call name args loc) =
      (if name ∈ defined then [] else [(Warning.undefinedCall name).diagnostic loc]) ++
        args.flatMap (undefinedCalls defined) :=
  (Generator.Emits.call (fun e _ => Generator.emits_expr e {}) name loc).warnedBy_eq defined

end Expressions

/-! ## Assignments -/

/-- The variable is not assigned a first value: those of an array are part of its declaration, and fields without a
layout are not known. -/
structure Variable.Unassigned (layouts : Layouts) (decl : Variable) : Prop where
  value : ∀ e, decl.init ≠ some (.value e)
  fields : ∀ values, decl.init = some (.fields values) → layouts.ofType? decl.type = none

/-- A variable is assigned its first value as a whole, field by field or not at all. -/
theorem Variable.init_cases (layouts : Layouts) (decl : Variable) :
    (∃ e, decl.init = some (.value e)) ∨
      (∃ values layout, decl.init = some (.fields values) ∧ layouts.ofType? decl.type = some layout) ∨
      decl.Unassigned layouts := by
  by_cases hvalue : ∃ e, decl.init = some (.value e)
  · exact .inl hvalue
  · by_cases hfields : ∃ values layout, decl.init = some (.fields values) ∧ layouts.ofType? decl.type = some layout
    · exact .inr (.inl hfields)
    · refine .inr (.inr ⟨fun e he => hvalue ⟨e, he⟩, fun values hvalues => ?_⟩)
      exact Option.eq_none_iff_forall_not_mem.2 fun layout hlayout => hfields ⟨values, layout, hvalues, hlayout⟩

/-- A value is given back field by field or as a whole. -/
theorem return_cases (layouts : Layouts) (type : DataType) (e : Expr) :
    (∃ layout name loc, layouts.ofType? type = some layout ∧ e = .ident name loc) ∨
      (layouts.ofType? type = none ∨ ∀ name loc, e ≠ .ident name loc) := by
  by_cases hname : ∃ name loc, e = .ident name loc
  · obtain ⟨name, loc, rfl⟩ := hname
    cases hlayout : layouts.ofType? type with
    | none => exact .inr (.inl rfl)
    | some layout => exact .inl ⟨layout, name, loc, rfl, rfl⟩
  · exact .inr (.inr fun name loc he => hname ⟨name, loc, he⟩)

/-- The first value of a field from what is given for it. -/
def fieldValue? (signals : Signals) (field : Field) (given : Option Expr) : Option Vhdl.Expr :=
  ((Generator.madeBy (Generator.emitField field given) {}).run signals).1

/-- The assignments that give a variable its first value. -/
def hardwareInitializer (layouts : Layouts) (signals : Signals) (decl : Variable) : List Vhdl.Stmt :=
  ((Generator.madeBy (Generator.emitInitializer decl) layouts).run signals).1

/-- The warnings about the first value of a variable. -/
def initializerWarnings (layouts : Layouts) (defined : List String) (decl : Variable) : List Diagnostic :=
  Generator.warnedBy (Generator.emitInitializer decl) layouts defined

/-- An assignment. -/
def hardwareAssignment (signals : Signals) (assignment : Assignment) : Vhdl.Stmt :=
  ((Generator.madeBy (Generator.emitAssignment assignment) {}).run signals).1

/-- The warnings about an assignment. -/
def assignmentWarnings (defined : List String) (assignment : Assignment) : List Diagnostic :=
  Generator.warnedBy (Generator.emitAssignment assignment) {} defined

/-- The assignments that give back a value of type `type`. -/
def hardwareReturn (layouts : Layouts) (signals : Signals) (type : DataType) (value : Expr) : List Vhdl.Stmt :=
  ((Generator.madeBy (Generator.emitReturn type value) layouts).run signals).1

/-- The condition of a `for` loop; one that is left out always holds. -/
def loopCondition (signals : Signals) (condition : Option Expr) : Vhdl.Expr :=
  ((Generator.madeBy (Generator.emitLoopCondition condition) {}).run signals).1

namespace Generator

variable {layouts : Layouts}

/-- What is given for fields is gone into field by field. -/
theorem flatMap_givenFields {β : Type} (f : Expr → List β) (fields : List Field) (values : List Expr) :
    ((givenFields fields values).flatMap fun part => part.2.toList.flatMap f) =
      (values.take fields.length).flatMap f := by
  induction fields generalizing values with
  | nil => simp [givenFields]
  | cons field fields ih =>
    cases values with
    | nil => simpa [givenFields] using ih []
    | cons value values => simp [givenFields, ih]

/-- A field of a value is told by the expression it is given. -/
theorem emits_field (field : Field) (given : Option Expr) (layouts : Layouts) :
    Emits layouts (emitField field given) (looking (fieldValue? · field given))
      fun defined => given.toList.flatMap (undefinedCalls defined) := by
  cases given with
  | none => exact .pure (emptyField? field)
  | some e =>
    simp only [Option.toList_some, List.flatMap_singleton]
    exact (emits_expr e layouts).returns fun value => some (asField field e value)

/-- Fields are assigned in turn, and those without a value are left out. -/
theorem emits_fields (target : Vhdl.Expr) (given : List (Field × Option Expr)) (layouts : Layouts) :
    Emits layouts (emitFields target given)
      (looking fun signals => given.filterMap fun part =>
        (fieldValue? signals part.1 part.2).map (.assign (.field target part.1.name)))
      fun defined => given.flatMap fun part => part.2.toList.flatMap (undefinedCalls defined) := by
  simp only [List.filterMap_eq_flatMap_toList]
  induction given with
  | nil => exact .pure []
  | cons part rest ih =>
    exact (emits_field part.1 part.2 layouts).bind fun value =>
      ih.returns ((value.map (.assign (.field target part.1.name))).toList ++ ·)

namespace Emits

variable {decl : Variable}

/-- A single value is assigned to the variable as a whole. -/
theorem initializer_value (h : decl.init = some (.value e)) :
    Emits layouts (emitInitializer decl)
      (looking fun signals => [.assign (.name (signals.signal decl.name)) (hardwareExpr signals e)])
      (undefinedCalls · e) := by
  obtain ⟨name, type, length, init, loc⟩ := decl
  cases h
  refine .signal_bind (fun target signals => [Vhdl.Stmt.assign (.name target) (hardwareExpr signals e)])
    fun target => ?_
  exact (emits_expr e layouts).returns fun value => [Vhdl.Stmt.assign (.name target) value]

/-- The values of fields are assigned field by field. -/
theorem initializer_fields {values : List Expr} (h : decl.init = some (.fields values))
    (hlayout : layouts.ofType? decl.type = some layout) :
    Emits layouts (emitInitializer decl)
      (looking fun signals => (givenFields layout.fields values).filterMap fun part =>
        (fieldValue? signals part.1 part.2).map
          (.assign (.field (.name (signals.signal decl.name)) part.1.name)))
      fun defined => (values.take layout.fields.length).flatMap (undefinedCalls defined) := by
  obtain ⟨name, type, length, init, loc⟩ := decl
  cases h
  simp only [← flatMap_givenFields]
  refine .signal_bind (fun target signals => (givenFields layout.fields values).filterMap fun part =>
    (fieldValue? signals part.1 part.2).map (Vhdl.Stmt.assign (.field (.name target) part.1.name))) fun target => ?_
  refine .layoutOf? ?_
  rw [hlayout]
  exact emits_fields (.name target) _ layouts

/-- A variable without a first value is not assigned to. -/
theorem initializer_none (h : decl.Unassigned layouts) :
    Emits layouts (emitInitializer decl) (looking fun _ => []) fun _ => [] := by
  obtain ⟨name, type, length, init, loc⟩ := decl
  refine .signal_bind (fun _ _ => []) fun target => ?_
  cases init with
  | none => exact .pure []
  | some init =>
    cases init with
    | value e => exact absurd rfl (h.value e)
    | elements values => exact .pure []
    | fields values =>
      refine .layoutOf? ?_
      rw [h.fields values rfl]
      exact .pure []

/-- A variable of a struct type is given back field by field. -/
theorem return_fields {type : DataType} {layout : Layout} (hlayout : layouts.ofType? type = some layout)
    (name : String) (loc : Location) :
    Emits layouts (emitReturn type (.ident name loc))
      (looking fun signals => layout.fields.map fun field =>
        .assign (.field (.name Vhdl.resultPort) field.name) (.field (.name (signals.signal name)) field.name))
      fun _ => [] := by
  refine .layoutOf? ?_
  rw [hlayout]
  exact .signal_bind (fun source _ => layout.fields.map fun field =>
    Vhdl.Stmt.assign (.field (.name Vhdl.resultPort) field.name) (.field (.name source) field.name)) fun _ => .pure _

/-- Any other value is given back as a whole. -/
theorem return_value {type : DataType} (h : layouts.ofType? type = none ∨ ∀ name loc, e ≠ .ident name loc) :
    Emits layouts (emitReturn type e)
      (looking fun signals => [.assign (.name Vhdl.resultPort) (hardwareExpr signals e)]) (undefinedCalls · e) := by
  have hvalue : Emits layouts (do return [Vhdl.Stmt.assign (.name Vhdl.resultPort) (← emitExpr e)])
      (looking fun signals => [.assign (.name Vhdl.resultPort) (hardwareExpr signals e)]) (undefinedCalls · e) :=
    (emits_expr e layouts).returns fun value => [Vhdl.Stmt.assign (.name Vhdl.resultPort) value]
  refine .layoutOf? ?_
  cases hlayout : layouts.ofType? type with
  | none => exact hvalue
  | some layout =>
    cases e with
    | ident name loc =>
      rw [hlayout] at h
      exact absurd rfl (h.resolve_left (Option.some_ne_none layout) name loc)
    | _ => exact hvalue

end Emits

/-- The first value of a variable is told by what is made of it and reported about it. -/
theorem emits_initializer (decl : Variable) (layouts : Layouts) :
    Emits layouts (emitInitializer decl) (looking (hardwareInitializer layouts · decl))
      (initializerWarnings layouts · decl) := by
  have hself {value : Signals → List Vhdl.Stmt} {ws : List String → List Diagnostic}
      (h : Emits layouts (emitInitializer decl) (looking value) ws) :
      Emits layouts (emitInitializer decl) (looking (hardwareInitializer layouts · decl))
        (initializerWarnings layouts · decl) := by
    have hwarnings : (initializerWarnings layouts · decl) = ws := funext h.warnedBy_eq
    rw [hwarnings]
    exact h.looking_made
  obtain ⟨e, he⟩ | ⟨values, layout, hvalues, hlayout⟩ | hnone := decl.init_cases layouts
  · exact hself (.initializer_value he)
  · exact hself (.initializer_fields hvalues hlayout)
  · exact hself (.initializer_none hnone)

/-- The target of an assignment is gone into before its value. -/
theorem Emits.sides (assignment : Assignment) :
    Emits layouts (emitAssignment assignment)
      (looking fun signals =>
        .assign (hardwareExpr signals assignment.target) (hardwareExpr signals assignment.value))
      fun defined => undefinedCalls defined assignment.target ++ undefinedCalls defined assignment.value :=
  (emits_expr assignment.target layouts).bind fun target =>
    (emits_expr assignment.value layouts).returns (Vhdl.Stmt.assign target)

/-- An assignment is told by its target and its value. -/
theorem emits_assignment (assignment : Assignment) (layouts : Layouts) :
    Emits layouts (emitAssignment assignment) (looking (hardwareAssignment · assignment))
      (assignmentWarnings · assignment) := by
  have hparts : Emits {} (emitAssignment assignment) _ _ := .sides assignment
  have hvalue : (hardwareAssignment · assignment) = _ := funext hparts.value_eq
  have hwarnings : (assignmentWarnings · assignment) = _ := funext hparts.warnedBy_eq
  rw [hvalue, hwarnings]
  exact .sides assignment

/-- A variable that is given back has no calls. -/
theorem emits_return (type : DataType) (e : Expr) (layouts : Layouts) :
    Emits layouts (emitReturn type e) (looking (hardwareReturn layouts · type e)) (undefinedCalls · e) := by
  obtain ⟨layout, name, loc, hlayout, rfl⟩ | hvalue := return_cases layouts type e
  · exact (Emits.return_fields hlayout name loc).looking_made
  · exact (Emits.return_value hvalue).looking_made

/-- The condition of a loop is told by the expression, if there is one. -/
theorem emits_loopCondition (condition : Option Expr) (layouts : Layouts) :
    Emits layouts (emitLoopCondition condition) (looking (loopCondition · condition))
      fun defined => condition.toList.flatMap (undefinedCalls defined) := by
  cases condition with
  | none => exact .pure (Vhdl.Expr.literal "true")
  | some condition =>
    simp only [Option.toList_some, List.flatMap_singleton]
    exact emits_condition condition layouts

/-- The step of a loop is told by the assignment, if there is one. -/
theorem emits_step (step : Option Assignment) (layouts : Layouts) :
    Emits layouts (emitStep step) (looking fun signals => step.toList.map (hardwareAssignment signals))
      fun defined => step.toList.flatMap (assignmentWarnings defined) := by
  cases step with
  | none => exact .pure []
  | some step =>
    simp only [Option.toList_some, List.flatMap_singleton]
    exact (emits_assignment step layouts).returns ([·])

end Generator

section Assignments

variable {layouts : Layouts} (signals : Signals) (defined : List String) {decl : Variable} {type : DataType}

theorem fieldValue?_some (field : Field) (e : Expr) :
    fieldValue? signals field (some e) = some (asField field e (hardwareExpr signals e)) := rfl

theorem fieldValue?_none (field : Field) : fieldValue? signals field none = emptyField? field := rfl

/-- A single value is assigned as a whole. -/
theorem hardwareInitializer_value (h : decl.init = some (.value e)) :
    hardwareInitializer layouts signals decl = [.assign (.name (signals.signal decl.name)) (hardwareExpr signals e)] :=
  (Generator.Emits.initializer_value h).value_eq signals

theorem hardwareInitializer_fields {values : List Expr} (h : decl.init = some (.fields values))
    (hlayout : layouts.ofType? decl.type = some layout) :
    hardwareInitializer layouts signals decl = (givenFields layout.fields values).filterMap fun part =>
      (fieldValue? signals part.1 part.2).map (.assign (.field (.name (signals.signal decl.name)) part.1.name)) :=
  (Generator.Emits.initializer_fields h hlayout).value_eq signals

/-- A variable without a first value has no assignment. -/
theorem hardwareInitializer_none (h : decl.Unassigned layouts) : hardwareInitializer layouts signals decl = [] :=
  (Generator.Emits.initializer_none h).value_eq signals

/-- The calls in a single value are reported. -/
theorem initializerWarnings_value (h : decl.init = some (.value e)) :
    initializerWarnings layouts defined decl = undefinedCalls defined e :=
  (Generator.Emits.initializer_value h).warnedBy_eq defined

theorem initializerWarnings_fields {values : List Expr} (h : decl.init = some (.fields values))
    (hlayout : layouts.ofType? decl.type = some layout) :
    initializerWarnings layouts defined decl = (values.take layout.fields.length).flatMap (undefinedCalls defined) :=
  (Generator.Emits.initializer_fields h hlayout).warnedBy_eq defined

/-- A variable without a first value has nothing to report. -/
theorem initializerWarnings_none (h : decl.Unassigned layouts) : initializerWarnings layouts defined decl = [] :=
  (Generator.Emits.initializer_none h).warnedBy_eq defined

/-- An assignment is made of its target and its value. -/
theorem hardwareAssignment_eq (assignment : Assignment) :
    hardwareAssignment signals assignment =
      .assign (hardwareExpr signals assignment.target) (hardwareExpr signals assignment.value) :=
  (Generator.Emits.sides assignment).value_eq signals

theorem assignmentWarnings_eq (assignment : Assignment) :
    assignmentWarnings defined assignment =
      undefinedCalls defined assignment.target ++ undefinedCalls defined assignment.value :=
  (Generator.Emits.sides assignment).warnedBy_eq defined

/-- A variable of a struct type is given back field by field. -/
theorem hardwareReturn_fields (h : layouts.ofType? type = some layout) (name : String) (loc : Location) :
    hardwareReturn layouts signals type (.ident name loc) = layout.fields.map fun field =>
      .assign (.field (.name Vhdl.resultPort) field.name) (.field (.name (signals.signal name)) field.name) :=
  (Generator.Emits.return_fields h name loc).value_eq signals

/-- Any other value is given back as a whole. -/
theorem hardwareReturn_value (h : layouts.ofType? type = none ∨ ∀ name loc, e ≠ .ident name loc) :
    hardwareReturn layouts signals type e = [.assign (.name Vhdl.resultPort) (hardwareExpr signals e)] :=
  (Generator.Emits.return_value h).value_eq signals

theorem loopCondition_some (condition : Expr) :
    loopCondition signals (some condition) = hardwareCondition signals condition := rfl

end Assignments

/-! ## Statements -/

/-- The sequential statements of a statement in a function that gives back a value of type `type`. -/
def hardwareStatement (layouts : Layouts) (type : DataType) (s : Statement) : ScopeM (List Vhdl.Stmt) :=
  Generator.madeBy (Generator.emitStatement "" type s) layouts

/-- The further arms of a branch. -/
def hardwareArms (layouts : Layouts) (type : DataType) (alternative : Alternative) : ScopeM Vhdl.Arms :=
  Generator.madeBy (Generator.emitArms "" type alternative) layouts

/-- The sequential statements of several statements in turn. -/
def hardwareStatements (layouts : Layouts) (type : DataType) (ss : List Statement) : ScopeM (List Vhdl.Stmt) :=
  Generator.madeBy (Generator.emitStatements "" type ss) layouts

/-- The sequential statements of a block. -/
def hardwareBlock (layouts : Layouts) (type : DataType) (body : List Statement) : ScopeM (List Vhdl.Stmt) :=
  inBlock (hardwareStatements layouts type body)

/-- The warnings about a statement of the function called `name`. -/
def statementWarnings (layouts : Layouts) (defined : List String) (name : String) (s : Statement) : List Diagnostic :=
  Generator.warnedBy (Generator.emitStatement name .void s) layouts defined

/-- The warnings about the further arms of a branch. -/
def armWarnings (layouts : Layouts) (defined : List String) (name : String) (alternative : Alternative) :
    List Diagnostic :=
  Generator.warnedBy (Generator.emitArms name .void alternative) layouts defined

/-- The warnings about several statements in turn. -/
def blockWarnings (layouts : Layouts) (defined : List String) (name : String) (ss : List Statement) : List Diagnostic :=
  Generator.warnedBy (Generator.emitStatements name .void ss) layouts defined

namespace Generator

variable {layouts : Layouts}

namespace Emits

variable {name : String} {type : DataType} {body ss : List Statement} {alternative : Alternative} {s : Statement}
  {first made : ScopeM (List Vhdl.Stmt)} {arms : ScopeM Vhdl.Arms} {ws ws' : List String → List Diagnostic}

theorem declaration (decl : Variable) :
    Emits layouts (emitStatement name type (.declare decl))
      (do modify (·.declare decl.name); looking (hardwareInitializer layouts · decl))
      (initializerWarnings layouts · decl) :=
  (declare decl.name).silent fun _ => emits_initializer decl layouts

/-- An assignment leaves the signals in sight as they are. -/
theorem assignment (assignment : Assignment) :
    Emits layouts (emitStatement name type (.assign assignment))
      (looking fun signals => [hardwareAssignment signals assignment]) (assignmentWarnings · assignment) :=
  (emits_assignment assignment layouts).returns ([·])

/-- A branch is told by its condition, its body and its further arms, in this order. -/
theorem branch (hbody : Emits layouts (emitStatements name type body) made ws)
    (harms : Emits layouts (emitArms name type alternative) arms ws') (condition : Expr) (loc : Location) :
    Emits layouts (emitStatement name type (.branch condition body alternative loc))
      (do
        let condition ← looking (hardwareCondition · condition)
        let body ← ClockedC.inBlock made
        return [.ifThen condition body (← arms)])
      fun defined => undefinedCalls defined condition ++ ws defined ++ ws' defined := by
  simp only [List.append_assoc]
  exact (emits_condition condition layouts).bind fun condition => hbody.inBlock.bind fun body =>
    harms.returns fun arms => [Vhdl.Stmt.ifThen condition body arms]

/-- A further arm is told by its condition, its body and the arms behind it. -/
theorem elseIf (hbody : Emits layouts (emitStatements name type body) made ws)
    (harms : Emits layouts (emitArms name type alternative) arms ws') (condition : Expr) :
    Emits layouts (emitArms name type (.elseIf condition body alternative))
      (do
        let condition ← looking (hardwareCondition · condition)
        let body ← ClockedC.inBlock made
        return .elsif condition body (← arms))
      fun defined => undefinedCalls defined condition ++ ws defined ++ ws' defined := by
  simp only [List.append_assoc]
  exact (emits_condition condition layouts).bind fun condition => hbody.inBlock.bind fun body =>
    harms.returns (Vhdl.Arms.elsif condition body)

/-- The last arm is told by its body. -/
theorem otherwise (hbody : Emits layouts (emitStatements name type body) made ws) :
    Emits layouts (emitArms name type (.otherwise body)) (do return .otherwise (← ClockedC.inBlock made)) ws :=
  hbody.inBlock.returns Vhdl.Arms.otherwise

/-- A loop is told by its condition and its body. -/
theorem whileLoop (hbody : Emits layouts (emitStatements name type body) made ws) (condition : Expr) (loc : Location) :
    Emits layouts (emitStatement name type (.whileLoop condition body loc))
      (do
        let condition ← looking (hardwareCondition · condition)
        return [.loop condition (← ClockedC.inBlock made)])
      fun defined => undefinedCalls defined condition ++ ws defined :=
  (emits_condition condition layouts).bind fun condition =>
    hbody.inBlock.returns fun body => [Vhdl.Stmt.loop condition body]

/-- The loop of a `for` loop behind its start. -/
theorem rounds (hbody : Emits layouts (emitStatements name type body) made ws) (condition : Option Expr)
    (step : Option Assignment) (first : List Vhdl.Stmt) :
    Emits layouts
      (do
        let condition ← emitLoopCondition condition
        let body ← Generator.inBlock (emitStatements name type body)
        return first ++ [.loop condition (body ++ (← emitStep step))])
      (do
        let condition ← looking (loopCondition · condition)
        let body ← ClockedC.inBlock made
        let step ← looking fun signals => step.toList.map (hardwareAssignment signals)
        return first ++ [.loop condition (body ++ step)])
      fun defined => condition.toList.flatMap (undefinedCalls defined) ++ ws defined ++
        step.toList.flatMap (assignmentWarnings defined) := by
  simp only [List.append_assoc]
  exact (emits_loopCondition condition layouts).bind fun condition => hbody.inBlock.bind fun body =>
    (emits_step step layouts).returns fun step => first ++ [Vhdl.Stmt.loop condition (body ++ step)]

/-- A `for` loop is a block; its step stands behind its body, and is gone through there. -/
theorem forLoop_none (hbody : Emits layouts (emitStatements name type body) made ws) (condition : Option Expr)
    (step : Option Assignment) (loc : Location) :
    Emits layouts (emitStatement name type (.forLoop none condition step body loc))
      (ClockedC.inBlock do
        let condition ← looking (loopCondition · condition)
        let body ← ClockedC.inBlock made
        let step ← looking fun signals => step.toList.map (hardwareAssignment signals)
        return [.loop condition (body ++ step)])
      fun defined => condition.toList.flatMap (undefinedCalls defined) ++ ws defined ++
        step.toList.flatMap (assignmentWarnings defined) :=
  (hbody.rounds condition step []).inBlock

/-- The start of a `for` loop is gone through in the block of the loop, in front of its condition. -/
theorem forLoop_some (hstart : Emits layouts (emitStatement name type s) first ws)
    (hbody : Emits layouts (emitStatements name type body) made ws') (condition : Option Expr)
    (step : Option Assignment) (loc : Location) :
    Emits layouts (emitStatement name type (.forLoop (some s) condition step body loc))
      (ClockedC.inBlock do
        let start ← first
        let condition ← looking (loopCondition · condition)
        let body ← ClockedC.inBlock made
        let step ← looking fun signals => step.toList.map (hardwareAssignment signals)
        return start ++ [.loop condition (body ++ step)])
      fun defined => ws defined ++ (condition.toList.flatMap (undefinedCalls defined) ++ ws' defined ++
        step.toList.flatMap (assignmentWarnings defined)) :=
  (hstart.bind fun start => hbody.rounds condition step start).inBlock

/-- An expression that is evaluated is reported as unused. -/
theorem evaluation (e : Expr) :
    Emits layouts (emitStatement name type (.evaluate e))
      (looking fun signals => [.unsynthesized (hardwareExpr signals e)])
      fun defined => undefinedCalls defined e ++ [(Warning.unusedValue name).diagnostic e.loc] :=
  (emits_expr e layouts).bind fun value =>
    (warn (.unusedValue name) e.loc).returns fun _ => [Vhdl.Stmt.unsynthesized value]

/-- The first statement is gone through before the others. -/
theorem cons (hfirst : Emits layouts (emitStatement name type s) first ws)
    (hrest : Emits layouts (emitStatements name type ss) made ws') :
    Emits layouts (emitStatements name type (s :: ss))
      (do
        let first ← first
        return first ++ (← made))
      fun defined => ws defined ++ ws' defined :=
  hfirst.bind fun first => hrest.returns (first ++ ·)

end Emits

/-- What is emitted in a function is told by its own views: what is made does not depend on the name of the function,
and what is reported not on the type of its result. -/
def Told {α : Type} (layouts : Layouts) (emit : String → DataType → EmitM α) : Prop :=
  ∀ name type, Emits layouts (emit name type) (madeBy (emit "" type) layouts) (warnedBy (emit name .void) layouts)

/-- What is told by any views is told by its own, since these are then the same. -/
theorem told_of {α : Type} {emit : String → DataType → EmitM α} {scope : DataType → ScopeM α}
    {ws : String → List String → List Diagnostic}
    (h : ∀ name type, Emits layouts (emit name type) (scope type) (ws name)) : Told layouts emit := by
  intro name type
  rw [(h "" type).madeBy_eq, funext (h name .void).warnedBy_eq]
  exact h name type

mutual

/-- A statement is told by its own views. -/
theorem told_statement (s : Statement) (layouts : Layouts) : Told layouts (emitStatement · · s) := by
  -- the views of a statement are what it makes and reports, so they need only be found once
  cases s with
  | declare decl => exact told_of fun _ _ => .declaration decl
  | assign assignment => exact told_of fun _ _ => .assignment assignment
  | branch condition body alternative loc =>
    exact told_of fun name type =>
      .branch (told_statements body layouts name type) (told_arms alternative layouts name type) condition loc
  | whileLoop condition body loc =>
    exact told_of fun name type => .whileLoop (told_statements body layouts name type) condition loc
  | forLoop start condition step body loc =>
    cases start with
    | none => exact told_of fun name type => .forLoop_none (told_statements body layouts name type) condition step loc
    | some start =>
      exact told_of fun name type =>
        .forLoop_some (told_statement start layouts name type) (told_statements body layouts name type) condition step
          loc
  | giveBack value loc =>
    cases value with
    | none => exact told_of fun _ _ => .pure []
    | some value => exact told_of fun _ type => emits_return type value layouts
  | leaveLoop loc => exact told_of fun _ _ => .pure [Vhdl.Stmt.exit]
  | nextRound loc => exact told_of fun _ _ => .pure [Vhdl.Stmt.next]
  | evaluate e => exact told_of fun _ _ => .evaluation e

/-- The further arms of a branch are told by their own views. -/
theorem told_arms (alternative : Alternative) (layouts : Layouts) : Told layouts (emitArms · · alternative) := by
  cases alternative with
  | nothing => exact told_of fun _ _ => .pure Vhdl.Arms.done
  | elseIf condition body rest =>
    exact told_of fun name type =>
      .elseIf (told_statements body layouts name type) (told_arms rest layouts name type) condition
  | otherwise body => exact told_of fun name type => .otherwise (told_statements body layouts name type)

/-- Statements in turn are told by their own views. -/
theorem told_statements (ss : List Statement) (layouts : Layouts) : Told layouts (emitStatements · · ss) := by
  cases ss with
  | nil => exact told_of fun _ _ => .pure []
  | cons s ss =>
    exact told_of fun name type => .cons (told_statement s layouts name type) (told_statements ss layouts name type)

end

/-- A statement is told by its sequential statements and its warnings. -/
theorem emits_statement (s : Statement) (layouts : Layouts) (name : String) (type : DataType) :
    Emits layouts (emitStatement name type s) (hardwareStatement layouts type s)
      (statementWarnings layouts · name s) := told_statement s layouts name type

/-- The further arms of a branch are told by what is made of them and reported about them. -/
theorem emits_arms (alternative : Alternative) (layouts : Layouts) (name : String) (type : DataType) :
    Emits layouts (emitArms name type alternative) (hardwareArms layouts type alternative)
      (armWarnings layouts · name alternative) := told_arms alternative layouts name type

/-- Statements are told by what is made of them and reported about them. -/
theorem emits_statements (ss : List Statement) (layouts : Layouts) (name : String) (type : DataType) :
    Emits layouts (emitStatements name type ss) (hardwareStatements layouts type ss)
      (blockWarnings layouts · name ss) := told_statements ss layouts name type

theorem emits_block (body : List Statement) (layouts : Layouts) (name : String) (type : DataType) :
    Emits layouts (emitBlock name type body) (hardwareBlock layouts type body) (blockWarnings layouts · name body) :=
  (emits_statements body layouts name type).inBlock

end Generator

section Statements

open Generator

variable (layouts : Layouts) (type : DataType) (defined : List String) (name : String) (loc : Location)

theorem hardwareStatement_declare (decl : Variable) :
    hardwareStatement layouts type (.declare decl) =
      (do modify (·.declare decl.name); looking (hardwareInitializer layouts · decl)) :=
  (Emits.declaration decl).madeBy_eq

theorem hardwareStatement_assign (assignment : Assignment) :
    hardwareStatement layouts type (.assign assignment) =
      looking fun signals => [hardwareAssignment signals assignment] :=
  (Emits.assignment assignment).madeBy_eq

/-- A branch is made of its condition, the block of its body and its further arms. -/
theorem hardwareStatement_branch (condition : Expr) (body : List Statement) (alternative : Alternative) :
    hardwareStatement layouts type (.branch condition body alternative loc) = do
      let condition ← looking (hardwareCondition · condition)
      let body ← inBlock (hardwareStatements layouts type body)
      return [.ifThen condition body (← hardwareArms layouts type alternative)] :=
  (Emits.branch (emits_statements body layouts "" type) (emits_arms alternative layouts "" type) condition
    loc).madeBy_eq

/-- A loop is made of its condition and the block of its body. -/
theorem hardwareStatement_whileLoop (condition : Expr) (body : List Statement) :
    hardwareStatement layouts type (.whileLoop condition body loc) = do
      let condition ← looking (hardwareCondition · condition)
      return [.loop condition (← inBlock (hardwareStatements layouts type body))] :=
  (Emits.whileLoop (emits_statements body layouts "" type) condition loc).madeBy_eq

/-- A `for` loop without a start is a loop with the step behind its body. -/
theorem hardwareStatement_forLoop_none (condition : Option Expr) (step : Option Assignment) (body : List Statement) :
    hardwareStatement layouts type (.forLoop none condition step body loc) = inBlock do
      let condition ← looking (loopCondition · condition)
      let body ← inBlock (hardwareStatements layouts type body)
      let step ← looking fun signals => step.toList.map (hardwareAssignment signals)
      return [.loop condition (body ++ step)] :=
  (Emits.forLoop_none (emits_statements body layouts "" type) condition step loc).madeBy_eq

/-- The start of a `for` loop stands in front of the loop. -/
theorem hardwareStatement_forLoop_some (start : Statement) (condition : Option Expr) (step : Option Assignment)
    (body : List Statement) :
    hardwareStatement layouts type (.forLoop (some start) condition step body loc) = inBlock do
      let start ← hardwareStatement layouts type start
      let condition ← looking (loopCondition · condition)
      let body ← inBlock (hardwareStatements layouts type body)
      let step ← looking fun signals => step.toList.map (hardwareAssignment signals)
      return start ++ [.loop condition (body ++ step)] :=
  (Emits.forLoop_some (emits_statement start layouts "" type) (emits_statements body layouts "" type) condition step
    loc).madeBy_eq

/-- A `return` with a value is assigned to the result. -/
theorem hardwareStatement_giveBack (value : Expr) :
    hardwareStatement layouts type (.giveBack (some value) loc) =
      looking fun signals => hardwareReturn layouts signals type value :=
  (emits_return type value layouts).madeBy_eq

/-- An expression that is evaluated becomes a remark. -/
theorem hardwareStatement_evaluate (e : Expr) :
    hardwareStatement layouts type (.evaluate e) = looking fun signals => [.unsynthesized (hardwareExpr signals e)] :=
  (Emits.evaluation e).madeBy_eq

theorem hardwareArms_elseIf (condition : Expr) (body : List Statement) (alternative : Alternative) :
    hardwareArms layouts type (.elseIf condition body alternative) = do
      let condition ← looking (hardwareCondition · condition)
      let body ← inBlock (hardwareStatements layouts type body)
      return .elsif condition body (← hardwareArms layouts type alternative) :=
  (Emits.elseIf (emits_statements body layouts "" type) (emits_arms alternative layouts "" type) condition).madeBy_eq

theorem hardwareArms_otherwise (body : List Statement) :
    hardwareArms layouts type (.otherwise body) =
      (do return .otherwise (← inBlock (hardwareStatements layouts type body))) :=
  (Emits.otherwise (emits_statements body layouts "" type)).madeBy_eq

/-- Statements are made one after the other. -/
theorem hardwareStatements_cons (s : Statement) (ss : List Statement) :
    hardwareStatements layouts type (s :: ss) = do
      let first ← hardwareStatement layouts type s
      return first ++ (← hardwareStatements layouts type ss) :=
  (Emits.cons (emits_statement s layouts "" type) (emits_statements ss layouts "" type)).madeBy_eq

theorem statementWarnings_declare (decl : Variable) :
    statementWarnings layouts defined name (.declare decl) = initializerWarnings layouts defined decl :=
  (Emits.declaration decl).warnedBy_eq defined

theorem statementWarnings_assign (assignment : Assignment) :
    statementWarnings layouts defined name (.assign assignment) = assignmentWarnings defined assignment :=
  (Emits.assignment assignment).warnedBy_eq defined

/-- A branch reports its condition, its body and its further arms, in this order. -/
theorem statementWarnings_branch (condition : Expr) (body : List Statement) (alternative : Alternative) :
    statementWarnings layouts defined name (.branch condition body alternative loc) =
      undefinedCalls defined condition ++ blockWarnings layouts defined name body ++
        armWarnings layouts defined name alternative :=
  (Emits.branch (emits_statements body layouts name .void) (emits_arms alternative layouts name .void) condition
    loc).warnedBy_eq defined

/-- A loop reports its condition and its body. -/
theorem statementWarnings_whileLoop (condition : Expr) (body : List Statement) :
    statementWarnings layouts defined name (.whileLoop condition body loc) =
      undefinedCalls defined condition ++ blockWarnings layouts defined name body :=
  (Emits.whileLoop (emits_statements body layouts name .void) condition loc).warnedBy_eq defined

theorem statementWarnings_forLoop_none (condition : Option Expr) (step : Option Assignment) (body : List Statement) :
    statementWarnings layouts defined name (.forLoop none condition step body loc) =
      condition.toList.flatMap (undefinedCalls defined) ++ blockWarnings layouts defined name body ++
        step.toList.flatMap (assignmentWarnings defined) :=
  (Emits.forLoop_none (emits_statements body layouts name .void) condition step loc).warnedBy_eq defined

/-- What there is to say about the start of a `for` loop is said first. -/
theorem statementWarnings_forLoop_some (start : Statement) (condition : Option Expr) (step : Option Assignment)
    (body : List Statement) :
    statementWarnings layouts defined name (.forLoop (some start) condition step body loc) =
      statementWarnings layouts defined name start ++
        statementWarnings layouts defined name (.forLoop none condition step body loc) := by
  rw [statementWarnings_forLoop_none]
  exact (Emits.forLoop_some (emits_statement start layouts name .void) (emits_statements body layouts name .void)
    condition step loc).warnedBy_eq defined

theorem statementWarnings_giveBack (value : Option Expr) :
    statementWarnings layouts defined name (.giveBack value loc) = value.toList.flatMap (undefinedCalls defined) := by
  cases value with
  | none => rfl
  | some value =>
    rw [Option.toList_some, List.flatMap_singleton]
    exact (emits_return .void value layouts).warnedBy_eq defined

theorem statementWarnings_evaluate (e : Expr) :
    statementWarnings layouts defined name (.evaluate e) =
      undefinedCalls defined e ++ [(Warning.unusedValue name).diagnostic e.loc] :=
  (Emits.evaluation e).warnedBy_eq defined

theorem armWarnings_elseIf (condition : Expr) (body : List Statement) (alternative : Alternative) :
    armWarnings layouts defined name (.elseIf condition body alternative) =
      undefinedCalls defined condition ++ blockWarnings layouts defined name body ++
        armWarnings layouts defined name alternative :=
  (Emits.elseIf (emits_statements body layouts name .void) (emits_arms alternative layouts name .void)
    condition).warnedBy_eq defined

theorem armWarnings_otherwise (body : List Statement) :
    armWarnings layouts defined name (.otherwise body) = blockWarnings layouts defined name body :=
  (Emits.otherwise (emits_statements body layouts name .void)).warnedBy_eq defined

/-- Statements report one after the other. -/
theorem blockWarnings_cons (s : Statement) (ss : List Statement) :
    blockWarnings layouts defined name (s :: ss) =
      statementWarnings layouts defined name s ++ blockWarnings layouts defined name ss :=
  (Emits.cons (emits_statement s layouts name .void) (emits_statements ss layouts name .void)).warnedBy_eq defined

end Statements

end ClockedC
