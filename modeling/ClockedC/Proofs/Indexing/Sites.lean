import ClockedC.Proofs.Hardware.DistinctNames
import ClockedC.Proofs.Layout.Unlocated

/-!
# Where names are applied

A call, a conversion and an element of an array are all written as a name with arguments in VHDL. Every such
application in the entity of a function is a conversion or comes from a call or an element in an expression of its
body. The expressions are listed in source order, each with the signals it is emitted with and with the variables
declared before it.
-/

namespace ClockedC

/-! ## Applications in VHDL -/

namespace Vhdl

/-- A name and its arguments. -/
abbrev Application := String × List Expr

/-- The name that an expression consists of. -/
def Expr.name? : Expr → Option String
  | .name n => some n
  | _ => none

mutual

/-- The names with arguments inside an expression. -/
def Expr.applications : Expr → List Application
  | .literal _ => []
  | .bits _ _ => []
  | .zeros => []
  | .name _ => []
  | .field base _ => base.applications
  | .apply function args =>
    function.name?.toList.map (·, args) ++ function.applications ++ Expr.applicationsAll args
  | .paren inner => inner.applications
  | .negate operand => operand.applications
  | .not operand => operand.applications
  | .binary _ left right => left.applications ++ right.applications

/-- The names with arguments inside several expressions. -/
def Expr.applicationsAll : List Expr → List Application
  | [] => []
  | e :: es => e.applications ++ Expr.applicationsAll es

end

theorem Expr.applicationsAll_eq_flatMap (es : List Expr) : applicationsAll es = es.flatMap applications :=
  eq_flatMap_of_cons rfl (fun _ _ => rfl) es

mutual

/-- The names with arguments inside a statement. -/
def Stmt.applications : Stmt → List Application
  | .assign target value => target.applications ++ value.applications
  | .ifThen condition body arms => condition.applications ++ Stmt.applicationsAll body ++ arms.applications
  | .loop condition body => condition.applications ++ Stmt.applicationsAll body
  | .exit => []
  | .next => []
  | .unsynthesized value => value.applications

/-- The names with arguments inside the further arms of a branch. -/
def Arms.applications : Arms → List Application
  | .done => []
  | .elsif condition body arms => condition.applications ++ Stmt.applicationsAll body ++ arms.applications
  | .otherwise body => Stmt.applicationsAll body

/-- The names with arguments inside several statements. -/
def Stmt.applicationsAll : List Stmt → List Application
  | [] => []
  | s :: ss => s.applications ++ Stmt.applicationsAll ss

end

theorem Stmt.applicationsAll_eq_flatMap (ss : List Stmt) : applicationsAll ss = ss.flatMap applications :=
  eq_flatMap_of_cons rfl (fun _ _ => rfl) ss

theorem Stmt.applicationsAll_append (ss ts : List Stmt) :
    applicationsAll (ss ++ ts) = applicationsAll ss ++ applicationsAll ts := by
  simp only [applicationsAll_eq_flatMap, List.flatMap_append]

/-- The names with arguments inside a declaration. -/
def Declaration.applications : Declaration → List Application
  | .signal _ _ => []
  | .array _ _ _ contents => Expr.applicationsAll (contents.getD [])

/-- The names with arguments inside an entity. -/
def Entity.applications (entity : Entity) : List Application :=
  entity.signals.flatMap Declaration.applications ++ Stmt.applicationsAll entity.body

end Vhdl

/-! ## Applications in the source -/

/-- A call, or an element of an array that is a variable. -/
inductive Application where
  | call (name : String) (args : List Expr)
  | element (name : String) (index : Expr)

/-- What becomes of an application. -/
def Application.hardware (signals : Signals) : Application → Vhdl.Application
  | call name args => (name, args.map (hardwareExpr signals))
  | element name index => (signals.signal name, [hardwareExpr signals index])

/-- The variable that an expression consists of. -/
def Expr.variable? : Expr → Option String
  | .ident name _ => some name
  | _ => none

/-- The application, if the outermost node is a call or an element of a variable. -/
def Expr.application? : Expr → Option Application
  | .element base index _ => base.variable?.map (.element · index)
  | .call name args _ => some (.call name args)
  | _ => none

/-- The calls and the elements of variables inside an expression. -/
def Expr.applications (e : Expr) : List Application := e.nodes.filterMap Expr.application?

theorem Expr.applications_element (base index : Expr) (loc : Location) :
    (Expr.element base index loc).applications =
      base.variable?.toList.map (.element · index) ++ base.applications ++ index.applications := by
  rw [applications, nodes, List.filterMap_cons, List.filterMap_append, List.append_assoc]
  cases h : base.variable? <;> simp [application?, h, applications]

/-- A binary operation adds no application. -/
theorem Expr.applications_binary (op : Operator) (left right : Expr) (loc : Location) :
    (Expr.binary op left right loc).applications = left.applications ++ right.applications :=
  List.filterMap_append

theorem Expr.applications_call (name : String) (args : List Expr) (loc : Location) :
    (Expr.call name args loc).applications = .call name args :: args.flatMap applications := by
  show _ :: (nodesOf args).filterMap application? = _
  rw [nodesOf_eq_flatMap, List.filterMap_flatMap]
  rfl

/-! ## Where applications come from -/

/-- The functions that convert and shift values. -/
def conversionNames : List String :=
  ["unsigned", "to_integer", "to_unsigned", "to_signed", "shift_left", "shift_right"]

/-- Every application is a conversion or one of the sources. -/
def AppliedFrom (sources applications : List Vhdl.Application) : Prop :=
  ∀ application ∈ applications, application.1 ∈ conversionNames ∨ application ∈ sources

namespace AppliedFrom

variable {sources sources' applications applications' : List Vhdl.Application}

theorem nil : AppliedFrom sources [] := by simp [AppliedFrom]

theorem append (h : AppliedFrom sources applications) (h' : AppliedFrom sources applications') :
    AppliedFrom sources (applications ++ applications') :=
  List.forall_mem_append.2 ⟨h, h'⟩

/-- Applications of many come from where those of each do. -/
theorem flatMap {α : Type} {as : List α} {g : α → List Vhdl.Application} (h : ∀ a ∈ as, AppliedFrom sources (g a)) :
    AppliedFrom sources (as.flatMap g) := by
  intro application hmem
  obtain ⟨a, ha, hmem⟩ := List.mem_flatMap.1 hmem
  exact h a ha application hmem

/-- Applications may come from more than they do. -/
theorem mono (h : AppliedFrom sources applications) (hsub : sources ⊆ sources') :
    AppliedFrom sources' applications :=
  fun application hmem => (h application hmem).imp_right (@hsub application)

theorem of_subset (h : applications ⊆ sources) : AppliedFrom sources applications :=
  fun _ hmem => .inr (h hmem)

/-! ## Operands and operators -/

variable {value value' : Vhdl.Expr} {e e' : Expr}

/-- A conversion is not from the source, but what it converts is. -/
theorem conversion {name : String} {args : List Vhdl.Expr} (hname : name ∈ conversionNames)
    (h : ∀ arg ∈ args, AppliedFrom sources arg.applications) :
    AppliedFrom sources (Vhdl.Expr.apply (.name name) args).applications := by
  rw [Vhdl.Expr.applications, Vhdl.Expr.applicationsAll_eq_flatMap]
  refine append (append ?_ nil) (flatMap h)
  intro application hmem
  rw [List.mem_singleton.1 hmem]
  exact .inl hname

theorem unsigned (h : AppliedFrom sources value.applications) :
    AppliedFrom sources (Vhdl.Expr.unsigned value).applications :=
  conversion (by decide) (List.forall_mem_singleton.2 h)

/-- The conversion of a literal has no other application. -/
theorem convertLiteral (text : String) : AppliedFrom sources (Vhdl.Expr.convertLiteral text).applications := by
  refine conversion ?_ ?_
  · split <;> decide
  · simp [Vhdl.Expr.ofNat, Vhdl.Expr.applications, nil]

/-- Making an operand adds conversions only. -/
theorem asOperand (h : AppliedFrom sources value.applications) :
    AppliedFrom sources (asOperand e value).applications := by
  unfold ClockedC.asOperand
  split
  · exact convertLiteral _
  · exact h.unsigned

theorem isNonzero (h : AppliedFrom sources value.applications) :
    AppliedFrom sources (isNonzero e value).applications :=
  append h.asOperand nil

theorem asCondition (h : AppliedFrom sources value.applications) :
    AppliedFrom sources (asCondition e value).applications := by
  unfold ClockedC.asCondition
  split
  · exact h
  · exact h.isNonzero

theorem asGateInput (h : AppliedFrom sources value.applications) :
    AppliedFrom sources (asGateInput e value).applications := by
  unfold ClockedC.asGateInput
  split
  · exact h
  · exact h.isNonzero

theorem asShiftAmount (h : AppliedFrom sources value.applications) :
    AppliedFrom sources (asShiftAmount e value).applications := by
  unfold ClockedC.asShiftAmount
  split
  · exact nil
  · exact conversion (by decide) (List.forall_mem_singleton.2 h.asOperand)

theorem asTerm (parent : Operator) (isRight : Bool) (h : AppliedFrom sources value.applications) :
    AppliedFrom sources (asTerm parent isRight e value).applications := by
  unfold ClockedC.asTerm
  split <;> exact h

/-- A binary operation adds conversions and shifts only. -/
theorem hardwareBinary (op : Operator) (h : AppliedFrom sources value.applications)
    (h' : AppliedFrom sources value'.applications) :
    AppliedFrom sources (hardwareBinary op e e' value value').applications := by
  have hshift {name : String} (hname : name ∈ conversionNames) :
      AppliedFrom sources (shiftOperand name e e' value value').applications :=
    conversion hname (by simpa using ⟨h.asOperand, h'.asShiftAmount⟩)
  cases op with
  | eq | ne | lt | le | gt | ge | bitAnd | bitOr | bitXor => exact append h.asOperand h'.asOperand
  | and | or => exact append h.asGateInput h'.asGateInput
  | shiftLeft | shiftRight => exact hshift (by decide)
  | add | sub | mul | div => exact append (h.asTerm _ false) (h'.asTerm _ true)

theorem hardwareUnary (op : UnaryOperator) (h : AppliedFrom sources value.applications) :
    AppliedFrom sources (hardwareUnary op e value).applications := by
  cases op with
  | not =>
    rw [ClockedC.hardwareUnary]
    split
    · exact h
    · exact append h.asOperand nil
  | bitNot => exact h.asOperand

end AppliedFrom

/-! ## Expressions -/

/-- Only a variable becomes a name. -/
theorem name?_hardwareExpr (signals : Signals) (e : Expr) :
    (hardwareExpr signals e).name? = e.variable?.map signals.signal := by
  cases e with
  | number text loc =>
    rw [hardwareExpr_number, hardwareLiteral]
    split <;> rfl
  | element base index loc => rw [hardwareExpr_element]; rfl
  | binary op left right loc =>
    rw [hardwareExpr_binary]
    cases op <;> rfl
  | unary op operand loc =>
    rw [hardwareExpr_unary, hardwareUnary.eq_def]
    split
    · split <;> rfl
    · rfl
  | _ => rfl

/-- What becomes of the applications inside an expression. -/
def Expr.hardwareApplications (signals : Signals) (e : Expr) : List Vhdl.Application :=
  e.applications.map (·.hardware signals)

/-- The applications in the value of an expression come from the expression. -/
theorem appliedFrom_hardwareExpr (signals : Signals) (e : Expr) :
    AppliedFrom (e.hardwareApplications signals) (hardwareExpr signals e).applications := by
  induction e with
  | number text loc =>
    rw [hardwareExpr_number, hardwareLiteral]
    split
    · exact .convertLiteral text
    · exact .nil
  | ident name loc => exact .nil
  | field base name loc ih => exact ih
  | element base index loc ihbase ihindex =>
    simp only [Expr.hardwareApplications, Expr.applications_element, List.map_append] at ihbase ihindex ⊢
    simp only [hardwareExpr_element, Vhdl.Expr.applications, Vhdl.Expr.applicationsAll, name?_hardwareExpr,
      List.append_nil]
    -- the base is the name of the application exactly if it is a variable
    refine .append (.append (.of_subset ?_) (ihbase.mono ?_)) (ihindex.mono (List.subset_append_right ..))
    · cases base.variable? <;> simp [Application.hardware]
    · exact List.Subset.trans (List.subset_append_right ..) (List.subset_append_left ..)
  | negate operand loc ih => exact ih.unsigned
  | binary op left right loc ihleft ihright =>
    rw [hardwareExpr_binary, Expr.hardwareApplications, Expr.applications_binary, List.map_append]
    exact .hardwareBinary op (ihleft.mono (List.subset_append_left ..)) (ihright.mono (List.subset_append_right ..))
  | unary op operand loc ih => exact ih.hardwareUnary op
  | call name args loc ih =>
    rw [hardwareExpr_call, Vhdl.Expr.applications, Vhdl.Expr.applicationsAll_eq_flatMap,
      List.flatMap_map, Expr.hardwareApplications, Expr.applications_call, List.map_cons, List.map_flatMap]
    refine .append (.append (.of_subset ?_) .nil) (.flatMap fun arg harg => (ih arg harg).mono ?_)
    · simp [Vhdl.Expr.name?, Application.hardware]
    · exact fun application h => List.mem_cons_of_mem _ (List.mem_flatMap_of_mem harg h)

/-! ## Sites -/

/-- An expression of a function, the signals it is emitted with, and the variables declared before it in the source. -/
structure Site where
  value : Expr
  signals : Signals
  before : List Variable

/-- What becomes of the applications at several sites. -/
def Site.applications (sites : List Site) : List Vhdl.Application :=
  sites.flatMap fun site => site.value.hardwareApplications site.signals

/-- The sites of a declaration, which counts as standing before its own value. The elements of an array are emitted
outside of the process, where no local variable is in sight. -/
def Variable.sites (signals : Signals) (before : List Variable) (decl : Variable) : List Site :=
  match decl.init with
  | some (.value value) => [⟨value, signals.declare decl.name, before ++ [decl]⟩]
  | some (.fields values) => values.map fun value => ⟨value, signals.declare decl.name, before ++ [decl]⟩
  | some (.elements values) => values.map fun value => ⟨value, signals.leaveBlock [], before ++ [decl]⟩
  | none => []

/-- The sites of an assignment. -/
def Assignment.sites (signals : Signals) (before : List Variable) (assignment : Assignment) : List Site :=
  [⟨assignment.target, signals, before⟩, ⟨assignment.value, signals, before⟩]

/-- The variables declared in the start of a `for` loop. -/
def startLocals (start : Option Statement) : List Variable := start.elim [] Statement.locals

mutual

/-- The sites of a statement. -/
def Statement.sites (signals : Signals) (before : List Variable) : Statement → List Site
  | .declare decl => decl.sites signals before
  | .assign assignment => assignment.sites signals before
  | .branch condition body alternative _ =>
    ⟨condition, signals, before⟩ ::
      (Statement.sitesAll signals before body ++ alternative.sites signals (before ++ Statement.localsOf body))
  | .whileLoop condition body _ => ⟨condition, signals, before⟩ :: Statement.sitesAll signals before body
  | .forLoop start condition step body _ =>
    let inner := signals.behindStart start
    let before' := before ++ startLocals start
    (match start with
      | some start => start.sites signals before
      | none => []) ++
      condition.toList.map (fun condition => ⟨condition, inner, before'⟩) ++
      step.toList.flatMap (Assignment.sites inner before') ++
      Statement.sitesAll inner before' body
  | .giveBack value _ => value.toList.map fun value => ⟨value, signals, before⟩
  | .leaveLoop _ => []
  | .nextRound _ => []
  | .evaluate value => [⟨value, signals, before⟩]

/-- The sites of the further arms of a branch. -/
def Alternative.sites (signals : Signals) (before : List Variable) : Alternative → List Site
  | .nothing => []
  | .elseIf condition body alternative =>
    ⟨condition, signals, before⟩ ::
      (Statement.sitesAll signals before body ++ alternative.sites signals (before ++ Statement.localsOf body))
  | .otherwise body => Statement.sitesAll signals before body

/-- The sites of several statements in turn. -/
def Statement.sitesAll (signals : Signals) (before : List Variable) : List Statement → List Site
  | [] => []
  | s :: ss => s.sites signals before ++ Statement.sitesAll (signals.behind s) (before ++ s.locals) ss

end

/-- The sites of a function. -/
def Function.sites (f : Function) : List Site := Statement.sitesAll (Signals.ofFunction f) [] f.body

/-- The sites of the start of a `for` loop. -/
def startSites (signals : Signals) (before : List Variable) (start : Option Statement) : List Site :=
  start.elim [] (Statement.sites signals before)

/-- The sites of a `for` loop in source order, each with what is declared before it. -/
theorem Statement.sites_forLoop (signals : Signals) (before : List Variable) (start : Option Statement)
    (condition : Option Expr) (step : Option Assignment) (body : List Statement) (loc : Location) :
    (Statement.forLoop start condition step body loc).sites signals before =
      startSites signals before start ++
        condition.toList.map (⟨·, signals.behindStart start, before ++ startLocals start⟩) ++
        step.toList.flatMap (Assignment.sites (signals.behindStart start) (before ++ startLocals start)) ++
        sitesAll (signals.behindStart start) (before ++ startLocals start) body := by
  cases start <;> rfl

theorem Statement.locals_forLoop (start : Option Statement) (condition : Option Expr) (step : Option Assignment)
    (body : List Statement) (loc : Location) :
    (Statement.forLoop start condition step body loc).locals = startLocals start ++ localsOf body := by
  cases start <;> rfl

/-! ## Statements -/

namespace AppliedFrom

variable {sites sites' : List Site} {applications : List Vhdl.Application}

/-- What comes from one site comes from all sites together. -/
theorem of_mem {site : Site} (hsite : site ∈ sites)
    (h : AppliedFrom (site.value.hardwareApplications site.signals) applications) :
    AppliedFrom (Site.applications sites) applications :=
  h.mono fun _ hmem => List.mem_flatMap_of_mem hsite hmem

/-- What comes from some sites comes from more sites. -/
theorem mono_sites (h : AppliedFrom (Site.applications sites) applications) (hsub : sites ⊆ sites') :
    AppliedFrom (Site.applications sites') applications := by
  refine h.mono fun application hmem => ?_
  obtain ⟨site, hsite, hmem⟩ := List.mem_flatMap.1 hmem
  exact List.mem_flatMap_of_mem (hsub hsite) hmem

/-- The value of an expression at a site. -/
theorem value {e : Expr} {signals : Signals} {before : List Variable} (h : ⟨e, signals, before⟩ ∈ sites) :
    AppliedFrom (Site.applications sites) (hardwareExpr signals e).applications :=
  of_mem h (appliedFrom_hardwareExpr signals e)

/-- The value of a condition at a site. -/
theorem condition {e : Expr} {signals : Signals} {before : List Variable} (h : ⟨e, signals, before⟩ ∈ sites) :
    AppliedFrom (Site.applications sites) (hardwareCondition signals e).applications :=
  of_mem h (appliedFrom_hardwareExpr signals e).asCondition

end AppliedFrom

/-- The values of fields are values that were given. -/
theorem mem_of_mem_givenFields {fields : List Field} {values : List Expr} {field : Field} {value : Expr}
    (h : (field, some value) ∈ givenFields fields values) : value ∈ values := by
  induction fields generalizing values with
  | nil => cases h
  | cons first fields ih =>
    cases values with
    | nil =>
      rcases List.mem_cons.1 h with h | h
      · cases h
      · exact ih h
    | cons v values =>
      rcases List.mem_cons.1 h with h | h
      · cases h
        exact List.mem_cons_self
      · exact List.mem_cons_of_mem v (ih h)

/-- The value of a field comes from the expression it is given. -/
theorem appliedFrom_fieldValue? {signals : Signals} {field : Field} {value : Option Expr} {result : Vhdl.Expr}
    {sources : List Vhdl.Application} (h : fieldValue? signals field value = some result)
    (hvalue : ∀ e ∈ value, AppliedFrom sources (hardwareExpr signals e).applications) :
    AppliedFrom sources result.applications := by
  cases value with
  | none =>
    rw [fieldValue?_none, emptyField?] at h
    split at h
    · cases h
      exact .convertLiteral _
    · cases h
    · cases h
      exact .nil
  | some e =>
    rw [fieldValue?_some] at h
    cases h
    unfold asField
    split
    · split
      · exact .convertLiteral _
      · exact hvalue _ rfl
    · exact hvalue e rfl

/-- The first value of a variable. -/
theorem appliedFrom_hardwareInitializer (layouts : Layouts) (signals : Signals) (before : List Variable)
    (decl : Variable) :
    AppliedFrom (Site.applications (decl.sites signals before))
      (Vhdl.Stmt.applicationsAll (hardwareInitializer layouts (signals.declare decl.name) decl)) := by
  rw [Vhdl.Stmt.applicationsAll_eq_flatMap]
  obtain ⟨e, he⟩ | ⟨values, layout, hvalues, hlayout⟩ | hnone := decl.init_cases layouts
  · rw [hardwareInitializer_value _ he, Variable.sites, he]
    exact .flatMap (List.forall_mem_singleton.2 (.value (List.mem_singleton_self _)))
  · rw [hardwareInitializer_fields _ hvalues hlayout, Variable.sites, hvalues]
    refine .flatMap fun s hs => ?_
    obtain ⟨⟨field, value⟩, hgiven, hs⟩ := List.mem_filterMap.1 hs
    obtain ⟨result, hresult, rfl⟩ := Option.map_eq_some_iff.1 hs
    refine appliedFrom_fieldValue? hresult ?_
    rintro e rfl
    exact .value (List.mem_map_of_mem (mem_of_mem_givenFields hgiven))
  · rw [hardwareInitializer_none _ hnone]
    exact .nil

/-- Both sides of an assignment come from its sites. -/
theorem appliedFrom_hardwareAssignment (signals : Signals) (before : List Variable) (assignment : Assignment) :
    AppliedFrom (Site.applications (assignment.sites signals before))
      (hardwareAssignment signals assignment).applications := by
  rw [hardwareAssignment_eq]
  exact .append (.value List.mem_cons_self) (.value (List.mem_cons_of_mem _ List.mem_cons_self))

/-- What is given back comes from the expression behind `return`. -/
theorem appliedFrom_hardwareReturn (layouts : Layouts) (signals : Signals) (before : List Variable) (type : DataType)
    (value : Expr) :
    AppliedFrom (Site.applications [⟨value, signals, before⟩])
      (Vhdl.Stmt.applicationsAll (hardwareReturn layouts signals type value)) := by
  rw [Vhdl.Stmt.applicationsAll_eq_flatMap]
  refine .flatMap fun s hs => ?_
  obtain ⟨layout, name, loc, hlayout, rfl⟩ | hvalue := return_cases layouts type value
  · rw [hardwareReturn_fields signals hlayout] at hs
    obtain ⟨field, -, rfl⟩ := List.mem_map.1 hs
    exact .nil
  · rw [hardwareReturn_value signals hvalue] at hs
    rw [List.mem_singleton.1 hs]
    exact .value (List.mem_singleton_self _)

/-- A `for` loop, in terms of its start and its body. -/
theorem AppliedFrom.forLoop {starts sites : List Site} {first rest : List Vhdl.Stmt} {signals : Signals}
    {before : List Variable} {condition : Option Expr} {step : Option Assignment}
    (hstart : AppliedFrom (Site.applications starts) (Vhdl.Stmt.applicationsAll first))
    (hbody : AppliedFrom (Site.applications sites) (Vhdl.Stmt.applicationsAll rest)) :
    AppliedFrom
      (Site.applications (starts ++ condition.toList.map (⟨·, signals, before⟩) ++
        step.toList.flatMap (Assignment.sites signals before) ++ sites))
      (Vhdl.Stmt.applicationsAll
        (first ++ [.loop (loopCondition signals condition)
          (rest ++ step.toList.map (hardwareAssignment signals))])) := by
  have hcondition : AppliedFrom (Site.applications (condition.toList.map (⟨·, signals, before⟩)))
      (loopCondition signals condition).applications := by
    cases condition with
    | none => exact .nil
    | some condition => exact .condition (List.mem_singleton_self _)
  have hstep : AppliedFrom (Site.applications (step.toList.flatMap (Assignment.sites signals before)))
      (Vhdl.Stmt.applicationsAll (step.toList.map (hardwareAssignment signals))) := by
    cases step with
    | none => exact .nil
    | some step => exact .append (appliedFrom_hardwareAssignment signals before step) .nil
  rw [Vhdl.Stmt.applicationsAll_append]
  refine .append (hstart.mono_sites ?_) (.append (.append (hcondition.mono_sites ?_) ?_) .nil)
  · simp
  · simp
  · rw [Vhdl.Stmt.applicationsAll_append]
    refine .append (hbody.mono_sites (List.subset_append_right ..)) (hstep.mono_sites ?_)
    exact List.subset_append_of_subset_left _ (List.subset_append_right ..)

section Statements

variable (layouts : Layouts) (type : DataType)

mutual

/-- The applications in the sequential statements of a statement come from its sites. -/
theorem appliedFrom_hardwareStatement (s : Statement) (signals : Signals) (before : List Variable) :
    AppliedFrom (Site.applications (s.sites signals before))
      (Vhdl.Stmt.applicationsAll ((hardwareStatement layouts type s).run signals).1) := by
  cases s with
  | declare decl =>
    rw [run_declare]
    exact appliedFrom_hardwareInitializer layouts signals before decl
  | assign assignment =>
    rw [run_assign]
    exact .append (appliedFrom_hardwareAssignment signals before assignment) .nil
  | branch condition body alternative loc =>
    have hbody := appliedFrom_hardwareStatements body signals before
    -- arms see what the body declares among the variables before them, though not among the signals
    have harms := appliedFrom_hardwareArms alternative signals (before ++ Statement.localsOf body)
    rw [run_branch (run_block body signals) (run_hardwareArms alternative signals)]
    refine .append (.append (.append (.condition List.mem_cons_self) (hbody.mono_sites ?_)) (harms.mono_sites ?_)) .nil
    · exact List.subset_cons_of_subset _ (List.subset_append_left ..)
    · exact List.subset_cons_of_subset _ (List.subset_append_right ..)
  | whileLoop condition body loc =>
    have hbody := appliedFrom_hardwareStatements body signals before
    rw [run_whileLoop (run_block body signals)]
    exact .append (.append (.condition List.mem_cons_self) (hbody.mono_sites (List.subset_cons_self ..))) .nil
  | forLoop start condition step body loc =>
    have hstart : AppliedFrom (Site.applications (startSites signals before start))
        (Vhdl.Stmt.applicationsAll (startStatements layouts type signals start)) := by
      cases start with
      | none => exact .nil
      | some start => exact appliedFrom_hardwareStatement start signals before
    have hbody := appliedFrom_hardwareStatements body (signals.behindStart start) (before ++ startLocals start)
    rw [fst_run_forLoop, Statement.sites_forLoop]
    exact hstart.forLoop hbody
  | giveBack value loc =>
    cases value with
    | none => exact .nil
    | some value =>
      rw [run_giveBack]
      exact appliedFrom_hardwareReturn layouts signals before type value
  | leaveLoop loc => exact .nil
  | nextRound loc => exact .nil
  | evaluate value =>
    rw [run_evaluate]
    exact .append (.value List.mem_cons_self) .nil

/-- The further arms of a branch come from their sites. -/
theorem appliedFrom_hardwareArms (alternative : Alternative) (signals : Signals) (before : List Variable) :
    AppliedFrom (Site.applications (alternative.sites signals before))
      ((hardwareArms layouts type alternative).run signals).1.applications := by
  cases alternative with
  | nothing => exact .nil
  | elseIf condition body rest =>
    have hbody := appliedFrom_hardwareStatements body signals before
    have harms := appliedFrom_hardwareArms rest signals (before ++ Statement.localsOf body)
    rw [run_elseIf (run_block body signals) (run_hardwareArms rest signals)]
    refine .append (.append (.condition List.mem_cons_self) (hbody.mono_sites ?_)) (harms.mono_sites ?_)
    · exact List.subset_cons_of_subset _ (List.subset_append_left ..)
    · exact List.subset_cons_of_subset _ (List.subset_append_right ..)
  | otherwise body =>
    rw [run_otherwise (run_block body signals)]
    exact appliedFrom_hardwareStatements body signals before

/-- The statements of a process come from the sites of the body. -/
theorem appliedFrom_hardwareStatements (ss : List Statement) (signals : Signals) (before : List Variable) :
    AppliedFrom (Site.applications (Statement.sitesAll signals before ss))
      (Vhdl.Stmt.applicationsAll ((hardwareStatements layouts type ss).run signals).1) := by
  cases ss with
  | nil => exact .nil
  | cons s ss =>
    have hfirst := appliedFrom_hardwareStatement s signals before
    have hrest := appliedFrom_hardwareStatements ss (signals.behind s) (before ++ s.locals)
    rw [fst_run_cons, Vhdl.Stmt.applicationsAll_append]
    exact .append (hfirst.mono_sites (List.subset_append_left ..)) (hrest.mono_sites (List.subset_append_right ..))

end

end Statements

/-! ## Declarations -/

/-- An element of an array comes from the expression it is given. -/
theorem appliedFrom_hardwareElement {signals : Signals} {type : DataType} {value : Option Expr}
    {sources : List Vhdl.Application}
    (hvalue : ∀ e ∈ value, AppliedFrom sources (hardwareExpr signals e).applications) :
    AppliedFrom sources (hardwareElement signals type value).applications := by
  cases value with
  | none =>
    rw [hardwareElement_none, emptyElement]
    split <;> exact .nil
  | some e =>
    rw [hardwareElement_some]
    unfold asElement
    split
    · split
      · exact .nil
      · exact hvalue e rfl
    · split
      · exact .nil
      · exact hvalue e rfl

/-- The first contents of an array. -/
theorem appliedFrom_hardwareDeclaration (signals : Signals) (before : List Variable) (decl : Variable) :
    AppliedFrom (Site.applications (decl.sites signals before))
      (hardwareDeclaration (signals.leaveBlock []) decl).applications := by
  rw [hardwareDeclaration_eq, Variable.sites]
  cases decl.length with
  | none => exact .nil
  | some length =>
    cases decl.init with
    | none => exact .nil
    | some init =>
      cases init with
      | value | fields => exact .nil
      | elements values =>
        simp only [Option.elim, hardwareContents_elements, Vhdl.Declaration.applications,
          Vhdl.Expr.applicationsAll_eq_flatMap, Option.getD_some, List.flatMap_map]
        refine .flatMap fun i _ => appliedFrom_hardwareElement fun e he => ?_
        exact .value (List.mem_map_of_mem (List.mem_of_getElem? he))

mutual

/-- The applications in the declarations of the variables of a statement come from its sites. -/
theorem appliedFrom_locals (s : Statement) (signals : Signals) (before : List Variable) :
    ∀ decl ∈ s.locals, AppliedFrom (Site.applications (s.sites signals before))
      (hardwareDeclaration (signals.leaveBlock []) decl).applications := by
  intro decl hdecl
  cases s with
  | declare decl' =>
    rw [List.mem_singleton.1 hdecl]
    exact appliedFrom_hardwareDeclaration signals before decl'
  | branch condition body alternative loc =>
    rcases List.mem_append.1 hdecl with hdecl | hdecl
    · refine (appliedFrom_localsOf body signals before decl hdecl).mono_sites ?_
      exact List.subset_cons_of_subset _ (List.subset_append_left ..)
    · refine (appliedFrom_armLocals alternative signals (before ++ Statement.localsOf body) decl hdecl).mono_sites ?_
      exact List.subset_cons_of_subset _ (List.subset_append_right ..)
  | whileLoop condition body loc =>
    exact (appliedFrom_localsOf body signals before decl hdecl).mono_sites (List.subset_cons_self ..)
  | forLoop start condition step body loc =>
    rw [Statement.sites_forLoop]
    rw [Statement.locals_forLoop] at hdecl
    rcases List.mem_append.1 hdecl with hdecl | hdecl
    · cases start with
      | none => cases hdecl
      | some start => exact (appliedFrom_locals start signals before decl hdecl).mono_sites (by simp [startSites])
    · -- what the start brings into sight does not count where arrays are declared
      have hinner : (signals.behindStart start).leaveBlock [] = signals.leaveBlock [] := by
        cases start with
        | none => rfl
        | some start => exact signals.leaveBlock_behind start []
      rw [← hinner]
      exact (appliedFrom_localsOf body _ _ decl hdecl).mono_sites (List.subset_append_right ..)
  | assign | giveBack | leaveLoop | nextRound | evaluate => cases hdecl

/-- The signals declared in further arms come from their sites. -/
theorem appliedFrom_armLocals (alternative : Alternative) (signals : Signals) (before : List Variable) :
    ∀ decl ∈ alternative.locals, AppliedFrom (Site.applications (alternative.sites signals before))
      (hardwareDeclaration (signals.leaveBlock []) decl).applications := by
  intro decl hdecl
  cases alternative with
  | nothing => cases hdecl
  | elseIf condition body rest =>
    rcases List.mem_append.1 hdecl with hdecl | hdecl
    · refine (appliedFrom_localsOf body signals before decl hdecl).mono_sites ?_
      exact List.subset_cons_of_subset _ (List.subset_append_left ..)
    · refine (appliedFrom_armLocals rest signals (before ++ Statement.localsOf body) decl hdecl).mono_sites ?_
      exact List.subset_cons_of_subset _ (List.subset_append_right ..)
  | otherwise body => exact appliedFrom_localsOf body signals before decl hdecl

/-- The signals declared in statements come from their sites. -/
theorem appliedFrom_localsOf (ss : List Statement) (signals : Signals) (before : List Variable) :
    ∀ decl ∈ Statement.localsOf ss, AppliedFrom (Site.applications (Statement.sitesAll signals before ss))
      (hardwareDeclaration (signals.leaveBlock []) decl).applications := by
  intro decl hdecl
  cases ss with
  | nil => cases hdecl
  | cons s ss =>
    rcases List.mem_append.1 hdecl with hdecl | hdecl
    · exact (appliedFrom_locals s signals before decl hdecl).mono_sites (List.subset_append_left ..)
    · rw [← signals.leaveBlock_behind s]
      exact (appliedFrom_localsOf ss _ _ decl hdecl).mono_sites (List.subset_append_right ..)

end

/-- Every application in the entity of a function is a conversion or comes from a site of the function. -/
theorem appliedFrom_hardwareEntity (layouts : Layouts) (f : Function) :
    AppliedFrom (Site.applications f.sites) (hardwareEntity layouts f).applications := by
  refine .append (.flatMap fun declaration hdeclaration => ?_) ?_
  · rw [hardwareEntity_signals] at hdeclaration
    obtain ⟨decl, hdecl, rfl⟩ := List.mem_map.1 hdeclaration
    exact appliedFrom_localsOf f.body (Signals.ofFunction f) [] decl (mem_of_mem_firstDeclarations hdecl)
  · rw [hardwareEntity_body]
    exact appliedFrom_hardwareStatements layouts f.result f.body _ []

end ClockedC
