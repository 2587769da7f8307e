import ClockedC.Proofs.Hardware.Scope

/-!
# Entities

What becomes of a function. Its local variables become signals, of several declarations of one name the first, and what
is reported about them depends on the signals in sight as well. The body is gone through behind them, with the signals
as they are at the beginning of the function.
-/

namespace ClockedC

/-! ## Local variables -/

/-- The declarations without those of a name that is in `seen` or comes earlier. -/
def firstDeclarations (seen : List String) : List Variable → List Variable
  | [] => []
  | decl :: decls =>
    if decl.name ∈ seen then firstDeclarations seen decls
    else decl :: firstDeclarations (decl.name :: seen) decls

/-- The elements that an array is given. -/
def givenElements : Option Initializer → List Expr
  | some (.elements values) => values
  | _ => []

/-- An element of an array of type `type` from what is given for it. -/
def hardwareElement (signals : Signals) (type : DataType) (given : Option Expr) : Vhdl.Expr :=
  ((Generator.madeBy (Generator.emitElement type given) {}).run signals).1

/-- The first values of an array of `length` elements. -/
def hardwareContents (signals : Signals) (type : DataType) (length : Nat) (init : Option Initializer) :
    Option (List Vhdl.Expr) :=
  ((Generator.madeBy (Generator.emitContents type length init) {}).run signals).1

/-- The signal of a local variable. -/
def hardwareDeclaration (signals : Signals) (decl : Variable) : Vhdl.Declaration :=
  ((Generator.madeBy (Generator.emitSignal decl) {}).run signals).1

/-- The warnings about the first values of a local variable that is an array. -/
def contentsWarnings (defined : List String) (decl : Variable) : List Diagnostic :=
  Generator.warnedBy (Generator.emitSignal decl) {} defined

/-- The warning about a local variable of the function called `function` that has the name of a parameter. -/
def shadowWarnings (signals : Signals) (function : String) (decl : Variable) : List Diagnostic :=
  (signals.shadow? decl.name).toList.map fun signal =>
    (Warning.shadowedPort decl.name function signal).diagnostic decl.loc

/-- The warnings about a declaration in the function called `function`. -/
def declarationWarnings (signals : Signals) (defined : List String) (function : String) (decl : Variable) :
    List Diagnostic :=
  shadowWarnings signals function decl ++ contentsWarnings defined decl

/-- What is reported about the declarations of the function called `function`; those of a name in `seen` do not
count. -/
def declarationEvents (signals : Signals) (defined : List String) (function : String) (seen : List String)
    (decls : List Variable) : List Event :=
  ((Generator.emitLocals function seen decls).run { layouts := {}, signals, defined }).2.log

/-- The first elements of a list are those at the first places. -/
theorem flatMap_range_getElem? {α β : Type} (f : α → List β) (xs : List α) (n : Nat) :
    ((List.range n).flatMap fun i => xs[i]?.toList.flatMap f) = (xs.take n).flatMap f := by
  induction n with
  | zero => rfl
  | succ n ih =>
    rw [List.range_succ, List.flatMap_append, ih, List.flatMap_singleton, List.take_add_one, List.flatMap_append]

namespace Generator

variable {α β : Type}

/-- A step for every member of a list makes a list, and gives the warnings of all of them. -/
theorem Emits.mapM {layouts : Layouts} {f : α → EmitM β} {value : Signals → α → β}
    {ws : List String → α → List Diagnostic} (h : ∀ a, Emits layouts (f a) (looking (value · a)) (ws · a))
    (as : List α) :
    Emits layouts (as.mapM f) (looking fun signals => as.map (value signals))
      fun defined => as.flatMap (ws defined) := by
  induction as with
  | nil => exact .pure []
  | cons a as ih =>
    rw [List.mapM_cons]
    exact (h a).bind fun b => ih.returns (b :: ·)

/-- An element is told by what is made of its value and reported about it. -/
theorem emits_element (type : DataType) (given : Option Expr) (layouts : Layouts) :
    Emits layouts (emitElement type given) (looking (hardwareElement · type given))
      fun defined => given.toList.flatMap (undefinedCalls defined) := by
  cases given with
  | none => exact .pure (emptyElement type)
  | some e =>
    simp only [Option.toList_some, List.flatMap_singleton]
    exact (emits_expr e layouts).returns (asElement type e)

/-- Only the values that an array has room for are gone through. -/
theorem Emits.elements (type : DataType) (length : Nat) (values : List Expr) (layouts : Layouts) :
    Emits layouts (emitContents type length (some (.elements values)))
      (looking fun signals => some ((List.range length).map fun i => hardwareElement signals type values[i]?))
      fun defined => (values.take length).flatMap (undefinedCalls defined) := by
  simp only [← flatMap_range_getElem?]
  exact (Emits.mapM (fun i => emits_element type values[i]? layouts) (List.range length)).returns some

/-- The first contents of an array are told by its elements. -/
theorem emits_contents (type : DataType) (length : Nat) (init : Option Initializer) (layouts : Layouts) :
    Emits layouts (emitContents type length init) (looking (hardwareContents · type length init))
      fun defined => ((givenElements init).take length).flatMap (undefinedCalls defined) := by
  have hnone : Emits layouts (Pure.pure none) (looking fun _ => (none : Option (List Vhdl.Expr)))
      fun defined => (([] : List Expr).take length).flatMap (undefinedCalls defined) := by
    rw [List.take_nil]
    exact .pure none
  cases init with
  | none => exact hnone
  | some init =>
    cases init with
    | elements values =>
      have hvalue : (hardwareContents · type length (some (.elements values))) = _ :=
        funext (Emits.elements type length values {}).value_eq
      rw [hvalue]
      exact .elements type length values layouts
    | value e => exact hnone
    | fields values => exact hnone

/-- A step behind the name of a local variable is told for any name. -/
theorem Emits.localSignal_bind {layouts : Layouts} {name : String} {next : String → EmitM α}
    {ws : List String → List Diagnostic} (v : String → Signals → α)
    (h : ∀ target, Emits layouts (next target) (looking (v target)) ws) :
    Emits layouts (localSignal name >>= next) (looking fun signals => v (signals.localSignal name) signals) ws :=
  ⟨fun g hg => (h (g.signals.localSignal name)).run_eq g hg⟩

/-- A variable without a length is a signal, about which nothing is reported. -/
theorem Emits.scalar {decl : Variable} (h : decl.length = none) (layouts : Layouts) :
    Emits layouts (emitSignal decl)
      (looking fun signals => .signal (signals.localSignal decl.name) decl.type.signalType) fun _ => [] := by
  refine .localSignal_bind (fun name _ => Vhdl.Declaration.signal name decl.type.signalType) fun name => ?_
  rw [h]
  exact .pure _

/-- An array is told by its first contents. -/
theorem Emits.array {decl : Variable} {length : Nat} (h : decl.length = some length) (layouts : Layouts) :
    Emits layouts (emitSignal decl)
      (looking fun signals => .array (signals.localSignal decl.name) length decl.type.signalType
        (hardwareContents signals decl.type length decl.init))
      fun defined => ((givenElements decl.init).take length).flatMap (undefinedCalls defined) := by
  refine .localSignal_bind (fun name signals => Vhdl.Declaration.array name length decl.type.signalType
    (hardwareContents signals decl.type length decl.init)) fun name => ?_
  rw [h]
  exact (emits_contents decl.type length decl.init layouts).returns
    (Vhdl.Declaration.array name length decl.type.signalType)

/-- The signal of a declaration is told by what is made of it and reported about it. -/
theorem emits_signal (decl : Variable) (layouts : Layouts) :
    Emits layouts (emitSignal decl) (looking (hardwareDeclaration · decl)) (contentsWarnings · decl) := by
  have hself {value : Signals → Vhdl.Declaration} {ws : List String → List Diagnostic}
      (h : ∀ layouts, Emits layouts (emitSignal decl) (looking value) ws) :
      Emits layouts (emitSignal decl) (looking (hardwareDeclaration · decl)) (contentsWarnings · decl) := by
    have hvalue : (hardwareDeclaration · decl) = value := funext (h {}).value_eq
    have hwarnings : (contentsWarnings · decl) = ws := funext (h {}).warnedBy_eq
    rw [hvalue, hwarnings]
    exact h layouts
  cases hlength : decl.length with
  | none => exact hself (.scalar hlength)
  | some length => exact hself (.array hlength)

end Generator

section Declarations

open Generator

variable (signals : Signals) (defined : List String) {decl : Variable} {length : Nat}

/-- An element is made of the value it is given. -/
theorem hardwareElement_some (type : DataType) (e : Expr) :
    hardwareElement signals type (some e) = asElement type e (hardwareExpr signals e) := rfl

/-- An element without a value is empty. -/
theorem hardwareElement_none (type : DataType) : hardwareElement signals type none = emptyElement type := rfl

theorem hardwareContents_elements (type : DataType) (length : Nat) (values : List Expr) :
    hardwareContents signals type length (some (.elements values)) =
      some ((List.range length).map fun i => hardwareElement signals type values[i]?) :=
  (Emits.elements type length values {}).value_eq signals

/-- A variable without a length becomes a plain signal. -/
theorem hardwareDeclaration_scalar (h : decl.length = none) :
    hardwareDeclaration signals decl = .signal (signals.localSignal decl.name) decl.type.signalType :=
  (Emits.scalar h {}).value_eq signals

theorem hardwareDeclaration_array (h : decl.length = some length) :
    hardwareDeclaration signals decl = .array (signals.localSignal decl.name) length decl.type.signalType
      (hardwareContents signals decl.type length decl.init) :=
  (Emits.array h {}).value_eq signals

/-- The signal of a declaration, by whether the variable has a length. -/
theorem hardwareDeclaration_eq (decl : Variable) :
    hardwareDeclaration signals decl =
      decl.length.elim (.signal (signals.localSignal decl.name) decl.type.signalType) fun length =>
        .array (signals.localSignal decl.name) length decl.type.signalType
          (hardwareContents signals decl.type length decl.init) := by
  cases h : decl.length with
  | none => exact hardwareDeclaration_scalar signals h
  | some length => exact hardwareDeclaration_array signals h

theorem contentsWarnings_scalar (h : decl.length = none) : contentsWarnings defined decl = [] :=
  (Emits.scalar h {}).warnedBy_eq defined

theorem contentsWarnings_array (h : decl.length = some length) :
    contentsWarnings defined decl = ((givenElements decl.init).take length).flatMap (undefinedCalls defined) :=
  (Emits.array h {}).warnedBy_eq defined

end Declarations

/-! ## What is reported about declarations -/

namespace Generator

/-- Whatever the generator, the step makes a value of its signals, and what it reports depends on the signals and on the
functions that are defined. Nothing else is read or changed. -/
structure Declares (step : EmitM α) (value : Signals → α) (events : Signals → List String → List Event) : Prop where
  run_eq : ∀ g : Generator, step.run g = (value g.signals, g.report (events g.signals g.defined))

namespace Declares

variable {step : EmitM α} {value : Signals → α} {events : Signals → List String → List Event}

theorem of_emits {ws : List String → List Diagnostic} (h : ∀ layouts, Emits layouts step (looking value) ws) :
    Declares step value fun _ defined => (ws defined).map .reported :=
  ⟨fun g => (h g.layouts).run_eq g rfl⟩

theorem pure (a : α) : Declares (Pure.pure a) (fun _ => a) fun _ _ => [] :=
  of_emits fun _ => .pure a

/-- Steps in turn make what the second one makes of the first, and report both. -/
theorem bind {next : α → EmitM β} {value' : α → Signals → β} {events' : Signals → List String → List Event}
    (h : Declares step value events) (hnext : ∀ a, Declares (next a) (value' a) events') :
    Declares (step >>= next) (fun signals => value' (value signals) signals)
      fun signals defined => events signals defined ++ events' signals defined := by
  constructor
  intro g
  rw [StateT.run_bind, h.run_eq g]
  show (next (value g.signals)).run _ = _
  rw [(hnext _).run_eq, ← report_report]
  rfl

/-- What is made of the result adds no report. -/
theorem returns (h : Declares step value events) (f : α → β) :
    Declares (do return f (← step)) (fun signals => f (value signals)) events := by
  have hbind := h.bind fun a => .pure (f a)
  simpa only [List.append_nil] using hbind

theorem log_eq (h : Declares step value events) (signals : Signals) (defined : List String) :
    (step.run { layouts := {}, signals, defined }).2.log = events signals defined := by
  rw [h.run_eq]
  rfl

end Declares

/-- A shadowed parameter is reported, and nothing is made. -/
theorem declares_shadow (function : String) (decl : Variable) :
    Declares (warnShadow function decl) (fun _ => ()) fun signals _ =>
      (shadowWarnings signals function decl).map .reported := by
  constructor
  intro g
  show ((g.signals.shadow? decl.name).forM fun signal =>
    warn (.shadowedPort decl.name function signal) decl.loc : EmitM Unit).run g = _
  rw [shadowWarnings]
  cases g.signals.shadow? decl.name with
  | none =>
    rw [Option.toList_none, List.map_nil, List.map_nil, report_nil]
    rfl
  | some signal => rfl

theorem declares_declaration (function : String) (decl : Variable) :
    Declares (emitDeclaration function decl) (hardwareDeclaration · decl) fun signals defined =>
      (declarationWarnings signals defined function decl).map .reported := by
  simp only [declarationWarnings, List.map_append]
  exact (declares_shadow function decl).bind fun _ => .of_emits (emits_signal decl)

namespace Declares

variable {function : String} {seen : List String} {decl : Variable} {decls : List Variable}
  {value : Signals → List Vhdl.Declaration} {events : Signals → List String → List Event}

/-- A name that was declared before is reported and makes no signal. -/
theorem again (h : decl.name ∈ seen) (hrest : Declares (emitLocals function seen decls) value events) :
    Declares (emitLocals function seen (decl :: decls)) value fun signals defined =>
      .declaredAgain decl.name function :: events signals defined := by
  rw [emitLocals, if_pos h]
  constructor
  intro g
  show (emitLocals function seen decls).run (g.report [.declaredAgain decl.name function]) = _
  rw [hrest.run_eq, report_report]
  rfl

/-- A name that is declared first makes its signal in front of the others. -/
theorem first (h : decl.name ∉ seen) (hrest : Declares (emitLocals function (decl.name :: seen) decls) value events) :
    Declares (emitLocals function seen (decl :: decls))
      (fun signals => hardwareDeclaration signals decl :: value signals)
      fun signals defined =>
        (declarationWarnings signals defined function decl).map .reported ++ events signals defined := by
  rw [emitLocals, if_neg h]
  exact (declares_declaration function decl).bind fun first => hrest.returns (first :: ·)

end Declares

/-- The declarations that count become signals. -/
theorem declares_locals (function : String) (seen : List String) (decls : List Variable) :
    Declares (emitLocals function seen decls)
      (fun signals => (firstDeclarations seen decls).map (hardwareDeclaration signals))
      (declarationEvents · · function seen decls) := by
  have hself {seen decls value events} (h : Declares (emitLocals function seen decls) value events) :
      Declares (emitLocals function seen decls) value (declarationEvents · · function seen decls) := by
    have hevents : (declarationEvents · · function seen decls) = events :=
      funext fun signals => funext fun defined => h.log_eq signals defined
    rwa [hevents]
  induction decls generalizing seen with
  | nil => exact hself (.pure [])
  | cons decl decls ih =>
    rw [firstDeclarations]
    by_cases h : decl.name ∈ seen
    · rw [if_pos h]
      exact hself ((ih seen).again h)
    · rw [if_neg h]
      exact hself ((ih (decl.name :: seen)).first h)

end Generator

section Events

variable {function : String} {seen : List String} {decl : Variable} (signals : Signals) (defined : List String)
  (decls : List Variable)

/-- A name that was declared before is reported as such. -/
theorem declarationEvents_again (h : decl.name ∈ seen) :
    declarationEvents signals defined function seen (decl :: decls) =
      .declaredAgain decl.name function :: declarationEvents signals defined function seen decls :=
  ((Generator.declares_locals function seen decls).again h).log_eq signals defined

theorem declarationEvents_first (h : decl.name ∉ seen) :
    declarationEvents signals defined function seen (decl :: decls) =
      (declarationWarnings signals defined function decl).map .reported ++
        declarationEvents signals defined function (decl.name :: seen) decls :=
  ((Generator.declares_locals function (decl.name :: seen) decls).first h).log_eq signals defined

end Events

/-! ## Functions -/

/-- The entity of a function. -/
def hardwareEntity (layouts : Layouts) (f : Function) : Vhdl.Entity :=
  ((Generator.emitEntity f).run { layouts }).1

/-- What is reported about a function. -/
def functionEvents (layouts : Layouts) (defined : List String) (f : Function) : List Event :=
  ((Generator.emitFunction f).run { layouts, defined }).2.log

namespace Generator

/-- The signals in sight before a body are in sight behind it. -/
theorem run_emitBlock (name : String) (type : DataType) (body : List Statement) (g : Generator) :
    (emitBlock name type body).run g =
      (((hardwareBlock g.layouts type body).run g.signals).1,
        g.report ((blockWarnings g.layouts g.defined name body).map .reported)) := by
  have hsignals : ((hardwareBlock g.layouts type body).run g.signals).2 = g.signals :=
    congrArg Prod.snd (run_block body g.signals)
  rw [(emits_block body g.layouts name type).run_eq g rfl, hsignals]
  rfl

/-- The parts of an entity, and what is reported when they are made. -/
theorem run_emitEntity_eq (f : Function) (g : Generator) :
    (emitEntity f).run g =
      ({ name := f.name
         inputs := f.parameters.map fun p => ((Signals.ofFunction f).signal p.name, p.type.signalType)
         output := f.result.signalType
         signals := (firstDeclarations [] f.locals).map (hardwareDeclaration (.ofFunction f))
         body := ((hardwareBlock g.layouts f.result f.body).run (.ofFunction f)).1 },
        ({ g with signals := .ofFunction f } : Generator).report
          (declarationEvents (.ofFunction f) g.defined f.name [] f.locals ++
            (blockWarnings g.layouts g.defined f.name f.body).map .reported)) := by
  let begun : Generator := { g with signals := .ofFunction f }
  let declared := begun.report (declarationEvents (.ofFunction f) g.defined f.name [] f.locals)
  -- the signals of the function are set before any of them is looked up
  show (do
    let locals ← emitLocals f.name [] f.locals
    let body ← emitBlock f.name f.result f.body
    return ({
      name := f.name
      inputs := f.parameters.map fun p => ((Signals.ofFunction f).signal p.name, p.type.signalType)
      output := f.result.signalType, signals := locals, body } : Vhdl.Entity) : EmitM Vhdl.Entity).run begun = _
  rw [StateT.run_bind, (declares_locals f.name [] f.locals).run_eq]
  -- the body is gone through with the signals that the local variables were declared with
  show (do
    let body ← emitBlock f.name f.result f.body
    return ({
      name := f.name
      inputs := f.parameters.map fun p => ((Signals.ofFunction f).signal p.name, p.type.signalType)
      output := f.result.signalType
      signals := (firstDeclarations [] f.locals).map (hardwareDeclaration (.ofFunction f)), body } : Vhdl.Entity)
      : EmitM Vhdl.Entity).run declared = _
  rw [StateT.run_bind, run_emitBlock, ← report_report]
  rfl

end Generator

/-- The entity of a function, part by part. -/
theorem hardwareEntity_eq (layouts : Layouts) (f : Function) :
    hardwareEntity layouts f =
      { name := f.name
        inputs := f.parameters.map fun p => ((Signals.ofFunction f).signal p.name, p.type.signalType)
        output := f.result.signalType
        signals := (firstDeclarations [] f.locals).map (hardwareDeclaration (.ofFunction f))
        body := ((hardwareBlock layouts f.result f.body).run (.ofFunction f)).1 } := by
  rw [hardwareEntity, Generator.run_emitEntity_eq]

/-- The ports of an entity are those of the parameters, in order. -/
theorem hardwareEntity_inputs (layouts : Layouts) (f : Function) :
    (hardwareEntity layouts f).inputs =
      f.parameters.map fun p => ((Signals.ofFunction f).signal p.name, p.type.signalType) := by
  rw [hardwareEntity_eq]

theorem hardwareEntity_signals (layouts : Layouts) (f : Function) :
    (hardwareEntity layouts f).signals =
      (firstDeclarations [] f.locals).map (hardwareDeclaration (.ofFunction f)) := by
  rw [hardwareEntity_eq]

theorem hardwareEntity_body (layouts : Layouts) (f : Function) :
    (hardwareEntity layouts f).body = ((hardwareStatements layouts f.result f.body).run (.ofFunction f)).1 := by
  rw [hardwareEntity_eq]
  show ((hardwareBlock layouts f.result f.body).run (.ofFunction f)).1 = _
  rw [hardwareBlock, run_block]

/-- A function is told by its entity and its reports, whatever the generator was used for before, and the signals are
those at the beginning of the function. -/
theorem Generator.run_emitEntity (f : Function) (g : Generator) :
    (emitEntity f).run g =
      (hardwareEntity g.layouts f,
        ({ g with signals := .ofFunction f } : Generator).report
          (declarationEvents (.ofFunction f) g.defined f.name [] f.locals ++
            (blockWarnings g.layouts g.defined f.name f.body).map .reported)) := by
  rw [run_emitEntity_eq, hardwareEntity_eq]

/-- A function is reported, then its declarations and then its body. -/
theorem functionEvents_eq (layouts : Layouts) (defined : List String) (f : Function) :
    functionEvents layouts defined f =
      .emittingEntity f.name ::
        (declarationEvents (.ofFunction f) defined f.name [] f.locals ++
          (blockWarnings layouts defined f.name f.body).map .reported) := by
  let begun := ({ layouts, defined } : Generator).report [.emittingEntity f.name]
  show ((Generator.emitEntity f).run begun).2.log = _
  rw [Generator.run_emitEntity]
  rfl

end ClockedC
