import ClockedC.Proofs.Hardware.Generation
import ClockedC.Proofs.Layout.Unlocated

/-!
# Reports about calls

A generator goes through an expression node by node, and where it comes to a call of a function that is not defined it
gives a warning. It does not go through the nodes in the order in which they are written, the amount of a shift being
gone into first. But no call is passed over, and none is come to twice.

* `one_warning_per_call` : what an expression does to a generator.
-/

namespace ClockedC

/-! ## Calls among the nodes -/

namespace Expr

/-- The warning about a node that is a call of a function not among those `defined`. -/
def unresolvedCall? (defined : List String) : Expr → Option Diagnostic
  | call name _ loc =>
    if name ∈ defined then none
    else some
      { severity := .warning
        category := .codegen
        message := "Call to undefined function '" ++ name ++ "' emitted as-is"
        loc := some loc }
  | _ => none

end Expr

/-- The calls that are reported are the calls among the nodes, each of them once. -/
theorem undefinedCalls_perm (defined : List String) (e : Expr) :
    (undefinedCalls defined e).Perm (e.nodes.filterMap (Expr.unresolvedCall? defined)) := by
  induction e with
  | number text loc => exact .refl _
  | ident name loc => exact .refl _
  | field base name loc ih => exact ih
  | element base index loc ihbase ihindex =>
    show List.Perm _ ((base.nodes ++ index.nodes).filterMap _)
    rw [undefinedCalls_element, List.filterMap_append]
    exact ihbase.append ihindex
  | negate operand loc ih => exact ih
  | binary op l r loc ihl ihr =>
    have hsides : (undefinedCalls defined l ++ undefinedCalls defined r).Perm
        ((Expr.binary op l r loc).nodes.filterMap (Expr.unresolvedCall? defined)) := by
      show List.Perm _ ((l.nodes ++ r.nodes).filterMap _)
      rw [List.filterMap_append]
      exact ihl.append ihr
    rw [undefinedCalls_binary]
    split
    -- the amount of a shift comes first
    · exact List.perm_append_comm.trans hsides
    · exact hsides
  | unary op operand loc ih => exact ih
  | call name args loc ih =>
    have hargs : (args.flatMap (undefinedCalls defined)).Perm
        ((Expr.nodesOf args).filterMap (Expr.unresolvedCall? defined)) := by
      rw [Expr.nodesOf_eq_flatMap, List.filterMap_flatMap]
      exact .flatMap_left args ih
    rw [undefinedCalls_call, Expr.nodes]
    by_cases hname : name ∈ defined
    · rw [if_pos hname, List.filterMap_cons_none (by rw [Expr.unresolvedCall?, if_pos hname])]
      exact hargs
    · rw [if_neg hname, List.filterMap_cons_some (by rw [Expr.unresolvedCall?, if_neg hname])]
      exact hargs.cons _

/-! ## What an expression does to a generator -/

/-- Whatever the generator and the expression, the layouts, the functions, the signals and what has been made stay as
they are. The diagnostics and the log go on with one warning for every node that is a call of a function not defined.
What is made of the expression depends on the signals alone. -/
structure Generator.ReportsCalls (lower : Generator → Expr → Vhdl.Expr × Generator) : Prop where
  layouts : ∀ g e, (lower g e).2.layouts = g.layouts
  defined : ∀ g e, (lower g e).2.defined = g.defined
  signals : ∀ g e, (lower g e).2.signals = g.signals
  made : ∀ g e, (lower g e).2.made = g.made
  warnings : ∀ g e, ∃ warnings : List Diagnostic,
    (lower g e).2.diagnostics = g.diagnostics ++ warnings ∧ (lower g e).2.log = g.log ++ warnings.map .reported ∧
      warnings.Perm (e.nodes.filterMap (Expr.unresolvedCall? g.defined))
  value : ∀ (g g' : Generator) (e : Expr), g.signals = g'.signals → (lower g e).1 = (lower g' e).1

/-- A way through an expression that gives the warnings about its calls reports each of them once. -/
theorem Generator.reportsCalls_of_emits {emit : Expr → EmitM Vhdl.Expr} {value : Signals → Expr → Vhdl.Expr}
    (h : ∀ e layouts, Emits layouts (emit e) (looking (value · e)) (undefinedCalls · e)) :
    ReportsCalls fun g e => (emit e).run g := by
  have hrun : ∀ (e : Expr) (g : Generator), (emit e).run g =
      (value g.signals e, g.report ((undefinedCalls g.defined e).map .reported)) :=
    fun e g => (h e g.layouts).run_eq g rfl
  exact
    { layouts := fun g e => by rw [hrun]; rfl
      defined := fun g e => by rw [hrun]; rfl
      signals := fun g e => by rw [hrun]; rfl
      made := fun g e => by rw [hrun]; rfl
      warnings := fun g e => by
        refine ⟨undefinedCalls g.defined e, ?_, ?_, undefinedCalls_perm g.defined e⟩
        · rw [hrun]
          exact congrArg (g.diagnostics ++ ·) (filterMap_reported _)
        · rw [hrun]
          rfl
      value := fun g g' e hsignals => by rw [hrun, hrun, hsignals] }

/-- The value of an expression, its value as a number and its value as a condition: each is made without a change to the
generator but one warning for every call of a function that is not defined, and none of them depends on what has been
reported or on which functions are defined. -/
theorem one_warning_per_call :
    Generator.ReportsCalls Generator.expr ∧ Generator.ReportsCalls Generator.operand ∧
      Generator.ReportsCalls Generator.condition :=
  ⟨Generator.reportsCalls_of_emits Generator.emits_expr, Generator.reportsCalls_of_emits Generator.emits_operand,
    Generator.reportsCalls_of_emits Generator.emits_condition⟩

end ClockedC
