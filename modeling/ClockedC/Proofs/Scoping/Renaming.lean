import ClockedC.Proofs.Hardware.Heads
import ClockedC.Proofs.Layout.Unlocated

/-!
# Renaming variables

A variable is known in hardware by its signal alone. So renaming the variables of an expression changes nothing if the
new names stand for the signals that the old ones stood for.
-/

namespace ClockedC

/-! ## Renaming -/

mutual

/-- The expression with its variables renamed. -/
def Expr.rename (ρ : String → String) : Expr → Expr
  | .number text loc => .number text loc
  | .ident name loc => .ident (ρ name) loc
  | .field base name loc => .field (base.rename ρ) name loc
  | .element base index loc => .element (base.rename ρ) (index.rename ρ) loc
  | .negate operand loc => .negate (operand.rename ρ) loc
  | .binary op left right loc => .binary op (left.rename ρ) (right.rename ρ) loc
  | .unary op operand loc => .unary op (operand.rename ρ) loc
  | .call name args loc => .call name (Expr.renameAll ρ args) loc

/-- The expressions with their variables renamed. -/
def Expr.renameAll (ρ : String → String) : List Expr → List Expr
  | [] => []
  | e :: es => e.rename ρ :: Expr.renameAll ρ es

end

theorem Expr.renameAll_eq_map (ρ : String → String) (es : List Expr) : renameAll ρ es = es.map (rename ρ) :=
  eq_map_of_cons rfl (fun _ _ => rfl) es

/-- The outermost node does not say the name of a variable. -/
@[simp] theorem Expr.head_rename (ρ : String → String) (e : Expr) : (e.rename ρ).head = e.head := by
  cases e <;> rfl

/-- The first value with its variables renamed. -/
def Initializer.rename (ρ : String → String) : Initializer → Initializer
  | value e => value (e.rename ρ)
  | elements es => elements (es.map (Expr.rename ρ))
  | fields es => fields (es.map (Expr.rename ρ))

/-- The declaration with its variable and those of its first value renamed. -/
def Variable.rename (ρ : String → String) (decl : Variable) : Variable :=
  { decl with name := ρ decl.name, init := decl.init.map (Initializer.rename ρ) }

/-- The assignment with its variables renamed. -/
def Assignment.rename (ρ : String → String) (assignment : Assignment) : Assignment :=
  { assignment with target := assignment.target.rename ρ, value := assignment.value.rename ρ }

/-- Renaming in a first value is renaming in its expressions. -/
theorem Initializer.rename_eq_map (ρ : String → String) : rename ρ = map (Expr.rename ρ) := by
  funext init
  cases init <;> rfl

/-- The new name of a variable stands for the signal that its old name stood for. -/
def Signals.Renames (ρ : String → String) (signals signals' : Signals) : Prop :=
  ∀ name, signals'.signal (ρ name) = signals.signal name

/-! ## Values -/

section Values

variable {ρ : String → String} {signals signals' : Signals} (h : signals.Renames ρ signals')
include h

/-- An expression does not change if its new names stand for the old signals. -/
theorem hardwareExpr_rename (e : Expr) : hardwareExpr signals' (e.rename ρ) = hardwareExpr signals e := by
  induction e with
  | number text loc => rfl
  | ident name loc => rw [Expr.rename, hardwareExpr_ident, hardwareExpr_ident, h name]
  | field base name loc ih => rw [Expr.rename, hardwareExpr_field, hardwareExpr_field, ih]
  | element base index loc ihb ihi => rw [Expr.rename, hardwareExpr_element, hardwareExpr_element, ihb, ihi]
  | negate operand loc ih => rw [Expr.rename, hardwareExpr_negate, hardwareExpr_negate, ih]
  | binary op left right loc ihl ihr =>
    rw [Expr.rename, hardwareExpr_binary, hardwareExpr_binary, ihl, ihr,
      hardwareBinary_of_head (left.head_rename ρ) (right.head_rename ρ)]
  | unary op operand loc ih =>
    rw [Expr.rename, hardwareExpr_unary, hardwareExpr_unary, ih, hardwareUnary_of_head (operand.head_rename ρ)]
  | call name args loc ih =>
    rw [Expr.rename, hardwareExpr_call, hardwareExpr_call, Expr.renameAll_eq_map, List.map_map]
    exact congrArg _ (List.map_congr_left ih)

theorem hardwareCondition_rename (e : Expr) :
    hardwareCondition signals' (e.rename ρ) = hardwareCondition signals e :=
  hardwareCondition_of_head (Expr.head_rename ρ) (hardwareExpr_rename h) e

theorem loopCondition_rename (condition : Option Expr) :
    loopCondition signals' (condition.map (Expr.rename ρ)) = loopCondition signals condition :=
  loopCondition_of_head (Expr.head_rename ρ) (hardwareExpr_rename h) condition

theorem hardwareAssignment_rename (assignment : Assignment) :
    hardwareAssignment signals' (assignment.rename ρ) = hardwareAssignment signals assignment := by
  rw [hardwareAssignment_eq, hardwareAssignment_eq, Assignment.rename, hardwareExpr_rename h, hardwareExpr_rename h]

/-- What is done after every round of a `for` loop. -/
theorem hardwareStep_rename (step : Option Assignment) :
    (step.map (Assignment.rename ρ)).toList.map (hardwareAssignment signals') =
      step.toList.map (hardwareAssignment signals) := by
  cases step with
  | none => rfl
  | some a => exact congrArg (fun s => [s]) (hardwareAssignment_rename h a)

theorem hardwareReturn_rename (layouts : Layouts) (type : DataType) (value : Expr) :
    hardwareReturn layouts signals' type (value.rename ρ) = hardwareReturn layouts signals type value := by
  obtain ⟨layout, name, loc, hlayout, rfl⟩ | hvalue := return_cases layouts type value
  · rw [Expr.rename, hardwareReturn_fields signals' hlayout, hardwareReturn_fields signals hlayout, h name]
  · have hrenamed : layouts.ofType? type = none ∨ ∀ name loc, value.rename ρ ≠ .ident name loc := by
      refine hvalue.imp_right fun hname name loc he => ?_
      cases value with
      | ident name loc => exact hname name loc rfl
      | _ => cases he
    rw [hardwareReturn_value signals' hrenamed, hardwareReturn_value signals hvalue, hardwareExpr_rename h]

theorem hardwareInitializer_rename (layouts : Layouts) (decl : Variable) :
    hardwareInitializer layouts signals' (decl.rename ρ) = hardwareInitializer layouts signals decl := by
  have hinit : (decl.rename ρ).init = decl.init.map (Initializer.map (Expr.rename ρ)) := by
    rw [← Initializer.rename_eq_map]
    rfl
  exact hardwareInitializer_of_head (Expr.head_rename ρ) (hardwareExpr_rename h) layouts (h decl.name) rfl hinit

theorem hardwareContents_rename (type : DataType) (length : Nat) (init : Option Initializer) :
    hardwareContents signals' type length (init.map (Initializer.rename ρ)) =
      hardwareContents signals type length init := by
  rw [Initializer.rename_eq_map]
  exact hardwareContents_of_head (Expr.head_rename ρ) (hardwareExpr_rename h) type length init

end Values

end ClockedC
