import ClockedC.Proofs.Hardware.Generation

/-!
# What conversions depend on

How the value of an operand is converted is told by the outermost node of the operand and by nothing inside of it. So
two expressions whose outermost nodes say the same are converted in the same way.
-/

namespace ClockedC

/-- What the outermost node of an expression says about the conversion of its value. -/
inductive Expr.Head where
  | number (text : String)
  | negate
  | binary (op : Operator)
  | unary (op : UnaryOperator)
  /-- A variable, a field, an element or a call. -/
  | plain

/-- The head of an expression. -/
def Expr.head : Expr → Head
  | number text _ => .number text
  | negate _ _ => .negate
  | binary op _ _ _ => .binary op
  | unary op _ _ => .unary op
  | ident .. => .plain
  | field .. => .plain
  | element .. => .plain
  | call .. => .plain

section Heads

variable {e e' : Expr} (h : e.head = e'.head)
include h

/-- Whether an expression is a truth value is told by its outermost node. -/
theorem Expr.isTruth_of_head : e.isTruth = e'.isTruth := by
  cases e <;> cases e' <;> cases h
  case unary.unary.refl op _ _ _ _ => cases op <;> rfl
  all_goals rfl

/-- Whether an expression is an integer, and which, is told by its outermost node. -/
theorem Expr.integer?_of_head : e.integer? = e'.integer? := by
  cases e <;> cases e' <;> cases h <;> rfl

/-- Operands are converted by their outermost nodes. -/
theorem asOperand_of_head : asOperand e = asOperand e' := by
  cases e <;> cases e' <;> cases h <;> rfl

/-- Conditions are converted by their outermost nodes. -/
theorem asCondition_of_head : asCondition e = asCondition e' := by
  funext value
  rw [asCondition, asCondition, isNonzero, isNonzero, Expr.isTruth_of_head h, asOperand_of_head h]

/-- Conditions of gates are converted by their outermost nodes. -/
theorem asGateInput_of_head : asGateInput e = asGateInput e' := by
  funext value
  rw [asGateInput, asGateInput, isNonzero, isNonzero, Expr.isTruth_of_head h, asOperand_of_head h]

/-- Amounts of shifts are converted by their outermost nodes. -/
theorem asShiftAmount_of_head : asShiftAmount e = asShiftAmount e' := by
  funext value
  rw [asShiftAmount, asShiftAmount, Expr.integer?_of_head h, asOperand_of_head h]

/-- Terms are put in parentheses by their outermost nodes. -/
theorem asTerm_of_head (parent : Operator) (isRight : Bool) : asTerm parent isRight e = asTerm parent isRight e' := by
  have hparens : needsParens parent isRight e = needsParens parent isRight e' := by
    cases e <;> cases e' <;> cases h <;> rfl
  funext value
  rw [asTerm, asTerm, hparens]

theorem hardwareUnary_of_head (op : UnaryOperator) : hardwareUnary op e = hardwareUnary op e' := by
  funext value
  cases op <;> simp only [hardwareUnary, Expr.isTruth_of_head h, asOperand_of_head h]

/-- The value of a field is converted by its outermost node. -/
theorem asField_of_head (field : Field) : asField field e = asField field e' := by
  cases e <;> cases e' <;> cases h <;> rfl

/-- The value of an element is converted by its outermost node. -/
theorem asElement_of_head (type : DataType) : asElement type e = asElement type e' := by
  cases e <;> cases e' <;> cases h <;> rfl

end Heads

/-- How two values are joined depends on the heads of the operands alone. -/
theorem hardwareBinary_of_head {l l' r r' : Expr} (hl : l.head = l'.head) (hr : r.head = r'.head) (op : Operator) :
    hardwareBinary op l r = hardwareBinary op l' r' := by
  funext lv rv
  cases op <;> simp only [hardwareBinary, compareOperands, joinConditions, shiftOperand, joinTerms,
    asOperand_of_head hl, asOperand_of_head hr, asGateInput_of_head hl, asGateInput_of_head hr,
    asShiftAmount_of_head hr, asTerm_of_head hl, asTerm_of_head hr]

/-! ## Expressions in place of others -/

/-- The first value with other expressions in place of those in it. -/
def Initializer.map (g : Expr → Expr) : Initializer → Initializer
  | value e => value (g e)
  | elements es => elements (es.map g)
  | fields es => fields (es.map g)

/-- The values for the fields of a struct are changed one by one. -/
theorem givenFields_map (g : Expr → Expr) (fields : List Field) (values : List Expr) :
    givenFields fields (values.map g) = (givenFields fields values).map fun (field, value) => (field, value.map g) := by
  induction fields generalizing values with
  | nil => rfl
  | cons field fields ih =>
    cases values with
    | nil => exact congrArg _ (ih [])
    | cons value values => exact congrArg _ (ih values)

/-- A declaration that assigns nothing assigns nothing with other expressions in it. -/
theorem Variable.Unassigned.map {layouts : Layouts} {decl decl' : Variable} {g : Expr → Expr}
    (h : decl.Unassigned layouts) (htype : decl'.type = decl.type)
    (hinit : decl'.init = decl.init.map (Initializer.map g)) : decl'.Unassigned layouts := by
  constructor
  · intro e he
    obtain ⟨init, hsome, hmap⟩ := Option.map_eq_some_iff.1 (hinit.symm.trans he)
    cases init with
    | value e' => exact h.value e' hsome
    | _ => cases hmap
  · intro values hvalues
    obtain ⟨init, hsome, hmap⟩ := Option.map_eq_some_iff.1 (hinit.symm.trans hvalues)
    cases init with
    | fields values' =>
      rw [htype]
      exact h.fields values' hsome
    | _ => cases hmap

section Replacing

variable {g : Expr → Expr} {signals signals' : Signals} (hhead : ∀ e, (g e).head = e.head)
  (hvalue : ∀ e, hardwareExpr signals' (g e) = hardwareExpr signals e)
include hhead hvalue

/-- Conditions are the same when all values and outermost nodes are. -/
theorem hardwareCondition_of_head (e : Expr) : hardwareCondition signals' (g e) = hardwareCondition signals e := by
  rw [hardwareCondition, hardwareCondition, asCondition_of_head (hhead e), hvalue]

theorem loopCondition_of_head (condition : Option Expr) :
    loopCondition signals' (condition.map g) = loopCondition signals condition := by
  cases condition with
  | none => rfl
  | some e => exact hardwareCondition_of_head hhead hvalue e

theorem fieldValue?_of_head (field : Field) (given : Option Expr) :
    fieldValue? signals' field (given.map g) = fieldValue? signals field given := by
  cases given with
  | none => rfl
  | some e => rw [Option.map_some, fieldValue?_some, fieldValue?_some, asField_of_head (hhead e), hvalue]

theorem hardwareElement_of_head (type : DataType) (given : Option Expr) :
    hardwareElement signals' type (given.map g) = hardwareElement signals type given := by
  cases given with
  | none => rfl
  | some e => rw [Option.map_some, hardwareElement_some, hardwareElement_some, asElement_of_head (hhead e), hvalue]

theorem hardwareContents_of_head (type : DataType) (length : Nat) (init : Option Initializer) :
    hardwareContents signals' type length (init.map (Initializer.map g)) =
      hardwareContents signals type length init := by
  rcases init with _ | e | values | values
  · rfl
  · rfl
  · rw [Option.map_some, Initializer.map, hardwareContents_elements, hardwareContents_elements]
    simp only [List.getElem?_map, hardwareElement_of_head hhead hvalue]
  · rfl

/-- A first value is assigned in the same way if the expressions in it say and mean the same, and so does the name of
the variable. -/
theorem hardwareInitializer_of_head {decl decl' : Variable} (layouts : Layouts)
    (hname : signals'.signal decl'.name = signals.signal decl.name) (htype : decl'.type = decl.type)
    (hinit : decl'.init = decl.init.map (Initializer.map g)) :
    hardwareInitializer layouts signals' decl' = hardwareInitializer layouts signals decl := by
  obtain ⟨e, he⟩ | ⟨values, layout, hvalues, hlayout⟩ | hnone := decl.init_cases layouts
  · have he' : decl'.init = some (.value (g e)) := by
      rw [hinit, he]
      rfl
    rw [hardwareInitializer_value signals' he', hardwareInitializer_value signals he, hname, hvalue]
  · have hvalues' : decl'.init = some (.fields (values.map g)) := by
      rw [hinit, hvalues]
      rfl
    rw [hardwareInitializer_fields signals' hvalues' (htype ▸ hlayout),
      hardwareInitializer_fields signals hvalues hlayout,
      hname, givenFields_map, List.filterMap_map]
    refine congrArg (List.filterMap · _) (funext fun given => ?_)
    exact congrArg _ (fieldValue?_of_head hhead hvalue given.1 given.2)
  · rw [hardwareInitializer_none signals' (hnone.map htype hinit), hardwareInitializer_none signals hnone]

end Replacing

end ClockedC
