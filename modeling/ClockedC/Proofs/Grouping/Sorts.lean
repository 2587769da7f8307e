import ClockedC.Proofs.Grouping.Lowering

/-!
# Numbers and truth values do not mix

VHDL has the words `and`, `or` and `not` both for numbers and for truth values, but never for one of each. In the source
a truth value may stand wherever a number may. As long as it stands only where a truth value is asked for, the text in
hardware keeps the two sorts apart.

* `condition_sorts` : conditions are truth values, and whatever is no truth value is a number.
-/

namespace ClockedC

namespace Vhdl

/-! ## The rules of sorts -/

/-- The sorts of values: numbers, with vectors among them, and truth values. -/
inductive ValueSort where
  | number
  | truth
  deriving DecidableEq, Repr

/-- The sort of what an operator tree stands for. A call of a function, a conversion and an element of an array are
numbers made from numbers. -/
inductive Tree.HasSort : Tree → ValueSort → Prop
  | literal (text : String) : HasSort (.literal text) .number
  | name (text : String) : HasSort (.name text) .number
  | select {base : Tree} (hbase : HasSort base .number) (field : String) : HasSort (.select base field) .number
  | apply {function : Tree} {args : List Tree} (hfunction : HasSort function .number)
      (hargs : ∀ arg ∈ args, HasSort arg .number) : HasSort (.apply function args) .number
  | sign (op : Operator) {operand : Tree} (hoperand : HasSort operand .number) : HasSort (.sign op operand) .number
  | not {operand : Tree} {s : ValueSort} (hoperand : HasSort operand s) : HasSort (.not operand) s
  | logical {op : Operator} (hop : op.phrase = .expression) {left right : Tree} {s : ValueSort}
      (hleft : HasSort left s) (hright : HasSort right s) : HasSort (.binary op left right) s
  | relational {op : Operator} (hop : op.phrase = .relation) {left right : Tree} (hleft : HasSort left .number)
      (hright : HasSort right .number) : HasSort (.binary op left right) .truth
  | arithmetic {op : Operator} (hop : op.phrase = .simple ∨ op.phrase = .term) {left right : Tree}
      (hleft : HasSort left .number) (hright : HasSort right .number) : HasSort (.binary op left right) .number

/-- No operator tree has both sorts. -/
theorem Tree.HasSort.unique {t : Tree} {s s' : ValueSort} (h : t.HasSort s) (h' : t.HasSort s') : s = s' := by
  induction h with
  | literal | name | select | apply | sign => cases h'; rfl
  | not _ ih =>
    cases h' with
    | not h' => exact ih h'
  | logical hop _ _ ihleft _ =>
    cases h' with
    | logical _ hleft' _ => exact ihleft hleft'
    | relational hop' => cases hop.symm.trans hop'
    | arithmetic hop' => rcases hop' with hop' | hop' <;> cases hop.symm.trans hop'
  | relational hop =>
    cases h' with
    | logical hop' => cases hop.symm.trans hop'
    | relational => rfl
    | arithmetic hop' => rcases hop' with hop' | hop' <;> cases hop.symm.trans hop'
  | arithmetic hop =>
    cases h' with
    | logical hop' => rcases hop with hop | hop <;> cases hop.symm.trans hop'
    | relational hop' => rcases hop with hop | hop <;> cases hop.symm.trans hop'
    | arithmetic => rfl

/-- A call is a number if its arguments are. -/
theorem Tree.HasSort.function {name : String} {args : List Tree} (hargs : ∀ arg ∈ args, HasSort arg .number) :
    HasSort (.apply (.name name) args) .number :=
  .apply (.name name) hargs

/-! ## Operator trees of expressions in hardware -/

mutual

/-- The operator tree of an expression, without the parentheses. -/
def Expr.outline : Expr → Tree
  | .literal text => literalTree text
  | .bits width value => .literal (bitString value width)
  | .zeros => .literal Expr.zeros.text
  | .name text => .name text
  | .field base text => .select base.outline text
  | .apply function args => .apply function.outline (Expr.outlines args)
  | .paren inner => inner.outline
  | .negate operand => .sign .sub operand.outline
  | .not operand => .not operand.outline
  | .binary op left right => .binary op left.outline right.outline

/-- The operator trees of several expressions. -/
def Expr.outlines : List Expr → List Tree
  | [] => []
  | e :: es => e.outline :: Expr.outlines es

end

theorem Expr.outlines_eq_map (es : List Expr) : Expr.outlines es = es.map Expr.outline :=
  eq_map_of_cons rfl (fun _ _ => rfl) es

theorem Expr.outline_ofNat (n : Nat) : (Expr.ofNat n).outline = .literal (toString n) :=
  literalTree_of_isNumeral (isNumeral_toString n)

theorem Expr.outline_zero : (Expr.literal "0").outline = .literal "0" :=
  literalTree_of_isNumeral (by decide)

theorem Expr.outline_unsigned (value : Expr) :
    (Expr.unsigned value).outline = .apply (.name "unsigned") [value.outline] := rfl

/-- The conversion of a literal has the operator tree of a conversion. -/
theorem Expr.outline_convertLiteral (text : String) : (Expr.convertLiteral text).outline = conversionTree text := by
  rw [Expr.convertLiteral, Expr.outline, Expr.outlines, Expr.outlines, Expr.outlines, Expr.outline_ofNat]
  rfl

end Vhdl

open Vhdl (Tree Writes)

section Operands

variable (e : Expr) (value : Vhdl.Expr)

/-- An operand that is converted has the operator tree of an operand. -/
theorem outline_asOperand : (asOperand e value).outline = e.operandTree value.outline := by
  cases e with
  | number text loc => exact Vhdl.Expr.outline_convertLiteral text
  | _ => exact Vhdl.Expr.outline_unsigned value

/-- A test for nonzero has the operator tree of a comparison with zero. -/
theorem outline_isNonzero :
    (isNonzero e value).outline = .binary .ne (e.operandTree value.outline) (.literal "0") := by
  rw [isNonzero, Vhdl.Expr.outline, outline_asOperand, Vhdl.Expr.outline_zero]

theorem outline_asCondition : (asCondition e value).outline = e.conditionTree value.outline := by
  rw [asCondition, Expr.conditionTree]
  split
  · rfl
  · exact outline_isNonzero e value

theorem outline_asGateInput : (asGateInput e value).outline = e.conditionTree value.outline := by
  rw [asGateInput, Expr.conditionTree]
  split
  · rfl
  · exact outline_isNonzero e value

/-- The amount of a shift has the operator tree of an amount. -/
theorem outline_asShiftAmount : (asShiftAmount e value).outline = e.amountTree value.outline := by
  have hconverted : (Vhdl.Expr.toInteger (asOperand e value)).outline =
      .apply (.name "to_integer") [e.operandTree value.outline] := by
    rw [Vhdl.Expr.toInteger, Vhdl.Expr.outline, Vhdl.Expr.outlines, Vhdl.Expr.outlines, outline_asOperand]
    rfl
  unfold asShiftAmount Expr.amountTree
  cases e.integer? with
  | none => exact hconverted
  | some amount =>
    cases amount with
    | ofNat n => exact Vhdl.Expr.outline_ofNat n
    | negSucc n => exact hconverted

/-- Parentheses around a term do not show in its operator tree. -/
theorem outline_asTerm (parent : Operator) (isRight : Bool) :
    (asTerm parent isRight e value).outline = value.outline := by
  rw [asTerm]
  split <;> rfl

/-- The hardware of a unary operation has the operator tree made at the node. -/
theorem outline_hardwareUnary (op : UnaryOperator) :
    (hardwareUnary op e value).outline = op.tree e value.outline := by
  cases op with
  | not =>
    rw [hardwareUnary, UnaryOperator.tree]
    split
    · rfl
    · rw [Vhdl.Expr.outline, Vhdl.Expr.outline, outline_asOperand, Vhdl.Expr.outline_zero]
  | bitNot => rw [hardwareUnary, UnaryOperator.tree, Vhdl.Expr.outline, outline_asOperand]

end Operands

/-- The hardware of a binary operation has the operator tree made at the node. -/
theorem outline_hardwareBinary (op : Operator) (l r : Expr) (lv rv : Vhdl.Expr) :
    (hardwareBinary op l r lv rv).outline = op.tree l r lv.outline rv.outline := by
  cases op with
  | add | sub | mul | div =>
    simp only [hardwareBinary, joinTerms, Vhdl.Expr.outline, outline_asTerm, Operator.tree]
  | and | or => simp only [hardwareBinary, joinConditions, Vhdl.Expr.outline, outline_asGateInput, Operator.tree]
  | shiftLeft | shiftRight =>
    simp only [hardwareBinary, shiftOperand, Vhdl.Expr.outline, Vhdl.Expr.outlines, outline_asOperand,
      outline_asShiftAmount, Operator.tree]
  | _ => simp only [hardwareBinary, compareOperands, Vhdl.Expr.outline, outline_asOperand, Operator.tree]

/-- A literal with a sign is converted, and any other one stays as it is. -/
theorem outline_hardwareLiteral (text : String) :
    (hardwareLiteral text).outline =
      if text.toList.head? = some '-' then conversionTree text else .literal text := by
  rw [hardwareLiteral]
  split
  · exact Vhdl.Expr.outline_convertLiteral text
  · next hhead =>
    rw [Vhdl.Expr.outline, literalTree]
    split
    · next hlist => simp [hlist] at hhead
    · rfl

/-- In hardware an expression has the operator tree that is made from the source node by node. -/
theorem outline_hardwareExpr (signals : Signals) (e : Expr) : (hardwareExpr signals e).outline = e.tree signals := by
  induction e with
  | number text loc => exact outline_hardwareLiteral text
  | ident name loc => rfl
  | field base name loc ih => rw [hardwareExpr_field, Vhdl.Expr.outline, ih, Expr.tree]
  | element base index loc ihbase ihindex =>
    rw [hardwareExpr_element, Vhdl.Expr.outline, Vhdl.Expr.outlines, Vhdl.Expr.outlines, ihbase, ihindex, Expr.tree]
  | negate operand loc ih => rw [hardwareExpr_negate, Vhdl.Expr.outline, Vhdl.Expr.outline_unsigned, ih, Expr.tree]
  | binary op l r loc ihl ihr => rw [hardwareExpr_binary, outline_hardwareBinary, ihl, ihr, Expr.tree]
  | unary op operand loc ih => rw [hardwareExpr_unary, outline_hardwareUnary, ih, Expr.tree]
  | call name args loc ih =>
    rw [hardwareExpr_call, Vhdl.Expr.outline, Vhdl.Expr.outline, Expr.tree, Vhdl.Expr.outlines_eq_map,
      Expr.trees_eq_map, List.map_map]
    exact congrArg (Tree.apply (.name name)) (List.map_congr_left ih)

/-- A condition in hardware has the operator tree of a condition. -/
theorem outline_hardwareCondition (signals : Signals) (e : Expr) :
    (hardwareCondition signals e).outline = e.conditionTree (e.tree signals) := by
  rw [hardwareCondition, outline_asCondition, outline_hardwareExpr]

/-! ## Truth values in their places -/

namespace Expr

/-- The expressions right below the outermost node. -/
def operands : Expr → List Expr
  | number _ _ => []
  | ident _ _ => []
  | field base _ _ => [base]
  | element base index _ => [base, index]
  | negate operand _ => [operand]
  | binary _ l r _ => [l, r]
  | unary _ operand _ => [operand]
  | call _ args _ => args

/-- Whether the outermost node is `!`, `&&` or `||`, whose operands are conditions. -/
def takesConditions : Expr → Bool
  | binary op _ _ _ => op.isLogical
  | unary .not _ _ => true
  | _ => false

/-- The sort that the outermost node gives. -/
def sort (e : Expr) : Vhdl.ValueSort := if e.isTruth then .truth else .number

/-- An expression is another one or stands somewhere below its outermost node. -/
inductive OccursIn (s : Expr) : Expr → Prop
  | here : OccursIn s s
  | deeper {e operand : Expr} (hmem : operand ∈ e.operands) (h : OccursIn s operand) : OccursIn s e

/-- Truth values stand only at the outermost node and as operands of `!`, `&&` and `||`. -/
def KeepsSorts (e : Expr) : Prop :=
  ∀ s : Expr, s.OccursIn e → ∀ operand ∈ s.operands, operand.isTruth → s.takesConditions

namespace KeepsSorts

variable {e : Expr}

/-- The operands of an expression keep the sorts if the expression does. -/
theorem operand (h : e.KeepsSorts) {operand : Expr} (hmem : operand ∈ e.operands) : operand.KeepsSorts :=
  fun s hs => h s (.deeper hmem hs)

theorem of_occursIn (h : e.KeepsSorts) {s : Expr} (hs : s.OccursIn e) : s.KeepsSorts := by
  induction hs with
  | here => exact h
  | deeper hmem _ ih => exact ih (h.operand hmem)

/-- The sorts are kept apart if they are below the outermost node and right at it. -/
theorem iff_operands : e.KeepsSorts ↔
    ∀ operand ∈ e.operands, (operand.isTruth → e.takesConditions) ∧ operand.KeepsSorts := by
  constructor
  · intro h operand hmem
    exact ⟨h e .here operand hmem, h.operand hmem⟩
  · rintro h s (_ | ⟨hmem, hs⟩)
    · exact fun operand hmem => (h operand hmem).1
    · exact (h _ hmem).2 s hs

/-- Where no condition is asked for stands a number. -/
theorem sort_operand (h : e.KeepsSorts) (htakes : e.takesConditions = false) {operand : Expr}
    (hmem : operand ∈ e.operands) : operand.sort = .number := by
  rw [sort, if_neg]
  intro htruth
  rw [h e .here operand hmem htruth] at htakes
  cases htakes

end KeepsSorts

mutual

/-- The test of `KeepsSorts`. -/
def keepsSorts : Expr → Bool
  | number _ _ => true
  | ident _ _ => true
  | field base _ _ => !base.isTruth && base.keepsSorts
  | element base index _ => (!base.isTruth && base.keepsSorts) && (!index.isTruth && index.keepsSorts)
  | negate operand _ => !operand.isTruth && operand.keepsSorts
  | binary op l r _ =>
    ((!l.isTruth || op.isLogical) && l.keepsSorts) && ((!r.isTruth || op.isLogical) && r.keepsSorts)
  | unary .not operand _ => operand.keepsSorts
  | unary .bitNot operand _ => !operand.isTruth && operand.keepsSorts
  | call _ args _ => keepSorts args

/-- The test that several expressions keep the sorts apart and none is a truth value. -/
def keepSorts : List Expr → Bool
  | [] => true
  | e :: es => (!e.isTruth && e.keepsSorts) && keepSorts es

end

theorem keepSorts_iff {es : List Expr} : keepSorts es ↔ ∀ e ∈ es, e.isTruth = false ∧ e.keepsSorts := by
  induction es with
  | nil => simp [keepSorts]
  | cons e es ih => simp [keepSorts, ih]

/-- The check goes through the expression and finds whether it keeps the sorts. -/
theorem keepsSorts_iff {e : Expr} : e.keepsSorts ↔ e.KeepsSorts := by
  induction e with
  | number text loc | ident name loc =>
    rw [KeepsSorts.iff_operands]
    simp [keepsSorts, operands]
  | field base name loc ih | negate base loc ih =>
    rw [KeepsSorts.iff_operands]
    simp [keepsSorts, operands, takesConditions, ih]
  | element base index loc ihbase ihindex =>
    rw [KeepsSorts.iff_operands]
    simp [keepsSorts, operands, takesConditions, ihbase, ihindex]
  | binary op l r loc ihl ihr =>
    rw [KeepsSorts.iff_operands]
    cases hlogical : op.isLogical <;> simp [keepsSorts, operands, takesConditions, ihl, ihr, hlogical]
  | unary op operand loc ih =>
    rw [KeepsSorts.iff_operands]
    cases op <;> simp [keepsSorts, operands, takesConditions, ih]
  | call name args loc ih =>
    rw [KeepsSorts.iff_operands, keepsSorts, keepSorts_iff]
    simp +contextual [operands, takesConditions, ih]

instance (e : Expr) : Decidable e.KeepsSorts := decidable_of_iff _ keepsSorts_iff

end Expr

/-! ## Sorts of operands -/

/-- A literal is a number, also with a sign. -/
theorem hasSort_literalTree (text : String) : (literalTree text).HasSort .number := by
  rw [literalTree]
  split
  · exact .sign _ (.literal _)
  · exact .literal _

/-- The conversion of a literal is a number. -/
theorem hasSort_conversionTree (text : String) : (conversionTree text).HasSort .number := by
  refine .function ?_
  rintro arg (_ | ⟨_, _ | ⟨_, harg⟩⟩)
  · exact hasSort_literalTree text
  · exact .literal _
  · cases harg

namespace Expr

section Operands

variable {e : Expr} {value : Tree}

/-- An operand that is converted stays a number. -/
theorem hasSort_operandTree (h : value.HasSort .number) : (e.operandTree value).HasSort .number := by
  cases e with
  | number text loc => exact hasSort_conversionTree text
  | _ => exact .function (List.forall_mem_singleton.2 h)

/-- The amount of a shift stays a number. -/
theorem hasSort_amountTree (h : value.HasSort .number) : (e.amountTree value).HasSort .number := by
  have hconverted : (Tree.apply (.name "to_integer") [e.operandTree value]).HasSort .number :=
    .function (List.forall_mem_singleton.2 (hasSort_operandTree h))
  unfold amountTree
  cases e.integer? with
  | none => exact hconverted
  | some amount =>
    cases amount with
    | ofNat n => exact .literal _
    | negSucc n => exact hconverted

/-- A condition is a truth value, whichever sort the expression has. -/
theorem hasSort_conditionTree (h : value.HasSort e.sort) : (e.conditionTree value).HasSort .truth := by
  rw [conditionTree]
  rw [sort] at h
  split
  · next htruth =>
    rwa [if_pos htruth] at h
  · next htruth =>
    rw [if_neg htruth] at h
    exact .relational rfl (hasSort_operandTree h) (.literal "0")

end Operands

/-- A binary operation over numbers, or over conditions if the operator takes them, has the sort of the operator. -/
theorem hasSort_binary (op : Operator) {l r : Expr} (loc : Location) {lt rt : Tree}
    (hl : lt.HasSort l.sort) (hr : rt.HasSort r.sort)
    (hnumbers : op.isLogical = false → l.sort = .number ∧ r.sort = .number) :
    (op.tree l r lt rt).HasSort (binary op l r loc).sort := by
  cases op with
  | and | or => exact .logical rfl (hasSort_conditionTree hl) (hasSort_conditionTree hr)
  | add | sub | mul | div =>
    obtain ⟨hleft, hright⟩ := hnumbers rfl
    exact .arithmetic (by decide) (hleft ▸ hl) (hright ▸ hr)
  | eq | ne | lt | le | gt | ge =>
    obtain ⟨hleft, hright⟩ := hnumbers rfl
    exact .relational rfl (hasSort_operandTree (hleft ▸ hl)) (hasSort_operandTree (hright ▸ hr))
  | bitAnd | bitOr | bitXor =>
    obtain ⟨hleft, hright⟩ := hnumbers rfl
    exact .logical rfl (hasSort_operandTree (hleft ▸ hl)) (hasSort_operandTree (hright ▸ hr))
  | shiftLeft | shiftRight =>
    obtain ⟨hleft, hright⟩ := hnumbers rfl
    refine .function (List.forall_mem_cons.2 ⟨hasSort_operandTree (hleft ▸ hl), ?_⟩)
    exact List.forall_mem_singleton.2 (hasSort_amountTree (hright ▸ hr))

/-- A unary operation has the sort of its node. -/
theorem hasSort_unary (op : UnaryOperator) {operand : Expr} (loc : Location) {t : Tree}
    (h : t.HasSort operand.sort) (hnumber : op = .bitNot → operand.sort = .number) :
    (op.tree operand t).HasSort (unary op operand loc).sort := by
  cases op with
  | bitNot => exact .not (hasSort_operandTree (hnumber rfl ▸ h))
  | not =>
    rw [UnaryOperator.tree]
    rw [sort] at h
    split
    · next htruth =>
      rw [if_pos htruth] at h
      exact .not h
    · next htruth =>
      rw [if_neg htruth] at h
      exact .relational rfl (hasSort_operandTree h) (.literal "0")

/-- An expression that keeps the sorts apart has the sort of its outermost node. -/
theorem KeepsSorts.hasSort_tree (signals : Signals) {e : Expr} (h : e.KeepsSorts) :
    (e.tree signals).HasSort e.sort := by
  -- an operand has the sort of its own node, and `sort_operand` says that this is the one its place takes
  induction e with
  | number text loc =>
    rw [tree]
    split
    · exact hasSort_conversionTree text
    · exact .literal text
  | ident name loc => exact .name _
  | field base name loc ih =>
    have hmem : base ∈ (field base name loc).operands := List.mem_singleton_self _
    have hbase := ih (h.operand hmem)
    rw [h.sort_operand rfl hmem] at hbase
    exact .select hbase name
  | element base index loc ihbase ihindex =>
    have hmem : base ∈ (element base index loc).operands := List.mem_cons_self
    have hmem' : index ∈ (element base index loc).operands := List.mem_cons_of_mem _ (List.mem_singleton_self _)
    have hbase := ihbase (h.operand hmem)
    have hindex := ihindex (h.operand hmem')
    rw [h.sort_operand rfl hmem] at hbase
    rw [h.sort_operand rfl hmem'] at hindex
    exact .apply hbase (List.forall_mem_singleton.2 hindex)
  | negate operand loc ih =>
    have hmem : operand ∈ (negate operand loc).operands := List.mem_singleton_self _
    have hoperand := ih (h.operand hmem)
    rw [h.sort_operand rfl hmem] at hoperand
    exact .sign .sub (.function (List.forall_mem_singleton.2 hoperand))
  | binary op l r loc ihl ihr =>
    have hmem : l ∈ (binary op l r loc).operands := List.mem_cons_self
    have hmem' : r ∈ (binary op l r loc).operands := List.mem_cons_of_mem _ (List.mem_singleton_self _)
    exact hasSort_binary op loc (ihl (h.operand hmem)) (ihr (h.operand hmem')) fun htakes =>
      ⟨h.sort_operand htakes hmem, h.sort_operand htakes hmem'⟩
  | unary op operand loc ih =>
    have hmem : operand ∈ (unary op operand loc).operands := List.mem_singleton_self _
    refine hasSort_unary op loc (ih (h.operand hmem)) ?_
    rintro rfl
    exact h.sort_operand rfl hmem
  | call name args loc ih =>
    refine .function fun arg harg => ?_
    rw [trees_eq_map] at harg
    obtain ⟨e, he, rfl⟩ := List.mem_map.1 harg
    have hvalue := ih e he (h.operand (e := call name args loc) he)
    rwa [h.sort_operand (e := call name args loc) rfl he] at hvalue

/-! ## Texts of expressions inside of others -/

theorem canonical_of_isFieldChain {e : Expr} (h : e.isFieldChain) : e.Canonical := by
  cases e with
  | ident name loc => trivial
  | field base name loc => exact h
  | _ => cases h

/-- An expression that can be written, with identifiers for its names, and none of them an operator in hardware. -/
structure LegibleIn (signals : Signals) (e : Expr) : Prop where
  canonical : e.Canonical
  named : e.Named
  avoidsOperators : e.avoidsOperators signals

namespace LegibleIn

variable {signals : Signals} {e : Expr}

/-- The operands of an expression are legible if the expression is. -/
theorem operand (h : e.LegibleIn signals) {operand : Expr} (hmem : operand ∈ e.operands) :
    operand.LegibleIn signals := by
  obtain ⟨hcanonical, hnamed, havoids⟩ := h
  cases e with
  | number text loc => cases hmem
  | ident name loc => cases hmem
  | field base name loc =>
    rw [Expr.avoidsOperators, Bool.and_eq_true] at havoids
    rw [List.mem_singleton.1 hmem]
    exact ⟨canonical_of_isFieldChain hcanonical, hnamed.1, havoids.1⟩
  | element base index loc =>
    rw [Expr.avoidsOperators, Bool.and_eq_true] at havoids
    rcases List.mem_pair.1 hmem with rfl | rfl
    · exact ⟨canonical_of_isFieldChain hcanonical.1, hnamed.1, havoids.1⟩
    · exact ⟨hcanonical.2, hnamed.2, havoids.2⟩
  | negate operand loc =>
    rw [List.mem_singleton.1 hmem]
    exact ⟨hcanonical.2, hnamed, havoids⟩
  | binary op l r loc =>
    rw [Expr.avoidsOperators, Bool.and_eq_true] at havoids
    rcases List.mem_pair.1 hmem with rfl | rfl
    · exact ⟨hcanonical.1, hnamed.1, havoids.1⟩
    · exact ⟨hcanonical.2.1, hnamed.2, havoids.2⟩
  | unary op operand loc =>
    rw [List.mem_singleton.1 hmem]
    exact ⟨hcanonical.1, hnamed, havoids⟩
  | call name args loc =>
    rw [Expr.avoidsOperators, Bool.and_eq_true, allAvoidOperators_iff] at havoids
    exact ⟨allCanonical_iff.1 hcanonical _ hmem, allNamed_iff.1 hnamed.2 _ hmem, havoids.2 _ hmem⟩

/-- Whatever occurs in an expression is legible if the expression is. -/
theorem of_occursIn (h : e.LegibleIn signals) {s : Expr} (hs : s.OccursIn e) : s.LegibleIn signals := by
  induction hs with
  | here => exact h
  | deeper hmem _ ih => exact ih (h.operand hmem)

/-- The text of a legible expression is read as its operator tree. -/
theorem writes (h : e.LegibleIn signals) (hsignals : signals.Reachable) :
    Writes e.phrase (hardwareExpr signals e) (hardwareExpr signals e).outline := by
  rw [outline_hardwareExpr]
  exact writes_hardwareExpr hsignals h.canonical h.named h.avoidsOperators

end LegibleIn

end Expr

/-! ## Conditions -/

/-- **Numbers and truth values do not mix.** Let truth values stand in an expression only at the outermost node and as
operands of `!`, `&&` and `||`. Then its condition in hardware is a truth value, and whatever is no truth value inside
of it is a number in hardware. Nothing has both sorts. The sorts are those of the texts: the texts are read in exactly
one way, as the operator trees that are judged, if no name in them is an operator of VHDL. -/
theorem condition_sorts (signals : Signals) (e : Expr) (he : e.KeepsSorts) :
    (hardwareCondition signals e).outline.HasSort .truth ∧
    (∀ s : Expr, s.OccursIn e → s.isTruth = false → (hardwareExpr signals s).outline.HasSort .number) ∧
    (∀ t : Tree, ¬ (t.HasSort .number ∧ t.HasSort .truth)) ∧
    (signals.Reachable → e.LegibleIn signals →
      (hardwareCondition signals e).ReadAs (hardwareCondition signals e).outline ∧
      ∀ s : Expr, s.OccursIn e → (hardwareExpr signals s).ReadAs (hardwareExpr signals s).outline) := by
  refine ⟨?_, ?_, ?_, ?_⟩
  · rw [outline_hardwareCondition]
    exact Expr.hasSort_conditionTree (he.hasSort_tree signals)
  · intro s hs hword
    have hsort : s.sort = .number := by rw [Expr.sort, hword]; rfl
    rw [outline_hardwareExpr, ← hsort]
    exact (he.of_occursIn hs).hasSort_tree signals
  · rintro t ⟨hnumber, htruth⟩
    cases hnumber.unique htruth
  · intro hsignals hlegible
    constructor
    · rw [hardwareCondition, outline_asCondition]
      exact (writes_asCondition hlegible.canonical (hlegible.writes hsignals).expression).readAs
    · intro s hs
      exact ((hlegible.of_occursIn hs).writes hsignals).readAs

/-- A source text with gates over comparisons, over `!` and over numbers, which hold gates over numbers themselves. -/
def mixedGatesSource : String := "!(a+1<=s.x[-1])&&!f(b&7,~c)||(-clk<<n)"

theorem condition_sorts_mixedGatesSource :
    ∃ (r r' : Reader) (e : Expr), Reader.ofSource mixedGatesSource = .ok r ∧ Grammar.expression.run r = .ok e r' ∧
      e.KeepsSorts ∧ Signals.Reachable {} ∧ e.LegibleIn {} ∧
      (hardwareCondition {} e).text =
        "((((not (unsigned(a + 1) <= unsigned(s.x(to_signed(-1, 32))))) and " ++
          "((unsigned(f(unsigned(b) and to_unsigned(7, 32), not unsigned(c))) = 0)))) or " ++
          "unsigned(shift_left(unsigned(-unsigned(clk_local)), to_integer(unsigned(n)))) /= 0)" ∧
      (hardwareCondition {} e).outline.HasSort .truth ∧
      (∀ s : Expr, s.OccursIn e → s.isTruth = false → (hardwareExpr {} s).outline.HasSort .number) ∧
      (hardwareCondition {} e).ReadAs (hardwareCondition {} e).outline := by
  have hchecked : Reader.reads mixedGatesSource Grammar.expression (fun e _ => e.keepsSorts &&
      (e.avoidsOperators {} && (hardwareCondition {} e).text =
        "((((not (unsigned(a + 1) <= unsigned(s.x(to_signed(-1, 32))))) and " ++
          "((unsigned(f(unsigned(b) and to_unsigned(7, 32), not unsigned(c))) = 0)))) or " ++
          "unsigned(shift_left(unsigned(-unsigned(clk_local)), to_integer(unsigned(n)))) /= 0)")) := by decide +kernel
  obtain ⟨r, e, r', hr, hrun, hcheck⟩ := Reader.exists_run_of_reads hchecked
  rw [Bool.and_eq_true, Bool.and_eq_true, decide_eq_true_eq] at hcheck
  obtain ⟨hkeeps, havoids, htext⟩ := hcheck
  have hlegible : e.LegibleIn {} :=
    ⟨(Grammar.YieldsWritten.expression.written (.of_ofSource hr) hrun).canonical,
      (Grammar.Yields.expression.of_ok (.of_ofSource hr) hrun).1, havoids⟩
  have hsorts := condition_sorts {} e (Expr.keepsSorts_iff.1 hkeeps)
  exact ⟨r, r', e, hr, hrun, Expr.keepsSorts_iff.1 hkeeps, .empty, hlegible, htext, hsorts.1, hsorts.2.1,
    (hsorts.2.2.2 .empty hlegible).1⟩

end ClockedC
