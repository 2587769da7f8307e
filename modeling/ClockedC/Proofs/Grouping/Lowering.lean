import ClockedC.Proofs.Grouping.Texts
import ClockedC.Proofs.Hardware.SignalNames
import ClockedC.Proofs.Reading.Expression
import ClockedC.Proofs.Reading.Names

/-!
# Expressions keep their grouping in hardware

The text of an expression in hardware is read by the grammar of VHDL as the operator tree that is made from the source
node by node, with the conversions that operands and conditions need. Parentheses are written where the grammar of VHDL
would group otherwise. A name that is an operator of VHDL is written as it is, and then it is read as the operator.

* `expression_grouping` : values, operands and conditions are read in one way, as their operator trees;
* `expression_grouping_operatorWord` : a call of a function with the name of an operator is read as the operator.
-/

namespace ClockedC

open Vhdl (Tree Phrase Writes WritesName)

variable {e : Expr} {name : String}

/-! ## Operator trees -/

/-- A literal: a minus sign is an operator. -/
def literalTree (text : String) : Tree :=
  match text.toList with
  | '-' :: cs => .sign .sub (.literal (String.ofList cs))
  | _ => .literal text

/-- The conversion of a literal to a number. -/
def conversionTree (text : String) : Tree :=
  .apply (.name (if text.toList.head? = some '-' then "to_signed" else "to_unsigned"))
    [literalTree text, .literal (toString Vhdl.Expr.literalWidth)]

namespace Expr

/-- The number that an expression stands for, `value` being its value. -/
def operandTree (value : Tree) : Expr → Tree
  | number text _ => conversionTree text
  | _ => .apply (.name "unsigned") [value]

/-- The condition that an expression stands for. -/
def conditionTree (value : Tree) (e : Expr) : Tree :=
  if e.isTruth then value else .binary .ne (e.operandTree value) (.literal "0")

/-- The amount of a shift. -/
def amountTree (value : Tree) (e : Expr) : Tree :=
  match e.integer? with
  | some (.ofNat n) => .literal (toString n)
  | _ => .apply (.name "to_integer") [e.operandTree value]

end Expr

/-- A binary operation, `lv` and `rv` being the values of its operands. -/
def Operator.tree (op : Operator) (l r : Expr) (lv rv : Tree) : Tree :=
  match op with
  | .add => .binary .add lv rv
  | .sub => .binary .sub lv rv
  | .mul => .binary .mul lv rv
  | .div => .binary .div lv rv
  | .eq => .binary .eq (l.operandTree lv) (r.operandTree rv)
  | .ne => .binary .ne (l.operandTree lv) (r.operandTree rv)
  | .lt => .binary .lt (l.operandTree lv) (r.operandTree rv)
  | .le => .binary .le (l.operandTree lv) (r.operandTree rv)
  | .gt => .binary .gt (l.operandTree lv) (r.operandTree rv)
  | .ge => .binary .ge (l.operandTree lv) (r.operandTree rv)
  | .bitAnd => .binary .and (l.operandTree lv) (r.operandTree rv)
  | .bitOr => .binary .or (l.operandTree lv) (r.operandTree rv)
  | .bitXor => .binary .xor (l.operandTree lv) (r.operandTree rv)
  | .and => .binary .and (l.conditionTree lv) (r.conditionTree rv)
  | .or => .binary .or (l.conditionTree lv) (r.conditionTree rv)
  | .shiftLeft => .apply (.name "shift_left") [l.operandTree lv, r.amountTree rv]
  | .shiftRight => .apply (.name "shift_right") [l.operandTree lv, r.amountTree rv]

/-- A unary operation, `value` being the value of its operand. -/
def UnaryOperator.tree (op : UnaryOperator) (e : Expr) (value : Tree) : Tree :=
  match op with
  | .not => if e.isTruth then .not value else .binary .eq (e.operandTree value) (.literal "0")
  | .bitNot => .not (e.operandTree value)

mutual

/-- The value of an expression, node by node. -/
def Expr.tree (signals : Signals) : Expr → Tree
  | .number text _ => if text.toList.head? = some '-' then conversionTree text else .literal text
  | .ident name _ => .name (signals.signal name)
  | .field base name _ => .select (base.tree signals) name
  | .element base index _ => .apply (base.tree signals) [index.tree signals]
  | .negate operand _ => .sign .sub (.apply (.name "unsigned") [operand.tree signals])
  | .binary op l r _ => op.tree l r (l.tree signals) (r.tree signals)
  | .unary op operand _ => op.tree operand (operand.tree signals)
  | .call name args _ => .apply (.name name) (Expr.trees signals args)

/-- The values of several expressions. -/
def Expr.trees (signals : Signals) : List Expr → List Tree
  | [] => []
  | e :: es => e.tree signals :: Expr.trees signals es

end

theorem Expr.trees_eq_map (signals : Signals) (es : List Expr) :
    Expr.trees signals es = es.map (Expr.tree signals) :=
  eq_map_of_cons rfl (fun _ _ => rfl) es

/-! ## Names -/

/-- The states that names are looked up in: those of functions, and the state without any function, with declarations
and ends of blocks behind them. -/
inductive Signals.Reachable : Signals → Prop
  | empty : Reachable {}
  | ofFunction (f : Function) : Reachable (Signals.ofFunction f)
  | declare {signals : Signals} (h : Reachable signals) (name : String) : Reachable (signals.declare name)
  | leaveBlock {signals : Signals} (h : Reachable signals) (saved : List String) : Reachable (signals.leaveBlock saved)

mutual

/-- Whether no name in the text of an expression is an operator: no signal of a variable, no field and no function. -/
def Expr.avoidsOperators (signals : Signals) : Expr → Bool
  | .number _ _ => true
  | .ident name _ => !Vhdl.isOperatorWord (signals.signal name)
  | .field base name _ => base.avoidsOperators signals && !Vhdl.isOperatorWord name
  | .element base index _ => base.avoidsOperators signals && index.avoidsOperators signals
  | .negate operand _ => operand.avoidsOperators signals
  | .binary _ l r _ => l.avoidsOperators signals && r.avoidsOperators signals
  | .unary _ operand _ => operand.avoidsOperators signals
  | .call name args _ => !Vhdl.isOperatorWord name && Expr.allAvoidOperators signals args

/-- Whether no name in the texts of several expressions is an operator. -/
def Expr.allAvoidOperators (signals : Signals) : List Expr → Bool
  | [] => true
  | e :: es => e.avoidsOperators signals && Expr.allAvoidOperators signals es

end

theorem Expr.allAvoidOperators_iff {signals : Signals} {es : List Expr} :
    Expr.allAvoidOperators signals es ↔ ∀ e ∈ es, e.avoidsOperators signals :=
  @forall_iff_of_cons Expr (·.avoidsOperators signals) (Expr.allAvoidOperators signals ·) rfl
    (fun _ _ => by rw [Expr.allAvoidOperators, Bool.and_eq_true]) es

/-- An identifier of the source is a word of VHDL. -/
theorem isWord_of_isIdentifier (h : isIdentifier name) : Vhdl.isWord name := by
  cases hlist : name.toList with
  | nil => simp [isIdentifier, hlist] at h
  | cons c cs =>
    simp only [isIdentifier, hlist, Bool.and_eq_true] at h
    simp only [Vhdl.isWord, hlist, Bool.and_eq_true]
    exact h.1

/-- A word stays a word with a suffix of letters, digits and underscores. -/
theorem isWord_append {suffix : String} (hname : Vhdl.isWord name) (hsuffix : suffix.toList.all Piece.isWordPart) :
    Vhdl.isWord (name ++ suffix) := by
  unfold Vhdl.isWord at *
  rw [String.toList_append]
  cases hlist : name.toList with
  | nil => simp [hlist] at hname
  | cons c cs =>
    rw [hlist] at hname
    simp only [Bool.and_eq_true] at hname
    simp only [List.cons_append, List.all_append, Bool.and_eq_true]
    exact ⟨hname.1, hname.2, hsuffix⟩

/-- The digits of a number may stand in a word. -/
theorem all_isWordPart_toString (n : Nat) : (toString n).toList.all Piece.isWordPart := by
  rw [Nat.toString_eq_ofList_toDigits, String.toList_ofList, List.all_eq_true]
  intro c hc
  have hdigit : c.isDigit := Nat.isDigit_of_mem_toDigits (by decide) (by decide) hc
  simp [Piece.isWordPart, Char.isAlphanum, hdigit]

/-- The names that are tried for a word are words. -/
theorem isWord_candidateName (h : Vhdl.isWord name) (n : Nat) : Vhdl.isWord (candidateName name n) := by
  have hlocal : Vhdl.isWord (name ++ "_local") := isWord_append h (by decide +kernel)
  cases n with
  | zero => exact hlocal
  | succ n => exact isWord_append hlocal (all_isWordPart_toString _)

namespace Signals.Reachable

variable {signals : Signals}

/-- The names given in a state that can be reached are candidates for the names of the source. -/
theorem areCandidates (h : signals.Reachable) : AreCandidates signals.fixed ∧ AreCandidates signals.shadows := by
  induction h with
  | empty => exact ⟨by simp [AreCandidates], by simp [AreCandidates]⟩
  | ofFunction f =>
    exact ⟨(Renaming.avoids_addAll ..).areCandidates, (Renaming.avoids_addAll ..).areCandidates⟩
  | declare h name ih =>
    rw [Signals.declare]
    split
    · exact ih
    · exact ih
  | leaveBlock h saved ih => exact ih

/-- The name given to a word is a word. -/
theorem isWord_of_lookup {pairs : List (String × String)} (hpairs : AreCandidates pairs) {signal : String}
    (hname : Vhdl.isWord name) (hlookup : pairs.lookup name = some signal) : Vhdl.isWord signal := by
  obtain ⟨n, hn⟩ := hpairs _ (mem_of_lookup hlookup)
  rw [show signal = candidateName name n from hn]
  exact isWord_candidateName hname n

/-- The signal of a variable is a word if its name is. -/
theorem isWord_signal (h : signals.Reachable) (hname : Vhdl.isWord name) : Vhdl.isWord (signals.signal name) := by
  have houter : Vhdl.isWord (signals.outer name) := by
    rw [outer]
    split
    · next hlookup => exact isWord_of_lookup h.areCandidates.1 hname hlookup
    · split
      · exact isWord_append hname (by decide +kernel)
      · exact hname
  rw [signal]
  split
  · cases hshadow : signals.shadow? name with
    | none => exact houter
    | some shadow => exact isWord_of_lookup h.areCandidates.2 hname hshadow
  · exact houter

end Signals.Reachable

/-! ## Literals -/

theorem writesName_function (hword : Vhdl.isWord name) (hplain : Vhdl.isOperatorWord name = false)
    {args : List Vhdl.Expr} {ts : List Tree} (hargs : List.Forall₂ (Writes .expression) args ts) :
    WritesName (.apply (.name name) args) (.apply (.name name) ts) :=
  (WritesName.name hword hplain).apply hargs

theorem writesName_unsigned {value : Vhdl.Expr} {t : Tree} (h : Writes .expression value t) :
    WritesName (.unsigned value) (.apply (.name "unsigned") [t]) :=
  writesName_function (by decide) (by decide +kernel) (.cons h .nil)

/-- A numeral without a sign is read as it is. -/
theorem literalTree_of_isNumeral {numeral : String} (h : isNumeral numeral) :
    literalTree numeral = .literal numeral := by
  unfold literalTree
  split
  · next cs hcs => exact absurd hcs (toList_ne_of_isNumeral h cs)
  · rfl

/-- A literal is read with its sign. -/
theorem writes_literal {text : String} (h : IsLiteral text) : Writes .simple (.literal text) (literalTree text) := by
  obtain ⟨numeral, hnumeral, rfl | rfl⟩ := h
  · rw [literalTree_of_isNumeral hnumeral]
    exact (Writes.literal hnumeral).mono (by decide)
  · have htree : literalTree ("-" ++ numeral) = .sign .sub (.literal numeral) := by
      simp [literalTree]
    rw [htree]
    exact .negativeLiteral hnumeral

/-- The conversion of a literal is written as a call with its two arguments. -/
theorem writesName_convertLiteral {text : String} (h : IsLiteral text) :
    WritesName (.convertLiteral text) (conversionTree text) := by
  have hargs : List.Forall₂ (Writes .expression) [.literal text, .ofNat Vhdl.Expr.literalWidth]
      [literalTree text, .literal (toString Vhdl.Expr.literalWidth)] :=
    .cons (writes_literal h).expression (.cons (Writes.literal (isNumeral_toString _)).expression .nil)
  rw [Vhdl.Expr.convertLiteral, conversionTree]
  split
  · exact writesName_function (by decide) (by decide +kernel) hargs
  · exact writesName_function (by decide) (by decide +kernel) hargs

/-- The value of a literal is a primary: a sign stands inside of a conversion. -/
theorem writes_hardwareLiteral {text : String} (h : IsLiteral text) :
    Writes .primary (hardwareLiteral text)
      (if text.toList.head? = some '-' then conversionTree text else .literal text) := by
  rw [hardwareLiteral]
  split
  · exact (writesName_convertLiteral h).writes _
  · next hhead =>
    obtain ⟨numeral, hnumeral, rfl | rfl⟩ := h
    · exact .literal hnumeral
    · simp at hhead

/-! ## Operands -/

section Operands

variable (he : e.Canonical) {value : Vhdl.Expr} {t : Tree} (h : Writes .expression value t)

include he h

/-- An operand is a name, since it is a conversion. -/
theorem writesName_asOperand : WritesName (asOperand e value) (e.operandTree t) := by
  cases e with
  | number text loc => exact writesName_convertLiteral he
  | _ => exact writesName_unsigned h

theorem writes_isNonzero : Writes .relation (isNonzero e value) (.binary .ne (e.operandTree t) (.literal "0")) :=
  Writes.binary .ne ((writesName_asOperand he h).writes _) ((Writes.literal (by decide)).mono (by decide))

theorem writes_asCondition : Writes .expression (asCondition e value) (e.conditionTree t) := by
  rw [asCondition, Expr.conditionTree]
  split
  · exact h
  · exact (writes_isNonzero he h).expression

theorem writes_asGateInput : Writes .relation (asGateInput e value) (e.conditionTree t) := by
  rw [asGateInput, Expr.conditionTree]
  split
  · exact h.paren.mono (by decide)
  · exact writes_isNonzero he h

/-- The amount of a shift is read as such. -/
theorem writes_asShiftAmount : Writes .expression (asShiftAmount e value) (e.amountTree t) := by
  have hoperand : WritesName (.toInteger (asOperand e value)) (.apply (.name "to_integer") [e.operandTree t]) :=
    writesName_function (by decide +kernel) (by decide +kernel) (.cons ((writesName_asOperand he h).writes _) .nil)
  unfold asShiftAmount Expr.amountTree
  cases e.integer? with
  | none => exact hoperand.writes _
  | some value =>
    cases value with
    | ofNat n => exact (Writes.literal (isNumeral_toString n)).expression
    | negSucc n => exact hoperand.writes _

end Operands

/-! ## Operators -/

/-- The kind of phrase that an operation is in hardware. -/
def Operator.phrase : Operator → Phrase
  | bitAnd | bitOr | bitXor => .expression
  | eq | ne | lt | le | gt | ge => .relation
  | add | sub => .simple
  | mul | div => .term
  | and | or | shiftLeft | shiftRight => .primary

/-- The kind of phrase that the value of an expression is in hardware. -/
def Expr.phrase : Expr → Phrase
  | .binary op _ _ _ => op.phrase
  | .negate _ _ => .simple
  | .unary _ _ _ => .factor
  | _ => .primary

/-- Arithmetic binds in VHDL as in the source. -/
theorem Operator.rank_phrase {op : Operator} (h : op.isArithmetic) : (op.phrase.rank : Int) = op.precedence - 4 := by
  cases op <;> first | rfl | cases h

/-- What stands without parentheses beside an arithmetic operator binds tightly enough, on the right more tightly than
the operator. -/
theorem rank_phrase_of_needsParens {parent : Operator} (hparent : parent.isArithmetic) {isRight : Bool}
    (h : needsParens parent isRight e = false) : parent.phrase.rank + isRight.toNat ≤ e.phrase.rank := by
  have hrank := Operator.rank_phrase hparent
  have hmost : parent.precedence ≤ 7 := by cases parent <;> decide
  have hside := isRight.toNat_le
  have hfactor : parent.phrase.rank + isRight.toNat ≤ Phrase.factor.rank := by
    show _ ≤ 4
    omega
  cases e with
  | binary op l r loc =>
    simp only [needsParens, Bool.or_eq_false_iff, Bool.not_eq_false', Bool.and_eq_false_iff,
      decide_eq_false_iff_not] at h
    obtain ⟨⟨hop, hle⟩, hright⟩ := h
    have hrank' := Operator.rank_phrase hop
    rw [Expr.phrase]
    cases isRight with
    | false => simp only [Bool.toNat_false]; omega
    | true =>
      have hne : op.precedence ≠ parent.precedence := by simpa using hright
      simp only [Bool.toNat_true]
      omega
  | negate operand loc => cases h
  | unary op operand loc => exact hfactor
  | _ => exact hfactor.trans (Nat.le_succ _)

/-- An operand of an arithmetic operator has parentheses if it would be grouped otherwise. -/
theorem writes_asTerm {parent : Operator} (hparent : parent.isArithmetic) (isRight : Bool) {p : Phrase}
    (hp : p.rank = parent.phrase.rank + isRight.toNat) {value : Vhdl.Expr} {t : Tree} (h : Writes e.phrase value t) :
    Writes p (asTerm parent isRight e value) t := by
  rw [asTerm]
  split
  · refine h.expression.paren.mono ?_
    have hside := isRight.toNat_le
    have hmost : parent.phrase.rank ≤ 3 := by cases parent <;> first | decide | cases hparent
    show p.rank ≤ 5
    omega
  · next hparens =>
    exact h.mono (hp ▸ rank_phrase_of_needsParens hparent (by simpa using hparens))

section Binary

variable {l r : Expr} {lv rv : Vhdl.Expr} {lt rt : Tree}

/-- An arithmetic operation is read with its own operands. -/
theorem writes_joinTerms {op : Operator} (hop : op.isArithmetic) {vop : Vhdl.Operator} (hvop : vop.phrase = op.phrase)
    (hl : Writes l.phrase lv lt) (hr : Writes r.phrase rv rt) :
    Writes op.phrase (joinTerms op vop l r lv rv) (.binary vop lt rt) := by
  have hnext : vop.phrase.next.rank = op.phrase.rank + true.toNat := by
    rw [hvop]
    cases op <;> rfl
  rw [← hvop]
  exact .binary vop (writes_asTerm hop false (by rw [hvop]; rfl) hl) (writes_asTerm hop true hnext hr)

variable (hlc : l.Canonical) (hrc : r.Canonical) (hl : Writes .expression lv lt) (hr : Writes .expression rv rt)

include hlc hrc hl hr

/-- A comparison is read with its own operands. -/
theorem writes_compareOperands (op : Vhdl.Operator) :
    Writes op.phrase (compareOperands op l r lv rv) (.binary op (l.operandTree lt) (r.operandTree rt)) :=
  .binary op ((writesName_asOperand hlc hl).writes _) ((writesName_asOperand hrc hr).writes _)

/-- A logical operation is read with its own conditions. -/
theorem writes_joinConditions {op : Vhdl.Operator} (hop : op.phrase = .expression) :
    Writes .primary (joinConditions op l r lv rv) (.binary op (l.conditionTree lt) (r.conditionTree rt)) := by
  have hleft : Writes op.phrase (asGateInput l lv) (l.conditionTree lt) := by
    rw [hop]
    exact (writes_asGateInput hlc hl).expression
  have hright : Writes op.phrase.next (asGateInput r rv) (r.conditionTree rt) := by
    rw [hop]
    exact writes_asGateInput hrc hr
  exact (Writes.binary op hleft hright).expression.paren

theorem writesName_shiftOperand (hword : Vhdl.isWord name) (hplain : Vhdl.isOperatorWord name = false) :
    WritesName (shiftOperand name l r lv rv) (.apply (.name name) [l.operandTree lt, r.amountTree rt]) :=
  writesName_function hword hplain
    (.cons ((writesName_asOperand hlc hl).writes _) (.cons (writes_asShiftAmount hrc hr) .nil))

end Binary

/-- The text of a binary operation is read as the operation. -/
theorem writes_hardwareBinary (op : Operator) {l r : Expr} {lv rv : Vhdl.Expr} {lt rt : Tree} (hlc : l.Canonical)
    (hrc : r.Canonical) (hl : Writes l.phrase lv lt) (hr : Writes r.phrase rv rt) :
    Writes op.phrase (hardwareBinary op l r lv rv) (op.tree l r lt rt) := by
  have hle := hl.expression
  have hre := hr.expression
  cases op with
  | add | sub | mul | div => exact writes_joinTerms rfl rfl hl hr
  | eq => exact writes_compareOperands hlc hrc hle hre .eq
  | ne => exact writes_compareOperands hlc hrc hle hre .ne
  | lt => exact writes_compareOperands hlc hrc hle hre .lt
  | le => exact writes_compareOperands hlc hrc hle hre .le
  | gt => exact writes_compareOperands hlc hrc hle hre .gt
  | ge => exact writes_compareOperands hlc hrc hle hre .ge
  | bitAnd => exact writes_compareOperands hlc hrc hle hre .and
  | bitOr => exact writes_compareOperands hlc hrc hle hre .or
  | bitXor => exact writes_compareOperands hlc hrc hle hre .xor
  | and | or => exact writes_joinConditions hlc hrc hle hre rfl
  | shiftLeft => exact (writesName_shiftOperand hlc hrc hle hre (by decide +kernel) (by decide +kernel)).writes _
  | shiftRight => exact (writesName_shiftOperand hlc hrc hle hre (by decide +kernel) (by decide +kernel)).writes _

/-- The text of a unary operation is read as the operation. -/
theorem writes_hardwareUnary (op : UnaryOperator) (he : e.Canonical) {value : Vhdl.Expr} {t : Tree}
    (h : Writes .expression value t) : Writes .factor (hardwareUnary op e value) (op.tree e t) := by
  have hoperand := writesName_asOperand he h
  cases op with
  | bitNot => exact (hoperand.writes _).not
  | not =>
    rw [hardwareUnary, UnaryOperator.tree]
    split
    · exact h.paren.not
    · have hzero : Writes .simple (.literal "0") (.literal "0") := (Writes.literal (by decide)).mono (by decide)
      exact (Writes.binary .eq (hoperand.writes _) hzero).expression.paren.mono (by decide)

/-! ## Expressions -/

section Expressions

variable {signals : Signals} (hsignals : signals.Reachable)

include hsignals

theorem writesName_ident (hname : isIdentifier name) (hplain : Vhdl.isOperatorWord (signals.signal name) = false) :
    WritesName (.name (signals.signal name)) (.name (signals.signal name)) :=
  .name (hsignals.isWord_signal (isWord_of_isIdentifier hname)) hplain

/-- A variable, a field of one, a field of a field and so on are names. -/
theorem writesName_of_isFieldChain (hchain : e.isFieldChain) (hnamed : e.Named) (havoids : e.avoidsOperators signals) :
    WritesName (hardwareExpr signals e) (e.tree signals) := by
  induction e with
  | ident name loc =>
    rw [Expr.avoidsOperators, Bool.not_eq_true'] at havoids
    exact writesName_ident hsignals hnamed havoids
  | field base name loc ih =>
    rw [Expr.avoidsOperators, Bool.and_eq_true, Bool.not_eq_true'] at havoids
    exact (ih hchain hnamed.1 havoids.1).field (isWord_of_isIdentifier hnamed.2) havoids.2
  | _ => cases hchain

/-- The text of an expression is read as its operator tree. -/
theorem writes_hardwareExpr (hcanonical : e.Canonical) (hnamed : e.Named) (havoids : e.avoidsOperators signals) :
    Writes e.phrase (hardwareExpr signals e) (e.tree signals) := by
  induction e with
  | number text loc => exact writes_hardwareLiteral hcanonical
  | ident name loc => exact (writesName_of_isFieldChain hsignals rfl hnamed havoids).writes _
  | field base name loc =>
    exact (writesName_of_isFieldChain (e := .field base name loc) hsignals hcanonical hnamed havoids).writes _
  | element base index loc _ ihindex =>
    rw [Expr.avoidsOperators, Bool.and_eq_true] at havoids
    have hbase := writesName_of_isFieldChain hsignals hcanonical.1 hnamed.1 havoids.1
    have hindex := ihindex hcanonical.2 hnamed.2 havoids.2
    rw [hardwareExpr_element]
    exact (hbase.apply (.cons hindex.expression .nil)).writes _
  | negate operand loc ih =>
    have hoperand := ih hcanonical.2 hnamed havoids
    refine Writes.negate ((writesName_unsigned hoperand.expression).writes _) fun rest => ?_
    simp [Vhdl.Expr.text_unsigned]
  | binary op l r loc ihl ihr =>
    rw [Expr.avoidsOperators, Bool.and_eq_true] at havoids
    rw [hardwareExpr_binary]
    exact writes_hardwareBinary op hcanonical.1 hcanonical.2.1 (ihl hcanonical.1 hnamed.1 havoids.1)
      (ihr hcanonical.2.1 hnamed.2 havoids.2)
  | unary op operand loc ih =>
    exact writes_hardwareUnary op hcanonical.1 (ih hcanonical.1 hnamed havoids).expression
  | call name args loc ih =>
    rw [Expr.avoidsOperators, Bool.and_eq_true, Bool.not_eq_true', Expr.allAvoidOperators_iff] at havoids
    -- between commas every expression may stand as it is
    have hargs : List.Forall₂ (Writes .expression) (args.map (hardwareExpr signals)) (Expr.trees signals args) := by
      rw [Expr.trees_eq_map, List.forall₂_map_left_iff, List.forall₂_map_right_iff,
        List.forall₂_same]
      intro e he
      exact (ih e he (Expr.allCanonical_iff.1 hcanonical e he) (Expr.allNamed_iff.1 hnamed.2 e he)
        (havoids.2 e he)).expression
    rw [hardwareExpr_call]
    exact (writesName_function (isWord_of_isIdentifier hnamed.1) havoids.1 hargs).writes _

end Expressions

/-- **Expressions keep their grouping.** What is read from a source text is a canonical expression with identifiers for
its names. In any state of the signals, if no name in its text is an operator of VHDL, then the texts of its value, of
its operand and of its condition are read in exactly one way, as the operator trees of the expression. -/
theorem expression_grouping :
    (∀ (source : String) (r r' : Reader) (e : Expr), Reader.ofSource source = .ok r →
      Grammar.expression.run r = .ok e r' → e.Canonical ∧ e.Named) ∧
    (∀ (e : Expr) (signals : Signals), e.Canonical → e.Named → signals.Reachable → e.avoidsOperators signals →
      (hardwareExpr signals e).ReadAs (e.tree signals) ∧
      (hardwareOperand signals e).ReadAs (e.operandTree (e.tree signals)) ∧
      (hardwareCondition signals e).ReadAs (e.conditionTree (e.tree signals))) := by
  constructor
  · intro source r r' e hr hrun
    exact ⟨(Grammar.YieldsWritten.expression.written (.of_ofSource hr) hrun).canonical,
      (Grammar.Yields.expression.of_ok (.of_ofSource hr) hrun).1⟩
  · intro e signals hcanonical hnamed hsignals havoids
    have hvalue := writes_hardwareExpr hsignals hcanonical hnamed havoids
    exact ⟨hvalue.readAs, ((writesName_asOperand hcanonical hvalue.expression).writes .name).readAs,
      (writes_asCondition hcanonical hvalue.expression).readAs⟩

/-- A source text where every kind of operator stands in another one. -/
def nestedOperatorsSource : String := "a-(b-c)*-clk-(!f(s.x[-1],2<<3)^~d)"

theorem expression_grouping_nestedOperatorsSource :
    ∃ r e r', Reader.ofSource nestedOperatorsSource = .ok r ∧ Grammar.expression.run r = .ok e r' ∧
      e.Canonical ∧ e.Named ∧ Signals.Reachable {} ∧ e.avoidsOperators {} ∧
      (hardwareExpr {} e).text =
        "a - (b - c) * (-unsigned(clk_local)) - (unsigned((unsigned(f(s.x(to_signed(-1, 32)), " ++
          "shift_left(to_unsigned(2, 32), 3))) = 0)) xor unsigned(not unsigned(d)))" ∧
      (hardwareExpr {} e).ReadAs (e.tree {}) ∧ (hardwareOperand {} e).ReadAs (e.operandTree (e.tree {})) ∧
      (hardwareCondition {} e).ReadAs (e.conditionTree (e.tree {})) := by
  have hchecked : Reader.reads nestedOperatorsSource Grammar.expression (fun e _ => e.avoidsOperators {} &&
      (hardwareExpr {} e).text =
        "a - (b - c) * (-unsigned(clk_local)) - (unsigned((unsigned(f(s.x(to_signed(-1, 32)), " ++
          "shift_left(to_unsigned(2, 32), 3))) = 0)) xor unsigned(not unsigned(d)))") := by decide +kernel
  obtain ⟨r, e, r', hr, hrun, hcheck⟩ := Reader.exists_run_of_reads hchecked
  rw [Bool.and_eq_true, decide_eq_true_eq] at hcheck
  obtain ⟨hcanonical, hnamed⟩ := expression_grouping.1 _ r r' e hr hrun
  exact ⟨r, e, r', hr, hrun, hcanonical, hnamed, .empty, hcheck.1, hcheck.2,
    expression_grouping.2 e {} hcanonical hnamed .empty hcheck.1⟩

/-- The function and the variable of a call of a function of a single variable. -/
def Expr.callOfVariable? : Expr → Option (String × String)
  | .call function [.ident argument _] _ => some (function, argument)
  | _ => none

theorem Expr.eq_of_callOfVariable? {function argument : String} (h : e.callOfVariable? = some (function, argument)) :
    ∃ loc loc', e = .call function [.ident argument loc] loc' := by
  unfold callOfVariable? at h
  split at h
  · cases h
    exact ⟨_, _, rfl⟩
  · cases h

/-- A call of a function whose name is an operator is read as the operator. -/
theorem expression_grouping_operatorWord :
    ∃ r e r', Reader.ofSource "not(x)" = .ok r ∧ Grammar.expression.run r = .ok e r' ∧ Signals.Reachable {} ∧
      e.tree {} = .apply (.name "not") [.name "x"] ∧ (hardwareExpr {} e).ReadAs (.not (.name "x")) ∧
      ¬ (hardwareExpr {} e).ReadAs (e.tree {}) := by
  have hchecked : Reader.reads "not(x)" Grammar.expression fun e _ => e.callOfVariable? = some ("not", "x") := by
    decide +kernel
  obtain ⟨r, e, r', hr, hrun, hcall⟩ := Reader.exists_run_of_reads hchecked
  obtain ⟨loc, loc', rfl⟩ := Expr.eq_of_callOfVariable? (of_decide_eq_true hcall)
  have hsignal : Signals.signal {} "x" = "x" := by decide +kernel
  have htree : (Expr.call "not" [.ident "x" loc] loc').tree {} = .apply (.name "not") [.name "x"] := by
    rw [Expr.tree, Expr.trees, Expr.trees, Expr.tree, hsignal]
  have htext : (hardwareExpr {} (.call "not" [.ident "x" loc] loc')).text = "not(x)" := by
    rw [hardwareExpr_call, List.map_singleton, hardwareExpr_ident, hsignal]
    decide +kernel
  have hlexemes : Vhdl.lexemes "not(x)" = [.not, .openParen, .name "x", .closeParen] := by decide +kernel
  have hphrase : Vhdl.Reads .factor [.not, .openParen, .name "x", .closeParen] (.not (.name "x")) :=
    .not (.paren ((Vhdl.Reads.name "x").mono (by decide)))
  have hread : (hardwareExpr {} (.call "not" [.ident "x" loc] loc')).ReadAs (.not (.name "x")) := by
    apply Vhdl.Expr.readAs_of_reads
    rw [htext, hlexemes]
    exact hphrase.mono (by decide)
  refine ⟨r, _, r', hr, hrun, .empty, htree, hread, ?_⟩
  intro hsame
  have heq := (hread _).1 ((hsame _).2 rfl)
  rw [htree] at heq
  cases heq

end ClockedC
