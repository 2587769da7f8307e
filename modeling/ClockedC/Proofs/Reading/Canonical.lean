import ClockedC.Proofs.Layout.Unlocated
import ClockedC.Proofs.Scanning.Pieces

/-!
# Canonical expressions

The trees that reading an expression can give. Parentheses leave no trace in a tree, but inside them the operators
`|`, `&&` and `||` are not read, so some trees cannot be written at all; and a minus sign is a node of its own before
a place only.
-/

namespace ClockedC

/-! ## Literals -/

/-- The texts of literals: numerals with at most one minus sign in front. -/
def IsLiteral (text : String) : Prop :=
  ∃ numeral, isNumeral numeral ∧ (text = numeral ∨ text = "-" ++ numeral)

/-- A numeral is a literal without a sign. -/
theorem IsLiteral.of_isNumeral {text : String} (h : isNumeral text) : IsLiteral text :=
  ⟨text, h, .inl rfl⟩

/-- A numeral does not begin with a minus sign. -/
theorem toList_ne_of_isNumeral {text : String} (h : isNumeral text) (cs : List Char) : text.toList ≠ '-' :: cs := by
  intro hcs
  simp [isNumeral, hcs, Char.isDigit] at h

/-! ## Operators inside and outside of parentheses -/

/-- The symbol an operator with one operand is written with. -/
def UnaryOperator.symbol : UnaryOperator → Symbol
  | not => .bang
  | bitNot => .tilde

namespace Expr

/-- Whether the outermost operator of an expression, if it has one, binds at least as tightly as `least`. -/
def bindsFrom (least : Int) : Expr → Bool
  | binary op _ _ _ => least ≤ op.precedence
  | _ => true

/-- Whether an expression may stand in parentheses. -/
def fitsParens (e : Expr) : Bool := e.bindsFrom Operator.parenthesisedPrecedence

/-- A place binds as tightly as can be asked for. -/
theorem bindsFrom_of_isPlace {e : Expr} (h : e.isPlace) (least : Int) : e.bindsFrom least := by
  cases e with
  | binary op left right loc => simp [isPlace] at h
  | _ => rfl

/-- Whether an expression is a variable, or a field of one, or a field of a field, and so on. -/
def isFieldChain : Expr → Bool
  | ident .. => true
  | field base _ _ => base.isFieldChain
  | _ => false

/-- Fields of fields of a variable are a place. -/
theorem isPlace_of_isFieldChain {e : Expr} (h : e.isFieldChain) : e.isPlace := by
  cases e with
  | ident name loc => rfl
  | field base name loc => rfl
  | _ => simp [isFieldChain] at h

end Expr

/-! ## Canonical expressions -/

mutual

/-- The expressions that can be written. An operand is an expression of its own, or one that binds tightly enough
to stand without parentheses, or one that may stand in parentheses. -/
def Expr.Canonical : Expr → Prop
  | .number text _ => IsLiteral text
  | .ident _ _ => True
  | .field base _ _ => base.isFieldChain
  | .element base index _ => base.isFieldChain ∧ index.Canonical
  | .negate operand _ => operand.isPlace ∧ operand.Canonical
  | .binary op left right _ =>
    left.Canonical ∧ right.Canonical ∧ (left.bindsFrom op.precedence ∨ left.fitsParens) ∧
      (right.bindsFrom (op.precedence + 1) ∨ right.fitsParens)
  | .unary _ operand _ => operand.Canonical ∧ operand.fitsParens
  | .call _ args _ => Expr.AllCanonical args

/-- All of several expressions can be written. -/
def Expr.AllCanonical : List Expr → Prop
  | [] => True
  | e :: es => e.Canonical ∧ Expr.AllCanonical es

end

theorem Expr.allCanonical_iff {es : List Expr} : Expr.AllCanonical es ↔ ∀ e ∈ es, e.Canonical :=
  forall_iff_of_cons trivial (fun _ _ => .rfl) es

/-! ## Constant indices -/

/-- A constant index misses no array of known size. -/
def IndexFits (arrays : ArraySizes) (base index : Expr) : Prop :=
  ∀ value ∈ index.integer?, ∀ name ∈ base.flatName?, ∀ size ∈ arrays.size? name, 0 ≤ value ∧ value < (size : Int)

mutual

/-- No constant index inside an expression misses an array of known size. -/
def Expr.InBounds (arrays : ArraySizes) : Expr → Prop
  | .number _ _ => True
  | .ident _ _ => True
  | .field base _ _ => base.InBounds arrays
  | .element base index _ => base.InBounds arrays ∧ index.InBounds arrays ∧ IndexFits arrays base index
  | .negate operand _ => operand.InBounds arrays
  | .binary _ left right _ => left.InBounds arrays ∧ right.InBounds arrays
  | .unary _ operand _ => operand.InBounds arrays
  | .call _ args _ => Expr.AllInBounds arrays args

/-- No constant index inside several expressions misses an array of known size. -/
def Expr.AllInBounds (arrays : ArraySizes) : List Expr → Prop
  | [] => True
  | e :: es => e.InBounds arrays ∧ Expr.AllInBounds arrays es

end

theorem Expr.allInBounds_iff {arrays : ArraySizes} {es : List Expr} :
    Expr.AllInBounds arrays es ↔ ∀ e ∈ es, e.InBounds arrays :=
  forall_iff_of_cons trivial (fun _ _ => .rfl) es

/-- Every index inside of an expression in bounds fits its array. -/
theorem Expr.InBounds.indexFits {arrays : ArraySizes} {e : Expr} (h : e.InBounds arrays) {base index : Expr}
    {loc : Location} (hmem : .element base index loc ∈ e.nodes) : IndexFits arrays base index := by
  induction e with
  | number text loc => cases List.mem_singleton.1 hmem
  | ident name loc => cases List.mem_singleton.1 hmem
  | field base' name loc ih => exact ih h ((List.mem_cons.1 hmem).resolve_left (by simp))
  | element base' index' loc' ihbase ihindex =>
    obtain ⟨hbase, hindex, hfits⟩ := h
    rcases List.mem_cons.1 hmem with heq | hmem
    · cases heq
      exact hfits
    · exact (List.mem_append.1 hmem).elim (ihbase hbase) (ihindex hindex)
  | negate operand loc ih => exact ih h ((List.mem_cons.1 hmem).resolve_left (by simp))
  | binary op left right loc ihleft ihright =>
    have hbelow := (List.mem_cons.1 hmem).resolve_left (by simp)
    exact (List.mem_append.1 hbelow).elim (ihleft h.1) (ihright h.2)
  | unary op operand loc ih => exact ih h ((List.mem_cons.1 hmem).resolve_left (by simp))
  | call called args loc ih =>
    have hbelow := (List.mem_cons.1 hmem).resolve_left (by simp)
    rw [nodesOf_eq_flatMap] at hbelow
    obtain ⟨arg, harg, hmem⟩ := List.mem_flatMap.1 hbelow
    exact ih arg harg (allInBounds_iff.1 h arg harg) hmem

/-- Where no array is in sight every index fits. -/
theorem indexFits_empty (base index : Expr) : IndexFits .empty base index := by
  intro value _ name _ size hsize
  rw [ArraySizes.size?_empty] at hsize
  cases hsize

/-- Without arrays of known size no index misses one. -/
theorem Expr.inBounds_empty (e : Expr) : e.InBounds .empty := by
  induction e with
  | number text loc => trivial
  | ident name loc => trivial
  | field base name loc ih => exact ih
  | element base index loc ihb ihi => exact ⟨ihb, ihi, indexFits_empty base index⟩
  | negate operand loc ih => exact ih
  | binary op left right loc ihl ihr => exact ⟨ihl, ihr⟩
  | unary op operand loc ih => exact ih
  | call name args loc ih => exact Expr.allInBounds_iff.2 ih

/-! ## Written expressions -/

/-- An expression that can be written where arrays have the given sizes. -/
structure Expr.Written (arrays : ArraySizes) (e : Expr) : Prop where
  canonical : e.Canonical
  inBounds : e.InBounds arrays

namespace Expr.Written

variable {arrays : ArraySizes} {loc : Location}

/-- A literal can be written. -/
theorem number {text : String} (h : IsLiteral text) : (Expr.number text loc).Written arrays := ⟨h, trivial⟩

theorem ident (name : String) : (Expr.ident name loc).Written arrays := ⟨trivial, trivial⟩

/-- Fields of fields of a variable can be written. -/
theorem of_isFieldChain {e : Expr} (h : e.isFieldChain) : e.Written arrays := by
  induction e with
  | ident name loc => exact ident name
  | field base name loc ih => exact ⟨h, (ih h).inBounds⟩
  | _ => simp [isFieldChain] at h

/-- An element can be written if its index can, and fits. -/
theorem element {base index : Expr} (hbase : base.isFieldChain) (hindex : index.Written arrays)
    (hfits : IndexFits arrays base index) : (Expr.element base index loc).Written arrays :=
  ⟨⟨hbase, hindex.canonical⟩, (of_isFieldChain hbase).inBounds, hindex.inBounds, hfits⟩

theorem binary {op : Operator} {left right : Expr} (hl : left.Written arrays) (hr : right.Written arrays)
    (hleft : left.bindsFrom op.precedence ∨ left.fitsParens)
    (hright : right.bindsFrom (op.precedence + 1) ∨ right.fitsParens) :
    (Expr.binary op left right loc).Written arrays :=
  ⟨⟨hl.canonical, hr.canonical, hleft, hright⟩, hl.inBounds, hr.inBounds⟩

theorem unary {op : UnaryOperator} {operand : Expr} (h : operand.Written arrays) (hfits : operand.fitsParens) :
    (Expr.unary op operand loc).Written arrays :=
  ⟨⟨h.canonical, hfits⟩, h.inBounds⟩

/-- A call can be written if its arguments can. -/
theorem call {name : String} {args : List Expr} (h : ∀ e ∈ args, e.Written arrays) :
    (Expr.call name args loc).Written arrays :=
  ⟨allCanonical_iff.2 fun e he => (h e he).canonical, allInBounds_iff.2 fun e he => (h e he).inBounds⟩

end Expr.Written

/-! ## Minus signs -/

/-- A minus sign changes the sign of a literal. -/
theorem Expr.negated_number_of_isNumeral {text : String} (h : isNumeral text) (loc loc' : Location) :
    (Expr.number text loc').negated loc = .number ("-" ++ text) loc := by
  rw [negated]
  split
  · next cs hcs => exact absurd hcs (toList_ne_of_isNumeral h cs)
  · rfl

theorem Expr.negated_number_minus (text : String) (loc loc' : Location) :
    (Expr.number ("-" ++ text) loc').negated loc = .number text loc := by
  simp [negated]

/-- A minus sign before a written operand gives a written operand. -/
theorem Expr.Written.negated {arrays : ArraySizes} {e : Expr} (h : e.Written arrays) (hfits : e.fitsParens)
    (loc : Location) : (e.negated loc).Written arrays ∧ (e.negated loc).fitsParens := by
  have hplace : e.isPlace → (Expr.negate e loc).Written arrays ∧ (Expr.negate e loc).fitsParens :=
    fun hp => ⟨⟨⟨hp, h.canonical⟩, h.inBounds⟩, rfl⟩
  have hother : (Expr.binary .sub (.number "0" loc) e loc).Written arrays ∧
      (Expr.binary .sub (.number "0" loc) e loc).fitsParens :=
    ⟨.binary (.number (.of_isNumeral (by decide))) h (.inl rfl) (.inr hfits), rfl⟩
  cases e with
  | number text loc' =>
    obtain ⟨numeral, hnumeral, rfl | rfl⟩ := h.canonical
    · rw [negated_number_of_isNumeral hnumeral]
      exact ⟨.number ⟨_, hnumeral, .inr rfl⟩, rfl⟩
    · rw [negated_number_minus]
      exact ⟨.number (.of_isNumeral hnumeral), rfl⟩
  | ident name loc' => exact hplace rfl
  | field base name loc' => exact hplace rfl
  | element base index loc' => exact hplace rfl
  | negate operand loc' => exact hother
  | binary op l r loc' => exact hother
  | unary op operand loc' => exact hother
  | call name args loc' => exact hother

end ClockedC
