import ClockedC.Ast.Operator
import ClockedC.Text.Numeral

/-!
# Expressions

Expression trees, every node with its location. A place is what may stand on the left of an assignment: a
variable, a field or an element.

* `Expr.integer?` : the value of a literal;
* `Expr.isTruth` : whether the value is a truth value, judged by the outermost node;
* `Expr.flatName?` : one name for a whole place, by which array sizes are looked up;
* `Expr.negated` : what a minus sign makes of an expression.
-/

namespace ClockedC

/-- An expression. -/
inductive Expr where
  /-- A literal, with its text. -/
  | number (text : String) (loc : Location)
  /-- A variable. -/
  | ident (name : String) (loc : Location)
  | field (base : Expr) (name : String) (loc : Location)
  | element (base : Expr) (index : Expr) (loc : Location)
  | negate (operand : Expr) (loc : Location)
  | binary (op : Operator) (left right : Expr) (loc : Location)
  | unary (op : UnaryOperator) (operand : Expr) (loc : Location)
  | call (name : String) (args : List Expr) (loc : Location)
  deriving Repr, Inhabited

namespace Expr

/-- Where an expression stands. -/
def loc : Expr → Location
  | number _ loc => loc
  | ident _ loc => loc
  | field _ _ loc => loc
  | element _ _ loc => loc
  | negate _ loc => loc
  | binary _ _ _ loc => loc
  | unary _ _ loc => loc
  | call _ _ loc => loc

/-- Whether a value can be assigned to the expression. -/
def isPlace : Expr → Bool
  | ident .. => true
  | field .. => true
  | element .. => true
  | _ => false

/-- The value of a literal whose text is a numeral. -/
def integer? : Expr → Option Int
  | number text _ => Text.integer64? text
  | _ => none

/-- Whether the outermost node yields a truth value and not a word. -/
def isTruth : Expr → Bool
  | binary op _ _ _ => op.isComparison || op.isLogical
  | unary .not _ _ => true
  | _ => false

/-- One name for a place: fields are joined by two underscores, indices stand in brackets. -/
def flatName? : Expr → Option String
  | ident name _ => some name
  | field base name _ => base.flatName?.map fun b => b ++ "__" ++ name
  | element base (number text _) _ => base.flatName?.map fun b => b ++ "[" ++ text ++ "]"
  | element base index _ => do
    let i ← index.flatName?
    let b ← base.flatName?
    return b ++ "[" ++ i ++ "]"
  | _ => none

/-- What a minus sign at `loc` makes of an expression: a literal changes its sign, a place is negated, and
anything else is subtracted from zero. -/
def negated (loc : Location) : Expr → Expr
  | number text _ =>
    match text.toList with
    | '-' :: cs => number (String.ofList cs) loc
    | _ => number ("-" ++ text) loc
  | operand =>
    if operand.isPlace then negate operand loc
    else binary .sub (number "0" loc) operand loc

end Expr

end ClockedC
