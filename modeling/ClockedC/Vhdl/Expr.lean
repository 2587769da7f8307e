import ClockedC.Vhdl.BitString

/-!
# VHDL expressions

Expressions as they are written: parentheses are part of the tree, so that `Expr.text` decides nothing.
-/

namespace ClockedC.Vhdl

/-- The binary operators in use. -/
inductive Operator where
  | add
  | sub
  | mul
  | div
  | eq
  | ne
  | lt
  | le
  | gt
  | ge
  | and
  | or
  | xor
  deriving DecidableEq, Repr

/-- How an operator is written. -/
def Operator.spelling : Operator → String
  | add => "+"
  | sub => "-"
  | mul => "*"
  | div => "/"
  | eq => "="
  | ne => "/="
  | lt => "<"
  | le => "<="
  | gt => ">"
  | ge => ">="
  | and => "and"
  | or => "or"
  | xor => "xor"

/-- An expression. -/
inductive Expr where
  /-- A literal, as written. -/
  | literal (text : String)
  /-- A constant written bit by bit. -/
  | bits (width : Nat) (value : Int)
  /-- The aggregate of zeros. -/
  | zeros
  | name (name : String)
  | field (base : Expr) (name : String)
  /-- A call, a conversion or an element of an array. -/
  | apply (function : Expr) (args : List Expr)
  | paren (inner : Expr)
  | negate (operand : Expr)
  | not (operand : Expr)
  | binary (op : Operator) (left right : Expr)
  deriving Repr, Inhabited

namespace Expr

mutual

/-- The text of an expression. -/
def text : Expr → String
  | literal written => written
  | bits width value => bitString value width
  | zeros => "(others => '0')"
  | name n => n
  | field base n => base.text ++ "." ++ n
  | apply function args => function.text ++ "(" ++ ", ".intercalate (texts args) ++ ")"
  | paren inner => "(" ++ inner.text ++ ")"
  | negate operand => "-" ++ operand.text
  | not operand => "not " ++ operand.text
  | binary op left right => left.text ++ " " ++ op.spelling ++ " " ++ right.text

/-- The texts of several expressions. -/
def texts : List Expr → List String
  | [] => []
  | e :: es => e.text :: texts es

end

/-- The number read from a literal in decimal. -/
def ofNat (n : Nat) : Expr := literal (toString n)

/-- The conversion of a value to an unsigned number. -/
def unsigned (value : Expr) : Expr := apply (name "unsigned") [value]

theorem text_unsigned (value : Expr) : (unsigned value).text = "unsigned(" ++ value.text ++ ")" := by
  simp [unsigned, text, texts]

/-- The conversion of an unsigned number to an integer. -/
def toInteger (value : Expr) : Expr := apply (name "to_integer") [value]

/-- How many bits a literal is converted to. -/
def literalWidth : Nat := 32

/-- The conversion of a literal to a number: signed if its text has a minus sign, unsigned otherwise. -/
def convertLiteral (text : String) : Expr :=
  let conversion := if text.toList.head? = some '-' then "to_signed" else "to_unsigned"
  apply (name conversion) [literal text, ofNat literalWidth]

end Expr

end ClockedC.Vhdl
