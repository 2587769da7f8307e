import ClockedC.Ast.DataType
import ClockedC.Ast.Expr

/-!
# Statements

The statements of a function body. Braces leave no trace: the statements of a nested block stand in the list
around it.

* `Statement.locals` : the variables declared anywhere inside a statement, in source order.
-/

namespace ClockedC

/-- What a variable holds at first. -/
inductive Initializer where
  | value (value : Expr)
  /-- The elements of an array, from the first on. -/
  | elements (values : List Expr)
  /-- The fields of a struct, from the first on. -/
  | fields (values : List Expr)
  deriving Repr, Inhabited

/-- The declaration of a local variable. -/
structure Variable where
  name : String
  type : DataType
  /-- The number of elements of an array. -/
  length : Option Nat
  init : Option Initializer
  loc : Location
  deriving Repr

/-- A value given to a place. -/
structure Assignment where
  target : Expr
  value : Expr
  loc : Location
  deriving Repr

mutual

/-- A statement. -/
inductive Statement where
  | declare (decl : Variable)
  | assign (assignment : Assignment)
  | branch (condition : Expr) (body : List Statement) (alternative : Alternative) (loc : Location)
  | whileLoop (condition : Expr) (body : List Statement) (loc : Location)
  | forLoop (start : Option Statement) (condition : Option Expr) (step : Option Assignment)
      (body : List Statement) (loc : Location)
  | giveBack (value : Option Expr) (loc : Location)
  | leaveLoop (loc : Location)
  | nextRound (loc : Location)
  /-- An expression whose value is dropped. -/
  | evaluate (value : Expr)

/-- What happens where the condition of a branch does not hold. -/
inductive Alternative where
  | nothing
  | elseIf (condition : Expr) (body : List Statement) (alternative : Alternative)
  | otherwise (body : List Statement)

end

namespace Statement

/-- Where a statement stands. -/
def loc : Statement → Location
  | declare decl => decl.loc
  | assign assignment => assignment.loc
  | branch _ _ _ loc => loc
  | whileLoop _ _ loc => loc
  | forLoop _ _ _ _ loc => loc
  | giveBack _ loc => loc
  | leaveLoop loc => loc
  | nextRound loc => loc
  | evaluate value => value.loc

end Statement

/-! ## Local variables -/

mutual

/-- The variables declared inside a statement, in source order. -/
def Statement.locals : Statement → List Variable
  | .declare decl => [decl]
  | .branch _ body alternative _ => Statement.localsOf body ++ alternative.locals
  | .whileLoop _ body _ => Statement.localsOf body
  | .forLoop none _ _ body _ => Statement.localsOf body
  | .forLoop (some start) _ _ body _ => start.locals ++ Statement.localsOf body
  | _ => []

/-- The variables declared inside the remaining arms of a branch. -/
def Alternative.locals : Alternative → List Variable
  | .nothing => []
  | .elseIf _ body alternative => Statement.localsOf body ++ alternative.locals
  | .otherwise body => Statement.localsOf body

/-- The variables declared inside a list of statements. -/
def Statement.localsOf : List Statement → List Variable
  | [] => []
  | s :: ss => s.locals ++ Statement.localsOf ss

end

@[simp] theorem Statement.localsOf_nil : Statement.localsOf [] = [] := rfl

@[simp] theorem Statement.localsOf_cons (s : Statement) (ss : List Statement) :
    Statement.localsOf (s :: ss) = s.locals ++ Statement.localsOf ss := rfl

/-- The variables of two lists in turn. -/
theorem Statement.localsOf_append (ss ts : List Statement) :
    Statement.localsOf (ss ++ ts) = Statement.localsOf ss ++ Statement.localsOf ts := by
  induction ss with
  | nil => rfl
  | cons s ss ih => simp [ih]

end ClockedC
