import ClockedC.Ast.Statement

/-!
# Programs

A program is the list of its structs and functions, in source order.
-/

namespace ClockedC

/-- A parameter of a function. -/
structure Parameter where
  name : String
  type : DataType
  loc : Location
  deriving Repr

/-- A field of a struct. -/
structure Field where
  name : String
  type : DataType
  deriving DecidableEq, Repr

/-- The definition of a struct. -/
structure Struct where
  name : String
  fields : List Field
  loc : Location
  deriving Repr

/-- The definition of a function. -/
structure Function where
  name : String
  result : DataType
  parameters : List Parameter
  body : List Statement
  loc : Location

/-- What stands at the top level of a program. -/
inductive Item where
  | struct (decl : Struct)
  | function (decl : Function)

/-- The items of a source text. -/
structure Program where
  items : List Item

namespace Program

/-- The functions of a program. -/
def functions (program : Program) : List Function :=
  program.items.filterMap fun
    | .function decl => some decl
    | .struct _ => none

/-- The structs of a program. -/
def structs (program : Program) : List Struct :=
  program.items.filterMap fun
    | .struct decl => some decl
    | .function _ => none

/-- The first function called `name`. -/
def function? (program : Program) (name : String) : Option Function :=
  program.functions.find? (·.name = name)

end Program

namespace Function

/-- The variables declared anywhere in the body of a function. -/
def locals (f : Function) : List Variable := Statement.localsOf f.body

end Function

end ClockedC
