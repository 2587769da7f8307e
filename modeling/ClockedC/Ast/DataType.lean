/-!
# Data types

The types a declaration may name. A struct type is known by its name alone; its fields are kept in a table of
layouts.
-/

namespace ClockedC

/-- A type of the source language. -/
inductive DataType where
  | int
  | float
  | double
  | char
  | void
  | struct (name : String)
  deriving DecidableEq, Repr

namespace DataType

/-- How a type is written. -/
def spelling : DataType → String
  | int => "int"
  | float => "float"
  | double => "double"
  | char => "char"
  | void => "void"
  | struct name => "struct " ++ name

/-- The name of a struct type. -/
def structName? : DataType → Option String
  | struct name => some name
  | _ => none

/-- How many bits a value takes; what is neither `double` nor `char` takes a word of 32. -/
def width : DataType → Nat
  | double => 64
  | char => 8
  | _ => 32

/-- Whether constants of the type are written out bit by bit. -/
def hasBitStrings : DataType → Bool
  | int => true
  | char => true
  | _ => false

end DataType

end ClockedC
