/-!
# Bit strings

A constant written out bit by bit, between double quotes, the highest bit first. A negative number is written in
two's complement.

* `bitString` : the text;
* `bits` : its digits.
-/

namespace ClockedC.Vhdl

/-- The number of digits written for a width: at least one, at most 64. -/
def clampWidth (width : Nat) : Nat := min (max width 1) 64

/-- The lowest `width` bits of a number, the highest of them first. -/
def bits (width : Nat) (value : Int) : List Bool :=
  (List.range width).map (BitVec.ofInt width value).getMsbD

/-- The digit of a bit. -/
def bitDigit (bit : Bool) : Char := if bit then '1' else '0'

/-- The text of a constant of a given width. -/
def bitString (value : Int) (width : Nat) : String :=
  "\"" ++ String.ofList ((bits (clampWidth width) value).map bitDigit) ++ "\""

@[simp] theorem length_bits (width : Nat) (value : Int) : (bits width value).length = width := by
  simp [bits]

end ClockedC.Vhdl
