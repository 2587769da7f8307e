/-!
# Decimal numerals

Number tokens keep their text. Where a value is needed (array sizes, constant indices, shift amounts), the
text is read as a decimal numeral of 64 bits: an optional sign, then at least one decimal digit and nothing
else. A text of any other shape, or one whose value does not fit, has no value.

* `natural64?` : the value of an unsigned numeral; its sign may only be `+`;
* `integer64?` : the value of a signed numeral.
-/

namespace ClockedC.Text

/-- The value of one decimal digit. -/
def digitValue (c : Char) : Nat := c.toNat - '0'.toNat

/-- The value of a text of decimal digits, the first digit being the highest. -/
def digitsValue (cs : List Char) : Nat :=
  cs.foldl (fun n c => 10 * n + digitValue c) 0

/-- The value of a nonempty text of decimal digits. -/
def digits? (cs : List Char) : Option Nat :=
  if cs ≠ [] ∧ cs.all Char.isDigit then some (digitsValue cs) else none

/-- How many numbers have 64 bits. -/
def wordCount : Nat := 18446744073709551616

/-- How many of them are not negative if one bit is the sign. -/
def halfWordCount : Nat := 9223372036854775808

/-- The value of an unsigned numeral of 64 bits. -/
def natural64? (text : String) : Option Nat :=
  let value := match text.toList with
    | '+' :: cs => digits? cs
    | cs => digits? cs
  value.filter (· < wordCount)

/-- The value of a signed numeral of 64 bits. -/
def integer64? (text : String) : Option Int :=
  let value : Option Int := match text.toList with
    | '+' :: cs => (digits? cs).map Int.ofNat
    | '-' :: cs => (digits? cs).map fun n => -(n : Int)
    | cs => (digits? cs).map Int.ofNat
  value.filter fun n => -halfWordCount ≤ n ∧ n < halfWordCount

@[simp] theorem digitsValue_nil : digitsValue [] = 0 := rfl

/-- An unsigned numeral has a value of 64 bits. -/
theorem natural64?_lt {text : String} {n : Nat} (h : natural64? text = some n) : n < wordCount := by
  unfold natural64? at h
  simpa using (Option.filter_eq_some_iff.1 h).2

end ClockedC.Text
