/-!
# Blank characters

The characters that may stand between two tokens, and that are dropped at the end of a skipped line:
the 25 characters of the Unicode property White_Space.

* `isBlank` : membership in the table `blankRanges`;
* `trimEnd` : a text without the blanks at its end.
-/

namespace ClockedC.Text

/-- The blank characters as ranges of code points, both ends included. -/
def blankRanges : List (Nat × Nat) :=
  [(0x09, 0x0D), (0x20, 0x20), (0x85, 0x85), (0xA0, 0xA0), (0x1680, 0x1680), (0x2000, 0x200A),
    (0x2028, 0x2029), (0x202F, 0x202F), (0x205F, 0x205F), (0x3000, 0x3000)]

/-- Whether `c` separates tokens. -/
def isBlank (c : Char) : Bool :=
  blankRanges.any fun range => range.1 ≤ c.toNat && c.toNat ≤ range.2

/-- The text `cs` without the blanks at its end. -/
def trimEnd (cs : List Char) : List Char :=
  (cs.reverse.dropWhile isBlank).reverse

@[simp] theorem isBlank_newline : isBlank '\n' = true := rfl

@[simp] theorem isBlank_space : isBlank ' ' = true := rfl

@[simp] theorem trimEnd_nil : trimEnd [] = [] := rfl

/-- A blank at the end is dropped. -/
theorem trimEnd_append_blank (cs : List Char) {c : Char} (h : isBlank c = true) :
    trimEnd (cs ++ [c]) = trimEnd cs := by
  simp [trimEnd, h]

end ClockedC.Text
