/-!
# The lines of a text

A line ends at a newline, and a carriage return right before that newline belongs to the line end. What
follows the last newline is a line of its own unless it is empty, and it keeps a carriage return at its end.
-/

namespace ClockedC.Text

/-- Cuts a text after every newline, which stays at the end of its part. -/
def cutAfterNewlines : List Char → List (List Char)
  | [] => []
  | c :: cs =>
    if c = '\n' then [c] :: cutAfterNewlines cs
    else match cutAfterNewlines cs with
      | [] => [[c]]
      | part :: parts => (c :: part) :: parts

/-- A part without its line end. -/
def withoutLineEnd (part : List Char) : List Char :=
  match part.reverse with
  | '\n' :: '\r' :: cs => cs.reverse
  | '\n' :: cs => cs.reverse
  | _ => part

/-- The lines of a text, without their line ends. -/
def lines (text : String) : List String :=
  (cutAfterNewlines text.toList).map fun part => String.ofList (withoutLineEnd part)

/-- Cutting loses nothing. -/
theorem flatten_cutAfterNewlines (cs : List Char) : (cutAfterNewlines cs).flatten = cs := by
  induction cs with
  | nil => rfl
  | cons c cs ih =>
    unfold cutAfterNewlines
    split
    · simp [ih]
    · split
      · next h => simpa [h] using ih
      · next h => simpa [h] using ih

end ClockedC.Text
