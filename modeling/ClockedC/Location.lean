/-!
# Places in a source text

A location is a line and a column, both counted from one; a column counts characters, whatever their width.
`Location.after` follows a text character by character.
-/

namespace ClockedC

/-- A line and a column of a source text. -/
structure Location where
  line : Nat
  column : Nat
  deriving DecidableEq, Repr

namespace Location

/-- Where a text begins. -/
def start : Location := ⟨1, 1⟩

/-- The location of what stands in no text. -/
def nowhere : Location := ⟨0, 0⟩

instance : Inhabited Location := ⟨nowhere⟩

/-- The location behind the character `c`: a newline begins the next line. -/
def next (loc : Location) (c : Char) : Location :=
  if c = '\n' then ⟨loc.line + 1, 1⟩ else ⟨loc.line, loc.column + 1⟩

/-- The location behind the text `cs`. -/
def after (loc : Location) (cs : List Char) : Location :=
  cs.foldl next loc

@[simp] theorem after_nil (loc : Location) : loc.after [] = loc := rfl

@[simp] theorem after_cons (loc : Location) (c : Char) (cs : List Char) :
    loc.after (c :: cs) = (loc.next c).after cs := rfl

/-- Following two texts in turn is following them joined. -/
theorem after_append (loc : Location) (cs ds : List Char) :
    loc.after (cs ++ ds) = (loc.after cs).after ds := by
  simp [after]

end Location

end ClockedC
