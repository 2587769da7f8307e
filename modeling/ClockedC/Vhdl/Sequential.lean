import ClockedC.Vhdl.Expr

/-!
# Sequential statements of VHDL

What stands inside a process. `Stmt.lines` lays a statement out in lines, each with its level of indentation:
the statements inside a branch or a loop stand one level deeper than its own lines.
-/

namespace ClockedC.Vhdl

/-! ## Lines -/

/-- A line of text and its level of indentation. -/
structure Line where
  level : Nat
  text : String
  deriving DecidableEq, Repr

namespace Line

/-- An empty line. -/
def empty : Line := ⟨0, ""⟩

/-- The line as written: two blanks for a level, and a newline at the end. -/
def render (line : Line) : String := "".pushn ' ' (2 * line.level) ++ line.text ++ "\n"

/-- Several lines in turn. -/
def renderAll (lines : List Line) : String := String.join (lines.map render)

end Line

/-! ## Statements -/

mutual

/-- A sequential statement. -/
inductive Stmt where
  | assign (target value : Expr)
  | ifThen (condition : Expr) (body : List Stmt) (arms : Arms)
  | loop (condition : Expr) (body : List Stmt)
  | exit
  | next
  /-- A remark on an expression that has no counterpart. -/
  | unsynthesized (value : Expr)

/-- The further arms of a branch. -/
inductive Arms where
  | done
  | elsif (condition : Expr) (body : List Stmt) (arms : Arms)
  | otherwise (body : List Stmt)

end

mutual

/-- The lines of a statement. -/
def Stmt.lines (level : Nat) : Stmt → List Line
  | .assign target value => [⟨level, target.text ++ " <= " ++ value.text ++ ";"⟩]
  | .ifThen condition body arms =>
    ⟨level, "if " ++ condition.text ++ " then"⟩ ::
      (Stmt.linesOf (level + 1) body ++ arms.lines level ++ [⟨level, "end if;"⟩])
  | .loop condition body =>
    ⟨level, "while " ++ condition.text ++ " loop"⟩ ::
      (Stmt.linesOf (level + 1) body ++ [⟨level, "end loop;"⟩])
  | .exit => [⟨level, "exit;"⟩]
  | .next => [⟨level, "next;"⟩]
  | .unsynthesized value => [⟨level, "-- expression statement not synthesized: " ++ value.text⟩]

/-- The lines of the further arms of a branch. -/
def Arms.lines (level : Nat) : Arms → List Line
  | .done => []
  | .elsif condition body arms =>
    ⟨level, "elsif " ++ condition.text ++ " then"⟩ ::
      (Stmt.linesOf (level + 1) body ++ arms.lines level)
  | .otherwise body => ⟨level, "else"⟩ :: Stmt.linesOf (level + 1) body

/-- The lines of several statements in turn. -/
def Stmt.linesOf (level : Nat) : List Stmt → List Line
  | [] => []
  | s :: ss => s.lines level ++ Stmt.linesOf level ss

end

@[simp] theorem Stmt.linesOf_nil (level : Nat) : Stmt.linesOf level [] = [] := rfl

@[simp] theorem Stmt.linesOf_cons (level : Nat) (s : Stmt) (ss : List Stmt) :
    Stmt.linesOf level (s :: ss) = s.lines level ++ Stmt.linesOf level ss := rfl

/-- The lines of two lists of statements in turn. -/
theorem Stmt.linesOf_append (level : Nat) (ss ts : List Stmt) :
    Stmt.linesOf level (ss ++ ts) = Stmt.linesOf level ss ++ Stmt.linesOf level ts := by
  induction ss with
  | nil => rfl
  | cons s ss ih => simp [ih]

end ClockedC.Vhdl
