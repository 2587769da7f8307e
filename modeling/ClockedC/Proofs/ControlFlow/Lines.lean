import ClockedC.Proofs.ControlFlow.Execution

/-!
# Executing lines

The lines of a process are executed as they are written. What a line is can be told from its text, and which lines
belong to a branch or a loop from the lines that end them; indentation means nothing. Lines are gone through from the
last to the first, so that behind a line it is known what is done up to the end of the construct around it.
-/

namespace ClockedC.Vhdl

/-! ## What a line is -/

/-- What a line inside of a process is. -/
inductive Mark where
  | branch (condition : String)
  | elsif (condition : String)
  | otherwise
  | endBranch
  | loop (condition : String)
  | endLoop
  | exit
  | next
  | assignment
  | remark
  deriving DecidableEq, Repr

/-- The part of a text between a front and a back. -/
def between? (front back text : String) : Option String :=
  let inner := text.toList.drop front.length
  if front.toList <+: text.toList ∧ back.toList <:+ inner then
    some (String.ofList (inner.take (inner.length - back.length)))
  else none

/-- The lines that are always the same. -/
def Mark.fixed : List (String × Mark) :=
  [("else", .otherwise), ("end if;", .endBranch), ("end loop;", .endLoop), ("exit;", .exit), ("next;", .next)]

/-- What a line is, by its text. -/
def Mark.ofText? (text : String) : Option Mark :=
  fixed.lookup text <|>
    (between? "if " " then" text).map .branch <|>
    (between? "elsif " " then" text).map .elsif <|>
    (between? "while " " loop" text).map .loop <|>
    (if "--".toList <+: text.toList then some .remark else none) <|>
    (if " <= ".toList <:+: text.toList ∧ ";".toList <:+ text.toList then some .assignment else none)

/-! ## What lines do -/

/-- A construct whose end was passed on the way from the last line. -/
inductive Pending where
  /-- A branch, with what its arms behind the line do, if there are any, and what is done behind it. -/
  | branch (arms : Option Behavior) (rest : Behavior)
  /-- A loop, with what is done behind it. -/
  | loop (rest : Behavior)

/-- What is done behind a line up to the end of the innermost construct, and the constructs around the line. -/
structure Remaining where
  behavior : Behavior
  pending : List Pending

/-- What is done from a line on. -/
def Mark.before (oracle : Oracle) (text : String) : Mark → Remaining → Option Remaining
  | .assignment, ⟨rest, pending⟩ => some ⟨(Behavior.act (.assign text)).andThen rest, pending⟩
  | .remark, remaining => some remaining
  | .exit, ⟨rest, pending⟩ => some ⟨(Behavior.exit .left).andThen rest, pending⟩
  | .next, ⟨rest, pending⟩ => some ⟨(Behavior.exit .again).andThen rest, pending⟩
  | .endBranch, ⟨rest, pending⟩ => some ⟨.exit .finished, .branch none rest :: pending⟩
  | .otherwise, ⟨body, .branch none rest :: pending⟩ =>
    some ⟨.exit .finished, .branch (some body) rest :: pending⟩
  | .elsif condition, ⟨body, .branch arms rest :: pending⟩ =>
    let arm := Behavior.choose condition (oracle.decides condition) body (arms.getD (.exit .finished))
    some ⟨.exit .finished, .branch (some arm) rest :: pending⟩
  | .branch condition, ⟨body, .branch arms rest :: pending⟩ =>
    let arm := Behavior.choose condition (oracle.decides condition) body (arms.getD (.exit .finished))
    some ⟨arm.andThen rest, pending⟩
  | .endLoop, ⟨rest, pending⟩ => some ⟨.exit .finished, .loop rest :: pending⟩
  | .loop condition, ⟨body, .loop rest :: pending⟩ =>
    some ⟨(Behavior.whileLoop condition (oracle.decides condition) body).andThen rest, pending⟩
  | _, _ => none

namespace Line

/-- What is done from a line on, if the lines from it on are nested properly. -/
def before (oracle : Oracle) (line : Line) (remaining : Option Remaining) : Option Remaining := do
  let mark ← Mark.ofText? line.text
  mark.before oracle line.text (← remaining)

/-- What lines do, if they are nested properly. -/
def behavior? (oracle : Oracle) (lines : List Line) : Option Behavior :=
  match lines.foldr (before oracle) (some ⟨.exit .finished, []⟩) with
  | some ⟨behavior, []⟩ => some behavior
  | _ => none

end Line

/-- The lines are those of an entity that are executed at a rising edge of the clock. -/
def Entity.Clocks (entity : Entity) (lines : List Line) : Prop :=
  ∃ front, entity.lines =
    front ++ ⟨2, "elsif rising_edge(clk) then"⟩ ::
      (lines ++ [⟨2, "end if;"⟩, ⟨1, "end process;"⟩, ⟨0, "end architecture;"⟩, .empty])

theorem Entity.clocks_linesOf (entity : Entity) : entity.Clocks (Stmt.linesOf 3 entity.body) := by
  refine ⟨entity.portLines ++ ⟨0, "architecture behavioral of " ++ entity.name ++ " is"⟩ ::
    (entity.signals.flatMap Declaration.lines ++ [⟨0, "begin"⟩, ⟨1, "process(clk, reset)"⟩, ⟨1, "begin"⟩,
      ⟨2, "if reset = '1' then"⟩, ⟨3, "-- Reset logic (user-defined)"⟩]), ?_⟩
  simp [Entity.lines, Entity.architectureLines]

/-! ## The lines of statements -/

theorem between?_append (front middle back : String) : between? front back (front ++ middle ++ back) = some middle := by
  have hdrop : (front ++ middle ++ back).toList.drop front.length = middle.toList ++ back.toList := by
    simp [← String.length_toList]
  rw [between?, hdrop, if_pos ⟨⟨_, by simp; rfl⟩, List.suffix_append ..⟩]
  simp [← String.length_toList]

/-- A text that begins with another character does not have the front. -/
theorem between?_eq_none_of_head {front back text : String} {c d : Char} (hfront : front.toList.head? = some c)
    (htext : text.toList.head? = some d) (h : c ≠ d) : between? front back text = none := by
  apply if_neg
  rintro ⟨⟨ts, hts⟩, -⟩
  rw [← hts, List.head?_append, hfront] at htext
  exact h (by simpa using htext)

/-- A text that ends with another character does not have the back. -/
theorem between?_eq_none_of_getLast {front back text : String} {c d : Char} (hback : back.toList.getLast? = some c)
    (htext : text.toList.getLast? = some d) (h : c ≠ d) : between? front back text = none := by
  apply if_neg
  rintro ⟨-, hsuffix⟩
  obtain ⟨ts, hts⟩ := hsuffix.trans (List.drop_suffix ..)
  rw [← hts, List.getLast?_append, hback] at htext
  exact h (by simpa using htext)

namespace Mark

/-- A text is none of the fixed lines if its characters are not. -/
theorem lookup_fixed {text : String} (h : ∀ entry ∈ fixed, text.toList ≠ entry.1.toList) :
    fixed.lookup text = none := by
  rw [List.lookup_eq_none_iff]
  intro entry hentry
  have hne := h entry hentry
  simpa [String.toList_inj] using hne

/-- A line that is always the same is told by its whole text. -/
theorem ofText?_fixed {text : String} {mark : Mark} (h : fixed.lookup text = some mark) : ofText? text = some mark := by
  rw [ofText?, h]
  rfl

theorem ofText?_branch (condition : String) : ofText? ("if " ++ condition ++ " then") = some (.branch condition) := by
  have hfixed : fixed.lookup ("if " ++ condition ++ " then") = none := lookup_fixed (by simp [fixed])
  rw [ofText?, hfixed, between?_append]
  rfl

/-- The line that begins a further arm is recognized, whatever its condition. -/
theorem ofText?_elsif (condition : String) :
    ofText? ("elsif " ++ condition ++ " then") = some (.elsif condition) := by
  have hfixed : fixed.lookup ("elsif " ++ condition ++ " then") = none := lookup_fixed (by simp [fixed])
  have hbranch : between? "if " " then" ("elsif " ++ condition ++ " then") = none :=
    between?_eq_none_of_head (c := 'i') (d := 'e') (by simp) (by simp) (by decide)
  rw [ofText?, hfixed, hbranch, between?_append]
  rfl

/-- The line that begins a loop is recognized, whatever its condition. -/
theorem ofText?_loop (condition : String) :
    ofText? ("while " ++ condition ++ " loop") = some (.loop condition) := by
  have hfixed : fixed.lookup ("while " ++ condition ++ " loop") = none := lookup_fixed (by simp [fixed])
  have hbranch : between? "if " " then" ("while " ++ condition ++ " loop") = none :=
    between?_eq_none_of_head (c := 'i') (d := 'w') (by simp) (by simp) (by decide)
  have helsif : between? "elsif " " then" ("while " ++ condition ++ " loop") = none :=
    between?_eq_none_of_head (c := 'e') (d := 'w') (by simp) (by simp) (by decide)
  rw [ofText?, hfixed, hbranch, helsif, between?_append]
  rfl

/-- A line that begins with two dashes is a remark. -/
theorem ofText?_remark {text : String} (h : "--".toList <+: text.toList) : ofText? text = some .remark := by
  have hhead : text.toList.head? = some '-' := by
    obtain ⟨ts, hts⟩ := h
    rw [← hts]
    rfl
  have hfixed : fixed.lookup text = none := by
    apply lookup_fixed
    intro entry hentry heq
    rw [heq] at hhead
    revert hhead
    fin_cases hentry <;> decide
  have hbranch : between? "if " " then" text = none :=
    between?_eq_none_of_head (c := 'i') (by simp) hhead (by decide)
  have helsif : between? "elsif " " then" text = none :=
    between?_eq_none_of_head (c := 'e') (by simp) hhead (by decide)
  have hloop : between? "while " " loop" text = none :=
    between?_eq_none_of_head (c := 'w') (by simp) hhead (by decide)
  rw [ofText?, hfixed, hbranch, helsif, hloop, if_pos h]
  rfl

/-- An assignment is told by its arrow and its semicolon, if its target does not begin like a remark. -/
theorem ofText?_assignment {target : String} {c : Char} (value : String) (htarget : target.toList.head? = some c)
    (hc : c ≠ '-') : ofText? (target ++ " <= " ++ value ++ ";") = some .assignment := by
  have hlast : (target ++ " <= " ++ value ++ ";").toList.getLast? = some ';' := by
    rw [String.toList_append, List.getLast?_append]
    rfl
  have hfixed : fixed.lookup (target ++ " <= " ++ value ++ ";") = none := by
    apply lookup_fixed
    intro entry hentry heq
    -- no line that is always the same has an arrow in it
    have hmem : '<' ∈ entry.1.toList := by simp [← heq]
    revert hmem
    fin_cases hentry <;> decide
  have hbranch : between? "if " " then" (target ++ " <= " ++ value ++ ";") = none :=
    between?_eq_none_of_getLast (c := 'n') (by simp) hlast (by decide)
  have helsif : between? "elsif " " then" (target ++ " <= " ++ value ++ ";") = none :=
    between?_eq_none_of_getLast (c := 'n') (by simp) hlast (by decide)
  have hloop : between? "while " " loop" (target ++ " <= " ++ value ++ ";") = none :=
    between?_eq_none_of_getLast (c := 'p') (by simp) hlast (by decide)
  have hremark : ¬ "--".toList <+: (target ++ " <= " ++ value ++ ";").toList := by
    rintro ⟨ts, hts⟩
    have hhead := congrArg List.head? hts
    simp [List.head?_append, htarget] at hhead
    exact hc hhead.symm
  have harrow : " <= ".toList <:+: (target ++ " <= " ++ value ++ ";").toList := ⟨target.toList, _, by simp; rfl⟩
  have hend : ";".toList <:+ (target ++ " <= " ++ value ++ ";").toList := by
    rw [String.toList_append]
    exact List.suffix_append ..
  rw [ofText?, hfixed, hbranch, helsif, hloop, if_neg hremark, if_pos ⟨harrow, hend⟩]
  rfl

end Mark

/-! ## Statements whose lines can be told apart -/

/-- The text begins with a letter or an underscore. -/
def Expr.BeginsWithWord (e : Expr) : Prop := ∃ c, e.text.toList.head? = some c ∧ Piece.isWordStart c

/-- What is assigned to a target that begins with a word is told to be an assignment. -/
theorem Expr.BeginsWithWord.ofText?_assign {target : Expr} (h : target.BeginsWithWord) (value : Expr) :
    Mark.ofText? (target.text ++ " <= " ++ value.text ++ ";") = some .assignment := by
  obtain ⟨c, hhead, hc⟩ := h
  have hdash : c ≠ '-' := by
    rintro rfl
    simp [Piece.isWordStart, Char.isAlpha, Char.isUpper, Char.isLower] at hc
  exact Mark.ofText?_assignment value.text hhead hdash

theorem Mark.ofText?_unsynthesized (value : String) :
    ofText? ("-- expression statement not synthesized: " ++ value) = some .remark :=
  ofText?_remark ⟨_, by simp; rfl⟩

mutual

/-- Every target in a statement begins with a word. -/
def Stmt.Legible : Stmt → Prop
  | .assign target _ => target.BeginsWithWord
  | .ifThen _ body arms => Stmt.AllLegible body ∧ arms.Legible
  | .loop _ body => Stmt.AllLegible body
  | .exit => True
  | .next => True
  | .unsynthesized _ => True

/-- Every target in the further arms of a branch begins with a word. -/
def Arms.Legible : Arms → Prop
  | .done => True
  | .elsif _ body arms => Stmt.AllLegible body ∧ arms.Legible
  | .otherwise body => Stmt.AllLegible body

/-- Every target in several statements begins with a word. -/
def Stmt.AllLegible : List Stmt → Prop
  | [] => True
  | s :: ss => s.Legible ∧ Stmt.AllLegible ss

end

theorem Stmt.allLegible_iff {ss : List Stmt} : AllLegible ss ↔ ∀ s ∈ ss, s.Legible :=
  forall_iff_of_cons trivial (fun _ _ => .rfl) ss

section Reading

variable (oracle : Oracle)

theorem Line.before_of_mark {level : Nat} {text : String} {mark : Mark} (h : Mark.ofText? text = some mark)
    (remaining : Remaining) :
    Line.before oracle ⟨level, text⟩ (some remaining) = mark.before oracle text remaining := by
  rw [Line.before, h]
  rfl

mutual

/-- The lines of a statement do what the statement does. -/
theorem Stmt.foldr_lines (s : Stmt) (h : s.Legible) (level : Nat) (rest : Behavior) (pending : List Pending) :
    (s.lines level).foldr (Line.before oracle) (some ⟨rest, pending⟩) =
      some ⟨(s.behavior oracle).andThen rest, pending⟩ := by
  cases s with
  | assign target value =>
    exact Line.before_of_mark oracle (Expr.BeginsWithWord.ofText?_assign h value) _
  | ifThen condition body arms =>
    -- from behind: the end of the branch, its arms, its body, and last the line with the condition
    obtain ⟨arms?, harms, hbehavior⟩ := Arms.foldr_lines arms h.2 level rest pending
    have hend : Mark.ofText? "end if;" = some .endBranch := Mark.ofText?_fixed (by decide)
    rw [Stmt.lines, List.foldr_cons, List.foldr_append, List.foldr_append, List.foldr_cons, List.foldr_nil,
      Line.before_of_mark oracle hend, Mark.before, harms, Stmt.foldr_linesOf body h.1,
      Line.before_of_mark oracle (Mark.ofText?_branch _), Mark.before, Stmt.behavior, hbehavior,
      Behavior.andThen_finished]
  | loop condition body =>
    have hend : Mark.ofText? "end loop;" = some .endLoop := Mark.ofText?_fixed (by decide)
    rw [Stmt.lines, List.foldr_cons, List.foldr_append, List.foldr_cons, List.foldr_nil,
      Line.before_of_mark oracle hend, Mark.before, Stmt.foldr_linesOf body h,
      Line.before_of_mark oracle (Mark.ofText?_loop _), Mark.before, Stmt.behavior, Behavior.andThen_finished]
  | exit =>
    have hexit : Mark.ofText? "exit;" = some .exit := Mark.ofText?_fixed (by decide)
    exact Line.before_of_mark oracle hexit _
  | next =>
    have hnext : Mark.ofText? "next;" = some .next := Mark.ofText?_fixed (by decide)
    exact Line.before_of_mark oracle hnext _
  | unsynthesized value =>
    rw [Stmt.behavior, Behavior.finished_andThen]
    exact Line.before_of_mark oracle (Mark.ofText?_unsynthesized value.text) _

/-- The lines of the further arms of a branch leave what the arms do for the line that begins the branch. -/
theorem Arms.foldr_lines (arms : Arms) (h : arms.Legible) (level : Nat) (rest : Behavior) (pending : List Pending) :
    ∃ arms? : Option Behavior,
      (arms.lines level).foldr (Line.before oracle) (some ⟨.exit .finished, .branch none rest :: pending⟩) =
          some ⟨.exit .finished, .branch arms? rest :: pending⟩ ∧
        arms?.getD (.exit .finished) = arms.behavior oracle := by
  cases arms with
  | done => exact ⟨none, rfl, rfl⟩
  | elsif condition body arms =>
    obtain ⟨arms?, harms, hbehavior⟩ := Arms.foldr_lines arms h.2 level rest pending
    refine ⟨some ((Arms.elsif condition body arms).behavior oracle), ?_, rfl⟩
    rw [Arms.lines, List.foldr_cons, List.foldr_append, harms, Stmt.foldr_linesOf body h.1,
      Line.before_of_mark oracle (Mark.ofText?_elsif _), Mark.before, Arms.behavior, hbehavior,
      Behavior.andThen_finished]
  | otherwise body =>
    have helse : Mark.ofText? "else" = some .otherwise := Mark.ofText?_fixed (by decide)
    refine ⟨some (Stmt.behaviorOf oracle body), ?_, rfl⟩
    rw [Arms.lines, List.foldr_cons, Stmt.foldr_linesOf body h, Line.before_of_mark oracle helse, Mark.before,
      Behavior.andThen_finished]

/-- Going through the lines of statements puts what they do in front of what is known. -/
theorem Stmt.foldr_linesOf (ss : List Stmt) (h : Stmt.AllLegible ss) (level : Nat) (rest : Behavior)
    (pending : List Pending) :
    (Stmt.linesOf level ss).foldr (Line.before oracle) (some ⟨rest, pending⟩) =
      some ⟨(Stmt.behaviorOf oracle ss).andThen rest, pending⟩ := by
  cases ss with
  | nil =>
    rw [Stmt.behaviorOf, Behavior.finished_andThen]
    rfl
  | cons s ss =>
    rw [Stmt.linesOf, List.foldr_append, Stmt.foldr_linesOf ss h.2, Stmt.foldr_lines s h.1, Stmt.behaviorOf,
      Behavior.andThen_assoc]

end

/-- The lines of statements do what the statements do. -/
theorem Stmt.behavior?_linesOf {ss : List Stmt} (h : Stmt.AllLegible ss) (level : Nat) :
    Line.behavior? oracle (Stmt.linesOf level ss) = some (Stmt.behaviorOf oracle ss) := by
  rw [Line.behavior?, Stmt.foldr_linesOf oracle ss h, Behavior.andThen_finished]

end Reading

end ClockedC.Vhdl
