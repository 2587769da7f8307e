import ClockedC.Proofs.ControlFlow.Legibility
import ClockedC.Proofs.Hardware.Emission
import ClockedC.Proofs.Structs.Uses

/-!
# Nesting of lines

The lines of a process are nested as they are indented. A line that begins a branch or a loop has a line that ends it
on its own level, and of the lines between the two only those that begin the further arms of the branch stand on that
level; all others are deeper. Jumps stand between the two lines of a loop, because those of the source stand in loops.

* `jumps_and_nesting` : the jumps and the nesting of the functions of a source text that is compiled.
-/

namespace ClockedC

/-! ## Jumps in the source -/

mutual

/-- Whether a statement has a jump that is in the body of no loop of it. -/
def Statement.jumpsOut : Statement → Bool
  | .branch _ body alternative _ => Statement.jumpsOutOf body || alternative.jumpsOut
  | .forLoop (some start) _ _ _ _ => start.jumpsOut
  | .leaveLoop _ => true
  | .nextRound _ => true
  | _ => false

/-- Whether the remaining arms of a branch have a jump that is in the body of no loop of them. -/
def Alternative.jumpsOut : Alternative → Bool
  | .nothing => false
  | .elseIf _ body alternative => Statement.jumpsOutOf body || alternative.jumpsOut
  | .otherwise body => Statement.jumpsOutOf body

/-- Whether one of several statements has a jump that is in the body of no loop of it. -/
def Statement.jumpsOutOf : List Statement → Bool
  | [] => false
  | s :: ss => s.jumpsOut || Statement.jumpsOutOf ss

end

/-- A statement that may stand before the first round of a loop does not jump. -/
theorem Statement.jumpsOut_of_isForStart {s : Statement} (h : s.isForStart) : s.jumpsOut = false := by
  cases s with
  | declare decl => rfl
  | assign assignment => rfl
  | _ => cases h

mutual

/-- A statement that can be read outside of loops has its jumps in loops of its own. -/
theorem Statement.Admissible.jumpsOut_eq_false (s : Statement) {structs : Layouts} {arrays : ArraySizes}
    (h : s.Admissible structs False arrays) : s.jumpsOut = false := by
  cases s with
  | branch condition body alternative loc =>
    rw [Statement.jumpsOut, Statement.AllAdmissible.jumpsOutOf_eq_false body h.2.1,
      Alternative.Admissible.jumpsOut_eq_false alternative h.2.2]
    rfl
  | forLoop start condition step body loc =>
    -- the body may jump, and what is done before the first round cannot
    cases start with
    | none => rfl
    | some start =>
      rw [Statement.jumpsOut]
      exact Statement.jumpsOut_of_isForStart h.1
  | leaveLoop loc => exact h.elim
  | nextRound loc => exact h.elim
  | _ => rfl

/-- Arms that can be read outside of a loop have their jumps in loops. -/
theorem Alternative.Admissible.jumpsOut_eq_false (alternative : Alternative) {structs : Layouts} {arrays : ArraySizes}
    (h : alternative.Admissible structs False arrays) : alternative.jumpsOut = false := by
  cases alternative with
  | nothing => rfl
  | elseIf condition body rest =>
    rw [Alternative.jumpsOut, Statement.AllAdmissible.jumpsOutOf_eq_false body h.2.1,
      Alternative.Admissible.jumpsOut_eq_false rest h.2.2]
    rfl
  | otherwise body => exact Statement.AllAdmissible.jumpsOutOf_eq_false body h

/-- Statements that can be read outside of a loop have their jumps in loops. -/
theorem Statement.AllAdmissible.jumpsOutOf_eq_false (ss : List Statement) {structs : Layouts} {arrays : ArraySizes}
    (h : Statement.AllAdmissible structs False arrays ss) : Statement.jumpsOutOf ss = false := by
  cases ss with
  | nil => rfl
  | cons s ss =>
    rw [Statement.jumpsOutOf, Statement.Admissible.jumpsOut_eq_false s h.1,
      Statement.AllAdmissible.jumpsOutOf_eq_false ss h.2]
    rfl

end

namespace Vhdl

/-! ## Lines that belong together -/

namespace Line

/-- The line begins a further arm of a branch. -/
def IsArm (line : Line) : Prop :=
  Mark.ofText? line.text = some .otherwise ∨ ∃ condition, Mark.ofText? line.text = some (.elsif condition)

/-- The lines are a branch: the first and the last one stand on `level`, and of those between only the lines that begin
its further arms are not deeper. -/
structure IsBranch (level : Nat) (first : Line) (inner : List Line) (last : Line) : Prop where
  begins : first.level = level ∧ ∃ condition, Mark.ofText? first.text = some (.branch condition)
  ends : last.level = level ∧ Mark.ofText? last.text = some .endBranch
  between : ∀ line ∈ inner, level < line.level ∨ line.level = level ∧ line.IsArm

/-- The lines are a loop: the first and the last one stand on `level`, and those between are deeper. -/
structure IsLoop (level : Nat) (first : Line) (inner : List Line) (last : Line) : Prop where
  begins : first.level = level ∧ ∃ condition, Mark.ofText? first.text = some (.loop condition)
  ends : last.level = level ∧ Mark.ofText? last.text = some .endLoop
  between : ∀ line ∈ inner, level < line.level

/-- A construct begins with the line. -/
def Begins (IsConstruct : Line → List Line → Line → Prop) (line : Line) (behind : List Line) : Prop :=
  ∃ inner last rest, behind = inner ++ last :: rest ∧ IsConstruct line inner last

/-- A construct ends with the line. -/
def Ends (IsConstruct : Line → List Line → Line → Prop) (before : List Line) (line : Line) : Prop :=
  ∃ front first inner, before = front ++ first :: inner ∧ IsConstruct first inner line

/-- A construct has the line strictly inside of it. -/
def Within (IsConstruct : Line → List Line → Line → Prop) (before : List Line) (line : Line) (behind : List Line) :
    Prop :=
  ∃ front first inner inner' last rest, before = front ++ first :: inner ∧ behind = inner' ++ last :: rest ∧
    IsConstruct first (inner ++ line :: inner') last

/-- The line stands inside of a branch on its own level; or the lines are taken out of one, on `armLevel`. -/
def InBranch (armLevel : Option Nat) (before : List Line) (line : Line) (behind : List Line) : Prop :=
  armLevel = some line.level ∨ line.Within (IsBranch line.level) before behind

/-- The line stands inside of a loop; or the lines are taken out of one. -/
def InLoop (inLoop : Prop) (before : List Line) (line : Line) (behind : List Line) : Prop :=
  inLoop ∨ ∃ level, line.Within (IsLoop level) before behind

/-- The line has the lines it needs before and behind it. -/
def Placed (inLoop : Prop) (armLevel : Option Nat) (before : List Line) (line : Line) (behind : List Line) : Prop :=
  match Mark.ofText? line.text with
  | some (.branch _) => line.Begins (IsBranch line.level) behind
  | some (.elsif _) => line.InBranch armLevel before behind
  | some .otherwise => line.InBranch armLevel before behind
  | some .endBranch => line.Ends (IsBranch line.level) before
  | some (.loop _) => line.Begins (IsLoop line.level) behind
  | some .endLoop => line.Ends (IsLoop line.level) before
  | some .exit => line.InLoop inLoop before behind
  | some .next => line.InLoop inLoop before behind
  | some .assignment => True
  | some .remark => True
  | none => False

/-- Every line has the lines it needs before and behind it, if the lines are taken out of a loop (`inLoop`) or of a
branch on `armLevel`. -/
def NestedIn (inLoop : Prop) (armLevel : Option Nat) (lines : List Line) : Prop :=
  ∀ before line behind, lines = before ++ line :: behind → line.Placed inLoop armLevel before behind

/-- Every line has the lines it needs before and behind it. -/
def WellNested (lines : List Line) : Prop := NestedIn False none lines

/-! ## Lines among others -/

section Among

variable {IsConstruct : Line → List Line → Line → Prop} {inLoop inLoop' : Prop} {armLevel armLevel' : Option Nat}
  {before behind lines lines' : List Line} {line : Line}

theorem Begins.append (h : line.Begins IsConstruct behind) (rest : List Line) :
    line.Begins IsConstruct (behind ++ rest) := by
  obtain ⟨inner, last, tail, rfl, hconstruct⟩ := h
  exact ⟨inner, last, tail ++ rest, by simp, hconstruct⟩

theorem Ends.append (h : line.Ends IsConstruct before) (front : List Line) :
    line.Ends IsConstruct (front ++ before) := by
  obtain ⟨head, first, inner, rfl, hconstruct⟩ := h
  exact ⟨front ++ head, first, inner, by simp, hconstruct⟩

theorem Within.append (h : line.Within IsConstruct before behind) (front rest : List Line) :
    line.Within IsConstruct (front ++ before) (behind ++ rest) := by
  obtain ⟨head, first, inner, inner', last, tail, rfl, rfl, hconstruct⟩ := h
  exact ⟨front ++ head, first, inner, inner', last, tail ++ rest, by simp, by simp, hconstruct⟩

/-- A line that has what it needs has it also among more lines, if what it stands in is still there. -/
theorem Placed.among (h : line.Placed inLoop armLevel before behind) (front rest : List Line)
    (hbranch : line.InBranch armLevel before behind → line.InBranch armLevel' (front ++ before) (behind ++ rest))
    (hloop : line.InLoop inLoop before behind → line.InLoop inLoop' (front ++ before) (behind ++ rest)) :
    line.Placed inLoop' armLevel' (front ++ before) (behind ++ rest) := by
  unfold Placed at h ⊢
  split at h
  · exact Begins.append h rest
  · exact hbranch h
  · exact hbranch h
  · exact Ends.append h front
  · exact Begins.append h rest
  · exact Ends.append h front
  · exact hloop h
  · exact hloop h
  · trivial
  · trivial
  · exact h

theorem InBranch.append (h : line.InBranch armLevel before behind) (front rest : List Line) :
    line.InBranch armLevel (front ++ before) (behind ++ rest) := h.imp_right (·.append front rest)

theorem InLoop.append (h : line.InLoop inLoop before behind) (front rest : List Line) :
    line.InLoop inLoop (front ++ before) (behind ++ rest) :=
  h.imp_right fun ⟨level, hwithin⟩ => ⟨level, hwithin.append front rest⟩

theorem Placed.append (h : line.Placed inLoop armLevel before behind) (front rest : List Line) :
    line.Placed inLoop armLevel (front ++ before) (behind ++ rest) :=
  h.among front rest (·.append front rest) (·.append front rest)

theorem nestedIn_nil : NestedIn inLoop armLevel [] := by
  intro before line behind hsplit
  simp at hsplit

/-- A line by itself. -/
theorem nestedIn_singleton (h : line.Placed inLoop armLevel [] []) : NestedIn inLoop armLevel [line] := by
  intro before line' behind hsplit
  cases before with
  | nil =>
    cases hsplit
    exact h
  | cons line'' before => simp at hsplit

/-- Lines that are nested well stay so next to each other. -/
theorem NestedIn.append (h : NestedIn inLoop armLevel lines) (h' : NestedIn inLoop armLevel lines') :
    NestedIn inLoop armLevel (lines ++ lines') := by
  intro before line behind hsplit
  rcases exists_of_append_eq hsplit with ⟨rest, hlines, rfl⟩ | ⟨inner, rfl, hlines'⟩
  · exact (h before line rest hlines).append [] lines'
  · simpa using (h' inner line behind hlines').append lines []

/-- What is nested well by itself is so inside of a branch. -/
theorem NestedIn.inBranch (h : NestedIn inLoop none lines) : NestedIn inLoop armLevel lines := by
  intro before line behind hsplit
  have hbranch : line.InBranch none before behind → line.InBranch armLevel before behind :=
    fun hin => .inr (by simpa [InBranch] using hin)
  simpa using (h before line behind hsplit).among [] [] (by simpa using hbranch) (by simp)

/-- Lines between two others. -/
theorem nestedIn_frame {first last : Line} {inner : List Line}
    (hfirst : first.Placed inLoop armLevel [] (inner ++ [last]))
    (hinner : ∀ before line behind, inner = before ++ line :: behind →
      line.Placed inLoop armLevel (first :: before) (behind ++ [last]))
    (hlast : last.Placed inLoop armLevel (first :: inner) []) :
    NestedIn inLoop armLevel (first :: (inner ++ [last])) := by
  intro before line behind hsplit
  cases before with
  | nil =>
    cases hsplit
    exact hfirst
  | cons first' before =>
    rw [List.cons_append, List.cons.injEq] at hsplit
    obtain ⟨rfl, hsplit⟩ := hsplit
    rcases exists_of_append_eq hsplit with ⟨rest, hinside, rfl⟩ | ⟨front, rfl, hend⟩
    · exact hinner before line rest hinside
    · cases front with
      | nil =>
        cases hend
        simpa using hlast
      | cons line' front => simp at hend

/-- A branch is nested well if the lines inside of it are nested well inside of a branch. -/
theorem IsBranch.nestedIn {level : Nat} {first last : Line} {inner : List Line} (h : IsBranch level first inner last)
    (hinner : NestedIn inLoop (some level) inner) : NestedIn inLoop none (first :: (inner ++ [last])) := by
  obtain ⟨⟨rfl, condition, hfirst⟩, ⟨hlevel, hlast⟩, -⟩ := id h
  apply nestedIn_frame
  · rw [Placed, hfirst]
    exact ⟨inner, last, [], rfl, h⟩
  · intro before line behind hsplit
    refine (hinner before line behind hsplit).among [first] [last] ?_ (·.append [first] [last])
    rintro (hline | hwithin)
    · -- this is the branch that the line belongs to
      rw [Option.some.injEq] at hline
      rw [InBranch, ← hline]
      exact .inr ⟨[], first, before, behind, last, [], rfl, rfl, hsplit ▸ h⟩
    · exact .inr (hwithin.append [first] [last])
  · rw [Placed, hlast, hlevel]
    exact ⟨[], first, inner, rfl, h⟩

/-- A loop is nested well if the lines inside of it are nested well inside of a loop. -/
theorem IsLoop.nestedIn {level : Nat} {first last : Line} {inner : List Line} (h : IsLoop level first inner last)
    (hinner : NestedIn True none inner) : NestedIn inLoop none (first :: (inner ++ [last])) := by
  obtain ⟨⟨rfl, condition, hfirst⟩, ⟨hlevel, hlast⟩, -⟩ := id h
  apply nestedIn_frame
  · rw [Placed, hfirst]
    exact ⟨inner, last, [], rfl, h⟩
  · intro before line behind hsplit
    refine (hinner before line behind hsplit).among [first] [last] (·.append [first] [last]) fun _ => ?_
    exact .inr ⟨first.level, [], first, before, behind, last, [], rfl, rfl, hsplit ▸ h⟩
  · rw [Placed, hlast, hlevel]
    exact ⟨[], first, inner, rfl, h⟩

end Among

end Line

/-! ## Jumps in hardware -/

mutual

/-- Whether a statement has a jump that is in no loop of it. -/
def Stmt.jumpsOut : Stmt → Bool
  | .ifThen _ body arms => Stmt.jumpsOutOf body || arms.jumpsOut
  | .exit => true
  | .next => true
  | _ => false

/-- Whether the further arms of a branch have a jump that is in no loop of them. -/
def Arms.jumpsOut : Arms → Bool
  | .done => false
  | .elsif _ body arms => Stmt.jumpsOutOf body || arms.jumpsOut
  | .otherwise body => Stmt.jumpsOutOf body

/-- Whether one of several statements has a jump that is in no loop of it. -/
def Stmt.jumpsOutOf : List Stmt → Bool
  | [] => false
  | s :: ss => s.jumpsOut || Stmt.jumpsOutOf ss

end

theorem Stmt.jumpsOutOf_append (ss ts : List Stmt) : jumpsOutOf (ss ++ ts) = (jumpsOutOf ss || jumpsOutOf ts) := by
  induction ss with
  | nil => rfl
  | cons s ss ih => rw [List.cons_append, jumpsOutOf, jumpsOutOf, ih, Bool.or_assoc]

/-- Assignments do not jump. -/
theorem Stmt.jumpsOutOf_of_assignsTo {signal : String} {ss : List Stmt} (h : ∀ s ∈ ss, s.AssignsTo signal) :
    jumpsOutOf ss = false := by
  induction ss with
  | nil => rfl
  | cons s ss ih =>
    rw [List.forall_mem_cons] at h
    rw [jumpsOutOf, ih h.2]
    obtain ⟨value, rfl | ⟨field, rfl⟩⟩ := h.1 <;> rfl

/-! ## The lines of statements -/

/-- The lines of the further arms of a branch are deeper than the branch, but for those with which the arms begin. -/
theorem Arms.between_lines (level : Nat) (arms : Arms) :
    ∀ line ∈ arms.lines level, level < line.level ∨ line.level = level ∧ line.IsArm := by
  cases arms with
  | done => simp [Arms.lines]
  | elsif condition body arms =>
    rw [Arms.lines, List.forall_mem_cons, List.forall_mem_append]
    refine ⟨.inr ⟨rfl, .inr ⟨_, Mark.ofText?_elsif _⟩⟩, ?_, Arms.between_lines level arms⟩
    exact fun line hline => .inl (Stmt.isSequential_of_mem_linesOf (level + 1) body line hline).level_le
  | otherwise body =>
    rw [Arms.lines, List.forall_mem_cons]
    refine ⟨.inr ⟨rfl, .inl (show Mark.ofText? "else" = _ from Mark.ofText?_fixed (by decide))⟩, ?_⟩
    exact fun line hline => .inl (Stmt.isSequential_of_mem_linesOf (level + 1) body line hline).level_le

/-- The line with which an arm begins has what it needs inside of the branch. -/
theorem Line.IsArm.nestedIn {line : Line} (h : line.IsArm) (inLoop : Prop) :
    Line.NestedIn inLoop (some line.level) [line] := by
  apply Line.nestedIn_singleton
  obtain hmark | ⟨condition, hmark⟩ := h
  · rw [Line.Placed, hmark]
    exact .inl rfl
  · rw [Line.Placed, hmark]
    exact .inl rfl

mutual

/-- The lines of a statement are nested well, if it stands in a loop or does not jump out of itself. -/
theorem Stmt.nestedIn_lines (s : Stmt) (hlegible : s.Legible) {inLoop : Prop} (hjumps : s.jumpsOut → inLoop)
    (level : Nat) : Line.NestedIn inLoop none (s.lines level) := by
  cases s with
  | assign target value =>
    apply Line.nestedIn_singleton
    rw [Line.Placed, Expr.BeginsWithWord.ofText?_assign hlegible value]
    trivial
  | ifThen condition body arms =>
    rw [Stmt.jumpsOut, Bool.or_eq_true] at hjumps
    have hbody := Stmt.nestedIn_linesOf body hlegible.1 (fun h => hjumps (.inl h)) (level + 1)
    have harms := Arms.nestedIn_lines arms hlegible.2 (fun h => hjumps (.inr h)) level
    have hend : Mark.ofText? "end if;" = some .endBranch := Mark.ofText?_fixed (by decide)
    have hbranch : Line.IsBranch level ⟨level, "if " ++ condition.text ++ " then"⟩
        (Stmt.linesOf (level + 1) body ++ arms.lines level) ⟨level, "end if;"⟩ := by
      refine ⟨⟨rfl, _, Mark.ofText?_branch _⟩, ⟨rfl, hend⟩, ?_⟩
      rw [List.forall_mem_append]
      refine ⟨?_, Arms.between_lines level arms⟩
      exact fun line hline => .inl (Stmt.isSequential_of_mem_linesOf (level + 1) body line hline).level_le
    exact hbranch.nestedIn (hbody.inBranch.append harms)
  | loop condition body =>
    have hend : Mark.ofText? "end loop;" = some .endLoop := Mark.ofText?_fixed (by decide)
    -- whatever jumps in the body jumps in this loop
    have hbody : Line.NestedIn True none (Stmt.linesOf (level + 1) body) :=
      Stmt.nestedIn_linesOf body hlegible (fun _ => trivial) (level + 1)
    have hloop : Line.IsLoop level ⟨level, "while " ++ condition.text ++ " loop"⟩ (Stmt.linesOf (level + 1) body)
        ⟨level, "end loop;"⟩ := by
      refine ⟨⟨rfl, _, Mark.ofText?_loop _⟩, ⟨rfl, hend⟩, ?_⟩
      exact fun line hline => (Stmt.isSequential_of_mem_linesOf (level + 1) body line hline).level_le
    exact hloop.nestedIn hbody
  | exit =>
    have hexit : Mark.ofText? "exit;" = some .exit := Mark.ofText?_fixed (by decide)
    apply Line.nestedIn_singleton
    rw [Line.Placed, hexit]
    exact .inl (hjumps rfl)
  | next =>
    have hnext : Mark.ofText? "next;" = some .next := Mark.ofText?_fixed (by decide)
    apply Line.nestedIn_singleton
    rw [Line.Placed, hnext]
    exact .inl (hjumps rfl)
  | unsynthesized value =>
    apply Line.nestedIn_singleton
    rw [Line.Placed, Mark.ofText?_unsynthesized value.text]
    trivial

/-- The lines of further arms are nested well inside of a branch. -/
theorem Arms.nestedIn_lines (arms : Arms) (hlegible : arms.Legible) {inLoop : Prop} (hjumps : arms.jumpsOut → inLoop)
    (level : Nat) : Line.NestedIn inLoop (some level) (arms.lines level) := by
  cases arms with
  | done => exact Line.nestedIn_nil
  | elsif condition body arms =>
    rw [Arms.jumpsOut, Bool.or_eq_true] at hjumps
    have hbody := Stmt.nestedIn_linesOf body hlegible.1 (fun h => hjumps (.inl h)) (level + 1)
    have harms := Arms.nestedIn_lines arms hlegible.2 (fun h => hjumps (.inr h)) level
    have harm : Line.IsArm ⟨level, "elsif " ++ condition.text ++ " then"⟩ := .inr ⟨_, Mark.ofText?_elsif _⟩
    exact (harm.nestedIn inLoop).append (hbody.inBranch.append harms)
  | otherwise body =>
    have hbody := Stmt.nestedIn_linesOf body hlegible hjumps (level + 1)
    have harm : Line.IsArm ⟨level, "else"⟩ := .inl (show Mark.ofText? "else" = _ from Mark.ofText?_fixed (by decide))
    exact (harm.nestedIn inLoop).append hbody.inBranch

/-- The lines of sequential statements are nested well, by induction on the statements. -/
theorem Stmt.nestedIn_linesOf (ss : List Stmt) (hlegible : Stmt.AllLegible ss) {inLoop : Prop}
    (hjumps : Stmt.jumpsOutOf ss → inLoop) (level : Nat) : Line.NestedIn inLoop none (Stmt.linesOf level ss) := by
  cases ss with
  | nil => exact Line.nestedIn_nil
  | cons s ss =>
    rw [Stmt.jumpsOutOf, Bool.or_eq_true] at hjumps
    exact (Stmt.nestedIn_lines s hlegible.1 (fun h => hjumps (.inl h)) level).append
      (Stmt.nestedIn_linesOf ss hlegible.2 (fun h => hjumps (.inr h)) level)

end

/-! ## Processes -/

/-- The lines are those between the beginning and the end of the process of an entity. -/
def Entity.HasProcess (entity : Entity) (lines : List Line) : Prop :=
  ∃ front back, entity.lines =
    front ++ ⟨1, "process(clk, reset)"⟩ :: ⟨1, "begin"⟩ :: (lines ++ ⟨1, "end process;"⟩ :: back)

/-- The process of an entity is a branch on whether it is reset, and its lines are nested well if the statements in it
can be told apart and none of them jumps out. -/
theorem Entity.exists_hasProcess {entity : Entity} (hlegible : Stmt.AllLegible entity.body)
    (hjumps : Stmt.jumpsOutOf entity.body = false) : ∃ lines, entity.HasProcess lines ∧ Line.WellNested lines := by
  have hbody : Line.WellNested (Stmt.linesOf 3 entity.body) :=
    Stmt.nestedIn_linesOf entity.body hlegible (by simp [hjumps]) 3
  have hremark : Line.NestedIn False (some 2) [⟨3, "-- Reset logic (user-defined)"⟩] := by
    apply Line.nestedIn_singleton
    rw [Line.Placed, Mark.ofText?_remark ⟨_, by simp; rfl⟩]
    trivial
  have harm : Line.IsArm ⟨2, "elsif rising_edge(clk) then"⟩ := .inr ⟨_, Mark.ofText?_elsif "rising_edge(clk)"⟩
  have hbranch : Line.IsBranch 2 ⟨2, "if reset = '1' then"⟩
      (⟨3, "-- Reset logic (user-defined)"⟩ :: ⟨2, "elsif rising_edge(clk) then"⟩ :: Stmt.linesOf 3 entity.body)
      ⟨2, "end if;"⟩ := by
    refine ⟨⟨rfl, _, Mark.ofText?_branch "reset = '1'"⟩, ⟨rfl, Mark.ofText?_fixed (by decide)⟩, ?_⟩
    rw [List.forall_mem_cons, List.forall_mem_cons]
    refine ⟨.inl (by decide), .inr ⟨rfl, harm⟩, ?_⟩
    exact fun line hline => .inl (Stmt.isSequential_of_mem_linesOf 3 entity.body line hline).level_le
  refine ⟨_, ⟨entity.portLines ++ ⟨0, "architecture behavioral of " ++ entity.name ++ " is"⟩ ::
    (entity.signals.flatMap Declaration.lines ++ [⟨0, "begin"⟩]), [⟨0, "end architecture;"⟩, .empty], ?_⟩,
    hbranch.nestedIn (hremark.append ((harm.nestedIn False).append (Line.NestedIn.inBranch hbody)))⟩
  simp [Entity.lines, Entity.architectureLines]

end Vhdl

/-! ## Jumps on the way to hardware -/

section Hardware

variable (layouts : Layouts) (type : DataType)

mutual

/-- What a statement becomes jumps out of itself if and only if the statement does. -/
theorem jumpsOutOf_hardwareStatement (s : Statement) (signals : Signals) :
    Vhdl.Stmt.jumpsOutOf ((hardwareStatement layouts type s).run signals).1 = s.jumpsOut := by
  cases s with
  | declare decl =>
    rw [run_declare]
    exact Vhdl.Stmt.jumpsOutOf_of_assignsTo fun _ => assignsTo_of_mem_hardwareInitializer
  | assign assignment =>
    rw [run_assign, hardwareAssignment_eq]
    rfl
  | branch condition body alternative loc =>
    rw [run_branch (run_block body signals) (run_hardwareArms alternative signals), Statement.jumpsOut,
      ← jumpsOutOf_hardwareStatements body signals, ← jumpsOut_hardwareArms alternative signals]
    exact Bool.or_false _
  | whileLoop condition body loc =>
    rw [run_whileLoop (run_block body signals)]
    rfl
  | forLoop start condition step body loc =>
    -- body and step become the body of the loop, so only the start is left to jump
    rw [fst_run_forLoop, Vhdl.Stmt.jumpsOutOf_append]
    cases start with
    | none => rfl
    | some start =>
      rw [Statement.jumpsOut, ← jumpsOutOf_hardwareStatement start signals]
      exact Bool.or_false _
  | giveBack value loc =>
    cases value with
    | none => rfl
    | some value =>
      rw [run_giveBack]
      exact Vhdl.Stmt.jumpsOutOf_of_assignsTo fun _ => assignsTo_of_mem_hardwareReturn
  | leaveLoop loc => rfl
  | nextRound loc => rfl
  | evaluate value =>
    rw [run_evaluate]
    rfl

/-- Jumps of further arms stay where they are in hardware. -/
theorem jumpsOut_hardwareArms (alternative : Alternative) (signals : Signals) :
    ((hardwareArms layouts type alternative).run signals).1.jumpsOut = alternative.jumpsOut := by
  cases alternative with
  | nothing => rfl
  | elseIf condition body rest =>
    rw [run_elseIf (run_block body signals) (run_hardwareArms rest signals), Alternative.jumpsOut,
      ← jumpsOutOf_hardwareStatements body signals, ← jumpsOut_hardwareArms rest signals]
    rfl
  | otherwise body =>
    rw [run_otherwise (run_block body signals)]
    exact jumpsOutOf_hardwareStatements body signals

/-- Jumps stay where they are in hardware. -/
theorem jumpsOutOf_hardwareStatements (ss : List Statement) (signals : Signals) :
    Vhdl.Stmt.jumpsOutOf ((hardwareStatements layouts type ss).run signals).1 = Statement.jumpsOutOf ss := by
  cases ss with
  | nil => rfl
  | cons s ss =>
    rw [fst_run_cons, Vhdl.Stmt.jumpsOutOf_append, jumpsOutOf_hardwareStatement s signals,
      jumpsOutOf_hardwareStatements ss (signals.behind s), Statement.jumpsOutOf]

end

end Hardware

/-- **Jumps stand in loops, and lines are nested.** In every function of a source text that is compiled, all jumps stand
in the bodies of loops. The lines of the process of its entity are nested well: a line that begins a branch or a loop
has its end on the same level, with nothing between them that is not deeper but the lines that begin the arms of the
branch; and a line that jumps stands strictly between those of a loop. -/
theorem jumps_and_nesting {source : String} {c : Compilation} {i : Nat} {f : Function}
    (hc : (compile source).outcome = .ok c) (hf : c.program.functions[i]? = some f) :
    Statement.jumpsOutOf f.body = false ∧
      ∃ entity lines, c.design.entities[i]? = some entity ∧ entity.name = f.name ∧ entity.HasProcess lines ∧
        Vhdl.Line.WellNested lines := by
  obtain ⟨structs, hok⟩ := Function.admissible_of_compile hc (List.mem_of_getElem? hf)
  have hjumps : Statement.jumpsOutOf f.body = false := Statement.AllAdmissible.jumpsOutOf_eq_false f.body hok.body
  have hout : Vhdl.Stmt.jumpsOutOf (hardwareEntity c.tables.structs f).body = false := by
    rw [hardwareEntity_body]
    exact (jumpsOutOf_hardwareStatements c.tables.structs f.result f.body (Signals.ofFunction f)).trans hjumps
  have hlegible := legible_hardwareEntity hc (List.mem_of_getElem? hf) c.tables.structs
  obtain ⟨lines, hlines, hnested⟩ := Vhdl.Entity.exists_hasProcess hlegible hout
  exact ⟨hjumps, _, lines, getElem?_entities_of_compile hc hf, rfl, hlines, hnested⟩

/-- A source text with branches in loops, loops in branches, and jumps in both. -/
def crossedLoopsSource : String :=
  "int f(int n)\x7bwhile(n)\x7bif(n>9)break;else if(n>5)\x7bfor(int i=0;i<n;i++)\x7bif(i==n)continue;n--;\x7d\x7d" ++
    "else \x7b\x7dn=n-1;\x7d" ++
    "if(n)while(1)break;return n;\x7d"

theorem jumps_and_nesting_crossedLoopsSource :
    ∃ c f, (compile crossedLoopsSource).outcome = .ok c ∧ c.program.functions[0]? = some f ∧
      Statement.jumpsOutOf f.body = false ∧
      ∃ entity lines, c.design.entities[0]? = some entity ∧ entity.name = f.name ∧ entity.HasProcess lines ∧
        Vhdl.Line.WellNested lines := by
  have hchecked : (compile crossedLoopsSource).outcome.toOption.any fun c =>
      c.program.functions[0]?.any fun f => f.name = "f" := by decide +kernel
  obtain ⟨c, f, hc, hf, -⟩ := exists_function_of_any hchecked
  exact ⟨c, f, hc, hf, jumps_and_nesting hc hf⟩

end ClockedC
