import ClockedC.Proofs.Reading.Places

/-!
# Taking an assignment back

A statement that begins with an identifier is read as an assignment first. If neither `=` nor a step comes behind the
place, the reader goes back and reads an expression. Going back leaves no trace: an expression begins with the place
that was read already, so the statement could as well be told to be an assignment beforehand.

* `rewinding_unobservable` : looking ahead and then reading one form gives the same.
-/

namespace ClockedC

namespace Grammar

/-! ## Looking ahead -/

/-- Whether a lexeme behind a place makes the statement an assignment. -/
def marksAssignment (lexeme : Lexeme) : Bool := lexeme = .symbol .assign || (stepOperator? lexeme).isSome

/-- Reads what stands behind the place of an assignment: a step, or `=` and a value. -/
def assignmentTo (target : Expr) (loc : Location) : ReadM Statement := do
  match stepOperator? (← current).lexeme with
  | some op =>
    advance
    expect .semicolon "after increment"
    return .assign (stepBy op target loc)
  | none =>
    advance
    let value ← expression
    expect .semicolon "after assignment"
    return .assign { target, value, loc }

/-- Reads an assignment that is known to be one. -/
def assignment : ReadM Statement := do
  let loc := (← current).loc
  let target ← place
  assignmentTo target loc

/-- Behind the place, an assignment is what follows a target. -/
theorem run_assignment_of_place {r r' : Reader} {target : Expr} (h : place.run r = .ok target r') :
    assignment.run r = (assignmentTo target r.next.loc).run r' := by
  rw [assignment, run_bind_of_ok (run_current r), run_bind_of_ok h]

end Grammar

/-- Whether a place stands before the reader and `=`, `++` or `--` behind it. The reader stays as it is. -/
def Reader.beginsAssignment (r : Reader) : Bool :=
  match Grammar.place.run r with
  | .ok _ r' => Grammar.marksAssignment r'.next.lexeme
  | .error _ _ => false

namespace Grammar

theorem beginsAssignment_of_place {r r' : Reader} {target : Expr} (h : place.run r = .ok target r') :
    r.beginsAssignment = marksAssignment r'.next.lexeme := by
  rw [Reader.beginsAssignment, h]

/-- Reads a statement that begins with an identifier without going back: a look ahead decides what is read. -/
def decidedStatement : ReadM Statement := do
  if (← get).beginsAssignment then assignment else expressionStatement

section Identifier

variable {r : Reader} {name : String} (hname : r.next.lexeme = .identifier name)

include hname

/-- If there is no place to read, then reading an expression fails in the same way. -/
theorem run_expressionStatement_of_error (hcall : (r.ahead 1).lexeme ≠ .symbol .openParen) {e : CompileError}
    {r' : Reader} (hplace : place.run r = .error e r') : expressionStatement.run r = .error e r' := by
  rw [expressionStatement, EStateM.run_bind, run_expression_of_place hname hcall, EStateM.run_bind, hplace]

/-- Going back gives what is read by the form alone that was decided on. Where no place can be read, both forms fail in
the same way, so a decision has to be right only where one can. -/
theorem run_assignmentOrExpression {decision : Bool}
    (hdecision : ∀ target r', place.run r = .ok target r' → decision = marksAssignment r'.next.lexeme) :
    assignmentOrExpression.run r = (if decision then assignment else expressionStatement).run r := by
  rw [assignmentOrExpression, run_bind_of_ok (EStateM.run_get r), run_bind_of_ok (run_lexemeAhead 1 r)]
  by_cases hcall : (r.ahead 1).lexeme = .symbol .openParen
  · have hopen : (r.withRest r.rest.tail).next.lexeme = .symbol .openParen := by
      rw [← Reader.ahead_one (by simp [hname]), hcall]
    rw [if_pos hcall, hdecision _ _ (run_place_of_call hname hcall), hopen]
    rfl
  rw [if_neg hcall]
  cases hplace : place.run r with
  | error e r₁ =>
    rw [EStateM.run_bind, hplace]
    cases decision with
    | false => exact (run_expressionStatement_of_error hname hcall hplace).symm
    | true =>
      rw [if_pos rfl, assignment, run_bind_of_ok (run_current r), EStateM.run_bind, hplace]
  | ok target r₁ =>
    rw [run_bind_of_ok hplace, run_bind_of_ok (run_current r₁), hdecision target r₁ hplace]
    cases hstep : stepOperator? r₁.next.lexeme with
    | some op =>
      have hmark : marksAssignment r₁.next.lexeme := by simp [marksAssignment, hstep]
      rw [if_pos hmark, run_assignment_of_place hplace, assignmentTo, run_bind_of_ok (run_current r₁)]
      simp only [hstep]
    | none =>
      dsimp only
      by_cases hassign : r₁.next.lexeme = .symbol .assign
      · have hmark : marksAssignment r₁.next.lexeme := by simp [marksAssignment, hassign]
        have haccept : (accept .assign).run r₁ = .ok true (r₁.withRest r₁.rest.tail) := by
          rw [run_accept, if_pos hassign]
        rw [if_pos hmark, run_assignment_of_place hplace, assignmentTo, run_bind_of_ok (run_current r₁),
          run_bind_of_ok haccept]
        simp only [hstep]
        rw [run_bind_of_ok (run_advance r₁)]
        rfl
      · have hmark : marksAssignment r₁.next.lexeme = false := by simp [marksAssignment, hassign, hstep]
        rw [hmark, run_bind_of_ok (run_accept_of_ne hassign)]
        -- The place has left everything but the tokens as it was, and these are given back.
        have hback : { r₁ with queue := r.queue } = r := (Moves.place.passes hplace).takeBack
        show expressionStatement.run { r₁ with queue := r.queue } = expressionStatement.run r
        rw [hback]

/-- Behind a place, the lexeme that follows decides. -/
theorem run_assignmentOrExpression_of_place {target : Expr} {r₁ : Reader} (hplace : place.run r = .ok target r₁) :
    assignmentOrExpression.run r =
      (if marksAssignment r₁.next.lexeme then assignment else expressionStatement).run r := by
  apply run_assignmentOrExpression hname
  intro target' r₂ hplace'
  cases hplace.symm.trans hplace'
  rfl

end Identifier

/-- **Going back leaves no trace.** Reading an expression or a place changes nothing of a reader but the tokens still to
be read, whether it succeeds or fails. A statement that begins with an identifier is read, with the same outcome and the
same reader behind it, by looking ahead whether a place and `=`, `++` or `--` stand there and then reading that form
only; so it is by any other decision that is right wherever a place can be read. If a place can be read, then reading an
expression in its stead does not end before the end of the place. -/
theorem rewinding_unobservable (r : Reader) :
    r.Passes (Outcome.reader (expression.run r)) ∧ r.Passes (Outcome.reader (place.run r)) ∧
    ∀ name, r.next.lexeme = .identifier name →
      Production.statement.read.run r = decidedStatement.run r ∧
      assignmentOrExpression.run r = decidedStatement.run r ∧
      (∀ decision : Bool,
        (∀ target r', place.run r = .ok target r' → decision = marksAssignment r'.next.lexeme) →
        assignmentOrExpression.run r = (if decision then assignment else expressionStatement).run r) ∧
      ∀ target r', place.run r = .ok target r' → r'.Passes (Outcome.reader (expression.run r)) := by
  refine ⟨Moves.expression.run_passes r, Moves.place.run_passes r, ?_⟩
  intro name hname
  have hdecided : assignmentOrExpression.run r = decidedStatement.run r := by
    rw [decidedStatement, run_bind_of_ok (EStateM.run_get r)]
    exact run_assignmentOrExpression hname fun _ _ => beginsAssignment_of_place
  have hstatement : Production.statement.read.run r = assignmentOrExpression.run r := by
    rw [← Production.run_unfold, Production.unfold, statementBy, run_bind_of_ok (run_current r)]
    simp only [hname]
  exact ⟨hstatement.trans hdecided, hdecided, fun _ => run_assignmentOrExpression hname,
    fun _ _ => passes_expression_of_place hname⟩

/-- A statement that is read as an expression once its place, which has another place in its index, has been read. -/
def placeThenOperatorSource : String := "s.x[b[1]+1]*f(2);"

theorem rewinding_unobservable_placeThenOperatorSource :
    ∃ (r r' r'' : Reader) (target : Expr) (s : Statement), Reader.ofSource placeThenOperatorSource = .ok r ∧
      r.next.lexeme = .identifier "s" ∧ place.run r = .ok target r' ∧ r'.next.lexeme = .symbol .star ∧
      r.beginsAssignment = false ∧ assignmentOrExpression.run r = .ok s r'' ∧ r''.rest = [] ∧
      decidedStatement.run r = .ok s r'' ∧ r'.Passes (Outcome.reader (expression.run r)) := by
  have hplaced : Reader.reads placeThenOperatorSource place fun _ r' => r'.next.lexeme = .symbol .star := by
    decide +kernel
  have hread : Reader.reads placeThenOperatorSource assignmentOrExpression fun _ r'' => r''.rest.isEmpty := by
    decide +kernel
  have hfirst : Reader.reads placeThenOperatorSource current fun t _ => t.lexeme = .identifier "s" := by
    decide +kernel
  obtain ⟨r, target, r', hr, hplace, hmark⟩ := Reader.exists_run_of_reads hplaced
  obtain ⟨r₁, s, r'', hr₁, hrun, hempty⟩ := Reader.exists_run_of_reads hread
  obtain ⟨r₂, t, r₂', hr₂, hcurrent, ht⟩ := Reader.exists_run_of_reads hfirst
  cases hr.symm.trans hr₁
  cases hr.symm.trans hr₂
  cases hcurrent
  have hname : r.next.lexeme = .identifier "s" := of_decide_eq_true ht
  have hstar : r'.next.lexeme = .symbol .star := of_decide_eq_true hmark
  obtain ⟨-, -, hidentifier⟩ := rewinding_unobservable r
  obtain ⟨-, hdecided, -, hpasses⟩ := hidentifier "s" hname
  refine ⟨r, r', r'', target, s, hr, hname, hplace, hstar, ?_, hrun, List.isEmpty_iff.1 hempty, ?_,
    hpasses target r' hplace⟩
  · rw [beginsAssignment_of_place hplace, hstar]
    rfl
  · rw [← hdecided, hrun]

end Grammar

end ClockedC
