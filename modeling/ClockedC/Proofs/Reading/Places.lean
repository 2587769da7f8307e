import ClockedC.Proofs.Recursion.Termination

/-!
# Expressions that begin with a place

What begins with an identifier is a call or begins with a place. If it is no call, then reading it as an expression
reads the place first, exactly as reading a place would, and goes on with the operators behind it.
-/

namespace ClockedC.Grammar

/-! ## Places -/

/-- Enough depth for a place makes no difference. -/
theorem run_placeWith {depth : Nat} {index : ReadM Expr} {r : Reader} (hdepth : r.depth ≤ depth)
    (hindex : SameWithin r.rest.length index expression) (hmoves : Moves index) :
    (placeWith depth index).run r =
      (placeBy (fun loc base => (Production.fields loc base).read) expression).run r := by
  have hfields : ∀ loc base, SameWithin r.rest.length (fieldsOf loc depth base) (Production.fields loc base).read := by
    intro loc base
    constructor
    intro r' hlt
    have hneed : (Production.fields loc base).need r' < depth := by
      have := (Production.fields loc base).need_lt_depth r'
      rw [r'.depth_eq] at this
      rw [r.depth_eq] at hdepth
      omega
    exact Production.sameAt_read Production.guarded_of_expressions rfl rfl hneed
  exact (Production.sameAt_placeBy hfields (fun _ _ => .of_moves (.fieldsOf ..)) hindex (.of_moves hmoves)).run_eq

/-- The fields and the index of a place are read as within an expression. -/
theorem run_place (r : Reader) :
    place.run r = (placeBy (fun loc base => (Production.fields loc base).read) expression).run r := by
  rw [place, run_bind_of_ok (EStateM.run_get r)]
  exact run_placeWith le_rfl (.of_finishes .expression) .expression

/-- Within enough depth a place is read as within the depth that the reader allows. -/
theorem run_placeWithin {depth : Nat} {r : Reader} (hdepth : r.depth ≤ depth) :
    (placeWith depth (expressionAt depth Operator.lowestPrecedence)).run r = place.run r := by
  rw [run_place]
  refine run_placeWith hdepth ⟨fun r' hlt => ?_⟩ (.expressionAt ..)
  have hneed : (Production.expression Operator.lowestPrecedence).need r' < depth := by
    have := (Production.expression Operator.lowestPrecedence).need_lt_depth r'
    rw [r'.depth_eq] at this
    rw [r.depth_eq] at hdepth
    omega
  exact Production.sameAt_read Production.guarded_of_expressions rfl rfl hneed

/-! ## Operands and expressions -/

theorem run_expression (r : Reader) :
    expression.run r = (Production.operand.read >>= fun left =>
      (Production.operators Operator.lowestPrecedence left).read).run r :=
  ((Production.expression Operator.lowestPrecedence).run_unfold r).symm

section Identifier

variable {r : Reader} {name : String} (hname : r.next.lexeme = .identifier name)

include hname

/-- An operand that is no call is a place. -/
theorem run_operand_of_place (hcall : (r.ahead 1).lexeme ≠ .symbol .openParen) :
    Production.operand.read.run r = place.run r := by
  rw [run_place, ← Production.run_unfold, Production.unfold, operandBy, run_bind_of_ok (run_current r)]
  simp only [hname]
  rw [run_bind_of_ok (run_lexemeAhead 1 r), if_neg hcall]
  rfl

/-- An operand that is a call goes past the name and the parenthesis first. -/
theorem run_operand_of_call (hcall : (r.ahead 1).lexeme = .symbol .openParen) :
    Production.operand.read.run r =
      (advance >>= fun _ => argumentsBy Production.arguments.read >>= fun args =>
        pure (Expr.call name args r.next.loc)).run (r.withRest r.rest.tail) := by
  rw [← Production.run_unfold, Production.unfold, operandBy, run_bind_of_ok (run_current r)]
  simp only [hname]
  rw [run_bind_of_ok (run_lexemeAhead 1 r), if_pos hcall, run_bind_of_ok (run_advance r)]
  rfl

/-- The name of a call can be read as a place. -/
theorem run_place_of_call (hcall : (r.ahead 1).lexeme = .symbol .openParen) :
    place.run r = .ok (.ident name r.next.loc) (r.withRest r.rest.tail) := by
  have hidentifier : identifier.run r = .ok name (r.withRest r.rest.tail) := by
    rw [run_identifier]
    simp only [hname]
  have hopen : (r.withRest r.rest.tail).next.lexeme = .symbol .openParen := by
    rw [← Reader.ahead_one (by simp [hname]), hcall]
  have hfields : (Production.fields r.next.loc (.ident name r.next.loc)).read.run (r.withRest r.rest.tail) =
      .ok (.ident name r.next.loc) (r.withRest r.rest.tail) := by
    rw [← Production.run_unfold, Production.unfold, fieldsBy, run_bind_of_ok (run_accept_of_ne (by simp [hopen]))]
    rfl
  rw [run_place, placeBy, run_bind_of_ok (run_current r), run_bind_of_ok hidentifier, run_bind_of_ok hfields,
    run_bind_of_ok (run_accept_of_ne (by simp [hopen]))]
  rfl

/-- An expression at a place is the place with the operators behind it. -/
theorem run_expression_of_place (hcall : (r.ahead 1).lexeme ≠ .symbol .openParen) :
    expression.run r = (place >>= fun left => (Production.operators Operator.lowestPrecedence left).read).run r := by
  rw [run_expression, EStateM.run_bind, EStateM.run_bind, run_operand_of_place hname hcall]

/-- Where a place can be read, an expression goes at least as far, whether it can be read or not. -/
theorem passes_expression_of_place {target : Expr} {r' : Reader} (hplace : place.run r = .ok target r') :
    r'.Passes (Outcome.reader (expression.run r)) := by
  have hoperators : ∀ left, Moves (Production.operators Operator.lowestPrecedence left).read :=
    fun left => Moves.get.bind fun r => (Moves.expressions r.depth).2.1 ..
  by_cases hcall : (r.ahead 1).lexeme = .symbol .openParen
  · rw [run_place_of_call hname hcall] at hplace
    cases hplace
    have hlist : Moves Production.arguments.read :=
      Moves.get.bind fun r => .commaSeparated ((Moves.expressions r.depth).1 _) _
    have hcalled : Moves (advance >>= fun _ => argumentsBy Production.arguments.read >>= fun args =>
        pure (Expr.call name args r.next.loc)) :=
      Moves.advance.bind fun _ => (Moves.argumentsBy hlist).bind fun _ => .pure _
    have hrun : expression.run r = ((advance >>= fun _ => argumentsBy Production.arguments.read >>= fun args =>
        pure (Expr.call name args r.next.loc)) >>= fun left =>
        (Production.operators Operator.lowestPrecedence left).read).run (r.withRest r.rest.tail) := by
      rw [run_expression, EStateM.run_bind, EStateM.run_bind, run_operand_of_call hname hcall]
    rw [hrun]
    exact (hcalled.bind hoperators).run_passes _
  · rw [run_expression_of_place hname hcall, run_bind_of_ok hplace]
    exact (hoperators target).run_passes r'

end Identifier

end ClockedC.Grammar
