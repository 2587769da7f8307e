import ClockedC.Proofs.Reading.Horizon
import ClockedC.Proofs.Reading.Segments

/-!
# Productions make progress

A production that succeeds has gone past at least one token: an expression, a place, a declaration, a statement, and an
item where the end is not next.
-/

namespace ClockedC

/-! ## Readers that are further on -/

/-- The reader `r'` is before the last of the tokens that `r` is before, and there are fewer of them. -/
structure Reader.Advances (r r' : Reader) : Prop where
  suffix : r'.rest <:+ r.rest
  length_lt : r'.rest.length < r.rest.length

namespace Reader.Advances

variable {r r' r'' : Reader}

/-- Going past the next token. -/
theorem tail (h : r.next.lexeme ≠ .eof) : r.Advances (r.withRest r.rest.tail) := by
  refine ⟨List.tail_suffix _, ?_⟩
  rw [rest_withRest, List.length_tail]
  have := length_rest_pos h
  omega

theorem trans_suffix (h : r.Advances r') (hsuffix : r''.rest <:+ r'.rest) : r.Advances r'' :=
  ⟨hsuffix.trans h.suffix, hsuffix.length_le.trans_lt h.length_lt⟩

/-- A token that is passed later on is passed. -/
theorem of_suffix (hsuffix : r'.rest <:+ r.rest) (h : r'.Advances r'') : r.Advances r'' :=
  ⟨h.suffix.trans hsuffix, h.length_lt.trans_le hsuffix.length_le⟩

theorem trans_passesLocally (h : r.Advances r') (h' : r'.PassesLocally r'') : r.Advances r'' :=
  h.trans_suffix h'.suffix

/-- What has been read begins with the next token. -/
theorem exists_eq_next_cons {tokens : List Token} (h : r.Advances r') (htokens : r.rest = tokens ++ r'.rest) :
    ∃ more, tokens = r.next :: more := by
  cases tokens with
  | nil =>
    have hlength := h.length_lt
    rw [htokens] at hlength
    exact absurd hlength (lt_irrefl _)
  | cons t more =>
    refine ⟨more, ?_⟩
    rw [next_eq_head, htokens]
    rfl

theorem ne_nil_of_rest_eq {tokens : List Token} (h : r.Advances r') (htokens : r.rest = tokens ++ r'.rest) :
    tokens ≠ [] := by
  obtain ⟨more, rfl⟩ := h.exists_eq_next_cons htokens
  exact List.cons_ne_nil _ _

end Reader.Advances

theorem Reader.PassesLocally.trans_advances {r r' r'' : Reader} (h : r.PassesLocally r') (h' : r'.Advances r'') :
    r.Advances r'' := .of_suffix h.suffix h'

namespace Grammar

variable {α β : Type}

/-- If the step succeeds at the reader, it goes past a token. -/
structure ConsumesAt (p : ReadM α) (r : Reader) : Prop where
  advances : ∀ {r' : Reader} {a : α}, p.run r = .ok a r' → r.Advances r'

/-- If the step succeeds, it goes past a token. -/
structure Consumes (p : ReadM α) : Prop where
  consumesAt : ∀ r : Reader, ConsumesAt p r

/-! ## Sequences of steps -/

namespace ConsumesAt

variable {r : Reader}

/-- A sequence goes past a token if its first step does. -/
theorem bind {p : ReadM α} {k : α → ReadM β} (hp : ConsumesAt p r) (hk : ∀ a, MovesLocally (k a)) :
    ConsumesAt (p >>= k) r := by
  constructor
  intro r' b h
  obtain ⟨a, r₁, hfirst, h⟩ := run_bind_eq_ok.1 h
  exact (hp.advances hfirst).trans_passesLocally ((hk a).passes h)

/-- A step that fails goes nowhere. -/
theorem throw (e : CompileError) : ConsumesAt (throw e : ReadM α) r := by
  constructor
  intro r' a h
  cases h

/-- Where the end is not next there is a token to go past. -/
theorem advance {k : Unit → ReadM β} (h : r.next.lexeme ≠ .eof) (hk : ∀ u, MovesLocally (k u)) :
    ConsumesAt (advance >>= k) r := by
  refine bind ⟨fun {r' u} hrun => ?_⟩ hk
  rw [run_advance] at hrun
  cases hrun
  exact .tail h

/-- A look ahead may come first. -/
theorem lexemeAhead {n : Nat} {k : Lexeme → ReadM β} (hk : ∀ lexeme, ConsumesAt (k lexeme) r) :
    ConsumesAt (lexemeAhead n >>= k) r := by
  constructor
  intro r' b h
  rw [run_bind_of_ok (run_lexemeAhead n r)] at h
  exact (hk _).advances h

end ConsumesAt

namespace Consumes

theorem advances {p : ReadM α} (hp : Consumes p) {r r' : Reader} {a : α} (h : p.run r = .ok a r') : r.Advances r' :=
  (hp.consumesAt r).advances h

/-- What follows on a step that goes past a token must not go back. -/
theorem bind {p : ReadM α} {k : α → ReadM β} (hp : Consumes p) (hk : ∀ a, MovesLocally (k a)) : Consumes (p >>= k) :=
  ⟨fun r => (hp.consumesAt r).bind hk⟩

/-- A step that goes past a token, behind another that does not go back. -/
theorem behind {p : ReadM α} {k : α → ReadM β} (hp : MovesLocally p) (hk : ∀ a, Consumes (k a)) :
    Consumes (p >>= k) := by
  constructor
  intro r
  constructor
  intro r' b h
  obtain ⟨a, r₁, hfirst, h⟩ := run_bind_eq_ok.1 h
  exact (hp.passes hfirst).trans_advances ((hk a).advances h)

/-- What follows on the next token may make use of which token that is. -/
theorem current {k : Token → ReadM β} (hk : ∀ r : Reader, ConsumesAt (k r.next) r) : Consumes (current >>= k) := by
  constructor
  intro r
  constructor
  intro r' b h
  rw [run_bind_of_ok (run_current r)] at h
  exact (hk r).advances h

/-- A step that fails goes nowhere. -/
theorem refuseDepth : Consumes (refuseDepth : ReadM α) := current fun _ => .throw _

/-! ## Moves -/

/-- An expected symbol is a token. -/
theorem expect (symbol : Symbol) (context : String) : Consumes (expect symbol context) := by
  constructor
  intro r
  constructor
  intro r' u h
  obtain ⟨hnext, rfl⟩ := run_expect_eq_ok h
  exact .tail (by simp [hnext])

/-- A name is a token. -/
theorem identifier : Consumes identifier := by
  constructor
  intro r
  constructor
  intro r' name h
  obtain ⟨hnext, rfl⟩ := run_identifier_eq_ok h
  exact .tail (by simp [hnext])

theorem dataType : Consumes dataType := by
  apply current
  intro r
  split
  case h_6 hnext =>
    exact .advance (by simp [hnext]) fun _ => .move .identifier fun name => .move .get fun r => .check (.pure _)
  case h_7 => exact .throw _
  all_goals
    next hnext => exact .advance (by simp [hnext]) fun _ => .pure _

/-! ## Expressions -/

/-- A place has its name. -/
theorem placeWith (depth : Nat) {index : ReadM Expr} (h : Moves index) : Consumes (placeWith depth index) := by
  refine behind (.of_moves .current) fun token => identifier.bind fun name => ?_
  refine .move (.fieldsOf ..) fun base => .move (.accept .openBracket) fun b => ?_
  split
  · exact .move h fun position => .move (.expect ..) fun _ => .move (.checkIndex ..) fun _ => .pure _
  · exact .pure _

/-- What is read first of an operand is a token, and it is not read again. -/
theorem primary (depth : Nat) : Consumes (primary depth) := by
  cases depth with
  | zero => exact refuseDepth
  | succ depth =>
    obtain ⟨hexpr, -, hprimary⟩ := Moves.expressions depth
    rw [Grammar.primary, operandBy]
    apply current
    intro r
    split
    · next hnext => exact .advance (by simp [hnext]) fun _ => .move hprimary fun _ => .pure _
    · next hnext => exact .advance (by simp [hnext]) fun _ => .move hprimary fun _ => .pure _
    · next hnext => exact .advance (by simp [hnext]) fun _ => .move hprimary fun _ => .pure _
    · next hnext =>
      exact .advance (by simp [hnext]) fun _ => .move (hexpr _) fun _ => .move (.expect ..) fun _ => .pure _
    · next hnext => exact .advance (by simp [hnext]) fun _ => .pure _
    · next name hnext =>
      apply ConsumesAt.lexemeAhead
      intro lexeme
      split
      · exact .advance (by simp [hnext]) fun _ => .move .advance fun _ =>
          .move (.argumentsWith depth (hexpr _)) fun _ => .pure _
      · exact (placeWith depth (hexpr _)).consumesAt r
    · exact .throw _
    · exact .throw _

/-- An expression has an operand. -/
theorem expressionAt (depth : Nat) (least : Int) : Consumes (expressionAt depth least) := by
  cases depth with
  | zero => exact refuseDepth
  | succ depth =>
    rw [Grammar.expressionAt, expressionBy]
    exact (primary depth).bind fun left => .of_moves ((Moves.expressions depth).2.1 least left)

/-- An expression has a token. -/
theorem expression : Consumes expression := behind (.of_moves .get) fun _ => expressionAt ..

/-- A place of the grammar has a token. -/
theorem place : Consumes place := behind (.of_moves .get) fun _ => placeWith _ .expression

/-! ## Statements -/

/-- A declaration has its type. -/
theorem variableDeclaration : Consumes variableDeclaration := by
  refine behind (.of_moves .current) fun token => dataType.bind fun type => .move .identifier fun name => .check ?_
  refine (MovesLocally.arrayBrackets name).bind fun length => .move (.accept .assign) fun b => ?_
  dsimp only
  split
  · exact .move ((Moves.initializer ..).map _) fun _ => .move (.expect ..) fun _ => .pure _
  · exact (MovesLocally.pure _).bind fun _ => .move (.expect ..) fun _ => .pure _

/-- The step of a loop has a token, whichever of its forms it has. -/
theorem step : Consumes step := by
  apply current
  intro r
  split
  · next op hop =>
    have hnext : r.next.lexeme ≠ .eof := by
      intro heof
      rw [heof] at hop
      cases hop
    exact .advance hnext fun _ => .move .place fun _ => .pure _
  · refine (place.bind fun target => .move .current fun mark => ?_).consumesAt r
    split
    · exact .move .advance fun _ => .pure _
    · refine .move (.accept .assign) fun b => ?_
      split
      · exact .move .expression fun _ => .pure _
      · exact .of_moves (.refuse ..)

theorem expressionStatement : Consumes expressionStatement :=
  expression.bind fun _ => .move (.expect ..) fun _ => .pure _

/-- A statement that begins with a name goes past the name, also where it is read a second time from its beginning. -/
theorem assignmentOrExpression : Consumes assignmentOrExpression := by
  constructor
  intro r
  constructor
  intro r' s h
  rw [Grammar.assignmentOrExpression, run_bind_of_ok (EStateM.run_get r), run_bind_of_ok (run_lexemeAhead 1 r)] at h
  split at h
  · exact expressionStatement.advances h
  · obtain ⟨target, r₁, htarget, h⟩ := run_bind_eq_ok.1 h
    have hplace : r.Advances r₁ := place.advances htarget
    rw [run_bind_of_ok (run_current r₁)] at h
    split at h
    · next op hop =>
      have hrest : MovesLocally (do
          advance
          Grammar.expect .semicolon "after increment"
          return Statement.assign (stepBy op target r.next.loc)) :=
        .move .advance fun _ => .move (.expect ..) fun _ => .pure _
      exact hplace.trans_passesLocally (hrest.passes h)
    · obtain ⟨b, r₂, haccept, h⟩ := run_bind_eq_ok.1 h
      have hpasses := (Moves.place.passes htarget).trans ((Moves.accept .assign).passes haccept)
      cases b with
      | true =>
        have hrest : MovesLocally (do
            let value ← Grammar.expression
            Grammar.expect .semicolon "after assignment"
            return Statement.assign { target, value, loc := r.next.loc }) :=
          .move .expression fun _ => .move (.expect ..) fun _ => .pure _
        have haccepted := MovesLocally.of_moves (.accept .assign)
        exact (hplace.trans_passesLocally (haccepted.passes haccept)).trans_passesLocally (hrest.passes h)
      | false =>
        -- the place has been taken back, and it is the expression read from `r` that goes past the name
        simp only [Bool.false_eq_true, if_false] at h
        rw [run_bind_of_ok (EStateM.run_modify _ r₂), hpasses.takeBack] at h
        exact expressionStatement.advances h

/-- A statement has a token, whatever it begins with. -/
theorem statement (depth : Nat) : Consumes (statement depth) := by
  cases depth with
  | zero => exact refuseDepth
  | succ depth =>
    obtain ⟨-, -, hbody, halternative⟩ := MovesLocally.productions depth
    rw [Grammar.statement, statementBy]
    apply current
    intro r
    split
    · next hnext => exact .advance (by simp [hnext]) fun _ => .of_moves (.returned _)
    · next hnext =>
      exact .advance (by simp [hnext]) fun _ => .move (.parenthesisedCondition ..) fun _ => (hbody _).bind fun _ =>
        halternative.bind fun _ => .pure _
    · next hnext =>
      exact .advance (by simp [hnext]) fun _ => .move (.parenthesisedCondition ..) fun _ =>
        (hbody _).insideLoop.bind fun _ => .pure _
    · next hnext =>
      exact .advance (by simp [hnext]) fun _ => .move (.expect ..) fun _ => MovesLocally.forStart.bind fun _ =>
        .move .forCondition fun _ => .move .forStep fun _ => (hbody _).insideLoop.bind fun _ => .pure _
    · next hnext =>
      exact .advance (by simp [hnext]) fun _ => .move (.requireLoop ..) fun _ => .move (.expect ..) fun _ => .pure _
    · next hnext =>
      exact .advance (by simp [hnext]) fun _ => .move (.requireLoop ..) fun _ => .move (.expect ..) fun _ => .pure _
    · exact (step.bind fun _ => .move (.expect ..) fun _ => .pure _).consumesAt r
    · exact (step.bind fun _ => .move (.expect ..) fun _ => .pure _).consumesAt r
    · exact assignmentOrExpression.consumesAt r
    · split
      · exact (variableDeclaration.bind fun _ => .pure _).consumesAt r
      · exact .throw _

end Consumes

/-! ## Items -/

/-- An item, or what is skipped in its place, has at least one token. -/
theorem ConsumesAt.topLevel {r : Reader} (h : r.next.lexeme ≠ .eof) : ConsumesAt topLevel r := by
  constructor
  intro r' item hrun
  obtain ⟨segment, -, hbetween⟩ := exists_between_of_topLevel h hrun
  have hpos := List.length_pos_iff.2 hbetween.explained.tokens_ne_nil
  refine ⟨⟨segment.tokens, hbetween.rest_eq.symm⟩, ?_⟩
  rw [hbetween.rest_eq, List.length_append]
  omega

end Grammar

end ClockedC
