import ClockedC.Proofs.Assignments.Rewinding
import ClockedC.Proofs.Indexing.Locality

/-!
# The ways to write an increment

A place is stepped by a mark behind it, by a mark in front of it, or by an assignment in full. Each of them is read
along a path of its own, both as a statement and in the head of a `for` loop, and each gives the same assignment. If the
place cannot be read because a constant index misses an array, each gives that report.

* `increment_spellings` : all ways of writing an increment agree.
-/

namespace ClockedC.Grammar

variable {e : Expr} {r r' : Reader} {op : Operator}

/-! ## Places wherever they stand -/

/-- A place begins with an identifier. -/
theorem run_place_of_ne_identifier (h : ∀ name, r.next.lexeme ≠ .identifier name) :
    place.run r = .error (.syntactic (.noIdentifier r.next.lexeme) r.next.loc) r := by
  have hidentifier : identifier.run r = .error (.syntactic (.noIdentifier r.next.lexeme) r.next.loc) r := by
    rw [run_identifier]
    cases hnext : r.next.lexeme with
    | identifier name => exact absurd hnext (h name)
    | _ => rfl
  rw [run_place, placeBy, run_bind_of_ok (run_current r), EStateM.run_bind, hidentifier]

/-- A place begins with a name. -/
theorem exists_identifier_of_place (h : place.run r = .ok e r') : ∃ name, r.next.lexeme = .identifier name := by
  by_contra hname
  rw [run_place_of_ne_identifier fun name hnext => hname ⟨name, hnext⟩] at h
  cases h

theorem exists_identifier_of_outOfBounds {index : Int} {name : String} {size : Nat} {loc : Location}
    (h : place.run r = .error (.outOfBounds index name size loc) r') : ∃ name, r.next.lexeme = .identifier name := by
  by_contra hname
  rw [run_place_of_ne_identifier fun name hnext => hname ⟨name, hnext⟩] at h
  cases h

/-- A place is no call if no parenthesis follows on it. -/
theorem ahead_one_of_place (h : place.run r = .ok e r') (hnext : r'.next.lexeme ≠ .symbol .openParen) :
    (r.ahead 1).lexeme ≠ .symbol .openParen := by
  intro hcall
  obtain ⟨name, hname⟩ := exists_identifier_of_place h
  rw [run_place_of_call hname hcall] at h
  cases h
  rw [Reader.ahead_one (by simp [hname])] at hcall
  exact hnext hcall

/-- A place has at least one token. -/
theorem exists_eq_cons_of_place {p after : List Token}
    (h : place.run (r.withRest (p ++ after)) = .ok e (r.withRest after)) : ∃ t ts, p = t :: ts := by
  cases p with
  | nil => exact absurd (Consumes.place.advances h).length_lt (lt_irrefl _)
  | cons t ts => exact ⟨t, ts, rfl⟩

/-- A reader placed nowhere stands before the tokens placed nowhere. -/
theorem unlocated_withRest (r : Reader) (ts : List Token) :
    (r.withRest ts).unlocated = r.unlocated.withRest (ts.map Token.unlocated) := by
  have hqueue : (TokenQueue.ofList ts).unlocated = .ofList (ts.map Token.unlocated) := TokenQueue.ext rfl
  rw [Reader.withRest, Reader.withRest, ← hqueue]
  rfl

section Relocated

variable {p p' : List Token} (hlexemes : p'.map (·.lexeme) = p.map (·.lexeme))

include hlexemes

/-- Tokens with the same lexemes are the same once they are placed nowhere. -/
theorem unlocated_withRest_append (tail : List Token) :
    (r.withRest (p' ++ tail)).unlocated = (r.withRest (p ++ tail)).unlocated := by
  have hmap : ∀ ts : List Token, ts.map Token.unlocated = (ts.map (·.lexeme)).map (⟨·, .nowhere⟩) := fun ts => by
    rw [List.map_map]
    rfl
  rw [unlocated_withRest, unlocated_withRest, List.map_append, List.map_append, hmap p', hmap p, hlexemes]

/-- A place is read from the same lexemes anywhere, before anything that does not go on with a name. -/
theorem exists_run_place {after : List Token} (h : place.run (r.withRest (p ++ after)) = .ok e (r.withRest after)) :
    ∃ e', e'.unlocated = e.unlocated ∧ ∀ tail, (r.withRest tail).next.lexeme.extendsName = false →
      place.run (r.withRest (p' ++ tail)) = .ok e' (r.withRest tail) := by
  -- at the end of all tokens only the locations differ, and from there anything may follow
  have hplace := Peeks.place.run_append h (.inr (show (r.withRest []).next.lexeme.extendsName = false from rfl))
  have hmirror := Mirrors.place.run_unlocated (r.withRest (p ++ []))
  rw [hplace, ← unlocated_withRest_append hlexemes] at hmirror
  obtain ⟨e', r', hrun, he', hr'⟩ := Mirrors.place.exists_run_eq_ok hmirror
  have hrest : r'.rest = [] := by
    have hlength := congrArg (fun r : Reader => r.rest.length) hr'
    exact List.length_eq_zero_iff.1 (by simpa using hlength)
  have hr' : r' = r.withRest [] := by
    rw [(Moves.place.passes hrun).eq_withRest, hrest]
    rfl
  rw [hr'] at hrun
  exact ⟨e', he', fun tail htail => Peeks.place.run_append hrun (.inr htail)⟩

/-- A report of an index in a place is the same, up to its location, for the same lexemes anywhere. -/
theorem exists_run_place_outOfBounds {after : List Token} {index : Int} {name : String} {size : Nat} {loc : Location}
    {r₁ : Reader} (h : place.run (r.withRest (p ++ after)) = .error (.outOfBounds index name size loc) r₁)
    (hafter : after <:+ r₁.rest) (tail : List Token) :
    ∃ loc' r', place.run (r.withRest (p' ++ tail)) = .error (.outOfBounds index name size loc') r' := by
  have hpasses := Moves.place.run_passes (r.withRest (p ++ after))
  rw [h] at hpasses
  obtain ⟨first, hfirst⟩ := hpasses.suffix
  obtain ⟨last, hlast⟩ := hafter
  obtain rfl : r₁ = r.withRest (last ++ after) := by
    rw [hlast]
    exact hpasses.eq_withRest
  rw [Reader.rest_withRest, Outcome.reader, Reader.rest_withRest, ← List.append_assoc] at hfirst
  obtain rfl := List.append_cancel_right hfirst
  rw [List.append_assoc] at h
  -- the report does not hang on what follows the index, nor on where the tokens stand
  have hplace := Complains.place.run_append (last ++ tail) h
  rw [← List.append_assoc] at hplace
  have hmirror := Mirrors.place.run_unlocated (r.withRest (first ++ last ++ tail))
  rw [hplace, ← unlocated_withRest_append hlexemes, Mirrors.place.run_unlocated] at hmirror
  cases hrun : place.run (r.withRest (p' ++ tail)) with
  | ok e r' =>
    rw [hrun] at hmirror
    cases hmirror
  | error e r' =>
    rw [hrun] at hmirror
    have herror : e.unlocated = .outOfBounds index name size .nowhere := (EStateM.Result.error.inj hmirror).1
    cases e with
    | outOfBounds index' name' size' loc' =>
      cases herror
      exact ⟨loc', r', rfl⟩
    | _ => cases herror

end Relocated

/-! ## Steps -/

/-- The symbols that step are `++`, which adds, and `--`, which subtracts. -/
theorem eq_of_stepOperator? {l : Lexeme} (h : stepOperator? l = some op) :
    l = .symbol .increment ∧ op = .add ∨ l = .symbol .decrement ∧ op = .sub := by
  unfold stepOperator? at h
  split at h
  · cases h
    exact .inl ⟨rfl, rfl⟩
  · cases h
    exact .inr ⟨rfl, rfl⟩
  · cases h

theorem stepOperator?_of_place {target : Expr} (h : place.run r = .ok target r') :
    stepOperator? r.next.lexeme = none := by
  obtain ⟨name, hname⟩ := exists_identifier_of_place h
  rw [hname]
  rfl

/-- A mark in front of a place. -/
theorem run_step_of_mark (hop : stepOperator? r.next.lexeme = some op) :
    step.run r = (place >>= fun target => pure (stepBy op target r.next.loc)).run (r.withRest r.rest.tail) := by
  rw [step, run_bind_of_ok (run_current r)]
  simp only [hop]
  rw [run_bind_of_ok (run_advance r)]

/-- A place with a mark behind it. -/
theorem run_step_of_place {target : Expr} (hplace : place.run r = .ok target r')
    (hop : stepOperator? r'.next.lexeme = some op) :
    step.run r = .ok (stepBy op target r.next.loc) (r'.withRest r'.rest.tail) := by
  rw [step, run_bind_of_ok (run_current r)]
  simp only [stepOperator?_of_place hplace]
  rw [run_bind_of_ok hplace, run_bind_of_ok (run_current r')]
  simp only [hop]
  rw [run_bind_of_ok (run_advance r')]
  rfl

/-- An assignment in full. -/
theorem run_step_of_assign {target : Expr} (hplace : place.run r = .ok target r')
    (hassign : r'.next.lexeme = .symbol .assign) :
    step.run r = (expression >>= fun value => pure { target, value, loc := r.next.loc }).run
      (r'.withRest r'.rest.tail) := by
  have haccept : (accept .assign).run r' = .ok true (r'.withRest r'.rest.tail) := by rw [run_accept, if_pos hassign]
  have hmark : stepOperator? r'.next.lexeme = none := by rw [hassign]; rfl
  rw [step, run_bind_of_ok (run_current r)]
  simp only [stepOperator?_of_place hplace]
  rw [run_bind_of_ok hplace, run_bind_of_ok (run_current r')]
  simp only [hmark]
  rw [run_bind_of_ok haccept]
  rfl

/-- What a step may be: a mark and a place, a place and a mark, or an assignment. -/
theorem step_cases {a : Assignment} (h : step.run r = .ok a r') :
    (∃ op, stepOperator? r.next.lexeme = some op) ∨
    ∃ target r₁, place.run r = .ok target r₁ ∧ marksAssignment r₁.next.lexeme := by
  rw [step, run_bind_of_ok (run_current r)] at h
  cases hop : stepOperator? r.next.lexeme with
  | some op => exact .inl ⟨op, rfl⟩
  | none =>
    right
    simp only [hop] at h
    obtain ⟨target, r₁, hplace, h⟩ := run_bind_eq_ok.1 h
    refine ⟨target, r₁, hplace, ?_⟩
    rw [run_bind_of_ok (run_current r₁)] at h
    cases hmark : stepOperator? r₁.next.lexeme with
    | some op => simp [marksAssignment, hmark]
    | none =>
      simp only [hmark] at h
      by_cases hassign : r₁.next.lexeme = .symbol .assign
      · simp [marksAssignment, hassign]
      · rw [run_bind_of_ok (run_accept_of_ne hassign)] at h
        cases h

/-- A step as a statement. -/
theorem run_statement_of_step {r r' : Reader} {a : Assignment} (h : step.run r = .ok a r')
    (hend : r'.next.lexeme = .symbol .semicolon) :
    Production.statement.read.run r = .ok (.assign a) (r'.withRest r'.rest.tail) := by
  have hexpect : ∀ context, (expect .semicolon context).run r' = .ok () (r'.withRest r'.rest.tail) :=
    fun context => by rw [run_expect, if_pos hend]
  rw [← Production.run_unfold, Production.unfold, statementBy, run_bind_of_ok (run_current r)]
  -- a statement that begins with a mark is a step; one that begins with a name is read up to the mark first
  obtain ⟨op, hop⟩ | ⟨target, r₁, hplace, hmark⟩ := step_cases h
  · obtain ⟨hnext, -⟩ | ⟨hnext, -⟩ := eq_of_stepOperator? hop
    · simp only [hnext]
      rw [run_bind_of_ok h, run_bind_of_ok (hexpect _)]
      rfl
    · simp only [hnext]
      rw [run_bind_of_ok h, run_bind_of_ok (hexpect _)]
      rfl
  · obtain ⟨name, hname⟩ := exists_identifier_of_place hplace
    have hdecision : ∀ target' r₂, place.run r = .ok target' r₂ → true = marksAssignment r₂.next.lexeme := by
      intro target' r₂ hplace'
      rw [hplace] at hplace'
      cases hplace'
      exact hmark.symm
    simp only [hname]
    rw [run_assignmentOrExpression hname hdecision, if_pos rfl, run_assignment_of_place hplace, assignmentTo,
      run_bind_of_ok (run_current r₁)]
    cases hop : stepOperator? r₁.next.lexeme with
    | some op =>
      rw [run_step_of_place hplace hop] at h
      cases h
      dsimp only
      rw [run_bind_of_ok (run_advance r₁), run_bind_of_ok (hexpect _)]
      rfl
    | none =>
      have hassign : r₁.next.lexeme = .symbol .assign := by simpa [marksAssignment, hop] using hmark
      rw [run_step_of_assign hplace hassign] at h
      obtain ⟨value, r₂, hvalue, h⟩ := run_bind_eq_ok.1 h
      cases h
      dsimp only
      rw [run_bind_of_ok (run_advance r₁), run_bind_of_ok hvalue, run_bind_of_ok (hexpect _)]
      rfl

/-- A step in the head of a loop. -/
theorem run_forStep_of_step {a : Assignment} (h : step.run r = .ok a r') (hend : r'.next.lexeme = .symbol .closeParen) :
    forStep.run r = .ok (some a) (r'.withRest r'.rest.tail) := by
  have hnext : r.next.lexeme ≠ .symbol .closeParen := by
    obtain ⟨op, hop⟩ | ⟨target, r₁, hplace, -⟩ := step_cases h
    · intro hclose
      rw [hclose] at hop
      cases hop
    · obtain ⟨name, hname⟩ := exists_identifier_of_place hplace
      simp [hname]
  have hstep : (some <$> step).run r = .ok (some a) r' := by rw [EStateM.run_map, h]; rfl
  rw [forStep, run_bind_of_ok (run_nextIs ..)]
  simp only [hnext, decide_false, Bool.false_eq_true, if_false]
  rw [run_bind_of_ok hstep, EStateM.run_bind, run_expect, if_pos hend]
  rfl

/-! ## Faults in the place of a step -/

section Faults

variable {index : Int} {name : String} {size : Nat} {loc : Location}

/-- A report of an index in a place that is not stepped by a mark in front of it. -/
theorem run_of_outOfBounds (h : place.run r = .error (.outOfBounds index name size loc) r') :
    Production.statement.read.run r = .error (.outOfBounds index name size loc) r' ∧
      forStep.run r = .error (.outOfBounds index name size loc) r' := by
  obtain ⟨name', hname⟩ := exists_identifier_of_outOfBounds h
  have hstep : step.run r = .error (.outOfBounds index name size loc) r' := by
    rw [step, run_bind_of_ok (run_current r)]
    simp only [hname, show stepOperator? (.identifier name') = none from rfl]
    rw [EStateM.run_bind, h]
  constructor
  · have hdecision : ∀ target r₁, place.run r = .ok target r₁ → true = marksAssignment r₁.next.lexeme := by
      intro target r₁ hplace
      rw [h] at hplace
      cases hplace
    rw [← Production.run_unfold, Production.unfold, statementBy, run_bind_of_ok (run_current r)]
    simp only [hname]
    rw [run_assignmentOrExpression hname hdecision, if_pos rfl, assignment, run_bind_of_ok (run_current r),
      EStateM.run_bind, h]
  · rw [forStep, run_bind_of_ok (run_nextIs ..)]
    simp only [hname, reduceCtorEq, decide_false, Bool.false_eq_true, if_false]
    rw [EStateM.run_bind, EStateM.run_map, hstep]
    rfl

/-- A report of an index in a place that is stepped by a mark in front of it. -/
theorem run_of_mark_of_outOfBounds (hop : stepOperator? r.next.lexeme = some op)
    (h : place.run (r.withRest r.rest.tail) = .error (.outOfBounds index name size loc) r') :
    Production.statement.read.run r = .error (.outOfBounds index name size loc) r' ∧
      forStep.run r = .error (.outOfBounds index name size loc) r' := by
  have hstep : step.run r = .error (.outOfBounds index name size loc) r' := by
    rw [run_step_of_mark hop, EStateM.run_bind, h]
  rw [← Production.run_unfold, Production.unfold, statementBy, run_bind_of_ok (run_current r), forStep,
    run_bind_of_ok (run_nextIs ..)]
  obtain ⟨hnext, -⟩ | ⟨hnext, -⟩ := eq_of_stepOperator? hop <;>
  · simp only [hnext, Lexeme.symbol.injEq, reduceCtorEq, decide_false, Bool.false_eq_true, if_false]
    rw [EStateM.run_bind, EStateM.run_bind, EStateM.run_map, hstep]
    exact ⟨rfl, rfl⟩

end Faults

/-! ## Operators before a literal -/

/-- Nothing is read where no operator is next. -/
theorem run_operators_of_none {least : Int} {left : Expr} (h : Operator.ofLexeme? r.next.lexeme = none) :
    (Production.operators least left).read.run r = .ok left r := by
  rw [← Production.run_unfold, Production.unfold, operatorsBy, run_bind_of_ok (run_current r),
    run_bind_of_ok (run_operatorFrom? least r), h]
  rfl

section Literal

variable {sign one : Token} {tail : List Token} {text : String} (hone : one.lexeme = .number text)
  (hend : Operator.ofLexeme? (r.withRest tail).next.lexeme = none)

include hone hend

/-- A literal in front of what ends an expression is read alone. -/
theorem run_expression_literal (least : Int) :
    (Production.expression least).read.run (r.withRest (one :: tail)) =
      .ok (.number text one.loc) (r.withRest tail) := by
  have hoperand : Production.operand.read.run (r.withRest (one :: tail)) =
      .ok (.number text one.loc) (r.withRest tail) := by
    rw [← Production.run_unfold, Production.unfold, operandBy, run_bind_of_ok (run_current _)]
    simp only [Reader.next_withRest_cons, hone]
    rw [run_bind_of_ok (run_advance_cons ..)]
    rfl
  rw [← Production.run_unfold, Production.unfold, expressionBy]
  exact (run_bind_of_ok hoperand).trans (run_operators_of_none hend)

/-- An operator and a literal behind an operand. -/
theorem run_operators_literal (hsign : sign.lexeme = .symbol op.symbol) (left : Expr) :
    (Production.operators Operator.lowestPrecedence left).read.run (r.withRest (sign :: one :: tail)) =
      .ok (.binary op left (.number text one.loc) sign.loc) (r.withRest tail) := by
  have hop : (Operator.ofLexeme? (r.withRest (sign :: one :: tail)).next.lexeme).filter
      (Operator.lowestPrecedence ≤ ·.precedence) = some op := by
    have hsymbol : Operator.ofLexeme? sign.lexeme = some op := by
      rw [hsign]
      exact Operator.ofSymbol?_eq_some_iff.2 rfl
    have hleast : Operator.lowestPrecedence ≤ op.precedence := by cases op <;> decide
    rw [Reader.next_withRest_cons, hsymbol]
    simp [hleast]
  rw [← Production.run_unfold, Production.unfold, operatorsBy, run_bind_of_ok (run_current _),
    run_bind_of_ok (run_operatorFrom? ..), hop]
  dsimp only
  rw [run_bind_of_ok (run_advance_cons ..)]
  exact (run_bind_of_ok (run_expression_literal hone hend _)).trans (run_operators_of_none hend)

/-- A place, an operator and a literal. -/
theorem run_expression_place_literal (hsign : sign.lexeme = .symbol op.symbol) {p : List Token}
    (hplace : place.run (r.withRest (p ++ sign :: one :: tail)) = .ok e (r.withRest (sign :: one :: tail))) :
    expression.run (r.withRest (p ++ sign :: one :: tail)) =
      .ok (.binary op e (.number text one.loc) sign.loc) (r.withRest tail) := by
  obtain ⟨name, hname⟩ := exists_identifier_of_place hplace
  have hcall := ahead_one_of_place hplace (by
    rw [Reader.next_withRest_cons, hsign]
    cases op <;> simp [Operator.symbol])
  rw [run_expression_of_place hname hcall, run_bind_of_ok hplace]
  exact run_operators_literal hone hend hsign e

end Literal

/-! ## The three spellings -/

/-- The ways to write that a place is stepped by one. -/
inductive Spelling where
  /-- `x++` -/
  | behind
  /-- `++x` -/
  | before
  /-- `x = x + 1` -/
  | inFull

/-- The lexemes of a step of the place with the lexemes `p`; `mark` stands for `op`. -/
def Spelling.lexemes (mark : Lexeme) (op : Operator) (p : List Lexeme) : Spelling → List Lexeme
  | behind => p ++ [mark]
  | before => mark :: p
  | inFull => p ++ .symbol .assign :: (p ++ [.symbol op.symbol, .number "1"])

section Spellings

variable {p after : List Token} {mark : Lexeme} (hmark : stepOperator? mark = some op) (spelling : Spelling)
  {written : List Token} (hwritten : written.map (·.lexeme) = spelling.lexemes mark op (p.map (·.lexeme)))

include hmark hwritten

/-- However a step is written, it is read as the step. -/
theorem exists_run_step (h : place.run (r.withRest (p ++ after)) = .ok e (r.withRest after)) :
    ∃ a : Assignment, a.unlocated = (stepBy op e .nowhere).unlocated ∧
      ∀ tail, (r.withRest tail).next.lexeme.endsExpression → step.run (r.withRest (written ++ tail)) =
        .ok a (r.withRest tail) := by
  have hends : ∀ {l : Lexeme}, l.endsExpression → l.extendsName = false ∧ Operator.ofLexeme? l = none := by
    intro l hl
    rwa [Lexeme.endsExpression, Bool.and_eq_true, Bool.not_eq_true', Option.isNone_iff_eq_none] at hl
  have hextends : mark.extendsName = false := by
    obtain ⟨rfl, -⟩ | ⟨rfl, -⟩ := eq_of_stepOperator? hmark <;> rfl
  -- the location of the step is that of its first token, and so differs from spelling to spelling
  cases spelling with
  | behind =>
    obtain ⟨p', marks, rfl, hp', hmarks⟩ := List.map_eq_append_iff.1 hwritten
    obtain ⟨m, rfl, rfl⟩ := List.map_eq_singleton_iff.1 hmarks
    obtain ⟨e', he', hplace⟩ := exists_run_place hp' h
    obtain ⟨t, ts, rfl⟩ := exists_eq_cons_of_place (hplace [] rfl)
    refine ⟨stepBy op e' t.loc, ?_, fun tail _ => ?_⟩
    · simp [stepBy, Assignment.unlocated, Expr.unlocated, he']
    · rw [List.append_assoc]
      exact run_step_of_place (hplace ([m] ++ tail) hextends) hmark
  | before =>
    obtain ⟨m, p', rfl, rfl, hp'⟩ := List.map_eq_cons_iff.1 hwritten
    obtain ⟨e', he', hplace⟩ := exists_run_place hp' h
    refine ⟨stepBy op e' m.loc, ?_, fun tail htail => ?_⟩
    · simp [stepBy, Assignment.unlocated, Expr.unlocated, he']
    · have hstep := run_step_of_mark (r := r.withRest (m :: (p' ++ tail))) hmark
      exact hstep.trans (run_bind_of_ok (hplace tail (hends htail).1))
  | inFull =>
    obtain ⟨p', rest, rfl, hp', hrest⟩ := List.map_eq_append_iff.1 hwritten
    obtain ⟨equals, rest, rfl, hequals, hrest⟩ := List.map_eq_cons_iff.1 hrest
    obtain ⟨p'', rest, rfl, hp'', hrest⟩ := List.map_eq_append_iff.1 hrest
    obtain ⟨sign, rest, rfl, hsign, hrest⟩ := List.map_eq_cons_iff.1 hrest
    obtain ⟨one, rfl, hone⟩ := List.map_eq_singleton_iff.1 hrest
    obtain ⟨e', he', hplace⟩ := exists_run_place hp' h
    obtain ⟨e'', he'', hplace'⟩ := exists_run_place hp'' h
    obtain ⟨t, ts, rfl⟩ := exists_eq_cons_of_place (hplace [] rfl)
    refine ⟨⟨e', .binary op e'' (.number "1" one.loc) sign.loc, t.loc⟩, ?_, fun tail htail => ?_⟩
    · simp [stepBy, Assignment.unlocated, Expr.unlocated, he', he'']
    · have hsignExtends : sign.lexeme.extendsName = false := by
        rw [hsign]
        cases op <;> rfl
      have hvalue := run_expression_place_literal hone (hends htail).2 hsign
        (hplace' (sign :: one :: tail) hsignExtends)
      have htarget := hplace (equals :: (p'' ++ sign :: one :: tail)) (by
        rw [Reader.next_withRest_cons, hequals]
        rfl)
      have hstep := run_step_of_assign htarget hequals
      have hassoc : t :: ts ++ equals :: (p'' ++ [sign, one]) ++ tail =
          t :: ts ++ equals :: (p'' ++ sign :: one :: tail) := by simp
      rw [hassoc]
      exact hstep.trans (run_bind_of_ok hvalue)

/-- However a step is written, it is refused because of an index in its place. -/
theorem exists_run_outOfBounds {index : Int} {name : String} {size : Nat} {loc : Location} {r₁ : Reader}
    (h : place.run (r.withRest (p ++ after)) = .error (.outOfBounds index name size loc) r₁)
    (hafter : after <:+ r₁.rest) (tail : List Token) :
    ∃ loc' r', Production.statement.read.run (r.withRest (written ++ tail)) =
        .error (.outOfBounds index name size loc') r' ∧
      forStep.run (r.withRest (written ++ tail)) = .error (.outOfBounds index name size loc') r' := by
  cases spelling with
  | before =>
    obtain ⟨m, p', rfl, rfl, hp'⟩ := List.map_eq_cons_iff.1 hwritten
    obtain ⟨loc', r', hplace⟩ := exists_run_place_outOfBounds hp' h hafter tail
    exact ⟨loc', r', run_of_mark_of_outOfBounds hmark hplace⟩
  | behind | inFull =>
    obtain ⟨p', rest, rfl, hp', -⟩ := List.map_eq_append_iff.1 hwritten
    obtain ⟨loc', r', hplace⟩ := exists_run_place_outOfBounds hp' h hafter (rest ++ tail)
    rw [List.append_assoc]
    exact ⟨loc', r', run_of_outOfBounds hplace⟩

end Spellings

/-- **The ways to write an increment agree.** If the tokens `p` are read as the place `e`, then `p++`, `++p` and
`p = p + 1`, and likewise with `--` and `-`, wherever they are written, are all read as the same assignment up to
locations, as a statement and as the last clause in the head of a `for` loop, and nothing of the reader changes but the
tokens still to be read. If a constant index in `p` misses its array, then each of them is refused with the same index,
name and size. -/
theorem increment_spellings (r : Reader) (p after : List Token) {mark : Lexeme} {op : Operator}
    (hmark : stepOperator? mark = some op) :
    (∀ e, place.run (r.withRest (p ++ after)) = .ok e (r.withRest after) →
      ∀ (spelling : Spelling) (written : List Token),
        written.map (·.lexeme) = spelling.lexemes mark op (p.map (·.lexeme)) →
        ∃ a : Assignment, a.unlocated = (stepBy op e .nowhere).unlocated ∧ ∀ (loc : Location) (tail : List Token),
          Production.statement.read.run (r.withRest (written ++ ⟨.symbol .semicolon, loc⟩ :: tail)) =
            .ok (.assign a) (r.withRest tail) ∧
          forStep.run (r.withRest (written ++ ⟨.symbol .closeParen, loc⟩ :: tail)) =
            .ok (some a) (r.withRest tail)) ∧
    (∀ index name size loc r₁, place.run (r.withRest (p ++ after)) = .error (.outOfBounds index name size loc) r₁ →
      after <:+ r₁.rest →
      ∀ (spelling : Spelling) (written tail : List Token),
        written.map (·.lexeme) = spelling.lexemes mark op (p.map (·.lexeme)) →
        ∃ loc' r', Production.statement.read.run (r.withRest (written ++ tail)) =
            .error (.outOfBounds index name size loc') r' ∧
          forStep.run (r.withRest (written ++ tail)) = .error (.outOfBounds index name size loc') r') := by
  constructor
  · intro e h spelling written hwritten
    obtain ⟨a, ha, hstep⟩ := exists_run_step hmark spelling hwritten h
    exact ⟨a, ha, fun loc tail =>
      ⟨run_statement_of_step (hstep (⟨.symbol .semicolon, loc⟩ :: tail) rfl) rfl,
        run_forStep_of_step (hstep (⟨.symbol .closeParen, loc⟩ :: tail) rfl) rfl⟩⟩
  · intro index name size loc r₁ h hafter spelling written tail hwritten
    exact exists_run_outOfBounds hmark spelling hwritten h hafter tail

/-- The lexemes of the place `a.x[b[i]+j]`, where `i` is a literal. -/
def nestedPlace (literal : String) : List Lexeme :=
  [.identifier "a", .symbol .dot, .identifier "x", .symbol .openBracket, .identifier "b", .symbol .openBracket,
    .number literal, .symbol .closeBracket, .symbol .plus, .identifier "j", .symbol .closeBracket]

/-- A reader that knows of an array with two elements. -/
def twoElements : Reader where
  queue := .ofList []
  eof := .nowhere
  tables := { arrays := ArraySizes.empty.register "b" 2 }

theorem increment_spellings_nestedPlace :
    (∃ e, place.run (twoElements.withRest (tokensOf (nestedPlace "1") ++ [])) = .ok e (twoElements.withRest []) ∧
      ∀ spelling : Spelling, ∃ a : Assignment, a.unlocated = (stepBy .sub e .nowhere).unlocated ∧
        Production.statement.read.run (twoElements.withRest
          (tokensOf (spelling.lexemes (.symbol .decrement) .sub (nestedPlace "1")) ++
            [⟨.symbol .semicolon, .nowhere⟩])) = .ok (.assign a) (twoElements.withRest [])) ∧
    ∃ r₁, place.run (twoElements.withRest (tokensOf (nestedPlace "2") ++ [])) =
        .error (.outOfBounds 2 "b" 2 .nowhere) r₁ ∧
      ∀ spelling : Spelling, ∃ loc' r', forStep.run (twoElements.withRest
          (tokensOf (spelling.lexemes (.symbol .decrement) .sub (nestedPlace "2")) ++
            [⟨.symbol .closeParen, .nowhere⟩])) = .error (.outOfBounds 2 "b" 2 loc') r' := by
  have hspelled : ∀ (spelling : Spelling) (ls : List Lexeme),
      (tokensOf (spelling.lexemes (.symbol .decrement) .sub ls)).map (·.lexeme) =
        spelling.lexemes (.symbol .decrement) .sub ((tokensOf ls).map (·.lexeme)) := fun spelling ls => by
    rw [map_lexeme_tokensOf, map_lexeme_tokensOf]
  constructor
  · refine ⟨_, rfl, fun spelling => ?_⟩
    obtain ⟨a, ha, hruns⟩ := (increment_spellings twoElements (tokensOf (nestedPlace "1")) [] rfl).1 _ rfl spelling _
      (hspelled spelling _)
    exact ⟨a, ha, (hruns .nowhere []).1⟩
  · refine ⟨_, rfl, fun spelling => ?_⟩
    obtain ⟨loc', r', -, hrun⟩ := (increment_spellings twoElements (tokensOf (nestedPlace "2")) [] rfl).2 _ _ _ _ _ rfl
      (List.nil_suffix) spelling _ [⟨.symbol .closeParen, .nowhere⟩] (hspelled spelling _)
    exact ⟨loc', r', hrun⟩

end ClockedC.Grammar
