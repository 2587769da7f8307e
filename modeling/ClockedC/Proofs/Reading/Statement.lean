import ClockedC.Proofs.Reading.Variable

/-!
# Statements that are read are admissible

Every statement read from the tokens of a source text is admissible where it stands, and leaves in sight the arrays it
declares.
-/

namespace ClockedC.Grammar

variable {r r' : Reader} {s : Statement}

/-! ## Expressions that begin with a name -/

/-- An operand that begins with a name is a call or a place. -/
theorem OperandCase.startsWithName {depth : Nat} {e : Expr} {name : String} (hnum : r.HasNumerals)
    (hname : r.next.lexeme = .identifier name) (h : OperandCase depth r e r') :
    e.startsWithName ∧ ∀ least, e.bindsFrom least := by
  cases h with
  | unary next run => simp [hname] at next
  | minus next run => simp [hname] at next
  | parens next run close => simp [hname] at next
  | number next => simp [hname] at next
  | call next ahead run => exact ⟨rfl, fun _ => rfl⟩
  | place next ahead run =>
    have hexpr : YieldsWritten (expressionAt depth Operator.lowestPrecedence) :=
      ⟨.expressionAt .., fun hnum h => ((written_expressions depth).1 _ hnum h).1⟩
    obtain ⟨-, hplace⟩ := run_placeWith_eq_ok hexpr hnum run
    cases e <;> first | exact ⟨rfl, fun _ => rfl⟩ | simp [Expr.isPlace] at hplace

/-- Operators keep the name in front. -/
theorem startsWithName_of_operatorsFrom {depth : Nat} {least : Int} {left e : Expr} (hleft : left.startsWithName)
    (hbinds : ∀ op ∈ Operator.ofLexeme? r.next.lexeme, left.bindsFrom op.precedence)
    (h : (operatorsFrom depth least left).run r = .ok e r') : e.startsWithName := by
  induction depth generalizing left r with
  | zero => cases h
  | succ depth ih =>
    obtain ⟨rfl, -, -⟩ | ⟨op, right, r₁, hop, -, hright, h⟩ := run_operatorsFrom_eq_ok h
    · exact hleft
    · refine ih ?_ ?_ h
      · simp [Expr.startsWithName, hleft, hbinds op hop]
      · intro op' hop'
        have := precedence_lt_of_expressionAt hright op' hop'
        simp only [Expr.bindsFrom, decide_eq_true_eq]
        omega

/-- An expression read from a name on begins with a name. -/
theorem startsWithName_of_expression {e : Expr} {name : String} (hnum : r.HasNumerals)
    (hname : r.next.lexeme = .identifier name) (h : expression.run r = .ok e r') : e.startsWithName := by
  rw [expression, run_bind_of_ok (EStateM.run_get r)] at h
  obtain ⟨depth, hdepth⟩ : ∃ d, r.depth = d + 2 := ⟨4 * r.rest.length + 2, by rw [Reader.depth_eq]; omega⟩
  rw [hdepth] at h
  obtain ⟨left, r₁, hleft, h⟩ := run_expressionAt_eq_ok h
  obtain ⟨hstarts, hbinds⟩ := (run_primary_eq_ok hleft).startsWithName hnum hname
  exact startsWithName_of_operatorsFrom hstarts (fun op _ => hbinds _) h

/-! ## Assignments -/

/-- Stepping a place is an admissible assignment. -/
theorem admissible_stepBy {arrays : ArraySizes} {target : Expr} (op : Operator) (loc : Location)
    (htarget : target.Written arrays) (hplace : target.isPlace) : (stepBy op target loc).Admissible arrays :=
  ⟨hplace, htarget, .binary htarget (.number (.of_isNumeral (by decide)))
    (.inl (Expr.bindsFrom_of_isPlace hplace _)) (.inl rfl)⟩

/-- A step that is read only moves on, and it is an admissible assignment. -/
theorem run_step_eq_ok {a : Assignment} (hnum : r.HasNumerals) (h : step.run r = .ok a r') :
    r.Passes r' ∧ a.Admissible r.tables.arrays := by
  rw [step, run_bind_of_ok (run_current r)] at h
  split at h
  -- a mark in front of the place
  · next op _ =>
    rw [run_bind_of_ok (run_advance r)] at h
    obtain ⟨target, r₁, hrun, h⟩ := run_bind_eq_ok.1 h
    cases h
    obtain ⟨hpasses, htarget, hplace⟩ := run_place_eq_ok hnum.tail hrun
    exact ⟨(Reader.Passes.tail r).trans hpasses, admissible_stepBy op _ htarget hplace⟩
  · obtain ⟨target, r₁, hrun, h⟩ := run_bind_eq_ok.1 h
    obtain ⟨hpasses, htarget, hplace⟩ := run_place_eq_ok hnum hrun
    rw [run_bind_of_ok (run_current r₁)] at h
    split at h
    -- a mark behind the place
    · next op _ =>
      rw [run_bind_of_ok (run_advance r₁)] at h
      cases h
      exact ⟨hpasses.trans (.tail r₁), admissible_stepBy op _ htarget hplace⟩
    · obtain ⟨b, r₂, haccept, h⟩ := run_bind_eq_ok.1 h
      have hpasses₂ := hpasses.trans ((Moves.accept _).passes haccept)
      cases b with
      | true =>
        obtain ⟨value, r₃, hvalue, h⟩ := run_bind_eq_ok.1 h
        cases h
        obtain ⟨hpasses₃, hwritten⟩ := run_expression_eq_ok (hnum.of_passes hpasses₂) hvalue
        rw [hpasses₂.tables_eq] at hwritten
        exact ⟨hpasses₂.trans hpasses₃, hplace, htarget, hwritten⟩
      | false => cases h

/-! ## Statements that begin with a name -/

/-- An expression that is read as a statement is followed by what is passed. -/
theorem run_expressionStatement_eq_ok (h : expressionStatement.run r = .ok s r') :
    ∃ e r₁, expression.run r = .ok e r₁ ∧ r₁.Passes r' ∧ s = .evaluate e := by
  obtain ⟨e, r₁, he, h⟩ := run_bind_eq_ok.1 h
  obtain ⟨_, r₂, hsemicolon, h⟩ := run_bind_eq_ok.1 h
  cases h
  exact ⟨e, r₁, he, (Moves.expect ..).passes hsemicolon, rfl⟩

/-- A statement that begins with a name is an assignment, or an expression read from the name on. -/
theorem run_assignmentOrExpression_eq_ok (hnum : r.HasNumerals) (h : assignmentOrExpression.run r = .ok s r') :
    (∃ a, s = .assign a ∧ r.Passes r' ∧ a.Admissible r.tables.arrays) ∨ expressionStatement.run r = .ok s r' := by
  rw [assignmentOrExpression, run_bind_of_ok (EStateM.run_get r), run_bind_of_ok (run_lexemeAhead 1 r)] at h
  split at h
  · exact .inr h
  obtain ⟨target, r₁, hrun, h⟩ := run_bind_eq_ok.1 h
  obtain ⟨hpasses, htarget, hplace⟩ := run_place_eq_ok hnum hrun
  rw [run_bind_of_ok (run_current r₁)] at h
  split at h
  · next op _ =>
    rw [run_bind_of_ok (run_advance r₁)] at h
    obtain ⟨_, r₂, hsemicolon, h⟩ := run_bind_eq_ok.1 h
    cases h
    have hpasses₂ := (hpasses.trans (.tail r₁)).trans ((Moves.expect ..).passes hsemicolon)
    exact .inl ⟨_, rfl, hpasses₂, admissible_stepBy op _ htarget hplace⟩
  · obtain ⟨b, r₂, haccept, h⟩ := run_bind_eq_ok.1 h
    have hpasses₂ := hpasses.trans ((Moves.accept _).passes haccept)
    cases b with
    | true =>
      obtain ⟨value, r₃, hvalue, h⟩ := run_bind_eq_ok.1 h
      obtain ⟨_, r₄, hsemicolon, h⟩ := run_bind_eq_ok.1 h
      cases h
      obtain ⟨hpasses₃, hwritten⟩ := run_expression_eq_ok (hnum.of_passes hpasses₂) hvalue
      rw [hpasses₂.tables_eq] at hwritten
      exact .inl ⟨_, rfl, (hpasses₂.trans hpasses₃).trans ((Moves.expect ..).passes hsemicolon),
        hplace, htarget, hwritten⟩
    | false =>
      simp only [Bool.false_eq_true, if_false] at h
      -- neither a step nor an assignment: the reader goes back to where it was
      rw [run_bind_of_ok (EStateM.run_modify _ r₂), hpasses₂.takeBack] at h
      exact .inr h

/-! ## Steps that read admissible syntax -/

/-- A step that reads syntax that is admissible where it stands, and leaves its declarations in sight. -/
structure Admits {α : Type} (locals : α → List Variable) (Ok : Layouts → Prop → ArraySizes → α → Prop)
    (p : ReadM α) : Prop where
  of_ok : ∀ {r r' : Reader} {a : α}, r.HasNumerals → p.run r = .ok a r' →
    Reader.PassesDeclaring (locals a) r r' ∧ Ok r.tables.structs (r.loopDepth ≠ 0) r.tables.arrays a

/-- What is read inside of a loop is admissible inside of a loop. -/
theorem Admits.insideLoop {α : Type} {locals : α → List Variable} {Ok : Layouts → Prop → ArraySizes → α → Prop}
    {p : ReadM α} (hp : Admits locals Ok p) {a : α} (hnum : r.HasNumerals) (h : (insideLoop p).run r = .ok a r') :
    Reader.PassesDeclaring (locals a) r r' ∧ Ok r.tables.structs True r.tables.arrays a := by
  obtain ⟨r₁, hrun, rfl⟩ := run_insideLoop_eq_ok h
  have hnum' : ({ r with loopDepth := r.loopDepth + 1 } : Reader).HasNumerals := hnum
  obtain ⟨hpasses, hok⟩ := hp.of_ok hnum' hrun
  have htrue : (r.loopDepth + 1 ≠ 0) = True := by simp
  rw [htrue] at hok
  refine ⟨⟨hpasses.suffix, ?_⟩, hok⟩
  rw [hpasses.eq_withRest]
  rfl

/-! ## Heads of loops and branches -/

/-- What is given back is admissible. -/
theorem Admits.returned (loc : Location) : Admits Statement.locals Statement.Admissible (returned loc) := by
  constructor
  intro r r' s hnum h
  obtain ⟨b, r₁, haccept, h⟩ := run_bind_eq_ok.1 h
  have hpasses := (Moves.accept _).passes haccept
  cases b with
  | true =>
    cases h
    exact ⟨.of_passes hpasses, by simp [Statement.Admissible]⟩
  | false =>
    obtain ⟨value, r₂, hvalue, h⟩ := run_bind_eq_ok.1 h
    obtain ⟨_, r₃, hsemicolon, h⟩ := run_bind_eq_ok.1 h
    cases h
    obtain ⟨hpasses₂, hwritten⟩ := run_expression_eq_ok (hnum.of_passes hpasses) hvalue
    rw [hpasses.tables_eq] at hwritten
    refine ⟨.of_passes ((hpasses.trans hpasses₂).trans ((Moves.expect ..).passes hsemicolon)), ?_⟩
    simpa [Statement.Admissible] using hwritten

/-- What is read before the first round is a declaration or an assignment, if anything. -/
theorem run_forStart_eq_ok {start : Option Statement} (hnum : r.HasNumerals) (h : forStart.run r = .ok start r') :
    (start = none ∧ r.Passes r') ∨
      ∃ s, start = some s ∧ s.isForStart ∧ Reader.PassesDeclaring s.locals r r' ∧
        s.Admissible r.tables.structs (r.loopDepth ≠ 0) r.tables.arrays := by
  rw [forStart, run_bind_of_ok (run_current r)] at h
  obtain ⟨b, r₁, haccept, h⟩ := run_bind_eq_ok.1 h
  obtain ⟨rfl, -, rfl⟩ | ⟨rfl, -, rfl⟩ := run_accept_eq_ok haccept
  · cases h
    exact .inl ⟨rfl, .tail r⟩
  · simp only [Bool.false_eq_true, if_false] at h
    split at h
    · obtain ⟨decl, r₂, hdecl, h⟩ := run_bind_eq_ok.1 h
      cases h
      obtain ⟨hpasses, hok⟩ := run_variableDeclaration_eq_ok hnum hdecl
      exact .inr ⟨_, rfl, rfl, hpasses, hok⟩
    · split at h
      · obtain ⟨target, r₂, htarget, h⟩ := run_bind_eq_ok.1 h
        obtain ⟨_, r₃, hassign, h⟩ := run_bind_eq_ok.1 h
        obtain ⟨value, r₄, hvalue, h⟩ := run_bind_eq_ok.1 h
        obtain ⟨_, r₅, hsemicolon, h⟩ := run_bind_eq_ok.1 h
        cases h
        obtain ⟨hpasses, hwritten, hplace⟩ := run_place_eq_ok hnum htarget
        have hpasses₃ := hpasses.trans ((Moves.expect ..).passes hassign)
        obtain ⟨hpasses₄, hwritten₄⟩ := run_expression_eq_ok (hnum.of_passes hpasses₃) hvalue
        rw [hpasses₃.tables_eq] at hwritten₄
        have hpasses₅ := (hpasses₃.trans hpasses₄).trans ((Moves.expect ..).passes hsemicolon)
        exact .inr ⟨_, rfl, rfl, .of_passes hpasses₅, hplace, hwritten, hwritten₄⟩
      · cases h

/-- The condition of a `for` loop can be written, if there is one. -/
theorem run_forCondition_eq_ok {condition : Option Expr} (hnum : r.HasNumerals)
    (h : forCondition.run r = .ok condition r') : r.Passes r' ∧ ∀ e ∈ condition, e.Written r.tables.arrays := by
  rw [forCondition, run_bind_of_ok (run_nextIs _ r)] at h
  split at h
  · obtain ⟨_, r₁, hnone, h⟩ := run_bind_eq_ok.1 h
    obtain ⟨_, r₂, hsemicolon, h⟩ := run_bind_eq_ok.1 h
    cases h
    cases hnone
    exact ⟨(Moves.expect ..).passes hsemicolon, by simp⟩
  · obtain ⟨_, r₁, hsome, h⟩ := run_bind_eq_ok.1 h
    obtain ⟨_, r₂, hsemicolon, h⟩ := run_bind_eq_ok.1 h
    obtain ⟨e, he, rfl⟩ := run_map_eq_ok.1 hsome
    cases h
    obtain ⟨hpasses, hwritten⟩ := run_expression_eq_ok hnum he
    exact ⟨hpasses.trans ((Moves.expect ..).passes hsemicolon), by simpa using hwritten⟩

/-- The step of a `for` loop is admissible, if there is one. -/
theorem run_forStep_eq_ok {increment : Option Assignment} {r r' : Reader} (hnum : r.HasNumerals)
    (h : forStep.run r = .ok increment r') :
    r.Passes r' ∧ ∀ a ∈ increment, a.Admissible r.tables.arrays := by
  rw [forStep, run_bind_of_ok (run_nextIs _ r)] at h
  split at h
  · obtain ⟨_, r₁, hnone, h⟩ := run_bind_eq_ok.1 h
    obtain ⟨_, r₂, hclose, h⟩ := run_bind_eq_ok.1 h
    cases h
    cases hnone
    exact ⟨(Moves.expect ..).passes hclose, by simp⟩
  · obtain ⟨_, r₁, hsome, h⟩ := run_bind_eq_ok.1 h
    obtain ⟨_, r₂, hclose, h⟩ := run_bind_eq_ok.1 h
    obtain ⟨a, ha, rfl⟩ := run_map_eq_ok.1 hsome
    cases h
    obtain ⟨hpasses, hok⟩ := run_step_eq_ok hnum ha
    exact ⟨hpasses.trans ((Moves.expect ..).passes hclose), by simpa using hok⟩

/-- A condition in parentheses can be written. -/
theorem run_parenthesisedCondition_eq_ok {keyword construct : String} {condition : Expr} (hnum : r.HasNumerals)
    (h : (parenthesisedCondition keyword construct).run r = .ok condition r') :
    r.Passes r' ∧ condition.Written r.tables.arrays := by
  obtain ⟨_, r₁, hopen, h⟩ := run_bind_eq_ok.1 h
  obtain ⟨e, r₂, he, h⟩ := run_bind_eq_ok.1 h
  obtain ⟨_, r₃, hclose, h⟩ := run_bind_eq_ok.1 h
  cases h
  have hpasses := (Moves.expect ..).passes hopen
  obtain ⟨hpasses₂, hwritten⟩ := run_expression_eq_ok (hnum.of_passes hpasses) he
  rw [hpasses.tables_eq] at hwritten
  exact ⟨(hpasses.trans hpasses₂).trans ((Moves.expect ..).passes hclose), hwritten⟩

/-! ## Statements -/

/-- A statement that begins with a name is admissible. -/
theorem Admits.assignmentOrExpression {name : String} (hname : r.next.lexeme = .identifier name) (hnum : r.HasNumerals)
    (h : assignmentOrExpression.run r = .ok s r') :
    Reader.PassesDeclaring s.locals r r' ∧ s.Admissible r.tables.structs (r.loopDepth ≠ 0) r.tables.arrays := by
  obtain ⟨a, rfl, hpasses, hok⟩ | h := run_assignmentOrExpression_eq_ok hnum h
  · exact ⟨.of_passes hpasses, hok⟩
  · obtain ⟨e, r₁, he, hpasses, rfl⟩ := run_expressionStatement_eq_ok h
    obtain ⟨hpasses₁, hwritten⟩ := run_expression_eq_ok hnum he
    exact ⟨.of_passes (hpasses₁.trans hpasses), startsWithName_of_expression hnum hname he, hwritten⟩

/-- What `++` and `--` in front of a place are read as. -/
theorem Admits.stepStatement {r r' : Reader} {s : Statement} (hnum : r.HasNumerals)
    (h : (do
      let assignment ← step
      expect .semicolon "after increment"
      return Statement.assign assignment : ReadM Statement).run r = .ok s r') :
    Reader.PassesDeclaring s.locals r r' ∧ s.Admissible r.tables.structs (r.loopDepth ≠ 0) r.tables.arrays := by
  obtain ⟨a, r₁, ha, h⟩ := run_bind_eq_ok.1 h
  obtain ⟨_, r₂, hsemicolon, h⟩ := run_bind_eq_ok.1 h
  cases h
  obtain ⟨hpasses, hok⟩ := run_step_eq_ok hnum ha
  exact ⟨.of_passes (hpasses.trans ((Moves.expect ..).passes hsemicolon)), hok⟩

/-- What a jump is read as, where a loop is open. -/
theorem Admits.jump {r r' : Reader} {s s' : Statement} {keyword : Keyword} {context : String} {loc : Location}
    (hs' : ∀ structs inLoop arrays, s'.Admissible structs inLoop arrays = inLoop) (hlocals : s'.locals = [])
    (h : (do
      requireLoop keyword loc
      expect .semicolon context
      return s' : ReadM Statement).run r = .ok s r') :
    Reader.PassesDeclaring s.locals r r' ∧ s.Admissible r.tables.structs (r.loopDepth ≠ 0) r.tables.arrays := by
  obtain ⟨_, r₁, hloop, h⟩ := run_bind_eq_ok.1 h
  obtain ⟨_, r₂, hsemicolon, h⟩ := run_bind_eq_ok.1 h
  cases h
  rw [requireLoop, run_bind_of_ok (EStateM.run_get r)] at hloop
  split at hloop
  · cases hloop
  · next hdepth =>
    cases hloop
    rw [hlocals, hs']
    exact ⟨.of_passes ((Moves.expect ..).passes hsemicolon), hdepth⟩

section Productions

variable {depth : Nat}

/-- Statements in a row are admissible if each of them is, with what those before it declare. -/
theorem Admits.statements_succ (hstatements : Admits Statement.localsOf Statement.AllAdmissible (statements depth))
    (hstatement : Admits Statement.locals Statement.Admissible (statement depth)) :
    Admits Statement.localsOf Statement.AllAdmissible (Grammar.statements (depth + 1)) := by
  constructor
  intro r r' ss hnum h
  rw [Grammar.statements, statementsBy, run_bind_of_ok (run_current r)] at h
  split at h
  · cases h
    exact ⟨.of_passes (.refl r), trivial⟩
  · cases h
    exact ⟨.of_passes (.refl r), trivial⟩
  · rw [run_bind_of_ok (run_advance r)] at h
    obtain ⟨inner, r₁, hinner, h⟩ := run_bind_eq_ok.1 h
    obtain ⟨_, r₂, hclose, h⟩ := run_bind_eq_ok.1 h
    obtain ⟨rest, r₃, hrest, h⟩ := run_bind_eq_ok.1 h
    cases h
    obtain ⟨hpasses, hok⟩ := hstatements.of_ok hnum.tail hinner
    have hpasses₂ := (Reader.PassesDeclaring.passes_trans (.tail r) hpasses).trans_passes
      ((Moves.expect ..).passes hclose)
    obtain ⟨hpasses₃, hok₃⟩ := hstatements.of_ok (hpasses₂.hasNumerals hnum) hrest
    rw [hpasses₂.structs_eq, hpasses₂.loopDepth_eq, hpasses₂.arrays_eq] at hok₃
    -- arrays stay in sight behind the brace that closes their block
    rw [Statement.localsOf_append]
    exact ⟨hpasses₂.trans hpasses₃, hok.append hok₃⟩
  · rw [run_bind_of_ok (run_advance r)] at h
    obtain ⟨hpasses, hok⟩ := hstatements.of_ok hnum.tail h
    exact ⟨.passes_trans (.tail r) hpasses, hok⟩
  · obtain ⟨first, r₁, hfirst, h⟩ := run_bind_eq_ok.1 h
    obtain ⟨rest, r₂, hrest, h⟩ := run_bind_eq_ok.1 h
    cases h
    obtain ⟨hpasses, hok⟩ := hstatement.of_ok hnum hfirst
    obtain ⟨hpasses₂, hok₂⟩ := hstatements.of_ok (hpasses.hasNumerals hnum) hrest
    rw [hpasses.structs_eq, hpasses.loopDepth_eq, hpasses.arrays_eq] at hok₂
    exact ⟨hpasses.trans hpasses₂, hok, hok₂⟩

/-- A body is admissible if the statements in it are. -/
theorem Admits.body_succ (hstatements : Admits Statement.localsOf Statement.AllAdmissible (statements depth))
    (hstatement : Admits Statement.locals Statement.Admissible (statement depth)) (context : String) :
    Admits Statement.localsOf Statement.AllAdmissible (body (depth + 1) context) := by
  constructor
  intro r r' ss hnum h
  rw [body, bodyBy] at h
  obtain ⟨b, r₁, haccept, h⟩ := run_bind_eq_ok.1 h
  have hpasses := (Moves.accept _).passes haccept
  cases b with
  | true =>
    obtain ⟨inner, r₂, hinner, h⟩ := run_bind_eq_ok.1 h
    obtain ⟨_, r₃, hclose, h⟩ := run_bind_eq_ok.1 h
    cases h
    obtain ⟨hpasses₂, hok⟩ := hstatements.of_ok (hnum.of_passes hpasses) hinner
    rw [hpasses.tables_eq, hpasses.loopDepth_eq] at hok
    exact ⟨(Reader.PassesDeclaring.passes_trans hpasses hpasses₂).trans_passes ((Moves.expect ..).passes hclose), hok⟩
  | false =>
    obtain ⟨s, r₂, hs, h⟩ := run_bind_eq_ok.1 h
    cases h
    obtain ⟨hpasses₂, hok⟩ := hstatement.of_ok (hnum.of_passes hpasses) hs
    rw [hpasses.tables_eq, hpasses.loopDepth_eq] at hok
    rw [Statement.localsOf_cons, Statement.localsOf_nil, List.append_nil]
    exact ⟨.passes_trans hpasses hpasses₂, hok, trivial⟩

/-- A condition, the body it guards, and the arms behind them. -/
theorem Admits.arm {r₁ r₂ : Reader} {keyword construct context : String} {condition : Expr} {block : List Statement}
    {rest : Alternative} (hbody : Admits Statement.localsOf Statement.AllAdmissible (body depth context))
    (halternative : Admits Alternative.locals Alternative.Admissible (alternative depth)) (hnum : r.HasNumerals)
    (hcondition : (parenthesisedCondition keyword construct).run r = .ok condition r₁)
    (hblock : (body depth context).run r₁ = .ok block r₂) (hrest : (alternative depth).run r₂ = .ok rest r') :
    Reader.PassesDeclaring (Statement.localsOf block ++ rest.locals) r r' ∧
      condition.Written r.tables.arrays ∧
      Statement.AllAdmissible r.tables.structs (r.loopDepth ≠ 0) r.tables.arrays block ∧
      rest.Admissible r.tables.structs (r.loopDepth ≠ 0)
        (r.tables.arrays.declareAll (Statement.localsOf block)) := by
  obtain ⟨hpasses, hwritten⟩ := run_parenthesisedCondition_eq_ok hnum hcondition
  obtain ⟨hpasses₂, hok⟩ := hbody.of_ok (hnum.of_passes hpasses) hblock
  rw [hpasses.tables_eq, hpasses.loopDepth_eq] at hok
  have hpasses₂ := Reader.PassesDeclaring.passes_trans hpasses hpasses₂
  obtain ⟨hpasses₃, hok₃⟩ := halternative.of_ok (hpasses₂.hasNumerals hnum) hrest
  rw [hpasses₂.structs_eq, hpasses₂.loopDepth_eq, hpasses₂.arrays_eq] at hok₃
  exact ⟨hpasses₂.trans hpasses₃, hwritten, hok, hok₃⟩

/-- Further arms are admissible if their bodies and the arms behind them are. -/
theorem Admits.alternative_succ
    (hbody : ∀ context, Admits Statement.localsOf Statement.AllAdmissible (body depth context))
    (halternative : Admits Alternative.locals Alternative.Admissible (alternative depth)) :
    Admits Alternative.locals Alternative.Admissible (alternative (depth + 1)) := by
  constructor
  intro r r' alt hnum h
  rw [alternative, alternativeBy] at h
  obtain ⟨b, r₁, haccept, h⟩ := run_bind_eq_ok.1 h
  obtain ⟨rfl, -, rfl⟩ | ⟨rfl, -, hr₁⟩ := run_acceptKeyword_eq_ok haccept
  · simp only [if_true] at h
    obtain ⟨b, r₂, haccept₂, h⟩ := run_bind_eq_ok.1 h
    obtain ⟨rfl, -, rfl⟩ | ⟨rfl, -, rfl⟩ := run_acceptKeyword_eq_ok haccept₂
    · simp only [if_true] at h
      obtain ⟨condition, r₃, hcondition, h⟩ := run_bind_eq_ok.1 h
      obtain ⟨block, r₄, hblock, h⟩ := run_bind_eq_ok.1 h
      obtain ⟨rest, r₅, hrest, h⟩ := run_bind_eq_ok.1 h
      cases h
      obtain ⟨hpasses, hok⟩ := Admits.arm (hbody _) halternative hnum.tail.tail hcondition hblock hrest
      exact ⟨.passes_trans ((Reader.Passes.tail r).trans (.tail _)) hpasses, hok⟩
    · simp only [Bool.false_eq_true, if_false] at h
      obtain ⟨block, r₃, hblock, h⟩ := run_bind_eq_ok.1 h
      cases h
      obtain ⟨hpasses, hok⟩ := (hbody _).of_ok hnum.tail hblock
      exact ⟨.passes_trans (.tail r) hpasses, hok⟩
  · cases h
    rw [hr₁]
    exact ⟨.of_passes (.refl r), trivial⟩

/-- A `for` loop behind its keyword and parenthesis. -/
theorem Admits.forLoop {r₁ r₂ r₃ : Reader} {context : String} {start : Option Statement} {condition : Option Expr}
    {increment : Option Assignment} {block : List Statement} (loc : Location)
    (hbody : Admits Statement.localsOf Statement.AllAdmissible (body depth context)) (hnum : r.HasNumerals)
    (hstart : forStart.run r = .ok start r₁) (hcondition : forCondition.run r₁ = .ok condition r₂)
    (hincrement : forStep.run r₂ = .ok increment r₃)
    (hblock : (Grammar.insideLoop (body depth context)).run r₃ = .ok block r') :
    Reader.PassesDeclaring (Statement.forLoop start condition increment block loc).locals r r' ∧
      (Statement.forLoop start condition increment block loc).Admissible r.tables.structs (r.loopDepth ≠ 0)
        r.tables.arrays := by
  have hrest : ∀ decls, Reader.PassesDeclaring decls r r₁ →
      Reader.PassesDeclaring (decls ++ Statement.localsOf block) r r' ∧
        (∀ e ∈ condition, e.Written (r.tables.arrays.declareAll decls)) ∧
        (∀ a ∈ increment, a.Admissible (r.tables.arrays.declareAll decls)) ∧
        Statement.AllAdmissible r.tables.structs True (r.tables.arrays.declareAll decls) block := by
    intro decls hpasses
    have hnum₁ := hpasses.hasNumerals hnum
    obtain ⟨hpasses₂, hwritten⟩ := run_forCondition_eq_ok hnum₁ hcondition
    obtain ⟨hpasses₃, hassign⟩ := run_forStep_eq_ok (hnum₁.of_passes hpasses₂) hincrement
    have hpasses₃ := hpasses₂.trans hpasses₃
    obtain ⟨hpasses₄, hok⟩ := hbody.insideLoop (hnum₁.of_passes hpasses₃) hblock
    rw [hpasses₂.tables_eq] at hassign
    rw [hpasses₃.tables_eq] at hok
    rw [hpasses.arrays_eq] at hwritten hassign hok
    rw [hpasses.structs_eq] at hok
    exact ⟨hpasses.trans (.passes_trans hpasses₃ hpasses₄), hwritten, hassign, hok⟩
  obtain ⟨rfl, hpasses⟩ | ⟨s, rfl, hs, hpasses, hok⟩ := run_forStart_eq_ok hnum hstart
  · exact hrest [] (.of_passes hpasses)
  · obtain ⟨hpasses', hrest'⟩ := hrest _ hpasses
    exact ⟨hpasses', hs, hok, hrest'⟩

/-- A statement is admissible if the bodies and arms in it are. -/
theorem Admits.statement_succ
    (hbody : ∀ context, Admits Statement.localsOf Statement.AllAdmissible (body depth context))
    (halternative : Admits Alternative.locals Alternative.Admissible (alternative depth)) :
    Admits Statement.locals Statement.Admissible (statement (depth + 1)) := by
  constructor
  intro r r' s hnum h
  rw [statement, statementBy, run_bind_of_ok (run_current r)] at h
  -- every part is admitted by the tables where it begins; `tables_eq` takes them back to those of `r`
  split at h
  · rw [run_bind_of_ok (run_advance r)] at h
    obtain ⟨hpasses, hok⟩ := (Admits.returned _).of_ok hnum.tail h
    exact ⟨.passes_trans (.tail r) hpasses, hok⟩
  · rw [run_bind_of_ok (run_advance r)] at h
    obtain ⟨condition, r₁, hcondition, h⟩ := run_bind_eq_ok.1 h
    obtain ⟨block, r₂, hblock, h⟩ := run_bind_eq_ok.1 h
    obtain ⟨rest, r₃, hrest, h⟩ := run_bind_eq_ok.1 h
    cases h
    obtain ⟨hpasses, hok⟩ := Admits.arm (hbody _) halternative hnum.tail hcondition hblock hrest
    exact ⟨.passes_trans (.tail r) hpasses, hok⟩
  · rw [run_bind_of_ok (run_advance r)] at h
    obtain ⟨condition, r₁, hcondition, h⟩ := run_bind_eq_ok.1 h
    obtain ⟨block, r₂, hblock, h⟩ := run_bind_eq_ok.1 h
    cases h
    obtain ⟨hpasses, hwritten⟩ := run_parenthesisedCondition_eq_ok hnum.tail hcondition
    obtain ⟨hpasses₂, hok⟩ := (hbody _).insideLoop (hnum.tail.of_passes hpasses) hblock
    rw [hpasses.tables_eq] at hok
    exact ⟨.passes_trans ((Reader.Passes.tail r).trans hpasses) hpasses₂, hwritten, hok⟩
  · rw [run_bind_of_ok (run_advance r)] at h
    obtain ⟨_, r₁, hopen, h⟩ := run_bind_eq_ok.1 h
    obtain ⟨start, r₂, hstart, h⟩ := run_bind_eq_ok.1 h
    obtain ⟨condition, r₃, hcondition, h⟩ := run_bind_eq_ok.1 h
    obtain ⟨increment, r₄, hincrement, h⟩ := run_bind_eq_ok.1 h
    obtain ⟨block, r₅, hblock, h⟩ := run_bind_eq_ok.1 h
    cases h
    have hpasses := (Reader.Passes.tail r).trans ((Moves.expect ..).passes hopen)
    obtain ⟨hpasses₂, hok⟩ := Admits.forLoop r.next.loc (hbody _) (hnum.of_passes hpasses) hstart hcondition
      hincrement hblock
    rw [hpasses.tables_eq, hpasses.loopDepth_eq] at hok
    exact ⟨.passes_trans hpasses hpasses₂, hok⟩
  · rw [run_bind_of_ok (run_advance r)] at h
    obtain ⟨hpasses, hok⟩ := Admits.jump (fun _ _ _ => rfl) rfl h
    exact ⟨.passes_trans (.tail r) hpasses, hok⟩
  · rw [run_bind_of_ok (run_advance r)] at h
    obtain ⟨hpasses, hok⟩ := Admits.jump (fun _ _ _ => rfl) rfl h
    exact ⟨.passes_trans (.tail r) hpasses, hok⟩
  · exact Admits.stepStatement hnum h
  · exact Admits.stepStatement hnum h
  · next name hname => exact Admits.assignmentOrExpression hname hnum h
  · split at h
    · obtain ⟨decl, r₁, hdecl, h⟩ := run_bind_eq_ok.1 h
      cases h
      exact run_variableDeclaration_eq_ok hnum hdecl
    · cases h

end Productions

/-- The four productions of statements, each from those of less depth. -/
theorem Admits.statements (depth : Nat) :
    Admits Statement.localsOf Statement.AllAdmissible (statements depth) ∧
      Admits Statement.locals Statement.Admissible (statement depth) ∧
      (∀ context, Admits Statement.localsOf Statement.AllAdmissible (body depth context)) ∧
      Admits Alternative.locals Alternative.Admissible (alternative depth) := by
  induction depth with
  | zero => exact ⟨⟨fun _ h => by cases h⟩, ⟨fun _ h => by cases h⟩, fun _ => ⟨fun _ h => by cases h⟩,
      ⟨fun _ h => by cases h⟩⟩
  | succ depth ih =>
    obtain ⟨hstatements, hstatement, hbody, halternative⟩ := ih
    exact ⟨statements_succ hstatements hstatement, statement_succ hbody halternative,
      body_succ hstatements hstatement, alternative_succ hbody halternative⟩

theorem Admits.block : Admits Statement.localsOf Statement.AllAdmissible block := by
  constructor
  intro r r' ss hnum h
  rw [Grammar.block, run_bind_of_ok (EStateM.run_get r)] at h
  exact (statements _).1.of_ok hnum h

end ClockedC.Grammar
