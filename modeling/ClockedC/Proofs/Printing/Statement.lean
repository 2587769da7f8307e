import ClockedC.Proofs.Printing.Variable

/-!
# Admissible statements are read back

A statement that is admissible where it stands is read back from its lexemes, up to locations, and leaves in sight the
arrays it declares. The depth that reading needs is at most the number of the lexemes.
-/

namespace ClockedC

variable {e : Expr} {arrays : ArraySizes}

/-! ## First lexemes -/

/-- Whether a statement may begin with a lexeme. -/
def Lexeme.startsStatement : Lexeme → Bool
  | .identifier _ => true
  | .keyword .returnWord => true
  | .keyword .ifWord => true
  | .keyword .whileWord => true
  | .keyword .forWord => true
  | .keyword .breakWord => true
  | .keyword .continueWord => true
  | l => Grammar.startsVariable l

/-! ## Expressions that begin with a name -/

/-- An expression that begins with a name begins with a place or a call, and an operator follows if anything does. -/
theorem Expr.exists_lexemes_of_startsWithName (h : e.startsWithName) (he : e.Written arrays) :
    ∃ (first : Expr) (rest : List Lexeme), e.lexemes = first.lexemes ++ rest ∧ first.Written arrays ∧
      (first.isPlace ∨ ∃ name ls, first.lexemes = .identifier name :: .symbol .openParen :: ls) ∧
      ∀ l ∈ rest.head?, ∃ op : Operator, l = .symbol op.symbol := by
  induction e with
  | ident name loc => exact ⟨_, [], (List.append_nil _).symm, he, .inl rfl, by simp⟩
  | field base name loc ih => exact ⟨_, [], (List.append_nil _).symm, he, .inl rfl, by simp⟩
  | element base index loc ihb ihi => exact ⟨_, [], (List.append_nil _).symm, he, .inl rfl, by simp⟩
  | call name args loc ih =>
    refine ⟨_, [], (List.append_nil _).symm, he,
      .inr ⟨name, commaJoined (lexemesAll args) ++ [.symbol .closeParen], ?_⟩, by simp⟩
    rw [lexemes]
    rfl
  | binary op left right loc ihl ihr =>
    rw [startsWithName, Bool.and_eq_true] at h
    obtain ⟨first, rest, hlexemes, hfirst, hform, hrest⟩ := ihl h.2 ⟨he.canonical.1, he.inBounds.1⟩
    refine ⟨first, rest ++ .symbol op.symbol :: right.lexemesFrom (op.precedence + 1), ?_, hfirst, hform, ?_⟩
    · rw [lexemes, grouped, if_pos h.1, hlexemes, List.append_assoc]
      rfl
    · cases rest with
      | nil => simp
      | cons l ls => simpa using hrest
  | _ => simp [startsWithName] at h

/-- An expression that begins with a name is written with the name in front. -/
theorem Expr.exists_lexemes_eq_identifier (h : e.startsWithName) (he : e.Written arrays) :
    ∃ name ls, e.lexemes = .identifier name :: ls := by
  obtain ⟨first, rest, hlexemes, hfirst, hplace | ⟨name, ls, hcall⟩, -⟩ := e.exists_lexemes_of_startsWithName h he
  · obtain ⟨name, ls, hls, -⟩ := Grammar.exists_lexemes_of_isPlace hfirst hplace
    exact ⟨name, _, by rw [hlexemes, hls]; rfl⟩
  · exact ⟨name, _, by rw [hlexemes, hcall]; rfl⟩

/-- An assignment begins with a name. -/
theorem Assignment.exists_lexemes_eq_cons {a : Assignment} (h : a.Admissible arrays) :
    ∃ name ls, a.lexemes = .identifier name :: ls := by
  obtain ⟨name, ls, hls, -⟩ := Grammar.exists_lexemes_of_isPlace h.target h.isPlace
  exact ⟨name, _, by rw [lexemes, hls]; rfl⟩

namespace Grammar

variable {r : Reader} {tail : List Token}

/-- Neither an operator nor a semicolon goes on with a place or makes an assignment of it. -/
theorem next_leaves_place (r : Reader) (tail : List Token) {rest : List Lexeme}
    (hrest : ∀ l ∈ rest.head?, ∃ op : Operator, l = .symbol op.symbol) :
    let next := (r.withRest (tokensOf rest ++ ⟨.symbol .semicolon, .nowhere⟩ :: tail)).next.lexeme
    next.extendsName = false ∧ stepOperator? next = none ∧ next ≠ .symbol .assign := by
  cases rest with
  | nil => exact ⟨rfl, rfl, by simp⟩
  | cons l ls =>
    obtain ⟨op, rfl⟩ := hrest l rfl
    cases op <;> exact ⟨rfl, rfl, by simp [Operator.symbol]⟩

theorem run_expressionStatement_lexemes (he : e.Written r.tables.arrays) :
    expressionStatement.run (r.withRest (tokensOf e.lexemes ++ ⟨.symbol .semicolon, .nowhere⟩ :: tail)) =
      .ok (.evaluate e.unlocated) (r.withRest tail) := by
  rw [expressionStatement, run_bind_of_ok (run_expression_lexemes he rfl), run_bind_of_ok (run_expect_cons ..)]
  rfl

/-- An expression that begins with a name is read back as a statement. Where it begins with a place, the place is read
first and taken back. -/
theorem run_assignmentOrExpression_evaluate (h : e.startsWithName) (he : e.Written r.tables.arrays) :
    assignmentOrExpression.run (r.withRest (tokensOf e.lexemes ++ ⟨.symbol .semicolon, .nowhere⟩ :: tail)) =
      .ok (.evaluate e.unlocated) (r.withRest tail) := by
  have hstatement : expressionStatement.run
      (r.withRest (tokensOf e.lexemes ++ ⟨.symbol .semicolon, .nowhere⟩ :: tail)) =
      .ok (.evaluate e.unlocated) (r.withRest tail) := run_expressionStatement_lexemes he
  obtain ⟨first, rest, hlexemes, hfirst, hform, hrest⟩ := e.exists_lexemes_of_startsWithName h he
  rw [assignmentOrExpression, run_bind_of_ok (EStateM.run_get _), run_bind_of_ok (run_lexemeAhead 1 _)]
  rcases hform with hplace | ⟨name, ls, hcall⟩
  · -- the place is read, nothing is assigned to it, and reading starts again in front of it
    rw [hlexemes, tokensOf_append, List.append_assoc] at hstatement ⊢
    obtain ⟨hfollows, hstep, hassign⟩ := next_leaves_place r tail hrest
    rw [if_neg (ahead_one_ne_openParen hfirst hplace hfollows),
      run_bind_of_ok (run_place_lexemes hfirst hplace hfollows), run_bind_of_ok (run_current _), hstep]
    dsimp only
    rw [run_bind_of_ok (run_accept_of_ne hassign)]
    simp only [Bool.false_eq_true, if_false]
    rw [run_bind_of_ok (EStateM.run_modify ..)]
    exact hstatement
  · have hparen : ((r.withRest (tokensOf e.lexemes ++ ⟨.symbol .semicolon, .nowhere⟩ :: tail)).ahead 1).lexeme =
        .symbol .openParen := by
      rw [hlexemes, hcall]
      rfl
    rw [if_pos hparen, hstatement]

/-! ## Assignments -/

/-- An assignment is read back as a statement. -/
theorem run_assignmentOrExpression_assign {a : Assignment} (ha : a.Admissible r.tables.arrays) :
    assignmentOrExpression.run (r.withRest (tokensOf a.lexemes ++ ⟨.symbol .semicolon, .nowhere⟩ :: tail)) =
      .ok (.assign a.unlocated) (r.withRest tail) := by
  have hloc : (r.withRest (tokensOf a.lexemes ++ ⟨.symbol .semicolon, .nowhere⟩ :: tail)).next.loc = .nowhere := by
    obtain ⟨name, ls, hls⟩ := Assignment.exists_lexemes_eq_cons ha
    rw [hls]
    rfl
  rw [assignmentOrExpression, run_bind_of_ok (EStateM.run_get _), run_bind_of_ok (run_lexemeAhead 1 _), hloc,
    Assignment.lexemes, tokensOf_append, List.append_assoc, tokensOf_cons, List.cons_append]
  rw [if_neg (ahead_one_ne_openParen ha.target ha.isPlace rfl),
    run_bind_of_ok (run_place_lexemes ha.target ha.isPlace rfl), run_bind_of_ok (run_current _)]
  simp only [Reader.next_withRest_cons, stepOperator?]
  rw [run_bind_of_ok (run_accept_cons ..)]
  simp only [if_true]
  rw [run_bind_of_ok (run_expression_lexemes ha.value rfl), run_bind_of_ok (run_expect_cons ..)]
  rfl

/-- An assignment is read back as the step of a loop. -/
theorem run_step_lexemes {a : Assignment} (ha : a.Admissible r.tables.arrays)
    (hends : (r.withRest tail).next.lexeme.endsExpression) :
    step.run (r.withRest (tokensOf a.lexemes ++ tail)) = .ok a.unlocated (r.withRest tail) := by
  have hnext : ∃ name, (r.withRest (tokensOf a.lexemes ++ tail)).next = ⟨.identifier name, .nowhere⟩ := by
    obtain ⟨name, ls, hls⟩ := Assignment.exists_lexemes_eq_cons ha
    rw [hls]
    exact ⟨name, rfl⟩
  obtain ⟨name, hname⟩ := hnext
  rw [step, run_bind_of_ok (run_current _), hname]
  simp only [stepOperator?]
  rw [Assignment.lexemes, tokensOf_append, List.append_assoc, tokensOf_cons, List.cons_append,
    run_bind_of_ok (run_place_lexemes ha.target ha.isPlace rfl), run_bind_of_ok (run_current _)]
  simp only [Reader.next_withRest_cons]
  rw [run_bind_of_ok (run_accept_cons ..)]
  simp only [if_true]
  rw [run_bind_of_ok (run_expression_lexemes ha.value hends)]
  rfl

/-! ## Heads of loops and branches -/

/-- What is given back is read back, also if it is nothing. -/
theorem run_returned_lexemes {value : Option Expr} (h : ∀ e ∈ value, e.Written r.tables.arrays) (loc : Location) :
    (returned loc).run (r.withRest (tokensOf (conditionLexemes value) ++ ⟨.symbol .semicolon, .nowhere⟩ :: tail)) =
      .ok (.giveBack (value.map Expr.unlocated) loc) (r.withRest tail) := by
  cases value with
  | none =>
    rw [returned, conditionLexemes, tokensOf_nil, List.nil_append, run_bind_of_ok (run_accept_cons ..)]
    rfl
  | some e =>
    have hnext := e.next_ne_of_not_startsExpression (l := .symbol .semicolon) rfl r
      (⟨.symbol .semicolon, .nowhere⟩ :: tail)
    rw [returned, conditionLexemes, run_bind_of_ok (run_accept_of_ne hnext)]
    simp only [Bool.false_eq_true, if_false]
    rw [run_bind_of_ok (run_expression_lexemes (h e rfl) rfl), run_bind_of_ok (run_expect_cons ..)]
    rfl

/-- The condition of a `for` loop is read back, also if it is missing. -/
theorem run_forCondition_lexemes {condition : Option Expr} (h : ∀ e ∈ condition, e.Written r.tables.arrays) :
    forCondition.run (r.withRest (tokensOf (conditionLexemes condition) ++ ⟨.symbol .semicolon, .nowhere⟩ :: tail)) =
      .ok (condition.map Expr.unlocated) (r.withRest tail) := by
  cases condition with
  | none =>
    rw [forCondition, conditionLexemes, tokensOf_nil, List.nil_append, run_bind_of_ok (run_nextIs ..)]
    rfl
  | some e =>
    have hnext := e.next_ne_of_not_startsExpression (l := .symbol .semicolon) rfl r
      (⟨.symbol .semicolon, .nowhere⟩ :: tail)
    rw [forCondition, conditionLexemes, run_bind_of_ok (run_nextIs ..)]
    simp only [hnext, decide_false, Bool.false_eq_true, if_false]
    rw [run_bind_of_ok (run_map_eq_ok.2 ⟨_, run_expression_lexemes (h e rfl) rfl, rfl⟩),
      run_bind_of_ok (run_expect_cons ..)]
    rfl

/-- The step of a `for` loop is read back, also if it is missing. -/
theorem run_forStep_lexemes {increment : Option Assignment} (h : ∀ a ∈ increment, a.Admissible r.tables.arrays) :
    forStep.run (r.withRest (tokensOf (stepLexemes increment) ++ ⟨.symbol .closeParen, .nowhere⟩ :: tail)) =
      .ok (increment.map Assignment.unlocated) (r.withRest tail) := by
  cases increment with
  | none =>
    rw [forStep, stepLexemes, tokensOf_nil, List.nil_append, run_bind_of_ok (run_nextIs ..)]
    rfl
  | some a =>
    have hnext : (r.withRest (tokensOf a.lexemes ++ ⟨.symbol .closeParen, .nowhere⟩ :: tail)).next.lexeme ≠
        .symbol .closeParen := by
      obtain ⟨name, ls, hls⟩ := Assignment.exists_lexemes_eq_cons (h a rfl)
      rw [hls]
      simp
    rw [forStep, stepLexemes, run_bind_of_ok (run_nextIs ..)]
    simp only [hnext, decide_false, Bool.false_eq_true, if_false]
    rw [run_bind_of_ok (run_map_eq_ok.2 ⟨_, run_step_lexemes (h a rfl) rfl, rfl⟩), run_bind_of_ok (run_expect_cons ..)]
    rfl

/-- A condition in parentheses is read back. -/
theorem run_parenthesisedCondition_lexemes {condition : Expr} (h : condition.Written r.tables.arrays)
    (keyword construct : String) :
    (parenthesisedCondition keyword construct).run (r.withRest (tokensOf (parenthesised condition.lexemes) ++ tail)) =
      .ok condition.unlocated (r.withRest tail) := by
  simp only [parenthesised, tokensOf_cons, tokensOf_append, tokensOf_nil, List.cons_append, List.append_assoc,
    List.nil_append]
  rw [parenthesisedCondition, run_bind_of_ok (run_expect_cons ..), run_bind_of_ok (run_expression_lexemes h rfl),
    run_bind_of_ok (run_expect_cons ..)]
  rfl

/-- What stands before the first round is read back. -/
theorem run_forStart_lexemes {s : Statement} {inLoop : Prop} (hs : s.isForStart)
    (h : s.Admissible r.tables.structs inLoop r.tables.arrays) :
    forStart.run (r.withRest (tokensOf s.lexemes ++ tail)) =
      .ok (some s.unlocated) ((r.declaring s.locals).withRest tail) := by
  cases s with
  | declare decl =>
    have hdecl : decl.Admissible r.tables.structs r.tables.arrays := h
    obtain ⟨l, ls, hls, hl⟩ := decl.exists_lexemes_eq_cons hdecl.ne_void
    have hnext : (r.withRest (tokensOf decl.lexemes ++ tail)).next.lexeme = l := by
      rw [hls]
      rfl
    have hsemicolon : (r.withRest (tokensOf decl.lexemes ++ tail)).next.lexeme ≠ .symbol .semicolon := by
      rw [hnext]
      rintro rfl
      cases hl
    rw [Statement.lexemes, forStart, run_bind_of_ok (run_current _), run_bind_of_ok (run_accept_of_ne hsemicolon),
      hnext]
    simp only [Bool.false_eq_true, if_false, hl, if_true]
    rw [run_bind_of_ok (run_variableDeclaration_lexemes hdecl)]
    rfl
  | assign a =>
    have ha : a.Admissible r.tables.arrays := h
    -- a name begins neither a declaration nor an empty start
    obtain ⟨name, ls, hls⟩ := Assignment.exists_lexemes_eq_cons ha
    have hnext : (r.withRest (tokensOf (Statement.assign a).lexemes ++ tail)).next = ⟨.identifier name, .nowhere⟩ := by
      rw [Statement.lexemes, hls]
      rfl
    rw [forStart, run_bind_of_ok (run_current _), run_bind_of_ok (run_accept_of_ne (by simp [hnext])), hnext]
    simp only [Bool.false_eq_true, if_false, startsVariable]
    simp only [Statement.lexemes, Assignment.lexemes, tokensOf_append, tokensOf_cons, tokensOf_nil, List.append_assoc,
      List.cons_append, List.nil_append]
    rw [run_bind_of_ok (run_place_lexemes ha.target ha.isPlace rfl), run_bind_of_ok (run_expect_cons ..),
      run_bind_of_ok (run_expression_lexemes ha.value rfl), run_bind_of_ok (run_expect_cons ..)]
    rfl
  | _ => simp [Statement.isForStart] at hs

end Grammar

/-- An admissible statement begins with a lexeme that begins statements. -/
theorem Statement.exists_lexemes_eq_cons {structs : Layouts} {inLoop : Prop} {s : Statement}
    (h : s.Admissible structs inLoop arrays) : ∃ l ls, s.lexemes = l :: ls ∧ l.startsStatement := by
  cases s with
  | declare decl =>
    have hdecl : decl.Admissible structs arrays := h
    obtain ⟨l, ls, hls, hl⟩ := decl.exists_lexemes_eq_cons hdecl.ne_void
    refine ⟨l, ls, by rw [lexemes, hls], ?_⟩
    cases l with
    | keyword k => cases k <;> first | rfl | cases hl
    | _ => cases hl
  | assign a =>
    obtain ⟨name, ls, hls⟩ := Assignment.exists_lexemes_eq_cons h
    exact ⟨_, _, by rw [lexemes, hls]; rfl, rfl⟩
  | evaluate e =>
    obtain ⟨name, ls, hls⟩ := e.exists_lexemes_eq_identifier h.1 h.2
    exact ⟨_, _, by rw [lexemes, hls]; rfl, rfl⟩
  | forLoop start condition step body loc => cases start <;> exact ⟨_, _, by rw [lexemes], rfl⟩
  | _ => exact ⟨_, _, by rw [lexemes], rfl⟩

namespace Grammar

variable {r : Reader} {tail : List Token}

/-! ## Loops -/

/-- The body of a loop is read back one loop deeper. -/
theorem run_insideLoop_of_ok {α : Type} {p : ReadM α} {a : α} {decls : List Variable} {ts : List Token}
    (h : p.run (({ r with loopDepth := r.loopDepth + 1 } : Reader).withRest ts) =
      .ok a ((({ r with loopDepth := r.loopDepth + 1 } : Reader).declaring decls).withRest tail)) :
    (insideLoop p).run (r.withRest ts) = .ok a ((r.declaring decls).withRest tail) := by
  have hrun : p { r.withRest ts with loopDepth := (r.withRest ts).loopDepth + 1 } =
      .ok a ((({ r with loopDepth := r.loopDepth + 1 } : Reader).declaring decls).withRest tail) := h
  rw [EStateM.run, insideLoop, hrun]
  rfl

/-! ## Productions -/

/-- A step reads admissible syntax of less than `bound` lexemes back, in front of what may follow it, and leaves its
declarations in sight. -/
structure Restores {α : Type} (lexemes : α → List Lexeme) (unlocated : α → α) (locals : α → List Variable)
    (Ok : Layouts → Prop → ArraySizes → α → Prop) (Follow : Lexeme → Prop) (bound : Nat) (p : ReadM α) : Prop where
  run_lexemes : ∀ {r : Reader} {tail : List Token} {a : α},
    Ok r.tables.structs (r.loopDepth ≠ 0) r.tables.arrays a → Follow (r.withRest tail).next.lexeme →
    (lexemes a).length < bound →
    p.run (r.withRest (tokensOf (lexemes a) ++ tail)) = .ok (unlocated a) ((r.declaring (locals a)).withRest tail)

/-- A list of statements is read back up to its closing brace. -/
def RestoresStatements (depth : Nat) : Prop :=
  Restores Statement.listLexemes (List.map Statement.unlocated) Statement.localsOf Statement.AllAdmissible
    (· = .symbol .closeBrace) depth (statements depth)

/-- A statement is read back, in front of anything but `else`. -/
def RestoresStatement (depth : Nat) : Prop :=
  Restores Statement.lexemes Statement.unlocated Statement.locals Statement.Admissible
    (· ≠ .keyword .elseWord) (depth + 1) (statement depth)

/-- A body is read back from its lexemes in braces. -/
def RestoresBody (depth : Nat) : Prop :=
  ∀ context, Restores (fun ss => braced (Statement.listLexemes ss)) (List.map Statement.unlocated) Statement.localsOf
    Statement.AllAdmissible (fun _ => True) (depth + 1) (body depth context)

/-- The arms of a branch are read back, in front of anything but `else`. -/
def RestoresAlternative (depth : Nat) : Prop :=
  Restores Alternative.lexemes Alternative.unlocated Alternative.locals Alternative.Admissible
    (· ≠ .keyword .elseWord) depth (alternative depth)

section Productions

variable {depth : Nat}

/-- Bodies are read back if the statements in them are. -/
theorem RestoresBody.succ (hstatements : RestoresStatements depth) : RestoresBody (depth + 1) := by
  intro context
  constructor
  intro r tail ss hok _ hlength
  simp only [braced, List.cons_append, List.length_cons, List.length_append, List.length_nil] at hlength
  have hclose : (r.withRest (⟨.symbol .closeBrace, .nowhere⟩ :: tail)).next.lexeme = .symbol .closeBrace := rfl
  have hinner := hstatements.run_lexemes hok hclose (by omega)
  simp only [braced, tokensOf_cons, tokensOf_append, tokensOf_nil, List.cons_append, List.append_assoc, List.nil_append]
  rw [body, bodyBy, run_bind_of_ok (run_accept_cons ..)]
  simp only [if_true]
  rw [run_bind_of_ok hinner, run_bind_of_ok (run_expect_cons ..)]
  rfl

/-- The body of a loop is read back inside of the loop. -/
theorem RestoresBody.run_insideLoop (hbody : RestoresBody depth) {ss : List Statement}
    (hok : Statement.AllAdmissible r.tables.structs True r.tables.arrays ss)
    (hlength : (braced (Statement.listLexemes ss)).length ≤ depth) (context : String) :
    (insideLoop (body depth context)).run (r.withRest (tokensOf (braced (Statement.listLexemes ss)) ++ tail)) =
      .ok (ss.map Statement.unlocated) ((r.declaring (Statement.localsOf ss)).withRest tail) := by
  apply run_insideLoop_of_ok
  -- one more loop is open, so that jumps are allowed whatever stands around it
  have htrue : (r.loopDepth + 1 ≠ 0) = True := by simp
  rw [← htrue] at hok
  exact (hbody context).run_lexemes hok trivial (Nat.lt_succ_of_le hlength)

/-- Where a statement begins, a statement is read, and then the others. -/
theorem run_statements_of_startsStatement (h : r.next.lexeme.startsStatement) :
    (statements (depth + 1)).run r =
      (do
        let first ← statement depth
        return first :: (← statements depth)).run r := by
  rw [statements, statementsBy, run_bind_of_ok (run_current r)]
  split
  case h_5 => rfl
  all_goals
    next hl =>
    rw [hl] at h
    cases h

/-- Statements that are written do not begin with `else`. -/
theorem next_ne_elseWord {structs : Layouts} {inLoop : Prop} {ss : List Statement}
    (hok : Statement.AllAdmissible structs inLoop arrays ss)
    (hfollow : (r.withRest tail).next.lexeme = .symbol .closeBrace) :
    (r.withRest (tokensOf (Statement.listLexemes ss) ++ tail)).next.lexeme ≠ .keyword .elseWord := by
  cases ss with
  | nil => simp [Statement.listLexemes, hfollow]
  | cons s ss =>
    obtain ⟨l, ls, hls, hl⟩ := Statement.exists_lexemes_eq_cons hok.1
    rw [Statement.listLexemes, hls]
    rintro helse
    rw [show l = .keyword .elseWord from helse] at hl
    cases hl

/-- Statements in a row are read back if each of them is. -/
theorem RestoresStatements.succ (hstatements : RestoresStatements depth) (hstatement : RestoresStatement depth) :
    RestoresStatements (depth + 1) := by
  constructor
  intro r tail ss hok hfollow hlength
  cases ss with
  | nil =>
    rw [statements, statementsBy, run_bind_of_ok (run_current _)]
    simp only [Statement.listLexemes, tokensOf_nil, List.nil_append, hfollow]
    rfl
  | cons s ss =>
    obtain ⟨hs, hss⟩ := hok
    obtain ⟨l, ls, hls, hl⟩ := Statement.exists_lexemes_eq_cons hs
    rw [Statement.listLexemes, List.length_append] at hlength
    have hpos : 0 < s.lexemes.length := by
      rw [hls]
      exact Nat.succ_pos _
    have hstarts : (r.withRest (tokensOf (Statement.listLexemes (s :: ss)) ++ tail)).next.lexeme.startsStatement := by
      rw [Statement.listLexemes, hls]
      exact hl
    -- the statements behind the first are read with its arrays in sight
    have hfirst := hstatement.run_lexemes hs (next_ne_elseWord hss hfollow) (by omega)
    have hrest := hstatements.run_lexemes (r := r.declaring s.locals) hss hfollow (by omega)
    rw [run_statements_of_startsStatement hstarts, Statement.listLexemes, tokensOf_append, List.append_assoc,
      run_bind_of_ok hfirst, run_bind_of_ok hrest]
    simp [Reader.declaring, Reader.withRest]

/-- A condition, the body it guards, and the arms behind them are read back. -/
theorem run_arm_lexemes {α : Type} (hbody : RestoresBody depth) (halternative : RestoresAlternative depth)
    {condition : Expr} {block : List Statement} {rest : Alternative} (hcondition : condition.Written r.tables.arrays)
    (hblock : Statement.AllAdmissible r.tables.structs (r.loopDepth ≠ 0) r.tables.arrays block)
    (hrest : rest.Admissible r.tables.structs (r.loopDepth ≠ 0)
      (r.tables.arrays.declareAll (Statement.localsOf block)))
    (hfollow : (r.withRest tail).next.lexeme ≠ .keyword .elseWord)
    (hlength : (braced (Statement.listLexemes block)).length + rest.lexemes.length < depth)
    (keyword construct context : String) (node : Expr → List Statement → Alternative → α) :
    (do
        let c ← parenthesisedCondition keyword construct
        let b ← body depth context
        return node c b (← alternative depth) : ReadM α).run
        (r.withRest (tokensOf (parenthesised condition.lexemes ++ (braced (Statement.listLexemes block) ++
          rest.lexemes)) ++ tail)) =
      .ok (node condition.unlocated (block.map Statement.unlocated) rest.unlocated)
        ((r.declaring (Statement.localsOf block ++ rest.locals)).withRest tail) := by
  have harms := halternative.run_lexemes (r := r.declaring (Statement.localsOf block)) hrest hfollow (by omega)
  simp only [tokensOf_append, List.append_assoc]
  rw [run_bind_of_ok (run_parenthesisedCondition_lexemes hcondition ..),
    run_bind_of_ok ((hbody context).run_lexemes hblock trivial (by omega)), run_bind_of_ok harms]
  simp [Reader.declaring, Reader.withRest]

/-- Further arms are read back if their bodies and the arms behind them are. -/
theorem RestoresAlternative.succ (hbody : RestoresBody depth) (halternative : RestoresAlternative depth) :
    RestoresAlternative (depth + 1) := by
  constructor
  intro r tail alt hok hfollow hlength
  cases alt with
  | nothing =>
    rw [alternative, alternativeBy, Alternative.lexemes, tokensOf_nil, List.nil_append,
      run_bind_of_ok (run_acceptKeyword_of_ne hfollow)]
    rfl
  | elseIf condition block rest =>
    obtain ⟨hcondition, hblock, hrest⟩ := hok
    simp only [Alternative.lexemes, List.length_cons, List.length_append, parenthesised] at hlength
    have harm := run_arm_lexemes hbody halternative hcondition hblock hrest hfollow (by omega) "else if" "else if"
      "after else if body" Alternative.elseIf
    rw [alternative, alternativeBy, Alternative.lexemes, tokensOf_cons, tokensOf_cons, List.cons_append,
      List.cons_append,
      run_bind_of_ok (run_acceptKeyword_cons ..)]
    simp only [if_true]
    rw [run_bind_of_ok (run_acceptKeyword_cons ..)]
    simp only [if_true]
    rw [harm]
    simp [Alternative.unlocated, Alternative.locals]
  | otherwise block =>
    simp only [Alternative.lexemes, List.length_cons] at hlength
    rw [alternative, alternativeBy, Alternative.lexemes, tokensOf_cons, List.cons_append,
      run_bind_of_ok (run_acceptKeyword_cons ..)]
    simp only [if_true]
    rw [run_bind_of_ok (run_acceptKeyword_of_ne (by simp [braced]))]
    simp only [Bool.false_eq_true, if_false]
    rw [run_bind_of_ok ((hbody _).run_lexemes hok trivial (by omega))]
    simp [Alternative.unlocated, Alternative.locals]

/-- Where a type begins, a declaration is read. -/
theorem run_statement_of_startsVariable (h : startsVariable r.next.lexeme) :
    (statement (depth + 1)).run r = (Statement.declare <$> variableDeclaration).run r := by
  rw [statement, statementBy, run_bind_of_ok (run_current r)]
  split
  case h_10 => rw [if_pos h, map_eq_pure_bind]
  all_goals
    next hl =>
    rw [hl] at h
    cases h

/-- Where a name begins, an assignment or an expression is read. -/
theorem run_statement_of_identifier {name : String} (h : r.next.lexeme = .identifier name) :
    (statement (depth + 1)).run r = assignmentOrExpression.run r := by
  rw [statement, statementBy, run_bind_of_ok (run_current r)]
  simp only [h]

theorem run_requireLoop_of_ne {keyword : Keyword} {loc : Location} {ts : List Token} (h : r.loopDepth ≠ 0) :
    (requireLoop keyword loc).run (r.withRest ts) = .ok () (r.withRest ts) := by
  rw [requireLoop, run_bind_of_ok (EStateM.run_get _), Reader.loopDepth_withRest, if_neg h]
  rfl

/-- The clauses of a `for` loop behind the first, and its body, are read back. -/
theorem run_forRest_lexemes {α : Type} (hbody : RestoresBody depth) {condition : Option Expr}
    {increment : Option Assignment} {block : List Statement} (hcondition : ∀ e ∈ condition, e.Written r.tables.arrays)
    (hincrement : ∀ a ∈ increment, a.Admissible r.tables.arrays)
    (hblock : Statement.AllAdmissible r.tables.structs True r.tables.arrays block)
    (hlength : (braced (Statement.listLexemes block)).length ≤ depth) (context : String)
    (node : Option Expr → Option Assignment → List Statement → α) :
    (do
        let c ← forCondition
        let i ← forStep
        let b ← insideLoop (body depth context)
        return node c i b : ReadM α).run
        (r.withRest (tokensOf (conditionLexemes condition ++ .symbol .semicolon :: (stepLexemes increment ++
          .symbol .closeParen :: braced (Statement.listLexemes block))) ++ tail)) =
      .ok (node (condition.map Expr.unlocated) (increment.map Assignment.unlocated) (block.map Statement.unlocated))
        ((r.declaring (Statement.localsOf block)).withRest tail) := by
  simp only [tokensOf_append, tokensOf_cons, List.append_assoc, List.cons_append]
  rw [run_bind_of_ok (run_forCondition_lexemes hcondition), run_bind_of_ok (run_forStep_lexemes hincrement),
    run_bind_of_ok (hbody.run_insideLoop hblock hlength _)]
  rfl

/-- A `for` loop is read back, whether anything is done before its first round or not. -/
theorem run_forLoop_lexemes (hbody : RestoresBody depth) {start : Option Statement} {condition : Option Expr}
    {increment : Option Assignment} {block : List Statement} {loc : Location}
    (hok : (Statement.forLoop start condition increment block loc).Admissible r.tables.structs (r.loopDepth ≠ 0)
      r.tables.arrays)
    (hlength : (Statement.forLoop start condition increment block loc).lexemes.length ≤ depth + 1) :
    (statement (depth + 1)).run
        (r.withRest (tokensOf (Statement.forLoop start condition increment block loc).lexemes ++ tail)) =
      .ok (Statement.forLoop start condition increment block loc).unlocated
        ((r.declaring (Statement.forLoop start condition increment block loc).locals).withRest tail) := by
  cases start with
  | none =>
    obtain ⟨hcondition, hincrement, hblock⟩ := hok
    simp only [Statement.lexemes, List.length_cons, List.length_append] at hlength
    rw [Statement.lexemes, tokensOf_cons, tokensOf_cons, tokensOf_cons, List.cons_append, List.cons_append,
      List.cons_append, statement, statementBy, run_bind_of_ok (run_current _)]
    simp only [Reader.next_withRest_cons]
    rw [run_bind_of_ok (run_advance_cons ..), forBy, run_bind_of_ok (run_expect_cons ..)]
    have hstart : ∀ ts, forStart.run (r.withRest (⟨.symbol .semicolon, .nowhere⟩ :: ts)) =
        .ok none (r.withRest ts) := by
      intro ts
      rw [forStart, run_bind_of_ok (run_current _), run_bind_of_ok (run_accept_cons ..)]
      rfl
    rw [run_bind_of_ok (hstart _),
      run_forRest_lexemes hbody hcondition hincrement hblock (by omega) "after for body"
        fun c i b => Statement.forLoop none c i b .nowhere]
    simp [Statement.unlocated, Statement.locals]
  | some s =>
    -- behind the start, everything is read with its variable in sight
    obtain ⟨hs, hok, hcondition, hincrement, hblock⟩ := hok
    simp only [Statement.lexemes, List.length_cons, List.length_append] at hlength
    rw [Statement.lexemes, tokensOf_cons, tokensOf_cons, List.cons_append, List.cons_append, statement,
      statementBy, run_bind_of_ok (run_current _)]
    simp only [Reader.next_withRest_cons]
    rw [run_bind_of_ok (run_advance_cons ..), forBy, run_bind_of_ok (run_expect_cons ..), tokensOf_append,
      List.append_assoc, run_bind_of_ok (run_forStart_lexemes hs hok),
      run_forRest_lexemes (r := r.declaring s.locals) hbody hcondition hincrement hblock (by omega) "after for body"
        fun c i b => Statement.forLoop (some s.unlocated) c i b .nowhere]
    simp [Statement.unlocated, Statement.locals, Reader.declaring, Reader.withRest]

/-- Statements are read back if the bodies and arms in them are. -/
theorem RestoresStatement.succ (hbody : RestoresBody depth) (halternative : RestoresAlternative depth) :
    RestoresStatement (depth + 1) := by
  constructor
  intro r tail s hok hfollow hlength
  -- the production that reads a statement back is chosen by the first lexeme it is written with
  cases s with
  | declare decl =>
    have hdecl : decl.Admissible r.tables.structs r.tables.arrays := hok
    obtain ⟨l, ls, hls, hl⟩ := decl.exists_lexemes_eq_cons hdecl.ne_void
    have hnext : (r.withRest (tokensOf decl.lexemes ++ tail)).next.lexeme = l := by
      rw [hls]
      rfl
    rw [Statement.lexemes, run_statement_of_startsVariable (by rw [hnext]; exact hl)]
    exact run_map_eq_ok.2 ⟨_, run_variableDeclaration_lexemes hdecl, rfl⟩
  | assign a =>
    have ha : a.Admissible r.tables.arrays := hok
    obtain ⟨name, ls, hls⟩ := Assignment.exists_lexemes_eq_cons ha
    have hnext : (r.withRest (tokensOf (Statement.assign a).lexemes ++ tail)).next.lexeme = .identifier name := by
      rw [Statement.lexemes, hls]
      rfl
    rw [run_statement_of_identifier hnext, Statement.lexemes, tokensOf_append, List.append_assoc]
    exact run_assignmentOrExpression_assign ha
  | branch condition block alternative loc =>
    obtain ⟨hcondition, hblock, hrest⟩ := hok
    simp only [Statement.lexemes, List.length_cons, List.length_append, parenthesised] at hlength
    rw [Statement.lexemes, tokensOf_cons, List.cons_append, statement, statementBy, run_bind_of_ok (run_current _)]
    simp only [Reader.next_withRest_cons]
    rw [run_bind_of_ok (run_advance_cons ..), branchBy,
      run_arm_lexemes hbody halternative hcondition hblock hrest hfollow (by omega) "if" "if" "after if body"
        fun c b rest => Statement.branch c b rest .nowhere]
    simp [Statement.unlocated, Statement.locals]
  | whileLoop condition block loc =>
    obtain ⟨hcondition, hblock⟩ := hok
    simp only [Statement.lexemes, List.length_cons, List.length_append, parenthesised] at hlength
    rw [Statement.lexemes, tokensOf_cons, List.cons_append, statement, statementBy, run_bind_of_ok (run_current _)]
    simp only [Reader.next_withRest_cons]
    rw [run_bind_of_ok (run_advance_cons ..), whileBy, tokensOf_append, List.append_assoc,
      run_bind_of_ok (run_parenthesisedCondition_lexemes hcondition ..),
      run_bind_of_ok (hbody.run_insideLoop hblock (by omega) _)]
    simp [Statement.unlocated, Statement.locals]
  | forLoop start condition increment block loc => exact run_forLoop_lexemes hbody hok (Nat.le_of_lt_succ hlength)
  | giveBack value loc =>
    simp only [Statement.lexemes, tokensOf_cons, tokensOf_append, tokensOf_nil, List.cons_append, List.append_assoc,
      List.nil_append]
    rw [statement, statementBy, run_bind_of_ok (run_current _)]
    simp only [Reader.next_withRest_cons]
    rw [run_bind_of_ok (run_advance_cons ..), run_returned_lexemes hok]
    rfl
  | leaveLoop loc | nextRound loc =>
    simp only [Statement.lexemes, tokensOf_cons, tokensOf_nil, List.cons_append, List.nil_append]
    rw [statement, statementBy, run_bind_of_ok (run_current _)]
    simp only [Reader.next_withRest_cons]
    rw [run_bind_of_ok (run_advance_cons ..), run_bind_of_ok (run_requireLoop_of_ne hok),
      run_bind_of_ok (run_expect_cons ..)]
    rfl
  | evaluate e =>
    obtain ⟨hname, hwritten⟩ := hok
    have hnext : ∃ name, (r.withRest (tokensOf (Statement.evaluate e).lexemes ++ tail)).next.lexeme =
        .identifier name := by
      obtain ⟨name, ls, hls⟩ := e.exists_lexemes_eq_identifier hname hwritten
      rw [Statement.lexemes, hls]
      exact ⟨name, rfl⟩
    obtain ⟨name, hnext⟩ := hnext
    rw [run_statement_of_identifier hnext, Statement.lexemes, tokensOf_append, List.append_assoc]
    exact run_assignmentOrExpression_evaluate hname hwritten

end Productions

/-- The four productions of statements, each from those of less depth. -/
theorem restores_statements (depth : Nat) :
    RestoresStatements depth ∧ RestoresStatement depth ∧ RestoresBody depth ∧ RestoresAlternative depth := by
  induction depth with
  | zero =>
    refine ⟨⟨fun _ _ hlength => ?_⟩, ⟨fun hok _ hlength => ?_⟩, fun _ => ⟨fun _ _ hlength => ?_⟩,
      ⟨fun _ _ hlength => ?_⟩⟩
    · exact absurd hlength (Nat.not_lt_zero _)
    · obtain ⟨l, ls, hls, -⟩ := Statement.exists_lexemes_eq_cons hok
      simp [hls] at hlength
    · simp [braced] at hlength
    · exact absurd hlength (Nat.not_lt_zero _)
  | succ depth ih =>
    obtain ⟨hstatements, hstatement, hbody, halternative⟩ := ih
    exact ⟨.succ hstatements hstatement, .succ hbody halternative, .succ hstatements, .succ hbody halternative⟩

/-- The statements of a block are read back up to its closing brace. -/
theorem run_block_lexemes {ss : List Statement}
    (hok : Statement.AllAdmissible r.tables.structs (r.loopDepth ≠ 0) r.tables.arrays ss) :
    block.run (r.withRest (tokensOf (Statement.listLexemes ss) ++ ⟨.symbol .closeBrace, .nowhere⟩ :: tail)) =
      .ok (ss.map Statement.unlocated)
        ((r.declaring (Statement.localsOf ss)).withRest (⟨.symbol .closeBrace, .nowhere⟩ :: tail)) := by
  rw [block, run_bind_of_ok (EStateM.run_get _)]
  apply (restores_statements _).1.run_lexemes hok rfl
  rw [Reader.depth_withRest, List.length_append, length_tokensOf]
  omega

end Grammar

end ClockedC
