import ClockedC.Proofs.Layout.Unlocated
import ClockedC.Proofs.Reading.Steps

/-!
# The grammar does not look at locations

A step `q` mirrors a step `p` if it does on a reader placed nowhere what `p` does on the reader, up to locations.
Mirroring goes through sequences of steps, so every production mirrors itself once the moves from token to token do.
-/

namespace ClockedC.Grammar

variable {α β α' β' : Type}

/-- The outcome of a step with everything in it placed nowhere; `f` places the value. -/
def Outcome.unlocated (f : α → β) :
    EStateM.Result CompileError Reader α → EStateM.Result CompileError Reader β
  | .ok a r => .ok (f a) r.unlocated
  | .error e r => .error e.unlocated r.unlocated

/-- On a reader placed nowhere, `q` has the outcome of `p` up to locations. -/
structure Mirrors (f : α → β) (p : ReadM α) (q : ReadM β) : Prop where
  run_unlocated : ∀ r, q.run r.unlocated = Outcome.unlocated f (p.run r)

namespace Mirrors

/-! ## Sequences of steps -/

theorem bind {f : α → α'} {g : β → β'} {p : ReadM α} {p' : ReadM α'} {k : α → ReadM β}
    {k' : α' → ReadM β'} (hp : Mirrors f p p') (hk : ∀ a, Mirrors g (k a) (k' (f a))) :
    Mirrors g (p >>= k) (p' >>= k') := by
  constructor
  intro r
  rw [EStateM.run_bind, EStateM.run_bind, hp.run_unlocated r]
  cases p.run r with
  | ok a r' => exact (hk a).run_unlocated r'
  | error e r' => rfl

theorem pure {f : α → β} {a : α} {b : β} (h : b = f a) : Mirrors f (Pure.pure a) (Pure.pure b) := by
  constructor
  intro r
  rw [h]
  rfl

/-- What is made of results mirrors each other as the results do. -/
theorem map {f : α → α'} {g : β → β'} {p : ReadM α} {p' : ReadM α'} {k : α → β} {k' : α' → β'}
    (hp : Mirrors f p p') (hk : ∀ a, k' (f a) = g (k a)) : Mirrors g (k <$> p) (k' <$> p') := by
  constructor
  intro r
  rw [EStateM.run_map, EStateM.run_map, hp.run_unlocated r]
  cases p.run r with
  | ok a r' => exact congrArg (EStateM.Result.ok · r'.unlocated) (hk a)
  | error e r' => rfl

/-- Errors mirror each other up to locations. -/
theorem throw (f : α → β) (e : CompileError) : Mirrors f (throw e) (throw e.unlocated) :=
  ⟨fun _ => rfl⟩

theorem get : Mirrors Reader.unlocated get get := ⟨fun _ => rfl⟩

/-- A change of the reader is mirrored by one that does the same up to locations. -/
theorem modify {f f' : Reader → Reader} (h : ∀ r : Reader, f' r.unlocated = (f r).unlocated) :
    Mirrors id (modify f) (modify f') := by
  constructor
  intro r
  rw [EStateM.run_modify, EStateM.run_modify, h]
  rfl

/-- A step that is refused is refused whatever should have followed. -/
theorem refuseDeclaration_bind {g : β → β'} (fault : DeclarationFault) (loc : Location)
    (k : α → ReadM β) (k' : α' → ReadM β') :
    Mirrors g (refuseDeclaration fault loc >>= k) (refuseDeclaration fault .nowhere >>= k') :=
  ⟨fun _ => rfl⟩

/-- A check in front of a step. -/
theorem check {g : β → β'} {c : Prop} [Decidable c] {fault : DeclarationFault} {loc : Location}
    {k : α → ReadM β} {k' : α' → ReadM β'} {p : ReadM β} {p' : ReadM β'} (h : Mirrors g p p') :
    Mirrors g (if c then refuseDeclaration fault loc >>= k else p)
      (if c then refuseDeclaration fault .nowhere >>= k' else p') := by
  split
  · exact refuseDeclaration_bind ..
  · exact h

/-! ## Moves -/

/-- The next token is the same up to its location. -/
theorem current : Mirrors Token.unlocated current current := by
  constructor
  intro r
  rw [run_current, run_current, Reader.next_unlocated]
  rfl

/-- A lexeme has no location. -/
theorem lexemeAhead (n : Nat) : Mirrors id (lexemeAhead n) (lexemeAhead n) := by
  constructor
  intro r
  rw [run_lexemeAhead, run_lexemeAhead, Reader.ahead_unlocated]
  rfl

theorem nextIs (lexeme : Lexeme) : Mirrors id (nextIs lexeme) (nextIs lexeme) :=
  current.bind fun _ => .pure rfl

theorem advance : Mirrors id advance advance := by
  apply modify
  intro r
  simp [Reader.unlocated]

/-- Whether a lexeme is passed is told by the lexeme. -/
theorem acceptLexeme (lexeme : Lexeme) : Mirrors id (acceptLexeme lexeme) (acceptLexeme lexeme) := by
  apply (nextIs lexeme).bind
  intro b
  dsimp only [id]
  split
  · exact advance.bind fun _ => .pure rfl
  · exact .pure rfl

theorem accept (symbol : Symbol) : Mirrors id (accept symbol) (accept symbol) := acceptLexeme _

theorem acceptKeyword (keyword : Keyword) : Mirrors id (acceptKeyword keyword) (acceptKeyword keyword) :=
  acceptLexeme _

/-- What is skipped is told by lexemes. -/
theorem skipPastSemicolon : Mirrors id skipPastSemicolon skipPastSemicolon := by
  apply modify
  intro r
  have h := TokenQueue.dropThrough_unlocated (fun l => decide (l = .symbol .semicolon)) r.queue
  simp only [Reader.unlocated, h]

/-- A fault of the grammar is the same up to its location. -/
theorem refuse (f : α → β) (fault : SyntacticFault) (loc : Location) :
    Mirrors f (refuse fault loc) (refuse fault .nowhere) := throw f (.syntactic fault loc)

/-- A fault of a declaration is the same up to its location. -/
theorem refuseDeclaration (f : α → β) (fault : DeclarationFault) (loc : Location) :
    Mirrors f (refuseDeclaration fault loc) (refuseDeclaration fault .nowhere) :=
  throw f (.declaration fault loc)

theorem refuseDepth (f : α → β) : Mirrors f refuseDepth refuseDepth :=
  current.bind fun _ => refuse ..

/-- A symbol that is expected is told by its lexeme. -/
theorem expect (symbol : Symbol) (context : String) :
    Mirrors id (expect symbol context) (expect symbol context) := by
  apply (accept symbol).bind
  intro b
  dsimp only [id]
  split
  · exact .pure rfl
  · exact current.bind fun _ => refuse ..

/-- A name is told by its lexeme. -/
theorem identifier : Mirrors id identifier identifier := by
  apply current.bind
  intro token
  rw [Token.lexeme_unlocated]
  split
  · exact advance.bind fun _ => .pure rfl
  · exact refuse ..

/-- What does not come from the scanner is noted up to locations. -/
theorem note {event event' : Event} (h : event.later? = some event') :
    Mirrors id (note event) (note event') := by
  apply modify
  intro r
  simp [Reader.unlocated, h]

/-- A warning of the grammar is the same up to its location; those of the scanner are left out. -/
theorem warn (warning : Warning) (loc : Location) (h : warning.category ≠ .lexer) :
    Mirrors id (warn warning loc) (warn warning .nowhere) := by
  have hcategory : (warning.diagnostic loc).category ≠ .lexer := h
  apply (note (by simp [Event.later?, hcategory])).bind
  intro _
  apply modify
  intro r
  have hlater : laterDiagnostics [warning.diagnostic loc] = [warning.diagnostic .nowhere] := by
    simp [laterDiagnostics, hcategory]
  rw [Reader.unlocated, Reader.unlocated, laterDiagnostics_append, hlater]

/-- A loop is opened and closed again around a step. -/
theorem insideLoop {f : α → β} {p : ReadM α} {q : ReadM β} (h : Mirrors f p q) :
    Mirrors f (insideLoop p) (insideLoop q) := by
  constructor
  intro r
  have hrun := h.run_unlocated { r with loopDepth := r.loopDepth + 1 }
  show (match q.run ({ r with loopDepth := r.loopDepth + 1 } : Reader).unlocated with
      | .ok a r => EStateM.Result.ok a { r with loopDepth := r.loopDepth - 1 }
      | .error e r => .error e { r with loopDepth := r.loopDepth - 1 }) =
    Outcome.unlocated f (match p.run { r with loopDepth := r.loopDepth + 1 } with
      | .ok a r => EStateM.Result.ok a { r with loopDepth := r.loopDepth - 1 }
      | .error e r => .error e { r with loopDepth := r.loopDepth - 1 })
  rw [hrun]
  cases p.run { r with loopDepth := r.loopDepth + 1 } <;> rfl

/-- Whether there is a loop around is told by the depth. -/
theorem requireLoop (keyword : Keyword) (loc : Location) :
    Mirrors id (requireLoop keyword loc) (requireLoop keyword .nowhere) := by
  apply get.bind
  intro r
  rw [Reader.loopDepth_unlocated]
  split
  · exact throw id (.strayJump keyword.spelling loc)
  · exact .pure rfl

/-! ## Expressions -/

/-- Fields are read by their lexemes, and carry the location of their base. -/
theorem fieldsOf (loc : Location) (depth : Nat) (base : Expr) :
    Mirrors Expr.unlocated (fieldsOf loc depth base) (fieldsOf .nowhere depth base.unlocated) := by
  induction depth generalizing base with
  | zero => exact refuseDepth _
  | succ depth ih =>
    apply (accept .dot).bind
    intro b
    dsimp only [id]
    split
    · exact identifier.bind fun name => ih (.field base name loc)
    · exact .pure rfl

/-- The check of an index looks at the name and at the number. -/
theorem checkIndex (base index : Expr) (loc : Location) :
    Mirrors id (checkIndex base index loc) (checkIndex base.unlocated index.unlocated .nowhere) := by
  apply get.bind
  intro r
  rw [Reader.tables_unlocated, Expr.integer?_unlocated, Expr.flatName?_unlocated]
  dsimp only
  split
  · split
    · split
      · exact throw id (.outOfBounds _ _ _ loc)
      · exact .pure rfl
    · exact .pure rfl
  · exact .pure rfl

/-- Places are mirrored if their indices are. -/
theorem placeWith (depth : Nat) {index index' : ReadM Expr} (h : Mirrors Expr.unlocated index index') :
    Mirrors Expr.unlocated (placeWith depth index) (placeWith depth index') := by
  apply current.bind
  intro token
  refine identifier.bind fun name => (fieldsOf token.loc depth _).bind fun base =>
    (accept .openBracket).bind fun b => ?_
  dsimp only [id]
  split
  · refine h.bind fun position => (expect ..).bind fun _ => (checkIndex base position token.loc).bind fun _ => ?_
    exact .pure rfl
  · exact .pure rfl

/-- Lists are mirrored if their items are. -/
theorem commaSeparated {f : α → β} {item : ReadM α} {item' : ReadM β} (h : Mirrors f item item') (depth : Nat) :
    Mirrors (List.map f) (commaSeparated item depth) (commaSeparated item' depth) := by
  induction depth with
  | zero => exact refuseDepth _
  | succ depth ih =>
    refine h.bind fun first => (accept .comma).bind fun b => ?_
    dsimp only [id]
    split
    · exact ih.bind fun rest => .pure rfl
    · exact .pure rfl

/-- Arguments are mirrored if each of them is. -/
theorem argumentsWith (depth : Nat) {argument argument' : ReadM Expr}
    (h : Mirrors Expr.unlocated argument argument') :
    Mirrors (List.map Expr.unlocated) (argumentsWith depth argument) (argumentsWith depth argument') := by
  apply (nextIs _).bind
  intro b
  dsimp only [id]
  split
  · exact (Mirrors.pure (f := List.map Expr.unlocated) rfl).bind fun _ => (expect ..).bind fun _ => .pure rfl
  · exact (commaSeparated h depth).bind fun _ => (expect ..).bind fun _ => .pure rfl

/-- An operator is told by its lexeme. -/
theorem operatorFrom? (least : Int) : Mirrors id (operatorFrom? least) (operatorFrom? least) :=
  current.bind fun _ => .pure rfl

/-- The three productions of expressions, each from those of less depth. -/
theorem expressions (depth : Nat) :
    (∀ least, Mirrors Expr.unlocated (expressionAt depth least) (expressionAt depth least)) ∧
      (∀ least left, Mirrors Expr.unlocated (operatorsFrom depth least left)
        (operatorsFrom depth least left.unlocated)) ∧
      Mirrors Expr.unlocated (primary depth) (primary depth) := by
  induction depth with
  | zero => exact ⟨fun _ => refuseDepth _, fun _ _ => refuseDepth _, refuseDepth _⟩
  | succ depth ih =>
    obtain ⟨hexpr, hops, hprimary⟩ := ih
    refine ⟨?_, ?_, ?_⟩
    · intro least
      rw [expressionAt, expressionBy]
      exact hprimary.bind fun left => hops least left
    · intro least left
      rw [operatorsFrom, operatorsFrom, operatorsBy, operatorsBy]
      refine current.bind fun token => (operatorFrom? least).bind fun op => ?_
      dsimp only [id]
      split
      · exact .pure rfl
      · next op =>
        exact advance.bind fun _ => (hexpr _).bind fun right => hops least (.binary op left right token.loc)
    · rw [primary, operandBy]
      apply current.bind
      intro token
      rw [Token.lexeme_unlocated]
      split
      · exact advance.bind fun _ => hprimary.bind fun _ => .pure rfl
      · exact advance.bind fun _ => hprimary.bind fun _ => .pure rfl
      -- a minus sign is folded into a literal whatever the locations
      · exact advance.bind fun _ => hprimary.bind fun e => .pure (e.negated_unlocated token.loc)
      · exact advance.bind fun _ => (hexpr _).bind fun _ => (expect ..).bind fun _ => .pure rfl
      · exact advance.bind fun _ => .pure rfl
      · apply (lexemeAhead 1).bind
        intro lexeme
        dsimp only [id]
        split
        · refine advance.bind fun _ => advance.bind fun _ => (argumentsWith depth (hexpr _)).bind fun args => ?_
          apply pure
          rw [Expr.unlocated, Expr.unlocatedAll_eq_map]
          rfl
        · exact placeWith depth (hexpr _)
      · exact refuse ..
      · exact refuse ..

/-- Expressions are the same up to locations. -/
theorem expression : Mirrors Expr.unlocated expression expression := by
  apply get.bind
  intro r
  rw [Reader.depth_unlocated]
  exact (expressions _).1 _

/-- Places are the same up to locations. -/
theorem place : Mirrors Expr.unlocated place place := by
  apply get.bind
  intro r
  rw [Reader.depth_unlocated]
  exact placeWith _ expression

/-! ## Variables -/

/-- Types have no locations. -/
theorem dataType : Mirrors id dataType dataType := by
  apply current.bind
  intro token
  rw [Token.lexeme_unlocated]
  split
  · exact advance.bind fun _ => .pure rfl
  · exact advance.bind fun _ => .pure rfl
  · exact advance.bind fun _ => .pure rfl
  · exact advance.bind fun _ => .pure rfl
  · exact advance.bind fun _ => .pure rfl
  · exact advance.bind fun _ => identifier.bind fun name => get.bind fun r => check (.pure rfl)
  · exact refuse ..

/-- The length of an array has no location. -/
theorem arrayLength (name : String) : Mirrors id (arrayLength name) (arrayLength name) := by
  apply current.bind
  intro token
  rw [Token.lexeme_unlocated]
  split
  · refine advance.bind fun _ => ?_
    split
    · exact .pure rfl
    · exact refuseDeclaration ..
  · exact refuseDeclaration ..

/-- The brackets of a declaration are told by their lexemes. -/
theorem arrayBrackets (name : String) : Mirrors id (arrayBrackets name) (arrayBrackets name) := by
  apply (accept .openBracket).bind
  intro b
  dsimp only [id]
  split
  · refine (arrayLength name).bind fun length => (expect ..).bind fun _ => (modify ?_).bind fun _ => .pure rfl
    intro r
    rfl
  · exact .pure rfl

theorem braceValues (depth : Nat) :
    Mirrors (List.map Expr.unlocated) (braceValues depth) (braceValues depth) := by
  induction depth with
  | zero => exact refuseDepth _
  | succ depth ih =>
    apply (nextIs _).bind
    intro b
    dsimp only [id]
    split
    · exact .pure rfl
    · refine expression.bind fun value => (accept .comma).bind fun b => ?_
      dsimp only [id]
      split
      · exact ih.bind fun _ => .pure rfl
      · exact .pure rfl

theorem braceList : Mirrors (List.map Expr.unlocated) braceList braceList := by
  apply get.bind
  intro r
  rw [Reader.depth_unlocated]
  exact (braceValues _).bind fun _ => (expect ..).bind fun _ => .pure rfl

/-- A first value is the same up to locations, and so is what is refused about it. -/
theorem initializer (name : String) (type : DataType) (length : Option Nat) (loc : Location) :
    Mirrors Initializer.unlocated (initializer name type length loc)
      (initializer name type length .nowhere) := by
  apply (accept .openBrace).bind
  intro b
  dsimp only [id]
  split
  · apply braceList.bind
    intro values
    rw [List.length_map]
    split
    · exact check (.pure rfl)
    · exact get.bind fun r => check (.pure rfl)
    · exact refuseDeclaration ..
  · exact check (expression.bind fun _ => .pure rfl)

/-- Declarations are the same up to locations, and register the same arrays. -/
theorem variableDeclaration : Mirrors Variable.unlocated variableDeclaration variableDeclaration := by
  refine current.bind fun token => dataType.bind fun type => identifier.bind fun name => ?_
  refine check ((arrayBrackets name).bind fun length => (accept .assign).bind fun b => ?_)
  dsimp only [id]
  split
  · refine ((initializer name type length token.loc).map (g := Option.map Initializer.unlocated)
      fun _ => rfl).bind fun init => (expect ..).bind fun _ => .pure rfl
  · exact (Mirrors.pure (f := Option.map Initializer.unlocated) rfl).bind fun init =>
      (expect ..).bind fun _ => .pure rfl

/-! ## Statements -/

theorem stepBy_unlocated (op : Operator) (target : Expr) (loc : Location) :
    stepBy op target.unlocated .nowhere = (stepBy op target loc).unlocated := rfl

theorem step : Mirrors Assignment.unlocated step step := by
  apply current.bind
  intro token
  rw [Token.lexeme_unlocated]
  split
  · exact advance.bind fun _ => place.bind fun target => .pure (stepBy_unlocated ..)
  · refine place.bind fun target => current.bind fun mark => ?_
    rw [Token.lexeme_unlocated]
    split
    · exact advance.bind fun _ => .pure (stepBy_unlocated ..)
    · apply (accept .assign).bind
      intro b
      dsimp only [id]
      split
      · exact expression.bind fun value => .pure rfl
      · exact refuse ..

theorem expressionStatement : Mirrors Statement.unlocated expressionStatement expressionStatement :=
  expression.bind fun _ => (expect ..).bind fun _ => .pure rfl

/-- Which of the two a statement is, is told by lexemes. -/
theorem assignmentOrExpression :
    Mirrors Statement.unlocated assignmentOrExpression assignmentOrExpression := by
  refine get.bind fun start => (lexemeAhead 1).bind fun lexeme => ?_
  rw [Reader.next_unlocated]
  dsimp only [id]
  split
  · exact expressionStatement
  · refine place.bind fun target => current.bind fun mark => ?_
    rw [Token.lexeme_unlocated]
    split
    · exact advance.bind fun _ => (expect ..).bind fun _ => .pure rfl
    · apply (accept .assign).bind
      intro b
      dsimp only [id]
      split
      · exact expression.bind fun value => (expect ..).bind fun _ => .pure rfl
      · refine (modify ?_).bind fun _ => expressionStatement
        intro r
        rfl

theorem returned (loc : Location) : Mirrors Statement.unlocated (returned loc) (returned .nowhere) := by
  apply (accept .semicolon).bind
  intro b
  dsimp only [id]
  split
  · exact .pure rfl
  · exact expression.bind fun value => (expect ..).bind fun _ => .pure rfl

theorem forStart : Mirrors (Option.map Statement.unlocated) forStart forStart := by
  refine current.bind fun token => (accept .semicolon).bind fun b => ?_
  rw [Token.lexeme_unlocated]
  dsimp only [id]
  split
  · exact .pure rfl
  · split
    · exact variableDeclaration.bind fun decl => .pure rfl
    · split
      · exact place.bind fun target => (expect ..).bind fun _ => expression.bind fun value =>
          (expect ..).bind fun _ => .pure rfl
      · exact refuse ..

theorem forCondition : Mirrors (Option.map Expr.unlocated) forCondition forCondition := by
  apply (nextIs _).bind
  intro b
  dsimp only [id]
  split
  · exact (Mirrors.pure (f := Option.map Expr.unlocated) rfl).bind fun _ => (expect ..).bind fun _ => .pure rfl
  · exact (expression.map (g := Option.map Expr.unlocated) fun _ => rfl).bind fun _ =>
      (expect ..).bind fun _ => .pure rfl

theorem forStep : Mirrors (Option.map Assignment.unlocated) forStep forStep := by
  apply (nextIs _).bind
  intro b
  dsimp only [id]
  split
  · exact (Mirrors.pure (f := Option.map Assignment.unlocated) rfl).bind fun _ =>
      (expect ..).bind fun _ => .pure rfl
  · exact (step.map (g := Option.map Assignment.unlocated) fun _ => rfl).bind fun _ =>
      (expect ..).bind fun _ => .pure rfl

theorem parenthesisedCondition (keyword construct : String) :
    Mirrors Expr.unlocated (parenthesisedCondition keyword construct)
      (parenthesisedCondition keyword construct) :=
  (expect ..).bind fun _ => expression.bind fun _ => (expect ..).bind fun _ => .pure rfl

/-- The four productions of statements, each from those of less depth. -/
theorem statementProductions (depth : Nat) :
    Mirrors (List.map Statement.unlocated) (statements depth) (statements depth) ∧
      Mirrors Statement.unlocated (statement depth) (statement depth) ∧
      (∀ context, Mirrors (List.map Statement.unlocated) (body depth context) (body depth context)) ∧
      Mirrors Alternative.unlocated (alternative depth) (alternative depth) := by
  induction depth with
  | zero => exact ⟨refuseDepth _, refuseDepth _, fun _ => refuseDepth _, refuseDepth _⟩
  | succ depth ih =>
    obtain ⟨hstatements, hstatement, hbody, halternative⟩ := ih
    refine ⟨?_, ?_, ?_, ?_⟩
    · rw [statements, statementsBy]
      apply current.bind
      intro token
      rw [Token.lexeme_unlocated]
      split
      · exact .pure rfl
      · exact .pure rfl
      · refine advance.bind fun _ => hstatements.bind fun inner => (expect ..).bind fun _ =>
          hstatements.bind fun rest => .pure ?_
        rw [List.map_append]
      · exact advance.bind fun _ => hstatements
      · exact hstatement.bind fun first => hstatements.bind fun rest => .pure rfl
    · -- which production follows is decided by the lexeme alone; the location goes into nodes and faults
      rw [statement, statementBy]
      apply current.bind
      intro token
      rw [Token.lexeme_unlocated]
      split
      · exact advance.bind fun _ => returned _
      · refine advance.bind fun _ => (parenthesisedCondition ..).bind fun condition =>
          (hbody _).bind fun block => halternative.bind fun arms => .pure ?_
        rw [Statement.unlocated, Statement.unlocatedAll_eq_map]
        rfl
      · refine advance.bind fun _ => (parenthesisedCondition ..).bind fun condition =>
          (insideLoop (hbody _)).bind fun block => .pure ?_
        rw [Statement.unlocated, Statement.unlocatedAll_eq_map]
        rfl
      · refine advance.bind fun _ => (expect ..).bind fun _ => forStart.bind fun start =>
          forCondition.bind fun condition => forStep.bind fun increment =>
          (insideLoop (hbody _)).bind fun block => .pure ?_
        rw [Statement.unlocated_forLoop]
        rfl
      · exact advance.bind fun _ => (requireLoop ..).bind fun _ => (expect ..).bind fun _ => .pure rfl
      · exact advance.bind fun _ => (requireLoop ..).bind fun _ => (expect ..).bind fun _ => .pure rfl
      · exact step.bind fun assignment => (expect ..).bind fun _ => .pure rfl
      · exact step.bind fun assignment => (expect ..).bind fun _ => .pure rfl
      · exact assignmentOrExpression
      · split
        · exact variableDeclaration.bind fun decl => .pure rfl
        · exact refuse ..
    · intro context
      rw [body, bodyBy]
      apply (accept .openBrace).bind
      intro b
      dsimp only [id]
      split
      · exact hstatements.bind fun inner => (expect ..).bind fun _ => .pure rfl
      · exact hstatement.bind fun s => .pure rfl
    · rw [alternative, alternativeBy]
      apply (acceptKeyword .elseWord).bind
      intro b
      dsimp only [id]
      split
      · apply (acceptKeyword .ifWord).bind
        intro b
        dsimp only [id]
        split
        · refine (parenthesisedCondition ..).bind fun condition => (hbody _).bind fun block =>
            halternative.bind fun arms => .pure ?_
          rw [Alternative.unlocated, Statement.unlocatedAll_eq_map]
        · refine (hbody _).bind fun block => .pure ?_
          rw [Alternative.unlocated, Statement.unlocatedAll_eq_map]
      · exact .pure rfl

/-- The body of a function is the same up to locations. -/
theorem block : Mirrors (List.map Statement.unlocated) block block := by
  apply get.bind
  intro r
  rw [Reader.depth_unlocated]
  exact (statementProductions _).1

/-! ## Items -/

/-- The fields of a struct have no locations. -/
theorem structFields (struct : String) (depth : Nat) (fields : List Field) :
    Mirrors id (structFields struct depth fields) (structFields struct depth fields) := by
  induction depth generalizing fields with
  | zero => exact refuseDepth _
  | succ depth ih =>
    apply current.bind
    intro token
    rw [Token.lexeme_unlocated]
    split
    · exact .pure rfl
    · exact .pure rfl
    · exact dataType.bind fun type => identifier.bind fun name =>
        check (check ((expect ..).bind fun _ => ih _))

/-- Structs are the same up to locations, and are defined alike. -/
theorem structDefinition : Mirrors Struct.unlocated structDefinition structDefinition := by
  refine current.bind fun token => identifier.bind fun name => get.bind fun r => check ?_
  refine (expect ..).bind fun _ => get.bind fun r => ?_
  rw [Reader.depth_unlocated]
  refine (structFields name _ []).bind fun fields => (expect ..).bind fun _ => (expect ..).bind fun _ => check ?_
  refine (modify ?_).bind fun _ => (note rfl).bind fun _ => .pure rfl
  intro r
  rfl

/-- Whether a name is used by another parameter is told by the names. -/
theorem any_map_unlocated (others : List Parameter) (name : String) :
    (others.map Parameter.unlocated).any (·.name = name) = others.any (·.name = name) := by
  rw [List.any_map]
  rfl

theorem parameter (others : List Parameter) :
    Mirrors Parameter.unlocated (parameter others) (parameter (others.map Parameter.unlocated)) := by
  refine current.bind fun token => dataType.bind fun type => identifier.bind fun name => check ?_
  refine (nextIs _).bind fun b => check ?_
  dsimp only
  rw [any_map_unlocated]
  exact check (.pure rfl)

theorem parametersFrom (depth : Nat) (others : List Parameter) :
    Mirrors (List.map Parameter.unlocated) (parametersFrom depth others)
      (parametersFrom depth (others.map Parameter.unlocated)) := by
  induction depth generalizing others with
  | zero => exact refuseDepth _
  | succ depth ih =>
    refine (parameter others).bind fun p => (accept .comma).bind fun b => ?_
    have happend : others.map Parameter.unlocated ++ [p.unlocated] =
        (others ++ [p]).map Parameter.unlocated := by
      rw [List.map_append]
      rfl
    rw [happend]
    dsimp only [id]
    split
    · exact ih _
    · exact .pure rfl

theorem parameters : Mirrors (List.map Parameter.unlocated) parameters parameters := by
  apply (nextIs _).bind
  intro b
  dsimp only [id]
  split
  · exact .pure rfl
  · refine (nextIs _).bind fun isVoid => (lexemeAhead 1).bind fun lexeme => ?_
    dsimp only [id]
    split
    · exact advance.bind fun _ => .pure rfl
    · apply get.bind
      intro r
      rw [Reader.depth_unlocated]
      exact parametersFrom _ []

/-- Functions are the same up to locations. -/
theorem functionDefinition :
    Mirrors (Option.map Function.unlocated) functionDefinition functionDefinition := by
  refine dataType.bind fun result => current.bind fun token => identifier.bind fun name =>
    (expect ..).bind fun _ => (modify ?_).bind fun _ => parameters.bind fun parameters =>
    (expect ..).bind fun _ => (accept .semicolon).bind fun b => ?_
  · intro r
    rfl
  · dsimp only [id]
    split
    · exact (warn (.prototype name) _ (by simp [Warning.category])).bind fun _ => .pure rfl
    · refine (expect ..).bind fun _ => (modify ?_).bind fun _ => block.bind fun body =>
        (expect ..).bind fun _ => (note ?_).bind fun _ => .pure rfl
      · intro r
        rfl
      · rw [List.length_map, List.length_map]
        rfl

/-- What is skipped with a warning is told by lexemes. -/
theorem skipWarning (warning : Warning) (loc : Location) (h : warning.category ≠ .lexer) :
    Mirrors (Option.map Item.unlocated) (skipWarning warning loc) (skipWarning warning .nowhere) :=
  (warn warning loc h).bind fun _ => advance.bind fun _ => .pure rfl

/-- Which item begins with a type is told by the lexemes behind it. -/
theorem typedItem (length : Nat) (loc : Location) :
    Mirrors (Option.map Item.unlocated) (typedItem length loc) (typedItem length .nowhere) := by
  refine (lexemeAhead length).bind fun first => (lexemeAhead (length + 1)).bind fun second => ?_
  dsimp only [id]
  split
  · refine functionDefinition.bind fun f => .pure ?_
    cases f <;> rfl
  · exact (warn .globalVariable loc (by decide)).bind fun _ => skipPastSemicolon.bind fun _ => .pure rfl
  · exact skipWarning _ loc (by simp [Warning.category])

/-- An item is the same up to locations. -/
theorem topLevel : Mirrors (Option.map Item.unlocated) topLevel topLevel := by
  apply current.bind
  intro token
  rw [Token.lexeme_unlocated]
  split
  · refine (lexemeAhead 1).bind fun first => (lexemeAhead 2).bind fun second => ?_
    dsimp only [id]
    split
    · exact advance.bind fun _ => structDefinition.bind fun s => .pure rfl
    · exact typedItem 2 token.loc
    · exact skipWarning .missingStructName token.loc (by decide)
  · exact typedItem 1 token.loc
  · exact typedItem 1 token.loc
  · exact typedItem 1 token.loc
  · exact typedItem 1 token.loc
  · exact typedItem 1 token.loc
  · exact skipWarning _ token.loc (by simp [Warning.category])

/-- The items of a program are the same up to locations. -/
theorem items (depth : Nat) : Mirrors (List.map Item.unlocated) (items depth) (items depth) := by
  induction depth with
  | zero => exact refuseDepth _
  | succ depth ih =>
    apply (nextIs .eof).bind
    intro b
    dsimp only [id]
    split
    · exact .pure rfl
    · refine topLevel.bind fun item => ih.bind fun rest => .pure ?_
      cases item <;> simp

/-- A program is read the same wherever its tokens stand. -/
theorem program : Mirrors Program.unlocated program program := by
  apply get.bind
  intro r
  rw [Reader.depth_unlocated]
  refine (items _).bind fun items => get.bind fun r => ?_
  rw [List.length_map]
  exact (note rfl).bind fun _ => .pure rfl

end Mirrors

end ClockedC.Grammar
