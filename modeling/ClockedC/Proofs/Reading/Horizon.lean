import ClockedC.Proofs.Reading.Steps

/-!
# The grammar does not look behind the end

A token that is looked at may lie behind the first mark of the end, since some productions look ahead without asking
where the end is. What they find there makes no difference: every step does the same on a reader that has nothing
behind the end. Neither does a step look at what has been recorded before it.
-/

namespace ClockedC

/-! ## Readers in other surroundings -/

/-- What a reader carries along: the tokens behind the end, and what was recorded before. -/
structure Surroundings where
  beyond : List Token := []
  diagnostics : List Diagnostic := []
  log : List Event := []

namespace Reader

/-- The reader in other surroundings. -/
def amid (r : Reader) (s : Surroundings) : Reader :=
  { r with beyond := s.beyond, diagnostics := s.diagnostics ++ r.diagnostics, log := s.log ++ r.log }

/-- The reader with nothing behind the end. -/
def cut (r : Reader) : Reader := { r with beyond := [] }

/-- Nothing behind the end and no record before is a reader that is cut. -/
theorem amid_nothing (r : Reader) : r.amid {} = r.cut := rfl

/-- Up to the end, what is ahead is the same. -/
theorem ahead_amid (s : Surroundings) {r : Reader} {n : Nat} (h : n ≤ r.rest.length) :
    (r.amid s).ahead n = r.ahead n := by
  have hsize : n - r.queue.size = 0 := by
    rw [r.queue.size_eq]
    exact Nat.sub_eq_zero_of_le h
  have hrest : (r.amid s).rest = r.rest := rfl
  have hqueue : (r.amid s).queue = r.queue := rfl
  rw [ahead, ahead, hrest]
  cases r.rest[n]? with
  | some t => rfl
  | none =>
    rw [hqueue, hsize]
    rfl

/-- The next token is not changed by the surroundings, since it is the end at most. -/
@[simp] theorem next_amid (r : Reader) (s : Surroundings) : (r.amid s).next = r.next := ahead_amid s (Nat.zero_le _)

/-- Behind the tokens that are left stands the end. -/
theorem ahead_length (r : Reader) : r.ahead r.rest.length = ⟨.eof, r.eof⟩ := by
  rw [ahead, List.getElem?_eq_none (Nat.le_refl _), r.queue.size_eq]
  simp [rest, ending]

/-- Before the end there is a token. -/
theorem length_rest_pos {r : Reader} (h : r.next.lexeme ≠ .eof) : 1 ≤ r.rest.length := by
  obtain ⟨ts, hts⟩ := exists_rest_eq_cons h
  rw [hts]
  exact Nat.succ_le_succ (Nat.zero_le _)

end Reader

namespace Grammar

variable {α β : Type}

/-- The outcome of a step with a reader in other surroundings. -/
def Outcome.amid (s : Surroundings) :
    EStateM.Result CompileError Reader α → EStateM.Result CompileError Reader α
  | .ok a r => .ok a (r.amid s)
  | .error e r => .error e (r.amid s)

/-- The outcome of a step with a reader that is cut. -/
def Outcome.cut : EStateM.Result CompileError Reader α → EStateM.Result CompileError Reader α
  | .ok a r => .ok a r.cut
  | .error e r => .error e r.cut

/-- The step does on the reader what it does on the reader in other surroundings. -/
def BlindAt (p : ReadM α) (r : Reader) : Prop := ∀ s, p.run (r.amid s) = Outcome.amid s (p.run r)

/-- The step looks neither behind the end nor at what was recorded before. -/
structure Blind (p : ReadM α) : Prop where
  run_amid : ∀ r : Reader, BlindAt p r

/-- The step never looks behind the end. -/
theorem Blind.run_cut {p : ReadM α} (hp : Blind p) (r : Reader) : p.run r.cut = Outcome.cut (p.run r) := by
  rw [← Reader.amid_nothing, hp.run_amid r]
  cases p.run r <;> rfl

/-! ## Sequences of steps -/

namespace BlindAt

variable {r : Reader}

/-- A sequence is blind at a reader if its first step is and the others are everywhere. -/
theorem bind {p : ReadM α} {k : α → ReadM β} (hp : BlindAt p r) (hk : ∀ a, Blind (k a)) : BlindAt (p >>= k) r := by
  intro s
  rw [EStateM.run_bind, EStateM.run_bind, hp s]
  cases p.run r with
  | ok a r' => exact (hk a).run_amid r' s
  | error e r' => rfl

/-- What is asked of a reader must be the same in other surroundings. -/
theorem get {k : Reader → ReadM β} (hsame : ∀ s, k (r.amid s) = k r) (hk : BlindAt (k r) r) :
    BlindAt (MonadState.get >>= k) r := by
  intro s
  rw [run_bind_of_ok (EStateM.run_get r), run_bind_of_ok (EStateM.run_get (r.amid s)), hsame s]
  exact hk s

/-- The next token may be looked at. -/
theorem current {k : Token → ReadM β} (hk : BlindAt (k r.next) r) : BlindAt (current >>= k) r := by
  intro s
  rw [run_bind_of_ok (run_current r), run_bind_of_ok (run_current (r.amid s)), Reader.next_amid]
  exact hk s

/-- The next token may be asked for. -/
theorem nextIs {lexeme : Lexeme} {k : Bool → ReadM β} (hk : BlindAt (k (r.next.lexeme = lexeme)) r) :
    BlindAt (nextIs lexeme >>= k) r := by
  intro s
  rw [run_bind_of_ok (run_nextIs lexeme r), run_bind_of_ok (run_nextIs lexeme (r.amid s)), Reader.next_amid]
  exact hk s

/-- A token ahead may be looked at as long as it does not lie behind the end. -/
theorem lexemeAhead {n : Nat} {k : Lexeme → ReadM β} (hn : n ≤ r.rest.length)
    (hk : BlindAt (k (r.ahead n).lexeme) r) : BlindAt (lexemeAhead n >>= k) r := by
  intro s
  rw [run_bind_of_ok (run_lexemeAhead n r), run_bind_of_ok (run_lexemeAhead n (r.amid s)), Reader.ahead_amid s hn]
  exact hk s

/-- Two lexemes ahead, the second of which does not count where the first is the end. -/
theorem lexemesAhead {n : Nat} {k : Lexeme → Lexeme → ReadM β} (hn : n ≤ r.rest.length)
    (heof : ∀ lexeme, k .eof lexeme = k .eof .eof)
    (hk : BlindAt (k (r.ahead n).lexeme (r.ahead (n + 1)).lexeme) r) :
    BlindAt (Grammar.lexemeAhead n >>= fun lexeme => Grammar.lexemeAhead (n + 1) >>= k lexeme) r := by
  apply lexemeAhead hn
  by_cases hlength : n + 1 ≤ r.rest.length
  · exact lexemeAhead hlength hk
  · -- the end is what the first lexeme is, and the second one may be anything
    have hend : r.rest.length = n := by omega
    have hahead : (r.ahead n).lexeme = .eof := by rw [← hend, r.ahead_length]
    rw [hahead, heof] at hk
    rw [hahead]
    intro s
    rw [run_bind_of_ok (run_lexemeAhead _ r), run_bind_of_ok (run_lexemeAhead _ (r.amid s)), heof,
      heof (r.ahead _).lexeme]
    exact hk s

end BlindAt

namespace Blind

theorem bind {p : ReadM α} {k : α → ReadM β} (hp : Blind p) (hk : ∀ a, Blind (k a)) : Blind (p >>= k) :=
  ⟨fun r => (hp.run_amid r).bind hk⟩

theorem pure (a : α) : Blind (Pure.pure a) := ⟨fun _ _ => rfl⟩

theorem throw (e : CompileError) : Blind (throw e : ReadM α) := ⟨fun _ _ => rfl⟩

/-- What is made of the result does not matter. -/
theorem map {p : ReadM α} (hp : Blind p) (f : α → β) : Blind (f <$> p) := by
  rw [← bind_pure_comp]
  exact hp.bind fun _ => pure _

theorem get {k : Reader → ReadM β} (hsame : ∀ (r : Reader) (s : Surroundings), k (r.amid s) = k r)
    (hk : ∀ r, Blind (k r)) : Blind (MonadState.get >>= k) := ⟨fun r => .get (hsame r) ((hk r).run_amid r)⟩

/-- A change is blind if it leaves the surroundings alone. -/
theorem modify {f : Reader → Reader} (h : ∀ (r : Reader) (s : Surroundings), f (r.amid s) = (f r).amid s) :
    Blind (modify f) := by
  constructor
  intro r s
  rw [EStateM.run_modify, EStateM.run_modify, h]
  rfl

/-- A check in front of a step. -/
theorem check {c : Prop} [Decidable c] {fault : DeclarationFault} {loc : Location} {k : α → ReadM β} {p : ReadM β}
    (h : Blind p) : Blind (if c then refuseDeclaration fault loc >>= k else p) := by
  split
  · exact ⟨fun _ _ => rfl⟩
  · exact h

/-- What follows on the next token may make use of which token that is. -/
theorem current {k : Token → ReadM β} (hk : ∀ r : Reader, BlindAt (k r.next) r) : Blind (current >>= k) :=
  ⟨fun r => .current (hk r)⟩

/-! ## Moves -/

theorem nextIs (lexeme : Lexeme) : Blind (nextIs lexeme) := current fun _ _ => rfl

theorem advance : Blind advance := modify fun _ _ => rfl

/-- A lexeme is passed or left by the next token. -/
theorem acceptLexeme (lexeme : Lexeme) : Blind (acceptLexeme lexeme) := by
  apply (nextIs lexeme).bind
  intro b
  split
  · exact advance.bind fun _ => pure _
  · exact pure _

theorem accept (symbol : Symbol) : Blind (accept symbol) := acceptLexeme _

theorem acceptKeyword (keyword : Keyword) : Blind (acceptKeyword keyword) := acceptLexeme _

/-- What is skipped does not go behind the end. -/
theorem skipPastSemicolon : Blind skipPastSemicolon := modify fun _ _ => rfl

theorem refuse (fault : SyntacticFault) (loc : Location) : Blind (refuse fault loc : ReadM α) := throw _

theorem refuseDeclaration (fault : DeclarationFault) (loc : Location) :
    Blind (refuseDeclaration fault loc : ReadM α) := throw _

theorem refuseDepth : Blind (refuseDepth : ReadM α) := current fun _ _ => rfl

/-- A symbol that is expected is told by the next token. -/
theorem expect (symbol : Symbol) (context : String) : Blind (expect symbol context) := by
  apply (accept symbol).bind
  intro b
  split
  · exact pure _
  · exact current fun _ _ => rfl

/-- A name is told by the next token. -/
theorem identifier : Blind identifier := by
  apply current
  intro r
  split
  · exact (advance.bind fun _ => pure _).run_amid r
  · exact (refuse ..).run_amid r

/-- A record is added behind those before it. -/
theorem note (event : Event) : Blind (note event) := by
  apply modify
  intro r s
  simp only [Reader.amid, List.append_assoc]

/-- A warning is added behind those before it. -/
theorem warn (warning : Warning) (loc : Location) : Blind (warn warning loc) := by
  refine (note _).bind fun _ => modify ?_
  intro r s
  simp only [Reader.amid, List.append_assoc]

/-- A loop is opened and closed again around a step. -/
theorem insideLoop {p : ReadM α} (h : Blind p) : Blind (insideLoop p) := by
  constructor
  intro r s
  have hrun := h.run_amid { r with loopDepth := r.loopDepth + 1 } s
  show (match p.run (({ r with loopDepth := r.loopDepth + 1 } : Reader).amid s) with
      | .ok a r => EStateM.Result.ok a { r with loopDepth := r.loopDepth - 1 }
      | .error e r => .error e { r with loopDepth := r.loopDepth - 1 }) =
    Outcome.amid s (match p.run { r with loopDepth := r.loopDepth + 1 } with
      | .ok a r => EStateM.Result.ok a { r with loopDepth := r.loopDepth - 1 }
      | .error e r => .error e { r with loopDepth := r.loopDepth - 1 })
  rw [hrun]
  cases p.run { r with loopDepth := r.loopDepth + 1 } <;> rfl

/-- Whether there is a loop around does not depend on the surroundings. -/
theorem requireLoop (keyword : Keyword) (loc : Location) : Blind (requireLoop keyword loc) := by
  apply get fun _ _ => rfl
  intro r
  split
  · exact throw _
  · exact pure _

/-! ## Expressions -/

/-- Fields are read token by token. -/
theorem fieldsOf (loc : Location) (depth : Nat) (base : Expr) : Blind (fieldsOf loc depth base) := by
  induction depth generalizing base with
  | zero => exact refuseDepth
  | succ depth ih =>
    apply (accept .dot).bind
    intro b
    split
    · exact identifier.bind fun name => ih _
    · exact pure _

/-- The check of an index looks at the table of arrays. -/
theorem checkIndex (base index : Expr) (loc : Location) : Blind (checkIndex base index loc) := by
  apply get fun _ _ => rfl
  intro r
  dsimp only
  split
  · split
    · split
      · exact throw _
      · exact pure _
    · exact pure _
  · exact pure _

/-- Places are blind if their indices are. -/
theorem placeWith (depth : Nat) {index : ReadM Expr} (h : Blind index) : Blind (placeWith depth index) := by
  apply current
  intro r
  refine (identifier.bind fun name => (fieldsOf ..).bind fun base => (accept .openBracket).bind fun b => ?_).run_amid r
  split
  · exact h.bind fun position => (expect ..).bind fun _ => (checkIndex ..).bind fun _ => pure _
  · exact pure _

/-- Lists are blind if their items are. -/
theorem commaSeparated {item : ReadM α} (h : Blind item) (depth : Nat) : Blind (commaSeparated item depth) := by
  induction depth with
  | zero => exact refuseDepth
  | succ depth ih =>
    refine h.bind fun first => (accept .comma).bind fun b => ?_
    split
    · exact ih.bind fun rest => pure _
    · exact pure _

/-- Arguments are blind if each of them is. -/
theorem argumentsWith (depth : Nat) {argument : ReadM Expr} (h : Blind argument) :
    Blind (argumentsWith depth argument) := by
  apply (nextIs _).bind
  intro b
  dsimp only
  split
  · exact (pure _).bind fun _ => (expect ..).bind fun _ => pure _
  · exact (commaSeparated h depth).bind fun _ => (expect ..).bind fun _ => pure _

theorem operatorFrom? (least : Int) : Blind (operatorFrom? least) := current fun _ _ => rfl

/-- The three productions of expressions, each from those of less depth. -/
theorem expressions (depth : Nat) :
    (∀ least, Blind (expressionAt depth least)) ∧ (∀ least left, Blind (operatorsFrom depth least left)) ∧
      Blind (primary depth) := by
  induction depth with
  | zero => exact ⟨fun _ => refuseDepth, fun _ _ => refuseDepth, refuseDepth⟩
  | succ depth ih =>
    obtain ⟨hexpr, hops, hprimary⟩ := ih
    refine ⟨?_, ?_, ?_⟩
    · intro least
      rw [expressionAt, expressionBy]
      exact hprimary.bind fun left => hops least left
    · intro least left
      rw [operatorsFrom, operatorsBy]
      apply current
      intro r
      refine ((operatorFrom? least).bind fun op => ?_).run_amid r
      split
      · exact pure _
      · exact advance.bind fun _ => (hexpr _).bind fun right => hops least _
    · rw [primary, operandBy]
      apply current
      intro r
      split
      · exact (advance.bind fun _ => hprimary.bind fun _ => pure _).run_amid r
      · exact (advance.bind fun _ => hprimary.bind fun _ => pure _).run_amid r
      · exact (advance.bind fun _ => hprimary.bind fun _ => pure _).run_amid r
      · exact (advance.bind fun _ => (hexpr _).bind fun _ => (expect ..).bind fun _ => pure _).run_amid r
      · exact (advance.bind fun _ => pure _).run_amid r
      · next name hnext =>
        -- a name is next, so the token behind it is not behind the end
        apply BlindAt.lexemeAhead (Reader.length_rest_pos (by simp [hnext]))
        split
        · exact (advance.bind fun _ => advance.bind fun _ =>
            (argumentsWith depth (hexpr _)).bind fun _ => pure _).run_amid r
        · exact (placeWith depth (hexpr _)).run_amid r
      · exact (refuse ..).run_amid r
      · exact (refuse ..).run_amid r

/-- Expressions are blind, though a call is told by two lexemes. -/
theorem expression : Blind expression := get (fun _ _ => rfl) fun _ => (expressions _).1 _

/-- Places are blind. -/
theorem place : Blind place := get (fun _ _ => rfl) fun _ => placeWith _ expression

/-! ## Variables -/

theorem dataType : Blind dataType := by
  apply current
  intro r
  split
  case h_6 =>
    refine (advance.bind fun _ => identifier.bind fun name => ?_).run_amid r
    exact get (fun _ _ => rfl) fun r' => check (pure _)
  case h_7 => exact (refuse ..).run_amid r
  all_goals exact (advance.bind fun _ => pure _).run_amid r

theorem arrayLength (name : String) : Blind (arrayLength name) := by
  apply current
  intro r
  split
  · refine (advance.bind fun _ => ?_).run_amid r
    split
    · exact pure _
    · exact refuseDeclaration ..
  · exact (refuseDeclaration ..).run_amid r

theorem arrayBrackets (name : String) : Blind (arrayBrackets name) := by
  apply (accept .openBracket).bind
  intro b
  split
  · refine (arrayLength name).bind fun length => (expect ..).bind fun _ => bind (modify ?_) fun _ => pure _
    intro r s
    rfl
  · exact pure _

theorem braceValues (depth : Nat) : Blind (braceValues depth) := by
  induction depth with
  | zero => exact refuseDepth
  | succ depth ih =>
    apply (nextIs _).bind
    intro b
    split
    · exact pure _
    · refine expression.bind fun value => (accept .comma).bind fun b => ?_
      split
      · exact ih.bind fun _ => pure _
      · exact pure _

theorem braceList : Blind braceList :=
  get (fun _ _ => rfl) fun _ => (braceValues _).bind fun _ => (expect ..).bind fun _ => pure _

/-- First values are blind, in each of their forms. -/
theorem initializer (name : String) (type : DataType) (length : Option Nat) (loc : Location) :
    Blind (initializer name type length loc) := by
  apply (accept .openBrace).bind
  intro b
  split
  · apply braceList.bind
    intro values
    split
    · exact check (pure _)
    · exact get (fun _ _ => rfl) fun _ => check (pure _)
    · exact refuseDeclaration ..
  · exact check (expression.bind fun _ => pure _)

/-- Declarations are blind, and so is what they register. -/
theorem variableDeclaration : Blind variableDeclaration := by
  apply current
  intro r
  refine (dataType.bind fun type => identifier.bind fun name => check ?_).run_amid r
  refine (arrayBrackets name).bind fun length => (accept .assign).bind fun b => ?_
  dsimp only
  split
  · exact ((initializer ..).map _).bind fun _ => (expect ..).bind fun _ => pure _
  · exact (pure _).bind fun _ => (expect ..).bind fun _ => pure _

/-! ## Statements -/

theorem step : Blind step := by
  apply current
  intro r
  split
  · exact (advance.bind fun _ => place.bind fun _ => pure _).run_amid r
  · refine (place.bind fun target => current fun r' => ?_).run_amid r
    split
    · exact (advance.bind fun _ => pure _).run_amid r'
    · refine ((accept .assign).bind fun b => ?_).run_amid r'
      split
      · exact expression.bind fun _ => pure _
      · exact refuse ..

theorem expressionStatement : Blind expressionStatement :=
  expression.bind fun _ => (expect ..).bind fun _ => pure _

end Blind

/-- A statement that begins with a name looks no further than to the token behind the name. -/
theorem BlindAt.assignmentOrExpression {r : Reader} (hnext : r.next.lexeme ≠ .eof) :
    BlindAt assignmentOrExpression r := by
  apply get
  · -- what is kept of the reader is its queue and where it stands
    intro s
    rw [Reader.next_amid]
    rfl
  · apply lexemeAhead (Reader.length_rest_pos hnext)
    split
    · exact Blind.expressionStatement.run_amid r
    · refine (Blind.place.run_amid r).bind fun target => .current fun r' => ?_
      split
      · exact (Blind.advance.bind fun _ => (Blind.expect ..).bind fun _ => .pure _).run_amid r'
      · refine ((Blind.accept .assign).bind fun b => ?_).run_amid r'
        split
        · exact Blind.expression.bind fun _ => (Blind.expect ..).bind fun _ => .pure _
        · refine Blind.bind (.modify ?_) fun _ => Blind.expressionStatement
          intro r'' s
          rfl

namespace Blind

theorem returned (loc : Location) : Blind (returned loc) := by
  apply (accept .semicolon).bind
  intro b
  split
  · exact pure _
  · exact expression.bind fun _ => (expect ..).bind fun _ => pure _

theorem forStart : Blind forStart := by
  apply current
  intro r
  refine ((accept .semicolon).bind fun b => ?_).run_amid r
  split
  · exact pure _
  · split
    · exact variableDeclaration.bind fun _ => pure _
    · split
      · exact place.bind fun _ => (expect ..).bind fun _ => expression.bind fun _ => (expect ..).bind fun _ => pure _
      · exact refuse ..

theorem forCondition : Blind forCondition := by
  apply (nextIs _).bind
  intro b
  dsimp only
  split
  · exact (pure _).bind fun _ => (expect ..).bind fun _ => pure _
  · exact (expression.map some).bind fun _ => (expect ..).bind fun _ => pure _

theorem forStep : Blind forStep := by
  apply (nextIs _).bind
  intro b
  dsimp only
  split
  · exact (pure _).bind fun _ => (expect ..).bind fun _ => pure _
  · exact (step.map some).bind fun _ => (expect ..).bind fun _ => pure _

theorem parenthesisedCondition (keyword construct : String) : Blind (parenthesisedCondition keyword construct) :=
  (expect ..).bind fun _ => expression.bind fun _ => (expect ..).bind fun _ => pure _

/-- The four productions of statements, each from those of less depth. -/
theorem productions (depth : Nat) :
    Blind (statements depth) ∧ Blind (statement depth) ∧ (∀ context, Blind (body depth context)) ∧
      Blind (alternative depth) := by
  induction depth with
  | zero => exact ⟨refuseDepth, refuseDepth, fun _ => refuseDepth, refuseDepth⟩
  | succ depth ih =>
    obtain ⟨hstatements, hstatement, hbody, halternative⟩ := ih
    refine ⟨?_, ?_, ?_, ?_⟩
    · rw [statements, statementsBy]
      apply current
      intro r
      -- a closing brace, the end, a nested block, an empty statement, or any other statement
      split
      · exact (pure _).run_amid r
      · exact (pure _).run_amid r
      · exact (advance.bind fun _ => hstatements.bind fun _ => (expect ..).bind fun _ => hstatements.bind fun _ =>
          pure _).run_amid r
      · exact (advance.bind fun _ => hstatements).run_amid r
      · exact (hstatement.bind fun _ => hstatements.bind fun _ => pure _).run_amid r
    · rw [statement, statementBy]
      apply current
      intro r
      split
      · exact (advance.bind fun _ => returned _).run_amid r
      · exact (advance.bind fun _ => (parenthesisedCondition ..).bind fun _ => (hbody _).bind fun _ =>
          halternative.bind fun _ => pure _).run_amid r
      · exact (advance.bind fun _ => (parenthesisedCondition ..).bind fun _ => (hbody _).insideLoop.bind fun _ =>
          pure _).run_amid r
      · exact (advance.bind fun _ => (expect ..).bind fun _ => forStart.bind fun _ => forCondition.bind fun _ =>
          forStep.bind fun _ => (hbody _).insideLoop.bind fun _ => pure _).run_amid r
      · exact (advance.bind fun _ => (requireLoop ..).bind fun _ => (expect ..).bind fun _ => pure _).run_amid r
      · exact (advance.bind fun _ => (requireLoop ..).bind fun _ => (expect ..).bind fun _ => pure _).run_amid r
      · exact (step.bind fun _ => (expect ..).bind fun _ => pure _).run_amid r
      · exact (step.bind fun _ => (expect ..).bind fun _ => pure _).run_amid r
      -- only here more than one lexeme is looked at, and the first of them is a name
      · next hnext => exact .assignmentOrExpression (by simp [hnext])
      · split
        · exact (variableDeclaration.bind fun _ => pure _).run_amid r
        · exact (refuse ..).run_amid r
    · intro context
      rw [body, bodyBy]
      apply (accept .openBrace).bind
      intro b
      split
      · exact hstatements.bind fun _ => (expect ..).bind fun _ => pure _
      · exact hstatement.bind fun _ => pure _
    · rw [alternative, alternativeBy]
      apply (acceptKeyword .elseWord).bind
      intro b
      split
      · apply (acceptKeyword .ifWord).bind
        intro b
        split
        · exact (parenthesisedCondition ..).bind fun _ => (hbody _).bind fun _ => halternative.bind fun _ => pure _
        · exact (hbody _).bind fun _ => pure _
      · exact pure _

/-- The body of a function is blind. -/
theorem block : Blind block := get (fun _ _ => rfl) fun _ => (productions _).1

/-! ## Structs and functions -/

theorem structFields (struct : String) (depth : Nat) (fields : List Field) :
    Blind (structFields struct depth fields) := by
  induction depth generalizing fields with
  | zero => exact refuseDepth
  | succ depth ih =>
    apply current
    intro r
    split
    · exact (pure _).run_amid r
    · exact (pure _).run_amid r
    · exact (dataType.bind fun type => identifier.bind fun name => check (check ((expect ..).bind fun _ =>
        ih _))).run_amid r

/-- The definition of a struct is blind. -/
theorem structDefinition : Blind structDefinition := by
  apply current
  intro r
  refine (identifier.bind fun name => get (fun _ _ => rfl) fun r₁ => check ?_).run_amid r
  refine (expect ..).bind fun _ => get (fun _ _ => rfl) fun r₂ => (structFields ..).bind fun fields => ?_
  refine (expect ..).bind fun _ => (expect ..).bind fun _ => check ?_
  refine bind (modify ?_) fun _ => (note _).bind fun _ => pure _
  intro r₃ s
  rfl

/-- A parameter is blind to what stands behind the end. -/
theorem parameter (others : List Parameter) : Blind (parameter others) := by
  apply current
  intro r
  refine (dataType.bind fun type => identifier.bind fun name => check ?_).run_amid r
  exact (nextIs _).bind fun b => check (check (pure _))

theorem parametersFrom (depth : Nat) (others : List Parameter) : Blind (parametersFrom depth others) := by
  induction depth generalizing others with
  | zero => exact refuseDepth
  | succ depth ih =>
    refine (parameter others).bind fun p => (accept .comma).bind fun b => ?_
    split
    · exact ih _
    · exact pure _

theorem parameters : Blind parameters := by
  have hmore : Blind (MonadState.get >>= fun r : Reader => Grammar.parametersFrom r.depth []) :=
    get (fun _ _ => rfl) fun _ => parametersFrom ..
  apply (nextIs _).bind
  intro b
  split
  · exact pure _
  · constructor
    intro r
    apply BlindAt.nextIs
    by_cases hvoid : r.next.lexeme = .keyword .void
    · -- a keyword is next, so the token behind it is not behind the end
      apply BlindAt.lexemeAhead (Reader.length_rest_pos (by simp [hvoid]))
      split
      · exact (advance.bind fun _ => pure _).run_amid r
      · exact hmore.run_amid r
    · -- the token behind the next one does not count
      intro s
      rw [run_bind_of_ok (run_lexemeAhead 1 r), run_bind_of_ok (run_lexemeAhead 1 (r.amid s))]
      simp only [hvoid, decide_false, Bool.false_and, Bool.false_eq_true, if_false]
      exact hmore.run_amid r s

/-- A function is blind. -/
theorem functionDefinition : Blind functionDefinition := by
  refine dataType.bind fun result => current fun r => ?_
  refine (identifier.bind fun name => (expect ..).bind fun _ => bind (modify fun _ _ => ?_) fun _ => ?_).run_amid r
  · rfl
  · refine parameters.bind fun parameters => (expect ..).bind fun _ => (accept .semicolon).bind fun b => ?_
    split
    · exact (warn ..).bind fun _ => pure _
    · refine (expect ..).bind fun _ => bind (modify fun _ _ => ?_) fun _ => block.bind fun body => ?_
      · rfl
      · exact (expect ..).bind fun _ => (note _).bind fun _ => pure _

/-! ## Items -/

theorem skipWarning (warning : Warning) (loc : Location) : Blind (skipWarning warning loc) :=
  (warn ..).bind fun _ => advance.bind fun _ => pure _

end Blind

/-- An item that begins with a type looks at two tokens behind the type. -/
theorem BlindAt.typedItem {length : Nat} {r : Reader} (h : length ≤ r.rest.length) (loc : Location) :
    BlindAt (typedItem length loc) r := by
  apply lexemesAhead h
  · intro lexeme
    rfl
  · split
    · exact (Blind.functionDefinition.bind fun _ => .pure _).run_amid r
    · exact ((Blind.warn ..).bind fun _ => Blind.skipPastSemicolon.bind fun _ => .pure _).run_amid r
    · exact (Blind.skipWarning ..).run_amid r

namespace Blind

/-- An item is blind, though it is told by several lexemes. -/
theorem topLevel : Blind topLevel := by
  apply current
  intro r
  split
  case h_1 hnext =>
    have hlength := Reader.length_rest_pos (by simp [hnext] : r.next.lexeme ≠ .eof)
    apply BlindAt.lexemesAhead hlength
    · intro lexeme
      rfl
    · split
      · exact (advance.bind fun _ => structDefinition.bind fun _ => pure _).run_amid r
      · next hname _ =>
        -- the name of the struct is there, so the end is not before the token behind it
        have hne : r.rest.length ≠ 1 := by
          intro hend
          rw [← hend, r.ahead_length] at hname
          cases hname
        exact .typedItem (by omega) _
      · exact (skipWarning ..).run_amid r
  case h_7 => exact (skipWarning ..).run_amid r
  all_goals
    next hnext => exact .typedItem (Reader.length_rest_pos (by simp [hnext])) _

/-- The items of a program are blind. -/
theorem items (depth : Nat) : Blind (items depth) := by
  induction depth with
  | zero => exact refuseDepth
  | succ depth ih =>
    apply (nextIs _).bind
    intro b
    split
    · exact pure _
    · exact topLevel.bind fun item => ih.bind fun rest => pure _

/-- Programs are blind. -/
theorem program : Blind program :=
  get (fun _ _ => rfl) fun _ => (items _).bind fun _ => get (fun _ _ => rfl) fun _ => (note _).bind fun _ => pure _

end Blind

end Grammar

end ClockedC
