import ClockedC.Proofs.Indexing.Arrays
import ClockedC.Proofs.Indexing.Spelling
import ClockedC.Proofs.Reading.Errors

/-!
# What the body of a function declares before a constant index misses

The body of a function is gone through token by token. Wherever a production ends, the arrays declared on the way are
registered; where it ends because a constant index misses an array, it has come to the tokens of an element with that
index, and the array is the one in the table there.
-/

namespace ClockedC

/-- From `r` to `r'` stand the tokens of an element at `loc`: the array `name` has `size` elements, and the index is a
literal with the value `index` outside of it. -/
def Reader.Misses (r r' : Reader) (index : Int) (name : String) (size : Nat) (loc : Location) : Prop :=
  ∃ tokens text, r.rest = tokens ++ r'.rest ∧ tokens.head?.map (·.loc) = some loc ∧
    SpellsElement (tokens.map (·.lexeme)) name text ∧ Text.integer64? text = some index ∧
    r.tables.arrays.size? name = some size ∧ (index < 0 ∨ (size : Int) ≤ index)

namespace Grammar

variable {α β : Type}

/-! ## Steps without a check of an index -/

/-- A step that never finds that an index misses an array. -/
abbrev Quiet (p : ReadM α) : Prop := Avoids CompileError.IsOutOfBounds p

namespace Quiet

export Avoids (accept advance check current dataType expect get identifier lexemeAhead modify nextIs note parameter
  pure)

/-- Want of depth is another end. -/
theorem refuseDepth : Quiet (refuseDepth : ReadM α) :=
  get.bind fun _ => .throw (by rintro ⟨index, name, size, loc, heq⟩; cases heq)

end Quiet

/-! ## Steps that register what is declared on their way -/

/-- Behind a step from `r` the arrays declared on the way are registered; where it ends because an index misses an
array, this holds of the reader before the element. -/
def Outcome.Walked (r : Reader) : EStateM.Result CompileError Reader α → Prop
  | .ok _ r' => r.WalksTo r'
  | .error (.outOfBounds index name size loc) r' => ∃ r₁, r.WalksTo r₁ ∧ r₁.Misses r' index name size loc
  | .error _ _ => True

namespace Outcome.Walked

variable {r r₁ : Reader}

/-- What holds behind a step holds behind the steps before it as well. -/
theorem behind {outcome : EStateM.Result CompileError Reader α} (h : r.WalksTo r₁) (h' : Walked r₁ outcome) :
    Walked r outcome := by
  cases outcome with
  | ok a r' => exact h.trans h'
  | error e r' =>
    cases e with
    | outOfBounds index name size loc =>
      obtain ⟨r₂, hwalks, hmisses⟩ := h'
      exact ⟨r₂, h.trans hwalks, hmisses⟩
    | _ => trivial

/-- What is registered in the first step and in the second is registered on the whole way. -/
theorem bind {p : ReadM α} {k : α → ReadM β} (hp : Walked r (p.run r₁))
    (hk : ∀ a r₂, p.run r₁ = .ok a r₂ → Walked r ((k a).run r₂)) : Walked r ((p >>= k).run r₁) := by
  rw [EStateM.run_bind]
  cases hrun : p.run r₁ with
  | ok a r₂ => exact hk a r₂ hrun
  | error e r₂ =>
    rw [hrun] at hp
    cases e with
    | outOfBounds index name size loc => exact hp
    | _ => trivial

/-- Behind a step that checks no index, which need not be at the end of a declaration. -/
theorem bind_quiet {p : ReadM α} {k : α → ReadM β} (hp : Quiet p)
    (hk : ∀ a r₂, p.run r₁ = .ok a r₂ → Walked r ((k a).run r₂)) : Walked r ((p >>= k).run r₁) := by
  rw [EStateM.run_bind]
  cases hrun : p.run r₁ with
  | ok a r₂ => exact hk a r₂ hrun
  | error e r₂ =>
    cases e with
    | outOfBounds index name size loc => exact absurd ⟨_, _, _, _, rfl⟩ (hp.not_kind hrun)
    | _ => trivial

end Outcome.Walked

/-- A step that registers what is declared on its way. -/
structure Walks (p : ReadM α) : Prop where
  run_walked : ∀ r : Reader, Outcome.Walked r (p.run r)

namespace Walks

/-- Where a step succeeds. -/
theorem walksTo {p : ReadM α} (hp : Walks p) {r r' : Reader} {a : α} (h : p.run r = .ok a r') : r.WalksTo r' := by
  have := hp.run_walked r
  rwa [h] at this

/-- A sequence registers what its steps do. -/
theorem bind {p : ReadM α} {k : α → ReadM β} (hp : Walks p) (hk : ∀ a, Walks (k a)) : Walks (p >>= k) :=
  ⟨fun r => (hp.run_walked r).bind fun a r₁ h => .behind (hp.walksTo h) ((hk a).run_walked r₁)⟩

theorem pure (a : α) : Walks (Pure.pure a) := ⟨fun r => .refl r⟩

/-- What is made of the result does not matter. -/
theorem map {p : ReadM α} (hp : Walks p) (f : α → β) : Walks (f <$> p) := by
  rw [← bind_pure_comp]
  exact hp.bind fun _ => pure _

theorem get : Walks get := ⟨fun r => .refl r⟩

theorem refuse (fault : SyntacticFault) (loc : Location) : Walks (refuse fault loc : ReadM α) := ⟨fun _ => trivial⟩

theorem refuseDeclaration (fault : DeclarationFault) (loc : Location) :
    Walks (refuseDeclaration fault loc : ReadM α) := ⟨fun _ => trivial⟩

theorem refuseDepth : Walks (refuseDepth : ReadM α) := ⟨fun _ => trivial⟩

/-- A check in front of a step. -/
theorem check {c : Prop} [Decidable c] {fault : DeclarationFault} {loc : Location} {k : α → ReadM β} {p : ReadM β}
    (h : Walks p) : Walks (if c then Grammar.refuseDeclaration fault loc >>= k else p) := by
  split
  · exact ⟨fun _ => trivial⟩
  · exact h

/-! ## Moves -/

theorem nextIs (lexeme : Lexeme) : Walks (nextIs lexeme) := ⟨fun r => .refl r⟩

/-- What follows on the next token may make use of which token that is. -/
theorem current {k : Token → ReadM β} (hk : ∀ r : Reader, Outcome.Walked r ((k r.next).run r)) :
    Walks (current >>= k) := ⟨hk⟩

/-- Going past a token with which no declaration begins. -/
theorem advance {k : Unit → ReadM β} {r : Reader} (h : startsVariable r.next.lexeme = false)
    (hk : ∀ u, Walks (k u)) : Outcome.Walked r ((advance >>= k).run r) := by
  rw [run_bind_of_ok (run_advance r)]
  exact .behind (.tail h) ((hk ()).run_walked _)

/-- A lexeme that begins no type is passed without registering. -/
theorem acceptLexeme {lexeme : Lexeme} (h : startsVariable lexeme = false) : Walks (acceptLexeme lexeme) := by
  constructor
  intro r
  rw [run_acceptLexeme]
  split
  · next hnext => exact .tail (hnext ▸ h)
  · exact .refl r

theorem accept (symbol : Symbol) : Walks (accept symbol) := acceptLexeme rfl

/-- A symbol begins no declaration. -/
theorem expect (symbol : Symbol) (context : String) : Walks (expect symbol context) := by
  constructor
  intro r
  rw [run_expect]
  split
  · next hnext => exact .tail (by rw [hnext]; rfl)
  · trivial

/-- A name begins no declaration, since a type stands in front of one. -/
theorem identifier : Walks identifier := by
  apply current
  intro r
  split
  · next name hnext => exact advance (by rw [hnext]; rfl) fun _ => pure _
  · trivial

/-- A jump goes past nothing. -/
theorem requireLoop (keyword : Keyword) (loc : Location) : Walks (requireLoop keyword loc) := by
  apply get.bind
  intro r
  split
  · exact ⟨fun _ => trivial⟩
  · exact pure _

/-- A loop is opened and closed again without a move. -/
theorem insideLoop {p : ReadM α} (hp : Walks p) : Walks (insideLoop p) := by
  constructor
  intro r
  have h := hp.run_walked { r with loopDepth := r.loopDepth + 1 }
  rw [EStateM.run] at h
  rw [EStateM.run, Grammar.insideLoop]
  cases hrun : p { r with loopDepth := r.loopDepth + 1 } with
  | ok a r' =>
    rw [hrun] at h
    exact h
  | error e r' =>
    rw [hrun] at h
    cases e with
    | outOfBounds index name size loc => exact h
    | _ => trivial

/-! ## Places -/

/-- Fields go past dots and names. -/
theorem fieldsOf (loc : Location) (depth : Nat) (base : Expr) : Walks (fieldsOf loc depth base) := by
  induction depth generalizing base with
  | zero => exact refuseDepth
  | succ depth ih =>
    apply (accept .dot).bind
    intro b
    split
    · exact identifier.bind fun name => ih _
    · exact pure _

/-- An index is refused because it misses an array of known size. -/
theorem run_checkIndex_cases (base index : Expr) (loc : Location) (r : Reader) :
    (checkIndex base index loc).run r = .ok () r ∨
      ∃ value name size, index.integer? = some value ∧ base.flatName? = some name ∧
        r.tables.arrays.size? name = some size ∧ (value < 0 ∨ (size : Int) ≤ value) ∧
        (checkIndex base index loc).run r = .error (.outOfBounds value name size loc) r := by
  rw [checkIndex, run_bind_of_ok (EStateM.run_get r)]
  dsimp only
  split
  · next value name hvalue hname =>
    split
    · next size hsize =>
      split
      · next hmiss => exact .inr ⟨value, name, size, hvalue, hname, hsize, hmiss, rfl⟩
      · exact .inl rfl
    · exact .inl rfl
  · exact .inl rfl

/-- The index of a place is checked behind its closing bracket. -/
theorem placeWith (depth : Nat) {index : ReadM Expr} (hindex : Walks index) (hmoves : Moves index)
    (hliterals : ReadsLiterals index) : Walks (placeWith depth index) := by
  constructor
  intro r
  rw [Grammar.placeWith, placeBy, run_bind_of_ok (run_current r)]
  refine (identifier.run_walked r).bind fun name r₁ hname => ?_
  have h₁ := identifier.walksTo hname
  refine Outcome.Walked.bind (.behind h₁ ((fieldsOf ..).run_walked r₁)) fun base r₂ hbase => ?_
  have h₂ := h₁.trans ((fieldsOf ..).walksTo hbase)
  refine Outcome.Walked.bind (.behind h₂ ((accept _).run_walked r₂)) fun b r₃ haccept => ?_
  have h₃ := h₂.trans ((accept _).walksTo haccept)
  cases b with
  | false => exact h₃
  | true =>
    refine Outcome.Walked.bind (.behind h₃ (hindex.run_walked r₃)) fun position r₄ hposition => ?_
    have h₄ := h₃.trans (hindex.walksTo hposition)
    refine Outcome.Walked.bind (.behind h₄ ((expect ..).run_walked r₄)) fun _ r₅ hclose => ?_
    have h₅ := h₄.trans ((expect ..).walksTo hclose)
    rcases run_checkIndex_cases base position r.next.loc r₅ with hok |
      ⟨value, flat, size, hvalue, hflat, hsize, hmiss, herror⟩
    · rw [run_bind_of_ok hok]
      exact h₅
    · rw [EStateM.run_bind, herror]
      refine ⟨r, .refl r, ?_⟩
      -- the tokens since the name are those of the element
      have hspells : SpellsPlace [.identifier name] name := .ident name
      obtain ⟨fields, flat', hfields, hplace, hflat'⟩ := exists_spelling_of_fieldsOf hbase hspells rfl
      obtain rfl : flat' = flat := Option.some.inj (hflat'.symm.trans hflat)
      obtain ⟨text, loc, rfl⟩ : ∃ text loc, position = .number text loc := by
        cases position with
        | number text loc => exact ⟨text, loc, rfl⟩
        | _ => cases hvalue
      obtain ⟨literal, hliteral, hspells⟩ := hliterals.exists_spelling hposition
      have hpasses : r.Passes r₅ := (Moves.identifier.passes hname).trans (((Moves.fieldsOf ..).passes hbase).trans
        (((Moves.accept _).passes haccept).trans ((hmoves.passes hposition).trans
          ((Moves.expect ..).passes hclose))))
      refine ⟨⟨.identifier name, r.next.loc⟩ :: (fields ++ ⟨.symbol .openBracket, r₂.next.loc⟩ :: (literal ++
        [⟨.symbol .closeBracket, r₄.next.loc⟩])), text, ?_, rfl, ⟨_, _, hplace, hspells, ?_⟩, hvalue, ?_, hmiss⟩
      · rw [rest_of_identifier hname, hfields, rest_of_accept haccept, hliteral, rest_of_expect hclose]
        simp
      · simp
      · rw [← hpasses.tables_eq]
        exact hsize

/-! ## Expressions -/

theorem commaSeparated {item : ReadM α} (h : Walks item) (depth : Nat) : Walks (commaSeparated item depth) := by
  induction depth with
  | zero => exact refuseDepth
  | succ depth ih =>
    refine h.bind fun first => (accept .comma).bind fun b => ?_
    split
    · exact ih.bind fun rest => pure _
    · exact pure _

/-- Arguments are walked up to their parenthesis. -/
theorem argumentsWith (depth : Nat) {argument : ReadM Expr} (h : Walks argument) :
    Walks (argumentsWith depth argument) := by
  apply (nextIs _).bind
  intro b
  dsimp only
  split
  · exact (pure _).bind fun _ => (expect ..).bind fun _ => pure _
  · exact (commaSeparated h depth).bind fun _ => (expect ..).bind fun _ => pure _

/-- An operator begins no declaration. -/
theorem startsVariable_of_ofLexeme? {lexeme : Lexeme} {op : Operator} (h : Operator.ofLexeme? lexeme = some op) :
    startsVariable lexeme = false := by
  cases lexeme with
  | symbol s => rfl
  | _ => cases h

/-- The three productions of expressions, each from those of less depth. -/
theorem expressions (depth : Nat) :
    (∀ least, Walks (expressionAt depth least)) ∧ (∀ least left, Walks (operatorsFrom depth least left)) ∧
      Walks (primary depth) := by
  induction depth with
  | zero => exact ⟨fun _ => refuseDepth, fun _ _ => refuseDepth, refuseDepth⟩
  | succ depth ih =>
    obtain ⟨hexpr, hops, hprimary⟩ := ih
    refine ⟨?_, ?_, ?_⟩
    · intro least
      rw [expressionAt, expressionBy]
      exact hprimary.bind fun left => hops least left
    · intro least left
      rw [operatorsFrom, operatorsBy]
      apply current
      intro r
      rw [run_bind_of_ok (run_operatorFrom? least r)]
      split
      · exact .refl r
      · next op hop =>
        have hstarts := startsVariable_of_ofLexeme? (Option.filter_eq_some_iff.1 hop).1
        exact advance hstarts fun _ => (hexpr _).bind fun right => hops least _
    · rw [primary, operandBy]
      apply current
      intro r
      split
      · next hnext => exact advance (by rw [hnext]; rfl) fun _ => hprimary.bind fun _ => pure _
      · next hnext => exact advance (by rw [hnext]; rfl) fun _ => hprimary.bind fun _ => pure _
      · next hnext => exact advance (by rw [hnext]; rfl) fun _ => hprimary.bind fun _ => pure _
      · next hnext =>
        exact advance (by rw [hnext]; rfl) fun _ => (hexpr _).bind fun _ => (expect ..).bind fun _ => pure _
      · next hnext => exact advance (by rw [hnext]; rfl) fun _ => pure _
      · next name hnext =>
        rw [run_bind_of_ok (run_lexemeAhead 1 r)]
        split
        · next hahead =>
          -- the parenthesis seen ahead is the second token that is gone past
          rw [Reader.ahead_one (by simp [hnext])] at hahead
          rw [run_bind_of_ok (run_advance r)]
          exact .behind (.tail (by rw [hnext]; rfl))
            (advance (by rw [hahead]; rfl) fun _ => (argumentsWith depth (hexpr _)).bind fun _ => pure _)
        · exact (placeWith depth (hexpr _) (Moves.expressionAt ..) ((ReadsLiterals.expressions depth).1 _)).run_walked r
      · trivial
      · trivial

/-- Expressions are walked. -/
theorem expression : Walks expression := get.bind fun _ => (expressions _).1 _

/-- Places are walked, and this is where an index may miss. -/
theorem place : Walks place := get.bind fun _ => placeWith _ expression Moves.expression ReadsLiterals.expression

/-! ## Declarations -/

theorem braceValues (depth : Nat) : Walks (braceValues depth) := by
  induction depth with
  | zero => exact refuseDepth
  | succ depth ih =>
    apply (nextIs _).bind
    intro b
    split
    · exact pure _
    · refine expression.bind fun value => (accept .comma).bind fun b => ?_
      split
      · exact ih.bind fun rest => pure _
      · exact pure _

/-- A list of values is walked up to its brace. -/
theorem braceList : Walks braceList :=
  get.bind fun _ => (braceValues _).bind fun _ => (expect ..).bind fun _ => pure _

/-- A first value is walked, whatever its form. -/
theorem initializer (name : String) (type : DataType) (length : Option Nat) (loc : Location) :
    Walks (initializer name type length loc) := by
  apply (accept .openBrace).bind
  intro b
  split
  · apply braceList.bind
    intro values
    split
    · exact check (pure _)
    · exact get.bind fun _ => check (pure _)
    · exact refuseDeclaration ..
  · exact check (expression.bind fun _ => pure _)

/-- An array is registered at its closing bracket. Any other variable is no array, because no bracket follows on its
name. -/
theorem variableDeclaration : Walks variableDeclaration := by
  constructor
  intro r
  rw [Grammar.variableDeclaration, run_bind_of_ok (run_current r)]
  refine .bind_quiet .dataType fun type r₁ htype => .bind_quiet .identifier fun name r₂ hname => ?_
  split
  · trivial
  · next hvoid =>
    obtain ⟨tokens, hrest, htokens⟩ := exists_isType_of_dataType htype hvoid
    have hname' := rest_of_identifier hname
    have harrays : r₂.tables.arrays = r.tables.arrays := by
      rw [((Moves.dataType.passes htype).trans (Moves.identifier.passes hname)).tables_eq]
    -- the name alone may still become an array, so the first reader to speak of stands behind one more token
    have hscalar {symbol : Symbol} (hsymbol : symbol ≠ .openBracket) (hnext : r₂.next.lexeme = .symbol symbol) :
        r.WalksTo (r₂.withRest r₂.rest.tail) := by
      refine ⟨tokens ++ [⟨.identifier name, r₁.next.loc⟩, ⟨.symbol symbol, r₂.next.loc⟩], [], ?_, ?_, harrays⟩
      · rw [hrest, hname', Reader.rest_eq_cons_of_next hnext (by simp)]
        simp
      · rw [List.map_append]
        exact .scalar htokens name hsymbol
    refine .bind_quiet (.arrayBrackets name) fun length r₃ hlength => ?_
    rcases rest_of_arrayBrackets hlength with ⟨rfl, -⟩ | ⟨text, n, brackets, hbrackets, hlexemes, hn, hregistered⟩
    · by_cases hassign : r₃.next.lexeme = .symbol .assign
      · have haccept : (Grammar.accept .assign).run r₃ = .ok true (r₃.withRest r₃.rest.tail) := by
          rw [run_accept, if_pos hassign]
        rw [run_bind_of_ok haccept]
        refine .behind (hscalar (by simp) hassign) (Walks.run_walked ?_ _)
        exact ((initializer ..).map _).bind fun _ => (expect ..).bind fun _ => pure _
      · rw [run_bind_of_ok (run_accept_of_ne hassign)]
        refine .bind_quiet (.pure _) fun init r₄ hinit => .bind_quiet (.expect ..) fun _ r₅ hend => ?_
        cases hinit
        obtain ⟨hnext, rfl⟩ := run_expect_eq_ok hend
        exact hscalar (by simp) hnext
    · have hwalks : r.WalksTo r₃ := by
        refine ⟨tokens ++ ⟨.identifier name, r₁.next.loc⟩ :: brackets, [(name, n)], ?_, ?_, ?_⟩
        · rw [hrest, hname', hbrackets]
          simp
        · rw [List.map_append, List.map_cons, hlexemes]
          exact .array htokens hn name
        · rw [hregistered, harrays]
          rfl
      refine .behind hwalks (Walks.run_walked ((accept .assign).bind fun b => ?_) r₃)
      dsimp only
      split
      · exact ((initializer ..).map _).bind fun _ => (expect ..).bind fun _ => pure _
      · exact (pure _).bind fun _ => (expect ..).bind fun _ => pure _

/-! ## Statements -/

/-- A symbol that steps begins no declaration. -/
theorem startsVariable_of_stepOperator? {lexeme : Lexeme} {op : Operator} (h : stepOperator? lexeme = some op) :
    startsVariable lexeme = false := by
  cases lexeme with
  | symbol s => rfl
  | _ => cases h

theorem step : Walks step := by
  apply current
  intro r
  split
  · next op hop => exact advance (startsVariable_of_stepOperator? hop) fun _ => place.bind fun _ => pure _
  · refine (place.bind fun target => current fun r' => ?_).run_walked r
    split
    · next op hop => exact advance (startsVariable_of_stepOperator? hop) fun _ => pure _
    · refine ((accept .assign).bind fun b => ?_).run_walked r'
      split
      · exact expression.bind fun _ => pure _
      · exact refuse ..

theorem expressionStatement : Walks expressionStatement :=
  expression.bind fun _ => (expect ..).bind fun _ => pure _

/-- A statement that begins with a name, with the tokens of a place taken back where no assignment follows. -/
theorem assignmentOrExpression : Walks assignmentOrExpression := by
  constructor
  intro r
  rw [Grammar.assignmentOrExpression, run_bind_of_ok (EStateM.run_get r), run_bind_of_ok (run_lexemeAhead 1 r)]
  split
  · exact expressionStatement.run_walked r
  · refine (place.run_walked r).bind fun target r₁ htarget => ?_
    have h₁ := place.walksTo htarget
    rw [run_bind_of_ok (run_current r₁)]
    split
    · next op hop =>
      exact .behind h₁ (advance (startsVariable_of_stepOperator? hop) fun _ => (expect ..).bind fun _ => pure _)
    · refine Outcome.Walked.bind (.behind h₁ ((accept .assign).run_walked r₁)) fun b r₂ haccept => ?_
      have h₂ := h₁.trans ((accept .assign).walksTo haccept)
      split
      · exact .behind h₂ ((expression.bind fun _ => (expect ..).bind fun _ => pure _).run_walked r₂)
      · -- whatever was read of the place, the statement is read from its beginning again
        have hpasses := (Moves.place.passes htarget).trans ((Moves.accept .assign).passes haccept)
        rw [run_bind_of_ok (EStateM.run_modify _ r₂), hpasses.takeBack]
        exact expressionStatement.run_walked r

theorem returned (loc : Location) : Walks (returned loc) := by
  apply (accept .semicolon).bind
  intro b
  split
  · exact pure _
  · exact expression.bind fun _ => (expect ..).bind fun _ => pure _

/-- The start of a loop is walked, and may be a declaration. -/
theorem forStart : Walks forStart := by
  apply current
  intro r
  refine ((accept .semicolon).bind fun b => ?_).run_walked r
  split
  · exact pure _
  · split
    · exact variableDeclaration.bind fun _ => pure _
    · split
      · exact place.bind fun _ => (expect ..).bind fun _ => expression.bind fun _ => (expect ..).bind fun _ => pure _
      · exact refuse ..

theorem forCondition : Walks forCondition := by
  apply (nextIs _).bind
  intro b
  dsimp only
  split
  · exact (pure _).bind fun _ => (expect ..).bind fun _ => pure _
  · exact (expression.map some).bind fun _ => (expect ..).bind fun _ => pure _

/-- The step of a loop is walked up to the parenthesis. -/
theorem forStep : Walks forStep := by
  apply (nextIs _).bind
  intro b
  dsimp only
  split
  · exact (pure _).bind fun _ => (expect ..).bind fun _ => pure _
  · exact (step.map some).bind fun _ => (expect ..).bind fun _ => pure _

theorem parenthesisedCondition (keyword construct : String) : Walks (parenthesisedCondition keyword construct) :=
  (expect ..).bind fun _ => expression.bind fun _ => (expect ..).bind fun _ => pure _

/-- The four productions of statements, each from those of less depth. -/
theorem productions (depth : Nat) :
    Walks (statements depth) ∧ Walks (statement depth) ∧ (∀ context, Walks (body depth context)) ∧
      Walks (alternative depth) := by
  induction depth with
  | zero => exact ⟨refuseDepth, refuseDepth, fun _ => refuseDepth, refuseDepth⟩
  | succ depth ih =>
    obtain ⟨hstatements, hstatement, hbody, halternative⟩ := ih
    refine ⟨?_, ?_, ?_, ?_⟩
    · rw [statements, statementsBy]
      apply current
      intro r
      split
      · exact .refl r
      · exact .refl r
      · next hnext =>
        exact advance (by rw [hnext]; rfl) fun _ => hstatements.bind fun _ => (expect ..).bind fun _ =>
          hstatements.bind fun _ => pure _
      · next hnext => exact advance (by rw [hnext]; rfl) fun _ => hstatements
      · exact (hstatement.bind fun _ => hstatements.bind fun _ => pure _).run_walked r
    · -- no declaration begins with what `advance` goes past, so none is passed over
      rw [statement, statementBy]
      apply current
      intro r
      split
      · next hnext => exact advance (by rw [hnext]; rfl) fun _ => returned _
      · next hnext =>
        exact advance (by rw [hnext]; rfl) fun _ => (parenthesisedCondition ..).bind fun _ => (hbody _).bind fun _ =>
          halternative.bind fun _ => pure _
      · next hnext =>
        exact advance (by rw [hnext]; rfl) fun _ => (parenthesisedCondition ..).bind fun _ =>
          (hbody _).insideLoop.bind fun _ => pure _
      · next hnext =>
        exact advance (by rw [hnext]; rfl) fun _ => (expect ..).bind fun _ => forStart.bind fun _ =>
          forCondition.bind fun _ => forStep.bind fun _ => (hbody _).insideLoop.bind fun _ => pure _
      · next hnext =>
        exact advance (by rw [hnext]; rfl) fun _ => (requireLoop ..).bind fun _ => (expect ..).bind fun _ => pure _
      · next hnext =>
        exact advance (by rw [hnext]; rfl) fun _ => (requireLoop ..).bind fun _ => (expect ..).bind fun _ => pure _
      · exact (step.bind fun _ => (expect ..).bind fun _ => pure _).run_walked r
      · exact (step.bind fun _ => (expect ..).bind fun _ => pure _).run_walked r
      · exact assignmentOrExpression.run_walked r
      · split
        · exact (variableDeclaration.bind fun _ => pure _).run_walked r
        · trivial
    · intro context
      rw [body, bodyBy]
      apply (accept .openBrace).bind
      intro b
      split
      · exact hstatements.bind fun _ => (expect ..).bind fun _ => pure _
      · exact hstatement.bind fun _ => pure _
    · rw [alternative, alternativeBy]
      apply Walks.bind (acceptLexeme rfl)
      intro b
      split
      · apply Walks.bind (acceptLexeme rfl)
        intro b
        split
        · exact (parenthesisedCondition ..).bind fun _ => (hbody _).bind fun _ => halternative.bind fun _ => pure _
        · exact (hbody _).bind fun _ => pure _
      · exact pure _

/-- The body of a function is walked. -/
theorem block : Walks block := get.bind fun _ => (productions _).1

end Walks

end Grammar

end ClockedC
