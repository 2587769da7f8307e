import ClockedC.Proofs.Recursion.Unfolding

/-!
# The grammar comes to an end

Every call that a production makes of a production of its group has less left to read than itself. So finitely many
calls read everything, and the depth that bounds the grammar never runs out, whatever tokens there are.
-/

namespace ClockedC.Grammar

variable {α β : Type} {r : Reader} {p : Production α}

namespace Finishes

export Avoids (acceptLexeme advance accept arrayBrackets check current dataType expect get identifier lexemeAhead modify
  nextIs note parameter pure refuse refuseDeclaration skipWarning throw warn)

/-- A jump outside of a loop is another fault. -/
theorem requireLoop (keyword : Keyword) (loc : Location) : Finishes (requireLoop keyword loc) := by
  apply get.bind
  intro r
  split
  · exact throw (by rintro ⟨loc, heq⟩; cases heq)
  · exact pure _

/-- An index that misses is another fault. -/
theorem checkIndex (base index : Expr) (loc : Location) : Finishes (checkIndex base index loc) := by
  apply get.bind
  intro r
  dsimp only
  split
  · split
    · split
      · exact throw (by rintro ⟨loc, heq⟩; cases heq)
      · exact pure _
    · exact pure _
  · exact pure _

end Finishes

/-! ## Expressions -/

namespace Production

/-- Operators are read with an operand in between, so fewer tokens are left. -/
theorem guarded_operators (least : Int) (left : Expr) : (operators least left).Guarded := by
  intro call call' r hforward hsame
  apply SameAt.current
  refine .known (run_operatorFrom? least r) ?_
  cases hop : (Operator.ofLexeme? r.next.lexeme).filter (least ≤ ·.precedence) with
  | none => exact .pure _
  | some op =>
    have hnext : r.next.lexeme ≠ .eof := by
      intro heof
      rw [heof] at hop
      cases hop
    refine .advance hnext ?_
    refine (hsame.sameWithin (expression _) rfl).bind (hforward.movesLocally _ nofun) fun right => ?_
    exact hsame.sameWithin (operators ..) rfl

/-- A place, where the name has been seen and its fields and index are calls. -/
theorem sameAt_placeBy {fields fields' : Location → Expr → ReadM Expr} {index index' : ReadM Expr}
    (hfields : ∀ loc base, SameWithin r.rest.length (fields loc base) (fields' loc base))
    (hmoves : ∀ loc base, MovesLocally (fields loc base)) (hindex : SameWithin r.rest.length index index')
    (hmovesIndex : MovesLocally index) : SameAt (placeBy fields index) (placeBy fields' index') r := by
  apply SameAt.current
  refine (SameAt.of_finishes .identifier).consuming (Consumes.identifier.consumesAt r) fun name => ?_
  refine (hfields _ _).bind (hmoves _ _) fun base => .move (.accept _) (.accept _) fun b => ?_
  cases b with
  | false => exact .pure _
  | true =>
    exact hindex.bind hmovesIndex fun position => .move (.expect ..) (.expect ..) fun _ =>
      .move (.checkIndex ..) (.checkIndex ..) fun _ => .pure _

/-- Arguments move on locally if their list does. -/
theorem movesLocally_argumentsBy {list : ReadM (List Expr)} (hm : MovesLocally list) :
    MovesLocally (argumentsBy list) := by
  refine .move (.nextIs _) fun b => ?_
  dsimp only
  split
  · exact (MovesLocally.pure _).bind fun _ => .move (.expect ..) fun _ => .pure _
  · exact hm.bind fun _ => .move (.expect ..) fun _ => .pure _

/-- Arguments are the same if their lists are, within as many tokens. -/
theorem sameWithin_argumentsBy {n : Nat} {list list' : ReadM (List Expr)} (h : SameWithin n list list')
    (hm : MovesLocally list) : SameWithin n (argumentsBy list) (argumentsBy list') := by
  refine .move (.nextIs _) (.nextIs _) fun b => ?_
  dsimp only
  split
  · exact (SameWithin.pure _).bind (.pure _) fun _ => .move (.expect ..) (.expect ..) fun _ => .pure _
  · exact h.bind hm fun _ => .move (.expect ..) (.expect ..) fun _ => .pure _

/-- An operand calls another one only behind a token. -/
theorem guarded_operand : operand.Guarded := by
  intro call call' r hforward hsame
  have hoperand := hsame.sameWithin operand rfl
  have hmoves : MovesLocally (call operand) := hforward.movesLocally operand nofun
  apply SameAt.current
  split
  · next hnext => exact .advance (by simp [hnext]) (hoperand.bind hmoves fun _ => .pure _)
  · next hnext => exact .advance (by simp [hnext]) (hoperand.bind hmoves fun _ => .pure _)
  · next hnext => exact .advance (by simp [hnext]) (hoperand.bind hmoves fun _ => .pure _)
  · next hnext =>
    refine .advance (by simp [hnext]) ?_
    refine (hsame.sameWithin (expression _) rfl).bind (hforward.movesLocally _ nofun) fun _ => ?_
    exact .move (.expect ..) (.expect ..) fun _ => .pure _
  · exact .of_finishes (Finishes.advance.bind fun _ => .pure _)
  · next name hnext =>
    -- a parenthesis behind the name tells a call from a place
    refine .known (run_lexemeAhead 1 r) ?_
    split
    · refine .advance (by simp [hnext]) (.move .advance .advance fun _ => ?_)
      have hmoves : MovesLocally (call arguments) := hforward.movesLocally arguments nofun
      have hargs := sameWithin_argumentsBy (hsame.sameWithin arguments rfl) hmoves
      exact hargs.bind (movesLocally_argumentsBy hmoves) fun _ => .pure _
    · exact sameAt_placeBy (fun loc base => hsame.sameWithin (fields loc base) rfl)
        (fun _ _ => hforward.movesLocally _ nofun) (hsame.sameWithin (expression _) rfl)
        (hforward.movesLocally _ nofun)
  · exact .of_finishes (.refuse nofun)
  · exact .of_finishes (.refuse nofun)

/-- All calls among the productions of expressions have less left to read. -/
theorem guarded_of_expressions : Group.Guarded .expressions := by
  intro α p hgroup
  cases p with
  | operand => exact guarded_operand
  | operators least left => exact guarded_operators least left
  | expression least =>
    intro call call' r hforward hsame
    have hoperand := hsame.sameAt operand r (.of_le rfl Nat.zero_lt_one le_rfl)
    refine hoperand.movesOn (hforward.movesLocally _ nofun) fun left r' hle => ?_
    exact hsame.sameAt _ r' (.of_le rfl Nat.zero_lt_one hle)
  | fields loc base =>
    intro call call' r hforward hsame
    refine .accept (.move .identifier .identifier fun name => hsame.sameWithin (fields ..) rfl) (.pure _)
  | arguments =>
    intro call call' r hforward hsame
    have hfirst := hsame.sameAt (expression Operator.lowestPrecedence) r (.of_le rfl (by decide) le_rfl)
    refine hfirst.movesOn (hforward.movesLocally _ nofun) fun first r' hle => ?_
    refine .accept ⟨fun r₂ hlt => ?_⟩ (.pure _)
    exact (hsame.sameAt arguments r₂ (.of_lt rfl (by omega))).bind fun _ _ _ => .pure _
  | values | statements | statement | body | alternative | structFields | parameters | items => cases hgroup

end Production

/-- A production of a group whose productions are guarded. -/
theorem Finishes.read {group : Group} (hguarded : group.Guarded) (hgroup : p.group = group) : Finishes p.read :=
  of_not_givesUp fun r => (Production.sameAt_read hguarded hgroup rfl (p.need_lt_depth r)).symm.not_givesUp

/-- The depth is asked for at the place where a production begins. -/
theorem Finishes.read_bind {group : Group} {k : α → ReadM β} (hguarded : group.Guarded) (hgroup : p.group = group)
    (hk : ∀ a, Finishes (k a)) : Finishes (MonadState.get >>= fun r => p.readWithin r.depth >>= k) := by
  rw [← bind_assoc]
  exact (read hguarded hgroup).bind hk

namespace Finishes

/-- Expressions do not run out of depth. -/
theorem expression : Finishes expression :=
  read (p := .expression Operator.lowestPrecedence) Production.guarded_of_expressions rfl

/-- The fields of a place are read within the depth from before its name. -/
theorem place : Finishes place := by
  apply of_not_givesUp
  intro r
  have hfields : ∀ loc base, SameWithin r.rest.length (fieldsOf loc r.depth base) (fieldsOf loc r.depth base) := by
    intro loc base
    constructor
    intro r' hlt
    have hdepth : (Production.fields loc base).need r' < r.depth := by
      have := (Production.fields loc base).need_lt_depth r'
      rw [r'.depth_eq] at this
      rw [r.depth_eq]
      omega
    have hsame := Production.sameAt_read Production.guarded_of_expressions rfl rfl hdepth
    exact hsame.trans hsame.symm
  rw [Grammar.place, run_bind_of_ok (EStateM.run_get r)]
  exact (Production.sameAt_placeBy hfields (fun _ _ => .of_moves (.fieldsOf ..)) (.of_finishes expression)
    (.of_moves .expression)).not_givesUp

end Finishes

/-! ## Variables -/

/-- The values of a list are read one after the other, each with a token. -/
theorem Production.guarded_values : values.Guarded := by
  intro call call' r hforward hsame
  refine .known (run_nextIs _ r) ?_
  split
  · exact .pure _
  · refine (SameAt.of_finishes .expression).consuming (Consumes.expression.consumesAt r) fun value => ?_
    refine .move (.accept _) (.accept _) fun b => ?_
    split
    · exact (hsame.sameWithin values rfl).bind (hforward.movesLocally _ nofun) fun _ => .pure _
    · exact .pure _

/-- All calls among the values of a list have less left to read. -/
theorem Production.guarded_of_values : Group.Guarded .values := by
  intro α p hgroup
  cases p <;> cases hgroup
  exact guarded_values

namespace Finishes

theorem braceList : Finishes braceList :=
  read_bind (p := .values) Production.guarded_of_values rfl fun _ => (expect ..).bind fun _ => pure _

theorem initializer (name : String) (type : DataType) (length : Option Nat) (loc : Location) :
    Finishes (initializer name type length loc) := by
  apply (accept .openBrace).bind
  intro b
  split
  · apply braceList.bind
    intro values
    split
    · exact check (pure _)
    · exact get.bind fun _ => check (pure _)
    · exact refuseDeclaration ..
  · exact check (expression.bind fun _ => pure _)

/-- Declarations do not run out of depth. -/
theorem variableDeclaration : Finishes variableDeclaration := by
  refine current.bind fun token => dataType.bind fun type => identifier.bind fun name => check ?_
  refine (arrayBrackets name).bind fun length => (accept .assign).bind fun b => ?_
  dsimp only
  split
  · exact ((initializer ..).map _).bind fun _ => (expect ..).bind fun _ => pure _
  · exact (pure _).bind fun _ => (expect ..).bind fun _ => pure _

/-! ## Statements -/

theorem step : Finishes step := by
  apply current.bind
  intro token
  split
  · exact advance.bind fun _ => place.bind fun _ => pure _
  · refine place.bind fun target => current.bind fun mark => ?_
    split
    · exact advance.bind fun _ => pure _
    · apply (accept .assign).bind
      intro b
      split
      · exact expression.bind fun _ => pure _
      · exact refuse nofun

theorem expressionStatement : Finishes expressionStatement :=
  expression.bind fun _ => (expect ..).bind fun _ => pure _

theorem assignmentOrExpression : Finishes assignmentOrExpression := by
  refine get.bind fun start => (lexemeAhead 1).bind fun lexeme => ?_
  split
  · exact expressionStatement
  · refine place.bind fun target => current.bind fun mark => ?_
    split
    · exact advance.bind fun _ => (expect ..).bind fun _ => pure _
    · apply (accept .assign).bind
      intro b
      split
      · exact expression.bind fun _ => (expect ..).bind fun _ => pure _
      · exact (modify _).bind fun _ => expressionStatement

theorem returned (loc : Location) : Finishes (returned loc) := by
  apply (accept .semicolon).bind
  intro b
  split
  · exact pure _
  · exact expression.bind fun _ => (expect ..).bind fun _ => pure _

theorem forStart : Finishes forStart := by
  refine current.bind fun token => (accept .semicolon).bind fun b => ?_
  split
  · exact pure _
  · split
    · exact variableDeclaration.bind fun _ => pure _
    · split
      · exact place.bind fun _ => (expect ..).bind fun _ => expression.bind fun _ => (expect ..).bind fun _ => pure _
      · exact refuse nofun

theorem forCondition : Finishes forCondition := by
  apply (nextIs _).bind
  intro b
  dsimp only
  split
  · exact (pure _).bind fun _ => (expect ..).bind fun _ => pure _
  · exact (expression.map some).bind fun _ => (expect ..).bind fun _ => pure _

theorem forStep : Finishes forStep := by
  apply (nextIs _).bind
  intro b
  dsimp only
  split
  · exact (pure _).bind fun _ => (expect ..).bind fun _ => pure _
  · exact (step.map some).bind fun _ => (expect ..).bind fun _ => pure _

theorem parenthesisedCondition (keyword construct : String) : Finishes (parenthesisedCondition keyword construct) :=
  (expect ..).bind fun _ => expression.bind fun _ => (expect ..).bind fun _ => pure _

end Finishes

namespace Production

/-- Statements in a row are read one after the other, each with a token. -/
theorem guarded_statements : statements.Guarded := by
  intro call call' r hforward hsame
  have hstatements := hsame.sameWithin statements rfl
  have hmoves : MovesLocally (call statements) := hforward.movesLocally statements nofun
  apply SameAt.current
  split
  · exact .pure _
  · exact .pure _
  · next hnext =>
    refine .advance (by simp [hnext]) (hstatements.bind hmoves fun _ => .move (.expect ..) (.expect ..) fun _ => ?_)
    exact hstatements.bind hmoves fun _ => .pure _
  · next hnext => exact .advance (by simp [hnext]) hstatements
  · have hstatement := hsame.sameAt statement r (.of_le rfl Nat.zero_lt_one le_rfl)
    refine hstatement.consuming (hforward.consumes.consumesAt r) fun _ => ?_
    exact hstatements.bind hmoves fun _ => .pure _

/-- The bodies in a statement are read behind its keyword. -/
theorem guarded_statement : statement.Guarded := by
  intro call call' r hforward hsame
  have hbody := fun context => hsame.sameWithin (body context) rfl
  have hmoves : ∀ context, MovesLocally (call (body context)) := fun _ => hforward.movesLocally _ nofun
  apply SameAt.current
  split
  · exact .of_finishes (Finishes.advance.bind fun _ => Finishes.returned _)
  · next hnext =>
    refine .advance (by simp [hnext]) (.move (.parenthesisedCondition ..) (.parenthesisedCondition ..) fun _ => ?_)
    refine (hbody _).bind (hmoves _) fun _ => ?_
    exact (hsame.sameWithin alternative rfl).bind (hforward.movesLocally _ nofun) fun _ => .pure _
  · next hnext =>
    refine .advance (by simp [hnext]) (.move (.parenthesisedCondition ..) (.parenthesisedCondition ..) fun _ => ?_)
    exact (hbody _).insideLoop.bind (hmoves _).insideLoop fun _ => .pure _
  · next hnext =>
    refine .advance (by simp [hnext]) (.move (.expect ..) (.expect ..) fun _ => ?_)
    refine .step .forStart .forStart fun _ => .move .forCondition .forCondition fun _ => ?_
    refine .move .forStep .forStep fun _ => ?_
    exact (hbody _).insideLoop.bind (hmoves _).insideLoop fun _ => .pure _
  · exact .of_finishes (Finishes.advance.bind fun _ => (Finishes.requireLoop ..).bind fun _ =>
      (Finishes.expect ..).bind fun _ => .pure _)
  · exact .of_finishes (Finishes.advance.bind fun _ => (Finishes.requireLoop ..).bind fun _ =>
      (Finishes.expect ..).bind fun _ => .pure _)
  · exact .of_finishes (Finishes.step.bind fun _ => (Finishes.expect ..).bind fun _ => .pure _)
  · exact .of_finishes (Finishes.step.bind fun _ => (Finishes.expect ..).bind fun _ => .pure _)
  -- statements without statements inside make no call
  · exact .of_finishes .assignmentOrExpression
  · split
    · exact .of_finishes (Finishes.variableDeclaration.bind fun _ => .pure _)
    · exact .of_finishes (.refuse nofun)

/-- A body is a smaller production than the statements in it, or is read behind its brace. -/
theorem guarded_body (context : String) : (body context).Guarded := by
  intro call call' r hforward hsame
  refine .accept ?_ ?_
  · refine (hsame.sameWithin statements rfl).bind (hforward.movesLocally _ nofun) fun _ => ?_
    exact .move (.expect ..) (.expect ..) fun _ => .pure _
  · exact (hsame.sameAt statement r (.of_le rfl Nat.zero_lt_one le_rfl)).bind fun _ _ _ => .pure _

/-- Further arms are read behind `else`. -/
theorem guarded_alternative : alternative.Guarded := by
  intro call call' r hforward hsame
  have hbody := fun context => hsame.sameWithin (body context) rfl
  have hmoves : ∀ context, MovesLocally (call (body context)) := fun _ => hforward.movesLocally _ nofun
  refine .acceptLexeme nofun (.move (.acceptKeyword _) (.acceptKeyword _) fun b => ?_) (.pure _)
  split
  · refine .move (.parenthesisedCondition ..) (.parenthesisedCondition ..) fun _ => ?_
    refine (hbody _).bind (hmoves _) fun _ => ?_
    exact (hsame.sameWithin alternative rfl).bind (hforward.movesLocally _ nofun) fun _ => .pure _
  · exact (hbody _).bind (hmoves _) fun _ => .pure _

/-- All calls among the productions of statements have less left to read. -/
theorem guarded_of_statements : Group.Guarded .statements := by
  intro α p hgroup
  cases p <;> cases hgroup
  · exact guarded_statements
  · exact guarded_statement
  · exact guarded_body _
  · exact guarded_alternative

end Production

/-! ## Structs and functions -/

/-- The body of a function does not run out of depth. -/
theorem Finishes.block : Finishes block := read (p := .statements) Production.guarded_of_statements rfl

namespace Production

/-- The fields of a struct are read one after the other, each with a token. -/
theorem guarded_of_structFields : Group.Guarded .structFields := by
  intro α p hgroup
  cases p <;> cases hgroup
  intro call call' r hforward hsame
  apply SameAt.current
  split
  · exact .pure _
  · exact .pure _
  · refine (SameAt.of_finishes .dataType).consuming (Consumes.dataType.consumesAt r) fun type => ?_
    refine .move .identifier .identifier fun name => .check (.check ?_)
    exact .move (.expect ..) (.expect ..) fun _ => hsame.sameWithin (structFields ..) rfl

/-- Parameters are read one after the other, each with a token. -/
theorem guarded_of_parameters : Group.Guarded .parameters := by
  intro α p hgroup
  cases p <;> cases hgroup
  intro call call' r hforward hsame
  refine (SameAt.of_finishes (.parameter _)).movesOn (.of_moves (.parameter _)) fun p r' hle => ?_
  refine .accept ⟨fun r₂ hlt => ?_⟩ (.pure _)
  exact hsame.sameAt (parameters _) r₂ (.of_lt rfl (by omega))

end Production

namespace Finishes

/-- Struct definitions do not run out of depth. -/
theorem structDefinition : Finishes structDefinition := by
  refine current.bind fun token => identifier.bind fun name => get.bind fun _ => check ?_
  refine (expect ..).bind fun _ => read_bind (p := .structFields name []) Production.guarded_of_structFields rfl ?_
  refine fun fields => (expect ..).bind fun _ => (expect ..).bind fun _ => check ?_
  exact (modify _).bind fun _ => (note _).bind fun _ => pure _

theorem parameters : Finishes parameters := by
  apply (nextIs _).bind
  intro b
  split
  · exact pure _
  · refine (nextIs _).bind fun b => (lexemeAhead 1).bind fun lexeme => ?_
    split
    · exact advance.bind fun _ => pure _
    · exact read (p := .parameters []) Production.guarded_of_parameters rfl

/-- Functions do not run out of depth. -/
theorem functionDefinition : Finishes functionDefinition := by
  refine dataType.bind fun result => current.bind fun token => identifier.bind fun name => ?_
  refine (expect ..).bind fun _ => (modify _).bind fun _ => parameters.bind fun ps => (expect ..).bind fun _ => ?_
  apply (accept .semicolon).bind
  intro b
  split
  · exact (warn ..).bind fun _ => pure _
  · refine (expect ..).bind fun _ => (modify _).bind fun _ => block.bind fun body => (expect ..).bind fun _ => ?_
    exact (note _).bind fun _ => pure _

theorem typedItem (length : Nat) (loc : Location) : Finishes (typedItem length loc) := by
  refine (lexemeAhead _).bind fun _ => (lexemeAhead _).bind fun _ => ?_
  split
  · exact functionDefinition.bind fun _ => pure _
  · exact (warn ..).bind fun _ => (modify _).bind fun _ => pure _
  · exact skipWarning ..

/-- Items do not run out of depth. -/
theorem topLevel : Finishes topLevel := by
  apply current.bind
  intro token
  split
  · refine (lexemeAhead 1).bind fun _ => (lexemeAhead 2).bind fun _ => ?_
    split
    · exact advance.bind fun _ => structDefinition.bind fun _ => pure _
    · exact typedItem ..
    · exact skipWarning ..
  · exact typedItem ..
  · exact typedItem ..
  · exact typedItem ..
  · exact typedItem ..
  · exact typedItem ..
  · exact skipWarning ..

end Finishes

/-- Items are read one after the other, each with a token. -/
theorem Production.guarded_of_items : Group.Guarded .items := by
  intro α p hgroup
  cases p <;> cases hgroup
  intro call call' r hforward hsame
  refine .known (run_nextIs _ r) ?_
  by_cases heof : r.next.lexeme = .eof
  · simp only [heof, decide_true, if_true]
    exact .pure _
  · simp only [heof, decide_false, Bool.false_eq_true, if_false]
    refine (SameAt.of_finishes .topLevel).bind fun item r' hrun => ?_
    have hadvances := (ConsumesAt.topLevel heof).advances hrun
    exact (hsame.sameAt items r' (.of_lt rfl hadvances.length_lt)).bind fun _ _ _ => .pure _

/-- Every call of a production of its group that a production makes has less left to read. -/
theorem Production.guarded (p : Production α) : p.Guarded := by
  cases hgroup : p.group with
  | expressions => exact guarded_of_expressions p hgroup
  | values => exact guarded_of_values p hgroup
  | statements => exact guarded_of_statements p hgroup
  | structFields => exact guarded_of_structFields p hgroup
  | parameters => exact guarded_of_parameters p hgroup
  | items => exact guarded_of_items p hgroup

/-- Reading a program never runs out of depth, whatever tokens there are. -/
theorem Finishes.program : Finishes program :=
  read_bind (p := .items) Production.guarded_of_items rfl fun _ => get.bind fun _ => (note _).bind fun _ => pure _

/-! ## Calls nested in each other -/

/-- No production runs out of depth within that of its reader. -/
theorem Production.finishes_read (p : Production α) : Finishes p.read := .read (fun _ q _ => q.guarded) rfl

/-- A depth that covers what is left to read makes no difference. -/
theorem Production.run_readWithin {depth : Nat} (h : p.need r < depth) :
    (p.readWithin depth).run r = p.read.run r := (sameAt_read (fun _ q _ => q.guarded) rfl rfl h).run_eq

/-- A production is what one call of it does. -/
theorem Production.run_unfold (p : Production α) (r : Reader) : (p.unfold Calls.read).run r = p.read.run r := by
  have hpos : 0 < r.depth := (Nat.zero_le _).trans_lt (p.need_lt_depth r)
  have hunfold := sameAt_readWithin_succ p.guarded (Nat.le_sub_one_of_lt (p.need_lt_depth r)) fun β q r' depth _ h =>
    sameAt_read (fun _ q _ => q.guarded) rfl rfl h
  rw [Nat.sub_add_cancel hpos] at hunfold
  rw [p.run_read, hunfold.run_eq]

/-- What a production does is settled by the calls with less left to read. -/
theorem Production.run_unfold_of_below {call : Calls}
    (h : ∀ ⦃β : Type⦄ (q : Production β) (r' : Reader), q.Below r' p r → (call q).run r' = q.read.run r') :
    (p.unfold call).run r = p.read.run r := by
  have hsame : Calls.read.SameBelow call p r :=
    ⟨fun β q r' hbelow => ⟨(h q r' hbelow).symm, q.finishes_read.not_givesUp r'⟩⟩
  rw [← (p.guarded Calls.forward_read hsame).run_eq, p.run_unfold]

/-- Calls nested in each other `n` deep, with `call` at the bottom. -/
def Calls.nested (call : Calls) : Nat → Calls
  | 0 => call
  | n + 1 => fun _ q => q.unfold (nested call n)

/-- Calls nested deep enough do not come to the bottom. -/
theorem Calls.run_nested (call : Calls) {n : Nat} (h : p.need r < n) : (call.nested n p).run r = p.read.run r := by
  induction n generalizing α p r with
  | zero => omega
  | succ n ih =>
    apply Production.run_unfold_of_below
    intro β q r' hbelow
    exact ih (hbelow.need_lt.trans_le (Nat.le_of_lt_succ h))

/-! ## Progress and termination -/

/-- Before any tokens, an expression, a statement, a declaration, and an item where the end is not next, are refused or
go past a token. Every call of a production of its group that a production makes has fewer tokens before it, or as many
and is of a smaller production. So calls nested as deep as the tokens allow read everything, whatever is done below
them, and no depth runs out. -/
theorem consumes_and_terminates (r : Reader) :
    (ConsumesAt expression r ∧ ConsumesAt Production.statement.read r ∧ ConsumesAt variableDeclaration r ∧
      (r.next.lexeme ≠ .eof → ConsumesAt topLevel r)) ∧
    (∀ ⦃α : Type⦄ (p : Production α) (call : Calls),
      (∀ ⦃β : Type⦄ (q : Production β) (r' : Reader), q.Below r' p r → (call q).run r' = q.read.run r') →
        (p.unfold call).run r = p.read.run r) ∧
    (∀ ⦃α : Type⦄ (p : Production α) (call : Calls) (n : Nat), 4 * (r.rest.length + 1) ≤ n →
      (call.nested n p).run r = p.read.run r ∧ (p.readWithin n).run r = p.read.run r) ∧
    ¬ Outcome.GivesUp (expression.run r) ∧ ¬ Outcome.GivesUp (program.run r) := by
  refine ⟨⟨?_, ?_, ?_, ConsumesAt.topLevel⟩, ?_, ?_, ?_, ?_⟩
  · exact Consumes.expression.consumesAt r
  · exact Calls.forward_read.consumes.consumesAt r
  · exact Consumes.variableDeclaration.consumesAt r
  · intro α p call h
    exact Production.run_unfold_of_below h
  · intro α p call n hn
    have hneed : p.need r < n := (p.need_lt_depth r).trans_le (r.depth_eq ▸ hn)
    exact ⟨call.run_nested hneed, Production.run_readWithin hneed⟩
  · exact Finishes.expression.not_givesUp r
  · exact Finishes.program.not_givesUp r

/-- Before `int f() {{` without a closing brace. -/
theorem consumes_and_terminates_unclosed :
    let r : Reader := {
      queue := .ofList [⟨.keyword .int, ⟨1, 1⟩⟩, ⟨.identifier "f", ⟨1, 5⟩⟩, ⟨.symbol .openParen, ⟨1, 6⟩⟩,
        ⟨.symbol .closeParen, ⟨1, 7⟩⟩, ⟨.symbol .openBrace, ⟨1, 9⟩⟩, ⟨.symbol .openBrace, ⟨1, 10⟩⟩]
      eof := ⟨1, 11⟩ }
    (r.next.lexeme ≠ .eof ∧ ConsumesAt topLevel r) ∧
      (Production.items.unfold Calls.read).run r = Production.items.read.run r ∧
      (Calls.nested (fun _ _ => refuseDepth) 28 .items).run r = Production.items.read.run r ∧
      ¬ Outcome.GivesUp (program.run r) ∧
      ∃ r', program.run r = .error (.syntactic (.missing .closeBrace "after block" .eof) ⟨1, 11⟩) r' := by
  intro r
  have hend : r.next.lexeme ≠ .eof := by decide
  obtain ⟨⟨-, -, -, htopLevel⟩, hbelow, hnested, -, hprogram⟩ := consumes_and_terminates r
  refine ⟨⟨hend, htopLevel hend⟩, ?_, ?_, hprogram, ⟨_, rfl⟩⟩
  · exact hbelow .items Calls.read fun _ _ _ _ => rfl
  · exact (hnested .items _ 28 (by decide)).1

end ClockedC.Grammar
