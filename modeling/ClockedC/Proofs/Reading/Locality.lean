import ClockedC.Proofs.Reading.Variable

/-!
# Steps inside of a function

Reading the statements of a function changes nothing of a reader but the tokens that are still to be read and the
arrays in sight, whether it succeeds or fails: structs, diagnostics, log and loops are left as they are.
-/

namespace ClockedC

/-! ## Readers further on in a function -/

/-- The reader `r'` is `r` after some of its tokens, with nothing else changed but the arrays in sight. -/
structure Reader.PassesLocally (r r' : Reader) : Prop where
  suffix : r'.rest <:+ r.rest
  eq_withRest : r' = ({ r with tables.arrays := r'.tables.arrays } : Reader).withRest r'.rest

namespace Reader.PassesLocally

variable {r r' r'' : Reader}

/-- A reader that only passes tokens does so inside of a function as well. -/
theorem of_passes (h : r.Passes r') : r.PassesLocally r' := by
  refine ⟨h.suffix, ?_⟩
  rw [h.eq_withRest]
  rfl

/-- Passing inside of a function may go on. -/
theorem trans (h : r.PassesLocally r') (h' : r'.PassesLocally r'') : r.PassesLocally r'' := by
  refine ⟨h'.suffix.trans h.suffix, ?_⟩
  rw [h'.eq_withRest, h.eq_withRest]
  rfl

/-- Inside of a function no struct is defined. -/
theorem structs_eq (h : r.PassesLocally r') : r'.tables.structs = r.tables.structs := by
  rw [h.eq_withRest]
  rfl

/-- Inside of a function nothing is reported. -/
theorem diagnostics_eq (h : r.PassesLocally r') : r'.diagnostics = r.diagnostics := by
  rw [h.eq_withRest]
  rfl

/-- Behind a statement as many loops are open as before. -/
theorem loopDepth_eq (h : r.PassesLocally r') : r'.loopDepth = r.loopDepth := by
  rw [h.eq_withRest]
  rfl

end Reader.PassesLocally

namespace Grammar

variable {α β : Type}

/-! ## Sequences of steps -/

/-- What holds of the reader behind a step and is kept by the step after it holds behind both. -/
theorem Outcome.reader_bind {P : Reader → Prop} {p : ReadM α} {k : α → ReadM β} {r : Reader}
    (hp : P (reader (p.run r))) (hk : ∀ a r', P r' → P (reader ((k a).run r'))) : P (reader ((p >>= k).run r)) := by
  rw [EStateM.run_bind]
  cases hrun : p.run r with
  | ok a r' =>
    rw [hrun] at hp
    exact hk a r' hp
  | error e r' =>
    rw [hrun] at hp
    exact hp

/-- Behind a loop the reader is that behind its body, with one loop less. -/
theorem Outcome.reader_insideLoop (p : ReadM α) (r : Reader) :
    reader ((insideLoop p).run r) =
      { reader (p.run { r with loopDepth := r.loopDepth + 1 }) with
        loopDepth := (reader (p.run { r with loopDepth := r.loopDepth + 1 })).loopDepth - 1 } := by
  unfold insideLoop EStateM.run
  dsimp only
  split <;> simp_all [reader]

namespace Moves

/-- What is made of the result does not matter. -/
theorem map {p : ReadM α} (hp : Moves p) (f : α → β) : Moves (f <$> p) := by
  rw [← bind_pure_comp]
  exact hp.bind fun _ => pure _

/-- A check in front of a step. -/
theorem check {c : Prop} [Decidable c] {fault : DeclarationFault} {loc : Location} {k : α → ReadM β} {p : ReadM β}
    (h : Moves p) : Moves (if c then Grammar.refuseDeclaration fault loc >>= k else p) := by
  split
  · exact ⟨.refl⟩
  · exact h

/-! ## Statements without declarations -/

theorem step : Moves step := by
  apply current.bind
  intro token
  split
  · exact advance.bind fun _ => place.bind fun _ => pure _
  · refine place.bind fun target => current.bind fun mark => ?_
    split
    · exact advance.bind fun _ => pure _
    · apply (accept .assign).bind
      intro b
      split
      · exact expression.bind fun _ => pure _
      · exact refuse ..

theorem expressionStatement : Moves expressionStatement :=
  expression.bind fun _ => (expect ..).bind fun _ => pure _

/-- A statement that begins with a name, with the tokens of a place taken back where no assignment follows. -/
theorem assignmentOrExpression : Moves assignmentOrExpression := by
  constructor
  intro r
  rw [Grammar.assignmentOrExpression, run_bind_of_ok (EStateM.run_get r), run_bind_of_ok (run_lexemeAhead 1 r)]
  split
  · exact expressionStatement.run_passes r
  · apply Outcome.reader_bind (place.run_passes r)
    intro target r₁ h₁
    rw [run_bind_of_ok (run_current r₁)]
    split
    · exact h₁.trans ((advance.bind fun _ => (expect ..).bind fun _ => pure _).run_passes r₁)
    · apply Outcome.reader_bind (h₁.trans ((accept .assign).run_passes r₁))
      intro b r₂ h₂
      split
      · exact h₂.trans ((expression.bind fun _ => (expect ..).bind fun _ => pure _).run_passes r₂)
      · -- whatever was read of the place, the statement is read from its beginning again
        rw [run_bind_of_ok (EStateM.run_modify _ r₂), h₂.takeBack]
        exact expressionStatement.run_passes r

theorem returned (loc : Location) : Moves (returned loc) := by
  apply (accept .semicolon).bind
  intro b
  split
  · exact pure _
  · exact expression.bind fun _ => (expect ..).bind fun _ => pure _

theorem forCondition : Moves forCondition := by
  apply (nextIs _).bind
  intro b
  dsimp only
  split
  · exact (pure _).bind fun _ => (expect ..).bind fun _ => pure _
  · exact (expression.map some).bind fun _ => (expect ..).bind fun _ => pure _

theorem forStep : Moves forStep := by
  apply (nextIs _).bind
  intro b
  dsimp only
  split
  · exact (pure _).bind fun _ => (expect ..).bind fun _ => pure _
  · exact (step.map some).bind fun _ => (expect ..).bind fun _ => pure _

theorem parenthesisedCondition (keyword construct : String) : Moves (parenthesisedCondition keyword construct) :=
  (expect ..).bind fun _ => expression.bind fun _ => (expect ..).bind fun _ => pure _

theorem initializer (name : String) (type : DataType) (length : Option Nat) (loc : Location) :
    Moves (initializer name type length loc) := by
  apply (accept .openBrace).bind
  intro b
  split
  · apply braceList.bind
    intro values
    split
    · exact check (pure _)
    · exact get.bind fun _ => check (pure _)
    · exact refuseDeclaration ..
  · exact check (expression.bind fun _ => pure _)

end Moves

/-! ## Steps inside of a function -/

/-- A step that changes nothing but the tokens still to be read and the arrays in sight. -/
structure MovesLocally (p : ReadM α) : Prop where
  run_passes : ∀ r : Reader, r.PassesLocally (Outcome.reader (p.run r))

namespace MovesLocally

/-- Where a step inside of a function succeeds. -/
theorem passes {p : ReadM α} (hp : MovesLocally p) {r r' : Reader} {a : α} (h : p.run r = .ok a r') :
    r.PassesLocally r' := by
  have := hp.run_passes r
  rwa [h] at this

theorem of_moves {p : ReadM α} (hp : Moves p) : MovesLocally p := ⟨fun r => .of_passes (hp.run_passes r)⟩

/-- Steps in turn move on locally if each of them does. -/
theorem bind {p : ReadM α} {k : α → ReadM β} (hp : MovesLocally p) (hk : ∀ a, MovesLocally (k a)) :
    MovesLocally (p >>= k) :=
  ⟨fun r => Outcome.reader_bind (hp.run_passes r) fun a r' h => h.trans ((hk a).run_passes r')⟩

/-- A step that only moves on, in front of another. -/
theorem move {p : ReadM α} {k : α → ReadM β} (hp : Moves p) (hk : ∀ a, MovesLocally (k a)) : MovesLocally (p >>= k) :=
  (of_moves hp).bind hk

theorem pure (a : α) : MovesLocally (Pure.pure a) := of_moves (.pure a)

theorem refuseDepth : MovesLocally (refuseDepth : ReadM α) := of_moves .refuseDepth

/-- A check in front of a step. -/
theorem check {c : Prop} [Decidable c] {fault : DeclarationFault} {loc : Location} {k : α → ReadM β} {p : ReadM β}
    (h : MovesLocally p) : MovesLocally (if c then Grammar.refuseDeclaration fault loc >>= k else p) := by
  split
  · exact ⟨fun r => .of_passes (.refl r)⟩
  · exact h

/-- The loop that a body is read in is closed behind it. -/
theorem insideLoop {p : ReadM α} (hp : MovesLocally p) : MovesLocally (insideLoop p) := by
  constructor
  intro r
  rw [Outcome.reader_insideLoop]
  have h := hp.run_passes { r with loopDepth := r.loopDepth + 1 }
  refine ⟨h.suffix, ?_⟩
  rw [h.eq_withRest]
  rfl

/-! ## Declarations -/

/-- The brackets of a declaration register an array, which is local. -/
theorem arrayBrackets (name : String) : MovesLocally (arrayBrackets name) := by
  apply move (.accept .openBracket)
  intro b
  split
  · refine move (.arrayLength name) fun length => move (.expect ..) fun _ => ?_
    -- the size is registered without a move
    constructor
    intro r
    exact ⟨List.suffix_refl _, (Reader.withRest_rest _).symm⟩
  · exact pure _

/-- A declaration moves on locally. -/
theorem variableDeclaration : MovesLocally variableDeclaration := by
  refine move .current fun token => move .dataType fun type => move .identifier fun name => check ?_
  refine (arrayBrackets name).bind fun length => move (.accept .assign) fun b => ?_
  dsimp only
  split
  · exact move ((Moves.initializer ..).map _) fun _ => move (.expect ..) fun _ => pure _
  · exact (pure _).bind fun _ => move (.expect ..) fun _ => pure _

theorem forStart : MovesLocally forStart := by
  refine move .current fun token => move (.accept .semicolon) fun b => ?_
  split
  · exact pure _
  · split
    · exact variableDeclaration.bind fun _ => pure _
    · split
      · exact move .place fun _ => move (.expect ..) fun _ => move .expression fun _ => move (.expect ..) fun _ =>
          pure _
      · exact of_moves (.refuse ..)

/-! ## Statements -/

/-- The four productions of statements, each from those of less depth. -/
theorem productions (depth : Nat) :
    MovesLocally (statements depth) ∧ MovesLocally (statement depth) ∧ (∀ context, MovesLocally (body depth context)) ∧
      MovesLocally (alternative depth) := by
  -- the productions call each other one level down, so they are taken together
  induction depth with
  | zero => exact ⟨refuseDepth, refuseDepth, fun _ => refuseDepth, refuseDepth⟩
  | succ depth ih =>
    obtain ⟨hstatements, hstatement, hbody, halternative⟩ := ih
    refine ⟨?_, ?_, ?_, ?_⟩
    · rw [statements, statementsBy]
      apply move .current
      intro token
      split
      · exact pure _
      · exact pure _
      · exact move .advance fun _ => hstatements.bind fun _ => move (.expect ..) fun _ => hstatements.bind fun _ =>
          pure _
      · exact move .advance fun _ => hstatements
      · exact hstatement.bind fun _ => hstatements.bind fun _ => pure _
    · rw [statement, statementBy]
      apply move .current
      intro token
      split
      · exact move .advance fun _ => of_moves (.returned _)
      · exact move .advance fun _ => move (.parenthesisedCondition ..) fun _ => (hbody _).bind fun _ =>
          halternative.bind fun _ => pure _
      · exact move .advance fun _ => move (.parenthesisedCondition ..) fun _ => (hbody _).insideLoop.bind fun _ =>
          pure _
      · exact move .advance fun _ => move (.expect ..) fun _ => forStart.bind fun _ => move .forCondition fun _ =>
          move .forStep fun _ => (hbody _).insideLoop.bind fun _ => pure _
      · exact move .advance fun _ => move (.requireLoop ..) fun _ => move (.expect ..) fun _ => pure _
      · exact move .advance fun _ => move (.requireLoop ..) fun _ => move (.expect ..) fun _ => pure _
      · exact move .step fun _ => move (.expect ..) fun _ => pure _
      · exact move .step fun _ => move (.expect ..) fun _ => pure _
      · exact of_moves .assignmentOrExpression
      · split
        · exact variableDeclaration.bind fun _ => pure _
        · exact of_moves (.refuse ..)
    · intro context
      rw [body, bodyBy]
      apply move (.accept .openBrace)
      intro b
      split
      · exact hstatements.bind fun _ => move (.expect ..) fun _ => pure _
      · exact hstatement.bind fun _ => pure _
    · rw [alternative, alternativeBy]
      apply move (.acceptKeyword .elseWord)
      intro b
      split
      · apply move (.acceptKeyword .ifWord)
        intro b
        split
        · exact move (.parenthesisedCondition ..) fun _ => (hbody _).bind fun _ => halternative.bind fun _ => pure _
        · exact (hbody _).bind fun _ => pure _
      · exact pure _

/-- The body of a function moves on locally. -/
theorem block : MovesLocally block := move .get fun _ => (productions _).1

end MovesLocally

end Grammar

end ClockedC
