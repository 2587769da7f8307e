import ClockedC.Proofs.Reading.Steps

/-!
# Steps that only move on

Reading an expression or a place changes nothing of a reader but the tokens that are still to be read, whether it
succeeds or fails: tables, diagnostics, log and loops are left as they are.
-/

namespace ClockedC

/-! ## Readers further on -/

/-- The reader `r'` is `r` after some of its tokens, with nothing else changed. -/
structure Reader.Passes (r r' : Reader) : Prop where
  suffix : r'.rest <:+ r.rest
  eq_withRest : r' = r.withRest r'.rest

namespace Reader.Passes

variable {r r' r'' : Reader}

theorem refl (r : Reader) : r.Passes r := ⟨List.suffix_refl _, (r.withRest_rest).symm⟩

/-- Passing tokens may go on. -/
theorem trans (h : r.Passes r') (h' : r'.Passes r'') : r.Passes r'' := by
  refine ⟨h'.suffix.trans h.suffix, ?_⟩
  rw [h'.eq_withRest, h.eq_withRest]
  rfl

/-- Going past a token. -/
theorem tail (r : Reader) : r.Passes (r.withRest r.rest.tail) := ⟨List.tail_suffix _, rfl⟩

/-- Passing tokens leaves the tables as they are. -/
theorem tables_eq (h : r.Passes r') : r'.tables = r.tables := by rw [h.eq_withRest]; rfl

theorem structs_eq (h : r.Passes r') : r'.tables.structs = r.tables.structs := by rw [h.tables_eq]

/-- Passing tokens reports nothing. -/
theorem diagnostics_eq (h : r.Passes r') : r'.diagnostics = r.diagnostics := by rw [h.eq_withRest]; rfl

/-- Passing tokens opens and closes no loop. -/
theorem loopDepth_eq (h : r.Passes r') : r'.loopDepth = r.loopDepth := by rw [h.eq_withRest]; rfl

/-- Only the tokens have changed, so taking them back gives the reader from before. -/
theorem takeBack (h : r.Passes r') : { r' with queue := r.queue } = r := by
  rw [h.eq_withRest]
  rfl

end Reader.Passes

namespace Grammar

variable {α β : Type}

/-- The reader a step ends with, whether it succeeds or not. -/
def Outcome.reader : EStateM.Result CompileError Reader α → Reader
  | .ok _ r => r
  | .error _ r => r

/-- A step that changes nothing but the tokens still to be read. -/
structure Moves (p : ReadM α) : Prop where
  run_passes : ∀ r : Reader, r.Passes (Outcome.reader (p.run r))

namespace Moves

/-- Where a step that only moves on succeeds. -/
theorem passes {p : ReadM α} (hp : Moves p) {r r' : Reader} {a : α} (h : p.run r = .ok a r') : r.Passes r' := by
  have := hp.run_passes r
  rwa [h] at this

/-! ## Sequences of steps -/

/-- Steps in turn only move on if each of them does. -/
theorem bind {p : ReadM α} {k : α → ReadM β} (hp : Moves p) (hk : ∀ a, Moves (k a)) : Moves (p >>= k) := by
  constructor
  intro r
  have hfirst := hp.run_passes r
  rw [EStateM.run_bind]
  cases hrun : p.run r with
  | ok a r' =>
    rw [hrun] at hfirst
    exact hfirst.trans ((hk a).run_passes r')
  | error e r' =>
    rw [hrun] at hfirst
    exact hfirst

theorem pure (a : α) : Moves (Pure.pure a) := ⟨.refl⟩

theorem throw (e : CompileError) : Moves (throw e : ReadM α) := ⟨.refl⟩

theorem get : Moves get := ⟨.refl⟩

/-! ## Moves -/

theorem current : Moves current := ⟨.refl⟩

theorem lexemeAhead (n : Nat) : Moves (lexemeAhead n) := ⟨.refl⟩

theorem nextIs (lexeme : Lexeme) : Moves (nextIs lexeme) := ⟨.refl⟩

/-- One token is passed. -/
theorem advance : Moves advance := by
  constructor
  intro r
  rw [run_advance]
  exact .tail r

/-- A symbol is passed or left. -/
theorem accept (symbol : Symbol) : Moves (accept symbol) := by
  constructor
  intro r
  rw [run_accept]
  split
  · exact .tail r
  · exact .refl r

/-- A keyword is passed or left. -/
theorem acceptKeyword (keyword : Keyword) : Moves (acceptKeyword keyword) := by
  constructor
  intro r
  rw [run_acceptKeyword]
  split
  · exact .tail r
  · exact .refl r

theorem refuse (fault : SyntacticFault) (loc : Location) : Moves (refuse fault loc : ReadM α) := ⟨.refl⟩

theorem refuseDepth : Moves (refuseDepth : ReadM α) := ⟨.refl⟩

/-- A symbol is passed, or reading fails in front of it. -/
theorem expect (symbol : Symbol) (context : String) : Moves (expect symbol context) := by
  constructor
  intro r
  rw [run_expect]
  split
  · exact .tail r
  · exact .refl r

/-- A name is passed, or reading fails in front of it. -/
theorem identifier : Moves identifier := by
  apply current.bind
  intro token
  split
  · exact advance.bind fun _ => pure _
  · exact refuse ..

/-- A jump is checked and nothing is passed. -/
theorem requireLoop (keyword : Keyword) (loc : Location) : Moves (requireLoop keyword loc) := by
  apply get.bind
  intro r
  split
  · exact throw _
  · exact pure _

/-! ## Expressions -/

theorem fieldsOf (loc : Location) (depth : Nat) (base : Expr) : Moves (fieldsOf loc depth base) := by
  induction depth generalizing base with
  | zero => exact refuseDepth
  | succ depth ih =>
    apply (accept .dot).bind
    intro b
    split
    · exact identifier.bind fun name => ih _
    · exact pure _

/-- An index is checked and nothing is passed. -/
theorem checkIndex (base index : Expr) (loc : Location) : Moves (checkIndex base index loc) := by
  apply get.bind
  intro r
  dsimp only
  split
  · split
    · split
      · exact throw _
      · exact pure _
    · exact pure _
  · exact pure _

/-- Places only move on if their indices do. -/
theorem placeWith (depth : Nat) {index : ReadM Expr} (h : Moves index) : Moves (placeWith depth index) := by
  refine current.bind fun token => identifier.bind fun name => (fieldsOf ..).bind fun base =>
    (accept .openBracket).bind fun b => ?_
  split
  · exact h.bind fun position => (expect ..).bind fun _ => (checkIndex ..).bind fun _ => pure _
  · exact pure _

/-- Lists only move on if their items do. -/
theorem commaSeparated {item : ReadM α} (h : Moves item) (depth : Nat) : Moves (commaSeparated item depth) := by
  induction depth with
  | zero => exact refuseDepth
  | succ depth ih =>
    refine h.bind fun first => (accept .comma).bind fun b => ?_
    split
    · exact ih.bind fun rest => pure _
    · exact pure _

/-- Arguments only move on if their list does. -/
theorem argumentsBy {list : ReadM (List Expr)} (h : Moves list) : Moves (argumentsBy list) := by
  apply (nextIs _).bind
  intro b
  dsimp only
  split
  · exact (pure _).bind fun _ => (expect ..).bind fun _ => pure _
  · exact h.bind fun _ => (expect ..).bind fun _ => pure _

/-- Arguments only move on if each of them does. -/
theorem argumentsWith (depth : Nat) {argument : ReadM Expr} (h : Moves argument) :
    Moves (argumentsWith depth argument) := argumentsBy (commaSeparated h depth)

/-- The three productions of expressions, each from those of less depth. -/
theorem expressions (depth : Nat) :
    (∀ least, Moves (expressionAt depth least)) ∧ (∀ least left, Moves (operatorsFrom depth least left)) ∧
      Moves (primary depth) := by
  induction depth with
  | zero => exact ⟨fun _ => refuseDepth, fun _ _ => refuseDepth, refuseDepth⟩
  | succ depth ih =>
    obtain ⟨hexpr, hops, hprimary⟩ := ih
    refine ⟨?_, ?_, ?_⟩
    · intro least
      rw [expressionAt, expressionBy]
      exact hprimary.bind fun left => hops least left
    · intro least left
      rw [operatorsFrom, operatorsBy]
      refine current.bind fun token => (current.bind fun _ => pure _).bind fun op => ?_
      split
      · exact pure _
      · exact advance.bind fun _ => (hexpr _).bind fun right => hops least _
    · rw [primary, operandBy]
      apply current.bind
      intro token
      split
      · exact advance.bind fun _ => hprimary.bind fun _ => pure _
      · exact advance.bind fun _ => hprimary.bind fun _ => pure _
      · exact advance.bind fun _ => hprimary.bind fun _ => pure _
      · exact advance.bind fun _ => (hexpr _).bind fun _ => (expect ..).bind fun _ => pure _
      · exact advance.bind fun _ => pure _
      · apply (lexemeAhead 1).bind
        intro lexeme
        split
        · exact advance.bind fun _ => advance.bind fun _ => (argumentsWith depth (hexpr _)).bind fun _ => pure _
        · exact placeWith depth (hexpr _)
      · exact refuse ..
      · exact refuse ..

/-- Expressions only move on, at every depth. -/
theorem expressionAt (depth : Nat) (least : Int) : Moves (expressionAt depth least) := (expressions depth).1 least

/-- Expressions only move on. -/
theorem expression : Moves expression := get.bind fun _ => expressionAt ..

/-- Places only move on. -/
theorem place : Moves place := get.bind fun _ => placeWith _ expression

end Moves

end Grammar

end ClockedC
