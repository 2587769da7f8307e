import ClockedC.Proofs.Blocks.Lookahead

/-!
# Other braces inside of a function

A block is read item by item: a nested block, an empty statement, or a statement. Enclosing some of its items in braces,
putting an empty statement among them, and enclosing a single statement that is a body, all leave what is read as it is.
So does each of these at any block or body inside, since what stands in front of it is read without a look at it, and
what stands behind it is read from the same tokens as before.
-/

namespace ClockedC.Grammar

variable {α β : Type} {r r' : Reader} {p p' : ReadM α}

/-! ## The items of a block -/

/-- Whether a block ends before a lexeme. -/
def endsBlock (l : Lexeme) : Prop := l = .symbol .closeBrace ∨ l = .eof

/-- Reads one item of a block, for the statements that it adds: those of a nested block, none, or one. -/
def blockItem : ReadM (List Statement) := do
  match (← current).lexeme with
  | .symbol .openBrace =>
    advance
    let inner ← Production.statements.read
    expect .closeBrace "after block"
    return inner
  | .symbol .semicolon =>
    advance
    return []
  | _ => return [← Production.statement.read]

/-- Consecutive items of a block, with the statements that they add. -/
inductive BlockItems : Reader → List Statement → Reader → Prop where
  | nil (r : Reader) : BlockItems r [] r
  | cons {r r₁ r' : Reader} {first more : List Statement} (hfirst : blockItem.run r = .ok first r₁)
      (hmore : BlockItems r₁ more r') : BlockItems r (first ++ more) r'

/-- A statement begins with none of the symbols that stand between statements. -/
theorem next_of_run_statement {s : Statement} (h : Production.statement.read.run r = .ok s r') :
    r.next.lexeme ≠ .symbol .openBrace ∧ r.next.lexeme ≠ .symbol .semicolon ∧ ¬ endsBlock r.next.lexeme := by
  rw [← Production.run_unfold, Production.unfold, statementBy, run_bind_of_ok (run_current r)] at h
  refine ⟨?_, ?_, ?_⟩
  · intro hnext
    simp only [hnext] at h
    cases h
  · intro hnext
    simp only [hnext] at h
    cases h
  · rintro (hnext | hnext)
    all_goals
      simp only [hnext] at h
      cases h

/-- A statement is an item of its own. -/
theorem run_blockItem_of_statement {s : Statement} (h : Production.statement.read.run r = .ok s r') :
    blockItem.run r = .ok [s] r' := by
  obtain ⟨hopen, hsemicolon, -⟩ := next_of_run_statement h
  rw [blockItem, run_bind_of_ok (run_current r)]
  split
  · contradiction
  · contradiction
  · rw [run_bind_of_ok h]
    rfl

/-- A semicolon is an item that adds nothing. -/
theorem run_blockItem_of_semicolon (hnext : r.next.lexeme = .symbol .semicolon) :
    blockItem.run r = .ok [] (r.withRest r.rest.tail) := by
  rw [blockItem, run_bind_of_ok (run_current r)]
  simp only [hnext]
  rw [run_bind_of_ok (run_advance r)]
  rfl

/-- A nested block is an item that adds its statements. -/
theorem run_blockItem_of_block {r₁ : Reader} {inner : List Statement} (hnext : r.next.lexeme = .symbol .openBrace)
    (hinner : Production.statements.read.run (r.withRest r.rest.tail) = .ok inner r₁)
    (hclose : (expect .closeBrace "after block").run r₁ = .ok () r') : blockItem.run r = .ok inner r' := by
  rw [blockItem, run_bind_of_ok (run_current r)]
  simp only [hnext]
  rw [run_bind_of_ok (run_advance r), run_bind_of_ok hinner, run_bind_of_ok hclose]
  rfl

/-- Where there is an item the block does not end. -/
theorem not_endsBlock_of_blockItem {ss : List Statement} (h : blockItem.run r = .ok ss r') :
    ¬ endsBlock r.next.lexeme := by
  rw [blockItem, run_bind_of_ok (run_current r)] at h
  split at h
  · next hnext => simp [endsBlock, hnext]
  · next hnext => simp [endsBlock, hnext]
  · obtain ⟨s, r₁, hstatement, -⟩ := run_bind_eq_ok.1 h
    exact (next_of_run_statement hstatement).2.2

/-- Where a block ends there are no statements. -/
theorem run_statements_of_endsBlock (h : endsBlock r.next.lexeme) : Production.statements.read.run r = .ok [] r := by
  rw [← Production.run_unfold, Production.unfold, statementsBy, run_bind_of_ok (run_current r)]
  obtain hnext | hnext := h
  all_goals
    simp only [hnext]
    rfl

/-- A block that does not end is an item and more. -/
theorem run_statements_of_not_endsBlock {r : Reader} (h : ¬ endsBlock r.next.lexeme) :
    Production.statements.read.run r = EStateM.run (do
      let first ← blockItem
      return first ++ (← Production.statements.read)) r := by
  rw [← Production.run_unfold, Production.unfold, statementsBy, blockItem, bind_assoc,
    run_bind_of_ok (run_current r), run_bind_of_ok (run_current r)]
  split
  · next hnext => exact absurd (.inl hnext) h
  · next hnext => exact absurd (.inr hnext) h
  · next hnext =>
    simp only [hnext, bind_assoc, pure_bind]
    rfl
  · next hnext =>
    simp only [hnext, bind_assoc, pure_bind, List.nil_append, bind_pure]
    rfl
  · next hopen hsemicolon =>
    split
    · contradiction
    · contradiction
    · simp only [bind_assoc, pure_bind, List.singleton_append]
      rfl

/-- Behind an item of a block it counts only whether `else` follows. -/
theorem Takes.blockItem : Takes endsArms blockItem := by
  apply current
  intro r
  split
  · next hnext =>
    refine .advance (by simp [hnext]) ?_
    exact (behind .statements fun _ => expect_pure ..).glances
  · next hnext => exact .advance (by simp [hnext]) (.pure _)
  · exact (statement.bind fun _ => .pure _).takesAt r

namespace BlockItems

variable {ss : List Statement}

/-- A run of items goes on. -/
theorem suffix (h : BlockItems r ss r') : r'.rest <:+ r.rest := by
  induction h with
  | nil => exact List.suffix_refl _
  | cons hfirst _ ih => exact ih.trans (Takes.blockItem.glances.suffix hfirst)

/-- The statements of a block are those of its first items and those behind them. -/
theorem run_statements (h : BlockItems r ss r') :
    Production.statements.read.run r = EStateM.run (do
      return ss ++ (← Production.statements.read)) r' := by
  induction h with
  | nil r => simp only [List.nil_append, bind_pure]
  | @cons r r₁ r' first more hfirst _ ih =>
    rw [run_statements_of_not_endsBlock (not_endsBlock_of_blockItem hfirst), run_bind_of_ok hfirst, EStateM.run_bind,
      ih, EStateM.run_bind, EStateM.run_bind]
    cases Production.statements.read.run r' with
    | ok rest r₂ =>
      show EStateM.Result.ok (first ++ (more ++ rest)) r₂ = .ok (first ++ more ++ rest) r₂
      rw [List.append_assoc]
    | error e r₂ => rfl

/-- The items are the same whatever follows, as long as it does not begin with another arm. -/
theorem append (h : BlockItems r ss r') {run tail : List Token} (hrun : r.rest = run ++ r'.rest)
    (hends : EndsAlike endsArms r' r'.rest tail) : BlockItems (r.withRest (run ++ tail)) ss (r'.withRest tail) := by
  induction h generalizing run with
  | nil r =>
    have hnil : run = [] := List.append_left_eq_self.1 hrun.symm
    subst hnil
    exact .nil _
  | @cons r r₁ r' first more hfirst hmore ih =>
    obtain ⟨before, behind, rfl, hrest, hrest₁⟩ :=
      exists_eq_append_of_suffix hrun (Takes.blockItem.glances.suffix hfirst) hmore.suffix
    have halike : EndsAlike endsArms r₁ r₁.rest (behind ++ tail) := by
      rw [hrest₁]
      exact (hends.elsewhere r₁).append (fun _ => id) behind
    rw [List.append_assoc]
    exact .cons (Takes.blockItem.glances.run_append hfirst hrest halike) (ih hrest₁ hends)

end BlockItems

/-! ## Braces and empty statements at a block or a body -/

section Edits

variable {ss : List Statement} {run : List Token} {opening closing semicolon : Token}

/-- Items of a block that are followed by a closing brace are all the statements in front of it. -/
theorem BlockItems.run_statements_closed (h : BlockItems r ss r') (hrun : r.rest = run ++ r'.rest)
    (hclosing : closing.lexeme = .symbol .closeBrace) :
    Production.statements.read.run (r.withRest (run ++ closing :: r'.rest)) =
      .ok ss (r'.withRest (closing :: r'.rest)) := by
  have hends : EndsAlike endsArms r' r'.rest (closing :: r'.rest) := by
    right
    simp [endsArms, hclosing]
  have hlast : Production.statements.read.run (r'.withRest (closing :: r'.rest)) =
      .ok [] (r'.withRest (closing :: r'.rest)) := run_statements_of_endsBlock (.inl hclosing)
  rw [(h.append hrun hends).run_statements, run_bind_of_ok hlast, List.append_nil]
  rfl

theorem run_expect_closeBrace {context : String} (hclosing : closing.lexeme = .symbol .closeBrace) (r : Reader) :
    (expect .closeBrace context).run (r.withRest (closing :: r.rest)) = .ok () r := by
  rw [run_expect, if_pos (by exact hclosing), Reader.rest_withRest, List.tail_cons, Reader.withRest_withRest,
    Reader.withRest_rest]

/-- Items of a block in braces add the same statements. -/
theorem BlockItems.run_statements_enclosed (h : BlockItems r ss r') (hrun : r.rest = run ++ r'.rest)
    (hopening : opening.lexeme = .symbol .openBrace) (hclosing : closing.lexeme = .symbol .closeBrace) :
    Production.statements.read.run (r.withRest (opening :: (run ++ closing :: r'.rest))) =
      Production.statements.read.run r := by
  have hitem : blockItem.run (r.withRest (opening :: (run ++ closing :: r'.rest))) = .ok ss r' :=
    run_blockItem_of_block hopening (h.run_statements_closed hrun hclosing) (run_expect_closeBrace hclosing r')
  rw [h.run_statements, run_statements_of_not_endsBlock (not_endsBlock_of_blockItem hitem), run_bind_of_ok hitem]

/-- An empty statement adds nothing. -/
theorem run_statements_semicolon (hsemicolon : semicolon.lexeme = .symbol .semicolon) (r : Reader) :
    Production.statements.read.run (r.withRest (semicolon :: r.rest)) = Production.statements.read.run r := by
  have hitem : blockItem.run (r.withRest (semicolon :: r.rest)) = .ok [] r := by
    rw [run_blockItem_of_semicolon (by exact hsemicolon), Reader.rest_withRest, List.tail_cons,
      Reader.withRest_withRest, Reader.withRest_rest]
  rw [run_statements_of_not_endsBlock (not_endsBlock_of_blockItem hitem), run_bind_of_ok hitem]
  simp only [List.nil_append, bind_pure]

/-- A body that is a single statement is the same in braces. -/
theorem run_body_enclosed {context : String} {s : Statement} (h : Production.statement.read.run r = .ok s r')
    (hrun : r.rest = run ++ r'.rest) (hopening : opening.lexeme = .symbol .openBrace)
    (hclosing : closing.lexeme = .symbol .closeBrace) :
    (Production.body context).read.run (r.withRest (opening :: (run ++ closing :: r'.rest))) =
      (Production.body context).read.run r := by
  have hitems : BlockItems r [s] r' := .cons (run_blockItem_of_statement h) (.nil r')
  have haccept : (accept .openBrace).run (r.withRest (opening :: (run ++ closing :: r'.rest))) =
      .ok true (r.withRest (run ++ closing :: r'.rest)) := by
    rw [run_accept, if_pos (by exact hopening)]
    rfl
  rw [← Production.run_unfold, ← Production.run_unfold, Production.unfold, bodyBy, run_bind_of_ok haccept,
    run_bind_of_ok (run_accept_of_ne (next_of_run_statement h).1)]
  show EStateM.run (do
      let inner ← Production.statements.read
      expect .closeBrace context
      return inner) (r.withRest (run ++ closing :: r'.rest)) = EStateM.run (do
      return [← Production.statement.read]) r
  rw [run_bind_of_ok (hitems.run_statements_closed hrun hclosing), run_bind_of_ok (run_expect_closeBrace hclosing r'),
    run_bind_of_ok h]

end Edits

/-! ## Calls -/

/-- Reads the head of a `for` loop behind its keyword. -/
def forHead : ReadM (Option Statement × Option Expr × Option Assignment) := do
  expect .openParen "after 'for'"
  let start ← forStart
  let condition ← forCondition
  let increment ← forStep
  return (start, condition, increment)

/-- A `for` loop is read by its head and then its body. -/
theorem forBy_eq {σ τ : Type} (forLoop : Option Statement → Option Expr → Option Assignment → List σ → Location → τ)
    (body : String → ReadM (List σ)) (loc : Location) :
    forBy forLoop body loc = (do
      let head ← forHead
      let block ← insideLoop (body "after for body")
      return forLoop head.1 head.2.1 head.2.2 block loc) := by
  simp only [forBy, forHead, bind_assoc, pure_bind]

theorem Takes.forHead {stops : Lexeme → Prop} : Takes stops forHead := by
  refine behind (expect ..).glances fun _ => behind forStart.glances fun start => ?_
  exact behind forCondition.glances fun condition => forStep.bind fun increment => .pure _

/-- The calls of productions of statements that a production of statements makes: reading `p` at `r` goes on to reading
`q` at `r'`. -/
inductive Invokes : {α β : Type} → Production α → Reader → Production β → Reader → Prop where
  /-- The statements of a nested block. -/
  | nested {r : Reader} (hnext : r.next.lexeme = .symbol .openBrace) :
      Invokes .statements r .statements (r.withRest r.rest.tail)
  /-- A statement of a block. -/
  | first {r : Reader} (hopen : r.next.lexeme ≠ .symbol .openBrace) (hsemicolon : r.next.lexeme ≠ .symbol .semicolon)
      (hend : ¬ endsBlock r.next.lexeme) : Invokes .statements r .statement r
  /-- What follows on an item of a block. -/
  | later {r r' : Reader} {ss : List Statement} (hitem : blockItem.run r = .ok ss r') :
      Invokes .statements r .statements r'
  | ifBody {r r' : Reader} {condition : Expr} (hnext : r.next.lexeme = .keyword .ifWord)
      (hhead : (parenthesisedCondition "if" "if").run (r.withRest r.rest.tail) = .ok condition r') :
      Invokes .statement r (.body "after if body") r'
  | ifArms {r r₁ r' : Reader} {condition : Expr} {block : List Statement} (hnext : r.next.lexeme = .keyword .ifWord)
      (hhead : (parenthesisedCondition "if" "if").run (r.withRest r.rest.tail) = .ok condition r₁)
      (hbody : (Production.body "after if body").read.run r₁ = .ok block r') : Invokes .statement r .alternative r'
  | whileBody {r r' : Reader} {condition : Expr} (hnext : r.next.lexeme = .keyword .whileWord)
      (hhead : (parenthesisedCondition "while" "while").run (r.withRest r.rest.tail) = .ok condition r') :
      Invokes .statement r (.body "after while body") { r' with loopDepth := r'.loopDepth + 1 }
  | forBody {r r' : Reader} {head : Option Statement × Option Expr × Option Assignment}
      (hnext : r.next.lexeme = .keyword .forWord) (hhead : forHead.run (r.withRest r.rest.tail) = .ok head r') :
      Invokes .statement r (.body "after for body") { r' with loopDepth := r'.loopDepth + 1 }
  /-- A body in braces. -/
  | block {r : Reader} {context : String} (hnext : r.next.lexeme = .symbol .openBrace) :
      Invokes (.body context) r .statements (r.withRest r.rest.tail)
  /-- A body that is a single statement. -/
  | single {r : Reader} {context : String} (hopen : r.next.lexeme ≠ .symbol .openBrace) :
      Invokes (.body context) r .statement r
  | elseIfBody {r r' : Reader} {condition : Expr} (hnext : r.next.lexeme = .keyword .elseWord)
      (hif : (r.withRest r.rest.tail).next.lexeme = .keyword .ifWord)
      (hhead : (parenthesisedCondition "else if" "else if").run (r.withRest r.rest.tail.tail) = .ok condition r') :
      Invokes .alternative r (.body "after else if body") r'
  | elseIfArms {r r₁ r' : Reader} {condition : Expr} {block : List Statement}
      (hnext : r.next.lexeme = .keyword .elseWord) (hif : (r.withRest r.rest.tail).next.lexeme = .keyword .ifWord)
      (hhead : (parenthesisedCondition "else if" "else if").run (r.withRest r.rest.tail.tail) = .ok condition r₁)
      (hbody : (Production.body "after else if body").read.run r₁ = .ok block r') :
      Invokes .alternative r .alternative r'
  | elseBody {r : Reader} (hnext : r.next.lexeme = .keyword .elseWord)
      (hif : (r.withRest r.rest.tail).next.lexeme ≠ .keyword .ifWord) :
      Invokes .alternative r (.body "after else body") (r.withRest r.rest.tail)

/-- Two sequences of steps do the same if their parts do. -/
theorem run_bind_congr {k k' : α → ReadM β} (hp : p.run r = p'.run r)
    (hk : ∀ a r', p'.run r = .ok a r' → (k a).run r' = (k' a).run r') : (p >>= k).run r = (p' >>= k').run r := by
  rw [EStateM.run_bind, EStateM.run_bind, hp]
  cases hrun : p'.run r with
  | ok a r' => exact hk a r' hrun
  | error e r' => rfl

theorem run_insideLoop_congr
    (h : p.run { r with loopDepth := r.loopDepth + 1 } = p'.run { r' with loopDepth := r'.loopDepth + 1 }) :
    (insideLoop p).run r = (insideLoop p').run r' := by
  rw [EStateM.run, EStateM.run] at h ⊢
  rw [insideLoop, insideLoop, h]

section Completeness

variable {call : Calls}

/-- Reading statements makes only the calls that are listed. -/
theorem run_unfold_statements
    (h : ∀ ⦃β : Type⦄ (q : Production β) (r' : Reader), Invokes .statements r q r' → (call q).run r' = q.read.run r') :
    (Production.statements.unfold call).run r = (Production.statements.unfold Calls.read).run r := by
  rw [Production.unfold, Production.unfold, statementsBy, statementsBy, run_bind_of_ok (run_current r),
    run_bind_of_ok (run_current r)]
  split
  · rfl
  · rfl
  · next hnext =>
    rw [run_bind_of_ok (run_advance r), run_bind_of_ok (run_advance r)]
    refine run_bind_congr (h _ _ (.nested hnext)) fun inner r₁ hinner => run_bind_congr rfl fun _ r₂ hclose => ?_
    exact run_bind_congr (h _ _ (.later (run_blockItem_of_block hnext hinner hclose))) fun _ _ _ => rfl
  · next hnext =>
    rw [run_bind_of_ok (run_advance r), run_bind_of_ok (run_advance r)]
    exact h _ _ (.later (run_blockItem_of_semicolon hnext))
  · next hclose heof hopen hsemicolon =>
    have hend : ¬ endsBlock r.next.lexeme := by
      rintro (hnext | hnext)
      · exact hclose hnext
      · exact heof hnext
    refine run_bind_congr (h _ _ (.first hopen hsemicolon hend)) fun first r₁ hfirst => ?_
    exact run_bind_congr (h _ _ (.later (run_blockItem_of_statement hfirst))) fun _ _ _ => rfl

/-- Reading a statement makes only the calls that are listed. -/
theorem run_unfold_statement
    (h : ∀ ⦃β : Type⦄ (q : Production β) (r' : Reader), Invokes .statement r q r' → (call q).run r' = q.read.run r') :
    (Production.statement.unfold call).run r = (Production.statement.unfold Calls.read).run r := by
  rw [Production.unfold, Production.unfold, statementBy, statementBy, run_bind_of_ok (run_current r),
    run_bind_of_ok (run_current r)]
  split
  case h_2 hnext =>
    rw [run_bind_of_ok (run_advance r), run_bind_of_ok (run_advance r)]
    refine run_bind_congr rfl fun condition r₁ hhead => ?_
    refine run_bind_congr (h _ _ (.ifBody hnext hhead)) fun block r₂ hbody => ?_
    exact run_bind_congr (h _ _ (.ifArms hnext hhead hbody)) fun _ _ _ => rfl
  case h_3 hnext =>
    rw [run_bind_of_ok (run_advance r), run_bind_of_ok (run_advance r)]
    refine run_bind_congr rfl fun condition r₁ hhead => ?_
    exact run_bind_congr (run_insideLoop_congr (h _ _ (.whileBody hnext hhead))) fun _ _ _ => rfl
  case h_4 hnext =>
    rw [run_bind_of_ok (run_advance r), run_bind_of_ok (run_advance r), forBy_eq, forBy_eq]
    refine run_bind_congr rfl fun head r₁ hhead => ?_
    exact run_bind_congr (run_insideLoop_congr (h _ _ (.forBody hnext hhead))) fun _ _ _ => rfl
  all_goals rfl

/-- Reading a body makes only the calls that are listed. -/
theorem run_unfold_body {context : String}
    (h : ∀ ⦃β : Type⦄ (q : Production β) (r' : Reader), Invokes (.body context) r q r' →
      (call q).run r' = q.read.run r') :
    ((Production.body context).unfold call).run r = ((Production.body context).unfold Calls.read).run r := by
  refine run_bind_congr rfl fun b r₁ haccept => ?_
  obtain ⟨rfl, hnext, rfl⟩ | ⟨rfl, hnext, rfl⟩ := run_accept_eq_ok haccept
  · exact run_bind_congr (h _ _ (.block hnext)) fun _ _ _ => rfl
  · exact run_bind_congr (h _ _ (.single hnext)) fun _ _ _ => rfl

/-- Reading the arms of a branch makes only the calls that are listed. -/
theorem run_unfold_alternative
    (h : ∀ ⦃β : Type⦄ (q : Production β) (r' : Reader), Invokes .alternative r q r' → (call q).run r' = q.read.run r') :
    (Production.alternative.unfold call).run r = (Production.alternative.unfold Calls.read).run r := by
  refine run_bind_congr rfl fun b r₁ haccept => ?_
  obtain ⟨rfl, hnext, rfl⟩ | ⟨rfl, -, rfl⟩ := run_acceptKeyword_eq_ok haccept
  · refine run_bind_congr rfl fun b r₁ haccept' => ?_
    obtain ⟨rfl, hif, rfl⟩ | ⟨rfl, hif, rfl⟩ := run_acceptKeyword_eq_ok haccept'
    · refine run_bind_congr rfl fun condition r₁ hhead => ?_
      refine run_bind_congr (h _ _ (.elseIfBody hnext hif hhead)) fun block r₂ hbody => ?_
      exact run_bind_congr (h _ _ (.elseIfArms hnext hif hhead hbody)) fun _ _ _ => rfl
    · exact run_bind_congr (h _ _ (.elseBody hnext hif)) fun _ _ _ => rfl
  · rfl

/-- There are no other calls: what a production of statements does is settled by those. -/
theorem Production.run_unfold_of_invokes {p : Production α} (hgroup : p.group = .statements)
    (h : ∀ ⦃β : Type⦄ (q : Production β) (r' : Reader), Invokes p r q r' → (call q).run r' = q.read.run r') :
    (p.unfold call).run r = p.read.run r := by
  rw [← p.run_unfold]
  cases p with
  | statements => exact run_unfold_statements h
  | statement => exact run_unfold_statement h
  | body => exact run_unfold_body h
  | alternative => exact run_unfold_alternative h
  | expression | operators | operand | fields | arguments | values | structFields | parameters | items => cases hgroup

end Completeness

/-! ## Tokens that are replaced further on -/

/-- At `r` the step does the same although the tokens from `r₁` on are replaced by `ts`. -/
def Ignores (r₁ : Reader) (ts : List Token) (p : ReadM α) (r : Reader) : Prop :=
  ∀ head, r.rest = head ++ r₁.rest → p.run (r.withRest (head ++ ts)) = p.run r

namespace Ignores

variable {r₁ r₂ : Reader} {ts : List Token} {stops : Lexeme → Prop}

/-- Where the new tokens begin, nothing is in front of them. -/
theorem of_nil {P : List Token → Prop} (h : P []) (head : List Token) (hhead : r₁.rest = head ++ r₁.rest) : P head := by
  have hnil : head = [] := List.append_left_eq_self.1 hhead.symm
  subst hnil
  exact h

/-- The step at the place of the new tokens. -/
theorem here (h : p.run (r₁.withRest ts) = p.run r₁) : Ignores r₁ ts p r₁ :=
  of_nil (P := fun head => p.run (r₁.withRest (head ++ ts)) = p.run r₁) h

/-- What follows on a step goes on from the same outcome. -/
theorem bind {k : α → ReadM β} (hp : Ignores r₁ ts p r) : Ignores r₁ ts (p >>= k) r := by
  intro head hhead
  rw [EStateM.run_bind, EStateM.run_bind, hp head hhead]

/-- A step in front of the new tokens. -/
theorem behind {k : α → ReadM β} {a : α} (hp : Glances stops p) (hrun : p.run r = .ok a r₂)
    (hsuffix : r₁.rest <:+ r₂.rest) (hends : EndsAlike stops r₁ r₁.rest ts) (hk : Ignores r₁ ts (k a) r₂) :
    Ignores r₁ ts (p >>= k) r := by
  intro head hhead
  obtain ⟨first, second, rfl, hrest, hrest₂⟩ := exists_eq_append_of_suffix hhead (hp.suffix hrun) hsuffix
  have halike : EndsAlike stops r₂ r₂.rest (second ++ ts) := by
    rw [hrest₂]
    exact (hends.elsewhere r₂).append (fun _ => id) second
  rw [List.append_assoc, run_bind_of_ok (hp.run_append hrun hrest halike), run_bind_of_ok hrun]
  exact hk second hrest₂

/-- A step may make use of the next token where that is not replaced. -/
theorem of_next {q : ReadM α} (h : ∀ r' : Reader, r'.next = r.next → p.run r' = q.run r')
    (hnext : ∀ head, r.rest = head ++ r₁.rest → (r.withRest (head ++ ts)).next = r.next) (hq : Ignores r₁ ts q r) :
    Ignores r₁ ts p r := by
  intro head hhead
  rw [h _ (hnext head hhead), h r rfl]
  exact hq head hhead

theorem current {k : Token → ReadM β}
    (hnext : ∀ head, r.rest = head ++ r₁.rest → (r.withRest (head ++ ts)).next = r.next)
    (hk : Ignores r₁ ts (k r.next) r) : Ignores r₁ ts (current >>= k) r := by
  refine of_next (fun r' hsame => ?_) hnext hk
  rw [run_bind_of_ok (run_current r'), hsame]

/-- In front of the new tokens the next token is the same. -/
theorem next_eq_of_advances (h : r.Advances r₁) (head : List Token) (hhead : r.rest = head ++ r₁.rest) :
    (r.withRest (head ++ ts)).next = r.next := by
  obtain ⟨more, rfl⟩ := h.exists_eq_next_cons hhead
  rfl

/-- A token in front of the new ones. -/
theorem advance {k : Unit → ReadM β} (hend : r.next.lexeme ≠ .eof) (hsuffix : r₁.rest <:+ r.rest.tail)
    (hk : Ignores r₁ ts (k ()) (r.withRest r.rest.tail)) : Ignores r₁ ts (advance >>= k) r := by
  intro head hhead
  obtain ⟨more, hmore⟩ := hsuffix
  obtain ⟨rest, hrest⟩ := Reader.exists_rest_eq_cons hend
  have hhead' : head = r.next :: more := by
    rw [hrest, List.tail_cons] at hmore
    rw [hrest, ← hmore, ← List.cons_append] at hhead
    exact (List.append_cancel_right hhead).symm
  subst hhead'
  rw [List.cons_append, run_bind_of_ok (run_advance_cons ..), run_bind_of_ok (run_advance r)]
  exact hk more hmore.symm

/-- A lexeme that is next, in front of the new tokens. -/
theorem acceptLexeme {lexeme : Lexeme} {k : Bool → ReadM β} (hnext : r.next.lexeme = lexeme) (heof : lexeme ≠ .eof)
    (hsuffix : r₁.rest <:+ r.rest.tail) (hk : Ignores r₁ ts (k true) (r.withRest r.rest.tail)) :
    Ignores r₁ ts (acceptLexeme lexeme >>= k) r := by
  have hend : r.next.lexeme ≠ .eof := hnext ▸ heof
  have hadvances : r.Advances r₁ := (Reader.Advances.tail hend).trans_suffix hsuffix
  refine of_next (q := Grammar.advance >>= fun _ => k true) ?_ (next_eq_of_advances hadvances) (advance hend hsuffix hk)
  intro r' hsame
  have haccept : (Grammar.acceptLexeme lexeme).run r' = .ok true (r'.withRest r'.rest.tail) := by
    rw [run_acceptLexeme, if_pos (by rw [hsame, hnext])]
  rw [run_bind_of_ok haccept, run_bind_of_ok (run_advance r')]

/-- A lexeme that is not next, and not among the new tokens at their beginning. -/
theorem acceptLexeme_of_ne {lexeme : Lexeme} {k : Bool → ReadM β} (hold : r₁.next.lexeme ≠ lexeme)
    (hnew : (r₁.withRest ts).next.lexeme ≠ lexeme) (hk : Ignores r₁ ts (k false) r₁) :
    Ignores r₁ ts (Grammar.acceptLexeme lexeme >>= k) r₁ := by
  have hrun : ∀ r' : Reader, r'.next.lexeme ≠ lexeme →
      (Grammar.acceptLexeme lexeme >>= k).run r' = (k false).run r' := by
    intro r' hne
    rw [run_bind_of_ok (by rw [run_acceptLexeme, if_neg hne])]
  refine here ?_
  rw [hrun _ hnew, hrun _ hold]
  exact hk [] rfl

/-- The loop that a step is inside of is opened before the new tokens. -/
theorem insideLoop (h : Ignores r₁ ts p { r with loopDepth := r.loopDepth + 1 }) : Ignores r₁ ts (insideLoop p) r := by
  intro head hhead
  exact run_insideLoop_congr (h head hhead)

theorem unfold {p : Production α} (h : Ignores r₁ ts (p.unfold Calls.read) r) : Ignores r₁ ts p.read r := by
  intro head hhead
  rw [← p.run_unfold, ← p.run_unfold, h head hhead]

end Ignores

/-! ## Calls with new tokens -/

/-- A call is made behind the next token, or by a greater production at the same place. -/
theorem Invokes.advances_or {p : Production α} {q : Production β} (h : Invokes p r q r') :
    r.Advances r' ∨ r' = r ∧ p.rank = 1 := by
  have hbehind : ∀ {r' : Reader}, r.next.lexeme ≠ .eof → r'.rest <:+ r.rest.tail → r.Advances r' :=
    fun hend => (Reader.Advances.tail hend).trans_suffix
  have hcondition : ∀ keyword construct, Glances endsArms (parenthesisedCondition keyword construct) :=
    fun _ _ => (Takes.parenthesisedCondition ..).glances
  have hforHead : Glances endsArms forHead := Takes.forHead.glances
  cases h with
  | first | single => exact .inr ⟨rfl, rfl⟩
  | later hitem => exact .inl (Takes.blockItem.consumes.advances hitem)
  | nested hnext | block hnext | elseBody hnext => exact .inl (.tail (by simp [hnext]))
  | ifBody hnext hhead | whileBody hnext hhead => exact .inl (hbehind (by simp [hnext]) ((hcondition ..).suffix hhead))
  | forBody hnext hhead => exact .inl (hbehind (by simp [hnext]) (hforHead.suffix hhead))
  | ifArms hnext hhead hbody =>
    exact .inl (hbehind (by simp [hnext]) (((Takes.body _).glances.suffix hbody).trans ((hcondition ..).suffix hhead)))
  | elseIfBody hnext _ hhead =>
    exact .inl (hbehind (by simp [hnext]) (((hcondition ..).suffix hhead).trans (List.tail_suffix _)))
  | elseIfArms hnext _ hhead hbody =>
    have hsuffix := ((Takes.body _).glances.suffix hbody).trans ((hcondition ..).suffix hhead)
    exact .inl (hbehind (by simp [hnext]) (hsuffix.trans (List.tail_suffix _)))

/-- Whether a lexeme begins tokens that stand between statements. -/
def separates (l : Lexeme) : Prop := l = .symbol .openBrace ∨ l = .symbol .semicolon

theorem endsArms_of_separates {l : Lexeme} (h : separates l) : endsArms l := by
  rintro rfl
  obtain h | h := h <;> cases h

/-- What a production does is the same if what it calls is. -/
theorem Invokes.ignores {p : Production α} {q : Production β} {ts : List Token} (h : Invokes p r q r')
    (hbegins : EndsAlike separates r' r'.rest ts) (hsame : q.rank = 0 → (r'.withRest ts).next = r'.next)
    (hq : q.read.run (r'.withRest ts) = q.read.run r') : Ignores r' ts p.read r := by
  have hends : EndsAlike endsArms r' r'.rest ts := hbegins.mono fun _ => endsArms_of_separates
  have hcondition : ∀ keyword construct, Glances endsArms (parenthesisedCondition keyword construct) :=
    fun _ _ => (Takes.parenthesisedCondition ..).glances
  -- each case follows the head of `p` to where `q` begins, and there `hq` takes over
  cases h with
  | nested hnext =>
    refine .unfold (.current (Ignores.next_eq_of_advances (.tail (by simp [hnext]))) ?_)
    simp only [hnext]
    exact .advance (by simp [hnext]) (List.suffix_refl _) (.bind (.here hq))
  | first hopen hsemicolon hend =>
    refine .unfold (.current (Ignores.of_nil (hsame rfl)) ?_)
    split
    · next hnext => exact absurd (.inl hnext) hend
    · next hnext => exact absurd (.inr hnext) hend
    · contradiction
    · contradiction
    · exact .bind (.here hq)
  | later hitem =>
    have hend := not_endsBlock_of_blockItem hitem
    refine .of_next (fun r₁ hnext => run_statements_of_not_endsBlock (by rwa [hnext]))
      (Ignores.next_eq_of_advances (Takes.blockItem.consumes.advances hitem)) ?_
    exact .behind Takes.blockItem.glances hitem (List.suffix_refl _) hends (.bind (.here hq))
  | ifBody hnext hhead =>
    have hsuffix := (hcondition ..).suffix hhead
    refine .unfold (.current (Ignores.next_eq_of_advances (.trans_suffix (.tail (by simp [hnext])) hsuffix)) ?_)
    simp only [hnext]
    refine .advance (by simp [hnext]) hsuffix ?_
    exact .behind (hcondition ..) hhead (List.suffix_refl _) hends (.bind (.here hq))
  | ifArms hnext hhead hbody =>
    have hblock := (Takes.body _).glances.suffix hbody
    have hsuffix := hblock.trans ((hcondition ..).suffix hhead)
    refine .unfold (.current (Ignores.next_eq_of_advances (.trans_suffix (.tail (by simp [hnext])) hsuffix)) ?_)
    simp only [hnext]
    refine .advance (by simp [hnext]) hsuffix (.behind (hcondition ..) hhead hblock hends ?_)
    exact .behind (Takes.body _).glances hbody (List.suffix_refl _) hends (.bind (.here hq))
  | whileBody hnext hhead =>
    have hsuffix := (hcondition ..).suffix hhead
    refine .unfold (.current (Ignores.next_eq_of_advances (.trans_suffix (.tail (by simp [hnext])) hsuffix)) ?_)
    simp only [hnext]
    refine .advance (by simp [hnext]) hsuffix ?_
    exact .behind (hcondition ..) hhead (List.suffix_refl _) hends (.bind (.insideLoop (.here hq)))
  | forBody hnext hhead =>
    have hforHead : Glances endsArms forHead := Takes.forHead.glances
    have hsuffix := hforHead.suffix hhead
    refine .unfold (.current (Ignores.next_eq_of_advances (.trans_suffix (.tail (by simp [hnext])) hsuffix)) ?_)
    simp only [hnext]
    refine .advance (by simp [hnext]) hsuffix ?_
    rw [forBy_eq]
    exact .behind hforHead hhead (List.suffix_refl _) hends (.bind (.insideLoop (.here hq)))
  | block hnext =>
    exact .unfold (.acceptLexeme hnext (by simp) (List.suffix_refl _) (.bind (.here hq)))
  | single hopen =>
    exact .unfold (.acceptLexeme_of_ne hopen (by rwa [hsame rfl]) (.bind (.here hq)))
  | elseIfBody hnext hif hhead =>
    have hsuffix := (hcondition ..).suffix hhead
    refine .unfold (.acceptLexeme hnext (by simp) (hsuffix.trans (List.tail_suffix _)) ?_)
    refine .acceptLexeme hif (by simp) hsuffix ?_
    exact .behind (hcondition ..) hhead (List.suffix_refl _) hends (.bind (.here hq))
  | elseIfArms hnext hif hhead hbody =>
    have hblock := (Takes.body _).glances.suffix hbody
    have hsuffix := hblock.trans ((hcondition ..).suffix hhead)
    refine .unfold (.acceptLexeme hnext (by simp) (hsuffix.trans (List.tail_suffix _)) ?_)
    refine .acceptLexeme hif (by simp) hsuffix (.behind (hcondition ..) hhead hblock hends ?_)
    exact .behind (Takes.body _).glances hbody (List.suffix_refl _) hends (.bind (.here hq))
  | elseBody hnext hif =>
    refine .unfold (.acceptLexeme hnext (by simp) (List.suffix_refl _) ?_)
    refine .acceptLexeme_of_ne hif ?_ (.bind (.here hq))
    -- tokens that begin with `if` would turn the body into one more arm
    obtain heq | hstops := hbegins
    · rwa [heq]
    · obtain hother | hother := hstops
      all_goals
        rw [hother]
        simp

/-! ## Other braces -/

/-- The tokens `ts` are those before the reader, but for braces or an empty statement that the production finds among
them. -/
inductive Rebraces : {α : Type} → Production α → Reader → List Token → Prop where
  /-- A run of items of a block is enclosed in braces. -/
  | enclose {r r' : Reader} {ss : List Statement} {run : List Token} {opening closing : Token}
      (hitems : BlockItems r ss r') (hrun : r.rest = run ++ r'.rest) (hopening : opening.lexeme = .symbol .openBrace)
      (hclosing : closing.lexeme = .symbol .closeBrace) :
      Rebraces .statements r (opening :: (run ++ closing :: r'.rest))
  /-- An empty statement is put in front of what is left of a block. -/
  | separate {r : Reader} {semicolon : Token} (hsemicolon : semicolon.lexeme = .symbol .semicolon) :
      Rebraces .statements r (semicolon :: r.rest)
  /-- A body that is a single statement is enclosed in braces. -/
  | brace {r r' : Reader} {context : String} {s : Statement} {run : List Token} {opening closing : Token}
      (hstatement : Production.statement.read.run r = .ok s r') (hrun : r.rest = run ++ r'.rest)
      (hopening : opening.lexeme = .symbol .openBrace) (hclosing : closing.lexeme = .symbol .closeBrace) :
      Rebraces (.body context) r (opening :: (run ++ closing :: r'.rest))
  /-- The same in what the production calls. -/
  | inside {α β : Type} {p : Production α} {q : Production β} {r r' : Reader} {head ts : List Token}
      (hcall : Invokes p r q r') (hhead : r.rest = head ++ r'.rest) (hts : Rebraces q r' ts) :
      Rebraces p r (head ++ ts)

namespace Rebraces

variable {p : Production α} {ts : List Token}

/-- The tokens begin as before, or with what stands between statements. -/
theorem endsAlike (h : Rebraces p r ts) : EndsAlike separates r r.rest ts := by
  induction h with
  | enclose _ _ hopening => exact .inr (.inl hopening)
  | separate hsemicolon => exact .inr (.inr hsemicolon)
  | brace _ _ hopening => exact .inr (.inl hopening)
  | @inside α β p q r r' head ts hcall hhead hts ih =>
    rw [hhead]
    exact (ih.elsewhere r).append (fun _ => id) head

/-- Inside of a statement and of further arms the next token is not changed. -/
theorem next_eq (h : Rebraces p r ts) (hrank : p.rank = 0) : (r.withRest ts).next = r.next := by
  cases h with
  | enclose | separate | brace => cases hrank
  | inside hcall hhead =>
    obtain hadvances | ⟨-, hrank'⟩ := hcall.advances_or
    · exact Ignores.next_eq_of_advances hadvances _ hhead
    · cases hrank.symm.trans hrank'

/-- **Other braces are read as before.** The induction follows the calls that lead to the place of the braces. -/
theorem run_eq (h : Rebraces p r ts) : p.read.run (r.withRest ts) = p.read.run r := by
  induction h with
  | enclose hitems hrun hopening hclosing => exact hitems.run_statements_enclosed hrun hopening hclosing
  | separate hsemicolon => exact run_statements_semicolon hsemicolon _
  | brace hstatement hrun hopening hclosing => exact run_body_enclosed hstatement hrun hopening hclosing
  | inside hcall hhead hts ih => exact hcall.ignores hts.endsAlike hts.next_eq ih _ hhead

end Rebraces

end ClockedC.Grammar
