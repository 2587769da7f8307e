import ClockedC.Proofs.Printing.Expression
import ClockedC.Proofs.Reading.Places

/-!
# What stands behind an expression

Reading an expression looks at one lexeme behind it and no further. An expression that is read from certain tokens is
read from them again whatever follows, as long as the lexeme that follows is the same or does not go on with it.
-/

namespace ClockedC

variable {r : Reader} {after tokens : List Token}

/-- Whether a lexeme goes on neither with a name nor, as an operator that binds at least as tightly as `least`, with
the expression in front of it. -/
def Lexeme.EndsFrom (least : Int) (l : Lexeme) : Prop :=
  l.extendsName = false ∧ ∀ op ∈ Operator.ofLexeme? l, op.precedence < least

namespace Grammar

variable {α β : Type}

/-- What follows begins with the same lexeme, or with one that `stops` reading. -/
def EndsAlike (stops : Lexeme → Prop) (r : Reader) (after tail : List Token) : Prop :=
  (r.withRest tail).next.lexeme = (r.withRest after).next.lexeme ∨ stops (r.withRest tail).next.lexeme

/-- Before other tokens that begin with the same token, the next lexeme is the same. -/
theorem EndsAlike.append {stops stops' : Lexeme → Prop} {tail : List Token} (h : EndsAlike stops r after tail)
    (hstops : ∀ l, stops l → stops' l) (tokens : List Token) :
    EndsAlike stops' r (tokens ++ after) (tokens ++ tail) := by
  cases tokens with
  | nil => exact h.imp_right (hstops _)
  | cons t ts => exact .inl rfl

theorem EndsAlike.append_of_ne_nil {stops : Lexeme → Prop} (r : Reader) (after tail : List Token) (h : tokens ≠ []) :
    EndsAlike stops r (tokens ++ after) (tokens ++ tail) := by
  cases tokens with
  | nil => exact absurd rfl h
  | cons t ts => exact .inl rfl

/-- A step that only moves on, and looks at one lexeme behind what it reads. -/
structure Peeks (stops : Lexeme → Prop) (p : ReadM α) : Prop where
  moves : Moves p
  run_append : ∀ {r : Reader} {tokens after tail : List Token} {a : α},
    p.run (r.withRest (tokens ++ after)) = .ok a (r.withRest after) → EndsAlike stops r after tail →
      p.run (r.withRest (tokens ++ tail)) = .ok a (r.withRest tail)

/-- A step that is at a token. -/
structure PeeksFrom (stops : Lexeme → Prop) (t : Token) (p : ReadM α) : Prop where
  moves : Moves p
  run_append : ∀ {r : Reader} {tokens after tail : List Token} {a : α},
    p.run (r.withRest (t :: (tokens ++ after))) = .ok a (r.withRest after) → EndsAlike stops r after tail →
      p.run (r.withRest (t :: (tokens ++ tail))) = .ok a (r.withRest tail)

/-- Two steps in turn read the one part of the tokens and the other. -/
theorem exists_run_of_run_bind {p : ReadM α} {k : α → ReadM β} {b : β} (hp : Moves p) (hk : ∀ a, Moves (k a))
    (hrun : (p >>= k).run (r.withRest (tokens ++ after)) = .ok b (r.withRest after)) :
    ∃ a first second, tokens = first ++ second ∧
      p.run (r.withRest (first ++ (second ++ after))) = .ok a (r.withRest (second ++ after)) ∧
      (k a).run (r.withRest (second ++ after)) = .ok b (r.withRest after) := by
  obtain ⟨a, r₁, hfirst, hlast⟩ := run_bind_eq_ok.1 hrun
  have hpasses := hp.passes hfirst
  obtain ⟨second, hsecond⟩ := ((hk a).passes hlast).suffix
  obtain ⟨first, htokens⟩ := hpasses.suffix
  have hr₁ : r₁ = r.withRest (second ++ after) := by
    rw [hpasses.eq_withRest, ← hsecond]
    rfl
  subst hr₁
  rw [Reader.rest_withRest, Reader.rest_withRest, ← List.append_assoc] at htokens
  obtain rfl := List.append_cancel_right htokens
  rw [List.append_assoc] at hfirst
  exact ⟨a, first, second, rfl, hfirst, hlast⟩

namespace Peeks

variable {stops stops' : Lexeme → Prop}

theorem mono {p : ReadM α} (hp : Peeks stops p) (h : ∀ l, stops' l → stops l) : Peeks stops' p :=
  ⟨hp.moves, fun hrun hends => hp.run_append hrun (hends.imp_right (h _))⟩

/-- A sequence looks at one lexeme behind it if its parts do. -/
theorem bind {p : ReadM α} {k : α → ReadM β} (hp : Peeks stops p) (hk : ∀ a, Peeks stops (k a)) :
    Peeks stops (p >>= k) := by
  refine ⟨hp.moves.bind fun a => (hk a).moves, ?_⟩
  intro r tokens after tail b hrun hends
  obtain ⟨a, first, second, rfl, hfirst, hsecond⟩ := exists_run_of_run_bind hp.moves (fun a => (hk a).moves) hrun
  rw [List.append_assoc, run_bind_of_ok (hp.run_append hfirst (hends.append (fun _ => id) second))]
  exact (hk a).run_append hsecond hends

/-- If more is read behind the first step, what follows on it is the same whatever comes in the end. -/
theorem bind_consumes {p : ReadM α} {k : α → ReadM β} (hp : Peeks stops' p) (hk : ∀ a, Peeks stops (k a))
    (hconsumes : ∀ a, Consumes (k a)) : Peeks stops (p >>= k) := by
  refine ⟨hp.moves.bind fun a => (hk a).moves, ?_⟩
  intro r tokens after tail b hrun hends
  obtain ⟨a, first, second, rfl, hfirst, hsecond⟩ := exists_run_of_run_bind hp.moves (fun a => (hk a).moves) hrun
  have hne : second ≠ [] := by
    rintro rfl
    exact absurd ((hconsumes a).advances hsecond).length_lt (lt_irrefl _)
  rw [List.append_assoc, run_bind_of_ok (hp.run_append hfirst (.append_of_ne_nil r after tail hne))]
  exact (hk a).run_append hsecond hends

theorem pure (a : α) : Peeks stops (Pure.pure a) := by
  refine ⟨.pure a, ?_⟩
  intro r tokens after tail b hrun hends
  have htokens : tokens ++ after = after := congrArg Reader.rest (EStateM.Result.ok.inj hrun).2
  have hnil : tokens = [] := List.append_left_eq_self.1 htokens
  subst hnil
  cases hrun
  rfl

/-- A step that goes past a token may look at it first. -/
theorem look {p : ReadM α} {f : Token → α} {k : α → ReadM β} (hp : ∀ r : Reader, p.run r = .ok (f r.next) r)
    (hconsumes : Consumes (p >>= k)) (hk : ∀ t, PeeksFrom stops t (k (f t))) : Peeks stops (p >>= k) := by
  constructor
  · constructor
    intro r
    rw [run_bind_of_ok (hp r)]
    exact (hk r.next).moves.run_passes r
  · intro r tokens after tail b hrun hends
    cases tokens with
    | nil => exact absurd (hconsumes.advances hrun).length_lt (lt_irrefl _)
    | cons t ts =>
      rw [run_bind_of_ok (hp _)] at hrun ⊢
      exact (hk t).run_append hrun hends

theorem current {k : Token → ReadM β} (hconsumes : Consumes (Grammar.current >>= k))
    (hk : ∀ t, PeeksFrom stops t (k t)) : Peeks stops (Grammar.current >>= k) := look run_current hconsumes hk

end Peeks

namespace PeeksFrom

variable {stops : Lexeme → Prop} {t : Token}

theorem of_peeks {p : ReadM α} (hp : Peeks stops p) : PeeksFrom stops t p := by
  refine ⟨hp.moves, ?_⟩
  intro r tokens after tail a hrun hends
  rw [← List.cons_append] at hrun ⊢
  exact hp.run_append hrun hends

theorem throw (e : CompileError) : PeeksFrom stops t (throw e : ReadM α) := ⟨.throw e, fun hrun => by cases hrun⟩

/-- A token that is passed may be looked at. -/
theorem advance {k : Unit → ReadM β} (hk : Peeks stops (k ())) : PeeksFrom stops t (advance >>= k) :=
  ⟨Moves.advance.bind fun _ => hk.moves, fun hrun hends => hk.run_append hrun hends⟩

end PeeksFrom

namespace Peeks

variable {stops : Lexeme → Prop}

/-! ## Moves -/

/-- What is read by a step past the next token is that token. -/
theorem tokens_eq_singleton (hnext : (r.withRest (tokens ++ after)).next.lexeme ≠ .eof)
    (h : r.withRest after = (r.withRest (tokens ++ after)).withRest (r.withRest (tokens ++ after)).rest.tail) :
    tokens = [(r.withRest (tokens ++ after)).next] := by
  obtain ⟨ts, hts⟩ := Reader.exists_rest_eq_cons hnext
  have hafter : after = ts := by
    have := congrArg Reader.rest h
    rwa [Reader.rest_withRest, Reader.rest_withRest, hts, List.tail_cons] at this
  rw [Reader.rest_withRest, ← hafter] at hts
  exact List.append_cancel_right hts

/-- A symbol that may be there is missing if what follows stops the step. -/
theorem accept {symbol : Symbol} (h : ∀ l, stops l → l ≠ .symbol symbol) : Peeks stops (accept symbol) := by
  refine ⟨.accept symbol, ?_⟩
  intro r tokens after tail b hrun hends
  obtain ⟨rfl, hnext, heq⟩ | ⟨rfl, hnext, heq⟩ := run_accept_eq_ok hrun
  · have htokens := tokens_eq_singleton (by simp [hnext]) heq
    rw [htokens, run_accept, if_pos (by exact hnext)]
    rfl
  · have hnil : tokens = [] := List.append_left_eq_self.1 (congrArg Reader.rest heq).symm
    subst hnil
    refine run_accept_of_ne ?_
    obtain hsame | hstops := hends
    · exact fun hsymbol => hnext (hsame.symm.trans hsymbol)
    · exact h _ hstops

/-- A symbol that is expected is passed, and nothing behind it is looked at. -/
theorem expect (symbol : Symbol) (context : String) : Peeks stops (expect symbol context) := by
  refine ⟨.expect .., ?_⟩
  intro r tokens after tail b hrun hends
  obtain ⟨hnext, heq⟩ := run_expect_eq_ok hrun
  have htokens := tokens_eq_singleton (by simp [hnext]) heq
  rw [htokens, run_expect, if_pos (by exact hnext)]
  rfl

/-- A name is passed, and nothing behind it is looked at. -/
theorem identifier : Peeks stops identifier := by
  refine ⟨.identifier, ?_⟩
  intro r tokens after tail name hrun hends
  obtain ⟨hnext, heq⟩ := run_identifier_eq_ok hrun
  have htokens := tokens_eq_singleton (by simp [hnext]) heq
  rw [htokens, run_identifier]
  simp only [List.cons_append, List.nil_append, Reader.next_withRest_cons, hnext]
  rfl

/-- The check of an index looks at no token. -/
theorem checkIndex (base index : Expr) (loc : Location) : Peeks stops (checkIndex base index loc) := by
  refine ⟨.checkIndex .., ?_⟩
  intro r tokens after tail u hrun hends
  obtain ⟨hfits, heq⟩ := run_checkIndex_eq_ok.1 hrun
  have hnil : tokens = [] := List.append_left_eq_self.1 (congrArg Reader.rest heq).symm
  subst hnil
  exact run_checkIndex_eq_ok.2 ⟨hfits, rfl⟩

/-! ## Places and arguments -/

/-- What would go on with a name stands for itself. -/
theorem ne_of_extendsName {l : Lexeme} (h : l.extendsName = false) :
    l ≠ .symbol .dot ∧ l ≠ .symbol .openBracket ∧ l ≠ .symbol .openParen := by
  refine ⟨?_, ?_, ?_⟩ <;>
  · rintro rfl
    cases h

/-- Fields end before a lexeme that does not go on with a name. -/
theorem fieldsOf (loc : Location) (depth : Nat) (base : Expr) :
    Peeks (·.extendsName = false) (fieldsOf loc depth base) := by
  induction depth generalizing base with
  | zero => exact ⟨.refuseDepth, fun hrun => by cases hrun⟩
  | succ depth ih =>
    apply (accept fun l hl => (ne_of_extendsName hl).1).bind
    intro b
    split
    · exact identifier.bind fun name => ih _
    · exact pure _

/-- A place ends before a lexeme that does not go on with a name. -/
theorem placeWith (depth : Nat) {index : ReadM Expr} (h : Peeks stops index) :
    Peeks (·.extendsName = false) (placeWith depth index) := by
  apply current (Consumes.placeWith depth h.moves)
  refine fun t => .of_peeks (identifier.bind fun name => (fieldsOf ..).bind fun base => ?_)
  apply (accept fun l hl => (ne_of_extendsName hl).2.1).bind
  intro b
  split
  · refine h.bind_consumes (fun position => (expect ..).bind fun _ => (checkIndex ..).bind fun _ => pure _) ?_
    exact fun position => (Consumes.expect ..).bind fun _ => .move (.checkIndex ..) fun _ => .pure _
  · exact pure _

/-- Behind a list it counts whether a comma follows. -/
theorem commaSeparated {item : ReadM α} (h : Peeks (fun _ => False) item) (depth : Nat) :
    Peeks (fun _ => False) (commaSeparated item depth) := by
  induction depth with
  | zero => exact ⟨.refuseDepth, fun hrun => by cases hrun⟩
  | succ depth ih =>
    refine h.bind fun first => (accept fun l => False.elim).bind fun b => ?_
    split
    · exact ih.bind fun rest => pure _
    · exact pure _

/-- Arguments end with their parenthesis, and nothing behind it is looked at. -/
theorem argumentsWith (depth : Nat) {argument : ReadM Expr} (h : Peeks (fun _ => False) argument) :
    Peeks stops (argumentsWith depth argument) := by
  have hclose : ∀ args : List Expr, Consumes (do
      Grammar.expect .closeParen "after call arguments"
      return args) := fun args => (Consumes.expect ..).bind fun _ => .pure _
  have hpeeks : ∀ args : List Expr, Peeks stops (do
      Grammar.expect .closeParen "after call arguments"
      return args) := fun args => (expect ..).bind fun _ => pure _
  have hconsumes : Consumes (Grammar.argumentsWith depth argument) := by
    apply Consumes.behind (.of_moves (.nextIs _))
    intro b
    dsimp only
    split
    · exact .behind (.pure _) hclose
    · exact .behind (.of_moves (.commaSeparated h.moves depth)) hclose
  refine look (f := fun t => decide (t.lexeme = .symbol .closeParen)) (run_nextIs _) hconsumes fun t => .of_peeks ?_
  dsimp only
  split
  · exact (pure _).bind hpeeks
  · exact (commaSeparated h depth).bind_consumes hpeeks hclose

/-! ## Operators and operands -/

/-- An operator that binds tightly enough is read, and then its right operand. -/
theorem run_operatorsFrom_of_operator {depth : Nat} {least : Int} {left : Expr} {op : Operator} {t : Token}
    (hop : Operator.ofLexeme? t.lexeme = some op) (hleast : least ≤ op.precedence) (r : Reader) (ts : List Token) :
    (Grammar.operatorsFrom (depth + 1) least left).run (r.withRest (t :: ts)) =
      EStateM.run (do
        let right ← expressionAt depth (op.precedence + 1)
        Grammar.operatorsFrom depth least (.binary op left right t.loc)) (r.withRest ts) := by
  have hfilter : (Operator.ofLexeme? t.lexeme).filter (least ≤ ·.precedence) = some op := by
    rw [hop]
    simp [hleast]
  rw [Grammar.operatorsFrom, operatorsBy, run_bind_of_ok (run_current _), run_bind_of_ok (run_operatorFrom? least _)]
  simp only [Reader.next_withRest_cons, hfilter]
  rw [run_bind_of_ok (run_advance_cons ..)]

/-- Operators end before a lexeme that is no operator which binds tightly enough. -/
theorem operatorsFrom {depth : Nat} {least : Int} (hexpr : ∀ least, Peeks (·.EndsFrom least) (expressionAt depth least))
    (hops : ∀ left, Peeks (·.EndsFrom least) (operatorsFrom depth least left)) (left : Expr) :
    Peeks (·.EndsFrom least) (Grammar.operatorsFrom (depth + 1) least left) := by
  refine ⟨(Moves.expressions (depth + 1)).2.1 least left, ?_⟩
  intro r tokens after tail e hrun hends
  obtain ⟨rfl, heq, hnext⟩ | ⟨op, right, r₁, hop, hleast, hright, hrest⟩ := run_operatorsFrom_eq_ok hrun
  · have hnil : tokens = [] := List.append_left_eq_self.1 (congrArg Reader.rest heq).symm
    subst hnil
    refine run_operatorsFrom_of_lt (Nat.succ_pos depth) ?_
    obtain hsame | hstops := hends
    · exact fun op hop => hnext op (hsame ▸ hop)
    · exact hstops.2
  · have hpeeks : ∀ loc, Peeks (·.EndsFrom least) (do
        let right ← expressionAt depth (op.precedence + 1)
        Grammar.operatorsFrom depth least (.binary op left right loc)) := by
      intro loc
      refine ((hexpr _).mono fun l hl => ⟨hl.1, fun op' hop' => ?_⟩).bind fun right => hops _
      have := hl.2 op' hop'
      omega
    cases tokens with
    | nil =>
      -- the operator has been read, so it is one of the tokens
      have hend : (r.withRest after).next.lexeme ≠ .eof := by
        intro heof
        rw [List.nil_append, heof] at hop
        cases hop
      have htail := (Reader.Advances.tail hend).length_lt
      have hle := ((hexpr _).moves.passes hright).suffix.length_le
      have hle' := ((hops _).moves.passes hrest).suffix.length_le
      exact absurd htail (not_lt_of_ge (hle'.trans hle))
    | cons t ts =>
      have hop : Operator.ofLexeme? t.lexeme = some op := hop
      rw [List.cons_append, run_operatorsFrom_of_operator hop hleast] at hrun ⊢
      exact (hpeeks _).run_append hrun hends

/-- A primary ends before a lexeme that does not go on with a name. -/
theorem primary {depth : Nat} (hexpr : ∀ least, Peeks (·.EndsFrom least) (expressionAt depth least))
    (hprimary : Peeks (·.extendsName = false) (primary depth)) :
    Peeks (·.extendsName = false) (Grammar.primary (depth + 1)) := by
  have hlowest : Peeks (fun _ => False) (expressionAt depth Operator.lowestPrecedence) :=
    (hexpr _).mono fun _ => False.elim
  have hconsumes := Consumes.primary (depth + 1)
  rw [Grammar.primary, operandBy] at hconsumes ⊢
  apply current hconsumes
  intro t
  split
  · exact .advance (hprimary.bind fun _ => pure _)
  · exact .advance (hprimary.bind fun _ => pure _)
  · exact .advance (hprimary.bind fun _ => pure _)
  · refine .advance ((hexpr _).bind_consumes (fun _ => (expect ..).bind fun _ => pure _) fun _ => ?_)
    exact (Consumes.expect ..).bind fun _ => .pure _
  · exact .advance (pure _)
  · next name hnext =>
    have hcall : Peeks (·.extendsName = false) (do
        let args ← Grammar.argumentsWith depth (expressionAt depth Operator.lowestPrecedence)
        return Expr.call name args t.loc) := (argumentsWith depth hlowest).bind fun _ => pure _
    constructor
    · apply (Moves.lexemeAhead 1).bind
      intro lexeme
      split
      · exact Moves.advance.bind fun _ => Moves.advance.bind fun _ => hcall.moves
      · exact (placeWith depth hlowest).moves
    · intro r tokens after tail e hrun hends
      have halike := hends.append (fun _ => id) tokens
      rw [run_bind_of_ok (run_lexemeAhead 1 _), Reader.ahead_withRest_cons_succ, Reader.ahead_zero] at hrun ⊢
      -- a call and a place are told apart by the token behind the name, which may be the first of `tail`
      by_cases hopen : (r.withRest (tokens ++ after)).next.lexeme = .symbol .openParen
      · rw [if_pos hopen, run_bind_of_ok (run_advance_cons ..)] at hrun
        cases tokens with
        | nil =>
          have hadvances : ConsumesAt (do
              Grammar.advance
              let args ← Grammar.argumentsWith depth (expressionAt depth Operator.lowestPrecedence)
              return Expr.call name args t.loc) (r.withRest after) :=
            .advance (fun heof => by rw [List.nil_append, heof] at hopen; cases hopen) fun _ => .of_moves hcall.moves
          exact absurd (hadvances.advances hrun).length_lt (lt_irrefl _)
        | cons t' ts =>
          rw [if_pos (by exact hopen), run_bind_of_ok (run_advance_cons ..)]
          exact hcall.run_append hrun hends
      · have hopen' : (r.withRest (tokens ++ tail)).next.lexeme ≠ .symbol .openParen := by
          obtain hsame | hstops := halike
          · exact hsame ▸ hopen
          · exact (ne_of_extendsName hstops).2.2
        rw [if_neg hopen] at hrun
        rw [if_neg hopen']
        rw [← List.cons_append] at hrun ⊢
        exact (placeWith depth hlowest).run_append hrun hends
  · exact .throw _
  · exact .throw _

/-- The three productions of expressions, each from those of less depth. -/
theorem expressions (depth : Nat) :
    (∀ least, Peeks (·.EndsFrom least) (expressionAt depth least)) ∧
      (∀ least left, Peeks (·.EndsFrom least) (Grammar.operatorsFrom depth least left)) ∧
      Peeks (·.extendsName = false) (Grammar.primary depth) := by
  induction depth with
  | zero =>
    exact ⟨fun _ => ⟨.refuseDepth, fun hrun => by cases hrun⟩, fun _ _ => ⟨.refuseDepth, fun hrun => by cases hrun⟩,
      ⟨.refuseDepth, fun hrun => by cases hrun⟩⟩
  | succ depth ih =>
    obtain ⟨hexpr, hops, hprimary⟩ := ih
    refine ⟨?_, ?_, primary hexpr hprimary⟩
    · intro least
      rw [expressionAt, expressionBy]
      exact (hprimary.mono fun _ hl => hl.1).bind fun left => hops least left
    · intro least left
      exact operatorsFrom hexpr (hops least) left

/-! ## Within the depth that the reader allows -/

/-- A production that looks at one lexeme within any depth does so within that of the reader. -/
theorem read {p : Production α} (h : ∀ depth, Peeks stops (p.readWithin depth)) : Peeks stops p.read := by
  refine ⟨Moves.get.bind fun r => (h r.depth).moves, ?_⟩
  intro r tokens after tail a hrun hends
  -- both runs are made within a depth that is enough for either
  have hfirst := p.need_lt_depth (r.withRest (tokens ++ after))
  have hsecond := p.need_lt_depth (r.withRest (tokens ++ tail))
  have hdepth := hfirst.trans_le (Nat.le_add_right _ (r.withRest (tokens ++ tail)).depth)
  have hdepth' := hsecond.trans_le (Nat.le_add_left _ (r.withRest (tokens ++ after)).depth)
  rw [← Production.run_readWithin hdepth] at hrun
  rw [← Production.run_readWithin hdepth']
  exact (h _).run_append hrun hends

theorem expression : Peeks (·.EndsFrom Operator.lowestPrecedence) expression :=
  read (p := .expression Operator.lowestPrecedence) fun depth => (expressions depth).1 _

/-- The places of the grammar end before a lexeme that does not go on with a name. -/
theorem place : Peeks (·.extendsName = false) place := by
  refine ⟨.place, ?_⟩
  intro r tokens after tail e hrun hends
  have hdepth := Nat.le_add_right (r.withRest (tokens ++ after)).depth (r.withRest (tokens ++ tail)).depth
  have hdepth' := Nat.le_add_left (r.withRest (tokens ++ tail)).depth (r.withRest (tokens ++ after)).depth
  rw [← run_placeWithin hdepth] at hrun
  rw [← run_placeWithin hdepth']
  exact (placeWith _ ((expressions _).1 _)).run_append hrun hends

end Peeks

/-- An operand that is read from tokens is read from them before anything that does not go on with a name. -/
theorem run_operand_append {e : Expr} (tail : List Token)
    (h : Production.operand.read.run (r.withRest (tokens ++ after)) = .ok e (r.withRest after))
    (htail : (r.withRest tail).next.lexeme.extendsName = false) :
    Production.operand.read.run (r.withRest (tokens ++ tail)) = .ok e (r.withRest tail) :=
  (Peeks.read (p := .operand) fun depth => (Peeks.expressions depth).2.2).run_append h (.inr htail)

end Grammar

end ClockedC
