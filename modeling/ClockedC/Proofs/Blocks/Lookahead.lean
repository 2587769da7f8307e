import ClockedC.Proofs.Assignments.Rewinding
import ClockedC.Proofs.Precedence.Lookahead

/-!
# What stands behind a statement

Reading a statement looks at one lexeme behind it, and only for the word `else`. A statement that is read from certain
tokens is read from them again whatever follows, as long as what follows does not begin with another arm. Most steps on
the way end with a symbol that closes them, and behind it they look at nothing.
-/

namespace ClockedC.Grammar

variable {α β : Type} {p : ReadM α} {r r' : Reader} {k : α → ReadM β} {stops : Lexeme → Prop}

/-! ## Steps that look at one lexeme more -/

/-- The next lexeme does not hang on the reader that stands before the tokens. -/
theorem EndsAlike.elsewhere {after tail : List Token} (h : EndsAlike stops r after tail) (r' : Reader) :
    EndsAlike stops r' after tail := by
  cases after <;> cases tail <;> exact h

/-- More lexemes may stop a step. -/
theorem EndsAlike.mono {stops' : Lexeme → Prop} {after tail : List Token} (h : EndsAlike stops r after tail)
    (hstops : ∀ l, stops l → stops' l) : EndsAlike stops' r after tail :=
  h.imp_right (hstops _)

/-- If the step succeeds at the reader, it has gone on, and it does the same before other tokens behind those it has
read, as long as they begin with the same lexeme or with one that `stops` it. -/
structure GlancesAt (stops : Lexeme → Prop) (p : ReadM α) (r : Reader) : Prop where
  suffix : ∀ {r' : Reader} {a : α}, p.run r = .ok a r' → r'.rest <:+ r.rest
  run_append : ∀ {r' : Reader} {tokens tail : List Token} {a : α}, p.run r = .ok a r' → r.rest = tokens ++ r'.rest →
    EndsAlike stops r' r'.rest tail → p.run (r.withRest (tokens ++ tail)) = .ok a (r'.withRest tail)

/-- The step looks at one lexeme behind what it reads. -/
structure Glances (stops : Lexeme → Prop) (p : ReadM α) : Prop where
  glancesAt : ∀ r : Reader, GlancesAt stops p r

/-- At the reader, the step goes past a token and looks at one lexeme behind what it reads. -/
structure TakesAt (stops : Lexeme → Prop) (p : ReadM α) (r : Reader) : Prop where
  glancesAt : GlancesAt stops p r
  consumesAt : ConsumesAt p r

/-- The step goes past a token and looks at one lexeme behind what it reads. -/
structure Takes (stops : Lexeme → Prop) (p : ReadM α) : Prop where
  takesAt : ∀ r : Reader, TakesAt stops p r

/-- What is read in two steps is what the first reads and what the second reads. -/
theorem exists_eq_append_of_suffix {l l₁ l₂ tokens : List Token} (h : l = tokens ++ l₂) (hfirst : l₁ <:+ l)
    (hsecond : l₂ <:+ l₁) : ∃ first second, tokens = first ++ second ∧ l = first ++ l₁ ∧ l₁ = second ++ l₂ := by
  obtain ⟨first, rfl⟩ := hfirst
  obtain ⟨second, rfl⟩ := hsecond
  rw [← List.append_assoc] at h
  exact ⟨first, second, (List.append_cancel_right h).symm, rfl, rfl⟩

namespace GlancesAt

variable {stops' : Lexeme → Prop}

theorem mono (hp : GlancesAt stops p r) (h : ∀ l, stops' l → stops l) : GlancesAt stops' p r :=
  ⟨hp.suffix, fun hrun htokens hends => hp.run_append hrun htokens (hends.mono h)⟩

/-- A sequence looks at one lexeme behind it if its parts do. -/
theorem bind (hp : GlancesAt stops p r) (hk : ∀ a, Glances stops (k a)) : GlancesAt stops (p >>= k) r := by
  constructor
  · intro r' b hrun
    obtain ⟨a, r₁, hfirst, hsecond⟩ := run_bind_eq_ok.1 hrun
    exact (((hk a).glancesAt r₁).suffix hsecond).trans (hp.suffix hfirst)
  · intro r' tokens tail b hrun htokens hends
    obtain ⟨a, r₁, hfirst, hsecond⟩ := run_bind_eq_ok.1 hrun
    have hlast := (hk a).glancesAt r₁
    obtain ⟨first, second, rfl, hrest, hrest₁⟩ :=
      exists_eq_append_of_suffix htokens (hp.suffix hfirst) (hlast.suffix hsecond)
    have halike : EndsAlike stops r₁ r₁.rest (second ++ tail) := by
      rw [hrest₁]
      exact (hends.elsewhere r₁).append (fun _ => id) second
    rw [List.append_assoc, run_bind_of_ok (hp.run_append hfirst hrest halike)]
    exact hlast.run_append hsecond hrest₁ hends

/-- A step behind a token. -/
theorem advance_cons {t : Token} {ts : List Token} {k : Unit → ReadM β} (hts : r.rest = t :: ts)
    (hk : Glances stops (k ())) : GlancesAt stops (advance >>= k) r := by
  have hat := hk.glancesAt (r.withRest r.rest.tail)
  constructor
  · intro r' b hrun
    rw [run_bind_of_ok (run_advance r)] at hrun
    exact (hat.suffix hrun).trans (List.tail_suffix _)
  · intro r' tokens tail b hrun htokens hends
    rw [run_bind_of_ok (run_advance r)] at hrun
    have hsuffix := hat.suffix hrun
    obtain ⟨second, hsecond⟩ := hsuffix
    rw [Reader.rest_withRest, hts, List.tail_cons] at hsecond
    rw [hts, ← hsecond, ← List.cons_append] at htokens
    obtain rfl := List.append_cancel_right htokens.symm
    rw [List.cons_append, run_bind_of_ok (run_advance_cons ..)]
    refine hat.run_append hrun ?_ hends
    rw [Reader.rest_withRest, hts, List.tail_cons, hsecond]

/-- A step that hangs on the next lexeme does the same before the same lexeme. -/
theorem of_lexeme {q : ReadM α} (h : ∀ r' : Reader, r'.next.lexeme = r.next.lexeme → p.run r' = q.run r')
    (hq : GlancesAt (fun _ => False) q r) : GlancesAt (fun _ => False) p r := by
  constructor
  · intro r' a hrun
    rw [h r rfl] at hrun
    exact hq.suffix hrun
  · intro r' tokens tail a hrun htokens hends
    rw [h r rfl] at hrun
    have halike := (hends.elsewhere r).append (fun _ => id) tokens
    rw [← htokens] at halike
    have hsame : (r.withRest (tokens ++ tail)).next.lexeme = r.next.lexeme := by
      rw [halike.resolve_right id, r.withRest_rest]
    rw [h _ hsame]
    exact hq.run_append hrun htokens hends

end GlancesAt

namespace Glances

variable {stops' : Lexeme → Prop}

/-- A step that succeeds has gone on. -/
theorem suffix (hp : Glances stops p) {a : α} (h : p.run r = .ok a r') : r'.rest <:+ r.rest := (hp.glancesAt r).suffix h

theorem run_append (hp : Glances stops p) {tokens tail : List Token} {a : α} (h : p.run r = .ok a r')
    (htokens : r.rest = tokens ++ r'.rest) (hends : EndsAlike stops r' r'.rest tail) :
    p.run (r.withRest (tokens ++ tail)) = .ok a (r'.withRest tail) := (hp.glancesAt r).run_append h htokens hends

theorem mono (hp : Glances stops p) (h : ∀ l, stops' l → stops l) : Glances stops' p :=
  ⟨fun r => (hp.glancesAt r).mono h⟩

theorem bind (hp : Glances stops p) (hk : ∀ a, Glances stops (k a)) :
    Glances stops (p >>= k) := ⟨fun r => (hp.glancesAt r).bind hk⟩

/-- A step of an expression that looks at one lexeme is such a step. -/
theorem of_peeks (hp : Peeks stops p) : Glances stops p := by
  constructor
  intro r
  refine ⟨fun hrun => (hp.moves.passes hrun).suffix, ?_⟩
  intro r' tokens tail a hrun htokens hends
  have hpasses := hp.moves.passes hrun
  have hr : r = r.withRest (tokens ++ r'.rest) := by rw [← htokens, Reader.withRest_rest]
  have hrun' : p.run (r.withRest (tokens ++ r'.rest)) = .ok a (r.withRest r'.rest) := by
    rw [← hr, hrun]
    exact congrArg _ hpasses.eq_withRest
  rw [hp.run_append hrun' (hends.elsewhere r), hpasses.eq_withRest]
  rfl

/-- A step that fails reads nothing. -/
theorem of_fails (h : ∀ (r r' : Reader) (a : α), p.run r ≠ .ok a r') : Glances stops p :=
  ⟨fun _ => ⟨fun hrun => (h _ _ _ hrun).elim, fun hrun => (h _ _ _ hrun).elim⟩⟩

/-- A step that fails has nothing behind it to look at. -/
theorem throw (e : CompileError) : Glances stops (throw e : ReadM α) := of_fails fun _ _ _ hrun => by cases hrun

theorem pure (a : α) : Glances stops (Pure.pure a) := of_peeks (.pure a)

/-- What is made of the result does not matter. -/
theorem map (hp : Glances stops p) (f : α → β) : Glances stops (f <$> p) := by
  rw [← bind_pure_comp]
  exact hp.bind fun _ => pure _

/-- A step that changes the reader and reads nothing. -/
theorem modify {f : Reader → Reader} (h : ∀ (r : Reader) (ts : List Token), f (r.withRest ts) = (f r).withRest ts) :
    Glances stops (modify f) := by
  have hrest : ∀ r : Reader, (f r).rest = r.rest := by
    intro r
    rw [← r.withRest_rest, h, Reader.rest_withRest, Reader.rest_withRest]
  constructor
  intro r
  constructor
  · intro r' u hrun
    cases hrun
    rw [hrest]
  · intro r' tokens tail u hrun htokens hends
    cases hrun
    rw [hrest] at htokens
    have hnil : tokens = [] := List.append_left_eq_self.1 htokens.symm
    subst hnil
    rw [List.nil_append, EStateM.run_modify, h]

/-- What is asked of a reader must not be what tokens it stands before. -/
theorem get {k : Reader → ReadM β} (hsame : ∀ (r : Reader) (ts : List Token), k (r.withRest ts) = k r)
    (hk : ∀ r, Glances stops (k r)) : Glances stops (MonadState.get >>= k) := by
  constructor
  intro r
  have hat := (hk r).glancesAt r
  constructor
  · intro r' b hrun
    exact hat.suffix (by rwa [run_bind_of_ok (EStateM.run_get r)] at hrun)
  · intro r' tokens tail b hrun htokens hends
    rw [run_bind_of_ok (EStateM.run_get r)] at hrun
    rw [run_bind_of_ok (EStateM.run_get _), hsame]
    exact hat.run_append hrun htokens hends

/-- A check in front of a step. -/
theorem check {c : Prop} [Decidable c] {fault : DeclarationFault} {loc : Location} {p : ReadM β} (h : Glances stops p) :
    Glances stops (if c then refuseDeclaration fault loc >>= k else p) := by
  split
  · exact of_fails fun _ _ _ hrun => by cases hrun
  · exact h

/-- A loop is opened and closed again around a step. -/
theorem insideLoop (h : Glances stops p) : Glances stops (insideLoop p) := by
  constructor
  intro r
  constructor
  · intro r' a hrun
    obtain ⟨r₁, hinside, rfl⟩ := run_insideLoop_eq_ok hrun
    have hsuffix := h.suffix hinside
    exact hsuffix
  · intro r' tokens tail a hrun htokens hends
    obtain ⟨r₁, hinside, rfl⟩ := run_insideLoop_eq_ok hrun
    let before := r.withRest (tokens ++ tail)
    have happend : p { before with loopDepth := before.loopDepth + 1 } = .ok a (r₁.withRest tail) :=
      h.run_append hinside htokens (hends.elsewhere r₁)
    rw [EStateM.run, Grammar.insideLoop, happend]
    rfl

end Glances

/-- A step behind a token has gone past it. -/
theorem ConsumesAt.advance_cons {t : Token} {ts : List Token} {k : Unit → ReadM β} (hts : r.rest = t :: ts)
    (hk : Glances stops (k ())) : ConsumesAt (Grammar.advance >>= k) r := by
  constructor
  intro r' b hrun
  rw [run_bind_of_ok (run_advance r)] at hrun
  have hsuffix := hk.suffix hrun
  rw [Reader.rest_withRest, hts, List.tail_cons] at hsuffix
  constructor <;> rw [hts]
  · exact hsuffix.trans (List.suffix_cons t ts)
  · exact Nat.lt_succ_of_le hsuffix.length_le

namespace Glances

/-! ## Moves -/

/-- A question about the next lexeme is a look at it. -/
theorem nextIs (lexeme : Lexeme) : Glances (fun _ => False) (nextIs lexeme) := by
  constructor
  intro r
  refine .of_lexeme (q := Pure.pure (decide (r.next.lexeme = lexeme))) ?_ ((pure _).glancesAt r)
  intro r' hsame
  rw [run_nextIs, hsame]
  rfl

/-- What is noted does not depend on the tokens. -/
theorem note (event : Event) : Glances stops (note event) := modify fun _ _ => rfl

/-- A warning does not depend on the tokens. -/
theorem warn (warning : Warning) (loc : Location) : Glances stops (warn warning loc) :=
  (note _).bind fun _ => modify fun _ _ => rfl

/-- Whether the reader is inside of a loop does not depend on the tokens. -/
theorem requireLoop (keyword : Keyword) (loc : Location) : Glances stops (requireLoop keyword loc) := by
  apply get fun _ _ => rfl
  intro r
  split
  · exact throw _
  · exact pure _

/-- A production that looks at one lexeme within any depth does so within that of the reader. -/
theorem read {p : Production α} (h : ∀ depth, Glances stops (p.readWithin depth)) : Glances stops p.read := by
  constructor
  intro r
  constructor
  · intro r' a hrun
    rw [p.run_read] at hrun
    exact (h r.depth).suffix hrun
  · intro r' tokens tail a hrun htokens hends
    -- both runs are made within a depth that is enough for either
    have hdepth := (p.need_lt_depth r).trans_le (Nat.le_add_right _ (r.withRest (tokens ++ tail)).depth)
    have hdepth' := (p.need_lt_depth (r.withRest (tokens ++ tail))).trans_le (Nat.le_add_left _ r.depth)
    rw [← Production.run_readWithin hdepth] at hrun
    rw [← Production.run_readWithin hdepth']
    exact (h _).run_append hrun htokens hends

end Glances

/-! ## Steps that read something -/

namespace TakesAt

theorem bind (hp : TakesAt stops p r) (hk : ∀ a, Glances stops (k a)) : TakesAt stops (p >>= k) r := by
  refine ⟨hp.glancesAt.bind hk, ⟨fun {r' b} hrun => ?_⟩⟩
  obtain ⟨a, r₁, hfirst, hsecond⟩ := run_bind_eq_ok.1 hrun
  exact (hp.consumesAt.advances hfirst).trans_suffix ((hk a).suffix hsecond)

/-- Where the end is not next there is a token to go past. -/
theorem advance {k : Unit → ReadM β} (h : r.next.lexeme ≠ .eof) (hk : Glances stops (k ())) :
    TakesAt stops (advance >>= k) r := by
  obtain ⟨ts, hts⟩ := Reader.exists_rest_eq_cons h
  exact ⟨.advance_cons hts hk, .advance_cons hts hk⟩

/-- A step that goes past a token may make use of which token that is. -/
theorem of_next {q : ReadM α} (h : ∀ r' : Reader, r'.next = r.next → p.run r' = q.run r') (hq : TakesAt stops q r) :
    TakesAt stops p r := by
  refine ⟨⟨?_, ?_⟩, ⟨?_⟩⟩
  · intro r' a hrun
    rw [h r rfl] at hrun
    exact hq.glancesAt.suffix hrun
  · intro r' tokens tail a hrun htokens hends
    rw [h r rfl] at hrun
    obtain ⟨more, rfl⟩ := (hq.consumesAt.advances hrun).exists_eq_next_cons htokens
    rw [h (r.withRest (r.next :: more ++ tail)) rfl]
    exact hq.glancesAt.run_append hrun htokens hends
  · intro r' a hrun
    rw [h r rfl] at hrun
    exact hq.consumesAt.advances hrun

/-- A look at the next token before the step that goes past it. -/
theorem current {k : Token → ReadM β} (hk : TakesAt stops (k r.next) r) : TakesAt stops (current >>= k) r := by
  refine of_next (fun r' hnext => ?_) hk
  rw [run_bind_of_ok (run_current r'), hnext]

end TakesAt

namespace Takes

variable {stops' : Lexeme → Prop}

/-- Such a step goes past a token. -/
theorem consumes (hp : Takes stops p) : Consumes p := ⟨fun r => (hp.takesAt r).consumesAt⟩

/-- Such a step looks at one lexeme behind what it reads. -/
theorem glances (hp : Takes stops p) : Glances stops p := ⟨fun r => (hp.takesAt r).glancesAt⟩

theorem of_peeks (hp : Peeks stops p) (hconsumes : Consumes p) : Takes stops p :=
  ⟨fun r => ⟨(Glances.of_peeks hp).glancesAt r, hconsumes.consumesAt r⟩⟩

/-- A step that fails reads nothing. -/
theorem of_fails (h : ∀ (r r' : Reader) (a : α), p.run r ≠ .ok a r') : Takes stops p :=
  ⟨fun r => ⟨(Glances.of_fails h).glancesAt r, ⟨fun hrun => (h _ _ _ hrun).elim⟩⟩⟩

theorem throw (e : CompileError) : Takes stops (throw e : ReadM α) := of_fails fun _ _ _ hrun => by cases hrun

theorem bind (hp : Takes stops p) (hk : ∀ a, Glances stops (k a)) :
    Takes stops (p >>= k) := ⟨fun r => (hp.takesAt r).bind hk⟩

/-- If more is read behind the first step, what follows on it is the same whatever comes in the end. -/
theorem behind (hp : Glances (fun _ => False) p) (hk : ∀ a, Takes stops (k a)) : Takes stops (p >>= k) := by
  constructor
  intro r
  refine ⟨⟨fun {r' b} hrun => ?_, fun {r' tokens tail b} hrun htokens hends => ?_⟩, ⟨fun {r' b} hrun => ?_⟩⟩
  all_goals
    obtain ⟨a, r₁, hfirst, hsecond⟩ := run_bind_eq_ok.1 hrun
    have hadvances := (hk a).consumes.advances hsecond
    have hsuffix := hp.suffix hfirst
  · exact hadvances.suffix.trans hsuffix
  · obtain ⟨first, second, rfl, hrest, hrest₁⟩ := exists_eq_append_of_suffix htokens hsuffix hadvances.suffix
    have halike : EndsAlike (fun _ => False) r₁ r₁.rest (second ++ tail) := by
      rw [hrest₁]
      exact .append_of_ne_nil r₁ r'.rest tail (hadvances.ne_nil_of_rest_eq hrest₁)
    rw [List.append_assoc, run_bind_of_ok (hp.run_append hfirst hrest halike)]
    exact (hk a).glances.run_append hsecond hrest₁ hends
  · exact .of_suffix hsuffix hadvances

theorem current {k : Token → ReadM β} (hk : ∀ r : Reader, TakesAt stops (k r.next) r) : Takes stops (current >>= k) :=
  ⟨fun r => .current (hk r)⟩

/-- A check in front of a step. -/
theorem check {c : Prop} [Decidable c] {fault : DeclarationFault} {loc : Location} {p : ReadM β} (h : Takes stops p) :
    Takes stops (if c then refuseDeclaration fault loc >>= k else p) := by
  split
  · exact of_fails fun _ _ _ hrun => by cases hrun
  · exact h

/-- A lexeme that is read if it is next. -/
theorem acceptLexeme_bind {lexeme : Lexeme} {k : Bool → ReadM β} (heof : lexeme ≠ .eof)
    (htrue : Glances stops (k true)) (hfalse : Takes stops (k false)) : Takes stops (acceptLexeme lexeme >>= k) := by
  constructor
  intro r
  by_cases hnext : r.next.lexeme = lexeme
  · have hend : r.next.lexeme ≠ .eof := hnext ▸ heof
    refine .of_next (q := Grammar.advance >>= fun _ => k true) ?_ (.advance hend htrue)
    intro r' hsame
    have haccept : (acceptLexeme lexeme).run r' = .ok true (r'.withRest r'.rest.tail) := by
      rw [run_acceptLexeme, if_pos (by rw [hsame, hnext])]
    rw [run_bind_of_ok haccept, run_bind_of_ok (run_advance r')]
  · refine .of_next ?_ (hfalse.takesAt r)
    intro r' hsame
    rw [run_bind_of_ok (by rw [run_acceptLexeme, if_neg (by rwa [hsame])])]

/-- What is asked of a reader must not be what tokens it stands before. -/
theorem get {k : Reader → ReadM β} (hsame : ∀ (r : Reader) (ts : List Token), k (r.withRest ts) = k r)
    (hk : ∀ r, Takes stops (k r)) : Takes stops (MonadState.get >>= k) := by
  have hglances : Glances stops (MonadState.get >>= k) := .get hsame fun r => (hk r).glances
  refine ⟨fun r => ⟨hglances.glancesAt r, ⟨fun hrun => ?_⟩⟩⟩
  rw [run_bind_of_ok (EStateM.run_get r)] at hrun
  exact (hk r).consumes.advances hrun

/-- A production within the depth that the reader allows, and more behind it. -/
theorem read_bind {p : Production α} (h : Takes stops (p.read >>= k)) :
    Takes stops (MonadState.get >>= fun r => p.readWithin r.depth >>= k) := h

/-- If a token is read behind it, there is a token to go past. -/
theorem advance_bind {k : Unit → ReadM β} (hk : Takes stops (k ())) : Takes stops (advance >>= k) := by
  constructor
  intro r
  cases hrest : r.rest with
  | nil =>
    have hfails : ∀ {r' : Reader} {b : β}, (advance >>= k).run r ≠ .ok b r' := by
      intro r' b hrun
      rw [run_bind_of_ok (run_advance r)] at hrun
      have hlength := (hk.consumes.advances hrun).length_lt
      rw [Reader.rest_withRest, hrest] at hlength
      exact absurd hlength (Nat.not_lt_zero _)
    exact ⟨⟨fun hrun => (hfails hrun).elim, fun hrun => (hfails hrun).elim⟩, ⟨fun hrun => (hfails hrun).elim⟩⟩
  | cons t ts => exact ⟨.advance_cons hrest hk.glances, .advance_cons hrest hk.glances⟩

theorem accept_bind {symbol : Symbol} {k : Bool → ReadM β} (htrue : Glances stops (k true))
    (hfalse : Takes stops (k false)) : Takes stops (accept symbol >>= k) :=
  acceptLexeme_bind (by simp) htrue hfalse

/-! ## Moves -/

theorem expect (symbol : Symbol) (context : String) : Takes stops (expect symbol context) :=
  of_peeks (.expect ..) (.expect ..)

/-- A step that ends with a symbol. -/
theorem expect_pure (symbol : Symbol) (context : String) (a : α) : Takes stops (do
    Grammar.expect symbol context
    return a) := (expect ..).bind fun _ => .pure _

theorem identifier : Takes stops identifier := of_peeks .identifier .identifier

end Takes

namespace Glances

/-- A lexeme that is read if it is next. What stops the step must be another lexeme. -/
theorem acceptLexeme {lexeme : Lexeme} (heof : lexeme ≠ .eof) (hstops : ∀ l, stops l → l ≠ lexeme) :
    Glances stops (acceptLexeme lexeme) := by
  constructor
  intro r
  by_cases hnext : r.next.lexeme = lexeme
  · refine (TakesAt.of_next (q := Grammar.advance >>= fun _ => Pure.pure true) ?_ ?_).glancesAt
    · intro r' hsame
      rw [run_acceptLexeme, if_pos (by rw [hsame, hnext]), run_bind_of_ok (run_advance r')]
      rfl
    · exact .advance (hnext ▸ heof) (pure _)
  · have hrun : (Grammar.acceptLexeme lexeme).run r = .ok false r := by rw [run_acceptLexeme, if_neg hnext]
    constructor
    · intro r' b hok
      cases hrun.symm.trans hok
      exact List.suffix_refl _
    · intro r' tokens tail b hok htokens hends
      cases hrun.symm.trans hok
      have hnil : tokens = [] := List.append_left_eq_self.1 htokens.symm
      subst hnil
      rw [List.nil_append, run_acceptLexeme, if_neg]
      obtain hsame | hother := hends
      · rwa [hsame, r.withRest_rest]
      · exact hstops _ hother

theorem accept (symbol : Symbol) : Glances (fun _ => False) (accept symbol) :=
  acceptLexeme (by simp) fun _ => False.elim

end Glances

namespace Takes

theorem expression : Takes (fun _ => False) expression :=
  of_peeks (Peeks.expression.mono fun _ => False.elim) .expression

theorem place : Takes (fun _ => False) place := of_peeks (Peeks.place.mono fun _ => False.elim) .place

/-! ## Variables -/

/-- A type ends with a keyword or with the name of a struct. -/
theorem dataType : Takes stops dataType := by
  apply current
  intro r
  split
  case h_6 hnext =>
    refine .advance (by simp [hnext]) (identifier.glances.bind fun name => ?_)
    exact .get (fun _ _ => rfl) fun r' => .check (.pure _)
  case h_7 => exact (throw _).takesAt r
  all_goals
    next hnext => exact .advance (by simp [hnext]) (.pure _)

/-- The length of an array ends with its bracket. -/
theorem arrayLength (name : String) : Takes stops (arrayLength name) := by
  apply current
  intro r
  split
  · next hnext =>
    refine .advance (by simp [hnext]) ?_
    split
    · exact .pure _
    · exact .throw _
  · exact (throw _).takesAt r

end Takes

namespace Glances

/-- Brackets may be missing, which shows in the next lexeme. -/
theorem arrayBrackets (name : String) : Glances (fun _ => False) (arrayBrackets name) := by
  apply (accept .openBracket).bind
  intro b
  split
  · refine (Takes.arrayLength name).glances.bind fun length => (Takes.expect ..).glances.bind fun _ => ?_
    exact (modify fun _ _ => rfl).bind fun _ => pure _
  · exact pure _

/-- The values of a list may be missing, which shows in the next lexeme. -/
theorem braceValues (depth : Nat) : Glances (fun _ => False) (braceValues depth) := by
  induction depth with
  | zero => exact of_fails fun _ _ _ hrun => by cases hrun
  | succ depth ih =>
    apply (nextIs _).bind
    intro b
    split
    · exact pure _
    · refine Takes.expression.glances.bind fun value => (accept .comma).bind fun b => ?_
      split
      · exact ih.bind fun _ => pure _
      · exact pure _

end Glances

/-- A list of values ends with its closing brace. -/
theorem Takes.braceList : Takes stops braceList :=
  read_bind (p := .values) (behind (.read .braceValues) fun _ => expect_pure ..)

/-- A value may be missing, which shows in the next lexeme. -/
theorem Glances.initializer (name : String) (type : DataType) (length : Option Nat) (loc : Location) :
    Glances (fun _ => False) (initializer name type length loc) := by
  apply (accept .openBrace).bind
  intro b
  split
  · apply Takes.braceList.glances.bind
    intro values
    split
    · exact check (pure _)
    · exact get (fun _ _ => rfl) fun _ => check (pure _)
    · exact throw _
  · exact check (Takes.expression.glances.bind fun _ => pure _)

namespace Takes

/-- A declaration ends with its semicolon. -/
theorem variableDeclaration : Takes stops variableDeclaration := by
  apply current
  intro r
  refine (behind dataType.glances fun type => behind identifier.glances fun name => check ?_).takesAt r
  refine behind (.arrayBrackets name) fun length => behind (.accept .assign) fun b => ?_
  dsimp only
  split
  · exact behind ((Glances.initializer ..).map _) fun _ => expect_pure ..
  · exact behind (.pure _) fun _ => expect_pure ..

/-! ## Assignments and expressions -/

theorem ne_eof_of_stepOperator? {l : Lexeme} {op : Operator} (h : stepOperator? l = some op) : l ≠ .eof := by
  rintro rfl
  cases h

/-- The step of a loop ends with an expression or a place, behind which one lexeme counts. -/
theorem step : Takes (fun _ => False) step := by
  apply current
  intro r
  split
  · next hop => exact .advance (ne_eof_of_stepOperator? hop) (place.glances.bind fun _ => .pure _)
  · refine (place.bind fun target => (current fun r' => ?_).glances).takesAt r
    split
    · next hop => exact .advance (ne_eof_of_stepOperator? hop) (.pure _)
    · exact (accept_bind (expression.glances.bind fun _ => .pure _) (throw _)).takesAt r'

/-- An expression that is a statement ends with its semicolon. -/
theorem expressionStatement : Takes stops expressionStatement := behind expression.glances fun _ => expect_pure ..

/-- What follows the target of an assignment ends with the semicolon. -/
theorem assignmentTo (target : Expr) (loc : Location) : Takes stops (assignmentTo target loc) := by
  apply current
  intro r
  split
  · next hop => exact .advance (ne_eof_of_stepOperator? hop) (expect_pure ..).glances
  · exact (advance_bind (behind expression.glances fun _ => expect_pure ..)).takesAt r

/-- An assignment ends with its semicolon. -/
theorem assignment : Takes stops assignment := by
  apply current
  intro r
  exact (behind place.glances fun target => assignmentTo ..).takesAt r

/-- What is returned ends with the semicolon. -/
theorem returned (loc : Location) : Takes stops (returned loc) :=
  accept_bind (.pure _) (behind expression.glances fun _ => expect_pure ..)

/-! ## Heads of loops and branches -/

/-- The start of a `for` loop ends with a semicolon. -/
theorem forStart : Takes stops forStart := by
  apply current
  intro r
  refine Takes.takesAt (accept_bind ?_ ?_) r
  · exact .pure _
  simp only [Bool.false_eq_true, if_false]
  split
  · exact variableDeclaration.bind fun _ => .pure _
  · split
    · refine behind place.glances fun _ => behind (expect ..).glances fun _ => ?_
      exact behind expression.glances fun _ => expect_pure ..
    · exact throw _

/-- The condition of a `for` loop ends with a semicolon. -/
theorem forCondition : Takes stops forCondition := by
  apply behind (.nextIs _)
  intro b
  dsimp only
  split
  · exact behind (.pure _) fun _ => expect_pure ..
  · exact behind (expression.glances.map _) fun _ => expect_pure ..

/-- The step of a `for` loop ends with the parenthesis of the head. -/
theorem forStep : Takes stops forStep := by
  apply behind (.nextIs _)
  intro b
  dsimp only
  split
  · exact behind (.pure _) fun _ => expect_pure ..
  · exact behind (step.glances.map _) fun _ => expect_pure ..

/-- A condition in parentheses ends with the closing one. -/
theorem parenthesisedCondition (keyword construct : String) : Takes stops (parenthesisedCondition keyword construct) :=
  behind (expect ..).glances fun _ => behind expression.glances fun _ => expect_pure ..

end Takes

/-! ## Statements that begin with a name -/

/-- A statement that begins with a name has a place in front, and more behind it. -/
theorem exists_run_place_of_assignmentOrExpression {name : String} {s : Statement}
    (hname : r.next.lexeme = .identifier name) (hrun : assignmentOrExpression.run r = .ok s r') :
    ∃ target r₁, place.run r = .ok target r₁ ∧ r₁.Advances r' := by
  cases hplace : place.run r with
  | error e r₁ =>
    -- without a place there is no expression either
    exfalso
    have hcall : (r.ahead 1).lexeme ≠ .symbol .openParen := by
      intro hcall
      cases hplace.symm.trans (run_place_of_call hname hcall)
    have hdecision : ∀ target r', place.run r = .ok target r' → false = marksAssignment r'.next.lexeme := by
      intro target r' h
      cases hplace.symm.trans h
    rw [run_assignmentOrExpression hname hdecision] at hrun
    cases (run_expressionStatement_of_error hname hcall hplace).symm.trans hrun
  | ok target r₁ =>
    refine ⟨target, r₁, rfl, ?_⟩
    rw [run_assignmentOrExpression_of_place hname hplace] at hrun
    cases hmark : marksAssignment r₁.next.lexeme with
    | true =>
      rw [hmark, if_pos rfl, run_assignment_of_place hplace] at hrun
      have htakes : Takes (fun _ => True) (assignmentTo target r.next.loc) := .assignmentTo ..
      exact htakes.consumes.advances hrun
    | false =>
      rw [hmark, if_neg Bool.false_ne_true] at hrun
      obtain ⟨value, r₂, hvalue, hlast⟩ := run_bind_eq_ok.1 hrun
      have hpasses := passes_expression_of_place hname hplace
      rw [hvalue] at hpasses
      have htakes : Takes (fun _ => True) (do
          expect .semicolon "after expression"
          return Statement.evaluate value) := .expect_pure ..
      exact .of_suffix hpasses.suffix (htakes.consumes.advances hlast)

/-- A statement that begins with a name ends with its semicolon, whichever of the two it is. -/
theorem TakesAt.assignmentOrExpression {name : String} (hname : r.next.lexeme = .identifier name) :
    TakesAt stops assignmentOrExpression r := by
  have hconsumes := Consumes.assignmentOrExpression.consumesAt r
  refine ⟨⟨fun hrun => (Moves.assignmentOrExpression.passes hrun).suffix, ?_⟩, hconsumes⟩
  intro r' tokens tail s hrun htokens hends
  obtain ⟨target, r₁, hplace, hadvances⟩ := exists_run_place_of_assignmentOrExpression hname hrun
  obtain ⟨first, second, rfl, hrest, hrest₁⟩ :=
    exists_eq_append_of_suffix htokens (Takes.place.glances.suffix hplace) hadvances.suffix
  -- before the other tokens the same place is read, and the same lexeme stands behind it
  have halike : EndsAlike (fun _ => False) r₁ r₁.rest (second ++ tail) := by
    rw [hrest₁]
    exact .append_of_ne_nil r₁ r'.rest tail (hadvances.ne_nil_of_rest_eq hrest₁)
  have hplace' := Takes.place.glances.run_append hplace hrest halike
  have hmark : (r₁.withRest (second ++ tail)).next.lexeme = r₁.next.lexeme := by
    rw [halike.resolve_right id, r₁.withRest_rest]
  have hname' : (r.withRest (first ++ second ++ tail)).next.lexeme = .identifier name := by
    obtain ⟨more, hmore⟩ := (hconsumes.advances hrun).exists_eq_next_cons htokens
    rw [hmore]
    exact hname
  have hforms : Takes stops (if marksAssignment r₁.next.lexeme then assignment else expressionStatement) := by
    split
    · exact .assignment
    · exact .expressionStatement
  rw [run_assignmentOrExpression_of_place hname hplace] at hrun
  rw [← List.append_assoc] at hplace'
  rw [run_assignmentOrExpression_of_place hname' hplace', hmark]
  exact hforms.glances.run_append hrun htokens hends

/-! ## Statements -/

/-- Whether a lexeme does not begin another arm of a branch. -/
def endsArms (l : Lexeme) : Prop := l ≠ .keyword .elseWord

section Productions

variable {depth : Nat} (hstatements : Glances (fun _ => False) (statements depth))
  (hstatement : Takes endsArms (statement depth)) (hbody : ∀ context, Takes endsArms (body depth context))
  (halternative : Glances endsArms (alternative depth))

include hstatements hstatement in
/-- The statements of a block end at a lexeme that is not read, so another one cannot stand there. -/
theorem Glances.statements_succ : Glances (fun _ => False) (statements (depth + 1)) := by
  have hfirst : Glances (fun _ => False) (statement depth) := hstatement.glances.mono fun _ => False.elim
  constructor
  intro r
  rw [statements, statementsBy]
  refine .of_lexeme (fun r' hsame => (run_bind_of_ok (run_current r')).trans (by rw [hsame])) ?_
  split
  · exact (pure _).glancesAt r
  · exact (pure _).glancesAt r
  · next hnext =>
    refine (TakesAt.advance (by simp [hnext]) ?_).glancesAt
    exact hstatements.bind fun _ => (Takes.expect ..).glances.bind fun _ => hstatements.bind fun _ => pure _
  · next hnext => exact (TakesAt.advance (by simp [hnext]) hstatements).glancesAt
  · exact (hfirst.bind fun _ => hstatements.bind fun _ => pure _).glancesAt r

include hbody halternative in
/-- A statement looks for `else` behind it, if the statements inside do. -/
theorem Takes.statement_succ : Takes endsArms (statement (depth + 1)) := by
  rw [Grammar.statement, statementBy]
  apply current
  intro r
  -- only a branch and the body of a loop end with another statement, and look behind it
  split
  · next hnext => exact .advance (by simp [hnext]) (returned _).glances
  · next hnext =>
    refine .advance (by simp [hnext]) ((parenthesisedCondition ..).glances.bind fun _ => ?_)
    exact (hbody _).glances.bind fun _ => halternative.bind fun _ => .pure _
  · next hnext =>
    refine .advance (by simp [hnext]) ((parenthesisedCondition ..).glances.bind fun _ => ?_)
    exact (hbody _).glances.insideLoop.bind fun _ => .pure _
  · next hnext =>
    refine .advance (by simp [hnext]) ((expect ..).glances.bind fun _ => forStart.glances.bind fun _ => ?_)
    refine forCondition.glances.bind fun _ => forStep.glances.bind fun _ => ?_
    exact (hbody _).glances.insideLoop.bind fun _ => .pure _
  · next hnext =>
    exact .advance (by simp [hnext]) ((Glances.requireLoop ..).bind fun _ => (expect_pure ..).glances)
  · next hnext =>
    exact .advance (by simp [hnext]) ((Glances.requireLoop ..).bind fun _ => (expect_pure ..).glances)
  · exact (behind step.glances fun _ => expect_pure ..).takesAt r
  · exact (behind step.glances fun _ => expect_pure ..).takesAt r
  · next hnext => exact .assignmentOrExpression hnext
  · split
    · exact (variableDeclaration.bind fun _ => .pure _).takesAt r
    · exact (throw _).takesAt r

include hstatements hstatement in
theorem Takes.body_succ (context : String) : Takes endsArms (body (depth + 1) context) := by
  rw [Grammar.body, bodyBy]
  refine accept_bind ?_ ?_
  · exact (behind hstatements fun _ => expect_pure ..).glances
  · exact hstatement.bind fun _ => .pure _

include hbody halternative in
/-- Further arms end at a lexeme other than `else`, and any other such lexeme may stand there. -/
theorem Glances.alternative_succ : Glances endsArms (alternative (depth + 1)) := by
  rw [alternative, alternativeBy]
  apply (acceptLexeme (by simp) fun _ => id).bind
  intro b
  split
  · refine (Takes.acceptLexeme_bind (by simp) ?_ ?_).glances
    · refine (Takes.parenthesisedCondition ..).glances.bind fun _ => (hbody _).glances.bind fun _ => ?_
      exact halternative.bind fun _ => pure _
    · exact (hbody _).bind fun _ => pure _
  · exact pure _

end Productions

/-- The four productions of statements, each from those of less depth. -/
theorem Takes.productions (depth : Nat) :
    Glances (fun _ => False) (statements depth) ∧ Takes endsArms (statement depth) ∧
      (∀ context, Takes endsArms (body depth context)) ∧ Glances endsArms (alternative depth) := by
  induction depth with
  | zero =>
    refine ⟨.of_fails ?_, .of_fails ?_, fun _ => .of_fails ?_, .of_fails ?_⟩
    all_goals
      intro r r' a hrun
      cases hrun
  | succ depth ih =>
    obtain ⟨hstatements, hstatement, hbody, halternative⟩ := ih
    exact ⟨.statements_succ hstatements hstatement, .statement_succ hbody halternative,
      .body_succ hstatements hstatement, .alternative_succ hbody halternative⟩

namespace Glances

theorem statements : Glances (fun _ => False) Production.statements.read :=
  read fun depth => (Takes.productions depth).1

end Glances

namespace Takes

/-- A production that goes past a token within any depth does so within that of the reader. -/
theorem read {p : Production α} (h : ∀ depth, Takes stops (p.readWithin depth)) : Takes stops p.read := by
  have hglances : Glances stops p.read := .read fun depth => (h depth).glances
  refine ⟨fun r => ⟨hglances.glancesAt r, ⟨fun hrun => ?_⟩⟩⟩
  rw [p.run_read] at hrun
  exact (h r.depth).consumes.advances hrun

/-- Behind a statement it counts only whether `else` follows. -/
theorem statement : Takes endsArms Production.statement.read := read fun depth => (productions depth).2.1

/-- Behind a body it counts only whether `else` follows. -/
theorem body (context : String) : Takes endsArms (Production.body context).read :=
  read fun depth => (productions depth).2.2.1 context

end Takes

end ClockedC.Grammar
