import ClockedC.Proofs.Reading.Errors
import ClockedC.Proofs.Recursion.Progress

/-!
# The recursion of the grammar

Productions that call each other are bounded by a depth, which runs out one call at a time. Here they are written with
the calls left open, so that it can be said where a call is made: always before fewer tokens, or before as many by a
smaller production. A depth that covers what is left to read then makes no difference.
-/

namespace ClockedC.Grammar

variable {α β : Type}

/-! ## Productions -/

/-- The groups of productions that call each other. -/
inductive Group where
  | expressions
  | values
  | statements
  | structFields
  | parameters
  | items

/-- The productions that take part in a recursion, by what they read. -/
inductive Production : Type → Type where
  /-- An expression whose operators bind at least as tightly as `least`. -/
  | expression (least : Int) : Production Expr
  /-- The operators behind the operand `left`. -/
  | operators (least : Int) (left : Expr) : Production Expr
  | operand : Production Expr
  /-- The fields selected from `base`. -/
  | fields (loc : Location) (base : Expr) : Production Expr
  /-- The arguments of a call, of which there is one at least. -/
  | arguments : Production (List Expr)
  /-- The values of a brace list. -/
  | values : Production (List Expr)
  | statements : Production (List Statement)
  | statement : Production Statement
  /-- A block in braces or a single statement. -/
  | body (context : String) : Production (List Statement)
  /-- The arms that follow the first arm of a branch. -/
  | alternative : Production Alternative
  /-- The fields of a struct that follow on `others`. -/
  | structFields (struct : String) (others : List Field) : Production (List Field)
  /-- The parameters that follow on `others`. -/
  | parameters (others : List Parameter) : Production (List Parameter)
  | items : Production (List Item)

namespace Production

/-- The group that a production belongs to. -/
def group : Production α → Group
  | expression _ | operators _ _ | operand | fields _ _ | arguments => .expressions
  | values => .values
  | statements | statement | body _ | alternative => .statements
  | structFields _ _ => .structFields
  | parameters _ => .parameters
  | items => .items

/-- A production may call a smaller one of its group before it has gone past a token. -/
def rank : Production α → Nat
  | arguments => 2
  | expression _ | statements | body _ => 1
  | operators _ _ | operand | fields _ _ | values | statement | alternative | structFields _ _ | parameters _
  | items => 0

/-- What the production does within a depth. -/
def readWithin (depth : Nat) : Production α → ReadM α
  | expression least => expressionAt depth least
  | operators least left => operatorsFrom depth least left
  | operand => primary depth
  | fields loc base => fieldsOf loc depth base
  | arguments => commaSeparated (expressionAt depth Operator.lowestPrecedence) depth
  | values => braceValues depth
  | statements => Grammar.statements depth
  | statement => Grammar.statement depth
  | body context => Grammar.body depth context
  | alternative => Grammar.alternative depth
  | structFields struct others => Grammar.structFields struct depth others
  | parameters others => parametersFrom depth others
  | items => Grammar.items depth

/-- What the production does within the depth that the reader allows. -/
def read (p : Production α) : ReadM α := do
  p.readWithin (← get).depth

end Production

/-- A way to make the calls of productions. -/
abbrev Calls := ⦃α : Type⦄ → Production α → ReadM α

/-- The calls are made within a depth. -/
def Calls.within (depth : Nat) : Calls := fun _ q => q.readWithin depth

namespace Production

/-- One call of a production, where the calls of productions of its group are made by `call`. -/
def unfold (call : Calls) : Production α → ReadM α
  | expression least => expressionBy (call operand) (fun least left => call (operators least left)) least
  | operators least left =>
    operatorsBy (fun least => call (expression least)) (fun least left => call (operators least left)) least left
  | operand =>
    operandBy (call operand) (fun least => call (expression least)) (argumentsBy (call arguments))
      (placeBy (fun loc base => call (fields loc base)) (call (expression Operator.lowestPrecedence)))
  | fields loc base => fieldsBy (fun base => call (fields loc base)) loc base
  | arguments => commaSeparatedBy (call arguments) (call (expression Operator.lowestPrecedence))
  | values => braceValuesBy (call values)
  | statements => statementsBy (fun inner => inner) (call statements) (call statement)
  | statement => statementBy (fun context => call (body context)) (call alternative)
  | body context => bodyBy (call statements) (call statement) context
  | alternative => alternativeBy .nothing .elseIf .otherwise (fun context => call (body context)) (call alternative)
  | structFields struct others => structFieldsBy (fun others => call (structFields struct others)) struct others
  | parameters others => parametersBy (fun others => call (parameters others)) others
  | items => itemsBy (call items)

/-- Within one more depth, calls are made within the depth. The arguments of a call are the exception: all of them are
read within the same depth. -/
theorem readWithin_succ (p : Production α) (h : p.rank ≠ 2) (depth : Nat) :
    p.readWithin (depth + 1) = p.unfold (.within depth) := by
  cases p with
  | arguments => exact absurd rfl h
  | expression => rw [readWithin, expressionAt]; rfl
  | operators => rw [readWithin, operatorsFrom]; rfl
  | operand => rw [readWithin, primary]; rfl
  | statements => rw [readWithin, Grammar.statements]; rfl
  | statement => rw [readWithin, Grammar.statement]; rfl
  | body => rw [readWithin, Grammar.body]; rfl
  | alternative => rw [readWithin, Grammar.alternative]; rfl
  | fields | values | structFields | parameters | items => rfl

/-! ## Calls with less left to read -/

variable {r r' : Reader}

/-- A call of `q` before `r'` has less left to read than one of `p` before `r`: there are fewer tokens, or as many and
the production is smaller. -/
structure Below (q : Production β) (r' : Reader) (p : Production α) (r : Reader) : Prop where
  group_eq : q.group = p.group
  decreases : r'.rest.length < r.rest.length ∨ r'.rest.length = r.rest.length ∧ q.rank < p.rank

/-- The depth that a production needs. -/
def need (p : Production α) (r : Reader) : Nat := 4 * r.rest.length + p.rank

theorem rank_lt_four (p : Production α) : p.rank < 4 := by cases p <;> simp [rank]

/-- The depth that the reader allows covers every production. -/
theorem need_lt_depth (p : Production α) (r : Reader) : p.need r < r.depth := by
  have := p.rank_lt_four
  rw [need, r.depth_eq]
  omega

/-- A call with less left to read needs less depth. -/
theorem Below.need_lt {q : Production β} {p : Production α} (h : q.Below r' p r) : q.need r' < p.need r := by
  have := q.rank_lt_four
  have := h.decreases
  rw [need, need]
  omega

/-- Fewer tokens. -/
theorem Below.of_lt {q : Production β} {p : Production α} (hgroup : q.group = p.group)
    (h : r'.rest.length < r.rest.length) : q.Below r' p r := ⟨hgroup, .inl h⟩

/-- A smaller production, and no more tokens. -/
theorem Below.of_le {q : Production β} {p : Production α} (hgroup : q.group = p.group) (hrank : q.rank < p.rank)
    (h : r'.rest.length ≤ r.rest.length) : q.Below r' p r :=
  ⟨hgroup, h.lt_or_eq.imp_right fun heq => ⟨heq, hrank⟩⟩

end Production

/-! ## Steps that do the same -/

/-- The outcome is that the depth has run out. -/
def Outcome.GivesUp (outcome : EStateM.Result CompileError Reader α) : Prop :=
  ∃ loc r, outcome = .error (.syntactic .tooDeep loc) r

/-- Before the reader the steps do the same, and do not run out of depth. -/
structure SameAt (p p' : ReadM α) (r : Reader) : Prop where
  run_eq : p.run r = p'.run r
  not_givesUp : ¬ Outcome.GivesUp (p.run r)

/-- The steps do the same before fewer than `n` tokens. -/
structure SameWithin (n : Nat) (p p' : ReadM α) : Prop where
  sameAt : ∀ r : Reader, r.rest.length < n → SameAt p p' r

/-- The step never runs out of depth. -/
abbrev Finishes (p : ReadM α) : Prop := Avoids CompileError.IsTooDeep p

variable {r : Reader} {p p' : ReadM α} {k k' : α → ReadM β}

theorem Finishes.not_givesUp (h : Finishes p) (r : Reader) : ¬ Outcome.GivesUp (p.run r) := by
  rintro ⟨loc, r', heq⟩
  exact h.not_kind heq ⟨loc, rfl⟩

theorem Finishes.of_not_givesUp (h : ∀ r, ¬ Outcome.GivesUp (p.run r)) : Finishes p := by
  constructor
  rintro r r' e heq ⟨loc, rfl⟩
  exact h r ⟨loc, r', heq⟩

namespace SameAt

theorem of_finishes (h : Finishes p) : SameAt p p r := ⟨rfl, h.not_givesUp r⟩

theorem symm (h : SameAt p p' r) : SameAt p' p r := ⟨h.run_eq.symm, h.run_eq ▸ h.not_givesUp⟩

/-- Steps that do the same as a third one do the same. -/
theorem trans {p'' : ReadM α} (h : SameAt p p' r) (h' : SameAt p' p'' r) : SameAt p p'' r :=
  ⟨h.run_eq.trans h'.run_eq, h.not_givesUp⟩

/-- Sequences do the same if their steps do, each behind the one before it. -/
theorem bind (hp : SameAt p p' r) (hk : ∀ a r', p.run r = .ok a r' → SameAt (k a) (k' a) r') :
    SameAt (p >>= k) (p' >>= k') r := by
  have hup := hp.not_givesUp
  suffices h : EStateM.run (p >>= k) r = EStateM.run (p' >>= k') r ∧ ¬ Outcome.GivesUp (EStateM.run (p >>= k) r) from
    ⟨h.1, h.2⟩
  rw [EStateM.run_bind, EStateM.run_bind, ← hp.run_eq]
  cases hrun : p.run r with
  | ok a r' => exact ⟨(hk a r' hrun).run_eq, (hk a r' hrun).not_givesUp⟩
  | error e r' =>
    refine ⟨rfl, ?_⟩
    rw [hrun] at hup
    rintro ⟨loc, r₁, heq⟩
    cases heq
    exact hup ⟨_, _, rfl⟩

/-- A step whose outcome is known. -/
theorem known {r₁ : Reader} {a : α} (h : p.run r = .ok a r₁) (hk : SameAt (k a) (k' a) r₁) :
    SameAt (p >>= k) (p >>= k') r := by
  have hsame : SameAt p p r := ⟨rfl, by rw [h]; rintro ⟨loc, r', heq⟩; cases heq⟩
  apply hsame.bind
  intro a' r' hrun
  rw [h] at hrun
  cases hrun
  exact hk

theorem pure (a : α) : SameAt (Pure.pure a) (Pure.pure a) r := ⟨rfl, by rintro ⟨loc, r', heq⟩; cases heq⟩

/-- The next token may be looked at first. -/
theorem current {k k' : Token → ReadM β} (hk : SameAt (k r.next) (k' r.next) r) :
    SameAt (current >>= k) (current >>= k') r := known (run_current r) hk

/-- Behind a token fewer are left. -/
theorem advance {k k' : Unit → ReadM β} (h : r.next.lexeme ≠ .eof)
    (hk : SameWithin r.rest.length (k ()) (k' ())) : SameAt (advance >>= k) (advance >>= k') r :=
  known (run_advance r) (hk.sameAt _ (Reader.Advances.tail h).length_lt)

/-- Behind a lexeme that was passed fewer tokens are left. -/
theorem acceptLexeme {lexeme : Lexeme} {k k' : Bool → ReadM β} (heof : lexeme ≠ .eof)
    (htrue : SameWithin r.rest.length (k true) (k' true)) (hfalse : SameAt (k false) (k' false) r) :
    SameAt (acceptLexeme lexeme >>= k) (acceptLexeme lexeme >>= k') r := by
  by_cases h : r.next.lexeme = lexeme
  · have hrun : (Grammar.acceptLexeme lexeme).run r = .ok true (r.withRest r.rest.tail) := by
      rw [run_acceptLexeme, if_pos h]
    exact known hrun (htrue.sameAt _ (Reader.Advances.tail (h ▸ heof)).length_lt)
  · have hrun : (Grammar.acceptLexeme lexeme).run r = .ok false r := by rw [run_acceptLexeme, if_neg h]
    exact known hrun hfalse

theorem accept {symbol : Symbol} {k k' : Bool → ReadM β} (htrue : SameWithin r.rest.length (k true) (k' true))
    (hfalse : SameAt (k false) (k' false) r) : SameAt (accept symbol >>= k) (accept symbol >>= k') r :=
  acceptLexeme (by simp) htrue hfalse

/-- Behind a step that goes past a token fewer are left. -/
theorem consuming (hp : SameAt p p' r) (hconsumes : ConsumesAt p r) (hk : ∀ a, SameWithin r.rest.length (k a) (k' a)) :
    SameAt (p >>= k) (p' >>= k') r :=
  hp.bind fun a r' hrun => (hk a).sameAt r' (hconsumes.advances hrun).length_lt

/-- Behind a step that only moves on no more are left. -/
theorem movesOn (hp : SameAt p p' r) (hm : MovesLocally p)
    (hk : ∀ a r', r'.rest.length ≤ r.rest.length → SameAt (k a) (k' a) r') : SameAt (p >>= k) (p' >>= k') r :=
  hp.bind fun a r' hrun => hk a r' (hm.passes hrun).suffix.length_le

end SameAt

namespace SameWithin

variable {n : Nat}

/-- Sequences do the same before fewer tokens if their steps do. -/
theorem bind (hp : SameWithin n p p') (hm : MovesLocally p) (hk : ∀ a, SameWithin n (k a) (k' a)) :
    SameWithin n (p >>= k) (p' >>= k') := by
  constructor
  intro r hr
  refine (hp.sameAt r hr).movesOn hm fun a r' hle => ?_
  exact (hk a).sameAt r' (hle.trans_lt hr)

theorem pure (a : α) : SameWithin n (Pure.pure a) (Pure.pure a) := ⟨fun _ _ => .pure a⟩

theorem of_finishes (h : Finishes p) : SameWithin n p p := ⟨fun _ _ => .of_finishes h⟩

/-- A step that makes no calls. -/
theorem step (hm : MovesLocally p) (hp : Finishes p) (hk : ∀ a, SameWithin n (k a) (k' a)) :
    SameWithin n (p >>= k) (p >>= k') := (of_finishes hp).bind hm hk

/-- A step that only moves on may come first. -/
theorem move (hm : Moves p) (hp : Finishes p) (hk : ∀ a, SameWithin n (k a) (k' a)) :
    SameWithin n (p >>= k) (p >>= k') := step (.of_moves hm) hp hk

/-- A check in front of a step. -/
theorem check {c : Prop} [Decidable c] {fault : DeclarationFault} {loc : Location} {p p' : ReadM β}
    (h : SameWithin n p p') :
    SameWithin n (if c then refuseDeclaration fault loc >>= k else p)
      (if c then refuseDeclaration fault loc >>= k' else p') := by
  split
  · exact ⟨fun r _ => ⟨rfl, by rintro ⟨loc, r', heq⟩; cases heq⟩⟩
  · exact h

/-- A loop is opened and closed again around a step. -/
theorem insideLoop (h : SameWithin n p p') : SameWithin n (insideLoop p) (insideLoop p') := by
  constructor
  intro r hr
  have hp := h.sameAt { r with loopDepth := r.loopDepth + 1 } hr
  have hrun := hp.run_eq
  have hup := hp.not_givesUp
  rw [EStateM.run, EStateM.run] at hrun
  rw [EStateM.run] at hup
  constructor
  · rw [EStateM.run, EStateM.run, Grammar.insideLoop, Grammar.insideLoop, hrun]
  · rw [EStateM.run, Grammar.insideLoop]
    rintro ⟨loc, r', heq⟩
    split at heq
    · cases heq
    · next e r₁ herror =>
      cases heq
      exact hup ⟨_, _, herror⟩

end SameWithin

/-! ## Guarded productions -/

/-- The calls go on: they do not go back, and a statement goes past a token. -/
structure Calls.Forward (call : Calls) : Prop where
  movesLocally : ∀ ⦃α : Type⦄ (q : Production α), q.group ≠ .items → MovesLocally (call q)
  consumes : Consumes (call .statement)

/-- Calls that have less left to read than `p` before `r` do the same. -/
structure Calls.SameBelow (call call' : Calls) (p : Production α) (r : Reader) : Prop where
  sameAt : ∀ ⦃β : Type⦄ (q : Production β) (r' : Reader), q.Below r' p r → SameAt (call q) (call' q) r'

/-- Calls within the depth that the reader allows. -/
def Calls.read : Calls := fun _ q => q.read

theorem Calls.SameBelow.sameWithin {call call' : Calls} {p : Production α} (h : call.SameBelow call' p r)
    (q : Production β) (hgroup : q.group = p.group) :
    SameWithin r.rest.length (call q) (call' q) := ⟨fun r' hlt => h.sameAt q r' (.of_lt hgroup hlt)⟩

/-- What the production does hangs on no calls but those with less left to read. -/
def Production.Guarded (p : Production α) : Prop :=
  ∀ {call call' : Calls} {r : Reader}, call.Forward → call.SameBelow call' p r →
    SameAt (p.unfold call) (p.unfold call') r

/-- The productions of the group are guarded. -/
def Group.Guarded (group : Group) : Prop := ∀ ⦃α : Type⦄ (p : Production α), p.group = group → p.Guarded

theorem Calls.forward_within (depth : Nat) : (Calls.within depth).Forward := by
  obtain ⟨hexpr, hops, hprimary⟩ := Moves.expressions depth
  obtain ⟨hstatements, hstatement, hbody, halternative⟩ := MovesLocally.productions depth
  refine ⟨?_, .statement depth⟩
  intro α q hgroup
  cases q with
  | expression => exact .of_moves (hexpr _)
  | operators => exact .of_moves (hops _ _)
  | operand => exact .of_moves hprimary
  | fields => exact .of_moves (.fieldsOf ..)
  | arguments => exact .of_moves (.commaSeparated (hexpr _) depth)
  | values => exact .of_moves (.braceValues depth)
  | statements => exact hstatements
  | statement => exact hstatement
  | body => exact hbody _
  | alternative => exact halternative
  | structFields => exact .of_moves (.structFields ..)
  | parameters => exact .of_moves (.parametersFrom ..)
  | items => exact absurd rfl hgroup

theorem Calls.forward_read : Calls.read.Forward :=
  ⟨fun _ q hgroup => .move .get fun r => (forward_within r.depth).movesLocally q hgroup,
    .behind (.of_moves .get) fun r => (forward_within r.depth).consumes⟩

/-! ## The depth makes no difference -/

/-- Items that are read the same before fewer than `n` tokens are read the same between commas. -/
theorem run_commaSeparated_congr {item item' : ReadM α} {n : Nat} (hm : MovesLocally item)
    (h : ∀ r : Reader, r.rest.length < n → item.run r = item'.run r) (depth : Nat) (hr : r.rest.length < n) :
    (commaSeparated item depth).run r = (commaSeparated item' depth).run r := by
  induction depth generalizing r with
  | zero => rfl
  | succ depth ih =>
    rw [commaSeparated, commaSeparated, commaSeparatedBy, commaSeparatedBy, EStateM.run_bind, EStateM.run_bind,
      ← h r hr]
    cases hrun : item.run r with
    | error e r₁ => rfl
    | ok first r₁ =>
      have hle := (hm.passes hrun).suffix.length_le
      dsimp only
      rw [EStateM.run_bind, EStateM.run_bind]
      cases haccept : (accept .comma).run r₁ with
      | error e r₂ => rfl
      | ok b r₂ =>
        have hle₂ := ((Moves.accept .comma).passes haccept).suffix.length_le
        cases b with
        | false => rfl
        | true =>
          simp only [if_true]
          rw [EStateM.run_bind, EStateM.run_bind, ih (by omega)]

namespace Production

variable {p : Production α}

/-- All arguments of a call are read within one depth, and within less they are read the same. -/
theorem sameAt_arguments_succ {depth : Nat} (hdepth : arguments.need r ≤ depth)
    (ih : ∀ ⦃β : Type⦄ (q : Production β) (r' : Reader) (depth : Nat), q.Below r' arguments r → q.need r' < depth →
      SameAt (q.readWithin depth) q.read r') :
    SameAt (arguments.readWithin (depth + 1)) (arguments.unfold Calls.read) r := by
  have hexpr : ∀ (r' : Reader) (depth' : Nat), r'.rest.length ≤ r.rest.length → depth ≤ depth' →
      SameAt (expressionAt depth' Operator.lowestPrecedence) (expression Operator.lowestPrecedence).read r' := by
    intro r' depth' hle hdepth'
    have hbelow : (expression Operator.lowestPrecedence).Below r' arguments r := .of_le rfl (by decide) hle
    exact ih _ r' depth' hbelow (hbelow.need_lt.trans_le (hdepth.trans hdepth'))
  refine (hexpr r (depth + 1) le_rfl (by omega)).movesOn (.of_moves (.expressionAt ..)) fun first r₁ hle => ?_
  refine .accept ⟨fun r₂ hlt => ?_⟩ (.pure _)
  have hbelow : arguments.Below r₂ arguments r := .of_lt rfl (hlt.trans_le hle)
  have harguments := ih arguments r₂ depth hbelow (hbelow.need_lt.trans_le hdepth)
  have hcongr := run_commaSeparated_congr (.of_moves (.expressionAt (depth + 1) Operator.lowestPrecedence))
    (fun r' hr' =>
      (hexpr r' (depth + 1) (by omega) (by omega)).run_eq.trans (hexpr r' depth (by omega) le_rfl).run_eq.symm)
    depth hlt
  have hsame : SameAt (commaSeparated (expressionAt (depth + 1) Operator.lowestPrecedence) depth) arguments.read r₂ :=
    ⟨hcongr.trans harguments.run_eq, hcongr ▸ harguments.not_givesUp⟩
  exact hsame.bind fun _ _ _ => .pure _

/-- One call is unfolded, and the other calls are made within the depth that the reader allows. -/
theorem sameAt_readWithin_succ {depth : Nat} (hguarded : p.Guarded) (hdepth : p.need r ≤ depth)
    (ih : ∀ ⦃β : Type⦄ (q : Production β) (r' : Reader) (depth : Nat), q.Below r' p r → q.need r' < depth →
      SameAt (q.readWithin depth) q.read r') :
    SameAt (p.readWithin (depth + 1)) (p.unfold Calls.read) r := by
  cases p
  case arguments => exact sameAt_arguments_succ hdepth ih
  all_goals
    rw [readWithin_succ _ (by simp [rank])]
    refine hguarded (Calls.forward_within depth) ⟨fun β q r' hbelow => ?_⟩
    exact ih q r' depth hbelow (hbelow.need_lt.trans_le hdepth)

/-- What a production does within the depth of its reader. -/
theorem run_read (p : Production α) (r : Reader) : p.read.run r = (p.readWithin r.depth).run r :=
  run_bind_of_ok (EStateM.run_get r)

/-- If the productions of a group are guarded, a depth that covers what is left to read makes no difference. The
induction is on the depth that is needed. -/
theorem sameAt_read {group : Group} (hguarded : group.Guarded) {n depth : Nat} (hgroup : p.group = group)
    (hneed : p.need r = n) (hdepth : n < depth) : SameAt (p.readWithin depth) p.read r := by
  induction n using Nat.strong_induction_on generalizing α p r depth with
  | _ n ih =>
    subst hneed
    have hbelow : ∀ ⦃β : Type⦄ (q : Production β) (r' : Reader) (depth : Nat), q.Below r' p r → q.need r' < depth →
        SameAt (q.readWithin depth) q.read r' := fun β q r' depth hbelow hdepth =>
      ih _ hbelow.need_lt (hbelow.group_eq.trans hgroup) rfl hdepth
    have hunfold : ∀ depth, p.need r < depth → SameAt (p.readWithin depth) (p.unfold Calls.read) r := by
      intro depth hlt
      obtain ⟨depth, rfl⟩ : ∃ d, depth = d + 1 := ⟨depth - 1, by omega⟩
      exact sameAt_readWithin_succ (hguarded p hgroup) (by omega) hbelow
    have hread := hunfold r.depth (p.need_lt_depth r)
    exact (hunfold depth hdepth).trans ⟨(hread.run_eq.symm.trans (p.run_read r).symm), hread.symm.not_givesUp⟩

end Production

end ClockedC.Grammar
