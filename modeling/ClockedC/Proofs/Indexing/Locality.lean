import ClockedC.Proofs.Indexing.Walks
import ClockedC.Proofs.Precedence.Lookahead

/-!
# What is said of an index does not hang on what follows

A constant index that misses its array is reported once the bracket behind it has been read. Nothing behind the bracket
has been looked at by then, so the report is the same whatever stands there.
-/

namespace ClockedC.Grammar

variable {α β : Type}

/-- A step that only moves on. If it ends because an index misses an array, it has gone past a token, and it ends in the
same way whatever stands behind the tokens it has gone past. -/
structure Complains (p : ReadM α) : Prop where
  moves : Moves p
  advances : ∀ {r r' : Reader} {index : Int} {name : String} {size : Nat} {loc : Location},
    p.run r = .error (.outOfBounds index name size loc) r' → r.Advances r'
  run_append : ∀ {r : Reader} {tokens after : List Token} {index : Int} {name : String} {size : Nat} {loc : Location}
    (tail : List Token),
    p.run (r.withRest (tokens ++ after)) = .error (.outOfBounds index name size loc) (r.withRest after) →
      p.run (r.withRest (tokens ++ tail)) = .error (.outOfBounds index name size loc) (r.withRest tail)

namespace Complains

/-- A step that reports nothing of an index. -/
theorem of_quiet {p : ReadM α} (hm : Moves p) (hp : Quiet p) : Complains p :=
  ⟨hm, fun h => absurd ⟨_, _, _, _, rfl⟩ (hp.not_kind h), fun _ h => absurd ⟨_, _, _, _, rfl⟩ (hp.not_kind h)⟩

/-- If the second step reports something, it has gone past a token, and that is all the first one may have looked at. -/
theorem bind {stops : Lexeme → Prop} {p : ReadM α} {k : α → ReadM β} (hpeeks : Peeks stops p) (hp : Complains p)
    (hk : ∀ a, Complains (k a)) : Complains (p >>= k) := by
  refine ⟨hp.moves.bind fun a => (hk a).moves, ?_, ?_⟩
  · intro r r' index name size loc h
    rw [EStateM.run_bind] at h
    cases hrun : p.run r with
    | error e r₁ =>
      rw [hrun] at h
      cases h
      exact hp.advances hrun
    | ok a r₁ =>
      rw [hrun] at h
      have hpasses := hp.moves.passes hrun
      have hadvances := (hk a).advances h
      exact ⟨hadvances.suffix.trans hpasses.suffix, hadvances.length_lt.trans_le hpasses.suffix.length_le⟩
  · intro r tokens after index name size loc tail h
    rw [EStateM.run_bind] at h
    cases hrun : p.run (r.withRest (tokens ++ after)) with
    | error e r₁ =>
      rw [hrun] at h
      cases h
      rw [EStateM.run_bind, hp.run_append tail hrun]
    | ok a r₁ =>
      rw [hrun] at h
      have hpasses := hp.moves.passes hrun
      have hadvances := (hk a).advances h
      -- `second` is what the second step has gone past, and as it is not empty the first step sees the same next token
      obtain ⟨second, hsecond⟩ := hadvances.suffix
      obtain ⟨first, htokens⟩ := hpasses.suffix
      obtain rfl : r₁ = r.withRest (second ++ after) := by
        rw [hpasses.eq_withRest, ← hsecond]
        rfl
      rw [Reader.rest_withRest, Reader.rest_withRest, ← List.append_assoc] at htokens
      obtain rfl := List.append_cancel_right htokens
      have hne : second ≠ [] := by
        rintro rfl
        exact absurd hadvances.length_lt (lt_irrefl _)
      rw [List.append_assoc] at hrun ⊢
      rw [run_bind_of_ok (hpeeks.run_append hrun (.append_of_ne_nil r after tail hne))]
      exact (hk a).run_append tail h

theorem pure (a : α) : Complains (Pure.pure a) := of_quiet (.pure a) (.pure a)

/-- A step may look at the next token: whatever reports something goes past it. -/
theorem look {p : ReadM α} {f : Token → α} {k : α → ReadM β} (hp : ∀ r : Reader, p.run r = .ok (f r.next) r)
    (hk : ∀ t, Complains (k (f t))) : Complains (p >>= k) := by
  refine ⟨⟨fun r => ?_⟩, ?_, ?_⟩
  · rw [run_bind_of_ok (hp r)]
    exact (hk r.next).moves.run_passes r
  · intro r r' index name size loc h
    rw [run_bind_of_ok (hp r)] at h
    exact (hk r.next).advances h
  · intro r tokens after index name size loc tail h
    rw [run_bind_of_ok (hp _)] at h ⊢
    cases tokens with
    | nil => exact absurd ((hk _).advances h).length_lt (lt_irrefl _)
    | cons t ts => exact (hk t).run_append tail h

theorem current {k : Token → ReadM β} (hk : ∀ t, Complains (k t)) : Complains (Grammar.current >>= k) :=
  look run_current hk

end Complains

/-! ## Places -/

/-- Reads the bracket behind an index and checks the index. -/
def closeIndex (base position : Expr) (loc : Location) : ReadM Expr := do
  expect .closeBracket "after array index"
  checkIndex base position loc
  return .element base position loc

/-- Reads what stands behind the name of a place, whose index is read by `index`. -/
def placeBehind (depth : Nat) (index : ReadM Expr) (name : String) (loc : Location) : ReadM Expr := do
  let base ← fieldsOf loc depth (.ident name loc)
  if ← accept .openBracket then
    let position ← index
    closeIndex base position loc
  else
    return base

theorem placeWith_eq (depth : Nat) (index : ReadM Expr) :
    placeWith depth index = current >>= fun t => identifier >>= fun name => placeBehind depth index name t.loc := rfl

namespace Complains

/-- A report of an index looks at nothing but the tables. -/
theorem run_checkIndex_withRest {base index : Expr} {loc : Location} {r r' : Reader} {e : CompileError}
    (h : (checkIndex base index loc).run r = .error e r') (ts : List Token) :
    r' = r ∧ (checkIndex base index loc).run (r.withRest ts) = .error e (r.withRest ts) := by
  obtain hok | ⟨value, name, size, hvalue, hname, hsize, hmiss, herror⟩ := Walks.run_checkIndex_cases base index loc r
  · rw [hok] at h
    cases h
  · rw [herror] at h
    cases h
    obtain hok | ⟨value', name', size', hvalue', hname', hsize', -, herror'⟩ :=
      Walks.run_checkIndex_cases base index loc (r.withRest ts)
    · obtain ⟨hfits, -⟩ := run_checkIndex_eq_ok.1 hok
      have := hfits value hvalue name hname size hsize
      omega
    · obtain rfl : value = value' := Option.some.inj (hvalue.symm.trans hvalue')
      obtain rfl : name = name' := Option.some.inj (hname.symm.trans hname')
      obtain rfl : size = size' := Option.some.inj (hsize.symm.trans hsize')
      exact ⟨rfl, herror'⟩

/-- Where an index is reported, the bracket behind it has just been read. -/
theorem run_closeIndex_eq_error {base position : Expr} {loc loc' : Location} {r r' : Reader} {index : Int}
    {name : String} {size : Nat}
    (h : (closeIndex base position loc).run r = .error (.outOfBounds index name size loc') r') :
    r.next.lexeme = .symbol .closeBracket ∧ r' = r.withRest r.rest.tail ∧
      (checkIndex base position loc).run r' = .error (.outOfBounds index name size loc') r' := by
  rw [closeIndex, EStateM.run_bind, run_expect] at h
  by_cases hnext : r.next.lexeme = .symbol .closeBracket
  · simp only [hnext, if_true] at h
    rw [EStateM.run_bind] at h
    cases hcheck : (checkIndex base position loc).run (r.withRest r.rest.tail) with
    | ok u r₁ =>
      rw [hcheck] at h
      cases h
    | error e r₁ =>
      obtain ⟨rfl, -⟩ := run_checkIndex_withRest hcheck []
      rw [hcheck] at h
      cases h
      exact ⟨hnext, rfl, hcheck⟩
  · simp only [hnext, if_false] at h
    cases h

/-- An index is checked when its bracket has been read, and nothing behind it is looked at. -/
theorem closeIndex (base position : Expr) (loc : Location) : Complains (closeIndex base position loc) := by
  refine ⟨(Moves.expect ..).bind fun _ => (Moves.checkIndex ..).bind fun _ => .pure _, ?_, ?_⟩
  · intro r r' index name size loc' h
    obtain ⟨hnext, rfl, -⟩ := run_closeIndex_eq_error h
    exact .tail (by simp [hnext])
  · intro r tokens after index name size loc' tail h
    obtain ⟨hnext, hrest, hcheck⟩ := run_closeIndex_eq_error h
    have htokens := Peeks.tokens_eq_singleton (by simp [hnext]) hrest
    have hexpect : (expect .closeBracket "after array index").run (r.withRest (tokens ++ tail)) =
        .ok () (r.withRest tail) := by
      rw [htokens, run_expect, if_pos (by exact hnext)]
      rfl
    have hcheck' : (checkIndex base position loc).run (r.withRest tail) =
        .error (.outOfBounds index name size loc') (r.withRest tail) := (run_checkIndex_withRest hcheck tail).2
    rw [Grammar.closeIndex, run_bind_of_ok hexpect, EStateM.run_bind, hcheck']

/-- Fields are read before an index, and never miss. -/
theorem fieldsOf (loc : Location) (depth : Nat) (base : Expr) : Complains (fieldsOf loc depth base) := by
  refine of_quiet (.fieldsOf ..) ?_
  induction depth generalizing base with
  | zero => exact .refuseDepth
  | succ depth ih =>
    refine (Quiet.accept .dot).bind fun b => ?_
    split
    · exact Quiet.identifier.bind fun name => ih _
    · exact .pure _

section Index

variable {stops : Lexeme → Prop} {index : ReadM Expr} (hpeeks : Peeks stops index) (hindex : Complains index)

include hpeeks hindex

/-- Behind the name only the index can be reported. -/
theorem placeBehind (depth : Nat) (name : String) (loc : Location) :
    Complains (placeBehind depth index name loc) := by
  refine bind (.fieldsOf ..) (fieldsOf ..) fun base => ?_
  refine bind (Peeks.accept fun l hl => hl) (of_quiet (.accept _) (.accept _)) fun b => ?_
  split
  · exact bind hpeeks hindex fun position => closeIndex base position loc
  · exact pure _

theorem placeWith (depth : Nat) : Complains (placeWith depth index) :=
  current fun t => bind (Peeks.identifier : Peeks (fun _ => False) identifier) (of_quiet .identifier .identifier)
    fun name => placeBehind hpeeks hindex depth name t.loc

/-- Where a place ends with a report, more than its name has been read. -/
theorem length_lt_of_placeWith {depth : Nat} {r r' : Reader} {t : Token} {ts : List Token} {position : Int}
    {name : String} {size : Nat} {loc : Location}
    (h : (Grammar.placeWith depth index).run (r.withRest (t :: ts)) = .error (.outOfBounds position name size loc) r') :
    r'.rest.length < ts.length := by
  rw [placeWith_eq, run_bind_of_ok (run_current _), EStateM.run_bind] at h
  cases hname : identifier.run (r.withRest (t :: ts)) with
  | error e r₁ =>
    rw [hname] at h
    cases h
    exact absurd ⟨_, _, _, _, rfl⟩ ((.identifier : Quiet identifier).not_kind hname)
  | ok name r₁ =>
    rw [hname] at h
    obtain ⟨-, rfl⟩ := run_identifier_eq_ok hname
    exact ((placeBehind hpeeks hindex depth name t.loc).advances h).length_lt

end Index

/-! ## Arguments -/

/-- In a list an item may report, and then nothing behind it has been looked at. -/
theorem commaSeparated {item : ReadM α} (hpeeks : Peeks (fun _ => False) item) (hitem : Complains item) (depth : Nat) :
    Complains (commaSeparated item depth) := by
  induction depth with
  | zero => exact of_quiet .refuseDepth .refuseDepth
  | succ depth ih =>
    refine bind hpeeks hitem fun first => ?_
    refine bind (Peeks.accept fun l hl => hl) (of_quiet (.accept _) (.accept _)) fun b => ?_
    split
    · exact bind (.commaSeparated hpeeks depth) ih fun rest => pure _
    · exact pure _

theorem argumentsWith {argument : ReadM Expr} (hpeeks : Peeks (fun _ => False) argument)
    (hargument : Complains argument) (depth : Nat) : Complains (argumentsWith depth argument) := by
  have hclose : ∀ args : List Expr, Complains (do
      expect .closeParen "after call arguments"
      return args) := fun args =>
    of_quiet ((Moves.expect ..).bind fun _ => .pure _) ((Quiet.expect ..).bind fun _ => .pure _)
  refine look (f := fun t => decide (t.lexeme = .symbol .closeParen)) (run_nextIs _) fun t => ?_
  dsimp only
  split
  · exact hclose []
  · exact bind (.commaSeparated hpeeks depth) (commaSeparated hpeeks hargument depth) hclose

/-! ## Operators and operands -/

/-- Going past a token, at the end or not. -/
theorem advance {k : Unit → ReadM β} (hk : Complains (k ())) : Complains (advance >>= k) := by
  refine ⟨Moves.advance.bind fun _ => hk.moves, ?_, ?_⟩
  · intro r r' index name size loc h
    rw [run_bind_of_ok (run_advance r)] at h
    have hadvances := hk.advances h
    exact ⟨hadvances.suffix.trans (List.tail_suffix _),
      hadvances.length_lt.trans_le (List.tail_suffix r.rest).length_le⟩
  · intro r tokens after index name size loc tail h
    cases tokens with
    | nil =>
      rw [run_bind_of_ok (run_advance _)] at h
      have hlt := (hk.advances h).length_lt
      have hle := (List.tail_suffix after).length_le
      exact absurd (hlt.trans_le hle) (lt_irrefl _)
    | cons t ts =>
      rw [List.cons_append, run_bind_of_ok (run_advance_cons ..)] at h ⊢
      exact hk.run_append tail h

section Operators

variable {depth : Nat} (hexpr : ∀ least, Complains (expressionAt depth least))

include hexpr

/-- The operands of operators report as they do alone. -/
theorem operatorsFrom {least : Int} (hops : ∀ left, Complains (operatorsFrom depth least left)) (left : Expr) :
    Complains (Grammar.operatorsFrom (depth + 1) least left) := by
  rw [Grammar.operatorsFrom, operatorsBy]
  refine current fun t => ?_
  refine look (f := fun t => (Operator.ofLexeme? t.lexeme).filter (least ≤ ·.precedence)) (run_operatorFrom? least) ?_
  intro t'
  split
  · exact pure _
  · exact advance (bind ((Peeks.expressions depth).1 _) (hexpr _) fun right => hops _)

/-- A primary reports as its parts do. -/
theorem primary (hprimary : Complains (primary depth)) : Complains (Grammar.primary (depth + 1)) := by
  have hpeeks : Peeks (·.extendsName = false) (Grammar.primary depth) := (Peeks.expressions depth).2.2
  have hlowest : Peeks (fun _ => False) (expressionAt depth Operator.lowestPrecedence) :=
    ((Peeks.expressions depth).1 _).mono fun _ => False.elim
  rw [Grammar.primary, operandBy]
  refine current fun t => ?_
  split
  · exact advance (bind hpeeks hprimary fun _ => pure _)
  · exact advance (bind hpeeks hprimary fun _ => pure _)
  · exact advance (bind hpeeks hprimary fun _ => pure _)
  · refine advance (bind ((Peeks.expressions depth).1 _) (hexpr _) fun _ => ?_)
    exact of_quiet ((Moves.expect ..).bind fun _ => .pure _) ((Quiet.expect ..).bind fun _ => .pure _)
  · exact advance (pure _)
  · next name _ =>
    have hplace := placeWith hlowest (hexpr _) depth
    have hargs : Peeks (fun _ => False) (Grammar.argumentsWith depth (expressionAt depth Operator.lowestPrecedence)) :=
      .argumentsWith depth hlowest
    have hcall : Complains (do
        let args ← Grammar.argumentsWith depth (expressionAt depth Operator.lowestPrecedence)
        return Expr.call name args t.loc) :=
      bind hargs (argumentsWith hlowest (hexpr _) depth) fun _ => pure _
    refine ⟨?_, ?_, ?_⟩
    · apply (Moves.lexemeAhead 1).bind
      intro lexeme
      split
      · exact (advance (advance hcall)).moves
      · exact hplace.moves
    · intro r r' index name' size loc h
      rw [run_bind_of_ok (run_lexemeAhead 1 r)] at h
      split at h
      · exact (advance (advance hcall)).advances h
      · exact hplace.advances h
    · intro r tokens after index name' size loc tail h
      rw [run_bind_of_ok (run_lexemeAhead 1 _)] at h ⊢
      -- the lexeme that was looked at is one of those that have been read
      cases tokens with
      | nil =>
        split at h
        · exact absurd ((advance (advance hcall)).advances h).length_lt (lt_irrefl _)
        · exact absurd (hplace.advances h).length_lt (lt_irrefl _)
      | cons t' ts =>
        cases ts with
        | nil =>
          split at h
          · rw [List.singleton_append, run_bind_of_ok (run_advance_cons ..)] at h
            exact absurd ((advance hcall).advances h).length_lt (lt_irrefl _)
          · exact absurd (length_lt_of_placeWith hlowest (hexpr _) h) (lt_irrefl _)
        | cons t'' ts =>
          have hahead : ∀ behind, ((r.withRest ((t' :: t'' :: ts) ++ behind)).ahead 1) = t'' := fun behind => by
            rw [List.cons_append, Reader.ahead_withRest_cons_succ]
            rfl
          rw [hahead] at h ⊢
          split at h
          · next hopen =>
            rw [if_pos hopen]
            exact (advance (advance hcall)).run_append tail h
          · next hopen =>
            rw [if_neg hopen]
            exact hplace.run_append tail h
  · exact of_quiet (.refuse ..) (.refuse (by simp))
  · exact of_quiet (.refuse ..) (.refuse (by simp))

end Operators

/-- The three productions of expressions, each from those of less depth. -/
theorem expressions (depth : Nat) :
    (∀ least, Complains (expressionAt depth least)) ∧
      (∀ least left, Complains (Grammar.operatorsFrom depth least left)) ∧
      Complains (Grammar.primary depth) := by
  induction depth with
  | zero =>
    exact ⟨fun _ => of_quiet .refuseDepth .refuseDepth, fun _ _ => of_quiet .refuseDepth .refuseDepth,
      of_quiet .refuseDepth .refuseDepth⟩
  | succ depth ih =>
    obtain ⟨hexpr, hops, hprimary⟩ := ih
    refine ⟨?_, fun least => operatorsFrom hexpr (hops least), primary hexpr hprimary⟩
    intro least
    rw [expressionAt, expressionBy]
    exact bind (Peeks.expressions depth).2.2 hprimary fun left => hops least left

/-- The places of the grammar are such places. -/
theorem place : Complains place := by
  have hplace : ∀ depth, Complains (Grammar.placeWith depth (expressionAt depth Operator.lowestPrecedence)) :=
    fun depth => placeWith ((Peeks.expressions depth).1 _) ((expressions depth).1 _) depth
  refine ⟨.place, ?_, ?_⟩
  · intro r r' index name size loc h
    rw [← run_placeWithin le_rfl] at h
    exact (hplace _).advances h
  · intro r tokens after index name size loc tail h
    -- both runs are made within a depth that is enough for either
    have hdepth := Nat.le_add_right (r.withRest (tokens ++ after)).depth (r.withRest (tokens ++ tail)).depth
    have hdepth' := Nat.le_add_left (r.withRest (tokens ++ tail)).depth (r.withRest (tokens ++ after)).depth
    rw [← run_placeWithin hdepth] at h
    rw [← run_placeWithin hdepth']
    exact (hplace _).run_append tail h

end Complains

end ClockedC.Grammar
