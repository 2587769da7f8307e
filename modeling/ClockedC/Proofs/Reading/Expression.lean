import ClockedC.Proofs.Reading.Canonical
import ClockedC.Proofs.Reading.Moves

/-!
# Expressions that are read are canonical

Every expression read from the tokens of a source text can be written: its numbers are numerals with at most one sign,
its operands either bind tightly enough or may stand in parentheses, and its constant indices fit.
-/

namespace ClockedC

variable {e : Expr} {depth : Nat} {least : Int} {r r' : Reader}

/-! ## Numerals -/

/-- The numbers among the tokens not yet read are numerals. -/
def Reader.HasNumerals (r : Reader) : Prop := ∀ t ∈ r.rest, ∀ text, t.lexeme = .number text → isNumeral text

namespace Reader.HasNumerals

theorem of_passes (h : r.HasNumerals) (hp : r.Passes r') : r'.HasNumerals :=
  fun t ht => h t (hp.suffix.subset ht)

theorem tail (h : r.HasNumerals) : (r.withRest r.rest.tail).HasNumerals := h.of_passes (.tail r)

/-- A number that is next is a numeral. -/
theorem next (h : r.HasNumerals) {text : String} (hnext : r.next.lexeme = .number text) : isNumeral text := by
  obtain ⟨ts, hts⟩ := exists_rest_eq_cons (r := r) (by simp [hnext])
  exact h r.next (by rw [hts]; exact List.mem_cons_self) text hnext

/-- A reader at the beginning of a source text has numerals before it. -/
theorem of_ofSource {source : String} (h : Reader.ofSource source = .ok r) : r.HasNumerals :=
  fun _ ht _ htext => Scan.isNumeral_of_mem (lexemes?_of_ofSource h) (List.mem_map.2 ⟨_, ht, htext⟩)

end Reader.HasNumerals

namespace Grammar

/-! ## Places -/

/-- An index is refused exactly if it misses an array of known size. -/
theorem run_checkIndex_eq_ok {base index : Expr} {loc : Location} {u : Unit} :
    (checkIndex base index loc).run r = .ok u r' ↔ IndexFits r.tables.arrays base index ∧ r' = r := by
  rw [IndexFits, checkIndex, run_bind_of_ok (EStateM.run_get r)]
  cases hvalue : index.integer? with
  | none => simp [eq_comm]
  | some value =>
    cases hname : base.flatName? with
    | none => simp [eq_comm]
    | some name =>
      cases hsize : r.tables.arrays.size? name with
      | none => simp [eq_comm, hsize]
      | some size =>
        by_cases hmiss : value < 0 ∨ (size : Int) ≤ value
        · simp only [hsize, hmiss, if_true, run_throw, reduceCtorEq, Option.mem_def, Option.some.injEq,
            forall_eq', false_iff]
          omega
        · simp only [hsize, hmiss, if_false, EStateM.run_pure, Option.mem_def, Option.some.injEq, forall_eq',
            EStateM.Result.ok.injEq, true_and]
          have hin : 0 ≤ value ∧ value < (size : Int) := by omega
          simp [hin, eq_comm]

/-- Fields selected from a chain of fields are a chain of fields. -/
theorem run_fieldsOf_eq_ok {loc : Location} {base : Expr} (h : (fieldsOf loc depth base).run r = .ok e r')
    (hbase : base.isFieldChain) : e.isFieldChain := by
  induction depth generalizing base r with
  | zero => cases h
  | succ depth ih =>
    obtain ⟨b, r₁, haccept, h⟩ := run_bind_eq_ok.1 h
    cases b with
    | true =>
      obtain ⟨name, r₂, -, h⟩ := run_bind_eq_ok.1 h
      exact ih h hbase
    | false =>
      cases h
      exact hbase

/-- A step that only moves on, and reads written expressions from numerals. -/
structure YieldsWritten (p : ReadM Expr) : Prop where
  moves : Moves p
  written : ∀ {r r' : Reader} {e : Expr}, r.HasNumerals → p.run r = .ok e r' → e.Written r.tables.arrays

/-- A place that is read is a place, and a written one if its index is. -/
theorem run_placeWith_eq_ok {index : ReadM Expr} (hindex : YieldsWritten index) (hnum : r.HasNumerals)
    (h : (placeWith depth index).run r = .ok e r') : e.Written r.tables.arrays ∧ e.isPlace := by
  obtain ⟨token, r₁, htoken, h⟩ := run_bind_eq_ok.1 h
  cases htoken
  obtain ⟨name, r₂, hname, h⟩ := run_bind_eq_ok.1 h
  obtain ⟨base, r₃, hbase, h⟩ := run_bind_eq_ok.1 h
  obtain ⟨b, r₄, haccept, h⟩ := run_bind_eq_ok.1 h
  have hchain := run_fieldsOf_eq_ok hbase rfl
  have hpasses : r.Passes r₄ :=
    (Moves.identifier.passes hname).trans (((Moves.fieldsOf ..).passes hbase).trans ((Moves.accept _).passes haccept))
  cases b with
  | true =>
    obtain ⟨position, r₅, hposition, h⟩ := run_bind_eq_ok.1 h
    obtain ⟨_, r₆, hclose, h⟩ := run_bind_eq_ok.1 h
    obtain ⟨_, r₇, hcheck, h⟩ := run_bind_eq_ok.1 h
    cases h
    have hwritten := hindex.written (hnum.of_passes hpasses) hposition
    have htables : r₆.tables = r.tables :=
      (hpasses.trans ((hindex.moves.passes hposition).trans ((Moves.expect ..).passes hclose))).tables_eq
    -- the check is made behind the bracket, with the arrays that were in sight before
    obtain ⟨hfits, -⟩ := run_checkIndex_eq_ok.1 hcheck
    rw [hpasses.tables_eq] at hwritten
    rw [htables] at hfits
    exact ⟨.element hchain hwritten hfits, rfl⟩
  | false =>
    cases h
    exact ⟨.of_isFieldChain hchain, Expr.isPlace_of_isFieldChain hchain⟩

/-! ## Arguments -/

/-- The items of a list can be written. -/
theorem written_commaSeparated {item : ReadM Expr} (hitem : YieldsWritten item) {es : List Expr} (hnum : r.HasNumerals)
    (h : (commaSeparated item depth).run r = .ok es r') : ∀ e ∈ es, e.Written r.tables.arrays := by
  induction depth generalizing r es with
  | zero => cases h
  | succ depth ih =>
    obtain ⟨first, r₁, hfirst, h⟩ := run_bind_eq_ok.1 h
    obtain ⟨b, r₂, haccept, h⟩ := run_bind_eq_ok.1 h
    have hpasses := (hitem.moves.passes hfirst).trans ((Moves.accept _).passes haccept)
    have hwritten := hitem.written hnum hfirst
    cases b with
    | true =>
      obtain ⟨rest, r₃, hrest, h⟩ := run_bind_eq_ok.1 h
      cases h
      have hrest := ih (hnum.of_passes hpasses) hrest
      rw [hpasses.tables_eq] at hrest
      exact List.forall_mem_cons.2 ⟨hwritten, hrest⟩
    | false =>
      cases h
      simpa using hwritten

/-- The arguments of a call can be written. -/
theorem written_argumentsWith {argument : ReadM Expr} (hargument : YieldsWritten argument) {es : List Expr}
    (hnum : r.HasNumerals) (h : (argumentsWith depth argument).run r = .ok es r') :
    ∀ e ∈ es, e.Written r.tables.arrays := by
  rw [argumentsWith, argumentsBy, run_bind_of_ok (run_nextIs _ r)] at h
  split at h
  · obtain ⟨args, r₁, hargs, h⟩ := run_bind_eq_ok.1 h
    obtain ⟨_, _, -, h⟩ := run_bind_eq_ok.1 h
    cases h
    cases hargs
    simp
  · obtain ⟨args, r₁, hargs, h⟩ := run_bind_eq_ok.1 h
    obtain ⟨_, _, -, h⟩ := run_bind_eq_ok.1 h
    cases h
    exact written_commaSeparated hargument hnum hargs

/-! ## Operators -/

theorem run_operatorFrom? (least : Int) (r : Reader) :
    (operatorFrom? least).run r =
      .ok ((Operator.ofLexeme? r.next.lexeme).filter (least ≤ ·.precedence)) r := rfl

/-- After an operand, either an operator that binds tightly enough is next and read with its right operand, or
nothing is read. -/
theorem run_operatorsFrom_eq_ok {left : Expr} (h : (operatorsFrom (depth + 1) least left).run r = .ok e r') :
    (e = left ∧ r' = r ∧ ∀ op ∈ Operator.ofLexeme? r.next.lexeme, op.precedence < least) ∨
      ∃ op right r₁, Operator.ofLexeme? r.next.lexeme = some op ∧ least ≤ op.precedence ∧
        (expressionAt depth (op.precedence + 1)).run (r.withRest r.rest.tail) = .ok right r₁ ∧
        (operatorsFrom depth least (.binary op left right r.next.loc)).run r₁ = .ok e r' := by
  rw [operatorsFrom, operatorsBy, run_bind_of_ok (run_current r), run_bind_of_ok (run_operatorFrom? least r)] at h
  split at h
  · next hnone =>
    cases h
    refine .inl ⟨rfl, rfl, ?_⟩
    intro op hop
    have := Option.filter_eq_none_iff.1 hnone op hop
    simpa using this
  · next op hsome =>
    obtain ⟨hop, hleast⟩ := Option.filter_eq_some_iff.1 hsome
    rw [run_bind_of_ok (run_advance r)] at h
    obtain ⟨right, r₁, hright, h⟩ := run_bind_eq_ok.1 h
    exact .inr ⟨op, right, r₁, hop, by simpa using hleast, hright, h⟩

/-- Operators are read as long as they bind tightly enough. -/
theorem precedence_lt_of_operatorsFrom {left : Expr} (h : (operatorsFrom depth least left).run r = .ok e r') :
    ∀ op ∈ Operator.ofLexeme? r'.next.lexeme, op.precedence < least := by
  induction depth generalizing left r with
  | zero => cases h
  | succ depth ih =>
    obtain ⟨-, rfl, hnext⟩ | ⟨op, right, r₁, -, -, -, h⟩ := run_operatorsFrom_eq_ok h
    · exact hnext
    · exact ih h

theorem run_expressionAt_eq_ok (h : (expressionAt (depth + 1) least).run r = .ok e r') :
    ∃ left r₁, (primary depth).run r = .ok left r₁ ∧ (operatorsFrom depth least left).run r₁ = .ok e r' := by
  rw [expressionAt, expressionBy] at h
  exact run_bind_eq_ok.1 h

/-- Behind an expression no operator follows that would have been read. -/
theorem precedence_lt_of_expressionAt (h : (expressionAt depth least).run r = .ok e r') :
    ∀ op ∈ Operator.ofLexeme? r'.next.lexeme, op.precedence < least := by
  cases depth with
  | zero => cases h
  | succ depth =>
    obtain ⟨left, r₁, -, h⟩ := run_expressionAt_eq_ok h
    exact precedence_lt_of_operatorsFrom h

/-! ## Operands -/

/-- What reading an operand can do, and what it gives. -/
inductive OperandCase (depth : Nat) (r : Reader) : Expr → Reader → Prop
  | unary {op : UnaryOperator} {operand : Expr} {r' : Reader} (next : r.next.lexeme = .symbol op.symbol)
      (run : (primary depth).run (r.withRest r.rest.tail) = .ok operand r') :
      OperandCase depth r (.unary op operand r.next.loc) r'
  | minus {operand : Expr} {r' : Reader} (next : r.next.lexeme = .symbol .minus)
      (run : (primary depth).run (r.withRest r.rest.tail) = .ok operand r') :
      OperandCase depth r (operand.negated r.next.loc) r'
  | parens {inner : Expr} {r₁ : Reader} (next : r.next.lexeme = .symbol .openParen)
      (run : (expressionAt depth Operator.parenthesisedPrecedence).run (r.withRest r.rest.tail) = .ok inner r₁)
      (close : r₁.next.lexeme = .symbol .closeParen) :
      OperandCase depth r inner (r₁.withRest r₁.rest.tail)
  | number {text : String} (next : r.next.lexeme = .number text) :
      OperandCase depth r (.number text r.next.loc) (r.withRest r.rest.tail)
  | call {name : String} {args : List Expr} {r' : Reader} (next : r.next.lexeme = .identifier name)
      (ahead : (r.ahead 1).lexeme = .symbol .openParen)
      (run : (argumentsWith depth (expressionAt depth Operator.lowestPrecedence)).run
        (r.withRest r.rest.tail.tail) = .ok args r') :
      OperandCase depth r (.call name args r.next.loc) r'
  | place {name : String} {e : Expr} {r' : Reader} (next : r.next.lexeme = .identifier name)
      (ahead : (r.ahead 1).lexeme ≠ .symbol .openParen)
      (run : (placeWith depth (expressionAt depth Operator.lowestPrecedence)).run r = .ok e r') :
      OperandCase depth r e r'

/-- What reading an operand can do, case by case. -/
theorem run_primary_eq_ok (h : (primary (depth + 1)).run r = .ok e r') : OperandCase depth r e r' := by
  rw [primary, operandBy, run_bind_of_ok (run_current r)] at h
  -- by the next lexeme: `!`, `~`, a minus sign, a parenthesis, a number, a name, a string, or something else
  split at h
  · next hnext =>
    rw [run_bind_of_ok (run_advance r)] at h
    obtain ⟨operand, r₁, hrun, h⟩ := run_bind_eq_ok.1 h
    cases h
    exact .unary hnext hrun
  · next hnext =>
    rw [run_bind_of_ok (run_advance r)] at h
    obtain ⟨operand, r₁, hrun, h⟩ := run_bind_eq_ok.1 h
    cases h
    exact .unary hnext hrun
  · next hnext =>
    rw [run_bind_of_ok (run_advance r)] at h
    obtain ⟨operand, r₁, hrun, h⟩ := run_bind_eq_ok.1 h
    cases h
    exact .minus hnext hrun
  · next hnext =>
    rw [run_bind_of_ok (run_advance r)] at h
    obtain ⟨inner, r₁, hrun, h⟩ := run_bind_eq_ok.1 h
    obtain ⟨_, r₂, hexpect, h⟩ := run_bind_eq_ok.1 h
    obtain ⟨hclose, rfl⟩ := run_expect_eq_ok hexpect
    cases h
    exact .parens hnext hrun hclose
  · next text hnext =>
    rw [run_bind_of_ok (run_advance r)] at h
    cases h
    exact .number hnext
  · next name hnext =>
    rw [run_bind_of_ok (run_lexemeAhead 1 r)] at h
    split at h
    · next hahead =>
      rw [run_bind_of_ok (run_advance r), run_bind_of_ok (run_advance _)] at h
      obtain ⟨args, r₁, hargs, h⟩ := run_bind_eq_ok.1 h
      cases h
      exact .call hnext hahead hargs
    · next hahead => exact .place hnext hahead h
  · cases h
  · cases h

/-! ## What is read is written -/

/-- An operand that is read may stand in parentheses. -/
theorem OperandCase.written (hnum : r.HasNumerals) (hexpr : ∀ least, YieldsWritten (expressionAt depth least))
    (hparens : ∀ {r r' : Reader} {e : Expr}, r.HasNumerals →
      (expressionAt depth Operator.parenthesisedPrecedence).run r = .ok e r' → e.fitsParens)
    (hprimary : ∀ {r r' : Reader} {e : Expr}, r.HasNumerals → (primary depth).run r = .ok e r' →
      e.Written r.tables.arrays ∧ e.fitsParens)
    (h : OperandCase depth r e r') : e.Written r.tables.arrays ∧ e.fitsParens := by
  cases h with
  | unary next run =>
    obtain ⟨hwritten, hfits⟩ := hprimary hnum.tail run
    exact ⟨.unary hwritten hfits, rfl⟩
  | minus next run =>
    obtain ⟨hwritten, hfits⟩ := hprimary hnum.tail run
    exact hwritten.negated hfits r.next.loc
  | parens next run close =>
    have hwritten := (hexpr _).written hnum.tail run
    exact ⟨hwritten, hparens hnum.tail run⟩
  | number next => exact ⟨.number (.of_isNumeral (hnum.next next)), rfl⟩
  | call next ahead run =>
    have hpasses : r.Passes (r.withRest r.rest.tail.tail) := (Reader.Passes.tail r).trans (.tail _)
    have hwritten := written_argumentsWith (hexpr _) (hnum.of_passes hpasses) run
    exact ⟨.call hwritten, rfl⟩
  | place next ahead run =>
    obtain ⟨hwritten, hplace⟩ := run_placeWith_eq_ok (hexpr _) hnum run
    exact ⟨hwritten, Expr.bindsFrom_of_isPlace hplace _⟩

/-- The operand to the left of the operators to come can stand on their left. -/
def LeftFits (least : Int) (left : Expr) (r : Reader) : Prop :=
  left.fitsParens ∨
    left.bindsFrom least ∧ ∀ op ∈ Operator.ofLexeme? r.next.lexeme, left.bindsFrom op.precedence

/-- The three productions of expressions, each from those of less depth. -/
theorem written_expressions (depth : Nat) :
    (∀ least {r r' : Reader} {e : Expr}, r.HasNumerals → (expressionAt depth least).run r = .ok e r' →
        e.Written r.tables.arrays ∧ (e.bindsFrom least ∨ e.fitsParens)) ∧
      (∀ least {left : Expr} {r r' : Reader} {e : Expr}, r.HasNumerals → left.Written r.tables.arrays →
        LeftFits least left r → (operatorsFrom depth least left).run r = .ok e r' →
        e.Written r.tables.arrays ∧ (e.bindsFrom least ∨ e.fitsParens)) ∧
      (∀ {r r' : Reader} {e : Expr}, r.HasNumerals → (primary depth).run r = .ok e r' →
        e.Written r.tables.arrays ∧ e.fitsParens) := by
  induction depth with
  | zero =>
    refine ⟨?_, ?_, ?_⟩
    · intro least r r' e hnum h
      cases h
    · intro least left r r' e hnum hwritten hfits h
      cases h
    · intro r r' e hnum h
      cases h
  | succ depth ih =>
    obtain ⟨hexpr, hops, hprimary⟩ := ih
    refine ⟨?_, ?_, ?_⟩
    · intro least r r' e hnum h
      obtain ⟨left, r₁, hleft, h⟩ := run_expressionAt_eq_ok h
      obtain ⟨hwritten, hfits⟩ := hprimary hnum hleft
      have hpasses := (Moves.expressions depth).2.2.passes hleft
      rw [← hpasses.tables_eq] at hwritten ⊢
      exact hops least (hnum.of_passes hpasses) hwritten (.inl hfits) h
    · -- operators are joined from left to right, each with what was read so far as its left operand
      intro least left r r' e hnum hwritten hfits h
      obtain ⟨rfl, -, -⟩ | ⟨op, right, r₁, hop, hleast, hright, h⟩ := run_operatorsFrom_eq_ok h
      · exact ⟨hwritten, hfits.symm.imp_left And.left⟩
      · obtain ⟨hwritten', hfits'⟩ := hexpr _ hnum.tail hright
        have hpasses := (Reader.Passes.tail r).trans ((Moves.expressionAt ..).passes hright)
        have hnode : (Expr.binary op left right r.next.loc).Written r.tables.arrays :=
          .binary hwritten hwritten' (hfits.symm.imp_left fun h => h.2 op hop) hfits'
        rw [← hpasses.tables_eq] at hnode ⊢
        -- the right operand took all operators that bind tighter than `op`
        refine hops least (hnum.of_passes hpasses) hnode (.inr ⟨?_, ?_⟩) h
        · simpa [Expr.bindsFrom] using hleast
        · intro op' hop'
          have := precedence_lt_of_expressionAt hright op' hop'
          simp only [Expr.bindsFrom, decide_eq_true_eq]
          omega
    · intro r r' e hnum h
      refine (run_primary_eq_ok h).written hnum (fun least => ⟨.expressionAt .., fun hnum h => ?_⟩) ?_ hprimary
      · exact (hexpr least hnum h).1
      · intro r r' e hnum h
        rcases (hexpr _ hnum h).2 with h | h
        · exact h
        · exact h

/-- Expressions that are read are written. -/
theorem YieldsWritten.expression : YieldsWritten expression :=
  ⟨.expression, fun hnum h => ((written_expressions _).1 _ hnum h).1⟩

theorem run_expression_eq_ok (hnum : r.HasNumerals) (h : expression.run r = .ok e r') :
    r.Passes r' ∧ e.Written r.tables.arrays :=
  ⟨Moves.expression.passes h, YieldsWritten.expression.written hnum h⟩

/-- Places that are read are written, and they are places. -/
theorem run_place_eq_ok (hnum : r.HasNumerals) (h : place.run r = .ok e r') :
    r.Passes r' ∧ e.Written r.tables.arrays ∧ e.isPlace :=
  ⟨Moves.place.passes h, run_placeWith_eq_ok .expression hnum h⟩

end Grammar

end ClockedC
