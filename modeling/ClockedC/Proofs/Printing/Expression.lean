import ClockedC.Proofs.Layout.Grammar
import ClockedC.Proofs.Printing.Lexemes
import ClockedC.Proofs.Reading.Expression

/-!
# Written expressions are read back

An expression that can be written is read back from its lexemes. The depth that reading needs is at most twice the
number of the lexemes, and what follows them must not go on with the expression.

* `expression_exact_image` : the expressions that are read are the canonical ones.
-/

namespace ClockedC

variable {depth : Nat} {least : Int} {r r' : Reader} {e operand : Expr} {ts ts' : List Token} {loc loc' : Location}

/-! ## What follows an expression -/

/-- Whether a lexeme would go on with a name in front of it. -/
def Lexeme.extendsName : Lexeme → Bool
  | .symbol .dot => true
  | .symbol .openBracket => true
  | .symbol .openParen => true
  | _ => false

/-- What may follow an operand: nothing that goes on with a name, and no operator that binds tighter than `most`. -/
structure Follows (most : Int) (r : Reader) : Prop where
  not_extendsName : r.next.lexeme.extendsName = false
  precedence_le : ∀ op ∈ Operator.ofLexeme? r.next.lexeme, op.precedence ≤ most

namespace Follows

theorem mono {most most' : Int} (h : Follows most r) (hle : most ≤ most') : Follows most' r :=
  ⟨h.not_extendsName, fun op hop => (h.precedence_le op hop).trans hle⟩

/-- An operator follows its left operand. -/
theorem of_operator (op : Operator) (tail : List Token) :
    Follows op.precedence (r.withRest (⟨.symbol op.symbol, .nowhere⟩ :: tail)) := by
  refine ⟨by cases op <;> rfl, ?_⟩
  intro op' hop'
  have hsymbol : Operator.ofSymbol? op.symbol = some op' := hop'
  rw [Operator.ofSymbol?_eq_some_iff.2 rfl] at hsymbol
  cases hsymbol
  exact le_refl _

end Follows

/-- Whether a lexeme ends the expression in front of it. -/
def Lexeme.endsExpression (l : Lexeme) : Bool := !l.extendsName && (Operator.ofLexeme? l).isNone

theorem Follows.of_endsExpression (h : r.next.lexeme.endsExpression) (most : Int) : Follows most r := by
  rw [Lexeme.endsExpression, Bool.and_eq_true, Bool.not_eq_true', Option.isNone_iff_eq_none] at h
  refine ⟨h.1, ?_⟩
  rw [h.2]
  simp

theorem Operator.precedence_lt_operandPrecedence (op : Operator) : op.precedence < operandPrecedence := by
  cases op <;> decide

namespace Grammar

/-! ## Chains of fields -/

/-- The name that a chain of fields begins with stands first, and no parenthesis behind it. -/
theorem exists_lexemes_of_isFieldChain (h : e.isFieldChain) :
    ∃ name ls, e.lexemes = .identifier name :: ls ∧ ∀ l ∈ ls.head?, l = .symbol .dot := by
  induction e with
  | ident name loc => exact ⟨name, [], rfl, by simp⟩
  | field base name loc ih =>
    obtain ⟨root, ls, hls, hhead⟩ := ih h
    refine ⟨root, ls ++ [.symbol .dot, .identifier name], by rw [Expr.lexemes, hls]; rfl, ?_⟩
    cases ls with
    | nil => simp
    | cons l ls => simpa using hhead
  | _ => simp [Expr.isFieldChain] at h

/-- Reading a chain of fields comes to reading the fields behind it. -/
theorem run_fieldsOf_lexemes {e : Expr} (he : e.isFieldChain) (r : Reader) (tail : List Token) {depth : Nat}
    (hdepth : e.lexemes.length ≤ depth) :
    ∃ depth', depth < depth' + e.lexemes.length ∧
      (identifier >>= fun name => fieldsOf .nowhere depth (.ident name .nowhere)).run
          (r.withRest (tokensOf e.lexemes ++ tail)) =
        (fieldsOf .nowhere depth' e.unlocated).run (r.withRest tail) := by
  induction e generalizing tail with
  | ident name loc =>
    refine ⟨depth, Nat.lt_succ_self depth, ?_⟩
    rw [Expr.lexemes, tokensOf_cons, List.cons_append, run_bind_of_ok (run_identifier_cons ..)]
    rfl
  | field base name loc ih =>
    simp only [Expr.lexemes, List.length_append, List.length_cons, List.length_nil] at hdepth ⊢
    obtain ⟨depth', hle, hrun⟩ := ih he (tokensOf [.symbol .dot, .identifier name] ++ tail) (by omega)
    obtain ⟨depth'', rfl⟩ : ∃ d, depth' = d + 1 := ⟨depth' - 1, by omega⟩
    refine ⟨depth'', by omega, ?_⟩
    rw [tokensOf_append, List.append_assoc, hrun, fieldsOf, fieldsBy]
    simp only [tokensOf_cons, tokensOf_nil, List.cons_append, List.nil_append]
    rw [run_bind_of_ok (run_accept_cons ..)]
    simp only [if_true]
    rw [run_bind_of_ok (run_identifier_cons ..)]
    rfl
  | _ => simp [Expr.isFieldChain] at he

/-- Fields are read up to a lexeme that is no point. -/
theorem run_fieldsOf_of_ne {base : Expr} (loc : Location) (hdepth : 0 < depth) (h : r.next.lexeme ≠ .symbol .dot) :
    (fieldsOf loc depth base).run r = .ok base r := by
  obtain ⟨depth, rfl⟩ : ∃ d, depth = d + 1 := ⟨depth - 1, by omega⟩
  rw [fieldsOf, fieldsBy, run_bind_of_ok (run_accept_of_ne h)]
  rfl

/-! ## Places -/

theorem indexFits_unlocated {arrays : ArraySizes} {base index : Expr} (h : IndexFits arrays base index) :
    IndexFits arrays base.unlocated index.unlocated := by
  rwa [IndexFits, Expr.integer?_unlocated, Expr.flatName?_unlocated]

/-- A place begins with a name, and no parenthesis follows it. -/
theorem exists_lexemes_of_isPlace {arrays : ArraySizes} (he : e.Written arrays) (hplace : e.isPlace) :
    ∃ name ls, e.lexemes = .identifier name :: ls ∧ ∀ l ∈ ls.head?, l = .symbol .dot ∨ l = .symbol .openBracket := by
  cases e with
  | ident name loc => exact ⟨name, [], rfl, by simp⟩
  | field base name loc =>
    have hchain : (Expr.field base name loc).isFieldChain := he.canonical
    obtain ⟨root, ls, hls, hhead⟩ := exists_lexemes_of_isFieldChain hchain
    exact ⟨root, ls, hls, fun l hl => .inl (hhead l hl)⟩
  | element base index loc =>
    obtain ⟨root, ls, hls, hhead⟩ := exists_lexemes_of_isFieldChain he.canonical.1
    refine ⟨root, ls ++ .symbol .openBracket :: (index.lexemes ++ [.symbol .closeBracket]), ?_, ?_⟩
    · rw [Expr.lexemes, hls]
      rfl
    · cases ls with
      | nil => simp
      | cons l ls =>
        intro l' hl'
        exact .inl (hhead l' (by simpa using hl'))
  | _ => simp [Expr.isPlace] at hplace

/-- A place that is written is not taken for a call. -/
theorem ahead_one_ne_openParen {arrays : ArraySizes} {tail : List Token} (he : e.Written arrays) (hplace : e.isPlace)
    (hfollows : (r.withRest tail).next.lexeme.extendsName = false) :
    ((r.withRest (tokensOf e.lexemes ++ tail)).ahead 1).lexeme ≠ .symbol .openParen := by
  obtain ⟨name, ls, hls, hhead⟩ := exists_lexemes_of_isPlace he hplace
  rw [hls]
  cases ls with
  | nil =>
    intro hparen
    have hnext : (r.withRest tail).next = (r.withRest (tokensOf [.identifier name] ++ tail)).ahead 1 :=
      (r.ahead_withRest_cons_succ ⟨.identifier name, .nowhere⟩ tail 0).symm
    rw [hnext, hparen] at hfollows
    cases hfollows
  | cons l ls =>
    intro hparen
    rw [show l = .symbol .openParen from hparen] at hhead
    simp at hhead

/-- Reading a place reads the chain of fields in front and looks for a bracket. -/
theorem run_placeWith_of_isFieldChain {e : Expr} (he : e.isFieldChain) {r : Reader} {tail : List Token}
    (hdot : (r.withRest tail).next.lexeme ≠ .symbol .dot) {depth : Nat} (hdepth : e.lexemes.length ≤ depth)
    (index : ReadM Expr) :
    (placeWith depth index).run (r.withRest (tokensOf e.lexemes ++ tail)) =
      (do
        if ← accept .openBracket then
          let position ← index
          expect .closeBracket "after array index"
          checkIndex e.unlocated position .nowhere
          return Expr.element e.unlocated position .nowhere
        else
          return e.unlocated).run (r.withRest tail) := by
  obtain ⟨depth', hle, hrun⟩ := run_fieldsOf_lexemes he r tail hdepth
  rw [run_fieldsOf_of_ne .nowhere (by omega) hdot] at hrun
  obtain ⟨name, r₁, hname, hfields⟩ := run_bind_eq_ok.1 hrun
  have hloc : (r.withRest (tokensOf e.lexemes ++ tail)).next.loc = .nowhere := by
    obtain ⟨root, ls, hls, -⟩ := exists_lexemes_of_isFieldChain he
    rw [hls]
    rfl
  rw [placeWith, placeBy, run_bind_of_ok (run_current _), hloc, run_bind_of_ok hname, run_bind_of_ok hfields]

/-- A place is read back if its index is. -/
theorem run_placeWith_lexemes (he : e.Written r.tables.arrays) (hplace : e.isPlace) {index : ReadM Expr}
    (hindex : ∀ base position loc, e = .element base position loc → ∀ ts,
      index.run (r.withRest (tokensOf position.lexemes ++ ⟨.symbol .closeBracket, .nowhere⟩ :: ts)) =
        .ok position.unlocated (r.withRest (⟨.symbol .closeBracket, .nowhere⟩ :: ts)))
    {tail : List Token} (hdot : (r.withRest tail).next.lexeme ≠ .symbol .dot)
    (hbracket : (r.withRest tail).next.lexeme ≠ .symbol .openBracket) (hdepth : e.lexemes.length ≤ depth) :
    (placeWith depth index).run (r.withRest (tokensOf e.lexemes ++ tail)) = .ok e.unlocated (r.withRest tail) := by
  have hchain (h : e.isFieldChain) :
      (placeWith depth index).run (r.withRest (tokensOf e.lexemes ++ tail)) = .ok e.unlocated (r.withRest tail) := by
    rw [run_placeWith_of_isFieldChain h hdot hdepth, run_bind_of_ok (run_accept_of_ne hbracket)]
    rfl
  cases e with
  | ident name loc => exact hchain rfl
  | field base name loc => exact hchain he.canonical
  | element base position loc =>
    obtain ⟨hbase, -⟩ := he.canonical
    obtain ⟨-, -, hfits⟩ := he.inBounds
    have hcheck : (checkIndex base.unlocated position.unlocated .nowhere).run (r.withRest tail) =
        .ok () (r.withRest tail) := run_checkIndex_eq_ok.2 ⟨indexFits_unlocated hfits, rfl⟩
    simp only [Expr.lexemes, List.length_append, List.length_cons] at hdepth
    rw [Expr.lexemes, tokensOf_append, List.append_assoc,
      run_placeWith_of_isFieldChain hbase (by simp [tokensOf]) (by omega)]
    simp only [tokensOf_cons, tokensOf_append, tokensOf_nil, List.cons_append, List.append_assoc, List.nil_append]
    rw [run_bind_of_ok (run_accept_cons ..)]
    simp only [if_true]
    rw [run_bind_of_ok (hindex base position loc rfl tail), run_bind_of_ok (run_expect_cons ..),
      run_bind_of_ok hcheck]
    rfl
  | _ => simp [Expr.isPlace] at hplace

/-! ## Operators -/

/-- No operator is read where the next one does not bind tightly enough. -/
theorem run_operatorsFrom_of_lt {left : Expr} (hdepth : 0 < depth)
    (h : ∀ op ∈ Operator.ofLexeme? r.next.lexeme, op.precedence < least) :
    (operatorsFrom depth least left).run r = .ok left r := by
  obtain ⟨depth, rfl⟩ : ∃ d, depth = d + 1 := ⟨depth - 1, by omega⟩
  have hnone : (Operator.ofLexeme? r.next.lexeme).filter (least ≤ ·.precedence) = none := by
    rw [Option.filter_eq_none_iff]
    intro op hop
    simpa using h op hop
  rw [operatorsFrom, operatorsBy, run_bind_of_ok (run_current r), run_bind_of_ok (run_operatorFrom? least r), hnone]
  rfl

/-- An operator that binds tightly enough is read with its right operand. -/
theorem run_operatorsFrom_cons {left right : Expr} {op : Operator} (hleast : least ≤ op.precedence)
    (hright : (expressionAt depth (op.precedence + 1)).run (r.withRest ts) = .ok right (r.withRest ts')) :
    (operatorsFrom (depth + 1) least left).run (r.withRest (⟨.symbol op.symbol, .nowhere⟩ :: ts)) =
      (operatorsFrom depth least (.binary op left right .nowhere)).run (r.withRest ts') := by
  have hop : (Operator.ofSymbol? op.symbol).filter (least ≤ ·.precedence) = some op := by
    rw [Operator.ofSymbol?_eq_some_iff.2 rfl]
    simp [hleast]
  rw [operatorsFrom, operatorsBy, run_bind_of_ok (run_current _), run_bind_of_ok (run_operatorFrom? least _)]
  simp only [Reader.next_withRest_cons, Operator.ofLexeme?, hop]
  rw [run_bind_of_ok (run_advance_cons ..), run_bind_of_ok hright]

end Grammar

/-! ## Lexemes of operands -/

theorem Expr.lexemesFrom_of_bindsFrom (h : e.bindsFrom least) : e.lexemesFrom least = e.lexemes := by
  rw [lexemesFrom, grouped, if_pos h]

theorem Expr.lexemesFrom_of_not_bindsFrom (h : ¬ e.bindsFrom least) :
    e.lexemesFrom least = parenthesised e.lexemes := by
  rw [lexemesFrom, grouped, if_neg h]

/-- A numeral is one lexeme. -/
theorem literalLexemes_of_isNumeral {text : String} (h : isNumeral text) : literalLexemes text = [.number text] := by
  rw [literalLexemes]
  split
  · next cs hcs => exact absurd hcs (toList_ne_of_isNumeral h cs)
  · rfl

/-- A sign is a lexeme of its own. -/
theorem literalLexemes_minus (text : String) : literalLexemes ("-" ++ text) = [.symbol .minus, .number text] := by
  simp [literalLexemes]

theorem Expr.bindsFrom_lowest (e : Expr) : e.bindsFrom Operator.lowestPrecedence := by
  cases e with
  | binary op left right loc => simpa [bindsFrom] using op.lowestPrecedence_le
  | _ => rfl

/-- The negation of a place is not folded into a literal. -/
theorem Expr.negated_of_isPlace (h : e.isPlace) : e.negated loc = .negate e loc := by
  cases e with
  | ident name loc => rfl
  | field base name loc => rfl
  | element base index loc => rfl
  | _ => simp [isPlace] at h

/-- Whether an expression may begin with a lexeme. -/
def Lexeme.startsExpression : Lexeme → Bool
  | .number _ => true
  | .identifier _ => true
  | .symbol .bang => true
  | .symbol .tilde => true
  | .symbol .minus => true
  | .symbol .openParen => true
  | _ => false

/-- An expression begins with a lexeme that begins expressions. -/
theorem Expr.exists_lexemes_eq_cons (e : Expr) : ∃ l ls, e.lexemes = l :: ls ∧ l.startsExpression := by
  induction e with
  | number text loc =>
    rw [lexemes, literalLexemes]
    split <;> exact ⟨_, _, rfl, rfl⟩
  | ident name loc => exact ⟨_, _, rfl, rfl⟩
  | field base name loc ih =>
    obtain ⟨l, ls, hls, hl⟩ := ih
    exact ⟨l, _, by rw [lexemes, hls]; rfl, hl⟩
  | element base index loc ihb ihi =>
    obtain ⟨l, ls, hls, hl⟩ := ihb
    exact ⟨l, _, by rw [lexemes, hls]; rfl, hl⟩
  | negate operand loc ih => exact ⟨_, _, by rw [lexemes], rfl⟩
  | binary op left right loc ihl ihr =>
    obtain ⟨l, ls, hls, hl⟩ := ihl
    rw [lexemes, grouped]
    split
    · exact ⟨l, _, by rw [hls]; rfl, hl⟩
    · exact ⟨_, _, rfl, rfl⟩
  | unary op operand loc ih => exact ⟨_, _, by rw [lexemes], by cases op <;> rfl⟩
  | call name args loc ih => exact ⟨_, _, by rw [lexemes], rfl⟩

/-- An expression has a lexeme. -/
theorem Expr.length_lexemes_pos (e : Expr) : 0 < e.lexemes.length := by
  obtain ⟨l, ls, hls, -⟩ := e.exists_lexemes_eq_cons
  rw [hls]
  exact Nat.succ_pos _

/-- No expression begins with a lexeme that begins none. -/
theorem Expr.next_ne_of_not_startsExpression (e : Expr) {l : Lexeme} (hl : l.startsExpression = false) (r : Reader)
    (tail : List Token) : (r.withRest (tokensOf e.lexemes ++ tail)).next.lexeme ≠ l := by
  obtain ⟨l', ls, hls, hl'⟩ := e.exists_lexemes_eq_cons
  rw [hls]
  rintro rfl
  exact Bool.noConfusion (hl'.symm.trans hl)

namespace Grammar

/-! ## Reading operands -/

/-- A number is read as a literal. -/
theorem run_primary_number (depth : Nat) (text : String) (loc : Location) (r : Reader) (ts : List Token) :
    (primary (depth + 1)).run (r.withRest (⟨.number text, loc⟩ :: ts)) = .ok (.number text loc) (r.withRest ts) := by
  rw [primary, operandBy, run_bind_of_ok (run_current _)]
  rfl

/-- A unary operator is read with the operand behind it. -/
theorem run_primary_unary {op : UnaryOperator} (h : (primary depth).run (r.withRest ts) = .ok operand r') :
    (primary (depth + 1)).run (r.withRest (⟨.symbol op.symbol, loc⟩ :: ts)) = .ok (.unary op operand loc) r' := by
  rw [primary, operandBy, run_bind_of_ok (run_current _)]
  cases op <;>
  · simp only [Reader.next_withRest_cons, UnaryOperator.symbol]
    rw [run_bind_of_ok (run_advance_cons ..), run_bind_of_ok h]
    rfl

/-- A minus sign is read with the operand behind it, and folded into a literal. -/
theorem run_primary_minus (h : (primary depth).run (r.withRest ts) = .ok operand r') :
    (primary (depth + 1)).run (r.withRest (⟨.symbol .minus, loc⟩ :: ts)) = .ok (operand.negated loc) r' := by
  rw [primary, operandBy, run_bind_of_ok (run_current _)]
  simp only [Reader.next_withRest_cons]
  rw [run_bind_of_ok (run_advance_cons ..), run_bind_of_ok h]
  rfl

/-- Parentheses are read as what they enclose. -/
theorem run_primary_parens {depth : Nat} {inner : Expr} {loc loc' : Location} {r : Reader} {ts ts' : List Token}
    (h : (expressionAt depth Operator.parenthesisedPrecedence).run (r.withRest ts) =
      .ok inner (r.withRest (⟨.symbol .closeParen, loc'⟩ :: ts'))) :
    (primary (depth + 1)).run (r.withRest (⟨.symbol .openParen, loc⟩ :: ts)) = .ok inner (r.withRest ts') := by
  rw [primary, operandBy, run_bind_of_ok (run_current _)]
  simp only [Reader.next_withRest_cons]
  rw [run_bind_of_ok (run_advance_cons ..), run_bind_of_ok h, run_bind_of_ok (run_expect_cons ..)]
  rfl

/-- A name with an opening parenthesis behind it is read as a call. -/
theorem run_primary_call {name : String} {args : List Expr}
    (h : (argumentsWith depth (expressionAt depth Operator.lowestPrecedence)).run (r.withRest ts) = .ok args r') :
    (primary (depth + 1)).run (r.withRest (⟨.identifier name, loc⟩ :: ⟨.symbol .openParen, loc'⟩ :: ts)) =
      .ok (.call name args loc) r' := by
  rw [primary, operandBy, run_bind_of_ok (run_current _)]
  simp only [Reader.next_withRest_cons]
  rw [run_bind_of_ok (run_lexemeAhead 1 _)]
  simp only [Reader.ahead_withRest_cons_succ, Reader.ahead_zero, Reader.next_withRest_cons, if_true]
  rw [run_bind_of_ok (run_advance_cons ..), run_bind_of_ok (run_advance_cons ..), run_bind_of_ok h]
  rfl

/-- A name with anything else behind it is read as a place. -/
theorem run_primary_place {name : String} (hnext : r.next.lexeme = .identifier name)
    (hahead : (r.ahead 1).lexeme ≠ .symbol .openParen) :
    (primary (depth + 1)).run r = (placeWith depth (expressionAt depth Operator.lowestPrecedence)).run r := by
  rw [primary, operandBy, run_bind_of_ok (run_current _)]
  simp only [hnext]
  rw [run_bind_of_ok (run_lexemeAhead 1 _), if_neg hahead]

/-! ## Reading back -/

/-- Reading an expression from its lexemes comes to reading the operators behind it. -/
structure ReadsBare (arrays : ArraySizes) (e : Expr) : Prop where
  run_lexemes : ∀ {r : Reader} {tail : List Token} {depth : Nat} {least most : Int}, r.tables.arrays = arrays →
    least ≤ most → e.bindsFrom most → Follows most (r.withRest tail) → 2 * e.lexemes.length < depth →
    ∃ depth', depth ≤ depth' + 2 * e.lexemes.length ∧
      (expressionAt depth least).run (r.withRest (tokensOf e.lexemes ++ tail)) =
        (operatorsFrom depth' least e.unlocated).run (r.withRest tail)

/-- An operand is read back from its lexemes. -/
structure ReadsOperand (arrays : ArraySizes) (e : Expr) : Prop where
  run_primary : ∀ {r : Reader} {tail : List Token} {depth : Nat}, r.tables.arrays = arrays →
    (r.withRest tail).next.lexeme.extendsName = false →
    2 * (e.lexemesFrom Operator.operandPrecedence).length ≤ depth →
    (primary depth).run (r.withRest (tokensOf (e.lexemesFrom Operator.operandPrecedence) ++ tail)) =
      .ok e.unlocated (r.withRest tail)

/-- An expression is read back from its lexemes, on its own and as an operand. -/
structure ReadsBack (arrays : ArraySizes) (e : Expr) : Prop where
  bare : ReadsBare arrays e
  operand : e.fitsParens → ReadsOperand arrays e

variable {arrays : ArraySizes} {tail : List Token} {most : Int}

/-- An expression is read to its end. -/
theorem ReadsBare.run_expressionAt (h : ReadsBare arrays e) (hr : r.tables.arrays = arrays)
    (hbinds : e.bindsFrom least) (hends : (r.withRest tail).next.lexeme.endsExpression)
    (hdepth : 2 * e.lexemes.length < depth) :
    (expressionAt depth least).run (r.withRest (tokensOf e.lexemes ++ tail)) =
      .ok e.unlocated (r.withRest tail) := by
  have hfollows := Follows.of_endsExpression hends
  obtain ⟨depth', hle, hrun⟩ := h.run_lexemes hr (le_refl least) hbinds (hfollows least) hdepth
  rw [hrun]
  apply run_operatorsFrom_of_lt (by omega)
  intro op hop
  have := (hfollows (least - 1)).precedence_le op hop
  omega

/-- An expression may stand in parentheses if its operators can be read there. -/
theorem ReadsBare.run_parenthesised (h : ReadsBare arrays e) (hr : r.tables.arrays = arrays) (hfits : e.fitsParens)
    (hdepth : 2 * (parenthesised e.lexemes).length ≤ depth) :
    (primary depth).run (r.withRest (tokensOf (parenthesised e.lexemes) ++ tail)) =
      .ok e.unlocated (r.withRest tail) := by
  simp only [parenthesised, List.cons_append, List.length_cons, List.length_append] at hdepth
  obtain ⟨depth, rfl⟩ : ∃ d, depth = d + 1 := ⟨depth - 1, by omega⟩
  have hends : (r.withRest (⟨.symbol .closeParen, .nowhere⟩ :: tail)).next.lexeme.endsExpression := rfl
  have hinner := h.run_expressionAt hr hfits hends (show 2 * e.lexemes.length < depth by omega)
  simp only [parenthesised, tokensOf_cons, tokensOf_append, tokensOf_nil, List.cons_append, List.append_assoc,
    List.nil_append]
  exact run_primary_parens hinner

namespace ReadsBack

/-- An operand that needs no parentheses is an expression. -/
theorem of_operand (he : e.bindsFrom Operator.operandPrecedence)
    (h : ∀ {r : Reader} {tail : List Token} {depth : Nat}, r.tables.arrays = arrays →
      (r.withRest tail).next.lexeme.extendsName = false → 2 * e.lexemes.length ≤ depth →
      (primary depth).run (r.withRest (tokensOf e.lexemes ++ tail)) = .ok e.unlocated (r.withRest tail)) :
    ReadsBack arrays e := by
  refine ⟨⟨?_⟩, fun _ => ⟨?_⟩⟩
  · intro r tail depth least most hr hle hbinds hfollows hdepth
    have hpos := e.length_lexemes_pos
    obtain ⟨depth, rfl⟩ : ∃ d, depth = d + 1 := ⟨depth - 1, by omega⟩
    refine ⟨depth, by omega, ?_⟩
    rw [expressionAt, expressionBy, run_bind_of_ok (h hr hfollows.not_extendsName (by omega))]
  · intro r tail depth hr hfollows hdepth
    rw [Expr.lexemesFrom_of_bindsFrom he] at hdepth ⊢
    exact h hr hfollows hdepth

/-- An expression that needs parentheses as an operand is one in parentheses. -/
theorem of_bare (he : ¬ e.bindsFrom Operator.operandPrecedence) (h : ReadsBare arrays e) : ReadsBack arrays e := by
  refine ⟨h, fun hfits => ⟨?_⟩⟩
  intro r tail depth hr _ hdepth
  rw [Expr.lexemesFrom_of_not_bindsFrom he] at hdepth ⊢
  exact h.run_parenthesised hr hfits hdepth

/-- An expression is read back beside an operator, in parentheses or without. -/
theorem run_lexemesFrom (h : ReadsBack arrays e) (hr : r.tables.arrays = arrays) (hle : least ≤ most)
    (hfits : e.bindsFrom most ∨ e.fitsParens) (hfollows : Follows most (r.withRest tail))
    (hdepth : 2 * (e.lexemesFrom most).length < depth) :
    ∃ depth', depth ≤ depth' + 2 * (e.lexemesFrom most).length ∧
      (expressionAt depth least).run (r.withRest (tokensOf (e.lexemesFrom most) ++ tail)) =
        (operatorsFrom depth' least e.unlocated).run (r.withRest tail) := by
  by_cases hbinds : e.bindsFrom most
  · rw [Expr.lexemesFrom_of_bindsFrom hbinds] at hdepth ⊢
    exact h.bare.run_lexemes hr hle hbinds hfollows hdepth
  · have hparens := hfits.resolve_left hbinds
    rw [Expr.lexemesFrom_of_not_bindsFrom hbinds] at hdepth ⊢
    have hlength : 0 < (parenthesised e.lexemes).length := by simp [parenthesised]
    obtain ⟨depth, rfl⟩ : ∃ d, depth = d + 1 := ⟨depth - 1, by omega⟩
    refine ⟨depth, by omega, ?_⟩
    rw [expressionAt, expressionBy, run_bind_of_ok (h.bare.run_parenthesised hr hparens (by omega))]

/-- An operator and its operands are read back if the operands are. -/
theorem binary {op : Operator} {left right : Expr} (hleft : ReadsBack arrays left) (hright : ReadsBack arrays right)
    (he : (Expr.binary op left right loc).Canonical) : ReadsBack arrays (.binary op left right loc) := by
  obtain ⟨-, -, hfitsLeft, hfitsRight⟩ := he
  have hlexemes : (Expr.binary op left right loc).lexemes =
      left.lexemesFrom op.precedence ++ .symbol op.symbol :: right.lexemesFrom (op.precedence + 1) := by
    rw [Expr.lexemes]
    rfl
  apply of_bare
  · have := op.precedence_lt_operandPrecedence
    simpa [Expr.bindsFrom] using this
  constructor
  intro r tail depth least most hr hle hbinds hfollows hdepth
  simp only [Expr.bindsFrom, decide_eq_true_eq] at hbinds
  simp only [hlexemes, List.length_append, List.length_cons] at hdepth ⊢
  -- the left operand is followed by the operator, the right one by what follows the whole
  obtain ⟨depth₁, hle₁, hrun₁⟩ := hleft.run_lexemesFrom hr (hle.trans hbinds) hfitsLeft
    (.of_operator op (tokensOf (right.lexemesFrom (op.precedence + 1)) ++ tail))
    (show 2 * (left.lexemesFrom op.precedence).length < depth by omega)
  obtain ⟨depth₂, rfl⟩ : ∃ d, depth₁ = d + 1 := ⟨depth₁ - 1, by omega⟩
  obtain ⟨depth₃, hle₃, hrun₃⟩ := hright.run_lexemesFrom hr (le_refl (op.precedence + 1)) hfitsRight
    (hfollows.mono (by omega)) (show 2 * (right.lexemesFrom (op.precedence + 1)).length < depth₂ by omega)
  -- no operator that follows binds tighter than `op`, so the right operand ends here
  have hstop : (operatorsFrom depth₃ (op.precedence + 1) right.unlocated).run (r.withRest tail) =
      .ok right.unlocated (r.withRest tail) := by
    apply run_operatorsFrom_of_lt (by omega)
    intro op' hop'
    have := hfollows.precedence_le op' hop'
    omega
  refine ⟨depth₂, by omega, ?_⟩
  rw [tokensOf_append, List.append_assoc, tokensOf_cons, List.cons_append, hrun₁,
    run_operatorsFrom_cons (hle.trans hbinds) (hrun₃.trans hstop)]
  rfl

/-! ## Operands -/

/-- Literals are read back. -/
theorem number {text : String} (h : IsLiteral text) : ReadsBack arrays (.number text loc) := by
  apply of_operand rfl
  intro r tail depth hr hfollows hdepth
  obtain ⟨numeral, hnumeral, rfl | rfl⟩ := h
  · rw [Expr.lexemes, literalLexemes_of_isNumeral hnumeral] at hdepth ⊢
    obtain ⟨depth, rfl⟩ : ∃ d, depth = d + 1 := ⟨depth - 1, by simp at hdepth; omega⟩
    exact run_primary_number ..
  · rw [Expr.lexemes, literalLexemes_minus] at hdepth ⊢
    obtain ⟨depth, rfl⟩ : ∃ d, depth = d + 2 := ⟨depth - 2, by simp at hdepth; omega⟩
    rw [Expr.unlocated, ← Expr.negated_number_of_isNumeral hnumeral .nowhere .nowhere]
    exact run_primary_minus (run_primary_number ..)

/-- Unary operations are read back if their operands are. -/
theorem unary {op : UnaryOperator} (h : ReadsBack arrays operand) (hfits : operand.fitsParens) :
    ReadsBack arrays (.unary op operand loc) := by
  apply of_operand rfl
  intro r tail depth hr hfollows hdepth
  have hlexemes : (Expr.unary op operand loc).lexemes =
      .symbol op.symbol :: operand.lexemesFrom Operator.operandPrecedence := by
    rw [Expr.lexemes]
    rfl
  simp only [hlexemes, List.length_cons] at hdepth
  obtain ⟨depth, rfl⟩ : ∃ d, depth = d + 1 := ⟨depth - 1, by omega⟩
  have hoperand := (h.operand hfits).run_primary hr hfollows (show _ ≤ depth by omega)
  rw [hlexemes]
  exact run_primary_unary hoperand

/-- The operand that a place is. -/
theorem run_primary_of_isPlace (he : e.Written arrays) (hplace : e.isPlace)
    (hindex : ∀ base position loc, e = .element base position loc → ReadsBack arrays position)
    (hr : r.tables.arrays = arrays) (hfollows : (r.withRest tail).next.lexeme.extendsName = false)
    (hdepth : 2 * e.lexemes.length ≤ depth) :
    (primary depth).run (r.withRest (tokensOf e.lexemes ++ tail)) = .ok e.unlocated (r.withRest tail) := by
  obtain ⟨name, ls, hls, -⟩ := exists_lexemes_of_isPlace he hplace
  have hpos := e.length_lexemes_pos
  obtain ⟨depth, rfl⟩ : ∃ d, depth = d + 1 := ⟨depth - 1, by omega⟩
  have hnext : (r.withRest (tokensOf e.lexemes ++ tail)).next.lexeme = .identifier name := by
    rw [hls]
    rfl
  rw [run_primary_place hnext (ahead_one_ne_openParen he hplace hfollows)]
  subst hr
  apply run_placeWith_lexemes he hplace
  · rintro base position loc rfl ts
    simp only [Expr.lexemes, List.length_append, List.length_cons] at hdepth
    exact (hindex base position loc rfl).bare.run_expressionAt rfl (Expr.bindsFrom_lowest _) rfl (by omega)
  · intro hdot
    rw [hdot] at hfollows
    cases hfollows
  · intro hbracket
    rw [hbracket] at hfollows
    cases hfollows
  · omega

/-- Negations of places are read back if the places are. -/
theorem negate (h : ReadsBack arrays operand) (hplace : operand.isPlace) : ReadsBack arrays (.negate operand loc) := by
  apply of_operand rfl
  intro r tail depth hr hfollows hdepth
  have hlexemes := Expr.lexemesFrom_of_bindsFrom (Expr.bindsFrom_of_isPlace hplace Operator.operandPrecedence)
  rw [Expr.lexemes, List.length_cons] at hdepth
  obtain ⟨depth, rfl⟩ : ∃ d, depth = d + 1 := ⟨depth - 1, by omega⟩
  have hoperand := (h.operand (Expr.bindsFrom_of_isPlace hplace _)).run_primary hr hfollows
    (show _ ≤ depth by rw [hlexemes]; omega)
  rw [hlexemes] at hoperand
  rw [Expr.lexemes, Expr.unlocated, ← Expr.negated_of_isPlace (by rwa [Expr.isPlace_unlocated])]
  exact run_primary_minus hoperand

end ReadsBack

/-! ## Arguments -/

/-- Items between commas are read back if each of them is, before a comma and at the end. -/
theorem run_commaSeparated_lexemes {α : Type} {item : ReadM α} {text : α → List Lexeme} {f : α → α} {x : α}
    {xs : List α} (hcomma : (r.withRest tail).next.lexeme ≠ .symbol .comma)
    (hitem : ∀ y ∈ x :: xs, ∀ ts, ((r.withRest ts).next.lexeme = .symbol .comma ∨ ts = tail) →
      item.run (r.withRest (tokensOf (text y) ++ ts)) = .ok (f y) (r.withRest ts)) (hdepth : xs.length < depth) :
    (commaSeparated item depth).run (r.withRest (tokensOf (commaJoined ((x :: xs).map text)) ++ tail)) =
      .ok ((x :: xs).map f) (r.withRest tail) := by
  induction xs generalizing x depth with
  | nil =>
    obtain ⟨depth, rfl⟩ : ∃ d, depth = d + 1 := ⟨depth - 1, by simp at hdepth; omega⟩
    rw [commaSeparated, commaSeparatedBy, List.map_cons, List.map_nil, commaJoined,
      run_bind_of_ok (hitem x List.mem_cons_self tail (.inr rfl)), run_bind_of_ok (run_accept_of_ne hcomma)]
    rfl
  | cons y ys ih =>
    obtain ⟨depth, rfl⟩ : ∃ d, depth = d + 1 := ⟨depth - 1, by simp at hdepth; omega⟩
    have hrest := ih (fun z hz => hitem z (List.mem_cons_of_mem x hz)) (show ys.length < depth by simpa using hdepth)
    rw [commaSeparated, commaSeparatedBy, List.map_cons, List.map_cons, commaJoined, tokensOf_append, List.append_assoc,
      run_bind_of_ok (hitem x List.mem_cons_self _ (.inl rfl)), tokensOf_cons, List.cons_append,
      run_bind_of_ok (run_accept_cons ..)]
    simp only [if_true]
    rw [← List.map_cons, run_bind_of_ok hrest]
    rfl

/-- A list between commas is at least as long as each of its items. -/
theorem length_le_length_commaJoined {lss : List (List Lexeme)} {ls : List Lexeme} (h : ls ∈ lss) :
    ls.length ≤ (commaJoined lss).length := by
  fun_induction commaJoined lss with
  | case1 => cases h
  | case2 first =>
    rw [List.mem_singleton.1 h]
  | case3 first second rest ih =>
    rw [List.length_append, List.length_cons]
    rcases List.mem_cons.1 h with rfl | h
    · omega
    · have := ih h
      omega

/-- There are at most as many items as lexemes, and one more if items may be empty. -/
theorem length_le_length_commaJoined_succ (lss : List (List Lexeme)) : lss.length ≤ (commaJoined lss).length + 1 := by
  fun_induction commaJoined lss with
  | case1 => simp
  | case2 first => simp
  | case3 first second rest ih =>
    simp only [List.length_cons, List.length_append] at ih ⊢
    omega

/-- A list between commas begins with its first item. -/
theorem exists_tokensOf_commaJoined_cons (first : List Lexeme) (rest : List (List Lexeme)) (tail : List Token) :
    ∃ ts, tokensOf (commaJoined (first :: rest)) ++ tail = tokensOf first ++ ts := by
  cases rest with
  | nil => exact ⟨tail, rfl⟩
  | cons second rest => exact ⟨_, by rw [commaJoined, tokensOf_append, List.append_assoc]⟩

/-- Arguments are read back, whether there are any or not. -/
theorem run_argumentsWith_lexemes {args : List Expr} (h : ∀ e ∈ args, ReadsBack arrays e)
    (hr : r.tables.arrays = arrays) (hdepth : 2 * (commaJoined (args.map Expr.lexemes)).length < depth) :
    (argumentsWith depth (expressionAt depth Operator.lowestPrecedence)).run
        (r.withRest (tokensOf (commaJoined (args.map Expr.lexemes)) ++ ⟨.symbol .closeParen, .nowhere⟩ :: tail)) =
      .ok (args.map Expr.unlocated) (r.withRest tail) := by
  cases args with
  | nil =>
    rw [argumentsWith, argumentsBy, run_bind_of_ok (run_nextIs ..)]
    rfl
  | cons e es =>
    -- an argument does not begin with a closing parenthesis, so the list is not taken to be empty
    have hnext : (r.withRest (tokensOf (commaJoined ((e :: es).map Expr.lexemes)) ++
        ⟨.symbol .closeParen, .nowhere⟩ :: tail)).next.lexeme ≠ .symbol .closeParen := by
      obtain ⟨ts, hts⟩ := exists_tokensOf_commaJoined_cons e.lexemes (es.map Expr.lexemes)
        (⟨.symbol .closeParen, .nowhere⟩ :: tail)
      rw [List.map_cons, hts]
      exact e.next_ne_of_not_startsExpression rfl r ts
    have hcount := length_le_length_commaJoined_succ ((e :: es).map Expr.lexemes)
    rw [List.length_map, List.length_cons] at hcount
    have hargs : (commaSeparated (expressionAt depth Operator.lowestPrecedence) depth).run
        (r.withRest (tokensOf (commaJoined ((e :: es).map Expr.lexemes)) ++ ⟨.symbol .closeParen, .nowhere⟩ :: tail)) =
        .ok ((e :: es).map Expr.unlocated) (r.withRest (⟨.symbol .closeParen, .nowhere⟩ :: tail)) := by
      apply run_commaSeparated_lexemes (by simp) _ (by omega)
      intro e' he' ts hts
      have hends : (r.withRest ts).next.lexeme.endsExpression := by
        rcases hts with hts | rfl
        · rw [hts]
          rfl
        · rfl
      have := length_le_length_commaJoined (List.mem_map_of_mem he' (f := Expr.lexemes))
      exact (h e' he').bare.run_expressionAt hr e'.bindsFrom_lowest hends (by omega)
    rw [argumentsWith, argumentsBy, run_bind_of_ok (run_nextIs ..)]
    simp only [hnext, decide_false, Bool.false_eq_true, if_false]
    rw [run_bind_of_ok hargs, run_bind_of_ok (run_expect_cons ..)]
    rfl

/-- Calls are read back if their arguments are. -/
theorem ReadsBack.call {name : String} {args : List Expr} (h : ∀ e ∈ args, ReadsBack arrays e) :
    ReadsBack arrays (.call name args loc) := by
  apply of_operand rfl
  intro r tail depth hr hfollows hdepth
  rw [Expr.lexemes, Expr.lexemesAll_eq_map] at hdepth ⊢
  simp only [parenthesised, List.cons_append, List.length_cons, List.length_append] at hdepth
  obtain ⟨depth, rfl⟩ : ∃ d, depth = d + 1 := ⟨depth - 1, by omega⟩
  have hargs : (argumentsWith depth (expressionAt depth Operator.lowestPrecedence)).run
      (r.withRest (tokensOf (commaJoined (args.map Expr.lexemes)) ++ ⟨.symbol .closeParen, .nowhere⟩ :: tail)) =
        .ok (args.map Expr.unlocated) (r.withRest tail) :=
    run_argumentsWith_lexemes h hr (by omega)
  simp only [parenthesised, tokensOf_cons, tokensOf_append, tokensOf_nil, List.cons_append, List.append_assoc,
    List.nil_append]
  rw [Expr.unlocated, Expr.unlocatedAll_eq_map]
  exact run_primary_call hargs

/-! ## Written expressions -/

/-- Every written expression is read back. -/
theorem ReadsBack.of_written (he : e.Written arrays) : ReadsBack arrays e := by
  induction e with
  | number text loc => exact .number he.canonical
  | ident name loc => exact .of_operand rfl (run_primary_of_isPlace he rfl nofun)
  | field base name loc ih => exact .of_operand rfl (run_primary_of_isPlace he rfl nofun)
  | element base index loc ihb ihi =>
    refine .of_operand rfl (run_primary_of_isPlace he rfl ?_)
    rintro _ _ _ ⟨⟩
    exact ihi ⟨he.canonical.2, he.inBounds.2.1⟩
  | negate operand loc ih => exact .negate (ih ⟨he.canonical.2, he.inBounds⟩) he.canonical.1
  | binary op left right loc ihl ihr =>
    obtain ⟨hleft, hright, -⟩ := he.canonical
    exact .binary (ihl ⟨hleft, he.inBounds.1⟩) (ihr ⟨hright, he.inBounds.2⟩) he.canonical
  | unary op operand loc ih => exact .unary (ih ⟨he.canonical.1, he.inBounds⟩) he.canonical.2
  | call name args loc ih =>
    have hcanonical := Expr.allCanonical_iff.1 he.canonical
    have hbounds := Expr.allInBounds_iff.1 he.inBounds
    exact .call fun e' he' => ih e' he' ⟨hcanonical e' he', hbounds e' he'⟩

/-- A written expression is read back in front of what ends it. -/
theorem run_expression_lexemes (he : e.Written r.tables.arrays)
    (hends : (r.withRest tail).next.lexeme.endsExpression) :
    expression.run (r.withRest (tokensOf e.lexemes ++ tail)) = .ok e.unlocated (r.withRest tail) := by
  rw [expression, run_bind_of_ok (EStateM.run_get _)]
  apply (ReadsBack.of_written he).bare.run_expressionAt rfl e.bindsFrom_lowest hends
  rw [Reader.depth_withRest, List.length_append, length_tokensOf]
  omega

/-- A written place is read back in front of what does not go on with it. -/
theorem run_place_lexemes (he : e.Written r.tables.arrays) (hplace : e.isPlace)
    (hfollows : (r.withRest tail).next.lexeme.extendsName = false) :
    place.run (r.withRest (tokensOf e.lexemes ++ tail)) = .ok e.unlocated (r.withRest tail) := by
  rw [place, run_bind_of_ok (EStateM.run_get _)]
  apply run_placeWith_lexemes he hplace
  · rintro base position loc rfl ts
    exact run_expression_lexemes ⟨he.canonical.2, he.inBounds.2.1⟩ rfl
  · intro hdot
    rw [hdot] at hfollows
    cases hfollows
  · intro hbracket
    rw [hbracket] at hfollows
    cases hfollows
  · rw [Reader.depth_withRest, List.length_append, length_tokensOf]
    omega

end Grammar

/-! ## Readers before lexemes -/

/-- A reader at the beginning of tokens, placed nowhere. -/
theorem Reader.unlocated_ofTokens {tokens : List Token} (h : .eof ∉ tokens.map (·.lexeme)) :
    (Reader.ofStream (.ofTokens tokens)).unlocated =
      (Reader.ofStream ⟨[], .nowhere⟩).withRest (tokensOf (tokens.map (·.lexeme))) := by
  have htokens := TokenStream.tokens_ofTokens h
  have hqueue : (TokenQueue.ofList tokens).unlocated = .ofList (tokensOf (tokens.map (·.lexeme))) := by
    apply TokenQueue.ext
    rw [TokenQueue.tokens_unlocated, TokenQueue.tokens_ofList, TokenQueue.tokens_ofList, tokensOf, List.map_map]
    rfl
  rw [ofStream_of_eof_not_mem (htokens.symm ▸ h), htokens]
  simp only [unlocated, withRest, hqueue]
  rfl

/-- What a step does on a reader placed nowhere it does on the reader, up to locations. -/
theorem Grammar.Mirrors.exists_run_eq_ok {α β : Type} {f : α → β} {p : ReadM α} {q : ReadM β} (h : Mirrors f p q)
    {r₁ : Reader} {b : β} (hrun : q.run r.unlocated = .ok b r₁) :
    ∃ a r', p.run r = .ok a r' ∧ f a = b ∧ r'.unlocated = r₁ := by
  rw [h.run_unlocated] at hrun
  cases hp : p.run r with
  | ok a r' =>
    rw [hp] at hrun
    cases hrun
    exact ⟨a, r', rfl, rfl, rfl⟩
  | error e r' =>
    rw [hp] at hrun
    cases hrun

/-! ## Lexemes of the scanner -/

/-- The lexeme can stand in a source text: it is no mark of the end, and a number is a numeral. -/
def Lexeme.Scannable : Lexeme → Prop
  | .eof => False
  | .number text => isNumeral text
  | _ => True

/-- All lexemes can stand in a source text. -/
def AllScannable (ls : List Lexeme) : Prop := ∀ l ∈ ls, l.Scannable

namespace AllScannable

variable {ls ms : List Lexeme}

@[simp] theorem nil : AllScannable [] := by simp [AllScannable]

@[simp] theorem cons_iff {l : Lexeme} : AllScannable (l :: ls) ↔ l.Scannable ∧ AllScannable ls := by
  simp [AllScannable]

@[simp] theorem append_iff : AllScannable (ls ++ ms) ↔ AllScannable ls ∧ AllScannable ms := by
  simp only [AllScannable, List.mem_append, or_imp, forall_and]

@[simp] theorem parenthesised_iff : AllScannable (parenthesised ls) ↔ AllScannable ls := by
  simp [parenthesised, Lexeme.Scannable]

@[simp] theorem braced_iff : AllScannable (braced ls) ↔ AllScannable ls := by
  simp [braced, Lexeme.Scannable]

@[simp] theorem grouped_iff {bare : Bool} : AllScannable (grouped bare ls) ↔ AllScannable ls := by
  cases bare
  · exact parenthesised_iff
  · exact Iff.rfl

/-- Commas between lexemes can be scanned. -/
@[simp] theorem commaJoined_iff {lss : List (List Lexeme)} :
    AllScannable (commaJoined lss) ↔ ∀ ls ∈ lss, AllScannable ls := by
  fun_induction commaJoined lss with
  | case1 => simp
  | case2 first => simp
  | case3 first second rest ih =>
    rw [append_iff, cons_iff, ih, List.forall_mem_cons]
    simp [Lexeme.Scannable]

theorem eof_not_mem (h : AllScannable ls) : .eof ∉ ls := fun heof => h .eof heof

end AllScannable

/-- An expression that is read is written with lexemes of the scanner. -/
theorem Expr.Canonical.allScannable (h : e.Canonical) : AllScannable e.lexemes := by
  induction e with
  | number text loc =>
    obtain ⟨numeral, hnumeral, rfl | rfl⟩ := h
    · simpa [lexemes, literalLexemes_of_isNumeral hnumeral, Lexeme.Scannable] using hnumeral
    · simpa [lexemes, literalLexemes_minus, Lexeme.Scannable] using hnumeral
  | ident name loc => simp [lexemes, Lexeme.Scannable]
  | field base name loc ih =>
    have hbase : base.Written .empty := .of_isFieldChain h
    simpa [lexemes, Lexeme.Scannable] using ih hbase.canonical
  | element base index loc ihb ihi =>
    have hbase : base.Written .empty := .of_isFieldChain h.1
    simpa [lexemes, Lexeme.Scannable] using ⟨ihb hbase.canonical, ihi h.2⟩
  | negate operand loc ih => simpa [lexemes, Lexeme.Scannable] using ih h.2
  | binary op left right loc ihl ihr => simpa [lexemes, Lexeme.Scannable] using ⟨ihl h.1, ihr h.2.1⟩
  | unary op operand loc ih => simpa [lexemes, Lexeme.Scannable] using ih h.1
  | call name args loc ih =>
    have hargs : ∀ e ∈ args, AllScannable e.lexemes := fun e he => ih e he (allCanonical_iff.1 h e he)
    simpa [lexemes, lexemesAll_eq_map, Lexeme.Scannable] using hargs

/-! ## The image of reading -/

/-- The expressions that are read from source texts are canonical, and every canonical expression is read back, up to
locations and to the last token, from any tokens that are its lexemes. -/
theorem expression_exact_image :
    (∀ (source : String) (r r' : Reader) (e : Expr), Reader.ofSource source = .ok r →
      Grammar.expression.run r = .ok e r' → e.Canonical) ∧
    (∀ (e : Expr) (tokens : List Token), e.Canonical → tokens.map (·.lexeme) = e.lexemes →
      ∃ e' r', Grammar.expression.run (Reader.ofStream (.ofTokens tokens)) = .ok e' r' ∧
        e'.unlocated = e.unlocated ∧ r'.rest = []) := by
  constructor
  · intro source r r' e hr hrun
    exact (Grammar.YieldsWritten.expression.written (.of_ofSource hr) hrun).canonical
  · intro e tokens he htokens
    have hreader := Reader.unlocated_ofTokens (htokens ▸ he.allScannable.eof_not_mem)
    rw [htokens] at hreader
    have hends : ((Reader.ofStream ⟨[], .nowhere⟩).withRest []).next.lexeme.endsExpression := rfl
    have hback := Grammar.run_expression_lexemes ⟨he, e.inBounds_empty⟩ hends
    rw [List.append_nil, ← hreader] at hback
    obtain ⟨e', r', hrun, he', hr'⟩ := Grammar.Mirrors.expression.exists_run_eq_ok hback
    refine ⟨e', r', hrun, he', ?_⟩
    have hrest := congrArg Reader.rest hr'
    rwa [Reader.rest_unlocated, Reader.rest_withRest, List.map_eq_nil_iff] at hrest

/-- A source with signs, parentheses and an index is read as a canonical expression, and one that needs parentheses is
read back from its lexemes. -/
theorem expression_exact_image_signs :
    (∃ r e r', Reader.ofSource "-a[-1] * (b ^ ~c) && !f(x, -2) || -(d)" = .ok r ∧
      Grammar.expression.run r = .ok e r' ∧ e.Canonical) ∧
    (∃ e r', Grammar.expression.run (Reader.ofStream (.ofTokens (tokensOf
        [.symbol .openParen, .identifier "a", .symbol .caret, .symbol .minus, .number "1", .symbol .closeParen,
          .symbol .star, .identifier "b"]))) = .ok e r' ∧
      e.unlocated = .binary .mul (.binary .bitXor (.ident "a" .nowhere) (.number "-1" .nowhere) .nowhere)
        (.ident "b" .nowhere) .nowhere ∧ r'.rest = []) := by
  constructor
  · obtain ⟨r, e, r', hr, hrun, -⟩ := Reader.exists_run_of_reads (p := Grammar.expression)
      (show Reader.reads "-a[-1] * (b ^ ~c) && !f(x, -2) || -(d)" _ (fun _ _ => true) by decide +kernel)
    exact ⟨r, e, r', hr, hrun, expression_exact_image.1 _ r r' e hr hrun⟩
  · refine expression_exact_image.2 (.binary .mul (.binary .bitXor (.ident "a" .nowhere) (.number "-1" .nowhere)
      .nowhere) (.ident "b" .nowhere) .nowhere) _ ⟨⟨trivial, ?_, ?_⟩, trivial, ?_⟩ (by decide +kernel)
    · exact ⟨"1", by decide, .inr rfl⟩
    · decide
    · decide

end ClockedC
