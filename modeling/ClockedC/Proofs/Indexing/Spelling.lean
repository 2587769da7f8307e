import ClockedC.Proofs.Reading.Segments
import ClockedC.Proofs.Reading.Expression

/-!
# The tokens of an element

A place that is read gives back its tokens: a name, the fields selected from it, and the index in brackets. An index
that is a literal was written as a number, perhaps behind minus signs and in parentheses.
-/

namespace ClockedC

variable {e : Expr} {depth : Nat} {r r' : Reader} {loc : Location}

/-! ## Spelling -/

/-- The text of a literal behind one more minus sign. -/
def Text.flipSign (text : String) : String :=
  match text.toList with
  | '-' :: cs => String.ofList cs
  | _ => "-" ++ text

/-- The lexemes are those of a literal with the given text: a number behind minus signs and in parentheses. -/
inductive SpellsLiteral : List Lexeme → String → Prop
  | number (text : String) : SpellsLiteral [.number text] text
  | minus {lexemes : List Lexeme} {text : String} (h : SpellsLiteral lexemes text) :
      SpellsLiteral (.symbol .minus :: lexemes) (Text.flipSign text)
  | parens {lexemes : List Lexeme} {text : String} (h : SpellsLiteral lexemes text) :
      SpellsLiteral (.symbol .openParen :: lexemes ++ [.symbol .closeParen]) text

/-- The lexemes are those of a variable and the fields selected from it, which have the given name as a whole. -/
inductive SpellsPlace : List Lexeme → String → Prop
  | ident (name : String) : SpellsPlace [.identifier name] name
  | field {lexemes : List Lexeme} {base : String} (h : SpellsPlace lexemes base) (name : String) :
      SpellsPlace (lexemes ++ [.symbol .dot, .identifier name]) (base ++ "__" ++ name)

/-- The lexemes are those of a place called `name`, with a literal with the given text in brackets behind it. -/
def SpellsElement (lexemes : List Lexeme) (name text : String) : Prop :=
  ∃ place index, SpellsPlace place name ∧ SpellsLiteral index text ∧
    lexemes = place ++ .symbol .openBracket :: index ++ [.symbol .closeBracket]

/-- Only a literal becomes a literal behind a minus sign. -/
theorem Expr.exists_of_negated_eq_number {loc' : Location} {text : String} (h : e.negated loc = .number text loc') :
    ∃ text' loc', e = .number text' loc' ∧ text = Text.flipSign text' := by
  cases e with
  | number text' loc'' =>
    refine ⟨text', loc'', rfl, ?_⟩
    rw [negated] at h
    rw [Text.flipSign]
    split at h <;> cases h <;> simp_all
  | _ => simp [negated, isPlace] at h

namespace Grammar

/-! ## Places -/

/-- The fields selected from a place are read from their tokens. -/
theorem exists_spelling_of_fieldsOf {base : Expr} (h : (fieldsOf loc depth base).run r = .ok e r') {front : List Lexeme}
    {name : String} (hfront : SpellsPlace front name) (hbase : base.flatName? = some name) :
    ∃ tokens name', r.rest = tokens ++ r'.rest ∧ SpellsPlace (front ++ tokens.map (·.lexeme)) name' ∧
      e.flatName? = some name' := by
  induction depth generalizing base r front name with
  | zero => cases h
  | succ depth ih =>
    obtain ⟨b, r₁, haccept, h⟩ := run_bind_eq_ok.1 h
    cases b with
    | true =>
      obtain ⟨field, r₂, hfield, h⟩ := run_bind_eq_ok.1 h
      have hflat : (Expr.field base field loc).flatName? = some (name ++ "__" ++ field) := by
        simp [Expr.flatName?, hbase]
      obtain ⟨tokens, name', hrest, hspells, hname'⟩ := ih h (hfront.field field) hflat
      refine ⟨⟨.symbol .dot, r.next.loc⟩ :: ⟨.identifier field, r₁.next.loc⟩ :: tokens, name', ?_, ?_, hname'⟩
      · rw [rest_of_accept haccept, rest_of_identifier hfield, hrest]
        rfl
      · simpa using hspells
    | false =>
      cases h
      obtain ⟨htrue, -⟩ | ⟨-, -, rfl⟩ := run_accept_eq_ok haccept
      · cases htrue
      · exact ⟨[], name, rfl, by simpa using hfront, hbase⟩

/-- What is read as a place is one. -/
theorem isPlace_of_placeWith {index : ReadM Expr} (h : (placeWith depth index).run r = .ok e r') : e.isPlace := by
  obtain ⟨token, r₁, -, h⟩ := run_bind_eq_ok.1 h
  obtain ⟨name, r₂, -, h⟩ := run_bind_eq_ok.1 h
  obtain ⟨base, r₃, hbase, h⟩ := run_bind_eq_ok.1 h
  obtain ⟨b, r₄, -, h⟩ := run_bind_eq_ok.1 h
  cases b with
  | true =>
    obtain ⟨position, r₅, -, h⟩ := run_bind_eq_ok.1 h
    obtain ⟨_, r₆, -, h⟩ := run_bind_eq_ok.1 h
    obtain ⟨_, r₇, -, h⟩ := run_bind_eq_ok.1 h
    cases h
    rfl
  | false =>
    cases h
    exact Expr.isPlace_of_isFieldChain (run_fieldsOf_eq_ok hbase rfl)

/-! ## Literals -/

/-- Where the step gives a literal, it has read the tokens of one. -/
structure ReadsLiterals (p : ReadM Expr) : Prop where
  exists_spelling : ∀ {r r' : Reader} {text : String} {loc : Location}, p.run r = .ok (.number text loc) r' →
    ∃ tokens, r.rest = tokens ++ r'.rest ∧ SpellsLiteral (tokens.map (·.lexeme)) text

/-- Where operators are read behind an operand, the outcome is no literal. -/
theorem eq_left_of_operatorsFrom {least : Int} {left : Expr} {text : String}
    (h : (operatorsFrom depth least left).run r = .ok (.number text loc) r') : left = .number text loc ∧ r' = r := by
  induction depth generalizing left r with
  | zero => cases h
  | succ depth ih =>
    obtain ⟨rfl, rfl, -⟩ | ⟨op, right, r₁, -, -, -, h⟩ := run_operatorsFrom_eq_ok h
    · exact ⟨rfl, rfl⟩
    · cases (ih h).1

namespace ReadsLiterals

/-- An operand that is a literal, from the productions of less depth. -/
theorem of_operandCase {text : String} (hexpr : ∀ least, ReadsLiterals (expressionAt depth least))
    (hprimary : ReadsLiterals (primary depth)) (h : OperandCase depth r e r') (he : e = .number text loc) :
    ∃ tokens, r.rest = tokens ++ r'.rest ∧ SpellsLiteral (tokens.map (·.lexeme)) text := by
  cases h with
  | unary next run => cases he
  | minus next run =>
    -- a negation is a literal only if its operand was one
    obtain ⟨text', loc', rfl, rfl⟩ := Expr.exists_of_negated_eq_number he
    obtain ⟨tokens, hrest, hspells⟩ := hprimary.exists_spelling run
    have hrest : r.rest.tail = tokens ++ r'.rest := hrest
    refine ⟨⟨.symbol .minus, r.next.loc⟩ :: tokens, ?_, .minus hspells⟩
    rw [Reader.rest_eq_cons_of_next next (by simp), hrest]
    rfl
  | @parens inner r₁ next run close =>
    obtain ⟨tokens, hrest, hspells⟩ := (hexpr _).exists_spelling (he ▸ run)
    have hrest : r.rest.tail = tokens ++ r₁.rest := hrest
    refine ⟨⟨.symbol .openParen, r.next.loc⟩ :: (tokens ++ [⟨.symbol .closeParen, r₁.next.loc⟩]), ?_, ?_⟩
    · rw [Reader.rest_eq_cons_of_next next (by simp), hrest, Reader.rest_eq_cons_of_next close (by simp)]
      simp
    · simpa using hspells.parens
  | number next =>
    cases he
    exact ⟨[⟨.number text, r.next.loc⟩], Reader.rest_eq_cons_of_next next (by simp), .number text⟩
  | call next ahead run => cases he
  | place next ahead run =>
    have hplace := isPlace_of_placeWith run
    rw [he] at hplace
    cases hplace

/-- An expression that is a literal has the tokens of one, by induction on the depth. -/
theorem expressions (depth : Nat) :
    (∀ least, ReadsLiterals (expressionAt depth least)) ∧ ReadsLiterals (primary depth) := by
  induction depth with
  | zero =>
    refine ⟨fun least => ⟨fun h => ?_⟩, ⟨fun h => ?_⟩⟩
    · cases h
    · cases h
  | succ depth ih =>
    obtain ⟨hexpr, hprimary⟩ := ih
    refine ⟨fun least => ⟨fun h => ?_⟩, ⟨fun h => ?_⟩⟩
    · obtain ⟨left, r₁, hleft, h⟩ := run_expressionAt_eq_ok h
      obtain ⟨rfl, rfl⟩ := eq_left_of_operatorsFrom h
      exact hprimary.exists_spelling hleft
    · exact of_operandCase hexpr hprimary (run_primary_eq_ok h) rfl

theorem expression : ReadsLiterals expression := ⟨fun h => ((expressions _).1 _).exists_spelling h⟩

end ReadsLiterals

end Grammar

end ClockedC
