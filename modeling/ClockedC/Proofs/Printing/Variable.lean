import ClockedC.Proofs.Printing.Expression
import ClockedC.Proofs.Reading.Variable

/-!
# Admissible declarations are read back

A declaration that is admissible where it stands is read back from its lexemes, up to locations, and in sight
afterwards.
-/

namespace ClockedC

/-! ## Lengths -/

theorem Text.toList_toString (n : Nat) : (toString n).toList = Nat.toDigits 10 n := by
  rw [Nat.toString_eq_ofList_toDigits, String.toList_ofList]

/-- A number is read back from its digits. -/
theorem Text.digits?_toString (n : Nat) : digits? (toString n).toList = some n := by
  have hall : (Nat.toDigits 10 n).all Char.isDigit := by
    rw [List.all_eq_true]
    exact fun c hc => Nat.isDigit_of_mem_toDigits (by decide) (by decide) hc
  rw [toList_toString, digits?, if_pos ⟨Nat.toDigits_ne_nil, hall⟩]
  exact congrArg some Nat.ofDigitChars_ten_toDigits

/-- A number of 64 bits is read back from its digits. -/
theorem Text.natural64?_toString {n : Nat} (h : n < wordCount) : natural64? (toString n) = some n := by
  have hplus : ∀ cs, (toString n).toList ≠ '+' :: cs := by
    intro cs hcs
    rw [toList_toString] at hcs
    have hdigit : '+'.isDigit = true :=
      Nat.isDigit_of_mem_toDigits (by decide) (by decide) (hcs ▸ List.mem_cons_self)
    exact absurd hdigit (by decide)
  rw [natural64?]
  split
  · next cs hcs => exact absurd hcs (hplus cs)
  · rw [digits?_toString]
    simp [h]

/-! ## First lexemes -/

/-- A declaration begins with its type. -/
theorem Variable.exists_lexemes_eq_cons (decl : Variable) (h : decl.type ≠ .void) :
    ∃ l ls, decl.lexemes = l :: ls ∧ Grammar.startsVariable l := by
  rw [lexemes]
  cases htype : decl.type with
  | void => exact absurd htype h
  | _ => exact ⟨_, _, rfl, rfl⟩

namespace Grammar

variable {r : Reader} {tail : List Token}

/-! ## Types and brackets -/

/-- A type is read back if its struct is known. -/
theorem run_dataType_lexemes {type : DataType} (h : type.Known r.tables.structs) :
    dataType.run (r.withRest (tokensOf type.lexemes ++ tail)) = .ok type (r.withRest tail) := by
  cases type with
  | struct name =>
    have hknown : ¬ (((r.withRest tail).tables.structs.index? name).isNone = true) := by
      simpa [DataType.Known, Option.isSome_iff_ne_none] using h
    simp only [DataType.lexemes, tokensOf_cons, tokensOf_nil, List.cons_append, List.nil_append]
    rw [dataType, run_bind_of_ok (run_current _)]
    simp only [Reader.next_withRest_cons]
    rw [run_bind_of_ok (run_advance_cons ..), run_bind_of_ok (run_identifier_cons ..),
      run_bind_of_ok (EStateM.run_get _), if_neg hknown]
    rfl
  | _ =>
    rw [dataType, run_bind_of_ok (run_current _)]
    rfl

/-- Brackets are read back, whether there are any or not. -/
theorem run_arrayBrackets_lexemes {decl : Variable} (h : ∀ n ∈ decl.length, 0 < n ∧ n < Text.wordCount)
    (hbracket : (r.withRest tail).next.lexeme ≠ .symbol .openBracket) :
    (arrayBrackets decl.name).run (r.withRest (tokensOf (lengthLexemes decl.length) ++ tail)) =
      .ok decl.length ((r.declaring [decl]).withRest tail) := by
  cases hlength : decl.length with
  | none =>
    rw [lengthLexemes, tokensOf_nil, List.nil_append, arrayBrackets, run_bind_of_ok (run_accept_of_ne hbracket)]
    simp [Reader.declaring, ArraySizes.declare, hlength, Reader.withRest]
  | some n =>
    obtain ⟨hpos, hlt⟩ := h n hlength
    have hfilter : (Text.natural64? (toString n)).filter (0 < ·) = some n := by
      rw [Text.natural64?_toString hlt]
      simpa using hpos
    have hn : (arrayLength decl.name).run (r.withRest (⟨.number (toString n), .nowhere⟩ ::
        ⟨.symbol .closeBracket, .nowhere⟩ :: tail)) =
          .ok n (r.withRest (⟨.symbol .closeBracket, .nowhere⟩ :: tail)) := by
      rw [arrayLength, run_bind_of_ok (run_current _)]
      simp only [Reader.next_withRest_cons]
      rw [run_bind_of_ok (run_advance_cons ..), hfilter]
      rfl
    simp only [lengthLexemes, tokensOf_cons, tokensOf_nil, List.cons_append, List.nil_append]
    rw [arrayBrackets, run_bind_of_ok (run_accept_cons ..)]
    simp only [if_true]
    rw [run_bind_of_ok hn, run_bind_of_ok (run_expect_cons ..), run_bind_of_ok (EStateM.run_modify ..)]
    simp [Reader.declaring, ArraySizes.declare, hlength, Reader.withRest]

/-! ## Initial values -/

/-- The values of a brace list are read back. -/
theorem run_braceValues_lexemes {es : List Expr} (h : ∀ e ∈ es, e.Written r.tables.arrays) {depth : Nat}
    (hdepth : es.length < depth) :
    (braceValues depth).run (r.withRest (tokensOf (Expr.listLexemes es) ++ ⟨.symbol .closeBrace, .nowhere⟩ :: tail)) =
      .ok (es.map Expr.unlocated) (r.withRest (⟨.symbol .closeBrace, .nowhere⟩ :: tail)) := by
  induction es generalizing depth with
  | nil =>
    obtain ⟨depth, rfl⟩ : ∃ d, depth = d + 1 := ⟨depth - 1, by omega⟩
    rw [braceValues, braceValuesBy, run_bind_of_ok (run_nextIs ..)]
    rfl
  | cons e es ih =>
    obtain ⟨depth, rfl⟩ : ∃ d, depth = d + 1 := ⟨depth - 1, by omega⟩
    rw [List.forall_mem_cons] at h
    have hdepth : es.length < depth := by simpa using hdepth
    obtain ⟨ts, hts⟩ := exists_tokensOf_commaJoined_cons e.lexemes (es.map Expr.lexemes)
      (⟨.symbol .closeBrace, .nowhere⟩ :: tail)
    have hnext : (r.withRest (tokensOf (Expr.listLexemes (e :: es)) ++
        ⟨.symbol .closeBrace, .nowhere⟩ :: tail)).next.lexeme ≠ .symbol .closeBrace := by
      rw [Expr.listLexemes, List.map_cons, hts]
      exact e.next_ne_of_not_startsExpression rfl r ts
    rw [braceValues, braceValuesBy, run_bind_of_ok (run_nextIs ..)]
    simp only [hnext, decide_false, Bool.false_eq_true, if_false]
    -- a comma stands behind every value but the last
    cases es with
    | nil =>
      have hends : (r.withRest (⟨.symbol .closeBrace, .nowhere⟩ :: tail)).next.lexeme.endsExpression := rfl
      rw [Expr.listLexemes, List.map_cons, List.map_nil, commaJoined,
        run_bind_of_ok (run_expression_lexemes h.1 hends), run_bind_of_ok (run_accept_of_ne (by simp))]
      rfl
    | cons e' es =>
      have hrest := ih h.2 hdepth
      rw [Expr.listLexemes, List.map_cons, List.map_cons, commaJoined, tokensOf_append, List.append_assoc,
        run_bind_of_ok (run_expression_lexemes h.1 rfl), tokensOf_cons, List.cons_append,
        run_bind_of_ok (run_accept_cons ..)]
      simp only [if_true]
      rw [← List.map_cons, ← Expr.listLexemes, run_bind_of_ok hrest]
      rfl

theorem length_le_length_listLexemes (es : List Expr) : es.length ≤ (Expr.listLexemes es).length + 1 := by
  have := length_le_length_commaJoined_succ (es.map Expr.lexemes)
  rwa [List.length_map] at this

/-- A list of values in braces is read back. -/
theorem run_braceList_lexemes {es : List Expr} (h : ∀ e ∈ es, e.Written r.tables.arrays) :
    braceList.run (r.withRest (tokensOf (Expr.listLexemes es) ++ ⟨.symbol .closeBrace, .nowhere⟩ :: tail)) =
      .ok (es.map Expr.unlocated) (r.withRest tail) := by
  have hlength := length_le_length_listLexemes es
  rw [braceList, run_bind_of_ok (EStateM.run_get _), run_bind_of_ok (run_braceValues_lexemes h ?_),
    run_bind_of_ok (run_expect_cons ..)]
  · rfl
  · rw [Reader.depth_withRest, List.length_append, length_tokensOf, List.length_cons]
    omega

/-- A value that fits a variable is read back. -/
theorem run_initializer_lexemes {init : Initializer} {name : String} {type : DataType} {length : Option Nat}
    {loc : Location} (h : init.Admissible r.tables.structs r.tables.arrays type length)
    (hends : (r.withRest tail).next.lexeme.endsExpression) :
    (initializer name type length loc).run (r.withRest (tokensOf init.lexemes ++ tail)) =
      .ok init.unlocated (r.withRest tail) := by
  cases init with
  | value e =>
    -- no expression begins with a brace, so the value is not taken for a list
    obtain ⟨rfl, hwritten⟩ := h
    have hbrace := e.next_ne_of_not_startsExpression (l := .symbol .openBrace) rfl r tail
    rw [Initializer.lexemes, initializer, run_bind_of_ok (run_accept_of_ne hbrace)]
    simp only [Bool.false_eq_true, if_false, Option.isSome_none]
    rw [run_bind_of_ok (run_expression_lexemes hwritten hends)]
    rfl
  | elements es =>
    obtain ⟨⟨n, rfl, hcount⟩, hwritten⟩ := h
    simp only [Initializer.lexemes, braced, tokensOf_cons, tokensOf_append, tokensOf_nil, List.cons_append,
      List.append_assoc, List.nil_append]
    rw [initializer, run_bind_of_ok (run_accept_cons ..)]
    simp only [if_true]
    rw [run_bind_of_ok (run_braceList_lexemes hwritten)]
    have hfits : ¬ n < (es.map Expr.unlocated).length := by
      rw [List.length_map]
      omega
    rw [if_neg hfits]
    rfl
  | fields es =>
    obtain ⟨rfl, ⟨struct, rfl, hcount⟩, hwritten⟩ := h
    simp only [Initializer.lexemes, braced, tokensOf_cons, tokensOf_append, tokensOf_nil, List.cons_append,
      List.append_assoc, List.nil_append]
    rw [initializer, run_bind_of_ok (run_accept_cons ..)]
    simp only [if_true]
    rw [run_bind_of_ok (run_braceList_lexemes hwritten), run_bind_of_ok (EStateM.run_get _)]
    have hfits : ¬ (((r.withRest tail).tables.structs.lookup? struct).map (·.fields.length)).getD 0 <
        (es.map Expr.unlocated).length := by
      rw [List.length_map]
      exact not_lt.2 hcount
    rw [if_neg hfits]
    rfl

/-! ## Declarations -/

/-- An admissible declaration is read back and in sight afterwards. -/
theorem run_variableDeclaration_lexemes {decl : Variable}
    (h : decl.Admissible r.tables.structs r.tables.arrays) :
    variableDeclaration.run (r.withRest (tokensOf decl.lexemes ++ tail)) =
      .ok decl.unlocated ((r.declaring [decl]).withRest tail) := by
  have hloc : (r.withRest (tokensOf decl.lexemes ++ tail)).next.loc = .nowhere := by
    obtain ⟨l, ls, hls, -⟩ := decl.exists_lexemes_eq_cons h.ne_void
    rw [hls]
    rfl
  rw [variableDeclaration, run_bind_of_ok (run_current _), hloc, Variable.lexemes, tokensOf_append, List.append_assoc,
    run_bind_of_ok (run_dataType_lexemes h.known), tokensOf_cons, List.cons_append,
    run_bind_of_ok (run_identifier_cons ..), if_neg h.ne_void]
  cases hinit : decl.init with
  | none =>
    simp only [initLexemes, tokensOf_append, tokensOf_cons, tokensOf_nil, List.nil_append, List.append_assoc,
      List.cons_append]
    rw [run_bind_of_ok (run_arrayBrackets_lexemes h.length (by simp)), run_bind_of_ok (run_accept_of_ne (by simp))]
    simp only [Bool.false_eq_true, if_false]
    rw [run_bind_of_ok (EStateM.run_pure ..), run_bind_of_ok (run_expect_cons ..), Variable.unlocated, hinit]
    rfl
  | some init =>
    have hfits := h.init init hinit
    have hends : ((r.declaring [decl]).withRest (⟨.symbol .semicolon, .nowhere⟩ :: tail)).next.lexeme.endsExpression :=
      rfl
    -- the value is read where the array is already in sight
    have hvalue : (initializer decl.name decl.type decl.length .nowhere).run ((r.declaring [decl]).withRest
        (tokensOf init.lexemes ++ ⟨.symbol .semicolon, .nowhere⟩ :: tail)) =
        .ok init.unlocated ((r.declaring [decl]).withRest (⟨.symbol .semicolon, .nowhere⟩ :: tail)) :=
      run_initializer_lexemes hfits hends
    simp only [initLexemes, tokensOf_append, tokensOf_cons, tokensOf_nil, List.nil_append, List.append_assoc,
      List.cons_append]
    rw [run_bind_of_ok (run_arrayBrackets_lexemes h.length (by simp)), run_bind_of_ok (run_accept_cons ..)]
    simp only [if_true]
    rw [run_bind_of_ok (run_map_eq_ok.2 ⟨_, hvalue, rfl⟩), run_bind_of_ok (run_expect_cons ..), Variable.unlocated,
      hinit]
    rfl

end Grammar

end ClockedC
