import ClockedC.Proofs.Scanning.Pieces
import ClockedC.Vhdl.Expr

/-!
# Lexemes of VHDL expressions

The text of an expression is cut into lexemes, each one as long as possible. Words are taken for operators in any letter
case.
-/

namespace ClockedC.Vhdl

/-! ## Lexemes -/

/-- A lexeme of an expression. -/
inductive Lexeme where
  | number (text : String)
  | name (text : String)
  | operator (op : Operator)
  | not
  | openParen
  | closeParen
  | comma
  | dot
  /-- Anything else, which stands in no expression. -/
  | other (text : String)
  deriving DecidableEq, Repr

/-- The operators that are written as words, of the expressions in use. The words that are operators in VHDL and stand
in none of them (`abs`, `mod`, `rem`, `nand`, `nor`, `xnor`, the shifts) are names here. -/
def wordOperators : List (String × Lexeme) :=
  [("and", .operator .and), ("or", .operator .or), ("xor", .operator .xor), ("not", .not)]

/-- Whether a word is an operator. -/
def isOperatorWord (word : String) : Bool := (wordOperators.lookup word.toLower).isSome

/-- The lexeme of a word. -/
def Lexeme.ofWord (word : String) : Lexeme := (wordOperators.lookup word.toLower).getD (.name word)

/-- The lexemes that are written as symbols. -/
def symbols : List (String × Lexeme) :=
  [("+", .operator .add), ("-", .operator .sub), ("*", .operator .mul), ("/", .operator .div), ("=", .operator .eq),
    ("/=", .operator .ne), ("<", .operator .lt), ("<=", .operator .le), (">", .operator .gt), (">=", .operator .ge),
    ("(", .openParen), (")", .closeParen), (",", .comma), (".", .dot)]

/-- The lexeme of a piece of text, unless it is a blank. -/
def Lexeme.ofPiece? : List Char → Option Lexeme
  | [] => none
  | c :: cs =>
    let text := String.ofList (c :: cs)
    if c = ' ' then none
    else if Piece.isWordStart c then some (.ofWord text)
    else if c.isDigit then some (.number text)
    else some ((symbols.lookup text).getD (.other text))

/-- The pairs of characters that make one piece, the beginning of a comment included. -/
def doubleSymbols : List (Char × Char) :=
  [('=', '>'), ('*', '*'), (':', '='), ('/', '='), ('>', '='), ('<', '='), ('<', '>'), ('-', '-')]

/-- Whether a character goes on with a piece. -/
def joins : List Char → Char → Bool
  | [], _ => true
  | first :: rest, c =>
    if Piece.isWordStart first then Piece.isWordPart c
    else if first.isDigit then Piece.isWordPart c || c = '.'
    else rest.isEmpty && (first, c) ∈ doubleSymbols

/-- The lexemes of a text behind the beginning of a piece. -/
def lexemesFrom (piece : List Char) : List Char → List Lexeme
  | [] => (Lexeme.ofPiece? piece).toList
  | c :: cs =>
    if joins piece c then lexemesFrom (piece ++ [c]) cs
    else (Lexeme.ofPiece? piece).toList ++ lexemesFrom [c] cs

/-- The lexemes of a text. -/
def lexemes (text : String) : List Lexeme := lexemesFrom [] text.toList

/-! ## Single pieces -/

/-- A piece ends where the next character does not go on with it. -/
theorem lexemesFrom_of_stops {piece rest : List Char} (h : ∀ c ∈ rest.head?, joins piece c = false) :
    lexemesFrom piece rest = (Lexeme.ofPiece? piece).toList ++ lexemesFrom [] rest := by
  cases rest with
  | nil => exact (List.append_nil _).symm
  | cons c cs =>
    have hc : joins piece c = false := h c rfl
    rw [lexemesFrom, hc]
    rfl

/-- A piece takes in all characters that go on with it. -/
theorem lexemesFrom_run {part : Char → Bool} {c : Char} (hjoins : ∀ cs d, joins (c :: cs) d = part d)
    {cs run rest : List Char} (hrun : ∀ d ∈ run, part d) (hrest : ∀ d ∈ rest.head?, part d = false) :
    lexemesFrom (c :: cs) (run ++ rest) = (Lexeme.ofPiece? (c :: (cs ++ run))).toList ++ lexemesFrom [] rest := by
  induction run generalizing cs with
  | nil =>
    rw [List.append_nil]
    exact lexemesFrom_of_stops fun d hd => (hjoins cs d).trans (hrest d hd)
  | cons d run ih =>
    rw [List.forall_mem_cons] at hrun
    rw [List.cons_append, lexemesFrom, if_pos ((hjoins cs d).trans hrun.1), List.cons_append, ih hrun.2,
      List.append_assoc]
    rfl

/-- Blanks between lexemes are passed. -/
@[simp] theorem lexemesFrom_blank (rest : List Char) : lexemesFrom [] (' ' :: rest) = lexemesFrom [] rest := by
  show lexemesFrom [' '] rest = _
  rw [lexemesFrom_of_stops]
  · rfl
  · intro c _
    simp [joins, doubleSymbols, Piece.isWordStart]

/-! ## What follows a text -/

/-- The text is a word. -/
def isWord (text : String) : Bool :=
  match text.toList with
  | [] => false
  | c :: cs => Piece.isWordStart c && cs.all Piece.isWordPart

/-- What follows does not go on with a word. -/
def EndsWord (rest : List Char) : Prop := ∀ c ∈ rest.head?, Piece.isWordPart c = false

/-- What follows goes on with neither a word nor a number. -/
def EndsNumber (rest : List Char) : Prop := ∀ c ∈ rest.head?, Piece.isWordPart c = false ∧ c ≠ '.'

/-- What ends a number ends a word. -/
theorem EndsNumber.endsWord {rest : List Char} (h : EndsNumber rest) : EndsWord rest := fun c hc => (h c hc).1

/-- A word that is not continued is the first lexeme. -/
theorem lexemesFrom_word {word : String} (hword : isWord word) {rest : List Char} (hrest : EndsWord rest) :
    lexemesFrom [] (word.toList ++ rest) = .ofWord word :: lexemesFrom [] rest := by
  unfold isWord at hword
  split at hword
  · cases hword
  next c cs hlist =>
  rw [Bool.and_eq_true, List.all_eq_true] at hword
  obtain ⟨hstart, hparts⟩ := hword
  have hjoins : ∀ cs d, joins (c :: cs) d = Piece.isWordPart d := fun cs d => by rw [joins, if_pos hstart]
  have hblank : c ≠ ' ' := by
    rintro rfl
    exact absurd hstart (by decide)
  have hpiece : Lexeme.ofPiece? (c :: cs) = some (.ofWord word) := by
    rw [Lexeme.ofPiece?, if_neg hblank, if_pos hstart, ← hlist, String.ofList_toList]
  rw [hlist, List.cons_append]
  show lexemesFrom [c] (cs ++ rest) = _
  rw [lexemesFrom_run hjoins hparts hrest, List.nil_append, hpiece]
  rfl

/-- A word that is no operator is a name. -/
theorem Lexeme.ofWord_eq_name {word : String} (h : isOperatorWord word = false) : Lexeme.ofWord word = .name word := by
  rw [isOperatorWord, Option.isSome_eq_false_iff, Option.isNone_iff_eq_none] at h
  rw [Lexeme.ofWord, h]
  rfl

/-- A digit begins no word. -/
theorem isWordStart_of_isDigit {c : Char} (h : c.isDigit) : Piece.isWordStart c = false := by
  simp only [Char.isDigit, Bool.and_eq_true, decide_eq_true_eq, UInt32.le_iff_toNat_le, ge_iff_le] at h
  simp only [Piece.isWordStart, Char.isAlpha, Char.isUpper, Char.isLower, Bool.or_eq_false_iff, Bool.and_eq_false_iff,
    decide_eq_false_iff_not, UInt32.le_iff_toNat_le, ge_iff_le]
  have h9 : '9'.val.toNat = 57 := rfl
  have hA : 'A'.val.toNat = 65 := rfl
  have ha : 'a'.val.toNat = 97 := rfl
  refine ⟨⟨by omega, by omega⟩, ?_⟩
  rintro rfl
  exact absurd h (by decide)

/-- A numeral that is not continued is the first lexeme. -/
theorem lexemesFrom_numeral {numeral : String} (hnumeral : isNumeral numeral) {rest : List Char}
    (hrest : EndsNumber rest) :
    lexemesFrom [] (numeral.toList ++ rest) = .number numeral :: lexemesFrom [] rest := by
  unfold isNumeral at hnumeral
  split at hnumeral
  · cases hnumeral
  next c cs hlist =>
  rw [Bool.and_eq_true, List.all_eq_true] at hnumeral
  obtain ⟨hdigit, hparts⟩ := hnumeral
  have hstart := isWordStart_of_isDigit hdigit
  have hjoins : ∀ cs d, joins (c :: cs) d = (Piece.isWordPart d || decide (d = '.')) := fun cs d => by
    rw [joins, if_neg (by simp [hstart]), if_pos hdigit]
  have hblank : c ≠ ' ' := by
    rintro rfl
    exact absurd hdigit (by decide)
  have hpiece : Lexeme.ofPiece? (c :: cs) = some (.number numeral) := by
    rw [Lexeme.ofPiece?, if_neg hblank, if_neg (by simp [hstart]), if_pos hdigit, ← hlist, String.ofList_toList]
  -- digits and dots go on with a number
  have hrun : ∀ d ∈ cs, Piece.isWordPart d || decide (d = '.') := by
    intro d hd
    have hpart := hparts d hd
    rw [Piece.isNumeralPart, Bool.or_eq_true] at hpart
    rw [Piece.isWordPart, Char.isAlphanum, Bool.or_eq_true]
    exact hpart.imp_left fun hdigit => by simp [hdigit]
  rw [hlist, List.cons_append]
  show lexemesFrom [c] (cs ++ rest) = _
  rw [lexemesFrom_run hjoins hrun fun d hd => by simp [hrest d hd], List.nil_append, hpiece]
  rfl

/-! ## Symbols -/

theorem lexemesFrom_symbol {c : Char} {l : Lexeme} (hpiece : Lexeme.ofPiece? [c] = some l) {rest : List Char}
    (hrest : ∀ d ∈ rest.head?, joins [c] d = false) : lexemesFrom [] (c :: rest) = l :: lexemesFrom [] rest := by
  show lexemesFrom [c] rest = _
  rw [lexemesFrom_of_stops hrest, hpiece]
  rfl

@[simp] theorem lexemesFrom_openParen (rest : List Char) :
    lexemesFrom [] ('(' :: rest) = .openParen :: lexemesFrom [] rest :=
  lexemesFrom_symbol (by decide) fun d _ => by simp [joins, doubleSymbols, Piece.isWordStart]

@[simp] theorem lexemesFrom_closeParen (rest : List Char) :
    lexemesFrom [] (')' :: rest) = .closeParen :: lexemesFrom [] rest :=
  lexemesFrom_symbol (by decide) fun d _ => by simp [joins, doubleSymbols, Piece.isWordStart]

@[simp] theorem lexemesFrom_comma (rest : List Char) :
    lexemesFrom [] (',' :: rest) = .comma :: lexemesFrom [] rest :=
  lexemesFrom_symbol (by decide) fun d _ => by simp [joins, doubleSymbols, Piece.isWordStart]

@[simp] theorem lexemesFrom_dot (rest : List Char) :
    lexemesFrom [] ('.' :: rest) = .dot :: lexemesFrom [] rest :=
  lexemesFrom_symbol (by decide) fun d _ => by simp [joins, doubleSymbols, Piece.isWordStart]

/-- A minus sign is a lexeme unless another one follows, which makes a comment. -/
theorem lexemesFrom_minus {rest : List Char} (hrest : rest.head? ≠ some '-') :
    lexemesFrom [] ('-' :: rest) = .operator .sub :: lexemesFrom [] rest := by
  refine lexemesFrom_symbol (by decide) fun d hd => ?_
  have hd' : d ≠ '-' := by
    rintro rfl
    exact hrest hd
  simp [joins, doubleSymbols, Piece.isWordStart, hd']

/-- A blank ends a word. -/
theorem endsWord_blank (rest : List Char) : EndsWord (' ' :: rest) := by
  intro c hc
  cases hc
  decide

/-- A blank ends an operator that is written as a word. -/
theorem lexemesFrom_wordOperator {word : String} {l : Lexeme} (hword : isWord word) (hl : Lexeme.ofWord word = l)
    (rest : List Char) : lexemesFrom [] (word.toList ++ ' ' :: rest) = l :: lexemesFrom [] rest := by
  rw [lexemesFrom_word hword (endsWord_blank rest), hl, lexemesFrom_blank]

/-- A blank ends an operator. -/
theorem lexemesFrom_operator (op : Operator) (rest : List Char) :
    lexemesFrom [] (op.spelling.toList ++ ' ' :: rest) = .operator op :: lexemesFrom [] rest := by
  have hblank : lexemesFrom [' '] rest = lexemesFrom [] rest := lexemesFrom_blank rest
  cases op with
  | and | or | xor => exact lexemesFrom_wordOperator (by decide +kernel) (by decide +kernel) rest
  | _ => exact congrArg (List.cons _) hblank

end ClockedC.Vhdl
