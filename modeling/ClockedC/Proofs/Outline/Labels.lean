import ClockedC.Proofs.Printing.Variable
import ClockedC.Proofs.Reading.Marks
import ClockedC.Proofs.Scanning.RoundTrip

/-!
# Labels

The label of a node of an outline is made up of words, which are read back from it as long as names are identifiers and
numbers are literals.
-/

namespace ClockedC

/-! ## Legible programs -/

/-- A name is an identifier, and a number is a literal. -/
def Mark.IsLegible : Mark → Prop
  | .name text => isIdentifier text
  | .number text => IsLiteral text
  | .location _ => True

/-- What can be read back once can be read back everywhere in a tree. -/
theorem Mark.closed_isLegible : Mark.Closed Mark.IsLegible where
  zero := .of_isNumeral rfl
  one := .of_isNumeral rfl
  signed := by
    rintro text ⟨numeral, hnumeral, rfl | rfl⟩ hhead
    · exact ⟨text, hnumeral, .inr rfl⟩
    · simp at hhead
  unsigned := by
    rintro text cs ⟨numeral, hnumeral, rfl | rfl⟩ hcs
    · exact absurd hcs (toList_ne_of_isNumeral hnumeral cs)
    · have hrest : numeral.toList = cs := by simpa using hcs
      rw [← hrest, String.ofList_toList]
      exact .of_isNumeral hnumeral

/-! ## Words -/

/-- A text without a space or a line break. -/
def IsWord (w : String) : Prop := ' ' ∉ w.toList ∧ '\n' ∉ w.toList

instance (w : String) : Decidable (IsWord w) := inferInstanceAs (Decidable (_ ∧ _))

/-- Characters that are neither blanks nor line breaks make up a word. -/
theorem IsWord.of_all {p : Char → Bool} {w : String} (h : ∀ c ∈ w.toList, p c) (hspace : p ' ' = false)
    (hbreak : p '\n' = false) : IsWord w := by
  constructor
  · intro hmem
    rw [h _ hmem] at hspace
    cases hspace
  · intro hmem
    rw [h _ hmem] at hbreak
    cases hbreak

/-- The characters of an identifier. -/
theorem isWordPart_of_mem {name : String} (h : isIdentifier name) : ∀ c ∈ name.toList, Piece.isWordPart c := by
  obtain ⟨c, cs, hname, hstart, hall, -⟩ := Piece.exists_of_isIdentifier h
  rw [hname, List.forall_mem_cons]
  refine ⟨?_, hall⟩
  simp only [Piece.isWordStart, Piece.isWordPart, Char.isAlphanum, Bool.or_eq_true] at hstart ⊢
  exact hstart.imp_left .inl

/-- An identifier is a word. -/
theorem IsWord.of_isIdentifier {name : String} (h : isIdentifier name) : IsWord name :=
  .of_all (isWordPart_of_mem h) rfl rfl

theorem IsWord.append {w v : String} (hw : IsWord w) (hv : IsWord v) : IsWord (w ++ v) := by
  simp only [IsWord, String.toList_append, List.mem_append, not_or]
  exact ⟨⟨hw.1, hv.1⟩, hw.2, hv.2⟩

/-- A numeral is a word. -/
theorem IsWord.of_isNumeral {numeral : String} (h : isNumeral numeral) : IsWord numeral := by
  obtain ⟨c, cs, hnumeral, hdigit, hall⟩ := Piece.exists_of_isNumeral h
  refine .of_all (p := Piece.isNumeralPart) ?_ rfl rfl
  rw [hnumeral, List.forall_mem_cons]
  exact ⟨by simp [Piece.isNumeralPart, hdigit], hall⟩

/-- A literal is a word, also with a sign. -/
theorem IsWord.of_isLiteral {text : String} (h : IsLiteral text) : IsWord text := by
  obtain ⟨numeral, hnumeral, rfl | rfl⟩ := h
  · exact .of_isNumeral hnumeral
  · exact .append (by decide) (.of_isNumeral hnumeral)

/-- The words of a label. -/
def words (label : String) : List String := (label.toList.splitOn ' ').map String.ofList

/-- A label of the given words. -/
def labelText : List String → String
  | [] => ""
  | [w] => w
  | w :: v :: ws => w ++ " " ++ labelText (v :: ws)

/-- The words of a label are those it was made of. -/
theorem words_labelText {w : String} {ws : List String} (h : ∀ v ∈ w :: ws, IsWord v) :
    words (labelText (w :: ws)) = w :: ws := by
  have hspace : ∀ v ∈ w :: ws, ∀ c ∈ v.toList, (c == ' ') = false := by
    intro v hv c hc
    exact beq_false_of_ne fun heq => (h v hv).1 (heq ▸ hc)
  induction ws generalizing w with
  | nil =>
    rw [labelText, words, List.splitOn, List.splitOnP_eq_singleton (hspace w List.mem_cons_self)]
    simp
  | cons v ws ih =>
    have hrest := ih (fun u hu => h u (List.mem_cons_of_mem _ hu)) fun u hu => hspace u (List.mem_cons_of_mem _ hu)
    have hlist : (labelText (w :: v :: ws)).toList = w.toList ++ ' ' :: (labelText (v :: ws)).toList := by
      simp [labelText]
    rw [words, List.splitOn] at hrest ⊢
    rw [hlist, List.splitOnP_append_cons_of_forall_mem (hspace w List.mem_cons_self) ' ' rfl, List.map_cons, hrest,
      String.ofList_toList]

/-- A label of words has no line break. -/
theorem notMem_labelText {ws : List String} (h : ∀ v ∈ ws, IsWord v) : '\n' ∉ (labelText ws).toList := by
  induction ws with
  | nil => simp [labelText]
  | cons w ws ih =>
    have hw := (h w List.mem_cons_self).2
    cases ws with
    | nil => exact hw
    | cons v ws =>
      have hrest := ih fun u hu => h u (List.mem_cons_of_mem _ hu)
      simpa [labelText, hw] using hrest

/-! ## Words for types, declarators and operators -/

/-- The words a type is written with. -/
def DataType.words : DataType → List String
  | struct name => ["struct", name]
  | type => [type.spelling]

/-- The type and the word behind it that some words stand for. -/
def declared? : List String → Option (DataType × String)
  | [type, word] => ([.int, .float, .double, .char, .void].find? (·.spelling = type)).map (·, word)
  | [_, struct, word] => some (.struct struct, word)
  | _ => none

theorem declared?_words (type : DataType) (word : String) : declared? (type.words ++ [word]) = some (type, word) := by
  cases type <;> rfl

/-- A type is made up of words. -/
theorem DataType.isWord_of_mem_words {type : DataType} (h : type.Marked Mark.IsLegible) :
    ∀ w ∈ type.words, IsWord w := by
  cases type with
  | struct name =>
    refine List.forall_mem_cons.2 ⟨by decide, ?_⟩
    simpa [words] using IsWord.of_isIdentifier h
  | _ =>
    simp only [words, List.mem_singleton, forall_eq]
    decide

/-- The words of a type, with one behind them. -/
theorem DataType.isWord_of_mem_append {type : DataType} (h : type.Marked Mark.IsLegible) {word : String}
    (hword : IsWord word) : ∀ w ∈ type.words ++ [word], IsWord w := by
  intro w hw
  rcases List.mem_append.1 hw with hw | hw
  · exact isWord_of_mem_words h w hw
  · rwa [List.mem_singleton.1 hw]

/-- A label in which a type stands in front of a word. -/
theorem labelText_words_append (head : String) (type : DataType) (word : String) :
    head ++ " " ++ type.spelling ++ " " ++ word = labelText (head :: (type.words ++ [word])) := by
  apply String.toList_inj.1
  cases type <;> simp [DataType.words, DataType.spelling, labelText]

/-- The length of an array behind its name. -/
def lengthText (length : Option Nat) : String := (length.map fun n => "[" ++ toString n ++ "]").getD ""

/-- The name and the length in the word of a declarator. -/
def declarator (word : String) : String × Option Nat :=
  (String.ofList (word.toList.takeWhile (· ≠ '[')),
    Text.digits? ((word.toList.dropWhile (· ≠ '[')).tail.takeWhile (· ≠ ']')))

/-- A name and a length are read back from one word. -/
theorem declarator_append {name : String} (h : isIdentifier name) (length : Option Nat) :
    declarator (name ++ lengthText length) = (name, length) := by
  -- neither a name nor a length has a bracket of its own
  have hname : ∀ c ∈ name.toList, decide (c ≠ '[') = true := by
    intro c hc
    have := isWordPart_of_mem h c hc
    exact decide_eq_true (by rintro rfl; cases this)
  rw [declarator, String.toList_append, List.takeWhile_append_of_pos hname, List.dropWhile_append_of_pos hname]
  cases length with
  | none => simp [lengthText, Text.digits?]
  | some n =>
    have hdigits : ∀ c ∈ (toString n).toList, decide (c ≠ ']') = true := by
      intro c hc
      rw [Text.toList_toString] at hc
      have hdigit : c.isDigit := Nat.isDigit_of_mem_toDigits (by decide) (by decide) hc
      exact decide_eq_true (by rintro rfl; cases hdigit)
    have hlist : (lengthText (some n)).toList = '[' :: ((toString n).toList ++ [']']) := by simp [lengthText]
    rw [hlist, List.takeWhile_cons_of_neg (by decide), List.dropWhile_cons_of_neg (by decide), List.tail_cons,
      List.takeWhile_append_of_pos hdigits, List.append_nil, String.ofList_toList,
      List.takeWhile_cons_of_neg (by decide), List.append_nil, Text.digits?_toString]

theorem isWord_lengthText (length : Option Nat) : IsWord (lengthText length) := by
  cases length with
  | none => decide
  | some n => exact .append (.append (by decide) (.of_isNumeral (isNumeral_toString n))) (by decide)

/-- The binary operator that is written so. -/
def Operator.ofSpelling? (word : String) : Option Operator :=
  [add, sub, mul, div, eq, ne, lt, le, gt, ge, and, or, bitAnd, bitOr, bitXor, shiftLeft, shiftRight].find?
    (·.spelling = word)

/-- An operator is told by its spelling. -/
theorem Operator.ofSpelling?_spelling (op : Operator) : ofSpelling? op.spelling = some op := by
  cases op <;> decide

theorem Operator.isWord_spelling (op : Operator) : IsWord op.spelling := by cases op <;> decide

/-- The operator with one operand that is written so. -/
def UnaryOperator.ofSpelling? (word : String) : Option UnaryOperator := [not, bitNot].find? (·.spelling = word)

/-- A unary operator is told by its spelling. -/
theorem UnaryOperator.ofSpelling?_spelling (op : UnaryOperator) : ofSpelling? op.spelling = some op := by
  cases op <;> decide

theorem UnaryOperator.isWord_spelling (op : UnaryOperator) : IsWord op.spelling := by cases op <;> decide

end ClockedC
