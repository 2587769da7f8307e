import Mathlib
import ClockedC.Token.Stream

/-!
# The pieces of a text

Scanning cuts a text into pieces and keeps the lexemes among them, so what holds of every piece that can be cut off a
text holds of every token.
-/

namespace ClockedC

variable {c : Char} {loc : Location} {cs rest : List Char} {lexemes : List Lexeme}

/-! ## Pieces of a text -/

namespace Piece

/-- The lexeme of a piece that has one. -/
def lexeme? : Piece → Option Lexeme
  | lexeme l _ => some l
  | _ => none

/-- Whether a piece is a blank or a comment. -/
def isTrivia : Piece → Bool
  | blank _ => true
  | comment _ => true
  | _ => false

/-- The pieces of a text, or what keeps it from being cut into pieces. -/
def cut : List Char → Except LexicalFault (List Piece)
  | [] => .ok []
  | c :: cs =>
    match h : first c cs with
    | .error fault => .error fault
    | .ok (piece, rest) =>
      have := length_rest_lt h
      (cut rest).map (piece :: ·)
termination_by cs => cs.length
decreasing_by exact this

theorem lexeme?_eq_none_of_isTrivia {piece : Piece} (h : piece.isTrivia) : piece.lexeme? = none := by
  cases piece with
  | lexeme l text => simp [isTrivia] at h
  | _ => rfl

/-- Blanks and comments hold no lexeme. -/
theorem filterMap_lexeme?_filter (pieces : List Piece) :
    (pieces.filter (!·.isTrivia)).filterMap lexeme? = pieces.filterMap lexeme? := by
  induction pieces with
  | nil => rfl
  | cons piece pieces ih =>
    by_cases h : piece.isTrivia
    · rw [List.filter_cons_of_neg (by simp [h]), List.filterMap_cons_none (lexeme?_eq_none_of_isTrivia h), ih]
    · rw [List.filter_cons_of_pos (by simp [h]), List.filterMap_cons, List.filterMap_cons, ih]

end Piece

/-! ## What scanning gives -/

namespace Scan

/-- The lexemes of a text that can be scanned. -/
def lexemes? (scan : Scan) : Option (List Lexeme) :=
  scan.outcome.toOption.map fun stream => stream.tokens.map (·.lexeme)

/-- Lexemes are there if the text can be scanned. -/
theorem lexemes?_eq_some {scan : Scan} (h : scan.lexemes? = some lexemes) :
    ∃ stream, scan.outcome = .ok stream ∧ stream.tokens.map (·.lexeme) = lexemes := by
  obtain ⟨warnings, log, outcome⟩ := scan
  cases outcome with
  | error e => simp [lexemes?, Except.toOption] at h
  | ok stream => exact ⟨stream, rfl, by simpa [lexemes?, Except.toOption] using h⟩

theorem lexemes?_consPiece (loc : Location) (piece : Piece) (scan : Scan) :
    (scan.consPiece loc piece).lexemes? = scan.lexemes?.map (piece.lexeme?.toList ++ ·) := by
  obtain ⟨warnings, log, outcome⟩ := scan
  cases piece <;> cases outcome <;> rfl

theorem scanFrom_cons_of_error {fault : LexicalFault} (h : Piece.first c cs = .error fault) :
    scanFrom loc (c :: cs) = ⟨[], [], .error (.lexical fault loc)⟩ := by
  rw [scanFrom]
  split <;> simp_all

theorem scanFrom_cons_of_ok {piece : Piece} (h : Piece.first c cs = .ok (piece, rest)) :
    scanFrom loc (c :: cs) = consPiece loc piece (scanFrom (loc.after piece.text) rest) := by
  rw [scanFrom]
  split <;> simp_all

/-- Every warning has been logged when it was given, and nothing else has. -/
theorem log_scanFrom (loc : Location) (cs : List Char) :
    (scanFrom loc cs).log = (scanFrom loc cs).warnings.map .reported := by
  fun_induction Piece.cut cs generalizing loc with
  | case1 =>
    rw [scanFrom]
    rfl
  | case2 c cs fault hfirst =>
    rw [scanFrom_cons_of_error hfirst]
    rfl
  | case3 c cs piece rest hfirst _ ih =>
    rw [scanFrom_cons_of_ok hfirst]
    cases piece with
    | directive text =>
      rw [consPiece, consWarning, ih]
      rfl
    | _ => exact ih _

/-- The tokens of a text are the lexemes among its pieces. -/
theorem lexemes?_scanFrom (loc : Location) (cs : List Char) :
    (scanFrom loc cs).lexemes? = (Piece.cut cs).toOption.map (·.filterMap Piece.lexeme?) := by
  fun_induction Piece.cut cs generalizing loc with
  | case1 =>
    rw [scanFrom]
    rfl
  | case2 c cs fault hfirst =>
    rw [scanFrom_cons_of_error hfirst]
    rfl
  | case3 c cs piece rest hfirst _ ih =>
    rw [scanFrom_cons_of_ok hfirst, lexemes?_consPiece, ih]
    cases Piece.cut rest with
    | error fault => rfl
    | ok pieces => cases piece <;> rfl

end Scan

/-- Every piece of a text is the first piece of some text. -/
theorem Piece.exists_first_of_mem_cut {pieces : List Piece} (h : cut cs = .ok pieces) :
    ∀ piece ∈ pieces, ∃ c cs' rest, first c cs' = .ok (piece, rest) := by
  fun_induction cut cs generalizing pieces with
  | case1 =>
    cases h
    simp
  | case2 c cs fault hfirst => cases h
  | case3 c cs piece rest hfirst _ ih =>
    cases hcut : cut rest with
    | error fault => simp [hcut, Except.map] at h
    | ok pieces' =>
      simp only [hcut, Except.map, Except.ok.injEq] at h
      subst h
      exact List.forall_mem_cons.2 ⟨⟨c, cs, rest, hfirst⟩, ih hcut⟩

/-- Every token of a text is the first lexeme of some text. -/
theorem Scan.exists_first_of_mem {lexeme : Lexeme} (h : (scanFrom loc cs).lexemes? = some lexemes)
    (hmem : lexeme ∈ lexemes) : ∃ c cs' text rest, Piece.first c cs' = .ok (.lexeme lexeme text, rest) := by
  rw [lexemes?_scanFrom] at h
  cases hcut : Piece.cut cs with
  | error fault => simp [hcut, Except.toOption] at h
  | ok pieces =>
    simp only [hcut, Except.toOption, Option.map_some, Option.some.injEq] at h
    subst h
    obtain ⟨piece, hpiece, hlexeme⟩ := List.mem_filterMap.1 hmem
    obtain ⟨c, cs', rest, hfirst⟩ := Piece.exists_first_of_mem_cut hcut piece hpiece
    cases piece with
    | lexeme l text =>
      cases hlexeme
      exact ⟨c, cs', text, rest, hfirst⟩
    | _ => cases hlexeme

/-! ## Numerals -/

/-- Whether a text can be scanned as a numeral: a digit, and then digits and points. -/
def isNumeral (text : String) : Bool :=
  match text.toList with
  | [] => false
  | c :: cs => c.isDigit && cs.all Piece.isNumeralPart

/-- The digits of a number are a numeral. -/
theorem isNumeral_toString (n : Nat) : isNumeral (toString n) := by
  have hlist : (toString n).toList = Nat.toDigits 10 n := by
    rw [Nat.toString_eq_ofList_toDigits, String.toList_ofList]
  have hdigit : ∀ c ∈ Nat.toDigits 10 n, c.isDigit :=
    fun c hc => Nat.isDigit_of_mem_toDigits (by decide) (by decide) hc
  rw [isNumeral, hlist]
  cases hdigits : Nat.toDigits 10 n with
  | nil => exact absurd hdigits Nat.toDigits_ne_nil
  | cons c cs =>
    rw [hdigits, List.forall_mem_cons] at hdigit
    simp only [hdigit.1, Bool.true_and, List.all_eq_true]
    intro d hd
    simp [Piece.isNumeralPart, hdigit.2 d hd]

/-- A piece that is a number is a numeral. -/
theorem Piece.isNumeral_of_first {text : List Char} {number : String}
    (h : first c cs = .ok (.lexeme (.number number) text, rest)) : isNumeral number := by
  unfold first at h
  repeat' split at h
  all_goals simp only [Except.ok.injEq, Prod.mk.injEq, Piece.lexeme.injEq, Lexeme.number.injEq, reduceCtorEq,
    false_and] at h
  · next hdigit =>
    obtain ⟨⟨rfl, -⟩, -⟩ := h
    simp [isNumeral, hdigit]
  · obtain ⟨⟨h, -⟩, -⟩ := h
    unfold ofWord at h
    split at h <;> cases h

/-- The numbers among the tokens of a text are numerals. -/
theorem Scan.isNumeral_of_mem {number : String} (h : (scanFrom loc cs).lexemes? = some lexemes)
    (hmem : .number number ∈ lexemes) : isNumeral number := by
  obtain ⟨c, cs', text, rest, hfirst⟩ := exists_first_of_mem h hmem
  exact Piece.isNumeral_of_first hfirst

/-! ## Identifiers -/

/-- Whether a text can be scanned as an identifier: a word that is no keyword. -/
def isIdentifier (text : String) : Bool :=
  match text.toList with
  | [] => false
  | c :: cs => Piece.isWordStart c && cs.all Piece.isWordPart && (Keyword.ofSpelling? text).isNone

/-- A piece that is a name is an identifier. -/
theorem Piece.isIdentifier_of_first {text : List Char} {name : String}
    (h : first c cs = .ok (.lexeme (.identifier name) text, rest)) : isIdentifier name := by
  unfold first at h
  repeat' split at h
  all_goals simp only [Except.ok.injEq, Prod.mk.injEq, Piece.lexeme.injEq, reduceCtorEq, false_and] at h
  · next hstart =>
    obtain ⟨⟨h, -⟩, -⟩ := h
    unfold ofWord at h
    split at h
    · cases h
    · next hkeyword =>
      cases h
      rw [isIdentifier, String.toList_ofList, hkeyword]
      simp [hstart]

/-- The names among the tokens of a text are identifiers. -/
theorem Scan.isIdentifier_of_mem {name : String} (h : (scanFrom loc cs).lexemes? = some lexemes)
    (hmem : .identifier name ∈ lexemes) : isIdentifier name := by
  obtain ⟨c, cs', text, rest, hfirst⟩ := exists_first_of_mem h hmem
  exact Piece.isIdentifier_of_first hfirst

/-! ## The mark of the end -/

/-- No piece is the mark of the end. -/
theorem Piece.first_ne_eof {text : List Char} : first c cs ≠ .ok (.lexeme .eof text, rest) := by
  intro h
  unfold first at h
  repeat' split at h
  all_goals simp only [Except.ok.injEq, Prod.mk.injEq, Piece.lexeme.injEq, reduceCtorEq, false_and] at h
  obtain ⟨⟨h, -⟩, -⟩ := h
  unfold ofWord at h
  split at h <;> cases h

/-- The mark of the end is not among the tokens of a text. -/
theorem Scan.eof_not_mem (h : (scanFrom loc cs).lexemes? = some lexemes) : .eof ∉ lexemes := by
  intro hmem
  obtain ⟨c, cs', text, rest, hfirst⟩ := exists_first_of_mem h hmem
  exact Piece.first_ne_eof hfirst

end ClockedC
