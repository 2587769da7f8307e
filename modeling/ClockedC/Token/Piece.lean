import ClockedC.Diagnostic.Fault
import ClockedC.Text.Blank

/-!
# Pieces of a source text

A source text is a sequence of pieces: blanks, comments, directives and lexemes. `Piece.first` cuts the first
piece off a text.

* `Piece.text_append_rest` : a piece and the rest make up the text;
* `Piece.length_rest_lt` : the rest is shorter than the text.
-/

namespace ClockedC

/-- A stretch of source text that belongs together. -/
inductive Piece where
  | blank (c : Char)
  /-- A comment, its marks and a closing newline included. -/
  | comment (text : List Char)
  /-- A line that begins with a hash sign, its newline included. -/
  | directive (text : List Char)
  /-- A lexeme and the text it is read from. -/
  | lexeme (lexeme : Lexeme) (text : List Char)
  deriving DecidableEq, Repr

namespace Piece

/-- The characters of a piece. -/
def text : Piece → List Char
  | blank c => [c]
  | comment cs => cs
  | directive cs => cs
  | lexeme _ cs => cs

/-! ## Stretches -/

/-- Cuts a text after its first newline. -/
def cutLine (cs : List Char) : List Char × List Char :=
  match cs.dropWhile (· ≠ '\n') with
  | [] => (cs, [])
  | c :: rest => (cs.takeWhile (· ≠ '\n') ++ [c], rest)

/-- Cuts a text after the first mark that closes a comment, if there is one. -/
def cutComment : List Char → Option (List Char × List Char)
  | [] => none
  | '*' :: '/' :: rest => some (['*', '/'], rest)
  | c :: rest => (cutComment rest).map fun (text, rest) => (c :: text, rest)

/-- Cuts a text after the quote that ends a string literal. A backslash takes the next character with it; a
newline that no backslash takes, or the end of the text, leaves the literal open. -/
def cutString : List Char → Option (List Char × List Char)
  | [] => none
  | '"' :: rest => some (['"'], rest)
  | '\n' :: _ => none
  | '\\' :: c :: rest => (cutString rest).map fun (text, rest) => ('\\' :: c :: text, rest)
  | c :: rest => (cutString rest).map fun (text, rest) => (c :: text, rest)

/-- Whether a character may begin a word. -/
def isWordStart (c : Char) : Bool := c.isAlpha || c = '_'

/-- Whether a character may stand inside a word. -/
def isWordPart (c : Char) : Bool := c.isAlphanum || c = '_'

/-- Whether a character may stand inside a numeral. -/
def isNumeralPart (c : Char) : Bool := c.isDigit || c = '.'

/-- The lexeme of a word: a keyword or an identifier. -/
def ofWord (word : String) : Lexeme :=
  match Keyword.ofSpelling? word with
  | some keyword => .keyword keyword
  | none => .identifier word

/-! ## The first piece -/

/-- The first piece of the text `c :: cs`, and the rest of the text. -/
def first (c : Char) (cs : List Char) : Except LexicalFault (Piece × List Char) :=
  if Text.isBlank c then
    .ok (.blank c, cs)
  else if c = '/' && cs.head? = some '/' then
    .ok (.comment (cutLine (c :: cs)).1, (cutLine (c :: cs)).2)
  else if c = '/' && cs.head? = some '*' then
    match cutComment cs.tail with
    | some (text, rest) => .ok (.comment ('/' :: '*' :: text), rest)
    | none => .error .openComment
  else if c = '#' then
    .ok (.directive (cutLine (c :: cs)).1, (cutLine (c :: cs)).2)
  else if c = '"' then
    match cutString cs with
    | some (text, rest) => .ok (.lexeme (.string (String.ofList text.dropLast)) ('"' :: text), rest)
    | none => .error .openString
  else if c.isDigit then
    let text := c :: cs.takeWhile isNumeralPart
    .ok (.lexeme (.number (String.ofList text)) text, cs.dropWhile isNumeralPart)
  else if isWordStart c then
    let text := c :: cs.takeWhile isWordPart
    .ok (.lexeme (ofWord (String.ofList text)) text, cs.dropWhile isWordPart)
  else
    match Symbol.leading? (c :: cs) with
    | some symbol =>
      let text := symbol.spelling.toList
      .ok (.lexeme (.symbol symbol) text, (c :: cs).drop text.length)
    | none => .error (.unexpected c)

/-! ## A piece and the rest make up the text -/

theorem cutLine_append (cs : List Char) : (cutLine cs).1 ++ (cutLine cs).2 = cs := by
  unfold cutLine
  split
  · simp
  · next c rest h =>
    have := List.takeWhile_append_dropWhile (p := (· ≠ '\n')) (l := cs)
    simp_all

theorem cutComment_append {cs text rest : List Char} (h : cutComment cs = some (text, rest)) :
    text ++ rest = cs := by
  fun_induction cutComment cs generalizing text rest with
  | case1 => simp at h
  | case2 tail => grind
  | case3 c tail _ ih =>
    obtain ⟨⟨t, r⟩, hcut, heq⟩ := Option.map_eq_some_iff.1 h
    have := ih hcut
    grind

theorem cutString_append {cs text rest : List Char} (h : cutString cs = some (text, rest)) :
    text ++ rest = cs := by
  fun_induction cutString cs generalizing text rest with
  | case1 => simp at h
  | case2 tail => grind
  | case3 => simp at h
  | case4 c tail ih =>
    obtain ⟨⟨t, r⟩, hcut, heq⟩ := Option.map_eq_some_iff.1 h
    have := ih hcut
    grind
  | case5 c tail _ _ _ ih =>
    obtain ⟨⟨t, r⟩, hcut, heq⟩ := Option.map_eq_some_iff.1 h
    have := ih hcut
    grind

/-- A piece and the rest make up the text. -/
theorem text_append_rest {c : Char} {cs rest : List Char} {piece : Piece}
    (h : first c cs = .ok (piece, rest)) : piece.text ++ rest = c :: cs := by
  unfold first at h
  repeat' split at h
  all_goals first
    | contradiction
    | obtain ⟨rfl, rfl⟩ := Prod.mk.inj (Except.ok.inj h)
  · rfl
  · exact cutLine_append _
  · next hmark _ _ hcut =>
    obtain ⟨tail, rfl⟩ : ∃ tail, cs = '*' :: tail := by
      cases cs <;> simp_all
    have := cutComment_append hcut
    simp_all [text]
  · exact cutLine_append _
  · next hquote _ _ hcut =>
    have := cutString_append hcut
    simp_all [text]
  · simp [text]
  · simp [text]
  · next hsymbol =>
    obtain ⟨tail, htail⟩ := Symbol.spelling_isPrefixOf_of_leading? hsymbol
    simp [text, ← htail]

/-- A text that begins with a character has a nonempty first line. -/
theorem cutLine_cons_ne_nil (c : Char) (cs : List Char) : (cutLine (c :: cs)).1 ≠ [] := by
  unfold cutLine
  split <;> simp

/-- No piece is empty. -/
theorem text_ne_nil {c : Char} {cs rest : List Char} {piece : Piece}
    (h : first c cs = .ok (piece, rest)) : piece.text ≠ [] := by
  unfold first at h
  repeat' split at h
  all_goals first
    | contradiction
    | obtain ⟨rfl, rfl⟩ := Prod.mk.inj (Except.ok.inj h)
  · simp [text]
  · exact cutLine_cons_ne_nil c cs
  · simp [text]
  · exact cutLine_cons_ne_nil c cs
  · simp [text]
  · simp [text]
  · simp [text]
  · next symbol _ => exact Symbol.spelling_ne_nil symbol

/-- The rest is shorter than the text. -/
theorem length_rest_lt {c : Char} {cs rest : List Char} {piece : Piece}
    (h : first c cs = .ok (piece, rest)) : rest.length < (c :: cs).length := by
  have hlen := congrArg List.length (text_append_rest h)
  have hpos := List.length_pos_iff.2 (text_ne_nil h)
  simp only [List.length_append] at hlen
  omega

end Piece

end ClockedC
