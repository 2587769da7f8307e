import ClockedC.Diagnostic.CompileError
import ClockedC.Diagnostic.Warning
import ClockedC.Log
import ClockedC.Token.Piece

/-!
# Token streams

A token stream is tokens with a mark of the end behind them. A list of tokens may hold more such marks: reading
stops at the first.

* `TokenStream.ofTokens` : the stream of a list of tokens;
* `TokenStream.front`, `TokenStream.ending` : what stands before the first mark of the end, and what follows;
* `Scan.ofSource` : the stream of a source text, with the warnings given and logged on the way.
-/

namespace ClockedC

/-- Tokens up to an end. -/
structure TokenStream where
  tokens : List Token
  /-- The location of the end. -/
  eof : Location
  deriving DecidableEq, Repr

namespace TokenStream

/-- The tokens of a stream with the mark of its end. -/
def toList (stream : TokenStream) : List Token :=
  stream.tokens ++ [⟨.eof, stream.eof⟩]

/-- The stream of a list of tokens. A mark of the end that the list lacks stands at the location of its last token. -/
def ofTokens (tokens : List Token) : TokenStream :=
  match tokens.getLast? with
  | some ⟨.eof, loc⟩ => ⟨tokens.dropLast, loc⟩
  | some ⟨_, loc⟩ => ⟨tokens, loc⟩
  | none => ⟨[], .nowhere⟩

/-- The tokens before the first mark of the end. -/
def front (stream : TokenStream) : List Token := stream.tokens.takeWhile (·.lexeme ≠ .eof)

/-- The first mark of the end, and the tokens behind it. -/
def ending (stream : TokenStream) : List Token := stream.toList.dropWhile (·.lexeme ≠ .eof)

/-! ### Lists of tokens -/

/-- A list of tokens without a mark of the end is given one. -/
theorem tokens_ofTokens {tokens : List Token} (h : .eof ∉ tokens.map (·.lexeme)) :
    (ofTokens tokens).tokens = tokens := by
  unfold ofTokens
  split
  · next loc hlast => exact absurd (List.mem_map.2 ⟨_, List.mem_of_getLast? hlast, rfl⟩) h
  · rfl
  · next hnone => exact (List.getLast?_eq_none_iff.1 hnone).symm

/-- Nothing but a mark of the end is put behind a list of tokens. -/
theorem exists_toList_ofTokens (tokens : List Token) : ∃ more, (ofTokens tokens).toList = tokens ++ more := by
  unfold ofTokens
  split
  · next loc hlast =>
    obtain ⟨before, rfl⟩ := List.getLast?_eq_some_iff.1 hlast
    exact ⟨[], by rw [List.dropLast_concat, List.append_nil]; rfl⟩
  · exact ⟨_, rfl⟩
  · next hnone =>
    rw [List.getLast?_eq_none_iff.1 hnone]
    exact ⟨_, rfl⟩

theorem takeWhile_append_eof (tokens more : List Token) (loc : Location) :
    (tokens ++ ⟨.eof, loc⟩ :: more).takeWhile (·.lexeme ≠ .eof) = tokens.takeWhile (·.lexeme ≠ .eof) := by
  induction tokens with
  | nil => simp
  | cons t ts ih => rw [List.cons_append, List.takeWhile_cons, List.takeWhile_cons, ih]

theorem front_eq_takeWhile_toList (stream : TokenStream) :
    stream.front = stream.toList.takeWhile (·.lexeme ≠ .eof) := (takeWhile_append_eof ..).symm

/-- What stands before the first mark of the end is the same whether the list has a mark as its last token or not. -/
theorem front_ofTokens (tokens : List Token) : (ofTokens tokens).front = tokens.takeWhile (·.lexeme ≠ .eof) := by
  unfold ofTokens
  split
  · next loc hlast =>
    obtain ⟨before, rfl⟩ := List.getLast?_eq_some_iff.1 hlast
    rw [takeWhile_append_eof, List.dropLast_concat]
    rfl
  · rfl
  · next hnone =>
    rw [List.getLast?_eq_none_iff.1 hnone]
    rfl

/-- The ending of a stream begins with a mark of the end. -/
theorem exists_ending_eq_cons (stream : TokenStream) : ∃ loc more, stream.ending = ⟨.eof, loc⟩ :: more := by
  obtain ⟨tokens, eof⟩ := stream
  rw [ending, toList]
  induction tokens with
  | nil => exact ⟨eof, [], by simp⟩
  | cons t ts ih =>
    rw [List.cons_append, List.dropWhile_cons]
    split
    · exact ih
    · next hlexeme =>
      obtain ⟨lexeme, loc⟩ := t
      obtain rfl : lexeme = .eof := by simpa using hlexeme
      exact ⟨loc, _, rfl⟩

end TokenStream

/-! ## Scanning -/

/-- What scanning a source text gives: the warnings on the way, what is logged with them, and the stream or the error
that stopped it. -/
structure Scan where
  warnings : List Diagnostic
  log : List Event
  outcome : Except CompileError TokenStream

namespace Scan

/-- Puts a token in front of the stream. -/
def consToken (token : Token) (scan : Scan) : Scan :=
  { scan with outcome := scan.outcome.map fun stream => { stream with tokens := token :: stream.tokens } }

/-- Logs a warning and keeps it, both in front of what comes later. -/
def consWarning (warning : Diagnostic) (scan : Scan) : Scan :=
  { scan with warnings := warning :: scan.warnings, log := .reported warning :: scan.log }

/-- Puts what a piece at `loc` contributes in front of the rest: a lexeme is a token, a directive is a warning,
blanks and comments are nothing. -/
def consPiece (loc : Location) (piece : Piece) (scan : Scan) : Scan :=
  match piece with
  | .lexeme lexeme _ => scan.consToken ⟨lexeme, loc⟩
  | .directive text =>
    scan.consWarning ((Warning.directive (String.ofList (Text.trimEnd text))).diagnostic loc)
  | .blank _ => scan
  | .comment _ => scan

/-- Scans the text that begins at `loc`. -/
def scanFrom (loc : Location) : List Char → Scan
  | [] => ⟨[], [], .ok ⟨[], loc⟩⟩
  | c :: cs =>
    match h : Piece.first c cs with
    | .error fault => ⟨[], [], .error (.lexical fault loc)⟩
    | .ok (piece, rest) =>
      have := Piece.length_rest_lt h
      consPiece loc piece (scanFrom (loc.after piece.text) rest)
termination_by cs => cs.length
decreasing_by exact this

/-- Scans a source text. -/
def ofSource (source : String) : Scan := scanFrom .start source.toList

end Scan

end ClockedC
