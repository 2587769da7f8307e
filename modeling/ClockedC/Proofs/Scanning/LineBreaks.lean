import ClockedC.Proofs.Scanning.RoundTrip

/-!
# Scanning line by line

A newline ends every piece that a text may end with, so nothing of the text before it reaches into the text behind it.
Two texts with a newline between them are scanned to what the first one gives and then to what the second one gives,
only further down.

* `scan_line_break` : two texts with a newline between them.
-/

namespace ClockedC

/-! ## Further down -/

/-- The location some lines further down, in the same column. -/
def Location.down (lines : Nat) (loc : Location) : Location := ⟨loc.line + lines, loc.column⟩

/-- The token some lines further down. -/
def Token.down (lines : Nat) (token : Token) : Token := { token with loc := token.loc.down lines }

/-- The diagnostic about what stands some lines further down. -/
def Diagnostic.down (lines : Nat) (d : Diagnostic) : Diagnostic := { d with loc := d.loc.map (.down lines) }

/-- The same error some lines further down. -/
def CompileError.down (lines : Nat) : CompileError → CompileError
  | lexical fault loc => .lexical fault (loc.down lines)
  | syntactic fault loc => .syntactic fault (loc.down lines)
  | outOfBounds index array size loc => .outOfBounds index array size (loc.down lines)
  | strayJump keyword loc => .strayJump keyword (loc.down lines)
  | declaration fault loc => .declaration fault (loc.down lines)

@[simp] theorem CompileError.message_down (lines : Nat) (e : CompileError) : (e.down lines).message = e.message := by
  cases e <;> rfl

@[simp] theorem CompileError.loc_down (lines : Nat) (e : CompileError) : (e.down lines).loc = e.loc.down lines := by
  cases e <;> rfl

/-- What is logged, with its place some lines further down. -/
def Event.down (lines : Nat) : Event → Event
  | reported d => .reported (d.down lines)
  | event => event

/-- Where the next character stands moves along. -/
theorem Location.next_down (lines : Nat) (loc : Location) (c : Char) :
    (loc.down lines).next c = (loc.next c).down lines := by
  unfold next down
  split
  · simp only [Location.mk.injEq, and_true]
    omega
  · rfl

/-- Where text ends moves along. -/
theorem Location.after_down (lines : Nat) (loc : Location) (cs : List Char) :
    (loc.down lines).after cs = (loc.after cs).down lines := by
  induction cs generalizing loc with
  | nil => rfl
  | cons c cs ih => rw [after_cons, next_down, ih, after_cons]

/-- A newline behind a text leads to the beginning of a line, below all lines of the text. -/
theorem Location.next_after_newline (cs : List Char) :
    (start.after cs).next '\n' = start.down (cs.count '\n' + 1) := by
  rw [after_start, next, if_pos rfl, down, start]
  simp only [Location.mk.injEq, and_true]
  omega

namespace Scan

/-- What was scanned, some lines further down. -/
def down (lines : Nat) (scan : Scan) : Scan where
  warnings := scan.warnings.map (.down lines)
  log := scan.log.map (.down lines)
  outcome :=
    match scan.outcome with
    | .ok stream => .ok ⟨stream.tokens.map (.down lines), stream.eof.down lines⟩
    | .error e => .error (e.down lines)

/-- A piece in front moves along. -/
theorem consPiece_down (lines : Nat) (loc : Location) (piece : Piece) (scan : Scan) :
    (scan.down lines).consPiece (loc.down lines) piece = (scan.consPiece loc piece).down lines := by
  obtain ⟨warnings, log, outcome⟩ := scan
  cases piece <;> cases outcome <;> rfl

/-- Where a text begins moves everything that is scanned. -/
theorem scanFrom_down (lines : Nat) (loc : Location) (cs : List Char) :
    scanFrom (loc.down lines) cs = (scanFrom loc cs).down lines := by
  fun_induction Piece.cut cs generalizing loc with
  | case1 =>
    rw [scanFrom, scanFrom]
    rfl
  | case2 c cs fault hfirst =>
    rw [scanFrom_cons_of_error hfirst, scanFrom_cons_of_error hfirst]
    rfl
  | case3 c cs piece rest hfirst _ ih =>
    rw [scanFrom_cons_of_ok hfirst, scanFrom_cons_of_ok hfirst, Location.after_down, ih, consPiece_down]

end Scan

/-! ## Pieces before a newline -/

namespace Piece

/-- A text without a newline is a line of its own. -/
theorem cutLine_of_not_mem {line : List Char} (h : '\n' ∉ line) : cutLine line = (line, []) := by
  have hdrop : line.dropWhile (· ≠ '\n') = [] := by
    rw [List.dropWhile_eq_nil_iff]
    intro c hc
    exact decide_eq_true fun heq => h (heq ▸ hc)
  rw [cutLine, hdrop]

/-- A line ends with the first newline. -/
theorem cutLine_append_cons {line : List Char} (h : '\n' ∉ line) (rest : List Char) :
    cutLine (line ++ '\n' :: rest) = (line ++ ['\n'], rest) := by
  have hline : ∀ c ∈ line, decide (c ≠ '\n') := fun c hc => decide_eq_true fun heq => h (heq ▸ hc)
  have hstops : ∀ c ∈ ('\n' :: rest).head?, decide (c ≠ '\n') = false := by
    rintro c ⟨⟩
    rfl
  rw [cutLine, dropWhile_append_of_stops hline hstops, takeWhile_append_of_stops hline hstops]

/-- A line is cut off before a newline that is added, or else the newline ends it. -/
theorem cutLine_append_newline (cs behind : List Char) :
    cutLine (cs ++ '\n' :: behind) = ((cutLine cs).1, (cutLine cs).2 ++ '\n' :: behind) ∨
      cutLine cs = (cs, []) ∧ cutLine (cs ++ '\n' :: behind) = (cs ++ ['\n'], behind) := by
  by_cases hmem : '\n' ∈ cs
  · obtain ⟨line, rest, rfl, hline⟩ := List.eq_append_cons_of_mem hmem
    left
    rw [List.append_assoc, List.cons_append, cutLine_append_cons hline, cutLine_append_cons hline]
  · right
    exact ⟨cutLine_of_not_mem hmem, cutLine_append_cons hmem behind⟩

/-- What stands behind a closed comment does not matter. -/
theorem cutComment_append_right {cs text rest : List Char} (h : cutComment cs = some (text, rest))
    (behind : List Char) : cutComment (cs ++ behind) = some (text, rest ++ behind) := by
  fun_induction cutComment cs generalizing text rest with
  | case1 => cases h
  | case2 tail =>
    cases h
    rfl
  | case3 c tail hmark ih =>
    obtain ⟨⟨text', rest'⟩, hcut, heq⟩ := Option.map_eq_some_iff.1 h
    cases heq
    rw [List.cons_append, cutComment, ih hcut]
    · rfl
    · -- the comment is not closed by what follows, as it is closed before
      intro tail' hc htail
      cases tail with
      | nil => cases hcut
      | cons d tail =>
        cases htail
        exact hmark tail hc rfl

/-- A comment begins with one of two marks and ends with its line or with a mark. -/
theorem first_eq_comment {c : Char} {cs text rest : List Char} (h : first c cs = .ok (.comment text, rest)) :
    (∃ tail, c = '/' ∧ cs = '/' :: tail ∧ cutLine (c :: cs) = (text, rest)) ∨
      ∃ tail inner, c = '/' ∧ cs = '*' :: tail ∧ cutComment tail = some (inner, rest) ∧
        text = '/' :: '*' :: inner := by
  unfold first at h
  repeat' split at h
  all_goals simp only [Except.ok.injEq, Prod.mk.injEq, Piece.comment.injEq, reduceCtorEq, false_and] at h
  · next hmark =>
    obtain ⟨rfl, rfl⟩ := h
    cases cs with
    | nil => simp at hmark
    | cons d tail => exact .inl ⟨tail, by simp_all⟩
  · next hmark _ inner rest' hcut =>
    obtain ⟨rfl, rfl⟩ := h
    cases cs with
    | nil => simp at hmark
    | cons d tail => exact .inr ⟨tail, inner, by simp_all⟩

/-- A directive begins with a hash and is the whole line. -/
theorem first_eq_directive {c : Char} {cs text rest : List Char} (h : first c cs = .ok (.directive text, rest)) :
    c = '#' ∧ cutLine (c :: cs) = (text, rest) := by
  unfold first at h
  repeat' split at h
  all_goals simp only [Except.ok.injEq, Prod.mk.injEq, Piece.directive.injEq, reduceCtorEq, false_and] at h
  next hmark =>
  obtain ⟨rfl, rfl⟩ := h
  exact ⟨hmark, rfl⟩

theorem first_lineComment (tail : List Char) :
    first '/' ('/' :: tail) = .ok (.comment (cutLine ('/' :: '/' :: tail)).1, (cutLine ('/' :: '/' :: tail)).2) := rfl

theorem first_blockComment {tail inner rest : List Char} (h : cutComment tail = some (inner, rest)) :
    first '/' ('*' :: tail) = .ok (.comment ('/' :: '*' :: inner), rest) := by
  have hblank : Text.isBlank '/' = false := by decide
  simp [first, hblank, h]

theorem first_directive (cs : List Char) :
    first '#' cs = .ok (.directive (cutLine ('#' :: cs)).1, (cutLine ('#' :: cs)).2) := rfl

/-- A newline leaves the pieces before it as they are, unless it ends a line that nothing else has ended. The line says
the same with its newline and without. -/
theorem first_append_newline {c : Char} {cs rest : List Char} {piece : Piece} (h : first c cs = .ok (piece, rest))
    (behind : List Char) :
    first c (cs ++ '\n' :: behind) = .ok (piece, rest ++ '\n' :: behind) ∨
      rest = [] ∧ ∃ line, first c (cs ++ '\n' :: behind) = .ok (line, behind) ∧ line.text = piece.text ++ ['\n'] ∧
        ∀ loc scan, Scan.consPiece loc line scan = Scan.consPiece loc piece scan := by
  have htext := text_append_rest h
  cases piece with
  | lexeme l text =>
    obtain ⟨rfl, hproper, hmaximal⟩ := fits_of_first h
    obtain ⟨d, ds, hspelling⟩ := hproper.exists_spelling_eq
    rw [text, hspelling] at htext
    obtain ⟨rfl, rfl⟩ := List.cons.inj htext
    left
    -- a newline goes on with no lexeme
    rw [List.append_eq, List.append_assoc]
    exact first_of_isProper hproper (hmaximal.append_blank Text.isBlank_newline behind) hspelling
  | blank d =>
    obtain ⟨rfl, rfl⟩ := List.cons.inj htext
    left
    exact first_blank (fits_of_first h) _
  | comment text =>
    obtain ⟨tail, rfl, rfl, hcut⟩ | ⟨tail, inner, rfl, rfl, hcut, rfl⟩ := first_eq_comment h
    · rw [List.cons_append, first_lineComment]
      obtain hline | ⟨hline, hended⟩ := cutLine_append_newline ('/' :: '/' :: tail) behind
      · left
        rw [List.cons_append, List.cons_append, hcut] at hline
        rw [hline]
      · right
        obtain ⟨rfl, rfl⟩ := Prod.mk.inj (hcut.symm.trans hline)
        rw [List.cons_append, List.cons_append] at hended
        exact ⟨rfl, .comment ('/' :: '/' :: tail ++ ['\n']), by rw [hended], rfl, fun _ _ => rfl⟩
    · left
      -- a comment between marks is closed before the newline
      rw [List.cons_append]
      exact first_blockComment (cutComment_append_right hcut _)
  | directive text =>
    obtain ⟨rfl, hcut⟩ := first_eq_directive h
    rw [first_directive]
    obtain hline | ⟨hline, hended⟩ := cutLine_append_newline ('#' :: cs) behind
    · left
      rw [List.cons_append, hcut] at hline
      rw [hline]
    · right
      obtain ⟨rfl, rfl⟩ := Prod.mk.inj (hcut.symm.trans hline)
      rw [List.cons_append] at hended
      refine ⟨rfl, .directive ('#' :: cs ++ ['\n']), by rw [hended], rfl, ?_⟩
      -- blanks at the end of a directive are not part of its warning
      intro loc scan
      rw [Scan.consPiece, Scan.consPiece, Text.trimEnd_append_blank _ Text.isBlank_newline]

end Piece

/-! ## Texts with a newline between them -/

namespace Scan

/-- What was scanned, behind the warnings, the log and the tokens of a text before. -/
def behind (warnings : List Diagnostic) (log : List Event) (tokens : List Token) (scan : Scan) : Scan where
  warnings := warnings ++ scan.warnings
  log := log ++ scan.log
  outcome := scan.outcome.map fun stream => { stream with tokens := tokens ++ stream.tokens }

@[simp] theorem behind_nil (scan : Scan) : scan.behind [] [] [] = scan := by
  obtain ⟨warnings, log, outcome⟩ := scan
  cases outcome <;> rfl

/-- A piece stands before what is scanned later as it stands before what is scanned directly behind it. -/
theorem exists_of_consPiece_ok {loc : Location} {piece : Piece} {scan : Scan} {stream : TokenStream}
    (h : (scan.consPiece loc piece).outcome = .ok stream) :
    ∃ stream', scan.outcome = .ok stream' ∧ ∀ later : Scan,
      (later.behind scan.warnings scan.log stream'.tokens).consPiece loc piece =
        later.behind (scan.consPiece loc piece).warnings (scan.consPiece loc piece).log stream.tokens := by
  cases piece with
  | lexeme l text =>
    obtain ⟨stream', hscan, rfl⟩ := consToken_outcome_eq_ok h
    refine ⟨stream', hscan, ?_⟩
    rintro ⟨warnings, log, outcome⟩
    cases outcome <;> rfl
  | directive text => exact ⟨stream, h, fun later => rfl⟩
  | blank c => exact ⟨stream, h, fun later => rfl⟩
  | comment text => exact ⟨stream, h, fun later => rfl⟩

/-- A newline separates what is scanned before it from what is scanned behind it. -/
theorem scanFrom_append_newline {loc : Location} {cs : List Char} {stream : TokenStream}
    (h : (scanFrom loc cs).outcome = .ok stream) (ds : List Char) :
    scanFrom loc (cs ++ '\n' :: ds) =
      (scanFrom ((loc.after cs).next '\n') ds).behind (scanFrom loc cs).warnings (scanFrom loc cs).log
        stream.tokens := by
  fun_induction Piece.cut cs generalizing loc stream with
  | case1 =>
    rw [scanFrom] at h
    cases h
    rw [List.nil_append, scanFrom_blank _ Text.isBlank_newline, scanFrom, behind_nil, Location.after_nil]
  | case2 c cs fault hfirst =>
    rw [scanFrom_cons_of_error hfirst] at h
    cases h
  | case3 c cs piece rest hfirst _ ih =>
    have hafter : loc.after (c :: cs) = (loc.after piece.text).after rest := by
      rw [← Piece.text_append_rest hfirst, Location.after_append]
    rw [scanFrom_cons_of_ok hfirst] at h ⊢
    obtain ⟨stream', hstream', hbehind⟩ := exists_of_consPiece_ok h
    rw [List.cons_append, hafter, ← hbehind]
    obtain hnext | ⟨rfl, line, hnext, hline, hsame⟩ := Piece.first_append_newline hfirst ds
    · rw [scanFrom_cons_of_ok hnext, ih hstream']
    · -- the newline belongs to the piece, which was the last one of the text
      rw [scanFrom] at hstream'
      cases hstream'
      rw [scanFrom_cons_of_ok hnext, hline, Location.after_append, hsame, scanFrom, behind_nil]
      rfl

end Scan

/-- Two texts with a newline between them, the first of which can be scanned, are scanned to the tokens and warnings of
the first and those of the second, which stand below the lines of the first. What is wrong in the second text is said in
the same words, and found below them too. -/
theorem scan_line_break {a : String} {stream : TokenStream} (h : (Scan.ofSource a).outcome = .ok stream) (b : String) :
    let below := a.toList.count '\n' + 1
    let joined := Scan.ofSource (a ++ "\n" ++ b)
    joined.warnings = (Scan.ofSource a).warnings ++ (Scan.ofSource b).warnings.map (.down below) ∧
      (∀ stream', (Scan.ofSource b).outcome = .ok stream' →
        joined.outcome = .ok ⟨stream.tokens ++ stream'.tokens.map (.down below), stream'.eof.down below⟩) ∧
      ∀ e, (Scan.ofSource b).outcome = .error e →
        joined.outcome = .error (e.down below) ∧ (e.down below).message = e.message ∧
          (e.down below).loc = e.loc.down below := by
  intro below joined
  have htext : (a ++ "\n" ++ b).toList = a.toList ++ '\n' :: b.toList := by
    rw [String.toList_append, String.toList_append, List.append_assoc]
    rfl
  have hjoined : joined = ((Scan.ofSource b).down below).behind (Scan.ofSource a).warnings (Scan.ofSource a).log
      stream.tokens := by
    have hscan := Scan.scanFrom_append_newline h b.toList
    rwa [Location.next_after_newline, Scan.scanFrom_down, ← htext] at hscan
  refine ⟨?_, ?_, ?_⟩
  · rw [hjoined]
    rfl
  · intro stream' hb
    rw [hjoined, Scan.behind, Scan.down, hb]
    rfl
  · intro e hb
    refine ⟨?_, e.message_down below, e.loc_down below⟩
    rw [hjoined, Scan.behind, Scan.down, hb]
    rfl

/-- A text with a string literal over two lines, which ends within a directive. -/
def openDirectiveSource : String := "x=\"\\\n\"#off "

/-- A text with a directive and a character that begins no piece. -/
def strayCharacterSource : String := "#on\ny@"

theorem scan_line_break_strayCharacterSource :
    (∃ stream, (Scan.ofSource openDirectiveSource).outcome = .ok stream) ∧
      (Scan.ofSource (openDirectiveSource ++ "\n" ++ strayCharacterSource)).outcome =
        .error (.lexical (.unexpected '@') ⟨4, 2⟩) ∧
      (Scan.ofSource (openDirectiveSource ++ "\n" ++ strayCharacterSource)).warnings.map (fun d => (d.message, d.loc)) =
        [("Preprocessor directive ignored: #off", some ⟨2, 2⟩),
          ("Preprocessor directive ignored: #on", some ⟨3, 1⟩)] := by
  have hlexemes : (Scan.ofSource openDirectiveSource).lexemes? =
      some [.identifier "x", .symbol .assign, .string "\\\n"] := by decide +kernel
  obtain ⟨stream, hstream, -⟩ := Scan.lexemes?_eq_some hlexemes
  obtain ⟨hwarnings, -, hfails⟩ := scan_line_break hstream strayCharacterSource
  have hfault : (Scan.ofSource strayCharacterSource).outcome = .error (.lexical (.unexpected '@') ⟨2, 2⟩) := by
    decide +kernel
  have hbelow : openDirectiveSource.toList.count '\n' + 1 = 2 := by decide +kernel
  refine ⟨⟨stream, hstream⟩, ?_, ?_⟩
  · rw [(hfails _ hfault).1, hbelow]
    rfl
  · rw [hwarnings]
    decide +kernel

end ClockedC
