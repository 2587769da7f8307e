import ClockedC.Proofs.Scanning.Pieces

/-!
# Tokens tile a text

A text that can be scanned is made up of the spans of its tokens and of what fills the gaps between them: blanks,
comments and directives. Where a span begins tells the location of its token, and no span could be longer.

* `lexical_tiling` : spans and gaps make up the text.
-/

namespace ClockedC

variable {c : Char} {cs rest text : List Char}

/-! ## Locations by offset -/

namespace Location

/-- The location of an offset: one line for every newline before it, one column for every character since the last
newline, both counted from one. -/
def ofOffset (text : List Char) (offset : Nat) : Location where
  line := 1 + (text.take offset).count '\n'
  column := 1 + ((text.take offset).reverse.takeWhile (· ≠ '\n')).length

/-- Following a text from its beginning counts its newlines and the characters since the last one. -/
theorem after_start (cs : List Char) :
    start.after cs = ⟨1 + cs.count '\n', 1 + (cs.reverse.takeWhile (· ≠ '\n')).length⟩ := by
  induction cs using List.reverseRecOn with
  | nil => rfl
  | append_singleton cs c ih =>
    rw [after_append, ih, after_cons, after_nil, next, List.reverse_concat, List.count_append, List.takeWhile_cons]
    by_cases h : c = '\n'
    · simp [h, Nat.add_assoc]
    · simp [h, Nat.add_assoc]

theorem ofOffset_eq_after (text : List Char) (offset : Nat) : ofOffset text offset = start.after (text.take offset) :=
  (after_start _).symm

/-- A stretch of a text leads from the location of its beginning to that of its end. -/
theorem after_ofOffset {offset : Nat} (h : text.drop offset = cs ++ rest) :
    (ofOffset text offset).after cs = ofOffset text (offset + cs.length) := by
  rw [ofOffset_eq_after, ofOffset_eq_after, ← after_append, List.take_add, h, List.take_left]

end Location

/-! ## Lexemes -/

/-- Whether a text may stand between the quotes of a string literal: a backslash takes the next character with it, and
quotes and newlines stand behind a backslash only. -/
def isStringBody : List Char → Bool
  | [] => true
  | '\\' :: _ :: cs => isStringBody cs
  | c :: cs => c ≠ '"' && c ≠ '\\' && c ≠ '\n' && isStringBody cs

namespace Lexeme

/-- How a lexeme is spelled: a string literal with its quotes. -/
def spelling : Lexeme → List Char
  | number text => text.toList
  | string text => '"' :: (text.toList ++ ['"'])
  | identifier name => name.toList
  | keyword k => k.spelling.toList
  | symbol s => s.spelling.toList
  | eof => []

/-- The lexeme has a text of its kind. -/
def IsProper : Lexeme → Prop
  | number text => isNumeral text
  | string text => isStringBody text.toList
  | identifier name => isIdentifier name
  | keyword _ => True
  | symbol _ => True
  | eof => False

/-- The character cannot go on a word. -/
def EndsWord (c : Char) : Prop := ¬ c.isAlphanum ∧ c ≠ '_'

/-- Nothing of the text behind the lexeme belongs to it: no number or word goes on, no symbol is the beginning of a
longer one, and no slash is the beginning of a comment. -/
def IsMaximal (after : List Char) : Lexeme → Prop
  | number _ => ∀ c ∈ after.head?, ¬ c.isDigit ∧ c ≠ '.'
  | identifier _ => ∀ c ∈ after.head?, EndsWord c
  | keyword _ => ∀ c ∈ after.head?, EndsWord c
  | symbol s =>
    (∀ longer : Symbol, s.spelling.length < longer.spelling.length →
      ¬ longer.spelling.toList <+: s.spelling.toList ++ after) ∧
      (s = .slash → ∀ c ∈ after.head?, c ≠ '/' ∧ c ≠ '*')
  | string _ => True
  | eof => True

end Lexeme

/-! ## Blanks, comments and directives -/

/-- The text is a line from a mark on: it ends with the first newline, or else nothing stands behind it. -/
def IsLine (mark text after : List Char) : Prop :=
  mark <+: text ∧ ∃ line, '\n' ∉ line ∧ (text = line ++ ['\n'] ∨ text = line ∧ after = [])

/-- The text is a comment between two marks, the second of which does not come earlier. -/
def IsBlockComment (text : List Char) : Prop :=
  ∃ inner, text = ['/', '*'] ++ inner ++ ['*', '/'] ∧ ¬ ['*', '/'] <:+: inner ++ ['*']

/-- The text is a blank or a comment. -/
def IsTrivia (text after : List Char) : Prop :=
  (∃ c, Text.isBlank c ∧ text = [c]) ∨ IsLine ['/', '/'] text after ∨ IsBlockComment text

/-- What is cut off up to a newline is a line. -/
theorem isLine_cutLine {mark : List Char} (h : mark <+: cs) (hmark : '\n' ∉ mark) :
    IsLine mark (Piece.cutLine cs).1 (Piece.cutLine cs).2 := by
  have hline : '\n' ∉ cs.takeWhile (· ≠ '\n') := by
    intro hmem
    simpa using List.mem_takeWhile_imp hmem
  have hsplit := List.takeWhile_append_dropWhile (p := (· ≠ '\n')) (l := cs)
  unfold Piece.cutLine
  cases hdrop : cs.dropWhile (· ≠ '\n') with
  | nil =>
    rw [hdrop, List.append_nil] at hsplit
    exact ⟨h, cs, hsplit ▸ hline, .inr ⟨rfl, rfl⟩⟩
  | cons c rest =>
    -- the mark has no newline, so it stands before the first one
    have hbegins : mark <+: cs.takeWhile (· ≠ '\n') := by
      obtain ⟨tail, rfl⟩ := h
      rw [List.takeWhile_append_of_pos (by intro d hd; simpa using fun heq : d = '\n' => hmark (heq ▸ hd))]
      exact List.prefix_append ..
    have hc : c = '\n' := by
      have hfirst := List.head?_dropWhile_not (· ≠ '\n') cs
      rw [hdrop] at hfirst
      simpa using hfirst
    exact ⟨hbegins.trans (List.prefix_append ..), _, hline, .inl (by rw [hc])⟩

/-- What is cut off at the first closing mark is a comment. -/
theorem isBlockComment_of_cutComment (h : Piece.cutComment cs = some (text, rest)) :
    ∃ inner, text = inner ++ ['*', '/'] ∧ ¬ ['*', '/'] <:+: inner ++ ['*'] := by
  fun_induction Piece.cutComment cs generalizing text rest with
  | case1 => cases h
  | case2 tail =>
    cases h
    exact ⟨[], rfl, by decide⟩
  | case3 c tail hfirst ih =>
    obtain ⟨⟨text', rest'⟩, hcut, heq⟩ := Option.map_eq_some_iff.1 h
    cases heq
    obtain ⟨inner, rfl, hinner⟩ := ih hcut
    refine ⟨c :: inner, rfl, ?_⟩
    rw [List.cons_append, List.infix_cons_iff]
    rintro (hbegins | hinfix)
    · -- the comment would have been closed before
      have htail := Piece.cutComment_append hcut
      obtain ⟨hc, hhead⟩ := List.cons_prefix_cons.1 hbegins
      cases inner with
      | nil => simp at hhead
      | cons d inner =>
        obtain ⟨rfl, -⟩ := List.cons_prefix_cons.1 hhead
        exact hfirst (inner ++ ['*', '/'] ++ rest) hc.symm (by rw [← htail]; rfl)
    · exact hinner hinfix

/-- What is cut off at the quote that ends a string literal is its body and the quote. -/
theorem isStringBody_of_cutString (h : Piece.cutString cs = some (text, rest)) :
    ∃ body, text = body ++ ['"'] ∧ isStringBody body := by
  fun_induction Piece.cutString cs generalizing text rest with
  | case1 => cases h
  | case2 tail =>
    cases h
    exact ⟨[], rfl, rfl⟩
  | case3 => cases h
  | case4 c tail ih =>
    obtain ⟨⟨text', rest'⟩, hcut, heq⟩ := Option.map_eq_some_iff.1 h
    cases heq
    obtain ⟨body, rfl, hbody⟩ := ih hcut
    exact ⟨'\\' :: c :: body, rfl, hbody⟩
  | case5 c tail hquote hnewline hescape ih =>
    obtain ⟨⟨text', rest'⟩, hcut, heq⟩ := Option.map_eq_some_iff.1 h
    cases heq
    obtain ⟨body, rfl, hbody⟩ := ih hcut
    -- a backslash with a character behind it is the case above
    have hslash : c ≠ '\\' := by
      rintro rfl
      cases tail with
      | nil => cases hcut
      | cons d tail => exact hescape d tail rfl rfl
    refine ⟨c :: body, rfl, ?_⟩
    rw [isStringBody]
    · simpa [hslash, hbody] using ⟨hquote, hnewline⟩
    · intro d cs' hc
      exact absurd hc hslash

/-! ## The first piece -/

namespace Piece

/-- The piece is what it claims to be, where `after` stands behind it. -/
def Fits (after : List Char) : Piece → Prop
  | blank c => Text.isBlank c
  | comment cs => IsLine ['/', '/'] cs after ∨ IsBlockComment cs
  | directive cs => IsLine ['#'] cs after
  | lexeme l cs => cs = l.spelling ∧ l.IsProper ∧ l.IsMaximal after

/-- Where a stretch of a kind ends, no character of the kind stands. -/
theorem not_of_mem_head?_dropWhile {p : Char → Bool} (h : c ∈ (cs.dropWhile p).head?) : p c = false := by
  have := List.head?_dropWhile_not p cs
  rw [Option.mem_def.1 h] at this
  simpa using this

/-- A word that is cut off is spelled as it stands, and could not be longer. -/
theorem fits_ofWord (hstart : isWordStart c) :
    Fits (cs.dropWhile isWordPart) (.lexeme (ofWord (String.ofList (c :: cs.takeWhile isWordPart)))
      (c :: cs.takeWhile isWordPart)) := by
  have hbehind : ∀ d ∈ (cs.dropWhile isWordPart).head?, Lexeme.EndsWord d := by
    intro d hd
    simpa [isWordPart, Lexeme.EndsWord] using not_of_mem_head?_dropWhile hd
  unfold ofWord
  split
  · next keyword hkeyword =>
    refine ⟨?_, trivial, hbehind⟩
    rw [Lexeme.spelling, Keyword.spelling_of_ofSpelling? hkeyword, String.toList_ofList]
  · next hkeyword =>
    refine ⟨by rw [Lexeme.spelling, String.toList_ofList], ?_, hbehind⟩
    rw [Lexeme.IsProper, isIdentifier, String.toList_ofList, hkeyword]
    simp [hstart]

/-- No symbol stands in the table behind a shorter one. -/
theorem pairwise_longestFirst :
    Symbol.longestFirst.Pairwise fun s t => t.spelling.length ≤ s.spelling.length := by
  decide +kernel

/-- A text begins with no symbol that is longer than its leading one. -/
theorem not_prefix_of_leading? {s longer : Symbol} (h : Symbol.leading? cs = some s)
    (hlonger : s.spelling.length < longer.spelling.length) : ¬ longer.spelling.toList <+: cs := by
  intro hbegins
  obtain ⟨-, before, after, htable, hbefore⟩ := List.find?_eq_some_iff_append.1 h
  have hmem := Symbol.mem_longestFirst longer
  have hsorted := pairwise_longestFirst
  rw [htable] at hmem hsorted
  rcases List.mem_append.1 hmem with hmem | hmem
  · -- a longer symbol that the text begins with would have been found first
    have hnot := hbefore longer hmem
    rw [List.isPrefixOf_iff_prefix.2 hbegins] at hnot
    cases hnot
  · rcases List.mem_cons.1 hmem with rfl | hmem
    · exact lt_irrefl _ hlonger
    · exact not_lt_of_ge (List.rel_of_pairwise_cons (List.pairwise_append.1 hsorted).2.1 hmem) hlonger

/-- What is cut off a text is what it claims to be. -/
theorem fits_of_first {piece : Piece} (h : first c cs = .ok (piece, rest)) : piece.Fits rest := by
  unfold first at h
  repeat' split at h
  -- what is left are the pieces, in the order in which they are tried; the faults contradict `h`
  all_goals first
    | contradiction
    | obtain ⟨rfl, rfl⟩ := Prod.mk.inj (Except.ok.inj h)
  · assumption
  · next hmark =>
    obtain ⟨tail, rfl, rfl⟩ : ∃ tail, c = '/' ∧ cs = '/' :: tail := by
      cases cs <;> simp_all
    exact .inl (isLine_cutLine (List.prefix_append ..) (by decide))
  · next hcut =>
    obtain ⟨inner, rfl, hinner⟩ := isBlockComment_of_cutComment hcut
    exact .inr ⟨inner, rfl, hinner⟩
  · next hmark =>
    subst hmark
    exact isLine_cutLine (List.prefix_append ..) (by decide)
  · next hcut =>
    obtain ⟨body, rfl, hbody⟩ := isStringBody_of_cutString hcut
    rw [List.dropLast_concat]
    exact ⟨by rw [Lexeme.spelling, String.toList_ofList], by rwa [Lexeme.IsProper, String.toList_ofList], trivial⟩
  · next hdigit =>
    refine ⟨by rw [Lexeme.spelling, String.toList_ofList], by simp [Lexeme.IsProper, isNumeral, hdigit], ?_⟩
    intro d hd
    simpa [isNumeralPart] using not_of_mem_head?_dropWhile hd
  · next hstart => exact fits_ofWord hstart
  · next hline hblock _ _ _ _ _ symbol hsymbol =>
    obtain ⟨tail, htail⟩ := Symbol.spelling_isPrefixOf_of_leading? hsymbol
    rw [← htail, List.drop_left]
    refine ⟨rfl, trivial, ?_, ?_⟩
    · intro longer hlonger
      rw [htail]
      exact not_prefix_of_leading? hsymbol hlonger
    · -- a slash that begins a comment would not have come this far
      rintro rfl d hd
      have hslash : Symbol.slash.spelling.toList = ['/'] := by decide +kernel
      rw [hslash, List.singleton_append] at htail
      obtain ⟨rfl, rfl⟩ := List.cons.inj htail
      rw [Option.mem_def.1 hd] at hline hblock
      simpa using And.intro hline hblock

/-- Whether a character is an ASCII character. -/
def isAscii (c : Char) : Bool := c.toNat < 128

theorem isAscii_of_isDigit (h : c.isDigit) : isAscii c := by
  simp only [Char.isDigit, Bool.and_eq_true, decide_eq_true_eq, UInt32.le_iff_toNat_le] at h
  exact decide_eq_true (lt_of_le_of_lt h.2 (by decide))

theorem isAscii_of_isWordStart (h : isWordStart c) : isAscii c := by
  simp only [isWordStart, Char.isAlpha, Char.isUpper, Char.isLower, Bool.or_eq_true, Bool.and_eq_true,
    decide_eq_true_eq, UInt32.le_iff_toNat_le] at h
  rcases h with (h | h) | rfl
  · exact decide_eq_true (lt_of_le_of_lt h.2 (by decide))
  · exact decide_eq_true (lt_of_le_of_lt h.2 (by decide))
  · decide

theorem isAscii_of_leading? {s : Symbol} (h : Symbol.leading? (c :: cs) = some s) : isAscii c := by
  have hspelling : s.spelling.toList.all isAscii := by
    cases s <;> decide +kernel
  obtain ⟨tail, htail⟩ := Symbol.spelling_isPrefixOf_of_leading? h
  cases hs : s.spelling.toList with
  | nil => exact absurd hs (Symbol.spelling_ne_nil s)
  | cons d ds =>
    rw [hs, List.cons_append] at htail
    rw [hs, List.all_cons, (List.cons.inj htail).1, Bool.and_eq_true] at hspelling
    exact hspelling.1

/-- A piece is a blank or begins with an ASCII character. -/
theorem isBlank_or_isAscii_of_first {piece : Piece} (h : first c cs = .ok (piece, rest)) :
    Text.isBlank c ∨ isAscii c := by
  unfold first at h
  repeat' split at h
  all_goals first
    | contradiction
    | clear h
  · exact .inl ‹_›
  all_goals refine .inr ?_
  · simp_all [isAscii]
  · simp_all [isAscii]
  · simp_all [isAscii]
  · simp_all [isAscii]
  · exact isAscii_of_isDigit ‹_›
  · exact isAscii_of_isWordStart ‹_›
  · exact isAscii_of_leading? ‹_›

end Piece

/-! ## Gaps -/

/-- The stretch of a text between two offsets. -/
def stretch (text : List Char) (start stop : Nat) : List Char := (text.take stop).drop start

/-- The text between two offsets is made up of blanks, comments and directives. The directives begin at the offsets
that are listed. -/
inductive Fills (text : List Char) : Nat → Nat → List Nat → Prop where
  | nothing (offset : Nat) : Fills text offset offset []
  | trivia {start mid stop : Nat} {directives : List Nat} (h : IsTrivia (stretch text start mid) (text.drop mid))
      (rest : Fills text mid stop directives) : Fills text start stop directives
  | directive {start mid stop : Nat} {directives : List Nat} (h : IsLine ['#'] (stretch text start mid) (text.drop mid))
      (rest : Fills text mid stop directives) : Fills text start stop (start :: directives)

/-- A token and the offset at which it begins. -/
structure Span where
  offset : Nat
  token : Token

namespace Span

/-- The offset behind the token. -/
def stop (span : Span) : Nat := span.offset + span.token.lexeme.spelling.length

/-- The spelling of the token stands at its offset, of which the token has the location, and goes no further. -/
structure Fits (text : List Char) (span : Span) : Prop where
  ne_nil : span.token.lexeme.spelling ≠ []
  spelled : stretch text span.offset span.stop = span.token.lexeme.spelling
  loc : span.token.loc = .ofOffset text span.offset
  proper : span.token.lexeme.IsProper
  maximal : span.token.lexeme.IsMaximal (text.drop span.stop)
  /-- Letters beyond ASCII go on no word, but none stands behind the token either. -/
  behind : ∀ c ∈ (text.drop span.stop).head?, Text.isBlank c ∨ Piece.isAscii c

end Span

/-- Where the gaps before, between and behind some spans begin and end. -/
def gaps (start stop : Nat) : List Span → List (Nat × Nat)
  | [] => [(start, stop)]
  | span :: spans => (start, span.offset) :: gaps span.stop stop spans

/-- The warning about the directive that begins at an offset. -/
def directiveWarning (text : List Char) (offset : Nat) : Diagnostic :=
  (Warning.directive (String.ofList (Text.trimEnd ((text.drop offset).takeWhile (· ≠ '\n'))))).diagnostic
    (.ofOffset text offset)

/-- The gaps before, between and behind some spans are filled from an offset on, each with directives of its own. -/
def GapsFilled (text : List Char) (start : Nat) (spans : List Span) (directives : List (List Nat)) : Prop :=
  List.Forall₂ (fun gap offsets => Fills text gap.1 gap.2 offsets) (gaps start text.length spans) directives

/-- From an offset on, a text is made up of the spans of the tokens of a stream and of gaps. -/
structure IsTiling (text : List Char) (start : Nat) (stream : TokenStream) (warnings : List Diagnostic)
    (spans : List Span) (directives : List (List Nat)) : Prop where
  tokens : spans.map Span.token = stream.tokens
  eof : stream.eof = .ofOffset text text.length
  fits : ∀ span ∈ spans, span.Fits text
  filled : GapsFilled text start spans directives
  warnings : warnings = directives.flatten.map (directiveWarning text)

theorem stretch_of_drop_eq {start : Nat} (h : text.drop start = cs ++ rest) :
    stretch text start (start + cs.length) = cs := by
  rw [stretch, List.drop_take, h, Nat.add_sub_cancel_left, List.take_left]

theorem drop_add_length {start : Nat} (h : text.drop start = cs ++ rest) : text.drop (start + cs.length) = rest := by
  rw [← List.drop_drop, h, List.drop_left]

theorem lt_of_stretch_ne_nil {start stop : Nat} (h : stretch text start stop ≠ []) : start < stop := by
  have hlength := List.length_pos_iff.2 h
  rw [stretch, List.length_drop, List.length_take] at hlength
  omega

/-- A line with a mark is not empty. -/
theorem IsLine.ne_nil {mark after : List Char} (h : IsLine mark text after) (hmark : mark ≠ []) : text ≠ [] := by
  rintro rfl
  exact hmark (List.prefix_nil.1 h.1)

/-- A line is what stands before the first newline, up to blanks at its end. -/
theorem IsLine.trimEnd_takeWhile {mark after : List Char} (h : IsLine mark text after) :
    Text.trimEnd ((text ++ after).takeWhile (· ≠ '\n')) = Text.trimEnd text := by
  obtain ⟨-, line, hline, h⟩ := h
  have hall : ∀ c ∈ line, decide (c ≠ '\n') = true := by
    intro c hc
    simpa using fun heq : c = '\n' => hline (heq ▸ hc)
  rcases h with rfl | ⟨rfl, rfl⟩
  · rw [List.append_assoc, List.takeWhile_append_of_pos hall, Text.trimEnd_append_blank _ Text.isBlank_newline]
    simp
  · rw [List.append_nil, List.takeWhile_eq_self_iff.2 hall]

/-- What fills a gap is not empty. -/
theorem IsTrivia.ne_nil {after : List Char} (h : IsTrivia text after) : text ≠ [] := by
  rcases h with ⟨c, -, rfl⟩ | h | ⟨inner, rfl, -⟩
  · exact List.cons_ne_nil _ _
  · exact h.ne_nil (List.cons_ne_nil _ _)
  · exact List.cons_ne_nil _ _

/-- A gap does not end before it begins. -/
theorem Fills.le {start stop : Nat} {directives : List Nat} (h : Fills text start stop directives) : start ≤ stop := by
  induction h with
  | nothing offset => exact le_rfl
  | trivia h _ ih => exact (lt_of_stretch_ne_nil h.ne_nil).le.trans ih
  | directive h _ ih => exact (lt_of_stretch_ne_nil (h.ne_nil (List.cons_ne_nil _ _))).le.trans ih

/-- Only the first gap depends on where the gaps begin. -/
theorem exists_gaps_eq (stop : Nat) (spans : List Span) :
    ∃ first later, ∀ start, gaps start stop spans = (start, first) :: later := by
  cases spans with
  | nil => exact ⟨stop, [], fun _ => rfl⟩
  | cons span spans => exact ⟨span.offset, gaps span.stop stop spans, fun _ => rfl⟩

section Tilings

variable {start : Nat} {stream : TokenStream} {warnings : List Diagnostic} {spans : List Span}
  {directives : List (List Nat)}

/-- The spans between filled gaps begin no earlier than the first gap. -/
theorem GapsFilled.start_le_offset (h : GapsFilled text start spans directives) :
    ∀ span ∈ spans, start ≤ span.offset := by
  induction spans generalizing start directives with
  | nil => simp
  | cons span spans ih =>
    obtain ⟨_, _, hfirst, hlater, rfl⟩ := List.forall₂_cons_left_iff.1 h
    have hspan : start ≤ span.offset := hfirst.le
    refine List.forall_mem_cons.2 ⟨hspan, fun later hmem => ?_⟩
    calc start ≤ span.offset := hspan
      _ ≤ span.stop := Nat.le_add_right ..
      _ ≤ later.offset := ih hlater later hmem

/-- The spans between filled gaps do not overlap. -/
theorem GapsFilled.apart (h : GapsFilled text start spans directives) :
    spans.Pairwise fun span later => span.stop ≤ later.offset := by
  induction spans generalizing start directives with
  | nil => exact .nil
  | cons span spans ih =>
    obtain ⟨_, _, -, hlater, rfl⟩ := List.forall₂_cons_left_iff.1 h
    exact .cons (GapsFilled.start_le_offset hlater) (ih hlater)

/-- What fills a gap up to the tiling's beginning becomes part of its first gap. -/
theorem IsTiling.widen {mid : Nat} (added : List Nat) (h : IsTiling text mid stream warnings spans directives)
    (hfills : ∀ {stop offsets}, Fills text mid stop offsets → Fills text start stop (added ++ offsets)) :
    ∃ directives', IsTiling text start stream (added.map (directiveWarning text) ++ warnings) spans directives' := by
  obtain ⟨first, later, hgaps⟩ := exists_gaps_eq text.length spans
  have hfilled := h.filled
  rw [GapsFilled, hgaps] at hfilled
  obtain ⟨offsets, directives', hfirst, hlater, rfl⟩ := List.forall₂_cons_left_iff.1 hfilled
  refine ⟨(added ++ offsets) :: directives', h.tokens, h.eof, h.fits, ?_, ?_⟩
  · rw [GapsFilled, hgaps]
    exact .cons (hfills hfirst) hlater
  · simp only [h.warnings, List.flatten_cons, List.append_assoc, List.map_append]

/-- A token at the tiling's beginning becomes its first span. -/
theorem IsTiling.consToken {span : Span} (h : IsTiling text span.stop stream warnings spans directives)
    (hfits : span.Fits text) :
    IsTiling text span.offset { stream with tokens := span.token :: stream.tokens } warnings (span :: spans)
      ([] :: directives) where
  tokens := congrArg (span.token :: ·) h.tokens
  eof := h.eof
  fits := List.forall_mem_cons.2 ⟨hfits, h.fits⟩
  filled := .cons (.nothing _) h.filled
  warnings := h.warnings

end Tilings

/-! ## Scanning -/

/-- A text that can be scanned begins with a blank or an ASCII character. -/
theorem Scan.isBlank_or_isAscii_of_ok {loc : Location} {stream : TokenStream}
    (h : (scanFrom loc cs).outcome = .ok stream) : ∀ c ∈ cs.head?, Text.isBlank c ∨ Piece.isAscii c := by
  cases cs with
  | nil => simp
  | cons c cs =>
    cases hfirst : Piece.first c cs with
    | error fault =>
      rw [scanFrom_cons_of_error hfirst] at h
      cases h
    | ok result =>
      rintro d ⟨⟩
      exact Piece.isBlank_or_isAscii_of_first hfirst

/-- A scan that succeeds with a token in front succeeds without it. -/
theorem Scan.consToken_outcome_eq_ok {token : Token} {scan : Scan} {stream : TokenStream}
    (h : (scan.consToken token).outcome = .ok stream) :
    ∃ stream', scan.outcome = .ok stream' ∧ stream = { stream' with tokens := token :: stream'.tokens } := by
  obtain ⟨warnings, log, outcome⟩ := scan
  cases outcome with
  | error e => cases h
  | ok stream' => exact ⟨stream', rfl, (Except.ok.inj h).symm⟩

/-- A text that can be scanned from an offset on is tiled from there. -/
theorem Scan.exists_isTiling {start : Nat} {stream : TokenStream} (hdrop : text.drop start = cs)
    (hstart : start ≤ text.length) (h : (scanFrom (.ofOffset text start) cs).outcome = .ok stream) :
    ∃ spans directives, IsTiling text start stream (scanFrom (.ofOffset text start) cs).warnings spans directives := by
  fun_induction Piece.cut cs generalizing start stream with
  | case1 =>
    have hend : start = text.length := le_antisymm hstart (List.drop_eq_nil_iff.1 hdrop)
    rw [scanFrom] at h ⊢
    cases h
    refine ⟨[], [[]], rfl, by rw [hend], by simp, ?_, rfl⟩
    rw [hend]
    exact .cons (.nothing _) .nil
  | case2 c cs fault hfirst =>
    rw [scanFrom_cons_of_error hfirst] at h
    cases h
  | case3 c cs piece rest hfirst _ ih =>
    have hsplit : text.drop start = piece.text ++ rest := hdrop.trans (Piece.text_append_rest hfirst).symm
    have hmid := drop_add_length hsplit
    have hle : start + piece.text.length ≤ text.length := by
      have := congrArg List.length hsplit
      rw [List.length_drop, List.length_append] at this
      omega
    rw [scanFrom_cons_of_ok hfirst, Location.after_ofOffset hsplit] at h ⊢
    have hfits := Piece.fits_of_first hfirst
    have htext := stretch_of_drop_eq hsplit
    -- a piece that is no lexeme widens the gap in front of the first span
    cases piece with
    | blank c' =>
      obtain ⟨spans, directives, htiling⟩ := ih hmid hle h
      obtain ⟨directives', hwide⟩ := htiling.widen [] (.trivia (.inl ⟨c', hfits, htext⟩))
      exact ⟨spans, directives', hwide⟩
    | comment text' =>
      obtain ⟨spans, directives, htiling⟩ := ih hmid hle h
      obtain ⟨directives', hwide⟩ := htiling.widen [] (.trivia (.inr (by rwa [htext, hmid])))
      exact ⟨spans, directives', hwide⟩
    | directive text' =>
      obtain ⟨spans, directives, htiling⟩ := ih hmid hle h
      obtain ⟨directives', hwide⟩ := htiling.widen [start] (.directive (by rwa [htext, hmid]))
      refine ⟨spans, directives', ?_⟩
      rw [consPiece, consWarning]
      rw [List.map_singleton, directiveWarning, hsplit, Piece.text, hfits.trimEnd_takeWhile] at hwide
      exact hwide
    | lexeme l text' =>
      obtain ⟨rfl, hproper, hmaximal⟩ := hfits
      obtain ⟨stream', hstream', rfl⟩ := consToken_outcome_eq_ok h
      obtain ⟨spans, directives, htiling⟩ := ih hmid hle hstream'
      let span : Span := ⟨start, l, .ofOffset text start⟩
      have hspan : span.Fits text := {
        ne_nil := Piece.text_ne_nil hfirst
        spelled := htext
        loc := rfl
        proper := hproper
        maximal := by rwa [show text.drop span.stop = rest from hmid]
        behind := by
          rw [show text.drop span.stop = rest from hmid]
          exact isBlank_or_isAscii_of_ok hstream' }
      exact ⟨span :: spans, [] :: directives, htiling.consToken hspan⟩

/-- A text that can be scanned is made up of the spans of its tokens, one after the other, and of blanks, comments and
directives between them. Every token is spelled as in the text, located where it begins and goes on as far as it can;
the warnings are about the directives, in their order. -/
theorem lexical_tiling {source : String} {stream : TokenStream} (h : (Scan.ofSource source).outcome = .ok stream) :
    ∃ spans directives,
      IsTiling source.toList 0 stream (Scan.ofSource source).warnings spans directives ∧
        spans.Pairwise fun span later => span.stop ≤ later.offset := by
  have hstart : Location.ofOffset source.toList 0 = .start := rfl
  rw [Scan.ofSource, ← hstart] at h ⊢
  obtain ⟨spans, directives, htiling⟩ := Scan.exists_isTiling rfl (Nat.zero_le _) h
  exact ⟨spans, directives, htiling, htiling.filled.apart⟩

/-- A text with a directive, both kinds of comments, a string literal over two lines and operators side by side. -/
def crampedSource : String := "# on \n/*a**/ifs=a>>=1.5/ *b;// c\n\t\"d\\\"\\\ne\"if#off"

theorem lexical_tiling_crampedSource :
    ∃ stream, (Scan.ofSource crampedSource).outcome = .ok stream ∧
      stream.tokens.map (·.lexeme) = [.identifier "ifs", .symbol .assign, .identifier "a", .symbol .shiftRight,
        .symbol .assign, .number "1.5", .symbol .slash, .symbol .star, .identifier "b", .symbol .semicolon,
        .string "d\\\"\\\ne", .keyword .ifWord] ∧
      (Scan.ofSource crampedSource).warnings.map (·.loc) = [some ⟨1, 1⟩, some ⟨4, 5⟩] ∧
      ∃ spans directives,
        IsTiling crampedSource.toList 0 stream (Scan.ofSource crampedSource).warnings spans directives ∧
          spans.Pairwise fun span later => span.stop ≤ later.offset := by
  have hlexemes : (Scan.ofSource crampedSource).lexemes? = some [.identifier "ifs", .symbol .assign, .identifier "a",
      .symbol .shiftRight, .symbol .assign, .number "1.5", .symbol .slash, .symbol .star, .identifier "b",
      .symbol .semicolon, .string "d\\\"\\\ne", .keyword .ifWord] := by decide +kernel
  have hwarnings : (Scan.ofSource crampedSource).warnings.map (·.loc) = [some ⟨1, 1⟩, some ⟨4, 5⟩] := by
    decide +kernel
  obtain ⟨stream, hstream, htokens⟩ := Scan.lexemes?_eq_some hlexemes
  exact ⟨stream, hstream, htokens, hwarnings, lexical_tiling hstream⟩

end ClockedC
