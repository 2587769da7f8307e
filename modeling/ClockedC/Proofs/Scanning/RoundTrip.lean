import ClockedC.Proofs.Scanning.Tiling

/-!
# Lexemes written down are scanned back

A text that begins with the spelling of a lexeme has that lexeme as its first piece, if nothing behind the spelling goes
on with it. A space goes on with no lexeme, so lexemes with a space between any two of them are scanned back one by one.

* `lexer_round_trip` : what is scanned from lexemes that were written down.
-/

namespace ClockedC

namespace Piece

variable {c : Char} {after cs : List Char}

/-- A blank is a piece of its own. -/
theorem first_blank (h : Text.isBlank c) (cs : List Char) : first c cs = .ok (.blank c, cs) := by
  rw [first, if_pos h]

/-! ## Numerals and words -/

section Stretches

variable {p : Char → Bool}

/-- What goes on is taken up to what stops it. -/
theorem takeWhile_append_of_stops (hcs : ∀ d ∈ cs, p d) (hafter : ∀ d ∈ after.head?, p d = false) :
    (cs ++ after).takeWhile p = cs := by
  rw [List.takeWhile_append_of_pos hcs]
  cases after with
  | nil => simp
  | cons d after => simp [hafter d rfl]

/-- What goes on is dropped up to what stops it. -/
theorem dropWhile_append_of_stops (hcs : ∀ d ∈ cs, p d) (hafter : ∀ d ∈ after.head?, p d = false) :
    (cs ++ after).dropWhile p = after := by
  rw [List.dropWhile_append_of_pos hcs]
  cases after with
  | nil => rfl
  | cons d after => simp [hafter d rfl]

end Stretches

/-- Digits lie between two code points. -/
theorem toNat_of_isDigit (h : c.isDigit) : 48 ≤ c.toNat ∧ c.toNat ≤ 57 := by
  simpa [Char.isDigit, UInt32.le_iff_toNat_le] using h

/-- Letters and the underscore lie between two code points. -/
theorem toNat_of_isWordStart (h : isWordStart c) : 65 ≤ c.toNat ∧ c.toNat ≤ 122 := by
  simp only [isWordStart, Char.isAlpha, Char.isUpper, Char.isLower, Bool.or_eq_true, Bool.and_eq_true,
    decide_eq_true_eq, UInt32.le_iff_toNat_le] at h
  change ((65 ≤ c.toNat ∧ c.toNat ≤ 90) ∨ (97 ≤ c.toNat ∧ c.toNat ≤ 122)) ∨ c = '_' at h
  rcases h with (h | h) | rfl
  · omega
  · omega
  · decide

/-- The character is no blank and begins no comment, no directive and no string literal. -/
structure IsPlain (c : Char) : Prop where
  blank : Text.isBlank c = false
  slash : c ≠ '/'
  hash : c ≠ '#'
  quote : c ≠ '"'

/-- The marks stand before the digits in ASCII, and so do its blanks. -/
theorem isPlain_of_le (hlow : 48 ≤ c.toNat) (hhigh : c.toNat < 127) : IsPlain c := by
  refine ⟨?_, ?_, ?_, ?_⟩
  · simp only [Text.isBlank, Text.blankRanges, List.any_cons, List.any_nil, Bool.or_false, Bool.or_eq_false_iff,
      Bool.and_eq_false_iff, decide_eq_false_iff_not]
    omega
  all_goals
    rintro rfl
    revert hlow
    decide

theorem isPlain_of_isDigit (h : c.isDigit) : IsPlain c := by
  have := toNat_of_isDigit h
  exact isPlain_of_le (by omega) (by omega)

theorem isPlain_of_isWordStart (h : isWordStart c) : IsPlain c := by
  have := toNat_of_isWordStart h
  exact isPlain_of_le (by omega) (by omega)

/-- A numeral is cut off as a number, up to what is not part of it. -/
theorem first_numeral {text : String} (hlist : text.toList = c :: cs) (hdigit : c.isDigit)
    (hparts : ∀ d ∈ cs, isNumeralPart d) (hafter : ∀ d ∈ after.head?, ¬ d.isDigit ∧ d ≠ '.') :
    first c (cs ++ after) = .ok (.lexeme (.number text) (c :: cs), after) := by
  obtain ⟨hblank, hslash, hhash, hquote⟩ := isPlain_of_isDigit hdigit
  have hstops : ∀ d ∈ after.head?, isNumeralPart d = false := by
    intro d hd
    simpa [isNumeralPart] using hafter d hd
  have htake := takeWhile_append_of_stops hparts hstops
  have hdrop := dropWhile_append_of_stops hparts hstops
  have htext : String.ofList (c :: cs) = text := by rw [← hlist, String.ofList_toList]
  simp [first, hblank, hslash, hhash, hquote, hdigit, htake, hdrop, htext]

/-- A word is cut off as a keyword or a name, up to what is not part of it. -/
theorem first_word {word : String} (hlist : word.toList = c :: cs) (hstart : isWordStart c)
    (hparts : ∀ d ∈ cs, isWordPart d) (hafter : ∀ d ∈ after.head?, Lexeme.EndsWord d) :
    first c (cs ++ after) = .ok (.lexeme (ofWord word) (c :: cs), after) := by
  obtain ⟨hblank, hslash, hhash, hquote⟩ := isPlain_of_isWordStart hstart
  have hdigit : c.isDigit = false := by
    by_contra hdigit
    have hlow := toNat_of_isWordStart hstart
    have hhigh := toNat_of_isDigit (show c.isDigit by simpa using hdigit)
    omega
  have hstops : ∀ d ∈ after.head?, isWordPart d = false := by
    intro d hd
    simpa [isWordPart, Lexeme.EndsWord] using hafter d hd
  have htake := takeWhile_append_of_stops hparts hstops
  have hdrop := dropWhile_append_of_stops hparts hstops
  have htext : String.ofList (c :: cs) = word := by rw [← hlist, String.ofList_toList]
  simp [first, hblank, hslash, hhash, hquote, hdigit, hstart, htake, hdrop, htext]

/-! ## String literals -/

/-- A string literal is cut off at the first quote that no backslash takes. -/
theorem cutString_of_isStringBody {body : List Char} (h : isStringBody body) (after : List Char) :
    cutString (body ++ '"' :: after) = some (body ++ ['"'], after) := by
  fun_induction isStringBody body with
  | case1 => rfl
  | case2 c cs ih =>
    have hcut := ih h
    simp [cutString, hcut]
  | case3 c cs hescape ih =>
    simp only [Bool.and_eq_true, decide_eq_true_eq] at h
    obtain ⟨⟨⟨hquote, hslash⟩, hnewline⟩, hbody⟩ := h
    have hcut := ih hbody
    rw [List.cons_append, cutString]
    · simp [hcut]
    all_goals simp_all

/-- A string is cut off with its quotes. -/
theorem first_string {body : List Char} (h : isStringBody body) (after : List Char) :
    first '"' (body ++ '"' :: after) =
      .ok (.lexeme (.string (String.ofList body)) ('"' :: (body ++ ['"'])), after) := by
  have hblank : Text.isBlank '"' = false := by decide
  simp [first, hblank, cutString_of_isStringBody h]

/-! ## Symbols -/

/-- No symbol is spelled as another one. -/
theorem symbol_spelling_inj {s t : Symbol} (h : s.spelling.toList = t.spelling.toList) : s = t := by
  have hread : ∀ symbol : Symbol, Symbol.leading? symbol.spelling.toList = some symbol := by
    intro symbol
    cases symbol <;> decide +kernel
  have heq := hread s
  rw [h, hread t] at heq
  exact (Option.some.inj heq).symm

/-- A text that begins with a symbol, but with none that is longer, has it as its leading one. -/
theorem leading?_append {s : Symbol} {after : List Char}
    (h : ∀ longer : Symbol, s.spelling.length < longer.spelling.length →
      ¬ longer.spelling.toList <+: s.spelling.toList ++ after) :
    Symbol.leading? (s.spelling.toList ++ after) = some s := by
  have hbegins : s.spelling.toList <+: s.spelling.toList ++ after := List.prefix_append ..
  cases hlead : Symbol.leading? (s.spelling.toList ++ after) with
  | none =>
    have hnot := List.find?_eq_none.1 hlead s (Symbol.mem_longestFirst s)
    exact absurd (List.isPrefixOf_iff_prefix.2 hbegins) hnot
  | some t =>
    -- neither of the two symbols is longer than the other
    have hge : ¬ t.spelling.length < s.spelling.length := fun hlt => not_prefix_of_leading? hlead hlt hbegins
    have hle : ¬ s.spelling.length < t.spelling.length :=
      fun hlt => h t hlt (Symbol.spelling_isPrefixOf_of_leading? hlead)
    have hlength : t.spelling.toList.length = s.spelling.toList.length := by
      rw [String.length_toList, String.length_toList]
      omega
    have hshared := List.prefix_of_prefix_length_le (Symbol.spelling_isPrefixOf_of_leading? hlead) hbegins hlength.le
    rw [symbol_spelling_inj (hshared.eq_of_length hlength)]

/-- The characters with which symbols begin are no blanks, begin no numeral and no word, and only the slash is a
mark. -/
theorem symbol_head (s : Symbol) (h : s.spelling.toList = c :: cs) :
    Text.isBlank c = false ∧ c ≠ '#' ∧ c ≠ '"' ∧ c.isDigit = false ∧ isWordStart c = false ∧
      (c = '/' → s = .slash ∧ cs = []) := by
  have hall : s.spelling.toList.head?.all fun c => !Text.isBlank c && c ≠ '#' && c ≠ '"' && !c.isDigit &&
      !isWordStart c && (c ≠ '/' || (s = .slash && s.spelling.toList.tail.isEmpty)) := by
    cases s <;> decide +kernel
  rw [h] at hall
  simp only [List.head?_cons, Option.all_some, Bool.and_eq_true, Bool.or_eq_true, Bool.not_eq_true',
    decide_eq_true_eq, List.tail_cons] at hall
  obtain ⟨⟨⟨⟨⟨hblank, hhash⟩, hquote⟩, hdigit⟩, hword⟩, hslash⟩ := hall
  exact ⟨hblank, hhash, hquote, hdigit, hword, fun hc => by simpa using hslash.resolve_left (absurd hc)⟩

/-- A symbol is cut off if no longer one stands there. -/
theorem first_symbol {s : Symbol} (hspelling : s.spelling.toList = c :: cs)
    (hmaximal : (Lexeme.symbol s).IsMaximal after) :
    first c (cs ++ after) = .ok (.lexeme (.symbol s) (c :: cs), after) := by
  obtain ⟨hblank, hhash, hquote, hdigit, hword, hslash⟩ := symbol_head s hspelling
  obtain ⟨hlonger, hcomment⟩ := hmaximal
  have hlead := leading?_append hlonger
  rw [hspelling, List.cons_append] at hlead
  -- only the slash begins like a comment, and what stands behind it does not make one of it
  have hnoComment : ∀ d, d = '/' ∨ d = '*' → ¬ (c = '/' ∧ (cs ++ after).head? = some d) := by
    rintro d hd ⟨hc, hhead⟩
    obtain ⟨hs, rfl⟩ := hslash hc
    rcases hd with hd | hd
    · exact (hcomment hs d hhead).1 hd
    · exact (hcomment hs d hhead).2 hd
  have hline := hnoComment '/' (.inl rfl)
  have hblock := hnoComment '*' (.inr rfl)
  unfold first
  rw [if_neg (by simp [hblank]), if_neg (by simpa using hline), if_neg (by simpa using hblock), if_neg hhash,
    if_neg hquote, if_neg (by simp [hdigit]), if_neg (by simp [hword]), hlead]
  simp [hspelling]

/-! ## Lexemes -/

/-- A numeral is a digit and further parts of a numeral. -/
theorem exists_of_isNumeral {text : String} (h : isNumeral text) :
    ∃ c cs, text.toList = c :: cs ∧ c.isDigit ∧ ∀ d ∈ cs, isNumeralPart d := by
  unfold isNumeral at h
  split at h
  · cases h
  · next c cs hlist =>
    rw [Bool.and_eq_true, List.all_eq_true] at h
    exact ⟨c, cs, hlist, h⟩

/-- An identifier is the start of a word and further parts of a word, and no keyword. -/
theorem exists_of_isIdentifier {name : String} (h : isIdentifier name) :
    ∃ c cs, name.toList = c :: cs ∧ isWordStart c ∧ (∀ d ∈ cs, isWordPart d) ∧ ofWord name = .identifier name := by
  unfold isIdentifier at h
  split at h
  · cases h
  · next c cs hlist =>
    rw [Bool.and_eq_true, Bool.and_eq_true, List.all_eq_true, Option.isNone_iff_eq_none] at h
    obtain ⟨⟨hstart, hparts⟩, hkeyword⟩ := h
    exact ⟨c, cs, hlist, hstart, hparts, by rw [ofWord, hkeyword]⟩

/-- Keywords are words. -/
theorem exists_of_keyword (k : Keyword) :
    ∃ c cs, k.spelling.toList = c :: cs ∧ isWordStart c ∧ (∀ d ∈ cs, isWordPart d) ∧
      ofWord k.spelling = .keyword k := by
  have hword : k.spelling.toList.head?.any isWordStart ∧ k.spelling.toList.all isWordPart := by
    cases k <;> decide +kernel
  cases hlist : k.spelling.toList with
  | nil => simp [hlist] at hword
  | cons c cs =>
    rw [hlist, List.all_cons, Bool.and_eq_true, List.all_eq_true] at hword
    exact ⟨c, cs, rfl, hword.1, hword.2.2, by rw [ofWord, Keyword.ofSpelling?_spelling]⟩

/-- A text that begins with the spelling of a lexeme, and behind it with nothing that goes on with the lexeme, has the
lexeme as its first piece. -/
theorem first_of_isProper {l : Lexeme} (hproper : l.IsProper) (hmaximal : l.IsMaximal after)
    (hspelling : l.spelling = c :: cs) : first c (cs ++ after) = .ok (.lexeme l l.spelling, after) := by
  rw [hspelling]
  cases l with
  | number text =>
    obtain ⟨d, ds, hlist, hdigit, hparts⟩ := exists_of_isNumeral hproper
    obtain ⟨rfl, rfl⟩ := List.cons.inj (hlist.symm.trans hspelling)
    exact first_numeral hlist hdigit hparts hmaximal
  | string text =>
    obtain ⟨rfl, rfl⟩ := List.cons.inj hspelling
    rw [List.append_assoc, List.singleton_append, first_string hproper, String.ofList_toList]
  | identifier name =>
    obtain ⟨d, ds, hlist, hstart, hparts, hword⟩ := exists_of_isIdentifier hproper
    obtain ⟨rfl, rfl⟩ := List.cons.inj (hlist.symm.trans hspelling)
    rw [first_word hlist hstart hparts hmaximal, hword]
  | keyword k =>
    obtain ⟨d, ds, hlist, hstart, hparts, hword⟩ := exists_of_keyword k
    obtain ⟨rfl, rfl⟩ := List.cons.inj (hlist.symm.trans hspelling)
    rw [first_word hlist hstart hparts hmaximal, hword]
  | symbol s => exact first_symbol hspelling hmaximal
  | eof => cases hproper

end Piece

/-! ## What ends a lexeme -/

/-- What a text begins with stands before any character that is not in it. -/
theorem isPrefix_of_not_mem {xs ys zs : List Char} {c : Char} (h : xs <+: ys ++ c :: zs) (hc : c ∉ xs) : xs <+: ys := by
  by_cases hlength : xs.length ≤ ys.length
  · exact List.prefix_of_prefix_length_le h (List.prefix_append ..) hlength
  · -- otherwise the character is part of what the text begins with
    have hbegins : ys ++ [c] <+: xs := by
      have hwhole : ys ++ [c] <+: ys ++ c :: zs := ⟨zs, by simp⟩
      refine List.prefix_of_prefix_length_le hwhole h ?_
      rw [List.length_append, List.length_singleton]
      omega
    exact absurd (hbegins.subset (by simp)) hc

namespace Lexeme

instance : DecidablePred IsProper
  | number text => inferInstanceAs (Decidable (isNumeral text = true))
  | string text => inferInstanceAs (Decidable (isStringBody text.toList = true))
  | identifier name => inferInstanceAs (Decidable (isIdentifier name = true))
  | keyword _ => inferInstanceAs (Decidable True)
  | symbol _ => inferInstanceAs (Decidable True)
  | eof => inferInstanceAs (Decidable False)

/-- A proper lexeme is spelled with a character at least. -/
theorem IsProper.exists_spelling_eq {l : Lexeme} (h : l.IsProper) : ∃ c cs, l.spelling = c :: cs := by
  cases l with
  | number text =>
    obtain ⟨c, cs, hlist, -⟩ := Piece.exists_of_isNumeral h
    exact ⟨c, cs, hlist⟩
  | string text => exact ⟨_, _, rfl⟩
  | identifier name =>
    obtain ⟨c, cs, hlist, -⟩ := Piece.exists_of_isIdentifier h
    exact ⟨c, cs, hlist⟩
  | keyword k =>
    obtain ⟨c, cs, hlist, -⟩ := Piece.exists_of_keyword k
    exact ⟨c, cs, hlist⟩
  | symbol s => exact List.exists_cons_of_ne_nil (Symbol.spelling_ne_nil s)
  | eof => cases h

/-- Nothing goes on with a lexeme at the end of a text. -/
theorem isMaximal_nil (l : Lexeme) : l.IsMaximal [] := by
  cases l with
  | symbol s =>
    refine ⟨?_, by simp⟩
    intro longer hlonger hbegins
    have hlength := hbegins.length_le
    rw [List.append_nil, String.length_toList, String.length_toList] at hlength
    omega
  | string text => trivial
  | eof => trivial
  | _ => simp [IsMaximal]

/-- A blank goes on with no number and no word. -/
theorem ends_of_isBlank {c : Char} (h : Text.isBlank c) : (¬ c.isDigit ∧ c ≠ '.') ∧ EndsWord c := by
  have hdigit : ¬ c.isDigit := by
    intro hdigit
    have := (Piece.isPlain_of_isDigit hdigit).blank
    simp [h] at this
  have hword : ¬ Piece.isWordStart c := by
    intro hstart
    have := (Piece.isPlain_of_isWordStart hstart).blank
    simp [h] at this
  have hdot : c ≠ '.' := by
    rintro rfl
    revert h
    decide
  simp only [Piece.isWordStart, Bool.or_eq_true, not_or, decide_eq_true_eq] at hword
  exact ⟨⟨hdigit, hdot⟩, by simp [Char.isAlphanum, hword.1, hdigit], hword.2⟩

/-- No blank is part of a symbol. -/
theorem not_mem_spelling_of_isBlank {c : Char} (h : Text.isBlank c) (s : Symbol) : c ∉ s.spelling.toList := by
  have hall : s.spelling.toList.all (!Text.isBlank ·) := by
    cases s <;> decide +kernel
  intro hmem
  have := List.all_eq_true.1 hall c hmem
  simp [h] at this

/-- A blank goes on with no lexeme, whatever stands before it. -/
theorem IsMaximal.append_blank {l : Lexeme} {after : List Char} (h : l.IsMaximal after) {c : Char}
    (hc : Text.isBlank c) (rest : List Char) : l.IsMaximal (after ++ c :: rest) := by
  obtain ⟨hnumber, hword⟩ := ends_of_isBlank hc
  -- the character behind the lexeme is the old one, or else the blank
  have hhead : ∀ {Ends : Char → Prop}, (∀ d ∈ after.head?, Ends d) → Ends c →
      ∀ d ∈ (after ++ c :: rest).head?, Ends d := by
    intro Ends hafter hends d hd
    cases after with
    | nil =>
      cases hd
      exact hends
    | cons e after => exact hafter d hd
  cases l with
  | number text => exact hhead h hnumber
  | string text => trivial
  | identifier name => exact hhead h hword
  | keyword k => exact hhead h hword
  | symbol s =>
    refine ⟨?_, ?_⟩
    · intro longer hlonger hbegins
      rw [← List.append_assoc] at hbegins
      exact h.1 longer hlonger (isPrefix_of_not_mem hbegins (not_mem_spelling_of_isBlank hc longer))
    · intro hs
      refine hhead (h.2 hs) ⟨?_, ?_⟩
      all_goals
        rintro rfl
        revert hc
        decide
  | eof => trivial

end Lexeme

/-! ## Scanning what was written down -/

namespace Scan

/-- A blank in front is passed. -/
theorem scanFrom_blank (loc : Location) {c : Char} (hc : Text.isBlank c) (cs : List Char) :
    scanFrom loc (c :: cs) = scanFrom (loc.next c) cs := by
  rw [scanFrom_cons_of_ok (Piece.first_blank hc cs)]
  rfl

theorem lexemes?_consToken (token : Token) (scan : Scan) :
    (scan.consToken token).lexemes? = scan.lexemes?.map (token.lexeme :: ·) := by
  obtain ⟨warnings, log, outcome⟩ := scan
  cases outcome <;> rfl

/-- A text that begins with a lexeme is scanned to the lexeme and to what is scanned behind it. -/
theorem scanFrom_lexeme (loc : Location) {l : Lexeme} {after : List Char} (hproper : l.IsProper)
    (hmaximal : l.IsMaximal after) :
    scanFrom loc (l.spelling ++ after) = (scanFrom (loc.after l.spelling) after).consToken ⟨l, loc⟩ := by
  obtain ⟨c, cs, hspelling⟩ := hproper.exists_spelling_eq
  have hfirst := Piece.first_of_isProper hproper hmaximal hspelling
  rw [hspelling, List.cons_append, scanFrom_cons_of_ok hfirst, hspelling]
  rfl

/-- Lexemes with spaces between them are scanned one by one. -/
theorem scanFrom_intercalate (loc : Location) {lexemes : List Lexeme} (h : ∀ l ∈ lexemes, l.IsProper) :
    (scanFrom loc ([' '].intercalate (lexemes.map Lexeme.spelling))).warnings = [] ∧
      (scanFrom loc ([' '].intercalate (lexemes.map Lexeme.spelling))).lexemes? = some lexemes := by
  induction lexemes generalizing loc with
  | nil =>
    rw [List.map_nil, List.intercalate_nil, scanFrom]
    exact ⟨rfl, rfl⟩
  | cons l lexemes ih =>
    obtain ⟨hproper, hrest⟩ := List.forall_mem_cons.1 h
    cases lexemes with
    | nil =>
      have hscan := scanFrom_lexeme loc hproper l.isMaximal_nil
      rw [List.append_nil, scanFrom] at hscan
      rw [List.map_singleton, List.intercalate_singleton, hscan]
      exact ⟨rfl, rfl⟩
    | cons l' lexemes =>
      -- the space ends the lexeme before it and is a piece of its own
      have hmaximal := l.isMaximal_nil.append_blank Text.isBlank_space
        ([' '].intercalate ((l' :: lexemes).map Lexeme.spelling))
      have hscan := scanFrom_lexeme loc hproper hmaximal
      rw [List.nil_append, scanFrom_blank _ Text.isBlank_space] at hscan
      obtain ⟨hwarnings, hlexemes⟩ := ih ((loc.after l.spelling).next ' ') hrest
      rw [List.map_cons, List.map_cons, List.intercalate_cons_cons, List.append_assoc, List.singleton_append,
        ← List.map_cons, hscan, lexemes?_consToken, hlexemes]
      exact ⟨hwarnings, rfl⟩

end Scan

/-- Lexemes written in a row, with a space between any two of them. -/
def Lexeme.writeAll (lexemes : List Lexeme) : String :=
  " ".intercalate (lexemes.map fun l => String.ofList l.spelling)

/-- The lexemes are scanned back from the text in which they are written, and no warning is given. -/
def Lexeme.ScannedBack (lexemes : List Lexeme) : Prop :=
  (Scan.ofSource (writeAll lexemes)).warnings = [] ∧
    ∃ stream, (Scan.ofSource (writeAll lexemes)).outcome = .ok stream ∧
      stream.toList.map (·.lexeme) = lexemes ++ [.eof]

/-- Proper lexemes are scanned back, by induction on the lexemes. -/
theorem Lexeme.scannedBack_of_isProper {lexemes : List Lexeme} (h : ∀ l ∈ lexemes, l.IsProper) :
    ScannedBack lexemes := by
  have htext : (writeAll lexemes).toList = [' '].intercalate (lexemes.map spelling) := by
    rw [writeAll, String.toList_intercalate, List.map_map]
    congr 1
    exact List.map_congr_left fun l _ => String.toList_ofList
  obtain ⟨hwarnings, hlexemes⟩ := Scan.scanFrom_intercalate .start h
  rw [← htext] at hwarnings hlexemes
  obtain ⟨stream, hstream, htokens⟩ := Scan.lexemes?_eq_some hlexemes
  refine ⟨hwarnings, stream, hstream, ?_⟩
  rw [TokenStream.toList, List.map_append, htokens]
  rfl

/-- The lexemes of a text that can be scanned have a text of their kind. -/
theorem Scan.isProper_of_mem {source : String} {stream : TokenStream} (h : (ofSource source).outcome = .ok stream)
    {l : Lexeme} (hmem : l ∈ stream.tokens.map (·.lexeme)) : l.IsProper := by
  have hlexemes : (scanFrom .start source.toList).lexemes? = some (stream.tokens.map (·.lexeme)) := by
    rw [lexemes?, show (scanFrom .start source.toList).outcome = .ok stream from h]
    rfl
  obtain ⟨c, cs, text, rest, hfirst⟩ := exists_first_of_mem hlexemes hmem
  exact (Piece.fits_of_first hfirst).2.1

/-- Lexemes that are written down with spaces between them are scanned back, if each has a text of its kind. The lexemes
of any text that can be scanned are such lexemes, and there are no others. -/
theorem lexer_round_trip :
    (∀ lexemes : List Lexeme, (∀ l ∈ lexemes, l.IsProper) → Lexeme.ScannedBack lexemes) ∧
      (∀ source stream, (Scan.ofSource source).outcome = .ok stream →
        Lexeme.ScannedBack (stream.tokens.map (·.lexeme))) ∧
      ∀ l : Lexeme, l.IsProper ↔
        ∃ source stream, (Scan.ofSource source).outcome = .ok stream ∧ l ∈ stream.tokens.map (·.lexeme) := by
  refine ⟨fun lexemes h => Lexeme.scannedBack_of_isProper h, ?_, ?_⟩
  · intro source stream h
    exact Lexeme.scannedBack_of_isProper fun l hl => Scan.isProper_of_mem h hl
  · intro l
    constructor
    · -- a lexeme is scanned from its own spelling
      intro hproper
      have hback : Lexeme.ScannedBack [l] := Lexeme.scannedBack_of_isProper (by simpa using hproper)
      obtain ⟨-, stream, hstream, htokens⟩ := hback
      rw [TokenStream.toList, List.map_append] at htokens
      exact ⟨_, stream, hstream, by rw [List.append_cancel_right htokens]; simp⟩
    · rintro ⟨source, stream, h, hl⟩
      exact Scan.isProper_of_mem h hl

/-- Lexemes that would merge without spaces, and a string literal with escapes. -/
def crampedLexemes : List Lexeme :=
  [.symbol .slash, .symbol .star, .symbol .slash, .symbol .slash, .symbol .less, .symbol .lessEqual, .symbol .plus,
    .symbol .increment, .number "1..2", .number "3", .identifier "ifs", .keyword .ifWord, .string "\\\"# \\\n//",
    .string ""]

theorem lexer_round_trip_crampedLexemes :
    (∀ l ∈ crampedLexemes, l.IsProper) ∧ Lexeme.ScannedBack crampedLexemes := by
  have h : ∀ l ∈ crampedLexemes, l.IsProper := by decide +kernel
  exact ⟨h, lexer_round_trip.1 crampedLexemes h⟩

end ClockedC
