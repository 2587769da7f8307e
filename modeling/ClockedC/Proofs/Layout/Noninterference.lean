import ClockedC.Proofs.Layout.Grammar
import ClockedC.Proofs.Layout.Hardware
import ClockedC.Proofs.Reading.Accepted
import ClockedC.Proofs.Reading.Horizon

/-!
# Layout does not matter

Two texts with the same tokens are compiled alike, wherever the tokens stand. Texts that differ in blanks and
comments alone have the same tokens.

* `compile_layout_independent` : compilation does not look at locations.
-/

namespace ClockedC

/-! ## What scanning gives -/

namespace Scan

/-- Scanning warns about directives alone. -/
theorem category_of_mem_warnings (loc : Location) (cs : List Char) :
    ∀ d ∈ (scanFrom loc cs).warnings, d.category = .lexer := by
  fun_induction Piece.cut cs generalizing loc with
  | case1 =>
    rw [scanFrom]
    simp
  | case2 c cs fault hfirst =>
    rw [scanFrom_cons_of_error hfirst]
    simp
  | case3 c cs piece rest hfirst _ ih =>
    rw [scanFrom_cons_of_ok hfirst]
    cases piece with
    | directive text =>
      intro d hd
      rcases List.mem_cons.1 hd with rfl | hd
      · rfl
      · exact ih _ d hd
    | _ => exact ih _

/-- The scanner gives no later diagnostics. -/
theorem laterDiagnostics_warnings (source : String) : laterDiagnostics (ofSource source).warnings = [] := by
  rw [laterDiagnostics, List.map_eq_nil_iff, List.filter_eq_nil_iff]
  intro d hd
  simp [category_of_mem_warnings _ _ d hd]

/-- Of what the scanner reports only the number of tokens is left. -/
theorem filterMap_later?_events (source : String) {stream : TokenStream}
    (h : (ofSource source).outcome = .ok stream) :
    (ofSource source).events.filterMap Event.later? = [.tokenised (stream.tokens.length + 1)] := by
  have hlog : (ofSource source).log = (ofSource source).warnings.map .reported := log_scanFrom ..
  rw [events, h, List.filterMap_append, hlog, filterMap_later?_reported, laterDiagnostics_warnings]
  simp [TokenStream.toList, Event.later?]

end Scan

/-! ## Texts with the same tokens -/

/-- Both texts can be scanned, and their tokens are equal up to locations. -/
def SameTokens (source₁ source₂ : String) : Prop :=
  ∃ lexemes, (Scan.ofSource source₁).lexemes? = some lexemes ∧ (Scan.ofSource source₂).lexemes? = some lexemes

/-- The pieces of a text other than blanks and comments, if it can be cut into pieces. -/
def significantPieces? (source : String) : Option (List Piece) :=
  (Piece.cut source.toList).toOption.map (·.filter (!·.isTrivia))

/-- Both texts can be cut into pieces, and the pieces differ in blanks and comments alone. -/
def SameUpToTrivia (source₁ source₂ : String) : Prop :=
  ∃ pieces, significantPieces? source₁ = some pieces ∧ significantPieces? source₂ = some pieces

/-- Blanks and comments are no tokens. -/
theorem lexemes?_of_significantPieces? {source : String} {pieces : List Piece}
    (h : significantPieces? source = some pieces) :
    (Scan.ofSource source).lexemes? = some (pieces.filterMap Piece.lexeme?) := by
  obtain ⟨all, hcut, rfl⟩ := Option.map_eq_some_iff.1 h
  rw [Scan.ofSource, Scan.lexemes?_scanFrom, hcut, Piece.filterMap_lexeme?_filter]
  rfl

theorem SameUpToTrivia.sameTokens {source₁ source₂ : String} (h : SameUpToTrivia source₁ source₂) :
    SameTokens source₁ source₂ := by
  obtain ⟨pieces, h₁, h₂⟩ := h
  exact ⟨_, lexemes?_of_significantPieces? h₁, lexemes?_of_significantPieces? h₂⟩

/-- A reader before the tokens of a text, placed nowhere, depends on the lexemes alone. -/
theorem Reader.unlocated_ofSource {source : String} {lexemes : List Lexeme}
    (h : (Scan.ofSource source).lexemes? = some lexemes) :
    ∃ r, Reader.ofSource source = .ok r ∧
      r.unlocated = { queue := .ofList (lexemes.map (⟨·, .nowhere⟩)), eof := .nowhere,
                      log := [.tokenised (lexemes.length + 1)] } := by
  obtain ⟨stream, hstream, hlexemes⟩ := Scan.lexemes?_eq_some h
  refine ⟨_, by rw [Reader.ofSource, Reader.ofScan, hstream]; rfl, ?_⟩
  have hqueue : (TokenQueue.ofList stream.tokens).unlocated =
      .ofList (lexemes.map (⟨·, .nowhere⟩)) := by
    apply TokenQueue.ext
    simp only [TokenQueue.tokens_unlocated, TokenQueue.tokens_ofList, ← hlexemes, List.map_map]
    rfl
  have hlength : stream.tokens.length = lexemes.length := by rw [← hlexemes, List.length_map]
  have heof : .eof ∉ stream.tokens.map (·.lexeme) := hlexemes ▸ Scan.eof_not_mem h
  simp only [Reader.unlocated, Reader.ofStream_of_eof_not_mem heof, hqueue, Scan.laterDiagnostics_warnings,
    Scan.filterMap_later?_events source hstream, hlength, List.map_nil]

/-! ## Compilation -/

/-- Two outcomes of a compilation that are equal up to locations and to what the scanner reports. -/
def SameOutcome : Except CompileError Compilation → Except CompileError Compilation → Prop
  | .ok c₁, .ok c₂ =>
    c₁.vhdl = c₂.vhdl ∧ c₁.tables = c₂.tables ∧ c₁.program.unlocated = c₂.program.unlocated ∧
      laterDiagnostics c₁.diagnostics = laterDiagnostics c₂.diagnostics
  | .error e₁, .error e₂ => e₁.unlocated = e₂.unlocated ∧ e₁.message = e₂.message
  | _, _ => False

/-- The hardware of two programs that are equal up to locations. -/
theorem generate_of_unlocated_eq (layouts : Layouts) {p₁ p₂ : Program} (h : p₁.unlocated = p₂.unlocated) :
    (Generator.generate { layouts } p₁).1 = (Generator.generate { layouts } p₂).1 ∧
      laterDiagnostics (Generator.generate { layouts } p₁).2.diagnostics =
        laterDiagnostics (Generator.generate { layouts } p₂).2.diagnostics := by
  constructor
  · rw [Generator.generate_eq, Generator.generate_eq]
    show hardwareDesign layouts p₁ = hardwareDesign layouts p₂
    rw [← hardwareDesign_unlocated layouts p₁, h, hardwareDesign_unlocated]
  · rw [Generator.diagnostics_generate, Generator.diagnostics_generate]
    show laterDiagnostics ([] ++ (programEvents layouts p₁).filterMap Event.diagnostic?) =
      laterDiagnostics ([] ++ (programEvents layouts p₂).filterMap Event.diagnostic?)
    rw [List.nil_append, List.nil_append, ← filterMap_diagnostic?_later?, ← filterMap_diagnostic?_later?,
      ← programEvents_unlocated, ← programEvents_unlocated, h]

/-- A reader before lexemes that are placed nowhere. -/
def Reader.ofLexemes (lexemes : List Lexeme) : Reader where
  queue := .ofList (lexemes.map (⟨·, .nowhere⟩))
  eof := .nowhere

/-- A text is read as its lexemes are, up to locations and to what the scanner has recorded. -/
theorem unlocated_run_ofSource {source : String} {lexemes : List Lexeme}
    (h : (Scan.ofSource source).lexemes? = some lexemes) :
    ∃ r, Reader.ofSource source = .ok r ∧ Grammar.Outcome.unlocated Program.unlocated (Grammar.program.run r) =
      Grammar.Outcome.amid { log := [.tokenised (lexemes.length + 1)] }
        (Grammar.program.run (Reader.ofLexemes lexemes)) := by
  obtain ⟨r, hr, hu⟩ := Reader.unlocated_ofSource h
  refine ⟨r, hr, ?_⟩
  rw [← Grammar.Mirrors.program.run_unlocated, hu]
  exact Grammar.Blind.program.run_amid (Reader.ofLexemes lexemes) { log := [.tokenised (lexemes.length + 1)] }

/-- Outcomes that are equal up to locations have the same text. -/
theorem SameOutcome.vhdl_eq {o₁ o₂ : Except CompileError Compilation} (h : SameOutcome o₁ o₂) :
    o₁.toOption.map Compilation.vhdl = o₂.toOption.map Compilation.vhdl := by
  cases o₁ with
  | ok c₁ =>
    cases o₂ with
    | ok c₂ => exact congrArg some h.1
    | error e₂ => exact h.elim
  | error e₁ =>
    cases o₂ with
    | ok c₂ => exact h.elim
    | error e₂ => rfl

/-- A step that succeeds up to locations succeeds. -/
theorem Grammar.Outcome.eq_ok_of_unlocated {α β : Type} {f : α → β} {s : Surroundings} {r : Reader} {b : β}
    {outcome : EStateM.Result CompileError Reader α} (h : unlocated f outcome = amid s (.ok b r)) :
    ∃ a r', outcome = .ok a r' ∧ f a = b ∧ r'.unlocated = r.amid s := by
  cases outcome with
  | ok a r' =>
    injection h with hvalue hreader
    exact ⟨a, r', rfl, hvalue, hreader⟩
  | error e r' => cases h

/-- An error is an error also with its locations. -/
theorem Grammar.Outcome.eq_error_of_unlocated {α β : Type} {f : α → β} {s : Surroundings} {r : Reader}
    {e : CompileError} {outcome : EStateM.Result CompileError Reader α}
    (h : unlocated f outcome = amid s (.error e r)) : ∃ e' r', outcome = .error e' r' ∧ e'.unlocated = e := by
  cases outcome with
  | ok a r' => cases h
  | error e' r' =>
    injection h with herror _
    exact ⟨e', r', rfl, herror⟩

/-- Texts have outcomes that are equal up to locations if the programs of their lexemes are read alike. -/
theorem sameOutcome_of_run_eq {source₁ source₂ : String} {lexemes₁ lexemes₂ : List Lexeme}
    (h₁ : (Scan.ofSource source₁).lexemes? = some lexemes₁) (h₂ : (Scan.ofSource source₂).lexemes? = some lexemes₂)
    (hrun : Grammar.program.run (.ofLexemes lexemes₁) = Grammar.program.run (.ofLexemes lexemes₂)) :
    SameOutcome (compile source₁).outcome (compile source₂).outcome := by
  obtain ⟨r₁, hr₁, ho₁⟩ := unlocated_run_ofSource h₁
  obtain ⟨r₂, hr₂, ho₂⟩ := unlocated_run_ofSource h₂
  rw [← hrun] at ho₂
  rw [outcome_compile hr₁, outcome_compile hr₂]
  cases hcommon : Grammar.program.run (Reader.ofLexemes lexemes₁) with
  | ok p r =>
    rw [hcommon] at ho₁ ho₂
    obtain ⟨p₁, r₁', hp₁, hprogram₁, hreader₁⟩ := Grammar.Outcome.eq_ok_of_unlocated ho₁
    obtain ⟨p₂, r₂', hp₂, hprogram₂, hreader₂⟩ := Grammar.Outcome.eq_ok_of_unlocated ho₂
    rw [hp₁, hp₂]
    -- the log tells the readers apart, which is not looked at any more
    have htables : r₁'.tables = r₂'.tables := by
      rw [← r₁'.tables_unlocated, ← r₂'.tables_unlocated, hreader₁, hreader₂]
      rfl
    have hdiagnostics : laterDiagnostics r₁'.diagnostics = laterDiagnostics r₂'.diagnostics := by
      rw [← r₁'.diagnostics_unlocated, ← r₂'.diagnostics_unlocated, hreader₁, hreader₂]
      rfl
    have hprogram : p₁.unlocated = p₂.unlocated := hprogram₁.trans hprogram₂.symm
    obtain ⟨hdesign, hreports⟩ := generate_of_unlocated_eq r₁'.tables.structs hprogram
    refine ⟨?_, htables, hprogram, ?_⟩
    · rw [Compilation.vhdl, Compilation.vhdl, ← htables, hdesign]
    · rw [laterDiagnostics_append, laterDiagnostics_append, hdiagnostics, ← htables, hreports]
  | error e r =>
    rw [hcommon] at ho₁ ho₂
    obtain ⟨e₁, r₁', he₁, herror₁⟩ := Grammar.Outcome.eq_error_of_unlocated ho₁
    obtain ⟨e₂, r₂', he₂, herror₂⟩ := Grammar.Outcome.eq_error_of_unlocated ho₂
    rw [he₁, he₂]
    have herror : e₁.unlocated = e₂.unlocated := herror₁.trans herror₂.symm
    refine ⟨herror, ?_⟩
    rw [← CompileError.message_unlocated e₁, herror, CompileError.message_unlocated]

/-- Texts with the same tokens have outcomes that are equal up to locations. -/
theorem sameOutcome_of_sameTokens {source₁ source₂ : String} (h : SameTokens source₁ source₂) :
    SameOutcome (compile source₁).outcome (compile source₂).outcome := by
  obtain ⟨lexemes, h₁, h₂⟩ := h
  exact sameOutcome_of_run_eq h₁ h₂ rfl

/-- **Layout does not matter.** Texts with the same tokens fail with the same error, or are compiled to the same
text, with equal tables and with programs and later diagnostics that are equal up to locations. In particular
blanks, line breaks and comments between tokens do not change what a text is compiled to. -/
theorem compile_layout_independent (source₁ source₂ : String) :
    (SameTokens source₁ source₂ → SameOutcome (compile source₁).outcome (compile source₂).outcome) ∧
      (SameUpToTrivia source₁ source₂ →
        (compile source₁).outcome.toOption.map Compilation.vhdl =
          (compile source₂).outcome.toOption.map Compilation.vhdl) :=
  ⟨sameOutcome_of_sameTokens, fun h => (sameOutcome_of_sameTokens h.sameTokens).vhdl_eq⟩

/-- A function in one line. -/
def denseSource : String := "int f(int a)\x7bif(a)a++;return a;\x7d"

/-- The same function over several lines, with comments. -/
def spreadSource : String := "int f(int a) // one\n\x7b\n if (a) /* two */ a++;\n return a;\n\x7d\n"

theorem compile_layout_independent_spreadSource :
    SameUpToTrivia denseSource spreadSource ∧ SameTokens denseSource spreadSource ∧
      (compile denseSource).outcome.toOption.isSome ∧
      SameOutcome (compile denseSource).outcome (compile spreadSource).outcome ∧
      (compile denseSource).outcome.toOption.map Compilation.vhdl =
        (compile spreadSource).outcome.toOption.map Compilation.vhdl := by
  have hpieces : (significantPieces? denseSource).isSome ∧
      significantPieces? spreadSource = significantPieces? denseSource := by decide +kernel
  obtain ⟨pieces, hdense⟩ := Option.isSome_iff_exists.1 hpieces.1
  have h : SameUpToTrivia denseSource spreadSource := ⟨pieces, hdense, hpieces.2.trans hdense⟩
  have hcompiles : (compile denseSource).outcome.toOption.isSome := by decide +kernel
  exact ⟨h, h.sameTokens, hcompiles, (compile_layout_independent _ _).1 h.sameTokens,
    (compile_layout_independent _ _).2 h⟩

end ClockedC
