import ClockedC.Proofs.Locations.Reports
import ClockedC.Proofs.Reading.Courses
import ClockedC.Proofs.Scanning.Tiling

/-!
# Warnings and the log

Each stage of a compilation keeps the warnings that it gives and logs them, one after the other. What has been logged of
them at the end is the list of diagnostics, in its order: the warnings about directives from the beginning of the text
to its end, those of the grammar and those about the hardware.

* `warnings_logged_in_order` : the diagnostics of a compilation and its log.
-/

namespace ClockedC

/-- The diagnostic is a warning that a stage gives. -/
structure Diagnostic.IsWarning (category : Category) (d : Diagnostic) : Prop where
  severity_eq : d.severity = .warning
  category_eq : d.category = category

/-! ## Directives -/

namespace Location

/-- The location stands before another: in an earlier line, or in the same line and an earlier column. -/
def Precedes (loc loc' : Location) : Prop := loc.line < loc'.line ∨ loc.line = loc'.line ∧ loc.column < loc'.column

theorem Precedes.trans {loc loc' loc'' : Location} (h : loc.Precedes loc') (h' : loc'.Precedes loc'') :
    loc.Precedes loc'' := by
  unfold Precedes at *
  omega

theorem precedes_next (loc : Location) (c : Char) : loc.Precedes (loc.next c) := by
  unfold next
  split
  · exact .inl (Nat.lt_succ_self _)
  · exact .inr ⟨rfl, Nat.lt_succ_self _⟩

/-- A location stands before what follows some text. -/
theorem precedes_after (loc : Location) {cs : List Char} (h : cs ≠ []) : loc.Precedes (loc.after cs) := by
  induction cs generalizing loc with
  | nil => exact absurd rfl h
  | cons c cs ih =>
    rw [after_cons]
    cases cs with
    | nil => exact loc.precedes_next c
    | cons d ds => exact (loc.precedes_next c).trans (ih (loc.next c) (List.cons_ne_nil d ds))

/-- What stands further on in a text has a later location. -/
theorem precedes_ofOffset {text : List Char} {offset offset' : Nat} (hlt : offset < offset')
    (hle : offset' ≤ text.length) : (ofOffset text offset).Precedes (ofOffset text offset') := by
  have hlength : ((text.drop offset).take (offset' - offset)).length = offset' - offset := by
    rw [List.length_take, List.length_drop]
    omega
  have hafter := after_ofOffset (List.take_append_drop (offset' - offset) (text.drop offset)).symm
  rw [hlength, Nat.add_sub_cancel' hlt.le] at hafter
  rw [← hafter]
  apply precedes_after
  rw [← List.length_pos_iff, hlength]
  omega

end Location

section Directives

variable {text : List Char} {start stop : Nat}

/-- The directives that fill a gap stand inside of it, one behind the other. -/
theorem Fills.offsets_increase {directives : List Nat} (h : Fills text start stop directives) :
    directives.Pairwise (· < ·) ∧ ∀ offset ∈ directives, start ≤ offset ∧ offset < stop := by
  induction h with
  | nothing offset => exact ⟨.nil, List.forall_mem_nil _⟩
  | trivia h rest ih =>
    have hlt := lt_of_stretch_ne_nil h.ne_nil
    exact ⟨ih.1, fun offset hoffset => ⟨hlt.le.trans (ih.2 offset hoffset).1, (ih.2 offset hoffset).2⟩⟩
  | directive h rest ih =>
    have hlt := lt_of_stretch_ne_nil (h.ne_nil (List.cons_ne_nil _ _))
    refine ⟨.cons (fun offset hoffset => hlt.trans_le (ih.2 offset hoffset).1) ih.1, ?_⟩
    refine List.forall_mem_cons.2 ⟨⟨le_rfl, hlt.trans_le rest.le⟩, fun offset hoffset => ?_⟩
    exact ⟨hlt.le.trans (ih.2 offset hoffset).1, (ih.2 offset hoffset).2⟩

/-- Gaps do not begin beyond the end of the text. -/
theorem GapsFilled.start_le_length {spans : List Span} {directives : List (List Nat)}
    (h : GapsFilled text start spans directives) : start ≤ text.length := by
  induction spans generalizing start directives with
  | nil =>
    obtain ⟨_, _, hfirst, -, -⟩ := List.forall₂_cons_left_iff.1 h
    exact hfirst.le
  | cons span spans ih =>
    obtain ⟨_, _, hfirst, hlater, rfl⟩ := List.forall₂_cons_left_iff.1 h
    calc start ≤ span.offset := hfirst.le
      _ ≤ span.stop := Nat.le_add_right ..
      _ ≤ text.length := ih hlater

/-- The directives in all gaps of a text stand inside of the text, one behind the other. -/
theorem GapsFilled.offsets_increase {spans : List Span} {directives : List (List Nat)}
    (h : GapsFilled text start spans directives) :
    directives.flatten.Pairwise (· < ·) ∧ ∀ offset ∈ directives.flatten, start ≤ offset ∧ offset < text.length := by
  induction spans generalizing start directives with
  | nil =>
    obtain ⟨offsets, _, hfirst, hnil, rfl⟩ := List.forall₂_cons_left_iff.1 h
    cases hnil
    rw [List.flatten_cons, List.flatten_nil, List.append_nil]
    exact hfirst.offsets_increase
  | cons span spans ih =>
    obtain ⟨offsets, later, hfirst, hlater, rfl⟩ := List.forall₂_cons_left_iff.1 h
    obtain ⟨hsorted, hinside⟩ := hfirst.offsets_increase
    obtain ⟨hsorted', hinside'⟩ := ih hlater
    rw [List.flatten_cons]
    have hbehind : span.offset ≤ span.stop := Nat.le_add_right ..
    refine ⟨List.pairwise_append.2 ⟨hsorted, hsorted', fun offset hoffset offset' hoffset' => ?_⟩, ?_⟩
    · -- the token between the first gap and the others keeps their directives apart
      have := (hinside offset hoffset).2
      have := (hinside' offset' hoffset').1
      omega
    · have hstart := hfirst.le
      have hstop := GapsFilled.start_le_length hlater
      refine List.forall_mem_append.2 ⟨fun offset hoffset => ?_, fun offset hoffset => ?_⟩
      · have := hinside offset hoffset
        dsimp only at *
        omega
      · have := hinside' offset hoffset
        dsimp only at *
        omega

end Directives

/-- The warnings of a scan are those of the lexer about the directives of the text, in the order of their locations. -/
theorem IsTiling.warnings_in_order {text : List Char} {start : Nat} {stream : TokenStream} {warnings : List Diagnostic}
    {spans : List Span} {directives : List (List Nat)} (h : IsTiling text start stream warnings spans directives) :
    (∀ d ∈ warnings, d.IsWarning .lexer) ∧
      warnings.Pairwise fun d later : Diagnostic =>
        ∃ loc loc' : Location, d.loc = some loc ∧ later.loc = some loc' ∧ loc.Precedes loc' := by
  obtain ⟨hsorted, hinside⟩ := h.filled.offsets_increase
  rw [h.warnings]
  constructor
  · intro d hd
    obtain ⟨offset, -, rfl⟩ := List.mem_map.1 hd
    exact ⟨rfl, rfl⟩
  · rw [List.pairwise_map]
    refine hsorted.imp_of_mem fun {offset offset'} _ hoffset' hlt => ?_
    exact ⟨_, _, rfl, rfl, Location.precedes_ofOffset hlt (hinside offset' hoffset').2.le⟩

/-! ## The grammar -/

/-- Since the first reader, the second has given warnings of the grammar, and it has logged each of them when it gave
it. -/
def Reader.Warns (r r' : Reader) : Prop :=
  ∃ warnings : List Diagnostic, r'.diagnostics = r.diagnostics ++ warnings ∧
    r'.log.filterMap Event.diagnostic? = r.log.filterMap Event.diagnostic? ++ warnings ∧
    ∀ d ∈ warnings, d.IsWarning .parser

namespace Reader.Warns

variable {r r' r'' : Reader}

theorem of_eq (hdiagnostics : r'.diagnostics = r.diagnostics)
    (hlog : r'.log.filterMap Event.diagnostic? = r.log.filterMap Event.diagnostic?) : r.Warns r' :=
  ⟨[], by rw [hdiagnostics, List.append_nil], by rw [hlog, List.append_nil], List.forall_mem_nil _⟩

/-- Warnings are given and logged one after the other. -/
theorem trans (h : r.Warns r') (h' : r'.Warns r'') : r.Warns r'' := by
  obtain ⟨warnings, hdiagnostics, hlog, hwarnings⟩ := h
  obtain ⟨warnings', hdiagnostics', hlog', hwarnings'⟩ := h'
  refine ⟨warnings ++ warnings', ?_, ?_, List.forall_mem_append.2 ⟨hwarnings, hwarnings'⟩⟩
  · rw [hdiagnostics', hdiagnostics, List.append_assoc]
  · rw [hlog', hlog, List.append_assoc]

end Reader.Warns

namespace Grammar

/-- Steps inside of functions give no warning, and records keep diagnostics and log in step. -/
theorem course_warns : Course Reader.Warns where
  trans := .trans
  locally h := .of_eq h.diagnostics_eq (by rw [h.eq_withRest]; rfl)
  notes r event hquiet := by
    refine .of_eq rfl ?_
    rw [List.filterMap_append, List.filterMap_cons_none hquiet, List.filterMap_nil, List.append_nil]
  warns r warning loc hparser := by
    refine ⟨[warning.diagnostic loc], rfl, ?_, List.forall_mem_singleton.2 ⟨rfl, hparser⟩⟩
    rw [List.filterMap_append]
    rfl
  noLoop r := .of_eq rfl rfl

/-- Reading a program logs the warnings that it gives. -/
theorem warns_program {r r' : Reader} {p : Program} (h : program.run r = .ok p r') : r.Warns r' := by
  have hcourse := course_warns.program (course_warns.structDefinition_of_define fun r structs => .of_eq rfl rfl)
  have hwarns := hcourse.run_along r
  rwa [h] at hwarns

end Grammar

/-! ## The hardware -/

theorem Diagnostic.WarnsAt.isWarning {P : Mark → Prop} {d : Diagnostic} (h : d.WarnsAt P) : d.IsWarning .codegen := by
  obtain ⟨warning, loc, hcategory, -, rfl⟩ := h
  exact ⟨rfl, hcategory⟩

/-- Whatever is reported about a program that has been read is a warning about hardware. -/
theorem programEvents_isWarning {source : String} {parsed : Parsed} (h : (parse source).outcome = .ok parsed) :
    ∀ d ∈ (programEvents parsed.tables.structs parsed.program).filterMap Event.diagnostic?, d.IsWarning .codegen := by
  -- where the warnings stand does not matter here, so every mark will do
  have hscan : (Scan.ofSource source).Marked fun _ => True :=
    ⟨fun _ _ _ => ⟨trivial, fun _ _ => trivial, fun _ _ => trivial⟩, fun _ => trivial, fun _ => trivial,
      fun _ _ _ _ => trivial⟩
  obtain ⟨hprogram, -⟩ := (parse_marked ⟨trivial, trivial, fun _ _ => trivial, fun _ _ => trivial⟩ hscan).ok h
  intro d hd
  obtain ⟨event, hevent, hd⟩ := List.mem_filterMap.1 hd
  exact (programEvents_warnsAt parsed.tables.structs hprogram event hevent d hd).isWarning

/-! ## Compilation -/

/-- The records that diagnostics have left in a log are those of the diagnostics that it reports. -/
theorem filter_target (log : List Event) :
    log.filter (·.target = "compi::diagnostics") = (log.filterMap Event.diagnostic?).map .reported := by
  induction log with
  | nil => rfl
  | cons event log ih =>
    rw [List.filter_cons, ih]
    cases event <;> rfl

/-- The warnings of a scan are logged, and nothing else of it is reported. -/
theorem Scan.filterMap_events (source : String) :
    (ofSource source).events.filterMap Event.diagnostic? = (ofSource source).warnings := by
  have hlog : (ofSource source).log = (ofSource source).warnings.map .reported := log_scanFrom ..
  rw [Scan.events, List.filterMap_append, hlog, filterMap_reported]
  cases (ofSource source).outcome with
  | error e => exact List.append_nil _
  | ok stream => exact List.append_nil _

/-- How a source text that is compiled goes through the stages, and what has been reported and logged behind each. -/
theorem exists_stages_of_compile {source : String} {c : Compilation} (h : (compile source).outcome = .ok c) :
    ∃ r r' : Reader, Reader.ofSource source = .ok r ∧ Grammar.program.run r = .ok c.program r' ∧
      (parse source).outcome = .ok ⟨c.program, c.tables, r'.diagnostics⟩ ∧
      c.diagnostics = r'.diagnostics ++
        (Generator.generate { layouts := c.tables.structs } c.program).2.diagnostics ∧
      (compile source).log = .started :: r'.log ++
        [.generating c.program.functions.length c.tables.structs.count] ++
        (Generator.generate { layouts := c.tables.structs } c.program).2.log ++ [.finished] := by
  cases hr : Reader.ofSource source with
  | error e =>
    rw [Reader.ofSource] at hr
    simp [compile, parse, hr] at h
  | ok r =>
    cases hrun : Grammar.program.run r with
    | error e r' =>
      rw [outcome_compile hr, hrun] at h
      cases h
    | ok program r' =>
      have hparse : parse source = ⟨.ok ⟨program, r'.tables, r'.diagnostics⟩, r'.log⟩ := by
        rw [Reader.ofSource] at hr
        rw [EStateM.run] at hrun
        simp only [parse, hr, hrun]
      simp only [compile, hparse] at h ⊢
      cases h
      exact ⟨r, r', rfl, hrun, rfl, rfl, rfl⟩

/-- For every source text that is compiled, what diagnostics have left in the log is, record by record, the list of
diagnostics as they are written. The list has the warnings of the lexer, which are about the directives of the text from
its beginning to its end, then those of the grammar and then those about hardware. -/
theorem warnings_logged_in_order {source : String} {c : Compilation} (h : (compile source).outcome = .ok c) :
    ((compile source).log.filter (·.target = "compi::diagnostics")).map
        (fun event : Event => (event.level, event.text)) =
        c.diagnostics.map (fun d : Diagnostic => (LogLevel.debug, d.logText)) ∧
      ∃ (lexing parsing generating : List Diagnostic) (stream : TokenStream) (spans : List Span)
        (directives : List (List Nat)),
        c.diagnostics = lexing ++ parsing ++ generating ∧
        ((Scan.ofSource source).warnings = lexing ∧ IsTiling source.toList 0 stream lexing spans directives) ∧
        (parse source).outcome = .ok ⟨c.program, c.tables, lexing ++ parsing⟩ ∧
        (Generator.generate { layouts := c.tables.structs } c.program).2.diagnostics = generating ∧
        (lexing.Pairwise fun d later : Diagnostic =>
          ∃ loc loc' : Location, d.loc = some loc ∧ later.loc = some loc' ∧ loc.Precedes loc') ∧
        (∀ d ∈ lexing, d.IsWarning .lexer) ∧ (∀ d ∈ parsing, d.IsWarning .parser) ∧
        ∀ d ∈ generating, d.IsWarning .codegen := by
  obtain ⟨r, r', hr, hrun, hparse, hdiagnostics, hlog⟩ := exists_stages_of_compile h
  obtain ⟨stream, hstream, rfl⟩ := Reader.ofSource_eq_ok hr
  obtain ⟨parsing, hparsing, hlogged, hparser⟩ := Grammar.warns_program hrun
  have hgenerating : (Generator.generate { layouts := c.tables.structs } c.program).2.diagnostics =
      (programEvents c.tables.structs c.program).filterMap Event.diagnostic? := Generator.diagnostics_generate ..
  have hevents : (Generator.generate { layouts := c.tables.structs } c.program).2.log =
      programEvents c.tables.structs c.program := by
    rw [Generator.generate_eq]
    rfl
  obtain ⟨spans, directives, htiling⟩ :=
    Scan.exists_isTiling (show source.toList.drop 0 = source.toList from rfl) (Nat.zero_le _) hstream
  obtain ⟨hlexer, hsorted⟩ := htiling.warnings_in_order
  dsimp only at hparsing hlogged
  rw [hparsing] at hdiagnostics hparse
  refine ⟨?_, _, parsing, _, stream, spans, directives, hdiagnostics, ⟨rfl, htiling⟩, hparse, rfl, hsorted, hlexer,
    hparser, ?_⟩
  · have hreported : (compile source).log.filterMap Event.diagnostic? = c.diagnostics := by
      -- what is logged between the stages reports nothing
      rw [hlog, hevents, List.filterMap_append, List.filterMap_append, List.filterMap_append]
      show r'.log.filterMap Event.diagnostic? ++ [] ++
        (programEvents c.tables.structs c.program).filterMap Event.diagnostic? ++ [] = _
      rw [List.append_nil, List.append_nil, hlogged, Scan.filterMap_events, hdiagnostics, hgenerating]
    rw [filter_target, hreported, List.map_map]
    rfl
  · have hhardware := programEvents_isWarning hparse
    rw [hgenerating]
    exact hhardware

/-- A text with warnings of every stage. -/
def noisySource : String := "#one\n; #two\nint p(int a);\nint f(int a)\x7bint a=g(h(1));a;return a;\x7d"

/-- What is said about `noisySource`, in order. -/
def noisyTexts : List String :=
  ["warning[lexer] line 1: Preprocessor directive ignored: #one",
    "warning[lexer] line 2: Preprocessor directive ignored: #two",
    "warning[parser] line 2: Skipping unexpected ';' at top level",
    "warning[parser] line 3: Function prototype for 'p' ignored",
    "warning[codegen] line 4: Local 'a' in 'f' shadows a port and is emitted as 'a_local'",
    "warning[codegen] line 4: Call to undefined function 'g' emitted as-is",
    "warning[codegen] line 4: Call to undefined function 'h' emitted as-is",
    "warning[codegen] line 4: Expression statement in 'f' has no hardware equivalent"]

theorem warnings_logged_in_order_noisySource :
    ∃ c : Compilation, (compile noisySource).outcome = .ok c ∧ c.diagnostics.map (·.logText) = noisyTexts ∧
      ((compile noisySource).log.filter (·.target = "compi::diagnostics")).map
        (fun event : Event => (event.level, event.text)) =
        c.diagnostics.map (fun d : Diagnostic => (LogLevel.debug, d.logText)) := by
  have hcompiled : (compile noisySource).outcome.toOption.any fun c : Compilation =>
      c.diagnostics.map (·.logText) = noisyTexts := by
    decide +kernel
  obtain ⟨c, hc, htexts⟩ := exists_compilation_of_any hcompiled
  exact ⟨c, hc, of_decide_eq_true htexts, (warnings_logged_in_order hc).1⟩

end ClockedC
