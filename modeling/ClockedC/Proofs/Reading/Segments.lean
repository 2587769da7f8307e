import ClockedC.Proofs.Structs.Sessions

/-!
# What becomes of the tokens of a program

A program that is read uses up its tokens segment by segment. Each segment is an item, or it is skipped with one
warning: no token is passed over in silence.

* `program_segments` : the tokens of a program are its segments.
-/

namespace ClockedC

variable {r r' : Reader}

/-! ## Segments -/

/-- What some tokens of a program give: an item, or a warning about what stands at a location. -/
inductive Yield where
  | item (item : Item)
  | warning (warning : Warning) (loc : Location)

/-- Tokens that are read in one round, with what they give. -/
structure Segment where
  tokens : List Token
  yield : Yield

namespace Segment

/-- The item of a segment that is one. -/
def item? (segment : Segment) : Option Item :=
  match segment.yield with
  | .item item => some item
  | .warning .. => none

/-- The warning on a segment that is skipped. -/
def diagnostic? (segment : Segment) : Option Diagnostic :=
  match segment.yield with
  | .item _ => none
  | .warning warning loc => some (warning.diagnostic loc)

/-- The tokens begin with a type, of one token or of two, with a name at `loc`, and with a parenthesis. -/
def BeginsFunction (name : String) (loc : Location) (tokens : List Token) : Prop :=
  ∃ type paren rest, (type.length = 1 ∨ type.length = 2) ∧ paren.lexeme = .symbol .openParen ∧
    tokens = type ++ ⟨.identifier name, loc⟩ :: paren :: rest

/-- The last of the tokens is a symbol. -/
def EndsWith (symbol : Symbol) (tokens : List Token) : Prop :=
  ∃ front loc, tokens = front ++ [⟨.symbol symbol, loc⟩]

/-- The tokens are those of what they give: all of a struct, a function or a prototype, a global variable to its
semicolon or to the end, or the one token that begins nothing. A warning stands at the first of the tokens, and at the
name of a prototype. -/
def Explained (segment : Segment) : Prop :=
  match segment.yield with
  | .item (.struct decl) =>
    ∃ loc rest, segment.tokens = ⟨.keyword .struct, loc⟩ :: ⟨.identifier decl.name, decl.loc⟩ :: rest ∧
      EndsWith .semicolon rest
  | .item (.function f) => BeginsFunction f.name f.loc segment.tokens ∧ EndsWith .closeBrace segment.tokens
  | .warning (.prototype name) loc => BeginsFunction name loc segment.tokens ∧ EndsWith .semicolon segment.tokens
  | .warning .globalVariable loc =>
    segment.tokens.head?.map (·.loc) = some loc ∧ ∀ t ∈ segment.tokens.dropLast, t.lexeme ≠ .symbol .semicolon
  | .warning (.strayToken found) loc => segment.tokens = [⟨found, loc⟩]
  | .warning .missingStructName loc => segment.tokens = [⟨.keyword .struct, loc⟩]
  | .warning (.missingDeclarator _) loc => ∃ keyword, segment.tokens = [⟨.keyword keyword, loc⟩]
  | .warning _ _ => False

theorem Explained.tokens_ne_nil {segment : Segment} (h : segment.Explained) : segment.tokens ≠ [] := by
  intro hnil
  unfold Explained at h
  split at h <;> simp_all [BeginsFunction, EndsWith]

/-- The warning on a segment comes from reading, and stands at its first token or at the name of a prototype. -/
theorem Explained.of_diagnostic? {segment : Segment} {d : Diagnostic} (h : segment.Explained)
    (hd : segment.diagnostic? = some d) :
    d.category = .parser ∧ d.severity = .warning ∧
      (d.loc = segment.tokens.head?.map (·.loc) ∨
        ∃ name loc, d = (Warning.prototype name).diagnostic loc ∧ BeginsFunction name loc segment.tokens) := by
  obtain ⟨tokens, yield⟩ := segment
  cases yield with
  | item item => cases hd
  | warning warning loc =>
    cases hd
    cases warning with
    | prototype name => exact ⟨rfl, rfl, .inr ⟨name, loc, rfl, h.1⟩⟩
    | globalVariable => exact ⟨rfl, rfl, .inl h.1.symm⟩
    | strayToken found =>
      cases h
      exact ⟨rfl, rfl, .inl rfl⟩
    | missingStructName =>
      cases h
      exact ⟨rfl, rfl, .inl rfl⟩
    | missingDeclarator found =>
      obtain ⟨keyword, h⟩ := h
      cases h
      exact ⟨rfl, rfl, .inl rfl⟩
    | directive text => cases h
    | shadowedPort name function signal => cases h
    | undefinedCall function => cases h
    | unusedValue function => cases h

/-- Every segment gives an item or a warning, and never both. -/
theorem length_filterMap_add (segments : List Segment) :
    (segments.filterMap item?).length + (segments.filterMap diagnostic?).length = segments.length := by
  induction segments with
  | nil => rfl
  | cons segment segments ih =>
    obtain ⟨tokens, yield⟩ := segment
    cases yield with
    | item item =>
      simp only [List.filterMap_cons, item?, diagnostic?, List.length_cons]
      omega
    | warning warning loc =>
      simp only [List.filterMap_cons, item?, diagnostic?, List.length_cons]
      omega

end Segment

/-- Between two readers stand the tokens of a segment, and the warning on it if it is skipped. -/
structure Segment.Between (segment : Segment) (r r' : Reader) : Prop where
  rest_eq : r.rest = segment.tokens ++ r'.rest
  diagnostics_eq : r'.diagnostics = r.diagnostics ++ segment.diagnostic?.toList
  explained : segment.Explained

/-! ## Tokens that are gone past -/

theorem Reader.rest_eq_cons_of_next {lexeme : Lexeme} (h : r.next.lexeme = lexeme) (hne : lexeme ≠ .eof) :
    r.rest = ⟨lexeme, r.next.loc⟩ :: r.rest.tail := by
  obtain ⟨ts, hts⟩ := exists_rest_eq_cons (h ▸ hne : r.next.lexeme ≠ .eof)
  rw [hts, List.tail_cons, ← h]

namespace Grammar

/-- An expected symbol uses up its token. -/
theorem rest_of_expect {symbol : Symbol} {context : String} {u : Unit} (h : (expect symbol context).run r = .ok u r') :
    r.rest = ⟨.symbol symbol, r.next.loc⟩ :: r'.rest := by
  obtain ⟨hnext, rfl⟩ := run_expect_eq_ok h
  exact Reader.rest_eq_cons_of_next hnext (by simp)

/-- A name uses up its token. -/
theorem rest_of_identifier {name : String} (h : identifier.run r = .ok name r') :
    r.rest = ⟨.identifier name, r.next.loc⟩ :: r'.rest := by
  obtain ⟨hnext, rfl⟩ := run_identifier_eq_ok h
  exact Reader.rest_eq_cons_of_next hnext (by simp)

theorem rest_of_accept {symbol : Symbol} (h : (accept symbol).run r = .ok true r') :
    r.rest = ⟨.symbol symbol, r.next.loc⟩ :: r'.rest := by
  obtain ⟨-, hnext, rfl⟩ | ⟨hfalse, -⟩ := run_accept_eq_ok h
  · exact Reader.rest_eq_cons_of_next hnext (by simp)
  · cases hfalse

/-- A type is one token, or two for a struct. -/
theorem rest_of_dataType {type : DataType} (h : dataType.run r = .ok type r') :
    ∃ ts, (ts.length = 1 ∨ ts.length = 2) ∧ r.rest = ts ++ r'.rest := by
  rw [dataType, run_bind_of_ok (run_current r)] at h
  split at h
  case h_6 hnext =>
    rw [run_bind_of_ok (run_advance r)] at h
    obtain ⟨name, r₁, hname, h⟩ := run_bind_eq_ok.1 h
    rw [run_bind_of_ok (EStateM.run_get r₁)] at h
    dsimp only at h
    split at h <;> cases h
    have htail : r.rest.tail = _ :: r'.rest := rest_of_identifier hname
    exact ⟨[_, _], .inr rfl, by rw [Reader.rest_eq_cons_of_next hnext (by simp), htail]; rfl⟩
  case h_7 => cases h
  all_goals
    next hnext =>
    rw [run_bind_of_ok (run_advance r)] at h
    cases h
    exact ⟨[_], .inl rfl, Reader.rest_eq_cons_of_next hnext (by simp)⟩

/-- The tokens behind the next semicolon, or none, are left, and at least one is gone past. -/
theorem exists_append_dropThrough (p : Token → Bool) (t : Token) (ts : List Token) :
    ∃ segment, t :: ts = segment ++ ((t :: ts).dropWhile fun t => !p t).tail ∧ segment.head? = some t ∧
      ∀ u ∈ segment.dropLast, p u = false := by
  have hsplit := (List.takeWhile_append_dropWhile (p := fun t => !p t) (l := t :: ts)).symm
  have hbefore : ∀ u ∈ (t :: ts).takeWhile fun t => !p t, p u = false := by
    intro u hu
    simpa using List.mem_takeWhile_imp hu
  cases hdrop : (t :: ts).dropWhile fun t => !p t with
  | nil =>
    -- no such token comes, and all are gone past
    rw [hdrop, List.append_nil] at hsplit
    refine ⟨t :: ts, by simp, rfl, ?_⟩
    intro u hu
    exact hbefore u (hsplit ▸ List.dropLast_subset _ hu)
  | cons u us =>
    rw [hdrop] at hsplit
    refine ⟨(t :: ts).takeWhile (fun t => !p t) ++ [u], ?_, ?_, ?_⟩
    · rw [List.append_assoc]
      exact hsplit
    · cases htake : (t :: ts).takeWhile fun t => !p t with
      | nil =>
        rw [htake] at hsplit
        cases hsplit
        rfl
      | cons v vs =>
        rw [htake] at hsplit
        cases hsplit
        rfl
    · rwa [List.dropLast_concat]

/-! ## Structs and functions -/

/-- A struct is read to the semicolon behind it, and no warning is given. -/
theorem rest_of_structDefinition {decl : Struct} (h : structDefinition.run r = .ok decl r') :
    r'.diagnostics = r.diagnostics ∧
      ∃ ts, r.rest = ⟨.identifier decl.name, decl.loc⟩ :: (ts ++ r'.rest) ∧ Segment.EndsWith .semicolon ts := by
  rw [structDefinition, run_bind_of_ok (run_current r)] at h
  obtain ⟨name, r₁, hname, h⟩ := run_bind_eq_ok.1 h
  rw [run_bind_of_ok (EStateM.run_get r₁)] at h
  dsimp only at h
  split at h
  · cases h
  obtain ⟨_, r₂, hopen, h⟩ := run_bind_eq_ok.1 h
  rw [run_bind_of_ok (EStateM.run_get r₂)] at h
  obtain ⟨fields, r₃, hfields, h⟩ := run_bind_eq_ok.1 h
  obtain ⟨_, r₄, hclose, h⟩ := run_bind_eq_ok.1 h
  obtain ⟨_, r₅, hsemicolon, h⟩ := run_bind_eq_ok.1 h
  split at h
  · cases h
  cases h
  have hpasses : r₁.Passes r₄ := ((Moves.expect ..).passes hopen).trans
    (((Moves.structFields ..).passes hfields).trans ((Moves.expect ..).passes hclose))
  obtain ⟨front, hfront⟩ := hpasses.suffix
  refine ⟨?_, front ++ [⟨.symbol .semicolon, r₄.next.loc⟩], ?_, front, _, rfl⟩
  · exact ((Moves.expect ..).passes hsemicolon).diagnostics_eq.trans
      (hpasses.diagnostics_eq.trans (Moves.identifier.passes hname).diagnostics_eq)
  · rw [rest_of_identifier hname, ← hfront, rest_of_expect hsemicolon, List.append_assoc]
    rfl

/-- The tokens from the head of a function to a symbol further on. -/
theorem exists_tokens_of_head {type : List Token} {name : String} {loc loc' loc'' : Location} {symbol : Symbol}
    {inside last : Reader} (hlength : type.length = 1 ∨ type.length = 2)
    (hhead : r.rest = type ++ ⟨.identifier name, loc⟩ :: ⟨.symbol .openParen, loc'⟩ :: inside.rest)
    (hsuffix : last.rest <:+ inside.rest) (hlast : last.rest = ⟨.symbol symbol, loc''⟩ :: r'.rest) :
    ∃ ts, r.rest = ts ++ r'.rest ∧ Segment.BeginsFunction name loc ts ∧ Segment.EndsWith symbol ts := by
  obtain ⟨front, hfront⟩ := hsuffix
  refine ⟨type ++ ⟨.identifier name, loc⟩ :: ⟨.symbol .openParen, loc'⟩ :: (front ++ [⟨.symbol symbol, loc''⟩]), ?_,
    ⟨type, _, _, hlength, rfl, rfl⟩,
    ⟨type ++ ⟨.identifier name, loc⟩ :: ⟨.symbol .openParen, loc'⟩ :: front, loc'', ?_⟩⟩
  · rw [hhead, ← hfront, hlast]
    simp only [List.append_assoc, List.cons_append, List.nil_append]
  · rw [List.append_assoc]
    rfl

/-- A function is read to its closing brace, and no warning is given; a prototype is read to its semicolon, and gives a
warning at its name. -/
theorem exists_between_of_functionDefinition {f : Option Function} (h : functionDefinition.run r = .ok f r') :
    ∃ segment : Segment, segment.item? = f.map .function ∧ segment.Between r r' := by
  obtain ⟨result, r₁, hresult, h⟩ := run_bind_eq_ok.1 h
  rw [run_bind_of_ok (run_current r₁)] at h
  obtain ⟨name, r₂, hname, h⟩ := run_bind_eq_ok.1 h
  obtain ⟨_, r₃, hopen, h⟩ := run_bind_eq_ok.1 h
  rw [run_bind_of_ok (EStateM.run_modify _ r₃)] at h
  obtain ⟨ps, r₄, hps, h⟩ := run_bind_eq_ok.1 h
  obtain ⟨_, r₅, hclose, h⟩ := run_bind_eq_ok.1 h
  obtain ⟨b, r₆, haccept, h⟩ := run_bind_eq_ok.1 h
  obtain ⟨type, hlength, htype⟩ := rest_of_dataType hresult
  have hhead : r.rest = type ++ ⟨.identifier name, r₁.next.loc⟩ :: ⟨.symbol .openParen, r₂.next.loc⟩ :: r₃.rest := by
    rw [htype, rest_of_identifier hname, rest_of_expect hopen]
  have hwarnings : r₃.diagnostics = r.diagnostics := ((Moves.dataType.passes hresult).trans
    ((Moves.identifier.passes hname).trans ((Moves.expect ..).passes hopen))).diagnostics_eq
  have hpasses₅ := (Moves.parameters.passes hps).trans ((Moves.expect ..).passes hclose)
  have hpasses₆ := hpasses₅.trans ((Moves.accept _).passes haccept)
  -- a semicolon in place of the body makes it a prototype
  cases b with
  | true =>
    obtain ⟨ts, hts, hbegins, hends⟩ := exists_tokens_of_head hlength hhead hpasses₅.suffix (rest_of_accept haccept)
    cases h
    refine ⟨⟨ts, .warning (.prototype name) r₁.next.loc⟩, rfl, hts, ?_, hbegins, hends⟩
    show r₆.diagnostics ++ _ = _
    rw [hpasses₆.diagnostics_eq, ← hwarnings]
    rfl
  | false =>
    obtain ⟨_, r₇, hbrace, h⟩ := run_bind_eq_ok.1 h
    rw [run_bind_of_ok (EStateM.run_modify _ r₇)] at h
    obtain ⟨body, r₈, hbody, h⟩ := run_bind_eq_ok.1 h
    obtain ⟨_, r₉, hend, h⟩ := run_bind_eq_ok.1 h
    have hpasses₇ := hpasses₆.trans ((Moves.expect ..).passes hbrace)
    have hpasses₈ := MovesLocally.block.passes hbody
    obtain ⟨ts, hts, hbegins, hends⟩ :=
      exists_tokens_of_head hlength hhead (hpasses₈.suffix.trans hpasses₇.suffix) (rest_of_expect hend)
    have hdiagnostics : r₉.diagnostics = r.diagnostics := calc
      r₉.diagnostics = r₈.diagnostics := ((Moves.expect ..).passes hend).diagnostics_eq
      _ = r₇.diagnostics := hpasses₈.diagnostics_eq
      _ = r₃.diagnostics := hpasses₇.diagnostics_eq
      _ = r.diagnostics := hwarnings
    cases h
    exact ⟨⟨ts, .item (.function ⟨name, result, ps, body, r₁.next.loc⟩)⟩, rfl, hts,
      hdiagnostics.trans (List.append_nil _).symm, hbegins, hends⟩

/-! ## Items -/

/-- What is skipped with a warning is one token. -/
theorem between_of_skipWarning {warning : Warning} {loc : Location} {item : Option Item}
    (h : (skipWarning warning loc).run r = .ok item r') (hnext : r.next.lexeme ≠ .eof)
    (hexplained : Segment.Explained ⟨[r.next], .warning warning loc⟩) :
    item = none ∧ Segment.Between ⟨[r.next], .warning warning loc⟩ r r' := by
  obtain ⟨_, r₁, hwarn, h⟩ := run_bind_eq_ok.1 h
  cases hwarn
  rw [run_bind_of_ok (run_advance _)] at h
  cases h
  exact ⟨rfl, Reader.rest_eq_cons_of_next rfl hnext, rfl, hexplained⟩

/-- What begins with a type is a function, a prototype or a global variable, or its first token is skipped. -/
theorem exists_between_of_typedItem {length : Nat} {item : Option Item} {keyword : Keyword}
    (hnext : r.next.lexeme = .keyword keyword) (h : (typedItem length r.next.loc).run r = .ok item r') :
    ∃ segment : Segment, segment.item? = item ∧ segment.Between r r' := by
  have hne : r.next.lexeme ≠ .eof := by simp [hnext]
  rw [typedItem, run_bind_of_ok (run_lexemeAhead _ r), run_bind_of_ok (run_lexemeAhead _ r)] at h
  split at h
  · obtain ⟨f, r₁, hf, h⟩ := run_bind_eq_ok.1 h
    cases h
    exact exists_between_of_functionDefinition hf
  · -- a global variable is gone past up to its semicolon
    obtain ⟨_, r₁, hwarn, h⟩ := run_bind_eq_ok.1 h
    cases hwarn
    cases h
    obtain ⟨ts, hts⟩ := Reader.exists_rest_eq_cons hne
    obtain ⟨segment, hsplit, hhead, hbefore⟩ :=
      exists_append_dropThrough (fun t => t.lexeme = .symbol .semicolon) r.next ts
    refine ⟨⟨segment, .warning .globalVariable r.next.loc⟩, rfl, ?_, rfl, ?_, ?_⟩
    · rw [← hts] at hsplit
      exact hsplit
    · rw [hhead]
      rfl
    · simpa using hbefore
  · obtain ⟨rfl, hbetween⟩ := between_of_skipWarning h hne ⟨keyword, by rw [← hnext]⟩
    exact ⟨_, rfl, hbetween⟩

/-- One round of the grammar reads one segment. -/
theorem exists_between_of_topLevel {item : Option Item} {r r' : Reader} (hne : r.next.lexeme ≠ .eof)
    (h : topLevel.run r = .ok item r') : ∃ segment : Segment, segment.item? = item ∧ segment.Between r r' := by
  rw [topLevel, run_bind_of_ok (run_current r)] at h
  split at h
  -- the keyword `struct` begins a definition or a type, or is skipped alone
  case h_1 hnext =>
    rw [run_bind_of_ok (run_lexemeAhead _ r), run_bind_of_ok (run_lexemeAhead _ r)] at h
    split at h
    · rw [run_bind_of_ok (run_advance r)] at h
      obtain ⟨decl, r₁, hdecl, h⟩ := run_bind_eq_ok.1 h
      cases h
      obtain ⟨hdiagnostics, ts, hrest, hends⟩ := rest_of_structDefinition hdecl
      refine ⟨⟨⟨.keyword .struct, r.next.loc⟩ :: ⟨.identifier decl.name, decl.loc⟩ :: ts, .item (.struct decl)⟩,
        rfl, ?_, ?_, r.next.loc, ts, rfl, hends⟩
      · rw [Reader.rest_eq_cons_of_next hnext (by simp), show r.rest.tail = _ from hrest]
        rfl
      · show r'.diagnostics = r.diagnostics ++ []
        rw [List.append_nil]
        exact hdiagnostics
    · exact exists_between_of_typedItem hnext h
    · obtain ⟨rfl, hbetween⟩ := between_of_skipWarning h hne (by
        show [r.next] = [⟨.keyword .struct, r.next.loc⟩]
        rw [← hnext])
      exact ⟨_, rfl, hbetween⟩
  -- no item begins with any other lexeme
  case h_7 =>
    obtain ⟨rfl, hbetween⟩ := between_of_skipWarning h hne rfl
    exact ⟨_, rfl, hbetween⟩
  all_goals
    next hnext => exact exists_between_of_typedItem hnext h

end Grammar

/-! ## Rows of segments -/

/-- Reading from `r` round by round gives the segments in turn, and ends before no token with `r'`. -/
inductive Reader.ReadsSegments : Reader → List Segment → Reader → Prop
  | nil {r : Reader} (rest_eq : r.rest = []) : ReadsSegments r [] r
  | cons {r r₁ r' : Reader} {segment : Segment} {segments : List Segment}
      (run_topLevel : Grammar.topLevel.run r = .ok segment.item? r₁) (between : segment.Between r r₁)
      (next : ReadsSegments r₁ segments r') : ReadsSegments r (segment :: segments) r'

namespace Reader.ReadsSegments

variable {segments : List Segment}

theorem rest_eq (h : ReadsSegments r segments r') : r.rest = segments.flatMap Segment.tokens := by
  induction h with
  | nil hrest => exact hrest
  | cons _ between _ ih => rw [between.rest_eq, ih, List.flatMap_cons]

/-- The warnings that are added are those of the segments, one for each that is skipped. -/
theorem diagnostics_eq (h : ReadsSegments r segments r') :
    r'.diagnostics = r.diagnostics ++ segments.filterMap Segment.diagnostic? := by
  induction h with
  | nil hrest => exact (List.append_nil _).symm
  | @cons r r₁ r' segment segments _ between _ ih =>
    rw [ih, between.diagnostics_eq, List.append_assoc, List.filterMap_cons]
    cases segment.diagnostic? <;> rfl

/-- Every segment that is read is explained. -/
theorem explained (h : ReadsSegments r segments r') : ∀ segment ∈ segments, segment.Explained := by
  induction h with
  | nil hrest => simp
  | cons _ between _ ih => exact List.forall_mem_cons.2 ⟨between.explained, ih⟩

end Reader.ReadsSegments

/-- Items that are read up to the end are those of a row of segments. -/
theorem Grammar.exists_readsSegments {depth : Nat} {is : List Item} (heof : .eof ∉ r.rest.map (·.lexeme))
    (h : (items depth).run r = .ok is r') :
    ∃ segments, r.ReadsSegments segments r' ∧ is = segments.filterMap Segment.item? := by
  induction depth generalizing r is with
  | zero => cases h
  | succ depth ih =>
    rw [items, itemsBy, run_bind_of_ok (run_nextIs _ r)] at h
    split at h
    · next hnext =>
      cases h
      -- the tokens hold no mark of the end, so it is next only where none of them is left
      refine ⟨[], .nil ?_, rfl⟩
      cases hrest : r'.rest with
      | nil => rfl
      | cons t ts =>
        have hmem : r'.next.lexeme ∈ r'.rest.map (·.lexeme) := by simp [Reader.next_eq_head, hrest]
        rw [of_decide_eq_true hnext] at hmem
        exact absurd hmem heof
    · next hnext =>
      obtain ⟨item, r₁, hitem, h⟩ := run_bind_eq_ok.1 h
      obtain ⟨rest, r₂, hrest, h⟩ := run_bind_eq_ok.1 h
      cases h
      obtain ⟨segment, rfl, hbetween⟩ := exists_between_of_topLevel (by simpa using hnext) hitem
      rw [hbetween.rest_eq, List.map_append, List.mem_append, not_or] at heof
      obtain ⟨segments, hreads, rfl⟩ := ih heof.2 hrest
      refine ⟨segment :: segments, .cons hitem hbetween hreads, ?_⟩
      rw [List.filterMap_cons]
      cases segment.item? <;> rfl

/-- Neither the definition of a struct nor the body of a function gives a warning, whether it can be read or not. -/
theorem Grammar.diagnostics_within (r : Reader) :
    (Outcome.reader (structDefinition.run r)).diagnostics = r.diagnostics ∧
      (Outcome.reader (block.run r)).diagnostics = r.diagnostics := by
  refine ⟨?_, (MovesLocally.block.run_passes r).diagnostics_eq⟩
  cases h : structDefinition.run r with
  | ok decl r' => exact (rest_of_structDefinition h).1
  | error e r' => exact (FailsMoving.structDefinition.passes h).diagnostics_eq

/-- The tokens of a program that is read, up to the first mark of the end, are consecutive segments that are not empty.
Each of them is an item of the program and gives no warning, or it is no item and gives one warning. The warning stands
at the first token of the segment, or for a prototype at the name of the function. No other warning is given: none in
the definition of a struct, and none in the body of a function. -/
theorem program_segments {tokens : List Token} {p : Program} {r' : Reader}
    (h : Grammar.program.run (Reader.ofStream (.ofTokens tokens)) = .ok p r') :
    (∃ segments r₁, (Reader.ofStream (.ofTokens tokens)).ReadsSegments segments r₁ ∧
      segments.flatMap Segment.tokens = tokens.takeWhile (·.lexeme ≠ .eof) ∧
      p.items = segments.filterMap Segment.item? ∧
      r'.diagnostics = segments.filterMap Segment.diagnostic? ∧
      p.items.length + r'.diagnostics.length = segments.length ∧
      ∀ segment ∈ segments, segment.tokens ≠ [] ∧ segment.Explained ∧
        ∀ d, segment.diagnostic? = some d → d.category = .parser ∧ d.severity = .warning ∧
          (d.loc = segment.tokens.head?.map (·.loc) ∨
            ∃ name loc, d = (Warning.prototype name).diagnostic loc ∧
              Segment.BeginsFunction name loc segment.tokens)) ∧
      ∀ r : Reader, (Grammar.Outcome.reader (Grammar.structDefinition.run r)).diagnostics = r.diagnostics ∧
        (Grammar.Outcome.reader (Grammar.block.run r)).diagnostics = r.diagnostics := by
  refine ⟨?_, Grammar.diagnostics_within⟩
  rw [Grammar.program, Grammar.run_bind_of_ok (EStateM.run_get _)] at h
  obtain ⟨is, r₁, his, h⟩ := Grammar.run_bind_eq_ok.1 h
  cases h
  have hrest : (Reader.ofStream (.ofTokens tokens)).rest = tokens.takeWhile (·.lexeme ≠ .eof) :=
    TokenStream.front_ofTokens tokens
  have heof : .eof ∉ (Reader.ofStream (.ofTokens tokens)).rest.map (·.lexeme) := by
    rw [hrest, List.mem_map]
    rintro ⟨t, ht, heof⟩
    have hne := List.mem_takeWhile_imp ht
    simp [heof] at hne
  obtain ⟨segments, hreads, rfl⟩ := Grammar.exists_readsSegments heof his
  have hdiagnostics : r₁.diagnostics = segments.filterMap Segment.diagnostic? := hreads.diagnostics_eq
  refine ⟨segments, r₁, hreads, hreads.rest_eq.symm.trans hrest, rfl, hdiagnostics, ?_, ?_⟩
  · show _ + r₁.diagnostics.length = _
    rw [hdiagnostics]
    exact Segment.length_filterMap_add segments
  · intro segment hsegment
    have hexplained := hreads.explained segment hsegment
    exact ⟨hexplained.tokens_ne_nil, hexplained, fun d hd => hexplained.of_diagnostic? hd⟩

/-- A struct and a function among stray tokens, a prototype and two global variables, the second of which has no
semicolon before the mark of the end. -/
def mixedTokens : List Token :=
  let lexemes : List Lexeme :=
    [.symbol .semicolon, .keyword .struct, .symbol .semicolon, .keyword .int, .number "3",
      .keyword .int, .identifier "g", .symbol .assign, .number "1", .symbol .semicolon,
      .keyword .void, .identifier "f", .symbol .openParen, .symbol .closeParen, .symbol .semicolon,
      .keyword .struct, .identifier "P", .symbol .openBrace, .keyword .int, .identifier "x", .symbol .semicolon,
      .symbol .closeBrace, .symbol .semicolon,
      .keyword .struct, .identifier "P", .identifier "h", .symbol .openParen, .symbol .closeParen, .symbol .openBrace,
      .symbol .closeBrace,
      .keyword .int, .identifier "y", .eof, .keyword .int]
  lexemes.mapIdx fun i lexeme => ⟨lexeme, ⟨1, i + 1⟩⟩

theorem program_segments_mixedTokens :
    ∃ p r', Grammar.program.run (Reader.ofStream (.ofTokens mixedTokens)) = .ok p r' ∧ p.items.length = 2 ∧
      r'.diagnostics.map (·.loc) = [1, 2, 3, 4, 5, 6, 12, 31].map (fun column => some ⟨1, column⟩) ∧
      ∃ segments : List Segment, segments.length = 10 ∧ segments.flatMap Segment.tokens = mixedTokens.take 32 ∧
        p.items = segments.filterMap Segment.item? := by
  have hchecked : (Reader.ofStream (.ofTokens mixedTokens)).yields Grammar.program (fun p r' => p.items.length = 2 &&
      r'.diagnostics.map (·.loc) = [1, 2, 3, 4, 5, 6, 12, 31].map (fun column => some ⟨1, column⟩)) := by
    decide +kernel
  obtain ⟨p, r', hrun, hcheck⟩ := Reader.exists_run_of_yields hchecked
  simp only [Bool.and_eq_true, decide_eq_true_eq] at hcheck
  obtain ⟨hitems, hlocations⟩ := hcheck
  obtain ⟨⟨segments, r₁, -, htokens, hsegments, -, hlength, -⟩, -⟩ := program_segments hrun
  have hwarnings : r'.diagnostics.length = 8 := by simpa using congrArg List.length hlocations
  refine ⟨p, r', hrun, hitems, hlocations, segments, by omega, htokens.trans ?_, hsegments⟩
  decide +kernel

end ClockedC
