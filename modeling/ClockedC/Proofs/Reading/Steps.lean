import ClockedC.Grammar.Program
import ClockedC.Proofs.Scanning.Pieces

/-!
# Running the steps of the grammar

What each move of the grammar does to a reader, as an equation on `EStateM.run`, so that the productions can be
followed move by move.
-/

namespace ClockedC

variable {r r' : Reader}

/-! ## Readers before given tokens -/

namespace Reader

/-- The reader before `tokens` in place of the tokens not yet read. -/
def withRest (r : Reader) (tokens : List Token) : Reader := { r with queue := .ofList tokens }

@[simp] theorem rest_withRest (r : Reader) (tokens : List Token) : (r.withRest tokens).rest = tokens := rfl

/-- Only the tokens that a reader is put before last count. -/
@[simp] theorem withRest_withRest (r : Reader) (ts us : List Token) :
    (r.withRest ts).withRest us = r.withRest us := rfl

@[simp] theorem eof_withRest (r : Reader) (ts : List Token) : (r.withRest ts).eof = r.eof := rfl

@[simp] theorem tables_withRest (r : Reader) (ts : List Token) : (r.withRest ts).tables = r.tables := rfl

@[simp] theorem loopDepth_withRest (r : Reader) (ts : List Token) :
    (r.withRest ts).loopDepth = r.loopDepth := rfl

@[simp] theorem diagnostics_withRest (r : Reader) (ts : List Token) :
    (r.withRest ts).diagnostics = r.diagnostics := rfl

/-- Two readers that differ in their queues alone are equal if the queues hold the same tokens. -/
theorem with_queue_eq_withRest (r : Reader) (queue : TokenQueue) :
    { r with queue := queue } = r.withRest queue.tokens := by
  have : queue = .ofList queue.tokens := TokenQueue.ext rfl
  rw [withRest, ← this]

/-- A reader stands before its own tokens. -/
@[simp] theorem withRest_rest (r : Reader) : r.withRest r.rest = r :=
  (with_queue_eq_withRest r r.queue).symm

/-- The next token is the first one that is left, or the end. -/
theorem next_eq_head (r : Reader) : r.next = r.rest.head?.getD ⟨.eof, r.eof⟩ := by
  rw [next, ahead, List.head?_eq_getElem?]
  cases r.rest[0]? with
  | none => rw [Nat.zero_sub, ending]; rfl
  | some t => rfl

@[simp] theorem next_withRest_cons (r : Reader) (t : Token) (ts : List Token) :
    (r.withRest (t :: ts)).next = t := rfl

@[simp] theorem next_withRest_nil (r : Reader) : (r.withRest []).next = ⟨.eof, r.eof⟩ := rfl

/-- Behind a token, the others are one place nearer. -/
@[simp] theorem ahead_withRest_cons_succ (r : Reader) (t : Token) (ts : List Token) (n : Nat) :
    (r.withRest (t :: ts)).ahead (n + 1) = (r.withRest ts).ahead n := by
  have hsize : n + 1 - (TokenQueue.ofList (t :: ts)).size = n - (TokenQueue.ofList ts).size :=
    Nat.add_sub_add_right n 1 ts.length
  rw [ahead, ahead, rest_withRest, rest_withRest, List.getElem?_cons_succ]
  simp only [withRest, hsize, ending]

@[simp] theorem ahead_zero (r : Reader) : r.ahead 0 = r.next := rfl

/-- The depth that is allowed depends on the number of tokens left. -/
@[simp] theorem depth_withRest (r : Reader) (ts : List Token) :
    (r.withRest ts).depth = 4 * (ts.length + 1) := depth_eq _

/-- If the next lexeme is not the end, the reader stands before a token. -/
theorem exists_rest_eq_cons (h : r.next.lexeme ≠ .eof) : ∃ ts, r.rest = r.next :: ts := by
  rw [next_eq_head] at h ⊢
  cases hrest : r.rest with
  | nil => simp [hrest] at h
  | cons t ts => exact ⟨ts, by simp⟩

/-- Behind the next token, the others are one place nearer. -/
theorem ahead_succ (h : r.next.lexeme ≠ .eof) (n : Nat) : r.ahead (n + 1) = (r.withRest r.rest.tail).ahead n := by
  obtain ⟨ts, hts⟩ := exists_rest_eq_cons h
  calc r.ahead (n + 1) = (r.withRest (r.next :: ts)).ahead (n + 1) := by rw [← hts, withRest_rest]
    _ = (r.withRest r.rest.tail).ahead n := by rw [ahead_withRest_cons_succ, hts, List.tail_cons]

/-- The second token is next behind the first one. -/
theorem ahead_one (h : r.next.lexeme ≠ .eof) : r.ahead 1 = (r.withRest r.rest.tail).next := ahead_succ h 0

end Reader

namespace Grammar

variable {α β : Type}

/-! ## Sequences of steps -/

/-- A sequence of steps succeeds if and only if its parts succeed in turn. -/
theorem run_bind_eq_ok {p : ReadM α} {k : α → ReadM β} {b : β} :
    (p >>= k).run r = .ok b r' ↔ ∃ a r₁, p.run r = .ok a r₁ ∧ (k a).run r₁ = .ok b r' := by
  rw [EStateM.run_bind]
  cases p.run r with
  | ok a r₁ =>
    constructor
    · intro h
      exact ⟨a, r₁, rfl, h⟩
    · rintro ⟨a', r₁', h, h'⟩
      cases h
      exact h'
  | error e r₁ => simp

/-- A step that succeeds hands its value and its reader over to what follows. -/
theorem run_bind_of_ok {p : ReadM α} {k : α → ReadM β} {a : α} (h : p.run r = .ok a r') :
    (p >>= k).run r = (k a).run r' := by
  rw [EStateM.run_bind, h]

/-- A step whose value is changed succeeds if and only if the step does. -/
theorem run_map_eq_ok {f : α → β} {p : ReadM α} {b : β} :
    (f <$> p).run r = .ok b r' ↔ ∃ a, p.run r = .ok a r' ∧ b = f a := by
  rw [EStateM.run_map, EStateM.Result.map_eq_ok]

/-- An error leaves the reader as it is. -/
@[simp] theorem run_throw (e : CompileError) (r : Reader) : (throw e : ReadM α).run r = .error e r := rfl

/-! ## Looking at tokens -/

@[simp] theorem run_current (r : Reader) : current.run r = .ok r.next r := rfl

@[simp] theorem run_lexemeAhead (n : Nat) (r : Reader) :
    (lexemeAhead n).run r = .ok (r.ahead n).lexeme r := rfl

@[simp] theorem run_nextIs (lexeme : Lexeme) (r : Reader) :
    (nextIs lexeme).run r = .ok (r.next.lexeme = lexeme) r := rfl

/-! ## Moving on -/

/-- One token is passed, and nothing at the end. -/
@[simp] theorem run_advance (r : Reader) : advance.run r = .ok () (r.withRest r.rest.tail) := by
  rw [advance, EStateM.run_modify, Reader.with_queue_eq_withRest]
  rfl

/-- A lexeme is passed if it is next, and otherwise the reader stays. -/
theorem run_acceptLexeme (lexeme : Lexeme) (r : Reader) :
    (acceptLexeme lexeme).run r =
      if r.next.lexeme = lexeme then .ok true (r.withRest r.rest.tail) else .ok false r := by
  rw [acceptLexeme, run_bind_of_ok (run_nextIs lexeme r)]
  by_cases h : r.next.lexeme = lexeme <;> simp [h]

/-- A symbol is passed if it is next. -/
theorem run_accept (symbol : Symbol) (r : Reader) :
    (accept symbol).run r =
      if r.next.lexeme = .symbol symbol then .ok true (r.withRest r.rest.tail) else .ok false r :=
  run_acceptLexeme ..

/-- A keyword is passed if it is next. -/
theorem run_acceptKeyword (keyword : Keyword) (r : Reader) :
    (acceptKeyword keyword).run r =
      if r.next.lexeme = .keyword keyword then .ok true (r.withRest r.rest.tail) else .ok false r :=
  run_acceptLexeme ..

@[simp] theorem run_refuse (fault : SyntacticFault) (loc : Location) (r : Reader) :
    (refuse fault loc : ReadM α).run r = .error (.syntactic fault loc) r := rfl

@[simp] theorem run_refuseDeclaration (fault : DeclarationFault) (loc : Location) (r : Reader) :
    (refuseDeclaration fault loc : ReadM α).run r = .error (.declaration fault loc) r := rfl

/-- Nesting too deep is reported at the next token. -/
@[simp] theorem run_refuseDepth (r : Reader) :
    (refuseDepth : ReadM α).run r = .error (.syntactic .tooDeep r.next.loc) r := rfl

/-- A symbol is passed if it is next, and otherwise reported as missing. -/
theorem run_expect (symbol : Symbol) (context : String) (r : Reader) :
    (expect symbol context).run r =
      if r.next.lexeme = .symbol symbol then .ok () (r.withRest r.rest.tail)
      else .error (.syntactic (.missing symbol context r.next.lexeme) r.next.loc) r := by
  rw [expect, EStateM.run_bind, run_accept]
  by_cases h : r.next.lexeme = .symbol symbol <;> simp [h]

/-- A name is passed if it is next, and otherwise reported as missing. -/
theorem run_identifier (r : Reader) :
    identifier.run r =
      match r.next.lexeme with
      | .identifier name => .ok name (r.withRest r.rest.tail)
      | found => .error (.syntactic (.noIdentifier found) r.next.loc) r := by
  rw [identifier, run_bind_of_ok (run_current r)]
  cases r.next.lexeme <;> simp

/-! ## Moves past a token that is there -/

@[simp] theorem run_advance_cons (r : Reader) (t : Token) (ts : List Token) :
    advance.run (r.withRest (t :: ts)) = .ok () (r.withRest ts) := run_advance _

/-- A symbol in front is passed. -/
@[simp] theorem run_accept_cons (symbol : Symbol) (loc : Location) (r : Reader) (ts : List Token) :
    (accept symbol).run (r.withRest (⟨.symbol symbol, loc⟩ :: ts)) = .ok true (r.withRest ts) := by
  rw [run_accept]
  exact if_pos rfl

/-- Another lexeme is not passed in place of a symbol. -/
theorem run_accept_of_ne {symbol : Symbol} (h : r.next.lexeme ≠ .symbol symbol) :
    (accept symbol).run r = .ok false r := by
  rw [run_accept, if_neg h]

/-- A keyword in front is passed. -/
@[simp] theorem run_acceptKeyword_cons (keyword : Keyword) (loc : Location) (r : Reader) (ts : List Token) :
    (acceptKeyword keyword).run (r.withRest (⟨.keyword keyword, loc⟩ :: ts)) = .ok true (r.withRest ts) := by
  rw [run_acceptKeyword]
  exact if_pos rfl

/-- Another lexeme is not passed in place of a keyword. -/
theorem run_acceptKeyword_of_ne {keyword : Keyword} (h : r.next.lexeme ≠ .keyword keyword) :
    (acceptKeyword keyword).run r = .ok false r := by
  rw [run_acceptKeyword, if_neg h]

/-- An expected symbol in front is passed. -/
@[simp] theorem run_expect_cons (symbol : Symbol) (context : String) (loc : Location) (r : Reader) (ts : List Token) :
    (expect symbol context).run (r.withRest (⟨.symbol symbol, loc⟩ :: ts)) = .ok () (r.withRest ts) := by
  rw [run_expect]
  exact if_pos rfl

/-- A name in front is passed. -/
@[simp] theorem run_identifier_cons (name : String) (loc : Location) (r : Reader) (ts : List Token) :
    identifier.run (r.withRest (⟨.identifier name, loc⟩ :: ts)) = .ok name (r.withRest ts) := by
  rw [run_identifier]
  rfl

/-! ## Moves that succeed -/

/-- Whether a symbol was passed tells what was next. -/
theorem run_accept_eq_ok {symbol : Symbol} {b : Bool} (h : (accept symbol).run r = .ok b r') :
    (b = true ∧ r.next.lexeme = .symbol symbol ∧ r' = r.withRest r.rest.tail) ∨
      (b = false ∧ r.next.lexeme ≠ .symbol symbol ∧ r' = r) := by
  rw [run_accept] at h
  split at h <;> cases h <;> simp_all

/-- Whether a keyword was passed tells what was next. -/
theorem run_acceptKeyword_eq_ok {keyword : Keyword} {b : Bool} (h : (acceptKeyword keyword).run r = .ok b r') :
    (b = true ∧ r.next.lexeme = .keyword keyword ∧ r' = r.withRest r.rest.tail) ∨
      (b = false ∧ r.next.lexeme ≠ .keyword keyword ∧ r' = r) := by
  rw [run_acceptKeyword] at h
  split at h <;> cases h <;> simp_all

/-- An expected symbol that was found was next. -/
theorem run_expect_eq_ok {symbol : Symbol} {context : String} {r r' : Reader} {u : Unit}
    (h : (expect symbol context).run r = .ok u r') :
    r.next.lexeme = .symbol symbol ∧ r' = r.withRest r.rest.tail := by
  rw [run_expect] at h
  split at h <;> cases h
  exact ⟨‹_›, rfl⟩

/-- A name that was found was next. -/
theorem run_identifier_eq_ok {name : String} (h : identifier.run r = .ok name r') :
    r.next.lexeme = .identifier name ∧ r' = r.withRest r.rest.tail := by
  rw [run_identifier] at h
  split at h <;> cases h
  exact ⟨‹_›, rfl⟩

/-- What succeeds inside of a loop succeeds one loop deeper. -/
theorem run_insideLoop_eq_ok {p : ReadM α} {a : α} (h : (insideLoop p).run r = .ok a r') :
    ∃ r₁, p.run { r with loopDepth := r.loopDepth + 1 } = .ok a r₁ ∧
      r' = { r₁ with loopDepth := r₁.loopDepth - 1 } := by
  rw [EStateM.run, insideLoop] at h
  rw [EStateM.run]
  split at h
  · next a' r₁ hrun =>
    cases h
    exact ⟨r₁, hrun, rfl⟩
  · cases h

end Grammar

/-! ## Readers before source texts -/

namespace Reader

/-- A reader at the beginning of a stream without a mark of the end among its tokens stands before all of them. -/
theorem ofStream_of_eof_not_mem {stream : TokenStream} (h : .eof ∉ stream.tokens.map (·.lexeme)) :
    ofStream stream = { queue := .ofList stream.tokens, eof := stream.eof } := by
  have hall : ∀ t ∈ stream.tokens, decide (t.lexeme ≠ .eof) = true := by
    intro t ht
    simpa using fun heof => h (List.mem_map.2 ⟨t, ht, heof⟩)
  have hfront : stream.front = stream.tokens := List.takeWhile_eq_self_iff.2 hall
  have hending : stream.ending = [⟨.eof, stream.eof⟩] := by
    rw [TokenStream.ending, TokenStream.toList, List.dropWhile_append_of_pos hall]
    simp
  rw [ofStream, hfront, hending]
  rfl

/-- A reader at the beginning of a source text stands before the tokens of a scan. -/
theorem ofSource_eq_ok {source : String} (h : ofSource source = .ok r) :
    ∃ stream, (Scan.ofSource source).outcome = .ok stream ∧
      r = { queue := .ofList stream.tokens, eof := stream.eof,
            diagnostics := (Scan.ofSource source).warnings, log := (Scan.ofSource source).events } := by
  rw [ofSource, ofScan] at h
  cases hscan : (Scan.ofSource source).outcome with
  | error e => simp [hscan, Except.map] at h
  | ok stream =>
    have hlexemes : (Scan.ofSource source).lexemes? = some (stream.tokens.map (·.lexeme)) := by
      rw [Scan.lexemes?, hscan]
      rfl
    simp only [hscan, Except.map, ofStream_of_eof_not_mem (Scan.eof_not_mem hlexemes), Except.ok.injEq] at h
    exact ⟨stream, rfl, h.symm⟩

/-- The lexemes of a source text stand before a reader at its beginning. -/
theorem lexemes?_of_ofSource {source : String} (h : ofSource source = .ok r) :
    (Scan.ofSource source).lexemes? = some (r.rest.map (·.lexeme)) := by
  obtain ⟨stream, hscan, rfl⟩ := ofSource_eq_ok h
  rw [Scan.lexemes?, hscan]
  rfl

/-- Whether a production reads from the beginning of a source text what passes a check. -/
def reads {α : Type} (source : String) (p : ReadM α) (check : α → Reader → Bool) : Bool :=
  match ofSource source with
  | .ok r =>
    match p.run r with
    | .ok a r' => check a r'
    | .error _ _ => false
  | .error _ => false

/-- A production that was tried on a source text and passed the check gives its result. -/
theorem exists_run_of_reads {α : Type} {source : String} {p : ReadM α} {check : α → Reader → Bool}
    (h : reads source p check) :
    ∃ r a r', ofSource source = .ok r ∧ p.run r = .ok a r' ∧ check a r' := by
  unfold reads at h
  split at h
  · next r hr =>
    split at h
    · next a r' hrun => exact ⟨r, a, r', hr, hrun, h⟩
    · cases h
  · cases h

/-- Whether a production reads from a reader what passes a check. -/
def yields {α : Type} (r : Reader) (p : ReadM α) (check : α → Reader → Bool) : Bool :=
  match p.run r with
  | .ok a r' => check a r'
  | .error _ _ => false

/-- A production that was tried on a reader and passed the check gives its result. -/
theorem exists_run_of_yields {α : Type} {p : ReadM α} {check : α → Reader → Bool} (h : r.yields p check) :
    ∃ a r', p.run r = .ok a r' ∧ check a r' := by
  unfold yields at h
  split at h
  · next a r' hrun => exact ⟨a, r', hrun, h⟩
  · cases h

end Reader

end ClockedC
