import ClockedC.Proofs.Reading.Horizon
import ClockedC.Proofs.Structs.Sessions

/-!
# Where a reader stands

A reader is a place in a list of tokens. Over a session it goes on from place to place and never past the first mark of
the end, no loop is open between two calls, and what stands behind the first mark is never seen.

* `session_safety` : all of this over a session.
-/

namespace ClockedC

/-! ## Readers further on -/

/-- The reader `r'` stands further on than `r` and before the same end, and no loop is open if none was. -/
structure Reader.GoesOn (r r' : Reader) : Prop where
  suffix : r'.rest <:+ r.rest
  ending_eq : r'.ending = r.ending
  loopDepth_eq : r.loopDepth = 0 → r'.loopDepth = 0

namespace Reader.GoesOn

variable {r r' r'' : Reader}

/-- Going on may go on. -/
theorem trans (h : r.GoesOn r') (h' : r'.GoesOn r'') : r.GoesOn r'' :=
  ⟨h'.suffix.trans h.suffix, h'.ending_eq.trans h.ending_eq, fun hdepth => h'.loopDepth_eq (h.loopDepth_eq hdepth)⟩

/-- A step inside of a function goes on. -/
theorem of_passesLocally (h : r.PassesLocally r') : r.GoesOn r' := by
  refine ⟨h.suffix, ?_, fun hdepth => h.loopDepth_eq.trans hdepth⟩
  rw [h.eq_withRest]
  rfl

end Reader.GoesOn

namespace Grammar

/-- Steps inside of functions and records go on. -/
theorem course_goesOn : Course Reader.GoesOn where
  trans := .trans
  locally := .of_passesLocally
  notes _ _ _ := ⟨List.suffix_refl _, rfl, id⟩
  warns _ _ _ _ := ⟨List.suffix_refl _, rfl, id⟩
  noLoop _ := ⟨List.suffix_refl _, rfl, fun _ => rfl⟩

/-- The definition of a struct goes on. -/
theorem goesOn_structDefinition : Along Reader.GoesOn structDefinition :=
  course_goesOn.structDefinition_of_define fun _ _ => ⟨List.suffix_refl _, rfl, id⟩

/-- A body has as many open loops behind it as before it, so the loop around it is there to be closed. -/
theorem loopDepth_body (depth : Nat) (context : String) (r : Reader) :
    (Outcome.reader ((body depth context).run { r with loopDepth := r.loopDepth + 1 })).loopDepth = r.loopDepth + 1 :=
  (((MovesLocally.productions depth).2.2.1 context).run_passes _).loopDepth_eq

end Grammar

/-- Every call goes on, whether it succeeds or fails. -/
theorem Call.goesOn (call : Call) (r : Reader) : r.GoesOn (call.run r) :=
  Grammar.course_goesOn.call Grammar.goesOn_structDefinition call r

/-- A session goes on, by induction on its calls. -/
theorem Reader.goesOn_afterCalls (r : Reader) (calls : List Call) : r.GoesOn (r.afterCalls calls) :=
  Grammar.course_goesOn.afterCalls Grammar.goesOn_structDefinition calls r

/-! ## Places in a list of tokens -/

/-- The place of the first mark of the end. -/
def firstEnd (tokens : List Token) : Nat := tokens.findIdx (·.lexeme = .eof)

theorem takeWhile_eq_take_firstEnd (tokens : List Token) :
    tokens.takeWhile (·.lexeme ≠ .eof) = tokens.take (firstEnd tokens) := by
  simp [List.takeWhile_eq_take_findIdx_not, firstEnd]

theorem dropWhile_eq_drop_firstEnd (tokens : List Token) :
    tokens.dropWhile (·.lexeme ≠ .eof) = tokens.drop (firstEnd tokens) := by
  simp [List.dropWhile_eq_drop_findIdx_not, firstEnd]

/-- Before its first mark there is no end. -/
theorem eof_not_mem_take_firstEnd (tokens : List Token) :
    .eof ∉ (tokens.take (firstEnd tokens)).map (·.lexeme) := by
  rw [← takeWhile_eq_take_firstEnd, List.mem_map]
  rintro ⟨t, ht, heof⟩
  have hne := List.mem_takeWhile_imp ht
  simp [heof] at hne

namespace Reader

/-- The reader stands at place `n` of the tokens `all`, which is not behind their first mark of the end. -/
structure StandsAt (all : List Token) (n : Nat) (r : Reader) : Prop where
  le_firstEnd : n ≤ firstEnd all
  rest_eq : r.rest = (all.take (firstEnd all)).drop n
  ending_eq : r.ending = all.drop (firstEnd all)

/-- A token ahead is the one that many places further on, and the end where there is none. -/
theorem ahead_eq_getElem? (r : Reader) (n : Nat) : r.ahead n = (r.rest ++ r.ending)[n]?.getD ⟨.eof, r.eof⟩ := by
  rw [ahead, List.getElem?_append, r.queue.size_eq]
  by_cases h : n < r.rest.length
  · simp [h]
  · rw [if_neg h, List.getElem?_eq_none (Nat.le_of_not_lt h)]
    rfl

namespace StandsAt

variable {all : List Token} {n : Nat} {r r' : Reader}

theorem firstEnd_lt (h : r.StandsAt all n) : firstEnd all < all.length := by
  have hlength := congrArg List.length h.ending_eq
  simp only [ending, List.length_cons, List.length_drop] at hlength
  omega

theorem drop_eq (h : r.StandsAt all n) : all.drop n = r.rest ++ r.ending := by
  have hle : n ≤ (all.take (firstEnd all)).length := by
    rw [List.length_take_of_le (Nat.le_of_lt h.firstEnd_lt)]
    exact h.le_firstEnd
  rw [h.rest_eq, h.ending_eq, ← List.drop_append_of_le_length hle, List.take_append_drop]

/-- What is ahead of the reader stands that much further on. -/
theorem getElem?_eq (h : r.StandsAt all n) {k : Nat} (hk : n + k < all.length) : all[n + k]? = some (r.ahead k) := by
  rw [ahead_eq_getElem?, ← h.drop_eq, List.getElem?_drop, List.getElem?_eq_getElem hk]
  rfl

/-- A reader further on stands at a place further on. -/
theorem exists_of_goesOn (h : r.StandsAt all n) (hgoes : r.GoesOn r') : ∃ n', n ≤ n' ∧ r'.StandsAt all n' := by
  obtain ⟨front, hfront⟩ := hgoes.suffix
  have hlength : front.length ≤ r.rest.length := by
    rw [← hfront, List.length_append]
    exact Nat.le_add_right ..
  rw [h.rest_eq, List.length_drop, List.length_take_of_le (Nat.le_of_lt h.firstEnd_lt)] at hlength
  have hle := h.le_firstEnd
  refine ⟨n + front.length, Nat.le_add_right .., by omega, ?_, hgoes.ending_eq.trans h.ending_eq⟩
  rw [← List.drop_drop, ← h.rest_eq, ← hfront, List.drop_left]

/-- Going past the next token goes one place on, and not past the end. -/
theorem advance (h : r.StandsAt all n) :
    (Grammar.Outcome.reader (Grammar.advance.run r)).StandsAt all (if r.next.lexeme = .eof then n else n + 1) := by
  rw [Grammar.run_advance]
  show (r.withRest r.rest.tail).StandsAt all _
  cases hrest : r.rest with
  | nil =>
    -- at the end there is no token to go past
    have hnext : r.next.lexeme = .eof := by simp [next_eq_head, hrest]
    rw [if_pos hnext]
    exact ⟨h.le_firstEnd, hrest.symm.trans h.rest_eq, h.ending_eq⟩
  | cons t ts =>
    have hdrop : t :: ts = (all.take (firstEnd all)).drop n := hrest.symm.trans h.rest_eq
    have hmem : t ∈ all.take (firstEnd all) := List.mem_of_mem_drop (hdrop ▸ List.mem_cons_self)
    have hnext : r.next.lexeme ≠ .eof := by
      rw [next_eq_head, hrest]
      exact fun heof => eof_not_mem_take_firstEnd all (List.mem_map.2 ⟨t, hmem, heof⟩)
    have hlength := congrArg List.length hdrop
    rw [List.length_cons, List.length_drop, List.length_take_of_le (Nat.le_of_lt h.firstEnd_lt)] at hlength
    rw [if_neg hnext]
    refine ⟨by omega, ?_, h.ending_eq⟩
    rw [← List.drop_drop, ← hdrop]
    rfl

end StandsAt

/-- A reader at the beginning of a stream stands at the first place. -/
theorem standsAt_ofStream (stream : TokenStream) : (ofStream stream).StandsAt stream.toList 0 := by
  refine ⟨Nat.zero_le _, ?_, ?_⟩
  · rw [List.drop_zero, ← takeWhile_eq_take_firstEnd, ← stream.front_eq_takeWhile_toList]
    rfl
  · obtain ⟨loc, more, hending⟩ := stream.exists_ending_eq_cons
    rw [← dropWhile_eq_drop_firstEnd, ← TokenStream.ending, hending, ending, ofStream, hending]
    rfl

/-! ## Lists that are cut -/

/-- A reader before a list with a mark of the end sees of the list what is in front of the mark. -/
theorem cut_ofStream_ofTokens {front more : List Token} {loc : Location} (h : .eof ∉ front.map (·.lexeme)) :
    (ofStream (.ofTokens (front ++ ⟨.eof, loc⟩ :: more))).cut = { queue := .ofList front, eof := loc } := by
  have hall : ∀ t ∈ front, decide (t.lexeme ≠ .eof) = true := by
    intro t ht
    simpa using fun heof => h (List.mem_map.2 ⟨t, ht, heof⟩)
  have hfront : (TokenStream.ofTokens (front ++ ⟨.eof, loc⟩ :: more)).front = front := by
    rw [TokenStream.front_ofTokens, TokenStream.takeWhile_append_eof, List.takeWhile_eq_self_iff.2 hall]
  obtain ⟨last, hlast⟩ := TokenStream.exists_toList_ofTokens (front ++ ⟨.eof, loc⟩ :: more)
  have hending : (TokenStream.ofTokens (front ++ ⟨.eof, loc⟩ :: more)).ending = ⟨.eof, loc⟩ :: (more ++ last) := by
    rw [TokenStream.ending, hlast, List.append_assoc, List.dropWhile_append_of_pos hall]
    simp
  rw [ofStream, hfront, hending]
  rfl

/-- Cutting a list of tokens behind its first mark of the end takes from a reader what is behind the end. -/
theorem ofStream_ofTokens_take (tokens : List Token) :
    ofStream (.ofTokens (tokens.take (firstEnd tokens + 1))) = (ofStream (.ofTokens tokens)).cut := by
  have hfront := eof_not_mem_take_firstEnd tokens
  by_cases hend : firstEnd tokens < tokens.length
  · obtain ⟨loc, hloc⟩ : ∃ loc, tokens[firstEnd tokens] = ⟨.eof, loc⟩ := by
      have heof : tokens[firstEnd tokens].lexeme = .eof := of_decide_eq_true (List.findIdx_getElem (w := hend))
      exact ⟨tokens[firstEnd tokens].loc, by rw [← heof]⟩
    have hsplit : tokens = tokens.take (firstEnd tokens) ++ ⟨.eof, loc⟩ :: tokens.drop (firstEnd tokens + 1) := by
      rw [← hloc, ← List.drop_eq_getElem_cons hend, List.take_append_drop]
    have htake : tokens.take (firstEnd tokens + 1) = tokens.take (firstEnd tokens) ++ [⟨.eof, loc⟩] := by
      rw [← hloc, List.take_append_getElem hend]
    have hstream : TokenStream.ofTokens (tokens.take (firstEnd tokens) ++ [⟨.eof, loc⟩]) =
        ⟨tokens.take (firstEnd tokens), loc⟩ := by
      simp [TokenStream.ofTokens]
    have hcut : (ofStream (.ofTokens tokens)).cut =
        { queue := .ofList (tokens.take (firstEnd tokens)), eof := loc } := by
      exact (congrArg (fun ts => (ofStream (.ofTokens ts)).cut) hsplit).trans (cut_ofStream_ofTokens hfront)
    rw [hcut, htake, hstream, ofStream_of_eof_not_mem hfront]
  · -- without a mark of the end nothing is cut off, and nothing is behind the one that is put there
    have hall : tokens.take (firstEnd tokens) = tokens := List.take_of_length_le (Nat.le_of_not_lt hend)
    rw [hall] at hfront
    rw [List.take_of_length_le (Nat.le_succ_of_le (Nat.le_of_not_lt hend)),
      ofStream_of_eof_not_mem ((TokenStream.tokens_ofTokens hfront).symm ▸ hfront)]
    rfl

end Reader

/-! ## Sessions -/

/-- What a step gives: its value, or the fault it stops at. -/
def Grammar.Outcome.value {α : Type} : EStateM.Result CompileError Reader α → Except CompileError α
  | .ok a _ => .ok a
  | .error e _ => .error e

/-- A step that never looks behind the end gives the same on a reader that is cut, and leaves a reader that is cut. -/
theorem Grammar.Blind.outcome_cut {α : Type} {p : ReadM α} (hp : Blind p) (r : Reader) :
    Outcome.value (p.run r.cut) = Outcome.value (p.run r) ∧
      Outcome.reader (p.run r.cut) = (Outcome.reader (p.run r)).cut := by
  rw [hp.run_cut r]
  cases p.run r <;> exact ⟨rfl, rfl⟩

theorem Call.run_cut (call : Call) (r : Reader) : call.run r.cut = (call.run r).cut := by
  cases call with
  | program => exact (Grammar.Blind.program.outcome_cut r).2
  | expression => exact (Grammar.Blind.expression.outcome_cut r).2

/-- A session does the same on a reader with nothing behind the end. -/
theorem Reader.afterCalls_cut (r : Reader) (calls : List Call) : r.cut.afterCalls calls = (r.afterCalls calls).cut := by
  induction calls generalizing r with
  | nil => rfl
  | cons call calls ih =>
    show (call.run r.cut).afterCalls calls = ((call.run r).afterCalls calls).cut
    rw [call.run_cut, ih]

/-- Over every session on a list of tokens, whether its calls succeed or fail, the reader goes on from place to place in
the list and never past its first mark of the end, so that the next token is always one of the list. Between two calls
no loop is open, and a loop is open wherever one is closed. What stands behind the first mark makes no difference: on
the list that is cut there, every call gives the same value or fault, and leaves the same tokens to be read, tables,
diagnostics and log. -/
theorem session_safety (tokens : List Token) (calls : List Call) (call : Call) :
    let all := (TokenStream.ofTokens tokens).toList
    let before := (Reader.ofStream (.ofTokens tokens)).afterCalls calls
    let after := call.run before
    let before' := (Reader.ofStream (.ofTokens (tokens.take (firstEnd tokens + 1)))).afterCalls calls
    (∃ n n', n ≤ n' ∧ before.StandsAt all n ∧ after.StandsAt all n') ∧
      (∀ (r : Reader) (n : Nat), r.StandsAt all n →
        n ≤ firstEnd all ∧ firstEnd all < all.length ∧ (∀ k, n + k < all.length → all[n + k]? = some (r.ahead k)) ∧
          (Grammar.Outcome.reader (Grammar.advance.run r)).StandsAt all (if r.next.lexeme = .eof then n else n + 1) ∧
          ∃ n', n ≤ n' ∧ (Grammar.Outcome.reader (Grammar.skipPastSemicolon.run r)).StandsAt all n') ∧
      (before.loopDepth = 0 ∧ after.loopDepth = 0) ∧
      (∀ (depth : Nat) (context : String) (r : Reader),
        (Grammar.Outcome.reader ((Grammar.body depth context).run { r with loopDepth := r.loopDepth + 1 })).loopDepth =
          r.loopDepth + 1) ∧
      before' = before.cut ∧ call.run before' = after.cut ∧
      Grammar.Outcome.value (Grammar.program.run before') = Grammar.Outcome.value (Grammar.program.run before) ∧
      Grammar.Outcome.value (Grammar.expression.run before') =
        Grammar.Outcome.value (Grammar.expression.run before) := by
  intro all before after before'
  have hgoes : (Reader.ofStream (.ofTokens tokens)).GoesOn before := Reader.goesOn_afterCalls _ calls
  have hcut : before' = before.cut := by
    show (Reader.ofStream (.ofTokens (tokens.take (firstEnd tokens + 1)))).afterCalls calls = _
    rw [Reader.ofStream_ofTokens_take, Reader.afterCalls_cut]
  refine ⟨?_, ?_, ?_, Grammar.loopDepth_body, hcut, ?_, ?_, ?_⟩
  · obtain ⟨n, -, hn⟩ := (Reader.standsAt_ofStream (.ofTokens tokens)).exists_of_goesOn hgoes
    obtain ⟨n', hle, hn'⟩ := hn.exists_of_goesOn (call.goesOn before)
    exact ⟨n, n', hle, hn, hn'⟩
  · intro r n h
    exact ⟨h.le_firstEnd, h.firstEnd_lt, fun k hk => h.getElem?_eq hk, h.advance,
      h.exists_of_goesOn (.of_passesLocally (.of_passes (Grammar.Moves.skipPastSemicolon.run_passes r)))⟩
  · exact ⟨hgoes.loopDepth_eq rfl, (hgoes.trans (call.goesOn before)).loopDepth_eq rfl⟩
  · rw [hcut, call.run_cut]
  · rw [hcut]
    exact (Grammar.Blind.program.outcome_cut before).1
  · rw [hcut]
    exact (Grammar.Blind.expression.outcome_cut before).1

/-- Tokens with a mark of the end in the middle. Reading looks past the mark for what follows the type `struct P`. -/
def markedTokens : List Token :=
  let lexemes : List Lexeme :=
    [.symbol .semicolon, .keyword .struct, .identifier "P", .eof, .symbol .openParen, .number "1"]
  lexemes.mapIdx fun i lexeme => ⟨lexeme, ⟨1, i + 1⟩⟩

theorem session_safety_markedTokens :
    let start := Reader.ofStream (.ofTokens markedTokens)
    let all := (TokenStream.ofTokens markedTokens).toList
    let after := Call.program.run (start.afterCalls [.expression])
    start.StandsAt all 0 ∧ (Grammar.Outcome.reader (Grammar.advance.run start)).StandsAt all 1 ∧
      after.rest = [] ∧ (after.ahead 1).lexeme = .symbol .openParen ∧ after.diagnostics.length = 3 ∧
      Call.program.run ((Reader.ofStream (.ofTokens (markedTokens.take 4))).afterCalls [.expression]) = after.cut := by
  intro start all after
  have hstart : start.StandsAt all 0 := Reader.standsAt_ofStream _
  obtain ⟨-, hplaces, -, -, -, hcut, -⟩ := session_safety markedTokens [.expression] .program
  obtain ⟨-, -, -, hadvance, -⟩ := hplaces start 0 hstart
  have hnext : start.next.lexeme ≠ .eof := by decide +kernel
  rw [if_neg hnext] at hadvance
  have hend : firstEnd markedTokens + 1 = 4 := by decide +kernel
  rw [hend] at hcut
  exact ⟨hstart, hadvance, by decide +kernel, by decide +kernel, by decide +kernel, hcut⟩

end ClockedC
