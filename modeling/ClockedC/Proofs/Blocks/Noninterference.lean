import ClockedC.Proofs.Blocks.Items
import ClockedC.Proofs.Layout.Noninterference

/-!
# Braces around statements do not matter

Two texts whose lexemes differ in braces around statements and in empty statements are compiled alike: items of a block
may be enclosed in braces, an empty statement may be put before or behind any of them, and a single statement that is a
body may be enclosed in braces, wherever in a function.

* `braces_unobservable` : a program is read and compiled as before.
-/

namespace ClockedC

/-- The second lexemes are the first with one more pair of braces, or one more empty statement, in a function. -/
def Rebraced (lexemes lexemes' : List Lexeme) : Prop :=
  ∃ ts, Grammar.RebracesItems (.ofLexemes lexemes) ts ∧ ts.map (·.lexeme) = lexemes'

/-- Placed nowhere, a reader before tokens stands before their lexemes. -/
theorem Reader.unlocated_withRest_ofLexemes (lexemes : List Lexeme) (ts : List Token) :
    ((Reader.ofLexemes lexemes).withRest ts).unlocated = .ofLexemes (ts.map (·.lexeme)) := by
  have hqueue : (TokenQueue.ofList ts).unlocated = .ofList ((ts.map (·.lexeme)).map (⟨·, .nowhere⟩)) := by
    apply TokenQueue.ext
    rw [TokenQueue.tokens_unlocated, TokenQueue.tokens_ofList, TokenQueue.tokens_ofList, List.map_map]
    rfl
  rw [Reader.unlocated, Reader.withRest, Reader.ofLexemes, hqueue]
  rfl

theorem Reader.unlocated_ofLexemes (lexemes : List Lexeme) :
    (Reader.ofLexemes lexemes).unlocated = .ofLexemes lexemes := by
  have h := unlocated_withRest_ofLexemes lexemes (Reader.ofLexemes lexemes).rest
  have hlexemes : (Reader.ofLexemes lexemes).rest.map (·.lexeme) = lexemes := map_lexeme_tokensOf lexemes
  rwa [Reader.withRest_rest, hlexemes] at h

theorem Rebraced.run_program {lexemes lexemes' : List Lexeme} (h : Rebraced lexemes lexemes') :
    Grammar.program.run (.ofLexemes lexemes') = Grammar.program.run (.ofLexemes lexemes) := by
  obtain ⟨ts, hts, rfl⟩ := h
  rw [← Reader.unlocated_withRest_ofLexemes lexemes ts, Grammar.Mirrors.program.run_unlocated, hts.run_program,
    ← Grammar.Mirrors.program.run_unlocated, Reader.unlocated_ofLexemes]

/-- Any number of braces and empty statements are read as before. -/
theorem run_program_of_rebraced {lexemes lexemes' : List Lexeme} (h : Relation.ReflTransGen Rebraced lexemes lexemes') :
    Grammar.program.run (.ofLexemes lexemes) = Grammar.program.run (.ofLexemes lexemes') := by
  induction h with
  | refl => rfl
  | tail _ hlast ih => rw [ih, hlast.run_program]

/-- **Braces around statements do not matter.** What is read of statements hangs on no calls but those that `Invokes`
names, so these lead to every block and every body of a function. If a text is compiled, then so is a text whose lexemes
have any number of changes more at these: some items of a block in braces, an empty statement among them, or a single
statement that is a body in braces. It gives the same program up to locations and the same design. -/
theorem braces_unobservable :
    (∀ ⦃α : Type⦄ (p : Grammar.Production α) (r : Reader) (call : Grammar.Calls), p.group = .statements →
      (∀ ⦃β : Type⦄ (q : Grammar.Production β) (r' : Reader), Grammar.Invokes p r q r' →
        (call q).run r' = q.read.run r') → (p.unfold call).run r = p.read.run r) ∧
    ∀ (source source' : String) (lexemes lexemes' : List Lexeme) (c : Compilation),
      (Scan.ofSource source).lexemes? = some lexemes → (Scan.ofSource source').lexemes? = some lexemes' →
      Relation.ReflTransGen Rebraced lexemes lexemes' → (compile source).outcome = .ok c →
      ∃ c', (compile source').outcome = .ok c' ∧ c'.program.unlocated = c.program.unlocated ∧ c'.vhdl = c.vhdl := by
  refine ⟨fun _ _ _ _ hgroup h => Grammar.Production.run_unfold_of_invokes hgroup h, ?_⟩
  intro source source' lexemes lexemes' c hscan hscan' hrebraced hc
  have hsame := sameOutcome_of_run_eq hscan hscan' (run_program_of_rebraced hrebraced)
  cases hc' : (compile source').outcome with
  | ok c' =>
    rw [hc, hc'] at hsame
    exact ⟨c', rfl, hsame.2.2.1.symm, hsame.1.symm⟩
  | error e =>
    rw [hc, hc'] at hsame
    exact hsame.elim

/-! ## A function with three changes -/

/-- A function in front of the one that is changed. -/
def helperLexemes : List Lexeme :=
  [.keyword .int, .identifier "g", .symbol .openParen, .symbol .closeParen, .symbol .openBrace, .keyword .returnWord,
    .number "1", .symbol .semicolon, .symbol .closeBrace]

/-- The head of the function that is changed. -/
def headLexemes : List Lexeme :=
  [.keyword .int, .identifier "f", .symbol .openParen, .keyword .int, .identifier "a", .symbol .closeParen,
    .symbol .openBrace]

/-- The head of its loop. -/
def loopLexemes : List Lexeme := [.keyword .whileWord, .symbol .openParen, .identifier "a", .symbol .closeParen]

/-- The body of its loop, in which the arm belongs to the inner branch. -/
def branchLexemes : List Lexeme :=
  [.keyword .ifWord, .symbol .openParen, .identifier "a", .symbol .closeParen, .keyword .ifWord, .symbol .openParen,
    .identifier "a", .symbol .closeParen, .identifier "a", .symbol .decrement, .symbol .semicolon, .keyword .elseWord,
    .keyword .breakWord, .symbol .semicolon]

/-- Its last statement. -/
def returnLexemes : List Lexeme := [.keyword .returnWord, .identifier "a", .symbol .semicolon]

/-- The loop with its body in braces. -/
def bracedLoopLexemes : List Lexeme := loopLexemes ++ .symbol .openBrace :: (branchLexemes ++ [.symbol .closeBrace])

/-- The reader behind the function in front. -/
def behindHelper (lexemes : List Lexeme) : Reader :=
  { Reader.ofLexemes lexemes with log := [.readFunction "g" 0 1] }

/-- A change in the second function is one in the program. -/
theorem rebraced_of_statements {lexemes lexemes' : List Lexeme} {item : Option Item}
    {info : DataType × Location × String × List Parameter}
    (hitem : Grammar.topLevel.run (.ofLexemes (helperLexemes ++ (headLexemes ++ lexemes))) =
      .ok item (behindHelper (headLexemes ++ lexemes)))
    (hinfo : Grammar.functionHead.run (behindHelper (headLexemes ++ lexemes)) = .ok info (behindHelper lexemes))
    (h : Grammar.Rebraces .statements (behindHelper lexemes) (tokensOf lexemes')) :
    Rebraced (helperLexemes ++ (headLexemes ++ lexemes)) (helperLexemes ++ (headLexemes ++ lexemes')) := by
  have hend : (Reader.ofLexemes (helperLexemes ++ (headLexemes ++ lexemes))).next.lexeme ≠ .eof := by
    show Lexeme.keyword .int ≠ .eof
    decide
  have hitems : Grammar.RebracesItems (.ofLexemes (helperLexemes ++ (headLexemes ++ lexemes)))
      (tokensOf (helperLexemes ++ (headLexemes ++ lexemes'))) := by
    rw [tokensOf_append, tokensOf_append]
    exact .later hend hitem (tokensOf_append ..) (.body hinfo (tokensOf_append ..) h)
  exact ⟨_, hitems, map_lexeme_tokensOf _⟩

/-- The body of the loop is enclosed in braces. -/
theorem rebraced_loop :
    Rebraced
      (helperLexemes ++ (headLexemes ++ (loopLexemes ++ branchLexemes ++ returnLexemes ++ [.symbol .closeBrace])))
      (helperLexemes ++ (headLexemes ++ (bracedLoopLexemes ++ returnLexemes ++ [.symbol .closeBrace]))) := by
  let after := returnLexemes ++ [.symbol .closeBrace]
  let start := behindHelper (loopLexemes ++ branchLexemes ++ returnLexemes ++ [.symbol .closeBrace])
  let r : Reader := { behindHelper (branchLexemes ++ after) with loopDepth := 1 }
  let r' : Reader := { behindHelper after with loopDepth := 1 }
  have hrun : r.rest = tokensOf branchLexemes ++ r'.rest := rfl
  have hhead : start.rest = tokensOf loopLexemes ++ r.rest := rfl
  have hbrace : Grammar.Rebraces (.body "after while body") r
      (tokensOf (.symbol .openBrace :: (branchLexemes ++ .symbol .closeBrace :: after))) :=
    .brace (rfl : Grammar.Production.statement.read.run r = .ok _ r') hrun rfl rfl
  have hloop : Grammar.Rebraces .statement start (tokensOf (bracedLoopLexemes ++ after)) :=
    .inside (.whileBody rfl rfl) hhead hbrace
  have hfirst : Grammar.Invokes .statements start .statement start :=
    .first (by decide) (by decide) (not_or.2 ⟨by decide, by decide⟩)
  have hnothing : start.rest = [] ++ start.rest := rfl
  exact rebraced_of_statements rfl rfl (.inside hfirst hnothing hloop)

/-- What follows on the loop is enclosed in braces. -/
theorem rebraced_return :
    Rebraced (helperLexemes ++ (headLexemes ++ (bracedLoopLexemes ++ returnLexemes ++ [.symbol .closeBrace])))
      (helperLexemes ++ (headLexemes ++ (bracedLoopLexemes ++ .symbol .openBrace :: (returnLexemes ++
        [.symbol .closeBrace, .symbol .closeBrace])))) := by
  let start := behindHelper (bracedLoopLexemes ++ returnLexemes ++ [.symbol .closeBrace])
  let r := behindHelper (returnLexemes ++ [.symbol .closeBrace])
  let r' := behindHelper [.symbol .closeBrace]
  have hrun : r.rest = tokensOf returnLexemes ++ r'.rest := rfl
  have hhead : start.rest = tokensOf bracedLoopLexemes ++ r.rest := rfl
  have hitems : Grammar.BlockItems r _ r' := .cons rfl (.nil r')
  have henclose : Grammar.Rebraces .statements r
      (tokensOf (.symbol .openBrace :: (returnLexemes ++ .symbol .closeBrace :: [.symbol .closeBrace]))) :=
    .enclose hitems hrun rfl rfl
  have hlater : Grammar.Invokes .statements start .statements r := .later rfl
  exact rebraced_of_statements rfl rfl (.inside hlater hhead henclose)

/-- An empty statement is put in front of the loop. -/
theorem rebraced_semicolon :
    Rebraced (helperLexemes ++ (headLexemes ++ (bracedLoopLexemes ++ .symbol .openBrace :: (returnLexemes ++
        [.symbol .closeBrace, .symbol .closeBrace]))))
      (helperLexemes ++ (headLexemes ++ (.symbol .semicolon :: (bracedLoopLexemes ++ .symbol .openBrace ::
        (returnLexemes ++ [.symbol .closeBrace, .symbol .closeBrace]))))) :=
  rebraced_of_statements rfl rfl (.separate rfl)

def unbracedSource : String :=
  "int g()\x7breturn 1;\x7d int f(int a)\x7bwhile(a)if(a)if(a)a--;else break;return a;\x7d"

/-- The same with the three changes. -/
def rebracedSource : String :=
  "int g()\x7breturn 1;\x7d int f(int a)\x7b;while(a)\x7bif(a)if(a)a--;else break;\x7d\x7breturn a;\x7d\x7d"

/-- Calls that are answered for bodies alone. -/
def bodiesOnly : Grammar.Calls
  | _, .body context => (Grammar.Production.body context).read
  | _, _ => Grammar.refuseDepth

/-- A loop calls for its body alone. -/
theorem run_bodiesOnly_of_invokes {p : Grammar.Production α} {q : Grammar.Production β} {r r' : Reader}
    (hcall : Grammar.Invokes p r q r') (hrank : p.rank = 0) (hnext : r.next.lexeme = .keyword .whileWord) :
    (bodiesOnly q).run r' = q.read.run r' := by
  cases hcall with
  | whileBody => rfl
  | ifBody hother | ifArms hother | forBody hother => cases hother.symm.trans hnext
  | elseIfBody hother | elseIfArms hother | elseBody hother => cases hother.symm.trans hnext
  | nested | first | later | block | single => cases hrank

theorem braces_unobservable_rebracedSource :
    (Grammar.Production.statement.unfold bodiesOnly).run (.ofLexemes (loopLexemes ++ branchLexemes)) =
        Grammar.Production.statement.read.run (.ofLexemes (loopLexemes ++ branchLexemes)) ∧
      (compile unbracedSource).outcome.toOption.isSome ∧
      ∀ c, (compile unbracedSource).outcome = .ok c → ∃ c', (compile rebracedSource).outcome = .ok c' ∧
        c'.program.unlocated = c.program.unlocated ∧ c'.vhdl = c.vhdl := by
  have hcompiles : (compile unbracedSource).outcome.toOption.isSome := by decide +kernel
  have hscan : (Scan.ofSource unbracedSource).lexemes? = some (helperLexemes ++ (headLexemes ++
      (loopLexemes ++ branchLexemes ++ returnLexemes ++ [.symbol .closeBrace]))) := by decide +kernel
  have hscan' : (Scan.ofSource rebracedSource).lexemes? = some (helperLexemes ++ (headLexemes ++
      (.symbol .semicolon :: (bracedLoopLexemes ++ .symbol .openBrace ::
        (returnLexemes ++ [.symbol .closeBrace, .symbol .closeBrace]))))) := by decide +kernel
  have hchanges := ((Relation.ReflTransGen.single rebraced_loop).tail rebraced_return).tail rebraced_semicolon
  refine ⟨braces_unobservable.1 .statement _ bodiesOnly rfl ?_, hcompiles, ?_⟩
  · intro β q r' hcall
    exact run_bodiesOnly_of_invokes hcall rfl rfl
  · intro c hc
    exact braces_unobservable.2 _ _ _ _ c hscan hscan' hchanges hc

end ClockedC
