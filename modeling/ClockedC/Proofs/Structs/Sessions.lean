import ClockedC.Proofs.Reading.Courses
import ClockedC.Proofs.Reading.Program
import ClockedC.Proofs.Structs.Table

/-!
# The table of structs over a session

A reader may be used again after a program or an expression has been read from it, also where reading failed: it goes on
with the tokens that are left. Over such a session the table of structs only grows, by structs that are read to the end,
and it stays well formed.

* `struct_table_append_only` : the table of structs over a session.
-/

namespace ClockedC

namespace Grammar

variable {α β : Type}

/-! ## Structs that cannot be read -/

/-- A step that, where it fails, has changed nothing but the tokens still to be read. -/
structure FailsMoving (p : ReadM α) : Prop where
  passes : ∀ {r r' : Reader} {e : CompileError}, p.run r = .error e r' → r.Passes r'

namespace FailsMoving

theorem of_moves {p : ReadM α} (hp : Moves p) : FailsMoving p := by
  constructor
  intro r r' e h
  have := hp.run_passes r
  rwa [h] at this

/-- A step that only moves on may come first. -/
theorem move {p : ReadM α} {k : α → ReadM β} (hp : Moves p) (hk : ∀ a, FailsMoving (k a)) : FailsMoving (p >>= k) := by
  constructor
  intro r r' e h
  have hfirst := hp.run_passes r
  rw [EStateM.run_bind] at h
  cases hrun : p.run r with
  | ok a r₁ =>
    rw [hrun] at h hfirst
    exact hfirst.trans ((hk a).passes h)
  | error e' r₁ =>
    rw [hrun] at h hfirst
    cases h
    exact hfirst

/-- A check in front of a step. -/
theorem check {c : Prop} [Decidable c] {fault : DeclarationFault} {loc : Location} {k : α → ReadM β} {p : ReadM β}
    (h : FailsMoving p) : FailsMoving (if c then refuseDeclaration fault loc >>= k else p) := by
  split
  · exact of_moves ⟨.refl⟩
  · exact h

/-- The table is changed where nothing can fail any more. -/
theorem structDefinition : FailsMoving structDefinition := by
  refine move .current fun token => move .identifier fun name => move .get fun r => check ?_
  refine move (.expect ..) fun _ => move .get fun r' => move (.structFields ..) fun fields => ?_
  refine move (.expect ..) fun _ => move (.expect ..) fun _ => check ?_
  -- what is left defines the struct, and none of it fails
  constructor
  intro r₁ r₂ e h
  cases h

end FailsMoving

end Grammar

/-! ## Steps that define structs -/

/-- A struct that is read is put into the table, and one that cannot be read is not. Nothing else changes the table. -/
theorem Layouts.along_structDefinition :
    Grammar.Along (fun r r' => r.tables.structs.Grows r'.tables.structs) Grammar.structDefinition := by
  constructor
  intro r
  cases hrun : Grammar.structDefinition.run r with
  | ok decl r' =>
    obtain ⟨hpasses, hdecl⟩ := Grammar.run_structDefinition_eq_ok hrun
    exact .single ⟨decl, hdecl, hpasses.structs_eq⟩
  | error e r' =>
    have hpasses := Grammar.FailsMoving.structDefinition.passes hrun
    show r.tables.structs.Grows r'.tables.structs
    rw [hpasses.structs_eq]
    exact .refl

/-- Steps inside of functions and records leave the table as it is. -/
theorem Layouts.course_grows : Grammar.Course fun r r' => r.tables.structs.Grows r'.tables.structs where
  trans := .trans
  locally h := by
    rw [h.structs_eq]
    exact .refl
  notes _ _ _ := .refl
  warns _ _ _ _ := .refl
  noLoop _ := .refl

/-! ## Sessions -/

/-- What may be asked of a reader. -/
inductive Call where
  | program
  | expression
  deriving DecidableEq, Repr

/-- The reader after a call, whether it succeeds or fails. -/
def Call.run : Call → Reader → Reader
  | program, r => Grammar.Outcome.reader (Grammar.program.run r)
  | expression, r => Grammar.Outcome.reader (Grammar.expression.run r)

/-- The reader after several calls, each of which goes on where the one before it stopped. -/
def Reader.afterCalls (r : Reader) (calls : List Call) : Reader := calls.foldl (fun r call => call.run r) r

namespace Grammar.Course

variable {R : Reader → Reader → Prop}

/-- What reading keeps is kept by every call. -/
theorem call (hR : Course R) (hstruct : Along R structDefinition) (call : Call) (r : Reader) : R r (call.run r) := by
  cases call with
  | program => exact (hR.program hstruct).run_along r
  | expression => exact (hR.of_moves .expression).run_along r

theorem afterCalls (hR : Course R) (hstruct : Along R structDefinition) (calls : List Call) (r : Reader) :
    R r (r.afterCalls calls) := by
  induction calls generalizing r with
  | nil => exact hR.locally (.of_passes (.refl r))
  | cons call calls ih => exact hR.trans (hR.call hstruct call r) (ih (call.run r))

end Grammar.Course

/-- A call only adds structs to the table. -/
theorem Call.grows (call : Call) (r : Reader) : r.tables.structs.Grows (call.run r).tables.structs :=
  Layouts.course_grows.call Layouts.along_structDefinition call r

/-- A session only adds structs to the table. -/
theorem Reader.grows_afterCalls (r : Reader) (calls : List Call) :
    r.tables.structs.Grows (r.afterCalls calls).tables.structs :=
  Layouts.course_grows.afterCalls Layouts.along_structDefinition calls r

/-- Over every session on a list of tokens, the table of structs is well formed after each call, and it holds what it
held before the call and nothing but new structs behind that. A struct enters the table when it has been read to the
end; one that cannot be read adds nothing. -/
theorem struct_table_append_only (tokens : List Token) (calls : List Call) (call : Call) :
    let before := (Reader.ofStream (.ofTokens tokens)).afterCalls calls
    let after := call.run before
    after.tables.structs.WellFormed ∧ before.tables.structs.all <+: after.tables.structs.all ∧
      ∀ r : Reader,
        match Grammar.structDefinition.run r with
        | .ok decl r' => r'.tables.structs.all = r.tables.structs.all ++ [⟨decl.name, decl.fields⟩]
        | .error _ r' => r'.tables.structs = r.tables.structs := by
  intro before after
  have hgrows : Layouts.Grows {} before.tables.structs :=
    Reader.grows_afterCalls (Reader.ofStream (.ofTokens tokens)) calls
  have hbefore : before.tables.structs.WellFormed := Layouts.wellFormed_empty.of_grows hgrows
  refine ⟨hbefore.of_grows (call.grows before), (call.grows before).isPrefix, ?_⟩
  intro r
  cases hrun : Grammar.structDefinition.run r with
  | ok decl r' =>
    obtain ⟨hpasses, hdecl⟩ := Grammar.run_structDefinition_eq_ok hrun
    dsimp only
    rw [hpasses.structs_eq]
    exact Layouts.all_define hdecl.fresh decl.fields
  | error e r' => exact (Grammar.FailsMoving.structDefinition.passes hrun).structs_eq

/-- A struct that is defined twice, one that contains itself, and one behind them that can be read. -/
def interruptedTokens : List Token :=
  let lexemes : List Lexeme :=
    [.keyword .struct, .identifier "point", .symbol .openBrace, .keyword .int, .identifier "x", .symbol .semicolon,
      .symbol .closeBrace, .symbol .semicolon,
      .keyword .struct, .identifier "point", .symbol .openBrace, .keyword .char, .identifier "y", .symbol .semicolon,
      .symbol .closeBrace, .symbol .semicolon,
      .keyword .struct, .identifier "node", .symbol .openBrace, .keyword .int, .identifier "value", .symbol .semicolon,
      .keyword .struct, .identifier "node", .identifier "next", .symbol .semicolon, .symbol .closeBrace,
      .symbol .semicolon,
      .keyword .struct, .identifier "line", .symbol .openBrace, .keyword .struct, .identifier "point",
      .identifier "start", .symbol .semicolon, .symbol .closeBrace, .symbol .semicolon]
  lexemes.map fun lexeme => ⟨lexeme, .start⟩

theorem struct_table_append_only_interruptedTokens :
    let before := (Reader.ofStream (.ofTokens interruptedTokens)).afterCalls [.program, .expression, .program]
    let after := Call.program.run before
    before.tables.structs.all.map (·.name) = ["point"] ∧ after.tables.structs.all.map (·.name) = ["point", "line"] ∧
      after.tables.structs.WellFormed ∧ before.tables.structs.all <+: after.tables.structs.all := by
  obtain ⟨hwell, hbegins, -⟩ :=
    struct_table_append_only interruptedTokens [.program, .expression, .program] .program
  exact ⟨by decide +kernel, by decide +kernel, hwell, hbegins⟩

end ClockedC
