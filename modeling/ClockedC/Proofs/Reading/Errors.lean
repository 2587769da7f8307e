import ClockedC.Proofs.Reading.Steps

/-!
# Errors that a step does not give

Most steps of the grammar only fail because a token or a declaration is not as it should be. They never fail for want of
depth, and never because a constant index misses its array.
-/

namespace ClockedC

/-- The depth has run out. -/
def CompileError.IsTooDeep (e : CompileError) : Prop := ∃ loc, e = .syntactic .tooDeep loc

/-- A constant index misses its array. -/
def CompileError.IsOutOfBounds (e : CompileError) : Prop :=
  ∃ index name size loc, e = .outOfBounds index name size loc

/-- All errors of the kind are about depth or about an index. -/
class CompileError.Rare (kind : CompileError → Prop) : Prop where
  cases : ∀ {e : CompileError}, kind e → e.IsTooDeep ∨ e.IsOutOfBounds

instance : CompileError.Rare CompileError.IsTooDeep := ⟨.inl⟩

instance : CompileError.Rare CompileError.IsOutOfBounds := ⟨.inr⟩

namespace Grammar

variable {α β : Type} {p : ReadM α} {k : α → ReadM β} {r r' : Reader} {e : CompileError} {kind : CompileError → Prop}

/-- A step that gives no error of the kind. -/
structure Avoids (kind : CompileError → Prop) (p : ReadM α) : Prop where
  not_kind : ∀ {r r' : Reader} {e : CompileError}, p.run r = .error e r' → ¬ kind e

namespace Avoids

/-- If the first step gives no error of the kind, the error is that of the second. -/
theorem run_bind_eq_error (hp : Avoids kind p) (he : kind e) (h : (p >>= k).run r = .error e r') :
    ∃ a r₁, p.run r = .ok a r₁ ∧ (k a).run r₁ = .error e r' := by
  rw [EStateM.run_bind] at h
  cases hrun : p.run r with
  | ok a r₁ =>
    rw [hrun] at h
    exact ⟨a, r₁, rfl, h⟩
  | error e' r₁ =>
    rw [hrun] at h
    cases h
    exact absurd he (hp.not_kind hrun)

/-- A sequence avoids what its steps avoid. -/
theorem bind (hp : Avoids kind p) (hk : ∀ a, Avoids kind (k a)) : Avoids kind (p >>= k) := by
  constructor
  intro r r' e h he
  obtain ⟨a, r₁, -, hrun⟩ := hp.run_bind_eq_error he h
  exact (hk a).not_kind hrun he

theorem throw (h : ¬ kind e) : Avoids kind (throw e : ReadM α) := ⟨fun heq => by cases heq; exact h⟩

theorem pure (a : α) : Avoids kind (Pure.pure a : ReadM α) := ⟨fun heq => by cases heq⟩

theorem get : Avoids kind (get : ReadM Reader) := ⟨fun heq => by cases heq⟩

theorem modify (f : Reader → Reader) : Avoids kind (modify f : ReadM Unit) := ⟨fun heq => by cases heq⟩

/-- What is made of the result does not matter. -/
theorem map (hp : Avoids kind p) (f : α → β) : Avoids kind (f <$> p) := by
  rw [← bind_pure_comp]
  exact hp.bind fun _ => pure _

/-! ## Moves -/

theorem current : Avoids kind current := get.bind fun _ => pure _

theorem lexemeAhead (n : Nat) : Avoids kind (lexemeAhead n) := get.bind fun _ => pure _

theorem nextIs (lexeme : Lexeme) : Avoids kind (nextIs lexeme) := current.bind fun _ => pure _

theorem advance : Avoids kind advance := modify _

/-- A lexeme is passed or left. -/
theorem acceptLexeme (lexeme : Lexeme) : Avoids kind (acceptLexeme lexeme) := by
  apply (nextIs lexeme).bind
  intro b
  split
  · exact advance.bind fun _ => pure _
  · exact pure _

theorem accept (symbol : Symbol) : Avoids kind (accept symbol) := acceptLexeme _

theorem acceptKeyword (keyword : Keyword) : Avoids kind (acceptKeyword keyword) := acceptLexeme _

theorem note (event : Event) : Avoids kind (note event) := modify _

/-- A warning is no error. -/
theorem warn (warning : Warning) (loc : Location) : Avoids kind (warn warning loc) := (note _).bind fun _ => modify _

theorem skipWarning (warning : Warning) (loc : Location) : Avoids kind (skipWarning warning loc) :=
  (warn ..).bind fun _ => advance.bind fun _ => pure _

/-! ## Refusals -/

section Rare

variable [CompileError.Rare kind]

/-- Faults of the grammar other than the want of depth are of neither kind. -/
theorem refuse {fault : SyntacticFault} {loc : Location} (h : fault ≠ .tooDeep) :
    Avoids kind (refuse fault loc : ReadM α) := by
  apply throw
  intro hkind
  obtain ⟨_, heq⟩ | ⟨_, _, _, _, heq⟩ := CompileError.Rare.cases hkind
  · cases heq
    exact h rfl
  · cases heq

/-- Faults of declarations are of neither kind. -/
theorem refuseDeclaration (fault : DeclarationFault) (loc : Location) :
    Avoids kind (refuseDeclaration fault loc : ReadM α) := by
  apply throw
  intro hkind
  obtain ⟨_, heq⟩ | ⟨_, _, _, _, heq⟩ := CompileError.Rare.cases hkind <;> cases heq

/-- A check in front of a step. -/
theorem check {c : Prop} [Decidable c] {fault : DeclarationFault} {loc : Location} {p : ReadM β}
    (h : Avoids kind p) : Avoids kind (if c then Grammar.refuseDeclaration fault loc >>= k else p) := by
  split
  · constructor
    intro r r' e hrun he
    obtain ⟨a, r₁, hrun, -⟩ := (refuseDeclaration fault loc).run_bind_eq_error he hrun
    cases hrun
  · exact h

/-- A symbol that is missing is a fault of the grammar. -/
theorem expect (symbol : Symbol) (context : String) : Avoids kind (expect symbol context) := by
  apply (accept symbol).bind
  intro b
  split
  · exact pure _
  · exact current.bind fun _ => refuse (by simp)

/-- A name that is missing is a fault of the grammar. -/
theorem identifier : Avoids kind identifier := by
  apply current.bind
  intro token
  split
  · exact advance.bind fun _ => pure _
  · exact refuse (by simp)

/-- A type refuses what is no type and what is not defined. -/
theorem dataType : Avoids kind dataType := by
  apply current.bind
  intro token
  split
  case h_6 => exact advance.bind fun _ => identifier.bind fun _ => get.bind fun _ => check (pure _)
  case h_7 => exact refuse (by simp)
  all_goals exact advance.bind fun _ => pure _

/-- The length of an array is a number, and no index. -/
theorem arrayLength (name : String) : Avoids kind (arrayLength name) := by
  apply current.bind
  intro token
  split
  · apply advance.bind
    intro
    split
    · exact pure _
    · exact refuseDeclaration ..
  · exact refuseDeclaration ..

/-- So the brackets of a declaration have no index. -/
theorem arrayBrackets (name : String) : Avoids kind (arrayBrackets name) := by
  apply (accept _).bind
  intro b
  split
  · exact (arrayLength name).bind fun _ => (expect ..).bind fun _ => (modify _).bind fun _ => pure _
  · exact pure _

theorem parameter (others : List Parameter) : Avoids kind (parameter others) := by
  refine current.bind fun token => dataType.bind fun type => identifier.bind fun name => check ?_
  exact (nextIs _).bind fun _ => check (check (pure _))

end Rare

end Avoids

end Grammar

end ClockedC
