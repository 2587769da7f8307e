import ClockedC.Proofs.Reading.Locality

/-!
# What holds along the grammar

Reading a program is made of steps inside of functions, of records of what was found, and of definitions of structs. A
relation between readers that these keep holds between the reader before a program and the one behind it, whether
reading succeeds or fails.
-/

namespace ClockedC.Grammar

variable {α β : Type}

/-! ## Fields and parameters -/

namespace Moves

theorem structFields (struct : String) (depth : Nat) (fields : List Field) :
    Moves (structFields struct depth fields) := by
  induction depth generalizing fields with
  | zero => exact refuseDepth
  | succ depth ih =>
    apply current.bind
    intro token
    split
    · exact pure _
    · exact pure _
    · exact dataType.bind fun type => identifier.bind fun name => check (check ((expect ..).bind fun _ => ih _))

theorem parameter (others : List Parameter) : Moves (parameter others) := by
  refine current.bind fun token => dataType.bind fun type => identifier.bind fun name => check ?_
  exact (nextIs _).bind fun b => check (check (pure _))

theorem parametersFrom (depth : Nat) (others : List Parameter) : Moves (parametersFrom depth others) := by
  induction depth generalizing others with
  | zero => exact refuseDepth
  | succ depth ih =>
    refine (parameter others).bind fun p => (accept .comma).bind fun b => ?_
    split
    · exact ih _
    · exact pure _

theorem parameters : Moves parameters := by
  apply (nextIs _).bind
  intro b
  split
  · exact pure _
  · refine (nextIs _).bind fun b => (lexemeAhead 1).bind fun lexeme => ?_
    split
    · exact advance.bind fun _ => pure _
    · exact get.bind fun _ => parametersFrom ..

theorem skipPastSemicolon : Moves skipPastSemicolon := by
  constructor
  intro r
  exact ⟨(List.tail_suffix _).trans (List.dropWhile_suffix _), Reader.with_queue_eq_withRest ..⟩

end Moves

/-! ## Relations between readers -/

/-- A relation between a reader and one further on that is kept by steps inside of functions, by log events, by warnings
of the grammar, which are logged too, and by closing all loops. -/
structure Course (R : Reader → Reader → Prop) : Prop where
  trans : ∀ {r r' r'' : Reader}, R r r' → R r' r'' → R r r''
  locally : ∀ {r r' : Reader}, r.PassesLocally r' → R r r'
  notes : ∀ (r : Reader) (event : Event), event.diagnostic? = none → R r { r with log := r.log ++ [event] }
  warns : ∀ (r : Reader) (warning : Warning) (loc : Location), warning.category = .parser →
    R r { r with
      diagnostics := r.diagnostics ++ [warning.diagnostic loc]
      log := r.log ++ [.reported (warning.diagnostic loc)] }
  noLoop : ∀ r : Reader, R r { r with loopDepth := 0 }

/-- A step that keeps a relation, whether it succeeds or fails. -/
structure Along (R : Reader → Reader → Prop) (p : ReadM α) : Prop where
  run_along : ∀ r : Reader, R r (Outcome.reader (p.run r))

namespace Course

variable {R : Reader → Reader → Prop}

/-! ## Sequences of steps -/

/-- A step inside of a function keeps the relation. -/
theorem of_locally (hR : Course R) {p : ReadM α} (hp : MovesLocally p) : Along R p :=
  ⟨fun r => hR.locally (hp.run_passes r)⟩

/-- A step that only moves on keeps the relation. -/
theorem of_moves (hR : Course R) {p : ReadM α} (hp : Moves p) : Along R p := hR.of_locally (.of_moves hp)

/-- Steps in turn keep the relation if each of them does. -/
theorem bind (hR : Course R) {p : ReadM α} {k : α → ReadM β} (hp : Along R p) (hk : ∀ a, Along R (k a)) :
    Along R (p >>= k) :=
  ⟨fun r => Outcome.reader_bind (P := fun r' => R r r') (hp.run_along r)
    fun a r' h => hR.trans h ((hk a).run_along r')⟩

/-- A step that only moves on, in front of another. -/
theorem move (hR : Course R) {p : ReadM α} {k : α → ReadM β} (hp : Moves p) (hk : ∀ a, Along R (k a)) :
    Along R (p >>= k) := hR.bind (hR.of_moves hp) hk

theorem pure (hR : Course R) (a : α) : Along R (Pure.pure a) := hR.of_moves (.pure a)

/-- A check in front of a step. -/
theorem check (hR : Course R) {c : Prop} [Decidable c] {fault : DeclarationFault} {loc : Location} {k : α → ReadM β}
    {p : ReadM β} (h : Along R p) : Along R (if c then refuseDeclaration fault loc >>= k else p) := by
  split
  · exact ⟨fun r => hR.locally (.of_passes (.refl r))⟩
  · exact h

/-- A record that is no warning keeps the relation. -/
theorem note (hR : Course R) {event : Event} (h : event.diagnostic? = none) : Along R (note event) :=
  ⟨fun r => hR.notes r event h⟩

/-- A warning of the grammar keeps the relation. -/
theorem warn (hR : Course R) {warning : Warning} (h : warning.category = .parser) (loc : Location) :
    Along R (warn warning loc) :=
  ⟨fun r => hR.warns r warning loc h⟩

/-! ## Structs, functions and items -/

/-- Reading a struct keeps a relation that does not depend on the structs that have been defined. -/
theorem structDefinition_of_define (hR : Course R)
    (hdefine : ∀ (r : Reader) (structs : Layouts), R r { r with tables.structs := structs }) :
    Along R structDefinition := by
  refine hR.move .current fun token => hR.move .identifier fun name => hR.move .get fun r => hR.check ?_
  refine hR.move (.expect ..) fun _ => hR.move .get fun r' => hR.move (.structFields ..) fun fields => ?_
  refine hR.move (.expect ..) fun _ => hR.move (.expect ..) fun _ => hR.check ?_
  exact hR.bind ⟨fun r'' => hdefine r'' _⟩ fun _ => hR.bind (hR.note rfl) fun _ => hR.pure _


/-- A function keeps the relation, since its body moves on locally. -/
theorem functionDefinition (hR : Course R) : Along R functionDefinition := by
  refine hR.move .dataType fun result => hR.move .current fun token => hR.move .identifier fun name => ?_
  refine hR.move (.expect ..) fun _ => hR.bind (hR.of_locally ⟨fun r => ?_⟩) fun _ => ?_
  · -- the arrays of the function before are dropped without a move
    exact ⟨List.suffix_refl _, (Reader.withRest_rest _).symm⟩
  · refine hR.move .parameters fun parameters => hR.move (.expect ..) fun _ => hR.move (.accept .semicolon) fun b => ?_
    split
    · exact hR.bind (hR.warn rfl _) fun _ => hR.pure _
    · refine hR.move (.expect ..) fun _ => hR.bind ⟨hR.noLoop⟩ fun _ => hR.bind (hR.of_locally .block) fun body => ?_
      exact hR.move (.expect ..) fun _ => hR.bind (hR.note rfl) fun _ => hR.pure _

/-- An item that is skipped keeps the relation. -/
theorem skipWarning (hR : Course R) {warning : Warning} (h : warning.category = .parser) (loc : Location) :
    Along R (skipWarning warning loc) :=
  hR.bind (hR.warn h loc) fun _ => hR.move .advance fun _ => hR.pure _

/-- An item that begins with a type keeps the relation. -/
theorem typedItem (hR : Course R) (length : Nat) (loc : Location) : Along R (typedItem length loc) := by
  refine hR.move (.lexemeAhead _) fun lexeme => hR.move (.lexemeAhead _) fun lexeme' => ?_
  split
  · exact hR.bind hR.functionDefinition fun _ => hR.pure _
  · exact hR.bind (hR.warn rfl _) fun _ => hR.move .skipPastSemicolon fun _ => hR.pure _
  · exact hR.skipWarning rfl _

/-- An item keeps the relation if the definition of a struct does. -/
theorem topLevel (hR : Course R) (hstruct : Along R structDefinition) : Along R topLevel := by
  apply hR.move .current
  intro token
  split
  case h_1 =>
    refine hR.move (.lexemeAhead _) fun lexeme => hR.move (.lexemeAhead _) fun lexeme' => ?_
    split
    · exact hR.move .advance fun _ => hR.bind hstruct fun _ => hR.pure _
    · exact hR.typedItem ..
    · exact hR.skipWarning rfl _
  case h_7 => exact hR.skipWarning rfl _
  all_goals exact hR.typedItem ..

/-- Items keep the relation if the definition of a struct does. -/
theorem items (hR : Course R) (hstruct : Along R structDefinition) (depth : Nat) : Along R (items depth) := by
  induction depth with
  | zero => exact hR.of_moves .refuseDepth
  | succ depth ih =>
    apply hR.move (.nextIs _)
    intro b
    split
    · exact hR.pure _
    · exact hR.bind (hR.topLevel hstruct) fun item => hR.bind ih fun rest => hR.pure _

/-- Reading a program keeps a relation that the definition of a struct keeps. -/
theorem program (hR : Course R) (hstruct : Along R structDefinition) : Along R program :=
  hR.move .get fun _ => hR.bind (hR.items hstruct _) fun _ => hR.move .get fun _ => hR.bind (hR.note rfl) fun _ =>
    hR.pure _

end Course

end ClockedC.Grammar
