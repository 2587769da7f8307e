import ClockedC.Proofs.Reading.Admissible
import ClockedC.Proofs.Reading.Expression

/-!
# Declarations that are read are admissible

What reading types, array brackets and initial values can give, and what a declaration leaves in sight.
-/

namespace ClockedC

variable {r r' : Reader}

/-! ## Declarations in sight -/

/-- The reader with declarations in sight. -/
def Reader.declaring (r : Reader) (decls : List Variable) : Reader :=
  { r with tables.arrays := r.tables.arrays.declareAll decls }

/-- The reader `r'` is `r` after some of its tokens, with declarations in sight and nothing else changed. -/
structure Reader.PassesDeclaring (decls : List Variable) (r r' : Reader) : Prop where
  suffix : r'.rest <:+ r.rest
  eq_withRest : r' = (r.declaring decls).withRest r'.rest

namespace Reader.PassesDeclaring

variable {r'' : Reader} {decls decls' : List Variable}

/-- Passing tokens declares nothing. -/
theorem of_passes (h : r.Passes r') : PassesDeclaring [] r r' := ⟨h.suffix, h.eq_withRest⟩

/-- Declarations come into sight one after the other. -/
theorem trans (h : PassesDeclaring decls r r') (h' : PassesDeclaring decls' r' r'') :
    PassesDeclaring (decls ++ decls') r r'' := by
  refine ⟨h'.suffix.trans h.suffix, ?_⟩
  have heq : r'.declaring decls' = (r.declaring (decls ++ decls')).withRest r'.rest :=
    calc r'.declaring decls' = ((r.declaring decls).withRest r'.rest).declaring decls' := by rw [← h.eq_withRest]
      _ = (r.declaring (decls ++ decls')).withRest r'.rest := by simp [declaring, withRest]
  rw [h'.eq_withRest, heq]
  rfl

/-- Passing tokens behind declarations declares nothing more. -/
theorem trans_passes (h : PassesDeclaring decls r r') (h' : r'.Passes r'') : PassesDeclaring decls r r'' := by
  have := h.trans (of_passes h')
  rwa [List.append_nil] at this

/-- Passing tokens before declarations declares nothing more. -/
theorem passes_trans (h : r.Passes r') (h' : PassesDeclaring decls r' r'') : PassesDeclaring decls r r'' :=
  (of_passes h).trans h'

/-- The arrays in sight are those before and those that were declared. -/
theorem arrays_eq (h : PassesDeclaring decls r r') : r'.tables.arrays = r.tables.arrays.declareAll decls := by
  rw [h.eq_withRest]
  rfl

/-- Declarations define no struct. -/
theorem structs_eq (h : PassesDeclaring decls r r') : r'.tables.structs = r.tables.structs := by
  rw [h.eq_withRest]
  rfl

/-- Declarations open no loop. -/
theorem loopDepth_eq (h : PassesDeclaring decls r r') : r'.loopDepth = r.loopDepth := by
  rw [h.eq_withRest]
  rfl

/-- Numbers behind declarations are numerals as before. -/
theorem hasNumerals (h : PassesDeclaring decls r r') (hnum : r.HasNumerals) : r'.HasNumerals :=
  fun t ht => hnum t (h.suffix.subset ht)

end Reader.PassesDeclaring

namespace Grammar

/-! ## Types -/

theorem Moves.refuseDeclaration {α : Type} (fault : DeclarationFault) (loc : Location) :
    Moves (refuseDeclaration fault loc : ReadM α) := ⟨.refl⟩

theorem Moves.dataType : Moves dataType := by
  apply current.bind
  intro token
  split
  · exact advance.bind fun _ => pure _
  · exact advance.bind fun _ => pure _
  · exact advance.bind fun _ => pure _
  · exact advance.bind fun _ => pure _
  · exact advance.bind fun _ => pure _
  · refine advance.bind fun _ => identifier.bind fun name => get.bind fun r => ?_
    dsimp only
    split
    · exact (refuseDeclaration ..).bind fun _ => pure _
    · exact pure _
  · exact refuse ..

/-- A type that is read is defined. -/
theorem known_of_dataType {type : DataType} (h : dataType.run r = .ok type r') : type.Known r.tables.structs := by
  rw [dataType, run_bind_of_ok (run_current r)] at h
  split at h
  case h_6 =>
    rw [run_bind_of_ok (run_advance r)] at h
    obtain ⟨name, r₁, hname, h⟩ := run_bind_eq_ok.1 h
    obtain ⟨-, rfl⟩ := run_identifier_eq_ok hname
    rw [run_bind_of_ok (EStateM.run_get _)] at h
    dsimp only at h
    split at h
    · cases h
    · next hsome =>
      cases h
      simpa [DataType.Known, Option.isSome_iff_ne_none] using hsome
  case h_7 => cases h
  all_goals
    cases h
    trivial

/-! ## Array brackets -/

theorem Moves.arrayLength (name : String) : Moves (arrayLength name) := by
  apply current.bind
  intro token
  split
  · apply advance.bind
    intro _
    split
    · exact pure _
    · exact refuseDeclaration ..
  · exact refuseDeclaration ..

/-- A length that is read is positive and has 64 bits. -/
theorem run_arrayLength_eq_ok {name : String} {n : Nat} (h : (arrayLength name).run r = .ok n r') :
    0 < n ∧ n < Text.wordCount := by
  rw [arrayLength, run_bind_of_ok (run_current r)] at h
  split at h
  · next text _ =>
    rw [run_bind_of_ok (run_advance r)] at h
    split at h
    · next n' hn' =>
      cases h
      obtain ⟨hvalue, hpos⟩ := Option.filter_eq_some_iff.1 hn'
      exact ⟨by simpa using hpos, Text.natural64?_lt hvalue⟩
    · cases h
  · cases h

/-- Brackets put an array in sight. -/
theorem run_arrayBrackets_eq_ok {name : String} {length : Option Nat} (h : (arrayBrackets name).run r = .ok length r') :
    (∀ n ∈ length, 0 < n ∧ n < Text.wordCount) ∧
      ∀ decl : Variable, decl.name = name → decl.length = length → Reader.PassesDeclaring [decl] r r' := by
  obtain ⟨b, r₁, haccept, h⟩ := run_bind_eq_ok.1 h
  have hpasses := (Moves.accept _).passes haccept
  cases b with
  | true =>
    obtain ⟨n, r₂, hn, h⟩ := run_bind_eq_ok.1 h
    obtain ⟨_, r₃, hclose, h⟩ := run_bind_eq_ok.1 h
    have hpasses : r.Passes r₃ :=
      hpasses.trans (((Moves.arrayLength name).passes hn).trans ((Moves.expect ..).passes hclose))
    cases h
    refine ⟨by simpa using run_arrayLength_eq_ok hn, ?_⟩
    rintro decl rfl hlength
    refine ⟨hpasses.suffix, ?_⟩
    rw [hpasses.eq_withRest]
    simp [Reader.declaring, Reader.withRest, ArraySizes.declare, hlength]
    rfl
  | false =>
    cases h
    refine ⟨by simp, ?_⟩
    rintro decl rfl hlength
    refine ⟨hpasses.suffix, ?_⟩
    rw [hpasses.eq_withRest]
    simp [Reader.declaring, Reader.withRest, ArraySizes.declare, hlength]
    rfl

/-! ## Initial values -/

theorem Moves.braceValues (depth : Nat) : Moves (braceValues depth) := by
  induction depth with
  | zero => exact refuseDepth
  | succ depth ih =>
    apply (nextIs _).bind
    intro b
    split
    · exact pure _
    · refine expression.bind fun value => (accept .comma).bind fun b => ?_
      split
      · exact ih.bind fun _ => pure _
      · exact pure _

theorem Moves.braceList : Moves braceList :=
  get.bind fun _ => (braceValues _).bind fun _ => (expect ..).bind fun _ => pure _

/-- The values of a list can be written. -/
theorem written_braceValues {depth : Nat} {values : List Expr} (hnum : r.HasNumerals)
    (h : (braceValues depth).run r = .ok values r') : ∀ e ∈ values, e.Written r.tables.arrays := by
  induction depth generalizing r values with
  | zero => cases h
  | succ depth ih =>
    rw [braceValues, braceValuesBy, run_bind_of_ok (run_nextIs _ r)] at h
    split at h
    · cases h
      simp
    · obtain ⟨value, r₁, hvalue, h⟩ := run_bind_eq_ok.1 h
      obtain ⟨b, r₂, haccept, h⟩ := run_bind_eq_ok.1 h
      have hpasses := (Moves.expression.passes hvalue).trans ((Moves.accept _).passes haccept)
      have hwritten := YieldsWritten.expression.written hnum hvalue
      cases b with
      | true =>
        obtain ⟨rest, r₃, hrest, h⟩ := run_bind_eq_ok.1 h
        cases h
        have hrest := ih (hnum.of_passes hpasses) hrest
        rw [hpasses.tables_eq] at hrest
        exact List.forall_mem_cons.2 ⟨hwritten, hrest⟩
      | false =>
        cases h
        simpa using hwritten

/-- The values in braces can be written. -/
theorem written_braceList {values : List Expr} (hnum : r.HasNumerals) (h : braceList.run r = .ok values r') :
    ∀ e ∈ values, e.Written r.tables.arrays := by
  rw [braceList, run_bind_of_ok (EStateM.run_get r)] at h
  obtain ⟨values', r₁, hvalues, h⟩ := run_bind_eq_ok.1 h
  obtain ⟨_, _, -, h⟩ := run_bind_eq_ok.1 h
  cases h
  exact written_braceValues hnum hvalues

/-- A value that is read only moves on, and it fits the variable. -/
theorem run_initializer_eq_ok {name : String} {type : DataType} {length : Option Nat} {loc : Location}
    {init : Initializer} (hnum : r.HasNumerals) (h : (initializer name type length loc).run r = .ok init r') :
    r.Passes r' ∧ init.Admissible r.tables.structs r.tables.arrays type length := by
  obtain ⟨b, r₁, haccept, h⟩ := run_bind_eq_ok.1 h
  have hpasses₁ := (Moves.accept _).passes haccept
  cases b with
  | true =>
    obtain ⟨values, r₂, hvalues, h⟩ := run_bind_eq_ok.1 h
    have hwritten := written_braceList (hnum.of_passes hpasses₁) hvalues
    have hpasses := hpasses₁.trans (Moves.braceList.passes hvalues)
    rw [hpasses₁.tables_eq] at hwritten
    -- braces hold the elements of an array or the fields of a struct, and nothing else
    cases length with
    | some n =>
      dsimp only [if_true] at h
      split at h
      · cases h
      · next hcount =>
        cases h
        exact ⟨hpasses, ⟨n, rfl, by omega⟩, hwritten⟩
    | none =>
      cases type with
      | struct struct =>
        dsimp only [if_true] at h
        rw [run_bind_of_ok (EStateM.run_get r₂)] at h
        split at h
        · cases h
        · next hcount =>
          cases h
          rw [hpasses.tables_eq] at hcount
          exact ⟨hpasses, rfl, ⟨struct, rfl, not_lt.1 hcount⟩, hwritten⟩
      | _ => cases h
  | false =>
    dsimp only at h
    simp only [Bool.false_eq_true, if_false] at h
    split at h
    · cases h
    · next hlength =>
      obtain ⟨value, r₂, hvalue, h⟩ := run_bind_eq_ok.1 h
      cases h
      have hwritten := YieldsWritten.expression.written (hnum.of_passes hpasses₁) hvalue
      rw [hpasses₁.tables_eq] at hwritten
      exact ⟨hpasses₁.trans (Moves.expression.passes hvalue), by simpa using hlength, hwritten⟩

/-! ## Declarations -/

/-- A declaration that is read is admissible and in sight afterwards. -/
theorem run_variableDeclaration_eq_ok {decl : Variable} (hnum : r.HasNumerals)
    (h : variableDeclaration.run r = .ok decl r') :
    Reader.PassesDeclaring [decl] r r' ∧ decl.Admissible r.tables.structs r.tables.arrays := by
  rw [variableDeclaration, run_bind_of_ok (run_current r)] at h
  obtain ⟨type, r₁, htype, h⟩ := run_bind_eq_ok.1 h
  obtain ⟨name, r₂, hname, h⟩ := run_bind_eq_ok.1 h
  have hpasses : r.Passes r₂ := (Moves.dataType.passes htype).trans (Moves.identifier.passes hname)
  dsimp only at h
  split at h
  · cases h
  next hvoid =>
  obtain ⟨length, r₃, hlength, h⟩ := run_bind_eq_ok.1 h
  obtain ⟨b, r₄, haccept, h⟩ := run_bind_eq_ok.1 h
  obtain ⟨hbounds, hdeclaring⟩ := run_arrayBrackets_eq_ok hlength
  have hassign := (Moves.accept _).passes haccept
  cases b with
  | true =>
    simp only [if_true] at h
    obtain ⟨init, r₅, hinit, h⟩ := run_bind_eq_ok.1 h
    obtain ⟨_, r₆, hsemicolon, h⟩ := run_bind_eq_ok.1 h
    obtain ⟨init, hvalue, rfl⟩ := run_map_eq_ok.1 hinit
    cases h
    have hsight := (Reader.PassesDeclaring.passes_trans hpasses (hdeclaring
      ⟨name, type, length, some init, r.next.loc⟩ rfl rfl)).trans_passes hassign
    -- the brackets come before the value, so indices in the value are checked against the array itself
    obtain ⟨hpasses', hfits⟩ := run_initializer_eq_ok (hsight.hasNumerals hnum) hvalue
    rw [hsight.structs_eq, hsight.arrays_eq] at hfits
    refine ⟨(hsight.trans_passes hpasses').trans_passes ((Moves.expect ..).passes hsemicolon), ?_⟩
    exact ⟨known_of_dataType htype, hvoid, hbounds, by simpa using hfits⟩
  | false =>
    simp only [Bool.false_eq_true, if_false] at h
    obtain ⟨init, r₅, hinit, h⟩ := run_bind_eq_ok.1 h
    obtain ⟨_, r₆, hsemicolon, h⟩ := run_bind_eq_ok.1 h
    cases h
    cases hinit
    have hsight := (Reader.PassesDeclaring.passes_trans hpasses (hdeclaring
      ⟨name, type, length, none, r.next.loc⟩ rfl rfl)).trans_passes hassign
    refine ⟨hsight.trans_passes ((Moves.expect ..).passes hsemicolon), ?_⟩
    exact ⟨known_of_dataType htype, hvoid, hbounds, by simp⟩

end Grammar

end ClockedC
