import ClockedC.Proofs.Reading.Statement

/-!
# Programs that are read are admissible

Every program read from the tokens of a source text is admissible, and the structs defined at the end are those of the
program, in source order.
-/

namespace ClockedC

variable {r r' : Reader}

/-! ## Items read on the way -/

/-- The reader `r'` is behind some tokens of `r` and behind the items read from them. Reading gives no warnings of the
scanner. -/
structure Reader.PassesItems (items : List Item) (r r' : Reader) : Prop where
  suffix : r'.rest <:+ r.rest
  structs_eq : r'.tables.structs = r.tables.structs.behindAll items
  diagnostics : ∀ d ∈ r'.diagnostics, d ∈ r.diagnostics ∨ d.category ≠ .lexer

namespace Reader.PassesItems

variable {r'' : Reader} {items items' : List Item}

theorem of_eq (hrest : r'.rest <:+ r.rest) (hstructs : r'.tables.structs = r.tables.structs)
    (hdiagnostics : r'.diagnostics = r.diagnostics) : PassesItems [] r r' :=
  ⟨hrest, hstructs, fun _ hd => .inl (hdiagnostics ▸ hd)⟩

theorem of_passesDeclaring {decls : List Variable} (h : PassesDeclaring decls r r') : PassesItems [] r r' :=
  of_eq h.suffix h.structs_eq (by rw [h.eq_withRest]; rfl)

theorem of_passes (h : r.Passes r') : PassesItems [] r r' := of_passesDeclaring (.of_passes h)

/-- Items are read one after the other. -/
theorem trans (h : PassesItems items r r') (h' : PassesItems items' r' r'') :
    PassesItems (items ++ items') r r'' := by
  refine ⟨h'.suffix.trans h.suffix, ?_, ?_⟩
  · rw [h'.structs_eq, h.structs_eq, Layouts.behindAll_append]
  · intro d hd
    rcases h'.diagnostics d hd with hd | hd
    · exact h.diagnostics d hd
    · exact .inr hd

theorem hasNumerals (h : PassesItems items r r') (hnum : r.HasNumerals) : r'.HasNumerals :=
  fun t ht => hnum t (h.suffix.subset ht)

end Reader.PassesItems

namespace Grammar

/-- A warning of the grammar. -/
theorem passesItems_warn {warning : Warning} {loc : Location} {u : Unit} (hcategory : warning.category ≠ .lexer)
    (h : (warn warning loc).run r = .ok u r') : Reader.PassesItems [] r r' := by
  cases h
  refine ⟨List.suffix_refl _, rfl, ?_⟩
  intro d hd
  rcases List.mem_append.1 hd with hd | hd
  · exact .inl hd
  · rw [List.mem_singleton.1 hd]
    exact .inr hcategory

/-! ## Structs -/

/-- Fields that are read are admissible together with those before. -/
theorem run_structFields_eq_ok {struct : String} {depth : Nat} {fields fields' : List Field} {r r' : Reader}
    (hfields : FieldsAdmissible r.tables.structs fields)
    (h : (structFields struct depth fields).run r = .ok fields' r') :
    r.Passes r' ∧ FieldsAdmissible r.tables.structs fields' := by
  induction depth generalizing fields r with
  | zero => cases h
  | succ depth ih =>
    rw [structFields, structFieldsBy, run_bind_of_ok (run_current r)] at h
    split at h
    · cases h
      exact ⟨.refl _, hfields⟩
    · cases h
      exact ⟨.refl _, hfields⟩
    · obtain ⟨type, r₁, htype, h⟩ := run_bind_eq_ok.1 h
      obtain ⟨name, r₂, hname, h⟩ := run_bind_eq_ok.1 h
      dsimp only at h
      split at h
      · cases h
      next hvoid =>
      split at h
      · cases h
      next hnew =>
      obtain ⟨_, r₃, hsemicolon, h⟩ := run_bind_eq_ok.1 h
      have hpasses : r.Passes r₃ := (Moves.dataType.passes htype).trans
        ((Moves.identifier.passes hname).trans ((Moves.expect ..).passes hsemicolon))
      have hmore : FieldsAdmissible r.tables.structs (fields ++ [⟨name, type⟩]) :=
        hfields.append (known_of_dataType htype) hvoid hnew
      rw [← hpasses.tables_eq] at hmore ⊢
      obtain ⟨hpasses', hok⟩ := ih hmore h
      exact ⟨hpasses.trans hpasses', hok⟩

/-- A struct that is read is admissible and defined afterwards. -/
theorem run_structDefinition_eq_ok {decl : Struct} (h : structDefinition.run r = .ok decl r') :
    Reader.PassesItems [.struct decl] r r' ∧ decl.Admissible r.tables.structs := by
  rw [structDefinition, run_bind_of_ok (run_current r)] at h
  obtain ⟨name, r₁, hname, h⟩ := run_bind_eq_ok.1 h
  have hpasses := Moves.identifier.passes hname
  rw [run_bind_of_ok (EStateM.run_get r₁)] at h
  dsimp only at h
  split at h
  · cases h
  next hfresh =>
  obtain ⟨_, r₂, hopen, h⟩ := run_bind_eq_ok.1 h
  rw [run_bind_of_ok (EStateM.run_get r₂)] at h
  obtain ⟨fields, r₃, hfields, h⟩ := run_bind_eq_ok.1 h
  obtain ⟨_, r₄, hclose, h⟩ := run_bind_eq_ok.1 h
  obtain ⟨_, r₅, hsemicolon, h⟩ := run_bind_eq_ok.1 h
  split at h
  · cases h
  next hnonempty =>
  cases h
  have hpasses₂ := hpasses.trans ((Moves.expect ..).passes hopen)
  obtain ⟨hpasses₃, hok⟩ := run_structFields_eq_ok (.nil _) hfields
  have hpasses₅ : r.Passes r₅ := (hpasses₂.trans hpasses₃).trans
    (((Moves.expect ..).passes hclose).trans ((Moves.expect ..).passes hsemicolon))
  rw [hpasses₂.tables_eq] at hok
  rw [hpasses.tables_eq] at hfresh
  refine ⟨⟨hpasses₅.suffix, ?_, ?_⟩, by simpa using hfresh, by simpa using hnonempty, hok⟩
  -- the struct is defined in the tables of the reader at its beginning, since nothing on the way changed them
  · rw [← hpasses₅.tables_eq]
    rfl
  · exact (Reader.PassesItems.of_passes hpasses₅).diagnostics

/-! ## Parameters -/

/-- A parameter that is read has a known type and a name of its own. -/
theorem run_parameter_eq_ok {others : List Parameter} {p : Parameter}
    (hothers : FieldsAdmissible r.tables.structs (others.map Parameter.toField))
    (h : (parameter others).run r = .ok p r') :
    r.Passes r' ∧ FieldsAdmissible r.tables.structs ((others ++ [p]).map Parameter.toField) := by
  rw [parameter, run_bind_of_ok (run_current r)] at h
  obtain ⟨type, r₁, htype, h⟩ := run_bind_eq_ok.1 h
  obtain ⟨name, r₂, hname, h⟩ := run_bind_eq_ok.1 h
  dsimp only at h
  split at h
  · cases h
  next hvoid =>
  rw [run_bind_of_ok (run_nextIs _ r₂)] at h
  split at h
  · cases h
  split at h
  · cases h
  next hnew =>
  cases h
  rw [List.map_append]
  refine ⟨(Moves.dataType.passes htype).trans (Moves.identifier.passes hname), ?_⟩
  refine hothers.append (known_of_dataType htype) hvoid ?_
  rwa [List.any_map]

/-- Parameters that are read have known types and different names. -/
theorem run_parametersFrom_eq_ok {depth : Nat} {others ps : List Parameter}
    (hothers : FieldsAdmissible r.tables.structs (others.map Parameter.toField))
    (h : (parametersFrom depth others).run r = .ok ps r') :
    r.Passes r' ∧ FieldsAdmissible r.tables.structs (ps.map Parameter.toField) := by
  induction depth generalizing others r with
  | zero => cases h
  | succ depth ih =>
    obtain ⟨p, r₁, hp, h⟩ := run_bind_eq_ok.1 h
    obtain ⟨b, r₂, haccept, h⟩ := run_bind_eq_ok.1 h
    obtain ⟨hpasses, hok⟩ := run_parameter_eq_ok hothers hp
    have hpasses := hpasses.trans ((Moves.accept _).passes haccept)
    cases b with
    | true =>
      rw [← hpasses.tables_eq] at hok ⊢
      obtain ⟨hpasses', hok'⟩ := ih hok h
      exact ⟨hpasses.trans hpasses', hok'⟩
    | false =>
      cases h
      exact ⟨hpasses, hok⟩

/-- So have the parameters of a function, also if there are none. -/
theorem run_parameters_eq_ok {ps : List Parameter} (h : parameters.run r = .ok ps r') :
    r.Passes r' ∧ FieldsAdmissible r.tables.structs (ps.map Parameter.toField) := by
  rw [parameters, run_bind_of_ok (run_nextIs _ r)] at h
  split at h
  · cases h
    exact ⟨.refl r, .nil _⟩
  · rw [run_bind_of_ok (run_nextIs _ r), run_bind_of_ok (run_lexemeAhead 1 r)] at h
    split at h
    · rw [run_bind_of_ok (run_advance r)] at h
      cases h
      exact ⟨.tail r, .nil _⟩
    · rw [run_bind_of_ok (EStateM.run_get r)] at h
      exact run_parametersFrom_eq_ok (.nil _) h

/-! ## Functions -/

/-- A function that is read is admissible; a prototype leaves nothing but a warning. -/
theorem run_functionDefinition_eq_ok {f : Option Function} (hnum : r.HasNumerals)
    (h : functionDefinition.run r = .ok f r') :
    Reader.PassesItems [] r r' ∧ ∀ decl ∈ f, decl.Admissible r.tables.structs := by
  obtain ⟨result, r₁, hresult, h⟩ := run_bind_eq_ok.1 h
  rw [run_bind_of_ok (run_current r₁)] at h
  obtain ⟨name, r₂, hname, h⟩ := run_bind_eq_ok.1 h
  obtain ⟨_, r₃, hopen, h⟩ := run_bind_eq_ok.1 h
  rw [run_bind_of_ok (EStateM.run_modify _ r₃)] at h
  obtain ⟨ps, r₄, hps, h⟩ := run_bind_eq_ok.1 h
  obtain ⟨_, r₅, hclose, h⟩ := run_bind_eq_ok.1 h
  obtain ⟨b, r₆, haccept, h⟩ := run_bind_eq_ok.1 h
  have hpasses₃ : r.Passes r₃ := (Moves.dataType.passes hresult).trans
    ((Moves.identifier.passes hname).trans ((Moves.expect ..).passes hopen))
  obtain ⟨hpasses₄, hparameters⟩ := run_parameters_eq_ok hps
  have hpasses₆ := (hpasses₄.trans ((Moves.expect ..).passes hclose)).trans ((Moves.accept _).passes haccept)
  -- the arrays of the function before are out of sight
  have hreset : Reader.PassesItems [] r { r₃ with tables.arrays := .empty } :=
    .of_eq hpasses₃.suffix hpasses₃.structs_eq hpasses₃.diagnostics_eq
  have hitems₆ := hreset.trans (.of_passes hpasses₆)
  cases b with
  | true =>
    obtain ⟨_, r₇, hwarn, h⟩ := run_bind_eq_ok.1 h
    cases h
    exact ⟨hitems₆.trans (passesItems_warn (by simp [Warning.category]) hwarn), by simp⟩
  | false =>
    obtain ⟨_, r₇, hbrace, h⟩ := run_bind_eq_ok.1 h
    rw [run_bind_of_ok (EStateM.run_modify _ r₇)] at h
    obtain ⟨body, r₈, hbody, h⟩ := run_bind_eq_ok.1 h
    obtain ⟨_, r₉, hend, h⟩ := run_bind_eq_ok.1 h
    cases h
    have hpasses₇ := hpasses₆.trans ((Moves.expect ..).passes hbrace)
    have hstart : Reader.PassesItems [] r { r₇ with loopDepth := 0 } :=
      hreset.trans (.of_eq hpasses₇.suffix hpasses₇.structs_eq hpasses₇.diagnostics_eq)
    obtain ⟨hpasses₈, hok⟩ := Admits.block.of_ok (hstart.hasNumerals hnum) hbody
    have hend₉ := (hstart.trans (.of_passesDeclaring hpasses₈)).trans (.of_passes ((Moves.expect ..).passes hend))
    refine ⟨⟨hend₉.suffix, hend₉.structs_eq, hend₉.diagnostics⟩, ?_⟩
    rintro decl ⟨⟩
    have hfalse : ((0 : Nat) ≠ 0) = False := by simp
    have harrays : r₇.tables.arrays = .empty := congrArg Tables.arrays hpasses₇.tables_eq
    have hstructs : r₇.tables.structs = r.tables.structs := hstart.structs_eq
    rw [hfalse, harrays, hstructs] at hok
    have hstructs₃ : r₃.tables.structs = r.tables.structs := hreset.structs_eq
    rw [hstructs₃] at hparameters
    exact ⟨known_of_dataType hresult, hparameters, hok⟩

/-! ## Items -/

/-- What is skipped with a warning is no item. -/
theorem passesItems_skipWarning {warning : Warning} {loc : Location} {item : Option Item}
    (hcategory : warning.category ≠ .lexer) (h : (skipWarning warning loc).run r = .ok item r') :
    item = none ∧ Reader.PassesItems [] r r' := by
  obtain ⟨_, r₁, hwarn, h⟩ := run_bind_eq_ok.1 h
  obtain ⟨_, r₂, hadvance, h⟩ := run_bind_eq_ok.1 h
  cases h
  exact ⟨rfl, (passesItems_warn hcategory hwarn).trans (.of_passes (Moves.advance.passes hadvance))⟩

/-- What begins with a type and is read as an item is an admissible function. -/
theorem run_typedItem_eq_ok {length : Nat} {loc : Location} {item : Option Item} (hnum : r.HasNumerals)
    (h : (typedItem length loc).run r = .ok item r') :
    Reader.PassesItems item.toList r r' ∧ ∀ i ∈ item, i.Admissible r.tables.structs := by
  rw [typedItem, run_bind_of_ok (run_lexemeAhead _ r), run_bind_of_ok (run_lexemeAhead _ r)] at h
  split at h
  · obtain ⟨f, r₁, hf, h⟩ := run_bind_eq_ok.1 h
    cases h
    obtain ⟨hpasses, hok⟩ := run_functionDefinition_eq_ok hnum hf
    cases f with
    | none => exact ⟨hpasses, by simp⟩
    | some decl =>
      refine ⟨⟨hpasses.suffix, hpasses.structs_eq, hpasses.diagnostics⟩, ?_⟩
      rintro i ⟨⟩
      exact hok decl rfl
  · obtain ⟨_, r₁, hwarn, h⟩ := run_bind_eq_ok.1 h
    obtain ⟨_, r₂, hskip, h⟩ := run_bind_eq_ok.1 h
    cases h
    cases hskip
    refine ⟨(passesItems_warn (by simp [Warning.category]) hwarn).trans (.of_eq ?_ rfl rfl), by simp⟩
    exact (List.tail_suffix _).trans (List.dropWhile_suffix _)
  · obtain ⟨rfl, hpasses⟩ := passesItems_skipWarning (by simp [Warning.category]) h
    exact ⟨hpasses, by simp⟩

/-- An item that is read is admissible, and what is skipped leaves nothing but a warning. -/
theorem run_topLevel_eq_ok {item : Option Item} (hnum : r.HasNumerals) (h : topLevel.run r = .ok item r') :
    Reader.PassesItems item.toList r r' ∧ ∀ i ∈ item, i.Admissible r.tables.structs := by
  rw [topLevel, run_bind_of_ok (run_current r)] at h
  split at h
  case h_1 =>
    rw [run_bind_of_ok (run_lexemeAhead _ r), run_bind_of_ok (run_lexemeAhead _ r)] at h
    split at h
    · rw [run_bind_of_ok (run_advance r)] at h
      obtain ⟨decl, r₁, hdecl, h⟩ := run_bind_eq_ok.1 h
      cases h
      obtain ⟨hpasses, hok⟩ := run_structDefinition_eq_ok hdecl
      refine ⟨(Reader.PassesItems.of_passes (.tail r)).trans hpasses, ?_⟩
      rintro i ⟨⟩
      exact hok
    · exact run_typedItem_eq_ok hnum h
    · obtain ⟨rfl, hpasses⟩ := passesItems_skipWarning (by simp [Warning.category]) h
      exact ⟨hpasses, by simp⟩
  case h_7 =>
    obtain ⟨rfl, hpasses⟩ := passesItems_skipWarning (by simp [Warning.category]) h
    exact ⟨hpasses, by simp⟩
  all_goals exact run_typedItem_eq_ok hnum h

/-- Items that are read are admissible in a row. -/
theorem run_items_eq_ok {depth : Nat} {is : List Item} (hnum : r.HasNumerals) (h : (items depth).run r = .ok is r') :
    Reader.PassesItems is r r' ∧ Item.AllAdmissible r.tables.structs is := by
  induction depth generalizing r is with
  | zero => cases h
  | succ depth ih =>
    rw [items, itemsBy, run_bind_of_ok (run_nextIs _ r)] at h
    split at h
    · cases h
      exact ⟨.of_passes (.refl _), trivial⟩
    · obtain ⟨item, r₁, hitem, h⟩ := run_bind_eq_ok.1 h
      obtain ⟨rest, r₂, hrest, h⟩ := run_bind_eq_ok.1 h
      cases h
      obtain ⟨hpasses, hok⟩ := run_topLevel_eq_ok hnum hitem
      obtain ⟨hpasses₂, hok₂⟩ := ih (hpasses.hasNumerals hnum) hrest
      rw [hpasses.structs_eq] at hok₂
      refine ⟨hpasses.trans hpasses₂, ?_⟩
      cases item with
      | none => exact hok₂
      | some i => exact ⟨hok i rfl, hok₂⟩

/-- A program that is read is admissible, and its structs are those defined at the end. -/
theorem run_program_eq_ok {p : Program} (hnum : r.HasNumerals) (h : program.run r = .ok p r') :
    Reader.PassesItems p.items r r' ∧ Item.AllAdmissible r.tables.structs p.items := by
  rw [program, run_bind_of_ok (EStateM.run_get r)] at h
  obtain ⟨is, r₁, his, h⟩ := run_bind_eq_ok.1 h
  cases h
  obtain ⟨hpasses, hok⟩ := run_items_eq_ok hnum his
  exact ⟨⟨hpasses.suffix, hpasses.structs_eq, hpasses.diagnostics⟩, hok⟩

end Grammar

end ClockedC
