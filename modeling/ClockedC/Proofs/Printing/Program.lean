import ClockedC.Proofs.Printing.Statement
import ClockedC.Proofs.Reading.Program

/-!
# Programs are read back

A program that was read from a source text is read back from its lexemes, up to locations, without warnings, and the
same structs are defined at the end.

* `program_round_trip` : what was read from a source text is read back from how it is written.
-/

namespace ClockedC

variable {structs : Layouts} {arrays : ArraySizes}

/-! ## Lexemes of the scanner -/

@[simp] theorem DataType.allScannable (type : DataType) : AllScannable type.lexemes := by
  cases type <;> simp [lexemes, Lexeme.Scannable]

theorem Expr.allScannable_listLexemes {es : List Expr} (h : ∀ e ∈ es, e.Written arrays) :
    AllScannable (Expr.listLexemes es) := by
  rw [Expr.listLexemes, AllScannable.commaJoined_iff]
  intro ls hls
  obtain ⟨e, he, rfl⟩ := List.mem_map.1 hls
  exact (h e he).canonical.allScannable

theorem Variable.Admissible.allScannable {decl : Variable} (h : decl.Admissible structs arrays) :
    AllScannable decl.lexemes := by
  have hlength : AllScannable (lengthLexemes decl.length) := by
    cases decl.length with
    | none => exact .nil
    | some n => simpa [lengthLexemes, Lexeme.Scannable] using isNumeral_toString n
  have hinit : AllScannable (initLexemes decl.init) := by
    cases hinit : decl.init with
    | none => simp [initLexemes]
    | some init =>
      have hok := h.init init hinit
      cases init with
      | value e => simpa [initLexemes, Initializer.lexemes, Lexeme.Scannable] using hok.2.canonical.allScannable
      | elements es =>
        simpa [initLexemes, Initializer.lexemes, Lexeme.Scannable] using Expr.allScannable_listLexemes hok.2
      | fields es =>
        simpa [initLexemes, Initializer.lexemes, Lexeme.Scannable] using Expr.allScannable_listLexemes hok.2.2
  simpa [lexemes, Lexeme.Scannable] using ⟨hlength, hinit⟩

theorem Assignment.Admissible.allScannable {a : Assignment} (h : a.Admissible arrays) : AllScannable a.lexemes := by
  simpa [lexemes, Lexeme.Scannable] using ⟨h.target.canonical.allScannable, h.value.canonical.allScannable⟩

theorem allScannable_conditionLexemes {condition : Option Expr} (h : ∀ e ∈ condition, e.Written arrays) :
    AllScannable (conditionLexemes condition) := by
  cases condition with
  | none => exact .nil
  | some e => exact (h e rfl).canonical.allScannable

theorem allScannable_stepLexemes {increment : Option Assignment} (h : ∀ a ∈ increment, a.Admissible arrays) :
    AllScannable (stepLexemes increment) := by
  cases increment with
  | none => exact .nil
  | some a => exact (h a rfl).allScannable

mutual

/-- Statements are written with lexemes of the scanner. -/
theorem Statement.Admissible.allScannable {structs : Layouts} {inLoop : Prop} {arrays : ArraySizes} {s : Statement}
    (h : s.Admissible structs inLoop arrays) : AllScannable s.lexemes := by
  cases s with
  | declare decl => exact Variable.Admissible.allScannable h
  | assign a => simpa [Statement.lexemes, Lexeme.Scannable] using Assignment.Admissible.allScannable h
  | branch condition body alternative loc =>
    obtain ⟨hcondition, hbody, halternative⟩ := h
    simpa [Statement.lexemes, Lexeme.Scannable] using
      ⟨hcondition.canonical.allScannable, hbody.allScannable, halternative.allScannable⟩
  | whileLoop condition body loc =>
    obtain ⟨hcondition, hbody⟩ := h
    simpa [Statement.lexemes, Lexeme.Scannable] using ⟨hcondition.canonical.allScannable, hbody.allScannable⟩
  | forLoop start condition increment body loc =>
    cases start with
    | none =>
      obtain ⟨hcondition, hincrement, hbody⟩ := h
      simpa [Statement.lexemes, Lexeme.Scannable] using
        ⟨allScannable_conditionLexemes hcondition, allScannable_stepLexemes hincrement, hbody.allScannable⟩
    | some s =>
      obtain ⟨-, hstart, hcondition, hincrement, hbody⟩ := h
      simpa [Statement.lexemes, Lexeme.Scannable] using
        ⟨hstart.allScannable, allScannable_conditionLexemes hcondition, allScannable_stepLexemes hincrement,
          hbody.allScannable⟩
  | giveBack value loc => simpa [Statement.lexemes, Lexeme.Scannable] using allScannable_conditionLexemes h
  | leaveLoop loc => simp [Statement.lexemes, Lexeme.Scannable]
  | nextRound loc => simp [Statement.lexemes, Lexeme.Scannable]
  | evaluate value => simpa [Statement.lexemes, Lexeme.Scannable] using h.2.canonical.allScannable

theorem Alternative.Admissible.allScannable {structs : Layouts} {inLoop : Prop} {arrays : ArraySizes}
    {alternative : Alternative} (h : alternative.Admissible structs inLoop arrays) :
    AllScannable alternative.lexemes := by
  cases alternative with
  | nothing => simp [Alternative.lexemes]
  | elseIf condition body rest =>
    obtain ⟨hcondition, hbody, hrest⟩ := h
    simpa [Alternative.lexemes, Lexeme.Scannable] using
      ⟨hcondition.canonical.allScannable, hbody.allScannable, hrest.allScannable⟩
  | otherwise body =>
    simpa [Alternative.lexemes, Lexeme.Scannable] using Statement.AllAdmissible.allScannable h

theorem Statement.AllAdmissible.allScannable {structs : Layouts} {inLoop : Prop} {arrays : ArraySizes}
    {ss : List Statement} (h : Statement.AllAdmissible structs inLoop arrays ss) :
    AllScannable (Statement.listLexemes ss) := by
  cases ss with
  | nil => simp [Statement.listLexemes]
  | cons s ss => simpa [Statement.listLexemes] using ⟨h.1.allScannable, h.2.allScannable⟩

end

theorem Item.Admissible.allScannable {item : Item} (h : item.Admissible structs) : AllScannable item.lexemes := by
  cases item with
  | struct decl =>
    have hfields : AllScannable (decl.fields.flatMap Field.lexemes) := by
      intro l hl
      obtain ⟨f, -, hf⟩ := List.mem_flatMap.1 hl
      have hfield : AllScannable f.lexemes := by simp [Field.lexemes, Lexeme.Scannable]
      exact hfield l hf
    simpa [Item.lexemes, Struct.lexemes, Lexeme.Scannable] using hfields
  | function f =>
    have hparameters : ∀ p ∈ f.parameters, AllScannable p.lexemes := by
      intro p _
      simp [Parameter.lexemes, Lexeme.Scannable]
    simpa [Item.lexemes, Function.lexemes, Lexeme.Scannable] using ⟨hparameters, h.body.allScannable⟩

/-- Items that can be read are written with lexemes of the scanner. -/
theorem Item.AllAdmissible.allScannable {items : List Item} (h : Item.AllAdmissible structs items) :
    AllScannable (items.flatMap Item.lexemes) := by
  induction items generalizing structs with
  | nil => exact .nil
  | cons item items ih =>
    rw [List.flatMap_cons, AllScannable.append_iff]
    exact ⟨h.1.allScannable, ih h.2⟩

/-! ## Behind items -/

/-- The reader `r'` is in front of `tail`, behind `items` that `r` stood in front of, and no warning was given on the
way. -/
structure Reader.Leads (items : List Item) (tail : List Token) (r r' : Reader) : Prop where
  rest_eq : r'.rest = tail
  structs_eq : r'.tables.structs = r.tables.structs.behindAll items
  diagnostics_eq : r'.diagnostics = r.diagnostics

/-- A type begins with a keyword. -/
theorem DataType.exists_lexemes_eq_cons (type : DataType) : ∃ keyword ls, type.lexemes = .keyword keyword :: ls := by
  cases type <;> exact ⟨_, _, rfl⟩

/-- A field of the list has a name that no field before it has. -/
theorem FieldsAdmissible.not_any_name {before after : List Field} {f : Field}
    (h : FieldsAdmissible structs (before ++ f :: after)) : ¬ before.any (·.name = f.name) := by
  have hnodup := h.nodup
  rw [List.map_append, List.map_cons, List.nodup_append] at hnodup
  simp only [List.any_eq_true, decide_eq_true_eq, not_exists, not_and]
  exact fun g hg => hnodup.2.2 g.name (List.mem_map_of_mem hg) f.name List.mem_cons_self

/-- An item begins with a keyword. -/
theorem Item.exists_lexemes_eq_cons (item : Item) : ∃ keyword ls, item.lexemes = .keyword keyword :: ls := by
  cases item with
  | struct decl => exact ⟨_, _, rfl⟩
  | function f =>
    obtain ⟨keyword, ls, hls⟩ := f.result.exists_lexemes_eq_cons
    rw [Item.lexemes, Function.lexemes, hls]
    exact ⟨_, _, rfl⟩

/-- What is written with a lexeme at least is no longer than how it is written. -/
theorem length_le_length_flatMap {α : Type} {f : α → List Lexeme} (h : ∀ a, 0 < (f a).length) (as : List α) :
    as.length ≤ (as.flatMap f).length := by
  induction as with
  | nil => exact Nat.le_refl 0
  | cons a as ih =>
    have hpos := h a
    simp only [List.flatMap_cons, List.length_cons, List.length_append]
    omega

namespace Grammar

variable {r : Reader} {tail : List Token}

/-! ## Structs -/

/-- The fields of a struct are read back behind those before. -/
theorem run_structFields_lexemes {struct : String} {before fields : List Field} {depth : Nat}
    (h : FieldsAdmissible r.tables.structs (before ++ fields)) (hdepth : fields.length < depth) :
    (structFields struct depth before).run
        (r.withRest (tokensOf (fields.flatMap Field.lexemes) ++ ⟨.symbol .closeBrace, .nowhere⟩ :: tail)) =
      .ok (before ++ fields) (r.withRest (⟨.symbol .closeBrace, .nowhere⟩ :: tail)) := by
  induction fields generalizing before depth with
  | nil =>
    obtain ⟨depth, rfl⟩ : ∃ d, depth = d + 1 := ⟨depth - 1, by omega⟩
    rw [structFields, structFieldsBy, run_bind_of_ok (run_current _), List.append_nil]
    rfl
  | cons f fields ih =>
    obtain ⟨depth, rfl⟩ : ∃ d, depth = d + 1 := ⟨depth - 1, by omega⟩
    obtain ⟨hknown, hvoid⟩ := h.known f (by simp)
    obtain ⟨keyword, ls, hls⟩ := f.type.exists_lexemes_eq_cons
    -- the field goes over to those that were read before
    have hmore : FieldsAdmissible r.tables.structs ((before ++ [f]) ++ fields) := by
      rwa [List.append_assoc, List.singleton_append]
    have hrest := ih hmore (Nat.lt_of_succ_lt_succ hdepth)
    rw [List.append_assoc, List.singleton_append] at hrest
    have hnext : ∀ ts, (r.withRest (tokensOf f.type.lexemes ++ ts)).next = ⟨.keyword keyword, .nowhere⟩ := by
      intro ts
      rw [hls]
      rfl
    rw [List.flatMap_cons, Field.lexemes, tokensOf_append, tokensOf_append, List.append_assoc, List.append_assoc,
      structFields, structFieldsBy, run_bind_of_ok (run_current _)]
    simp only [hnext]
    rw [run_bind_of_ok (run_dataType_lexemes hknown)]
    simp only [tokensOf_cons, tokensOf_nil, List.cons_append, List.nil_append]
    rw [run_bind_of_ok (run_identifier_cons ..), if_neg hvoid, if_neg h.not_any_name,
      run_bind_of_ok (run_expect_cons ..)]
    exact hrest

/-- An admissible struct is read back behind its keyword, and defined afterwards. -/
theorem run_structDefinition_lexemes (tail : List Token) {decl : Struct} (h : decl.Admissible r.tables.structs) :
    ∃ r', structDefinition.run (r.withRest (tokensOf decl.lexemes.tail ++ tail)) = .ok decl.unlocated r' ∧
      Reader.Leads [.struct decl] tail r r' := by
  have hfresh : ∀ ts, ¬ ((r.withRest ts).tables.structs.index? decl.name).isSome := by
    intro ts
    simp [h.fresh]
  have hlength := length_le_length_flatMap (fun f : Field => show 0 < f.lexemes.length by simp [Field.lexemes])
    decl.fields
  have hne : ¬ decl.fields.isEmpty := by simpa using h.ne_nil
  simp only [Struct.lexemes, List.tail_cons, braced, tokensOf_cons, tokensOf_append, tokensOf_nil, List.cons_append,
    List.append_assoc, List.nil_append]
  rw [structDefinition, run_bind_of_ok (run_current _), run_bind_of_ok (run_identifier_cons ..),
    run_bind_of_ok (EStateM.run_get _), if_neg (hfresh _), run_bind_of_ok (run_expect_cons ..),
    run_bind_of_ok (EStateM.run_get _), run_bind_of_ok (run_structFields_lexemes h.fields ?_),
    run_bind_of_ok (run_expect_cons ..), run_bind_of_ok (run_expect_cons ..), List.nil_append, if_neg hne]
  · exact ⟨_, rfl, rfl, rfl, rfl⟩
  · rw [Reader.depth_withRest, List.length_append, length_tokensOf]
    omega

/-! ## Functions -/

/-- A parameter is read back behind those before. -/
theorem run_parameter_lexemes {others : List Parameter} {p : Parameter} {after : List Field}
    (h : FieldsAdmissible r.tables.structs (others.map Parameter.toField ++ p.toField :: after))
    (hbracket : (r.withRest tail).next.lexeme ≠ .symbol .openBracket) :
    (parameter others).run (r.withRest (tokensOf p.lexemes ++ tail)) = .ok p.unlocated (r.withRest tail) := by
  obtain ⟨hknown, hvoid⟩ : p.type.Known r.tables.structs ∧ p.type ≠ .void := h.known p.toField (by simp)
  obtain ⟨keyword, ls, hls⟩ := p.type.exists_lexemes_eq_cons
  have hnew : ¬ others.any (·.name = p.name) := by
    have hfields := h.not_any_name
    rwa [List.any_map] at hfields
  have hnext : ∀ ts, (r.withRest (tokensOf p.type.lexemes ++ ts)).next = ⟨.keyword keyword, .nowhere⟩ := by
    intro ts
    rw [hls]
    rfl
  rw [Parameter.lexemes, tokensOf_append, List.append_assoc, parameter, run_bind_of_ok (run_current _), hnext,
    run_bind_of_ok (run_dataType_lexemes hknown)]
  simp only [tokensOf_cons, tokensOf_nil, List.cons_append, List.nil_append]
  rw [run_bind_of_ok (run_identifier_cons ..), if_neg hvoid, run_bind_of_ok (run_nextIs ..)]
  simp only [hbracket, decide_false, Bool.false_eq_true, if_false]
  rw [if_neg hnew]
  rfl

/-- Parameters are read back behind those before. -/
theorem run_parametersFrom_lexemes {others ps : List Parameter} {p : Parameter} {depth : Nat}
    (h : FieldsAdmissible r.tables.structs ((others ++ p :: ps).map Parameter.toField)) (hdepth : ps.length < depth) :
    (parametersFrom depth others).run (r.withRest (tokensOf (commaJoined ((p :: ps).map Parameter.lexemes)) ++
        ⟨.symbol .closeParen, .nowhere⟩ :: tail)) =
      .ok (others ++ (p :: ps).map Parameter.unlocated) (r.withRest (⟨.symbol .closeParen, .nowhere⟩ :: tail)) := by
  induction ps generalizing others p depth with
  | nil =>
    obtain ⟨depth, rfl⟩ : ∃ d, depth = d + 1 := ⟨depth - 1, by omega⟩
    rw [List.map_append] at h
    rw [parametersFrom, parametersBy, List.map_cons, List.map_nil, commaJoined,
      run_bind_of_ok (run_parameter_lexemes h (by simp)),
      run_bind_of_ok (run_accept_of_ne (by simp))]
    rfl
  | cons q ps ih =>
    obtain ⟨depth, rfl⟩ : ∃ d, depth = d + 1 := ⟨depth - 1, by omega⟩
    have hmore : FieldsAdmissible r.tables.structs ((others ++ [p.unlocated] ++ q :: ps).map Parameter.toField) := by
      rw [List.append_assoc, List.map_append]
      rwa [List.map_append] at h
    have hrest := ih hmore (Nat.lt_of_succ_lt_succ hdepth)
    rw [List.append_assoc] at hrest
    rw [List.map_append] at h
    rw [parametersFrom, parametersBy, List.map_cons, List.map_cons, commaJoined, tokensOf_append, List.append_assoc,
      tokensOf_cons,
      List.cons_append, run_bind_of_ok (run_parameter_lexemes h (by simp)), run_bind_of_ok (run_accept_cons ..)]
    exact hrest

/-- The parameters of a function are read back. -/
theorem run_parameters_lexemes {ps : List Parameter}
    (h : FieldsAdmissible r.tables.structs (ps.map Parameter.toField)) :
    parameters.run (r.withRest (tokensOf (commaJoined (ps.map Parameter.lexemes)) ++
        ⟨.symbol .closeParen, .nowhere⟩ :: tail)) =
      .ok (ps.map Parameter.unlocated) (r.withRest (⟨.symbol .closeParen, .nowhere⟩ :: tail)) := by
  cases ps with
  | nil =>
    rw [parameters, run_bind_of_ok (run_nextIs ..)]
    rfl
  | cons p ps =>
    -- no parameter is `void`, so the first one is not taken for the mark of an empty list
    obtain ⟨-, hvoid⟩ := h.known p.toField (by simp)
    obtain ⟨ts, hts⟩ := exists_tokensOf_commaJoined_cons p.lexemes (ps.map Parameter.lexemes)
      (⟨.symbol .closeParen, .nowhere⟩ :: tail)
    obtain ⟨keyword, hkeyword, hnext⟩ : ∃ keyword, keyword ≠ .void ∧ (r.withRest (tokensOf (commaJoined
        ((p :: ps).map Parameter.lexemes)) ++ ⟨.symbol .closeParen, .nowhere⟩ :: tail)).next.lexeme =
          .keyword keyword := by
      rw [List.map_cons, hts, Parameter.lexemes]
      cases htype : p.type with
      | void => exact absurd htype hvoid
      | _ => exact ⟨_, by decide, rfl⟩
    have hlength := length_le_length_commaJoined_succ ((p :: ps).map Parameter.lexemes)
    rw [parameters, run_bind_of_ok (run_nextIs ..)]
    simp only [hnext, reduceCtorEq, decide_false, Bool.false_eq_true, if_false]
    rw [run_bind_of_ok (run_nextIs ..), run_bind_of_ok (run_lexemeAhead ..)]
    simp only [hnext, Lexeme.keyword.injEq, hkeyword, decide_false, Bool.false_and, Bool.false_eq_true, if_false]
    rw [run_bind_of_ok (EStateM.run_get _)]
    apply run_parametersFrom_lexemes h
    rw [List.length_map, List.length_cons] at hlength
    rw [Reader.depth_withRest, List.length_append, length_tokensOf]
    omega

/-- An admissible function is read back. -/
theorem run_functionDefinition_lexemes (tail : List Token) {f : Function} (h : f.Admissible r.tables.structs) :
    ∃ r', functionDefinition.run (r.withRest (tokensOf f.lexemes ++ tail)) = .ok (some f.unlocated) r' ∧
      Reader.Leads [.function f] tail r r' := by
  have hforget : ∀ ts, (modify fun r => { r with tables.arrays := .empty } : ReadM Unit).run (r.withRest ts) =
      .ok () (Reader.withRest { r with tables.arrays := .empty } ts) := fun _ => rfl
  have hparameters : ∀ ts, parameters.run (Reader.withRest { r with tables.arrays := .empty }
      (tokensOf (commaJoined (f.parameters.map Parameter.lexemes)) ++ ⟨.symbol .closeParen, .nowhere⟩ :: ts)) =
        .ok (f.parameters.map Parameter.unlocated) (Reader.withRest { r with tables.arrays := .empty }
          (⟨.symbol .closeParen, .nowhere⟩ :: ts)) := fun _ => run_parameters_lexemes h.parameters
  have hleave : ∀ ts, (modify fun r => { r with loopDepth := 0 } : ReadM Unit).run
      (Reader.withRest { r with tables.arrays := .empty } ts) =
        .ok () (Reader.withRest { r with tables.arrays := .empty, loopDepth := 0 } ts) := fun _ => rfl
  have hbody : Statement.AllAdmissible r.tables.structs ((0 : Nat) ≠ 0) .empty f.body := by
    have hfalse : ((0 : Nat) ≠ 0) = False := by simp
    rw [hfalse]
    exact h.body
  have hblock := @run_block_lexemes { r with tables.arrays := .empty, loopDepth := 0 } tail f.body hbody
  simp only [Function.lexemes, parenthesised, braced, tokensOf_cons, tokensOf_append, tokensOf_nil, List.cons_append,
    List.append_assoc, List.nil_append]
  rw [functionDefinition, functionBy, run_bind_of_ok (run_dataType_lexemes h.result), run_bind_of_ok (run_current _),
    run_bind_of_ok (run_identifier_cons ..), run_bind_of_ok (run_expect_cons ..), run_bind_of_ok (hforget _),
    run_bind_of_ok (hparameters _), run_bind_of_ok (run_expect_cons ..), run_bind_of_ok (run_accept_of_ne (by simp))]
  simp only [Bool.false_eq_true, if_false]
  rw [run_bind_of_ok (run_expect_cons ..), run_bind_of_ok (hleave _), run_bind_of_ok hblock,
    run_bind_of_ok (run_expect_cons ..)]
  exact ⟨_, rfl, rfl, rfl, rfl⟩

/-! ## Items -/

/-- A function is recognised by its type, its name and the parenthesis behind it. -/
theorem run_topLevel_function {f : Function} :
    topLevel.run (r.withRest (tokensOf f.lexemes ++ tail)) =
      ((fun f => f.map Item.function) <$> functionDefinition).run (r.withRest (tokensOf f.lexemes ++ tail)) := by
  rw [Function.lexemes, topLevel, run_bind_of_ok (run_current _)]
  cases f.result <;>
  · simp only [DataType.lexemes, parenthesised, tokensOf_cons, tokensOf_append, List.cons_append, List.append_assoc,
      List.nil_append, Reader.next_withRest_cons, typedItem]
    rfl

/-- A struct is recognised by its keyword, its name and the brace behind it. -/
theorem run_topLevel_struct {decl : Struct} :
    topLevel.run (r.withRest (tokensOf decl.lexemes ++ tail)) =
      ((fun decl => some (.struct decl)) <$> structDefinition).run
        (r.withRest (tokensOf decl.lexemes.tail ++ tail)) := by
  rw [Struct.lexemes, topLevel, run_bind_of_ok (run_current _)]
  simp only [braced, tokensOf_cons, List.cons_append, List.tail_cons, Reader.next_withRest_cons]
  rfl

/-- An admissible item is read back. -/
theorem run_topLevel_lexemes (tail : List Token) {item : Item} (h : item.Admissible r.tables.structs) :
    ∃ r', topLevel.run (r.withRest (tokensOf item.lexemes ++ tail)) = .ok (some item.unlocated) r' ∧
      Reader.Leads [item] tail r r' := by
  cases item with
  | struct decl =>
    obtain ⟨r', hrun, hleads⟩ := run_structDefinition_lexemes tail h
    refine ⟨r', ?_, hleads⟩
    rw [Item.lexemes, run_topLevel_struct, run_map_eq_ok]
    exact ⟨_, hrun, rfl⟩
  | function f =>
    obtain ⟨r', hrun, hleads⟩ := run_functionDefinition_lexemes tail h
    refine ⟨r', ?_, hleads⟩
    rw [Item.lexemes, run_topLevel_function, run_map_eq_ok]
    exact ⟨_, hrun, rfl⟩

/-- Items are read back to the end. -/
theorem run_items_lexemes {is : List Item} {depth : Nat} (h : Item.AllAdmissible r.tables.structs is)
    (hdepth : is.length < depth) :
    ∃ r', (items depth).run (r.withRest (tokensOf (is.flatMap Item.lexemes))) = .ok (is.map Item.unlocated) r' ∧
      Reader.Leads is [] r r' := by
  induction is generalizing r depth with
  | nil =>
    obtain ⟨depth, rfl⟩ : ∃ d, depth = d + 1 := ⟨depth - 1, by omega⟩
    refine ⟨r.withRest [], ?_, rfl, rfl, rfl⟩
    rw [items, itemsBy, run_bind_of_ok (run_nextIs ..)]
    rfl
  | cons item is ih =>
    obtain ⟨depth, rfl⟩ : ∃ d, depth = d + 1 := ⟨depth - 1, by omega⟩
    -- the reader behind the first item stands before the others, with its struct defined
    obtain ⟨r₁, hitem, hleads⟩ := run_topLevel_lexemes (tokensOf (is.flatMap Item.lexemes)) h.1
    have hrest : Item.AllAdmissible r₁.tables.structs is := by
      rw [hleads.structs_eq]
      exact h.2
    obtain ⟨r₂, hitems, hleads₂⟩ := ih hrest (Nat.lt_of_succ_lt_succ hdepth)
    rw [← hleads.rest_eq, Reader.withRest_rest] at hitems
    have hnext : (r.withRest (tokensOf ((item :: is).flatMap Item.lexemes))).next.lexeme ≠ .eof := by
      obtain ⟨keyword, ls, hls⟩ := item.exists_lexemes_eq_cons
      rw [List.flatMap_cons, hls]
      simp
    refine ⟨r₂, ?_, hleads₂.rest_eq, ?_, hleads₂.diagnostics_eq.trans hleads.diagnostics_eq⟩
    · rw [items, itemsBy, run_bind_of_ok (run_nextIs ..)]
      simp only [hnext, decide_false, Bool.false_eq_true, if_false]
      rw [List.flatMap_cons, tokensOf_append, run_bind_of_ok hitem, run_bind_of_ok hitems]
      rfl
    · rw [hleads₂.structs_eq, hleads.structs_eq]
      rfl

/-- A program is read back to the end. -/
theorem run_program_lexemes {p : Program} (h : Item.AllAdmissible r.tables.structs p.items) :
    ∃ r', program.run (r.withRest (tokensOf p.lexemes)) = .ok p.unlocated r' ∧ Reader.Leads p.items [] r r' := by
  have hpos : ∀ item : Item, 0 < item.lexemes.length := by
    intro item
    obtain ⟨keyword, ls, hls⟩ := item.exists_lexemes_eq_cons
    simp [hls]
  have hdepth : p.items.length < (r.withRest (tokensOf (p.items.flatMap Item.lexemes))).depth := by
    have hlength := length_le_length_flatMap hpos p.items
    rw [Reader.depth_withRest, length_tokensOf]
    omega
  obtain ⟨r', hrun, hleads⟩ := run_items_lexemes h hdepth
  rw [program, run_bind_of_ok (EStateM.run_get _), Program.lexemes, run_bind_of_ok hrun]
  exact ⟨_, rfl, hleads.rest_eq, hleads.structs_eq, hleads.diagnostics_eq⟩

end Grammar

/-! ## The round trip -/

/-- No struct is defined before a source text. -/
theorem Reader.structs_of_ofSource {source : String} {r : Reader} (h : Reader.ofSource source = .ok r) :
    r.tables.structs = .empty := by
  obtain ⟨stream, -, rfl⟩ := ofSource_eq_ok h
  rfl

/-- Numbers that the scanner gives are numerals. -/
theorem AllScannable.hasNumerals {tokens : List Token} (h : AllScannable (tokens.map (·.lexeme))) :
    (Reader.ofStream (.ofTokens tokens)).HasNumerals := by
  intro t ht text htext
  have hmem : t ∈ tokens := TokenStream.tokens_ofTokens h.eof_not_mem ▸ (List.takeWhile_sublist _).subset ht
  have hscannable := h _ (List.mem_map_of_mem hmem)
  rwa [htext] at hscannable

/-- Diagnostics that do not come from the scanner are not lost when they are placed nowhere. -/
theorem eq_nil_of_laterDiagnostics {ds : List Diagnostic} (h : laterDiagnostics ds = [])
    (hds : ∀ d ∈ ds, d.category ≠ .lexer) : ds = [] := by
  rw [laterDiagnostics, List.map_eq_nil_iff, List.filter_eq_self.2 (by simpa using hds)] at h
  exact h

/-- A program that is read from a source text is read back from any tokens that are its lexemes: up to locations it is
the same, no warning is given, and the same structs are defined at the end. -/
theorem program_round_trip {source : String} {r r' : Reader} {p : Program} {tokens : List Token}
    (hr : Reader.ofSource source = .ok r) (hp : Grammar.program.run r = .ok p r')
    (htokens : tokens.map (·.lexeme) = p.lexemes) :
    ∃ p' r'', Grammar.program.run (Reader.ofStream (.ofTokens tokens)) = .ok p' r'' ∧
      p'.unlocated = p.unlocated ∧ r''.diagnostics = [] ∧ r''.tables.structs = r'.tables.structs := by
  obtain ⟨hpasses, hok⟩ := Grammar.run_program_eq_ok (.of_ofSource hr) hp
  have hstructs := hpasses.structs_eq
  rw [Reader.structs_of_ofSource hr] at hok hstructs
  have hscannable : AllScannable (tokens.map (·.lexeme)) := by
    rw [htokens]
    exact hok.allScannable
  -- tokens placed nowhere are read back, and any others are read alike up to locations
  have hreader := Reader.unlocated_ofTokens hscannable.eof_not_mem
  obtain ⟨r₁, hback, hleads⟩ := @Grammar.run_program_lexemes (Reader.ofStream ⟨[], .nowhere⟩) p hok
  rw [← htokens, ← hreader] at hback
  obtain ⟨p', r'', hrun, hp', hr''⟩ := Grammar.Mirrors.program.exists_run_eq_ok hback
  refine ⟨p', r'', hrun, hp', ?_, ?_⟩
  · -- warnings are equal up to those of the scanner, of which reading gives none
    have hpasses' := (Grammar.run_program_eq_ok hscannable.hasNumerals hrun).1
    apply eq_nil_of_laterDiagnostics
    · rw [← Reader.diagnostics_unlocated, hr'', hleads.diagnostics_eq]
      rfl
    · intro d hd
      exact (hpasses'.diagnostics d hd).resolve_left List.not_mem_nil
  · rw [hstructs, ← Reader.tables_unlocated, hr'', hleads.structs_eq]
    rfl

/-- A source text with a struct, an array, a branch and a loop. -/
def sampleSource : String :=
  "struct P\x7bint x;\x7d;int f(struct P p)\x7bint a[2]=\x7b-1\x7d;if(p.x)a[0]=-(2);else for(;;a[1]++)g(~(3^4)*2);\x7d"

theorem program_round_trip_sampleSource :
    ∃ r p r', Reader.ofSource sampleSource = .ok r ∧ Grammar.program.run r = .ok p r' ∧ p.items.length = 2 ∧
      ∃ p' r'', Grammar.program.run (Reader.ofStream (.ofTokens (tokensOf p.lexemes))) = .ok p' r'' ∧
        p'.unlocated = p.unlocated ∧ r''.diagnostics = [] ∧ r''.tables.structs = r'.tables.structs := by
  obtain ⟨r, p, r', hr, hp, hcount⟩ := Reader.exists_run_of_reads
    (show Reader.reads sampleSource Grammar.program (fun p _ => p.items.length = 2) by decide +kernel)
  exact ⟨r, p, r', hr, hp, of_decide_eq_true hcount, program_round_trip hr hp (map_lexeme_tokensOf _)⟩

end ClockedC
