import ClockedC.Proofs.Hardware.Declarations
import ClockedC.Proofs.Indexing.Walks

/-!
# The check of constant indices

A constant index is checked against the last array of its name that is declared before it in the function. If a source
text is read, every constant index of such an array is inside of it. If reading ends because an index is out of bounds,
then the array was declared with the size that is reported in the same function, and the index misses it.

* `constant_index_check` : both directions of the check;
* `array_stays_behind_scalar` : another variable of its name does not take an array out of the table.
-/

namespace ClockedC

/-! ## Elements in expressions -/

/-- The array and the index, if the outermost node is an element. -/
def Expr.element? : Expr → Option (Expr × Expr)
  | .element base index _ => some (base, index)
  | _ => none

/-- The elements inside an expression, each as its array and its index. -/
def Expr.elements (e : Expr) : List (Expr × Expr) := e.nodes.filterMap Expr.element?

/-- Every element of an expression in bounds has an index that fits its array. -/
theorem Expr.InBounds.indexFits_of_mem_elements {arrays : ArraySizes} {e : Expr} (h : e.InBounds arrays)
    {base index : Expr} (hmem : (base, index) ∈ e.elements) : IndexFits arrays base index := by
  obtain ⟨node, hnode, helement⟩ := List.mem_filterMap.1 hmem
  unfold Expr.element? at helement
  split at helement
  · cases helement
    exact h.indexFits hnode
  · cases helement

/-! ## Functions -/

/-- The tokens are those of a function up to and with an element: its head with the opening brace, what stands in its
body before the element, and the element at `loc`. The last array called `name` that is declared before the element has
`size` elements, and the index is a literal with the value `index` outside of it. -/
def EndsMissing (tokens : List Token) (index : Int) (name : String) (size : Nat) (loc : Location) : Prop :=
  ∃ head inside element, tokens = head ++ inside ++ element ∧
    (∃ function place, Segment.BeginsFunction function place head) ∧ Segment.EndsWith .openBrace head ∧
    (∃ before after, declaredArrays (inside.map (·.lexeme)) = before ++ (name, size) :: after ∧
      ∀ declared ∈ after, declared.1 ≠ name) ∧
    element.head?.map (·.loc) = some loc ∧
    (∃ text, SpellsElement (element.map (·.lexeme)) name text ∧ Text.integer64? text = some index) ∧
    (index < 0 ∨ (size : Int) ≤ index)

namespace Grammar

namespace Quiet

theorem structFields (struct : String) (depth : Nat) (fields : List Field) :
    Quiet (structFields struct depth fields) := by
  induction depth generalizing fields with
  | zero => exact refuseDepth
  | succ depth ih =>
    apply current.bind
    intro token
    split
    · exact pure _
    · exact pure _
    · exact dataType.bind fun type => identifier.bind fun name => check (check ((expect ..).bind fun _ => ih _))

theorem structDefinition : Quiet structDefinition := by
  refine current.bind fun token => identifier.bind fun name => get.bind fun r => check ((expect ..).bind fun _ => ?_)
  refine get.bind fun r => (structFields ..).bind fun fields => (expect ..).bind fun _ => (expect ..).bind fun _ => ?_
  exact check ((modify _).bind fun _ => (note _).bind fun _ => pure _)

theorem parametersFrom (depth : Nat) (others : List Parameter) : Quiet (parametersFrom depth others) := by
  induction depth generalizing others with
  | zero => exact refuseDepth
  | succ depth ih =>
    refine (parameter others).bind fun p => (accept .comma).bind fun b => ?_
    split
    · exact ih _
    · exact pure _

/-- Parameters have no index either. -/
theorem parameters : Quiet parameters := by
  apply (nextIs _).bind
  intro b
  split
  · exact pure _
  · refine (nextIs _).bind fun b => (lexemeAhead 1).bind fun lexeme => ?_
    split
    · exact advance.bind fun _ => pure _
    · exact get.bind fun _ => parametersFrom ..

end Quiet

/-- Reading a function ends because of an index behind its opening brace, where no array has been declared yet. -/
theorem exists_endsMissing_of_functionDefinition {r r' : Reader} {index : Int} {name : String} {size : Nat}
    {loc : Location} (h : functionDefinition.run r = .error (.outOfBounds index name size loc) r') :
    ∃ tokens, r.rest = tokens ++ r'.rest ∧ EndsMissing tokens index name size loc := by
  have hkind : CompileError.IsOutOfBounds (.outOfBounds index name size loc) := ⟨_, _, _, _, rfl⟩
  obtain ⟨result, r₁, hresult, h⟩ := Quiet.dataType.run_bind_eq_error hkind h
  rw [run_bind_of_ok (run_current r₁)] at h
  obtain ⟨function, r₂, hfunction, h⟩ := Quiet.identifier.run_bind_eq_error hkind h
  obtain ⟨_, r₃, hopen, h⟩ := (Quiet.expect ..).run_bind_eq_error hkind h
  rw [run_bind_of_ok (EStateM.run_modify _ r₃)] at h
  obtain ⟨ps, r₄, hps, h⟩ := Quiet.parameters.run_bind_eq_error hkind h
  obtain ⟨_, r₅, hclose, h⟩ := (Quiet.expect ..).run_bind_eq_error hkind h
  obtain ⟨b, r₆, haccept, h⟩ := (Quiet.accept _).run_bind_eq_error hkind h
  cases b with
  | true => cases h
  | false =>
    obtain ⟨_, r₇, hbrace, h⟩ := (Quiet.expect ..).run_bind_eq_error hkind h
    rw [run_bind_of_ok (EStateM.run_modify _ r₇)] at h
    cases hbody : block.run { r₇ with loopDepth := 0 } with
    | ok body r₈ =>
      rw [run_bind_of_ok hbody] at h
      obtain ⟨_, r₉, -, h⟩ := (Quiet.expect ..).run_bind_eq_error hkind h
      cases h
    | error e r₈ =>
      rw [EStateM.run_bind, hbody] at h
      cases h
      have hwalked := Walks.block.run_walked { r₇ with loopDepth := 0 }
      rw [hbody] at hwalked
      obtain ⟨r₈, ⟨inside, found, hinside, hdeclares, harrays⟩, element, text, helement, hloc, hspells, hvalue, hsize,
        hmiss⟩ := hwalked
      obtain ⟨type, hlength, htype⟩ := rest_of_dataType hresult
      have hhead : r.rest = type ++ ⟨.identifier function, r₁.next.loc⟩ :: ⟨.symbol .openParen, r₂.next.loc⟩ ::
          r₃.rest := by
        rw [htype, rest_of_identifier hfunction, rest_of_expect hopen]
      have hpasses := (Moves.parameters.passes hps).trans (((Moves.expect ..).passes hclose).trans
        ((Moves.accept _).passes haccept))
      obtain ⟨head, hrest, hbegins, hends⟩ := exists_tokens_of_head hlength hhead hpasses.suffix (rest_of_expect hbrace)
      -- the table was emptied in front of the parameters
      have hempty : r₇.tables.arrays = .empty := by
        rw [(hpasses.trans ((Moves.expect ..).passes hbrace)).tables_eq]
      have hinside : r₇.rest = inside ++ r₈.rest := hinside
      have harrays : r₈.tables.arrays = r₇.tables.arrays.registerAll found := harrays
      rw [harrays, hempty] at hsize
      refine ⟨head ++ inside ++ element, ?_, head, inside, element, rfl, ⟨function, _, hbegins⟩, hends, ?_, hloc,
        ⟨text, hspells, hvalue⟩, hmiss⟩
      · rw [hrest, hinside, helement]
        simp
      · rw [hdeclares.declaredArrays_eq]
        exact ArraySizes.exists_of_size?_registerAll hsize

end Grammar

/-! ## Programs -/

/-- Reading item by item leads from the one reader to the other. -/
def Reader.Rounds : Reader → Reader → Prop :=
  Relation.ReflTransGen fun r r' => ∃ item, Grammar.topLevel.run r = .ok item r'

namespace Grammar

variable {r r' : Reader} {index : Int} {name : String} {size : Nat} {loc : Location}

/-- An item that ends because of an index is a function. -/
theorem functionDefinition_of_typedItem {length : Nat} {loc' : Location}
    (h : (typedItem length loc').run r = .error (.outOfBounds index name size loc) r') :
    functionDefinition.run r = .error (.outOfBounds index name size loc) r' := by
  have hkind : CompileError.IsOutOfBounds (.outOfBounds index name size loc) := ⟨_, _, _, _, rfl⟩
  rw [typedItem, run_bind_of_ok (run_lexemeAhead _ r), run_bind_of_ok (run_lexemeAhead _ r)] at h
  split at h
  · rw [EStateM.run_bind] at h
    cases hrun : functionDefinition.run r with
    | ok f r₁ =>
      rw [hrun] at h
      cases h
    | error e r₁ =>
      rw [hrun] at h
      cases h
      rfl
  · cases h
  · exact absurd hkind (Avoids.not_kind (.skipWarning ..) h)

/-- Of all items only a function has indices. -/
theorem functionDefinition_of_topLevel (h : topLevel.run r = .error (.outOfBounds index name size loc) r') :
    functionDefinition.run r = .error (.outOfBounds index name size loc) r' := by
  have hkind : CompileError.IsOutOfBounds (.outOfBounds index name size loc) := ⟨_, _, _, _, rfl⟩
  rw [topLevel, run_bind_of_ok (run_current r)] at h
  split at h
  case h_1 =>
    rw [run_bind_of_ok (run_lexemeAhead _ r), run_bind_of_ok (run_lexemeAhead _ r)] at h
    split at h
    · rw [run_bind_of_ok (run_advance r)] at h
      obtain ⟨decl, r₁, -, h⟩ := Quiet.structDefinition.run_bind_eq_error hkind h
      cases h
    · exact functionDefinition_of_typedItem h
    · exact absurd hkind (Avoids.not_kind (.skipWarning ..) h)
  case h_7 => exact absurd hkind (Avoids.not_kind (.skipWarning ..) h)
  all_goals exact functionDefinition_of_typedItem h

/-- Items that end because of an index end in a function behind some rounds. -/
theorem exists_rounds_of_items {depth : Nat}
    (h : (items depth).run r = .error (.outOfBounds index name size loc) r') :
    ∃ r₀, r.Rounds r₀ ∧ functionDefinition.run r₀ = .error (.outOfBounds index name size loc) r' := by
  induction depth generalizing r with
  | zero => cases h
  | succ depth ih =>
    rw [items, itemsBy, run_bind_of_ok (run_nextIs _ r)] at h
    split at h
    · cases h
    · cases hround : topLevel.run r with
      | error e r₁ =>
        rw [EStateM.run_bind, hround] at h
        cases h
        exact ⟨r, .refl, functionDefinition_of_topLevel hround⟩
      | ok item r₁ =>
        rw [run_bind_of_ok hround] at h
        cases hrest : (items depth).run r₁ with
        | ok rest r₂ =>
          rw [run_bind_of_ok hrest] at h
          cases h
        | error e r₂ =>
          rw [EStateM.run_bind, hrest] at h
          cases h
          obtain ⟨r₀, hrounds, hfunction⟩ := ih hrest
          exact ⟨r₀, .head ⟨item, hround⟩ hrounds, hfunction⟩

/-- Reading a program ends because of an index in the function behind some whole items. -/
theorem exists_rounds_of_program (h : program.run r = .error (.outOfBounds index name size loc) r') :
    ∃ r₀, r.Rounds r₀ ∧ functionDefinition.run r₀ = .error (.outOfBounds index name size loc) r' := by
  rw [program, run_bind_of_ok (EStateM.run_get r)] at h
  cases hitems : (items r.depth).run r with
  | ok is r₁ =>
    rw [run_bind_of_ok hitems] at h
    cases h
  | error e r₁ =>
    rw [EStateM.run_bind, hitems] at h
    cases h
    exact exists_rounds_of_items hitems

end Grammar

/-- Scanning ends with lexical faults only. -/
theorem Scan.exists_lexical_of_scanFrom {loc : Location} {cs : List Char} {e : CompileError}
    (h : (scanFrom loc cs).outcome = .error e) : ∃ fault loc', e = .lexical fault loc' := by
  fun_induction Piece.cut cs generalizing loc with
  | case1 =>
    rw [scanFrom] at h
    cases h
  | case2 c cs fault hfirst =>
    rw [scanFrom_cons_of_error hfirst] at h
    cases h
    exact ⟨fault, loc, rfl⟩
  | case3 c cs piece rest hfirst _ ih =>
    rw [scanFrom_cons_of_ok hfirst] at h
    cases hrest : (scanFrom (loc.after piece.text) rest).outcome with
    | error e' =>
      have heq : e' = e := by
        cases piece <;> simpa [consPiece, consToken, consWarning, hrest, Except.map] using h
      exact ih (heq ▸ hrest)
    | ok stream => cases piece <;> simp [consPiece, consToken, consWarning, hrest, Except.map] at h

/-- A source text that is not read because of an index has been scanned. -/
theorem exists_run_of_parse_outOfBounds {source : String} {index : Int} {name : String} {size : Nat} {loc : Location}
    (h : (parse source).outcome = .error (.outOfBounds index name size loc)) :
    ∃ r r', Reader.ofSource source = .ok r ∧
      Grammar.program.run r = .error (.outOfBounds index name size loc) r' := by
  cases hr : Reader.ofSource source with
  | error e =>
    have hscan : (Scan.ofSource source).outcome = .error e := by
      rw [Reader.ofSource, Reader.ofScan] at hr
      cases hscan : (Scan.ofSource source).outcome with
      | error e' => simpa [hscan, Except.map] using hr
      | ok stream => simp [hscan, Except.map] at hr
    obtain ⟨fault, loc', rfl⟩ := Scan.exists_lexical_of_scanFrom hscan
    rw [Reader.ofSource] at hr
    simp [parse, hr] at h
  | ok r =>
    rw [Reader.ofSource] at hr
    cases hrun : Grammar.program.run r with
    | ok program r' =>
      rw [EStateM.run] at hrun
      simp [parse, hr, hrun] at h
    | error e r' =>
      rw [EStateM.run] at hrun
      simp only [parse, hr, hrun, Except.error.injEq] at h
      exact ⟨r, r', rfl, by rw [EStateM.run, hrun, h]⟩

/-- **Constant indices are checked against the last array before them.** In every function of a source text that is
read, each index that is a literal of 64 bits is inside of the last array of that name that is declared before it in
the function, if there is one. And where reading ends because an index is out of bounds, whole items come first, and
then a function, in the body of which the element at the reported place has that index: the last array of the reported
name that is declared before it in the body has the reported size, and the index is negative or not less than that. -/
theorem constant_index_check (source : String) :
    (∀ parsed, (parse source).outcome = .ok parsed → ∀ f ∈ parsed.program.functions, ∀ site ∈ f.sites,
      ∀ base index, (base, index) ∈ site.value.elements → ∀ value name size, index.integer? = some value →
        base.flatName? = some name → lastLength? site.before name = some size → 0 ≤ value ∧ value < (size : Int)) ∧
    ∀ index name size loc, (parse source).outcome = .error (.outOfBounds index name size loc) →
      ∃ r r₀ r₁ tokens, Reader.ofSource source = .ok r ∧ r.Rounds r₀ ∧
        Grammar.functionDefinition.run r₀ = .error (.outOfBounds index name size loc) r₁ ∧
        r₀.rest = tokens ++ r₁.rest ∧ EndsMissing tokens index name size loc := by
  refine ⟨?_, ?_⟩
  · intro parsed hparsed f hf site hsite base index hmem value name size hvalue hname hsize
    obtain ⟨c, hc, hprogram, -⟩ := exists_compilation_of_parse hparsed
    obtain ⟨structs, hadmissible⟩ := Function.admissible_of_compile hc (hprogram ▸ hf)
    have hbounds := (hadmissible.sound_sites site hsite).inBounds
    rw [← ArraySizes.size?_declareAll_empty] at hsize
    exact hbounds.indexFits_of_mem_elements hmem value hvalue name hname size hsize
  · intro index name size loc h
    obtain ⟨r, r₁, hr, hrun⟩ := exists_run_of_parse_outOfBounds h
    obtain ⟨r₀, hrounds, hfunction⟩ := Grammar.exists_rounds_of_program hrun
    obtain ⟨tokens, hrest, hmissing⟩ := Grammar.exists_endsMissing_of_functionDefinition hfunction
    exact ⟨r, r₀, r₁, tokens, hr, hrounds, hfunction, hrest, hmissing⟩

/-- The error that ends a stage. -/
def Logged.error? {α : Type} (logged : Logged α) : Option CompileError :=
  match logged.outcome with
  | .ok _ => none
  | .error e => some e

/-- The error that is logged is the outcome. -/
theorem Logged.outcome_eq_error {α : Type} {logged : Logged α} {e : CompileError} (h : logged.error? = some e) :
    logged.outcome = .error e := by
  unfold error? at h
  split at h
  · cases h
  · next houtcome =>
    cases h
    exact houtcome

/-- A function with two arrays of one name, the second of them in the head of a loop. -/
def indexedSource : String :=
  "int g(int a)\x7bint b[3];if(a)\x7bb[2]=b[(0)];\x7dfor(int b[5];a<b[4];a++)\x7b\x7dreturn b[-0];\x7d"

/-- A function behind another one, with an index that misses the second of two arrays. -/
def missedSource : String :=
  "int g(int n)\x7bint a[9];return a[8];\x7d" ++
    "int f(int n)\x7bint a[4];if(n)\x7bint a[2];\x7dreturn n+a[(-(1))];\x7d"

theorem constant_index_check_sources :
    (∃ parsed f site base index, (parse indexedSource).outcome = .ok parsed ∧ f ∈ parsed.program.functions ∧
      site ∈ f.sites ∧ (base, index) ∈ site.value.elements ∧ index.integer? = some 4 ∧ base.flatName? = some "b" ∧
      lastLength? site.before "b" = some 5 ∧ (0 : Int) ≤ 4 ∧ (4 : Int) < (5 : Nat)) ∧
    (parse missedSource).outcome = .error (.outOfBounds (-1) "a" 2 ⟨1, 83⟩) ∧
      ∃ r r₀ r₁ tokens, Reader.ofSource missedSource = .ok r ∧ r.Rounds r₀ ∧
        Grammar.functionDefinition.run r₀ = .error (.outOfBounds (-1) "a" 2 ⟨1, 83⟩) r₁ ∧
        r₀.rest = tokens ++ r₁.rest ∧ EndsMissing tokens (-1) "a" 2 ⟨1, 83⟩ := by
  refine ⟨?_, ?_⟩
  · have hchecked : (compile indexedSource).outcome.toOption.any fun c => c.program.functions[0]?.any fun f =>
        f.sites.any fun site => site.value.elements.any fun element =>
          element.2.integer? = some 4 ∧ element.1.flatName? = some "b" ∧ lastLength? site.before "b" = some 5 := by
      decide +kernel
    obtain ⟨c, f, hc, hf, hany⟩ := exists_function_of_any hchecked
    obtain ⟨site, hsite, hany⟩ := List.any_eq_true.1 hany
    obtain ⟨⟨base, index⟩, hmem, hfacts⟩ := List.any_eq_true.1 hany
    obtain ⟨hvalue, hname, hlast⟩ := of_decide_eq_true hfacts
    obtain ⟨parsed, hparsed, hprogram⟩ := exists_parsed_of_compile hc
    have hf : f ∈ parsed.program.functions := hprogram ▸ List.mem_of_getElem? hf
    obtain ⟨hnonneg, hlt⟩ :=
      (constant_index_check indexedSource).1 parsed hparsed f hf site hsite base index hmem 4 "b" 5 hvalue hname hlast
    exact ⟨parsed, f, site, base, index, hparsed, hf, hsite, hmem, hvalue, hname, hlast, hnonneg, hlt⟩
  · have hparse : (parse missedSource).outcome = .error (.outOfBounds (-1) "a" 2 ⟨1, 83⟩) :=
      Logged.outcome_eq_error (by decide +kernel)
    exact ⟨hparse, (constant_index_check missedSource).2 (-1) "a" 2 ⟨1, 83⟩ hparse⟩

/-- Behind an array and another variable of its name, an index is still checked against the array. -/
theorem array_stays_behind_scalar :
    (parse "int f(int n)\x7bint a[4];int a;a[5]=1;return n;\x7d").outcome = .error (.outOfBounds 5 "a" 4 ⟨1, 29⟩) ∧
      ∃ front back, (Scan.ofSource "int f(int n)\x7bint a[4];int a;a[5]=1;return n;\x7d").lexemes? =
        some (front ++ [.keyword .int, .identifier "a", .symbol .openBracket, .number "4", .symbol .closeBracket,
          .symbol .semicolon, .keyword .int, .identifier "a", .symbol .semicolon, .identifier "a",
          .symbol .openBracket, .number "5", .symbol .closeBracket] ++ back) := by
  refine ⟨Logged.outcome_eq_error (by decide +kernel), ?_⟩
  refine ⟨[.keyword .int, .identifier "f", .symbol .openParen, .keyword .int, .identifier "n", .symbol .closeParen,
    .symbol .openBrace], [.symbol .assign, .number "1", .symbol .semicolon, .keyword .returnWord, .identifier "n",
    .symbol .semicolon, .symbol .closeBrace], ?_⟩
  decide +kernel

end ClockedC
