import ClockedC.Proofs.Reading.Accepted

/-!
# Braces

Braces leave no trace in statements: the statements of a nested block stand in the list around it. Here they are kept.
A function is read with the braces of its body as it is read without them.
-/

namespace ClockedC

variable {f : Function} {r r' : Reader}

/-! ## Statements with their braces -/

mutual

/-- A statement as it is written. -/
inductive Braced where
  /-- A statement without statements inside. -/
  | plain (s : Statement)
  /-- Statements in braces that stand among other statements. -/
  | block (inner : List Braced)
  | branch (condition : Expr) (body : List Braced) (alternative : BracedAlternative) (loc : Location)
  | whileLoop (condition : Expr) (body : List Braced) (loc : Location)
  | forLoop (start : Option Statement) (condition : Option Expr) (step : Option Assignment) (body : List Braced)
      (loc : Location)

/-- The remaining arms of a branch as they are written. -/
inductive BracedAlternative where
  | nothing
  | elseIf (condition : Expr) (body : List Braced) (alternative : BracedAlternative)
  | otherwise (body : List Braced)

end

mutual

/-- What a statement leaves in the list around it: a block leaves its statements. -/
def Braced.splice : Braced → List Statement
  | .plain s => [s]
  | .block inner => Braced.spliceAll inner
  | .branch condition body alternative loc => [.branch condition (Braced.spliceAll body) alternative.splice loc]
  | .whileLoop condition body loc => [.whileLoop condition (Braced.spliceAll body) loc]
  | .forLoop start condition step body loc => [.forLoop start condition step (Braced.spliceAll body) loc]

/-- The remaining arms of a branch without their braces. -/
def BracedAlternative.splice : BracedAlternative → Alternative
  | .nothing => .nothing
  | .elseIf condition body alternative => .elseIf condition (Braced.spliceAll body) alternative.splice
  | .otherwise body => .otherwise (Braced.spliceAll body)

/-- Statements without their braces. -/
def Braced.spliceAll : List Braced → List Statement
  | [] => []
  | b :: bs => b.splice ++ Braced.spliceAll bs

end

/-! ## Reading -/

namespace Grammar

mutual

/-- Reads statements up to a closing brace or the end. -/
def bracedStatements : Nat → ReadM (List Braced)
  | 0 => refuseDepth
  | depth + 1 => statementsBy (fun inner => [.block inner]) (bracedStatements depth) (bracedStatement depth)

/-- Reads a statement. -/
def bracedStatement : Nat → ReadM Braced
  | 0 => refuseDepth
  | depth + 1 => do
    let token ← current
    match token.lexeme with
    | .keyword .ifWord =>
      advance
      branchBy .branch (bracedBody depth) (bracedAlternative depth) token.loc
    | .keyword .whileWord =>
      advance
      whileBy .whileLoop (bracedBody depth) token.loc
    | .keyword .forWord =>
      advance
      forBy .forLoop (bracedBody depth) token.loc
    | _ => .plain <$> statement (depth + 1)

/-- Reads a block in braces or a single statement. -/
def bracedBody : Nat → String → ReadM (List Braced)
  | 0, _ => refuseDepth
  | depth + 1, context => bodyBy (bracedStatements depth) (bracedStatement depth) context

/-- Reads the arms that follow the first arm of a branch. -/
def bracedAlternative : Nat → ReadM BracedAlternative
  | 0 => refuseDepth
  | depth + 1 => alternativeBy .nothing .elseIf .otherwise (bracedBody depth) (bracedAlternative depth)

end

/-- Reads the statements of a block, its opening brace read already. -/
def bracedBlock : ReadM (List Braced) := do
  bracedStatements (← get).depth

/-- Reads a function, together with its body as it is written. -/
def bracedFunction : ReadM (Option (Function × List Braced)) := functionBy bracedBlock Braced.spliceAll Prod.mk

/-! ## Braces change nothing -/

section Views

variable {α β γ δ : Type} {p : ReadM α} {q : ReadM β} {g : α → β} {view : γ → δ}

/-- Two steps in turn, of which the second is seen through a view. -/
theorem map_bind_right {k : α → ReadM γ} {k' : α → ReadM δ} (hk : ∀ a, view <$> k a = k' a) :
    view <$> (p >>= k) = p >>= k' := by
  rw [map_bind]
  exact bind_congr hk

/-- Two steps in turn, both of which are seen through views. -/
theorem map_bind_both {k : α → ReadM γ} {k' : β → ReadM δ} (hp : g <$> p = q) (hk : ∀ a, view <$> k a = k' (g a)) :
    view <$> (p >>= k) = q >>= k' := by
  rw [← hp, bind_map_left]
  exact map_bind_right hk

/-- Leaving braces out of a body does not depend on the loop around it. -/
theorem map_insideLoop (hp : g <$> p = q) : g <$> insideLoop p = insideLoop q := by
  rw [← hp]
  funext r
  show EStateM.map g (insideLoop p) r = insideLoop (EStateM.map g p) r
  unfold insideLoop EStateM.map
  beta_reduce
  cases p { r with loopDepth := r.loopDepth + 1 } <;> rfl

end Views

/-- A statement that is written leaves one statement in the list around it, and what follows goes on from there. -/
theorem map_bind_statement {γ δ : Type} {view : γ → δ} {p : ReadM Braced} {q : ReadM Statement} {k : Braced → ReadM γ}
    {K : List Statement → ReadM δ} (h : Braced.splice <$> p = (fun s => [s]) <$> q)
    (hk : ∀ b, view <$> k b = K b.splice) : view <$> (p >>= k) = q >>= fun s => K [s] :=
  (map_bind_both h hk).trans (bind_map_left ..)

/-- Without their braces, statements that are read are those of the grammar. -/
theorem splice_productions (depth : Nat) :
    Braced.spliceAll <$> bracedStatements depth = statements depth ∧
      Braced.splice <$> bracedStatement depth = (fun s => [s]) <$> statement depth ∧
      (∀ context, Braced.spliceAll <$> bracedBody depth context = body depth context) ∧
      BracedAlternative.splice <$> bracedAlternative depth = alternative depth := by
  induction depth with
  | zero => exact ⟨rfl, rfl, fun _ => rfl, rfl⟩
  | succ depth ih =>
    obtain ⟨hstatements, hstatement, hbody, halternative⟩ := ih
    refine ⟨?_, ?_, ?_, ?_⟩
    · have hother : Braced.spliceAll <$> (do return (← bracedStatement depth) :: (← bracedStatements depth)) =
          (do return (← statement depth) :: (← statements depth)) :=
        map_bind_statement (K := fun first => do return first ++ (← statements depth)) hstatement fun b =>
          map_bind_both hstatements fun rest => rfl
      rw [bracedStatements, statements, statementsBy, statementsBy]
      refine map_bind_right fun token => ?_
      cases token.lexeme with
      | symbol symbol =>
        cases symbol with
        | closeBrace => rfl
        | openBrace =>
          exact map_bind_right fun _ => map_bind_both hstatements fun inner => map_bind_right fun _ =>
            map_bind_both hstatements fun rest => rfl
        | semicolon => exact map_bind_right fun _ => hstatements
        | _ => exact hother
      | eof => rfl
      | _ => exact hother
    · -- only statements with a body are read in a way of their own; the others are read by `statement`
      funext r
      show (Braced.splice <$> bracedStatement (depth + 1)).run r = ((fun s => [s]) <$> statement (depth + 1)).run r
      rw [bracedStatement, map_bind, run_bind_of_ok (run_current r)]
      split
      · next hlexeme =>
        rw [statement, statementBy, map_bind _ current, run_bind_of_ok (run_current r), hlexeme]
        simp only [branchBy, map_bind, map_pure, ← hbody, ← halternative, bind_map_left]
        rfl
      · next hlexeme =>
        rw [statement, statementBy, map_bind _ current, run_bind_of_ok (run_current r), hlexeme]
        simp only [whileBy, map_bind, map_pure, ← map_insideLoop (hbody _), bind_map_left]
        rfl
      · next hlexeme =>
        rw [statement, statementBy, map_bind _ current, run_bind_of_ok (run_current r), hlexeme]
        simp only [forBy, map_bind, map_pure, ← map_insideLoop (hbody _), bind_map_left]
        rfl
      · rw [Functor.map_map]
        rfl
    · intro context
      rw [bracedBody, body, bodyBy, bodyBy]
      refine map_bind_right fun b => ?_
      split
      · exact map_bind_both hstatements fun inner => map_bind_right fun _ => rfl
      · refine map_bind_statement (K := pure) hstatement fun b => ?_
        rw [map_pure, Braced.spliceAll, Braced.spliceAll, List.append_nil]
    · rw [bracedAlternative, alternative, alternativeBy, alternativeBy]
      refine map_bind_right fun b => ?_
      split
      · refine map_bind_right fun b => ?_
        split
        · exact map_bind_right fun condition => map_bind_both (hbody _) fun block =>
            map_bind_both halternative fun arms => rfl
        · exact map_bind_both (hbody _) fun block => rfl
      · rfl

theorem splice_bracedBlock : Braced.spliceAll <$> bracedBlock = block :=
  map_bind_right fun r => (splice_productions r.depth).1

/-- A function is read with its braces as it is read without them. -/
theorem fst_bracedFunction : Option.map Prod.fst <$> bracedFunction = functionDefinition := by
  refine map_bind_right fun result => map_bind_right fun token => map_bind_right fun name => map_bind_right fun _ =>
    map_bind_right fun _ => map_bind_right fun parameters => map_bind_right fun _ =>
    map_bind_right fun isPrototype => ?_
  split
  · exact map_bind_right fun _ => rfl
  · exact map_bind_right fun _ => map_bind_right fun _ => map_bind_both splice_bracedBlock fun tree =>
      map_bind_right fun _ => map_bind_right fun _ => rfl

/-! ## Where functions are read -/

/-- A function that is read at the top level begins there. -/
theorem run_functionDefinition_of_typedItem {length : Nat} {loc : Location}
    (h : (typedItem length loc).run r = .ok (some (.function f)) r') : functionDefinition.run r = .ok (some f) r' := by
  rw [typedItem, run_bind_of_ok (run_lexemeAhead _ r), run_bind_of_ok (run_lexemeAhead _ r)] at h
  split at h
  · obtain ⟨g, r₁, hg, h⟩ := run_bind_eq_ok.1 h
    cases g with
    | none => cases h
    | some g =>
      cases h
      exact hg
  · obtain ⟨_, r₁, -, h⟩ := run_bind_eq_ok.1 h
    obtain ⟨_, r₂, -, h⟩ := run_bind_eq_ok.1 h
    cases h
  · obtain ⟨hnone, -⟩ := passesItems_skipWarning (by simp [Warning.category]) h
    cases hnone

/-- An item that is a function was read as a function. -/
theorem run_functionDefinition_of_topLevel (h : topLevel.run r = .ok (some (.function f)) r') :
    functionDefinition.run r = .ok (some f) r' := by
  rw [topLevel, run_bind_of_ok (run_current r)] at h
  split at h
  case h_1 =>
    rw [run_bind_of_ok (run_lexemeAhead _ r), run_bind_of_ok (run_lexemeAhead _ r)] at h
    split at h
    · obtain ⟨_, r₁, -, h⟩ := run_bind_eq_ok.1 h
      obtain ⟨_, r₂, -, h⟩ := run_bind_eq_ok.1 h
      cases h
    · exact run_functionDefinition_of_typedItem h
    · obtain ⟨hnone, -⟩ := passesItems_skipWarning (by simp [Warning.category]) h
      cases hnone
  case h_7 =>
    obtain ⟨hnone, -⟩ := passesItems_skipWarning (by simp [Warning.category]) h
    cases hnone
  all_goals exact run_functionDefinition_of_typedItem h

/-- Every function among items that are read is read somewhere on the way. -/
theorem exists_run_functionDefinition {depth : Nat} {is : List Item} (hnum : r.HasNumerals)
    (h : (items depth).run r = .ok is r') (hf : .function f ∈ is) :
    ∃ r₁ r₂, r₁.rest <:+ r.rest ∧ functionDefinition.run r₁ = .ok (some f) r₂ := by
  induction depth generalizing r is with
  | zero => cases h
  | succ depth ih =>
    rw [items, itemsBy, run_bind_of_ok (run_nextIs _ r)] at h
    split at h
    · cases h
      cases hf
    · obtain ⟨item, r₁, hitem, h⟩ := run_bind_eq_ok.1 h
      obtain ⟨rest, r₂, hrest, h⟩ := run_bind_eq_ok.1 h
      cases h
      rcases List.mem_append.1 hf with hf | hf
      · rw [Option.mem_toList] at hf
        subst hf
        exact ⟨r, r₁, List.suffix_refl _, run_functionDefinition_of_topLevel hitem⟩
      · have hpasses := (run_topLevel_eq_ok hnum hitem).1
        obtain ⟨r₃, r₄, hsuffix, hrun⟩ := ih (hpasses.hasNumerals hnum) hrest hf
        exact ⟨r₃, r₄, hsuffix.trans hpasses.suffix, hrun⟩

/-- Every function of a program was read somewhere on the way. -/
theorem exists_run_functionDefinition_of_program {p : Program} (hnum : r.HasNumerals) (h : program.run r = .ok p r')
    (hf : f ∈ p.functions) : ∃ r₁ r₂, r₁.rest <:+ r.rest ∧ functionDefinition.run r₁ = .ok (some f) r₂ := by
  rw [program, run_bind_of_ok (EStateM.run_get r)] at h
  obtain ⟨is, r₁, his, h⟩ := run_bind_eq_ok.1 h
  cases h
  exact exists_run_functionDefinition hnum his (Program.mem_functions.1 hf)

/-- A function that a program begins with is the first of its items. -/
theorem mem_functions_of_run_program {p : Program} {r₁ : Reader} {name : String} (htype : r.next.lexeme = .keyword .int)
    (hname : (r.ahead 1).lexeme = .identifier name) (hparen : (r.ahead 2).lexeme = .symbol .openParen)
    (hf : functionDefinition.run r = .ok (some f) r₁) (h : program.run r = .ok p r') : f ∈ p.functions := by
  have htop : topLevel.run r = .ok (some (.function f)) r₁ := by
    rw [topLevel, run_bind_of_ok (run_current r), htype]
    show (typedItem 1 r.next.loc).run r = _
    rw [typedItem, run_bind_of_ok (run_lexemeAhead _ r), run_bind_of_ok (run_lexemeAhead _ r), hname, hparen]
    exact run_bind_of_ok hf
  rw [program, run_bind_of_ok (EStateM.run_get r)] at h
  obtain ⟨is, r₂, his, h⟩ := run_bind_eq_ok.1 h
  cases h
  rw [Reader.depth, Nat.mul_add_one, items, itemsBy, run_bind_of_ok (run_nextIs _ r), htype, if_neg (by decide),
    run_bind_of_ok htop] at his
  obtain ⟨rest, r₃, -, his⟩ := run_bind_eq_ok.1 his
  cases his
  exact Program.mem_functions.2 List.mem_cons_self

/-- The body of a function is what is written without its braces. -/
theorem spliceAll_of_run_bracedFunction {tree : List Braced} (h : bracedFunction.run r = .ok (some (f, tree)) r') :
    Braced.spliceAll tree = f.body := by
  rw [bracedFunction] at h
  obtain ⟨result, r₁, -, h⟩ := run_bind_eq_ok.1 h
  obtain ⟨token, r₂, -, h⟩ := run_bind_eq_ok.1 h
  obtain ⟨name, r₃, -, h⟩ := run_bind_eq_ok.1 h
  obtain ⟨_, r₄, -, h⟩ := run_bind_eq_ok.1 h
  obtain ⟨_, r₅, -, h⟩ := run_bind_eq_ok.1 h
  obtain ⟨parameters, r₆, -, h⟩ := run_bind_eq_ok.1 h
  obtain ⟨_, r₇, -, h⟩ := run_bind_eq_ok.1 h
  obtain ⟨isPrototype, r₈, -, h⟩ := run_bind_eq_ok.1 h
  split at h
  · obtain ⟨_, r₉, -, h⟩ := run_bind_eq_ok.1 h
    cases h
  · obtain ⟨_, r₉, -, h⟩ := run_bind_eq_ok.1 h
    obtain ⟨_, r₁₀, -, h⟩ := run_bind_eq_ok.1 h
    obtain ⟨tree', r₁₁, -, h⟩ := run_bind_eq_ok.1 h
    obtain ⟨_, r₁₂, -, h⟩ := run_bind_eq_ok.1 h
    obtain ⟨_, r₁₃, -, h⟩ := run_bind_eq_ok.1 h
    cases h
    rfl

end Grammar

/-- Somewhere among the tokens of the source text, the function is read with its body written as `tree`. -/
def Function.ReadAs (source : String) (f : Function) (tree : List Braced) : Prop :=
  ∃ r₀ r r', Reader.ofSource source = .ok r₀ ∧ r.rest <:+ r₀.rest ∧
    Grammar.bracedFunction.run r = .ok (some (f, tree)) r'

/-- Every function of a source text that is compiled is written in some way. -/
theorem Function.exists_readAs {source : String} {c : Compilation} (h : (compile source).outcome = .ok c)
    (hf : f ∈ c.program.functions) : ∃ tree, f.ReadAs source tree := by
  obtain ⟨r₀, r₁, hr₀, hrun, -, -⟩ := exists_run_of_compile h
  obtain ⟨r, r', hsuffix, hread⟩ := Grammar.exists_run_functionDefinition_of_program (.of_ofSource hr₀) hrun hf
  rw [← Grammar.fst_bracedFunction, Grammar.run_map_eq_ok] at hread
  obtain ⟨read, hread, heq⟩ := hread
  cases read with
  | none => cases heq
  | some read =>
    obtain ⟨g, tree⟩ := read
    cases heq
    exact ⟨tree, r₀, r, r', hr₀, hsuffix, hread⟩

theorem Function.ReadAs.spliceAll_eq {source : String} {tree : List Braced} (h : f.ReadAs source tree) :
    Braced.spliceAll tree = f.body := by
  obtain ⟨r₀, r, r', -, -, hrun⟩ := h
  exact Grammar.spliceAll_of_run_bracedFunction hrun

/-- Whether the reader stands before a function that gives back an `int`. -/
def Reader.beginsFunction (r : Reader) : Bool :=
  r.next.lexeme = .keyword .int && (r.ahead 1).lexeme matches .identifier _ && (r.ahead 2).lexeme = .symbol .openParen

/-- The function that is read next, together with its body as it is written. -/
def Reader.bracedFunction? (r : Reader) : Option (Function × List Braced) :=
  match Grammar.bracedFunction.run r with
  | .ok read _ => read
  | .error _ _ => none

/-- What is checked of the function that a source text begins with holds of a function that is compiled, as it is
written. -/
theorem exists_readAs_of_any {source : String} {p : Compilation → Function × List Braced → Bool}
    (h : (compile source).outcome.toOption.any fun c => (Reader.ofSource source).toOption.any fun r =>
      r.beginsFunction && r.bracedFunction?.any (p c)) :
    ∃ c f tree, (compile source).outcome = .ok c ∧ f ∈ c.program.functions ∧ f.ReadAs source tree ∧ p c (f, tree) := by
  cases hc : (compile source).outcome with
  | error e =>
    rw [hc] at h
    cases h
  | ok c =>
    obtain ⟨r, r', hr, hrun, -, -⟩ := exists_run_of_compile hc
    rw [hc, hr] at h
    simp only [Except.toOption, Option.any_some, Bool.and_eq_true, Reader.beginsFunction, decide_eq_true_eq] at h
    obtain ⟨⟨⟨htype, hname⟩, hparen⟩, hread⟩ := h
    obtain ⟨⟨f, tree⟩, hread, hp⟩ := (Option.any_eq_true ..).1 hread
    obtain ⟨r₁, hbraced⟩ : ∃ r₁, Grammar.bracedFunction.run r = .ok (some (f, tree)) r₁ := by
      unfold Reader.bracedFunction? at hread
      split at hread
      · next read r₁ hbraced => exact ⟨r₁, hread ▸ hbraced⟩
      · cases hread
    have hf : Grammar.functionDefinition.run r = .ok (some f) r₁ := by
      rw [← Grammar.fst_bracedFunction, Grammar.run_map_eq_ok]
      exact ⟨_, hbraced, rfl⟩
    split at hname
    · next name hname' =>
      exact ⟨c, f, tree, rfl, Grammar.mem_functions_of_run_program htype hname' hparen hf hrun,
        ⟨r, r, r₁, hr, List.suffix_refl _, hbraced⟩, hp⟩
    · cases hname

end ClockedC
