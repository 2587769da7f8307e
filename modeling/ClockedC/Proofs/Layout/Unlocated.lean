import Mathlib
import ClockedC.Ast.Trees
import ClockedC.Compile

/-!
# Leaving locations out

Two values are equal up to locations if they are equal once every location is replaced by the location of what
stands in no text. `unlocated` does that to tokens, trees, diagnostics and errors.
-/

namespace ClockedC

/-! ## Tokens -/

/-- The token placed nowhere. -/
def Token.unlocated (t : Token) : Token := ⟨t.lexeme, .nowhere⟩

@[simp] theorem Token.lexeme_unlocated (t : Token) : t.unlocated.lexeme = t.lexeme := rfl

@[simp] theorem Token.loc_unlocated (t : Token) : t.unlocated.loc = .nowhere := rfl

/-- The tokens of a queue placed nowhere. -/
def TokenQueue.unlocated (queue : TokenQueue) : TokenQueue where
  tokens := queue.tokens.map Token.unlocated
  size := queue.size
  size_eq := by rw [queue.size_eq, List.length_map]

@[simp] theorem TokenQueue.tokens_unlocated (queue : TokenQueue) :
    queue.unlocated.tokens = queue.tokens.map Token.unlocated := rfl

@[simp] theorem TokenQueue.size_unlocated (queue : TokenQueue) : queue.unlocated.size = queue.size := rfl

/-- Going past a token and leaving locations out can be done in either order. -/
@[simp] theorem TokenQueue.tail_unlocated (queue : TokenQueue) :
    queue.unlocated.tail = queue.tail.unlocated := by
  apply TokenQueue.ext
  simp only [tokens_tail, tokens_unlocated, List.map_tail]

/-- Going behind the first token that satisfies a condition on lexemes does not look at locations. -/
theorem TokenQueue.dropThrough_unlocated (p : Lexeme → Bool) (queue : TokenQueue) :
    queue.unlocated.dropThrough (fun t => p t.lexeme) =
      (queue.dropThrough fun t => p t.lexeme).unlocated := by
  apply TokenQueue.ext
  simp only [tokens_dropThrough, tokens_unlocated, List.dropWhile_map, List.map_tail]
  rfl

/-! ## Expressions -/

mutual

/-- The expression with every node placed nowhere. -/
def Expr.unlocated : Expr → Expr
  | .number text _ => .number text .nowhere
  | .ident name _ => .ident name .nowhere
  | .field base name _ => .field base.unlocated name .nowhere
  | .element base index _ => .element base.unlocated index.unlocated .nowhere
  | .negate operand _ => .negate operand.unlocated .nowhere
  | .binary op left right _ => .binary op left.unlocated right.unlocated .nowhere
  | .unary op operand _ => .unary op operand.unlocated .nowhere
  | .call name args _ => .call name (Expr.unlocatedAll args) .nowhere

/-- Several expressions with every node placed nowhere. -/
def Expr.unlocatedAll : List Expr → List Expr
  | [] => []
  | e :: es => e.unlocated :: Expr.unlocatedAll es

end

namespace Expr

/-- Locations are left out of several expressions one by one. -/
@[simp] theorem unlocatedAll_eq_map (es : List Expr) : unlocatedAll es = es.map unlocated :=
  eq_map_of_cons rfl (fun _ _ => rfl) es

/-- An expression without locations stands nowhere. -/
@[simp] theorem loc_unlocated (e : Expr) : e.unlocated.loc = .nowhere := by
  cases e <;> rfl

@[simp] theorem isPlace_unlocated (e : Expr) : e.unlocated.isPlace = e.isPlace := by
  cases e <;> rfl

@[simp] theorem integer?_unlocated (e : Expr) : e.unlocated.integer? = e.integer? := by
  cases e <;> rfl

/-- An index that is no literal contributes its own flat name. -/
theorem flatName?_element_of_not_number {base index : Expr} {loc : Location}
    (h : ∀ text loc, index ≠ number text loc) :
    (element base index loc).flatName? = do
      let i ← index.flatName?
      let b ← base.flatName?
      return b ++ "[" ++ i ++ "]" := by
  cases index with
  | number text loc => exact absurd rfl (h text loc)
  | _ => rfl

@[simp] theorem flatName?_unlocated (e : Expr) : e.unlocated.flatName? = e.flatName? := by
  fun_induction flatName? e with
  | case1 => rfl
  | case2 base name loc ih => rw [unlocated, flatName?, ih]
  | case3 base text loc loc' ih => rw [unlocated, unlocated, flatName?, ih]
  | case4 base index loc hindex ihi ihb =>
    rw [unlocated, flatName?_element_of_not_number, ihi, ihb]
    intro text loc'
    cases index with
    | number text loc => exact absurd rfl (hindex text loc)
    | _ => intro h; cases h
  | case5 e h1 h2 h3 h4 =>
    cases e with
    | ident name loc => exact absurd rfl (h1 name loc)
    | field base name loc => exact absurd rfl (h2 base name loc)
    | element base index loc => exact absurd rfl (h4 base index loc)
    | _ => rfl

/-- A minus sign makes the same of an expression wherever it stands. -/
@[simp] theorem negated_unlocated (e : Expr) (loc : Location) :
    e.unlocated.negated .nowhere = (e.negated loc).unlocated := by
  cases e with
  | number text loc' =>
    simp only [unlocated, negated]
    split <;> rfl
  | _ => rfl

end Expr

/-! ## Statements -/

/-- The first value of a variable, placed nowhere. -/
def Initializer.unlocated : Initializer → Initializer
  | .value e => .value e.unlocated
  | .elements values => .elements (values.map Expr.unlocated)
  | .fields values => .fields (values.map Expr.unlocated)

/-- The declaration placed nowhere. -/
def Variable.unlocated (decl : Variable) : Variable :=
  { decl with init := decl.init.map Initializer.unlocated, loc := .nowhere }

/-- The assignment placed nowhere. -/
def Assignment.unlocated (assignment : Assignment) : Assignment where
  target := assignment.target.unlocated
  value := assignment.value.unlocated
  loc := .nowhere

mutual

/-- The statement with everything in it placed nowhere. -/
def Statement.unlocated : Statement → Statement
  | .declare decl => .declare decl.unlocated
  | .assign assignment => .assign assignment.unlocated
  | .branch condition body alternative _ =>
    .branch condition.unlocated (Statement.unlocatedAll body) alternative.unlocated .nowhere
  | .whileLoop condition body _ => .whileLoop condition.unlocated (Statement.unlocatedAll body) .nowhere
  | .forLoop none condition step body _ =>
    .forLoop none (condition.map Expr.unlocated) (step.map Assignment.unlocated)
      (Statement.unlocatedAll body) .nowhere
  | .forLoop (some start) condition step body _ =>
    .forLoop (some start.unlocated) (condition.map Expr.unlocated) (step.map Assignment.unlocated)
      (Statement.unlocatedAll body) .nowhere
  | .giveBack value _ => .giveBack (value.map Expr.unlocated) .nowhere
  | .leaveLoop _ => .leaveLoop .nowhere
  | .nextRound _ => .nextRound .nowhere
  | .evaluate value => .evaluate value.unlocated

/-- The further arms of a branch with everything in them placed nowhere. -/
def Alternative.unlocated : Alternative → Alternative
  | .nothing => .nothing
  | .elseIf condition body alternative =>
    .elseIf condition.unlocated (Statement.unlocatedAll body) alternative.unlocated
  | .otherwise body => .otherwise (Statement.unlocatedAll body)

/-- Several statements with everything in them placed nowhere. -/
def Statement.unlocatedAll : List Statement → List Statement
  | [] => []
  | s :: ss => s.unlocated :: Statement.unlocatedAll ss

end

/-- Locations are left out of several statements one by one. -/
@[simp] theorem Statement.unlocatedAll_eq_map (ss : List Statement) :
    Statement.unlocatedAll ss = ss.map Statement.unlocated :=
  eq_map_of_cons rfl (fun _ _ => rfl) ss

/-- A `for` loop is placed nowhere part by part. -/
theorem Statement.unlocated_forLoop (start : Option Statement) (condition : Option Expr)
    (step : Option Assignment) (body : List Statement) (loc : Location) :
    (Statement.forLoop start condition step body loc).unlocated =
      .forLoop (start.map Statement.unlocated) (condition.map Expr.unlocated)
        (step.map Assignment.unlocated) (body.map Statement.unlocated) .nowhere := by
  cases start <;> simp [Statement.unlocated]

/-! ## Programs -/

/-- The parameter placed nowhere. -/
def Parameter.unlocated (p : Parameter) : Parameter := { p with loc := .nowhere }

/-- The struct placed nowhere. -/
def Struct.unlocated (s : Struct) : Struct := { s with loc := .nowhere }

/-- The function with everything in it placed nowhere. -/
def Function.unlocated (f : Function) : Function where
  name := f.name
  result := f.result
  parameters := f.parameters.map Parameter.unlocated
  body := f.body.map Statement.unlocated
  loc := .nowhere

/-- The item with everything in it placed nowhere. -/
def Item.unlocated : Item → Item
  | .struct decl => .struct decl.unlocated
  | .function decl => .function decl.unlocated

/-- The program with everything in it placed nowhere. -/
def Program.unlocated (program : Program) : Program := ⟨program.items.map Item.unlocated⟩

/-- The functions of a program without locations are its functions without locations. -/
@[simp] theorem Program.functions_unlocated (program : Program) :
    program.unlocated.functions = program.functions.map Function.unlocated := by
  rw [functions, functions, unlocated, List.filterMap_map, List.map_filterMap]
  congr 1
  funext item
  cases item <;> rfl

/-! ## Reports -/

/-- The diagnostic placed nowhere, if it has a place. -/
def Diagnostic.unlocated (d : Diagnostic) : Diagnostic := { d with loc := d.loc.map fun _ => .nowhere }

/-- A warning without its location is the warning given nowhere. -/
@[simp] theorem Warning.unlocated_diagnostic (warning : Warning) (loc : Location) :
    (warning.diagnostic loc).unlocated = warning.diagnostic .nowhere := rfl

/-- The diagnostics that do not come from the scanner, placed nowhere. -/
def laterDiagnostics (ds : List Diagnostic) : List Diagnostic :=
  (ds.filter (·.category ≠ .lexer)).map Diagnostic.unlocated

/-- Diagnostics are left out of two parts one by one. -/
@[simp] theorem laterDiagnostics_append (ds es : List Diagnostic) :
    laterDiagnostics (ds ++ es) = laterDiagnostics ds ++ laterDiagnostics es := by
  simp [laterDiagnostics]

/-- The event placed nowhere; a warning of the scanner is no event here. -/
def Event.later? : Event → Option Event
  | .reported d => if d.category ≠ .lexer then some (.reported d.unlocated) else none
  | event => some event

/-- The error placed nowhere. -/
def CompileError.unlocated : CompileError → CompileError
  | .lexical fault _ => .lexical fault .nowhere
  | .syntactic fault _ => .syntactic fault .nowhere
  | .outOfBounds index array size _ => .outOfBounds index array size .nowhere
  | .strayJump keyword _ => .strayJump keyword .nowhere
  | .declaration fault _ => .declaration fault .nowhere

/-- The message of an error does not depend on its place. -/
@[simp] theorem CompileError.message_unlocated (e : CompileError) : e.unlocated.message = e.message := by
  cases e <;> rfl

/-! ## Readers -/

/-- The reader with everything in it placed nowhere, and without what the scanner reported. -/
def Reader.unlocated (r : Reader) : Reader where
  queue := r.queue.unlocated
  eof := .nowhere
  beyond := r.beyond.map Token.unlocated
  loopDepth := r.loopDepth
  tables := r.tables
  diagnostics := laterDiagnostics r.diagnostics
  log := r.log.filterMap Event.later?

namespace Reader

@[simp] theorem rest_unlocated (r : Reader) : r.unlocated.rest = r.rest.map Token.unlocated := rfl

@[simp] theorem loopDepth_unlocated (r : Reader) : r.unlocated.loopDepth = r.loopDepth := rfl

/-- The tables of a reader have no locations. -/
@[simp] theorem tables_unlocated (r : Reader) : r.unlocated.tables = r.tables := rfl

/-- The diagnostics that a reader keeps are those that the scanner did not give. -/
@[simp] theorem diagnostics_unlocated (r : Reader) :
    r.unlocated.diagnostics = laterDiagnostics r.diagnostics := rfl

@[simp] theorem depth_unlocated (r : Reader) : r.unlocated.depth = r.depth := rfl

/-- A token ahead is the same up to its location. -/
@[simp] theorem ahead_unlocated (r : Reader) (n : Nat) : r.unlocated.ahead n = (r.ahead n).unlocated := by
  rw [ahead, ahead, rest_unlocated, List.getElem?_map]
  cases r.rest[n]? with
  | none =>
    have hending : r.unlocated.ending = r.ending.map Token.unlocated := rfl
    have hsize : r.unlocated.queue.size = r.queue.size := rfl
    simp only [Option.map_none, hending, hsize, List.getElem?_map]
    cases r.ending[n - r.queue.size]? <;> rfl
  | some t => rfl

@[simp] theorem next_unlocated (r : Reader) : r.unlocated.next = r.next.unlocated := ahead_unlocated r 0

end Reader

end ClockedC
