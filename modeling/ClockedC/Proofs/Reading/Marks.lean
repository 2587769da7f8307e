import ClockedC.Ast.Trees
import ClockedC.Compile
import ClockedC.Proofs.Reading.Moves

/-!
# What a program carries over from its tokens

The leaves of a program are names, texts of numbers, and locations. All of them are those of tokens, but for the digits
and the sign that a step or a minus sign brings along. So a property of these marks that the tokens have goes over to
programs, to warnings, and to the error where there is no program.
-/

namespace ClockedC

variable {loc : Location}

/-- What a leaf of a program carries. -/
inductive Mark where
  | name (text : String)
  | number (text : String)
  | location (loc : Location)

/-- A property that is kept where digits are brought along and a sign is put in front of a number or taken away. -/
structure Mark.Closed (P : Mark → Prop) : Prop where
  zero : P (.number "0")
  one : P (.number "1")
  signed : ∀ {text : String}, P (.number text) → text.toList.head? ≠ some '-' → P (.number ("-" ++ text))
  unsigned : ∀ {text : String} {cs : List Char}, P (.number text) → text.toList = '-' :: cs →
    P (.number (String.ofList cs))

/-! ## Trees whose marks have a property -/

section

variable (P : Mark → Prop)

mutual

/-- Every mark in an expression has the property. -/
def Expr.Marked : Expr → Prop
  | .number text loc => P (.number text) ∧ P (.location loc)
  | .ident name loc => P (.name name) ∧ P (.location loc)
  | .field base name loc => base.Marked ∧ P (.name name) ∧ P (.location loc)
  | .element base index loc => base.Marked ∧ index.Marked ∧ P (.location loc)
  | .negate operand loc => operand.Marked ∧ P (.location loc)
  | .binary _ left right loc => left.Marked ∧ right.Marked ∧ P (.location loc)
  | .unary _ operand loc => operand.Marked ∧ P (.location loc)
  | .call name args loc => P (.name name) ∧ Expr.AllMarked args ∧ P (.location loc)

/-- Every mark in several expressions has the property. -/
def Expr.AllMarked : List Expr → Prop
  | [] => True
  | e :: es => e.Marked ∧ Expr.AllMarked es

end

/-- The name of the struct, if the type is one, has the property. -/
def DataType.Marked : DataType → Prop
  | struct name => P (.name name)
  | _ => True

/-- Every mark in the first value of a variable has the property. -/
def Initializer.Marked : Initializer → Prop
  | value e => e.Marked P
  | elements es => Expr.AllMarked P es
  | fields es => Expr.AllMarked P es

/-- Every mark in a declaration has the property. -/
structure Variable.Marked (decl : Variable) : Prop where
  name : P (.name decl.name)
  type : decl.type.Marked P
  init : ∀ init ∈ decl.init, init.Marked P
  loc : P (.location decl.loc)

/-- Every mark in an assignment has the property. -/
structure Assignment.Marked (assignment : Assignment) : Prop where
  target : assignment.target.Marked P
  value : assignment.value.Marked P
  loc : P (.location assignment.loc)

mutual

/-- Every mark in a statement has the property. -/
def Statement.Marked : Statement → Prop
  | .declare decl => decl.Marked P
  | .assign assignment => assignment.Marked P
  | .branch condition body alternative loc =>
    condition.Marked P ∧ Statement.AllMarked body ∧ alternative.Marked ∧ P (.location loc)
  | .whileLoop condition body loc => condition.Marked P ∧ Statement.AllMarked body ∧ P (.location loc)
  | .forLoop none condition step body loc =>
    (∀ e ∈ condition, e.Marked P) ∧ (∀ a ∈ step, a.Marked P) ∧ Statement.AllMarked body ∧ P (.location loc)
  | .forLoop (some start) condition step body loc =>
    start.Marked ∧ (∀ e ∈ condition, e.Marked P) ∧ (∀ a ∈ step, a.Marked P) ∧ Statement.AllMarked body ∧
      P (.location loc)
  | .giveBack value loc => (∀ e ∈ value, e.Marked P) ∧ P (.location loc)
  | .leaveLoop loc => P (.location loc)
  | .nextRound loc => P (.location loc)
  | .evaluate value => value.Marked P

/-- Every mark in the remaining arms of a branch has the property. -/
def Alternative.Marked : Alternative → Prop
  | .nothing => True
  | .elseIf condition body alternative => condition.Marked P ∧ Statement.AllMarked body ∧ alternative.Marked
  | .otherwise body => Statement.AllMarked body

/-- Every mark in several statements has the property. -/
def Statement.AllMarked : List Statement → Prop
  | [] => True
  | s :: ss => s.Marked ∧ Statement.AllMarked ss

end

/-- Every mark in a field has the property. -/
def Field.Marked (field : Field) : Prop := P (.name field.name) ∧ field.type.Marked P

/-- Every mark in a parameter has the property. -/
def Parameter.Marked (p : Parameter) : Prop := P (.name p.name) ∧ p.type.Marked P ∧ P (.location p.loc)

/-- Every mark in a struct has the property. -/
structure Struct.Marked (decl : Struct) : Prop where
  name : P (.name decl.name)
  fields : ∀ field ∈ decl.fields, field.Marked P
  loc : P (.location decl.loc)

/-- Every mark in a function has the property. -/
structure Function.Marked (f : Function) : Prop where
  name : P (.name f.name)
  result : f.result.Marked P
  parameters : ∀ p ∈ f.parameters, p.Marked P
  body : Statement.AllMarked P f.body
  loc : P (.location f.loc)

/-- Every mark in an item has the property. -/
def Item.Marked : Item → Prop
  | struct decl => decl.Marked P
  | function f => f.Marked P

/-- Every mark in a program has the property. -/
def Program.Marked (program : Program) : Prop := ∀ item ∈ program.items, item.Marked P

/-- The location of a diagnostic, if it has one, has the property. -/
def Diagnostic.Marked (d : Diagnostic) : Prop := ∀ loc ∈ d.loc, P (.location loc)

/-- The marks of a token have the property. -/
structure Token.Marked (t : Token) : Prop where
  loc : P (.location t.loc)
  name : ∀ name, t.lexeme = .identifier name → P (.name name)
  number : ∀ text, t.lexeme = .number text → P (.number text)

/-- The marks of the tokens not yet read, and of all that has been reported, have the property. -/
structure Reader.Marked (r : Reader) : Prop where
  rest : ∀ t ∈ r.rest, t.Marked P
  eof : P (.location r.eof)
  diagnostics : ∀ d ∈ r.diagnostics, d.Marked P
  log : ∀ event ∈ r.log, ∀ d ∈ event.diagnostic?, d.Marked P

end

variable {P : Mark → Prop}

/-- Several expressions are marked if each of them is. -/
theorem Expr.allMarked_iff {es : List Expr} : Expr.AllMarked P es ↔ ∀ e ∈ es, e.Marked P :=
  forall_iff_of_cons trivial (fun _ _ => .rfl) es

/-- Statements in two parts are marked if both parts are. -/
theorem Statement.AllMarked.append {ss ts : List Statement} (hs : AllMarked P ss) (ht : AllMarked P ts) :
    AllMarked P (ss ++ ts) := by
  induction ss with
  | nil => exact ht
  | cons s ss ih => exact ⟨hs.1, ih hs.2⟩

/-- A minus sign has its own location, and changes the sign of a number or brings a zero with it. -/
theorem Expr.Marked.negated (hP : Mark.Closed P) {e : Expr} (h : e.Marked P) (hloc : P (.location loc)) :
    (e.negated loc).Marked P := by
  cases e with
  | number text loc' =>
    rw [Expr.negated]
    split
    · next cs hcs => exact ⟨hP.unsigned h.1 hcs, hloc⟩
    · next hcs =>
      refine ⟨hP.signed h.1 fun hhead => ?_, hloc⟩
      obtain ⟨cs, hcs'⟩ := List.head?_eq_some_iff.1 hhead
      exact hcs cs hcs'
  | ident name loc' => exact ⟨h, hloc⟩
  | field base name loc' => exact ⟨h, hloc⟩
  | element base index loc' => exact ⟨h, hloc⟩
  | negate operand loc' => exact ⟨⟨hP.zero, hloc⟩, h, hloc⟩
  | binary op left right loc' => exact ⟨⟨hP.zero, hloc⟩, h, hloc⟩
  | unary op operand loc' => exact ⟨⟨hP.zero, hloc⟩, h, hloc⟩
  | call name args loc' => exact ⟨⟨hP.zero, hloc⟩, h, hloc⟩

namespace Reader.Marked

/-- A reader further on is marked. -/
theorem of_suffix {r : Reader} (h : r.Marked P) {ts : List Token} (hts : ts <:+ r.rest) : (r.withRest ts).Marked P :=
  ⟨fun t ht => h.rest t (hts.subset ht), h.eof, h.diagnostics, h.log⟩

/-- The next token is marked, also if it is the end. -/
theorem next {r : Reader} (h : r.Marked P) : r.next.Marked P := by
  rw [next_eq_head]
  cases hrest : r.rest with
  | nil => exact ⟨h.eof, nofun, nofun⟩
  | cons t ts => exact h.rest t (by rw [hrest]; exact List.mem_cons_self)

end Reader.Marked

/-! ## Sequences of steps -/

namespace Grammar

variable {α β : Type} {Ok : α → Prop} {Ok' : β → Prop}

/-- A step that succeeds gives a value with a property and leaves the marks their own; one that fails does so where a
location has it. -/
def Outcome.Kept (P : Mark → Prop) (Ok : α → Prop) : EStateM.Result CompileError Reader α → Prop
  | .ok a r => Ok a ∧ r.Marked P
  | .error e r => P (.location e.loc) ∧ r.Marked P

/-- A step that carries a property of the marks over. -/
structure Keeps (P : Mark → Prop) (Ok : α → Prop) (p : ReadM α) : Prop where
  kept : ∀ {r : Reader}, r.Marked P → Outcome.Kept P Ok (p.run r)

namespace Keeps

/-- Steps in turn carry marks over if each of them does. -/
theorem bind {p : ReadM α} {k : α → ReadM β} (hp : Keeps P Ok p) (hk : ∀ a, Ok a → Keeps P Ok' (k a)) :
    Keeps P Ok' (p >>= k) := by
  constructor
  intro r hr
  have hfirst := hp.kept hr
  rw [EStateM.run_bind]
  cases hrun : p.run r with
  | ok a r₁ =>
    rw [hrun] at hfirst
    exact (hk a hfirst.1).kept hfirst.2
  | error e r₁ =>
    rw [hrun] at hfirst
    exact hfirst

theorem pure {a : α} (h : Ok a) : Keeps P Ok (Pure.pure a) := ⟨fun hr => ⟨h, hr⟩⟩

/-- What is made of the result is marked if it is made so. -/
theorem map {f : α → β} {p : ReadM α} (hp : Keeps P Ok p) (hf : ∀ a, Ok a → Ok' (f a)) : Keeps P Ok' (f <$> p) := by
  rw [← bind_pure_comp]
  exact hp.bind fun a ha => pure (hf a ha)

/-- An error is marked by its location. -/
theorem throw {e : CompileError} (h : P (.location e.loc)) : Keeps P Ok (throw e : ReadM α) := ⟨fun hr => ⟨h, hr⟩⟩

/-- A fault of the grammar is marked by its location. -/
theorem refuse {fault : SyntacticFault} (h : P (.location loc)) : Keeps P Ok (refuse fault loc : ReadM α) := throw h

/-- A fault of a declaration is marked by its location. -/
theorem refuseDeclaration {fault : DeclarationFault} (h : P (.location loc)) :
    Keeps P Ok (refuseDeclaration fault loc : ReadM α) := throw h

/-- A check in front of a step. -/
theorem check {c : Prop} [Decidable c] {fault : DeclarationFault} {k : α → ReadM β} {p : ReadM β}
    (hloc : P (.location loc)) (h : Keeps P Ok' p) :
    Keeps P Ok' (if c then Grammar.refuseDeclaration fault loc >>= k else p) := by
  split
  · exact ⟨fun hr => ⟨hloc, hr⟩⟩
  · exact h

/-! ## Moves -/

theorem get : Keeps P (Reader.Marked P) (get : ReadM Reader) := ⟨fun hr => ⟨hr, hr⟩⟩

/-- A change carries marks over if the reader stays marked. -/
theorem modify {f : Reader → Reader} (h : ∀ r : Reader, r.Marked P → (f r).Marked P) :
    Keeps P (fun _ => True) (modify f : ReadM Unit) := ⟨fun {r} hr => ⟨trivial, h r hr⟩⟩

/-- The next token brings its marks along. -/
theorem current : Keeps P (Token.Marked P) current := ⟨fun hr => ⟨hr.next, hr⟩⟩

theorem lexemeAhead (n : Nat) : Keeps P (fun _ => True) (lexemeAhead n) := ⟨fun hr => ⟨trivial, hr⟩⟩

theorem nextIs (lexeme : Lexeme) : Keeps P (fun _ => True) (nextIs lexeme) := ⟨fun hr => ⟨trivial, hr⟩⟩

theorem operatorFrom? (least : Int) : Keeps P (fun _ => True) (operatorFrom? least) := ⟨fun hr => ⟨trivial, hr⟩⟩

theorem advance : Keeps P (fun _ => True) advance := by
  constructor
  intro r hr
  rw [run_advance]
  exact ⟨trivial, hr.of_suffix (List.tail_suffix _)⟩

/-- A lexeme that is passed leaves no mark. -/
theorem acceptLexeme (lexeme : Lexeme) : Keeps P (fun _ => True) (acceptLexeme lexeme) := by
  apply (nextIs lexeme).bind
  intro b _
  split
  · exact advance.bind fun _ _ => pure trivial
  · exact pure trivial

theorem accept (symbol : Symbol) : Keeps P (fun _ => True) (accept symbol) := acceptLexeme _

theorem acceptKeyword (keyword : Keyword) : Keeps P (fun _ => True) (acceptKeyword keyword) := acceptLexeme _

theorem refuseDepth : Keeps P Ok (refuseDepth : ReadM α) := current.bind fun _ ht => refuse ht.loc

/-- A symbol that is missing is reported where another one stands. -/
theorem expect (symbol : Symbol) (context : String) : Keeps P (fun _ => True) (expect symbol context) := by
  apply (accept symbol).bind
  intro b _
  split
  · exact pure trivial
  · exact current.bind fun _ ht => refuse ht.loc

/-- A name is the mark of its token. -/
theorem identifier : Keeps P (fun name => P (.name name)) identifier := by
  apply current.bind
  intro t ht
  split
  · next name hname => exact advance.bind fun _ _ => pure (ht.name name hname)
  · exact refuse ht.loc

/-- A jump outside of a loop is reported where it stands. -/
theorem requireLoop (keyword : Keyword) (h : P (.location loc)) :
    Keeps P (fun _ => True) (requireLoop keyword loc) := by
  apply get.bind
  intro r _
  split
  · exact throw h
  · exact pure trivial

/-- A loop is opened and closed again around a step. -/
theorem insideLoop {p : ReadM α} (hp : Keeps P Ok p) : Keeps P Ok (insideLoop p) := by
  constructor
  intro r hr
  have hopen : ({ r with loopDepth := r.loopDepth + 1 } : Reader).Marked P := ⟨hr.rest, hr.eof, hr.diagnostics, hr.log⟩
  have hkept := hp.kept hopen
  rw [EStateM.run] at hkept
  rw [EStateM.run, Grammar.insideLoop]
  split
  · next a r₁ hrun =>
    rw [hrun] at hkept
    exact ⟨hkept.1, ⟨hkept.2.rest, hkept.2.eof, hkept.2.diagnostics, hkept.2.log⟩⟩
  · next e r₁ hrun =>
    rw [hrun] at hkept
    exact ⟨hkept.1, ⟨hkept.2.rest, hkept.2.eof, hkept.2.diagnostics, hkept.2.log⟩⟩

/-! ## Expressions -/

/-- Fields take their names and their locations from tokens. -/
theorem fieldsOf (hloc : P (.location loc)) (depth : Nat) {base : Expr} (h : base.Marked P) :
    Keeps P (Expr.Marked P) (fieldsOf loc depth base) := by
  induction depth generalizing base with
  | zero => exact refuseDepth
  | succ depth ih =>
    apply (accept .dot).bind
    intro b _
    split
    · exact identifier.bind fun name hname => ih ⟨h, hname, hloc⟩
    · exact pure h

/-- An index that misses is reported where its bracket stands. -/
theorem checkIndex (base index : Expr) (h : P (.location loc)) :
    Keeps P (fun _ => True) (checkIndex base index loc) := by
  apply get.bind
  intro r _
  dsimp only
  split
  · split
    · split
      · exact throw h
      · exact pure trivial
    · exact pure trivial
  · exact pure trivial

/-- Places take their marks from tokens if their indices do. -/
theorem placeWith (depth : Nat) {index : ReadM Expr} (h : Keeps P (Expr.Marked P) index) :
    Keeps P (Expr.Marked P) (placeWith depth index) := by
  refine current.bind fun token htoken => identifier.bind fun name hname => ?_
  have hident : (Expr.ident name token.loc).Marked P := ⟨hname, htoken.loc⟩
  refine (fieldsOf htoken.loc depth hident).bind fun base hbase => (accept .openBracket).bind fun b _ => ?_
  split
  · exact h.bind fun position hposition => (expect ..).bind fun _ _ => (checkIndex _ _ htoken.loc).bind fun _ _ =>
      pure ⟨hbase, hposition, htoken.loc⟩
  · exact pure hbase

/-- Lists take their marks from tokens if their items do. -/
theorem commaSeparated {item : ReadM Expr} (h : Keeps P (Expr.Marked P) item) (depth : Nat) :
    Keeps P (Expr.AllMarked P) (commaSeparated item depth) := by
  induction depth with
  | zero => exact refuseDepth
  | succ depth ih =>
    refine h.bind fun first hfirst => (accept .comma).bind fun b _ => ?_
    split
    · exact ih.bind fun rest hrest => pure ⟨hfirst, hrest⟩
    · exact pure ⟨hfirst, trivial⟩

/-- Arguments take their marks from tokens if each of them does. -/
theorem argumentsWith (depth : Nat) {argument : ReadM Expr} (h : Keeps P (Expr.Marked P) argument) :
    Keeps P (Expr.AllMarked P) (argumentsWith depth argument) := by
  apply (nextIs _).bind
  intro b _
  dsimp only
  split
  · have hnone : Keeps P (Expr.AllMarked P) (Pure.pure []) := pure trivial
    exact hnone.bind fun args hargs => (expect ..).bind fun _ _ => pure hargs
  · exact (commaSeparated h depth).bind fun args hargs => (expect ..).bind fun _ _ => pure hargs

/-- The three productions of expressions, each from those of less depth. -/
theorem expressions (hP : Mark.Closed P) (depth : Nat) :
    (∀ least, Keeps P (Expr.Marked P) (expressionAt depth least)) ∧
      (∀ least {left : Expr}, left.Marked P → Keeps P (Expr.Marked P) (operatorsFrom depth least left)) ∧
      Keeps P (Expr.Marked P) (primary depth) := by
  induction depth with
  | zero => exact ⟨fun _ => refuseDepth, fun _ _ _ => refuseDepth, refuseDepth⟩
  | succ depth ih =>
    obtain ⟨hexpr, hops, hprimary⟩ := ih
    refine ⟨?_, ?_, ?_⟩
    · intro least
      rw [expressionAt, expressionBy]
      exact hprimary.bind fun left hleft => hops least hleft
    · intro least left hleft
      rw [operatorsFrom, operatorsBy]
      refine current.bind fun token htoken => (operatorFrom? least).bind fun op _ => ?_
      split
      · exact pure hleft
      · exact advance.bind fun _ _ => (hexpr _).bind fun right hright => hops least ⟨hleft, hright, htoken.loc⟩
    · rw [primary, operandBy]
      apply current.bind
      intro token htoken
      split
      · exact advance.bind fun _ _ => hprimary.bind fun e he => pure ⟨he, htoken.loc⟩
      · exact advance.bind fun _ _ => hprimary.bind fun e he => pure ⟨he, htoken.loc⟩
      · exact advance.bind fun _ _ => hprimary.bind fun e he => pure (he.negated hP htoken.loc)
      · exact advance.bind fun _ _ => (hexpr _).bind fun e he => (expect ..).bind fun _ _ => pure he
      · next text htext => exact advance.bind fun _ _ => pure ⟨htoken.number text htext, htoken.loc⟩
      · next name hname =>
        apply (lexemeAhead 1).bind
        intro lexeme _
        split
        · exact advance.bind fun _ _ => advance.bind fun _ _ => (argumentsWith depth (hexpr _)).bind fun args hargs =>
            pure ⟨htoken.name name hname, hargs, htoken.loc⟩
        · exact placeWith depth (hexpr _)
      · exact refuse htoken.loc
      · exact refuse htoken.loc

/-- Expressions take their marks from tokens, but for signs. -/
theorem expression (hP : Mark.Closed P) : Keeps P (Expr.Marked P) expression :=
  get.bind fun _ _ => (expressions hP _).1 _

/-- Places take their marks from tokens. -/
theorem place (hP : Mark.Closed P) : Keeps P (Expr.Marked P) place := get.bind fun _ _ => placeWith _ (expression hP)

/-! ## Variables -/

/-- Types take the names of structs from tokens. -/
theorem dataType : Keeps P (DataType.Marked P) dataType := by
  apply current.bind
  intro token htoken
  split
  case h_6 =>
    exact advance.bind fun _ _ => identifier.bind fun name hname => get.bind fun _ _ => check htoken.loc (pure hname)
  case h_7 => exact refuse htoken.loc
  all_goals exact advance.bind fun _ _ => pure trivial

/-- A length that is refused is reported where it stands. -/
theorem arrayLength (name : String) : Keeps P (fun _ => True) (arrayLength name) := by
  apply current.bind
  intro token htoken
  split
  · apply advance.bind
    intro _ _
    split
    · exact pure trivial
    · exact refuseDeclaration htoken.loc
  · exact refuseDeclaration htoken.loc

theorem arrayBrackets (name : String) : Keeps P (fun _ => True) (arrayBrackets name) := by
  apply (accept .openBracket).bind
  intro b _
  split
  · refine (arrayLength name).bind fun _ _ => (expect ..).bind fun _ _ => (modify ?_).bind fun _ _ => pure trivial
    intro r hr
    exact ⟨hr.rest, hr.eof, hr.diagnostics, hr.log⟩
  · exact pure trivial

theorem braceValues (hP : Mark.Closed P) (depth : Nat) : Keeps P (Expr.AllMarked P) (braceValues depth) := by
  induction depth with
  | zero => exact refuseDepth
  | succ depth ih =>
    apply (nextIs _).bind
    intro b _
    split
    · exact pure trivial
    · refine (expression hP).bind fun value hvalue => (accept .comma).bind fun b _ => ?_
      split
      · exact ih.bind fun rest hrest => pure ⟨hvalue, hrest⟩
      · exact pure ⟨hvalue, trivial⟩

theorem braceList (hP : Mark.Closed P) : Keeps P (Expr.AllMarked P) braceList :=
  get.bind fun _ _ => (braceValues hP _).bind fun _ hvalues => (expect ..).bind fun _ _ => pure hvalues

/-- First values take their marks from tokens, in each of their forms. -/
theorem initializer (hP : Mark.Closed P) (name : String) (type : DataType) (length : Option Nat)
    (hloc : P (.location loc)) : Keeps P (Initializer.Marked P) (initializer name type length loc) := by
  apply (accept .openBrace).bind
  intro b _
  split
  · apply (braceList hP).bind
    intro values hvalues
    split
    · exact check hloc (pure hvalues)
    · exact get.bind fun _ _ => check hloc (pure hvalues)
    · exact refuseDeclaration hloc
  · exact check hloc ((expression hP).bind fun e he => pure he)

/-- Declarations take their marks from tokens. -/
theorem variableDeclaration (hP : Mark.Closed P) : Keeps P (Variable.Marked P) variableDeclaration := by
  refine current.bind fun token htoken => dataType.bind fun type htype => identifier.bind fun name hname =>
    check htoken.loc ?_
  refine (arrayBrackets name).bind fun length _ => (accept .assign).bind fun b _ => ?_
  dsimp only
  split
  · have hinit : Keeps P (fun init : Option Initializer => ∀ i ∈ init, i.Marked P)
        (some <$> Grammar.initializer name type length token.loc) :=
      (initializer hP _ _ _ htoken.loc).map fun i hi => by simpa using hi
    exact hinit.bind fun init hinit => (expect ..).bind fun _ _ => pure ⟨hname, htype, hinit, htoken.loc⟩
  · have hnone : Keeps P (fun init : Option Initializer => ∀ i ∈ init, i.Marked P) (Pure.pure none) := pure (by simp)
    exact hnone.bind fun init hinit => (expect ..).bind fun _ _ => pure ⟨hname, htype, hinit, htoken.loc⟩

/-! ## Statements -/

/-- A step takes its marks from its target, but for the digit. -/
theorem marked_stepBy (hP : Mark.Closed P) (op : Operator) {target : Expr} (h : target.Marked P)
    (hloc : P (.location loc)) : (stepBy op target loc).Marked P := ⟨h, ⟨h, ⟨hP.one, hloc⟩, hloc⟩, hloc⟩

theorem step (hP : Mark.Closed P) : Keeps P (Assignment.Marked P) step := by
  apply current.bind
  intro token htoken
  split
  · exact advance.bind fun _ _ => (place hP).bind fun target htarget => pure (marked_stepBy hP _ htarget htoken.loc)
  · refine (place hP).bind fun target htarget => current.bind fun mark hmark => ?_
    split
    · exact advance.bind fun _ _ => pure (marked_stepBy hP _ htarget htoken.loc)
    · apply (accept .assign).bind
      intro b _
      split
      · exact (expression hP).bind fun value hvalue => pure ⟨htarget, hvalue, htoken.loc⟩
      · exact refuse hmark.loc

theorem expressionStatement (hP : Mark.Closed P) : Keeps P (Statement.Marked P) expressionStatement :=
  (expression hP).bind fun _ he => (expect ..).bind fun _ _ => pure he

/-- A statement that begins with a name takes its marks from tokens, also when it is read again. -/
theorem assignmentOrExpression (hP : Mark.Closed P) : Keeps P (Statement.Marked P) assignmentOrExpression := by
  refine get.bind fun start hstart => (lexemeAhead 1).bind fun lexeme _ => ?_
  split
  · exact expressionStatement hP
  · refine (place hP).bind fun target htarget => current.bind fun mark _ => ?_
    split
    · exact advance.bind fun _ _ => (expect ..).bind fun _ _ => pure (marked_stepBy hP _ htarget hstart.next.loc)
    · apply (accept .assign).bind
      intro b _
      split
      · exact (expression hP).bind fun value hvalue => (expect ..).bind fun _ _ =>
          pure ⟨htarget, hvalue, hstart.next.loc⟩
      · -- reading starts again where it started, before the same tokens
        refine (modify ?_).bind fun _ _ => expressionStatement hP
        intro r hr
        exact ⟨hstart.rest, hr.eof, hr.diagnostics, hr.log⟩

theorem returned (hP : Mark.Closed P) (hloc : P (.location loc)) : Keeps P (Statement.Marked P) (returned loc) := by
  apply (accept .semicolon).bind
  intro b _
  split
  · exact pure ⟨by simp, hloc⟩
  · exact (expression hP).bind fun e he => (expect ..).bind fun _ _ => pure ⟨by simpa using he, hloc⟩

theorem forStart (hP : Mark.Closed P) :
    Keeps P (fun start : Option Statement => ∀ s ∈ start, s.Marked P) forStart := by
  refine current.bind fun token htoken => (accept .semicolon).bind fun b _ => ?_
  split
  · exact pure (by simp)
  · split
    · refine (variableDeclaration hP).bind fun decl hdecl => pure ?_
      simpa [Statement.Marked] using hdecl
    · split
      · refine (place hP).bind fun target htarget => (expect ..).bind fun _ _ =>
          (expression hP).bind fun value hvalue => (expect ..).bind fun _ _ => pure ?_
        have hassign : Assignment.Marked P ⟨target, value, token.loc⟩ := ⟨htarget, hvalue, htoken.loc⟩
        simpa [Statement.Marked] using hassign
      · exact refuse htoken.loc

/-- A part that may be left out, before a symbol that must follow. -/
theorem optional {p : ReadM α} (hp : Keeps P Ok p) (c : Bool) (symbol : Symbol) (context : String) :
    Keeps P (fun part : Option α => ∀ a ∈ part, Ok a) (do
      let part ← if c then Pure.pure none else some <$> p
      Grammar.expect symbol context
      return part) := by
  split
  · have hnone : Keeps P (fun part : Option α => ∀ a ∈ part, Ok a) (Pure.pure none) := pure (by simp)
    exact hnone.bind fun _ hpart => (expect ..).bind fun _ _ => pure hpart
  · have hsome : Keeps P (fun part : Option α => ∀ a ∈ part, Ok a) (some <$> p) :=
      hp.map fun a ha => by simpa using ha
    exact hsome.bind fun _ hpart => (expect ..).bind fun _ _ => pure hpart

theorem forCondition (hP : Mark.Closed P) :
    Keeps P (fun condition : Option Expr => ∀ e ∈ condition, e.Marked P) forCondition :=
  (nextIs _).bind fun b _ => (expression hP).optional b ..

theorem forStep (hP : Mark.Closed P) :
    Keeps P (fun increment : Option Assignment => ∀ a ∈ increment, a.Marked P) forStep :=
  (nextIs _).bind fun b _ => (step hP).optional b ..

theorem parenthesisedCondition (hP : Mark.Closed P) (keyword construct : String) :
    Keeps P (Expr.Marked P) (parenthesisedCondition keyword construct) :=
  (expect ..).bind fun _ _ => (expression hP).bind fun _ he => (expect ..).bind fun _ _ => pure he

/-- The four productions of statements, each from those of less depth. -/
theorem statementProductions (hP : Mark.Closed P) (depth : Nat) :
    Keeps P (Statement.AllMarked P) (statements depth) ∧ Keeps P (Statement.Marked P) (statement depth) ∧
      (∀ context, Keeps P (Statement.AllMarked P) (body depth context)) ∧
      Keeps P (Alternative.Marked P) (alternative depth) := by
  induction depth with
  | zero => exact ⟨refuseDepth, refuseDepth, fun _ => refuseDepth, refuseDepth⟩
  | succ depth ih =>
    obtain ⟨hstatements, hstatement, hbody, halternative⟩ := ih
    refine ⟨?_, ?_, ?_, ?_⟩
    · rw [statements, statementsBy]
      apply current.bind
      intro token _
      split
      · exact pure trivial
      · exact pure trivial
      · exact advance.bind fun _ _ => hstatements.bind fun inner hinner => (expect ..).bind fun _ _ =>
          hstatements.bind fun rest hrest => pure (hinner.append hrest)
      · exact advance.bind fun _ _ => hstatements
      · exact hstatement.bind fun first hfirst => hstatements.bind fun rest hrest => pure ⟨hfirst, hrest⟩
    · -- a node takes its location from the token it begins with, and that token is still marked
      rw [statement, statementBy]
      apply current.bind
      intro token htoken
      split
      · exact advance.bind fun _ _ => returned hP htoken.loc
      · exact advance.bind fun _ _ => (parenthesisedCondition hP ..).bind fun condition hcondition =>
          (hbody _).bind fun block hblock => halternative.bind fun arms harms =>
          pure ⟨hcondition, hblock, harms, htoken.loc⟩
      · exact advance.bind fun _ _ => (parenthesisedCondition hP ..).bind fun condition hcondition =>
          (hbody _).insideLoop.bind fun block hblock => pure ⟨hcondition, hblock, htoken.loc⟩
      · refine advance.bind fun _ _ => (expect ..).bind fun _ _ => (forStart hP).bind fun start hstart =>
          (forCondition hP).bind fun condition hcondition => (forStep hP).bind fun increment hincrement =>
          (hbody _).insideLoop.bind fun block hblock => pure ?_
        cases start with
        | none => exact ⟨hcondition, hincrement, hblock, htoken.loc⟩
        | some start => exact ⟨hstart start rfl, hcondition, hincrement, hblock, htoken.loc⟩
      · exact advance.bind fun _ _ => (requireLoop _ htoken.loc).bind fun _ _ => (expect ..).bind fun _ _ =>
          pure htoken.loc
      · exact advance.bind fun _ _ => (requireLoop _ htoken.loc).bind fun _ _ => (expect ..).bind fun _ _ =>
          pure htoken.loc
      · exact (step hP).bind fun assignment hassignment => (expect ..).bind fun _ _ => pure hassignment
      · exact (step hP).bind fun assignment hassignment => (expect ..).bind fun _ _ => pure hassignment
      · exact assignmentOrExpression hP
      · split
        · exact (variableDeclaration hP).bind fun decl hdecl => pure hdecl
        · exact refuse htoken.loc
    · intro context
      rw [body, bodyBy]
      apply (accept .openBrace).bind
      intro b _
      split
      · exact hstatements.bind fun inner hinner => (expect ..).bind fun _ _ => pure hinner
      · exact hstatement.bind fun s hs => pure ⟨hs, trivial⟩
    · rw [alternative, alternativeBy]
      apply (acceptKeyword .elseWord).bind
      intro b _
      split
      · apply (acceptKeyword .ifWord).bind
        intro b _
        split
        · exact (parenthesisedCondition hP ..).bind fun condition hcondition => (hbody _).bind fun block hblock =>
            halternative.bind fun arms harms => pure ⟨hcondition, hblock, harms⟩
        · exact (hbody _).bind fun block hblock => pure hblock
      · exact pure trivial

/-- The body of a function takes its marks from tokens. -/
theorem block (hP : Mark.Closed P) : Keeps P (Statement.AllMarked P) block :=
  get.bind fun _ _ => (statementProductions hP _).1

/-! ## Items -/

/-- A record is marked if its warning is. -/
theorem note {event : Event} (h : ∀ d ∈ event.diagnostic?, d.Marked P) : Keeps P (fun _ => True) (note event) := by
  apply modify
  intro r hr
  exact ⟨hr.rest, hr.eof, hr.diagnostics, List.forall_mem_append.2 ⟨hr.log, by simpa using h⟩⟩

/-- A warning is marked by its location. -/
theorem warn (warning : Warning) (h : P (.location loc)) : Keeps P (fun _ => True) (warn warning loc) := by
  have hmarked : (warning.diagnostic loc).Marked P := by simpa [Diagnostic.Marked] using h
  refine (note (by simpa [Event.diagnostic?] using hmarked)).bind fun _ _ => modify ?_
  intro r hr
  exact ⟨hr.rest, hr.eof, List.forall_mem_append.2 ⟨hr.diagnostics, by simpa using hmarked⟩, hr.log⟩

theorem skipPastSemicolon : Keeps P (fun _ => True) skipPastSemicolon := by
  apply modify
  intro r hr
  refine ⟨fun t ht => hr.rest t ?_, hr.eof, hr.diagnostics, hr.log⟩
  exact ((List.tail_suffix _).trans (List.dropWhile_suffix _)).subset ht

/-- The fields of a struct take their names from tokens. -/
theorem structFields (struct : String) (depth : Nat) {fields : List Field} (h : ∀ f ∈ fields, f.Marked P) :
    Keeps P (fun fields : List Field => ∀ f ∈ fields, f.Marked P) (structFields struct depth fields) := by
  induction depth generalizing fields with
  | zero => exact refuseDepth
  | succ depth ih =>
    apply current.bind
    intro token htoken
    split
    · exact pure h
    · exact pure h
    · refine dataType.bind fun type htype => identifier.bind fun name hname =>
        check htoken.loc (check htoken.loc ((expect ..).bind fun _ _ => ih ?_))
      have hfield : Field.Marked P ⟨name, type⟩ := ⟨hname, htype⟩
      simpa [or_imp, forall_and] using ⟨h, hfield⟩

/-- Structs take their marks from tokens. -/
theorem structDefinition : Keeps P (Struct.Marked P) structDefinition := by
  refine current.bind fun token htoken => identifier.bind fun name hname => get.bind fun _ _ => check htoken.loc ?_
  refine (expect ..).bind fun _ _ => get.bind fun _ _ => ?_
  refine (structFields name _ (by simp)).bind fun fields hfields => (expect ..).bind fun _ _ =>
    (expect ..).bind fun _ _ => check htoken.loc ?_
  refine (modify ?_).bind fun _ _ => (note (by simp [Event.diagnostic?])).bind fun _ _ =>
    pure ⟨hname, hfields, htoken.loc⟩
  intro r hr
  exact ⟨hr.rest, hr.eof, hr.diagnostics, hr.log⟩

theorem parameter (others : List Parameter) : Keeps P (Parameter.Marked P) (parameter others) :=
  current.bind fun _ htoken => dataType.bind fun _ htype => identifier.bind fun _ hname =>
    check htoken.loc ((nextIs _).bind fun _ _ => check htoken.loc (check htoken.loc (pure ⟨hname, htype, htoken.loc⟩)))

theorem parametersFrom (depth : Nat) {others : List Parameter} (h : ∀ p ∈ others, p.Marked P) :
    Keeps P (fun ps : List Parameter => ∀ p ∈ ps, p.Marked P) (parametersFrom depth others) := by
  induction depth generalizing others with
  | zero => exact refuseDepth
  | succ depth ih =>
    refine (parameter others).bind fun p hp => (accept .comma).bind fun b _ => ?_
    have happend : ∀ q ∈ others ++ [p], q.Marked P := by simpa [or_imp, forall_and] using ⟨h, hp⟩
    split
    · exact ih happend
    · exact pure happend

theorem parameters : Keeps P (fun ps : List Parameter => ∀ p ∈ ps, p.Marked P) parameters := by
  apply (nextIs _).bind
  intro b _
  split
  · exact pure (by simp)
  · refine (nextIs _).bind fun isVoid _ => (lexemeAhead 1).bind fun lexeme _ => ?_
    split
    · exact advance.bind fun _ _ => pure (by simp)
    · exact get.bind fun _ _ => parametersFrom _ (by simp)

/-- Functions take their marks from tokens. -/
theorem functionDefinition (hP : Mark.Closed P) :
    Keeps P (fun f : Option Function => ∀ g ∈ f, g.Marked P) functionDefinition := by
  refine dataType.bind fun result hresult => current.bind fun token htoken => identifier.bind fun name hname =>
    (expect ..).bind fun _ _ => (modify ?_).bind fun _ _ => parameters.bind fun parameters hparameters =>
    (expect ..).bind fun _ _ => (accept .semicolon).bind fun b _ => ?_
  · intro r hr
    exact ⟨hr.rest, hr.eof, hr.diagnostics, hr.log⟩
  · split
    · exact (warn _ htoken.loc).bind fun _ _ => pure (by simp)
    · refine (expect ..).bind fun _ _ => (modify ?_).bind fun _ _ => (block hP).bind fun body hbody =>
        (expect ..).bind fun _ _ => (note (by simp [Event.diagnostic?])).bind fun _ _ => pure ?_
      · intro r hr
        exact ⟨hr.rest, hr.eof, hr.diagnostics, hr.log⟩
      · have hf : Function.Marked P ⟨name, result, parameters, body, token.loc⟩ :=
          ⟨hname, hresult, hparameters, hbody, htoken.loc⟩
        simpa using hf

/-- An item that is skipped is reported where it begins. -/
theorem skipWarning (warning : Warning) (h : P (.location loc)) :
    Keeps P (fun item : Option Item => ∀ i ∈ item, i.Marked P) (skipWarning warning loc) :=
  (warn _ h).bind fun _ _ => advance.bind fun _ _ => pure (by simp)

theorem typedItem (hP : Mark.Closed P) (length : Nat) (h : P (.location loc)) :
    Keeps P (fun item : Option Item => ∀ i ∈ item, i.Marked P) (typedItem length loc) := by
  refine (lexemeAhead length).bind fun first _ => (lexemeAhead (length + 1)).bind fun second _ => ?_
  split
  · refine (functionDefinition hP).bind fun f hf => pure ?_
    simpa [Item.Marked] using hf
  · exact (warn _ h).bind fun _ _ => skipPastSemicolon.bind fun _ _ => pure (by simp)
  · exact skipWarning _ h

/-- An item takes its marks from tokens. -/
theorem topLevel (hP : Mark.Closed P) : Keeps P (fun item : Option Item => ∀ i ∈ item, i.Marked P) topLevel := by
  apply current.bind
  intro token htoken
  split
  · refine (lexemeAhead 1).bind fun first _ => (lexemeAhead 2).bind fun second _ => ?_
    split
    · refine advance.bind fun _ _ => structDefinition.bind fun s hs => pure ?_
      simpa [Item.Marked] using hs
    · exact typedItem hP _ htoken.loc
    · exact skipWarning _ htoken.loc
  · exact typedItem hP _ htoken.loc
  · exact typedItem hP _ htoken.loc
  · exact typedItem hP _ htoken.loc
  · exact typedItem hP _ htoken.loc
  · exact typedItem hP _ htoken.loc
  · exact skipWarning _ htoken.loc

/-- The items of a program take their marks from tokens. -/
theorem items (hP : Mark.Closed P) (depth : Nat) :
    Keeps P (fun is : List Item => ∀ i ∈ is, i.Marked P) (items depth) := by
  induction depth with
  | zero => exact refuseDepth
  | succ depth ih =>
    apply (nextIs .eof).bind
    intro b _
    split
    · exact pure (by simp)
    · refine (topLevel hP).bind fun item hitem => ih.bind fun rest hrest => pure ?_
      simpa [or_imp, forall_and] using ⟨hitem, hrest⟩

/-- What the marks of the tokens have, the marks of a program and of all that is reported about it have too. -/
theorem program (hP : Mark.Closed P) : Keeps P (Program.Marked P) program :=
  get.bind fun _ _ => (items hP _).bind fun _ hitems => get.bind fun _ _ =>
    (note (by simp [Event.diagnostic?])).bind fun _ _ => pure hitems

end Keeps

end Grammar

/-! ## Source texts -/

/-- The marks of all that a scan gives have the property. -/
structure Scan.Marked (P : Mark → Prop) (scan : Scan) : Prop where
  tokens : ∀ {stream : TokenStream}, scan.outcome = .ok stream → ∀ t ∈ stream.tokens, t.Marked P
  eof : ∀ {stream : TokenStream}, scan.outcome = .ok stream → P (.location stream.eof)
  error : ∀ {e : CompileError}, scan.outcome = .error e → P (.location e.loc)
  warnings : ∀ d ∈ scan.warnings, d.Marked P

/-- A result has a property, and so have the marks of an error and of all that is logged. -/
structure Logged.Marked {α : Type} (P : Mark → Prop) (Ok : α → Prop) (logged : Logged α) : Prop where
  ok : ∀ {a : α}, logged.outcome = .ok a → Ok a
  error : ∀ {e : CompileError}, logged.outcome = .error e → P (.location e.loc)
  log : ∀ event ∈ logged.log, ∀ d ∈ event.diagnostic?, d.Marked P

/-- The marks of a program and of what is reported about it have the property. -/
def Parsed.Marked (P : Mark → Prop) (parsed : Parsed) : Prop :=
  parsed.program.Marked P ∧ ∀ d ∈ parsed.diagnostics, d.Marked P

/-- What a scan reports has the marks of the scan. -/
theorem Scan.Marked.events {source : String} (h : (Scan.ofSource source).Marked P) :
    ∀ event ∈ (Scan.ofSource source).events, ∀ d ∈ event.diagnostic?, d.Marked P := by
  intro event hevent d hd
  rcases List.mem_append.1 hevent with hevent | hevent
  · rw [Scan.ofSource, Scan.log_scanFrom] at hevent
    obtain ⟨d', hd', rfl⟩ := List.mem_map.1 hevent
    cases hd
    exact h.warnings d hd'
  · split at hevent
    · cases List.mem_singleton.1 hevent
      cases hd
    · cases hevent

/-- A reader of a source text has the marks of its scan. -/
theorem Scan.Marked.reader {source : String} {r : Reader} (h : (Scan.ofSource source).Marked P)
    (hr : Reader.ofSource source = .ok r) : r.Marked P := by
  obtain ⟨stream, hstream, rfl⟩ := Reader.ofSource_eq_ok hr
  exact ⟨h.tokens hstream, h.eof hstream, h.warnings, h.events⟩

/-- What the marks of a scan have, the marks of all that is read from it have too. -/
theorem parse_marked (hP : Mark.Closed P) {source : String} (h : (Scan.ofSource source).Marked P) :
    (parse source).Marked P (Parsed.Marked P) := by
  cases hr : Reader.ofSource source with
  | error e =>
    have hscan : (Scan.ofSource source).outcome = .error e := by
      rw [Reader.ofSource, Reader.ofScan] at hr
      cases hscan : (Scan.ofSource source).outcome with
      | error e' => simpa [hscan, Except.map] using hr
      | ok stream => simp [hscan, Except.map] at hr
    have hparse : parse source = ⟨.error e, (Scan.ofSource source).events⟩ := by
      rw [Reader.ofSource] at hr
      simp only [parse, hr]
    rw [hparse]
    exact ⟨fun hok => (by cases hok), fun he => Except.error.inj he ▸ h.error hscan, h.events⟩
  | ok r =>
    -- whether a program or an error comes of it, the reader carries the marks over
    have hkept := (Grammar.Keeps.program hP).kept (h.reader hr)
    rw [EStateM.run] at hkept
    rw [Reader.ofSource] at hr
    cases hrun : Grammar.program r with
    | ok program r' =>
      rw [hrun] at hkept
      simp only [parse, hr, hrun]
      refine ⟨fun hparsed => ?_, fun he => (by cases he), hkept.2.log⟩
      exact Except.ok.inj hparsed ▸ ⟨hkept.1, hkept.2.diagnostics⟩
    | error e r' =>
      rw [hrun] at hkept
      simp only [parse, hr, hrun]
      exact ⟨fun hok => (by cases hok), fun he => Except.error.inj he ▸ hkept.1, hkept.2.log⟩

end ClockedC
