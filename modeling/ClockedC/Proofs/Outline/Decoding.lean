import ClockedC.Proofs.Layout.Unlocated
import ClockedC.Proofs.Outline.Drawing
import ClockedC.Proofs.Outline.Labels

/-!
# Programs read back from their drawings

Every label of an outline begins with a word for the kind of its node. So a tree is read back from its leaves to its
root, and with the tree the program, up to locations.

* `drawing_faithful` : programs are told by their drawings.
-/

namespace ClockedC

/-! ## Nodes -/

/-- The kinds of nodes. -/
inductive Tag where
  | number
  | identifier
  /-- A field that is selected, or one of a struct. -/
  | field
  | index
  | negate
  | binary
  | unary
  | call
  | declaration
  | elements
  | fields
  | assignment
  | branch
  | thenArm
  | elseIf
  | otherwise
  | whileLoop
  | forLoop
  | start
  | condition
  | step
  | body
  | giveBack
  | leaveLoop
  | nextRound
  | evaluate
  | struct
  | parameter
  | function
  | program

/-- The word that the label of a node begins with. -/
def Tag.word : Tag → String
  | number => "Number"
  | identifier => "Identifier"
  | field => "Field"
  | index => "Index"
  | negate => "Negate"
  | binary => "BinaryOp"
  | unary => "UnaryOp"
  | call => "Call"
  | declaration => "VarDecl"
  | elements => "ArrayInit"
  | fields => "StructInit"
  | assignment => "Assignment"
  | branch => "If"
  | thenArm => "Then"
  | elseIf => "ElseIf"
  | otherwise => "Else"
  | whileLoop => "While"
  | forLoop => "For"
  | start => "Init"
  | condition => "Condition"
  | step => "Increment"
  | body => "Body"
  | giveBack => "Return"
  | leaveLoop => "Break"
  | nextRound => "Continue"
  | evaluate => "ExpressionStatement"
  | struct => "Struct"
  | parameter => "Param"
  | function => "Function"
  | program => "Program"

/-- The kind of a node whose label begins with a word. -/
def Tag.ofWord? (word : String) : Option Tag :=
  [number, identifier, field, index, negate, binary, unary, call, declaration, elements, fields, assignment, branch,
    thenArm, elseIf, otherwise, whileLoop, forLoop, start, condition, step, body, giveBack, leaveLoop, nextRound,
    evaluate, struct, parameter, function, program].find? (·.word = word)

/-- The word of a kind tells the kind. -/
theorem Tag.ofWord?_word (tag : Tag) : ofWord? tag.word = some tag := by cases tag <;> rfl

theorem Tag.isWord_word (tag : Tag) : IsWord tag.word := by cases tag <;> decide

/-- What a node stands for. -/
inductive Part where
  | expr (e : Expr)
  /-- The values of a brace list. -/
  | init (init : Initializer)
  | condition (e : Expr)
  | thenArm (body : List Statement)
  | elseIf (condition : Expr) (body : List Statement)
  | otherwise (body : List Statement)
  | start (s : Statement)
  | step (a : Assignment)
  | body (body : List Statement)
  | statement (s : Statement)
  | field (field : Field)
  | parameter (p : Parameter)
  | item (item : Item)
  | program (program : Program)

namespace Part

/-- The expression that a part is. -/
def expr? : Part → Option Expr
  | expr e => some e
  | _ => none

/-- The statement that a part is. -/
def statement? : Part → Option Statement
  | statement s => some s
  | _ => none

/-- The start of a `for` loop that a part is. -/
def start? : Part → Option Statement
  | start s => some s
  | _ => none

/-- The condition that a part is. -/
def condition? : Part → Option Expr
  | condition e => some e
  | _ => none

/-- The step of a `for` loop that a part is. -/
def step? : Part → Option Assignment
  | step a => some a
  | _ => none

/-- The body that a part is. -/
def body? : Part → Option (List Statement)
  | body ss => some ss
  | _ => none

/-- What a variable holds at first, as the part that hangs from its declaration says. -/
def init? : Part → Option Initializer
  | expr e => some (.value e)
  | init i => some i
  | _ => none

/-- The field of a struct that a part is. -/
def field? : Part → Option Field
  | field f => some f
  | _ => none

/-- The parameter that a part is. -/
def parameter? : Part → Option Parameter
  | parameter p => some p
  | _ => none

/-- The item that a part is. -/
def item? : Part → Option Item
  | item i => some i
  | _ => none

/-- The arms of a branch behind the first. -/
def alternative : List Part → Alternative
  | elseIf e ss :: parts => .elseIf e ss (alternative parts)
  | otherwise ss :: _ => .otherwise ss
  | _ => .nothing

end Part

/-- What a node of a kind stands for, with the words behind that for its kind, and with what hangs from it. -/
def Tag.assemble : Tag → List String → List Part → Option Part
  | number, [text], _ => some (.expr (.number text .nowhere))
  | identifier, [name], _ => some (.expr (.ident name .nowhere))
  | field, [name], [.expr base] => some (.expr (.field base (String.ofList name.toList.tail) .nowhere))
  | field, words, [] => (declared? words).map fun (type, name) => .field ⟨name, type⟩
  | index, _, [.expr base, .expr position] => some (.expr (.element base position .nowhere))
  | negate, _, [.expr operand] => some (.expr (.negate operand .nowhere))
  | binary, [word], [.expr left, .expr right] =>
    (Operator.ofSpelling? word).map fun op => .expr (.binary op left right .nowhere)
  | unary, [word], [.expr operand] => (UnaryOperator.ofSpelling? word).map fun op => .expr (.unary op operand .nowhere)
  | call, [name], parts => some (.expr (.call name (parts.filterMap Part.expr?) .nowhere))
  | declaration, words, parts => (declared? words).map fun (type, word) =>
    .statement (.declare {
      name := (declarator word).1, type, length := (declarator word).2, init := parts.findSome? Part.init?
      loc := .nowhere })
  | elements, _, parts => some (.init (.elements (parts.filterMap Part.expr?)))
  | fields, _, parts => some (.init (.fields (parts.filterMap Part.expr?)))
  | assignment, _, [.expr target, .expr value] => some (.statement (.assign ⟨target, value, .nowhere⟩))
  | branch, _, .condition e :: .thenArm ss :: parts =>
    some (.statement (.branch e ss (Part.alternative parts) .nowhere))
  | thenArm, _, parts => some (.thenArm (parts.filterMap Part.statement?))
  | elseIf, _, [.condition e, .thenArm ss] => some (.elseIf e ss)
  | otherwise, _, parts => some (.otherwise (parts.filterMap Part.statement?))
  | whileLoop, _, [.condition e, .body ss] => some (.statement (.whileLoop e ss .nowhere))
  | forLoop, _, parts => (parts.findSome? Part.body?).map fun ss =>
    .statement (.forLoop (parts.findSome? Part.start?) (parts.findSome? Part.condition?)
      (parts.findSome? Part.step?) ss .nowhere)
  | start, _, [.statement s] => some (.start s)
  | condition, _, [.expr e] => some (.condition e)
  | step, _, [.statement (.assign a)] => some (.step a)
  | body, _, parts => some (.body (parts.filterMap Part.statement?))
  | giveBack, _, parts => some (.statement (.giveBack (parts.findSome? Part.expr?) .nowhere))
  | leaveLoop, _, _ => some (.statement (.leaveLoop .nowhere))
  | nextRound, _, _ => some (.statement (.nextRound .nowhere))
  | evaluate, _, [.expr e] => some (.statement (.evaluate e))
  | struct, [name], parts => some (.item (.struct ⟨name, parts.filterMap Part.field?, .nowhere⟩))
  | parameter, words, _ => (declared? words).map fun (type, name) => .parameter ⟨name, type, .nowhere⟩
  | function, words, parts => do
    let (result, name) ← declared? words
    let body ← parts.findSome? Part.body?
    return .item (.function ⟨name, result, parts.filterMap Part.parameter?, body, .nowhere⟩)
  | program, _, parts => some (.program ⟨parts.filterMap Part.item?⟩)
  | _, _, _ => none

mutual

/-- What a tree stands for. -/
def Outline.part? : Outline → Option Part
  | .node label children => do
    let word :: arguments := words label | none
    (← Tag.ofWord? word).assemble arguments (← Outline.parts? children)

/-- What several trees stand for. -/
def Outline.parts? : List Outline → Option (List Part)
  | [] => some []
  | t :: ts => do
    return (← t.part?) :: (← Outline.parts? ts)

end

/-! ## Trees that are read back -/

/-- The tree can be drawn, and is read back as the part. -/
structure Shows (t : Outline) (part : Part) : Prop where
  oneLine : t.OneLine
  part?_eq : t.part? = some part

/-- The trees can be drawn, and are read back as the parts. -/
structure ShowAll (ts : List Outline) (parts : List Part) : Prop where
  oneLine : Outline.AllOneLine ts
  parts?_eq : Outline.parts? ts = some parts

namespace ShowAll

theorem nil : ShowAll [] [] := ⟨trivial, rfl⟩

/-- Trees in a row are read back one by one. -/
theorem cons {t : Outline} {ts : List Outline} {part : Part} {parts : List Part} (ht : Shows t part)
    (hts : ShowAll ts parts) : ShowAll (t :: ts) (part :: parts) :=
  ⟨⟨ht.oneLine, hts.oneLine⟩, by rw [Outline.parts?, ht.part?_eq, hts.parts?_eq]; rfl⟩

theorem singleton {t : Outline} {part : Part} (ht : Shows t part) : ShowAll [t] [part] := .cons ht .nil

/-- Two rows of trees are read back in turn. -/
theorem append {ts us : List Outline} {parts parts' : List Part} (hts : ShowAll ts parts) (hus : ShowAll us parts') :
    ShowAll (ts ++ us) (parts ++ parts') := by
  induction ts generalizing parts with
  | nil =>
    cases hts.parts?_eq
    exact hus
  | cons t ts ih =>
    obtain ⟨⟨ht, hts'⟩, hparts⟩ := hts
    rw [Outline.parts?] at hparts
    cases hpart : t.part? with
    | none => simp [hpart] at hparts
    | some part =>
      cases hrest : Outline.parts? ts with
      | none => simp [hpart, hrest] at hparts
      | some rest =>
        have heq : part :: rest = parts := by simpa [hpart, hrest] using hparts
        rw [← heq]
        exact cons ⟨ht, hpart⟩ (ih ⟨hts', hrest⟩)

theorem map {α : Type} {f : α → Outline} {g : α → Part} {xs : List α} (h : ∀ x ∈ xs, Shows (f x) (g x)) :
    ShowAll (xs.map f) (xs.map g) := by
  induction xs with
  | nil => exact nil
  | cons x xs ih => exact cons (h x List.mem_cons_self) (ih fun y hy => h y (List.mem_cons_of_mem _ hy))

end ShowAll

/-- A node is read back from its label and what hangs from it. -/
theorem Shows.node (tag : Tag) (arguments : List String) {label : String} {children : List Outline}
    {parts : List Part} {part : Part} (hlabel : label = labelText (tag.word :: arguments))
    (hwords : ∀ w ∈ arguments, IsWord w) (hchildren : ShowAll children parts)
    (hpart : tag.assemble arguments parts = some part) : Shows (.node label children) part := by
  have hall : ∀ w ∈ tag.word :: arguments, IsWord w := List.forall_mem_cons.2 ⟨tag.isWord_word, hwords⟩
  subst hlabel
  refine ⟨⟨notMem_labelText hall, hchildren.oneLine⟩, ?_⟩
  rw [Outline.part?, words_labelText hall, hchildren.parts?_eq]
  simp [Tag.ofWord?_word, hpart]

/-- A node whose label is the word for its kind. -/
theorem Shows.plain (tag : Tag) {children : List Outline} {parts : List Part} {part : Part}
    (hchildren : ShowAll children parts) (hpart : tag.assemble [] parts = some part) :
    Shows (.node tag.word children) part := .node tag [] rfl (by simp) hchildren hpart

/-- The parts of one kind, where all are of it. -/
theorem filterMap_map_part {α β : Type} (part : β → Part) (part? : Part → Option β) (h : ∀ b, part? (part b) = some b)
    (f : α → β) (xs : List α) : (xs.map fun a => part (f a)).filterMap part? = xs.map f := by
  rw [List.filterMap_map, ← List.filterMap_eq_map]
  congr 1
  exact funext fun a => h (f a)

/-! ## Expressions -/

theorem Expr.outlines_eq_map (es : List Expr) : Expr.outlines es = es.map Expr.outline :=
  eq_map_of_cons rfl (fun _ _ => rfl) es

/-- An expression is read back from its tree. -/
theorem Expr.shows_outline {e : Expr} (h : e.Marked Mark.IsLegible) : Shows e.outline (.expr e.unlocated) := by
  induction e with
  | number text loc => exact .node .number [text] rfl (by simpa using IsWord.of_isLiteral h.1) .nil rfl
  | ident name loc => exact .node .identifier [name] rfl (by simpa using IsWord.of_isIdentifier h.1) .nil rfl
  | field base name loc ih =>
    obtain ⟨hbase, hname, -⟩ := h
    have hword : IsWord ("." ++ name) := .append (by decide) (.of_isIdentifier hname)
    refine .node .field ["." ++ name] rfl (by simpa using hword) (.singleton (ih hbase)) ?_
    simp [Tag.assemble, unlocated]
  | element base index loc ihb ihi =>
    obtain ⟨hbase, hindex, -⟩ := h
    exact .plain .index (.cons (ihb hbase) (.singleton (ihi hindex))) rfl
  | negate operand loc ih => exact .plain .negate (.singleton (ih h.1)) rfl
  | binary op left right loc ihl ihr =>
    obtain ⟨hleft, hright, -⟩ := h
    refine .node .binary [op.spelling] rfl (by simpa using op.isWord_spelling)
      (.cons (ihl hleft) (.singleton (ihr hright))) ?_
    simp [Tag.assemble, Operator.ofSpelling?_spelling, unlocated]
  | unary op operand loc ih =>
    refine .node .unary [op.spelling] rfl (by simpa using op.isWord_spelling) (.singleton (ih h.1)) ?_
    simp [Tag.assemble, UnaryOperator.ofSpelling?_spelling, unlocated]
  | call name args loc ih =>
    obtain ⟨hname, hargs, -⟩ := h
    have hshows : ShowAll (Expr.outlines args) (args.map fun e => .expr e.unlocated) := by
      rw [outlines_eq_map]
      exact .map fun e he => ih e he (allMarked_iff.1 hargs e he)
    refine .node .call [name] rfl (by simpa using IsWord.of_isIdentifier hname) hshows ?_
    rw [Tag.assemble, filterMap_map_part .expr Part.expr? fun _ => rfl, unlocated, unlocatedAll_eq_map]

theorem Expr.showAll_outlines {es : List Expr} (h : Expr.AllMarked Mark.IsLegible es) :
    ShowAll (Expr.outlines es) (es.map fun e => .expr e.unlocated) := by
  rw [outlines_eq_map]
  exact .map fun e he => shows_outline (allMarked_iff.1 h e he)

/-! ## Declarations and assignments -/

/-- What hangs from the declaration of a variable tells what it holds at first. -/
theorem Initializer.exists_showAll_outlines {init : Initializer} (h : init.Marked Mark.IsLegible) :
    ∃ parts, ShowAll init.outlines parts ∧ parts.findSome? Part.init? = some init.unlocated := by
  cases init with
  | value e => exact ⟨_, .singleton (Expr.shows_outline h), rfl⟩
  | elements es =>
    refine ⟨[.init (.elements (es.map Expr.unlocated))],
      .singleton (.plain .elements (Expr.showAll_outlines h) ?_), rfl⟩
    rw [Tag.assemble, filterMap_map_part .expr Part.expr? fun _ => rfl]
  | fields es =>
    refine ⟨[.init (.fields (es.map Expr.unlocated))],
      .singleton (.plain .fields (Expr.showAll_outlines h) ?_), rfl⟩
    rw [Tag.assemble, filterMap_map_part .expr Part.expr? fun _ => rfl]

/-- A declaration is read back from its tree. -/
theorem Variable.shows_outline {decl : Variable} (h : decl.Marked Mark.IsLegible) :
    Shows decl.outline (.statement (.declare decl.unlocated)) := by
  have hinit : ∃ parts, ShowAll (decl.init.toList.flatMap Initializer.outlines) parts ∧
      parts.findSome? Part.init? = decl.init.map Initializer.unlocated := by
    cases hdecl : decl.init with
    | none => exact ⟨[], .nil, rfl⟩
    | some init => simpa using Initializer.exists_showAll_outlines (h.init init (by rw [hdecl]; rfl))
  obtain ⟨parts, hparts, hvalue⟩ := hinit
  -- the length is part of the last word
  have hword : IsWord (decl.name ++ lengthText decl.length) := .append (.of_isIdentifier h.name) (isWord_lengthText _)
  refine .node .declaration (decl.type.words ++ [decl.name ++ lengthText decl.length]) ?_
    (DataType.isWord_of_mem_append h.type hword) hparts ?_
  · rw [← labelText_words_append, ← String.append_assoc]
    rfl
  · simp only [Tag.assemble, declared?_words, Option.map_some, declarator_append h.name, hvalue]
    rfl

/-- An assignment is read back from its tree. -/
theorem Assignment.shows_outline {a : Assignment} (h : a.Marked Mark.IsLegible) :
    Shows a.outline (.statement (.assign a.unlocated)) :=
  .plain .assignment (.cons (Expr.shows_outline h.target) (.singleton (Expr.shows_outline h.value))) rfl

theorem shows_conditionOutline {e : Expr} (h : e.Marked Mark.IsLegible) :
    Shows (conditionOutline e) (.condition e.unlocated) := .plain .condition (.singleton (Expr.shows_outline h)) rfl

/-! ## Statements -/

theorem filterMap_statement? (ss : List Statement) :
    (ss.map fun s => Part.statement s.unlocated).filterMap Part.statement? = Statement.unlocatedAll ss := by
  rw [Statement.unlocatedAll_eq_map]
  exact filterMap_map_part .statement Part.statement? (fun _ => rfl) Statement.unlocated ss

theorem ShowAll.toList {α : Type} {f : α → Outline} {g : α → Part} {x : Option α} (h : ∀ a ∈ x, Shows (f a) (g a)) :
    ShowAll (x.toList.map f) (x.toList.map g) := .map fun a ha => h a (Option.mem_toList.1 ha)

/-- The first arm of a branch. -/
theorem Shows.thenArm {body : List Statement}
    (h : ShowAll (Statement.outlines body) (body.map fun s => .statement s.unlocated)) :
    Shows (.node "Then" (Statement.outlines body)) (.thenArm (Statement.unlocatedAll body)) :=
  .plain .thenArm h (by rw [Tag.assemble, filterMap_statement?])

/-- The body of a loop or of a function. -/
theorem Shows.body {body : List Statement}
    (h : ShowAll (Statement.outlines body) (body.map fun s => .statement s.unlocated)) :
    Shows (.node "Body" (Statement.outlines body)) (.body (Statement.unlocatedAll body)) :=
  .plain .body h (by rw [Tag.assemble, filterMap_statement?])

/-- A `for` loop is read back from its parts. -/
theorem Statement.shows_forLoop {start : Option Statement} {condition : Option Expr} {step : Option Assignment}
    {body : List Statement} {loc : Location} (hstart : ∀ s ∈ start, Shows s.outline (.statement s.unlocated))
    (hcondition : ∀ e ∈ condition, e.Marked Mark.IsLegible) (hstep : ∀ a ∈ step, a.Marked Mark.IsLegible)
    (hbody : ShowAll (outlines body) (body.map fun s => .statement s.unlocated)) :
    Shows (forLoop start condition step body loc).outline
      (.statement (forLoop start condition step body loc).unlocated) := by
  -- what a loop lacks is not drawn, and what it has is told by the label above it
  have hstarts : ShowAll (start.toList.map fun s => .node "Init" [s.outline])
      (start.toList.map fun s => .start s.unlocated) :=
    .toList fun s hs => .plain .start (.singleton (hstart s hs)) rfl
  have hconditions : ShowAll (condition.toList.map conditionOutline)
      (condition.toList.map fun e => .condition e.unlocated) :=
    .toList fun e he => shows_conditionOutline (hcondition e he)
  have hsteps : ShowAll (step.toList.map fun a => .node "Increment" [a.outline])
      (step.toList.map fun a => .step a.unlocated) :=
    .toList fun a ha => .plain .step (.singleton (Assignment.shows_outline (hstep a ha))) rfl
  rw [unlocated_forLoop, ← unlocatedAll_eq_map]
  cases start <;>
    exact .plain .forLoop (((hstarts.append hconditions).append hsteps).append (.singleton (.body hbody)))
      (by cases condition <;> cases step <;> rfl)

mutual

/-- A statement is read back from its tree. -/
theorem Statement.shows_outline :
    ∀ {s : Statement}, s.Marked Mark.IsLegible → Shows s.outline (.statement s.unlocated)
  | .declare _, h => Variable.shows_outline h
  | .assign _, h => Assignment.shows_outline h
  | .branch _ _ _ _, ⟨hcondition, hbody, halternative, _⟩ => by
    obtain ⟨parts, hparts, hrest⟩ := Alternative.exists_showAll_outlines halternative
    have hthen := Shows.thenArm (Statement.showAll_outlines hbody)
    refine .plain .branch (.cons (shows_conditionOutline hcondition) (.cons hthen hparts)) ?_
    rw [Tag.assemble, hrest]
    rfl
  | .whileLoop _ _ _, ⟨hcondition, hbody, _⟩ =>
    .plain .whileLoop
      (.cons (shows_conditionOutline hcondition) (.singleton (.body (Statement.showAll_outlines hbody)))) rfl
  | .forLoop none _ _ _ _, ⟨hcondition, hstep, hbody, _⟩ =>
    Statement.shows_forLoop nofun hcondition hstep (Statement.showAll_outlines hbody)
  | .forLoop (some _) _ _ _ _, ⟨hstart, hcondition, hstep, hbody, _⟩ =>
    Statement.shows_forLoop (by simpa using Statement.shows_outline hstart) hcondition hstep
      (Statement.showAll_outlines hbody)
  | .giveBack value _, ⟨hvalue, _⟩ => by
    refine .plain .giveBack (.toList fun e he => Expr.shows_outline (hvalue e he)) ?_
    cases value <;> rfl
  | .leaveLoop _, _ => .plain .leaveLoop .nil rfl
  | .nextRound _, _ => .plain .nextRound .nil rfl
  | .evaluate _, h => .plain .evaluate (.singleton (Expr.shows_outline h)) rfl

/-- The arms of a branch behind the first are read back. -/
theorem Alternative.exists_showAll_outlines : ∀ {a : Alternative}, a.Marked Mark.IsLegible →
    ∃ parts, ShowAll a.outlines parts ∧ Part.alternative parts = a.unlocated
  | .nothing, _ => ⟨[], .nil, rfl⟩
  | .elseIf _ _ _, ⟨hcondition, hbody, halternative⟩ => by
    obtain ⟨parts, hparts, hrest⟩ := Alternative.exists_showAll_outlines halternative
    have hthen := Shows.thenArm (Statement.showAll_outlines hbody)
    refine ⟨_, .cons (.plain .elseIf (.cons (shows_conditionOutline hcondition) (.singleton hthen)) rfl) hparts, ?_⟩
    rw [Part.alternative, hrest]
    rfl
  | .otherwise _, h =>
    ⟨_, .singleton (.plain .otherwise (Statement.showAll_outlines h) (by rw [Tag.assemble, filterMap_statement?])), rfl⟩

theorem Statement.showAll_outlines : ∀ {ss : List Statement}, Statement.AllMarked Mark.IsLegible ss →
    ShowAll (Statement.outlines ss) (ss.map fun s => .statement s.unlocated)
  | [], _ => .nil
  | _ :: _, h => .cons (Statement.shows_outline h.1) (Statement.showAll_outlines h.2)

end

/-! ## Programs -/

/-- A node whose label has a type and a name. -/
theorem Shows.typed (tag : Tag) {type : DataType} {name : String} (htype : type.Marked Mark.IsLegible)
    (hname : isIdentifier name) {children : List Outline} {parts : List Part} {part : Part}
    (hchildren : ShowAll children parts) (hpart : tag.assemble (type.words ++ [name]) parts = some part) :
    Shows (.node (tag.word ++ " " ++ type.spelling ++ " " ++ name) children) part :=
  .node tag (type.words ++ [name]) (labelText_words_append ..)
    (DataType.isWord_of_mem_append htype (.of_isIdentifier hname)) hchildren hpart

/-- A struct is read back from its tree. -/
theorem Struct.shows_outline {decl : Struct} (h : decl.Marked Mark.IsLegible) :
    Shows decl.outline (.item (.struct decl.unlocated)) := by
  have hfields : ShowAll (decl.fields.map fun field => .leaf ("Field " ++ field.type.spelling ++ " " ++ field.name))
      (decl.fields.map Part.field) := by
    refine .map fun field hfield => ?_
    obtain ⟨hname, htype⟩ := h.fields field hfield
    exact .typed .field htype hname .nil (by rw [Tag.assemble, declared?_words]; rfl)
  refine .node .struct [decl.name] rfl (by simpa using IsWord.of_isIdentifier h.name) hfields ?_
  have hall : (decl.fields.map Part.field).filterMap Part.field? = decl.fields.map id :=
    filterMap_map_part .field Part.field? (fun _ => rfl) id decl.fields
  rw [Tag.assemble, hall, List.map_id]
  rfl

/-- A function is read back from its tree. -/
theorem Function.shows_outline {f : Function} (h : f.Marked Mark.IsLegible) :
    Shows f.outline (.item (.function f.unlocated)) := by
  have hparameters : ShowAll (f.parameters.map fun p => .leaf ("Param " ++ p.type.spelling ++ " " ++ p.name))
      (f.parameters.map fun p => .parameter p.unlocated) := by
    refine .map fun p hp => ?_
    obtain ⟨hname, htype, -⟩ := h.parameters p hp
    exact .typed .parameter htype hname .nil (by rw [Tag.assemble, declared?_words]; rfl)
  refine .typed .function h.result h.name
    (hparameters.append (.singleton (.body (Statement.showAll_outlines h.body)))) ?_
  have hall : (f.parameters.map fun p => Part.parameter p.unlocated).filterMap Part.parameter? =
      f.parameters.map Parameter.unlocated := filterMap_map_part .parameter Part.parameter? (fun _ => rfl) _ _
  have hbody : (f.parameters.map fun p => Part.parameter p.unlocated).findSome? Part.body? = none := by
    simp [Part.body?]
  simp [Tag.assemble, declared?_words, List.findSome?_append, hall, hbody, Part.body?, Part.parameter?,
    Function.unlocated]

/-- An item is read back from its tree. -/
theorem Item.shows_outline {item : Item} (h : item.Marked Mark.IsLegible) :
    Shows item.outline (.item item.unlocated) := by
  cases item with
  | struct decl => exact Struct.shows_outline h
  | function f => exact Function.shows_outline h

/-- The tree of a program is read back as the program. -/
theorem Program.shows_outline {program : Program} (h : program.Marked Mark.IsLegible) :
    Shows program.outline (.program program.unlocated) := by
  refine .plain .program (.map fun item hitem => Item.shows_outline (h item hitem)) ?_
  rw [Tag.assemble, filterMap_map_part .item Part.item? fun _ => rfl]
  rfl

/-- The program that a text is the drawing of. -/
def Program.ofDrawing? (text : String) : Option Program := do
  let .program program ← (Outline.ofDrawing text).part? | none
  return program

theorem Program.ofDrawing?_drawing {program : Program} (h : program.Marked Mark.IsLegible) :
    ofDrawing? program.drawing = some program.unlocated := by
  obtain ⟨hline, hpart⟩ := shows_outline h
  rw [ofDrawing?, drawing, Outline.ofDrawing_draw hline, hpart]
  rfl

/-! ## Source texts -/

/-- The names in a source text are identifiers, and its numbers are literals. -/
theorem Scan.marked_isLegible (source : String) : (ofSource source).Marked Mark.IsLegible where
  tokens {stream} hstream t ht := by
    have hlexemes : (ofSource source).lexemes? = some (stream.tokens.map (·.lexeme)) := by
      rw [lexemes?, hstream]
      rfl
    refine ⟨trivial, fun name hname => ?_, fun text htext => ?_⟩
    · exact isIdentifier_of_mem hlexemes (List.mem_map.2 ⟨t, ht, hname⟩)
    · exact .of_isNumeral (isNumeral_of_mem hlexemes (List.mem_map.2 ⟨t, ht, htext⟩))
  eof _ := trivial
  error _ := trivial
  warnings _ _ _ _ := trivial

/-- Programs whose names are identifiers and whose numbers are literals, as those of source texts are, are told up to
locations by their drawings: the drawing can be read back. -/
theorem drawing_faithful :
    (∀ p : Program, p.Marked Mark.IsLegible → Program.ofDrawing? p.drawing = some p.unlocated) ∧
      (∀ p q : Program, p.Marked Mark.IsLegible → q.Marked Mark.IsLegible → p.drawing = q.drawing →
        p.unlocated = q.unlocated) ∧
      ∀ source parsed, (parse source).outcome = .ok parsed → parsed.program.Marked Mark.IsLegible := by
  refine ⟨fun p hp => Program.ofDrawing?_drawing hp, fun p q hp hq h => ?_, fun source parsed h => ?_⟩
  · have hboth : some p.unlocated = some q.unlocated := by
      rw [← Program.ofDrawing?_drawing hp, h, Program.ofDrawing?_drawing hq]
    exact Option.some.inj hboth
  · exact ((parse_marked Mark.closed_isLegible (Scan.marked_isLegible source)).ok h).1

/-- A program with a struct, an array, a number with a sign and a branch, all of it at one place. -/
def drawnProgram (loc : Location) : Program where
  items := [
    .struct ⟨"P", [⟨"x", .int⟩], loc⟩,
    .function ⟨"f", .int, [⟨"p", .struct "P", loc⟩], [
      .declare ⟨"a", .int, some 2, some (.elements [.number "1" loc, .number "-2" loc]), loc⟩,
      .branch (.binary .lt (.field (.ident "p" loc) "x" loc) (.number "0" loc) loc)
        [.giveBack (some (.element (.ident "a" loc) (.number "0" loc) loc)) loc] .nothing loc], loc⟩]

theorem drawing_faithful_drawnProgram :
    drawnProgram ⟨1, 1⟩ ≠ drawnProgram ⟨2, 5⟩ ∧
      (drawnProgram ⟨1, 1⟩).Marked Mark.IsLegible ∧ (drawnProgram ⟨2, 5⟩).Marked Mark.IsLegible ∧
      (drawnProgram ⟨1, 1⟩).unlocated = (drawnProgram ⟨2, 5⟩).unlocated ∧
      Program.ofDrawing? (drawnProgram ⟨1, 1⟩).drawing = some (drawnProgram ⟨2, 5⟩).unlocated ∧
      ∃ parsed, (parse "int f(){return -2;}").outcome = .ok parsed ∧ parsed.program.Marked Mark.IsLegible := by
  have hlegible : ∀ loc, (drawnProgram loc).Marked Mark.IsLegible := by
    intro loc
    have hnames : ∀ name ∈ ["P", "x", "f", "p", "a"], isIdentifier name := by decide +kernel
    simp only [List.forall_mem_cons, List.not_mem_nil, false_imp_iff, implies_true, and_true] at hnames
    obtain ⟨hP, hx, hf, hp, ha⟩ := hnames
    have hnumber : ∀ {text : String}, isNumeral text → (Expr.number text loc).Marked Mark.IsLegible :=
      fun h => ⟨.of_isNumeral h, trivial⟩
    have hstruct : Struct.Marked Mark.IsLegible ⟨"P", [⟨"x", .int⟩], loc⟩ :=
      ⟨hP, List.forall_mem_singleton.2 ⟨hx, trivial⟩, trivial⟩
    refine List.forall_mem_cons.2 ⟨hstruct, List.forall_mem_singleton.2 ⟨hf, trivial, ?_, ?_, trivial⟩⟩
    · exact List.forall_mem_singleton.2 ⟨hp, hP, trivial⟩
    · refine ⟨⟨ha, trivial, ?_, trivial⟩, ⟨?_, ⟨⟨?_, trivial⟩, trivial⟩, trivial, trivial⟩, trivial⟩
      · rintro init ⟨⟩
        exact ⟨hnumber rfl, ⟨⟨"2", rfl, .inr rfl⟩, trivial⟩, trivial⟩
      · exact ⟨⟨⟨hp, trivial⟩, hx, trivial⟩, hnumber rfl, trivial⟩
      · rintro e ⟨⟩
        exact ⟨⟨ha, trivial⟩, hnumber rfl, trivial⟩
  have hparsed : ∃ parsed, (parse "int f(){return -2;}").outcome = .ok parsed := by
    have hok : (parse "int f(){return -2;}").outcome.toBool = true := by decide +kernel
    cases houtcome : (parse "int f(){return -2;}").outcome with
    | ok parsed => exact ⟨parsed, rfl⟩
    | error e => rw [houtcome] at hok; cases hok
  obtain ⟨parsed, hparsed⟩ := hparsed
  obtain ⟨hdecode, htold, hparse⟩ := drawing_faithful
  exact ⟨by simp [drawnProgram], hlegible _, hlegible _, htold _ _ (hlegible _) (hlegible _) rfl,
    hdecode _ (hlegible ⟨1, 1⟩), parsed, hparsed, hparse _ _ hparsed⟩

end ClockedC
