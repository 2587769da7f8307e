import ClockedC.Proofs.Reading.Marks

/-!
# Names that are read are identifiers

Every name in a program that is read from a source text stands there as an identifier: names are marks, and the names
among the tokens are identifiers. Numbers and locations do not count here.
-/

namespace ClockedC

/-! ## Trees whose names are identifiers -/

mutual

/-- Every name in an expression is an identifier. -/
def Expr.Named : Expr → Prop
  | .number _ _ => True
  | .ident name _ => isIdentifier name
  | .field base name _ => base.Named ∧ isIdentifier name
  | .element base index _ => base.Named ∧ index.Named
  | .negate operand _ => operand.Named
  | .binary _ left right _ => left.Named ∧ right.Named
  | .unary _ operand _ => operand.Named
  | .call name args _ => isIdentifier name ∧ Expr.AllNamed args

/-- Every name in several expressions is an identifier. -/
def Expr.AllNamed : List Expr → Prop
  | [] => True
  | e :: es => e.Named ∧ Expr.AllNamed es

end

/-- The names of several expressions are identifiers if those of each are. -/
theorem Expr.allNamed_iff {es : List Expr} : Expr.AllNamed es ↔ ∀ e ∈ es, e.Named :=
  forall_iff_of_cons trivial (fun _ _ => .rfl) es

/-- The name of the struct, if the type is one, is an identifier. -/
def DataType.Named : DataType → Prop
  | struct name => isIdentifier name
  | _ => True

/-- Every name in the first value of a variable is an identifier. -/
def Initializer.Named : Initializer → Prop
  | value e => e.Named
  | elements es => Expr.AllNamed es
  | fields es => Expr.AllNamed es

/-- Every name in a declaration is an identifier. -/
structure Variable.Named (decl : Variable) : Prop where
  name : isIdentifier decl.name
  type : decl.type.Named
  init : ∀ init ∈ decl.init, init.Named

/-- Every name in an assignment is an identifier. -/
structure Assignment.Named (assignment : Assignment) : Prop where
  target : assignment.target.Named
  value : assignment.value.Named

mutual

/-- Every name in a statement is an identifier. -/
def Statement.Named : Statement → Prop
  | .declare decl => decl.Named
  | .assign assignment => assignment.Named
  | .branch condition body alternative _ => condition.Named ∧ Statement.AllNamed body ∧ alternative.Named
  | .whileLoop condition body _ => condition.Named ∧ Statement.AllNamed body
  | .forLoop none condition step body _ =>
    (∀ e ∈ condition, e.Named) ∧ (∀ a ∈ step, a.Named) ∧ Statement.AllNamed body
  | .forLoop (some start) condition step body _ =>
    start.Named ∧ (∀ e ∈ condition, e.Named) ∧ (∀ a ∈ step, a.Named) ∧ Statement.AllNamed body
  | .giveBack value _ => ∀ e ∈ value, e.Named
  | .leaveLoop _ => True
  | .nextRound _ => True
  | .evaluate value => value.Named

/-- Every name in the remaining arms of a branch is an identifier. -/
def Alternative.Named : Alternative → Prop
  | .nothing => True
  | .elseIf condition body alternative => condition.Named ∧ Statement.AllNamed body ∧ alternative.Named
  | .otherwise body => Statement.AllNamed body

/-- Every name in several statements is an identifier. -/
def Statement.AllNamed : List Statement → Prop
  | [] => True
  | s :: ss => s.Named ∧ Statement.AllNamed ss

end

/-- Every name in a field is an identifier. -/
def Field.Named (field : Field) : Prop := isIdentifier field.name ∧ field.type.Named

/-- Every name in a parameter is an identifier. -/
def Parameter.Named (p : Parameter) : Prop := isIdentifier p.name ∧ p.type.Named

/-- Every name in a struct is an identifier. -/
structure Struct.Named (decl : Struct) : Prop where
  name : isIdentifier decl.name
  fields : ∀ field ∈ decl.fields, field.Named

/-- Every name in a function is an identifier. -/
structure Function.Named (f : Function) : Prop where
  name : isIdentifier f.name
  result : f.result.Named
  parameters : ∀ p ∈ f.parameters, p.Named
  body : Statement.AllNamed f.body

/-- Every name in an item is an identifier. -/
def Item.Named : Item → Prop
  | struct decl => decl.Named
  | function f => f.Named

/-! ## Names as marks -/

/-- A name is an identifier. -/
def Mark.IsNamed : Mark → Prop
  | .name text => isIdentifier text
  | .number _ => True
  | .location _ => True

/-- Nothing is asked of numbers. -/
theorem Mark.closed_isNamed : Mark.Closed Mark.IsNamed := ⟨trivial, trivial, fun _ _ => trivial, fun _ _ => trivial⟩

mutual

/-- The names among the marks of an expression are all its names. -/
theorem Expr.Marked.named (e : Expr) (h : e.Marked Mark.IsNamed) : e.Named := by
  cases e with
  | number text loc => trivial
  | ident name loc => exact h.1
  | field base name loc => exact ⟨Expr.Marked.named base h.1, h.2.1⟩
  | element base index loc => exact ⟨Expr.Marked.named base h.1, Expr.Marked.named index h.2.1⟩
  | negate operand loc => exact Expr.Marked.named operand h.1
  | binary op left right loc => exact ⟨Expr.Marked.named left h.1, Expr.Marked.named right h.2.1⟩
  | unary op operand loc => exact Expr.Marked.named operand h.1
  | call name args loc => exact ⟨h.1, Expr.AllMarked.named args h.2.1⟩

theorem Expr.AllMarked.named (es : List Expr) (h : Expr.AllMarked Mark.IsNamed es) : Expr.AllNamed es := by
  cases es with
  | nil => trivial
  | cons e es => exact ⟨Expr.Marked.named e h.1, Expr.AllMarked.named es h.2⟩

end

theorem DataType.Marked.named {type : DataType} (h : type.Marked Mark.IsNamed) : type.Named := by
  cases type with
  | struct name => exact h
  | _ => trivial

theorem Initializer.Marked.named {init : Initializer} (h : init.Marked Mark.IsNamed) : init.Named := by
  cases init with
  | value e => exact Expr.Marked.named e h
  | elements es => exact Expr.AllMarked.named es h
  | fields es => exact Expr.AllMarked.named es h

theorem Variable.Marked.named {decl : Variable} (h : decl.Marked Mark.IsNamed) : decl.Named :=
  ⟨h.name, h.type.named, fun init hinit => (h.init init hinit).named⟩

theorem Assignment.Marked.named {assignment : Assignment} (h : assignment.Marked Mark.IsNamed) : assignment.Named :=
  ⟨Expr.Marked.named _ h.target, Expr.Marked.named _ h.value⟩

mutual

theorem Statement.Marked.named (s : Statement) (h : s.Marked Mark.IsNamed) : s.Named := by
  cases s with
  | declare decl => exact Variable.Marked.named h
  | assign assignment => exact Assignment.Marked.named h
  | branch condition body alternative loc =>
    exact ⟨Expr.Marked.named _ h.1, Statement.AllMarked.named body h.2.1, Alternative.Marked.named alternative h.2.2.1⟩
  | whileLoop condition body loc => exact ⟨Expr.Marked.named _ h.1, Statement.AllMarked.named body h.2.1⟩
  | forLoop start condition step body loc =>
    cases start with
    | none =>
      obtain ⟨hcondition, hstep, hbody, -⟩ := h
      exact ⟨fun e he => Expr.Marked.named e (hcondition e he), fun a ha => (hstep a ha).named,
        Statement.AllMarked.named body hbody⟩
    | some start =>
      obtain ⟨hstart, hcondition, hstep, hbody, -⟩ := h
      exact ⟨Statement.Marked.named start hstart, fun e he => Expr.Marked.named e (hcondition e he),
        fun a ha => (hstep a ha).named, Statement.AllMarked.named body hbody⟩
  | giveBack value loc => exact fun e he => Expr.Marked.named e (h.1 e he)
  | leaveLoop loc => trivial
  | nextRound loc => trivial
  | evaluate value => exact Expr.Marked.named value h

theorem Alternative.Marked.named (alternative : Alternative) (h : alternative.Marked Mark.IsNamed) :
    alternative.Named := by
  cases alternative with
  | nothing => trivial
  | elseIf condition body rest =>
    exact ⟨Expr.Marked.named _ h.1, Statement.AllMarked.named body h.2.1, Alternative.Marked.named rest h.2.2⟩
  | otherwise body => exact Statement.AllMarked.named body h

theorem Statement.AllMarked.named (ss : List Statement) (h : Statement.AllMarked Mark.IsNamed ss) :
    Statement.AllNamed ss := by
  cases ss with
  | nil => trivial
  | cons s ss => exact ⟨Statement.Marked.named s h.1, Statement.AllMarked.named ss h.2⟩

end

theorem Item.Marked.named {item : Item} (h : item.Marked Mark.IsNamed) : item.Named := by
  cases item with
  | struct decl => exact ⟨h.name, fun field hfield => (h.fields field hfield).imp_right DataType.Marked.named⟩
  | function f =>
    refine ⟨h.name, h.result.named, fun p hp => ?_, Statement.AllMarked.named _ h.body⟩
    obtain ⟨hname, htype, -⟩ := h.parameters p hp
    exact ⟨hname, htype.named⟩

/-! ## Names among the tokens -/

/-- The names among the tokens not yet read are identifiers. -/
def Reader.HasIdentifiers (r : Reader) : Prop :=
  ∀ t ∈ r.rest, ∀ name, t.lexeme = .identifier name → isIdentifier name

namespace Reader.HasIdentifiers

/-- Numbers, locations and reports count for nothing. -/
theorem iff_marked {r : Reader} : r.HasIdentifiers ↔ r.Marked Mark.IsNamed := by
  constructor
  · intro h
    exact ⟨fun t ht => ⟨trivial, h t ht, fun _ _ => trivial⟩, trivial, fun _ _ _ _ => trivial,
      fun _ _ _ _ _ _ => trivial⟩
  · intro h t ht
    exact (h.rest t ht).name

/-- A reader at the beginning of a source text has identifiers before it. -/
theorem of_ofSource {source : String} {r : Reader} (h : Reader.ofSource source = .ok r) : r.HasIdentifiers :=
  fun _ ht _ hname => Scan.isIdentifier_of_mem (lexemes?_of_ofSource h) (List.mem_map.2 ⟨_, ht, hname⟩)

end Reader.HasIdentifiers

namespace Grammar

variable {α : Type} {Ok : α → Prop}

/-- Where the names among the tokens are identifiers, the step gives values with a property, and the names among the
tokens behind it are identifiers too. -/
structure Yields (Ok : α → Prop) (p : ReadM α) : Prop where
  of_ok : ∀ {r r' : Reader} {a : α}, r.HasIdentifiers → p.run r = .ok a r' → Ok a ∧ r'.HasIdentifiers

namespace Yields

/-- A step that carries over from its tokens that names are identifiers. -/
theorem of_keeps {Kept : α → Prop} {p : ReadM α} (hp : Keeps Mark.IsNamed Kept p) (hkept : ∀ a, Kept a → Ok a) :
    Yields Ok p := by
  constructor
  intro r r' a hr hrun
  have hmarked := hp.kept (Reader.HasIdentifiers.iff_marked.1 hr)
  rw [hrun] at hmarked
  exact ⟨hkept a hmarked.1, Reader.HasIdentifiers.iff_marked.2 hmarked.2⟩

/-- The names of an expression that is read are identifiers. -/
theorem expression : Yields Expr.Named expression := of_keeps (.expression Mark.closed_isNamed) Expr.Marked.named

/-- Every name in a program is an identifier. -/
theorem program : Yields (fun p : Program => ∀ i ∈ p.items, i.Named) program :=
  of_keeps (.program Mark.closed_isNamed) fun _ hp i hi => (hp i hi).named

end Yields

end Grammar

end ClockedC
